import Socketpp.Socket.OptionPasses

/-!
# Durations on their way to the system

`tcp_user_timeout`, `tcp_defer_accept`, `keep_alive_idle` and
`keep_alive_interval` (`include/socketpp/socket/options.hpp`) take a
`std::chrono` duration, cast its count to `int` and store its bytes; `read_int`
(`src/socket/options.cpp`) reads them back. On Windows the last two are kept
until the end of the pass and multiplied by 1000 there, in `int`.

What the system is handed (`handed`) is what was asked for (`asked`) exactly if
every duration fits (`durations_unchanged_iff`): into an `int`, and on Windows
its milliseconds too, which become a `ULONG`. A longer one is not refused; it is
handed over modulo `2^32`.
-/

namespace Socketpp

open Requests

namespace SocketOptions

/-- The options that take a duration. -/
inductive DurationOption where
  | userTimeout
  | deferAccept
  | idle
  | interval
  deriving DecidableEq, Repr

/-- The option and the count that a call is given. -/
def Setter.duration? : Setter → Option (DurationOption × Int)
  | .tcpUserTimeout d => some (.userTimeout, d)
  | .tcpDeferAccept d => some (.deferAccept, d)
  | .keepAliveIdle d => some (.idle, d)
  | .keepAliveInterval d => some (.interval, d)
  | _ => none

/-- The last duration given for an option, after `last`. -/
def lastFrom (opt : DurationOption) (last : Option Int) (calls : List Setter) : Option Int :=
  calls.foldl
    (fun last c => c.duration?.elim last fun p => if p.1 = opt then some p.2 else last) last

/-- The one request of Windows, in milliseconds and with the defaults of
`apply_windows_keepalive`. -/
def askedKeepalive (idle interval : Option Int) : List (DurationOption × Int) :=
  if idle.isSome || interval.isSome then
    [(.idle, idle.elim 7200000 (· * 1000)), (.interval, interval.elim 1000 (· * 1000))]
  else []

/-- What the system should be handed, in the unit of its option. -/
def asked (os : Os) (calls : List Setter) : List (DurationOption × Int) :=
  match os with
  | .linux | .macos => calls.filterMap Setter.duration?
  | .windows => askedKeepalive (lastFrom .idle none calls) (lastFrom .interval none calls)

/-- The durations in a request, as the system reads them. -/
def durationsOf : SockRequest → List (DurationOption × Int)
  | .setInt _ .tcpUserTimeout v => [(.userTimeout, v.toInt)]
  | .setInt _ .tcpDeferAccept v => [(.deferAccept, v.toInt)]
  | .setInt _ .tcpKeepidle v | .setInt _ .tcpKeepalive v => [(.idle, v.toInt)]
  | .setInt _ .tcpKeepintvl v => [(.interval, v.toInt)]
  | .keepaliveVals _ time interval => [(.idle, time.toNat), (.interval, interval.toNat)]
  | _ => []

def handed (requests : List SockRequest) : List (DurationOption × Int) :=
  requests.flatMap durationsOf

end SocketOptions

/-- The product with 1000 is an `int`; if it is not, it is undefined. -/
def IntProduct (seconds : BitVec 32) : Prop :=
  -2 ^ 31 ≤ seconds.toInt * 1000 ∧ seconds.toInt * 1000 < 2 ^ 31

/-- Both products of `apply_windows_keepalive` are defined. -/
def WinKeepAlive.Defined (ka : WinKeepAlive) : Prop :=
  (∀ v ∈ ka.idle, IntProduct v) ∧ ∀ v ∈ ka.interval, IntProduct v

namespace SocketOptions

/-- Applying the options reports an error, or hands over what was asked for. -/
def Unchanged {K : Type} (k : Kernel K) (os : Os) (skip : Bool) (calls : List Setter) (s : K) :
    Prop :=
  (∃ ec, ((build os calls).applyEntries k os skip (.start s)).2 = .error ec) ∨
    ((build os calls).entries.foldl (deferred os) {}).Defined ∧
      handed ((build os calls).applyEntries k os skip (.start s)).1.requests = asked os calls

/-- The library refuses one of the options that the pass comes to. -/
def Refused (os : Os) (skip : Bool) (calls : List Setter) : Prop :=
  ∃ e ∈ (build os calls).entries, ¬ (skip && isMulticastEntry e.id) = true ∧ ¬ e.Accepted os

/-- The number fits what the system takes. -/
def Fits (os : Os) (n : Int) : Prop :=
  match os with
  | .linux | .macos => -2 ^ 31 ≤ n ∧ n < 2 ^ 31
  | .windows => 0 ≤ n ∧ n < 2 ^ 31

/-! ## The entries of a call -/

/-- What a call adds. -/
def Setter.entries (os : Os) (c : Setter) : List OptionEntry := (set os {} c).entries

theorem entries_set (os : Os) (o : SocketOptions) (c : Setter) :
    (set os o c).entries = o.entries ++ c.entries os := by
  cases c with
  | exclusiveAddr enable | keepAliveCount count => cases os <;> rfl
  | bufProfile sendSize recvSize => exact List.append_assoc ..
  | _ => rfl

theorem entries_build (os : Os) (calls : List Setter) :
    (build os calls).entries = calls.flatMap (Setter.entries os) := by
  have hfold : ∀ o : SocketOptions,
      (calls.foldl (set os) o).entries = o.entries ++ calls.flatMap (Setter.entries os) := by
    induction calls with
    | nil => exact fun o => (List.append_nil _).symm
    | cons c calls ih =>
      intro o
      rw [List.foldl_cons, ih, entries_set, List.append_assoc, List.flatMap_cons]
  exact hfold {}

def isDurationId : SocketOptionId → Bool
  | .tcpUserTimeout | .tcpDeferAccept | .keepAliveIdle | .keepAliveInterval => true
  | _ => false

theorem not_isDurationId_of_multicast {id : SocketOptionId} (h : isMulticastEntry id = true) :
    isDurationId id = false := by
  cases id with
  | multicastJoin | multicastLeave => rfl
  | _ => cases h

theorem not_isDurationId_of_duration_none {os : Os} {c : Setter} (h : c.duration? = none) :
    ∀ e ∈ c.entries os, isDurationId e.id = false := by
  intro e he
  cases c with
  | tcpUserTimeout | tcpDeferAccept | keepAliveIdle | keepAliveInterval => cases h
  | exclusiveAddr | keepAliveCount =>
    cases os <;>
    · rw [List.mem_singleton.1 he]
      rfl
  | bufProfile sendSize recvSize =>
    rcases List.mem_cons.1 he with rfl | he
    · rfl
    · rw [List.mem_singleton.1 he]
      rfl
  | _ =>
    rw [List.mem_singleton.1 he]
    rfl

/-- The durations in the request of an entry. -/
def entryDurations (os : Os) (e : OptionEntry) : List (DurationOption × Int) :=
  (e.request? os).toList.flatMap durationsOf

theorem entryDurations_other {os : Os} {e : OptionEntry} (h : isDurationId e.id = false) :
    entryDurations os e = [] := by
  obtain ⟨id, data, available⟩ := e
  have hmulticast : ∀ id, (applyMulticast os id data).request?.toList.flatMap durationsOf = [] := by
    intro id
    rw [applyMulticast]
    cases mreqOf os data <;> rfl
  cases id with
  | tcpUserTimeout | tcpDeferAccept | keepAliveIdle | keepAliveInterval => cases h
  | multicastJoin | multicastLeave => exact hmulticast _
  | lingerOpt =>
    change (applyLinger os data).request?.toList.flatMap durationsOf = []
    rw [applyLinger]
    split <;> rfl
  | multicastIf =>
    change (applyMulticastIf data).request?.toList.flatMap durationsOf = []
    rw [applyMulticastIf]
    split <;> rfl
  | multicastIfV6 =>
    change (applyMulticastIfV6 data).request?.toList.flatMap durationsOf = []
    rw [applyMulticastIfV6]
    split <;> rfl
  | _ => cases os <;> rfl

theorem flatMap_entryDurations_other {os : Os} {c : Setter} (h : c.duration? = none) :
    (c.entries os).flatMap (entryDurations os) = [] :=
  List.flatMap_eq_nil_iff.2 fun e he =>
    entryDurations_other (not_isDurationId_of_duration_none h e he)

/-- A duration as an `int`. -/
def narrow (p : DurationOption × Int) : DurationOption × Int := (p.1, (BitVec.ofInt 32 p.2).toInt)

theorem flatMap_entryDurations_posix {os : Os} (hos : os ≠ .windows) {c : Setter}
    (ha : ∀ e ∈ c.entries os, isDurationId e.id = true → e.platformAvailable = true) :
    (c.entries os).flatMap (entryDurations os) = (c.duration?.map narrow).toList := by
  cases c with
  | tcpUserTimeout d | tcpDeferAccept d =>
    cases os with
    | linux =>
      simp [Setter.entries, set, pushInt, push, entryDurations, OptionEntry.request?,
        OptionEntry.action, setIntOpt, applyTcpDeferAccept, Step.request?, durationsOf,
        readInt_intBytes, Setter.duration?, narrow]
    | macos => cases ha _ (List.mem_singleton.2 rfl) rfl
    | windows => exact absurd rfl hos
  | keepAliveIdle d | keepAliveInterval d =>
    cases os with
    | linux | macos =>
      simp [Setter.entries, set, pushInt, push, entryDurations, OptionEntry.request?,
        OptionEntry.action, setIntOpt, Step.request?, durationsOf, readInt_intBytes,
        Setter.duration?, narrow]
    | windows => exact absurd rfl hos
  | _ => exact flatMap_entryDurations_other rfl

theorem flatMap_entryDurations_windows (c : Setter) :
    (c.entries .windows).flatMap (entryDurations .windows) = [] := by
  cases c with
  | tcpUserTimeout d | tcpDeferAccept d | keepAliveIdle d | keepAliveInterval d => rfl
  | _ => exact flatMap_entryDurations_other rfl

/-! ## The keep-alive values of Windows -/

/-- The values that are kept, as they are stored. -/
def stored (idle interval : Option Int) : WinKeepAlive :=
  ⟨idle.map (BitVec.ofInt 32), interval.map (BitVec.ofInt 32)⟩

theorem foldl_deferred_entries (x y : Option Int) (c : Setter) :
    (c.entries .windows).foldl (deferred .windows) (stored x y) =
      stored (lastFrom .idle x [c]) (lastFrom .interval y [c]) := by
  cases c with
  | keepAliveIdle d | keepAliveInterval d =>
    simp [Setter.entries, set, pushInt, push, deferred, OptionEntry.action, readInt_intBytes,
      stored, lastFrom, Setter.duration?]
  | _ => rfl

theorem foldl_deferred_windows (x y : Option Int) (calls : List Setter) :
    (calls.flatMap (Setter.entries .windows)).foldl (deferred .windows) (stored x y) =
      stored (lastFrom .idle x calls) (lastFrom .interval y calls) := by
  induction calls generalizing x y with
  | nil => rfl
  | cons c calls ih =>
    rw [List.flatMap_cons, List.foldl_append, foldl_deferred_entries, ih]
    rfl

theorem deferred_posix {os : Os} (hos : os ≠ .windows) (ka : WinKeepAlive) (e : OptionEntry) :
    deferred os ka e = ka := by
  obtain ⟨id, data, available⟩ := e
  cases os with
  | linux | macos => cases id <;> rfl
  | windows => exact absurd rfl hos

theorem foldl_deferred_posix {os : Os} (hos : os ≠ .windows) (ka : WinKeepAlive)
    (es : List OptionEntry) : es.foldl (deferred os) ka = ka := by
  induction es with
  | nil => rfl
  | cons e es ih => rw [List.foldl_cons, deferred_posix hos, ih]

/-! ## What is handed over -/

/-- The durations as they are handed over, with the products modulo `2^32`. -/
def narrowed (os : Os) (calls : List Setter) : List (DurationOption × Int) :=
  match os with
  | .linux | .macos => (calls.filterMap Setter.duration?).map narrow
  | .windows =>
    handed (requests (applyWindowsKeepalive
      (stored (lastFrom .idle none calls) (lastFrom .interval none calls))))

theorem handed_append (l r : List SockRequest) : handed (l ++ r) = handed l ++ handed r :=
  List.flatMap_append

/-- Entries that a pass leaves out have no durations. -/
theorem handed_filterMap (os : Os) (skip : Bool) (es : List OptionEntry) :
    handed ((es.filter fun e => !(skip && isMulticastEntry e.id)).filterMap
      (OptionEntry.request? os)) = es.flatMap (entryDurations os) := by
  induction es with
  | nil => rfl
  | cons e es ih =>
    rw [List.flatMap_cons, ← ih]
    by_cases h : (skip && isMulticastEntry e.id) = true
    · have hid := not_isDurationId_of_multicast (Bool.and_eq_true_iff.1 h).2
      rw [List.filter_cons_of_neg (by rw [h]; decide), entryDurations_other hid, List.nil_append]
    · rw [List.filter_cons_of_pos (by rw [Bool.eq_false_of_not_eq_true h]; rfl),
        List.filterMap_cons, entryDurations]
      cases e.request? os with
      | none => rfl
      | some r => simp [handed]

theorem flatMap_narrow (calls : List Setter) :
    (calls.flatMap fun c => (c.duration?.map narrow).toList) =
      (calls.filterMap Setter.duration?).map narrow := by
  induction calls with
  | nil => rfl
  | cons c calls ih =>
    rw [List.flatMap_cons, ih, List.filterMap_cons]
    cases c.duration? <;> rfl

theorem available_of_not_refused {os : Os} {skip : Bool} {calls : List Setter}
    (hr : ¬ Refused os skip calls) {c : Setter} (hc : c ∈ calls) :
    ∀ e ∈ c.entries os, isDurationId e.id = true → e.platformAvailable = true := by
  intro e he hid
  have hmem : e ∈ (build os calls).entries := by
    rw [entries_build]
    exact List.mem_flatMap.2 ⟨c, hc, he⟩
  by_contra hav
  refine hr ⟨e, hmem, fun hskip => ?_, fun hacc => hav hacc.1⟩
  rw [not_isDurationId_of_multicast (Bool.and_eq_true_iff.1 hskip).2] at hid
  cases hid

/-- What a pass hands over that issues every request. -/
theorem handed_complete {os : Os} {skip : Bool} {calls : List Setter}
    (hr : ¬ Refused os skip calls) :
    handed (((build os calls).entries.filter fun e => !(skip && isMulticastEntry e.id)).filterMap
      (OptionEntry.request? os) ++ keepaliveRequests os (build os calls).entries) =
      narrowed os calls := by
  rw [handed_append, handed_filterMap, keepaliveRequests]
  rw [entries_build, List.flatMap_assoc]
  by_cases hos : os = .windows
  · subst hos
    rw [List.flatMap_eq_nil_iff.2 fun c _ => flatMap_entryDurations_windows c, List.nil_append]
    exact congrArg (fun ka => handed (requests (applyWindowsKeepalive ka)))
      (foldl_deferred_windows none none calls)
  · rw [foldl_deferred_posix hos, List.flatMap_congr fun c hc =>
      flatMap_entryDurations_posix hos (available_of_not_refused hr hc), flatMap_narrow]
    cases os with
    | linux | macos => exact List.append_nil _
    | windows => exact absurd rfl hos

/-! ## Durations that fit -/

theorem toInt_ofInt_eq_iff (d : Int) :
    (BitVec.ofInt 32 d).toInt = d ↔ -2 ^ 31 ≤ d ∧ d < 2 ^ 31 := by
  rw [BitVec.toInt_ofInt, Int.bmod_def]
  omega

/-- The product as a `ULONG`. -/
theorem toNat_ofInt_mul (d : Int) :
    ((BitVec.ofInt 32 d * 1000).toNat : Int) = d % 2 ^ 32 * 1000 % 2 ^ 32 := by
  rw [BitVec.toNat_mul, BitVec.toNat_ofInt]
  push_cast
  rw [Int.toNat_of_nonneg (by omega)]

/-- The milliseconds of a duration, or a default. -/
theorem milliseconds_iff (x : Option Int) {n : Nat} (hn : n < 2 ^ 31) :
    (∀ v ∈ x.map (BitVec.ofInt 32), IntProduct v) ∧
        (((x.map (BitVec.ofInt 32)).elim (BitVec.ofNat 32 n) (· * 1000)).toNat : Int) =
          x.elim (n : Int) (· * 1000) ↔
      0 ≤ x.elim (n : Int) (· * 1000) ∧ x.elim (n : Int) (· * 1000) < 2 ^ 31 := by
  cases x with
  | none =>
    have hmod : (BitVec.ofNat 32 n).toNat = n := Nat.mod_eq_of_lt (by omega)
    refine iff_of_true ⟨fun v hv => absurd hv (Option.not_mem_none v), ?_⟩ ?_
    · exact congrArg Nat.cast hmod
    · exact ⟨Int.natCast_nonneg n, by simp only [Option.elim_none]; omega⟩
  | some d =>
    simp only [Option.map_some, Option.elim_some, Option.mem_some_iff, forall_eq', IntProduct,
      toNat_ofInt_mul, BitVec.toInt_ofInt, Int.bmod_def]
    omega

theorem defined_none : WinKeepAlive.Defined {} :=
  ⟨fun v hv => absurd hv (Option.not_mem_none v), fun v hv => absurd hv (Option.not_mem_none v)⟩

theorem map_narrow_iff (l : List (DurationOption × Int)) :
    l.map narrow = l ↔ ∀ p ∈ l, -2 ^ 31 ≤ p.2 ∧ p.2 < 2 ^ 31 := by
  rw [← List.map_id l, List.map_map, List.map_inj_left, List.map_id]
  refine forall₂_congr fun p _ => ?_
  rw [← toInt_ofInt_eq_iff]
  exact ⟨fun h => congrArg Prod.snd h, fun h => Prod.ext rfl h⟩

theorem handed_keepalive {x y : Option Int} (h : (x.isSome || y.isSome) = true) :
    handed (requests (applyWindowsKeepalive (stored x y))) =
      [(DurationOption.idle,
          (((x.map (BitVec.ofInt 32)).elim (BitVec.ofNat 32 7200000) (· * 1000)).toNat : Int)),
        (DurationOption.interval,
          (((y.map (BitVec.ofInt 32)).elim (BitVec.ofNat 32 1000) (· * 1000)).toNat : Int))] := by
  rw [applyWindowsKeepalive, stored]
  simp only [Option.isSome_map, if_pos h]
  rfl

theorem keepalive_iff (x y : Option Int) :
    (stored x y).Defined ∧
        handed (requests (applyWindowsKeepalive (stored x y))) = askedKeepalive x y ↔
      ∀ p ∈ askedKeepalive x y, Fits .windows p.2 := by
  have hx := milliseconds_iff x (n := 7200000) (by decide)
  have hy := milliseconds_iff y (n := 1000) (by decide)
  by_cases hsome : (x.isSome || y.isSome) = true
  · rw [handed_keepalive hsome, askedKeepalive, if_pos hsome]
    simp only [List.cons.injEq, Prod.mk.injEq, true_and, and_true, List.forall_mem_cons]
    rw [and_iff_left (List.forall_mem_nil _)]
    exact and_and_and_comm.trans (and_congr hx hy)
  · have hnone := not_or.1 ((Bool.or_eq_true_iff ..).not.1 hsome)
    rw [Option.not_isSome_iff_eq_none.1 hnone.1, Option.not_isSome_iff_eq_none.1 hnone.2]
    exact iff_of_true ⟨defined_none, rfl⟩ (List.forall_mem_nil _)

/-- What is handed over is what was asked for if all of it fits. -/
theorem narrowed_eq_asked_iff (os : Os) (calls : List Setter) :
    ((build os calls).entries.foldl (deferred os) {}).Defined ∧
        narrowed os calls = asked os calls ↔ ∀ p ∈ asked os calls, Fits os p.2 := by
  cases os with
  | linux | macos =>
    rw [foldl_deferred_posix (by decide), and_iff_right defined_none]
    exact map_narrow_iff _
  | windows =>
    have hfold := foldl_deferred_windows none none calls
    rw [← entries_build] at hfold
    change WinKeepAlive.Defined (List.foldl _ (stored none none) _) ∧ _ ↔ _
    rw [hfold]
    exact keepalive_iff _ _

/-! ## The whole way -/

section Apply

variable {K : Type} {os : Os} {skip : Bool} {calls : List Setter}

theorem accepted_of_not_refused (hr : ¬ Refused os skip calls) :
    ∀ e ∈ (build os calls).entries, ¬ (skip && isMulticastEntry e.id) = true → e.Accepted os := by
  intro e he hskip
  by_contra ha
  exact hr ⟨e, he, hskip, ha⟩

theorem handed_of_allOk (k : Kernel K) {s : K} (hr : ¬ Refused os skip calls)
    (hok : ((build os calls).applyEntries k os skip (.start s)).1.AllOk) :
    (∃ ar, ((build os calls).applyEntries k os skip (.start s)).2 = .ok ar) ∧
      handed ((build os calls).applyEntries k os skip (.start s)).1.requests =
        narrowed os calls := by
  obtain ⟨hres, hreq⟩ := applyEntries_complete k (build_sound os calls)
    (accepted_of_not_refused hr) hok
  exact ⟨hres, by rw [hreq, handed_complete hr]⟩

theorem allOk_of_ok (k : Kernel K) {o : SocketOptions} {s : K} {ar : ApplyResult}
    (h : (o.applyEntries k os skip (.start s)).2 = .ok ar) :
    (o.applyEntries k os skip (.start s)).1.AllOk := by
  rw [applyEntries_fst]
  refine ((k.device os).run_ran_start _ s).allOk_of_none ?_
  by_contra hne
  rw [applyEntries_run] at h
  obtain ⟨ec, hec⟩ := answered_error hne _
  cases hec.symm.trans h

theorem permissive_allOk (o : SocketOptions) :
    (o.applyEntries permissive os skip (.start ())).1.AllOk := by
  rw [applyEntries_fst]
  exact Device.run_allOk (fun _ _ => rfl) (List.forall_mem_nil _)

end Apply

/-- **Durations reach the system unchanged**, or applying them is an error, exactly if the library
refuses one of the options or every duration fits. -/
theorem durations_unchanged_iff (os : Os) (skip : Bool) (calls : List Setter) :
    (∀ (K : Type) (k : Kernel K) (s : K), Unchanged k os skip calls s) ↔
      Refused os skip calls ∨ ∀ p ∈ asked os calls, Fits os p.2 := by
  by_cases hr : Refused os skip calls
  · refine iff_of_true (fun K k s => .inl ?_) (.inl hr)
    obtain ⟨e, he, hskip, ha⟩ := hr
    exact applyEntries_refused k he hskip ha s
  rw [← narrowed_eq_asked_iff, or_iff_right hr]
  constructor
  · intro h
    obtain ⟨⟨ar, hok⟩, hhanded⟩ := handed_of_allOk permissive hr (permissive_allOk _)
    rcases h Unit permissive () with ⟨ec, herr⟩ | ⟨hdef, heq⟩
    · cases hok.symm.trans herr
    · exact ⟨hdef, hhanded.symm.trans heq⟩
  · intro h K k s
    cases hres : ((build os calls).applyEntries k os skip (.start s)).2 with
    | error ec => exact .inl ⟨ec, hres⟩
    | ok ar => exact .inr ⟨h.1, (handed_of_allOk k hr (allOk_of_ok k hres)).2.trans h.2⟩

/-- `keep_alive_idle` of 2^32 + 5 seconds hands over 5 seconds on Linux, and of 4294968 seconds
704 milliseconds on Windows. -/
theorem keepAliveIdle_changed :
    (((build .linux [.keepAliveIdle 4294967301]).applyTo permissive .linux (.start ())).2 =
        .ok {} ∧
      ((build .linux [.keepAliveIdle 4294967301]).applyTo permissive .linux
        (.start ())).1.requests = [.setInt .ipprotoTcp .tcpKeepidle 5]) ∧
    ((build .windows [.keepAliveIdle 4294968]).applyTo permissive .windows (.start ())).2 =
        .ok {} ∧
      ((build .windows [.keepAliveIdle 4294968]).applyTo permissive .windows
        (.start ())).1.requests = [.keepaliveVals 1 704 1000] := by
  decide +kernel

end SocketOptions

end Socketpp
