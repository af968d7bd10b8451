import Socketpp.Socket.Options

/-!
# Applying options in one pass or in two

Each of the functions that apply options is a pass over a list of requests
(`applyEntries_run`, `postBindLoop_run`). An entry that the library refuses on
its own account stops a pass where it stands, so `apply_to` issues the same
requests as `apply_pre_bind` and `apply_post_bind` only where no entry is
refused (`two_phase_complete`): a join of a group that is of neither family
keeps `apply_to` from everything behind it, but not `apply_pre_bind`
(`two_phase_refused_join`).
-/

namespace Socketpp

open Requests

variable {K : Type} {os : Os}

/-! ## The requests of a list of entries -/

/-- The steps that a pass of `apply_entries` takes for an entry. -/
def OptionEntry.steps (os : Os) (skipMulticast : Bool) (e : OptionEntry) : List OptStep :=
  if skipMulticast && isMulticastEntry e.id then []
  else if !e.platformAvailable then [notSupported]
  else
    match e.action os with
    | .step st => [st]
    | .idle _ | .interval _ => []

/-- The request of an entry, if it has one of its own. -/
def OptionEntry.request? (os : Os) (e : OptionEntry) : Option SockRequest :=
  match e.action os with
  | .step st => st.request?
  | .idle _ | .interval _ => none

/-- The keep-alive values after one more entry. -/
def deferred (os : Os) (ka : WinKeepAlive) (e : OptionEntry) : WinKeepAlive :=
  match e.action os with
  | .step _ => ka
  | .idle seconds => { ka with idle := some seconds }
  | .interval seconds => { ka with interval := some seconds }

/-- The combined keep-alive request of Windows. -/
def keepaliveRequests (os : Os) (es : List OptionEntry) : List SockRequest :=
  requests (applyWindowsKeepalive (es.foldl (deferred os) {}))

/-- All steps of a pass of `apply_entries`. -/
def passSteps (os : Os) (skipMulticast : Bool) (es : List OptionEntry) : List OptStep :=
  es.flatMap (OptionEntry.steps os skipMulticast) ++
    applyWindowsKeepalive (es.foldl (deferred os) {})

/-- All steps of `apply_post_bind`. -/
def postBindSteps (os : Os) (es : List OptionEntry) : List OptStep :=
  (es.filter fun e => isMulticastEntry e.id).flatMap (OptionEntry.steps os false)

namespace OptionEntry

variable {e : OptionEntry} {skip : Bool}

theorem steps_skipped (h : (skip && isMulticastEntry e.id) = true) : e.steps os skip = [] := by
  rw [steps, if_pos h]

theorem steps_unavailable (h : ¬ (skip && isMulticastEntry e.id) = true)
    (ha : e.platformAvailable = false) : e.steps os skip = [notSupported] := by
  rw [steps, if_neg h, ha]
  rfl

theorem steps_multicast (h : isMulticastEntry e.id = true) (ha : e.platformAvailable = true) :
    e.steps os false = [applyMulticast os e.id e.data] := by
  rw [steps, ha, action_of_multicast h]
  rfl

/-- The group of a join or leave is of neither family. -/
theorem applyMulticast_isRefusal {id : SocketOptionId} {data : Bytes}
    (h : ¬ (saFamily os data = afInet ∨ saFamily os data = os.afInet6)) :
    (applyMulticast os id data).IsRefusal := by
  rw [not_or] at h
  have hnone : mreqOf os data = none := by
    rw [mreqOf, if_neg h.1, if_neg h.2, ite_self]
  rw [applyMulticast, hnone]
  exact trivial

theorem exists_refusal (h : ¬ (skip && isMulticastEntry e.id) = true) (ha : ¬ e.Accepted os) :
    ∃ st ∈ e.steps os skip, st.IsRefusal := by
  cases hav : e.platformAvailable with
  | false =>
    refine ⟨notSupported, ?_, trivial⟩
    rw [steps_unavailable h hav]
    exact List.mem_singleton.2 rfl
  | true =>
    obtain ⟨hm, hfamily⟩ := Classical.not_imp.1 fun hf => ha ⟨hav, hf⟩
    rw [hm, Bool.and_true] at h
    rw [Bool.eq_false_of_not_eq_true h, steps_multicast hm hav]
    exact ⟨_, List.mem_singleton.2 rfl, applyMulticast_isRefusal hfamily⟩

theorem deferred_multicast (h : isMulticastEntry e.id = true) (ka : WinKeepAlive) :
    deferred os ka e = ka := by
  rw [deferred, action_of_multicast h]

theorem requests_steps (h : ¬ (skip && isMulticastEntry e.id) = true)
    (ha : e.platformAvailable = true) :
    requests (e.steps os skip) = (e.request? os).toList := by
  rw [steps, if_neg h, ha, request?]
  cases e.action os with
  | step st => cases st <;> rfl
  | idle v => rfl
  | interval v => rfl

theorem not_isRefusal_of_mem_steps (hs : e.Sound os) (ha : e.Accepted os) {st : OptStep}
    (hst : st ∈ e.steps os skip) : ¬ st.IsRefusal := by
  intro hr
  rw [steps] at hst
  split at hst
  · cases hst
  · rw [ha.1] at hst
    cases hact : e.action os with
    | step st' =>
      rw [hact] at hst
      cases List.mem_singleton.1 hst
      cases st with
      | ask r => exact hr
      | refuse ec => exact hs ha ec hact
    | idle v => rw [hact] at hst; cases hst
    | interval v => rw [hact] at hst; cases hst

end OptionEntry

theorem requests_flatMap_steps {skip : Bool} {es : List OptionEntry}
    (ha : ∀ e ∈ es, ¬ (skip && isMulticastEntry e.id) = true → e.platformAvailable = true) :
    requests (es.flatMap (OptionEntry.steps os skip)) =
      (es.filter fun e => !(skip && isMulticastEntry e.id)).filterMap
        (OptionEntry.request? os) := by
  induction es with
  | nil => rfl
  | cons e es ih =>
    have ih := ih fun e he => ha e (List.mem_cons_of_mem _ he)
    rw [requests, List.flatMap_cons, List.filterMap_append]
    change requests (e.steps os skip) ++ requests (es.flatMap _) = _
    rw [ih]
    by_cases h : (skip && isMulticastEntry e.id) = true
    · rw [OptionEntry.steps_skipped h, List.filter_cons_of_neg (by rw [h]; decide)]
      rfl
    · rw [OptionEntry.requests_steps h (ha e (List.mem_cons_self ..) h),
        List.filter_cons_of_pos (by rw [Bool.eq_false_of_not_eq_true h]; rfl),
        List.filterMap_cons]
      cases e.request? os <;> rfl

theorem not_isRefusal_keepalive (ka : WinKeepAlive) :
    ∀ st ∈ applyWindowsKeepalive ka, ¬ st.IsRefusal := by
  intro st hst
  rw [applyWindowsKeepalive] at hst
  split at hst
  · rw [List.mem_singleton.1 hst]
    exact id
  · cases hst

/-! ## The functions as passes -/

section Runs

variable (k : Kernel K)

/-- The end of a pass, with a value if there is no error. -/
def answered {α : Type} (r : TracedSock K × Option ErrorCode) (a : α) :
    TracedSock K × Except ErrorCode α :=
  match r with
  | (s, none) => (s, .ok a)
  | (s, some ec) => (s, .error ec)

theorem answered_fst {α : Type} (r : TracedSock K × Option ErrorCode) (a : α) :
    (answered r a).1 = r.1 := by
  obtain ⟨s, _ | ec⟩ := r <;> rfl

theorem answered_ok {α : Type} {r : TracedSock K × Option ErrorCode} (h : r.2 = none) (a : α) :
    (answered r a).2 = .ok a := by
  obtain ⟨s, _ | ec⟩ := r
  · rfl
  · cases h

theorem answered_error {α : Type} {r : TracedSock K × Option ErrorCode} (h : r.2 ≠ none)
    (a : α) : ∃ ec, (answered r a).2 = .error ec := by
  obtain ⟨s, _ | ec⟩ := r
  · exact absurd rfl h
  · exact ⟨ec, rfl⟩

theorem applyLoop_run (skip : Bool) (es : List OptionEntry) (ka : WinKeepAlive) (s : TracedSock K) :
    applyLoop k os skip es ka s =
      answered ((k.device os).run (es.flatMap (OptionEntry.steps os skip)) s)
        (es.foldl (deferred os) ka) := by
  induction es generalizing ka s with
  | nil => rfl
  | cons e es ih =>
    rw [applyLoop, List.flatMap_cons, List.foldl_cons]
    by_cases h : (skip && isMulticastEntry e.id) = true
    · rw [if_pos h, OptionEntry.steps_skipped h, ih,
        OptionEntry.deferred_multicast (Bool.and_eq_true_iff.1 h).2, List.nil_append]
    rw [if_neg h]
    cases ha : e.platformAvailable with
    | false =>
      rw [OptionEntry.steps_unavailable h ha]
      rfl
    | true =>
      rw [OptionEntry.steps, if_neg h, ha, deferred]
      simp only [Bool.not_true, Bool.false_eq_true, if_false]
      cases e.action os with
      | step st =>
        cases hr : (k.device os).run [st] s with
        | mk s' out =>
          cases out with
          | none => simp only [Device.run_append_ok hr, hr, ih]
          | some ec => simp only [Device.run_append_error hr, hr, answered]
      | idle v => exact ih _ s
      | interval v => exact ih _ s

/-- **`apply_entries` is a pass.** -/
theorem applyEntries_run (o : SocketOptions) (skip : Bool) (s : TracedSock K) :
    o.applyEntries k os skip s =
      answered ((k.device os).run (passSteps os skip o.entries) s)
        (o.readBack k ((k.device os).run (passSteps os skip o.entries) s).1.state) := by
  rw [SocketOptions.applyEntries, applyLoop_run, passSteps]
  cases hr : (k.device os).run (o.entries.flatMap (OptionEntry.steps os skip)) s with
  | mk s' out =>
    cases out with
    | none =>
      simp only [Device.run_append_ok hr, answered]
      cases (k.device os).run (applyWindowsKeepalive (o.entries.foldl (deferred os) {})) s' with
      | mk s'' out => cases out <;> rfl
    | some ec => simp only [Device.run_append_error hr, answered]

/-- **`apply_post_bind` is a pass.** -/
theorem postBindLoop_run (es : List OptionEntry) (s : TracedSock K) :
    postBindLoop k os es s = (k.device os).run (postBindSteps os es) s := by
  induction es generalizing s with
  | nil => rfl
  | cons e es ih =>
    rw [postBindLoop, postBindSteps]
    cases h : isMulticastEntry e.id with
    | false =>
      rw [List.filter_cons_of_neg (by rw [h]; decide)]
      exact ih s
    | true =>
      rw [List.filter_cons_of_pos (by exact h), List.flatMap_cons]
      cases ha : e.platformAvailable with
      | false =>
        rw [OptionEntry.steps_unavailable (by exact Bool.false_ne_true) ha]
        rfl
      | true =>
        rw [OptionEntry.steps_multicast h ha]
        simp only [Bool.not_true, Bool.false_eq_true, if_false]
        cases hr : (k.device os).run [applyMulticast os e.id e.data] s with
        | mk s' out =>
          cases out with
          | none => simp only [Device.run_append_ok hr, ih, postBindSteps]
          | some ec => simp only [Device.run_append_error hr]

end Runs

/-! ## One pass or two -/

namespace SocketOptions

variable (k : Kernel K) {o : SocketOptions}

theorem applyEntries_fst (o : SocketOptions) (skip : Bool) (s : TracedSock K) :
    (o.applyEntries k os skip s).1 = ((k.device os).run (passSteps os skip o.entries) s).1 := by
  rw [applyEntries_run, answered_fst]

theorem passSteps_not_refusal {skip : Bool} (ho : ∀ e ∈ o.entries, e.Sound os)
    (ha : ∀ e ∈ o.entries, ¬ (skip && isMulticastEntry e.id) = true → e.Accepted os) :
    ∀ st ∈ passSteps os skip o.entries, ¬ st.IsRefusal := by
  intro st hst
  rcases List.mem_append.1 hst with hst | hst
  · obtain ⟨e, he, hst⟩ := List.mem_flatMap.1 hst
    by_cases hskip : (skip && isMulticastEntry e.id) = true
    · rw [OptionEntry.steps_skipped hskip] at hst
      cases hst
    · exact OptionEntry.not_isRefusal_of_mem_steps (ho e he) (ha e he hskip) hst
  · exact not_isRefusal_keepalive _ st hst

/-- A pass of `apply_entries` that no request and no entry stops. -/
theorem applyEntries_complete {skip : Bool} (ho : ∀ e ∈ o.entries, e.Sound os)
    (ha : ∀ e ∈ o.entries, ¬ (skip && isMulticastEntry e.id) = true → e.Accepted os) {s : K}
    (hok : (o.applyEntries k os skip (.start s)).1.AllOk) :
    (∃ ar, (o.applyEntries k os skip (.start s)).2 = .ok ar) ∧
      (o.applyEntries k os skip (.start s)).1.requests =
        (o.entries.filter fun e => !(skip && isMulticastEntry e.id)).filterMap
          (OptionEntry.request? os) ++ keepaliveRequests os o.entries := by
  rw [applyEntries_fst] at hok ⊢
  obtain ⟨hres, hreq⟩ := ((k.device os).run_ran_start _ s).complete
    (passSteps_not_refusal ho ha) hok
  constructor
  · rw [applyEntries_run]
    exact ⟨_, answered_ok hres _⟩
  · rw [Traced.requests, hreq, passSteps, requests, List.filterMap_append]
    congr 1
    exact requests_flatMap_steps fun e he hskip => (ha e he hskip).1

theorem applyPostBind_complete (ho : ∀ e ∈ o.entries, e.Sound os)
    (ha : ∀ e ∈ o.entries, e.Accepted os) {s : TracedSock K}
    (hok : (o.applyPostBind k os s).1.AllOk) :
    (o.applyPostBind k os s).1.requests = s.requests ++
      (o.entries.filter fun e => isMulticastEntry e.id).filterMap (OptionEntry.request? os) := by
  have hmem : ∀ e ∈ o.entries.filter fun e => isMulticastEntry e.id, e ∈ o.entries :=
    fun e he => (List.mem_filter.1 he).1
  rw [applyPostBind, postBindLoop_run] at hok ⊢
  obtain ⟨l, hl, hran⟩ := (k.device os).run_ran (postBindSteps os o.entries) s
  obtain ⟨-, hreq⟩ := hran.complete
    (fun st hst => by
      obtain ⟨e, he, hst⟩ := List.mem_flatMap.1 hst
      exact OptionEntry.not_isRefusal_of_mem_steps (ho e (hmem e he)) (ha e (hmem e he)) hst)
    fun x hx => hok x (by rw [hl]; exact List.mem_append_right _ hx)
  rw [Traced.requests, hl, List.map_append, hreq, postBindSteps,
    requests_flatMap_steps fun e he _ => (ha e (hmem e he)).1]
  simp [Traced.requests]

/-- The first pass of two issues what the sequence issues first. -/
theorem applyPreBind_allOk {bind : K → K} {s : TracedSock K}
    (hok : (o.applyTwoPhase k os bind s).1.AllOk) : (o.applyPreBind k os s).1.AllOk := by
  rw [applyTwoPhase] at hok
  cases hp : o.applyPreBind k os s with
  | mk s' res =>
    rw [hp] at hok
    cases res with
    | error ec => exact hok
    | ok ar =>
      change (o.applyPostBind k os { s' with state := bind s'.state }).1.AllOk at hok
      rw [applyPostBind, postBindLoop_run] at hok
      obtain ⟨l, hl, -⟩ := (k.device os).run_ran (postBindSteps os o.entries)
        { s' with state := bind s'.state }
      exact fun x hx => hok x (by rw [hl]; exact List.mem_append_left _ hx)

/-- The requests in the order of the two passes. -/
theorem perm_two_phase (es : List OptionEntry) (ka : List SockRequest) :
    ((es.filter fun e => !isMulticastEntry e.id).filterMap (OptionEntry.request? os) ++ ka ++
      (es.filter fun e => isMulticastEntry e.id).filterMap (OptionEntry.request? os)).Perm
      (es.filterMap (OptionEntry.request? os) ++ ka) := by
  have hsplit := (List.filter_append_perm (fun e => isMulticastEntry e.id) es).filterMap
    (OptionEntry.request? os)
  rw [List.filterMap_append] at hsplit
  calc _ = _ ++ (ka ++ _) := List.append_assoc ..
    List.Perm _ (_ ++ (_ ++ ka)) := List.perm_append_comm.append_left _
    _ = (_ ++ _) ++ ka := (List.append_assoc ..).symm
    List.Perm _ _ := (List.perm_append_comm.trans hsplit).append_right ka

/-- An entry that is refused stops a pass that comes to it. -/
theorem applyEntries_refused {skip : Bool} {e : OptionEntry} (he : e ∈ o.entries)
    (hskip : ¬ (skip && isMulticastEntry e.id) = true) (ha : ¬ e.Accepted os)
    (s : K) : ∃ ec, (o.applyEntries k os skip (.start s)).2 = .error ec := by
  obtain ⟨st, hst, hr⟩ := OptionEntry.exists_refusal hskip ha
  have hmem : st ∈ passSteps os skip o.entries :=
    List.mem_append_left _ (List.mem_flatMap.2 ⟨e, he, hst⟩)
  have hres := ((k.device os).run_ran_start _ s).ne_none_of_refusal hmem hr
  rw [applyEntries_run]
  exact answered_error hres _

theorem not_accepted_of_unavailable {e : OptionEntry} (ha : e.platformAvailable = false) :
    ¬ e.Accepted os := by
  intro h
  rw [h.1] at ha
  cases ha

theorem applyPostBind_unavailable {e : OptionEntry} (he : e ∈ o.entries)
    (hm : isMulticastEntry e.id = true) (ha : e.platformAvailable = false) (s : TracedSock K) :
    ∃ ec, (o.applyPostBind k os s).2 = some ec := by
  obtain ⟨l, -, hran⟩ := (k.device os).run_ran (postBindSteps os o.entries) s
  have hstep : notSupported ∈ e.steps os false := by
    rw [OptionEntry.steps_unavailable (by exact Bool.false_ne_true) ha]
    exact List.mem_singleton.2 rfl
  have hres := hran.ne_none_of_refusal
    (List.mem_flatMap.2 ⟨e, List.mem_filter.2 ⟨he, hm⟩, hstep⟩) trivial
  rw [applyPostBind, postBindLoop_run]
  exact Option.ne_none_iff_exists'.1 hres

theorem applyTwoPhase_unavailable {bind : K → K} {e : OptionEntry} (he : e ∈ o.entries)
    (ha : e.platformAvailable = false) (s : K) :
    ∃ ec, (o.applyTwoPhase k os bind (.start s)).2 = some ec := by
  rw [applyTwoPhase]
  cases hp : o.applyPreBind k os (.start s) with
  | mk s' res =>
    cases res with
    | error ec => exact ⟨ec, rfl⟩
    | ok ar =>
      -- the first pass came through, so it has skipped the entry
      cases hm : isMulticastEntry e.id with
      | true => exact applyPostBind_unavailable k he hm ha _
      | false =>
        have herr : ∃ ec, (o.applyPreBind k os (.start s)).2 = .error ec :=
          applyEntries_refused k he (by rw [hm]; exact Bool.false_ne_true)
            (not_accepted_of_unavailable ha) s
        rw [hp] at herr
        obtain ⟨ec, hec⟩ := herr
        cases hec

/-- **Two phases instead of one.** Where the library refuses no entry and no request fails,
the two passes issue the requests of `apply_to`, each of them in the order of the entries. An
entry that is not available is an error either way, and no pass goes on after a failure. -/
theorem two_phase_complete (os : Os) (bind : K → K) (calls : List Setter) (s t : K) :
    ((∀ e ∈ (build os calls).entries, e.Accepted os) →
      ((build os calls).applyTo k os (.start s)).1.AllOk →
      ((build os calls).applyTwoPhase k os bind (.start t)).1.AllOk →
      ((build os calls).applyPreBind k os (.start t)).1.requests =
          ((build os calls).entries.filter fun e => !isMulticastEntry e.id).filterMap
            (OptionEntry.request? os) ++ keepaliveRequests os (build os calls).entries ∧
        ((build os calls).applyTwoPhase k os bind (.start t)).1.requests =
          ((build os calls).applyPreBind k os (.start t)).1.requests ++
            ((build os calls).entries.filter fun e => isMulticastEntry e.id).filterMap
              (OptionEntry.request? os) ∧
        ((build os calls).applyTwoPhase k os bind (.start t)).1.requests.Perm
          ((build os calls).applyTo k os (.start s)).1.requests) ∧
    ((∃ e ∈ (build os calls).entries, e.platformAvailable = false) →
      (∃ ec, ((build os calls).applyTo k os (.start s)).2 = .error ec) ∧
        ∃ ec, ((build os calls).applyTwoPhase k os bind (.start t)).2 = some ec) ∧
    (∀ skip, ((build os calls).applyEntries k os skip (.start s)).1.StopsAtFailure) ∧
      ((build os calls).applyPostBind k os (.start s)).1.StopsAtFailure := by
  have ho := build_sound os calls
  refine ⟨fun ha hto htwo => ?_, ?_, ?_, ?_⟩
  · obtain ⟨-, hone⟩ := applyEntries_complete k ho (fun e he _ => ha e he) hto
    obtain ⟨⟨ar, hres⟩, hpre⟩ := applyEntries_complete k ho (fun e he _ => ha e he)
      (applyPreBind_allOk k htwo)
    have htwo' : ((build os calls).applyTwoPhase k os bind (.start t)).1.requests =
        ((build os calls).applyPreBind k os (.start t)).1.requests ++
          ((build os calls).entries.filter fun e => isMulticastEntry e.id).filterMap
            (OptionEntry.request? os) := by
      rw [applyTwoPhase] at htwo ⊢
      change ((build os calls).applyPreBind k os (.start t)).2 = .ok ar at hres
      cases hp : (build os calls).applyPreBind k os (.start t) with
      | mk s' res =>
        rw [hp] at hres htwo
        cases hres
        exact applyPostBind_complete k ho ha htwo
    refine ⟨hpre, htwo', ?_⟩
    rw [htwo', applyPreBind, hpre, applyTo, hone]
    simpa using perm_two_phase (build os calls).entries _
  · rintro ⟨e, he, hav⟩
    exact ⟨applyEntries_refused k he (by exact Bool.false_ne_true)
        (not_accepted_of_unavailable hav) s,
      applyTwoPhase_unavailable k he hav t⟩
  · intro skip a b r ec h
    rw [applyEntries_fst] at h
    exact ((k.device os).run_ran_start _ s).stops h
  · intro a b r ec h
    rw [applyPostBind, postBindLoop_run] at h
    exact ((k.device os).run_ran_start _ s).stops h

/-- An operating system that takes every request. -/
def permissive : Kernel Unit where
  setsockopt _ _ := ((), none)
  getsockopt _ _ := .ok 0

/-- A group joined between two halves of the keep-alive options. -/
def keepaliveAndJoin : List Setter :=
  [.keepAliveIdle 60, .multicastJoin (.inet4 .windows 239 1 2 3) (.inet4 .windows 0 0 0 0),
    .keepAliveInterval 5, .recvBuf 4096]

theorem two_phase_complete_windows :
    (∀ e ∈ (build .windows keepaliveAndJoin).entries, e.Accepted .windows) ∧
      ((build .windows keepaliveAndJoin).applyPreBind permissive .windows (.start ())).1.requests =
        [.setInt .solSocket .soRcvbuf 4096, .keepaliveVals 1 60000 5000] ∧
      ((build .windows keepaliveAndJoin).applyTwoPhase permissive .windows id
        (.start ())).1.requests.Perm
        ((build .windows keepaliveAndJoin).applyTo permissive .windows (.start ())).1.requests := by
  have hacc : ∀ e ∈ (build .windows keepaliveAndJoin).entries, e.Accepted .windows := by
    decide +kernel
  obtain ⟨hpre, -, hperm⟩ := (two_phase_complete permissive .windows id keepaliveAndJoin () ()).1
    hacc (by decide +kernel) (by decide +kernel)
  exact ⟨hacc, hpre.trans (by decide +kernel), hperm⟩

/-- A join of no group in front of another option. -/
def joinNothing : List Setter := [.multicastJoin .unspecified .unspecified, .recvBuf 4096]

/-- No request fails, but `apply_to` issues none of them. -/
theorem two_phase_refused_join :
    ((build .linux joinNothing).applyTo permissive .linux (.start ())).1.AllOk ∧
      ((build .linux joinNothing).applyTwoPhase permissive .linux id (.start ())).1.AllOk ∧
      ((build .linux joinNothing).applyTo permissive .linux (.start ())).1.requests = [] ∧
      ((build .linux joinNothing).applyTwoPhase permissive .linux id (.start ())).1.requests =
        [.setInt .solSocket .soRcvbuf 4096] := by
  decide +kernel

end SocketOptions

end Socketpp
