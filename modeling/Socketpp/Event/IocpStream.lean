import Socketpp.Lib.Machine
import Socketpp.Event.Loop

/-!
# A stream socket on the IOCP dispatcher

`iocp_dispatcher` (`src/event/iocp.cpp`) learns that a stream socket is readable
or writable from a zero-byte `WSARecv` or `WSASend` that completes. `arm_read`
and `arm_write` issue one when the interest gains the direction; `poll` reports
the direction of the packet it finds and issues the operation again while the
interest has it. `modify` does not take an operation back.

`IocpStream` is one descriptor. An operation is known by the address of its
`OVERLAPPED`, and a state that `add` makes may get the memory of one that was
removed. `stack` has the calls the loop thread is in on behalf of this socket:
an operation that is refused at once calls back with `error` from inside `add`,
`modify` or `poll`, and the callback may make calls of its own. User code also
runs while the stack is empty: a task, or another socket's callback.
-/

namespace Socketpp

namespace IocpStream

/-- `read_ov` or `write_ov`. -/
inductive Dir where
  | read
  | write
  deriving DecidableEq

instance : Fintype Dir where
  elems := {.read, .write}
  complete d := by cases d <;> decide

def Dir.flag : Dir → IoEvent
  | .read => .readable
  | .write => .writable

inductive Frame where
  /-- the socket's callback; `poll` called it, or an operation that was refused -/
  | user (poll : Bool)
  /-- operations still to be issued on state `gen`; `poll` looks at the interest first -/
  | arm (poll : Bool) (gen : Nat) (dirs : List Dir)
  deriving DecidableEq

end IocpStream

open IocpStream in
structure IocpStream where
  registered : Bool
  /-- the number of the state, counting the calls of `add` -/
  gen : Nat
  /-- the addresses of its `OVERLAPPED`s -/
  ov : Dir → Nat
  interest : IoEvent
  pending : Dir → Bool
  /-- the addresses the kernel has operations on -/
  inFlight : List Nat
  /-- the packets in the port, each with whether no bytes were transferred -/
  port : List (Nat × Bool)
  /-- those `poll` has taken out and not gone over -/
  entries : List (Nat × Bool)
  stack : List Frame
  /-- the calls of the callback, each with the interest at that moment -/
  calls : List (IoEvent × IoEvent)

namespace IocpStream

def start : IocpStream where
  registered := false
  gen := 0
  ov _ := 0
  interest := .none
  pending _ := false
  inFlight := []
  port := []
  entries := []
  stack := []
  calls := []

inductive Act where
  /-- `add`, with the addresses of the new state's `OVERLAPPED`s -/
  | add (interest : IoEvent) (read write : Nat)
  | modify (interest : IoEvent)
  | remove
  /-- the next operation of the call on top of the stack; `ok` is whether it is accepted -/
  | arm (ok : Bool)
  | callbackReturn
  /-- the kernel completes an operation and queues its packet -/
  | finish (ov : Nat) (zero : Bool)
  /-- `poll` takes packets out of the port -/
  | poll (n : Nat)
  | entry

/-- User code has the loop thread. -/
def user (s : IocpStream) : Bool :=
  match s.stack with
  | [] => true
  | f :: _ => f matches .user _

/-- The directions of a mask, in the order of the source. -/
def dirsOf (mask : Dir → Bool) : List Dir := [Dir.read, Dir.write].filter mask

def add (s : IocpStream) (interest : IoEvent) (read write : Nat) : IocpStream :=
  { s with
    registered := true
    gen := s.gen + 1
    ov := fun d => if d = .read then read else write
    interest := interest
    pending := fun _ => false
    stack := .arm false (s.gen + 1) (dirsOf fun d => interest.hasEvent d.flag) :: s.stack }

/-- `modify` arms the directions that are new. -/
def modify (s : IocpStream) (interest : IoEvent) : IocpStream :=
  if s.registered then
    { s with
      interest := interest
      stack := .arm false s.gen (dirsOf fun d =>
        interest.hasEvent d.flag && !s.interest.hasEvent d.flag) :: s.stack }
  else s

/-- `arm_read` and `arm_write`, with what is left to do after it. -/
def armDir (s : IocpStream) (poll : Bool) (d : Dir) (rest : List Frame) (ok : Bool) :
    IocpStream :=
  if (poll && !s.interest.hasEvent d.flag) || s.pending d then { s with stack := rest }
  else if ok then
    { s with pending := Function.update s.pending d true
             inFlight := s.inFlight ++ [s.ov d]
             stack := rest }
  else { s with calls := s.calls ++ [(.error, s.interest)], stack := .user false :: rest }

/-- What `poll` reports for a packet. -/
def eventOf (s : IocpStream) (ov : Nat) (zero : Bool) : IoEvent :=
  if ov = s.ov .read then (if zero then .readable ||| .peerShutdown else .readable)
  else if ov = s.ov .write then .writable
  else .none

/-- `poll` goes over one packet, up to the callback. -/
def dispatch (s : IocpStream) (ov : Nat) (zero : Bool) : IocpStream :=
  if s.registered then
    { s with
      pending := if ov = s.ov .read then Function.update s.pending .read false
        else if ov = s.ov .write then Function.update s.pending .write false
        else s.pending
      calls := s.calls ++ [(s.eventOf ov zero, s.interest)]
      stack := .user true :: s.stack }
  else s

def step (s : IocpStream) : Act → Option IocpStream
  | .add interest read write =>
    if s.user ∧ read ≠ write then some (s.add interest read write) else none
  | .modify interest => if s.user then some (s.modify interest) else none
  -- `CancelIoEx` only makes the operations complete sooner
  | .remove => if s.user then some { s with registered := false } else none
  | .arm ok =>
    match s.stack with
    | .arm _ _ [] :: st => some { s with stack := st }
    | .arm poll gen (d :: ds) :: st =>
      -- a state that is gone would be used through a dangling reference
      if s.registered = true ∧ gen = s.gen then
        some (s.armDir poll d (.arm poll gen ds :: st) ok)
      else none
    | _ => none
  | .callbackReturn =>
    match s.stack with
    | .user poll :: st =>
      if poll && s.registered then
        some { s with stack := .arm true s.gen [.read, .write] :: st }
      else some { s with stack := st }
    | _ => none
  | .finish ov zero =>
    if ov ∈ s.inFlight then
      some { s with inFlight := s.inFlight.erase ov, port := s.port ++ [(ov, zero)] }
    else none
  | .poll n =>
    if s.stack = [] ∧ s.entries = [] then
      some { s with entries := s.port.take n, port := s.port.drop n }
    else none
  | .entry =>
    match s.stack, s.entries with
    | [], (ov, zero) :: rest => some ({ s with entries := rest }.dispatch ov zero)
    | _, _ => none

def machine : Machine IocpStream Act where
  Init s := s = start
  step := step

/-! ## Operations under way -/

/-- An operation was issued on the address and its packet has not been gone over. -/
def Outstanding (s : IocpStream) (ov : Nat) : Prop :=
  ov ∈ s.inFlight ∨ ov ∈ s.port.map Prod.fst ∨ ov ∈ s.entries.map Prod.fst

instance (s : IocpStream) (ov : Nat) : Decidable (s.Outstanding ov) :=
  inferInstanceAs (Decidable (_ ∨ _))

/-- The call will issue an operation in the direction without a look at the interest. -/
def Frame.issues (gen : Nat) (d : Dir) : Frame → Bool
  | .arm poll g ds => !poll && g == gen && ds.contains d
  | .user _ => false

/-- An operation of the socket's state in the direction is outstanding or will be issued. -/
def Busy (s : IocpStream) (d : Dir) : Prop :=
  s.Outstanding (s.ov d) ∨ s.stack.any (Frame.issues s.gen d) = true

instance (s : IocpStream) (d : Dir) : Decidable (s.Busy d) :=
  inferInstanceAs (Decidable (_ ∨ _))

/-- `modify` takes no direction away in which an operation is under way, and `add` does not get
the memory of a state with operations outstanding in a direction it is not to report. -/
def Covers (s : IocpStream) : Act → Prop
  | .add interest read write => (s.Outstanding read → interest.hasEvent .readable = true) ∧
      (s.Outstanding write → interest.hasEvent .writable = true)
  | .modify interest => s.registered = true → ∀ d, s.Busy d → interest.hasEvent d.flag = true
  | _ => True

instance (s : IocpStream) : (a : Act) → Decidable (s.Covers a)
  | .add _ _ _ => inferInstanceAs (Decidable (_ ∧ _))
  | .modify _ => inferInstanceAs (Decidable (_ → ∀ _, _))
  | .remove | .arm _ | .callbackReturn | .finish _ _ | .poll _ | .entry => isTrue trivial

/-- The callback was called with readable or writable only while the interest had it. -/
def Respected (s : IocpStream) : Prop :=
  ∀ c ∈ s.calls, ∀ d : Dir, c.1.hasEvent d.flag = true → c.2.hasEvent d.flag = true

structure Inv (s : IocpStream) : Prop where
  respected : s.Respected
  busy : s.registered = true → ∀ d, s.Busy d → s.interest.hasEvent d.flag = true
  distinct : s.registered = true → s.ov .read ≠ s.ov .write
  older : ∀ poll gen ds, .arm poll gen ds ∈ s.stack → gen ≤ s.gen

theorem start_inv : start.Inv := ⟨nofun, nofun, nofun, nofun⟩

variable {s s' : IocpStream} {a : Act}

theorem issues_arm {poll : Bool} {gen g : Nat} {ds : List Dir} {d : Dir}
    (h : (Frame.arm poll gen ds).issues g d = true) : poll = false ∧ gen = g ∧ d ∈ ds := by
  simp only [Frame.issues, Bool.and_eq_true, Bool.not_eq_true', beq_iff_eq,
    List.contains_iff_mem] at h
  exact ⟨h.1.1, h.1.2, h.2⟩

/-- The calls in `fs` issue no operation that those on the stack would not. -/
structure NoMore (s : IocpStream) (fs : List Frame) : Prop where
  issues : ∀ d, fs.any (Frame.issues s.gen d) = true → s.stack.any (Frame.issues s.gen d) = true
  older : ∀ poll gen ds, .arm poll gen ds ∈ fs → gen ≤ s.gen

namespace NoMore

variable {f : Frame} {fs : List Frame}

theorem tail (h : s.NoMore (f :: fs)) : s.NoMore fs :=
  ⟨fun d hd => h.issues d (by rw [List.any_cons, hd, Bool.or_true]),
    fun poll gen ds hm => h.older poll gen ds (List.mem_cons_of_mem _ hm)⟩

theorem user (h : s.NoMore fs) (poll : Bool) : s.NoMore (.user poll :: fs) :=
  ⟨h.issues, fun p gen ds hm => h.older p gen ds ((List.mem_cons.1 hm).resolve_left nofun)⟩

/-- `poll` looks at the interest before it issues an operation. -/
theorem pollArm (h : s.NoMore fs) (ds : List Dir) : s.NoMore (.arm true s.gen ds :: fs) := by
  refine ⟨h.issues, fun poll gen ds' hm => ?_⟩
  rcases List.mem_cons.1 hm with e | hm
  · cases e
    exact Nat.le_refl _
  · exact h.older poll gen ds' hm

/-- The first operation of the call on top is done. -/
theorem next {poll : Bool} {gen : Nat} {d : Dir} {ds : List Dir}
    (h : s.NoMore (.arm poll gen (d :: ds) :: fs)) : s.NoMore (.arm poll gen ds :: fs) := by
  refine ⟨fun d' hd => h.issues d' ?_, fun p g l hm => ?_⟩
  · rw [List.any_cons, Bool.or_eq_true] at hd ⊢
    refine hd.imp_left fun hi => ?_
    obtain ⟨rfl, rfl, hm⟩ := issues_arm hi
    simp [Frame.issues, hm]
  · rcases List.mem_cons.1 hm with e | hm
    · cases e
      exact h.older poll gen (d :: ds) List.mem_cons_self
    · exact h.older p g l (List.mem_cons_of_mem _ hm)

end NoMore

theorem Inv.noMore (h : s.Inv) : s.NoMore s.stack := ⟨fun _ => id, h.older⟩

/-- A step within one registration. -/
theorem Inv.frame (h : s.Inv) (hr : s'.Respected) (hreg : s'.registered = s.registered)
    (hgen : s'.gen = s.gen) (hov : s'.ov = s.ov) (hi : s'.interest = s.interest)
    (hn : s.NoMore s'.stack)
    (ho : ∀ d, s'.Outstanding (s.ov d) →
      s.Outstanding (s.ov d) ∨ s.interest.hasEvent d.flag = true) : s'.Inv := by
  refine ⟨hr, fun h' d hd => ?_, fun h' => ?_, fun poll gen ds hm => ?_⟩
  · rw [hreg] at h'
    rw [hi]
    rcases hd with hd | hd
    · rw [hov] at hd
      exact (ho d hd).elim (fun hd => h.busy h' d (.inl hd)) id
    · rw [hgen] at hd
      exact h.busy h' d (.inr (hn.issues d hd))
  · rw [hov]
    exact h.distinct (hreg ▸ h')
  · rw [hgen]
    exact hn.older poll gen ds hm

theorem Respected.append {ev mask : IoEvent} {calls : List (IoEvent × IoEvent)}
    (h : s.Respected) (hc : calls = s.calls ++ [(ev, mask)])
    (he : ∀ d : Dir, ev.hasEvent d.flag = true → mask.hasEvent d.flag = true) :
    ∀ c ∈ calls, ∀ d : Dir, c.1.hasEvent d.flag = true → c.2.hasEvent d.flag = true := by
  intro c hm
  rw [hc] at hm
  rcases List.mem_append.1 hm with hm | hm
  · exact h c hm
  · rw [List.mem_singleton.1 hm]
    exact he

theorem mem_dirsOf {mask : Dir → Bool} {d : Dir} : d ∈ dirsOf mask ↔ mask d = true := by
  cases d <;> simp [dirsOf, List.mem_filter]

/-- The mask of `eventOf` has a direction only if the packet is that of its `OVERLAPPED`. -/
theorem ov_eq_of_eventOf {ov : Nat} {zero : Bool} {d : Dir}
    (h : (s.eventOf ov zero).hasEvent d.flag = true) : ov = s.ov d := by
  unfold eventOf at h
  split at h
  · rename_i e
    cases d with
    | read => exact e
    | write => cases zero <;> cases h
  · split at h
    · rename_i e
      cases d with
      | read => cases h
      | write => exact e
    · cases d <;> cases h

/-! ## Steps -/

namespace Inv

theorem add (h : s.Inv) {interest : IoEvent} {read write : Nat} (hne : read ≠ write)
    (hok : s.Covers (.add interest read write)) : (s.add interest read write).Inv := by
  refine ⟨h.respected, fun _ d hd => ?_, fun _ => by simpa [IocpStream.add] using hne,
    fun poll gen ds hm => ?_⟩
  · rcases hd with hd | hd
    · cases d with
      | read => exact hok.1 hd
      | write => exact hok.2 hd
    · rw [IocpStream.add, List.any_cons, Bool.or_eq_true] at hd
      rcases hd with hd | hd
      · exact mem_dirsOf.1 (issues_arm hd).2.2
      · -- the calls below are on older states
        obtain ⟨f, hf, hi⟩ := List.any_eq_true.1 hd
        cases f with
        | user poll => cases hi
        | arm poll gen ds =>
          have hle := h.older poll gen ds hf
          rw [(issues_arm hi).2.1] at hle
          exact absurd hle (Nat.not_succ_le_self _)
  · rcases List.mem_cons.1 hm with e | hm
    · cases e
      exact Nat.le_refl _
    · exact Nat.le_succ_of_le (h.older poll gen ds hm)

theorem modify (h : s.Inv) {interest : IoEvent} (hok : s.Covers (.modify interest)) :
    (s.modify interest).Inv := by
  unfold IocpStream.modify
  split
  · rename_i hreg
    refine ⟨h.respected, fun _ d hd => ?_, h.distinct, fun poll gen ds hm => ?_⟩
    · rcases hd with hd | hd
      · exact hok hreg d (.inl hd)
      · rw [List.any_cons, Bool.or_eq_true] at hd
        rcases hd with hd | hd
        · exact (Bool.and_eq_true_iff.1 (mem_dirsOf.1 (issues_arm hd).2.2)).1
        · exact hok hreg d (.inr hd)
    · rcases List.mem_cons.1 hm with e | hm
      · cases e
        exact Nat.le_refl _
      · exact h.older poll gen ds hm
  · exact h

/-- The call on top of the stack issues an operation, skips it, or calls back with `error`. -/
theorem arm (h : s.Inv) {poll : Bool} {d : Dir} {ds : List Dir} {st : List Frame}
    (hs : s.stack = .arm poll s.gen (d :: ds) :: st) (hreg : s.registered = true) (ok : Bool) :
    (s.armDir poll d (.arm poll s.gen ds :: st) ok).Inv := by
  have hrest : s.NoMore (.arm poll s.gen ds :: st) := (hs ▸ h.noMore).next
  unfold armDir
  split
  · exact h.frame h.respected rfl rfl rfl rfl hrest fun _ => .inl
  · rename_i hskip
    have hint : s.interest.hasEvent d.flag = true := by
      cases poll with
      | false => exact h.busy hreg d (.inr (by simp [hs, Frame.issues]))
      | true =>
        by_contra hn
        exact hskip (by simp [hn])
    split
    · refine h.frame h.respected rfl rfl rfl rfl hrest fun d' hd => ?_
      rcases hd with hd | hd
      · rcases List.mem_append.1 hd with hd | hd
        · exact .inl (.inl hd)
        · -- the two addresses differ, so it is the direction that was issued
          have e : d' = d := by
            have hov := List.mem_singleton.1 hd
            have hne := h.distinct hreg
            cases d <;> cases d' <;> first | rfl | exact absurd hov hne | exact absurd hov.symm hne
          exact .inr (e ▸ hint)
      · exact .inl (.inr hd)
    · refine h.frame (h.respected.append rfl fun d' he => ?_) rfl rfl rfl rfl (hrest.user false)
        fun _ => .inl
      cases d' <;> cases he

/-- `poll` reports a packet. -/
theorem dispatch (h : s.Inv) {ov : Nat} {zero : Bool} {rest : List (Nat × Bool)}
    (hent : s.entries = (ov, zero) :: rest) :
    ({ s with entries := rest }.dispatch ov zero).Inv := by
  have hsub (d : Dir) (hd : Outstanding { s with entries := rest } (s.ov d)) :
      s.Outstanding (s.ov d) := by
    refine hd.imp_right (Or.imp_right fun hm => ?_)
    rw [hent]
    exact List.mem_cons_of_mem _ hm
  unfold IocpStream.dispatch
  split
  · rename_i hreg
    refine h.frame (h.respected.append rfl fun d he => ?_) rfl rfl rfl rfl (h.noMore.user true)
      fun d hd => .inl (hsub d hd)
    have hov : ov = s.ov d := ov_eq_of_eventOf he
    refine h.busy hreg d (.inl (.inr (.inr ?_)))
    rw [hent, ← hov]
    exact List.mem_cons_self
  · exact h.frame h.respected rfl rfl rfl rfl h.noMore fun d hd => .inl (hsub d hd)

end Inv

theorem step_inv (h : s.Inv) (hok : s.Covers a) (he : step s a = some s') : s'.Inv := by
  cases a with
  | add interest read write =>
    simp only [step] at he
    split at he
    · rename_i hg
      cases he
      exact h.add hg.2 hok
    · cases he
  | modify interest =>
    simp only [step] at he
    split at he
    · cases he
      exact h.modify hok
    · cases he
  | remove =>
    simp only [step] at he
    split at he
    · cases he
      exact ⟨h.respected, nofun, nofun, h.older⟩
    · cases he
  | arm ok =>
    simp only [step] at he
    split at he
    · rename_i hs
      cases he
      exact h.frame h.respected rfl rfl rfl rfl (hs ▸ h.noMore).tail fun _ => .inl
    · rename_i hs
      split at he
      · rename_i hg
        cases he
        obtain ⟨hreg, rfl⟩ := hg
        exact h.arm hs hreg ok
      · cases he
    · cases he
  | callbackReturn =>
    simp only [step] at he
    split at he
    · rename_i hs
      have hst := (hs ▸ h.noMore).tail
      split at he
      · cases he
        exact h.frame h.respected rfl rfl rfl rfl (hst.pollArm _) fun _ => .inl
      · cases he
        exact h.frame h.respected rfl rfl rfl rfl hst fun _ => .inl
    · cases he
  | finish ov zero =>
    simp only [step] at he
    split at he
    · rename_i hm
      cases he
      refine h.frame h.respected rfl rfl rfl rfl h.noMore fun d hd => .inl ?_
      rcases hd with hd | hd | hd
      · exact .inl (List.mem_of_mem_erase hd)
      · rw [List.map_append, List.mem_append] at hd
        rcases hd with hd | hd
        · exact .inr (.inl hd)
        · rw [List.mem_singleton.1 hd]
          exact .inl hm
      · exact .inr (.inr hd)
    · cases he
  | poll n =>
    simp only [step] at he
    split at he
    · cases he
      refine h.frame h.respected rfl rfl rfl rfl h.noMore fun d hd => .inl ?_
      refine hd.imp_right fun hd => .inl ?_
      rw [← List.take_append_drop n s.port, List.map_append, List.mem_append]
      exact hd.symm
    · cases he
  | entry =>
    simp only [step] at he
    split at he
    · rename_i hent
      cases he
      exact h.dispatch hent
    · cases he

theorem reach_inv (h : machine.ReachOk Covers s) : s.Inv :=
  h.inv (I := Inv) (fun s (hs : s = start) => hs ▸ start_inv)
    fun _ _ _ _ hi hok he => step_inv hi hok he

end IocpStream

end Socketpp
