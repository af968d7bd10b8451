import Socketpp.Lib.Owners
import Socketpp.Socket.ConnectAsync
import Socketpp.Socket.IocpConnect

/-!
# Destroying the event loop

`~event_loop` destroys the dispatcher, and the dispatcher its closures. An object
goes with the last closure that refers to it, and if it has a `timer_handle` that is
set, `cancel_timer` is called on the dispatcher that is being destroyed. The objects
are the `connect_state`s and whatever the user's closures capture: a
`shared_ptr<timer_handle>`, say, in a closure given to `add`, `defer` or `repeat`, or
in the callback of `connect_async`, which its `connect_state` keeps.

* epoll (`src/event/epoll.cpp`): the destructor closes the descriptors, then the
  members go in the reverse order of their declaration, `timer_callbacks_` before
  `callbacks_`. The lifetime of a map ends when its destructor begins, so every
  such call finds `timer_callbacks_` gone.
* IOCP (`src/event/iocp.cpp`): the destructor clears `states_`, and a `cancel_timer`
  that is called then takes its timer out of `timer_infos_`, whose closure goes next;
  then it clears `timer_infos_` with `timer_mutex_` held, and `cancel_timer` takes
  `timer_mutex_`.

`ConnectLoop` and `IocpLoop` say which closures the maps can have, and `OwnedLoop` adds
the objects of the user to either.
-/

namespace Socketpp

/-- An object that closures share. -/
inductive Ref where
  /-- the `connect_state` of an attempt -/
  | state (j : Nat)
  /-- one of the user's -/
  | object (k : Nat)
  deriving DecidableEq, Repr

/-- The closures in the two maps of a dispatcher, each with the objects it keeps alive. -/
structure Closures (ι : Type) where
  io : List (List Ref)
  timers : List (ι × List Ref)
  /-- somebody besides the closures refers to the object -/
  outside : Ref → Bool
  /-- the timer of the object's handle, while `cancel_fn_` is set -/
  handle : Ref → Option ι

/-- Where a destructor is when `cancel_timer` is called. -/
inductive Stage where
  /-- the timer map is there, and nobody holds its lock -/
  | free
  | mapDestroyed
  | lockHeld
  deriving DecidableEq, Repr

namespace Closures

variable {ι : Type} {c : Closures ι}

/-- A closure in one of the maps refers to the object. -/
def Keeps (c : Closures ι) (r : Ref) : Prop := r ∈ c.io.flatten ∨ r ∈ Owners.refs c.timers

/-- The objects `rs` go: the calls of `cancel_timer`. -/
def cancels (c : Closures ι) (stage : Stage) (rs : List Ref) : List (Stage × ι) :=
  (rs.filterMap c.handle).map (Prod.mk stage)

/-- `~epoll_dispatcher`: `timer_callbacks_`, then `callbacks_`. -/
def epollDestructor (c : Closures ι) : List (Stage × ι) :=
  c.cancels .mapDestroyed
      (Owners.released (fun r => decide (r ∈ c.io.flatten) || c.outside r)
        (Owners.refs c.timers)) ++
    c.cancels .mapDestroyed (Owners.released c.outside c.io.flatten)

/-- `states_.clear()`: the calls, and the timers that are left. -/
def clearStates [DecidableEq ι] (c : Closures ι) : List ι × List (ι × List Ref) :=
  Owners.release c.outside c.handle c.timers c.io.flatten

/-- `~iocp_dispatcher`: `states_`, then `timer_infos_` under the lock. -/
def iocpDestructor [DecidableEq ι] (c : Closures ι) : List (Stage × ι) :=
  c.clearStates.1.map (Prod.mk .free) ++
    c.cancels .lockHeld (Owners.released c.outside (Owners.refs c.clearStates.2))

/-- No call finds the map destroyed or its lock held. -/
def Safe (log : List (Stage × ι)) : Prop := ∀ e ∈ log, e.1 = .free

theorem safe_append {l l' : List (Stage × ι)} : Safe (l ++ l') ↔ Safe l ∧ Safe l' :=
  List.forall_mem_append

/-- A call at any other stage is one too many. -/
theorem safe_cancels {stage : Stage} (hs : stage ≠ .free) {rs : List Ref} :
    Safe (c.cancels stage rs) ↔ ∀ r ∈ rs, c.handle r = none := by
  unfold Safe cancels
  simp only [List.mem_map, List.mem_filterMap]
  constructor
  · intro h r hr
    cases hh : c.handle r with
    | none => rfl
    | some i => exact absurd (h (stage, i) ⟨i, ⟨r, hr, hh⟩, rfl⟩) hs
  · rintro h e ⟨i, ⟨r, hr, hh⟩, rfl⟩
    cases (h r hr).symm.trans hh

/-- epoll: no object with a handle goes. -/
theorem safe_epollDestructor :
    Safe c.epollDestructor ↔ ∀ r, c.Keeps r → c.outside r = false → c.handle r = none := by
  rw [epollDestructor, safe_append, safe_cancels (by decide), safe_cancels (by decide)]
  simp only [Owners.mem_released, Bool.or_eq_false_iff, decide_eq_false_iff_not, Keeps]
  constructor
  · rintro ⟨htimers, hio⟩ r hr ho
    by_cases hmem : r ∈ c.io.flatten
    · exact hio r ⟨hmem, ho⟩
    · exact htimers r ⟨hr.resolve_left hmem, hmem, ho⟩
  · intro h
    exact ⟨fun r hr => h r (.inr hr.1) hr.2.2, fun r hr => h r (.inl hr.1) hr.2⟩

/-- IOCP: no object with a handle goes with the timers that `states_.clear()` leaves. -/
theorem safe_iocpDestructor [DecidableEq ι] :
    Safe c.iocpDestructor ↔
      ∀ r ∈ Owners.refs c.clearStates.2, c.outside r = false → c.handle r = none := by
  have hfree : Safe (c.clearStates.1.map (Prod.mk Stage.free)) := by
    intro e he
    obtain ⟨i, -, rfl⟩ := List.mem_map.1 he
    rfl
  rw [iocpDestructor, safe_append, and_iff_right hfree,
    safe_cancels (by decide : Stage.lockHeld ≠ .free)]
  simp only [Owners.mem_released, and_imp]

/-- The timers that are left are timers of the map. -/
theorem mem_left [DecidableEq ι] {e : ι × List Ref} (h : e ∈ c.clearStates.2) : e ∈ c.timers :=
  Owners.mem_of_mem_release h

/-- A timer whose closure is the last owner of its handle. -/
theorem iocpDestructor_one [DecidableEq ι] {i : ι} {r : Ref} (hio : ∀ x ∈ c.io.flatten, x = r)
    (ht : c.timers = [(i, [r])]) (ho : c.outside r = false) (hh : c.handle r = some i) :
    c.iocpDestructor = [(.lockHeld, i)] := by
  have hrefs : r ∈ Owners.refs [(i, [r])] := by simp [Owners.refs]
  have hclear (rs : List Ref) (h : ∀ x ∈ rs, x = r) :
      Owners.release c.outside c.handle [(i, [r])] rs = ([], [(i, [r])]) := by
    induction rs with
    | nil => rw [Owners.release]
    | cons x rs ih =>
      obtain rfl := h x List.mem_cons_self
      rw [Owners.release, if_pos (.inr (.inl hrefs))]
      exact ih fun y hy => h y (List.mem_cons_of_mem _ hy)
  rw [iocpDestructor, clearStates, ht, hclear _ hio]
  simp [Owners.refs, Owners.released, cancels, ho, hh]

end Closures

/-! ## Objects of the user -/

/-- A loop, as far as its destruction depends on it. -/
structure LoopView (σ α ι : Type) where
  start : σ
  step : σ → α → Option σ
  /-- the registrations so far -/
  made : σ → Nat
  /-- those in the map of the sockets -/
  io : σ → List Nat
  timers : σ → List (ι × Nat)
  /-- the attempt whose `connect_state` the closure of a registration refers to -/
  state : σ → Nat → Option Nat
  /-- the timer of its handle, while `cancel_fn_` is set -/
  handle : σ → Nat → Option ι
  cancelTimer : ι → α

def LoopView.machine {σ α ι : Type} (V : LoopView σ α ι) : Machine σ α where
  Init s := s = V.start
  step := V.step

/-- A loop with the objects of the user that have a `timer_handle`. -/
structure OwnedLoop (σ ι : Type) where
  loop : σ
  /-- the timer of each object's handle, while `cancel_fn_` is set -/
  handles : List (Option ι)
  /-- somebody besides the closures refers to the object -/
  outside : Nat → Bool
  /-- the objects that the closure of a registration keeps alive -/
  captures : Nat → List Nat

namespace OwnedLoop

variable {σ α ι : Type}

inductive Act (α ι : Type) where
  /-- the loop takes a step, and the closures it registers there keep `ks` alive -/
  | loop (a : α) (ks : List Nat)
  | make
  /-- what `defer` or `repeat` returned is moved into the object -/
  | hold (k : Nat) (id : ι)
  /-- `timer_handle::cancel`, which `~timer_handle` calls too -/
  | cancel (k : Nat)
  /-- somebody gets or gives up a reference -/
  | refer (k : Nat) (on : Bool)

def step (V : LoopView σ α ι) (s : OwnedLoop σ ι) : Act α ι → Option (OwnedLoop σ ι)
  | .loop a ks =>
    (V.step s.loop a).map fun l =>
      { s with loop := l
               captures := fun r => if V.made s.loop ≤ r then ks else s.captures r }
  | .make => some { s with handles := s.handles ++ [none]
                           outside := Function.update s.outside s.handles.length true }
  | .hold k id =>
    match s.handles[k]? with
    | some none => some { s with handles := s.handles.set k (some id) }
    | _ => none
  | .cancel k =>
    match s.handles[k]? with
    | some (some id) =>
      (V.step s.loop (V.cancelTimer id)).map fun l =>
        { s with loop := l, handles := s.handles.set k none }
    | _ => some s
  | .refer k on => some { s with outside := Function.update s.outside k on }

def start (V : LoopView σ α ι) : OwnedLoop σ ι := ⟨V.start, [], fun _ => false, fun _ => []⟩

def machine (V : LoopView σ α ι) : Machine (OwnedLoop σ ι) (Act α ι) where
  Init s := s = start V
  step := step V

variable {V : LoopView σ α ι} {s : OwnedLoop σ ι}

/-- **The objects do not change what the loop can do.** -/
theorem reach_loop (h : (machine V).Reach s) : V.machine.Reach s.loop := by
  refine h.sim (f := OwnedLoop.loop) (fun s (hs : s = start V) => hs ▸ rfl)
    fun s a s' _ _ he => ?_
  have he' : step V s a = some s' := he
  cases a with
  | loop a ks =>
    obtain ⟨l, hl, rfl⟩ := Option.map_eq_some_iff.1 he'
    exact .inr ⟨a, trivial, hl⟩
  | make | refer => cases he'; exact .inl rfl
  | hold k id =>
    simp only [step] at he'
    split at he'
    · cases he'; exact .inl rfl
    · cases he'
  | cancel k =>
    simp only [step] at he'
    split at he'
    · rename_i id _
      obtain ⟨l, hl, rfl⟩ := Option.map_eq_some_iff.1 he'
      exact .inr ⟨V.cancelTimer id, trivial, hl⟩
    · cases he'; exact .inl rfl

/-- What the closure of a registration keeps alive: the callback of `connect_async` goes with its
`connect_state`. -/
def keeps (V : LoopView σ α ι) (s : OwnedLoop σ ι) (r : Nat) : List Ref :=
  ((V.state s.loop r).map Ref.state).toList ++ (s.captures r).map Ref.object

def closures (V : LoopView σ α ι) (s : OwnedLoop σ ι) : Closures ι where
  io := (V.io s.loop).map (s.keeps V)
  timers := (V.timers s.loop).map fun e => (e.1, s.keeps V e.2)
  outside
    | .state _ => false
    | .object k => s.outside k
  handle
    | .state j => V.handle s.loop j
    | .object k => s.handles[k]?.join

/-- An object of the user with a handle that is set, which nobody but closures refers to. -/
def Armed (s : OwnedLoop σ ι) (k : Nat) : Prop :=
  s.outside k = false ∧ (s.handles[k]?.join).isSome = true

theorem state_mem_keeps {r j : Nat} : Ref.state j ∈ s.keeps V r ↔ V.state s.loop r = some j := by
  unfold keeps
  cases V.state s.loop r <;> simp [eq_comm]

theorem state_keeps {j : Nat} : (s.closures V).Keeps (.state j) ↔
    (∃ r ∈ V.io s.loop, V.state s.loop r = some j) ∨
      ∃ e ∈ V.timers s.loop, V.state s.loop e.2 = some j := by
  unfold Closures.Keeps closures
  simp [Owners.mem_refs, state_mem_keeps]

/-- The condition on an object, spelled out for the two kinds of them. -/
theorem forall_ref {P : Ref → Prop} :
    (∀ r, P r → (s.closures V).outside r = false → (s.closures V).handle r = none) ↔
      (∀ j, P (.state j) → V.handle s.loop j = none) ∧ ∀ k, P (.object k) → ¬ s.Armed k := by
  constructor
  · intro h
    refine ⟨fun j hj => h (.state j) hj rfl, fun k hk harmed => ?_⟩
    have hnone : s.handles[k]?.join = none := h (.object k) hk harmed.1
    have hsome := harmed.2
    rw [hnone] at hsome
    cases hsome
  · rintro ⟨hstate, hobject⟩ r hr ho
    cases r with
    | state j => exact hstate j hr
    | object k => exact Option.not_isSome_iff_eq_none.1 fun hsome => hobject k hr ⟨ho, hsome⟩

end OwnedLoop

/-! ## epoll -/

namespace ConnectLoop

def view : LoopView ConnectLoop Act Fd where
  start := start
  step := step
  made s := s.loop.made
  io s := s.loop.disp.callbacks.entries.map fun e => e.2
  timers s := s.loop.disp.timers.entries.map fun e => (e.1, e.2.callback)
  state s r := (s.callback r).state
  handle s j := s.attempts[j]?.bind Attempt.timer
  cancelTimer id := .other (.cancel id)

/-- A closure refers to the state of the attempt. -/
theorem keeps_iff_owned {s : OwnedLoop ConnectLoop Fd} {j : Nat} :
    (s.closures view).Keeps (.state j) ↔ s.loop.owned j = true := by
  unfold owned
  rw [OwnedLoop.state_keeps, or_comm, Bool.or_eq_true, List.any_eq_true, List.any_eq_true]
  simp only [view, List.mem_map, exists_exists_and_eq_and, decide_eq_true_eq]

/-- The handle of a state that some closure refers to is set. -/
theorem Inv.handle {s : ConnectLoop} (h : s.Inv) {j : Nat} (ho : s.owned j = true) :
    view.handle s j ≠ none := by
  replace ho := (Bool.or_eq_true ..).mp ho
  simp only [List.any_eq_true, decide_eq_true_eq] at ho
  show s.attempts[j]?.bind Attempt.timer ≠ none
  rcases ho with ⟨e, he, hj⟩ | ⟨e, he, hj⟩
  · obtain ⟨a, n, ht⟩ := h.timeout e.1 e.2 j (AList.mem_lookup_iff.2 he) hj
    simp [ht.attempt, ht.timer]
  · obtain ⟨a, hs⟩ := h.connected e.1 e.2 j (AList.mem_lookup_iff.2 he) hj
    rw [hs.attempt]
    exact Option.isSome_iff_ne_none.1 hs.handle

theorem safe_epollDestructor_iff {s : OwnedLoop ConnectLoop Fd} (h : s.loop.Inv) :
    Closures.Safe (s.closures view).epollDestructor ↔
      (∀ j, s.loop.owned j = false) ∧
        ∀ k, (s.closures view).Keeps (.object k) → ¬ s.Armed k := by
  rw [Closures.safe_epollDestructor, OwnedLoop.forall_ref]
  refine and_congr_left' (forall_congr' fun j => ?_)
  rw [keeps_iff_owned]
  constructor
  · intro hs
    by_contra ho
    replace ho := Bool.eq_true_of_not_eq_false ho
    exact h.handle ho (hs ho)
  · intro hno ho
    cases hno.symm.trans ho

end ConnectLoop

/-! ## IOCP -/

namespace IocpLoop

def view : LoopView IocpLoop Act Nat where
  start := start
  step := step
  made s := s.made
  io s := s.states.entries.map fun e => e.2
  timers := timerMap
  state s r := s.state r
  handle s j := s.attempts[j]?.bind IocpAttempt.timer
  cancelTimer id := .cancel id

theorem safe_iocpDestructor_iff {s : OwnedLoop IocpLoop Nat} (h : s.loop.Inv)
    (ht : s.loop.timers.Inv) :
    Closures.Safe (s.closures view).iocpDestructor ↔
      ∀ e ∈ (s.closures view).clearStates.2,
        (∀ j, .state j ∉ e.2) ∧ ∀ k, .object k ∈ e.2 → ¬ s.Armed k := by
  rw [Closures.safe_iocpDestructor, OwnedLoop.forall_ref]
  simp only [Owners.mem_refs]
  constructor
  · rintro ⟨hstate, hobject⟩ e he
    refine ⟨fun j hj => ?_, fun k hk => hobject k ⟨e, he, hk⟩⟩
    -- a timer of an attempt is the one its handle has
    obtain ⟨x, hx, rfl⟩ := List.mem_map.1 (Closures.mem_left he)
    obtain ⟨hid, hreg⟩ := (mem_timerMap ht).1 hx
    have hj' : s.loop.state x.2 = some j := OwnedLoop.state_mem_keeps.1 hj
    rw [hreg] at hj'
    obtain ⟨a, ha, hat⟩ := h.timer x.1 hid j hj'
    have hnone : s.loop.attempts[j]?.bind IocpAttempt.timer = none := hstate j ⟨_, he, hj⟩
    simp [ha, hat] at hnone
  · intro hall
    refine ⟨?_, ?_⟩
    · rintro j ⟨e, he, hj⟩
      exact absurd hj ((hall e he).1 j)
    · rintro k ⟨e, he, hk⟩
      exact (hall e he).2 k hk

end IocpLoop

/-- **Loop destruction.** In every reachable state the epoll dispatcher can be destroyed exactly if
no attempt to connect is pending and no closure owns a handle that is set; and the IOCP dispatcher
exactly if this is so of the closures of the timers that `states_.clear()` leaves. -/
theorem loop_destruction_safe_iff {s : OwnedLoop ConnectLoop Fd} {s' : OwnedLoop IocpLoop Nat}
    (h : (OwnedLoop.machine ConnectLoop.view).Reach s)
    (h' : (OwnedLoop.machine IocpLoop.view).Reach s') :
    (Closures.Safe (s.closures ConnectLoop.view).epollDestructor ↔
      (∀ j, s.loop.owned j = false) ∧
        ∀ k, (s.closures ConnectLoop.view).Keeps (.object k) → ¬ s.Armed k) ∧
    (Closures.Safe (s'.closures IocpLoop.view).iocpDestructor ↔
      ∀ e ∈ (s'.closures IocpLoop.view).clearStates.2,
        (∀ j, .state j ∉ e.2) ∧ ∀ k, .object k ∈ e.2 → ¬ s'.Armed k) :=
  ⟨ConnectLoop.safe_epollDestructor_iff (ConnectLoop.reach_inv (OwnedLoop.reach_loop h)),
    IocpLoop.safe_iocpDestructor_iff (IocpLoop.reach_inv (OwnedLoop.reach_loop h'))
      (IocpTimers.reach_inv (IocpLoop.reach_timers (OwnedLoop.reach_loop h')))⟩

/-- The attempt has completed. On epoll a timer is left whose closure owns its own handle, with the
user. On IOCP the closure of a socket owns the handle of a timer whose closure owns that of another:
all three go with `states_`. -/
theorem loop_destruction_safe_completed :
    ∃ s s', (OwnedLoop.machine ConnectLoop.view).Reach s ∧
      (OwnedLoop.machine IocpLoop.view).Reach s' ∧
      (s.loop.attempts.length = 1 ∧ (s.closures ConnectLoop.view).timers = [(7, [.object 0])] ∧
        s.handles = [some 7]) ∧
      (s'.loop.attempts.length = 1 ∧
        (s'.closures IocpLoop.view).timers = [(2, [.object 1]), (3, [])] ∧
        s'.handles = [some 2, some 3]) ∧
      Closures.Safe (s.closures ConnectLoop.view).epollDestructor ∧
      Closures.Safe (s'.closures IocpLoop.view).iocpDestructor := by
  obtain ⟨s, h, hp⟩ := Machine.Reach.of_run_init (M := OwnedLoop.machine ConnectLoop.view)
    (fun s => decide (s.loop.attempts.length = 1 ∧ (s.closures ConnectLoop.view).io = [] ∧
      (s.closures ConnectLoop.view).timers = [(7, [.object 0])] ∧ s.handles = [some 7] ∧
      s.outside 0 = true))
    [.make, .loop (.connect (.ok 5) (.ok ()) (some 115) 3000 (some 6) true true) [],
      .loop (.other (.schedule 1000 true (some 7) true)) [0], .hold 0 7,
      .loop (.other (.wait [5])) [], .loop (.dispatch (.ok 0)) [], .loop .callbackReturn []]
    rfl (by decide)
  obtain ⟨s', h', hp'⟩ := Machine.Reach.of_run_init (M := OwnedLoop.machine IocpLoop.view)
    (fun s => decide (s.loop.attempts.length = 1 ∧
      (s.closures IocpLoop.view).io = [[.object 0]] ∧
      (s.closures IocpLoop.view).timers = [(2, [.object 1]), (3, [])] ∧
      s.handles = [some 2, some 3] ∧ s.outside 0 = false ∧ s.outside 1 = false))
    [.make, .make, .loop (.connect 100 3000 true true) [], .loop (.schedule 1000 true true) [1],
      .loop (.schedule 1000 true true) [], .hold 0 2, .hold 1 3, .loop (.add 200) [0],
      .refer 0 false, .refer 1 false, .loop (.event 100) []]
    rfl (by decide)
  obtain ⟨hn, hio, ht, hh, ho⟩ := of_decide_eq_true hp
  obtain ⟨hn', hio', ht', hh', ho0, ho1⟩ := of_decide_eq_true hp'
  have hkeeps (r : Ref) (hr : (s.closures ConnectLoop.view).Keeps r) : r = .object 0 := by
    simpa [Closures.Keeps, hio, ht, Owners.refs] using hr
  have hclear : (s'.closures IocpLoop.view).clearStates = ([2, 3], []) := by
    unfold Closures.clearStates
    rw [hio', ht']
    simp [Owners.release, Owners.refs, Owners.named, Owners.others, OwnedLoop.closures, hh', ho0,
      ho1]
  have hsafe := loop_destruction_safe_iff h h'
  refine ⟨s, s', h, h', ⟨hn, ht, hh⟩, ⟨hn', ht', hh'⟩, hsafe.1.2 ⟨fun j => ?_, fun k hk => ?_⟩,
    hsafe.2.2 fun e he => ?_⟩
  · by_contra hown
    cases hkeeps _ (ConnectLoop.keeps_iff_owned.2 (Bool.eq_true_of_not_eq_false hown))
  · cases hkeeps _ hk
    intro harmed
    cases ho.symm.trans harmed.1
  · rw [hclear] at he
    cases he

/-- A handle goes with its last closure. An attempt is pending: epoll drops its state with
`callbacks_`, after `timer_callbacks_`, and IOCP with `timer_infos_`, inside the lock. A closure of
the user owns a handle: one given to `add` on epoll, and on IOCP that of a repeating timer, which
owns its own. -/
theorem pending_connect_destroyed :
    (∃ s, (OwnedLoop.machine ConnectLoop.view).Reach s ∧
      (s.closures ConnectLoop.view).epollDestructor = [(.mapDestroyed, 6)]) ∧
    (∃ s, (OwnedLoop.machine IocpLoop.view).Reach s ∧
      (s.closures IocpLoop.view).iocpDestructor = [(.lockHeld, 1)]) ∧
    (∃ s, (OwnedLoop.machine ConnectLoop.view).Reach s ∧ s.loop.attempts.length = 0 ∧
      (s.closures ConnectLoop.view).epollDestructor = [(.mapDestroyed, 7)]) ∧
    ∃ s, (OwnedLoop.machine IocpLoop.view).Reach s ∧ s.loop.attempts.length = 0 ∧
      (s.closures IocpLoop.view).iocpDestructor = [(.lockHeld, 1)] := by
  refine ⟨?_, ?_, ?_, ?_⟩
  · obtain ⟨s, h, hp⟩ := Machine.Reach.of_run_init (M := OwnedLoop.machine ConnectLoop.view)
      (fun s => decide ((s.closures ConnectLoop.view).epollDestructor = [(.mapDestroyed, 6)]))
      [.loop (.connect (.ok 5) (.ok ()) (some 115) 3000 (some 6) true true) []] rfl (by decide)
    exact ⟨s, h, of_decide_eq_true hp⟩
  · obtain ⟨s, h, hp⟩ := Machine.Reach.of_run_init (M := OwnedLoop.machine IocpLoop.view)
      (fun s => decide ((s.closures IocpLoop.view).io = [[.state 0]] ∧
        (s.closures IocpLoop.view).timers = [(1, [.state 0])] ∧
        (s.closures IocpLoop.view).handle (.state 0) = some 1))
      [.loop (.connect 100 3000 true true) []] rfl (by decide)
    obtain ⟨hio, ht, hh⟩ := of_decide_eq_true hp
    exact ⟨s, h, Closures.iocpDestructor_one (by simp [hio]) ht rfl hh⟩
  · obtain ⟨s, h, hp⟩ := Machine.Reach.of_run_init (M := OwnedLoop.machine ConnectLoop.view)
      (fun s => decide (s.loop.attempts.length = 0 ∧
        (s.closures ConnectLoop.view).epollDestructor = [(.mapDestroyed, 7)]))
      [.make, .loop (.other (.schedule 1000 false (some 7) true)) [], .hold 0 7,
        .loop (.other (.openFd 5)) [], .loop (.other (.add 5 .readable true)) [0], .refer 0 false]
      rfl (by decide)
    exact ⟨s, h, of_decide_eq_true hp⟩
  · obtain ⟨s, h, hp⟩ := Machine.Reach.of_run_init (M := OwnedLoop.machine IocpLoop.view)
      (fun s => decide (s.loop.attempts.length = 0 ∧ (s.closures IocpLoop.view).io = [] ∧
        (s.closures IocpLoop.view).timers = [(1, [.object 0])] ∧
        (s.closures IocpLoop.view).outside (.object 0) = false ∧
        (s.closures IocpLoop.view).handle (.object 0) = some 1))
      [.make, .loop (.schedule 1000 true true) [0], .hold 0 1, .refer 0 false] rfl (by decide)
    obtain ⟨hn, hio, ht, ho, hh⟩ := of_decide_eq_true hp
    exact ⟨s, h, hn, Closures.iocpDestructor_one (by simp [hio]) ht ho hh⟩

end Socketpp
