import Socketpp.Event.IocpTimers

/-!
# Asynchronous connect on IOCP

The maps of `iocp_dispatcher` (`src/event/iocp.cpp`) with the closures that
`connect_async_impl` (`src/socket/tcp_connect_async.cpp`) leaves in them, as far as
the maps and the timer handles go. The timers are those of `IocpTimers`: each step
of `IocpLoop` is a run of that machine (`step_timers`). A registration's number
tells which `connect_state` its closure refers to.

`Inv`: as long as the map has the timer of an attempt, the attempt's handle is set
and has its id.
-/

namespace Socketpp

namespace IocpTimers

variable {s t : IocpTimers}

/-- `schedule_timer`. The id is zero if the timer cannot be made. -/
def callSchedule (s : IocpTimers) (timeout : Int) (rep created : Bool) :
    Option (IocpTimers × Nat) :=
  (s.step (.schedule timeout rep created)).bind fun t =>
    if created then (t.step .insert).map fun t => (t, s.nextTimerId) else some (t, 0)

/-- `cancel_timer`. -/
def callCancel (s : IocpTimers) (id : Nat) : Option IocpTimers :=
  (s.step (.cancel id)).bind fun t => if id ∈ s.timerInfos then t.step .close else some t

/-- `timer_handle::cancel`. -/
def cancelHandle (s : IocpTimers) : Option Nat → Option IocpTimers
  | some id => s.callCancel id
  | none => some s

/-- A run of the timers. -/
def Runs (s t : IocpTimers) : Prop := ∃ as, machine.Path (fun _ _ => True) s as t

theorem Runs.same (s : IocpTimers) : s.Runs s := ⟨[], .nil s⟩

theorem Runs.one {a : Act} (he : s.step a = some t) : s.Runs t := ⟨[a], .cons trivial he (.nil t)⟩

theorem Runs.two {a b : Act} {u : IocpTimers} (ha : s.step a = some u) (hb : u.step b = some t) :
    s.Runs t :=
  ⟨[a, b], .cons trivial ha (.cons trivial hb (.nil t))⟩

theorem callSchedule_runs {timeout : Int} {rep created : Bool} {id : Nat}
    (h : s.callSchedule timeout rep created = some (t, id)) : s.Runs t := by
  obtain ⟨u, hu, h⟩ := Option.bind_eq_some_iff.1 h
  split at h
  · obtain ⟨v, hv, e⟩ := Option.map_eq_some_iff.1 h
    cases e
    exact .two hu hv
  · cases h
    exact .one hu

/-- One entry more, under the next id, if the timer was made. -/
theorem callSchedule_timerInfos {timeout : Int} {rep created : Bool} {id : Nat}
    (h : s.callSchedule timeout rep created = some (t, id)) :
    (created = true ∧ id = s.nextTimerId ∧ t.timerInfos = insert id s.timerInfos) ∨
      (created = false ∧ t.timerInfos = s.timerInfos) := by
  obtain ⟨u, hu, hrest⟩ := Option.bind_eq_some_iff.1 h
  cases created with
  | true =>
    obtain ⟨v, hv, e⟩ := Option.map_eq_some_iff.1 hrest
    cases e
    cases step_view hu with
    | schedule _ _ hu' =>
      generalize hw : ({ s with nextTimerId := s.nextTimerId + 1
                                infos := _, stack := _ } : IocpTimers) = w at hv
      cases step_view hv with
      | insert i st hs =>
        subst hw
        cases hs
        exact .inl ⟨rfl, rfl, rfl⟩
  | false =>
    cases hrest
    cases step_view hu with
    | notCreated _ _ hu' => exact .inr ⟨rfl, rfl⟩

theorem callCancel_runs {id : Nat} (h : s.callCancel id = some t) : s.Runs t := by
  obtain ⟨u, hu, h⟩ := Option.bind_eq_some_iff.1 h
  split at h
  · exact .two hu h
  · cases h
    exact .one hu

theorem callCancel_timerInfos {id : Nat} (h : s.callCancel id = some t) :
    t.timerInfos = s.timerInfos.erase id := by
  obtain ⟨u, hu, hrest⟩ := Option.bind_eq_some_iff.1 h
  split at hrest
  · rename_i hm
    cases step_view hu with
    | cancel _ hu' _ =>
      cases step_view hrest with
      | close i st hs => rfl
    | cancelNone _ hu' hn => exact absurd hm hn
  · rename_i hm
    cases hrest
    cases step_view hu with
    | cancel _ hu' hin => exact absurd hin hm
    | cancelNone _ hu' hn => exact (Finset.erase_eq_of_notMem hn).symm

theorem cancelHandle_runs {x : Option Nat} (h : s.cancelHandle x = some t) : s.Runs t := by
  cases x with
  | some id => exact callCancel_runs h
  | none =>
    cases h
    exact .same s

theorem mem_cancelHandle {x : Option Nat} (h : s.cancelHandle x = some t) {id : Nat} :
    id ∈ t.timerInfos ↔ x ≠ some id ∧ id ∈ s.timerInfos := by
  cases x with
  | some i =>
    rw [callCancel_timerInfos h, Finset.mem_erase]
    exact and_congr_left' ⟨fun hne e => hne (Option.some.inj e).symm, fun hne e => hne (e ▸ rfl)⟩
  | none =>
    cases h
    exact ⟨fun hm => ⟨(by rintro ⟨⟩), hm⟩, And.right⟩

/-- Dispatching takes entries away at most. -/
theorem dispatch_timerInfos (h : s.step .dispatch = some t) : t.timerInfos ⊆ s.timerInfos := by
  cases step_view h with
  | dispatch id rest u =>
    show (if u.repeating then s.timerInfos else s.timerInfos.erase id) ⊆ s.timerInfos
    split
    · exact subset_rfl
    · exact Finset.erase_subset id s.timerInfos
  | stale id rest => exact subset_rfl

theorem callbackReturn_timerInfos (h : s.step .callbackReturn = some t) :
    t.timerInfos = s.timerInfos := by
  cases step_view h with
  | runReturn | onceReturn => rfl

/-- Every entry of the map has an id that was given out. -/
theorem Inv.lt_next (h : s.Inv) {id : Nat} (hm : id ∈ s.timerInfos) : id < s.nextTimerId := by
  refine Nat.lt_of_not_le fun hle => ?_
  exact (h.unmade id (h.fresh id hle)).1 hm

end IocpTimers

/-- `connect_state`, with the descriptor its timer captures. -/
structure IocpAttempt where
  fd : Nat
  /-- `timer`: the id it has while `cancel_fn_` is set -/
  timer : Option Nat
  completed : Bool
  deriving DecidableEq, Repr

structure IocpLoop where
  timers : IocpTimers
  /-- `states_`, with the number of the registration -/
  states : AList fun _ : Nat => Nat
  /-- the number of a timer's registration, by its id -/
  timerReg : Nat → Nat
  /-- the registrations so far -/
  made : Nat
  /-- the attempt whose `connect_state` the closure of a registration refers to -/
  state : Nat → Option Nat
  attempts : List IocpAttempt

namespace IocpLoop

def start : IocpLoop := ⟨.start, ∅, fun _ => 0, 0, fun _ => none, []⟩

inductive Act where
  /-- `connect_async` with a socket, and whether the timer can be made and `add` succeeds -/
  | connect (fd : Nat) (timeout : Int) (created addOk : Bool)
  | add (fd : Nat)
  | remove (fd : Nat)
  /-- `defer` or `repeat` -/
  | schedule (timeout : Int) (rep created : Bool)
  | cancel (id : Nat)
  | expire (id : Nat)
  | harvest (n : Nat)
  | dispatch
  | callbackReturn
  /-- a packet for a socket comes out of the completion port -/
  | event (fd : Nat)
  /-- the last reference to a `connect_state` is gone -/
  | destroy (j : Nat)

/-- A timer is entered under the number `made`. -/
def entered (s : IocpLoop) (created : Bool) (r : IocpTimers × Nat) : IocpLoop :=
  { s with timers := r.1
           timerReg := if created then Function.update s.timerReg r.2 s.made else s.timerReg }

def connect (s : IocpLoop) (fd : Nat) (created addOk : Bool) (r : IocpTimers × Nat) : IocpLoop :=
  let j := s.attempts.length
  { s.entered created r with
    states := if addOk then s.states.insert fd (s.made + 1) else s.states
    made := s.made + 2
    state := Function.update (Function.update s.state s.made (some j)) (s.made + 1) (some j)
    attempts := s.attempts ++ [⟨fd, some r.2, false⟩] }

/-- The timer's callback. -/
def onTimeout (s : IocpLoop) (j : Nat) : IocpLoop :=
  match s.attempts[j]? with
  | none => s
  | some a =>
    if a.completed then s
    else { s with states := s.states.erase a.fd
                  attempts := s.attempts.set j { a with completed := true } }

/-- The descriptor's callback. -/
def onEvent (s : IocpLoop) (j fd : Nat) : Option IocpLoop :=
  match s.attempts[j]? with
  | none => some s
  | some a =>
    if a.completed then some s
    else (s.timers.cancelHandle a.timer).map fun t =>
      { s with timers := t
               states := s.states.erase fd
               attempts := s.attempts.set j { a with completed := true, timer := none } }

/-- The closure that `dispatch_timer` has just called, if it is `connect_async`'s. -/
def called (s : IocpLoop) : IocpLoop :=
  match s.timers.stack with
  | .running id :: _ =>
    match s.state (s.timerReg id) with
    | some j => s.onTimeout j
    | none => s
  | _ => s

/-- The timers of the map, by id, each with the number of its registration. -/
def timerMap (s : IocpLoop) : List (Nat × Nat) :=
  ((List.range s.timers.nextTimerId).filter (· ∈ s.timers.timerInfos)).map fun id =>
    (id, s.timerReg id)

/-- A closure in one of the maps refers to the attempt. -/
def owned (s : IocpLoop) (j : Nat) : Bool :=
  s.timerMap.any (fun e => s.state e.2 = some j) ||
    s.states.entries.any fun e => s.state e.2 = some j

/-- A step of the loop thread or of the thread pool; what the user's callbacks do are further
steps. -/
def step (s : IocpLoop) : Act → Option IocpLoop
  | .connect fd timeout created addOk =>
    (s.timers.callSchedule timeout false created).map (s.connect fd created addOk)
  | .add fd =>
    if s.timers.user then some { s with states := s.states.insert fd s.made, made := s.made + 1 }
    else none
  | .remove fd => if s.timers.user then some { s with states := s.states.erase fd } else none
  | .schedule timeout rep created =>
    (s.timers.callSchedule timeout rep created).map fun r =>
      { s.entered created r with made := s.made + 1 }
  | .cancel id => (s.timers.callCancel id).map fun t => { s with timers := t }
  | .expire id => (s.timers.step (.expire id)).map fun t => { s with timers := t }
  | .harvest n => (s.timers.step (.harvest n)).map fun t => { s with timers := t }
  | .dispatch => (s.timers.step .dispatch).map fun t => { s with timers := t }.called
  | .callbackReturn => (s.timers.step .callbackReturn).map fun t => { s with timers := t }
  | .event fd =>
    if s.timers.user ∧ s.timers.stack = [] then
      match s.states.lookup fd with
      | some r =>
        match s.state r with
        | some j => s.onEvent j fd
        | none => some s
      | none => none
    else none
  | .destroy j =>
    match s.attempts[j]? with
    | some a =>
      if s.owned j then none
      else (s.timers.cancelHandle a.timer).map fun t =>
        { s with timers := t, attempts := s.attempts.set j { a with timer := none } }
    | none => none

def machine : Machine IocpLoop Act where
  Init s := s = start
  step := step

variable {s s' : IocpLoop} {a : Act}

theorem onTimeout_frame (s : IocpLoop) (j : Nat) :
    (s.onTimeout j).timers = s.timers ∧ (s.onTimeout j).timerReg = s.timerReg ∧
      (s.onTimeout j).made = s.made ∧ (s.onTimeout j).state = s.state := by
  unfold onTimeout
  split
  · exact ⟨rfl, rfl, rfl, rfl⟩
  · split <;> exact ⟨rfl, rfl, rfl, rfl⟩

theorem called_timers (s : IocpLoop) : s.called.timers = s.timers := by
  unfold called
  split
  · split
    · exact (onTimeout_frame s _).1
    · rfl
  · rfl

/-- **Each step is a run of the timers.** -/
theorem step_timers (he : s.step a = some s') : s.timers.Runs s'.timers := by
  cases a with
  | connect fd timeout created addOk =>
    obtain ⟨r, hr, rfl⟩ := Option.map_eq_some_iff.1 he
    exact IocpTimers.callSchedule_runs hr
  | schedule timeout rep created =>
    obtain ⟨r, hr, rfl⟩ := Option.map_eq_some_iff.1 he
    exact IocpTimers.callSchedule_runs hr
  | add fd | remove fd =>
    simp only [step] at he
    split at he
    · cases he; exact .same _
    · cases he
  | cancel id =>
    obtain ⟨t, ht, rfl⟩ := Option.map_eq_some_iff.1 he
    exact IocpTimers.callCancel_runs ht
  | expire id =>
    obtain ⟨t, ht, rfl⟩ := Option.map_eq_some_iff.1 he
    exact .one ht
  | harvest n =>
    obtain ⟨t, ht, rfl⟩ := Option.map_eq_some_iff.1 he
    exact .one ht
  | dispatch =>
    obtain ⟨t, ht, rfl⟩ := Option.map_eq_some_iff.1 he
    rw [called_timers]
    exact .one ht
  | callbackReturn =>
    obtain ⟨t, ht, rfl⟩ := Option.map_eq_some_iff.1 he
    exact .one ht
  | event fd =>
    simp only [step, onEvent] at he
    split at he
    · split at he
      · split at he
        · split at he
          · cases he; exact .same _
          · split at he
            · cases he; exact .same _
            · obtain ⟨t, ht, rfl⟩ := Option.map_eq_some_iff.1 he
              exact IocpTimers.cancelHandle_runs ht
        · cases he; exact .same _
      · cases he
    · cases he
  | destroy j =>
    simp only [step] at he
    split at he
    · split at he
      · cases he
      · obtain ⟨t, ht, rfl⟩ := Option.map_eq_some_iff.1 he
        exact IocpTimers.cancelHandle_runs ht
    · cases he

/-- The timers of a loop are in a state that `IocpTimers` reaches. -/
theorem reach_timers (h : machine.Reach s) : IocpTimers.machine.Reach s.timers :=
  h.sim_path (f := timers) (fun s (hs : s = start) => hs ▸ rfl) fun _ _ _ _ _ he => step_timers he

/-- A timer of an attempt is the one its handle has. -/
structure Inv (s : IocpLoop) : Prop where
  older : ∀ id ∈ s.timers.timerInfos, s.timerReg id < s.made
  unmade : ∀ r, s.made ≤ r → s.state r = none
  timer : ∀ id ∈ s.timers.timerInfos, ∀ j, s.state (s.timerReg id) = some j →
    ∃ a, s.attempts[j]? = some a ∧ a.timer = some id

theorem start_inv : start.Inv :=
  ⟨(by rintro id ⟨⟩), fun _ _ => rfl, (by rintro id ⟨⟩)⟩

/-- Fewer timers. -/
theorem Inv.fewer (h : s.Inv) (ht : s'.timers.timerInfos ⊆ s.timers.timerInfos)
    (hr : s'.timerReg = s.timerReg) (hs : s'.state = s.state) (hm : s.made ≤ s'.made)
    (ha : s'.attempts = s.attempts) : s'.Inv := by
  refine ⟨fun id hid => ?_, fun r hle => ?_, fun id hid j hj => ?_⟩
  · rw [hr]
    exact Nat.lt_of_lt_of_le (h.older id (ht hid)) hm
  · rw [hs]
    exact h.unmade r (Nat.le_trans hm hle)
  · rw [ha]
    rw [hr, hs] at hj
    exact h.timer id (ht hid) j hj

/-- An attempt's record changes. -/
theorem Inv.set (h : s.Inv) {j : Nat} {a a' : IocpAttempt} (ha : s.attempts[j]? = some a)
    (ht : s'.timers.timerInfos ⊆ s.timers.timerInfos) (hr : s'.timerReg = s.timerReg)
    (hs : s'.state = s.state) (hm : s'.made = s.made)
    (hset : s'.attempts = s.attempts.set j a')
    (hj : ∀ id ∈ s'.timers.timerInfos, a.timer = some id → a'.timer = some id) : s'.Inv := by
  refine ⟨fun id hid => ?_, fun r hle => ?_, fun id hid i hi => ?_⟩
  · rw [hr, hm]
    exact h.older id (ht hid)
  · rw [hs]
    exact h.unmade r (hm ▸ hle)
  · rw [hr, hs] at hi
    obtain ⟨b, hb, hbt⟩ := h.timer id (ht hid) i hi
    rw [hset]
    by_cases e : i = j
    · subst e
      cases ha.symm.trans hb
      exact ⟨a', List.getElem?_set_self (List.getElem?_eq_some_iff.1 ha).1, hj id hid hbt⟩
    · exact ⟨b, (List.getElem?_set_ne (Ne.symm e)).trans hb, hbt⟩

theorem Inv.onTimeout (h : s.Inv) (j : Nat) : (s.onTimeout j).Inv := by
  unfold IocpLoop.onTimeout
  split
  · exact h
  · rename_i a ha
    split
    · exact h
    · exact h.set ha subset_rfl rfl rfl rfl rfl fun _ _ => id

theorem Inv.called (h : s.Inv) : s.called.Inv := by
  unfold IocpLoop.called
  split
  · split
    · exact h.onTimeout _
    · exact h
  · exact h

/-- A handle is cancelled: its attempt has no timer left. -/
theorem Inv.cancelled (h : s.Inv) {j : Nat} {a a' : IocpAttempt} {t : IocpTimers}
    {states : AList fun _ : Nat => Nat} (ha : s.attempts[j]? = some a)
    (ht : s.timers.cancelHandle a.timer = some t) :
    Inv { s with timers := t, states := states, attempts := s.attempts.set j a' } := by
  refine h.set ha (fun id hid => ((IocpTimers.mem_cancelHandle ht).1 hid).2) rfl rfl rfl rfl ?_
  intro id hid e
  exact absurd e ((IocpTimers.mem_cancelHandle ht).1 hid).1

/-- A timer is entered with a closure that refers to `x`, and further registrations are made. -/
theorem Inv.enter (h : s.Inv) {timeout : Int} {rep created : Bool} {r : IocpTimers × Nat}
    (hr : s.timers.callSchedule timeout rep created = some r)
    (ht : s'.timers = r.1) (hreg : s'.timerReg = (s.entered created r).timerReg)
    (hm : s.made < s'.made) (hold : ∀ i < s.made, s'.state i = s.state i)
    (hnew : ∀ i, s'.made ≤ i → s'.state i = none)
    (hattempts : ∀ (j : Nat) (a : IocpAttempt), s.attempts[j]? = some a →
      s'.attempts[j]? = some a)
    (hj : created = true → ∀ j, s'.state s.made = some j →
      ∃ a, s'.attempts[j]? = some a ∧ a.timer = some r.2) : s'.Inv := by
  obtain ⟨t, i⟩ := r
  have hview := IocpTimers.callSchedule_timerInfos hr
  -- an entry is the new one or was there before
  have hcases (id : Nat) (hid : id ∈ s'.timers.timerInfos) :
      created = true ∧ id = i ∧ s'.timerReg id = s.made ∨
        id ∈ s.timers.timerInfos ∧ s'.timerReg id = s.timerReg id := by
    rw [ht] at hid
    rw [hreg]
    rcases hview with ⟨hc, hi', e⟩ | ⟨hc, e⟩
    · rw [e] at hid
      by_cases hid' : id = i
      · exact .inl ⟨hc, hid', by simp [entered, hc, hid']⟩
      · exact .inr ⟨Finset.mem_of_mem_insert_of_ne hid hid', by simp [entered, hc, hid']⟩
    · rw [e] at hid
      exact .inr ⟨hid, by simp [entered, hc]⟩
  refine ⟨fun id hid => ?_, hnew, fun id hid j hj' => ?_⟩
  · rcases hcases id hid with ⟨-, -, e⟩ | ⟨hid', e⟩
    · rw [e]
      exact hm
    · rw [e]
      exact Nat.lt_trans (h.older id hid') hm
  · rcases hcases id hid with ⟨hc, rfl, e⟩ | ⟨hid', e⟩
    · rw [e] at hj'
      exact hj hc j hj'
    · rw [e, hold _ (h.older id hid')] at hj'
      obtain ⟨a, ha, hat⟩ := h.timer id hid' j hj'
      exact ⟨a, hattempts j a ha, hat⟩

theorem step_inv (h : s.Inv) (he : s.step a = some s') : s'.Inv := by
  cases a with
  | connect fd timeout created addOk =>
    obtain ⟨r, hr, rfl⟩ := Option.map_eq_some_iff.1 he
    refine h.enter hr rfl rfl (by show s.made < s.made + 2; omega) (fun i hlt => ?_)
      (fun i hle => ?_) (fun j a ha => ?_) fun hc j hj => ?_
    · have h1 : i ≠ s.made + 1 := by omega
      have h2 : i ≠ s.made := by omega
      simp [connect, h1, h2]
    · have hle' : s.made + 2 ≤ i := hle
      have h1 : i ≠ s.made + 1 := by omega
      have h2 : i ≠ s.made := by omega
      have h3 := h.unmade i (by omega)
      simp [connect, h1, h2, h3]
    · exact (List.getElem?_append_left (List.getElem?_eq_some_iff.1 ha).1).trans ha
    · have hj' : s.attempts.length = j := by simpa [connect] using hj
      subst hj'
      exact ⟨_, List.getElem?_concat_length, rfl⟩
  | schedule timeout rep created =>
    obtain ⟨r, hr, rfl⟩ := Option.map_eq_some_iff.1 he
    refine h.enter hr rfl rfl (Nat.lt_succ_self _) (fun i hlt => rfl)
      (fun i hle => h.unmade i (Nat.le_of_succ_le hle)) (fun j a ha => ha) fun hc j hj => ?_
    cases (h.unmade s.made (Nat.le_refl _)).symm.trans hj
  | add fd =>
    simp only [step] at he
    split at he
    · cases he; exact h.fewer subset_rfl rfl rfl (Nat.le_succ _) rfl
    · cases he
  | remove fd =>
    simp only [step] at he
    split at he
    · cases he; exact h.fewer subset_rfl rfl rfl (Nat.le_refl _) rfl
    · cases he
  | cancel id =>
    obtain ⟨t, ht, rfl⟩ := Option.map_eq_some_iff.1 he
    refine h.fewer ?_ rfl rfl (Nat.le_refl _) rfl
    show t.timerInfos ⊆ _
    rw [IocpTimers.callCancel_timerInfos ht]
    exact Finset.erase_subset _ _
  | expire id =>
    obtain ⟨t, ht, rfl⟩ := Option.map_eq_some_iff.1 he
    cases IocpTimers.step_view ht with
    | expire => exact h.fewer subset_rfl rfl rfl (Nat.le_refl _) rfl
  | harvest n =>
    obtain ⟨t, ht, rfl⟩ := Option.map_eq_some_iff.1 he
    cases IocpTimers.step_view ht with
    | harvest => exact h.fewer subset_rfl rfl rfl (Nat.le_refl _) rfl
  | dispatch =>
    obtain ⟨t, ht, rfl⟩ := Option.map_eq_some_iff.1 he
    exact Inv.called (h.fewer (IocpTimers.dispatch_timerInfos ht) rfl rfl (Nat.le_refl _) rfl)
  | callbackReturn =>
    obtain ⟨t, ht, rfl⟩ := Option.map_eq_some_iff.1 he
    refine h.fewer ?_ rfl rfl (Nat.le_refl _) rfl
    show t.timerInfos ⊆ _
    rw [IocpTimers.callbackReturn_timerInfos ht]
  | event fd =>
    simp only [step, onEvent] at he
    split at he
    · split at he
      · split at he
        · split at he
          · cases he; exact h
          · rename_i a ha
            split at he
            · cases he; exact h
            · obtain ⟨t, ht, rfl⟩ := Option.map_eq_some_iff.1 he
              exact h.cancelled ha ht
        · cases he; exact h
      · cases he
    · cases he
  | destroy j =>
    simp only [step] at he
    split at he
    · rename_i a ha
      split at he
      · cases he
      · obtain ⟨t, ht, rfl⟩ := Option.map_eq_some_iff.1 he
        exact h.cancelled ha ht
    · cases he

theorem reach_inv (h : machine.Reach s) : s.Inv :=
  h.inv (I := Inv) (fun s (hs : s = start) => hs ▸ start_inv) fun _ _ _ _ hi _ he => step_inv hi he

theorem mem_timerMap (h : s.timers.Inv) {e : Nat × Nat} :
    e ∈ s.timerMap ↔ e.1 ∈ s.timers.timerInfos ∧ e.2 = s.timerReg e.1 := by
  unfold timerMap
  simp only [List.mem_map, List.mem_filter, List.mem_range, decide_eq_true_eq]
  constructor
  · rintro ⟨id, ⟨-, hm⟩, rfl⟩
    exact ⟨hm, rfl⟩
  · rintro ⟨hm, he⟩
    exact ⟨e.1, ⟨h.lt_next hm, hm⟩, Prod.ext rfl he.symm⟩

end IocpLoop

end Socketpp
