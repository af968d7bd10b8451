import Socketpp.Event.Wakers
import Socketpp.High.SerialProgress

/-!
# `post`, `defer` and `repeat` of a socket

`do_post`, `do_defer` and `do_repeat` are the same for streams
(`src/high/stream.cpp`), datagram sockets (`src/high/dgram.cpp`) and claimed
peers (`src/high/dgram_peer_impl.hpp`). `do_post` posts a function to the event
loop that submits the callback to the serial queue of the socket. `do_defer` and
`do_repeat` post a function that makes the timer and fulfils a promise, and block
until it has; the callback of the timer submits to the serial queue.

`PostPipe` has the event loop of a platform (`WakeLoop`), the queues `κ` of its
sockets on their pool, and the threads that call: others (`ι`), and the workers
of the pool from inside a callback. A worker that is blocked in `do_defer`
drains no queue meanwhile. `waiting` are the blocked threads; `kinds` says what
each timer was made with, and is history.

The handles that the calls return are kept: cancelling a timer is in
`Socketpp.Event.TimerHandle`.
-/

namespace Socketpp

/-- Who calls: another thread, or a worker in a callback. -/
abbrev PostCaller (ι : Type) (n : Nat) := ι ⊕ Fin n

/-- A function posted to the loop. -/
inductive PostedFn (ι κ : Type) (n : Nat) where
  /-- of `do_post` -/
  | submit (q : κ) (x : Nat)
  /-- of `do_defer` and `do_repeat` -/
  | schedule (q : κ) (rep : Bool) (caller : PostCaller ι n)
  deriving DecidableEq

/-- A callback in a serial queue. -/
inductive PostTask where
  | post (x : Nat)
  | timer (id : Nat)
  deriving DecidableEq, Repr

structure PostPipe (os : Os) (ι κ : Type) (n : Nat) where
  loop : WakeLoop os.WakerState (PostCaller ι n) (PostedFn ι κ n)
  serial : SerialPool κ PostTask Empty Empty n
  /-- the timers that are armed: the queue, and whether it repeats -/
  timers : Nat → Option (κ × Bool)
  made : Nat
  waiting : PostCaller ι n → Bool
  kinds : Nat → Option (κ × Bool)

namespace PostPipe

variable {os : Os} {ι κ : Type} [DecidableEq ι] [DecidableEq κ] {n : Nat}

def start : PostPipe os ι κ n where
  loop := ⟨.start, false, os.waker.idle, fun _ => false, .out, [], []⟩
  serial := .start n 0
  timers _ := none
  made := 0
  waiting _ := false
  kinds _ := none

inductive Act (ι κ : Type) (n : Nat) where
  /-- `do_post` appends -/
  | post (c : PostCaller ι n) (q : κ) (x : Nat)
  /-- `do_defer` or `do_repeat` appends -/
  | arm (c : PostCaller ι n) (q : κ) (rep : Bool)
  /-- any step of the loop but an append and a posted function -/
  | loop (a : WakeLoop.Act (PostCaller ι n) (PostedFn ι κ n))
  /-- the next posted function; `armed` if it makes a timer and succeeds -/
  | call (armed : Bool)
  /-- a timer event -/
  | fire (id : Nat)
  | take (w : Fin n)
  | drainLock (w : Fin n)
  | fnReturn (w : Fin n)

/-- The thread is not inside a call, and may make one. -/
def mayCall (s : PostPipe os ι κ n) : PostCaller ι n → Bool
  | .inl i => !s.waiting (.inl i)
  | .inr w => !s.waiting (.inr w) &&
    match s.serial.pool.workers w with
    | .running (.fn _ _) => true
    | _ => false

/-- A posted function is run by the loop thread. -/
def execute (s : PostPipe os ι κ n) (armed : Bool) :
    LoopPc (PostedFn ι κ n) → PostPipe os ι κ n
  | .callback (.submit q x) => { s with serial := s.serial.submit q (.post x) }
  | .callback (.schedule q rep c) =>
    { s with
      timers := if armed then Function.update s.timers s.made (some (q, rep)) else s.timers
      kinds := if armed then Function.update s.kinds s.made (some (q, rep)) else s.kinds
      made := if armed then s.made + 1 else s.made
      waiting := Function.update s.waiting c false }
  | _ => s

/-- The step of a loop that the callers and the posted functions do not take. -/
def plain : WakeLoop.Act (PostCaller ι n) (PostedFn ι κ n) → Bool
  | .push _ _ | .call => false
  | _ => true

/-- The loop's step. -/
def loopStep (s : PostPipe os ι κ n) (a : WakeLoop.Act (PostCaller ι n) (PostedFn ι κ n)) :
    Option (WakeLoop os.WakerState (PostCaller ι n) (PostedFn ι κ n)) :=
  WakeLoop.step os.waker os.pollsListeners s.loop a

def step (s : PostPipe os ι κ n) : Act ι κ n → Option (PostPipe os ι κ n)
  | .post c q x =>
    if s.mayCall c then
      (s.loopStep (.push (some c) (.submit q x))).map fun r => { s with loop := r }
    else none
  | .arm c q rep =>
    if s.mayCall c then
      (s.loopStep (.push (some c) (.schedule q rep c))).map fun r =>
        { s with loop := r, waiting := Function.update s.waiting c true }
    else none
  | .loop a => if plain a then (s.loopStep a).map fun r => { s with loop := r } else none
  | .call armed =>
    (s.loopStep .call).map fun r => execute { s with loop := r } armed r.pc
  | .fire id =>
    match s.loop.pc, s.timers id with
    | .dispatch _, some (q, rep) =>
      some { s with
        serial := s.serial.submit q (.timer id)
        timers := if rep then s.timers else Function.update s.timers id none }
    | _, _ => none
  | .take w => (s.serial.take Empty.elim w).map fun p => { s with serial := p }
  | .drainLock w => (s.serial.drainLock w).map fun p => { s with serial := p }
  | .fnReturn w =>
    -- the callback is not inside a call
    if s.waiting (.inr w) || s.loop.owes (some (.inr w)) then none
    else (s.serial.fnReturn w).map fun p => { s with serial := p }

def machine (os : Os) (ι κ : Type) [DecidableEq ι] [DecidableEq κ] (n : Nat) :
    Machine (PostPipe os ι κ n) (Act ι κ n) where
  Init s := s = start
  step := step

/-- The callbacks that `do_post` on `q` was called with, among posted functions. -/
def postsTo (q : κ) (l : List (PostedFn ι κ n)) : List Nat :=
  l.filterMap fun
    | .submit q' x => if q' = q then some x else none
    | .schedule _ _ _ => none

/-- Those among the tasks of a queue. -/
def postsOf (l : List PostTask) : List Nat :=
  l.filterMap fun
    | .post x => some x
    | .timer _ => none

variable {s s' : PostPipe os ι κ n} {a : Act ι κ n}

/-! ## What a step does -/

/-- The step of a worker. -/
def poolAct : Act ι κ n → Option (SerialPool.SerialAct κ PostTask Empty Empty n)
  | .take w => some (.take w)
  | .drainLock w => some (.drainLock w)
  | .fnReturn w => some (.fnReturn w)
  | _ => none

inductive StepView (s : PostPipe os ι κ n) : Act ι κ n → PostPipe os ι κ n → Prop where
  | post (c : PostCaller ι n) (q : κ) (x : Nat)
      (r : WakeLoop os.WakerState (PostCaller ι n) (PostedFn ι κ n))
      (hr : s.loopStep (.push (some c) (.submit q x)) = some r) :
      StepView s (.post c q x) { s with loop := r }
  | arm (c : PostCaller ι n) (q : κ) (rep : Bool)
      (r : WakeLoop os.WakerState (PostCaller ι n) (PostedFn ι κ n))
      (hr : s.loopStep (.push (some c) (.schedule q rep c)) = some r) :
      StepView s (.arm c q rep) { s with loop := r, waiting := Function.update s.waiting c true }
  | loop (a : WakeLoop.Act (PostCaller ι n) (PostedFn ι κ n))
      (r : WakeLoop os.WakerState (PostCaller ι n) (PostedFn ι κ n)) (ha : plain a = true)
      (hr : s.loopStep a = some r) : StepView s (.loop a) { s with loop := r }
  | call (armed : Bool) (fn : PostedFn ι κ n)
      (r : WakeLoop os.WakerState (PostCaller ι n) (PostedFn ι κ n))
      (hr : s.loopStep .call = some r) (hp : r.pc = .callback fn) :
      StepView s (.call armed) (execute { s with loop := r } armed (.callback fn))
  | fire (id : Nat) (q : κ) (rep : Bool) (ht : s.timers id = some (q, rep)) :
      StepView s (.fire id)
        { s with
          serial := s.serial.submit q (.timer id)
          timers := if rep then s.timers else Function.update s.timers id none }
  | pool (a : Act ι κ n) (b : SerialPool.SerialAct κ PostTask Empty Empty n)
      (p : SerialPool κ PostTask Empty Empty n) (hb : poolAct a = some b)
      (hp : SerialPool.step Empty.elim s.serial b = some p) :
      StepView s a { s with serial := p }

theorem step_view (he : step s a = some s') : StepView s a s' := by
  cases a with
  | post c q x =>
    obtain ⟨-, he⟩ := Option.ite_none_right_eq_some.1 he
    obtain ⟨r, hr, rfl⟩ := Option.map_eq_some_iff.1 he
    exact .post c q x r hr
  | arm c q rep =>
    obtain ⟨-, he⟩ := Option.ite_none_right_eq_some.1 he
    obtain ⟨r, hr, rfl⟩ := Option.map_eq_some_iff.1 he
    exact .arm c q rep r hr
  | loop a =>
    obtain ⟨ha, he⟩ := Option.ite_none_right_eq_some.1 he
    obtain ⟨r, hr, rfl⟩ := Option.map_eq_some_iff.1 he
    exact .loop a r ha hr
  | call armed =>
    obtain ⟨r, hr, rfl⟩ := Option.map_eq_some_iff.1 he
    obtain ⟨fn, hp⟩ : ∃ fn, r.pc = .callback fn := by
      cases WakeLoop.step_view hr with
      | call fn => exact ⟨fn, rfl⟩
    rw [hp]
    exact .call armed fn r hr hp
  | fire id =>
    simp only [step] at he
    split at he
    · rename_i q rep hpc ht
      cases he
      exact .fire id q rep ht
    · cases he
  | take w =>
    obtain ⟨p, hp, rfl⟩ := Option.map_eq_some_iff.1 he
    exact .pool _ _ p rfl hp
  | drainLock w =>
    obtain ⟨p, hp, rfl⟩ := Option.map_eq_some_iff.1 he
    exact .pool _ _ p rfl hp
  | fnReturn w =>
    obtain ⟨-, he⟩ := Option.ite_none_left_eq_some.1 he
    obtain ⟨p, hp, rfl⟩ := Option.map_eq_some_iff.1 he
    exact .pool _ _ p rfl hp

/-! ## The order of the posts -/

section Order

omit [DecidableEq ι] in
@[simp] theorem postsTo_append (q : κ) (l l' : List (PostedFn ι κ n)) :
    postsTo q (l ++ l') = postsTo q l ++ postsTo q l' := List.filterMap_append

@[simp] theorem postsOf_append (l l' : List PostTask) :
    postsOf (l ++ l') = postsOf l ++ postsOf l' := List.filterMap_append

omit [DecidableEq ι] in
theorem postsTo_submit (q q' : κ) (x : Nat) :
    postsTo q [(.submit q' x : PostedFn ι κ n)] = if q' = q then [x] else [] := by
  by_cases e : q' = q
  · simp [postsTo, e]
  · simp [postsTo, e]

/-- What was submitted by posts and what is still on its way, in order. -/
def PostsInOrder (s : PostPipe os ι κ n) : Prop := ∀ q,
  postsOf (s.serial.submitted q) ++ postsTo q s.loop.queue.pending = postsTo q s.loop.posted

omit [DecidableEq κ] in
theorem quiet {a : WakeLoop.Act (PostCaller ι n) (PostedFn ι κ n)}
    {r : WakeLoop os.WakerState (PostCaller ι n) (PostedFn ι κ n)} (ha : plain a = true)
    (hr : s.loopStep a = some r) :
    r.queue.pending = s.loop.queue.pending ∧ r.posted = s.loop.posted :=
  WakeLoop.step_quiet hr (by rintro _ _ rfl; cases ha) (by rintro rfl; cases ha)

omit [DecidableEq ι] in
theorem submitted_of_pool {b : SerialPool.SerialAct κ PostTask Empty Empty n}
    {p : SerialPool κ PostTask Empty Empty n} (hb : poolAct a = some b)
    (hp : SerialPool.step Empty.elim s.serial b = some p) : p.submitted = s.serial.submitted := by
  refine SerialPool.step_submitted hp fun q t => ?_
  rintro rfl
  cases a <;> cases hb

theorem step_postsInOrder (h : s.PostsInOrder) (he : step s a = some s') : s'.PostsInOrder := by
  intro q
  have hq := h q
  cases step_view he with
  | post c q' x r hr =>
    obtain ⟨hpending, hposted⟩ := WakeLoop.step_push hr
    show _ ++ postsTo q r.queue.pending = postsTo q r.posted
    rw [hpending, hposted, postsTo_append, postsTo_append, ← List.append_assoc, hq]
  | arm c q' rep r hr =>
    obtain ⟨hpending, hposted⟩ := WakeLoop.step_push hr
    show _ ++ postsTo q r.queue.pending = postsTo q r.posted
    rw [hpending, hposted, postsTo_append, postsTo_append, ← List.append_assoc, hq]
  | loop a r ha hr =>
    obtain ⟨hpending, hposted⟩ := quiet ha hr
    show _ ++ postsTo q r.queue.pending = postsTo q r.posted
    rw [hpending, hposted]
    exact hq
  | call armed fn r hr hp =>
    obtain ⟨hpending, hposted⟩ := WakeLoop.step_call hr hp
    rw [hpending, ← List.singleton_append, postsTo_append] at hq
    cases fn with
    | schedule q' rep c =>
      show _ ++ postsTo q r.queue.pending = postsTo q r.posted
      rw [hposted]
      exact hq
    | submit q' x =>
      show postsOf ((s.serial.submit q' (.post x)).submitted q) ++ postsTo q r.queue.pending =
        postsTo q r.posted
      rw [hposted, ← hq, postsTo_submit, SerialPool.submit_submitted, postsOf_append,
        List.append_assoc]
      by_cases e : q = q'
      · rw [if_pos e, if_pos e.symm]
        rfl
      · rw [if_neg e, if_neg (Ne.symm e)]
        rfl
  | fire id q' rep ht =>
    have hnone : postsOf (if q = q' then [PostTask.timer id] else []) = [] := by
      split <;> rfl
    show postsOf ((s.serial.submit q' (.timer id)).submitted q) ++ _ = _
    rw [SerialPool.submit_submitted, postsOf_append, hnone, List.append_nil]
    exact hq
  | pool a b p hb hp =>
    show postsOf (p.submitted q) ++ _ = _
    rw [submitted_of_pool hb hp]
    exact hq

end Order

/-! ## Timers -/

/-- A timer submits to its own queue; one that does not repeat has submitted or is armed, not
both. -/
structure TimerInv (s : PostPipe os ι κ n) : Prop where
  fresh : ∀ id, s.made ≤ id → s.timers id = none ∧ s.kinds id = none
  armed : ∀ id k, s.timers id = some k → s.kinds id = some k
  own : ∀ id q, .timer id ∈ s.serial.submitted q → ∃ rep, s.kinds id = some (q, rep)
  once : ∀ id q, s.kinds id = some (q, false) →
    (s.serial.submitted q).count (.timer id) + (s.timers id).toList.length ≤ 1

namespace TimerInv

omit [DecidableEq ι] in
/-- What is submitted is not a timer's callback. -/
theorem submit_post (h : s.TimerInv) (q : κ) (x : Nat)
    (r : WakeLoop os.WakerState (PostCaller ι n) (PostedFn ι κ n)) :
    TimerInv { s with loop := r, serial := s.serial.submit q (.post x) } := by
  have hcount (id : Nat) (q' : κ) :
      ((s.serial.submit q (.post x)).submitted q').count (.timer id) =
        (s.serial.submitted q').count (.timer id) := by
    rw [SerialPool.submit_submitted, List.count_append]
    split <;> simp
  refine ⟨h.fresh, h.armed, fun id q' hmem => h.own id q' ?_,
    fun id q' hk => (congrArg (· + _) (hcount id q')).trans_le (h.once id q' hk)⟩
  rw [← List.count_pos_iff] at hmem ⊢
  exact hmem.trans_eq (hcount id q')

omit [DecidableEq ι] [DecidableEq κ] in
/-- A new timer is made. -/
theorem schedule (h : s.TimerInv) (q : κ) (rep : Bool)
    (r : WakeLoop os.WakerState (PostCaller ι n) (PostedFn ι κ n)) (w : PostCaller ι n → Bool) :
    TimerInv { s with
      loop := r
      timers := Function.update s.timers s.made (some (q, rep))
      kinds := Function.update s.kinds s.made (some (q, rep))
      made := s.made + 1
      waiting := w } := by
  have hnone : ∀ q', PostTask.timer s.made ∉ s.serial.submitted q' := by
    intro q' hmem
    obtain ⟨rep', hk⟩ := h.own _ _ hmem
    cases (h.fresh s.made (Nat.le_refl _)).2.symm.trans hk
  refine ⟨fun id hid => ?_, fun id k hk => ?_, fun id q' hmem => ?_, fun id q' hk => ?_⟩
  · have hne : id ≠ s.made := Nat.ne_of_gt hid
    exact ⟨(Function.update_of_ne hne ..).trans (h.fresh id (Nat.le_of_succ_le hid)).1,
      (Function.update_of_ne hne ..).trans (h.fresh id (Nat.le_of_succ_le hid)).2⟩
  · replace hk : Function.update s.timers s.made (some (q, rep)) id = some k := hk
    show Function.update s.kinds s.made (some (q, rep)) id = some k
    by_cases e : id = s.made
    · subst e
      rw [Function.update_self] at hk ⊢
      exact hk
    · rw [Function.update_of_ne e] at hk ⊢
      exact h.armed id k hk
  · have hne : id ≠ s.made := fun e => hnone q' (e ▸ hmem)
    obtain ⟨rep', hk⟩ := h.own id q' hmem
    exact ⟨rep', (Function.update_of_ne hne ..).trans hk⟩
  · show _ + (Function.update s.timers s.made (some (q, rep)) id).toList.length ≤ 1
    by_cases e : id = s.made
    · subst e
      rw [Function.update_self, List.count_eq_zero_of_not_mem (hnone q')]
      exact Nat.le_refl 1
    · rw [Function.update_of_ne e]
      exact h.once id q' ((Function.update_of_ne e ..).symm.trans hk)

omit [DecidableEq ι] in
theorem fire (h : s.TimerInv) {id : Nat} {q : κ} {rep : Bool} (ht : s.timers id = some (q, rep)) :
    TimerInv { s with
      serial := s.serial.submit q (.timer id)
      timers := if rep then s.timers else Function.update s.timers id none } := by
  have hkind := h.armed id _ ht
  have hother (i : Nat) (hi : i ≠ id) :
      (if rep then s.timers else Function.update s.timers id none) i = s.timers i := by
    split
    · rfl
    · exact Function.update_of_ne hi ..
  have hcount (i : Nat) (hi : i ≠ id) (q' : κ) :
      ((s.serial.submit q (.timer id)).submitted q').count (.timer i) =
        (s.serial.submitted q').count (.timer i) := by
    rw [SerialPool.submit_submitted, List.count_append]
    split <;> simp [Ne.symm hi]
  refine ⟨fun i hi => ?_, fun i k hk => ?_, fun i q' hmem => ?_, fun i q' hk => ?_⟩
  · have hne : i ≠ id := by
      rintro rfl
      cases (h.fresh i hi).1.symm.trans ht
    exact ⟨(hother i hne).trans (h.fresh i hi).1, (h.fresh i hi).2⟩
  · by_cases e : i = id
    · subst e
      replace hk : (if rep then s.timers else Function.update s.timers i none) i = some k := hk
      split at hk
      · exact h.armed i k hk
      · cases (Function.update_self ..).symm.trans hk
    · exact h.armed i k ((hother i e).symm.trans hk)
  · by_cases e : i = id
    · subst e
      rw [SerialPool.submit_submitted, List.mem_append] at hmem
      rcases hmem with hmem | hmem
      · exact h.own i q' hmem
      · split at hmem
        · rename_i eq
          exact ⟨rep, eq ▸ hkind⟩
        · cases hmem
    · rw [← List.count_pos_iff, hcount i e q', List.count_pos_iff] at hmem
      exact h.own i q' hmem
  · have honce := h.once i q' hk
    by_cases e : i = id
    · -- the timer that fires does not repeat, and was armed
      subst e
      cases hkind.symm.trans hk
      rw [ht] at honce
      have hzero : (s.serial.submitted q).count (.timer i) = 0 := by simpa using honce
      show ((s.serial.submit q (.timer i)).submitted q).count _ +
        (Function.update s.timers i none i).toList.length ≤ 1
      rw [SerialPool.submit_submitted, List.count_append, hzero, Function.update_self]
      simp
    · show ((s.serial.submit q (.timer id)).submitted q').count _ +
        ((if rep then s.timers else Function.update s.timers id none) i).toList.length ≤ 1
      rw [hcount i e q', hother i e]
      exact honce

end TimerInv

theorem step_timerInv (h : s.TimerInv) (he : step s a = some s') : s'.TimerInv := by
  cases step_view he with
  | post | arm | loop => exact ⟨h.fresh, h.armed, h.own, h.once⟩
  | call armed fn r hr hp =>
    cases fn with
    | submit q x => exact h.submit_post q x r
    | schedule q rep c =>
      cases armed with
      | true => exact h.schedule q rep r _
      | false => exact ⟨h.fresh, h.armed, h.own, h.once⟩
  | fire id q rep ht => exact h.fire ht
  | pool a b p hb hp =>
    have hsub := submitted_of_pool hb hp
    exact ⟨h.fresh, h.armed, fun id q hmem => h.own id q (hsub ▸ hmem),
      fun id q hk => (congrArg (fun l => List.count _ (l q) + _) hsub).trans_le (h.once id q hk)⟩

/-! ## The threads that wait -/

/-- What a blocked thread waits for is posted. -/
def WaitInv (s : PostPipe os ι κ n) : Prop := ∀ c, s.waiting c = true →
  ∃ q rep, .schedule q rep c ∈ s.loop.queue.pending

theorem step_waitInv (h : s.WaitInv) (he : step s a = some s') : s'.WaitInv := by
  cases step_view he with
  | post c' q x r hr =>
    intro c hc
    obtain ⟨q, rep, hmem⟩ := h c hc
    exact ⟨q, rep, (WakeLoop.step_push hr).1 ▸ List.mem_append_left _ hmem⟩
  | arm c' q' rep' r hr =>
    intro c hc
    have hpending := (WakeLoop.step_push hr).1
    by_cases e : c = c'
    · subst e
      exact ⟨q', rep', hpending ▸ List.mem_append_right _ List.mem_cons_self⟩
    · obtain ⟨q, rep, hmem⟩ := h c ((Function.update_of_ne e ..).symm.trans hc)
      exact ⟨q, rep, hpending ▸ List.mem_append_left _ hmem⟩
  | loop a r ha hr =>
    intro c hc
    obtain ⟨q, rep, hmem⟩ := h c hc
    exact ⟨q, rep, (quiet ha hr).1 ▸ hmem⟩
  | call armed fn r hr hp =>
    have hpending := (WakeLoop.step_call hr hp).1
    cases fn with
    | submit q' x =>
      intro c hc
      obtain ⟨q, rep, hmem⟩ := h c hc
      rw [hpending] at hmem
      exact ⟨q, rep, (List.mem_cons.1 hmem).resolve_left (by rintro ⟨⟩)⟩
    | schedule q' rep' c' =>
      intro c hc
      replace hc : Function.update s.waiting c' false c = true := hc
      have hne : c ≠ c' := by
        rintro rfl
        rw [Function.update_self] at hc
        cases hc
      rw [Function.update_of_ne hne] at hc
      obtain ⟨q, rep, hmem⟩ := h c hc
      rw [hpending] at hmem
      refine ⟨q, rep, (List.mem_cons.1 hmem).resolve_left fun e => ?_⟩
      cases e
      exact hne rfl
  | fire | pool => exact h

/-! ## Every run -/

structure Inv (s : PostPipe os ι κ n) : Prop where
  wake : s.loop.WakeInv os.waker
  live : s.serial.Live
  posts : s.PostsInOrder
  timers : s.TimerInv
  waits : s.WaitInv

omit [DecidableEq ι] in
theorem start_inv : Inv (start : PostPipe os ι κ n) :=
  ⟨⟨rfl, rfl, by rintro ⟨⟩, by rintro ⟨⟩⟩, SerialPool.start_live n, fun _ => rfl,
    ⟨fun _ _ => ⟨rfl, rfl⟩, by rintro _ _ ⟨⟩, by rintro _ _ ⟨⟩, by rintro _ _ ⟨⟩⟩, by rintro _ ⟨⟩⟩

theorem step_wake (h : s.loop.WakeInv os.waker) (he : step s a = some s') :
    s'.loop.WakeInv os.waker := by
  have hloop {b : WakeLoop.Act (PostCaller ι n) (PostedFn ι κ n)}
      {r : WakeLoop os.WakerState (PostCaller ι n) (PostedFn ι κ n)}
      (hr : s.loopStep b = some r) : r.WakeInv os.waker :=
    WakeLoop.step_wakeInv os.waker_lawful.wake_ready h hr
  cases step_view he with
  | post _ _ _ r hr | arm _ _ _ r hr | loop _ r _ hr => exact hloop hr
  | call armed fn r hr hp =>
    cases fn with
    | submit | schedule => exact hloop hr
  | fire | pool => exact h

theorem step_serial_live (h : s.serial.Live) (he : step s a = some s') : s'.serial.Live := by
  have hsubmit (q : κ) (t : PostTask) : (s.serial.submit q t).Live :=
    h.step (b := Empty.elim) (a := .submit q t) (by rintro ⟨⟩) rfl
  cases step_view he with
  | post | arm | loop => exact h
  | call armed fn r hr hp =>
    cases fn with
    | submit q x => exact hsubmit q (.post x)
    | schedule => exact h
  | fire id q rep ht => exact hsubmit q (.timer id)
  | pool a b p hb hp =>
    refine h.step ?_ hp
    rintro rfl
    cases a <;> cases hb

theorem step_inv (h : s.Inv) (he : step s a = some s') : s'.Inv :=
  ⟨step_wake h.wake he, step_serial_live h.live he, step_postsInOrder h.posts he,
    step_timerInv h.timers he, step_waitInv h.waits he⟩

theorem reach_inv (h : (machine os ι κ n).Reach s) : s.Inv :=
  h.inv (I := Inv) (fun s (hs : s = start) => hs ▸ start_inv)
    fun _ _ _ _ hi _ he => step_inv hi he

/-- **From `post` to the callback.** However the threads, the loop and the workers interleave, the
callbacks given to `post` of a socket are run in the order of the calls, each once: those begun,
those in the socket's queue and those still with the loop make up what was posted. No two callbacks
of a socket run at once, whether posted or of a timer. A timer's callback goes to the socket it was
made on, and runs once at most if it was made by `defer`. The callbacks meant are those given to
`post`, `defer` and `repeat`: `on_connect_cb` and `on_error_cb` of a stream go to the pool and not
through the serial queue, and may run at the same time as one of them. -/
theorem posts_in_order (h : (machine os ι κ n).Reach s) (q : κ) :
    postsOf (s.serial.started q) ++ postsOf (s.serial.queues q).pending ++
        postsTo q s.loop.queue.pending = postsTo q s.loop.posted ∧
      (∀ w w' t t', s.serial.pool.workers w = .running (.fn q t) →
        s.serial.pool.workers w' = .running (.fn q t') → w = w') ∧
      (∀ id, .timer id ∈ s.serial.started q → ∃ rep, s.kinds id = some (q, rep)) ∧
      ∀ id, s.kinds id = some (q, false) → (s.serial.started q).count (.timer id) ≤ 1 := by
  have hi := reach_inv h
  have hfifo := (hi.live.queues q).fifo
  refine ⟨?_, fun w w' t t' => (hi.live.queues q).exec_unique, fun id hmem => ?_, fun id hk => ?_⟩
  · rw [← postsOf_append, hfifo]
    exact hi.posts q
  · refine hi.timers.own id q ?_
    rw [← hfifo]
    exact List.mem_append_left _ hmem
  · have honce := hi.timers.once id q hk
    rw [← hfifo, List.count_append] at honce
    omega

/-- A worker posts from inside a callback, then blocks in `defer`; the loop makes the timer. -/
theorem posts_in_order_nested : ∃ s : PostPipe .linux Unit Unit 1,
    (machine .linux Unit Unit 1).Reach s ∧
      (s.serial.started () = [.post 5, .post 6, .timer 0] ∧ s.kinds 0 = some ((), false)) ∧
      (s.serial.started ()).count (.timer 0) ≤ 1 := by
  obtain ⟨s, hr, hp⟩ := Machine.Reach.of_run_init (M := machine .linux Unit Unit 1)
    (fun s => decide (s.serial.started () = [.post 5, .post 6, .timer 0] ∧
      s.kinds 0 = some ((), false)))
    [.post (.inl ()) () 5, .loop (.wake (some (.inl ()))), .loop .enter, .loop .reset, .loop .test,
      .loop .swap, .call true, .loop .fnReturn, .loop .enterPoll, .take 0, .drainLock 0,
      .post (.inr 0) () 6, .loop (.wake (some (.inr 0))), .arm (.inr 0) () false,
      .loop (.wake (some (.inr 0))), .loop (.waitReturn [true]), .loop .event, .loop .endBatch,
      .loop .test, .loop .swap, .call true, .loop .fnReturn, .call true, .loop .fnReturn,
      .loop .enterPoll, .fnReturn 0, .drainLock 0, .loop (.waitReturn [false]), .loop .event,
      .fire 0, .fnReturn 0, .drainLock 0] rfl (by decide)
  obtain ⟨h1, h2⟩ := of_decide_eq_true hp
  exact ⟨s, hr, ⟨h1, h2⟩, (posts_in_order hr ()).2.2.2 0 h2⟩

/-! ## At rest -/

/-- What the loop thread and the workers do by themselves, and the threads on their way to
`wake`. -/
def Own : Act ι κ n → Prop
  | .loop a => WakeLoop.Own a
  | .call _ | .take _ | .drainLock _ | .fnReturn _ => True
  | .post _ _ _ | .arm _ _ _ | .fire _ => False

/-- A posted function is one step of the loop, which may leave four to the workers. -/
def work [Fintype ι] [Fintype κ] (s : PostPipe os ι κ n) : Nat :=
  5 * s.loop.work os.rounds + s.serial.queueWork

theorem work_lt [Fintype ι] [Fintype κ] (ha : Own a) (he : step s a = some s') :
    s'.work < s.work := by
  cases step_view he with
  | post | arm | fire => cases ha
  | loop a r _ hr =>
    have hlt := WakeLoop.work_lt os.waker_lawful ha hr
    show 5 * r.work os.rounds + s.serial.queueWork < _
    unfold work
    omega
  | call armed fn r hr hp =>
    have hlt := WakeLoop.work_lt os.waker_lawful (a := .call) trivial hr
    cases fn with
    | submit q x =>
      have hle := SerialPool.queueWork_submit (s := s.serial) q (.post x)
      show 5 * r.work os.rounds + (s.serial.submit q (.post x)).queueWork < _
      unfold work
      omega
    | schedule =>
      show 5 * r.work os.rounds + s.serial.queueWork < _
      unfold work
      omega
  | pool a b p hb hp =>
    have hworker : b.Worker := by cases a <;> cases hb <;> trivial
    have hlt := SerialPool.queueWork_lt hworker hp
    exact Nat.add_lt_add_left hlt _

def Stuck (s : PostPipe os ι κ n) : Prop := ∀ a, Own a → step s a = none

theorem Stuck.loop (hs : s.Stuck) : WakeLoop.Stuck os.waker os.pollsListeners s.loop := by
  intro a ha
  by_cases hplain : plain a = true
  · have hnone := hs (.loop a) ha
    simpa [step, hplain, loopStep] using hnone
  · cases a with
    | push => cases ha
    | call =>
      have hnone := hs (.call true) trivial
      simpa [step, loopStep] using hnone
    | _ => exact absurd rfl hplain

/-- While the loop runs, no thread is blocked at rest. -/
theorem Stuck.waiting (h : s.Inv) (hs : s.Stuck) (hp : s.loop.pc ≠ .out) :
    s.loop.queue.pending = [] ∧ (∀ c, s.waiting c = false) ∧ ∀ t, s.loop.owes t = false := by
  have hpending : s.loop.queue.pending = [] := by
    rcases hs.loop.rest os.waker_lawful h.wake with hout | ⟨-, hexec, -⟩
    · exact absurd hout hp
    · have hfifo := h.wake.fifo
      rw [hexec] at hfifo
      exact List.append_cancel_left (hfifo.symm.trans (List.append_nil _).symm)
  refine ⟨hpending, fun c => ?_, (hs.loop.pc os.waker_lawful h.wake).1⟩
  by_contra hc
  obtain ⟨q, rep, hmem⟩ := h.waits c (by simpa using hc)
  rw [hpending] at hmem
  cases hmem

theorem Stuck.pool (h : s.Inv) (hs : s.Stuck) (hp : s.loop.pc ≠ .out) (hn : 0 < n) :
    (∀ w, s.serial.pool.workers w = .waiting) ∧ ∀ q, (s.serial.queues q).pending = [] := by
  obtain ⟨-, hwaiting, howes⟩ := hs.waiting h hp
  obtain ⟨hqueue, hworkers⟩ := h.live.rest_worker Empty.elim hn fun b hb => by
    cases b with
    | take w => simpa [step, SerialPool.step] using hs (.take w) trivial
    | drainLock w => simpa [step, SerialPool.step] using hs (.drainLock w) trivial
    | fnReturn w =>
      simpa [step, SerialPool.step, hwaiting, howes] using hs (.fnReturn w) trivial
    | submit | submitApp | appStep | shutdown => cases hb
  exact ⟨hworkers, h.live.pending_nil hqueue hworkers⟩

theorem posted_of_own (ha : Own a) (he : step s a = some s') : s'.loop.posted = s.loop.posted := by
  cases step_view he with
  | post | arm | fire => cases ha
  | loop a r hplain hr => exact (quiet hplain hr).2
  | call armed fn r hr hp =>
    cases fn with
    | submit | schedule => exact (WakeLoop.step_call hr hp).2
  | pool => rfl

/-- **Nothing that was posted stays behind, and nobody stays blocked.** When no thread calls any
more and no timer expires, the loop and the workers come to rest, after a number of steps that is
known beforehand; then the loop is not running, or every callback posted to a socket has been run,
in order, no thread is blocked in `defer` or `repeat`, not even if they were called from callbacks
on every worker of the pool, and the workers are idle. The loop's wait is neither interrupted nor
timed out here, as it is every 10 ms on IOCP with a listener; such a return is not counted. -/
theorem maximal_run_posts [Fintype ι] [Fintype κ] (hn : 0 < n) (h : (machine os ι κ n).Reach s)
    {as : List (Act ι κ n)} (hp : (machine os ι κ n).Path (fun _ a => Own a) s as s') :
    as.length ≤ s.work ∧ (s'.Stuck → s'.loop.pc = .out ∨
      (∀ q, postsOf (s'.serial.started q) = postsTo q s.loop.posted) ∧
        (∀ c, s'.waiting c = false) ∧ ∀ w, s'.serial.pool.workers w = .waiting) := by
  have hstep : ∀ (t : PostPipe os ι κ n) a t', t.Inv → Own a →
      (machine os ι κ n).step t a = some t' → t'.Inv ∧ t'.work < t.work :=
    fun t a t' hi ha he => ⟨step_inv hi he, work_lt ha he⟩
  refine ⟨Nat.le_of_add_right_le (hp.length_le hstep (reach_inv h)), fun hs => ?_⟩
  have hi := hp.inv (fun t a t' hi ha he => (hstep t a t' hi ha he).1) (reach_inv h)
  have hposted : s'.loop.posted = s.loop.posted :=
    hp.inv (I := fun t => t.loop.posted = s.loop.posted)
      (fun t a t' ht ha he => (posted_of_own ha he).trans ht) rfl
  by_cases hout : s'.loop.pc = .out
  · exact .inl hout
  · obtain ⟨hpending, hwaiting, -⟩ := hs.waiting hi hout
    obtain ⟨hworkers, hqueues⟩ := hs.pool hi hout hn
    refine .inr ⟨fun q => ?_, hwaiting, hworkers⟩
    have hposts := hi.posts q
    rw [← (hi.live.queues q).fifo, hqueues q, hpending, List.append_nil, hposted] at hposts
    exact (List.append_nil _).symm.trans hposts

/-- The only worker is in a callback and blocked in `defer`. -/
def blocked : PostPipe .macos Unit Unit 1 where
  loop :=
    { queue := ⟨[.schedule () false (.inr 0)], [], true, fun _ => rfl⟩
      stopRequested := false
      waker := true
      owes := Function.update (Function.update (Function.update (fun _ => false) (some (.inl ()))
        true) (some (.inl ())) false) (some (.inr 0)) true
      pc := .wait
      posted := [.submit () 5, .schedule () false (.inr 0)]
      executed := [.submit () 5] }
  serial :=
    { pool := ⟨[], 0, false, Function.update (Function.update (fun _ => .waiting) 0
        (.running (.top ()))) 0 (.running (.fn () (.post 5)))⟩
      queues := Function.update (Function.update (fun _ => ⟨[], false⟩) () ⟨[.post 5], true⟩) ()
        ⟨[], true⟩
      submitted := Function.update (fun _ => []) () [.post 5]
      started := Function.update (fun _ => []) () [.post 5] }
  timers _ := none
  made := 0
  waiting := Function.update (fun _ => false) (.inr 0) true
  kinds _ := none

theorem blocked_reach : (machine .macos Unit Unit 1).Reach blocked :=
  .step (a := .arm (.inr 0) () false) (.step (a := .drainLock 0) (.step (a := .take 0)
    (.step (a := .loop .enterPoll) (.step (a := .loop .fnReturn) (.step (a := .call true)
      (.step (a := .loop .swap) (.step (a := .loop .test) (.step (a := .loop .reset)
        (.step (a := .loop .enter) (.step (a := .loop (.wake (some (.inl ()))))
          (.step (a := .post (.inl ()) () 5) (.init rfl) trivial rfl) trivial rfl) trivial rfl)
            trivial rfl) trivial rfl) trivial rfl) trivial rfl) trivial rfl) trivial rfl)
              trivial rfl) trivial rfl) trivial rfl

theorem maximal_run_posts_blocked :
    ∃ as s', (machine .macos Unit Unit 1).Path (fun _ a => Own a) blocked as s' ∧
      as.length ≤ blocked.work ∧ (s'.loop.pc = .out ∨
        (∀ q, postsOf (s'.serial.started q) = [5]) ∧ (∀ c, s'.waiting c = false) ∧
          ∀ w, s'.serial.pool.workers w = .waiting) := by
  have hp : (machine .macos Unit Unit 1).Path (fun _ a => Own a) blocked
      [.loop (.waitReturn [true]), .loop .event, .loop .endBatch, .loop .test,
        .loop (.wake (some (.inr 0))), .loop .swap, .call true, .loop .fnReturn, .fnReturn 0,
        .loop .enterPoll, .loop (.waitReturn [true]), .loop .event, .loop .endBatch, .loop .test,
        .drainLock 0, .loop .swap, .loop .enterPoll] _ :=
    .cons ⟨by decide, by decide⟩ rfl (.cons trivial rfl (.cons trivial rfl (.cons trivial rfl
      (.cons trivial rfl (.cons trivial rfl (.cons trivial rfl (.cons trivial rfl
        (.cons trivial rfl (.cons trivial rfl (.cons ⟨by decide, by decide⟩ rfl (.cons trivial rfl
          (.cons trivial rfl (.cons trivial rfl (.cons trivial rfl (.cons trivial rfl
            (.cons trivial rfl (.nil _)))))))))))))))))
  obtain ⟨hlen, hrest⟩ := maximal_run_posts Nat.one_pos blocked_reach hp
  refine ⟨_, _, hp, hlen, hrest fun a ho => ?_⟩
  cases a with
  | post | arm | fire => cases ho
  | call => rfl
  | take w | drainLock w | fnReturn w => rw [Subsingleton.elim w 0]; rfl
  | loop a =>
    cases a with
    | push | store | enter | listener | pollError => cases ho
    | wake t => rcases t with - | - | w <;> [rfl; rfl; (rw [Subsingleton.elim w 0]; rfl)]
    | waitReturn events =>
      have hpos : 0 < events.count true := by
        rw [List.count_eq_length.2 fun e he => (ho.2 e he).symm]
        exact List.length_pos_iff.2 ho.1
      have hnone : Waker.userEvent.report false (events.count true) = none := by
        obtain ⟨k, hk⟩ := Nat.exists_eq_succ_of_ne_zero (Nat.ne_of_gt hpos)
        rw [hk]
        cases k <;> rfl
      exact congrArg (Option.map _) (congrArg (Option.map _) hnone)
    | _ => rfl

end PostPipe

end Socketpp
