import Socketpp.Event.Wakers

/-!
# `run`, `post` and `stop`

`event_loop::run` (`include/socketpp/event/loop.hpp`) on the loop thread against
`post` and `stop` on any threads, the loop thread included. `post` appends to
the queue and then wakes the dispatcher; `stop` stores the flag and then wakes
it. The waker (`src/event/waker.hpp`) is a counter: `wake` adds one, `drain`
sets it to zero. `poll(-1)` (`src/event/epoll.cpp`) waits, then goes through the
events `epoll_wait` returned, one by one: the waker's event drains the counter,
any other runs callbacks. The waker's event is among them only if the counter
was positive, but it need not be the first.

`owes t` says that thread `t` has appended or stored and has not called `wake`
yet. What a thread appended or stored stays visible until the loop thread looks
at it: `no_lost_wakeup` is that the loop thread does not go to sleep over it.

This is `WakeLoop` with a counter for its waker, without listeners and without
the logs of what was posted and executed (`step_wakeLoop`), and has its
invariant from there.
-/

namespace Socketpp

/-- Where the loop thread is. -/
inductive RunPc (τ : Type) where
  /-- not in `run` -/
  | out
  /-- about to clear `stop_requested_` -/
  | reset
  /-- at the loop condition -/
  | test
  /-- at the swap of `drain_posts` -/
  | drain
  /-- between two callbacks of `drain_posts` -/
  | callbacks
  | callback (fn : τ)
  /-- in `epoll_wait` -/
  | poll
  /-- before the events left of what `epoll_wait` returned; `true` is the waker's -/
  | batch (events : List Bool)
  /-- in a callback of an event -/
  | dispatch (events : List Bool)
  deriving DecidableEq

namespace RunPc

variable {τ : Type}

/-- A callback that may call `post` or `stop` is running on the loop thread. -/
def inCallback : RunPc τ → Bool
  | .callback _ | .dispatch _ => true
  | .out | .reset | .test | .drain | .callbacks | .poll | .batch _ => false

/-- The loop condition was tested and `epoll_wait` has not returned since. -/
def tested : RunPc τ → Bool
  | .drain | .callbacks | .callback _ | .poll => true
  | .out | .reset | .test | .batch _ | .dispatch _ => false

/-- The same place in `WakeLoop`. -/
def toLoop : RunPc τ → LoopPc τ
  | .out => .out
  | .reset => .reset
  | .test => .test
  | .drain => .drain
  | .callbacks => .callbacks
  | .callback fn => .callback fn
  | .poll => .wait
  | .batch events => .batch events
  | .dispatch events => .dispatch events

theorem inCallback_toLoop (pc : RunPc τ) : pc.toLoop.inCallback = pc.inCallback := by
  cases pc <;> rfl

end RunPc

/-- An event loop; `none` is the loop thread, `some i` any other. -/
structure RunLoop (ι τ : Type) where
  queue : PostQueue τ
  stopRequested : Bool
  waker : Nat
  owes : Option ι → Bool
  pc : RunPc τ

namespace RunLoop

variable {ι τ : Type}

def start : RunLoop ι τ where
  queue := .start
  stopRequested := false
  waker := 0
  owes := fun _ => false
  pc := .out

/-- Thread `t` may begin a call of `post` or `stop`. -/
def MayCall (s : RunLoop ι τ) (t : Option ι) : Prop :=
  s.owes t = false ∧ (t = none → s.pc.inCallback = true)

variable [DecidableEq ι]

instance (s : RunLoop ι τ) (t : Option ι) : Decidable (s.MayCall t) :=
  inferInstanceAs (Decidable (_ ∧ _))

inductive Act (ι τ : Type) where
  /-- `post` appends -/
  | push (t : Option ι) (fn : τ)
  /-- `stop` stores the flag -/
  | store (t : Option ι)
  | wake (t : Option ι)
  /-- `run` is called -/
  | enter
  | reset
  | test
  | swap
  | call
  /-- a callback of `drain_posts` returns -/
  | fnReturn
  | enterPoll
  /-- `epoll_wait` returns; no event if a signal interrupted it -/
  | pollReturn (events : List Bool)
  | pollError
  /-- the next event: the waker is drained, or a callback begins -/
  | event
  | eventReturn
  | endBatch

def step (s : RunLoop ι τ) : Act ι τ → Option (RunLoop ι τ)
  | .push t fn =>
    if s.MayCall t then
      some { s with queue := s.queue.post [fn], owes := Function.update s.owes t true }
    else none
  | .store t =>
    if s.MayCall t then
      some { s with stopRequested := true, owes := Function.update s.owes t true }
    else none
  | .wake t =>
    if s.owes t then
      some { s with waker := s.waker + 1, owes := Function.update s.owes t false }
    else none
  | .enter =>
    match s.pc with
    | .out => some { s with pc := .reset }
    | _ => none
  | .reset =>
    match s.pc with
    | .reset => some { s with stopRequested := false, pc := .test }
    | _ => none
  | .test =>
    match s.pc with
    | .test => some { s with pc := if s.stopRequested then .out else .drain }
    | _ => none
  | .swap =>
    match s.pc with
    | .drain => s.queue.swap.map fun q => { s with queue := q, pc := .callbacks }
    | _ => none
  | .call =>
    match s.pc with
    | .callbacks => s.queue.next.map fun p => { s with queue := p.2, pc := .callback p.1 }
    | _ => none
  | .fnReturn =>
    match s.pc with
    | .callback _ => if s.owes none then none else some { s with pc := .callbacks }
    | _ => none
  | .enterPoll =>
    match s.pc with
    | .callbacks => s.queue.enterPoll.map fun q => { s with queue := q, pc := .poll }
    | _ => none
  | .pollReturn events =>
    match s.pc with
    | .poll =>
      if true ∈ events → 0 < s.waker then some { s with pc := .batch events } else none
    | _ => none
  | .pollError =>
    match s.pc with
    | .poll => some { s with pc := .out }
    | _ => none
  | .event =>
    match s.pc with
    | .batch (true :: events) => some { s with waker := 0, pc := .batch events }
    | .batch (false :: events) => some { s with pc := .dispatch events }
    | _ => none
  | .eventReturn =>
    match s.pc with
    | .dispatch events => if s.owes none then none else some { s with pc := .batch events }
    | _ => none
  | .endBatch =>
    match s.pc with
    | .batch [] => some { s with pc := .test }
    | _ => none

def machine (ι τ : Type) [DecidableEq ι] : Machine (RunLoop ι τ) (Act ι τ) where
  Init s := s = start
  step := step

variable {s s' : RunLoop ι τ} {a : Act ι τ}

/-- **Every step**: what it finds and what it leaves. -/
inductive StepView (s : RunLoop ι τ) : Act ι τ → RunLoop ι τ → Prop where
  | push (t : Option ι) (fn : τ) (hm : s.MayCall t) : StepView s (.push t fn)
      { s with queue := s.queue.post [fn], owes := Function.update s.owes t true }
  | store (t : Option ι) (hm : s.MayCall t) : StepView s (.store t)
      { s with stopRequested := true, owes := Function.update s.owes t true }
  | wake (t : Option ι) (ho : s.owes t = true) : StepView s (.wake t)
      { s with waker := s.waker + 1, owes := Function.update s.owes t false }
  | enter (hp : s.pc = .out) : StepView s .enter { s with pc := .reset }
  | reset (hp : s.pc = .reset) : StepView s .reset { s with stopRequested := false, pc := .test }
  | exit (hp : s.pc = .test) (hs : s.stopRequested = true) : StepView s .test { s with pc := .out }
  | iterate (hp : s.pc = .test) (hs : s.stopRequested = false) :
      StepView s .test { s with pc := .drain }
  | swap (q : PostQueue τ) (hp : s.pc = .drain) (hq : s.queue.swap = some q) :
      StepView s .swap { s with queue := q, pc := .callbacks }
  | call (fn : τ) (q : PostQueue τ) (hp : s.pc = .callbacks) (hq : s.queue.next = some (fn, q)) :
      StepView s .call { s with queue := q, pc := .callback fn }
  | fnReturn (fn : τ) (hp : s.pc = .callback fn) (ho : s.owes none = false) :
      StepView s .fnReturn { s with pc := .callbacks }
  | enterPoll (q : PostQueue τ) (hp : s.pc = .callbacks) (hq : s.queue.enterPoll = some q) :
      StepView s .enterPoll { s with queue := q, pc := .poll }
  | pollReturn (events : List Bool) (hp : s.pc = .poll) (hw : true ∈ events → 0 < s.waker) :
      StepView s (.pollReturn events) { s with pc := .batch events }
  | pollError (hp : s.pc = .poll) : StepView s .pollError { s with pc := .out }
  | drainWaker (events : List Bool) (hp : s.pc = .batch (true :: events)) :
      StepView s .event { s with waker := 0, pc := .batch events }
  | dispatch (events : List Bool) (hp : s.pc = .batch (false :: events)) :
      StepView s .event { s with pc := .dispatch events }
  | eventReturn (events : List Bool) (hp : s.pc = .dispatch events) (ho : s.owes none = false) :
      StepView s .eventReturn { s with pc := .batch events }
  | endBatch (hp : s.pc = .batch []) : StepView s .endBatch { s with pc := .test }

theorem step_view (he : step s a = some s') : StepView s a s' := by
  cases a with
  | push t fn =>
    simp only [step] at he
    split at he
    · rename_i hm; cases he; exact .push t fn hm
    · cases he
  | store t =>
    simp only [step] at he
    split at he
    · rename_i hm; cases he; exact .store t hm
    · cases he
  | wake t =>
    simp only [step] at he
    split at he
    · rename_i ho; cases he; exact .wake t ho
    · cases he
  | enter =>
    simp only [step] at he
    split at he
    · rename_i hp; cases he; exact .enter hp
    · cases he
  | reset =>
    simp only [step] at he
    split at he
    · rename_i hp; cases he; exact .reset hp
    · cases he
  | test =>
    simp only [step] at he
    split at he
    · rename_i hp
      cases he
      by_cases hs : s.stopRequested = true
      · rw [if_pos hs]; exact .exit hp hs
      · rw [if_neg hs]; exact .iterate hp (by simpa using hs)
    · cases he
  | swap =>
    simp only [step] at he
    split at he
    · rename_i hp
      obtain ⟨q, hq, rfl⟩ := Option.map_eq_some_iff.1 he
      exact .swap q hp hq
    · cases he
  | call =>
    simp only [step] at he
    split at he
    · rename_i hp
      obtain ⟨⟨fn, q⟩, hq, rfl⟩ := Option.map_eq_some_iff.1 he
      exact .call fn q hp hq
    · cases he
  | fnReturn =>
    simp only [step] at he
    split at he
    · rename_i fn hp
      split at he
      · cases he
      · rename_i ho; cases he; exact .fnReturn fn hp (by simpa using ho)
    · cases he
  | enterPoll =>
    simp only [step] at he
    split at he
    · rename_i hp
      obtain ⟨q, hq, rfl⟩ := Option.map_eq_some_iff.1 he
      exact .enterPoll q hp hq
    · cases he
  | pollReturn events =>
    simp only [step] at he
    split at he
    · rename_i hp
      split at he
      · rename_i hw; cases he; exact .pollReturn events hp hw
      · cases he
    · cases he
  | pollError =>
    simp only [step] at he
    split at he
    · rename_i hp; cases he; exact .pollError hp
    · cases he
  | event =>
    simp only [step] at he
    split at he
    · rename_i events hp; cases he; exact .drainWaker events hp
    · rename_i events hp; cases he; exact .dispatch events hp
    · cases he
  | eventReturn =>
    simp only [step] at he
    split at he
    · rename_i events hp
      split at he
      · cases he
      · rename_i ho; cases he; exact .eventReturn events hp (by simpa using ho)
    · cases he
  | endBatch =>
    simp only [step] at he
    split at he
    · rename_i hp; cases he; exact .endBatch hp
    · cases he

/-! ## The loop with a counter for its waker -/

/-- A counter that does not overflow; the waker's event is reported only while it is positive. -/
def counter : Waker Nat where
  idle := 0
  wake c := c + 1
  ready c := decide (0 < c)
  report c count := if count = 0 ∨ 0 < c then some c else none
  consume _ := 0

/-- The loop with the logs of what was posted and what was executed. -/
def withLogs (s : RunLoop ι τ) (posted executed : List τ) : WakeLoop Nat ι τ :=
  ⟨s.queue, s.stopRequested, s.waker, s.owes, s.pc.toLoop, posted, executed⟩

def Act.toLoop : Act ι τ → WakeLoop.Act ι τ
  | .push t fn => .push t fn
  | .store t => .store t
  | .wake t => .wake t
  | .enter => .enter
  | .reset => .reset
  | .test => .test
  | .swap => .swap
  | .call => .call
  | .fnReturn => .fnReturn
  | .enterPoll => .enterPoll
  | .pollReturn events => .waitReturn events
  | .pollError => .pollError
  | .event => .event
  | .eventReturn => .eventReturn
  | .endBatch => .endBatch

omit [DecidableEq ι] in
theorem MayCall.withLogs {t : Option ι} (h : s.MayCall t) (posted executed : List τ) :
    (s.withLogs posted executed).MayCall t :=
  ⟨h.1, fun e => (RunPc.inCallback_toLoop s.pc).trans (h.2 e)⟩

/-- **A step of the loop is one of `WakeLoop`**, which only keeps logs besides. -/
theorem step_wakeLoop (he : step s a = some s') (posted executed : List τ) :
    ∃ posted' executed', WakeLoop.step counter false (s.withLogs posted executed) a.toLoop =
      some (s'.withLogs posted' executed') := by
  cases step_view he with
  | push t fn hm => exact ⟨posted ++ [fn], executed, if_pos (hm.withLogs ..)⟩
  | store t hm => exact ⟨posted, executed, if_pos (hm.withLogs ..)⟩
  | wake t ho => exact ⟨posted, executed, if_pos ho⟩
  | call fn q hp hq =>
    exact ⟨posted, executed ++ [fn], by
      simp [WakeLoop.step, Act.toLoop, withLogs, hp, RunPc.toLoop, hq]⟩
  | swap q hp hq | enterPoll q hp hq =>
    exact ⟨posted, executed, by simp [WakeLoop.step, Act.toLoop, withLogs, hp, RunPc.toLoop, hq]⟩
  | fnReturn _ hp ho | eventReturn _ hp ho =>
    exact ⟨posted, executed, by simp [WakeLoop.step, Act.toLoop, withLogs, hp, RunPc.toLoop, ho]⟩
  | exit hp hs | iterate hp hs =>
    exact ⟨posted, executed, by simp [WakeLoop.step, Act.toLoop, withLogs, hp, RunPc.toLoop, hs]⟩
  | pollReturn events hp hw =>
    have hrep : counter.report s.waker (events.count true) = some s.waker :=
      if_pos (or_iff_not_imp_left.2 fun h => hw (List.count_pos_iff.1 (Nat.pos_of_ne_zero h)))
    exact ⟨posted, executed, by
      simp [WakeLoop.step, Act.toLoop, withLogs, hp, RunPc.toLoop, hrep]⟩
  | enter hp | reset hp | pollError hp | drainWaker _ hp | dispatch _ hp | endBatch hp =>
    exact ⟨posted, executed, by
      simp [WakeLoop.step, Act.toLoop, withLogs, hp, RunPc.toLoop, counter]⟩

/-- A run of the loop is one of `WakeLoop`. -/
theorem reach_wakeLoop {ok : RunLoop ι τ → Act ι τ → Prop} (h : (machine ι τ).ReachOk ok s) :
    ∃ posted executed,
      (WakeLoop.machine counter false ι τ).Reach (s.withLogs posted executed) := by
  induction h with
  | init hi => exact ⟨[], [], .init (by rw [show _ = start from hi]; rfl)⟩
  | step _ _ he ih =>
    obtain ⟨posted, executed, hr⟩ := ih
    obtain ⟨posted', executed', he'⟩ := step_wakeLoop he posted executed
    exact ⟨posted', executed', hr.step trivial he'⟩

theorem counter_wake (c : Nat) : counter.ready (counter.wake c) = true :=
  decide_eq_true (Nat.succ_pos c)

/-- What the loop thread has not looked at is signalled. -/
def WakeInv (s : RunLoop ι τ) : Prop :=
  ∃ posted executed, (s.withLogs posted executed).WakeInv counter

omit [DecidableEq ι] in
theorem WakeInv.polling (h : s.WakeInv) : s.queue.polling = !s.pc.toLoop.draining := by
  obtain ⟨_, _, hi⟩ := h
  exact hi.polling

theorem step_wakeInv (h : s.WakeInv) (he : step s a = some s') : s'.WakeInv := by
  obtain ⟨posted, executed, hi⟩ := h
  obtain ⟨posted', executed', he'⟩ := step_wakeLoop he posted executed
  exact ⟨posted', executed', WakeLoop.step_wakeInv counter_wake hi he'⟩

theorem reach_wakeInv {ok : RunLoop ι τ → Act ι τ → Prop} (h : (machine ι τ).ReachOk ok s) :
    s.WakeInv := by
  obtain ⟨posted, executed, hr⟩ := reach_wakeLoop h
  exact ⟨posted, executed, WakeLoop.reach_wakeInv counter_wake hr⟩

/-- **No lost wakeup.** In no reachable state is the loop thread asleep in `poll`
with the waker at zero while a callback is in the active buffer or a stop is
requested, and no thread is on its way to `wake`. -/
theorem no_lost_wakeup (h : (machine ι τ).Reach s) :
    ¬ (s.pc = .poll ∧ s.waker = 0 ∧ (s.queue.active ≠ [] ∨ s.stopRequested = true) ∧
      ∀ t, s.owes t = false) := by
  rintro ⟨hp, hw, hwork, hidle⟩
  obtain ⟨posted, executed, hi⟩ := reach_wakeInv h
  have hpc : (s.withLogs posted executed).pc = .wait := congrArg RunPc.toLoop hp
  have hs : (s.withLogs posted executed).Signalled counter := by
    rcases hwork with hact | hstop
    · exact hi.posted (by rw [hpc]; rfl) hact
    · exact hi.stopped (by rw [hpc]; rfl) hstop
  rcases hs with hpos | ⟨t, ho⟩
  · exact absurd hw (Nat.pos_iff_ne_zero.1 (of_decide_eq_true hpos))
  · cases (hidle t).symm.trans ho

/-- The waker is drained after a callback of the same batch has posted: the next
iteration finds the post without it. -/
theorem no_lost_wakeup_coalesced :
    ∃ s : RunLoop Unit Nat, (machine Unit Nat).Reach s ∧
      (s.pc = .poll ∧ s.waker = 0 ∧ s.queue.active = [8] ∧ s.owes (some ()) = true) ∧
      ¬ (s.pc = .poll ∧ s.waker = 0 ∧ (s.queue.active ≠ [] ∨ s.stopRequested = true) ∧
        ∀ t, s.owes t = false) := by
  obtain ⟨s, h, hp⟩ := Machine.Reach.of_run_init (M := machine Unit Nat)
    (fun s => decide (s.pc = .poll ∧ s.waker = 0 ∧ s.queue.active = [8] ∧ s.owes (some ()) = true))
    [.enter, .reset, .test, .swap, .enterPoll, .push (some ()) 6, .wake (some ()),
      .pollReturn [false, true], .event, .push none 7, .wake none, .eventReturn, .event, .endBatch,
      .test, .swap, .call, .fnReturn, .call, .fnReturn, .enterPoll, .push (some ()) 8]
    rfl (by decide)
  exact ⟨s, h, of_decide_eq_true hp, no_lost_wakeup h⟩

/-- A step of `run` itself, not of `post` or `stop`. -/
def Act.ofRun : Act ι τ → Bool
  | .push _ _ | .store _ | .wake _ => false
  | .enter | .reset | .test | .swap | .call | .fnReturn | .enterPoll | .pollReturn _ | .pollError
  | .event | .eventReturn | .endBatch => true

/-- The loop thread is never stuck: inside `run`, with no `wake` of its own to
call first, it has a next step, in `poll` once the waker is set. -/
theorem run_enabled (h : (machine ι τ).Reach s) (ho : s.pc ≠ .out) (hw : s.owes none = false)
    (hp : s.pc = .poll → 0 < s.waker) :
    ∃ a : Act ι τ, a.ofRun = true ∧ (step s a).isSome = true := by
  have hpoll := (reach_wakeInv h).polling
  cases hpc : s.pc with
  | out => exact absurd hpc ho
  | reset => exact ⟨.reset, rfl, by simp [step, hpc]⟩
  | test => exact ⟨.test, rfl, by simp [step, hpc]⟩
  | drain =>
    rw [hpc] at hpoll
    have hq := PostQueue.swap_of_polling hpoll
    exact ⟨.swap, rfl, by simp [step, hpc, hq]⟩
  | callbacks =>
    rw [hpc] at hpoll
    cases hd : s.queue.drain with
    | nil =>
      have hq : s.queue.enterPoll = some ⟨s.queue.active, s.queue.drain, true, fun _ => hd⟩ :=
        dif_pos ⟨hpoll, hd⟩
      exact ⟨.enterPoll, rfl, by simp [step, hpc, hq]⟩
    | cons fn rest =>
      have hq := PostQueue.next_of_drain hpoll hd
      exact ⟨.call, rfl, by simp [step, hpc, hq]⟩
  | callback fn => exact ⟨.fnReturn, rfl, by simp [step, hpc, hw]⟩
  | poll => exact ⟨.pollReturn [true], rfl, by simp [step, hpc, hp hpc]⟩
  | batch events =>
    cases events with
    | nil => exact ⟨.endBatch, rfl, by simp [step, hpc]⟩
    | cons e events => cases e <;> exact ⟨.event, rfl, by simp [step, hpc]⟩
  | dispatch events => exact ⟨.eventReturn, rfl, by simp [step, hpc, hw]⟩

end RunLoop

end Socketpp
