import Socketpp.Event.Loop
import Socketpp.Lib.Cells
import Socketpp.Lib.Machine
import Socketpp.Platform.Error

/-!
# The run loop on each platform

`wake` of the three dispatchers: on Linux an eventfd (`src/event/waker.hpp`,
`src/event/epoll.cpp`), whose counter stops at its maximum and is read back to
zero when `poll` comes to its event; on macOS a user event with `EV_CLEAR`
(`src/event/kqueue.cpp`), which the wait itself resets; on Windows packets in
the completion port (`src/event/iocp.cpp`), of which one wait takes several.
`Waker` has what they share, and `Lawful` what the loop needs: after `wake` the
wait returns, and it does not return for ever.

`WakeLoop` is `event_loop::run` on such a dispatcher, against `post` and `stop`
on any threads. On Windows `poll` calls the listeners' callbacks before it waits.

`Own` is what the loop thread, and the threads on their way to `wake`, do by
themselves; `work` bounds it. When nothing of it is left, the loop thread sleeps
with every posted callback executed, or is not in `run`.
-/

namespace Socketpp

/-- A way to wake a dispatcher. -/
structure Waker (W : Type) where
  idle : W
  wake : W → W
  /-- the wait returns -/
  ready : W → Bool
  /-- the wait returns with `count` events of the waker -/
  report : W → Nat → Option W
  /-- `poll` comes to an event of the waker -/
  consume : W → W

namespace Waker

variable {W : Type}

/-- How often the wait still returns for `w` is at most `rounds w j` when `j` events of the waker
are reported and `poll` has not come to them. -/
structure Lawful (K : Waker W) (rounds : W → Nat → Nat) : Prop where
  wake_ready : ∀ w, K.ready (K.wake w) = true
  report_zero : ∀ w, K.report w 0 = some w
  report_ready : ∀ w, K.ready w = true → ∃ count w', 0 < count ∧ K.report w count = some w'
  rounds_wake : ∀ w j, rounds (K.wake w) j ≤ rounds w j + 1
  rounds_report : ∀ w count w', K.report w count = some w' → rounds w' count + count ≤ rounds w 0
  rounds_consume : ∀ w j, rounds (K.consume w) j ≤ rounds w (j + 1)

/-- The largest value of an eventfd. -/
def eventfdMax : Nat := 2 ^ 64 - 2

/-- `eventfd(0, EFD_NONBLOCK)`; a write that would pass the maximum fails and is ignored. -/
def eventfd : Waker Nat where
  idle := 0
  wake c := if c < eventfdMax then c + 1 else c
  ready c := decide (0 < c)
  report c count :=
    match count with
    | 0 => some c
    | 1 => if 0 < c then some c else none
    | _ => none
  consume _ := 0

/-- `EVFILT_USER` with `EV_CLEAR`. -/
def userEvent : Waker Bool where
  idle := false
  wake _ := true
  ready b := b
  report b count :=
    match count with
    | 0 => some b
    | 1 => if b then some false else none
    | _ => none
  consume b := b

/-- Packets with `WAKER_KEY`; `GetQueuedCompletionStatusEx` takes 256 at most. -/
def packets : Waker Nat where
  idle := 0
  wake c := c + 1
  ready c := decide (0 < c)
  report c count := if count ≤ c ∧ count ≤ 256 then some (c - count) else none
  consume c := c

theorem eventfd_lawful : eventfd.Lawful fun c j => if j = 0 ∧ 0 < c then 1 else 0 where
  wake_ready c := by
    have hmax : 0 < eventfdMax := by decide
    refine decide_eq_true ?_
    show 0 < if c < eventfdMax then c + 1 else c
    split <;> omega
  report_zero _ := rfl
  report_ready c hc := ⟨1, c, Nat.one_pos, if_pos (of_decide_eq_true hc)⟩
  rounds_wake c j := by split <;> split <;> omega
  rounds_report c count c' h := by
    unfold eventfd at h
    simp only at h
    split at h
    · cases h
      exact Nat.le_refl _
    · obtain ⟨hpos, h⟩ := Option.ite_none_right_eq_some.1 h
      simp [hpos]
    · cases h
  rounds_consume c j := by simp [eventfd]

theorem userEvent_lawful : userEvent.Lawful fun b _ => b.toNat where
  wake_ready _ := rfl
  report_zero _ := rfl
  report_ready b hb := ⟨1, false, Nat.one_pos, if_pos hb⟩
  rounds_wake b _ := Nat.le_add_left 1 _
  rounds_report b count b' h := by
    unfold userEvent at h
    simp only at h
    split at h
    · cases h
      exact Nat.le_refl _
    · obtain ⟨hb, h⟩ := Option.ite_none_right_eq_some.1 h
      cases h
      simp [hb]
    · cases h
  rounds_consume _ _ := Nat.le_refl _

theorem packets_lawful : packets.Lawful fun c _ => c where
  wake_ready c := decide_eq_true (Nat.succ_pos c)
  report_zero c := by simp [packets]
  report_ready c hc := ⟨1, c - 1, Nat.one_pos, if_pos ⟨of_decide_eq_true hc, by decide⟩⟩
  rounds_wake _ _ := Nat.le_refl _
  rounds_report c count c' h := by
    obtain ⟨⟨hle, -⟩, h⟩ := Option.ite_none_right_eq_some.1 h
    cases h
    exact Nat.le_of_eq (Nat.sub_add_cancel hle)
  rounds_consume _ _ := Nat.le_refl _

end Waker

/-- Where the loop thread is. -/
inductive LoopPc (τ : Type) where
  /-- not in `run` -/
  | out
  /-- about to clear `stop_requested_` -/
  | reset
  /-- at the loop condition -/
  | test
  /-- at the swap of `drain_posts` -/
  | drain
  /-- between two callbacks of `drain_posts` -/
  | callbacks
  | callback (fn : τ)
  /-- in `poll_listeners`, between two callbacks -/
  | listeners
  | listener
  /-- in the wait of `poll` -/
  | wait
  /-- before the events left of what the wait returned; `true` is the waker's -/
  | batch (events : List Bool)
  /-- in a callback of an event -/
  | dispatch (events : List Bool)
  deriving DecidableEq

namespace LoopPc

variable {τ : Type}

/-- A callback that may call `post` or `stop` is running on the loop thread. -/
def inCallback : LoopPc τ → Bool
  | .callback _ | .listener | .dispatch _ => true
  | .out | .reset | .test | .drain | .callbacks | .listeners | .wait | .batch _ => false

/-- The buffers are swapped and the wait has not returned since. -/
def swapped : LoopPc τ → Bool
  | .callbacks | .callback _ | .listeners | .listener | .wait => true
  | .out | .reset | .test | .drain | .batch _ | .dispatch _ => false

/-- The loop condition was tested and the wait has not returned since. -/
def tested : LoopPc τ → Bool
  | .drain | .callbacks | .callback _ | .listeners | .listener | .wait => true
  | .out | .reset | .test | .batch _ | .dispatch _ => false

/-- In `drain_posts`, after the swap. -/
def draining : LoopPc τ → Bool
  | .callbacks | .callback _ => true
  | .out | .reset | .test | .drain | .listeners | .listener | .wait | .batch _ | .dispatch _ =>
    false

/-- The events of the waker that `poll` has still to come to. -/
def wakers : LoopPc τ → Nat
  | .batch events | .dispatch events => events.count true
  | .out | .reset | .test | .drain | .callbacks | .callback _ | .listeners | .listener | .wait => 0

/-- The steps from here to the wait, but for the posted callbacks. -/
def work : LoopPc τ → Nat
  | .out | .wait => 0
  | .listeners => 1
  | .listener | .callbacks => 2
  | .callback _ | .drain => 3
  | .test => 4
  | .reset => 5
  | .batch events => 2 * events.length + 5
  | .dispatch events => 2 * events.length + 6

end LoopPc

/-- An event loop; `none` is the loop thread, `some i` any other. -/
structure WakeLoop (W ι τ : Type) where
  queue : PostQueue τ
  stopRequested : Bool
  waker : W
  /-- the thread has appended or stored and has not called `wake` yet -/
  owes : Option ι → Bool
  pc : LoopPc τ
  posted : List τ
  executed : List τ

namespace WakeLoop

variable {W ι τ : Type}

/-- Thread `t` may begin a call of `post` or `stop`. -/
def MayCall (s : WakeLoop W ι τ) (t : Option ι) : Prop :=
  s.owes t = false ∧ (t = none → s.pc.inCallback = true)

inductive Act (ι τ : Type) where
  /-- `post` appends -/
  | push (t : Option ι) (fn : τ)
  /-- `stop` stores the flag -/
  | store (t : Option ι)
  | wake (t : Option ι)
  /-- `run` is called -/
  | enter
  | reset
  | test
  | swap
  | call
  /-- a callback of `drain_posts` returns -/
  | fnReturn
  | enterPoll
  /-- a listener is ready -/
  | listener
  | listenerReturn
  | enterWait
  /-- the wait returns; no event if it was interrupted or timed out -/
  | waitReturn (events : List Bool)
  | pollError
  /-- the next event: of the waker, or a callback begins -/
  | event
  | eventReturn
  | endBatch

variable [DecidableEq ι]

instance (s : WakeLoop W ι τ) (t : Option ι) : Decidable (s.MayCall t) :=
  inferInstanceAs (Decidable (_ ∧ _))

def step (K : Waker W) (listens : Bool) (s : WakeLoop W ι τ) : Act ι τ → Option (WakeLoop W ι τ)
  | .push t fn =>
    if s.MayCall t then
      some { s with
        queue := s.queue.post [fn]
        owes := Function.update s.owes t true
        posted := s.posted ++ [fn] }
    else none
  | .store t =>
    if s.MayCall t then
      some { s with stopRequested := true, owes := Function.update s.owes t true }
    else none
  | .wake t =>
    if s.owes t then
      some { s with waker := K.wake s.waker, owes := Function.update s.owes t false }
    else none
  | .enter =>
    match s.pc with
    | .out => some { s with pc := .reset }
    | _ => none
  | .reset =>
    match s.pc with
    | .reset => some { s with stopRequested := false, pc := .test }
    | _ => none
  | .test =>
    match s.pc with
    | .test => some { s with pc := if s.stopRequested then .out else .drain }
    | _ => none
  | .swap =>
    match s.pc with
    | .drain => s.queue.swap.map fun q => { s with queue := q, pc := .callbacks }
    | _ => none
  | .call =>
    match s.pc with
    | .callbacks => s.queue.next.map fun p =>
      { s with queue := p.2, pc := .callback p.1, executed := s.executed ++ [p.1] }
    | _ => none
  | .fnReturn =>
    match s.pc with
    | .callback _ => if s.owes none then none else some { s with pc := .callbacks }
    | _ => none
  | .enterPoll =>
    match s.pc with
    | .callbacks => s.queue.enterPoll.map fun q =>
      { s with queue := q, pc := if listens then .listeners else .wait }
    | _ => none
  | .listener =>
    match s.pc with
    | .listeners => some { s with pc := .listener }
    | _ => none
  | .listenerReturn =>
    match s.pc with
    | .listener => if s.owes none then none else some { s with pc := .listeners }
    | _ => none
  | .enterWait =>
    match s.pc with
    | .listeners => some { s with pc := .wait }
    | _ => none
  | .waitReturn events =>
    match s.pc with
    | .wait => (K.report s.waker (events.count true)).map fun w =>
      { s with waker := w, pc := .batch events }
    | _ => none
  | .pollError =>
    match s.pc with
    | .wait => some { s with pc := .out }
    | _ => none
  | .event =>
    match s.pc with
    | .batch (true :: events) => some { s with waker := K.consume s.waker, pc := .batch events }
    | .batch (false :: events) => some { s with pc := .dispatch events }
    | _ => none
  | .eventReturn =>
    match s.pc with
    | .dispatch events => if s.owes none then none else some { s with pc := .batch events }
    | _ => none
  | .endBatch =>
    match s.pc with
    | .batch [] => some { s with pc := .test }
    | _ => none

/-- `run` on a dispatcher with waker `K`; it polls listeners by itself if `listens`. -/
def machine (K : Waker W) (listens : Bool) (ι τ : Type) [DecidableEq ι] :
    Machine (WakeLoop W ι τ) (Act ι τ) where
  Init s := s = ⟨.start, false, K.idle, fun _ => false, .out, [], []⟩
  step := step K listens

/-- What happens by itself: the waker's events are the only ones. -/
def Own : Act ι τ → Prop
  | .wake _ | .reset | .test | .swap | .call | .fnReturn | .enterPoll | .listenerReturn
  | .enterWait | .event | .eventReturn | .endBatch => True
  | .waitReturn events => events ≠ [] ∧ ∀ e ∈ events, e = true
  | .push _ _ | .store _ | .enter | .listener | .pollError => False

variable {K : Waker W} {listens : Bool} {s s' : WakeLoop W ι τ} {a : Act ι τ}

/-- **Every step**: what it finds and what it leaves. -/
inductive StepView (K : Waker W) (listens : Bool) (s : WakeLoop W ι τ) :
    Act ι τ → WakeLoop W ι τ → Prop where
  | push (t : Option ι) (fn : τ) : StepView K listens s (.push t fn)
      { s with
        queue := s.queue.post [fn]
        owes := Function.update s.owes t true
        posted := s.posted ++ [fn] }
  | store (t : Option ι) : StepView K listens s (.store t)
      { s with stopRequested := true, owes := Function.update s.owes t true }
  | wake (t : Option ι) (ho : s.owes t = true) : StepView K listens s (.wake t)
      { s with waker := K.wake s.waker, owes := Function.update s.owes t false }
  | enter (hp : s.pc = .out) : StepView K listens s .enter { s with pc := .reset }
  | reset (hp : s.pc = .reset) :
      StepView K listens s .reset { s with stopRequested := false, pc := .test }
  | exit (hp : s.pc = .test) : StepView K listens s .test { s with pc := .out }
  | iterate (hp : s.pc = .test) (hs : s.stopRequested = false) :
      StepView K listens s .test { s with pc := .drain }
  | swap (q : PostQueue τ) (hp : s.pc = .drain) (hq : s.queue.swap = some q) :
      StepView K listens s .swap { s with queue := q, pc := .callbacks }
  | call (fn : τ) (q : PostQueue τ) (hp : s.pc = .callbacks) (hq : s.queue.next = some (fn, q)) :
      StepView K listens s .call
        { s with queue := q, pc := .callback fn, executed := s.executed ++ [fn] }
  | fnReturn (fn : τ) (hp : s.pc = .callback fn) :
      StepView K listens s .fnReturn { s with pc := .callbacks }
  | enterPoll (q : PostQueue τ) (hp : s.pc = .callbacks) (hq : s.queue.enterPoll = some q) :
      StepView K listens s .enterPoll
        { s with queue := q, pc := if listens then .listeners else .wait }
  | listener (hp : s.pc = .listeners) : StepView K listens s .listener { s with pc := .listener }
  | listenerReturn (hp : s.pc = .listener) :
      StepView K listens s .listenerReturn { s with pc := .listeners }
  | enterWait (hp : s.pc = .listeners) : StepView K listens s .enterWait { s with pc := .wait }
  | waitReturn (events : List Bool) (w : W) (hp : s.pc = .wait)
      (hw : K.report s.waker (events.count true) = some w) :
      StepView K listens s (.waitReturn events) { s with waker := w, pc := .batch events }
  | pollError (hp : s.pc = .wait) : StepView K listens s .pollError { s with pc := .out }
  | wakerEvent (events : List Bool) (hp : s.pc = .batch (true :: events)) :
      StepView K listens s .event { s with waker := K.consume s.waker, pc := .batch events }
  | dispatch (events : List Bool) (hp : s.pc = .batch (false :: events)) :
      StepView K listens s .event { s with pc := .dispatch events }
  | eventReturn (events : List Bool) (hp : s.pc = .dispatch events) :
      StepView K listens s .eventReturn { s with pc := .batch events }
  | endBatch (hp : s.pc = .batch []) : StepView K listens s .endBatch { s with pc := .test }

theorem step_view (he : step K listens s a = some s') : StepView K listens s a s' := by
  cases a with
  | push t fn =>
    obtain ⟨-, he⟩ := Option.ite_none_right_eq_some.1 he
    cases he
    exact .push t fn
  | store t =>
    obtain ⟨-, he⟩ := Option.ite_none_right_eq_some.1 he
    cases he
    exact .store t
  | wake t =>
    obtain ⟨ho, he⟩ := Option.ite_none_right_eq_some.1 he
    cases he
    exact .wake t ho
  | enter =>
    simp only [step] at he
    split at he
    · rename_i hp; cases he; exact .enter hp
    · cases he
  | reset =>
    simp only [step] at he
    split at he
    · rename_i hp; cases he; exact .reset hp
    · cases he
  | test =>
    simp only [step] at he
    split at he
    · rename_i hp
      cases he
      by_cases hs : s.stopRequested = true
      · rw [if_pos hs]; exact .exit hp
      · rw [if_neg hs]; exact .iterate hp (Bool.eq_false_of_not_eq_true hs)
    · cases he
  | swap =>
    simp only [step] at he
    split at he
    · rename_i hp
      obtain ⟨q, hq, rfl⟩ := Option.map_eq_some_iff.1 he
      exact .swap q hp hq
    · cases he
  | call =>
    simp only [step] at he
    split at he
    · rename_i hp
      obtain ⟨⟨fn, q⟩, hq, rfl⟩ := Option.map_eq_some_iff.1 he
      exact .call fn q hp hq
    · cases he
  | fnReturn =>
    simp only [step] at he
    split at he
    · rename_i fn hp
      obtain ⟨-, he⟩ := Option.ite_none_left_eq_some.1 he
      cases he
      exact .fnReturn fn hp
    · cases he
  | enterPoll =>
    simp only [step] at he
    split at he
    · rename_i hp
      obtain ⟨q, hq, rfl⟩ := Option.map_eq_some_iff.1 he
      exact .enterPoll q hp hq
    · cases he
  | listener =>
    simp only [step] at he
    split at he
    · rename_i hp; cases he; exact .listener hp
    · cases he
  | listenerReturn =>
    simp only [step] at he
    split at he
    · rename_i hp
      obtain ⟨-, he⟩ := Option.ite_none_left_eq_some.1 he
      cases he
      exact .listenerReturn hp
    · cases he
  | enterWait =>
    simp only [step] at he
    split at he
    · rename_i hp; cases he; exact .enterWait hp
    · cases he
  | waitReturn events =>
    simp only [step] at he
    split at he
    · rename_i hp
      obtain ⟨w, hw, rfl⟩ := Option.map_eq_some_iff.1 he
      exact .waitReturn events w hp hw
    · cases he
  | pollError =>
    simp only [step] at he
    split at he
    · rename_i hp; cases he; exact .pollError hp
    · cases he
  | event =>
    simp only [step] at he
    split at he
    · rename_i events hp; cases he; exact .wakerEvent events hp
    · rename_i events hp; cases he; exact .dispatch events hp
    · cases he
  | eventReturn =>
    simp only [step] at he
    split at he
    · rename_i events hp
      obtain ⟨-, he⟩ := Option.ite_none_left_eq_some.1 he
      cases he
      exact .eventReturn events hp
    · cases he
  | endBatch =>
    simp only [step] at he
    split at he
    · rename_i hp; cases he; exact .endBatch hp
    · cases he

theorem step_push {t : Option ι} {fn : τ} (he : step K listens s (.push t fn) = some s') :
    s'.queue.pending = s.queue.pending ++ [fn] ∧ s'.posted = s.posted ++ [fn] := by
  cases step_view he with
  | push => exact ⟨PostQueue.pending_post _, rfl⟩

theorem step_call {fn : τ} (he : step K listens s .call = some s') (hp : s'.pc = .callback fn) :
    s.queue.pending = fn :: s'.queue.pending ∧ s'.posted = s.posted := by
  cases step_view he with
  | call fn' q _ hq =>
    cases hp
    exact ⟨PostQueue.pending_next hq, rfl⟩

/-- Nothing else changes what is posted and not executed. -/
theorem step_quiet (he : step K listens s a = some s') (hpush : ∀ t fn, a ≠ .push t fn)
    (hcall : a ≠ .call) : s'.queue.pending = s.queue.pending ∧ s'.posted = s.posted := by
  cases step_view he with
  | push t fn => exact absurd rfl (hpush t fn)
  | call => exact absurd rfl hcall
  | swap q _ hq => exact ⟨PostQueue.pending_swap hq, rfl⟩
  | enterPoll q _ hq => exact ⟨PostQueue.pending_enterPoll hq, rfl⟩
  | _ => exact ⟨rfl, rfl⟩

/-! ## What the loop thread has not looked at is signalled -/

def Signalled (K : Waker W) (s : WakeLoop W ι τ) : Prop :=
  K.ready s.waker = true ∨ ∃ t, s.owes t = true

structure WakeInv (K : Waker W) (s : WakeLoop W ι τ) : Prop where
  polling : s.queue.polling = !s.pc.draining
  fifo : s.posted = s.executed ++ s.queue.pending
  posted : s.pc.swapped = true → s.queue.active ≠ [] → s.Signalled K
  stopped : s.pc.tested = true → s.stopRequested = true → s.Signalled K

theorem step_wakeInv (hK : ∀ w, K.ready (K.wake w) = true) (h : s.WakeInv K)
    (he : step K listens s a = some s') : s'.WakeInv K := by
  cases step_view he with
  | push t fn =>
    have hs : Signalled K { s with
        queue := s.queue.post [fn]
        owes := Function.update s.owes t true
        posted := s.posted ++ [fn] } := .inr ⟨t, Function.update_self ..⟩
    refine ⟨h.polling, ?_, fun _ _ => hs, fun _ _ => hs⟩
    show s.posted ++ [fn] = _
    rw [PostQueue.pending_post, ← List.append_assoc, ← h.fifo]
  | store t =>
    have hs : Signalled K { s with
        stopRequested := true, owes := Function.update s.owes t true } :=
      .inr ⟨t, Function.update_self ..⟩
    exact ⟨h.polling, h.fifo, fun _ _ => hs, fun _ _ => hs⟩
  | wake t ho =>
    have hs : Signalled K { s with
        waker := K.wake s.waker, owes := Function.update s.owes t false } :=
      .inl (hK _)
    exact ⟨h.polling, h.fifo, fun _ _ => hs, fun _ _ => hs⟩
  | iterate hp hs =>
    refine ⟨by rw [h.polling, hp]; rfl, h.fifo, by rintro ⟨⟩, fun _ hs' => ?_⟩
    cases hs.symm.trans hs'
  | swap q hp hq =>
    -- the buffer that is posted to from now on is empty
    obtain ⟨-, hpoll, hact, -⟩ := PostQueue.swap_cases hq
    refine ⟨hpoll, ?_, fun _ hne => absurd hact hne, fun _ => h.stopped (by rw [hp]; rfl)⟩
    exact h.fifo.trans (by rw [← PostQueue.pending_swap hq])
  | call fn q hp hq =>
    obtain ⟨-, hpoll, hact, -⟩ := PostQueue.next_cases hq
    refine ⟨hpoll, ?_, fun _ hne => h.posted (by rw [hp]; rfl) (hact ▸ hne),
      fun _ => h.stopped (by rw [hp]; rfl)⟩
    show s.posted = s.executed ++ [fn] ++ q.pending
    rw [h.fifo, PostQueue.pending_next hq, List.append_assoc]
    rfl
  | enterPoll q hp hq =>
    obtain ⟨-, hpoll, hact, -⟩ := PostQueue.enterPoll_cases hq
    have hposted : q.active ≠ [] → s.Signalled K :=
      fun hne => h.posted (by rw [hp]; rfl) (hact ▸ hne)
    have hfifo : s.posted = s.executed ++ q.pending := by
      rw [h.fifo, PostQueue.pending_enterPoll hq]
    cases listens with
    | true => exact ⟨hpoll, hfifo, fun _ => hposted, fun _ => h.stopped (by rw [hp]; rfl)⟩
    | false => exact ⟨hpoll, hfifo, fun _ => hposted, fun _ => h.stopped (by rw [hp]; rfl)⟩
  | fnReturn _ hp | listener hp | listenerReturn hp | enterWait hp =>
    exact ⟨by rw [h.polling, hp]; rfl, h.fifo, fun _ => h.posted (by rw [hp]; rfl),
      fun _ => h.stopped (by rw [hp]; rfl)⟩
  | enter hp | reset hp | exit hp | waitReturn _ _ hp | pollError hp | wakerEvent _ hp
  | dispatch _ hp | eventReturn _ hp | endBatch hp =>
    -- the loop thread will look at both before it sleeps again
    exact ⟨by rw [h.polling, hp]; rfl, h.fifo, by rintro ⟨⟩, by rintro ⟨⟩⟩

theorem reach_wakeInv (hK : ∀ w, K.ready (K.wake w) = true)
    (h : (machine K listens ι τ).Reach s) : s.WakeInv K :=
  h.inv (I := WakeInv K) (fun s hs => by rw [hs]; exact ⟨rfl, rfl, by rintro ⟨⟩, by rintro ⟨⟩⟩)
    fun _ _ _ _ hi _ he => step_wakeInv hK hi he

/-! ## The work that is left -/

/-- The threads on their way to `wake`. -/
def owing [Fintype ι] (s : WakeLoop W ι τ) : Nat := ∑ t, (s.owes t).toNat

/-- A round is eight steps at most, besides those for further events of the waker; a thread on its
way to `wake` makes one step and one round; a posted callback two steps. -/
def work [Fintype ι] (rounds : W → Nat → Nat) (s : WakeLoop W ι τ) : Nat :=
  8 * rounds s.waker s.pc.wakers + 9 * s.owing + 2 * s.queue.pending.length + s.pc.work

omit [DecidableEq ι] in
/-- The loop thread goes on and leaves the waker as it is. -/
theorem work_lt_of_pc [Fintype ι] (rounds : W → Nat → Nat) {pc : LoopPc τ} {q : PostQueue τ}
    {st : Bool} {posted executed : List τ} (hwakers : pc.wakers = s.pc.wakers)
    (h : 2 * q.pending.length + pc.work < 2 * s.queue.pending.length + s.pc.work) :
    work rounds { s with
      queue := q, stopRequested := st, pc := pc, posted := posted, executed := executed } <
      work rounds s := by
  show 8 * rounds s.waker pc.wakers + 9 * s.owing + 2 * q.pending.length + pc.work < _
  unfold work
  rw [hwakers]
  omega

theorem work_lt [Fintype ι] {rounds : W → Nat → Nat} (hK : K.Lawful rounds) (ha : Own a)
    (he : step K listens s a = some s') : work rounds s' < work rounds s := by
  cases step_view he with
  | wake t ho =>
    have hsum := Cells.sum_update_mem Bool.toNat s.owes (Finset.mem_univ t) false
    have hrounds := hK.rounds_wake s.waker s.pc.wakers
    rw [ho] at hsum
    simp only [Bool.toNat_true, Bool.toNat_false] at hsum
    show 8 * rounds (K.wake s.waker) s.pc.wakers +
      9 * (∑ t', (Function.update s.owes t false t').toNat) + 2 * s.queue.pending.length +
      s.pc.work < _
    unfold work owing
    omega
  | waitReturn events w hp hw =>
    obtain ⟨hne, hall⟩ := ha
    have hcount : events.count true = events.length :=
      List.count_eq_length.2 fun e he => (hall e he).symm
    have hpos := List.length_pos_iff.2 hne
    have hrounds := hK.rounds_report s.waker (events.count true) w hw
    show 8 * rounds w (events.count true) + 9 * s.owing + 2 * s.queue.pending.length +
      (2 * events.length + 5) < _
    unfold work
    rw [hp]
    simp only [LoopPc.wakers, LoopPc.work]
    omega
  | wakerEvent events hp =>
    have hrounds := hK.rounds_consume s.waker (events.count true)
    show 8 * rounds (K.consume s.waker) (events.count true) + 9 * s.owing +
      2 * s.queue.pending.length + (2 * events.length + 5) < _
    unfold work
    rw [hp]
    simp only [LoopPc.wakers, LoopPc.work, List.count_cons_self, List.length_cons]
    omega
  | swap q hp hq =>
    refine work_lt_of_pc rounds (by rw [hp]; rfl) ?_
    rw [PostQueue.pending_swap hq, hp]
    exact Nat.lt_succ_self _
  | call fn q hp hq =>
    refine work_lt_of_pc rounds (by rw [hp]; rfl) ?_
    rw [PostQueue.pending_next hq, hp, List.length_cons]
    simp only [LoopPc.work]
    omega
  | enterPoll q hp hq =>
    refine work_lt_of_pc rounds (by rw [hp]; cases listens <;> rfl) ?_
    rw [PostQueue.pending_enterPoll hq, hp]
    cases listens with
    | true => exact Nat.add_lt_add_left (Nat.lt_succ_self 1) _
    | false => exact Nat.add_lt_add_left (Nat.succ_pos 1) _
  | reset hp | exit hp | iterate hp | fnReturn _ hp | listenerReturn hp | enterWait hp
  | endBatch hp =>
    refine work_lt_of_pc rounds (by rw [hp]; rfl) (Nat.add_lt_add_left ?_ _)
    rw [hp]
    simp only [LoopPc.work]
    omega
  | dispatch events hp =>
    refine work_lt_of_pc rounds (by rw [hp]; simp [LoopPc.wakers]) (Nat.add_lt_add_left ?_ _)
    rw [hp]
    simp only [LoopPc.work, List.length_cons]
    omega
  | eventReturn events hp =>
    refine work_lt_of_pc rounds (by rw [hp]; rfl) (Nat.add_lt_add_left ?_ _)
    rw [hp]
    exact Nat.lt_succ_self _
  | push | store | enter | listener | pollError => cases ha

/-! ## At rest -/

def Stuck (K : Waker W) (listens : Bool) (s : WakeLoop W ι τ) : Prop :=
  ∀ a, Own a → step K listens s a = none

/-- A loop thread that can do nothing waits, or is not in `run`. -/
theorem Stuck.pc {rounds : W → Nat → Nat} (hK : K.Lawful rounds) (h : s.WakeInv K)
    (hs : Stuck K listens s) :
    (∀ t, s.owes t = false) ∧ (s.pc = .out ∨ s.pc = .wait ∧ K.ready s.waker = false) := by
  have howes (t : Option ι) : s.owes t = false := by
    by_contra ho
    have := hs (.wake t) trivial
    simp [step, ho] at this
  refine ⟨howes, ?_⟩
  have hpoll := h.polling
  cases hp : s.pc with
  | out => exact .inl rfl
  | reset => have := hs .reset trivial; simp [step, hp] at this
  | test => have := hs .test trivial; simp [step, hp] at this
  | drain =>
    rw [hp] at hpoll
    have := hs .swap trivial
    simp [step, hp, PostQueue.swap_of_polling hpoll] at this
  | callbacks =>
    rw [hp] at hpoll
    cases hd : s.queue.drain with
    | nil =>
      have hq : s.queue.enterPoll = some ⟨s.queue.active, s.queue.drain, true, fun _ => hd⟩ :=
        dif_pos ⟨hpoll, hd⟩
      have := hs .enterPoll trivial
      simp [step, hp, hq] at this
    | cons fn rest =>
      have := hs .call trivial
      simp [step, hp, PostQueue.next_of_drain hpoll hd] at this
  | callback fn => have := hs .fnReturn trivial; simp [step, hp, howes] at this
  | listeners => have := hs .enterWait trivial; simp [step, hp] at this
  | listener => have := hs .listenerReturn trivial; simp [step, hp, howes] at this
  | wait =>
    refine .inr ⟨rfl, ?_⟩
    by_contra hready
    obtain ⟨count, w, hpos, hw⟩ := hK.report_ready s.waker (by simpa using hready)
    have hown : Own (.waitReturn (List.replicate count true) : Act ι τ) :=
      ⟨fun e => by rw [List.replicate_eq_nil_iff] at e; omega, fun e => List.eq_of_mem_replicate⟩
    have := hs _ hown
    simp [step, hp, hw] at this
  | batch events =>
    rcases events with - | ⟨- | -, events⟩
    · have := hs .endBatch trivial
      simp [step, hp] at this
    · have := hs .event trivial
      simp [step, hp] at this
    · have := hs .event trivial
      simp [step, hp] at this
  | dispatch events => have := hs .eventReturn trivial; simp [step, hp, howes] at this

theorem Stuck.rest {rounds : W → Nat → Nat} (hK : K.Lawful rounds) (h : s.WakeInv K)
    (hs : Stuck K listens s) :
    s.pc = .out ∨ s.pc = .wait ∧ s.executed = s.posted ∧ s.stopRequested = false := by
  obtain ⟨howes, hp | ⟨hp, hready⟩⟩ := hs.pc hK h
  · exact .inl hp
  · have hquiet : ¬ s.Signalled K := by
      rintro (hr | ⟨t, ho⟩)
      · cases hready.symm.trans hr
      · cases (howes t).symm.trans ho
    have hactive : s.queue.active = [] := by
      by_contra hne
      exact hquiet (h.posted (by rw [hp]; rfl) hne)
    have hdrain : s.queue.drain = [] := by
      refine s.queue.cleared ?_
      rw [h.polling, hp]
      rfl
    refine .inr ⟨hp, ?_, ?_⟩
    · rw [h.fifo, PostQueue.pending, hdrain, hactive, List.append_nil, List.append_nil]
    · by_contra hstop
      exact hquiet (h.stopped (by rw [hp]; rfl) (by simpa using hstop))

theorem posted_of_own (ha : Own a) (he : step K listens s a = some s') :
    s'.posted = s.posted := by
  cases step_view he with
  | push | store | enter | listener | pollError => cases ha
  | _ => rfl

end WakeLoop

/-! ## The three platforms -/

namespace Os

/-- The state of the platform's waker. -/
abbrev WakerState : Os → Type
  | linux => Nat
  | macos => Bool
  | windows => Nat

def waker : (os : Os) → Waker os.WakerState
  | linux => .eventfd
  | macos => .userEvent
  | windows => .packets

/-- `poll` of the IOCP dispatcher begins with `poll_listeners`. -/
def pollsListeners : Os → Bool
  | linux | macos => false
  | windows => true

def rounds : (os : Os) → os.WakerState → Nat → Nat
  | linux => fun c j => if j = 0 ∧ 0 < c then 1 else 0
  | macos => fun b _ => b.toNat
  | windows => fun c _ => c

theorem waker_lawful (os : Os) : os.waker.Lawful os.rounds := by
  cases os with
  | linux => exact Waker.eventfd_lawful
  | macos => exact Waker.userEvent_lawful
  | windows => exact Waker.packets_lawful

end Os

namespace WakeLoop

variable {ι τ : Type} [DecidableEq ι]

/-- `event_loop::run` on a platform. -/
abbrev loop (os : Os) (ι τ : Type) [DecidableEq ι] :
    Machine (WakeLoop os.WakerState ι τ) (Act ι τ) :=
  machine os.waker os.pollsListeners ι τ

/-- **Every posted callback is executed**, on each platform. When no thread posts or stops any more
and no other event comes in, the loop thread and the threads on their way to `wake` come to rest,
after a number of steps that is known beforehand; then the loop thread is not in `run`, or it waits,
every callback posted so far has been executed, in the order of the posts and once, and no stop is
pending. The wait is neither interrupted by a signal nor timed out here, as it is every 10 ms on
IOCP with a listener: a return with nothing is not among the steps counted. -/
theorem maximal_run_executes [Fintype ι] (os : Os) {s s' : WakeLoop os.WakerState ι τ}
    (h : (loop os ι τ).Reach s) {as : List (Act ι τ)}
    (hp : (loop os ι τ).Path (fun _ a => Own a) s as s') :
    as.length ≤ work os.rounds s ∧
      (Stuck os.waker os.pollsListeners s' →
        s'.pc = .out ∨ s'.pc = .wait ∧ s'.executed = s.posted ∧ s'.stopRequested = false) := by
  have hK := os.waker_lawful
  have hinv := reach_wakeInv hK.wake_ready h
  have hstep : ∀ (t : WakeLoop os.WakerState ι τ) a t', t.WakeInv os.waker → Own a →
      (loop os ι τ).step t a = some t' →
        t'.WakeInv os.waker ∧ work os.rounds t' < work os.rounds t :=
    fun t a t' hi ha he => ⟨step_wakeInv hK.wake_ready hi he, work_lt hK ha he⟩
  refine ⟨Nat.le_of_add_right_le (hp.length_le hstep hinv), fun hs => ?_⟩
  have hposted : s'.posted = s.posted :=
    hp.inv (I := fun t => t.posted = s.posted)
      (fun t a t' ht ha he => (posted_of_own ha he).trans ht) rfl
  have hrest := hs.rest hK (hp.inv (fun t a t' hi ha he => (hstep t a t' hi ha he).1) hinv)
  rwa [hposted] at hrest

/-- A callback of a listener has posted, and another thread has posted and not called `wake` yet. -/
def asked : WakeLoop Nat Unit Nat where
  queue := ⟨[6, 7], [], true, fun _ => rfl⟩
  stopRequested := false
  waker := 1
  owes := Function.update (Function.update (Function.update (fun _ => false) none true) none false)
    (some ()) true
  pc := .wait
  posted := [6, 7]
  executed := []

theorem asked_reach : (loop .windows Unit Nat).Reach asked :=
  .step (a := .push (some ()) 7) (.step (a := .enterWait) (.step (a := .listenerReturn)
    (.step (a := .wake none) (.step (a := .push none 6) (.step (a := .listener)
      (.step (a := .enterPoll) (.step (a := .swap) (.step (a := .test) (.step (a := .reset)
        (.step (a := .enter) (.init rfl) trivial rfl) trivial rfl) trivial rfl) trivial rfl)
          trivial rfl) trivial rfl) trivial rfl) trivial rfl) trivial rfl) trivial rfl) trivial rfl

theorem maximal_run_executes_asked :
    ∃ as s', (loop .windows Unit Nat).Path (fun _ a => Own a) asked as s' ∧
      as.length ≤ work (Os.rounds .windows) asked ∧
      (s'.pc = .out ∨ s'.pc = .wait ∧ s'.executed = [6, 7] ∧ s'.stopRequested = false) := by
  have hp : (loop .windows Unit Nat).Path (fun _ a => Own a) asked
      [.waitReturn [true], .event, .endBatch, .test, .swap, .call, .fnReturn, .call, .fnReturn,
        .enterPoll, .wake (some ()), .enterWait, .waitReturn [true], .event, .endBatch, .test,
        .swap, .enterPoll, .enterWait] _ :=
    .cons ⟨by decide, by decide⟩ rfl (.cons trivial rfl (.cons trivial rfl (.cons trivial rfl
      (.cons trivial rfl (.cons trivial rfl (.cons trivial rfl (.cons trivial rfl
        (.cons trivial rfl (.cons trivial rfl (.cons trivial rfl (.cons trivial rfl
          (.cons ⟨by decide, by decide⟩ rfl (.cons trivial rfl (.cons trivial rfl
            (.cons trivial rfl (.cons trivial rfl (.cons trivial rfl (.cons trivial rfl
              (.nil _)))))))))))))))))))
  obtain ⟨hlen, hrest⟩ := maximal_run_executes .windows asked_reach hp
  refine ⟨_, _, hp, hlen, hrest fun a ho => ?_⟩
  cases a with
  | push | store | enter | listener | pollError => cases ho
  | wake t => rcases t with - | ⟨⟩ <;> rfl
  | waitReturn events =>
    have hpos : 0 < events.count true := by
      rw [List.count_eq_length.2 fun e he => (ho.2 e he).symm]
      exact List.length_pos_iff.2 ho.1
    have hnone : Waker.packets.report 0 (events.count true) = none :=
      if_neg fun hle => Nat.not_lt_of_le hle.1 hpos
    exact congrArg (Option.map _) hnone
  | _ => rfl

end WakeLoop

end Socketpp
