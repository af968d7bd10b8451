import Socketpp.Lib.Machine
import Socketpp.Event.Epoll
import Socketpp.High.ListenPause

/-!
# Pausing a datagram socket

`arm`, `do_pause` and `do_resume` of a dgram (`src/high/dgram.cpp`, POSIX). Each
first changes a flag and then posts what matches it: `arm` and `resume` post
`add`, `pause` posts `remove`. Any thread may call them, and other calls may come
between the two steps, so the tasks can reach the loop in another order than the
flags were stored in, and the last task then contradicts the flag
(`dgram_paused_and_resumed`).

A call is in order if it stores its flag while no other call still has the
opposite task to post. If all calls are, the registration settles on what the
flags say (`dgram_pause_consistent`). The kernel takes a descriptor that is open
and not registered.
-/

namespace Socketpp

/-- What `arm`, `do_pause` and `do_resume` post. -/
inductive RecvTask where
  /-- `loop.io().add(fd, readable, ..)` -/
  | add
  /-- `loop.io().remove(fd)` -/
  | remove
  deriving DecidableEq, Repr

/-- The socket is registered after the task. -/
def RecvTask.registers : RecvTask → Bool
  | add => true
  | remove => false

/-- What the call stores in `paused`. -/
def PauseCall.flag : PauseCall → Bool
  | pause => true
  | resume => false

def PauseCall.task : PauseCall → RecvTask
  | pause => .remove
  | resume => .add

/-- A call between its steps. -/
inductive DgramCall where
  /-- `arm` has set `armed` -/
  | arming
  /-- the call has seen `armed` -/
  | loaded (c : PauseCall)
  /-- the call has stored `paused` -/
  | stored (c : PauseCall)
  deriving DecidableEq, Repr

namespace DgramCall

def task : DgramCall → RecvTask
  | arming => .add
  | loaded c => c.task
  | stored c => c.task

/-- The flag is set, and the task is still to be posted. -/
def owes : DgramCall → Bool
  | arming => true
  | loaded _ => false
  | stored _ => true

end DgramCall

structure DgramPause where
  fd : Fd
  armed : Bool
  paused : Bool
  /-- the calls under way -/
  calls : List DgramCall
  queue : PostQueue RecvTask
  disp : Epoll Unit Empty

namespace DgramPause

/-- `do_create` has opened the socket. -/
def start (fd : Fd) : DgramPause := ⟨fd, false, false, [], .start, .start⟩

/-- `arm`, up to the exchange. -/
def arm (s : DgramPause) : DgramPause :=
  if s.armed then s else { s with armed := true, calls := s.calls ++ [.arming] }

/-- `do_pause` and `do_resume`, up to the load of `armed`. -/
def call (s : DgramPause) (c : PauseCall) : DgramPause :=
  if s.armed then { s with calls := s.calls ++ [.loaded c] } else s

/-- Call `k` stores `paused`. -/
def store (s : DgramPause) (k : Nat) : Option DgramPause :=
  match s.calls[k]? with
  | some (.loaded c) => some { s with paused := c.flag, calls := s.calls.set k (.stored c) }
  | _ => none

/-- Call `k` posts its task and returns. -/
def post (s : DgramPause) (k : Nat) : Option DgramPause :=
  (s.calls[k]?.filter DgramCall.owes).map fun x =>
    { s with queue := s.queue.post [x.task], calls := s.calls.eraseIdx k }

/-- A posted task runs. -/
def run (s : DgramPause) : RecvTask → DgramPause
  | .add => { s with disp := s.disp.add s.fd .readable () (s.disp.interest.lookup s.fd).isNone }
  | .remove => { s with disp := s.disp.remove s.fd }

inductive Act where
  | arm
  | call (c : PauseCall)
  | store (k : Nat)
  | post (k : Nat)
  | swap
  | runTask
  | enterPoll

def step (s : DgramPause) : Act → Option DgramPause
  | .arm => some s.arm
  | .call c => some (s.call c)
  | .store k => s.store k
  | .post k => s.post k
  | .swap => s.queue.swap.map fun q => { s with queue := q }
  | .runTask => s.queue.next.map fun r => { s with queue := r.2 }.run r.1
  | .enterPoll => s.queue.enterPoll.map fun q => { s with queue := q }

def machine (fd : Fd) : Machine DgramPause Act where
  Init s := s = start fd
  step := step

/-- A flag is stored only while every task still to be posted is the one that goes with it. -/
def InOrder (s : DgramPause) : Act → Prop
  | .store k => ∀ x ∈ s.calls, x.owes = true → s.calls[k]?.map DgramCall.task = some x.task
  | _ => True

instance (s : DgramPause) : ∀ a, Decidable (s.InOrder a)
  | .store k => inferInstanceAs
      (Decidable (∀ x ∈ s.calls, x.owes = true → s.calls[k]?.map DgramCall.task = some x.task))
  | .arm | .call _ | .post _ | .swap | .runTask | .enterPoll => isTrue trivial

/-- The socket is registered for readable events. -/
def Registered (s : DgramPause) : Prop :=
  s.disp.interest.lookup s.fd = some .readable ∧ s.disp.callbacks.lookup s.fd = some ()

instance (s : DgramPause) : Decidable s.Registered := inferInstanceAs (Decidable (_ ∧ _))

/-- What the flags say about the registration. -/
def wanted (s : DgramPause) : Bool := s.armed && !s.paused

/-- What the posted tasks make of the registration. -/
def settled (s : DgramPause) : Bool :=
  s.queue.pending.foldl (fun _ t => t.registers) (s.disp.interest.lookup s.fd).isSome

/-- The tasks still to be posted agree with the flags; if there are none, the posted tasks do. -/
structure Inv (s : DgramPause) : Prop where
  unarmed : s.armed = false → s.paused = false ∧ s.calls = []
  owed : ∀ x ∈ s.calls, x.owes = true → x.task.registers = s.wanted
  posted : (∀ x ∈ s.calls, x.owes = false) → s.settled = s.wanted
  exact : s.Registered ∨ s.disp.interest.lookup s.fd = none

variable {fd : Fd} {s s' : DgramPause} {a : Act}

theorem start_inv (fd : Fd) : (start fd).Inv where
  unarmed _ := ⟨rfl, rfl⟩
  owed _ hx := by cases hx
  posted _ := rfl
  exact := .inr rfl

theorem Inv.arm (h : s.Inv) : s.arm.Inv := by
  unfold DgramPause.arm
  split
  · exact h
  · rename_i ha
    obtain ⟨hp, hc⟩ := h.unarmed (Bool.eq_false_of_not_eq_true ha)
    have hw : wanted { s with armed := true, calls := s.calls ++ [.arming] } = true := by
      simp [wanted, hp]
    refine ⟨fun e => ?_, fun x hx _ => ?_, fun hn => ?_, h.exact⟩
    · cases e
    · rw [hc, List.nil_append, List.mem_singleton] at hx
      rw [hx, hw]
      rfl
    · have := hn .arming (by simp)
      cases this

theorem Inv.call (h : s.Inv) (c : PauseCall) : (s.call c).Inv := by
  unfold DgramPause.call
  split
  · rename_i ha
    refine ⟨fun e => ?_, fun x hx ho => ?_, fun hn => ?_, h.exact⟩
    · cases ha.symm.trans e
    · rcases List.mem_append.1 hx with hx | hx
      · exact h.owed x hx ho
      · rw [List.mem_singleton.1 hx] at ho
        cases ho
    · exact h.posted fun x hx => hn x (List.mem_append_left _ hx)
  · exact h

/-- In order, the flag agrees with what other calls have still to post. -/
theorem Inv.store (h : s.Inv) {k : Nat} (hok : s.InOrder (.store k)) (he : s.store k = some s') :
    s'.Inv := by
  unfold DgramPause.store at he
  split at he
  · rename_i c hk
    cases he
    have hm : .loaded c ∈ s.calls := List.mem_of_getElem? hk
    have ha : s.armed = true := by
      by_contra ha
      rw [(h.unarmed (Bool.eq_false_of_not_eq_true ha)).2] at hm
      cases hm
    have hw : (DgramPause.mk s.fd s.armed c.flag (s.calls.set k (.stored c)) s.queue s.disp).wanted
        = c.task.registers := by
      unfold wanted
      rw [ha]
      cases c <;> rfl
    have hlt : k < s.calls.length := (List.getElem?_eq_some_iff.1 hk).1
    refine ⟨fun e => ?_, fun x hx ho => ?_, fun hn => ?_, h.exact⟩
    · cases ha.symm.trans e
    · rw [hw]
      rcases List.mem_or_eq_of_mem_set hx with hx | rfl
      · have := hok x hx ho
        rw [hk] at this
        rw [← Option.some.inj this]
        rfl
      · rfl
    · have := hn (.stored c) (List.mem_set hlt _)
      cases this
  · cases he

/-- The task of a call that owes one is the last, and agrees with the flags. -/
theorem Inv.post (h : s.Inv) {k : Nat} (he : s.post k = some s') : s'.Inv := by
  obtain ⟨x, hx, rfl⟩ := Option.map_eq_some_iff.1 he
  obtain ⟨hk, ho⟩ := Option.filter_eq_some_iff.1 hx
  have hw := h.owed x (List.mem_of_getElem? hk) ho
  have hsub : ∀ y ∈ s.calls.eraseIdx k, y ∈ s.calls := fun y hy => List.mem_of_mem_eraseIdx hy
  refine ⟨fun e => ?_, fun y hy hoy => h.owed y (hsub y hy) hoy, fun _ => ?_, h.exact⟩
  · obtain ⟨hp, hc⟩ := h.unarmed e
    refine ⟨hp, ?_⟩
    change s.calls.eraseIdx k = []
    rw [hc]
    rfl
  · unfold settled
    rw [PostQueue.pending_post, List.foldl_append]
    exact hw

/-- The loop takes over the buffer, or goes to `poll`. -/
theorem Inv.requeue (h : s.Inv) {q : PostQueue RecvTask} (hq : q.pending = s.queue.pending) :
    Inv { s with queue := q } where
  unarmed := h.unarmed
  owed := h.owed
  posted hn := by
    rw [settled, hq]
    exact h.posted hn
  exact := h.exact

/-- A task registers the socket or removes it, whatever came before. -/
theorem run_cases (hx : s.Registered ∨ s.disp.interest.lookup s.fd = none) (t : RecvTask) :
    (t.registers = true ∧ (s.run t).Registered) ∨
      t.registers = false ∧ (s.run t).disp.interest.lookup s.fd = none := by
  cases t with
  | add =>
    refine .inl ⟨rfl, ?_⟩
    rcases hx with ⟨hi, hc⟩ | hn
    · simp [Registered, run, Epoll.add, hi, hc]
    · simp [Registered, run, Epoll.add, hn, AList.lookup_insert]
  | remove =>
    refine .inr ⟨rfl, ?_⟩
    rcases hx with ⟨hi, -⟩ | hn
    · simp [run, Epoll.remove, hi, AList.lookup_erase]
    · simp [run, Epoll.remove, hn]

/-- A task touches the dispatcher alone. -/
theorem run_eq (s : DgramPause) (t : RecvTask) : s.run t = { s with disp := (s.run t).disp } := by
  cases t <;> rfl

theorem Inv.run (h : s.Inv) {t : RecvTask} {q : PostQueue RecvTask}
    (hq : s.queue.pending = t :: q.pending) : (run { s with queue := q } t).Inv := by
  have hx : Registered { s with queue := q } ∨ s.disp.interest.lookup s.fd = none := h.exact
  have hr := run_cases hx t
  have hsome : ((DgramPause.run { s with queue := q } t).disp.interest.lookup s.fd).isSome =
      t.registers := by
    rcases hr with ⟨ht, hr⟩ | ⟨ht, hr⟩
    · rw [run_eq] at hr
      rw [ht, hr.1]
      rfl
    · rw [ht, hr]
      rfl
  rw [run_eq] at hr ⊢
  refine ⟨h.unarmed, h.owed, fun hn => ?_, ?_⟩
  · have hs : s.settled = s.wanted := h.posted hn
    rw [settled, hq, List.foldl_cons] at hs
    rw [settled, hsome]
    exact hs
  · exact hr.imp And.right And.right

theorem step_inv (h : s.Inv) (hok : s.InOrder a) (he : s.step a = some s') : s'.Inv := by
  cases a with
  | arm => cases he; exact h.arm
  | call c => cases he; exact h.call c
  | store k => exact h.store hok he
  | post k => exact h.post he
  | swap =>
    obtain ⟨q, hq, rfl⟩ := Option.map_eq_some_iff.1 he
    exact h.requeue (PostQueue.pending_swap hq)
  | runTask =>
    obtain ⟨⟨t, q⟩, hq, rfl⟩ := Option.map_eq_some_iff.1 he
    exact h.run (PostQueue.pending_next hq)
  | enterPoll =>
    obtain ⟨q, hq, rfl⟩ := Option.map_eq_some_iff.1 he
    exact h.requeue (PostQueue.pending_enterPoll hq)

theorem reach_inv (h : (machine fd).ReachOk InOrder s) : s.Inv :=
  h.inv (I := Inv) (fun s (hs : s = start fd) => hs ▸ start_inv fd)
    fun _ _ _ _ hi hok he => step_inv hi hok he

/-- **Pausing and resuming a datagram socket.** If every flag is stored in order, then once the
calls have posted their tasks and these have run, the socket is registered exactly if it is armed
and not paused. -/
theorem dgram_pause_consistent (h : (machine fd).ReachOk InOrder s)
    (hc : ∀ x ∈ s.calls, x.owes = false) (hq : s.queue.pending = []) :
    s.Registered ↔ s.armed = true ∧ s.paused = false := by
  have hi := reach_inv h
  have hs : (s.disp.interest.lookup s.fd).isSome = s.wanted := by
    have := hi.posted hc
    rwa [settled, hq] at this
  have hr : s.Registered ↔ (s.disp.interest.lookup s.fd).isSome = true := by
    refine ⟨fun hr => by rw [hr.1]; rfl, fun hsome => ?_⟩
    refine hi.exact.resolve_right fun hn => ?_
    rw [hn] at hsome
    cases hsome
  rw [hr, hs, wanted, Bool.and_eq_true, Bool.not_eq_true']

/-- Two threads pause and resume in turn. -/
theorem dgram_pause_consistent_resumed :
    ∃ s, (machine 3).ReachOk InOrder s ∧
      (s.calls = [] ∧ s.queue.pending = [] ∧ s.armed = true ∧ s.paused = false) ∧
      s.Registered := by
  obtain ⟨s, h, hp⟩ := Machine.ReachOk.of_runOk_init (M := machine 3) InOrder
    (fun s => decide (s.calls = [] ∧ s.queue.pending = [] ∧ s.armed = true ∧ s.paused = false))
    [.arm, .post 0, .call .pause, .call .resume, .store 0, .swap, .runTask, .post 0, .store 0,
      .post 0, .enterPoll, .swap, .runTask, .runTask]
    rfl (by decide)
  have hs := of_decide_eq_true hp
  have hcalls : ∀ x ∈ s.calls, x.owes = false := by rw [hs.1]; intro x hx; cases hx
  exact ⟨s, h, hs, (dgram_pause_consistent h hcalls hs.2.1).2 hs.2.2⟩

/-- `pause` and `resume` on two threads: the flags are stored in one order and the tasks posted in
the other. The socket is not paused and gets no datagrams. -/
theorem dgram_paused_and_resumed :
    ∃ s, (machine 3).Reach s ∧ s.calls = [] ∧ s.queue.pending = [] ∧ s.armed = true ∧
      s.paused = false ∧ ¬ s.Registered := by
  obtain ⟨s, h, hp⟩ := Machine.Reach.of_run_init (M := machine 3)
    (fun s => decide (s.calls = [] ∧ s.queue.pending = [] ∧ s.armed = true ∧ s.paused = false ∧
      ¬ s.Registered))
    [.arm, .post 0, .swap, .runTask, .enterPoll, .call .pause, .call .resume, .store 0, .store 1,
      .post 1, .post 0, .swap, .runTask, .runTask]
    rfl (by decide)
  exact ⟨s, h, of_decide_eq_true hp⟩

end DgramPause

end Socketpp
