import Socketpp.Lib.Machine
import Socketpp.Event.Epoll
import Socketpp.High.Stream

/-!
# Pausing a listener

`pause` and `resume` of a stream (`src/high/stream.cpp`) post to the loop: `pause`
posts `listener.stop()`, which closes the listening socket, and `resume` posts
`accept_loop`, which registers whatever descriptor the listener has. Nothing
opens the socket again, so the first `pause` is the end of the listener
(`listener_resumed_iff`).

The loop runs posted tasks in order. Events of the listener are left out: they do
not touch its registration, unless the process is out of descriptors
(`AcceptLoop`). The kernel takes a descriptor that is open and not registered.
-/

namespace Socketpp

/-- The calls of the stream's user that matter here. -/
inductive PauseCall where
  | pause
  | resume
  deriving DecidableEq, Repr

/-- What `arm_listen`, `do_pause` and `do_resume` post. -/
inductive ListenTask where
  /-- `listener.accept_loop(..)` -/
  | acceptLoop
  /-- `listener.stop()` -/
  | stop
  deriving DecidableEq, Repr

/-- An open listening socket. -/
structure ListenSocket (α : Type) where
  fd : Fd
  localAddr : α

structure ListenStream (α : Type) where
  mode : StreamMode
  armed : Bool
  listenPaused : Bool
  /-- the listener's `socket_`, while it is open -/
  socket : Option (ListenSocket α)
  disp : Epoll Unit Empty
  queue : PostQueue ListenTask
  /-- the calls made after arming -/
  calls : List PauseCall
  /-- a posted `stop` has closed the socket -/
  closedByPause : Bool

namespace ListenStream

variable {α : Type}

/-- `do_listen` has opened the socket. -/
def start (sock : ListenSocket α) : ListenStream α :=
  ⟨.listen, false, false, some sock, .start, .start, [], false⟩

/-- `arm_listen`. -/
def armListen (s : ListenStream α) : ListenStream α :=
  if s.armed then s else { s with armed := true, queue := s.queue.post [.acceptLoop] }

def doPause (s : ListenStream α) : ListenStream α :=
  if s.mode ≠ .listen ∨ s.armed = false then s
  else { s with listenPaused := true, queue := s.queue.post [.stop], calls := s.calls ++ [.pause] }

def doResume (s : ListenStream α) : ListenStream α :=
  if s.mode ≠ .listen ∨ s.armed = false then s
  else { s with listenPaused := false, queue := s.queue.post [.acceptLoop]
                calls := s.calls ++ [.resume] }

/-- A posted task runs. `accept_loop` on a closed listener passes an invalid descriptor to
`add`. -/
def run (s : ListenStream α) : ListenTask → ListenStream α
  | .acceptLoop =>
    match s.socket with
    | some sock =>
      { s with disp := s.disp.add sock.fd .readable () (s.disp.interest.lookup sock.fd).isNone }
    | none => s
  | .stop =>
    match s.socket with
    | some sock => { s with socket := none, disp := s.disp.closed sock.fd, closedByPause := true }
    | none => s

inductive Act where
  | arm
  | call (c : PauseCall)
  | swap
  | runTask
  | enterPoll

def step (s : ListenStream α) : Act → Option (ListenStream α)
  | .arm => some s.armListen
  | .call .pause => some s.doPause
  | .call .resume => some s.doResume
  | .swap => s.queue.swap.map fun q => { s with queue := q }
  | .runTask => s.queue.next.map fun r => { s with queue := r.2 }.run r.1
  | .enterPoll => s.queue.enterPoll.map fun q => { s with queue := q }

def machine (sock : ListenSocket α) : Machine (ListenStream α) Act where
  Init s := s = start sock
  step := step

/-- The socket is open on its address and registered for readable events. -/
def Listening (s : ListenStream α) (sock : ListenSocket α) : Prop :=
  s.socket = some sock ∧ s.disp.interest.lookup sock.fd = some .readable ∧
    s.disp.callbacks.lookup sock.fd = some ()

/-- The listener is as it was until the first `stop` runs, and never again. -/
structure Inv (sock : ListenSocket α) (s : ListenStream α) : Prop where
  mode : s.mode = .listen
  unarmed : s.armed = false → s.calls = []
  pause : .pause ∈ s.calls ↔ .stop ∈ s.queue.pending ∨ s.closedByPause = true
  closed : s.closedByPause = true → s.socket = none
  isOpen : s.closedByPause = false → s.socket = some sock
  registered : s.closedByPause = false → s.armed = true →
    .acceptLoop ∈ s.queue.pending ∨ s.Listening sock
  unregistered : s.closedByPause = false → s.disp.interest.lookup sock.fd = none ∨
    s.Listening sock

variable {sock : ListenSocket α} {s s' : ListenStream α} {a : Act}

theorem start_inv (sock : ListenSocket α) : (start sock).Inv sock where
  mode := rfl
  unarmed _ := rfl
  pause := iff_of_false List.not_mem_nil (by rintro (h | h) <;> cases h)
  closed := nofun
  isOpen _ := rfl
  registered _ := nofun
  unregistered _ := .inl rfl

/-- The loop takes over the buffer, or goes to `poll`. -/
theorem Inv.requeue (h : s.Inv sock) {q : PostQueue ListenTask}
    (hq : q.pending = s.queue.pending) : Inv sock { s with queue := q } where
  mode := h.mode
  unarmed := h.unarmed
  pause := by rw [hq]; exact h.pause
  closed := h.closed
  isOpen := h.isOpen
  registered hc ha := by rw [hq]; exact h.registered hc ha
  unregistered := h.unregistered

theorem Inv.armListen (h : s.Inv sock) : s.armListen.Inv sock := by
  unfold ListenStream.armListen
  split
  · exact h
  · rename_i ha
    have hcalls := h.unarmed (Bool.eq_false_of_not_eq_true ha)
    refine ⟨h.mode, fun _ => hcalls, ?_, h.closed, h.isOpen, fun _ _ => ?_, h.unregistered⟩
    · simpa using h.pause
    · simp

/-- A call of an armed stream posts its task. -/
theorem Inv.posted (h : s.Inv sock) (ha : s.armed = true) {c : PauseCall} {t : ListenTask}
    (hct : .pause = c ↔ .stop = t) (b : Bool) :
    Inv sock { s with listenPaused := b, queue := s.queue.post [t], calls := s.calls ++ [c] } := by
  refine ⟨h.mode, fun hu => ?_, ?_, h.closed, h.isOpen, fun hc ha => ?_, h.unregistered⟩
  · cases ha.symm.trans hu
  · simp only [PostQueue.pending_post, List.mem_append, List.mem_singleton, h.pause, hct]
    exact or_right_comm
  · refine (h.registered hc ha).imp_left fun hm => ?_
    simp [hm]

theorem Inv.doPause (h : s.Inv sock) : s.doPause.Inv sock := by
  unfold ListenStream.doPause
  split
  · exact h
  · rename_i ha
    exact h.posted (Bool.eq_true_of_not_eq_false fun e => ha (.inr e)) (iff_of_true rfl rfl) true

theorem Inv.doResume (h : s.Inv sock) : s.doResume.Inv sock := by
  unfold ListenStream.doResume
  split
  · exact h
  · rename_i ha
    exact h.posted (Bool.eq_true_of_not_eq_false fun e => ha (.inr e)) (by simp) false

theorem Inv.closedByPause_iff (h : s.Inv sock) : s.closedByPause = true ↔ s.socket = none := by
  refine ⟨h.closed, fun hs => ?_⟩
  by_contra hc
  cases hs.symm.trans (h.isOpen (Bool.eq_false_of_not_eq_true hc))

theorem Inv.socket_some (h : s.Inv sock) {sk : ListenSocket α} (hs : s.socket = some sk) :
    s.closedByPause = false ∧ sk = sock := by
  have hc : s.closedByPause = false := by
    by_contra hc
    cases hs.symm.trans (h.closed (Bool.eq_true_of_not_eq_false hc))
  exact ⟨hc, Option.some.inj (hs.symm.trans (h.isOpen hc))⟩

/-- Nothing is done to a listener that is closed. -/
theorem Inv.run_closed (h : s.Inv sock) (hs : s.socket = none) (q : PostQueue ListenTask) :
    Inv sock { s with queue := q } := by
  have hc := h.closedByPause_iff.2 hs
  have hne {P : Prop} (e : s.closedByPause = false) : P := by cases hc.symm.trans e
  have hpause : .pause ∈ s.calls := h.pause.2 (.inr hc)
  exact ⟨h.mode, h.unarmed, iff_of_true hpause (.inr hc), h.closed, h.isOpen, hne, hne⟩

/-- `accept_loop` registers an open listener that is not registered, and fails otherwise. -/
theorem Inv.run_acceptLoop (h : s.Inv sock) {q : PostQueue ListenTask}
    (hq : s.queue.pending = .acceptLoop :: q.pending) :
    (run { s with queue := q } .acceptLoop).Inv sock := by
  have hp : .pause ∈ s.calls ↔ .stop ∈ q.pending ∨ s.closedByPause = true := by
    simpa [hq] using h.pause
  simp only [run]
  split
  · rename_i sk hs
    obtain ⟨hc, rfl⟩ := h.socket_some hs
    have hl : Listening { s with
        queue := q
        disp := s.disp.add sk.fd .readable () (s.disp.interest.lookup sk.fd).isNone } sk := by
      refine ⟨hs, ?_⟩
      rcases h.unregistered hc with hn | ⟨-, hi, hcb⟩
      · rw [hn]
        exact ⟨Epoll.lookup_add .., AList.lookup_insert _⟩
      · rw [hi]
        exact ⟨hi, hcb⟩
    exact ⟨h.mode, h.unarmed, hp, h.closed, h.isOpen, fun _ _ => .inr hl, fun _ => .inr hl⟩
  · rename_i hs
    exact h.run_closed hs q

/-- `stop` closes an open listener. -/
theorem Inv.run_stop (h : s.Inv sock) {q : PostQueue ListenTask}
    (hq : s.queue.pending = .stop :: q.pending) : (run { s with queue := q } .stop).Inv sock := by
  simp only [run]
  split
  · have hpause : .pause ∈ s.calls := h.pause.2 (.inl (by simp [hq]))
    exact ⟨h.mode, h.unarmed, iff_of_true hpause (.inr rfl), fun _ => rfl, nofun, nofun, nofun⟩
  · rename_i hs
    exact h.run_closed hs q

theorem step_inv (h : s.Inv sock) (he : s.step a = some s') : s'.Inv sock := by
  cases a with
  | arm => cases he; exact h.armListen
  | call c =>
    cases c with
    | pause => cases he; exact h.doPause
    | resume => cases he; exact h.doResume
  | swap =>
    obtain ⟨q, hq, rfl⟩ := Option.map_eq_some_iff.1 he
    exact h.requeue (PostQueue.pending_swap hq)
  | runTask =>
    obtain ⟨⟨t, q⟩, hq, rfl⟩ := Option.map_eq_some_iff.1 he
    cases t with
    | acceptLoop => exact h.run_acceptLoop (PostQueue.pending_next hq)
    | stop => exact h.run_stop (PostQueue.pending_next hq)
  | enterPoll =>
    obtain ⟨q, hq, rfl⟩ := Option.map_eq_some_iff.1 he
    exact h.requeue (PostQueue.pending_enterPoll hq)

theorem reach_inv (h : (machine sock).Reach s) : s.Inv sock :=
  h.inv (I := Inv sock) (fun s (hs : s = start sock) => hs ▸ start_inv sock)
    fun _ _ _ _ hi _ he => step_inv hi he

/-- **Pausing and resuming a listener.** Once the stream is armed and all posted tasks have
run: the listener listens where it did if the last call was `resume`, and no `pause` has closed
it, exactly if `pause` was not called at all. -/
theorem listener_resumed_iff (h : (machine sock).Reach s) (ha : s.armed = true)
    (hq : s.queue.pending = []) :
    ((s.calls.getLast? = some .resume → s.Listening sock) ∧ s.closedByPause = false) ↔
      .pause ∉ s.calls := by
  have hi := reach_inv h
  have hp : .pause ∈ s.calls ↔ s.closedByPause = true := by simpa [hq] using hi.pause
  rw [hp, Bool.not_eq_true]
  refine ⟨And.right, fun hc => ⟨fun _ => ?_, hc⟩⟩
  exact (hi.registered hc ha).resolve_left (by simp [hq])

/-- `resume` alone. -/
theorem listener_resumed_twice :
    ∃ s, (machine (⟨3, 8080⟩ : ListenSocket Nat)).Reach s ∧
      (s.armed = true ∧ s.queue.pending = [] ∧ s.calls = [.resume, .resume]) ∧
      s.Listening ⟨3, 8080⟩ := by
  obtain ⟨s, h, hp⟩ := Machine.Reach.of_run_init (M := machine (⟨3, 8080⟩ : ListenSocket Nat))
    (fun s => decide (s.armed = true ∧ s.queue.pending = [] ∧ s.calls = [.resume, .resume]))
    [.arm, .call .resume, .swap, .runTask, .call .resume, .runTask, .enterPoll, .swap, .runTask]
    rfl (by decide)
  have hs := of_decide_eq_true hp
  have hl := (listener_resumed_iff h hs.1 hs.2.1).2 (by rw [hs.2.2]; decide)
  exact ⟨s, h, hs, hl.1 (by rw [hs.2.2]; rfl)⟩

/-- `pause`, then `resume`: the listener is closed and not registered. -/
theorem listener_not_resumed :
    ∃ s, (machine (⟨3, 8080⟩ : ListenSocket Nat)).Reach s ∧ s.armed = true ∧
      s.queue.pending = [] ∧ s.calls = [.pause, .resume] ∧ s.closedByPause = true ∧
      s.socket.isNone = true ∧ (s.disp.interest.lookup 3).isNone = true := by
  obtain ⟨s, h, hp⟩ := Machine.Reach.of_run_init (M := machine (⟨3, 8080⟩ : ListenSocket Nat))
    (fun s => decide (s.armed = true ∧ s.queue.pending = [] ∧ s.calls = [.pause, .resume] ∧
      s.closedByPause = true ∧ s.socket.isNone = true ∧
      (s.disp.interest.lookup 3).isNone = true))
    [.arm, .swap, .runTask, .enterPoll, .call .pause, .swap, .runTask, .enterPoll, .call .resume,
      .swap, .runTask]
    rfl (by decide)
  exact ⟨s, h, of_decide_eq_true hp⟩

end ListenStream

end Socketpp
