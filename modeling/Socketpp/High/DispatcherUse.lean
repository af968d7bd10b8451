import Socketpp.Lib.Machine
import Socketpp.Event.Loop
import Socketpp.Platform.Error

/-!
# Who calls the dispatcher

`dispatcher.hpp` wants every method but `wake` called from the loop thread alone.
A stream or a dgram (`src/high/`) has one loop, and its functions are called from
any thread: the user's, the pool's, the loop's. They leave the dispatcher to tasks
they post, which the loop thread runs; what is left when the loop thread has been
joined is done by the thread that destroys the object.

Two functions call it directly. `timer_handle::cancel`, also from the destructor
and from assignment (`include/socketpp/event/timer.hpp`), calls `cancel_timer`; the
handles that `defer` and `repeat` return belong to the caller. `do_relinquish` of a
claimed peer (`src/high/dgram_peer_impl.hpp`), also from the destructor and from
assignment of the peer, calls `remove` if the peer has a socket of its own.

`log` has the calls with the thread that made each. `dispatcher_owned`: they are all
the loop thread's, or made after it was joined, in runs in which the two functions
are called like that (`Confined`). The peers of a dgram are kept as flags here;
`PeerClaims.reach_shows` has them for the peers with their table and sockets.
-/

namespace Socketpp

/-- The methods of `dispatcher` other than `poll` and `wake`. -/
inductive DispatcherCall where
  | add
  | modify
  | remove
  | scheduleTimer
  | cancelTimer
  deriving DecidableEq, Repr

inductive Thread where
  /-- the thread that runs the loop -/
  | loop
  /-- threads of the user and of the pool -/
  | other (k : Nat)
  deriving DecidableEq, Repr

/-- The state of the loop thread. -/
inductive LoopThread where
  | running
  | exited
  | joined
  deriving DecidableEq, Repr

/-- A stream in one of its two modes, or a dgram. -/
inductive HighKind where
  | listen
  | connect
  | dgram
  deriving DecidableEq, Repr

/-- What the functions below read of a connection. -/
structure ConnFlags where
  closed : Bool
  writeRegistered : Bool
  deriving DecidableEq, Repr

/-- What they read of a claimed peer: `open_`, and whether it has a socket of its own. -/
structure PeerFlags where
  isOpen : Bool
  socketOpen : Bool
  deriving DecidableEq, Repr

/-- What is posted to the loop. -/
inductive HighTask where
  /-- `listener.accept_loop(..)`, of `arm_listen` and of `do_resume` -/
  | acceptLoop
  /-- `listener.stop()` -/
  | stopListener
  /-- `Connector::connect_async(..)` -/
  | connectAsync
  /-- `loop.defer(..)` or `loop.repeat(..)`, of `do_defer` and `do_repeat` -/
  | schedule
  /-- `sq->submit(cb)` -/
  | userPost
  | startReading (c : Nat)
  | registerWritable (c : Nat)
  | initiateClose (c : Nat)
  /-- of `pause_from_user` and `resume_from_user` -/
  | modifyConn (c : Nat)
  | dgramArm
  | dgramPause
  | dgramResume
  /-- `execute_claim` -/
  | claim
  | peerArm (p : Nat)
  /-- of the dgram's `do_destroy` -/
  | relinquishAll
  | stopLoop
  deriving DecidableEq, Repr

structure HighLevel where
  os : Os
  kind : HighKind
  armed : Bool
  /-- a dgram's `paused` -/
  paused : Bool
  /-- `connect_async` has not called back yet -/
  connecting : Bool
  conns : List ConnFlags
  peers : List PeerFlags
  /-- the handles that were returned: whether their `cancel_fn_` is set -/
  handles : List Bool
  queue : PostQueue HighTask
  stopRequested : Bool
  thread : LoopThread

/-- The functions that are called from outside. -/
inductive Api where
  /-- `arm_listen`, `arm_connect`, a dgram's `arm` -/
  | arm
  /-- `do_pause` of a stream or a dgram -/
  | pause
  | resume
  /-- `do_defer`, `do_repeat` of a stream, a dgram or a peer -/
  | defer
  /-- `do_post` -/
  | post
  | startReading (c : Nat)
  /-- `enqueue_send`, and whether the queue takes the data -/
  | send (c : Nat) (accepted : Bool)
  /-- `close_from_user` -/
  | close (c : Nat)
  | pauseConn (c : Nat)
  | resumeConn (c : Nat)
  /-- `do_claim`; `ok` is whether `execute_claim` succeeds, if it runs here -/
  | claim (ok : Bool)
  /-- `arm` of a peer, the end of `do_claim` -/
  | armPeer (p : Nat)
  /-- a peer's `do_relinquish` -/
  | relinquish (p : Nat)
  /-- `timer_handle::cancel` -/
  | cancel (h : Nat)
  /-- `timer_handle::release` -/
  | release (h : Nat)
  /-- `do_destroy`, up to `join` -/
  | destroy
  | join
  /-- `do_destroy`, after `join` -/
  | finish

/-- What `poll` calls. -/
inductive HighEvent where
  /-- the accept callback has a socket -/
  | accepted
  /-- the accept callback is out of descriptors -/
  | fdLimitReached
  /-- the timer of the accept loop -/
  | acceptTimer
  /-- the two callbacks of `connect_async`; `ok` is whether there is no `SO_ERROR` -/
  | connectTimeout
  | connected (ok : Bool)
  /-- `on_io_event` finds the connection closed, or its write queue empty -/
  | connClosed (c : Nat)
  | connDrained (c : Nat)
  /-- datagrams, a timer of the user -/
  | submits

/-- `has_kernel_udp_demux`. -/
def Os.kernelUdpDemux : Os → Bool
  | linux | macos => true
  | windows => false

namespace HighLevel

def start (os : Os) (kind : HighKind) : HighLevel :=
  ⟨os, kind, false, false, false, [], [], [], .start, false, .running⟩

/-- What a step does to the object, and the dispatcher calls it makes. -/
abbrev Effect := HighLevel × List DispatcherCall

def post (s : HighLevel) (t : HighTask) : HighLevel := { s with queue := s.queue.post [t] }

def isClosed (s : HighLevel) (c : Nat) : Bool := s.conns[c]?.all ConnFlags.closed

/-! ## Functions that call the dispatcher -/

def initiateClose (s : HighLevel) (c : Nat) : Effect :=
  match s.conns[c]? with
  | some f =>
    if f.closed then (s, [])
    else ({ s with conns := s.conns.set c { f with closed := true } }, [.remove])
  | none => (s, [])

/-- `initiate_close` of every connection. -/
def initiateCloseAll (s : HighLevel) : Effect :=
  ({ s with conns := s.conns.map fun f => { f with closed := true } },
    (s.conns.filter fun f => !f.closed).map fun _ => .remove)

/-- A peer's `do_relinquish` removes and closes the socket it has. -/
def relinquishes (s : HighLevel) (f : PeerFlags) : Bool :=
  s.os.kernelUdpDemux && f.isOpen && f.socketOpen

def relinquish (s : HighLevel) (p : Nat) : Effect :=
  match s.peers[p]? with
  | some f =>
    ({ s with peers := s.peers.set p ⟨false, f.socketOpen && !s.relinquishes f⟩ },
      if s.relinquishes f then [.remove] else [])
  | none => (s, [])

def relinquishAll (s : HighLevel) : Effect :=
  ({ s with peers := s.peers.map fun f => ⟨false, f.socketOpen && !s.relinquishes f⟩ },
    (s.peers.filter s.relinquishes).map fun _ => .remove)

/-- `execute_claim`, if the address is free and the peer's socket can be made. -/
def executeClaim (s : HighLevel) (ok : Bool) : HighLevel :=
  if ok then { s with peers := s.peers ++ [⟨true, s.os.kernelUdpDemux⟩] } else s

/-- `timer_handle::cancel`. -/
def cancel (s : HighLevel) (h : Nat) : Effect :=
  if s.handles[h]? = some true then ({ s with handles := s.handles.set h false }, [.cancelTimer])
  else (s, [])

/-- A posted task, on the loop thread. `ok` is whether `execute_claim` succeeds, or
`Connector::connect` returns a socket. -/
def runTask (s : HighLevel) (ok : Bool) : HighTask → Effect
  | .acceptLoop | .startReading _ | .dgramArm | .peerArm _ => (s, [.add])
  | .stopListener | .userPost => (s, [])
  | .connectAsync =>
    if ok then ({ s with connecting := true }, [.scheduleTimer, .add]) else (s, [])
  | .schedule => ({ s with handles := s.handles ++ [true] }, [.scheduleTimer])
  | .registerWritable c | .modifyConn c => (s, if s.isClosed c then [] else [.modify])
  | .initiateClose c => s.initiateClose c
  | .dgramPause => (s, if s.os = .windows then [.modify] else [.remove])
  | .dgramResume => (s, if s.os = .windows then [.modify] else [.add])
  | .claim => (s.executeClaim ok, [])
  | .relinquishAll => s.relinquishAll
  | .stopLoop => ({ s with stopRequested := true }, [])

/-- What `poll` calls, on the loop thread. The handle in the state of `connect_async` cancels
its timer at the latest when the last of the two callbacks goes. -/
def onEvent (s : HighLevel) : HighEvent → Effect
  | .accepted => ({ s with conns := s.conns ++ [⟨false, false⟩] }, [])
  | .fdLimitReached => (s, [.modify, .scheduleTimer])
  | .acceptTimer => (s, [.modify])
  | .connectTimeout =>
    if s.connecting then ({ s with connecting := false }, [.remove, .cancelTimer]) else (s, [])
  | .connected ok =>
    if s.connecting then
      ({ s with connecting := false
                conns := if ok then s.conns ++ [⟨false, false⟩] else s.conns },
        [.cancelTimer, .remove])
    else (s, [])
  | .connClosed c => s.initiateClose c
  | .connDrained c =>
    match s.conns[c]? with
    | some f =>
      if f.closed then (s, [])
      else ({ s with conns := s.conns.set c { f with writeRegistered := false } }, [.modify])
    | none => (s, [])
  | .submits => (s, [])

/-! ## Functions called from outside -/

def arm (s : HighLevel) : HighLevel :=
  if s.armed then s
  else { s with armed := true }.post <| match s.kind with
    | .listen => .acceptLoop
    | .connect => .connectAsync
    | .dgram => .dgramArm

def pause (s : HighLevel) : HighLevel :=
  if s.armed = false then s
  else match s.kind with
    | .listen => s.post .stopListener
    | .connect => s
    | .dgram => { s with paused := true }.post .dgramPause

def resume (s : HighLevel) : HighLevel :=
  if s.armed = false then s
  else match s.kind with
    | .listen => s.post .acceptLoop
    | .connect => s
    | .dgram => { s with paused := false }.post .dgramResume

def enqueueSend (s : HighLevel) (c : Nat) (accepted : Bool) : HighLevel :=
  match s.conns[c]? with
  | some f =>
    if f.closed ∨ accepted = false ∨ f.writeRegistered then s
    else { s with conns := s.conns.set c { f with writeRegistered := true } }.post
      (.registerWritable c)
  | none => s

/-- Nothing is posted for a connection that is closed. -/
def postConn (s : HighLevel) (c : Nat) (t : HighTask) : HighLevel :=
  if s.isClosed c then s else s.post t

/-- `do_destroy`, up to `join`. -/
def destroy (s : HighLevel) : HighLevel :=
  let s := if s.kind = .dgram then s.post .relinquishAll else s
  { s.post .stopLoop with stopRequested := true }

/-- `do_destroy`, after `join`, and the loop's end, which drops the callbacks of a pending
`connect_async`. On IOCP a dgram is registered even while it is paused. -/
def finish (s : HighLevel) : Effect :=
  match s.kind with
  | .listen => s.initiateCloseAll
  | .connect =>
    (s.initiateCloseAll.1, s.initiateCloseAll.2 ++ if s.connecting then [.cancelTimer] else [])
  | .dgram => (s, if s.armed ∧ (s.os = .windows ∨ s.paused = false) then [.remove] else [])

/-- A call by thread `t`. `do_claim` runs `execute_claim` at once on the loop thread. -/
def call (s : HighLevel) (t : Thread) : Api → Option Effect
  | .arm => some (s.arm, [])
  | .pause => some (s.pause, [])
  | .resume => some (s.resume, [])
  | .defer => some (s.post .schedule, [])
  | .post => some (s.post .userPost, [])
  | .startReading c => some (s.post (.startReading c), [])
  | .send c accepted => some (s.enqueueSend c accepted, [])
  | .close c => some (s.postConn c (.initiateClose c), [])
  | .pauseConn c | .resumeConn c => some (s.postConn c (.modifyConn c), [])
  | .claim ok => some (if t = .loop then s.executeClaim ok else s.post .claim, [])
  | .armPeer p =>
    some (if s.os.kernelUdpDemux ∧ s.peers[p]?.any PeerFlags.socketOpen then s.post (.peerArm p)
      else s, [])
  | .relinquish p => some (s.relinquish p)
  | .cancel h => some (s.cancel h)
  | .release h => some ({ s with handles := s.handles.set h false }, [])
  | .destroy => some (s.destroy, [])
  | .join => if s.thread = .exited then some ({ s with thread := .joined }, []) else none
  | .finish => if s.thread = .joined then some s.finish else none

inductive Act where
  | call (t : Thread) (f : Api)
  | swap
  | runTask (ok : Bool)
  | enterPoll
  | event (e : HighEvent)
  /-- `run` sees that it is to stop -/
  | exit

/-- The thread that takes the step. -/
def Act.thread : Act → Thread
  | call t _ => t
  | swap | runTask _ | enterPoll | event _ | exit => .loop

def act (s : HighLevel) : Act → Option Effect
  | .call t f => s.call t f
  | .swap => s.queue.swap.map fun q => ({ s with queue := q }, [])
  | .runTask ok => s.queue.next.map fun r => { s with queue := r.2 }.runTask ok r.1
  | .enterPoll => s.queue.enterPoll.map fun q => ({ s with queue := q }, [])
  | .event e => if s.queue.polling then some (s.onEvent e) else none
  | .exit =>
    if s.queue.polling ∧ s.stopRequested then some ({ s with thread := .exited }, []) else none

end HighLevel

/-- A call of the dispatcher: who made it, and whether the loop thread had been joined. -/
structure DispatcherUse where
  thread : Thread
  joined : Bool
  call : DispatcherCall
  deriving DecidableEq, Repr

structure DispatcherLog where
  high : HighLevel
  log : List DispatcherUse

namespace DispatcherLog

def start (os : Os) (kind : HighKind) : DispatcherLog := ⟨.start os kind, []⟩

def joined (s : DispatcherLog) : Bool := s.high.thread = .joined

/-- The loop thread takes its steps while it runs; the others whenever they like. -/
def step (s : DispatcherLog) (a : HighLevel.Act) : Option DispatcherLog :=
  if a.thread = .loop ∧ s.high.thread ≠ .running then none
  else (s.high.act a).map fun e => ⟨e.1, s.log ++ e.2.map fun c => ⟨a.thread, s.joined, c⟩⟩

def machine (os : Os) (kind : HighKind) : Machine DispatcherLog HighLevel.Act where
  Init s := s = start os kind
  step := step

/-- A handle whose timer may be there is cancelled, and a peer with a socket of its own
relinquished, by the loop thread or after it has been joined. -/
def Confined (s : DispatcherLog) : HighLevel.Act → Prop
  | .call t (.cancel h) => s.high.handles[h]? = some true → t = .loop ∨ s.joined = true
  | .call t (.relinquish p) =>
    s.high.peers[p]?.any s.high.relinquishes = true → t = .loop ∨ s.joined = true
  | _ => True

instance (s : DispatcherLog) : (a : HighLevel.Act) → Decidable (s.Confined a)
  | .call t (.cancel h) =>
    inferInstanceAs (Decidable (s.high.handles[h]? = some true → t = .loop ∨ s.joined = true))
  | .call t (.relinquish p) => inferInstanceAs (Decidable
      (s.high.peers[p]?.any s.high.relinquishes = true → t = .loop ∨ s.joined = true))
  | .call _ .arm | .call _ .pause | .call _ .resume | .call _ .defer | .call _ .post
  | .call _ (.startReading _) | .call _ (.send _ _) | .call _ (.close _) | .call _ (.pauseConn _)
  | .call _ (.resumeConn _) | .call _ (.claim _) | .call _ (.armPeer _) | .call _ (.release _)
  | .call _ .destroy | .call _ .join | .call _ .finish | .swap | .runTask _ | .enterPoll
  | .event _ | .exit => isTrue trivial

/-- The calls a step makes are the loop thread's, or come after the join. -/
theorem act_calls {s : DispatcherLog} {a : HighLevel.Act} {e : HighLevel.Effect}
    (hok : s.Confined a) (he : s.high.act a = some e) :
    e.2 = [] ∨ a.thread = .loop ∨ s.joined = true := by
  cases a with
  | swap | runTask | enterPoll | event | exit => exact .inr (.inl rfl)
  | call t f =>
    replace he : s.high.call t f = some e := he
    cases f with
    | relinquish p =>
      cases he
      unfold HighLevel.relinquish
      split
      · rename_i f hp
        by_cases hr : s.high.relinquishes f = true
        · exact .inr (hok (by rw [hp]; exact hr))
        · exact .inl (if_neg hr)
      · exact .inl rfl
    | cancel h =>
      cases he
      unfold HighLevel.cancel
      split
      · rename_i hh
        exact .inr (hok hh)
      · exact .inl rfl
    | join =>
      simp only [HighLevel.call] at he
      split at he
      · cases he; exact .inl rfl
      · cases he
    | finish =>
      simp only [HighLevel.call] at he
      split at he
      · rename_i hj
        exact .inr (.inr (decide_eq_true hj))
      · cases he
    | arm | pause | resume | defer | post | startReading | send | close | pauseConn | resumeConn
    | claim | armPeer | release | destroy => cases he; exact .inl rfl

def Owned (s : DispatcherLog) : Prop := ∀ e ∈ s.log, e.thread = .loop ∨ e.joined = true

theorem step_owned {s s' : DispatcherLog} {a : HighLevel.Act} (h : s.Owned) (hok : s.Confined a)
    (he : s.step a = some s') : s'.Owned := by
  unfold step at he
  split at he
  · cases he
  · obtain ⟨e, ha, rfl⟩ := Option.map_eq_some_iff.1 he
    intro u hu
    rcases List.mem_append.1 hu with hu | hu
    · exact h u hu
    · obtain ⟨c, hc, rfl⟩ := List.mem_map.1 hu
      rcases act_calls hok ha with hnil | howned
      · rw [hnil] at hc
        cases hc
      · exact howned

/-- **Dispatcher ownership.** In every run in which handles are cancelled and peers with a
socket relinquished by the loop thread or after it has been joined, the same holds of every
dispatcher call. -/
theorem dispatcher_owned {os : Os} {kind : HighKind} {s : DispatcherLog}
    (h : (machine os kind).ReachOk Confined s) (u : DispatcherUse) (hu : u ∈ s.log) :
    u.thread = .loop ∨ u.joined = true := by
  have ho : s.Owned := h.inv (I := Owned) (fun s (hs : s = start os kind) => hs ▸ nofun)
    fun _ _ _ _ hi hok he => step_owned hi hok he
  exact ho u hu

/-- A dgram is armed, has a timer and a claimed peer, and is destroyed; the handle is cancelled
afterwards. -/
theorem dispatcher_owned_destroyed :
    ∃ s, (machine .linux .dgram).ReachOk Confined s ∧
      s.log.map DispatcherUse.call =
        [.add, .scheduleTimer, .add, .remove, .remove, .cancelTimer] ∧
      ∀ u ∈ s.log, u.thread = .loop ∨ u.joined = true := by
  obtain ⟨s, h, hp⟩ := Machine.ReachOk.of_runOk_init (M := machine .linux .dgram) Confined
    (fun s => decide (s.log.map DispatcherUse.call =
      [.add, .scheduleTimer, .add, .remove, .remove, .cancelTimer]))
    [.call (.other 1) .arm, .call (.other 1) .defer, .call (.other 2) (.claim true), .swap,
      .runTask true, .runTask true, .runTask true, .call (.other 2) (.armPeer 0), .enterPoll, .swap,
      .runTask true, .enterPoll, .call (.other 1) .destroy, .swap, .runTask true, .runTask true,
      .enterPoll, .exit, .call (.other 1) .join, .call (.other 1) .finish,
      .call (.other 1) (.cancel 0)]
    rfl (by decide)
  exact ⟨s, h, of_decide_eq_true hp, fun u hu => dispatcher_owned h u hu⟩

/-- While the loop runs, a user thread cancels the handle `defer` gave it, or relinquishes the
peer it has claimed: `cancel_timer` and `remove` are called on that thread. -/
theorem dispatcher_not_owned :
    (∃ s, (machine .linux .listen).Reach s ∧
      s.log = [⟨.loop, false, .scheduleTimer⟩, ⟨.other 1, false, .cancelTimer⟩]) ∧
    ∃ s, (machine .linux .dgram).Reach s ∧
      s.log = [⟨.loop, false, .add⟩, ⟨.other 1, false, .remove⟩] := by
  constructor
  · obtain ⟨s, h, hp⟩ := Machine.Reach.of_run_init (M := machine .linux .listen)
      (fun s => decide (s.log =
        [⟨.loop, false, .scheduleTimer⟩, ⟨.other 1, false, .cancelTimer⟩]))
      [.call (.other 1) .defer, .swap, .runTask true, .call (.other 1) (.cancel 0)] rfl (by decide)
    exact ⟨s, h, of_decide_eq_true hp⟩
  · obtain ⟨s, h, hp⟩ := Machine.Reach.of_run_init (M := machine .linux .dgram)
      (fun s => decide (s.log = [⟨.loop, false, .add⟩, ⟨.other 1, false, .remove⟩]))
      [.call (.other 1) (.claim true), .swap, .runTask true, .call (.other 1) (.armPeer 0),
        .enterPoll, .swap, .runTask true, .call (.other 1) (.relinquish 0)]
      rfl (by decide)
    exact ⟨s, h, of_decide_eq_true hp⟩

end DispatcherLog

end Socketpp
