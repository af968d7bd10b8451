import Socketpp.Event.Loop

/-!
# The connection engine

`tcp_conn_impl` and `stream_conn_impl` (`src/high/connection_engine.hpp`,
`stream_connection_impl.hpp`), one connection. A step is one atomic action of
one thread: a load or store of an atomic flag, a critical section of
`write_mutex_`, a socket call, or a task of the loop thread.

* User threads are in `send`, `pause`, `resume` and `close`, any number at a
  time; `calls` holds where each stands. All four begin by reading `closed_`.
* The loop thread runs posted tasks (`runTask`), handles an event
  (`onIoEvent`) or is inside `drain_write_queue` (`drain`), which holds a
  chunk outside the queue between its critical sections.

A step gives back what it posts to the event loop and what it submits to the
connection's serial queue (`Out`); the order of both is decided elsewhere.
`interest` is the mask the dispatcher holds for the socket (`none`: not
registered); `modify` on a descriptor that is not registered has no effect.
`H` is the type of close handlers: the engine only asks whether one is set.
-/

namespace Socketpp

/-- A callback submitted to the connection's serial queue. `onClose` reads
`on_close_` when it runs. -/
inductive Callback where
  | onData (bytes : Bytes)
  | onClose
  deriving DecidableEq, Repr

/-- A task posted to the event loop. `k` numbers the `pause` call it is from. -/
inductive ConnTask where
  | startReading
  | registerWritable
  | pause (k : Nat)
  | resume
  | initiateClose
  deriving DecidableEq, Repr

/-- A call of the user interface. -/
inductive UserOp where
  | send (data : Bytes)
  | pause
  | resume
  | close
  deriving DecidableEq, Repr

/-- Where a call stands that found the connection open. -/
inductive UserPc where
  /-- `enqueue_send`, before `write_mutex_` -/
  | sendLock (data : Bytes)
  /-- `pause_from_user`, before the store to `paused_` -/
  | pauseStore (k : Nat)
  | pausePost (k : Nat)
  | resumeStore
  | resumePost
  | closePost
  deriving DecidableEq, Repr

/-- Where the loop thread is in `drain_write_queue`. -/
inductive DrainPc where
  | idle
  /-- at the top of the outer loop -/
  | top
  /-- in the inner loop, `sent` bytes of `chunk` already sent -/
  | sending (chunk : Bytes) (sent : Nat)
  deriving DecidableEq, Repr

namespace DrainPc

/-- The part of the chunk in hand that is not sent yet. -/
def left : DrainPc → Bytes
  | .sending chunk sent => chunk.drop sent
  | _ => []

/-- The memory the chunk in hand takes. -/
def held : DrainPc → Nat
  | .sending chunk _ => chunk.length
  | _ => 0

/-- The inner loop goes on while bytes are left. -/
def sendLoop (chunk : Bytes) (sent : Nat) : DrainPc :=
  if sent < chunk.length then .sending chunk sent else .top

@[simp] theorem left_idle : left .idle = [] := rfl
@[simp] theorem left_top : left .top = [] := rfl
@[simp] theorem left_sending (chunk : Bytes) (sent : Nat) :
    left (.sending chunk sent) = chunk.drop sent := rfl
@[simp] theorem held_idle : held .idle = 0 := rfl
@[simp] theorem held_top : held .top = 0 := rfl
@[simp] theorem held_sending (chunk : Bytes) (sent : Nat) :
    held (.sending chunk sent) = chunk.length := rfl

@[simp] theorem left_sendLoop (chunk : Bytes) (sent : Nat) :
    left (sendLoop chunk sent) = chunk.drop sent := by
  unfold sendLoop
  split
  · rfl
  · rename_i hs
    exact (List.drop_eq_nil_of_le (Nat.le_of_not_lt hs)).symm

theorem held_sendLoop_le (chunk : Bytes) (sent : Nat) :
    held (sendLoop chunk sent) ≤ chunk.length := by
  unfold sendLoop
  split <;> simp

end DrainPc

/-- The result of `socket_.recv`. -/
inductive RecvResult where
  | data (bytes : Bytes)
  | wouldBlock
  | error
  deriving DecidableEq, Repr

/-- The result of `socket_.send`. -/
inductive SendResult where
  | sent (k : Nat)
  | wouldBlock
  | error
  deriving DecidableEq, Repr

/-- The order of `pause` and `resume` calls: how many `pause` calls began,
whether a `resume` began after the last of them, whether its task has run. -/
structure FlowLog where
  pauses : Nat
  resumed : Bool
  ran : Bool
  deriving DecidableEq, Repr

structure Conn (H : Type) where
  writeQueue : List Bytes
  writeQueueBytes : Nat
  maxWriteQueueBytes : Nat
  writeRegistered : Bool
  readBufSize : Nat
  onData : Bool
  onClose : Option H
  closed : Bool
  paused : Bool
  interest : Option IoEvent
  drain : DrainPc
  calls : List UserPc
  /-- `start_reading` was called -/
  reading : Bool
  /-- the bytes the socket took, in order -/
  wire : Bytes
  /-- the sends that returned true, in the order they held the lock -/
  accepted : List Bytes
  /-- what `recv` returned, in order -/
  received : List Bytes
  /-- `send` failed for good -/
  failed : Bool
  flow : FlowLog

/-- What a step posts to the loop and submits to the serial queue. -/
structure Out where
  posts : List ConnTask
  submits : List Callback
  deriving DecidableEq, Repr

namespace Out

def quiet : Out := ⟨[], []⟩
def post (t : ConnTask) : Out := ⟨[t], []⟩
def submit (cbs : List Callback) : Out := ⟨[], cbs⟩

end Out

namespace Conn

variable {H : Type}

/-- A connection just constructed. -/
def start (maxWriteBytes readBufSize : Nat) : Conn H where
  writeQueue := []
  writeQueueBytes := 0
  maxWriteQueueBytes := maxWriteBytes
  writeRegistered := false
  readBufSize := readBufSize
  onData := false
  onClose := none
  closed := false
  paused := false
  interest := none
  drain := .idle
  calls := []
  reading := false
  wire := []
  accepted := []
  received := []
  failed := false
  flow := ⟨0, false, false⟩

/-- The part of the chunk in `drain_write_queue`'s hands that is not sent yet. -/
def inHand (c : Conn H) : Bytes := c.drain.left

/-- The bytes of memory the queued chunks and the chunk in hand take. -/
def heldBytes (c : Conn H) : Nat := c.writeQueue.flatten.length + c.drain.held

/-- `dispatcher::modify` on the connection's socket. -/
def modify (c : Conn H) (mask : IoEvent) : Conn H :=
  { c with interest := c.interest.map fun _ => mask }

/-- `dispatcher::add`: fails on a closed socket, on one that is registered, or
for want of resources (`ok`). -/
def add (c : Conn H) (mask : IoEvent) (ok : Bool) : Conn H :=
  if c.closed || c.interest.isSome || !ok then c else { c with interest := some mask }

/-- `initiate_close`: `remove`, `socket_.close()` and the submission of
`on_close_`, at most once. -/
def initiateClose (c : Conn H) : Conn H × List Callback :=
  if c.closed then (c, [])
  else ({ c with closed := true, interest := none },
    if c.onClose.isSome then [.onClose] else [])

/-- The critical section of `enqueue_send`. The new chunk lives in memory
besides the chunks held already, so past `2 ^ 64` bytes the allocation throws
and nothing changes. -/
def enqueueSend (c : Conn H) (data : Bytes) : Conn H × Bool × List ConnTask :=
  if c.maxWriteQueueBytes < sizeAdd c.writeQueueBytes data.length then (c, false, [])
  else if 2 ^ 64 ≤ c.heldBytes + data.length then (c, false, [])
  else
    ({ c with writeQueue := c.writeQueue ++ [data]
              writeQueueBytes := sizeAdd c.writeQueueBytes data.length
              writeRegistered := true },
      true, if c.writeRegistered then [] else [.registerWritable])

/-- A call begins: it reads `closed_` (and `send` its length). -/
def call (c : Conn H) : UserOp → Conn H
  | .send data =>
    if c.closed || data.isEmpty then c else { c with calls := c.calls ++ [.sendLock data] }
  | .pause =>
    let k := c.flow.pauses + 1
    { c with flow := ⟨k, false, false⟩
             calls := if c.closed then c.calls else c.calls ++ [.pauseStore k] }
  | .resume =>
    { c with flow := { c.flow with resumed := true }
             calls := if c.closed then c.calls else c.calls ++ [.resumeStore] }
  | .close => if c.closed then c else { c with calls := c.calls ++ [.closePost] }

/-- Call `i` takes its next action. -/
def advance (c : Conn H) (i : Nat) : UserPc → Conn H × Out
  | .sendLock data =>
    let r := { c with calls := c.calls.eraseIdx i }.enqueueSend data
    ({ r.1 with accepted := if r.2.1 then r.1.accepted ++ [data] else r.1.accepted },
      ⟨r.2.2, []⟩)
  | .pauseStore k => ({ c with paused := true, calls := c.calls.set i (.pausePost k) }, .quiet)
  | .pausePost k => ({ c with calls := c.calls.eraseIdx i }, .post (.pause k))
  | .resumeStore => ({ c with paused := false, calls := c.calls.set i .resumePost }, .quiet)
  | .resumePost => ({ c with calls := c.calls.eraseIdx i }, .post .resume)
  | .closePost => ({ c with calls := c.calls.eraseIdx i }, .post .initiateClose)

/-- The bodies of the posted tasks; `addOk` is the OS's answer to `add`. -/
def runTask (c : Conn H) (addOk : Bool) : ConnTask → Conn H × List Callback
  | .startReading =>
    (c.add (if c.writeQueue.isEmpty then IoEvent.readable
      else IoEvent.readable ||| IoEvent.writable) addOk, [])
  | .registerWritable =>
    (if c.closed then c else c.modify (IoEvent.readable ||| IoEvent.writable), [])
  | .pause k =>
    let c := { c with flow := { c.flow with ran := c.flow.ran || k == c.flow.pauses } }
    (if c.closed then c
      else c.modify (if c.writeRegistered then IoEvent.writable else IoEvent.none), [])
  | .resume =>
    (if c.closed then c
      else c.modify (if c.writeRegistered then IoEvent.readable ||| IoEvent.writable
        else IoEvent.readable), [])
  | .initiateClose => c.initiateClose

/-- Into `drain_write_queue` when the event says so. -/
def startDrain (c : Conn H) (ev : IoEvent) : Conn H :=
  if IoEvent.hasEvent ev .writable then { c with drain := .top } else c

/-- `on_io_event`, up to the first critical section of `drain_write_queue`. -/
def onIoEvent (c : Conn H) (ev : IoEvent) (r : RecvResult) : Conn H × List Callback :=
  if c.closed then (c, [])
  else if IoEvent.hasEvent ev .error || IoEvent.hasEvent ev .hangup then c.initiateClose
  else if IoEvent.hasEvent ev .readable then
    match r with
    | .wouldBlock => (c, [])
    | .error => c.initiateClose
    | .data bytes =>
      if bytes.isEmpty then c.initiateClose
      else ({ c with received := c.received ++ [bytes] }.startDrain ev,
        if c.onData then [.onData bytes] else [])
  else (c.startDrain ev, [])

/-- The critical section at the top of `drain_write_queue`'s outer loop. -/
def drainLock (c : Conn H) : Conn H :=
  match c.writeQueue with
  | [] => { c with writeRegistered := false, drain := .idle }.modify IoEvent.readable
  | chunk :: rest =>
    { c with writeQueue := rest
             writeQueueBytes := sizeSub c.writeQueueBytes chunk.length
             drain := .sendLoop chunk 0 }

/-- One `socket_.send` of the inner loop and what follows it: the rest goes
back to the front of the queue, or the connection is closed. -/
def drainSend (c : Conn H) (chunk : Bytes) (sent : Nat) : SendResult → Conn H × List Callback
  | .sent k =>
    ({ c with wire := c.wire ++ (chunk.drop sent).take k, drain := .sendLoop chunk (sent + k) }, [])
  | .wouldBlock =>
    ({ c with writeQueue := chunk.drop sent :: c.writeQueue
              writeQueueBytes := sizeAdd c.writeQueueBytes (chunk.drop sent).length
              drain := .idle }, [])
  | .error => { c with drain := .idle, failed := true }.initiateClose

inductive Act (H : Type) where
  | setOnData
  | setOnClose (h : Option H)
  | call (op : UserOp)
  | advance (i : Nat)
  | startReading
  | task (t : ConnTask) (addOk : Bool)
  | event (ev : IoEvent) (r : RecvResult)
  | drainLock
  | drainSend (r : SendResult)
  /-- `initiate_close` called by the thread that tears the stream down -/
  | teardownClose

/-- The dispatcher reports readable and writable only where asked to. epoll and kqueue do so;
IOCP calls back for an operation that was armed before, whatever the interest is by then. -/
def Reports (mask ev : IoEvent) : Prop :=
  (IoEvent.hasEvent ev .readable = true → IoEvent.hasEvent mask .readable = true) ∧
    (IoEvent.hasEvent ev .writable = true → IoEvent.hasEvent mask .writable = true)

instance (mask ev : IoEvent) : Decidable (Reports mask ev) := inferInstanceAs (Decidable (_ ∧ _))

/-- `recv` fills at most the read buffer. -/
def RecvResult.fits (size : Nat) : RecvResult → Bool
  | .data bytes => decide (bytes.length ≤ size)
  | _ => true

/-- `send` takes at most what it is given. -/
def SendResult.fits (left : Nat) : SendResult → Bool
  | .sent k => decide (k ≤ left)
  | _ => true

/-- One step. Handlers are set before `start_reading`, which is called once;
the loop thread takes a task or an event only outside `drain_write_queue`. A
registered socket may be called back with any events. -/
def step (c : Conn H) : Act H → Option (Conn H × Out)
  | .setOnData => if c.reading then none else some ({ c with onData := true }, .quiet)
  | .setOnClose h => if c.reading then none else some ({ c with onClose := h }, .quiet)
  | .call op => some (c.call op, .quiet)
  | .advance i => (c.calls[i]?).map (c.advance i)
  | .startReading =>
    if c.reading then none else some ({ c with reading := true }, .post .startReading)
  | .task t addOk =>
    if c.drain = .idle then
      some ((c.runTask addOk t).1, .submit (c.runTask addOk t).2)
    else none
  | .event ev r =>
    if c.interest.isSome = true ∧ c.drain = .idle ∧ RecvResult.fits c.readBufSize r = true then
      some ((c.onIoEvent ev r).1, .submit (c.onIoEvent ev r).2)
    else none
  | .drainLock => if c.drain = .top then some (c.drainLock, .quiet) else none
  | .drainSend r =>
    match c.drain with
    | .sending chunk sent =>
      if SendResult.fits (chunk.length - sent) r = true then
        some ((c.drainSend chunk sent r).1, .submit (c.drainSend chunk sent r).2)
      else none
    | _ => none
  | .teardownClose => some (c.initiateClose.1, .submit c.initiateClose.2)

/-- What an event can do to a connection: nothing, close it, or lead into
`drain_write_queue`, perhaps after bytes were received. -/
theorem onIoEvent_elim {P : Conn H → Prop} {c : Conn H} {ev : IoEvent} (r : RecvResult)
    (hsame : P c) (hclose : P c.initiateClose.1) (hdrain : P (c.startDrain ev))
    (hdata : ∀ bytes, P ({ c with received := c.received ++ [bytes] }.startDrain ev)) :
    P (c.onIoEvent ev r).1 := by
  unfold onIoEvent
  split
  · exact hsame
  · split
    · exact hclose
    · split
      · cases r with
        | wouldBlock => exact hsame
        | error => exact hclose
        | data bytes =>
          simp only
          split
          · exact hclose
          · exact hdata bytes
      · exact hdrain

/-- What a step is: one constructor for each action, with its guard. -/
inductive StepView (c : Conn H) : Act H → Conn H → Out → Prop where
  | setOnData (hr : c.reading = false) : StepView c .setOnData { c with onData := true } .quiet
  | setOnClose (h : Option H) (hr : c.reading = false) :
      StepView c (.setOnClose h) { c with onClose := h } .quiet
  | startReading (hr : c.reading = false) :
      StepView c .startReading { c with reading := true } (.post .startReading)
  | call (op : UserOp) : StepView c (.call op) (c.call op) .quiet
  | advance (i : Nat) (pc : UserPc) (hpc : c.calls[i]? = some pc) :
      StepView c (.advance i) (c.advance i pc).1 (c.advance i pc).2
  | task (t : ConnTask) (ok : Bool) (hd : c.drain = .idle) :
      StepView c (.task t ok) (c.runTask ok t).1 (.submit (c.runTask ok t).2)
  | event (ev : IoEvent) (r : RecvResult) (mask : IoEvent) (hm : c.interest = some mask)
      (hd : c.drain = .idle) (hfit : RecvResult.fits c.readBufSize r = true) :
      StepView c (.event ev r) (c.onIoEvent ev r).1 (.submit (c.onIoEvent ev r).2)
  | drainLock (hd : c.drain = .top) : StepView c .drainLock c.drainLock .quiet
  | drainSend (chunk : Bytes) (sent : Nat) (r : SendResult) (hd : c.drain = .sending chunk sent)
      (hfit : SendResult.fits (chunk.length - sent) r = true) :
      StepView c (.drainSend r) (c.drainSend chunk sent r).1
        (.submit (c.drainSend chunk sent r).2)
  | teardownClose : StepView c .teardownClose c.initiateClose.1 (.submit c.initiateClose.2)

/-- **Every step of a connection.** -/
theorem step_view {c c' : Conn H} {a : Act H} {o : Out} (he : c.step a = some (c', o)) :
    StepView c a c' o := by
  cases a with
  | setOnData =>
    simp only [step] at he
    split at he
    · cases he
    · rename_i hr; cases he; exact .setOnData (by simpa using hr)
  | setOnClose h =>
    simp only [step] at he
    split at he
    · cases he
    · rename_i hr; cases he; exact .setOnClose h (by simpa using hr)
  | startReading =>
    simp only [step] at he
    split at he
    · cases he
    · rename_i hr; cases he; exact .startReading (by simpa using hr)
  | call op => cases he; exact .call op
  | advance i =>
    obtain ⟨pc, hpc, he⟩ := Option.map_eq_some_iff.1 he
    have := StepView.advance i pc hpc
    rwa [he] at this
  | task t ok =>
    simp only [step] at he
    split at he
    · rename_i hd; cases he; exact .task t ok hd
    · cases he
  | event ev r =>
    simp only [step] at he
    split at he
    · rename_i hg
      cases he
      obtain ⟨mask, hm⟩ := Option.isSome_iff_exists.1 hg.1
      exact .event ev r mask hm hg.2.1 hg.2.2
    · cases he
  | drainLock =>
    simp only [step] at he
    split at he
    · rename_i hd; cases he; exact .drainLock hd
    · cases he
  | drainSend r =>
    simp only [step] at he
    split at he
    · rename_i chunk sent hd
      split at he
      · rename_i hfit; cases he; exact .drainSend chunk sent r hd hfit
      · cases he
    · cases he
  | teardownClose => cases he; exact .teardownClose

end Conn

end Socketpp
