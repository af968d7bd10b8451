import Socketpp.High.ConnectionSteps
import Socketpp.High.SerialQueue

/-!
# Streams

`stream_impl` (`src/high/stream.cpp`): a listening stream with its connection
table, or a client stream with its one connection, over one event loop and one
thread pool. Three kinds of threads take steps:

* the loop thread accepts (or connects), dispatches events and runs posted
  tasks, one at a time;
* a pool worker runs the lambda that calls `on_connect_cb`, installs the
  wrapper around `on_close_` and calls `start_reading`, or drains a
  connection's serial queue;
* the destroying thread, in `do_destroy`, joins the loop thread, closes every
  connection, drops the owners and shuts the pool down.

Connections are numbered in the order they are made; `impls` has the state of
each (as constructed for the numbers not given out yet) and `fds` the
descriptor it was made with. A connection's number is also the index of its
serial queue. `entered` says which `on_close_` a connection's close callback
is running, or has run: the wrapper posts the erase before it calls the
user's handler.
-/

namespace Socketpp

/-- What `on_close_` of a stream's connection is. -/
inductive CloseHandler where
  /-- the user's own -/
  | user
  /-- the lambda of `arm_listen` or `arm_connect`, around the user's if there is one -/
  | wrapper (user : Bool)
  deriving DecidableEq, Repr

namespace CloseHandler

def isWrapper : CloseHandler → Bool
  | wrapper _ => true
  | user => false

/-- Running it runs the user's handler. -/
def callsUser : CloseHandler → Bool
  | user => true
  | wrapper u => u

end CloseHandler

inductive StreamMode where
  | listen
  | client
  deriving DecidableEq, Repr

/-- `conn_entry`; or `client_conn` and `client_conn_wrapper`. -/
structure ConnEntry where
  impl : Nat
  /-- a `Connection` was made -/
  wrapper : Bool
  deriving DecidableEq, Repr

/-- A task posted to the stream's loop. -/
inductive StreamTask where
  | conn (c : Nat) (t : ConnTask)
  /-- `connections.erase(fd)` and `connection_count` down by one -/
  | erase (fd : Fd)
  deriving DecidableEq, Repr

/-- A task the stream itself submits to the pool. -/
inductive StreamJob where
  | onConnect (c : Nat)
  | onError
  deriving DecidableEq, Repr

/-- Such a task on a worker. -/
inductive StreamExec where
  /-- in `on_connect_cb` -/
  | onConnect (c : Nat)
  /-- `on_close_` is wrapped, `start_reading` comes next -/
  | installed (c : Nat)
  | onError
  deriving DecidableEq, Repr

def StreamJob.begin : StreamJob → StreamExec
  | .onConnect c => .onConnect c
  | .onError => .onError

/-- How far `do_destroy` has come. -/
inductive Teardown where
  | running
  /-- the loop thread is joined -/
  | joined
  /-- the owners of the connections are dropped -/
  | cleared
  /-- the pool is told to stop -/
  | down
  deriving DecidableEq, Repr

structure StreamConfig where
  mode : StreamMode
  maxConn : Nat
  /-- `on_connect_cb` is not empty -/
  connectCb : Bool
  maxWriteBuf : Nat
  readBufSize : Nat

abbrev StreamPool (n : Nat) := SerialPool Nat Callback StreamJob StreamExec n

structure Stream (n : Nat) where
  made : Nat
  fds : Nat → Fd
  impls : Nat → Conn CloseHandler
  connections : AList fun _ : Fd => ConnEntry
  connectionCount : Nat
  client : Option ConnEntry
  connectedFlag : Bool
  posts : PostQueue StreamTask
  pool : StreamPool n
  entered : Nat → Option CloseHandler
  teardown : Teardown

namespace Stream

variable {n : Nat}

def start (cfg : StreamConfig) (n : Nat) : Stream n where
  made := 0
  fds := fun _ => 0
  impls := fun _ => .start cfg.maxWriteBuf cfg.readBufSize
  connections := ∅
  connectionCount := 0
  client := none
  connectedFlag := false
  posts := .start
  pool := .start n 0
  entered := fun _ => none
  teardown := .running

/-- `connections.size()`. -/
def size (s : Stream n) : Nat := s.connections.keys.length

/-- The owner of connection `c`: its entry in the table, or the client's pair. -/
def owner (s : Stream n) (c : Nat) : Option ConnEntry :=
  ((s.connections.lookup (s.fds c)).or s.client).filter fun e => e.impl == c

/-- Connection `c` after a step, its posts posted and its callbacks submitted. -/
def absorb (s : Stream n) (c : Nat) (r : Conn CloseHandler × Out) : Stream n :=
  { s with impls := Function.update s.impls c r.1
           posts := s.posts.post (r.2.posts.map (.conn c))
           pool := r.2.submits.foldl (fun p cb => p.submit c cb) s.pool }

/-- Connection `c` takes a step. -/
def connStep (s : Stream n) (c : Nat) (a : Conn.Act CloseHandler) : Option (Stream n) :=
  ((s.impls c).step a).map (s.absorb c)

/-- A new connection goes to `on_connect_cb` through the pool, or starts
reading at once with `on_close` as its close handler. -/
def hand (cfg : StreamConfig) (s : Stream n) (c : Nat) (onClose : Option CloseHandler) : Stream n :=
  if cfg.connectCb then { s with pool := s.pool.submitApp (.onConnect c) }
  else
    { s with
      impls := Function.update s.impls c { s.impls c with onClose := onClose, reading := true }
      posts := s.posts.post [.conn c .startReading] }

/-- The accept handler of `arm_listen`, for a socket `fd`. -/
def accept (cfg : StreamConfig) (s : Stream n) (fd : Fd) : Stream n :=
  if 0 < cfg.maxConn ∧ cfg.maxConn ≤ s.size then s
  else
    { s with
      made := s.made + 1
      fds := Function.update s.fds s.made fd
      connections := s.connections.insert fd ⟨s.made, cfg.connectCb⟩
      connectionCount := sizeAdd s.connectionCount 1 }.hand cfg s.made (some (.wrapper false))

/-- The connect handler of `arm_connect`, for a socket `fd`. -/
def connected (cfg : StreamConfig) (s : Stream n) (fd : Fd) : Stream n :=
  { s with
    made := s.made + 1
    fds := Function.update s.fds s.made fd
    client := some ⟨s.made, cfg.connectCb⟩
    connectedFlag := true }.hand cfg s.made none

/-- The close callback of `c` calls `on_close_`, which is `h`. -/
def enter (cfg : StreamConfig) (s : Stream n) (c : Nat) (h : CloseHandler) : Stream n :=
  { s with
    entered := Function.update s.entered c (some h)
    posts := if h.isWrapper ∧ cfg.mode = .listen then s.posts.post [.erase (s.fds c)] else s.posts
    connectedFlag := s.connectedFlag && !(h.isWrapper && decide (cfg.mode = .client)) }

/-- A posted task runs; `q` are the posts left, `addOk` the OS's answer to `add`. -/
def runTask (s : Stream n) (q : PostQueue StreamTask) (addOk : Bool) :
    StreamTask → Option (Stream n)
  | .conn c t => { s with posts := q }.connStep c (.task t addOk)
  | .erase fd => some { s with posts := q
                               connections := s.connections.erase fd
                               connectionCount := sizeSub s.connectionCount 1 }

/-- The end of `do_destroy`'s loop over the connections: the owners are dropped.
The fields of the other mode are empty already. -/
def clear (s : Stream n) : Stream n :=
  { s with connections := ∅, connectionCount := 0, client := none, connectedFlag := false
           teardown := .cleared }

/-- The loop thread is not inside a connection's event handler. -/
def LoopFree (s : Stream n) : Prop :=
  s.teardown = .running ∧ ∀ c < s.made, (s.impls c).drain = .idle

instance (s : Stream n) : Decidable s.LoopFree := inferInstanceAs (Decidable (_ ∧ _))

/-- No open connection has descriptor `fd`. -/
def FdFree (s : Stream n) (fd : Fd) : Prop :=
  ∀ c < s.made, (s.impls c).closed = false → s.fds c ≠ fd

instance (s : Stream n) (fd : Fd) : Decidable (s.FdFree fd) :=
  inferInstanceAs (Decidable (∀ c < s.made, _ → _))

/-- A worker is in `on_connect_cb` for connection `c`. -/
def InHandler (s : Stream n) (c : Nat) : Prop :=
  ∃ w, s.pool.pool.workers w = .running (.app (.onConnect c))

instance (s : Stream n) (c : Nat) : Decidable (s.InHandler c) :=
  inferInstanceAs (Decidable (∃ w, s.pool.pool.workers w = .running (.app (.onConnect c))))

/-- Which steps a connection can take by itself: user calls at any time, events
on the loop thread, and the user's `on_data` and `on_close` inside `on_connect`. -/
def Allows (s : Stream n) (c : Nat) : Conn.Act CloseHandler → Prop
  | .call _ | .advance _ => True
  | .event _ _ => s.LoopFree ∧ s.posts.polling = true
  | .drainLock | .drainSend _ => s.teardown = .running ∧ s.posts.polling = true
  | .setOnData => s.InHandler c
  | .setOnClose h => s.InHandler c ∧ (h = none ∨ h = some .user)
  | .startReading | .task _ _ | .teardownClose => False

instance (s : Stream n) (c : Nat) : (a : Conn.Act CloseHandler) → Decidable (s.Allows c a)
  | .call _ | .advance _ => isTrue trivial
  | .event _ _ => inferInstanceAs (Decidable (s.LoopFree ∧ s.posts.polling = true))
  | .drainLock | .drainSend _ =>
    inferInstanceAs (Decidable (s.teardown = .running ∧ s.posts.polling = true))
  | .setOnData => inferInstanceAs (Decidable (s.InHandler c))
  | .setOnClose h => inferInstanceAs (Decidable (s.InHandler c ∧ (h = none ∨ h = some .user)))
  | .startReading | .task _ _ | .teardownClose => isFalse id

inductive Act (n : Nat) where
  | accept (fd : Fd)
  /-- an accept or a connect fails and `on_error_cb` is set -/
  | reportError
  | connected (fd : Fd)
  /-- connection `c` by itself -/
  | conn (c : Nat) (a : Conn.Act CloseHandler)
  | swap
  | runPost (addOk : Bool)
  | enterPoll
  | take (w : Fin n)
  /-- `on_connect_cb` has returned: `on_close_` is wrapped -/
  | install (w : Fin n)
  | startReading (w : Fin n)
  | errorReturn (w : Fin n)
  | drainLock (w : Fin n)
  /-- the close callback calls `on_close_` -/
  | runClose (w : Fin n)
  | fnReturn (w : Fin n)
  | join
  | teardownClose (c : Nat)
  | clear
  | shutdown

/-- The pool takes a step by itself. -/
def poolStep (s : Stream n) (p : Option (StreamPool n)) : Option (Stream n) :=
  p.map fun p => { s with pool := p }

/-- One step. A worker leaves a close callback only after it has called
`on_close_`; an empty `on_close_` throws, and there is no next state. -/
def step (cfg : StreamConfig) (s : Stream n) : Act n → Option (Stream n)
  | .accept fd =>
    if cfg.mode = .listen ∧ s.LoopFree ∧ s.posts.polling = true ∧ s.FdFree fd then
      some (s.accept cfg fd)
    else none
  | .reportError =>
    if s.LoopFree ∧ s.posts.polling = true then
      some { s with pool := s.pool.submitApp .onError }
    else none
  | .connected fd =>
    if cfg.mode = .client ∧ s.LoopFree ∧ s.posts.polling = true ∧ s.made = 0 then
      some (s.connected cfg fd)
    else none
  | .conn c a => if c < s.made ∧ s.Allows c a then s.connStep c a else none
  | .swap => if s.LoopFree then s.posts.swap.map fun q => { s with posts := q } else none
  | .enterPoll => if s.LoopFree then s.posts.enterPoll.map fun q => { s with posts := q } else none
  | .runPost addOk =>
    if s.LoopFree then s.posts.next.bind fun p => s.runTask p.2 addOk p.1 else none
  | .take w => s.poolStep (s.pool.take StreamJob.begin w)
  | .install w =>
    match s.pool.pool.workers w with
    | .running (.app (.onConnect c)) =>
      (s.connStep c (.setOnClose (some (.wrapper (s.impls c).onClose.isSome)))).bind fun s =>
        s.poolStep (s.pool.appStep w (some (.installed c)))
    | _ => none
  | .startReading w =>
    match s.pool.pool.workers w with
    | .running (.app (.installed c)) =>
      (s.connStep c .startReading).bind fun s => s.poolStep (s.pool.appStep w none)
    | _ => none
  | .errorReturn w =>
    match s.pool.pool.workers w with
    | .running (.app .onError) => s.poolStep (s.pool.appStep w none)
    | _ => none
  | .drainLock w => s.poolStep (s.pool.drainLock w)
  | .runClose w =>
    match s.pool.pool.workers w with
    | .running (.fn c .onClose) =>
      match s.entered c, (s.impls c).onClose with
      | none, some h => some (s.enter cfg c h)
      | _, _ => none
    | _ => none
  | .fnReturn w =>
    match s.pool.pool.workers w with
    | .running (.fn c t) =>
      if t = .onClose → (s.entered c).isSome = true then s.poolStep (s.pool.fnReturn w) else none
    | _ => none
  | .join =>
    if s.LoopFree ∧ s.posts.polling = true then some { s with teardown := .joined } else none
  | .teardownClose c =>
    if s.teardown = .joined ∧ (s.owner c).isSome = true then s.connStep c .teardownClose else none
  | .clear =>
    if s.teardown = .joined ∧
        ∀ c < s.made, (s.owner c).isSome = true → (s.impls c).closed = true then
      some s.clear
    else none
  | .shutdown =>
    if s.teardown = .cleared then
      some { s with pool := s.pool.shutdown, teardown := .down }
    else none

/-- A stream whose pool has `n` workers. -/
def machine (cfg : StreamConfig) (n : Nat) : Machine (Stream n) (Act n) where
  Init s := s = start cfg n
  step := step cfg

end Stream

end Socketpp
