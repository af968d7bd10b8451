import Socketpp.Event.Loop
import Socketpp.High.PeerClaims
import Socketpp.High.SerialQueue

/-!
# Peers in use

A datagram socket whose peers are claimed, used, relinquished and destroyed by
any threads (`src/high/dgram.cpp`, `dgram_peer.cpp`, `dgram_peer_impl.hpp`)
while its loop thread runs posted tasks and timers and reads datagrams, and its
pool drains the peers' serial queues. `claim` posts `execute_claim` and waits for
it, or runs it at once if it is on the loop thread, and then arms the peer. A
handle's calls stand for those of the thread that has it; `handles` says where the
handle of each peer is. `relinquish` is two steps, so that anything may happen
between the exchange of `open_` and the removal of the socket, and so is
`deliver_data`, which loads `open_` and submits then.

The callbacks of the socket itself refer to no peer and are left out.

That the table is in order comes from the peers alone (`PeerClaims`), which every
step follows (`step_follows`). `claim_in_use` is about the answer of `claim`: it
goes by the map, not by the open peers.
-/

namespace Socketpp

/-- A task posted to the loop. -/
inductive PeerTask where
  /-- `execute_claim`; it refers to the frame of its caller, which waits for it -/
  | claim (p : Nat)
  | arm (p : Nat) (fd : Fd)
  /-- `do_defer`, `do_repeat` -/
  | timer (p : Nat) (timeout : Int) (rep : Bool)
  | post (p : Nat)
  deriving DecidableEq, Repr

/-- The peer whose `this` or `&serial_` a task has captured. -/
def PeerTask.peer : PeerTask → Option Nat
  | .claim _ => none
  | .arm p _ | .timer p _ _ | .post p => some p

/-- A task in a peer's serial queue. -/
inductive PeerCallback where
  | onData
  | onError
  /-- the user's own, from `defer`, `repeat` or `post` -/
  | user
  deriving DecidableEq, Repr

/-- The callback has captured `this`. -/
def PeerCallback.captures : PeerCallback → Bool
  | .onData | .onError => true
  | .user => false

/-- Where the handle of a peer is. -/
inductive HandlePc where
  /-- the peer is not made yet -/
  | fresh
  /-- `claim` waits for `execute_claim` -/
  | claiming
  /-- `claim` has returned an error -/
  | refused
  /-- `execute_claim` has succeeded, `arm` comes next -/
  | claimed
  | held
  /-- in `relinquish`, after the exchange -/
  | relinquishing
  | dropped
  deriving DecidableEq, Repr

/-- Where the loop thread is. -/
inductive PeerLoopPc where
  | idle
  | task (t : PeerTask)
  /-- in the callback of the timer with number `fd` -/
  | timer (fd : Fd) (p : Nat)
  /-- in the peer's `handle_readable` -/
  | readable (p : Nat)
  /-- in `deliver_data`, called from the peer's `handle_readable` (`own`) or the parent's -/
  | delivering (p : Nat) (own : Bool)
  /-- past its test -/
  | submitting (p : Nat) (own : Bool)
  deriving DecidableEq, Repr

/-- The peer the loop thread is in. -/
def PeerLoopPc.peer : PeerLoopPc → Option Nat
  | .idle => none
  | .task t => t.peer
  | .timer _ p | .readable p | .delivering p _ | .submitting p _ => some p

/-- Where `deliver_data` returns to. -/
def PeerLoopPc.back (p : Nat) (own : Bool) : PeerLoopPc := if own then .readable p else .idle

/-- What `recv` of a peer's socket returns. -/
inductive PeerRecv where
  | wouldBlock
  | error
  | empty
  | data
  deriving DecidableEq, Repr

structure DgramPeers (A : Type) (n : Nat) where
  table : PeerTable A
  posts : PostQueue PeerTask
  loop : PeerLoopPc
  handles : Nat → HandlePc
  pool : SerialPool Nat PeerCallback Empty Empty n
  /-- `on_data_cb` or `on_data_batch_cb` of the socket is not empty -/
  dataCb : Bool

namespace DgramPeers

variable {A : Type} {n : Nat}

def start [Inhabited A] (n : Nat) : DgramPeers A n where
  table := .start
  posts := .start
  loop := .idle
  handles := fun _ => .fresh
  pool := .start n 0
  dataCb := false

/-- What `arm` posts. -/
def armTasks (demux : Bool) (x : Peer A) (p : Nat) : List PeerTask :=
  if demux then (x.sock.map (.arm p)).toList else []

inductive Act (A : Type) (n : Nat) where
  /-- `on_data` or `on_data_batch` of the socket -/
  | onData (set : Bool)
  | claim (a : A)
  /-- `claim` on the loop thread -/
  | claimInline (a : A)
  | arm (p : Nat)
  /-- `on_data` and `on_error` of a peer -/
  | setCallbacks (p : Nat) (onData onError : Bool)
  | timer (p : Nat) (timeout : Int) (rep : Bool)
  | post (p : Nat)
  | relinquish (p : Nat)
  | closeSocket (p : Nat)
  /-- the handle is destroyed or assigned to; it has called `relinquish` if the peer was open -/
  | destroy (p : Nat)
  | swap
  | next
  | enterPoll
  /-- the task taken runs, with the operating system's answers -/
  | run (sock : Except ClaimError Fd) (tfd : Option Fd) (ctl : Bool)
  /-- a timer expires -/
  | fire (fd : Fd)
  | timerReturn
  /-- a `timer_handle` is cancelled or destroyed -/
  | cancelTimer (fd : Fd)
  /-- a peer's socket is readable -/
  | readable (fd : Fd)
  | recv (r : PeerRecv)
  | deliver
  | submit
  /-- the parent reads a datagram from `a` -/
  | datagram (a : A)
  | take (w : Fin n)
  | drainLock (w : Fin n)
  | fnReturn (w : Fin n)

variable [DecidableEq A]

/-- A posted task runs. -/
def runTask (demux : Bool) (s : DgramPeers A n) (sock : Except ClaimError Fd) (tfd : Option Fd)
    (ctl : Bool) : PeerTask → Option (DgramPeers A n)
  | .claim p =>
    if s.table.SockFree sock then
      match s.table.executeClaim demux p sock with
      | .ok t => some { s with table := t, loop := .idle
                               handles := Function.update s.handles p .claimed }
      | .error _ => some { s with loop := .idle, handles := Function.update s.handles p .refused }
    else none
  | .arm p fd =>
    if ctl = true → s.table.disp.interest.lookup fd = none then
      some { s with table := { s.table with disp := s.table.disp.add fd .readable p ctl }
                    loop := .idle }
    else none
  | .timer p timeout rep =>
    if tfd.bind s.table.disp.timers.lookup = none then
      some { s with
        table := { s.table with disp := (s.table.disp.scheduleTimer timeout rep p tfd ctl).1 }
        loop := .idle }
    else none
  | .post p => some { s with pool := s.pool.submit p .user, loop := .idle }

/-- `handle_readable` of the parent, for one datagram. -/
def handleDatagram (demux : Bool) (s : DgramPeers A n) (a : A) : DgramPeers A n :=
  match s.table.claimedPeers.lookup a with
  | none => s
  | some p =>
    if (s.table.peers p).isOpen then
      if demux then s else { s with loop := .delivering p false }
    else { s with table := s.table.eraseEntry a }

/-- `handle_readable` of peer `p`, after `recv`. -/
def handleRecv (s : DgramPeers A n) (p : Nat) : PeerRecv → DgramPeers A n
  | .wouldBlock | .empty => { s with loop := .idle }
  | .error =>
    { s with loop := .idle
             pool := if (s.table.peers p).onError then s.pool.submit p .onError else s.pool }
  | .data => { s with loop := .delivering p true }

/-- The loop thread is in `poll`. -/
def Polling (s : DgramPeers A n) : Prop := s.loop = .idle ∧ s.posts.polling = true

instance (s : DgramPeers A n) : Decidable s.Polling :=
  inferInstanceAs (Decidable (_ ∧ _))

def step (demux : Bool) (s : DgramPeers A n) : Act A n → Option (DgramPeers A n)
  | .onData set => some { s with dataCb := set }
  | .claim a =>
    some { s with table := s.table.create a
                  posts := s.posts.post [.claim s.table.made]
                  handles := Function.update s.handles s.table.made .claiming }
  | .claimInline a =>
    if s.loop = .idle then
      some { s with table := s.table.create a
                    loop := .task (.claim s.table.made)
                    handles := Function.update s.handles s.table.made .claiming }
    else none
  | .arm p =>
    if s.handles p = .claimed then
      some { s with posts := s.posts.post (armTasks demux (s.table.peers p) p)
                    handles := Function.update s.handles p .held }
    else none
  | .setCallbacks p onData onError =>
    if s.handles p = .held then
      some { s with table := s.table.modify p fun x =>
                      { x with onData := onData, onError := onError } }
    else none
  | .timer p timeout rep =>
    if s.handles p = .held then some { s with posts := s.posts.post [.timer p timeout rep] }
    else none
  | .post p =>
    if s.handles p = .held then some { s with posts := s.posts.post [.post p] } else none
  | .relinquish p =>
    if s.handles p = .held then
      if (s.table.peers p).isOpen then
        some { s with table := s.table.exchangeOpen p
                      handles := Function.update s.handles p
                        (if demux then .relinquishing else .held) }
      else some s
    else none
  | .closeSocket p =>
    if s.handles p = .relinquishing then
      some { s with table := s.table.closeSocket p, handles := Function.update s.handles p .held }
    else none
  | .destroy p =>
    if s.handles p = .held ∧ (s.table.peers p).isOpen = false then
      some { s with handles := Function.update s.handles p .dropped }
    else none
  | .swap => if s.loop = .idle then s.posts.swap.map fun q => { s with posts := q } else none
  | .next =>
    if s.loop = .idle then s.posts.next.map fun r => { s with posts := r.2, loop := .task r.1 }
    else none
  | .enterPoll =>
    if s.loop = .idle then s.posts.enterPoll.map fun q => { s with posts := q } else none
  | .run sock tfd ctl =>
    match s.loop with
    | .task t => s.runTask demux sock tfd ctl t
    | _ => none
  | .fire fd =>
    if s.Polling then
      (s.table.disp.timers.lookup fd).map fun info => { s with loop := .timer fd info.callback }
    else none
  | .timerReturn =>
    match s.loop with
    | .timer fd p =>
      some { s with
        pool := s.pool.submit p .user
        table := { s.table with disp := (s.table.disp.timers.lookup fd).elim s.table.disp
                                  (s.table.disp.afterTimer fd) }
        loop := .idle }
    | _ => none
  | .cancelTimer fd =>
    some { s with table := { s.table with disp := s.table.disp.cancelTimer fd } }
  | .readable fd =>
    if s.Polling then
      (s.table.disp.callbacks.lookup fd).map fun p => { s with loop := .readable p }
    else none
  | .recv r =>
    match s.loop with
    | .readable p => some (s.handleRecv p r)
    | _ => none
  | .deliver =>
    match s.loop with
    | .delivering p own =>
      if (s.table.peers p).isOpen ∧ (s.table.peers p).onData then
        some { s with loop := .submitting p own }
      else some { s with loop := .back p own }
    | _ => none
  | .submit =>
    match s.loop with
    | .submitting p own => some { s with pool := s.pool.submit p .onData, loop := .back p own }
    | _ => none
  | .datagram a => if s.Polling ∧ s.dataCb = true then some (s.handleDatagram demux a) else none
  | .take w => (s.pool.take id w).map fun p => { s with pool := p }
  | .drainLock w => (s.pool.drainLock w).map fun p => { s with pool := p }
  | .fnReturn w => (s.pool.fnReturn w).map fun p => { s with pool := p }

/-- A datagram socket whose pool has `n` workers. -/
def machine (A : Type) [DecidableEq A] [Inhabited A] (demux : Bool) (n : Nat) :
    Machine (DgramPeers A n) (Act A n) where
  Init s := s = start n
  step := step demux

variable {demux : Bool} {s s' : DgramPeers A n} {a : Act A n}

/-- **Every step**: what it finds and what it leaves. -/
inductive StepView (demux : Bool) (s : DgramPeers A n) : Act A n → DgramPeers A n → Prop where
  | onData (set : Bool) : StepView demux s (.onData set) { s with dataCb := set }
  | claim (a : A) : StepView demux s (.claim a)
      { s with table := s.table.create a
               posts := s.posts.post [.claim s.table.made]
               handles := Function.update s.handles s.table.made .claiming }
  | claimInline (a : A) (hl : s.loop = .idle) : StepView demux s (.claimInline a)
      { s with table := s.table.create a
               loop := .task (.claim s.table.made)
               handles := Function.update s.handles s.table.made .claiming }
  | arm (p : Nat) (hp : s.handles p = .claimed) : StepView demux s (.arm p)
      { s with posts := s.posts.post (armTasks demux (s.table.peers p) p)
               handles := Function.update s.handles p .held }
  | setCallbacks (p : Nat) (d e : Bool) (hp : s.handles p = .held) :
      StepView demux s (.setCallbacks p d e)
        { s with table := s.table.modify p fun x => { x with onData := d, onError := e } }
  | timer (p : Nat) (timeout : Int) (rep : Bool) (hp : s.handles p = .held) :
      StepView demux s (.timer p timeout rep)
        { s with posts := s.posts.post [.timer p timeout rep] }
  | post (p : Nat) (hp : s.handles p = .held) :
      StepView demux s (.post p) { s with posts := s.posts.post [.post p] }
  | relinquish (p : Nat) (hp : s.handles p = .held) (ho : (s.table.peers p).isOpen = true) :
      StepView demux s (.relinquish p)
        { s with table := s.table.exchangeOpen p
                 handles := Function.update s.handles p
                   (if demux then .relinquishing else .held) }
  | relinquishAgain (p : Nat) (hp : s.handles p = .held)
      (ho : (s.table.peers p).isOpen = false) : StepView demux s (.relinquish p) s
  | closeSocket (p : Nat) (hp : s.handles p = .relinquishing) : StepView demux s (.closeSocket p)
      { s with table := s.table.closeSocket p, handles := Function.update s.handles p .held }
  | destroy (p : Nat) (hp : s.handles p = .held) (ho : (s.table.peers p).isOpen = false) :
      StepView demux s (.destroy p) { s with handles := Function.update s.handles p .dropped }
  | swap (q : PostQueue PeerTask) (hq : s.posts.swap = some q) :
      StepView demux s .swap { s with posts := q }
  | next (t : PeerTask) (q : PostQueue PeerTask) (hl : s.loop = .idle)
      (hq : s.posts.next = some (t, q)) :
      StepView demux s .next { s with posts := q, loop := .task t }
  | enterPoll (q : PostQueue PeerTask) (hq : s.posts.enterPoll = some q) :
      StepView demux s .enterPoll { s with posts := q }
  | grant (p : Nat) (sock : Except ClaimError Fd) (tfd : Option Fd) (ctl : Bool) (t : PeerTable A)
      (hl : s.loop = .task (.claim p)) (hf : s.table.SockFree sock)
      (hc : s.table.executeClaim demux p sock = .ok t) : StepView demux s (.run sock tfd ctl)
      { s with table := t, loop := .idle, handles := Function.update s.handles p .claimed }
  | refuse (p : Nat) (sock : Except ClaimError Fd) (tfd : Option Fd) (ctl : Bool)
      (hl : s.loop = .task (.claim p)) : StepView demux s (.run sock tfd ctl)
      { s with loop := .idle, handles := Function.update s.handles p .refused }
  | register (p : Nat) (fd : Fd) (sock : Except ClaimError Fd) (tfd : Option Fd) (ctl : Bool)
      (hl : s.loop = .task (.arm p fd)) : StepView demux s (.run sock tfd ctl)
      { s with table := { s.table with disp := s.table.disp.add fd .readable p ctl }
               loop := .idle }
  | schedule (p : Nat) (timeout : Int) (rep : Bool) (sock : Except ClaimError Fd)
      (tfd : Option Fd) (ctl : Bool) (hl : s.loop = .task (.timer p timeout rep)) :
      StepView demux s (.run sock tfd ctl)
        { s with
          table := { s.table with disp := (s.table.disp.scheduleTimer timeout rep p tfd ctl).1 }
          loop := .idle }
  | posted (p : Nat) (sock : Except ClaimError Fd) (tfd : Option Fd) (ctl : Bool)
      (hl : s.loop = .task (.post p)) : StepView demux s (.run sock tfd ctl)
      { s with pool := s.pool.submit p .user, loop := .idle }
  | fire (fd : Fd) (info : TimerInfo Nat) (hl : s.loop = .idle)
      (hi : s.table.disp.timers.lookup fd = some info) :
      StepView demux s (.fire fd) { s with loop := .timer fd info.callback }
  | timerReturn (fd : Fd) (p : Nat) (hl : s.loop = .timer fd p) : StepView demux s .timerReturn
      { s with
        pool := s.pool.submit p .user
        table := { s.table with disp := (s.table.disp.timers.lookup fd).elim s.table.disp
                                  (s.table.disp.afterTimer fd) }
        loop := .idle }
  | cancelTimer (fd : Fd) : StepView demux s (.cancelTimer fd)
      { s with table := { s.table with disp := s.table.disp.cancelTimer fd } }
  | readable (fd : Fd) (p : Nat) (hl : s.loop = .idle)
      (hc : s.table.disp.callbacks.lookup fd = some p) :
      StepView demux s (.readable fd) { s with loop := .readable p }
  | recvEnd (p : Nat) (r : PeerRecv) (hl : s.loop = .readable p) :
      StepView demux s (.recv r) { s with loop := .idle }
  | recvError (p : Nat) (hl : s.loop = .readable p) : StepView demux s (.recv .error)
      { s with loop := .idle, pool := s.pool.submit p .onError }
  | recvData (p : Nat) (hl : s.loop = .readable p) :
      StepView demux s (.recv .data) { s with loop := .delivering p true }
  | deliver (p : Nat) (own : Bool) (hl : s.loop = .delivering p own) :
      StepView demux s .deliver { s with loop := .submitting p own }
  | discard (p : Nat) (own : Bool) (hl : s.loop = .delivering p own) :
      StepView demux s .deliver { s with loop := .back p own }
  | submit (p : Nat) (own : Bool) (hl : s.loop = .submitting p own) : StepView demux s .submit
      { s with pool := s.pool.submit p .onData, loop := .back p own }
  | ignore (a : A) : StepView demux s (.datagram a) s
  | forward (a : A) (p : Nat) (he : s.table.claimedPeers.lookup a = some p)
      (ho : (s.table.peers p).isOpen = true) :
      StepView demux s (.datagram a) { s with loop := .delivering p false }
  | erase (a : A) (p : Nat) (he : s.table.claimedPeers.lookup a = some p)
      (ho : (s.table.peers p).isOpen = false) :
      StepView demux s (.datagram a) { s with table := s.table.eraseEntry a }
  | take (w : Fin n) (p : SerialPool Nat PeerCallback Empty Empty n)
      (he : s.pool.take id w = some p) : StepView demux s (.take w) { s with pool := p }
  | drainLock (w : Fin n) (p : SerialPool Nat PeerCallback Empty Empty n)
      (he : s.pool.drainLock w = some p) : StepView demux s (.drainLock w) { s with pool := p }
  | fnReturn (w : Fin n) (p : SerialPool Nat PeerCallback Empty Empty n)
      (he : s.pool.fnReturn w = some p) : StepView demux s (.fnReturn w) { s with pool := p }

theorem runTask_view {sock : Except ClaimError Fd} {tfd : Option Fd} {ctl : Bool} {t : PeerTask}
    (hl : s.loop = .task t) (he : s.runTask demux sock tfd ctl t = some s') :
    StepView demux s (.run sock tfd ctl) s' := by
  cases t with
  | claim p =>
    simp only [runTask] at he
    split at he
    · rename_i hf
      split at he
      · rename_i t hc; cases he; exact .grant p sock tfd ctl t hl hf hc
      · cases he; exact .refuse p sock tfd ctl hl
    · cases he
  | arm p fd =>
    simp only [runTask] at he
    split at he
    · cases he; exact .register p fd sock tfd ctl hl
    · cases he
  | timer p timeout rep =>
    simp only [runTask] at he
    split at he
    · cases he; exact .schedule p timeout rep sock tfd ctl hl
    · cases he
  | post p => cases he; exact .posted p sock tfd ctl hl

theorem handleRecv_view {p : Nat} (hl : s.loop = .readable p) (r : PeerRecv) :
    StepView demux s (.recv r) (s.handleRecv p r) := by
  cases r with
  | wouldBlock => exact .recvEnd p _ hl
  | empty => exact .recvEnd p _ hl
  | data => exact .recvData p hl
  | error =>
    simp only [handleRecv]
    split
    · exact .recvError p hl
    · exact .recvEnd p _ hl

theorem handleDatagram_view (s : DgramPeers A n) (a : A) :
    StepView demux s (.datagram a) (s.handleDatagram demux a) := by
  unfold handleDatagram
  split
  · exact .ignore a
  · rename_i p he
    split
    · rename_i ho
      split
      · exact .ignore a
      · exact .forward a p he ho
    · rename_i ho
      exact .erase a p he (Bool.eq_false_of_not_eq_true ho)

theorem step_view (he : step demux s a = some s') : StepView demux s a s' := by
  cases a with
  | onData set => cases he; exact .onData set
  | claim a => cases he; exact .claim a
  | cancelTimer fd => cases he; exact .cancelTimer fd
  | claimInline a =>
    simp only [step] at he
    split at he
    · rename_i hl; cases he; exact .claimInline a hl
    · cases he
  | arm p =>
    simp only [step] at he
    split at he
    · rename_i hp; cases he; exact .arm p hp
    · cases he
  | setCallbacks p d e =>
    simp only [step] at he
    split at he
    · rename_i hp; cases he; exact .setCallbacks p d e hp
    · cases he
  | timer p timeout rep =>
    simp only [step] at he
    split at he
    · rename_i hp; cases he; exact .timer p timeout rep hp
    · cases he
  | post p =>
    simp only [step] at he
    split at he
    · rename_i hp; cases he; exact .post p hp
    · cases he
  | relinquish p =>
    simp only [step] at he
    split at he
    · rename_i hp
      split at he
      · rename_i ho; cases he; exact .relinquish p hp ho
      · rename_i ho; cases he; exact .relinquishAgain p hp (by simpa using ho)
    · cases he
  | closeSocket p =>
    simp only [step] at he
    split at he
    · rename_i hp; cases he; exact .closeSocket p hp
    · cases he
  | destroy p =>
    simp only [step] at he
    split at he
    · rename_i hp; cases he; exact .destroy p hp.1 hp.2
    · cases he
  | swap =>
    simp only [step] at he
    split at he
    · obtain ⟨q, hq, rfl⟩ := Option.map_eq_some_iff.1 he
      exact .swap q hq
    · cases he
  | next =>
    simp only [step] at he
    split at he
    · rename_i hl
      obtain ⟨⟨t, q⟩, hq, rfl⟩ := Option.map_eq_some_iff.1 he
      exact .next t q hl hq
    · cases he
  | enterPoll =>
    simp only [step] at he
    split at he
    · obtain ⟨q, hq, rfl⟩ := Option.map_eq_some_iff.1 he
      exact .enterPoll q hq
    · cases he
  | run sock tfd ctl =>
    simp only [step] at he
    split at he
    · rename_i t hl; exact runTask_view hl he
    · cases he
  | fire fd =>
    simp only [step] at he
    split at he
    · rename_i hp
      obtain ⟨info, hi, rfl⟩ := Option.map_eq_some_iff.1 he
      exact .fire fd info hp.1 hi
    · cases he
  | timerReturn =>
    simp only [step] at he
    split at he
    · rename_i fd p hl; cases he; exact .timerReturn fd p hl
    · cases he
  | readable fd =>
    simp only [step] at he
    split at he
    · rename_i hp
      obtain ⟨p, hc, rfl⟩ := Option.map_eq_some_iff.1 he
      exact .readable fd p hp.1 hc
    · cases he
  | recv r =>
    simp only [step] at he
    split at he
    · rename_i p hl; cases he; exact handleRecv_view hl r
    · cases he
  | deliver =>
    simp only [step] at he
    split at he
    · rename_i p own hl
      split at he
      · cases he; exact .deliver p own hl
      · cases he; exact .discard p own hl
    · cases he
  | submit =>
    simp only [step] at he
    split at he
    · rename_i p own hl; cases he; exact .submit p own hl
    · cases he
  | datagram a =>
    simp only [step] at he
    split at he
    · cases he; exact handleDatagram_view s a
    · cases he
  | take w =>
    obtain ⟨p, hp, rfl⟩ := Option.map_eq_some_iff.1 he
    exact .take w p hp
  | drainLock w =>
    obtain ⟨p, hp, rfl⟩ := Option.map_eq_some_iff.1 he
    exact .drainLock w p hp
  | fnReturn w =>
    obtain ⟨p, hp, rfl⟩ := Option.map_eq_some_iff.1 he
    exact .fnReturn w p hp

/-! ## The answer of `claim` -/

/-- The peer a task is the claim of. -/
def claimOf : PeerTask → Option Nat
  | .claim p => some p
  | .arm _ _ | .timer _ _ _ | .post _ => none

def loopClaims : PeerLoopPc → List Nat
  | .task t => (claimOf t).toList
  | .idle | .timer _ _ | .readable _ | .delivering _ _ | .submitting _ _ => []

/-- The peers whose claims are under way, in the order they will be executed. -/
def claims (s : DgramPeers A n) : List Nat :=
  loopClaims s.loop ++ s.posts.pending.filterMap claimOf

/-- The peers alone, with the claims under way. -/
def peerClaims (s : DgramPeers A n) : PeerClaims A := ⟨s.table, s.claims⟩

/-- The table is in order, and each peer being claimed waits for it. -/
structure PeersInv (s : DgramPeers A n) : Prop where
  peers : s.peerClaims.Inv
  claiming : ∀ p ∈ s.claims, s.handles p = .claiming

theorem PeersInv.table (h : s.PeersInv) : s.table.Inv := h.peers.table

theorem start_peersInv [Inhabited A] (n : Nat) : (start n : DgramPeers A n).PeersInv :=
  ⟨PeerClaims.start_inv, nofun⟩

/-- A step seen from the peers is one of `PeerClaims` or none; the claims under way afterwards
still wait. -/
def Follows (demux : Bool) (s s' : DgramPeers A n) : Prop :=
  (s'.peerClaims = s.peerClaims ∨
    ∃ b, PeerClaims.step demux s.peerClaims b = some s'.peerClaims) ∧
  ∀ p ∈ s'.claims, s'.handles p = .claiming

/-- No claim begins or ends, and the peers stay as they are. -/
theorem PeersInv.stays (h : s.PeersInv) (ht : s'.table = s.table) (hc : s'.claims = s.claims)
    (hh : ∀ p, s.handles p = .claiming → s'.handles p = .claiming) : Follows demux s s' :=
  ⟨.inl (by rw [peerClaims, peerClaims, ht, hc]), fun p hp => hh p (h.claiming p (hc ▸ hp))⟩

/-- No claim begins or ends. -/
theorem PeersInv.changes (h : s.PeersInv) (b : PeerClaims.Act A)
    (hb : PeerClaims.step demux s.peerClaims b = some ⟨s'.table, s.claims⟩)
    (hc : s'.claims = s.claims) (hh : ∀ p, s.handles p = .claiming → s'.handles p = .claiming) :
    Follows demux s s' := by
  refine ⟨.inr ⟨b, hb.trans ?_⟩, fun p hp => hh p (h.claiming p (hc ▸ hp))⟩
  rw [peerClaims, hc]

omit [DecidableEq A] in
theorem claims_eq (hl : loopClaims s'.loop = loopClaims s.loop)
    (hq : s'.posts.pending.filterMap claimOf = s.posts.pending.filterMap claimOf) :
    s'.claims = s.claims := by
  rw [claims, claims, hl, hq]

omit [DecidableEq A] in
/-- The loop thread stays, and no claim is posted. -/
theorem claims_eq_post {ts : List PeerTask} (hl : s'.loop = s.loop)
    (hq : s'.posts.pending = s.posts.pending ++ ts) (hts : ts.filterMap claimOf = []) :
    s'.claims = s.claims :=
  claims_eq (by rw [hl]) (by rw [hq, List.filterMap_append, hts, List.append_nil])

omit [DecidableEq A] in
theorem filterMap_armTasks (demux : Bool) (x : Peer A) (p : Nat) :
    (armTasks demux x p).filterMap claimOf = [] := by
  unfold armTasks
  split
  · cases x.sock <;> rfl
  · rfl

omit [DecidableEq A] in
theorem handles_update {hd : Nat → HandlePc} {p q : Nat} {x : HandlePc} (hp : hd p ≠ .claiming)
    (hq : hd q = .claiming) : Function.update hd p x q = .claiming := by
  have hne : q ≠ p := by rintro rfl; exact hp hq
  rwa [Function.update_of_ne hne]

theorem loopClaims_back (p : Nat) (own : Bool) : loopClaims (.back p own) = [] := by
  cases own <;> rfl

omit [DecidableEq A] in
theorem claims_claim {p : Nat} (hl : s.loop = .task (.claim p)) :
    s.claims = p :: s.posts.pending.filterMap claimOf := by
  rw [claims, hl]
  rfl

omit [DecidableEq A] in
theorem mem_pending {p : Nat} (hl : s.loop = .task (.claim p)) : p ∈ s.peerClaims.pending := by
  rw [peerClaims, claims_claim hl]
  exact List.mem_cons_self

/-- A claim begins: its peer joins those being claimed. -/
theorem PeersInv.begins (h : s.PeersInv) (a : A) (ht : s'.table = s.table.create a)
    (hc : s'.claims.Perm (s.table.made :: s.claims))
    (hh : s'.handles = Function.update s.handles s.table.made .claiming) :
    Follows demux s s' := by
  refine ⟨.inr ⟨.create a, ?_⟩, fun p hp => ?_⟩
  · show some (PeerClaims.mk (s.table.create a) (s.table.made ::ₘ (s.claims : Multiset Nat))) = _
    rw [peerClaims, ht, Multiset.cons_coe, Multiset.coe_eq_coe.2 hc]
  · rw [hh]
    rcases List.mem_cons.1 (hc.mem_iff.1 hp) with rfl | hp
    · exact Function.update_self ..
    · exact (Function.update_of_ne (h.peers.pending p hp).1.ne ..).trans (h.claiming p hp)

/-- The claim the loop thread runs ends. -/
theorem PeersInv.ends (h : s.PeersInv) {p : Nat} (hl : s.loop = .task (.claim p))
    {t : PeerTable A} (x : HandlePc) {b : PeerClaims.Act A}
    (hb : PeerClaims.step demux s.peerClaims b = some ⟨t, s.peerClaims.pending.erase p⟩) :
    Follows demux s
      { s with table := t, loop := .idle, handles := Function.update s.handles p x } := by
  have hcl := claims_claim hl
  have hnd : (p :: s.posts.pending.filterMap claimOf).Nodup :=
    hcl ▸ Multiset.coe_nodup.1 h.peers.nodup
  refine ⟨.inr ⟨b, ?_⟩, fun q hq => ?_⟩
  · rw [hb, peerClaims, peerClaims, hcl, Multiset.coe_erase, List.erase_cons_head]
    rfl
  · have hne : q ≠ p := by rintro rfl; exact (List.nodup_cons.1 hnd).1 hq
    refine (Function.update_of_ne hne ..).trans (h.claiming q ?_)
    rw [hcl]
    exact List.mem_cons_of_mem _ hq

theorem idle_of_datagram {x : A} (he : step demux s (.datagram x) = some s') : s.loop = .idle := by
  obtain ⟨⟨hp, -⟩, -⟩ := Option.ite_none_right_eq_some.1 he
  exact hp.1

theorem step_follows (h : s.PeersInv) (he : step demux s a = some s') : Follows demux s s' := by
  cases step_view he with
  | onData set | take w p he | drainLock w p he | fnReturn w p he =>
    exact h.stays rfl rfl fun _ => id
  | claim a =>
    refine h.begins a rfl ?_ rfl
    have hcl : claims { s with posts := s.posts.post [.claim s.table.made] } =
        s.claims ++ [s.table.made] := by
      simp only [claims, PostQueue.pending_post, List.filterMap_append, List.append_assoc]
      rfl
    show (claims { s with posts := s.posts.post [.claim s.table.made] }).Perm _
    rw [hcl]
    exact List.perm_append_singleton _ _
  | claimInline a hl =>
    refine h.begins a rfl ?_ rfl
    rw [claims, claims, hl]
    exact List.Perm.refl _
  | arm p hp =>
    exact h.stays rfl (claims_eq_post rfl (PostQueue.pending_post _) (filterMap_armTasks ..))
      fun q => handles_update (by rw [hp]; rintro ⟨⟩)
  | timer p timeout rep hp =>
    exact h.stays rfl (claims_eq_post rfl (PostQueue.pending_post _) rfl) fun _ => id
  | post p hp =>
    exact h.stays rfl (claims_eq_post rfl (PostQueue.pending_post _) rfl) fun _ => id
  | setCallbacks p d e hp => exact h.changes (.setCallbacks p d e) rfl rfl fun _ => id
  | relinquish p hp ho =>
    have hnot : p ∉ (s.claims : Multiset Nat) := fun hm => by
      cases hp.symm.trans (h.claiming p hm)
    exact h.changes (.exchangeOpen p) (if_neg hnot) rfl fun q =>
      handles_update (by rw [hp]; rintro ⟨⟩)
  | relinquishAgain p hp ho => exact h.stays rfl rfl fun _ => id
  | closeSocket p hp =>
    exact h.changes (.closeSocket p) rfl rfl fun q => handles_update (by rw [hp]; rintro ⟨⟩)
  | destroy p hp ho =>
    exact h.stays rfl rfl fun q => handles_update (by rw [hp]; rintro ⟨⟩)
  | swap q hq =>
    have hpend := (PostQueue.pending_swap hq).trans (List.append_nil _).symm
    exact h.stays rfl (claims_eq_post rfl hpend rfl) fun _ => id
  | enterPoll q hq =>
    have hpend := (PostQueue.pending_enterPoll hq).trans (List.append_nil _).symm
    exact h.stays rfl (claims_eq_post rfl hpend rfl) fun _ => id
  | next t q hl hq =>
    refine h.stays rfl ?_ fun _ => id
    rw [claims, claims, hl, PostQueue.pending_next hq]
    cases t <;> rfl
  | grant p sock tfd ctl t hl hf hc =>
    exact h.ends hl _ (PeerClaims.step_grant (mem_pending hl) hf hc)
  | refuse p sock tfd ctl hl =>
    exact h.ends hl _ (b := .refuse p) (if_pos (mem_pending hl))
  | register p fd sock tfd ctl hl | schedule p timeout rep sock tfd ctl hl | timerReturn fd p hl =>
    exact h.changes (.dispatcher _) rfl (claims_eq (by rw [hl]; rfl) rfl) fun _ => id
  | cancelTimer fd => exact h.changes (.dispatcher _) rfl rfl fun _ => id
  | posted p sock tfd ctl hl | fire fd info hl hi | readable fd p hl hc | recvEnd p r hl
  | recvError p hl | recvData p hl | deliver p own hl =>
    exact h.stays rfl (claims_eq (by rw [hl]; rfl) rfl) fun _ => id
  | forward a p hp ho =>
    exact h.stays rfl (claims_eq (by rw [idle_of_datagram he]; rfl) rfl) fun _ => id
  | discard p own hl | submit p own hl =>
    exact h.stays rfl (claims_eq (by rw [hl]; exact loopClaims_back p own) rfl) fun _ => id
  | ignore a => exact h.stays rfl rfl fun _ => id
  | erase a p hp ho =>
    exact h.changes (.eraseEntry a) (PeerClaims.step_eraseEntry hp ho) rfl fun _ => id

theorem step_peersInv (h : s.PeersInv) (he : step demux s a = some s') : s'.PeersInv := by
  obtain ⟨hb, hc⟩ := step_follows h he
  rcases hb with e | ⟨b, hb⟩
  · exact ⟨e ▸ h.peers, hc⟩
  · exact ⟨PeerClaims.step_inv h.peers hb, hc⟩

variable [Inhabited A] {ok : DgramPeers A n → Act A n → Prop}

theorem reach_peersInv (h : (machine A demux n).ReachOk ok s) : s.PeersInv :=
  h.inv (I := PeersInv) (fun _ h0 => h0 ▸ start_peersInv n)
    fun _ _ _ _ hi _ he => step_peersInv hi he

/-- **The peers in use refine the peers alone.** -/
theorem reach_claims (h : (machine A demux n).ReachOk ok s) :
    (PeerClaims.machine A demux).Reach s.peerClaims :=
  h.sim (fun s (hs : s = start n) => hs ▸ rfl) fun _ _ _ hr _ he =>
    (step_follows (reach_peersInv hr) he).1.imp_right fun ⟨b, hb⟩ => ⟨b, trivial, hb⟩

/-- **The answer of `claim`.** Whatever was claimed, relinquished, destroyed and received
before, and with a peer socket that can be created, `claim` returns `address_in_use`
exactly when an open peer holds the address, if and only if the entry of `claimed_peers`
for the address, when there is one, is of an open peer. -/
theorem claim_in_use (h : (machine A demux n).Reach s) (p : Nat) (fd : Fd) :
    (s.table.executeClaim demux p (.ok fd) = .error .addressInUse ↔
        ∃ q, s.table.Holds (s.table.peers p).addr q) ↔
      ∀ q, s.table.claimedPeers.lookup (s.table.peers p).addr = some q →
        (s.table.peers q).isOpen = true :=
  (reach_peersInv h).table.inUse_iff demux p fd

/-- Address 7 is claimed, and claimed once more while its peer is open. -/
theorem claim_in_use_twice : ∃ s : DgramPeers Nat 1, (machine Nat true 1).Reach s ∧
    s.loop = .task (.claim 1) ∧ s.table.Holds 7 0 ∧
      s.table.executeClaim true 1 (.ok 6) = .error .addressInUse := by
  obtain ⟨s, h, hp⟩ := Machine.Reach.of_run_init (M := machine Nat true 1)
    (fun s => decide (s.loop = .task (.claim 1) ∧ (s.table.peers 1).addr = 7 ∧ s.table.Holds 7 0 ∧
      s.table.claimedPeers.lookup 7 = some 0))
    [.claim 7, .swap, .next, .run (.ok 5) none false, .arm 0, .claim 7, .enterPoll, .swap, .next,
      .run (.ok 0) none true, .next] rfl (by decide)
  obtain ⟨hl, ha, hh, he⟩ := of_decide_eq_true hp
  have hiff := (claim_in_use h 1 6).2 fun q hq => by
    rw [ha, he] at hq
    cases hq
    exact hh.2.2
  exact ⟨s, h, hl, hh, hiff.2 ⟨0, ha ▸ hh⟩⟩

/-- Address 7 is claimed and relinquished, and its peer destroyed. No peer is open, but a claim
of the address that runs before a datagram from it has come is refused. -/
theorem claim_refused_after_relinquish : ∃ s : DgramPeers Nat 1, (machine Nat true 1).Reach s ∧
    s.loop = .task (.claim 1) ∧ (s.table.peers 1).addr = 7 ∧ (¬ ∃ q, s.table.Holds 7 q) ∧
      s.table.executeClaim true 1 (.ok 6) = .error .addressInUse := by
  obtain ⟨s, h, hp⟩ := Machine.Reach.of_run_init (M := machine Nat true 1)
    (fun s => decide (s.loop = .task (.claim 1) ∧ (s.table.peers 1).addr = 7 ∧
      s.table.claimedPeers.lookup 7 = some 0 ∧ (s.table.peers 0).isOpen = false))
    [.claim 7, .swap, .next, .run (.ok 5) none false, .arm 0, .enterPoll, .swap, .next,
      .run (.ok 0) none true, .relinquish 0, .closeSocket 0, .destroy 0, .claim 7, .enterPoll,
      .swap, .next] rfl (by decide)
  obtain ⟨hl, ha, he, hclosed⟩ := of_decide_eq_true hp
  refine ⟨s, h, hl, ha, ?_, ?_⟩
  · rintro ⟨q, hc, hq, ho⟩
    have hentry := (reach_peersInv h).table.opened q hc ho
    rw [hq, he] at hentry
    cases hentry
    cases hclosed.symm.trans ho
  · exact (PeerTable.executeClaim_inUse ..).2 ⟨0, ha ▸ he⟩

end DgramPeers

end Socketpp
