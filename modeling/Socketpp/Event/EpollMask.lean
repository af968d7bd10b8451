import Socketpp.Event.Loop

/-!
# Event masks of epoll

`to_epoll_events` and `from_epoll_events` (`src/event/epoll.cpp`), and what epoll
reports of a socket between them. `Readiness` is the result of the socket's poll
function in the kernel; epoll keeps of it what is in the mask of the
registration. Errors, hangups and the peer's shutdown are always in that mask, so
they reach the callback whatever it asked for (`hasEvent_events`).
-/

namespace Socketpp

def epollIn : BitVec 32 := 0x001#32
def epollOut : BitVec 32 := 0x004#32
def epollErr : BitVec 32 := 0x008#32
def epollHup : BitVec 32 := 0x010#32
def epollRdhup : BitVec 32 := 0x2000#32

def toEpollEvents (interest : IoEvent) : BitVec 32 :=
  let events := epollErr ||| epollHup ||| epollRdhup
  let events := if IoEvent.hasEvent interest .readable then events ||| epollIn else events
  if IoEvent.hasEvent interest .writable then events ||| epollOut else events

def fromEpollEvents (events : BitVec 32) : IoEvent :=
  let result := IoEvent.none
  let result := if events &&& epollIn ≠ 0 then result ||| IoEvent.readable else result
  let result := if events &&& epollOut ≠ 0 then result ||| IoEvent.writable else result
  let result := if events &&& epollErr ≠ 0 then result ||| IoEvent.error else result
  let result := if events &&& epollHup ≠ 0 then result ||| IoEvent.hangup else result
  if events &&& epollRdhup ≠ 0 then result ||| IoEvent.peerShutdown else result

/-- What the socket is ready for. -/
structure Readiness where
  input : Bool
  output : Bool
  error : Bool
  hangup : Bool
  peerShutdown : Bool
  deriving DecidableEq, Repr

namespace Readiness

/-- `r` as the kernel's poll function returns it. -/
def mask (r : Readiness) : BitVec 32 :=
  (if r.input then epollIn else 0) ||| (if r.output then epollOut else 0) |||
    (if r.error then epollErr else 0) ||| (if r.hangup then epollHup else 0) |||
    (if r.peerShutdown then epollRdhup else 0)

/-- What `epoll_wait` returns for a registration. A socket for which this is zero is not in the
list. -/
def reported (r : Readiness) (interest : IoEvent) : BitVec 32 :=
  r.mask &&& toEpollEvents interest

/-- The events the callback is called with. -/
def events (r : Readiness) (interest : IoEvent) : IoEvent := fromEpollEvents (r.reported interest)

/-- **What the callback sees.** -/
theorem hasEvent_events (r : Readiness) (interest : IoEvent) :
    IoEvent.hasEvent (r.events interest) .readable =
        (r.input && IoEvent.hasEvent interest .readable) ∧
      IoEvent.hasEvent (r.events interest) .writable =
        (r.output && IoEvent.hasEvent interest .writable) ∧
      IoEvent.hasEvent (r.events interest) .error = r.error ∧
      IoEvent.hasEvent (r.events interest) .hangup = r.hangup := by
  obtain ⟨i, o, e, h, p⟩ := r
  unfold events reported toEpollEvents
  generalize IoEvent.hasEvent interest .readable = a
  generalize IoEvent.hasEvent interest .writable = b
  revert i o e h p a b
  decide

/-- The callback is called if something is reported. -/
theorem reported_ne_zero_iff (r : Readiness) (interest : IoEvent) :
    r.reported interest ≠ 0 ↔
      (r.input && IoEvent.hasEvent interest .readable) = true ∨
      (r.output && IoEvent.hasEvent interest .writable) = true ∨
      r.error = true ∨ r.hangup = true ∨ r.peerShutdown = true := by
  obtain ⟨i, o, e, h, p⟩ := r
  unfold reported toEpollEvents
  generalize IoEvent.hasEvent interest .readable = a
  generalize IoEvent.hasEvent interest .writable = b
  revert i o e h p a b
  decide

end Readiness

end Socketpp
