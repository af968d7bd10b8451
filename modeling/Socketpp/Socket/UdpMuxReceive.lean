import Socketpp.Lib.Inbox
import Socketpp.Lib.Slices
import Socketpp.Platform
import Socketpp.Socket.UdpMux

/-!
# From a UDP multiplexer to the peer sockets

The way of a datagram on Windows. The mux (`src/socket/udp_mux.hpp`) has one
receive outstanding on its socket, into one buffer `recv_buf_`; its thread
(`iocp_loop`) takes the completion out of the port, looks the source up under
`mutex_`, calls the closure found, which copies the bytes into the `recv_queue`
of a peer socket under `queue_mutex` and notifies one receiver
(`src/socket/udp_peer.cpp`), and only then issues the receive again. Any number
of threads call `recv` on a peer socket and wait on `queue_cv`; others make and
destroy peer sockets.

There is no lock on the buffer. What protects it is that a single token goes
round (`Phase`): the receive is outstanding, or its completion is in the port or
in what the thread took out of it, or the thread is about to issue it again.

`closed` is set by `~impl` alone and is left out: a client that destroys a peer
socket with a `recv` inside it uses freed memory anyway (`Careful`).
`flying`, `arrived`, `handled` and `returned` are history.

Without the datagrams it is `MuxDispatch` (`step_dispatch`).
-/

namespace Socketpp

/-- A packet in the mux's port. -/
inductive MuxPacket where
  /-- the receive has completed -/
  | recv
  /-- `STOP_KEY` -/
  | stop
  deriving DecidableEq, Repr

/-- `recv_ov_`. -/
inductive MuxOv where
  /-- no receive was issued, or the last one was refused -/
  | idle
  | pending
  /-- what `WSAGetOverlappedResult` gives: the bytes, or an error -/
  | done (bytes : Option Nat)
  deriving DecidableEq, Repr

/-- Where the mux's thread is. -/
inductive MuxLoopPc where
  /-- at the loop condition -/
  | top
  /-- in `GetQueuedCompletionStatusEx` -/
  | wait
  /-- before the packets left of those it returned -/
  | entries (l : List MuxPacket)
  /-- `dispatch` of `n` bytes has copied the callback and released the lock -/
  | found (n : Nat) (handler : Option MuxHandler) (rest : List MuxPacket)
  /-- behind `dispatch`, before the receive is issued again -/
  | rearm (rest : List MuxPacket)
  | exited
  deriving DecidableEq

namespace MuxLoopPc

def inHand : MuxLoopPc → Option MuxHandler
  | .found _ handler _ => handler
  | _ => none

/-- The completions it has taken out of the port and not dispatched. -/
def completions : MuxLoopPc → Nat
  | .entries l => l.count .recv
  | .found _ _ rest => rest.count .recv + 1
  | .rearm rest => rest.count .recv
  | _ => 0

def rearming : MuxLoopPc → Bool
  | .rearm _ => true
  | _ => false

end MuxLoopPc

/-- What became of a datagram. -/
inductive MuxFate where
  | handled (handler : MuxHandler)
  /-- no peer is registered for its source, and there is no catch-all -/
  | nobody
  /-- it has no bytes, and `dispatch` is not called -/
  | empty
  deriving DecidableEq

structure MuxReceive (Addr : Type) where
  mux : UdpMux Addr
  /-- the `impl`s made so far -/
  made : Nat
  peerAddr : Nat → Addr
  /-- those that are destroyed -/
  gone : List Nat
  /-- `recv_queue`, `queue_mutex` and `queue_cv` of an `impl` -/
  inbox : Nat → Inbox Bytes
  /-- what the kernel holds for the socket -/
  queue : List (Bytes × Addr)
  recvOv : MuxOv
  recvBuf : Bytes
  recvSrc : Addr
  port : List MuxPacket
  stopRequested : Bool
  thread : MuxLoopPc
  /-- the datagram that was received and is not dispatched -/
  flying : Option (Bytes × Addr)
  arrived : List (Bytes × Addr)
  handled : List ((Bytes × Addr) × MuxFate)
  /-- the calls of `recv` on an `impl` that have returned: `len` and what was copied -/
  returned : Nat → List (Nat × Bytes)

namespace MuxReceive

variable {Addr : Type}

/-- `sizeof(recv_buf_)`. -/
def bufSize : Nat := 65536

/-- `get_or_create` has issued the first receive; `armed` if it was not refused. -/
def start [Inhabited Addr] (armed : Bool) : MuxReceive Addr where
  mux := .start
  made := 0
  peerAddr _ := default
  gone := []
  inbox _ := .empty
  queue := []
  recvOv := if armed then .pending else .idle
  recvBuf := List.replicate bufSize 0
  recvSrc := default
  port := []
  stopRequested := false
  thread := .top
  flying := none
  arrived := []
  handled := []
  returned _ := []

inductive Act (Addr : Type) where
  /-- a datagram comes in from the network -/
  | arrive (d : Bytes × Addr)
  /-- the outstanding receive takes a datagram -/
  | complete
  /-- it ends with an error: it was cancelled, or an ICMP message came in -/
  | fail
  | test
  /-- `GetQueuedCompletionStatusEx` returns `count` packets -/
  | harvest (count : Nat)
  /-- it fails -/
  | waitError
  | next
  /-- the callback is called and returns -/
  | call
  | rearm (accepted : Bool)
  /-- `~udp_mux`, up to the join -/
  | stop
  /-- `create` of a peer socket -/
  | create (peer : Addr)
  /-- `~impl` -/
  | destroy (impl : Nat)
  | setCatchAll (set : Bool)
  /-- `recv` into `len` bytes looks at the queue for the first time -/
  | recv (impl len : Nat)
  /-- one that was woken looks again -/
  | recvAgain (impl len : Nat)
  | spurious (impl : Nat)

/-- A `recv` has looked at the queue of `impl`. -/
def looked (s : MuxReceive Addr) (impl len : Nat) (r : Option Bytes × Inbox Bytes) :
    MuxReceive Addr :=
  { s with
    inbox := Function.update s.inbox impl r.2
    returned := Function.update s.returned impl
      (s.returned impl ++ (r.1.map fun d => (len, d.take len)).toList) }

/-- `iocp_loop` on a completion, down to the lookup of `dispatch`. -/
def packet [DecidableEq Addr] (s : MuxReceive Addr) (rest : List MuxPacket) :
    MuxOv → MuxReceive Addr
  | .done (some (n + 1)) =>
    { s with thread := .found (n + 1) (MuxDispatch.handler s.mux s.recvSrc) rest }
  | .done (some 0) =>
    { s with
      thread := .rearm rest
      flying := none
      handled := s.handled ++ [(([], s.recvSrc), .empty)] }
  | _ => { s with thread := .rearm rest }

def fate (handler : Option MuxHandler) : MuxFate := handler.elim .nobody .handled

/-- `dispatch` from the end of the lock. -/
def callback (s : MuxReceive Addr) (n : Nat) (handler : Option MuxHandler)
    (rest : List MuxPacket) : MuxReceive Addr :=
  { s with
    thread := .rearm rest
    flying := none
    inbox :=
      match handler with
      | some (.peer impl) =>
        Function.update s.inbox impl ((s.inbox impl).push (s.recvBuf.take n))
      | _ => s.inbox
    handled := s.handled ++ [((s.recvBuf.take n, s.recvSrc), fate handler)] }

/-- `arm_overlapped_recv`, which `iocp_loop` leaves out when the mux is to stop. -/
def rearmed (s : MuxReceive Addr) (accepted : Bool) : MuxOv :=
  if s.stopRequested then s.recvOv else if accepted then .pending else .idle

def step [DecidableEq Addr] (s : MuxReceive Addr) : Act Addr → Option (MuxReceive Addr)
  | .arrive d =>
    if d.1.length ≤ bufSize then
      some { s with queue := s.queue ++ [d], arrived := s.arrived ++ [d] }
    else none
  | .complete =>
    match s.recvOv, s.queue with
    | .pending, d :: rest =>
      some { s with
        queue := rest
        recvBuf := Slices.blit s.recvBuf 0 d.1
        recvSrc := d.2
        recvOv := .done (some d.1.length)
        port := s.port ++ [.recv]
        flying := some d }
    | _, _ => none
  | .fail =>
    match s.recvOv with
    | .pending => some { s with recvOv := .done none, port := s.port ++ [.recv] }
    | _ => none
  | .test =>
    match s.thread with
    | .top => some { s with thread := if s.stopRequested then .exited else .wait }
    | _ => none
  | .harvest count =>
    match s.thread with
    | .wait =>
      if 0 < count ∧ count ≤ 16 ∧ count ≤ s.port.length then
        some { s with thread := .entries (s.port.take count), port := s.port.drop count }
      else none
    | _ => none
  | .waitError =>
    match s.thread with
    | .wait => some { s with thread := .top }
    | _ => none
  | .next =>
    match s.thread with
    | .entries [] => some { s with thread := .top }
    | .entries (.stop :: _) => some { s with thread := .exited }
    | .entries (.recv :: rest) => some (s.packet rest s.recvOv)
    | _ => none
  | .call =>
    match s.thread with
    | .found n handler rest => some (s.callback n handler rest)
    | _ => none
  | .rearm accepted =>
    match s.thread with
    | .rearm rest => some { s with thread := .entries rest, recvOv := s.rearmed accepted }
    | _ => none
  | .stop => some { s with stopRequested := true, port := s.port ++ [.stop] }
  | .create peer =>
    match UdpMux.create (some s.mux) peer s.made with
    | (some m, .ok ()) =>
      some { s with
        mux := m
        made := s.made + 1
        peerAddr := Function.update s.peerAddr s.made peer }
    | (some m, .error _) => some { s with mux := m }
    | (none, _) => none
  | .destroy impl =>
    if impl < s.made ∧ impl ∉ s.gone then
      some { s with mux := s.mux.deregisterPeer (s.peerAddr impl), gone := impl :: s.gone }
    else none
  | .setCatchAll set => some { s with mux := { s.mux with catchAll := set } }
  | .recv impl len =>
    if impl < s.made ∧ impl ∉ s.gone then some (s.looked impl len (s.inbox impl).look) else none
  | .recvAgain impl len =>
    if 0 < (s.inbox impl).ready then some (s.looked impl len (s.inbox impl).lookAgain) else none
  | .spurious impl =>
    if 0 < (s.inbox impl).blocked then
      some { s with inbox := Function.update s.inbox impl (s.inbox impl).spurious }
    else none

def machine (Addr : Type) [DecidableEq Addr] [Inhabited Addr] (armed : Bool) :
    Machine (MuxReceive Addr) (Act Addr) where
  Init s := s = start armed
  step := step

/-- A peer socket is destroyed with no `recv` inside it, and not while the mux's thread has its
callback in hand. -/
def Careful (s : MuxReceive Addr) : Act Addr → Prop
  | .destroy impl => s.thread.inHand ≠ some (.peer impl) ∧
      (s.inbox impl).blocked = 0 ∧ (s.inbox impl).ready = 0
  | _ => True

instance (s : MuxReceive Addr) : (a : Act Addr) → Decidable (s.Careful a)
  | .destroy _ => inferInstanceAs (Decidable (_ ∧ _ ∧ _))
  | .arrive _ | .complete | .fail | .test | .harvest _ | .waitError | .next | .call | .rearm _
  | .stop | .create _ | .setCatchAll _ | .recv _ _ | .recvAgain _ _ | .spurious _ => isTrue trivial

variable {s s' : MuxReceive Addr} {a : Act Addr} {armed : Bool}

/-! ## What a step does -/

inductive StepView [DecidableEq Addr] (s : MuxReceive Addr) :
    Act Addr → MuxReceive Addr → Prop where
  | arrive (d : Bytes × Addr) :
      StepView s (.arrive d) { s with queue := s.queue ++ [d], arrived := s.arrived ++ [d] }
  | complete (d : Bytes × Addr) (rest : List (Bytes × Addr)) :
      s.recvOv = .pending → s.queue = d :: rest →
      StepView s .complete { s with
        queue := rest
        recvBuf := Slices.blit s.recvBuf 0 d.1
        recvSrc := d.2
        recvOv := .done (some d.1.length)
        port := s.port ++ [.recv]
        flying := some d }
  | fail : s.recvOv = .pending →
      StepView s .fail { s with recvOv := .done none, port := s.port ++ [.recv] }
  | test : s.thread = .top →
      StepView s .test { s with thread := if s.stopRequested then .exited else .wait }
  | harvest (count : Nat) : s.thread = .wait → 0 < count → count ≤ s.port.length →
      StepView s (.harvest count)
        { s with thread := .entries (s.port.take count), port := s.port.drop count }
  | waitError : s.thread = .wait → StepView s .waitError { s with thread := .top }
  | nextEnd : s.thread = .entries [] → StepView s .next { s with thread := .top }
  | nextStop (rest : List MuxPacket) : s.thread = .entries (.stop :: rest) →
      StepView s .next { s with thread := .exited }
  | nextRecv (rest : List MuxPacket) : s.thread = .entries (.recv :: rest) →
      StepView s .next (s.packet rest s.recvOv)
  | call (n : Nat) (handler : Option MuxHandler) (rest : List MuxPacket) :
      s.thread = .found n handler rest → StepView s .call (s.callback n handler rest)
  | rearm (accepted : Bool) (rest : List MuxPacket) : s.thread = .rearm rest →
      StepView s (.rearm accepted) { s with thread := .entries rest, recvOv := s.rearmed accepted }
  | stop : StepView s .stop { s with stopRequested := true, port := s.port ++ [.stop] }
  | createOk (peer : Addr) : s.mux.peers peer = none →
      StepView s (.create peer) { s with
        mux := { s.mux with peers := Function.update s.mux.peers peer (some s.made) }
        made := s.made + 1
        peerAddr := Function.update s.peerAddr s.made peer }
  | createError (peer : Addr) :
      StepView s (.create peer) { s with mux := s.mux.deregisterPeer peer }
  | destroy (impl : Nat) : impl < s.made →
      StepView s (.destroy impl)
        { s with mux := s.mux.deregisterPeer (s.peerAddr impl), gone := impl :: s.gone }
  | setCatchAll (set : Bool) :
      StepView s (.setCatchAll set) { s with mux := { s.mux with catchAll := set } }
  | recv (impl len : Nat) : impl < s.made →
      StepView s (.recv impl len) (s.looked impl len (s.inbox impl).look)
  | recvAgain (impl len : Nat) : 0 < (s.inbox impl).ready →
      StepView s (.recvAgain impl len) (s.looked impl len (s.inbox impl).lookAgain)
  | spurious (impl : Nat) : 0 < (s.inbox impl).blocked →
      StepView s (.spurious impl)
        { s with inbox := Function.update s.inbox impl (s.inbox impl).spurious }

theorem step_view [DecidableEq Addr] (he : step s a = some s') : StepView s a s' := by
  cases a with
  | arrive d =>
    obtain ⟨-, he⟩ := Option.ite_none_right_eq_some.1 he
    cases he
    exact .arrive d
  | complete =>
    simp only [step] at he
    split at he
    · rename_i d rest hov hq
      cases he
      exact .complete d rest hov hq
    · cases he
  | fail =>
    simp only [step] at he
    split at he
    · rename_i hov
      cases he
      exact .fail hov
    · cases he
  | test =>
    simp only [step] at he
    split at he
    · rename_i ht
      cases he
      exact .test ht
    · cases he
  | harvest count =>
    simp only [step] at he
    split at he
    · rename_i ht
      obtain ⟨⟨hpos, -, hle⟩, he⟩ := Option.ite_none_right_eq_some.1 he
      cases he
      exact .harvest count ht hpos hle
    · cases he
  | waitError =>
    simp only [step] at he
    split at he
    · rename_i ht
      cases he
      exact .waitError ht
    · cases he
  | next =>
    simp only [step] at he
    split at he
    · rename_i ht
      cases he
      exact .nextEnd ht
    · rename_i rest ht
      cases he
      exact .nextStop rest ht
    · rename_i rest ht
      cases he
      exact .nextRecv rest ht
    · cases he
  | call =>
    simp only [step] at he
    split at he
    · rename_i n handler rest ht
      cases he
      exact .call n handler rest ht
    · cases he
  | rearm accepted =>
    simp only [step] at he
    split at he
    · rename_i rest ht
      cases he
      exact .rearm accepted rest ht
    · cases he
  | stop =>
    cases he
    exact .stop
  | create peer =>
    simp only [step] at he
    cases hp : s.mux.peers peer with
    | none =>
      rw [UdpMux.create_of_free hp] at he
      cases he
      exact .createOk peer hp
    | some old =>
      rw [UdpMux.create_of_registered hp] at he
      cases he
      exact .createError peer
  | destroy impl =>
    obtain ⟨⟨hlt, -⟩, he⟩ := Option.ite_none_right_eq_some.1 he
    cases he
    exact .destroy impl hlt
  | setCatchAll set =>
    cases he
    exact .setCatchAll set
  | recv impl len =>
    obtain ⟨⟨hlt, -⟩, he⟩ := Option.ite_none_right_eq_some.1 he
    cases he
    exact .recv impl len hlt
  | recvAgain impl len =>
    obtain ⟨hready, he⟩ := Option.ite_none_right_eq_some.1 he
    cases he
    exact .recvAgain impl len hready
  | spurious impl =>
    obtain ⟨hblocked, he⟩ := Option.ite_none_right_eq_some.1 he
    cases he
    exact .spurious impl hblocked

/-! ## The token and the buffer -/

/-- The completions in the port and with the thread. -/
def completions (s : MuxReceive Addr) : Nat := s.port.count .recv + s.thread.completions

/-- Where the token is, and what the buffer holds. -/
inductive Phase (s : MuxReceive Addr) : Prop where
  | outstanding (hov : s.recvOv = .pending) (hc : s.completions = 0)
      (hr : s.thread.rearming = false) (hf : s.flying = none)
  | failed (hov : s.recvOv = .done none) (hc : s.completions = 1)
      (hr : s.thread.rearming = false) (hf : s.flying = none)
  | completed (d : Bytes × Addr) (hov : s.recvOv = .done (some d.1.length))
      (hc : s.completions = 1) (hr : s.thread.rearming = false) (hf : s.flying = some d)
      (hbuf : s.recvBuf.take d.1.length = d.1) (hsrc : s.recvSrc = d.2)
  /-- about to be issued again, or refused, or left out because the mux is to stop -/
  | between (hov : s.recvOv ≠ .pending) (hc : s.completions = 0) (hf : s.flying = none)
  | ended (ht : s.thread = .exited) (hf : s.recvOv = .pending → s.flying = none)

namespace Phase

/-- The thread and the port change, and the completions stay where they are. -/
theorem move {b : Bool} {t : MuxLoopPc} {p : List MuxPacket} (h : s.Phase)
    (ht : s.thread = .exited → t = .exited)
    (hc : p.count .recv + t.completions = s.completions)
    (hr : t.rearming = s.thread.rearming) :
    Phase { s with stopRequested := b, thread := t, port := p } := by
  cases h with
  | outstanding hov hc' hr' hf => exact .outstanding hov (hc.trans hc') (hr.trans hr') hf
  | failed hov hc' hr' hf => exact .failed hov (hc.trans hc') (hr.trans hr') hf
  | completed d hov hc' hr' hf hbuf hsrc =>
    exact .completed d hov (hc.trans hc') (hr.trans hr') hf hbuf hsrc
  | between hov hc' hf => exact .between hov (hc.trans hc') hf
  | ended ht' hf => exact .ended (ht ht') hf

/-- What the clients and the network do leaves the receive alone. -/
theorem client {m : UdpMux Addr} {k : Nat} {f : Nat → Addr} {g : List Nat}
    {b : Nat → Inbox Bytes} {r : Nat → List (Nat × Bytes)} {q l : List (Bytes × Addr)}
    (h : s.Phase) :
    Phase { s with
      mux := m, made := k, peerAddr := f, gone := g, inbox := b, returned := r, queue := q,
      arrived := l } := by
  cases h with
  | outstanding hov hc hr hf => exact .outstanding hov hc hr hf
  | failed hov hc hr hf => exact .failed hov hc hr hf
  | completed d hov hc hr hf hbuf hsrc => exact .completed d hov hc hr hf hbuf hsrc
  | between hov hc hf => exact .between hov hc hf
  | ended ht hf => exact .ended ht hf

end Phase

structure FlowInv (s : MuxReceive Addr) : Prop where
  flow : s.arrived = s.handled.map Prod.fst ++ (s.flying.toList ++ s.queue)
  phase : s.Phase
  found : ∀ n handler rest, s.thread = .found n handler rest → s.recvOv = .done (some n)

theorem start_flow [Inhabited Addr] (armed : Bool) : FlowInv (start armed : MuxReceive Addr) := by
  refine ⟨rfl, ?_, by rintro _ _ _ ⟨⟩⟩
  cases armed with
  | true => exact .outstanding rfl rfl rfl rfl
  | false => exact .between (by rintro ⟨⟩) rfl rfl

namespace FlowInv

theorem client {m : UdpMux Addr} {k : Nat} {f : Nat → Addr} {g : List Nat}
    {b : Nat → Inbox Bytes} {r : Nat → List (Nat × Bytes)} (h : s.FlowInv) :
    FlowInv { s with
      mux := m, made := k, peerAddr := f, gone := g, inbox := b, returned := r } :=
  ⟨h.flow, h.phase.client, h.found⟩

/-- The thread goes on without a completion. -/
theorem move {t : MuxLoopPc} {p : List MuxPacket} (h : s.FlowInv)
    (ht : s.thread ≠ .exited) (hc : p.count .recv + t.completions = s.completions)
    (hr : t.rearming = s.thread.rearming) (hfound : ∀ n handler rest, t ≠ .found n handler rest) :
    FlowInv { s with thread := t, port := p } :=
  ⟨h.flow, h.phase.move (fun e => absurd e ht) hc hr,
    fun n handler rest e => absurd e (hfound n handler rest)⟩

/-- The outstanding receive ends. -/
theorem pending_ends (h : s.FlowInv) (hov : s.recvOv = .pending) :
    s.flying = none ∧ (s.completions = 0 ∧ s.thread.rearming = false ∨ s.thread = .exited) := by
  cases h.phase with
  | outstanding _ hc hr hf => exact ⟨hf, .inl ⟨hc, hr⟩⟩
  | failed hov' | completed _ hov' => cases hov.symm.trans hov'
  | between hov' => exact absurd hov hov'
  | ended ht hf => exact ⟨hf hov, .inr ht⟩

/-- A thread that has looked a callback up has the token. -/
theorem inHand_of_pending (h : s.FlowInv) (hov : s.recvOv = .pending) :
    s.thread.inHand = none := by
  cases ht : s.thread with
  | found n handler rest => cases hov.symm.trans (h.found n handler rest ht)
  | top | wait | entries | rearm | exited => rfl

theorem completions_concat (s : MuxReceive Addr) :
    (s.port ++ [MuxPacket.recv]).count .recv + s.thread.completions = s.completions + 1 := by
  rw [List.count_append, completions]
  simp only [List.count_singleton_self]
  omega

theorem complete (h : s.FlowInv) {d : Bytes × Addr} {rest : List (Bytes × Addr)}
    (hov : s.recvOv = .pending) (hq : s.queue = d :: rest) :
    FlowInv { s with
      queue := rest
      recvBuf := Slices.blit s.recvBuf 0 d.1
      recvSrc := d.2
      recvOv := .done (some d.1.length)
      port := s.port ++ [.recv]
      flying := some d } := by
  obtain ⟨hf, hwhere⟩ := h.pending_ends hov
  refine ⟨?_, ?_, fun n handler rest ht => ?_⟩
  · rw [h.flow, hf, hq]
    rfl
  · rcases hwhere with ⟨hc, hr⟩ | ht
    · have hbuf : (Slices.blit s.recvBuf 0 d.1).take d.1.length = d.1 := by
        simp [Slices.blit]
      refine .completed d rfl ?_ hr rfl hbuf rfl
      exact (completions_concat s).trans (by rw [hc])
    · exact .ended ht (by rintro ⟨⟩)
  · cases hov.symm.trans (h.found n handler rest ht)

theorem fail (h : s.FlowInv) (hov : s.recvOv = .pending) :
    FlowInv { s with recvOv := .done none, port := s.port ++ [.recv] } := by
  obtain ⟨hf, hwhere⟩ := h.pending_ends hov
  refine ⟨h.flow, ?_, fun n handler rest ht => ?_⟩
  · rcases hwhere with ⟨hc, hr⟩ | ht
    · exact .failed rfl ((completions_concat s).trans (by rw [hc])) hr hf
    · exact .ended ht (by rintro ⟨⟩)
  · cases hov.symm.trans (h.found n handler rest ht)

/-- A thread that has a completion finds the result of the receive, and the datagram in the
buffer. -/
theorem completion (h : s.FlowInv) (hpos : 0 < s.thread.completions) :
    s.completions = 1 ∧ s.thread.rearming = false ∧
      (s.recvOv = .done none ∧ s.flying = none ∨
        ∃ d : Bytes × Addr, s.recvOv = .done (some d.1.length) ∧ s.flying = some d ∧
          s.recvBuf.take d.1.length = d.1 ∧ s.recvSrc = d.2) := by
  have hne : s.completions ≠ 0 := by
    unfold completions
    omega
  cases h.phase with
  | outstanding _ hc | between _ hc => exact absurd hc hne
  | failed hov hc hr hf => exact ⟨hc, hr, .inl ⟨hov, hf⟩⟩
  | completed d hov hc hr hf hbuf hsrc => exact ⟨hc, hr, .inr ⟨d, hov, hf, hbuf, hsrc⟩⟩
  | ended ht =>
    rw [ht] at hpos
    exact absurd hpos (Nat.lt_irrefl 0)

/-- The datagram is dispatched. -/
theorem dispatched (h : s.FlowInv) {d : Bytes × Addr} (hf : s.flying = some d) (fate : MuxFate) :
    s.arrived = (s.handled ++ [(d, fate)]).map Prod.fst ++ ([] ++ s.queue) := by
  rw [h.flow, hf, List.map_append, List.append_assoc]
  rfl

theorem packet [DecidableEq Addr] (h : s.FlowInv) {rest : List MuxPacket}
    (ht : s.thread = .entries (.recv :: rest)) : FlowInv (s.packet rest s.recvOv) := by
  have hthread : s.thread.completions = rest.count .recv + 1 := by
    rw [ht]
    exact List.count_cons_self
  obtain ⟨hc, hr, hres⟩ := h.completion (by omega)
  have hafter : s.port.count .recv + rest.count .recv = 0 := by
    rw [completions, hthread] at hc
    omega
  rcases hres with ⟨hov, hf⟩ | ⟨d, hov, hf, hbuf, hsrc⟩
  · have hne : s.recvOv ≠ .pending := by
      rw [hov]
      rintro ⟨⟩
    rw [hov]
    exact ⟨h.flow, .between hne hafter hf, by rintro _ _ _ ⟨⟩⟩
  · have hne : s.recvOv ≠ .pending := by
      rw [hov]
      rintro ⟨⟩
    rw [hov]
    cases hlen : d.1.length with
    | zero =>
      have hd : d = ([], s.recvSrc) := Prod.ext (List.eq_nil_of_length_eq_zero hlen) hsrc.symm
      have hflow := h.dispatched (hf.trans (congrArg some hd)) .empty
      exact ⟨hflow, .between hne hafter rfl, by rintro _ _ _ ⟨⟩⟩
    | succ n =>
      refine ⟨h.flow, h.phase.move (by rw [ht]; rintro ⟨⟩) ?_ hr.symm, ?_⟩
      · rw [completions, hthread]
        rfl
      · rintro _ _ _ ⟨⟩
        exact hov.trans (by rw [hlen])

theorem callback (h : s.FlowInv) {n : Nat} {handler : Option MuxHandler} {rest : List MuxPacket}
    (ht : s.thread = .found n handler rest) : FlowInv (s.callback n handler rest) := by
  have hthread : s.thread.completions = rest.count .recv + 1 := by
    rw [ht]
    rfl
  obtain ⟨hc, hr, hres⟩ := h.completion (by omega)
  have hn := h.found n handler rest ht
  rcases hres with ⟨hov, -⟩ | ⟨d, hov, hf, hbuf, hsrc⟩
  · cases hov.symm.trans hn
  · obtain rfl : d.1.length = n := by simpa using hov.symm.trans hn
    have hafter : s.port.count .recv + rest.count .recv = 0 := by
      rw [completions, hthread] at hc
      omega
    have hne : s.recvOv ≠ .pending := by
      rw [hov]
      rintro ⟨⟩
    have hd : d = (s.recvBuf.take d.1.length, s.recvSrc) := Prod.ext hbuf.symm hsrc.symm
    have hflow := h.dispatched (hf.trans (congrArg some hd)) (fate handler)
    exact ⟨hflow, .between hne hafter rfl, by rintro _ _ _ ⟨⟩⟩

/-- The receive is issued by a thread that has the token. -/
theorem rearm (h : s.FlowInv) {rest : List MuxPacket} (ht : s.thread = .rearm rest)
    (accepted : Bool) :
    FlowInv { s with thread := .entries rest, recvOv := s.rearmed accepted } := by
  have hr : s.thread.rearming = true := by
    rw [ht]
    rfl
  refine ⟨h.flow, ?_, by rintro _ _ _ ⟨⟩⟩
  cases h.phase with
  | outstanding _ _ hr' | failed _ _ hr' | completed _ _ _ hr' => cases hr.symm.trans hr'
  | ended ht' => cases ht.symm.trans ht'
  | between hov hc hf =>
    have hc' : s.port.count .recv + rest.count .recv = 0 := by
      rw [completions, ht] at hc
      exact hc
    unfold rearmed
    split
    · exact .between hov hc' hf
    · split
      · exact .outstanding rfl hc' rfl hf
      · exact .between (by rintro ⟨⟩) hc' hf

end FlowInv

theorem step_flow [DecidableEq Addr] (h : s.FlowInv) (he : step s a = some s') : s'.FlowInv := by
  cases step_view he with
  | arrive d =>
    refine ⟨?_, h.phase.client, h.found⟩
    show s.arrived ++ [d] = _
    rw [h.flow, List.append_assoc, List.append_assoc]
  | complete d rest hov hq => exact h.complete hov hq
  | fail hov => exact h.fail hov
  | test ht =>
    split
    · exact h.move (by rw [ht]; rintro ⟨⟩) (by rw [completions, ht]; rfl) (by rw [ht]; rfl)
        (by rintro _ _ _ ⟨⟩)
    · exact h.move (by rw [ht]; rintro ⟨⟩) (by rw [completions, ht]; rfl) (by rw [ht]; rfl)
        (by rintro _ _ _ ⟨⟩)
  | harvest count ht hpos hle =>
    refine h.move (by rw [ht]; rintro ⟨⟩) ?_ (by rw [ht]; rfl) (by rintro _ _ _ ⟨⟩)
    have hsplit := congrArg (List.count MuxPacket.recv) (List.take_append_drop count s.port)
    rw [List.count_append] at hsplit
    rw [completions, ht]
    exact (Nat.add_comm ..).trans hsplit
  | waitError ht =>
    exact h.move (by rw [ht]; rintro ⟨⟩) (by rw [completions, ht]; rfl) (by rw [ht]; rfl)
      (by rintro _ _ _ ⟨⟩)
  | nextEnd ht =>
    exact h.move (by rw [ht]; rintro ⟨⟩) (by rw [completions, ht]; rfl) (by rw [ht]; rfl)
      (by rintro _ _ _ ⟨⟩)
  | nextStop rest ht =>
    -- completions behind the stop packet are left where they are
    exact ⟨h.flow, .ended rfl fun hov => (h.pending_ends hov).1, by rintro _ _ _ ⟨⟩⟩
  | nextRecv rest ht => exact h.packet ht
  | call n handler rest ht => exact h.callback ht
  | rearm accepted rest ht => exact h.rearm ht accepted
  | stop =>
    refine ⟨h.flow, h.phase.move id ?_ rfl, h.found⟩
    rw [List.count_append]
    rfl
  | createOk | createError | destroy | setCatchAll | recv | recvAgain | spurious => exact h.client

/-! ## The peers and their sockets -/

structure RegInv (s : MuxReceive Addr) : Prop where
  reg : s.mux.Registered s.made s.gone
  addr : ∀ a i, s.mux.peers a = some i → s.peerAddr i = a
  inHand : ∀ i, s.thread.inHand = some (.peer i) →
    i < s.made ∧ i ∉ s.gone ∧ s.peerAddr i = s.recvSrc
  handled : ∀ x ∈ s.handled, ∀ i, x.2 = .handled (.peer i) →
    i < s.made ∧ x.1.2 = s.peerAddr i

theorem start_reg [Inhabited Addr] (armed : Bool) : RegInv (start armed : MuxReceive Addr) :=
  ⟨⟨by rintro _ _ ⟨⟩, by rintro _ _ _ ⟨⟩, by rintro _ ⟨⟩⟩, by rintro _ _ ⟨⟩, by rintro _ ⟨⟩,
    by rintro _ ⟨⟩⟩

namespace RegInv

/-- The thread has no callback in hand. -/
theorem handsFree {b : Bool} {t : MuxLoopPc} {p : List MuxPacket} {q : List (Bytes × Addr)}
    {ov : MuxOv} {buf : Bytes} {src : Addr} {fl : Option (Bytes × Addr)} (h : s.RegInv)
    (ht : t.inHand = none) :
    RegInv { s with
      stopRequested := b, thread := t, port := p, queue := q, recvOv := ov, recvBuf := buf,
      recvSrc := src, flying := fl } :=
  ⟨h.reg, h.addr, fun _ hi => absurd (ht.symm.trans hi) (by rintro ⟨⟩), h.handled⟩

theorem dispatched (h : s.RegInv) {d : Bytes × Addr} {f : MuxFate}
    (hd : ∀ i, f = .handled (.peer i) → i < s.made ∧ d.2 = s.peerAddr i) :
    ∀ x ∈ s.handled ++ [(d, f)], ∀ i, x.2 = .handled (.peer i) →
      i < s.made ∧ x.1.2 = s.peerAddr i := by
  intro x hx
  rcases List.mem_append.1 hx with hx | hx
  · exact h.handled x hx
  · obtain rfl := List.mem_singleton.1 hx
    exact hd

theorem packet [DecidableEq Addr] (h : s.RegInv) (rest : List MuxPacket) (ov : MuxOv) :
    RegInv (s.packet rest ov) := by
  unfold MuxReceive.packet
  split
  · refine ⟨h.reg, h.addr, fun i hi => ?_, h.handled⟩
    have hp := MuxDispatch.peers_of_handler hi
    exact ⟨(h.reg.peers _ i hp).1, (h.reg.peers _ i hp).2, h.addr _ i hp⟩
  · exact ⟨h.reg, h.addr, by rintro _ ⟨⟩, h.dispatched (by rintro _ ⟨⟩)⟩
  · exact h.handsFree rfl

theorem callback (h : s.RegInv) {n : Nat} {handler : Option MuxHandler} {rest : List MuxPacket}
    (ht : s.thread = .found n handler rest) : RegInv (s.callback n handler rest) := by
  refine ⟨h.reg, h.addr, by rintro _ ⟨⟩, h.dispatched fun i hi => ?_⟩
  have hhand : s.thread.inHand = some (.peer i) := by
    rw [ht]
    cases handler with
    | none => cases hi
    | some handler =>
      cases hi
      rfl
  obtain ⟨hlt, -, haddr⟩ := h.inHand i hhand
  exact ⟨hlt, haddr.symm⟩

theorem create [DecidableEq Addr] (h : s.RegInv) (peer : Addr) :
    RegInv { s with
      mux := { s.mux with peers := Function.update s.mux.peers peer (some s.made) }
      made := s.made + 1
      peerAddr := Function.update s.peerAddr s.made peer } := by
  have hold {i : Nat} (hi : i < s.made) : Function.update s.peerAddr s.made peer i = s.peerAddr i :=
    Function.update_of_ne (Nat.ne_of_lt hi) ..
  refine ⟨h.reg.register peer, fun a i ha => ?_, fun i hi => ?_, fun x hx i hi => ?_⟩
  · rcases UdpMux.of_update_peers ha with ⟨rfl, rfl⟩ | ha
    · exact Function.update_self ..
    · exact (hold (h.reg.peers a i ha).1).trans (h.addr a i ha)
  · obtain ⟨hlt, hg, haddr⟩ := h.inHand i hi
    exact ⟨Nat.lt_succ_of_lt hlt, hg, (hold hlt).trans haddr⟩
  · obtain ⟨hlt, haddr⟩ := h.handled x hx i hi
    exact ⟨Nat.lt_succ_of_lt hlt, haddr.trans (hold hlt).symm⟩

/-- A socket is registered under its own address only, so its destructor ends its registration. -/
theorem destroy [DecidableEq Addr] (h : s.RegInv) {impl : Nat} (hlt : impl < s.made)
    (hhand : s.thread.inHand ≠ some (.peer impl)) :
    RegInv { s with
      mux := s.mux.deregisterPeer (s.peerAddr impl), gone := impl :: s.gone } := by
  have hl : ∀ i ∈ [impl], i < s.made ∧ ∀ a, s.mux.peers a = some i → a = s.peerAddr impl := by
    intro i hi
    obtain rfl := List.mem_singleton.1 hi
    exact ⟨hlt, fun a ha => (h.addr a i ha).symm⟩
  refine ⟨h.reg.deregister hl, fun a i ha => h.addr a i (UdpMux.of_deregisterPeer ha).2,
    fun i hi => ?_, h.handled⟩
  · obtain ⟨hi', hg, haddr⟩ := h.inHand i hi
    refine ⟨hi', List.not_mem_cons_of_ne_of_not_mem ?_ hg, haddr⟩
    rintro rfl
    exact hhand hi

end RegInv

theorem step_reg [DecidableEq Addr] (hf : s.FlowInv) (h : s.RegInv) (hok : s.Careful a)
    (he : step s a = some s') : s'.RegInv := by
  cases step_view he with
  | arrive => exact ⟨h.reg, h.addr, h.inHand, h.handled⟩
  | complete d rest hov hq =>
    exact h.handsFree (hf.inHand_of_pending hov)
  | fail => exact ⟨h.reg, h.addr, h.inHand, h.handled⟩
  | test =>
    split
    · exact h.handsFree rfl
    · exact h.handsFree rfl
  | harvest | waitError | nextEnd | nextStop | rearm => exact h.handsFree rfl
  | nextRecv rest => exact h.packet rest s.recvOv
  | call n handler rest ht => exact h.callback ht
  | stop => exact ⟨h.reg, h.addr, h.inHand, h.handled⟩
  | createOk peer => exact h.create peer
  | createError peer =>
    exact ⟨h.reg.deregister (l := []) (by rintro _ ⟨⟩),
      fun a i ha => h.addr a i (UdpMux.of_deregisterPeer ha).2, h.inHand, h.handled⟩
  | destroy impl hlt => exact h.destroy hlt hok.1
  | setCatchAll =>
    exact ⟨⟨h.reg.peers, h.reg.inj, h.reg.gone⟩, h.addr, h.inHand, h.handled⟩
  | recv | recvAgain | spurious => exact ⟨h.reg, h.addr, h.inHand, h.handled⟩

/-! ## The queues of the peer sockets -/

/-- What was given to `impl`. -/
def givenTo (i : Nat) (l : List ((Bytes × Addr) × MuxFate)) : List Bytes :=
  (l.filter fun x => x.2 = .handled (.peer i)).map fun x => x.1.1

/-- `recv` copies as much as there is room for. -/
def Copied (r : Nat × Bytes) (d : Bytes) : Prop := r.2 = d.take r.1

structure BoxInv (s : MuxReceive Addr) (i : Nat) : Prop where
  inv : (s.inbox i).Inv
  pushed : (s.inbox i).pushed = givenTo i s.handled
  returned : List.Forall₂ Copied (s.returned i) (s.inbox i).popped

theorem start_box [Inhabited Addr] (armed : Bool) (i : Nat) :
    BoxInv (start armed : MuxReceive Addr) i := ⟨Inbox.empty_inv, rfl, .nil⟩

namespace BoxInv

variable {i : Nat}

theorem of_inbox {b : Inbox Bytes} (hb : s.inbox i = b) (hinv : b.Inv)
    (hpushed : b.pushed = givenTo i s.handled)
    (hreturned : List.Forall₂ Copied (s.returned i) b.popped) : s.BoxInv i := by
  subst hb
  exact ⟨hinv, hpushed, hreturned⟩

theorem givenTo_concat (l : List ((Bytes × Addr) × MuxFate)) (d : Bytes × Addr) (f : MuxFate) :
    givenTo i (l ++ [(d, f)]) = givenTo i l ++ if f = .handled (.peer i) then [d.1] else [] := by
  unfold givenTo
  rw [List.filter_append, List.map_append]
  by_cases e : f = .handled (.peer i)
  · simp [e]
  · simp [e]

theorem packet [DecidableEq Addr] (h : s.BoxInv i) (rest : List MuxPacket) (ov : MuxOv) :
    BoxInv (s.packet rest ov) i := by
  unfold MuxReceive.packet
  split
  · exact ⟨h.inv, h.pushed, h.returned⟩
  · exact ⟨h.inv, h.pushed.trans (by rw [givenTo_concat]; exact (List.append_nil _).symm),
      h.returned⟩
  · exact ⟨h.inv, h.pushed, h.returned⟩

theorem callback_inbox (s : MuxReceive Addr) (n : Nat) (handler : Option MuxHandler)
    (rest : List MuxPacket) (i : Nat) : (s.callback n handler rest).inbox i =
      if handler = some (.peer i) then (s.inbox i).push (s.recvBuf.take n) else s.inbox i := by
  unfold MuxReceive.callback
  split
  · rename_i impl
    by_cases e : i = impl
    · subst e
      simp
    · simp [Function.update_of_ne e, Ne.symm e]
  · rename_i hne
    exact (if_neg (hne i)).symm

theorem callback (h : s.BoxInv i) (n : Nat) (handler : Option MuxHandler)
    (rest : List MuxPacket) : BoxInv (s.callback n handler rest) i := by
  have hbox := callback_inbox s n handler rest i
  have hgiven := givenTo_concat (i := i) s.handled (s.recvBuf.take n, s.recvSrc) (fate handler)
  by_cases e : handler = some (.peer i)
  · have hfate : fate handler = .handled (.peer i) := by
      rw [e]
      rfl
    rw [if_pos e] at hbox
    rw [if_pos hfate] at hgiven
    refine of_inbox hbox (h.inv.push _) ?_ ?_
    · rw [Inbox.push_pushed, h.pushed]
      exact hgiven.symm
    · rw [Inbox.push_popped]
      exact h.returned
  · have hfate : fate handler ≠ .handled (.peer i) := by
      cases handler with
      | none => rintro ⟨⟩
      | some handler => exact fun hf => e (congrArg some (MuxFate.handled.inj hf))
    rw [if_neg e] at hbox
    rw [if_neg hfate, List.append_nil] at hgiven
    exact of_inbox hbox h.inv (h.pushed.trans hgiven.symm) h.returned

/-- A `recv` on `impl` looks at its queue, for the first time or again. -/
theorem looked (h : s.BoxInv i) {impl len : Nat} {r : Option Bytes × Inbox Bytes}
    (hinv : (s.inbox impl).Inv → r.2.Inv) (hpushed : r.2.pushed = (s.inbox impl).pushed)
    (hpopped : r.2.popped = (s.inbox impl).popped ++ r.1.toList) :
    BoxInv (s.looked impl len r) i := by
  by_cases e : i = impl
  · subst e
    refine of_inbox (Function.update_self ..) (hinv h.inv) (hpushed.trans h.pushed) ?_
    show List.Forall₂ Copied (Function.update s.returned i _ i) _
    rw [Function.update_self, hpopped]
    refine List.rel_append h.returned ?_
    cases r.1 with
    | none => exact .nil
    | some d => exact .cons rfl .nil
  · refine of_inbox (Function.update_of_ne e ..) h.inv h.pushed ?_
    show List.Forall₂ Copied (Function.update s.returned impl _ i) _
    rw [Function.update_of_ne e]
    exact h.returned

theorem spurious (h : s.BoxInv i) {impl : Nat} (hblocked : 0 < (s.inbox impl).blocked) :
    BoxInv { s with inbox := Function.update s.inbox impl (s.inbox impl).spurious } i := by
  by_cases e : i = impl
  · subst e
    exact of_inbox (Function.update_self ..) (h.inv.spurious hblocked) h.pushed h.returned
  · exact of_inbox (Function.update_of_ne e ..) h.inv h.pushed h.returned

end BoxInv

theorem step_box [DecidableEq Addr] {i : Nat} (h : s.BoxInv i) (he : step s a = some s') :
    s'.BoxInv i := by
  cases step_view he with
  | nextRecv rest => exact h.packet rest s.recvOv
  | call n handler rest => exact h.callback n handler rest
  | recv impl len =>
    exact h.looked Inbox.Inv.look (Inbox.look_pushed _) (Inbox.look_popped _)
  | recvAgain impl len hready =>
    exact h.looked (fun hinv => hinv.lookAgain hready) (Inbox.lookAgain_pushed _)
      (Inbox.lookAgain_popped _)
  | spurious impl hblocked => exact h.spurious hblocked
  | _ => exact ⟨h.inv, h.pushed, h.returned⟩

/-! ## The dispatching alone

Without the datagrams, the buffers and the receivers this is `MuxDispatch`. A failed `create` and
the destructor both deregister, by address. -/

/-- The thread as `MuxDispatch` has it. -/
def dispatchThread : MuxLoopPc → MuxThread
  | .found _ handler _ => handler.elim .idle .found
  | .top | .wait | .entries _ | .rearm _ | .exited => .idle

/-- The registrations and the thread; `removed` are the `impl`s that lost their registration. -/
def dispatching (s : MuxReceive Addr) (removed : List Nat) : MuxDispatch Addr :=
  ⟨s.mux, s.made, dispatchThread s.thread, removed⟩

/-- The address a step deregisters. -/
def deregisters (s : MuxReceive Addr) : Act Addr → Option Addr
  | .create peer => some peer
  | .destroy impl => some (s.peerAddr impl)
  | _ => none

/-- No registration is removed while the mux's thread has its callback in hand. -/
def Calm (s : MuxReceive Addr) (a : Act Addr) : Prop :=
  ∀ peer ∈ s.deregisters a, ∀ i ∈ s.mux.peers peer, s.thread.inHand ≠ some (.peer i)

theorem inHand_dispatchThread (pc : MuxLoopPc) : (dispatchThread pc).inHand = pc.inHand := by
  cases pc with
  | found n handler rest => cases handler <;> rfl
  | top | wait | entries | rearm | exited => rfl

theorem Calm.notInHand (h : s.Calm a) {peer : Addr} (hp : peer ∈ s.deregisters a)
    (removed : List Nat) : (s.dispatching removed).NotInHand (.deregister peer) := by
  refine (Option.all_eq_true ..).2 fun i hi => decide_eq_true ?_
  show (dispatchThread s.thread).inHand ≠ _
  rw [inHand_dispatchThread]
  exact h peer hp i hi

/-- A step of the mux that is the run `as` of the dispatching. -/
def DispatchRun [DecidableEq Addr] (s : MuxReceive Addr) (a : Act Addr) (removed : List Nat)
    (s' : MuxReceive Addr) : Prop :=
  ∃ as removed', (MuxDispatch.machine Addr).Path (fun t b => s.Calm a → t.NotInHand b)
    (s.dispatching removed) as (s'.dispatching removed')

theorem DispatchRun.same [DecidableEq Addr] {removed : List Nat} (hm : s'.mux = s.mux)
    (hk : s'.made = s.made)
    (ht : dispatchThread s'.thread = dispatchThread s.thread) : s.DispatchRun a removed s' := by
  refine ⟨[], removed, ?_⟩
  have e : s'.dispatching removed = s.dispatching removed := by
    rw [dispatching, dispatching, hm, hk, ht]
  rw [e]
  exact .nil _

theorem DispatchRun.packet [DecidableEq Addr] {removed : List Nat} {rest : List MuxPacket}
    (ht : s.thread = .entries (.recv :: rest)) :
    s.DispatchRun .next removed (s.packet rest s.recvOv) := by
  have hidle : dispatchThread s.thread = .idle := congrArg dispatchThread ht
  unfold MuxReceive.packet
  split
  · refine ⟨[.lookup s.recvSrc], removed, .cons (fun _ => trivial) ?_ (.nil _)⟩
    simp only [MuxDispatch.machine, MuxDispatch.step, dispatching, hidle]
    cases hh : MuxDispatch.handler s.mux s.recvSrc with
    | none => rfl
    | some handler => rfl
  · exact .same rfl rfl hidle.symm
  · exact .same rfl rfl hidle.symm

theorem DispatchRun.callback [DecidableEq Addr] {removed : List Nat} {n : Nat}
    {handler : Option MuxHandler} {rest : List MuxPacket}
    (ht : s.thread = .found n handler rest) :
    s.DispatchRun .call removed (s.callback n handler rest) := by
  cases handler with
  | none => exact .same rfl rfl (congrArg dispatchThread ht).symm
  | some handler =>
    have hfound : dispatchThread s.thread = .found handler := congrArg dispatchThread ht
    refine ⟨[.call, .callReturn], removed,
      .cons (t := ⟨s.mux, s.made, .calling handler, removed⟩) (fun _ => trivial) ?_
        (.cons (fun _ => trivial) rfl (.nil _))⟩
    simp only [MuxDispatch.machine, MuxDispatch.step, dispatching, hfound]

/-- **A step of the mux with its datagrams is a run of the dispatching.** -/
theorem step_dispatch [DecidableEq Addr] (he : step s a = some s') (removed : List Nat) :
    s.DispatchRun a removed s' := by
  cases step_view he with
  | createOk peer hp =>
    refine ⟨[.register peer], removed, .cons (fun _ => trivial) ?_ (.nil _)⟩
    simp [MuxDispatch.machine, MuxDispatch.step, UdpMux.registerPeer, dispatching, hp]
  | createError peer =>
    exact ⟨[.deregister peer], _, .cons (fun h => h.notInHand rfl removed) rfl (.nil _)⟩
  | destroy impl =>
    exact ⟨[.deregister (s.peerAddr impl)], _,
      .cons (fun h => h.notInHand rfl removed) rfl (.nil _)⟩
  | setCatchAll set =>
    exact ⟨[.setCatchAll set], removed, .cons (fun _ => trivial) rfl (.nil _)⟩
  | nextRecv rest ht => exact .packet ht
  | call n handler rest ht => exact .callback ht
  | test ht =>
    refine .same rfl rfl ?_
    rw [ht]
    show dispatchThread (if s.stopRequested then .exited else .wait) = _
    split <;> rfl
  | harvest _ ht | waitError ht | nextEnd ht | nextStop _ ht | rearm _ _ ht =>
    exact .same rfl rfl (congrArg dispatchThread ht).symm
  | arrive | complete | fail | stop | recv | recvAgain | spurious => exact .same rfl rfl rfl

/-! ## Every run -/

structure Inv (s : MuxReceive Addr) : Prop where
  flow : s.FlowInv
  reg : s.RegInv
  box : ∀ i, s.BoxInv i

theorem start_inv [Inhabited Addr] (armed : Bool) : Inv (start armed : MuxReceive Addr) :=
  ⟨start_flow armed, start_reg armed, start_box armed⟩

theorem step_inv [DecidableEq Addr] (h : s.Inv) (hok : s.Careful a) (he : step s a = some s') :
    s'.Inv :=
  ⟨step_flow h.flow he, step_reg h.flow h.reg hok he, fun i => step_box (h.box i) he⟩

variable [DecidableEq Addr] [Inhabited Addr]

theorem reach_inv (h : (machine Addr armed).ReachOk Careful s) : s.Inv :=
  h.inv (I := Inv) (fun s (hs : s = start armed) => hs ▸ start_inv armed)
    fun _ _ _ _ hi hok he => step_inv hi hok he

theorem reach_dispatch {ok : MuxReceive Addr → Act Addr → Prop} (hok : ∀ s a, ok s a → s.Calm a)
    (h : (machine Addr armed).ReachOk ok s) :
    ∃ removed, (MuxDispatch.machine Addr).ReachOk MuxDispatch.NotInHand
      (s.dispatching removed) := by
  induction h with
  | init hi => exact ⟨[], .init (by rw [show _ = start armed from hi]; rfl)⟩
  | step _ ho he ih =>
    obtain ⟨removed, hr⟩ := ih
    obtain ⟨as, removed', hp⟩ := step_dispatch he removed
    exact ⟨removed', hr.of_path (hp.mono fun _ _ hb => hb (hok _ _ ho))⟩

/-- Where in addition no registration is removed under a callback in hand, the callback is that of
the peer registered for the datagram's source. -/
theorem inHand_registered {i : Nat}
    (h : (machine Addr armed).ReachOk (fun s a => s.Careful a ∧ s.Calm a) s)
    (hi : s.thread.inHand = some (.peer i)) : s.mux.peers s.recvSrc = some i := by
  obtain ⟨removed, hr⟩ := reach_dispatch (fun _ _ => And.right) h
  have hdisp := MuxDispatch.reach_inv hr
  have hreg := (reach_inv (h.mono fun _ _ => And.left)).reg
  obtain ⟨hlt, hkept⟩ := hdisp.inHand i ((inHand_dispatchThread s.thread).trans hi)
  obtain ⟨a, ha⟩ := (hdisp.kept i hlt).resolve_left hkept
  have ha' : s.mux.peers a = some i := ha
  rw [← (hreg.inHand i hi).2.2, hreg.addr a i ha']
  exact ha'

/-- **From the network to `recv`.** However the mux's thread, the kernel, the receivers and the
clients that make and destroy peer sockets interleave, the datagrams are taken in the order they
arrived, each one once and with its own bytes and source, and dispatched in that order but for the
empty ones, which the thread drops; a peer socket is given those of its own peer only, and never
after it was destroyed; its calls of `recv` return what it was given one by one, each cut to the
room the call has; and while a call sleeps, every datagram in the queue has an awake call coming
for it. -/
theorem peers_receive (h : (machine Addr armed).ReachOk Careful s) :
    s.arrived = s.handled.map Prod.fst ++ (s.flying.toList ++ s.queue) ∧
      (∀ x ∈ s.handled, ∀ i, x.2 = .handled (.peer i) → x.1.2 = s.peerAddr i) ∧
      (∀ i, s.thread.inHand = some (.peer i) → i ∉ s.gone) ∧
      ∀ i, (∃ taken, List.Forall₂ Copied (s.returned i) taken ∧
          taken ++ (s.inbox i).queue = givenTo i s.handled) ∧
        (0 < (s.inbox i).blocked → (s.inbox i).queue.length ≤ (s.inbox i).ready) := by
  obtain ⟨hflow, hreg, hbox⟩ := reach_inv h
  refine ⟨hflow.flow, fun x hx i hi => (hreg.handled x hx i hi).2,
    fun i hi => (hreg.inHand i hi).2.1, fun i => ⟨⟨(s.inbox i).popped, (hbox i).returned, ?_⟩,
    (hbox i).inv.served⟩⟩
  exact (hbox i).inv.fifo.trans (hbox i).pushed

/-- A receiver sleeps before its datagram comes in, and is woken for it. -/
theorem peers_receive_woken : ∃ s : MuxReceive Nat, (machine Nat true).ReachOk Careful s ∧
    s.returned 0 = [(2, [7, 8])] ∧ s.handled = [(([7, 8, 9], 4), .handled (.peer 0)),
      (([1], 5), .nobody)] ∧
    s.arrived = s.handled.map Prod.fst ++ (s.flying.toList ++ s.queue) := by
  obtain ⟨s, hr, hp⟩ := Machine.ReachOk.of_runOk_init (M := machine Nat true) Careful
    (fun s => decide (s.returned 0 = [(2, [7, 8])] ∧
      s.handled = [(([7, 8, 9], 4), .handled (.peer 0)), (([1], 5), .nobody)]))
    [.create 4, .recv 0 2, .arrive ([7, 8, 9], 4), .arrive ([1], 5), .complete, .test, .harvest 1,
      .next, .call, .recvAgain 0 2, .rearm true, .complete, .next, .test, .harvest 1, .next, .call]
    rfl (by decide)
  obtain ⟨h1, h2⟩ := of_decide_eq_true hp
  exact ⟨s, hr, h1, h2, (peers_receive hr).1⟩

end MuxReceive

end Socketpp
