import Socketpp.Lib.Machine
import Socketpp.Event.EpollMask
import Socketpp.High.DgramReceive

/-!
# Receiving on a claimed peer's socket

On POSIX a claimed peer has a connected socket of its own. `arm` registers it for
readable events, and the callback calls `handle_readable`
(`src/high/dgram_peer_impl.hpp`), which calls `recv` until there is nothing left.

The loop takes a `recv` of zero bytes for the end of a stream, which a datagram
socket does not have: an empty datagram is dropped (`peer_receives_iff`), although
the parent's path delivers it (`parentSubmits_eq`). And the callback looks at
readable alone. An error that is pending while no datagram is queued is reported
without readable, so it stays where it is and is reported again, without end
(`peer_event_progress_iff`).

`E` is the type of the errors the kernel holds for the socket; `would_block` is
not one of them.
-/

namespace Socketpp

/-- What the kernel holds for a connected UDP socket. -/
structure ConnectedUdp (E : Type) where
  queue : List Bytes
  /-- an ICMP error that was not reported yet -/
  error : Option E
  deriving DecidableEq, Repr

/-- The result of `peer_socket_.recv`. -/
inductive UdpRecv (E : Type) where
  | data (bytes : Bytes)
  | wouldBlock
  | error (e : E)
  deriving DecidableEq, Repr

namespace ConnectedUdp

variable {E : Type}

/-- `recv` into a buffer of `size` bytes. The error comes first and is gone with that; what does
not fit of a datagram is cut off. -/
def recv (k : ConnectedUdp E) (size : Nat) : UdpRecv E × ConnectedUdp E :=
  match k.error, k.queue with
  | some e, _ => (.error e, { k with error := none })
  | none, d :: rest => (.data (d.take size), { k with queue := rest })
  | none, [] => (.wouldBlock, k)

def readiness (k : ConnectedUdp E) : Readiness where
  input := !k.queue.isEmpty
  output := true
  error := k.error.isSome
  hangup := false
  peerShutdown := false

def arrive (k : ConnectedUdp E) (d : Bytes) : ConnectedUdp E := { k with queue := k.queue ++ [d] }

end ConnectedUdp

/-- `dgram_peer_impl`, as far as it receives. -/
structure PeerImpl (E : Type) where
  sock : ConnectedUdp E
  /-- the dispatcher has the socket, for readable events -/
  registered : Bool
  isOpen : Bool
  onData : Bool
  onError : Bool
  /-- the size of `read_buf_` -/
  bufSize : Nat
  /-- what was submitted for `on_data_cb` -/
  submitted : List Bytes
  /-- what was submitted for `on_error_cb` -/
  errors : List E
  deriving DecidableEq, Repr

namespace PeerImpl

variable {E : Type}

def deliverData (p : PeerImpl E) (data : Bytes) : PeerImpl E :=
  if p.isOpen = false ∨ p.onData = false then p
  else { p with submitted := p.submitted ++ [data] }

def notify (p : PeerImpl E) (e : E) : PeerImpl E :=
  if p.onError then { p with errors := p.errors ++ [e] } else p

/-- The body of the loop in `handle_readable`, and whether the loop goes on. -/
def receive (p : PeerImpl E) : PeerImpl E × Bool :=
  let r := p.sock.recv p.bufSize
  let p := { p with sock := r.2 }
  match r.1 with
  | .wouldBlock => (p, false)
  | .error e => (p.notify e, false)
  | .data bytes => if bytes.length = 0 then (p, false) else (p.deliverData bytes, true)

/-- What one pass of the loop does. -/
inductive Received (p : PeerImpl E) : PeerImpl E → Bool → Prop where
  | error (e : E) (he : p.sock.error = some e) :
      Received p ({ p with sock := ⟨p.sock.queue, none⟩ }.notify e) false
  | wouldBlock (he : p.sock.error = none) (hq : p.sock.queue = []) : Received p p false
  | empty (d : Bytes) (rest : List Bytes) (he : p.sock.error = none)
      (hq : p.sock.queue = d :: rest) (hd : d.take p.bufSize = []) :
      Received p { p with sock := ⟨rest, none⟩ } false
  | data (d : Bytes) (rest : List Bytes) (he : p.sock.error = none)
      (hq : p.sock.queue = d :: rest) (hd : d.take p.bufSize ≠ []) :
      Received p ({ p with sock := ⟨rest, none⟩ }.deliverData (d.take p.bufSize)) true

theorem receive_view (p : PeerImpl E) : ∃ p' b, p.receive = (p', b) ∧ p.Received p' b := by
  unfold receive ConnectedUdp.recv
  cases he : p.sock.error with
  | some e => exact ⟨_, _, rfl, .error e he⟩
  | none =>
    cases hq : p.sock.queue with
    | nil => exact ⟨_, _, rfl, .wouldBlock he hq⟩
    | cons d rest =>
      simp only [List.length_eq_zero_iff]
      split
      · rename_i hd
        exact ⟨_, _, rfl, .empty d rest he hq hd⟩
      · rename_i hd
        exact ⟨_, _, rfl, .data d rest he hq hd⟩

@[simp] theorem notify_sock (p : PeerImpl E) (e : E) : (p.notify e).sock = p.sock := by
  unfold notify; split <;> rfl

@[simp] theorem deliverData_sock (p : PeerImpl E) (d : Bytes) :
    (p.deliverData d).sock = p.sock := by
  unfold deliverData; split <;> rfl

theorem notify_eq (p : PeerImpl E) (e : E) :
    p.notify e = { p with errors := (p.notify e).errors } := by
  unfold notify; split <;> rfl

theorem deliverData_eq (p : PeerImpl E) (d : Bytes) :
    p.deliverData d = { p with submitted := (p.deliverData d).submitted } := by
  unfold deliverData; split <;> rfl

/-- What `epoll_wait` says of the socket. -/
def report (p : PeerImpl E) : BitVec 32 :=
  if p.registered then p.sock.readiness.reported .readable else 0

/-- The callback's events. -/
def events (p : PeerImpl E) : IoEvent := fromEpollEvents p.report

theorem hasEvent_events {p : PeerImpl E} (hr : p.registered = true) :
    IoEvent.hasEvent p.events .readable = !p.sock.queue.isEmpty := by
  have h := (p.sock.readiness.hasEvent_events .readable).1
  rw [IoEvent.hasEvent_readable, Bool.and_true] at h
  rw [events, report, if_pos hr]
  exact h

theorem report_ne_zero_iff (p : PeerImpl E) :
    p.report ≠ 0 ↔ p.registered = true ∧ (p.sock.queue ≠ [] ∨ p.sock.error.isSome = true) := by
  unfold report
  split
  · rename_i hr
    have hw : IoEvent.hasEvent .readable .writable = false := by decide
    rw [Readiness.reported_ne_zero_iff, IoEvent.hasEvent_readable, hw]
    simp [ConnectedUdp.readiness, hr]
  · rename_i hr
    simp [hr]

/-! ## One event -/

/-- The loop of `handle_readable`, `none` if `fuel` passes are not enough. -/
def receiveLoop : Nat → PeerImpl E → Option (PeerImpl E)
  | 0, _ => none
  | fuel + 1, p => if p.receive.2 then receiveLoop fuel p.receive.1 else some p.receive.1

/-- `handle_readable`, while nothing arrives. -/
def handleReadable (p : PeerImpl E) : Option (PeerImpl E) := p.receiveLoop (p.sock.queue.length + 1)

/-- The callback `arm` registers. -/
def onEvents (p : PeerImpl E) (events : IoEvent) : Option (PeerImpl E) :=
  if IoEvent.hasEvent events .readable then p.handleReadable else some p

/-- Without an error the loop ends, after as many passes as there are datagrams at most. -/
theorem receiveLoop_returns (fuel : Nat) (p : PeerImpl E) (he : p.sock.error = none)
    (hf : p.sock.queue.length < fuel) :
    ∃ p', p.receiveLoop fuel = some p' ∧ p'.sock.queue.length ≤ p.sock.queue.length := by
  induction fuel generalizing p with
  | zero => omega
  | succ fuel ih =>
    obtain ⟨p', b, hr, hv⟩ := p.receive_view
    rw [receiveLoop, hr]
    cases hv with
    | error e he' => cases he.symm.trans he'
    | wouldBlock => exact ⟨_, rfl, Nat.le_refl _⟩
    | empty d rest _ hq => exact ⟨_, rfl, by simp [hq]⟩
    | data d rest _ hq =>
      rw [hq, List.length_cons] at hf
      obtain ⟨p', hp', hle⟩ := ih ({ p with sock := ⟨rest, none⟩ }.deliverData (d.take p.bufSize))
        (by simp) (by simp; omega)
      refine ⟨p', hp', ?_⟩
      simp only [deliverData_sock] at hle
      rw [hq, List.length_cons]
      omega

/-- A datagram or the pending error is consumed, or the descriptor is not registered any more. -/
def Progress (p p' : PeerImpl E) : Prop :=
  p'.sock.queue.length < p.sock.queue.length ∨
    (p.sock.error.isSome = true ∧ p'.sock.error = none) ∨ p'.registered = false

/-- `on_error`, if it is set, is told of a pending error. -/
def Notified (p p' : PeerImpl E) : Prop :=
  ∀ e, p.sock.error = some e → p.onError = true → p'.errors = p.errors ++ [e]

/-- `handle_readable` with an error pending: the first `recv` returns it. -/
theorem handleReadable_error {p : PeerImpl E} {e : E} (he : p.sock.error = some e) :
    ∃ p', p.handleReadable = some p' ∧ p.Progress p' ∧ p.Notified p' := by
  have hr : p.receive = ({ p with sock := ⟨p.sock.queue, none⟩ }.notify e, false) := by
    simp only [receive, ConnectedUdp.recv, he]
  refine ⟨{ p with sock := ⟨p.sock.queue, none⟩ }.notify e, ?_, .inr (.inl ?_), fun e' he' ho => ?_⟩
  · simp [handleReadable, receiveLoop, hr]
  · simp [he]
  · rw [notify, if_pos ho, Option.some.inj (he.symm.trans he')]

/-- `handle_readable` with a datagram queued and no error. -/
theorem handleReadable_datagram {p : PeerImpl E} (he : p.sock.error = none)
    (hq : p.sock.queue ≠ []) :
    ∃ p', p.handleReadable = some p' ∧ p.Progress p' ∧ p.Notified p' := by
  have hn (p' : PeerImpl E) : p.Notified p' := fun e he' => by cases he.symm.trans he'
  obtain ⟨p', b, hr, hv⟩ := p.receive_view
  rw [handleReadable, receiveLoop, hr]
  cases hv with
  | error e he' => cases he.symm.trans he'
  | wouldBlock _ hq' => exact absurd hq' hq
  | empty d rest _ hq => exact ⟨_, rfl, .inl (by simp [hq]), hn _⟩
  | data d rest _ hq =>
    obtain ⟨p', hp', hle⟩ := receiveLoop_returns p.sock.queue.length
      ({ p with sock := ⟨rest, none⟩ }.deliverData (d.take p.bufSize)) (by simp) (by simp [hq])
    refine ⟨p', hp', .inl ?_, hn p'⟩
    simp only [deliverData_sock] at hle
    rw [hq, List.length_cons]
    omega

/-- **Progress on a peer's events.** For every state of the socket, the callback called with what
the kernel reports consumes a datagram or the pending error, and `on_error` is told of the error,
unless an error is pending with no datagram queued. -/
theorem peer_event_progress_iff (p : PeerImpl E) :
    (p.report ≠ 0 → ∃ p', p.onEvents p.events = some p' ∧ p.Progress p' ∧ p.Notified p') ↔
      ¬ (p.registered = true ∧ p.sock.queue = [] ∧ p.sock.error.isSome = true) := by
  rw [report_ne_zero_iff]
  constructor
  · rintro h ⟨hr, hq, he⟩
    obtain ⟨p', hp', hprog, -⟩ := h ⟨hr, .inr he⟩
    -- readable is not reported, so the callback returns at once
    rw [onEvents, hasEvent_events hr, hq] at hp'
    cases hp'
    rcases hprog with hlt | ⟨-, hn⟩ | hr'
    · exact Nat.lt_irrefl _ hlt
    · rw [hn] at he
      cases he
    · cases hr.symm.trans hr'
  · rintro h ⟨hr, hne⟩
    have hq : p.sock.queue ≠ [] := fun hq => h ⟨hr, hq, hne.resolve_left (not_not.2 hq)⟩
    have hread : IoEvent.hasEvent p.events .readable = true := by
      rw [hasEvent_events hr]
      simp [hq]
    rw [onEvents, if_pos hread]
    cases he : p.sock.error with
    | some e => exact handleReadable_error he
    | none => exact handleReadable_datagram he hq

/-- A port that was unreachable: epoll reports the error, the callback does nothing, and the next
`epoll_wait` reports it again. -/
theorem peer_error_stuck :
    ∃ p : PeerImpl Nat, p.registered = true ∧ p.onError = true ∧ p.sock = ⟨[], some 111⟩ ∧
      p.report ≠ 0 ∧ p.onEvents p.events = some p ∧ p.errors = [] :=
  ⟨⟨⟨[], some 111⟩, true, true, true, true, 65536, [], []⟩, by decide⟩

end PeerImpl

/-! ## A run of the peer -/

/-- The peer, the loop thread and what was sent to the socket. -/
structure PeerRun (E : Type) where
  impl : PeerImpl E
  /-- the loop thread is in `handle_readable` -/
  inLoop : Bool
  /-- the datagrams that were queued, in order -/
  arrived : List Bytes
  deriving DecidableEq, Repr

namespace PeerRun

variable {E : Type}

/-- An open peer with `on_data` set, after the task that `arm` posts. -/
def start (bufSize : Nat) (onError : Bool) : PeerRun E :=
  ⟨⟨⟨[], none⟩, true, true, true, onError, bufSize, [], []⟩, false, []⟩

inductive Act (E : Type) where
  | arrive (d : Bytes)
  | fail (e : E)
  /-- `poll` calls the callback -/
  | event
  /-- one pass of the loop in `handle_readable` -/
  | receive

/-- The steps of the loop thread. -/
def Act.isLoop : Act E → Bool
  | .event => true
  | .receive => true
  | _ => false

def step (s : PeerRun E) : Act E → Option (PeerRun E)
  | .arrive d =>
    some { s with
      impl := { s.impl with sock := s.impl.sock.arrive d }
      arrived := s.arrived ++ [d] }
  | .fail e => some { s with impl := { s.impl with sock := { s.impl.sock with error := some e } } }
  | .event =>
    if s.inLoop = false ∧ s.impl.report ≠ 0 then
      some { s with inLoop := IoEvent.hasEvent s.impl.events .readable }
    else none
  | .receive =>
    if s.inLoop then some { s with impl := s.impl.receive.1, inLoop := s.impl.receive.2 } else none

def machine (bufSize : Nat) (onError : Bool) : Machine (PeerRun E) (Act E) where
  Init s := s = start bufSize onError
  step := step

/-- `handle_readable` has returned and no datagram is left. -/
def Idle (s : PeerRun E) : Prop := s.inLoop = false ∧ s.impl.sock.queue = []

instance (s : PeerRun E) : Decidable s.Idle := inferInstanceAs (Decidable (_ ∧ _))

/-- What `handle_readable` makes of the datagrams it takes. -/
def payloads (size : Nat) (ds : List Bytes) : List Bytes :=
  (ds.map fun d => d.take size).filter fun d => !d.isEmpty

theorem payloads_append (size : Nat) (ds es : List Bytes) :
    payloads size (ds ++ es) = payloads size ds ++ payloads size es := by
  rw [payloads, List.map_append, List.filter_append]
  rfl

theorem payloads_singleton_nil {size : Nat} {d : Bytes} (hd : d.take size = []) :
    payloads size [d] = [] := by
  simp [payloads, hd]

theorem payloads_singleton {size : Nat} {d : Bytes} (hd : d.take size ≠ []) :
    payloads size [d] = [d.take size] := by
  simp only [payloads, List.map_cons, List.map_nil, List.filter_cons, List.filter_nil]
  rw [if_pos (by simpa using hd)]

/-- Nothing is lost only if no datagram is empty and none is cut off. -/
theorem payloads_eq_self_iff (size : Nat) (ds : List Bytes) :
    payloads size ds = ds ↔ ∀ d ∈ ds, d ≠ [] ∧ d.length ≤ size := by
  induction ds with
  | nil => simp [payloads]
  | cons d ds ih =>
    have hsplit : payloads size (d :: ds) = payloads size [d] ++ payloads size ds :=
      payloads_append size [d] ds
    rw [hsplit, List.forall_mem_cons, ← ih]
    by_cases hd : d.take size = []
    · rw [payloads_singleton_nil hd, List.nil_append]
      refine iff_of_false (fun h => ?_) fun ⟨⟨hne, hlen⟩, _⟩ => ?_
      · -- a datagram is missing
        have hle : (payloads size ds).length ≤ ds.length := by
          refine (List.length_filter_le ..).trans ?_
          rw [List.length_map]
        rw [h, List.length_cons] at hle
        omega
      · rw [List.take_of_length_le hlen] at hd
        exact hne hd
    · rw [payloads_singleton hd, List.singleton_append, List.cons_eq_cons, List.take_eq_self_iff]
      refine and_congr_left fun _ => ⟨fun h => ⟨?_, h⟩, And.right⟩
      rintro rfl
      exact hd List.take_nil

/-- What the datagrams taken so far have become. -/
structure Inv (size : Nat) (s : PeerRun E) : Prop where
  registered : s.impl.registered = true
  isOpen : s.impl.isOpen = true
  onData : s.impl.onData = true
  bufSize : s.impl.bufSize = size
  taken : ∃ taken, s.arrived = taken ++ s.impl.sock.queue ∧
    s.impl.submitted = payloads size taken

variable {size : Nat} {onError : Bool} {s s' : PeerRun E} {a : Act E}

theorem start_inv (size : Nat) (onError : Bool) : (start size onError : PeerRun E).Inv size :=
  ⟨rfl, rfl, rfl, rfl, [], rfl, rfl⟩

/-- A pass of the loop takes the first datagram, if there is one and no error is pending. -/
theorem Inv.receive (h : s.Inv size) :
    Inv size { s with impl := s.impl.receive.1, inLoop := s.impl.receive.2 } := by
  obtain ⟨hr, ho, hd, hb, taken, harr, hsub⟩ := h
  obtain ⟨p', b, hrec, hv⟩ := s.impl.receive_view
  rw [hrec]
  -- the datagram `d` moves from the queue to those taken
  have hmove {d : Bytes} {rest : List Bytes} (hq : s.impl.sock.queue = d :: rest) :
      s.arrived = (taken ++ [d]) ++ rest := by
    rw [harr, hq, List.append_assoc, List.singleton_append]
  cases hv with
  | error e he =>
    rw [PeerImpl.notify_eq]
    exact ⟨hr, ho, hd, hb, taken, harr, hsub⟩
  | wouldBlock => exact ⟨hr, ho, hd, hb, taken, harr, hsub⟩
  | empty d rest he hq hz =>
    refine ⟨hr, ho, hd, hb, taken ++ [d], hmove hq, ?_⟩
    rw [hb] at hz
    rw [payloads_append, payloads_singleton_nil hz, List.append_nil]
    exact hsub
  | data d rest he hq hz =>
    rw [PeerImpl.deliverData, if_neg (by simp [ho, hd])]
    refine ⟨hr, ho, hd, hb, taken ++ [d], hmove hq, ?_⟩
    rw [hb] at hz
    rw [payloads_append, payloads_singleton hz, ← hsub, ← hb]

theorem step_inv (h : s.Inv size) (he : s.step a = some s') : s'.Inv size := by
  cases a with
  | arrive d =>
    cases he
    obtain ⟨hr, ho, hd, hb, taken, harr, hsub⟩ := h
    refine ⟨hr, ho, hd, hb, taken, ?_, hsub⟩
    simp only [ConnectedUdp.arrive, harr, List.append_assoc]
  | fail e =>
    cases he
    exact ⟨h.registered, h.isOpen, h.onData, h.bufSize, h.taken⟩
  | event =>
    simp only [step] at he
    split at he
    · cases he
      exact ⟨h.registered, h.isOpen, h.onData, h.bufSize, h.taken⟩
    · cases he
  | receive =>
    simp only [step] at he
    split at he
    · cases he
      exact h.receive
    · cases he

theorem reach_inv (h : (machine size onError).Reach s) : s.Inv size :=
  h.inv (I := Inv size) (fun s (hs : s = start size onError) => hs ▸ start_inv size onError)
    fun _ _ _ _ hi _ he => step_inv hi he

/-! ## The loop thread gets to the end of the queue -/

/-- What is left for the loop thread to do. -/
def work (s : PeerRun E) : Nat :=
  2 * (s.impl.sock.queue.length + s.impl.sock.error.toList.length) +
    if s.inLoop then 1 else if s.impl.sock.queue = [] then 0 else 2

/-- The loop thread's next step, unless it is idle. -/
theorem exists_loop_step (hr : s.impl.registered = true) (hi : ¬ s.Idle) :
    ∃ a s', a.isLoop = true ∧ s.step a = some s' ∧ s'.work < s.work ∧ s'.arrived = s.arrived ∧
      s'.impl.registered = true := by
  cases hl : s.inLoop with
  | false =>
    have hq : s.impl.sock.queue ≠ [] := fun hq => hi ⟨hl, hq⟩
    have hrep : s.impl.report ≠ 0 := (s.impl.report_ne_zero_iff).2 ⟨hr, .inl hq⟩
    have hread : IoEvent.hasEvent s.impl.events .readable = true := by
      rw [PeerImpl.hasEvent_events hr]
      simp [hq]
    refine ⟨.event, { s with inLoop := true }, rfl, ?_, ?_, rfl, hr⟩
    · rw [step, if_pos ⟨hl, hrep⟩, hread]
    · simp [work, hl, hq]
  | true =>
    obtain ⟨p', b, hrec, hv⟩ := s.impl.receive_view
    refine ⟨.receive, { s with impl := p', inLoop := b }, rfl, ?_, ?_, rfl, ?_⟩
    · rw [step, if_pos hl, hrec]
    · cases hv with
      | error e he =>
        unfold work
        simp only [PeerImpl.notify_sock, he, hl, Option.toList_none, Option.toList_some,
          List.length_nil, List.length_singleton, Bool.false_eq_true, ↓reduceIte]
        split <;> omega
      | wouldBlock he hq => simp [work, he, hq, hl]
      | empty d rest he hq hz =>
        unfold work
        simp only [he, hq, hl, Option.toList_none, List.length_nil, List.length_cons,
          Bool.false_eq_true, ↓reduceIte]
        split <;> omega
      | data d rest he hq hz => simp [work, he, hq, hl]
    · cases hv with
      | error e he =>
        rw [PeerImpl.notify_eq]
        exact hr
      | wouldBlock he hq => exact hr
      | empty d rest he hq hz => exact hr
      | data d rest he hq hz =>
        rw [PeerImpl.deliverData_eq]
        exact hr

/-- The loop thread alone gets to the end of the queue. -/
theorem exists_idle (size : Nat) (onError : Bool) (s : PeerRun E)
    (hr : s.impl.registered = true) :
    ∃ acts s', (∀ a ∈ acts, a.isLoop = true) ∧ (machine size onError).run s acts = some s' ∧
      s'.Idle ∧ s'.arrived = s.arrived := by
  induction hw : s.work using Nat.strong_induction_on generalizing s with
  | _ n ih =>
    by_cases hi : s.Idle
    · exact ⟨[], s, List.forall_mem_nil _, rfl, hi, rfl⟩
    · obtain ⟨a, t, ha, ht, hlt, harr, hr'⟩ := exists_loop_step hr hi
      obtain ⟨acts, s', hacts, hrun, hidle, harr'⟩ := ih t.work (hw ▸ hlt) t hr' rfl
      refine ⟨a :: acts, s', ?_, ?_, hidle, harr'.trans harr⟩
      · rw [List.forall_mem_cons]
        exact ⟨ha, hacts⟩
      · exact Option.bind_eq_some_iff.2 ⟨t, ht, hrun⟩

end PeerRun

/-! ## The parent's path -/

/-- What the parent submits of the datagrams of a sender that is not claimed, received as one
batch into buffers of `size` bytes. -/
def parentSubmits {A : Type} [DecidableEq A] (sender : A) (size : Nat) (batch : List Bytes) :
    List Bytes :=
  (DgramBatch.handleSingle (P := Empty) ⟨true, fun _ => true⟩ (Race.still fun _ => true) ∅
    (batch.map fun d => ⟨d.take size, sender⟩)).submitted.map Prod.fst

/-- The parent keeps empty datagrams. -/
theorem parentSubmits_eq {A : Type} [DecidableEq A] (sender : A) (size : Nat)
    (batch : List Bytes) : parentSubmits sender size batch = batch.map fun d => d.take size := by
  have hcount (e : DgramBatch.Entry A) :
      DgramBatch.counted (P := Empty) (Race.still fun _ => true) ∅ e = true := by
    simp [DgramBatch.counted, DgramBatch.held]
  obtain ⟨-, hsub⟩ := DgramBatch.foldl_handleOne (P := Empty) (r := Race.still fun _ => true)
    (t := 0) ⟨true, fun _ => true⟩ (batch.map fun d => ⟨d.take size, sender⟩) 0
    (s := ⟨∅, 0, 0, []⟩) (q := ⟨∅, [], []⟩) ⟨rfl, rfl⟩ .refl (Nat.zero_le _)
  rw [List.filter_eq_self.2 fun e _ => hcount e, List.nil_append] at hsub
  rw [parentSubmits, DgramBatch.handleSingle, hsub, List.map_map]
  have hgiven : (Prod.fst ∘ DgramBatch.given : DgramBatch.Entry A → Bytes) =
      (fun d => d.data) ∘ Prod.fst := rfl
  rw [hgiven, ← List.map_map, List.zipIdx_map_fst, List.map_map]
  rfl

namespace PeerRun

variable {E : Type} {size : Nat} {onError : Bool} {s : PeerRun E}

/-- **What a claimed peer receives.** From every state of a run the loop thread gets to the end of
the queue. There, what was submitted to `on_data` is what arrived, and what the parent would have
submitted of it however it is cut into batches, exactly if no datagram was empty and none was
longer than the read buffer. -/
theorem peer_receives_iff {A : Type} [DecidableEq A] (sender : A)
    (h : (machine size onError).Reach s) :
    (∃ acts s', (∀ a ∈ acts, a.isLoop = true) ∧ (machine size onError).run s acts = some s' ∧
      s'.Idle ∧ s'.arrived = s.arrived) ∧
    (s.Idle →
      ((s.impl.submitted = s.arrived ∧ ∀ batches : List (List Bytes), batches.flatten = s.arrived →
          s.impl.submitted = batches.flatMap (parentSubmits sender size)) ↔
        ∀ d ∈ s.arrived, d ≠ [] ∧ d.length ≤ size)) := by
  have hi := reach_inv h
  refine ⟨exists_idle size onError s hi.registered, fun hidle => ?_⟩
  obtain ⟨taken, harr, hsub⟩ := hi.taken
  rw [hidle.2, List.append_nil] at harr
  rw [hsub, ← harr, ← payloads_eq_self_iff]
  refine ⟨And.left, fun hp => ⟨hp, fun batches hb => ?_⟩⟩
  have hall := (payloads_eq_self_iff size s.arrived).1 hp
  calc payloads size s.arrived
      = s.arrived := hp
    _ = s.arrived.map fun d => d.take size :=
        -- what fits the buffer is not cut off on the parent's path either
        (List.map_id _).symm.trans (List.map_congr_left fun d hd =>
          (List.take_of_length_le (hall d hd).2).symm)
    _ = batches.flatMap (parentSubmits sender size) := by
        rw [← hb, List.map_flatten, List.flatMap_def, funext (parentSubmits_eq sender size)]

/-- Two datagrams, the second while `handle_readable` runs. -/
theorem peer_receives_two :
    ∃ s, (machine 65536 false : Machine (PeerRun Nat) _).Reach s ∧
      (s.Idle ∧ s.arrived = [[1, 2], [3]]) ∧ s.impl.submitted = [[1, 2], [3]] := by
  obtain ⟨s, h, hp⟩ := Machine.Reach.of_run_init (M := machine 65536 false)
    (fun s : PeerRun Nat => decide (s.Idle ∧ s.arrived = [[1, 2], [3]]))
    [.arrive [1, 2], .event, .receive, .arrive [3], .receive, .receive] rfl (by decide)
  have hs := of_decide_eq_true hp
  have hiff := (peer_receives_iff () h).2 hs.1
  rw [hs.2] at hiff
  exact ⟨s, h, hs, (hiff.2 (by decide)).1⟩

/-- An empty datagram between two others is not delivered; the parent delivers it. -/
theorem peer_empty_datagram_lost :
    ∃ s, (machine 65536 false : Machine (PeerRun Nat) _).Reach s ∧ s.Idle ∧
      s.arrived = [[1], [], [2]] ∧ s.impl.submitted = [[1], [2]] ∧
      parentSubmits () 65536 s.arrived = [[1], [], [2]] := by
  obtain ⟨s, h, hp⟩ := Machine.Reach.of_run_init (M := machine 65536 false)
    (fun s : PeerRun Nat => decide (s.Idle ∧ s.arrived = [[1], [], [2]] ∧
      s.impl.submitted = [[1], [2]] ∧ parentSubmits () 65536 s.arrived = [[1], [], [2]]))
    [.arrive [1], .arrive [], .arrive [2], .event, .receive, .receive, .event, .receive, .receive]
    rfl (by decide)
  exact ⟨s, h, of_decide_eq_true hp⟩

end PeerRun

end Socketpp
