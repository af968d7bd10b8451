import Socketpp.Event.EpollMask
import Socketpp.High.ConnectionEngine

/-!
# Progress on a connection's events

epoll is level-triggered: what is reported and not acted on is reported again at
once. `on_io_event` acts on errors, hangups, readable and writable. It does not
look at `peer_shutdown`, which epoll reports whatever the interest is. While
reading is paused, the shutdown of the peer's side is reported without readable,
nothing is done about it, and the loop spins until `resume`
(`connection_event_progress_iff`).

`TcpSocket` is the kernel's side of the connection. A dispatch is `onIoEvent` of
the engine with what the kernel answers to its `recv`, and then
`drain_write_queue` with what it answers to each `send`; no other thread and no
packet comes between.
-/

namespace Socketpp

structure TcpSocket where
  rcvBuf : Bytes
  /-- the peer has shut down its side -/
  rcvShutdown : Bool
  sendShutdown : Bool
  /-- an error is pending -/
  error : Bool
  /-- the connection was reset or has ended -/
  gone : Bool
  /-- the free bytes of the send buffer -/
  space : Nat
  /-- `EPOLLOUT` needs more free bytes than this -/
  lowSpace : Nat
  deriving DecidableEq, Repr

namespace TcpSocket

def readiness (k : TcpSocket) : Readiness where
  input := !k.rcvBuf.isEmpty || k.rcvShutdown
  output := k.sendShutdown || decide (k.lowSpace < k.space)
  error := k.error
  hangup := k.gone || (k.rcvShutdown && k.sendShutdown)
  peerShutdown := k.rcvShutdown

/-- `recv` into a buffer of `size` bytes. -/
def recv (k : TcpSocket) (size : Nat) : RecvResult × TcpSocket :=
  if k.rcvBuf ≠ [] then (.data (k.rcvBuf.take size), { k with rcvBuf := k.rcvBuf.drop size })
  else if k.error then (.error, { k with error := false })
  else if k.rcvShutdown then (.data [], k)
  else if k.gone then (.error, k)
  else (.wouldBlock, k)

/-- `send` of `len` bytes. -/
def send (k : TcpSocket) (len : Nat) : SendResult × TcpSocket :=
  if k.error then (.error, { k with error := false })
  else if k.sendShutdown || k.gone then (.error, k)
  else if k.space = 0 then (.wouldBlock, k)
  else (.sent (min len k.space), { k with space := k.space - min len k.space })

theorem send_rcvBuf (k : TcpSocket) (len : Nat) : (k.send len).2.rcvBuf = k.rcvBuf := by
  unfold send
  repeat' split
  all_goals rfl

theorem send_space_le (k : TcpSocket) (len : Nat) : (k.send len).2.space ≤ k.space := by
  unfold send
  repeat' split
  all_goals first | exact Nat.le_refl _ | exact Nat.sub_le _ _

/-- `send` takes nothing only if it is given nothing. -/
theorem sent_pos (k : TcpSocket) {len : Nat} (h : (k.send len).1 = .sent 0) : len = 0 := by
  unfold send at h
  split at h
  · cases h
  split at h
  · cases h
  split at h
  · cases h
  · have := SendResult.sent.inj h
    omega

/-- A socket that is reported writable takes a byte, or fails. -/
theorem send_of_output {k : TcpSocket} (ho : k.readiness.output = true) {len : Nat}
    (hl : 0 < len) : (k.send len).2.space < k.space ∨ (k.send len).1 = .error := by
  simp only [readiness, Bool.or_eq_true, decide_eq_true_eq] at ho
  unfold send
  split
  · exact .inr rfl
  split
  · exact .inr rfl
  rename_i hs
  have hlt : k.lowSpace < k.space := ho.resolve_left fun h => hs (by simp [h])
  rw [if_neg (by omega)]
  exact .inl (by simp only; omega)

end TcpSocket

/-- A connection and its socket. -/
structure ConnSocket (H : Type) where
  conn : Conn H
  sock : TcpSocket

namespace ConnSocket

variable {H : Type}

/-- One step of `drain_write_queue`. -/
def drainStep (w : ConnSocket H) : ConnSocket H :=
  match w.conn.drain with
  | .idle => w
  | .top => { w with conn := w.conn.drainLock }
  | .sending chunk sent =>
    let r := w.sock.send (chunk.length - sent)
    ⟨(w.conn.drainSend chunk sent r.1).1, r.2⟩

/-- `drain_write_queue`, `none` if `fuel` steps are not enough. -/
def drainLoop : Nat → ConnSocket H → Option (ConnSocket H)
  | 0, w => if w.conn.drain = .idle then some w else none
  | fuel + 1, w => if w.conn.drain = .idle then some w else drainLoop fuel w.drainStep

/-- A bound on the steps that the queued chunks take. -/
def queueWork (queue : List Bytes) : Nat := (queue.map fun chunk => chunk.length + 2).sum

/-- A bound on the steps of `drain_write_queue`. -/
def drainWork (c : Conn H) : Nat :=
  match c.drain with
  | .idle => 0
  | .top => 1 + queueWork c.writeQueue
  | .sending chunk sent => chunk.length - sent + 2 + queueWork c.writeQueue

/-- The part of `on_io_event` before `drain_write_queue`, with the answer to its `recv`. -/
def handle (w : ConnSocket H) (ev : IoEvent) : ConnSocket H :=
  if w.conn.closed = false ∧ IoEvent.hasEvent ev .error = false ∧
      IoEvent.hasEvent ev .hangup = false ∧ IoEvent.hasEvent ev .readable = true then
    let r := w.sock.recv w.conn.readBufSize
    ⟨(w.conn.onIoEvent ev r.1).1, r.2⟩
  else { w with conn := (w.conn.onIoEvent ev .wouldBlock).1 }

/-- `on_io_event`. -/
def onIoEvent (w : ConnSocket H) (ev : IoEvent) : Option (ConnSocket H) :=
  (w.handle ev).drainLoop (drainWork (w.handle ev).conn)

/-! ## `drain_write_queue` returns -/

theorem drainWork_idle {c : Conn H} (h : c.drain = .idle) : drainWork c = 0 := by
  rw [drainWork, h]

theorem drainWork_sendLoop {c : Conn H} {chunk : Bytes} {sent : Nat}
    (h : c.drain = .sendLoop chunk sent) :
    drainWork c ≤ chunk.length - sent + 2 + queueWork c.writeQueue ∧
      (chunk.length ≤ sent → drainWork c = 1 + queueWork c.writeQueue) := by
  unfold drainWork
  unfold DrainPc.sendLoop at h
  split at h
  · rw [h]
    exact ⟨Nat.le_refl _, fun hle => by omega⟩
  · rw [h]
    exact ⟨by simp only; omega, fun _ => rfl⟩

theorem drainWork_initiateClose {c : Conn H} (h : c.drain = .idle) :
    drainWork c.initiateClose.1 = 0 := by
  unfold Conn.initiateClose
  split <;> exact drainWork_idle h

theorem drainWork_drainLock {c : Conn H} (h : c.drain = .top) :
    drainWork c.drainLock < drainWork c := by
  rw [show drainWork c = 1 + queueWork c.writeQueue by rw [drainWork, h]]
  unfold Conn.drainLock
  split
  · rw [drainWork_idle rfl]
    omega
  · rename_i chunk rest hq
    have hw := (drainWork_sendLoop (c := { c with
      writeQueue := rest
      writeQueueBytes := sizeSub c.writeQueueBytes chunk.length
      drain := .sendLoop chunk 0 }) rfl).1
    simp only [hq, queueWork, List.map_cons, List.sum_cons] at hw ⊢
    omega

theorem drainWork_drainSend {c : Conn H} {chunk : Bytes} {sent : Nat} {r : SendResult}
    (h : c.drain = .sending chunk sent) (hr : r = .sent 0 → chunk.length ≤ sent) :
    drainWork (c.drainSend chunk sent r).1 < drainWork c := by
  rw [show drainWork c = chunk.length - sent + 2 + queueWork c.writeQueue by rw [drainWork, h]]
  cases r with
  | sent k =>
    have hw := drainWork_sendLoop (c := (c.drainSend chunk sent (.sent k)).1) rfl
    change drainWork (c.drainSend chunk sent (.sent k)).1 ≤ _ + _ + queueWork c.writeQueue ∧
      (_ → _ = 1 + queueWork c.writeQueue) at hw
    rcases Nat.lt_or_ge (sent + k) chunk.length with hlt | hge
    · have hk : k ≠ 0 := by
        rintro rfl
        have := hr rfl
        omega
      omega
    · have := hw.2 hge
      omega
  | wouldBlock =>
    rw [Conn.drainSend, drainWork_idle rfl]
    omega
  | error =>
    rw [Conn.drainSend, drainWork_initiateClose rfl]
    omega

theorem drainWork_drainStep {w : ConnSocket H} (h : w.conn.drain ≠ .idle) :
    drainWork w.drainStep.conn < drainWork w.conn := by
  unfold drainStep
  split
  · contradiction
  · rename_i hd
    exact drainWork_drainLock hd
  · rename_i chunk sent hd
    refine drainWork_drainSend hd fun hs => ?_
    -- a `send` that takes nothing was given nothing
    have := w.sock.sent_pos hs
    omega

theorem drainLoop_returns (fuel : Nat) (w : ConnSocket H) (hf : drainWork w.conn ≤ fuel) :
    ∃ w', w.drainLoop fuel = some w' := by
  induction fuel generalizing w with
  | zero =>
    refine ⟨w, if_pos ?_⟩
    unfold drainWork at hf
    split at hf
    · assumption
    · omega
    · omega
  | succ fuel ih =>
    unfold drainLoop
    split
    · exact ⟨w, rfl⟩
    · rename_i hi
      have := drainWork_drainStep hi
      exact ih w.drainStep (by omega)

/-! ## What it changes -/

theorem drainStep_rcvBuf (w : ConnSocket H) : w.drainStep.sock.rcvBuf = w.sock.rcvBuf := by
  unfold drainStep
  split
  · rfl
  · rfl
  · exact w.sock.send_rcvBuf _

/-- What every step keeps holds when `drain_write_queue` returns. -/
theorem drainLoop_inv {P : ConnSocket H → Prop}
    (hs : ∀ w : ConnSocket H, w.conn.drain ≠ .idle → P w → P w.drainStep) (fuel : Nat)
    {w w' : ConnSocket H} (h : P w) (he : w.drainLoop fuel = some w') :
    P w' ∧ w'.conn.drain = .idle := by
  induction fuel generalizing w with
  | zero =>
    unfold drainLoop at he
    split at he
    · rename_i hi
      cases he
      exact ⟨h, hi⟩
    · cases he
  | succ fuel ih =>
    unfold drainLoop at he
    split at he
    · rename_i hi
      cases he
      exact ⟨h, hi⟩
    · rename_i hi
      exact ih (hs w hi h) he

/-- A byte was sent, the connection closed, or writable events given up. -/
def Moved (space : Nat) (w : ConnSocket H) : Prop :=
  w.sock.space < space ∨ w.conn.closed = true ∨ w.conn.interest = some .readable

/-- `drain_write_queue` has not called `send` yet, or is about to for the first time. -/
structure Fresh (k : TcpSocket) (w : ConnSocket H) : Prop where
  sock : w.sock = k
  registered : w.conn.interest.isSome = true
  running : w.conn.drain = .top ∨ ∃ chunk, chunk ≠ [] ∧ w.conn.drain = .sending chunk 0

theorem initiateClose_closed (c : Conn H) : c.initiateClose.1.closed = true := by
  unfold Conn.initiateClose
  split
  · assumption
  · rfl

/-- After a critical section: the flag is as it was, and the interest is or is readable. -/
theorem drainLock_frame (c : Conn H) : c.drainLock.closed = c.closed ∧
    (c.drainLock.interest = c.interest ∨
      c.drainLock.interest = c.interest.map fun _ => .readable) := by
  unfold Conn.drainLock
  split
  · exact ⟨rfl, .inr rfl⟩
  · exact ⟨rfl, .inl rfl⟩

theorem drainSend_frame (c : Conn H) (chunk : Bytes) (sent : Nat) (r : SendResult) :
    (c.drainSend chunk sent r).1.closed = true ∨ (c.drainSend chunk sent r).1.closed = c.closed ∧
      (c.drainSend chunk sent r).1.interest = c.interest := by
  cases r with
  | sent k => exact .inr ⟨rfl, rfl⟩
  | wouldBlock => exact .inr ⟨rfl, rfl⟩
  | error => exact .inl (initiateClose_closed _)

theorem Moved.drainStep {space : Nat} {w : ConnSocket H} (h : w.Moved space) :
    w.drainStep.Moved space := by
  unfold ConnSocket.drainStep
  split
  · exact h
  · obtain ⟨hc, hi⟩ := drainLock_frame w.conn
    refine h.imp_right fun h => h.imp (fun h => ?_) fun h => ?_
    · exact hc.trans h
    · rw [h] at hi
      exact hi.elim id id
  · rename_i chunk sent _
    rcases drainSend_frame w.conn chunk sent (w.sock.send (chunk.length - sent)).1 with
      hc | ⟨hc, hi⟩
    · exact .inr (.inl hc)
    · refine h.imp (fun h => ?_) fun h => h.imp (fun h => ?_) fun h => ?_
      · exact Nat.lt_of_le_of_lt (w.sock.send_space_le _) h
      · exact hc.trans h
      · exact hi.trans h

/-- The first `send` on a writable socket takes a byte or fails; if there is nothing to send, the
interest changes. -/
theorem Fresh.drainStep {k : TcpSocket} (ho : k.readiness.output = true) {w : ConnSocket H}
    (h : w.Fresh k) : w.drainStep.Fresh k ∨ w.drainStep.Moved k.space := by
  unfold ConnSocket.drainStep
  obtain ⟨hk, hi, hd | ⟨chunk, hne, hd⟩⟩ := h
  · rw [hd]
    obtain ⟨mask, hm⟩ := Option.isSome_iff_exists.1 hi
    simp only [Conn.drainLock]
    split
    · refine .inr (.inr (.inr ?_))
      simp [Conn.modify, hm]
    · rename_i chunk rest hq
      refine .inl ⟨hk, hi, ?_⟩
      by_cases hc : chunk = []
      · exact .inl (by rw [hc]; rfl)
      · exact .inr ⟨chunk, hc, if_pos (List.length_pos_iff.2 hc)⟩
  · rw [hd]
    have hlen : 0 < chunk.length - 0 := List.length_pos_iff.2 hne
    subst hk
    rcases TcpSocket.send_of_output ho hlen with hlt | herr
    · exact .inr (.inl hlt)
    · refine .inr (.inr (.inl ?_))
      simp only [herr]
      exact initiateClose_closed _

/-- **`drain_write_queue` on a writable socket.** -/
theorem drainLoop_moved {k : TcpSocket} (ho : k.readiness.output = true) (fuel : Nat)
    {w w' : ConnSocket H} (h : w.Fresh k) (he : w.drainLoop fuel = some w') :
    w'.Moved k.space := by
  obtain ⟨hw, hi⟩ := drainLoop_inv (P := fun w => w.Fresh k ∨ w.Moved k.space)
    (fun w _ h => h.elim (fun h => h.drainStep ho) fun h => .inr h.drainStep) fuel (.inl h) he
  refine hw.resolve_left fun hf => ?_
  rcases hf.running with hd | ⟨chunk, -, hd⟩
  · cases hi.symm.trans hd
  · cases hi.symm.trans hd

/-! ## The event -/

/-- A `recv` or `send` changed a buffer of the socket, the interest changed, or the connection is
closed. -/
def Progress (w w' : ConnSocket H) : Prop :=
  w'.sock.rcvBuf ≠ w.sock.rcvBuf ∨ w'.sock.space ≠ w.sock.space ∨
    w'.conn.interest ≠ w.conn.interest ∨ w'.conn.closed = true

/-- The peer's shutdown is all there is to report. -/
def OnlyPeerShutdown (k : TcpSocket) (mask : IoEvent) : Prop :=
  k.rcvShutdown = true ∧ k.readiness.hangup = false ∧ k.error = false ∧
    IoEvent.hasEvent mask .readable = false ∧
    (IoEvent.hasEvent mask .writable = true → k.readiness.output = false)

instance (k : TcpSocket) (mask : IoEvent) : Decidable (OnlyPeerShutdown k mask) :=
  inferInstanceAs (Decidable (_ ∧ _))

variable {w : ConnSocket H} {ev : IoEvent}

theorem onIoEvent_of_idle (h : (w.handle ev).conn.drain = .idle) :
    w.onIoEvent ev = some (w.handle ev) := by
  rw [onIoEvent, drainWork_idle h]
  exact if_pos h

theorem initiateClose_drain (c : Conn H) : c.initiateClose.1.drain = c.drain := by
  unfold Conn.initiateClose
  split <;> rfl

/-- An event that leads to `initiate_close`. -/
theorem progress_of_close (hd : w.conn.drain = .idle)
    (h : (w.handle ev).conn = w.conn.initiateClose.1) :
    ∃ w', w.onIoEvent ev = some w' ∧ w.Progress w' := by
  refine ⟨w.handle ev, onIoEvent_of_idle ?_, .inr (.inr (.inr ?_))⟩
  · rw [h, initiateClose_drain, hd]
  · rw [h]
    exact initiateClose_closed _

theorem handle_error (ho : w.conn.closed = false)
    (he : (IoEvent.hasEvent ev .error || IoEvent.hasEvent ev .hangup) = true) :
    (w.handle ev).conn = w.conn.initiateClose.1 := by
  have hn : ¬ (w.conn.closed = false ∧ IoEvent.hasEvent ev .error = false ∧
      IoEvent.hasEvent ev .hangup = false ∧ IoEvent.hasEvent ev .readable = true) := by
    rintro ⟨-, h1, h2, -⟩
    rw [h1, h2] at he
    cases he
  rw [handle, if_neg hn]
  simp only [Conn.onIoEvent, ho, he, Bool.false_eq_true, ↓reduceIte]

/-- `recv` on a socket with input takes bytes, or the connection is closed. -/
theorem progress_of_readable (ho : w.conn.closed = false) (hd : w.conn.drain = .idle)
    (he : IoEvent.hasEvent ev .error = false) (hh : IoEvent.hasEvent ev .hangup = false)
    (hr : IoEvent.hasEvent ev .readable = true) (hin : w.sock.readiness.input = true)
    (herr : w.sock.error = false) : ∃ w', w.onIoEvent ev = some w' ∧ w.Progress w' := by
  have hev : (w.handle ev) = ⟨(w.conn.onIoEvent ev (w.sock.recv w.conn.readBufSize).1).1,
      (w.sock.recv w.conn.readBufSize).2⟩ := if_pos ⟨ho, he, hh, hr⟩
  by_cases hb : w.sock.rcvBuf = []
  · -- the end of the stream
    have hs : w.sock.rcvShutdown = true := by simpa [TcpSocket.readiness, hb] using hin
    refine progress_of_close hd ?_
    simp [hev, Conn.onIoEvent, ho, he, hh, hr, TcpSocket.recv, hb, herr, hs]
  · have hrecv : w.sock.recv w.conn.readBufSize = (.data (w.sock.rcvBuf.take w.conn.readBufSize),
        { w.sock with rcvBuf := w.sock.rcvBuf.drop w.conn.readBufSize }) := if_pos hb
    rw [hrecv] at hev
    by_cases ht : w.sock.rcvBuf.take w.conn.readBufSize = []
    · refine progress_of_close hd ?_
      simp [hev, Conn.onIoEvent, ho, he, hh, hr, ht]
    · obtain ⟨w', hw'⟩ := drainLoop_returns _ (w.handle ev) (Nat.le_refl _)
      have hrcv := (drainLoop_inv (P := fun v => v.sock.rcvBuf = (w.handle ev).sock.rcvBuf)
        (fun v _ hv => (drainStep_rcvBuf v).trans hv) _ rfl hw').1
      refine ⟨w', hw', .inl ?_⟩
      rw [hrcv, hev]
      intro hdrop
      have hlen := congrArg List.length hdrop
      rw [List.length_drop] at hlen
      have hpos : 0 < (w.sock.rcvBuf.take w.conn.readBufSize).length := List.length_pos_iff.2 ht
      rw [List.length_take] at hpos
      omega

/-- `send` on a writable socket takes bytes, or the connection is closed, or the interest
changes. -/
theorem progress_of_writable {mask : IoEvent} (ho : w.conn.closed = false)
    (hm : w.conn.interest = some mask)
    (he : IoEvent.hasEvent ev .error = false) (hh : IoEvent.hasEvent ev .hangup = false)
    (hr : IoEvent.hasEvent ev .readable = false) (hw : IoEvent.hasEvent ev .writable = true)
    (hmw : IoEvent.hasEvent mask .writable = true) (hout : w.sock.readiness.output = true) :
    ∃ w', w.onIoEvent ev = some w' ∧ w.Progress w' := by
  have hev : w.handle ev = { w with conn := { w.conn with drain := .top } } := by
    rw [handle, if_neg (by simp [hr])]
    simp [Conn.onIoEvent, ho, he, hh, hr, Conn.startDrain, hw]
  have hfresh : (w.handle ev).Fresh w.sock := by
    rw [hev]
    exact ⟨rfl, by simp [hm], .inl rfl⟩
  obtain ⟨w', hw'⟩ := drainLoop_returns _ (w.handle ev) (Nat.le_refl _)
  refine ⟨w', hw', .inr ?_⟩
  rcases drainLoop_moved hout _ hfresh hw' with hlt | hc | hi
  · exact .inl (Nat.ne_of_lt hlt)
  · exact .inr (.inr hc)
  · refine .inr (.inl ?_)
    rw [hi, hm]
    -- the old mask had writable
    rintro h
    rw [← Option.some.inj h] at hmw
    exact absurd hmw (by decide)

/-- Nothing in the event that `on_io_event` looks at. -/
theorem onIoEvent_ignored (ho : w.conn.closed = false) (hd : w.conn.drain = .idle)
    (he : IoEvent.hasEvent ev .error = false) (hh : IoEvent.hasEvent ev .hangup = false)
    (hr : IoEvent.hasEvent ev .readable = false) (hw : IoEvent.hasEvent ev .writable = false) :
    w.onIoEvent ev = some w := by
  have hev : w.handle ev = w := by
    rw [handle, if_neg (by simp [hr])]
    simp [Conn.onIoEvent, ho, he, hh, hr, Conn.startDrain, hw]
  have hidle : (w.handle ev).conn.drain = .idle := by rw [hev]; exact hd
  rw [onIoEvent_of_idle hidle, hev]

/-- **Progress on a connection's events.** One dispatch of what epoll reports changes a buffer of
the socket, changes the interest or closes the connection, unless there is nothing to report but
the shutdown of the peer's side. -/
theorem connection_event_progress_iff {mask : IoEvent} (ho : w.conn.closed = false)
    (hm : w.conn.interest = some mask) (hd : w.conn.drain = .idle) :
    (w.sock.readiness.reported mask ≠ 0 →
      ∃ w', w.onIoEvent (w.sock.readiness.events mask) = some w' ∧ w.Progress w') ↔
    ¬ OnlyPeerShutdown w.sock mask := by
  obtain ⟨hr, hw, he, hh⟩ := w.sock.readiness.hasEvent_events mask
  rw [Readiness.reported_ne_zero_iff]
  constructor
  · rintro h ⟨hs, hhup, herr, hmr, hmw⟩
    obtain ⟨w', hw', hp⟩ := h (.inr (.inr (.inr (.inr hs))))
    have hout : (w.sock.readiness.output && IoEvent.hasEvent mask .writable) = false := by
      cases hmask : IoEvent.hasEvent mask .writable with
      | false => exact Bool.and_false _
      | true => rw [hmw hmask]; rfl
    rw [onIoEvent_ignored ho hd (he.trans herr) (hh.trans hhup) (by rw [hr, hmr, Bool.and_false])
      (hw.trans hout)] at hw'
    cases hw'
    rcases hp with hp | hp | hp | hc
    · exact hp rfl
    · exact hp rfl
    · exact hp rfl
    · cases ho.symm.trans hc
  · intro hn hrep
    by_cases hx : (IoEvent.hasEvent (w.sock.readiness.events mask) .error ||
        IoEvent.hasEvent (w.sock.readiness.events mask) .hangup) = true
    · exact progress_of_close hd (handle_error ho hx)
    obtain ⟨hx1, hx2⟩ := Bool.or_eq_false_iff.1 (Bool.eq_false_of_not_eq_true hx)
    rw [← hr, ← hw, ← he, ← hh, hx1, hx2] at hrep
    cases hread : IoEvent.hasEvent (w.sock.readiness.events mask) .readable with
    | true =>
      have hin := (Bool.and_eq_true_iff.1 (hr.symm.trans hread)).1
      exact progress_of_readable ho hd hx1 hx2 hread hin (he.symm.trans hx1)
    | false =>
      cases hwrite : IoEvent.hasEvent (w.sock.readiness.events mask) .writable with
      | true =>
        obtain ⟨hout, hmw⟩ := Bool.and_eq_true_iff.1 (hw.symm.trans hwrite)
        exact progress_of_writable ho hm hx1 hx2 hread hwrite hmw hout
      | false =>
        -- only the shutdown is left
        have hs : w.sock.readiness.peerShutdown = true := by simpa [hread, hwrite] using hrep
        refine absurd ⟨hs, hh.symm.trans hx2, he.symm.trans hx1, ?_, fun hmw => ?_⟩ hn
        · have hin : w.sock.readiness.input = true :=
            Bool.or_eq_true_iff.2 (.inr hs)
          rwa [hread, hin, Bool.true_and, eq_comm] at hr
        · rwa [hwrite, hmw, Bool.and_true, eq_comm] at hw

/-- A connection that reads and has two bytes to send, and whose peer has shut down its side after
three bytes. -/
def halfClosed : ConnSocket Unit where
  conn := { (Conn.start 1024 64 : Conn Unit) with
    writeQueue := [[1, 2]]
    writeQueueBytes := 2
    writeRegistered := true
    reading := true
    interest := some (IoEvent.readable ||| IoEvent.writable) }
  sock := ⟨[7, 8, 9], true, false, false, false, 4096, 1024⟩

theorem halfClosed_progress :
    halfClosed.sock.readiness.reported (IoEvent.readable ||| IoEvent.writable) ≠ 0 ∧
      ∃ w', halfClosed.onIoEvent (halfClosed.sock.readiness.events
        (IoEvent.readable ||| IoEvent.writable)) = some w' ∧ halfClosed.Progress w' :=
  ⟨by decide, (connection_event_progress_iff rfl rfl rfl).2 (by decide) (by decide)⟩

/-- A paused connection with nothing to send, as the task of `pause_from_user` leaves it, whose
peer has shut down its side. -/
def pausedHalfClosed : ConnSocket Unit where
  conn := { (Conn.start 1024 64 : Conn Unit) with
    reading := true
    paused := true
    interest := some .none }
  sock := ⟨[], true, false, false, false, 4096, 1024⟩

/-- The shutdown is reported, `on_io_event` changes nothing, and it is reported again. -/
theorem pausedHalfClosed_stuck :
    pausedHalfClosed.conn.closed = false ∧ pausedHalfClosed.conn.interest = some .none ∧
      pausedHalfClosed.sock.readiness.reported .none = epollRdhup ∧
      pausedHalfClosed.onIoEvent (pausedHalfClosed.sock.readiness.events .none) =
        some pausedHalfClosed :=
  ⟨rfl, rfl, by decide, rfl⟩

end ConnSocket

end Socketpp
