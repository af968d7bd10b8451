import Socketpp.Event.EpollMask
import Socketpp.High.Pause
import Socketpp.High.SerialProgress
import Socketpp.High.StreamConn
import Socketpp.High.StreamLink

/-!
# What a stream has left to do

Once no thread calls any more and no connection is made, the loop thread, the workers,
the calls that are under way and the destroying thread have a bounded number of steps
to take. `Stream.work` counts them. The kernel's side of a connection is a `Line`: what
waits to be read, how many bytes it takes, whether the other end was closed. epoll is
level-triggered and reports only what is there, so to a connection that reads an event is
paid for by what it finds:

* bytes to read, each worth more than the callback they lead to;
* room to write, which the first `send` uses, so that a queued byte is worth more than
  the same byte in flight; an empty queue ends the interest in `writable`;
* the end of the connection, which closes it.

A paused connection whose other end is closed is called back without end: epoll reports
`EPOLLRDHUP` whatever the interest is, and nothing is done about it.

While `drain_write_queue` runs, what is left depends on whether the socket has room: with
room it will not be told to wait, without room it is about to put the rest back.
-/

namespace Socketpp

/-- The kernel's side of a connection. -/
structure Line where
  /-- what waits to be read -/
  incoming : Bytes
  /-- how many bytes it takes -/
  room : Nat
  /-- the other end is closed -/
  ended : Bool
  deriving DecidableEq, Repr

namespace Line

/-- Nothing arrives and nothing is taken. -/
def silent : Line := ⟨[], 0, false⟩

/-- What `recv` returns when the socket is readable. -/
def Receives (k : Line) : RecvResult → Prop
  | .data bytes => bytes <+: k.incoming ∧ (bytes ≠ [] ∨ k.incoming = [] ∧ k.ended = true)
  | .wouldBlock => False
  | .error => k.ended = true

/-- What `send` returns. -/
def Takes (k : Line) : SendResult → Prop
  | .sent j => 0 < j ∧ j ≤ k.room
  | .wouldBlock => k.room = 0
  | .error => k.ended = true

/-- What the socket is ready for. One whose other end is closed is readable as well, and one that
was reset is writable. -/
structure Ready (k : Line) (q : Readiness) : Prop where
  input : q.input = true → k.incoming ≠ [] ∨ k.ended = true
  output : q.output = true → 0 < k.room ∨ q.hangup = true
  broken : q.error = true ∨ q.hangup = true → k.ended = true
  shutdown : q.peerShutdown = true → k.ended = true ∧ q.input = true

/-- The callback is called with `ev` for a socket registered with `mask`, and `recv` returns `r` if
it is called. -/
def Reports (k : Line) (mask ev : IoEvent) (r : RecvResult) : Prop :=
  ∃ q : Readiness, k.Ready q ∧ q.reported mask ≠ 0 ∧ ev = q.events mask ∧
    (IoEvent.hasEvent ev .readable = true → k.Receives r)

/-- Something a connection acts on. -/
structure Found (k : Line) (ev : IoEvent) (r : RecvResult) : Prop where
  readable : IoEvent.hasEvent ev .readable = true → k.Receives r
  writable : IoEvent.hasEvent ev .writable = true →
    0 < k.room ∨ IoEvent.hasEvent ev .hangup = true
  something : IoEvent.hasEvent ev .error = true ∨ IoEvent.hasEvent ev .hangup = true ∨
    IoEvent.hasEvent ev .readable = true ∨ IoEvent.hasEvent ev .writable = true

variable {k : Line} {mask ev : IoEvent} {r : RecvResult}

theorem Reports.asked (h : k.Reports mask ev r) : Conn.Reports mask ev := by
  obtain ⟨q, -, -, rfl, -⟩ := h
  obtain ⟨hread, hwrite, -, -⟩ := q.hasEvent_events mask
  refine ⟨fun he => ?_, fun he => ?_⟩
  · rw [hread, Bool.and_eq_true] at he
    exact he.2
  · rw [hwrite, Bool.and_eq_true] at he
    exact he.2

/-- A connection that reads finds something. -/
theorem Reports.found (h : k.Reports mask ev r) (hm : IoEvent.hasEvent mask .readable = true) :
    k.Found ev r := by
  obtain ⟨q, hq, hne, rfl, hr⟩ := h
  obtain ⟨hread, hwrite, herror, hhangup⟩ := q.hasEvent_events mask
  refine ⟨hr, fun he => ?_, ?_⟩
  · rw [hwrite, Bool.and_eq_true] at he
    rw [hhangup]
    exact hq.output he.1
  · rw [hread, hwrite, herror, hhangup]
    rcases (q.reported_ne_zero_iff mask).1 hne with h | h | h | h | h
    · exact .inr (.inr (.inl h))
    · exact .inr (.inr (.inr h))
    · exact .inl h
    · exact .inr (.inl h)
    · -- the end of the peer's bytes is something to read
      exact .inr (.inr (.inl (by rw [(hq.shutdown h).2, hm]; rfl)))

theorem reports_readable (hm : IoEvent.hasEvent mask .readable = true) (h : k.Receives r) :
    ∃ ev, k.Reports mask ev r := by
  refine ⟨_, ⟨true, false, false, false, false⟩, ⟨fun _ => ?_, (by rintro ⟨⟩),
    (by rintro (he | he) <;> cases he), (by rintro ⟨⟩)⟩, ?_, rfl, fun _ => h⟩
  · cases r with
    | data bytes =>
      obtain ⟨hpre, hne | hend⟩ := h
      · refine .inl fun e => hne ?_
        rw [e] at hpre
        exact List.prefix_nil.1 hpre
      · exact .inr hend.2
    | wouldBlock => exact h.elim
    | error => exact .inr h
  · exact (Readiness.reported_ne_zero_iff _ _).2 (.inl (by rw [hm]; rfl))

theorem reports_writable (hm : IoEvent.hasEvent mask .writable = true) (h : 0 < k.room)
    (r : RecvResult) : ∃ ev, k.Reports mask ev r := by
  refine ⟨_, ⟨false, true, false, false, false⟩, ⟨(by rintro ⟨⟩), fun _ => .inl h,
    (by rintro (he | he) <;> cases he), (by rintro ⟨⟩)⟩, ?_, rfl, fun he => ?_⟩
  · exact (Readiness.reported_ne_zero_iff _ _).2 (.inr (.inl (by rw [hm]; rfl)))
  · rw [(Readiness.hasEvent_events _ mask).1] at he
    cases he

theorem silent_reports (mask ev : IoEvent) (r : RecvResult) : ¬ silent.Reports mask ev r := by
  rintro ⟨q, hq, hne, -, -⟩
  rcases (q.reported_ne_zero_iff mask).1 hne with h | h | h | h | h
  · rw [Bool.and_eq_true] at h
    rcases hq.input h.1 with hin | hend
    · exact hin rfl
    · cases hend
  · rw [Bool.and_eq_true] at h
    rcases hq.output h.1 with hroom | hh
    · exact Nat.lt_irrefl 0 hroom
    · cases hq.broken (.inr hh)
  · cases hq.broken (.inl h)
  · cases hq.broken (.inr h)
  · cases (hq.shutdown h).1

end Line

theorem Out.posts_submit (cbs : List Callback) : (Out.submit cbs).posts.length = 0 := rfl
theorem Out.submits_submit (cbs : List Callback) : (Out.submit cbs).submits = cbs := rfl

/-! ## One connection -/

/-- A call that is under way takes a lock or stores a flag, and may post a task. -/
def UserPc.work : UserPc → Nat
  | .sendLock data => 9 * data.length + 7
  | .pauseStore _ | .resumeStore => 7
  | .pausePost _ | .resumePost | .closePost => 6

/-- Where the loop thread is in `drain_write_queue`, seen with or without room. -/
def DrainPc.work (room : Bool) : DrainPc → Nat
  | .idle => 4
  | .top | .sending _ _ => if room then 3 else 6

namespace DrainPc

variable (room : Bool)

@[simp] theorem work_idle : work room .idle = 4 := rfl

theorem work_busy {pc : DrainPc} (h : pc ≠ .idle) : pc.work room = if room then 3 else 6 := by
  cases pc with
  | idle => exact absurd rfl h
  | top => rfl
  | sending chunk sent => rfl

theorem sendLoop_ne (chunk : Bytes) (sent : Nat) : sendLoop chunk sent ≠ .idle := by
  unfold sendLoop
  split <;> simp

/-- Inside `drain_write_queue` there are between three and six steps. -/
theorem work_bounds {pc : DrainPc} (h : pc ≠ .idle) : 3 ≤ pc.work room ∧ pc.work room ≤ 6 := by
  rw [work_busy room h]
  split <;> decide

end DrainPc

namespace Conn

variable {H : Type} {c c' : Conn H} {room room' : Bool}

def wantsWrite (c : Conn H) : Bool := c.interest.any fun mask => IoEvent.hasEvent mask .writable

/-- If the connection is registered, then for reading. -/
def AsksRead (c : Conn H) : Prop :=
  ∀ mask, c.interest = some mask → IoEvent.hasEvent mask .readable = true

/-- The bytes that `send` has accepted and the socket has not taken. -/
def unsent (c : Conn H) : Nat := c.writeQueue.flatten.length + c.inHand.length

def work (room : Bool) (c : Conn H) : Nat :=
  9 * c.unsent + c.writeQueue.length + 2 * c.wantsWrite.toNat + c.drain.work room +
    6 * (!c.closed).toNat + (c.calls.map UserPc.work).sum

/-- More room is less work. -/
theorem work_room_le (c : Conn H) (h : room = true → room' = true) :
    c.work room' ≤ c.work room := by
  have hd : c.drain.work room' ≤ c.drain.work room := by
    cases c.drain <;> cases room <;> cases room' <;> simp_all [DrainPc.work]
  unfold work
  omega

theorem wantsWrite_le (c : Conn H) : c.wantsWrite.toNat ≤ 1 := Bool.toNat_le _

/-- Only the mask changes. -/
theorem work_mask_le (hq : c'.writeQueue = c.writeQueue) (hd : c'.drain = c.drain)
    (hc : c'.closed = c.closed) (hcalls : c'.calls = c.calls) :
    c'.work room ≤ c.work room + 2 := by
  have := wantsWrite_le c'
  unfold work unsent inHand
  rw [hq, hd, hc, hcalls]
  omega

theorem initiateClose_work (room : Bool) (ho : c.closed = false) :
    c.initiateClose.1.work room + 4 * c.initiateClose.2.length + 2 ≤ c.work room := by
  unfold initiateClose
  rw [if_neg (by rw [ho]; exact Bool.false_ne_true)]
  have hlen : (if c.onClose.isSome then [Callback.onClose] else []).length ≤ 1 := by split <;> simp
  simp only [work, unsent, inHand, wantsWrite, ho, Option.any_none, Bool.toNat_false, Bool.not_true,
    Bool.not_false, Bool.toNat_true]
  omega

theorem sum_calls_erase {l : List UserPc} {i : Nat} {pc : UserPc} (h : l[i]? = some pc) :
    ((l.eraseIdx i).map UserPc.work).sum + pc.work = (l.map UserPc.work).sum := by
  obtain ⟨l₁, l₂, e, e', -⟩ := Cells.split_getElem? h
  rw [e', e]
  simp only [List.map_append, List.map_cons, List.sum_append, List.sum_cons]
  omega

theorem sum_calls_set {l : List UserPc} {i : Nat} {pc : UserPc} (h : l[i]? = some pc)
    (pc' : UserPc) : ((l.set i pc').map UserPc.work).sum + pc.work =
      (l.map UserPc.work).sum + pc'.work := by
  obtain ⟨l₁, l₂, e, -, e'⟩ := Cells.split_getElem? h
  rw [e' pc', e]
  simp only [List.map_append, List.map_cons, List.sum_append, List.sum_cons]
  omega

/-- A call goes on. -/
theorem advance_work (room : Bool) {i : Nat} {pc : UserPc} (hg : c.calls[i]? = some pc) :
    (c.advance i pc).1.work room + 5 * (c.advance i pc).2.posts.length < c.work room := by
  have herase := sum_calls_erase hg
  cases pc with
  | sendLock data =>
    rcases enqueueSend_cases { c with calls := c.calls.eraseIdx i } data with e | ⟨-, -, e⟩
    · simp only [advance, e, Bool.false_eq_true, ↓reduceIte, List.length_nil]
      simp only [UserPc.work] at herase
      simp only [work, unsent, inHand, wantsWrite]
      omega
    · have hlen : (if c.writeRegistered then [] else [ConnTask.registerWritable]).length ≤ 1 := by
        split <;> simp
      simp only [advance, e, ↓reduceIte]
      simp only [UserPc.work] at herase
      simp only [work, unsent, inHand, wantsWrite, List.flatten_append, List.flatten_cons,
        List.flatten_nil, List.append_nil, List.length_append, List.length_singleton]
      omega
  | pauseStore k =>
    have hset := sum_calls_set hg (.pausePost k)
    simp only [UserPc.work] at hset
    simp only [advance, Out.quiet, List.length_nil, work, unsent, inHand, wantsWrite]
    omega
  | resumeStore =>
    have hset := sum_calls_set hg .resumePost
    simp only [UserPc.work] at hset
    simp only [advance, Out.quiet, List.length_nil, work, unsent, inHand, wantsWrite]
    omega
  | pausePost k | resumePost | closePost =>
    simp only [UserPc.work] at herase
    simp only [advance, Out.post, List.length_singleton, work, unsent, inHand, wantsWrite]
    omega

/-- A task of the loop. -/
theorem runTask_work (room ok : Bool) (t : ConnTask) :
    (c.runTask ok t).1.work room + 4 * (c.runTask ok t).2.length ≤ c.work room + 2 := by
  cases t with
  | startReading =>
    simp only [runTask, add, List.length_nil]
    split
    · omega
    · exact work_mask_le rfl rfl rfl rfl
  | registerWritable =>
    simp only [runTask, List.length_nil]
    split
    · omega
    · exact work_mask_le rfl rfl rfl rfl
  | pause k =>
    simp only [runTask, List.length_nil]
    split <;> exact work_mask_le rfl rfl rfl rfl
  | resume =>
    simp only [runTask, List.length_nil]
    split
    · omega
    · exact work_mask_le rfl rfl rfl rfl
  | initiateClose =>
    cases ho : c.closed with
    | false =>
      have := initiateClose_work room ho
      simp only [runTask]
      omega
    | true => simp [runTask, initiateClose, ho]

/-- A socket that is writable has room, and `drain_write_queue` is begun with it. -/
theorem startDrain_work {ev : IoEvent} (hd : c.drain = .idle)
    (hroom : IoEvent.hasEvent ev .writable = true → room = true) :
    (c.startDrain ev).work room + (if IoEvent.hasEvent ev .writable then 1 else 0) =
      c.work room := by
  unfold startDrain
  split
  · rename_i hw
    simp only [work, unsent, inHand, wantsWrite, hd, DrainPc.work, hroom hw, DrainPc.left,
      ↓reduceIte]
    omega
  · rfl

/-- An event is paid for by what it finds. -/
theorem onIoEvent_work (room : Bool) {k : Line} {ev : IoEvent} {r : RecvResult}
    (ho : c.closed = false) (hd : c.drain = .idle) (hk : k.Found ev r)
    (hroom : 0 < k.room → room = true) :
    (c.onIoEvent ev r).1.work room + 4 * (c.onIoEvent ev r).2.length +
        5 * c.received.flatten.length <
      c.work room + 5 * (c.onIoEvent ev r).1.received.flatten.length := by
  have hclose := initiateClose_work room ho
  have hrecv : c.initiateClose.1.received = c.received := (initiateClose_sameLogs c).received
  have hdrain (hh : IoEvent.hasEvent ev .hangup ≠ true) (c₀ : Conn H) (h₀ : c₀.drain = .idle) :
      (c₀.startDrain ev).work room + (if IoEvent.hasEvent ev .writable then 1 else 0) =
        c₀.work room ∧ (c₀.startDrain ev).received = c₀.received :=
    ⟨startDrain_work h₀ fun hw => hroom ((hk.writable hw).resolve_right hh),
      (startDrain_frame c₀ ev).2.1⟩
  unfold onIoEvent
  rw [if_neg (by rw [ho]; exact Bool.false_ne_true)]
  split
  · rw [hrecv]
    omega
  · rename_i hbroken
    simp only [Bool.or_eq_true, not_or] at hbroken
    split
    · rename_i hread
      cases r with
      | wouldBlock => exact (hk.readable hread).elim
      | error => simp only [hrecv]; omega
      | data bytes =>
        simp only
        split
        · rw [hrecv]
          omega
        · rename_i hne
          obtain ⟨hwork, hrec⟩ :=
            hdrain hbroken.2 { c with received := c.received ++ [bytes] } hd
          have hlen : (if c.onData then [Callback.onData bytes] else []).length ≤ 1 := by
            split <;> simp
          have hpos : 0 < bytes.length := by
            cases bytes with
            | nil => exact absurd rfl hne
            | cons b bs => exact Nat.succ_pos _
          have hsame : work room { c with received := c.received ++ [bytes] } = c.work room := rfl
          rw [hrec]
          simp only [List.flatten_append, List.flatten_cons, List.flatten_nil, List.append_nil,
            List.length_append]
          omega
    · rename_i hread
      have hwrite : IoEvent.hasEvent ev .writable = true := by
        rcases hk.something with h | h | h | h
        · exact absurd h hbroken.1
        · exact absurd h hbroken.2
        · exact absurd h hread
        · exact h
      obtain ⟨hwork, hrec⟩ := hdrain hbroken.2 c hd
      rw [if_pos hwrite] at hwork
      rw [hrec]
      simp only [List.length_nil]
      omega

/-- The top of `drain_write_queue`'s loop. -/
theorem drainLock_work (room : Bool) (hd : c.drain = .top) (hw : c.wantsWrite = true) :
    c.drainLock.work room < c.work room := by
  unfold drainLock
  cases hq : c.writeQueue with
  | nil =>
    have hmask : IoEvent.hasEvent IoEvent.readable .writable = false := by decide
    have hoff : (c.interest.map fun _ => IoEvent.readable).any
        (fun mask => IoEvent.hasEvent mask .writable) = false := by
      cases c.interest <;> simp [hmask]
    simp only [wantsWrite] at hw
    have hphase := DrainPc.work_bounds room (show DrainPc.top ≠ .idle by rintro ⟨⟩)
    simp only [work, unsent, inHand, wantsWrite, modify, hq, hd, hw, hoff, DrainPc.work_idle,
      DrainPc.left_idle, DrainPc.left_top, Bool.toNat_false, Bool.toNat_true]
    omega
  | cons chunk rest =>
    have hphase : (DrainPc.sendLoop chunk 0).work room = DrainPc.work room .top :=
      (DrainPc.work_busy room (DrainPc.sendLoop_ne chunk 0)).trans
        (DrainPc.work_busy room (by rintro ⟨⟩)).symm
    simp only [work, unsent, inHand, wantsWrite, hq, hd, hphase, DrainPc.left_sendLoop,
      DrainPc.left_top, List.drop_zero, List.flatten_cons, List.length_append, List.length_cons,
      List.length_nil]
    omega

/-- One `send`: it takes something, or there is no room, or the connection has ended. -/
theorem drainSend_work (room room' : Bool) {k : Line} {chunk : Bytes} {sent : Nat} {r : SendResult}
    (ho : c.closed = false) (hd : c.drain = .sending chunk sent)
    (hfit : SendResult.fits (chunk.length - sent) r = true) (hk : k.Takes r)
    (hroom : k.room = 0 → room = false)
    (hroom' : (c.drainSend chunk sent r).1.wire = c.wire → room' = room) :
    (c.drainSend chunk sent r).1.work room' + 4 * (c.drainSend chunk sent r).2.length +
        5 * (c.drainSend chunk sent r).1.wire.length < c.work room + 5 * c.wire.length := by
  have hnow := DrainPc.work_bounds room
    (show DrainPc.sending chunk sent ≠ .idle by rintro ⟨⟩)
  cases r with
  | sent j =>
    have hj : j ≤ chunk.length - sent := by simpa [SendResult.fits] using hfit
    have hpos : 0 < j := hk.1
    have hnext := DrainPc.work_bounds room' (DrainPc.sendLoop_ne chunk (sent + j))
    simp only [drainSend, work, unsent, inHand, wantsWrite, DrainPc.left_sendLoop, hd,
      DrainPc.left_sending, List.length_append, List.length_take, List.length_drop,
      List.length_nil]
    omega
  | wouldBlock =>
    have hfull : room = false := hroom hk
    have hsame : room' = room := hroom' rfl
    have hphase : DrainPc.work room (.sending chunk sent) = 6 := by rw [hfull]; rfl
    rw [hsame]
    simp only [drainSend, work, unsent, inHand, wantsWrite, hd, hphase, DrainPc.work_idle,
      DrainPc.left_sending, DrainPc.left_idle, List.flatten_cons, List.length_append,
      List.length_cons, List.length_nil]
    omega
  | error =>
    have hsame : room' = room := hroom' (initiateClose_sameLogs _).wire
    have hclose := initiateClose_work (c := { c with drain := .idle, failed := true }) room ho
    have hwire : (initiateClose { c with drain := .idle, failed := true }).1.wire = c.wire :=
      (initiateClose_sameLogs { c with drain := .idle, failed := true }).wire
    have hidle : work room { c with drain := .idle, failed := true } ≤ c.work room + 1 := by
      simp only [work, unsent, inHand, wantsWrite, hd, DrainPc.left_idle, DrainPc.work_idle,
        List.length_nil]
      omega
    rw [hsame]
    simp only [drainSend, hwire]
    omega

theorem advance_lines (i : Nat) (pc : UserPc) :
    (c.advance i pc).1.wire = c.wire ∧ (c.advance i pc).1.received = c.received := by
  cases pc with
  | sendLock data =>
    rcases enqueueSend_cases { c with calls := c.calls.eraseIdx i } data with e | ⟨-, -, e⟩ <;>
      simp only [advance, e, and_self]
  | pauseStore k | pausePost k | resumeStore | resumePost | closePost => exact ⟨rfl, rfl⟩

theorem onIoEvent_wire (ev : IoEvent) (r : RecvResult) : (c.onIoEvent ev r).1.wire = c.wire :=
  onIoEvent_elim (P := fun c' => c'.wire = c.wire) r rfl (initiateClose_sameLogs c).wire
    (startDrain_sameLogs c ev).wire fun bytes =>
      (startDrain_sameLogs { c with received := c.received ++ [bytes] } ev).wire

theorem drainSend_received (chunk : Bytes) (sent : Nat) (r : SendResult) :
    (c.drainSend chunk sent r).1.received = c.received := by
  cases r with
  | sent j => rfl
  | wouldBlock => rfl
  | error => exact (initiateClose_sameLogs { c with drain := .idle, failed := true }).received

/-- What the threads do with a connection by themselves, on the line `k`. -/
def Own (k : Line) (c : Conn H) : Act H → Prop
  | .advance _ | .drainLock => True
  | .event ev r => ∀ mask ∈ c.interest, k.Reports mask ev r
  | .drainSend r => k.Takes r
  | .setOnData | .setOnClose _ | .call _ | .startReading | .task _ _ | .teardownClose => False

/-- **A step of a connection**, with what it posts and submits, what it takes from the network and
what it gives to it. -/
theorem step_work (room room' : Bool) {k : Line} {b : Act H} {o : Out} (hb : Own k c b)
    (hread : c.AsksRead ∨ k = .silent) (hun : c.closed = true → c.interest = none)
    (hdrain : c.drain ≠ .idle → c.closed = false ∧ c.wantsWrite = true)
    (hk : room = decide (0 < k.room)) (hroom : c'.wire = c.wire → room' = room)
    (he : c.step b = some (c', o)) :
    c'.work room' + 5 * o.posts.length + 4 * o.submits.length + 5 * c'.wire.length +
        5 * c.received.flatten.length <
      c.work room + 5 * c.wire.length + 5 * c'.received.flatten.length := by
  cases step_view he with
  | setOnData | setOnClose | startReading | call | task | teardownClose => cases hb
  | advance i pc hg =>
    have hwork := advance_work room hg
    obtain ⟨hwire, hrecv⟩ := advance_lines (c := c) i pc
    rw [hroom hwire, hwire, hrecv, advance_submits]
    simp only [List.length_nil]
    omega
  | event ev r mask hm hd hfit =>
    have hrep := hb mask hm
    have hfound : k.Found ev r := by
      rcases hread with hread | rfl
      · exact hrep.found (hread mask hm)
      · exact absurd hrep (Line.silent_reports mask ev r)
    have ho : c.closed = false := by
      cases hc : c.closed with
      | false => rfl
      | true => cases hm.symm.trans (hun hc)
    have hwork := onIoEvent_work room ho hd hfound fun hpos => by rw [hk]; simpa using hpos
    rw [hroom (onIoEvent_wire ev r), onIoEvent_wire]
    simp only [Out.submit, List.length_nil]
    omega
  | drainLock hd =>
    obtain ⟨-, hw⟩ := hdrain (by rw [hd]; rintro ⟨⟩)
    have hwork := drainLock_work room hd hw
    have hlogs := drainLock_sameLogs (c := c)
    rw [hroom hlogs.wire, hlogs.wire, hlogs.received]
    simp only [Out.quiet, List.length_nil]
    omega
  | drainSend chunk sent r hd hfit =>
    obtain ⟨ho, -⟩ := hdrain (by rw [hd]; rintro ⟨⟩)
    have hwork := drainSend_work room room' ho hd hfit hb
      (fun hz => by rw [hk, hz]; rfl) hroom
    rw [drainSend_received]
    simp only [Out.submit, List.length_nil]
    omega

/-- What a connection receives is the first part of what waits for it. -/
theorem step_received {k : Line} {b : Act H} {o : Out} (hb : Own k c b)
    (he : c.step b = some (c', o)) : c'.received = c.received ∨
      ∃ bytes, bytes <+: k.incoming ∧ c'.received = c.received ++ [bytes] := by
  cases step_view he with
  | setOnData | setOnClose | startReading | call | task | teardownClose => cases hb
  | advance i pc hg => exact .inl (advance_lines i pc).2
  | event ev r mask hm =>
    obtain ⟨_, -, -, -, hrecv⟩ := hb mask hm
    have hclose := (initiateClose_sameLogs c).received
    unfold onIoEvent
    split
    · exact .inl rfl
    · split
      · exact .inl hclose
      · split
        · rename_i hread
          cases r with
          | wouldBlock => exact .inl rfl
          | error => exact .inl hclose
          | data bytes =>
            simp only
            split
            · exact .inl hclose
            · refine .inr ⟨bytes, (hrecv hread).1, ?_⟩
              exact (startDrain_sameLogs { c with received := c.received ++ [bytes] } ev).received
        · exact .inl (startDrain_sameLogs c ev).received
  | drainLock hd => exact .inl drainLock_sameLogs.received
  | drainSend chunk sent r hd hfit => exact .inl (drainSend_received chunk sent r)

/-- On a silent line nothing is taken or given. -/
theorem step_silent {b : Act H} {o : Out} (hb : Own .silent c b) (he : c.step b = some (c', o)) :
    c'.wire = c.wire ∧ c'.received = c.received := by
  cases step_view he with
  | setOnData | setOnClose | startReading | call | task | teardownClose => cases hb
  | advance i pc hg => exact advance_lines i pc
  | event ev r mask hm => exact absurd (hb mask hm) (Line.silent_reports mask ev r)
  | drainLock hd => exact ⟨drainLock_sameLogs.wire, drainLock_sameLogs.received⟩
  | drainSend chunk sent r hd hfit =>
    cases r with
    | sent j => exact absurd hb.1 (Nat.not_lt.2 hb.2)
    | wouldBlock => exact ⟨rfl, rfl⟩
    | error => cases hb

end Conn

/-! ## The stream -/

/-- A posted task is worth the step it is and what it leads to; one that waits for the next swap
is worth two more, which pay for the loop's way to it. -/
def PostQueue.work {τ : Type} (q : PostQueue τ) : Nat :=
  5 * q.active.length + 3 * q.drain.length + (!q.polling).toNat

namespace PostQueue

variable {τ : Type} {q q' : PostQueue τ}

theorem work_post (ts : List τ) : (q.post ts).work = q.work + 5 * ts.length := by
  simp only [work, post, List.length_append]
  omega

theorem work_swap (ha : q.active ≠ []) (h : q.swap = some q') : q'.work < q.work := by
  obtain ⟨hp, hp', ha', hd'⟩ := swap_cases h
  have hpos := List.length_pos_iff.2 ha
  simp only [work, ha', hd', hp, hp', q.cleared hp, List.length_nil, Bool.not_true, Bool.not_false,
    Bool.toNat_true, Bool.toNat_false]
  omega

theorem work_enterPoll (h : q.enterPoll = some q') : q'.work < q.work := by
  obtain ⟨hp, hp', ha, hd, hd'⟩ := enterPoll_cases h
  simp only [work, ha, hd, hd', hp, hp', Bool.not_true, Bool.not_false, Bool.toNat_true,
    Bool.toNat_false]
  omega

theorem work_next {x : τ} (h : q.next = some (x, q')) : q'.work + 3 = q.work := by
  obtain ⟨hp, hp', ha, hd⟩ := next_cases h
  simp only [work, ha, hd, hp, hp', List.length_cons]
  omega

end PostQueue

def StreamJob.work : StreamJob → Nat
  | .onConnect _ => 7
  | .onError => 1

def StreamExec.work : StreamExec → Nat
  | .onConnect _ => 7
  | .installed _ => 6
  | .onError => 1

def Teardown.work : Teardown → Nat
  | .running => 3
  | .joined => 2
  | .cleared => 1
  | .down => 0

namespace Stream

variable {n : Nat} {cfg : StreamConfig} {s s' : Stream n} {a : Act n} {c d : Nat} {k : Line}
  {room room' : Bool}

/-- The steps left when connection `c` has, or has not, room to write and the others have none. -/
def work (c : Nat) (room : Bool) (s : Stream n) : Nat :=
  s.posts.work + ∑ d ∈ Finset.range s.made, (s.impls d).work (decide (d = c) && room) +
    6 * ∑ d ∈ Finset.range s.made, (s.entered d).isNone.toNat +
    s.pool.work (Finset.range s.made) StreamJob.work StreamExec.work + s.teardown.work

/-- What the threads of a stream do by themselves. `k` is the line of connection `c`; the lines of
the others are silent. The loop leaves `poll` for what was posted, `add` succeeds, and no
connection is closed twice. -/
def Own (c : Nat) (k : Line) (s : Stream n) : Act n → Prop
  | .conn d b => Conn.Own (if d = c then k else .silent) (s.impls d) b
  | .swap => s.posts.active ≠ []
  | .runPost ok => ok = true
  | .enterPoll | .take _ | .install _ | .startReading _ | .errorReturn _ | .drainLock _
  | .runClose _ | .fnReturn _ | .clear | .shutdown => True
  | .teardownClose d => (s.impls d).closed = false
  | .accept _ | .reportError | .connected _ | .join => False

/-- More room is less work. -/
theorem work_room_le (s : Stream n) (c : Nat) (room room' : Bool)
    (h : room = true → room' = true) :
    s.work c room' ≤ s.work c room := by
  have hsum : ∑ d ∈ Finset.range s.made, (s.impls d).work (decide (d = c) && room') ≤
      ∑ d ∈ Finset.range s.made, (s.impls d).work (decide (d = c) && room) := by
    refine Finset.sum_le_sum fun d _ => Conn.work_room_le _ fun hr => ?_
    rw [Bool.and_eq_true] at hr ⊢
    exact ⟨hr.1, h hr.2⟩
  unfold work
  omega

theorem foldl_submit_work (p : StreamPool n) {K : Finset Nat} (hd : d ∈ K) (cbs : List Callback) :
    (cbs.foldl (fun p cb => p.submit d cb) p).work K StreamJob.work StreamExec.work ≤
      p.work K StreamJob.work StreamExec.work + 4 * cbs.length := by
  induction cbs generalizing p with
  | nil => exact Nat.le_refl _
  | cons cb cbs ih =>
    have h := ih (p.submit d cb)
    have hs := SerialPool.work_submit (s := p) (f := StreamJob.work) (g := StreamExec.work) hd cb
    rw [List.foldl_cons, List.length_cons]
    omega

/-- A connection takes a step; what it posts and submits is left to do. -/
theorem absorb_work (room room' : Bool) (hd : d < s.made) (hroom : d ≠ c → room' = room)
    (r : Conn CloseHandler × Out) :
    (s.absorb d r).work c room' + (s.impls d).work (decide (d = c) && room) ≤
      s.work c room + r.1.work (decide (d = c) && room') + 5 * r.2.posts.length +
        4 * r.2.submits.length := by
  have hsum := Cells.sum_change (t := Finset.range s.made) (i := d)
    (fun e => (s.impls e).work (decide (e = c) && room))
    (fun e => ((s.absorb d r).impls e).work (decide (e = c) && room'))
    (Finset.mem_range.2 hd) fun e _ he => by
      rw [absorb_impls_ne s r he]
      by_cases hec : e = c
      · rw [hroom fun hdc => he (hec.trans hdc.symm)]
      · simp [hec]
  have hpool : (s.absorb d r).pool.work (Finset.range s.made) StreamJob.work StreamExec.work ≤
      s.pool.work (Finset.range s.made) StreamJob.work StreamExec.work + 4 * r.2.submits.length :=
    foldl_submit_work s.pool (Finset.mem_range.2 hd) r.2.submits
  have hposts : (s.absorb d r).posts.work = s.posts.work + 5 * r.2.posts.length := by
    show (s.posts.post (r.2.posts.map (StreamTask.conn d))).work = _
    rw [PostQueue.work_post, List.length_map]
  have hmade : (s.absorb d r).made = s.made := rfl
  have hentered : (s.absorb d r).entered = s.entered := rfl
  have hteardown : (s.absorb d r).teardown = s.teardown := rfl
  rw [absorb_impls_self] at hsum
  unfold work
  rw [hposts, hmade, hentered, hteardown]
  omega

/-- What the steps need of the state they are taken in. -/
structure Kept (s : Stream n) : Prop where
  unregistered : ∀ d, (s.impls d).closed = true → (s.impls d).interest = none
  /-- the loop thread is in `drain_write_queue` for a connection that is open and registered for
  writing -/
  draining : ∀ d, (s.impls d).drain ≠ .idle →
    (s.impls d).closed = false ∧ (s.impls d).wantsWrite = true
  fresh : ∀ d, d ∉ Finset.range s.made → (s.pool.queues d).pending = []

/-- A connection takes one of its own steps. -/
theorem connStep_work (h : s.Kept) {b : Conn.Act CloseHandler} (hd : d < s.made)
    (ho : Own c k s (.conn d b)) (hread : (s.impls c).AsksRead ∨ k = .silent)
    (he : s.connStep d b = some s') (hk : room = decide (0 < k.room))
    (hroom : (s'.impls c).wire = (s.impls c).wire → room' = room) :
    s'.work c room' + 5 * (s'.impls c).wire.length + 5 * (s.impls c).received.flatten.length <
      s.work c room + 5 * (s.impls c).wire.length + 5 * (s'.impls c).received.flatten.length := by
  obtain ⟨⟨c₁, o⟩, hr, rfl⟩ := Option.map_eq_some_iff.1 he
  by_cases hdc : d = c
  · subst hdc
    have hstep := Conn.step_work room room' (k := k)
      (by simpa [Own] using ho) hread (h.unregistered d) (h.draining d) hk
      (by simpa [absorb_impls_self] using hroom) hr
    have habs := absorb_work (c := d) room room' hd
      (fun hne => absurd rfl hne) (c₁, o)
    rw [absorb_impls_self]
    simp only [decide_true, Bool.true_and] at habs
    dsimp only
    omega
  · have hsame : room' = room := hroom (by rw [absorb_impls_ne s _ (Ne.symm hdc)])
    have hstep := Conn.step_work false false (k := .silent)
      (by simpa [Own, hdc] using ho) (.inr rfl) (h.unregistered d) (h.draining d) rfl
      (fun _ => rfl) hr
    have habs := absorb_work (c := c) room room' hd (fun _ => hsame) (c₁, o)
    obtain ⟨hwire, hrecv⟩ := Conn.step_silent (by simpa [Own, hdc] using ho) hr
    rw [absorb_impls_ne s _ (Ne.symm hdc)]
    simp only [hdc, decide_false, Bool.false_and] at habs
    rw [hwire, hrecv] at hstep
    omega

theorem sum_entered_update {h : CloseHandler} (hd : d < s.made) (hen : s.entered d = none) :
    ∑ e ∈ Finset.range s.made, (Function.update s.entered d (some h) e).isNone.toNat + 1 =
      ∑ e ∈ Finset.range s.made, (s.entered e).isNone.toNat := by
  have hsum := Cells.sum_update_mem (fun x : Option CloseHandler => x.isNone.toNat) s.entered
    (Finset.mem_range.2 hd) (some h)
  simpa [hen] using hsum

/-- A step of the pool alone. -/
theorem pool_work (h : s.Kept) {p : StreamPool n} (pa : StreamPoolAct n) (hpa : pa.Worker)
    (hp : SerialPool.step StreamJob.begin s.pool pa = some p) :
    work c room { s with pool := p } < s.work c room := by
  have hlt := SerialPool.work_lt (f := StreamJob.work) (g := StreamExec.work)
    (fun x => by cases x <;> rfl) h.fresh hpa hp
  unfold work
  dsimp only
  omega

/-- The logs of `c` are as they were. -/
theorem absorb_lines (r : Conn CloseHandler × Out) (h : Conn.SameLogs (s.impls d) r.1) :
    ((s.absorb d r).impls c).wire = (s.impls c).wire ∧
      ((s.absorb d r).impls c).received = (s.impls c).received := by
  by_cases hc : c = d
  · subst hc
    rw [absorb_impls_self]
    exact ⟨h.wire, h.received⟩
  · rw [absorb_impls_ne s r hc]
    exact ⟨rfl, rfl⟩

/-- Only a step of `c` itself takes or gives bytes. -/
theorem step_lines (he : step cfg s a = some s') (ha : ∀ b, a ≠ .conn c b) :
    (s'.impls c).wire = (s.impls c).wire ∧ (s'.impls c).received = (s.impls c).received := by
  have hhand (s₀ : Stream n) (h : Option CloseHandler) (hi : s₀.impls = s.impls) :
      ((s₀.hand cfg s.made h).impls c).wire = (s.impls c).wire ∧
        ((s₀.hand cfg s.made h).impls c).received = (s.impls c).received := by
    unfold hand
    split
    · rw [hi]
      exact ⟨rfl, rfl⟩
    · by_cases hc : c = s.made
      · subst hc
        simp [hi]
      · simp [hi, hc]
  cases step_cases he with
  | full | reportError | swap | enterPoll | erase | take | errorReturn | drainLock | runClose
  | fnReturn | join | clear | shutdown => exact ⟨rfl, rfl⟩
  | accept fd => exact hhand _ _ rfl
  | connected fd => exact hhand _ _ rfl
  | conn d b _ _ _ hs =>
    obtain ⟨r, -, rfl⟩ := Option.map_eq_some_iff.1 hs
    rw [absorb_impls_ne s r fun e => ha b (by rw [e])]
    exact ⟨rfl, rfl⟩
  | task ok d t q _ _ _ hs =>
    obtain ⟨⟨c₁, o⟩, hr, rfl⟩ := Option.map_eq_some_iff.1 hs
    cases Conn.step_view hr with
    | task => exact absorb_lines (s := { s with posts := q }) _ (Conn.runTask_sameLogs ok t)
  | install w d s₁ p _ hs =>
    obtain ⟨⟨c₁, o⟩, hr, rfl⟩ := Option.map_eq_some_iff.1 hs
    cases Conn.step_view hr with
    | setOnClose => exact absorb_lines _ ⟨rfl, rfl, rfl, rfl⟩
  | startReading w d s₁ p _ hs =>
    obtain ⟨⟨c₁, o⟩, hr, rfl⟩ := Option.map_eq_some_iff.1 hs
    cases Conn.step_view hr with
    | startReading => exact absorb_lines _ ⟨rfl, rfl, rfl, rfl⟩
  | teardownClose d _ _ _ hs =>
    obtain ⟨⟨c₁, o⟩, hr, rfl⟩ := Option.map_eq_some_iff.1 hs
    cases Conn.step_view hr with
    | teardownClose => exact absorb_lines _ (Conn.initiateClose_sameLogs _)

/-- A worker in `on_connect_cb` goes on: what it does to the connection is no work for the loop, but
for what it posts. -/
theorem appStep_work {w : Fin n} {y : StreamExec}
    {y' : Option StreamExec} {p : StreamPool n} {c₁ : Conn CloseHandler} {o : Out}
    (hd : d < s.made) (hw : s.pool.pool.workers w = .running (.app y))
    (hsame : ∀ x, c₁.work x = (s.impls d).work x)
    (hsub : o.submits = []) (hp : (s.absorb d (c₁, o)).pool.appStep w y' = some p)
    (hlt : y'.elim 0 StreamExec.work + 5 * o.posts.length < y.work) :
    work c room { s.absorb d (c₁, o) with pool := p } < s.work c room := by
  have habs := absorb_work (s := s) (c := c) room room hd (fun _ => rfl)
    (c₁, o)
  have hw' : (s.absorb d (c₁, o)).pool.pool.workers w = .running (.app y) := by
    show (o.submits.foldl _ s.pool).pool.workers w = _
    rw [hsub]
    exact hw
  have hstep := SerialPool.work_appStep (b := StreamJob.begin) (K := Finset.range s.made)
    (f := StreamJob.work) (g := StreamExec.work) y' hw' hp
  rw [hsub] at habs
  simp only [hsame, List.length_nil] at habs
  have hmade : (s.absorb d (c₁, o)).made = s.made := rfl
  unfold work at habs ⊢
  rw [hmade] at habs ⊢
  dsimp only
  omega

/-- **Every step of the stream's own threads leaves less to do**, where a byte in flight is worth
five steps. The connection on the line reads. -/
theorem step_work (room room' : Bool) (h : s.Kept) (hreach : (machine cfg n).Reach s)
    (ho : Own c k s a) (hread : (s.impls c).AsksRead ∨ k = .silent) (he : step cfg s a = some s')
    (hk : room = decide (0 < k.room))
    (hroom : (s'.impls c).wire = (s.impls c).wire → room' = room) :
    s'.work c room' + 5 * (s'.impls c).wire.length + 5 * (s.impls c).received.flatten.length <
      s.work c room + 5 * (s.impls c).wire.length + 5 * (s'.impls c).received.flatten.length := by
  have hquiet (ha : ∀ b, a ≠ .conn c b) (hlt : s'.work c room < s.work c room) :
      s'.work c room' + 5 * (s'.impls c).wire.length + 5 * (s.impls c).received.flatten.length <
        s.work c room + 5 * (s.impls c).wire.length +
          5 * (s'.impls c).received.flatten.length := by
    obtain ⟨hw, hr⟩ := step_lines he ha
    rw [hroom hw, hw, hr]
    omega
  have hwf := reach_wf hreach
  cases step_cases he with
  | full | accept | reportError | connected | join => cases ho
  | conn d b _ hd hb hs => exact connStep_work h hd ho hread hs hk hroom
  | swap q hq =>
    obtain ⟨-, q', hs, e⟩ := step_swap he
    cases e
    have hlt := PostQueue.work_swap ho hs
    refine hquiet (by rintro b ⟨⟩) ?_
    unfold work
    dsimp only
    omega
  | enterPoll q hq =>
    obtain ⟨-, q', hs, e⟩ := step_enterPoll he
    cases e
    have hlt := PostQueue.work_enterPoll hs
    refine hquiet (by rintro b ⟨⟩) ?_
    unfold work
    dsimp only
    omega
  | task ok d t q _ ht hn hs =>
    obtain ⟨⟨c₁, o⟩, hr, rfl⟩ := Option.map_eq_some_iff.1 hs
    have hd : d < s.made := by
      refine Nat.lt_of_not_le fun hle => (hwf.fresh d hle).2.2 t ?_
      rw [PostQueue.pending_next hn]
      exact List.mem_cons_self
    have hnext := PostQueue.work_next hn
    cases Conn.step_view hr with
    | task =>
      have habs := absorb_work (s := { s with posts := q }) (c := c) room room hd (fun _ => rfl)
        (((s.impls d).runTask ok t).1, .submit ((s.impls d).runTask ok t).2)
      have hrun := Conn.runTask_work (c := s.impls d) (decide (d = c) && room) ok t
      have hposts : work c room { s with posts := q } + 3 = s.work c room := by
        unfold work
        dsimp only
        omega
      refine hquiet (by rintro b ⟨⟩) ?_
      simp only [Out.posts_submit, Out.submits_submit] at habs
      dsimp only
      omega
  | erase ok fd q ht hn =>
    have hnext := PostQueue.work_next hn
    refine hquiet (by rintro b ⟨⟩) ?_
    unfold work
    dsimp only
    omega
  | take w p hp => exact hquiet (by rintro b ⟨⟩) (pool_work h (.take w) trivial hp)
  | drainLock w p hp => exact hquiet (by rintro b ⟨⟩) (pool_work h (.drainLock w) trivial hp)
  | fnReturn w d t p _ _ hp => exact hquiet (by rintro b ⟨⟩) (pool_work h (.fnReturn w) trivial hp)
  | errorReturn w p hw hp =>
    have hstep := SerialPool.work_appStep (b := StreamJob.begin) (K := Finset.range s.made)
      (f := StreamJob.work) (g := StreamExec.work) none hw hp
    refine hquiet (by rintro b ⟨⟩) ?_
    simp only [StreamExec.work, Option.elim] at hstep
    unfold work
    dsimp only
    omega
  | install w d s₁ p hw hs hp =>
    obtain ⟨⟨c₁, o⟩, hr, rfl⟩ := Option.map_eq_some_iff.1 hs
    have hd := hwf.lambda_lt hw (c := d) (by simp [StreamExec.inLambda])
    cases Conn.step_view hr with
    | setOnClose =>
      exact hquiet (by rintro b ⟨⟩)
        (appStep_work hd hw (fun _ => rfl) rfl hp (by simp [StreamExec.work, Out.quiet]))
  | startReading w d s₁ p hw hs hp =>
    obtain ⟨⟨c₁, o⟩, hr, rfl⟩ := Option.map_eq_some_iff.1 hs
    have hd := hwf.lambda_lt hw (c := d) (by simp [StreamExec.inLambda])
    cases Conn.step_view hr with
    | startReading =>
      exact hquiet (by rintro b ⟨⟩)
        (appStep_work hd hw (fun _ => rfl) rfl hp (by simp [StreamExec.work, Out.post]))
  | runClose w d hc hw hen hcl =>
    have hd : d < s.made :=
      hwf.started_lt (reach_queue hreach d)
        (List.mem_of_getLast? (reach_lastStarted hreach d w _ hw))
    have hsum := sum_entered_update (h := hc) hd hen
    refine hquiet (by rintro b ⟨⟩) ?_
    unfold work enter
    dsimp only
    split
    · rw [PostQueue.work_post, List.length_singleton]
      omega
    · omega
  | teardownClose d _ ht hown hs =>
    obtain ⟨⟨c₁, o⟩, hr, rfl⟩ := Option.map_eq_some_iff.1 hs
    cases Conn.step_view hr with
    | teardownClose =>
      have habs := absorb_work (s := s) (c := c) room room
        (hwf.permits_lt (a := .teardownClose d) (b := .teardownClose) ⟨rfl, ht, hown⟩)
        (fun _ => rfl) ((s.impls d).initiateClose.1, .submit (s.impls d).initiateClose.2)
      have hclose := Conn.initiateClose_work (decide (d = c) && room) ho
      refine hquiet (by rintro b ⟨⟩) ?_
      simp only [Out.posts_submit, Out.submits_submit] at habs
      omega
  | clear ht =>
    refine hquiet (by rintro b ⟨⟩) ?_
    unfold work clear
    rw [ht]
    simp only [Teardown.work]
    omega
  | shutdown ht =>
    refine hquiet (by rintro b ⟨⟩) ?_
    have hpool : s.pool.shutdown.work (Finset.range s.made) StreamJob.work StreamExec.work =
        s.pool.work (Finset.range s.made) StreamJob.work StreamExec.work := rfl
    unfold work
    rw [ht]
    simp only [Teardown.work, hpool]
    omega

end Stream

end Socketpp
