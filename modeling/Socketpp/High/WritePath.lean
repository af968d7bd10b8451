import Socketpp.High.ConnectionLoop

/-!
# The write path

Bytes leave a connection in the order they were accepted. `WriteInv` is the
invariant: what the socket took, then what `drain_write_queue` has in hand,
then the queue is what was accepted, until `send` fails for good; the byte
counter is the size of the queue; and the memory held bounds both, so that no
`size_t` operation wraps. Only `enqueue_send` and the two critical sections of
`drain_write_queue` touch the queue; every other step keeps the fields the
invariant reads (`WriteInv.frame`).
-/

namespace Socketpp

namespace Conn

variable {H : Type} {c c' : Conn H}

structure WriteInv (c : Conn H) : Prop where
  stream : c.failed = false → c.wire ++ c.inHand ++ c.writeQueue.flatten = c.accepted.flatten
  bytes : c.writeQueueBytes = c.writeQueue.flatten.length
  held : c.heldBytes < 2 ^ 64
  failed : c.failed = true → c.closed = true

theorem start_writeInv (m r : Nat) : (start m r : Conn H).WriteInv :=
  ⟨fun _ => rfl, rfl, Nat.two_pow_pos 64, nofun⟩

/-- A step that keeps the queue, the counter, what is in hand and the logs. -/
theorem WriteInv.frame (h : c.WriteInv) (hq : c'.writeQueue = c.writeQueue)
    (hb : c'.writeQueueBytes = c.writeQueueBytes) (hl : c'.drain.left = c.drain.left)
    (hm : c'.drain.held = c.drain.held) (hw : c'.wire = c.wire) (ha : c'.accepted = c.accepted)
    (hf : c'.failed = c.failed) (hc : c.closed = true → c'.closed = true) : c'.WriteInv :=
  ⟨fun e => by rw [hw, inHand, hl, hq, ha]; exact h.stream (hf ▸ e), by rw [hb, hq]; exact h.bytes,
    by rw [heldBytes, hq, hm]; exact h.held, fun e => hc (h.failed (hf ▸ e))⟩

theorem initiateClose_writeInv (h : c.WriteInv) : c.initiateClose.1.WriteInv := by
  unfold initiateClose
  split
  · exact h
  · exact h.frame rfl rfl rfl rfl rfl rfl rfl fun _ => rfl

theorem modify_writeInv (h : c.WriteInv) (mask : IoEvent) : (c.modify mask).WriteInv :=
  h.frame rfl rfl rfl rfl rfl rfl rfl id

theorem call_writeInv (h : c.WriteInv) (op : UserOp) : (c.call op).WriteInv := by
  cases op with
  | send data =>
    simp only [call]
    split
    · exact h
    · exact h.frame rfl rfl rfl rfl rfl rfl rfl id
  | pause => exact h.frame rfl rfl rfl rfl rfl rfl rfl id
  | resume => exact h.frame rfl rfl rfl rfl rfl rfl rfl id
  | close =>
    simp only [call]
    split
    · exact h
    · exact h.frame rfl rfl rfl rfl rfl rfl rfl id

/-- What the critical section of `enqueue_send` can do. -/
theorem enqueueSend_cases (c : Conn H) (data : Bytes) :
    c.enqueueSend data = (c, false, []) ∨
    (sizeAdd c.writeQueueBytes data.length ≤ c.maxWriteQueueBytes ∧
      c.heldBytes + data.length < 2 ^ 64 ∧
      c.enqueueSend data =
        ({ c with writeQueue := c.writeQueue ++ [data]
                  writeQueueBytes := sizeAdd c.writeQueueBytes data.length
                  writeRegistered := true },
          true, if c.writeRegistered then [] else [.registerWritable])) := by
  unfold enqueueSend
  split
  · exact .inl rfl
  · rename_i hmax
    split
    · exact .inl rfl
    · rename_i hheld
      exact .inr ⟨Nat.le_of_not_lt hmax, Nat.lt_of_not_le hheld, rfl⟩

theorem WriteInv.queue_le_held (h : c.WriteInv) : c.writeQueueBytes ≤ c.heldBytes := by
  rw [h.bytes]; exact Nat.le_add_right _ _

theorem advance_writeInv (h : c.WriteInv) (i : Nat) (pc : UserPc) :
    (c.advance i pc).1.WriteInv := by
  cases pc with
  | sendLock data =>
    have h' : ({ c with calls := c.calls.eraseIdx i } : Conn H).WriteInv :=
      h.frame rfl rfl rfl rfl rfl rfl rfl id
    rcases enqueueSend_cases { c with calls := c.calls.eraseIdx i } data with e | ⟨-, hheld, e⟩
    · simp only [advance, e, Bool.false_eq_true, ↓reduceIte]
      exact h'
    · simp only [advance, e, ↓reduceIte]
      -- the new chunk goes to the end of the queue and of the accepted sends
      have hle := h'.queue_le_held
      have hb : c.writeQueueBytes + data.length < 2 ^ 64 :=
        Nat.lt_of_le_of_lt (Nat.add_le_add_right hle _) hheld
      refine ⟨fun hf => ?_, ?_, ?_, h.failed⟩
      · simp only [List.flatten_append, List.flatten_cons, List.flatten_nil, List.append_nil,
          ← h.stream hf, List.append_assoc]
        rfl
      · show sizeAdd c.writeQueueBytes data.length = (c.writeQueue ++ [data]).flatten.length
        rw [sizeAdd_eq hb, h.bytes]
        simp
      · simp only [heldBytes, List.flatten_append, List.flatten_cons, List.flatten_nil,
          List.append_nil, List.length_append] at hheld ⊢
        omega
  | pauseStore k | pausePost k | resumeStore | resumePost | closePost =>
    exact h.frame rfl rfl rfl rfl rfl rfl rfl id

theorem runTask_writeInv (h : c.WriteInv) (addOk : Bool) (t : ConnTask) :
    (c.runTask addOk t).1.WriteInv := by
  cases t with
  | startReading =>
    simp only [runTask, add]
    split
    · exact h
    · exact h.frame rfl rfl rfl rfl rfl rfl rfl id
  | registerWritable =>
    simp only [runTask]
    split
    · exact h
    · exact modify_writeInv h _
  | pause k =>
    simp only [runTask]
    split
    · exact h.frame rfl rfl rfl rfl rfl rfl rfl id
    · exact h.frame rfl rfl rfl rfl rfl rfl rfl id
  | resume =>
    simp only [runTask]
    split
    · exact h
    · exact modify_writeInv h _
  | initiateClose => exact initiateClose_writeInv h

theorem startDrain_writeInv (h : c.WriteInv) (hd : c.drain = .idle) (ev : IoEvent) :
    (c.startDrain ev).WriteInv := by
  unfold startDrain
  split
  · exact h.frame rfl rfl (by simp [hd]) (by simp [hd]) rfl rfl rfl id
  · exact h

theorem onIoEvent_writeInv (h : c.WriteInv) (hd : c.drain = .idle) (ev : IoEvent)
    (r : RecvResult) : (c.onIoEvent ev r).1.WriteInv := by
  refine onIoEvent_elim r h (initiateClose_writeInv h) (startDrain_writeInv h hd ev) fun bytes => ?_
  refine startDrain_writeInv (c := { c with received := c.received ++ [bytes] }) ?_ hd ev
  exact h.frame rfl rfl rfl rfl rfl rfl rfl id

theorem drainLock_writeInv (h : c.WriteInv) (hd : c.drain = .top) : c.drainLock.WriteInv := by
  unfold drainLock
  split
  · refine modify_writeInv (c := { c with writeRegistered := false, drain := .idle }) ?_ _
    exact h.frame rfl rfl (by simp [hd]) (by simp [hd]) rfl rfl rfl id
  · rename_i chunk rest hq
    have hb := h.bytes
    have hlt := h.held
    rw [heldBytes, hd] at hlt
    rw [hq, List.flatten_cons, List.length_append] at hb hlt
    have hle := DrainPc.held_sendLoop_le chunk 0
    refine ⟨fun hf => ?_, ?_, ?_, h.failed⟩
    · have := h.stream hf
      simpa [inHand, hd, hq] using this
    · show sizeSub c.writeQueueBytes chunk.length = _
      rw [sizeSub_eq (by omega) (by omega)]
      show c.writeQueueBytes - chunk.length = rest.flatten.length
      omega
    · show rest.flatten.length + (DrainPc.sendLoop chunk 0).held < 2 ^ 64
      rw [DrainPc.held_top] at hlt
      omega

theorem drainSend_writeInv {chunk : Bytes} {sent : Nat} (h : c.WriteInv)
    (hd : c.drain = .sending chunk sent) (r : SendResult) :
    (c.drainSend chunk sent r).1.WriteInv := by
  have hlt := h.held
  rw [heldBytes, hd, DrainPc.held_sending] at hlt
  cases r with
  | sent k =>
    refine ⟨fun hf => ?_, h.bytes, ?_, h.failed⟩
    · have := h.stream hf
      rw [inHand, hd, DrainPc.left_sending] at this
      simp only [drainSend, inHand, DrainPc.left_sendLoop, ← this, ← List.drop_drop,
        List.append_assoc]
      rw [← List.append_assoc (List.take k _), List.take_append_drop]
    · have hle := DrainPc.held_sendLoop_le chunk (sent + k)
      show c.writeQueue.flatten.length + (DrainPc.sendLoop chunk (sent + k)).held < 2 ^ 64
      omega
  | wouldBlock =>
    have hle : (chunk.drop sent).length ≤ chunk.length := by simp
    have hb := h.bytes
    refine ⟨fun hf => ?_, ?_, ?_, h.failed⟩
    · have := h.stream hf
      rw [inHand, hd] at this
      simpa [drainSend, inHand] using this
    · simp only [drainSend, List.flatten_cons, List.length_append]
      rw [sizeAdd_eq (by omega)]
      omega
    · simp only [drainSend, heldBytes, List.flatten_cons, List.length_append, DrainPc.held_idle]
      omega
  | error =>
    simp only [drainSend]
    unfold initiateClose
    split
    · rename_i hc
      exact ⟨nofun, h.bytes, Nat.lt_of_le_of_lt (by simp [heldBytes]) h.held, fun _ => hc⟩
    · exact ⟨nofun, h.bytes, Nat.lt_of_le_of_lt (by simp [heldBytes]) h.held, fun _ => rfl⟩

/-- Every step keeps the write invariant. -/
theorem step_writeInv {a : Act H} {o : Out} (h : c.WriteInv) (he : c.step a = some (c', o)) :
    c'.WriteInv := by
  cases step_view he with
  | setOnData _ => exact h.frame rfl rfl rfl rfl rfl rfl rfl id
  | setOnClose _ _ => exact h.frame rfl rfl rfl rfl rfl rfl rfl id
  | startReading _ => exact h.frame rfl rfl rfl rfl rfl rfl rfl id
  | call op => exact call_writeInv h op
  | advance i pc _ => exact advance_writeInv h i pc
  | task t ok _ => exact runTask_writeInv h ok t
  | event ev r mask _ hd _ => exact onIoEvent_writeInv h hd ev r
  | drainLock hd => exact drainLock_writeInv h hd
  | drainSend chunk sent r hd _ => exact drainSend_writeInv h hd r
  | teardownClose => exact initiateClose_writeInv h

end Conn

namespace ConnLoop

variable {H : Type}

/-- **Write-path integrity.** In every reachable state, until `send` fails for
good: what the socket took, what `drain_write_queue` has in hand and the queue
are together the accepted sends, in the order they held the lock. The byte
counter is the sum of the queued chunks' sizes, so taking the front chunk off
never takes it below zero. -/
theorem write_path_integrity {m r : Nat} {s : ConnLoop H} (h : (machine H m r).Reach s) :
    (s.conn.closed = false ∨ s.conn.failed = false →
      s.conn.wire ++ s.conn.inHand ++ s.conn.writeQueue.flatten = s.conn.accepted.flatten) ∧
    s.conn.writeQueueBytes = (s.conn.writeQueue.map List.length).sum ∧
    (∀ chunk rest, s.conn.writeQueue = chunk :: rest →
      chunk.length ≤ s.conn.writeQueueBytes ∧
      sizeSub s.conn.writeQueueBytes chunk.length = (rest.map List.length).sum) := by
  have hi : s.conn.WriteInv := reach_conn (Conn.start_writeInv m r)
    (fun _ _ _ _ hi he => Conn.step_writeInv hi he) h
  have hb : s.conn.writeQueueBytes = (s.conn.writeQueue.map List.length).sum := by
    rw [hi.bytes, List.length_flatten]
  refine ⟨fun hc => ?_, hb, fun chunk rest hq => ?_⟩
  · cases hf : s.conn.failed with
    | false => exact hi.stream hf
    | true => rw [hi.failed hf, hf] at hc; simp at hc
  · have hlt := Nat.lt_of_le_of_lt hi.queue_le_held hi.held
    rw [hq, List.map_cons, List.sum_cons] at hb
    exact ⟨by omega, by rw [sizeSub_eq hlt (by omega)]; omega⟩

/-- A partial send, then `would_block`: the rest goes back in front of a chunk
another thread queued meanwhile. -/
theorem write_path_integrity_push_back :
    ∃ s : ConnLoop Unit, (machine Unit 8 4).Reach s ∧
      (s.conn.closed = false ∧ s.conn.wire = [1] ∧ s.conn.writeQueue = [[2], [3]]) ∧
      s.conn.wire ++ s.conn.inHand ++ s.conn.writeQueue.flatten = s.conn.accepted.flatten := by
  obtain ⟨s, h, hp⟩ := Machine.Reach.of_run_init (M := machine Unit 8 4)
    (fun s => decide (s.conn.closed = false ∧ s.conn.wire = [1] ∧
      s.conn.writeQueue = [[2], [3]]))
    [.conn .startReading, .conn (.call (.send [1, 2])), .conn (.advance 0), .swap,
      .runPost true, .runPost true, .enterPoll, .conn (.event .writable .wouldBlock),
      .conn .drainLock, .conn (.call (.send [3])), .conn (.advance 0),
      .conn (.drainSend (.sent 1)), .conn (.drainSend .wouldBlock)]
    rfl (by decide)
  have hq := of_decide_eq_true hp
  exact ⟨s, h, hq, (write_path_integrity h).1 (.inl hq.1)⟩

end ConnLoop

end Socketpp
