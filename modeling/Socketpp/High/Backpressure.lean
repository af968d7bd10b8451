import Socketpp.High.WritePath

/-!
# The write backpressure bound

`enqueue_send` compares `write_queue_bytes_` with the limit, but a chunk that
`drain_write_queue` has popped is not counted while it is in hand, and its rest
comes back without a check when the socket would block. The counter and the
rest in hand together (`Conn.load`) are what has to stay below the limit: only
`enqueue_send` raises it (`step_load`). It stays below if each send that is
accepted leaves room for the rest in hand (`LeavesRoom`).
-/

namespace Socketpp

namespace Conn

variable {H : Type} {c c' : Conn H}

/-- What `write_queue_bytes_` is if the rest in hand is pushed back now. -/
def load (c : Conn H) : Nat := c.writeQueueBytes + c.inHand.length

/-- The limit is the same and the load is no larger. -/
def NoMore (c c' : Conn H) : Prop :=
  c'.maxWriteQueueBytes = c.maxWriteQueueBytes ∧ c'.load ≤ c.load

theorem NoMore.refl (c : Conn H) : NoMore c c := ⟨rfl, Nat.le_refl _⟩

theorem NoMore.trans {c'' : Conn H} (h : NoMore c c') (h' : NoMore c' c'') : NoMore c c'' :=
  ⟨h'.1.trans h.1, Nat.le_trans h'.2 h.2⟩

/-- A step that keeps the counter and what is in hand. -/
theorem NoMore.frame (hm : c'.maxWriteQueueBytes = c.maxWriteQueueBytes)
    (hb : c'.writeQueueBytes = c.writeQueueBytes) (hl : c'.drain.left = c.drain.left) :
    NoMore c c' :=
  ⟨hm, by rw [load, load, inHand, inHand, hb, hl]⟩

theorem initiateClose_noMore (c : Conn H) : NoMore c c.initiateClose.1 := by
  unfold initiateClose
  split <;> exact .frame rfl rfl rfl

theorem call_noMore (c : Conn H) (op : UserOp) : NoMore c (c.call op) := by
  cases op with
  | send data | close =>
    simp only [call]
    split <;> exact .frame rfl rfl rfl
  | pause | resume => exact .frame rfl rfl rfl

theorem runTask_noMore (c : Conn H) (ok : Bool) (t : ConnTask) :
    NoMore c (c.runTask ok t).1 := by
  cases t with
  | startReading =>
    simp only [runTask, add]
    split <;> exact .frame rfl rfl rfl
  | registerWritable | resume | pause =>
    simp only [runTask]
    split <;> exact .frame rfl rfl rfl
  | initiateClose => exact initiateClose_noMore c

theorem startDrain_noMore (hd : c.drain = .idle) (ev : IoEvent) :
    NoMore c (c.startDrain ev) := by
  unfold startDrain
  split
  · exact .frame rfl rfl (by simp [hd])
  · exact .refl c

theorem onIoEvent_noMore (hd : c.drain = .idle) (ev : IoEvent) (r : RecvResult) :
    NoMore c (c.onIoEvent ev r).1 := by
  refine onIoEvent_elim r (.refl c) (initiateClose_noMore c) (startDrain_noMore hd ev)
    fun bytes => ?_
  have hdata : NoMore c { c with received := c.received ++ [bytes] } := .frame rfl rfl rfl
  exact hdata.trans (startDrain_noMore (c := { c with received := c.received ++ [bytes] }) hd ev)

/-- Popping a chunk takes it from the counter into the hand. -/
theorem drainLock_noMore (h : c.WriteInv) (hd : c.drain = .top) : NoMore c c.drainLock := by
  unfold drainLock
  split
  · refine .frame rfl rfl ?_
    rw [hd]
    rfl
  · rename_i chunk rest hq
    have hb := h.bytes
    have hlt := Nat.lt_of_le_of_lt h.queue_le_held h.held
    rw [hq, List.flatten_cons, List.length_append] at hb
    refine ⟨rfl, ?_⟩
    show sizeSub c.writeQueueBytes chunk.length + (DrainPc.sendLoop chunk 0).left.length ≤ c.load
    rw [sizeSub_eq hlt (by omega), DrainPc.left_sendLoop, List.drop_zero, load]
    omega

/-- Sent bytes leave the hand; on `would_block` the rest goes back into the counter. -/
theorem drainSend_noMore {chunk : Bytes} {sent : Nat} (h : c.WriteInv)
    (hd : c.drain = .sending chunk sent) (r : SendResult) :
    NoMore c (c.drainSend chunk sent r).1 := by
  have hload : c.load = c.writeQueueBytes + (chunk.drop sent).length := by
    rw [load, inHand, hd, DrainPc.left_sending]
  cases r with
  | sent k =>
    refine ⟨rfl, ?_⟩
    show c.writeQueueBytes + (DrainPc.sendLoop chunk (sent + k)).left.length ≤ c.load
    rw [DrainPc.left_sendLoop, hload, List.length_drop, List.length_drop]
    omega
  | wouldBlock =>
    have hlt := h.held
    have hle : (chunk.drop sent).length ≤ chunk.length := by simp
    rw [heldBytes, hd, DrainPc.held_sending, ← h.bytes] at hlt
    refine ⟨rfl, ?_⟩
    show sizeAdd c.writeQueueBytes (chunk.drop sent).length + 0 ≤ c.load
    rw [sizeAdd_eq (by omega), hload]
    omega
  | error =>
    have hdrop : NoMore c { c with drain := .idle, failed := true } :=
      ⟨rfl, Nat.add_le_add_left (Nat.zero_le _) _⟩
    exact hdrop.trans (initiateClose_noMore _)

/-- **Only `enqueue_send` raises the load**: a step does not, or it is the
critical section of a send that found its bytes below the limit. -/
theorem step_load {a : Act H} {o : Out} (h : c.WriteInv) (he : c.step a = some (c', o)) :
    NoMore c c' ∨
    ∃ i data, a = .advance i ∧ c.calls[i]? = some (.sendLock data) ∧
      c.writeQueueBytes + data.length ≤ c.maxWriteQueueBytes ∧
      c'.maxWriteQueueBytes = c.maxWriteQueueBytes ∧ c'.load = c.load + data.length := by
  cases step_view he with
  | setOnData _ | setOnClose _ _ | startReading _ => exact .inl (.frame rfl rfl rfl)
  | call op => exact .inl (call_noMore c op)
  | advance i pc hpc =>
    cases pc with
    | sendLock data =>
      rcases enqueueSend_cases { c with calls := c.calls.eraseIdx i } data with e | ⟨hmax, hheld, e⟩
      · refine .inl ?_
        simp only [advance, e, Bool.false_eq_true, ↓reduceIte]
        exact .frame rfl rfl rfl
      · -- no wrap: the new chunk fits into memory besides the queue
        have hsum : sizeAdd c.writeQueueBytes data.length = c.writeQueueBytes + data.length :=
          sizeAdd_eq (Nat.lt_of_le_of_lt (Nat.add_le_add_right h.queue_le_held _) hheld)
        refine .inr ⟨i, data, rfl, hpc, ?_, ?_, ?_⟩
        · rw [← hsum]; exact hmax
        · simp only [advance, e, ↓reduceIte]
        · simp only [advance, e, ↓reduceIte]
          show sizeAdd c.writeQueueBytes data.length + c.inHand.length = c.load + data.length
          rw [hsum, load]
          omega
    | pauseStore k | pausePost k | resumeStore | resumePost | closePost =>
      exact .inl (.frame rfl rfl rfl)
  | task t ok _ => exact .inl (runTask_noMore c ok t)
  | event ev r mask _ hd _ => exact .inl (onIoEvent_noMore hd ev r)
  | drainLock hd => exact .inl (drainLock_noMore h hd)
  | drainSend chunk sent r hd _ => exact .inl (drainSend_noMore h hd r)
  | teardownClose => exact .inl (initiateClose_noMore c)

/-- A send that holds the lock and is below the limit is so together with the
unsent rest of the chunk `drain_write_queue` has in hand. -/
def RoomFor (c : Conn H) : UserPc → Prop
  | .sendLock data => c.writeQueueBytes + data.length ≤ c.maxWriteQueueBytes →
      c.writeQueueBytes + c.inHand.length + data.length ≤ c.maxWriteQueueBytes
  | _ => True

instance (c : Conn H) : (pc : UserPc) → Decidable (c.RoomFor pc)
  | .sendLock _ => inferInstanceAs (Decidable (_ → _))
  | .pauseStore _ | .pausePost _ | .resumeStore | .resumePost | .closePost => isTrue trivial

end Conn

namespace ConnLoop

variable {H : Type}

/-- Every send leaves room for the rest in hand. -/
def LeavesRoom (s : ConnLoop H) : Act H → Prop
  | .conn (.advance i) => ∀ pc ∈ s.conn.calls[i]?, s.conn.RoomFor pc
  | _ => True

instance (s : ConnLoop H) : (a : Act H) → Decidable (s.LeavesRoom a)
  | .conn (.advance i) => inferInstanceAs (Decidable (∀ pc ∈ s.conn.calls[i]?, s.conn.RoomFor pc))
  | .conn .setOnData | .conn (.setOnClose _) | .conn (.call _) | .conn .startReading
  | .conn (.task _ _) | .conn (.event _ _) | .conn .drainLock | .conn (.drainSend _)
  | .conn .teardownClose | .swap | .runPost _ | .enterPoll | .join => isTrue trivial

/-- One step of the connection, the send condition included. -/
theorem step_load_le {s : ConnLoop H} {a : Conn.Act H} {r : Conn H × Out}
    (hw : s.conn.WriteInv) (hl : s.conn.load ≤ s.conn.maxWriteQueueBytes)
    (hroom : ∀ i, a = .advance i → ∀ pc ∈ s.conn.calls[i]?, s.conn.RoomFor pc)
    (he : s.conn.step a = some r) : r.1.load ≤ r.1.maxWriteQueueBytes := by
  rcases Conn.step_load hw he with hn | ⟨i, data, ha, hpc, hmax, hm, hload⟩
  · rw [hn.1]
    exact Nat.le_trans hn.2 hl
  · have hfit := hroom i ha _ hpc hmax
    rw [hm, hload]
    exact hfit

/-- **The write backpressure bound.** In every run in which each accepted send
leaves room for the rest in hand, `write_queue_bytes_` is at most
`max_write_queue_bytes_`. -/
theorem write_queue_bounded {m r : Nat} {s : ConnLoop H}
    (h : (machine H m r).ReachOk LeavesRoom s) :
    s.conn.writeQueueBytes ≤ s.conn.maxWriteQueueBytes := by
  have hi : s.conn.WriteInv ∧ s.conn.load ≤ s.conn.maxWriteQueueBytes := by
    refine h.inv (I := fun s => s.conn.WriteInv ∧ s.conn.load ≤ s.conn.maxWriteQueueBytes) ?_ ?_
    · intro s hi
      rw [hi]
      exact ⟨Conn.start_writeInv m r, Nat.zero_le _⟩
    · intro s a s' _ ih hok he
      rcases step_cases he with ⟨b, r, rfl, -, hr, rfl⟩ | ⟨_, t, q, r, -, -, -, hr, rfl⟩ |
        ⟨-, hc, -, -⟩
      · refine ⟨Conn.step_writeInv ih.1 hr, step_load_le ih.1 ih.2 ?_ hr⟩
        rintro i rfl
        exact hok
      · exact ⟨Conn.step_writeInv ih.1 hr, step_load_le ih.1 ih.2 (by rintro i ⟨⟩) hr⟩
      · rw [hc]; exact ih
  exact Nat.le_trans (Nat.le_add_right _ _) hi.2

/-- The limit is three bytes: a send of one byte while two are in hand leaves
room for their push-back. -/
theorem write_queue_bounded_push_back :
    ∃ s : ConnLoop Unit, (machine Unit 3 4).ReachOk LeavesRoom s ∧
      s.conn.writeQueue = [[1, 2], [3]] ∧ s.conn.writeQueueBytes ≤ s.conn.maxWriteQueueBytes := by
  obtain ⟨s, h, hp⟩ := Machine.ReachOk.of_runOk_init (M := machine Unit 3 4) LeavesRoom
    (fun s => decide (s.conn.writeQueue = [[1, 2], [3]]))
    [.conn .startReading, .conn (.call (.send [1, 2])), .conn (.advance 0), .swap,
      .runPost true, .runPost true, .enterPoll, .conn (.event .writable .wouldBlock),
      .conn .drainLock, .conn (.call (.send [3])), .conn (.advance 0),
      .conn (.drainSend .wouldBlock)]
    rfl (by decide)
  exact ⟨s, h, of_decide_eq_true hp, write_queue_bounded h⟩

/-- The limit is two bytes. Two bytes are in hand, so the counter is zero and a
send of one byte is accepted; then the socket would block and both come back. -/
theorem write_queue_over_limit :
    ∃ s : ConnLoop Unit, (machine Unit 2 4).Reach s ∧
      s.conn.maxWriteQueueBytes = 2 ∧ s.conn.writeQueueBytes = 3 := by
  obtain ⟨s, h, hp⟩ := Machine.Reach.of_run_init (M := machine Unit 2 4)
    (fun s => decide (s.conn.maxWriteQueueBytes = 2 ∧ s.conn.writeQueueBytes = 3))
    [.conn .startReading, .conn (.call (.send [1, 2])), .conn (.advance 0), .swap,
      .runPost true, .runPost true, .enterPoll, .conn (.event .writable .wouldBlock),
      .conn .drainLock, .conn (.call (.send [3])), .conn (.advance 0),
      .conn (.drainSend .wouldBlock)]
    rfl (by decide)
  exact ⟨s, h, of_decide_eq_true hp⟩

end ConnLoop

end Socketpp
