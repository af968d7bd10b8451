import Socketpp.High.ConnectionLoop
import Socketpp.High.ConnectionSteps

/-!
# A queued chunk is always on its way to the socket

`write_registered_` says that writable interest was asked for. `WriteArmed`
ties it to the three places the request can be: the mask of the dispatcher, a
`register_writable` task among the posts, or, before `start_reading`'s task
has run, the write queue itself, which that task looks at. Sends set the flag,
`drain_write_queue` clears it once the queue is empty; `pause` and `resume`
replace the mask and keep `writable` in it while the flag is set.
-/

namespace Socketpp

namespace Conn

variable {H : Type} {c c' : Conn H}

/-- `posts` are the tasks that will run, in order. -/
structure WriteArmed (c : Conn H) (posts : List ConnTask) : Prop where
  queued : c.writeQueue ≠ [] → c.writeRegistered = true
  sending : ∀ chunk sent, c.drain = .sending chunk sent → c.writeRegistered = true
  /-- nothing was taken off the queue of a socket that is not registered yet -/
  fresh : c.closed = false → c.interest = none → c.writeRegistered = true → c.writeQueue ≠ []
  armed : c.closed = false → ∀ mask, c.interest = some mask → c.writeRegistered = true →
    IoEvent.hasEvent mask .writable = true ∨ .registerWritable ∈ posts

variable {ps ps' : List ConnTask}

/-- A step that keeps the fields the invariant reads, and a pending request. -/
theorem WriteArmed.frame (h : c.WriteArmed ps) (hq : c'.writeQueue = c.writeQueue)
    (hr : c'.writeRegistered = c.writeRegistered)
    (hd : ∀ chunk sent, c'.drain = .sending chunk sent → c.drain = .sending chunk sent)
    (hi : c'.interest = c.interest) (hc : c'.closed = c.closed)
    (hp : .registerWritable ∈ ps → .registerWritable ∈ ps') : c'.WriteArmed ps' := by
  refine ⟨by rw [hq, hr]; exact h.queued, ?_, by rw [hc, hi, hr, hq]; exact h.fresh, ?_⟩
  · intro chunk sent e
    rw [hr]
    exact h.sending chunk sent (hd chunk sent e)
  · intro ho mask hm hreg
    rw [hc] at ho
    rw [hi] at hm
    rw [hr] at hreg
    exact (h.armed ho mask hm hreg).imp_right hp

/-- Nothing is asked of a closed connection's mask. -/
theorem WriteArmed.closed (h : c.WriteArmed ps) (hq : c'.writeQueue = c.writeQueue)
    (hr : c'.writeRegistered = c.writeRegistered)
    (hd : ∀ chunk sent, c'.drain = .sending chunk sent → c.drain = .sending chunk sent)
    (hc : c'.closed = true) : c'.WriteArmed ps' := by
  refine ⟨by rw [hq, hr]; exact h.queued, fun chunk sent e => ?_, by rw [hc]; rintro ⟨⟩,
    by rw [hc]; rintro ⟨⟩⟩
  rw [hr]
  exact h.sending chunk sent (hd chunk sent e)

theorem initiateClose_writeArmed (h : c.WriteArmed ps)
    (hp : .registerWritable ∈ ps → .registerWritable ∈ ps') : c.initiateClose.1.WriteArmed ps' := by
  unfold initiateClose
  split
  · exact h.frame rfl rfl (fun _ _ => id) rfl rfl hp
  · exact h.closed rfl rfl (fun _ _ => id) rfl

/-- A new mask that has `writable` while the flag is set. -/
theorem modify_writeArmed (h : c.WriteArmed ps) {mask : IoEvent}
    (hm : c.writeRegistered = true → IoEvent.hasEvent mask .writable = true) :
    (c.modify mask).WriteArmed ps' := by
  refine ⟨h.queued, h.sending, fun ho hi => h.fresh ho ?_, fun _ mask' hi hr => .inl ?_⟩
  · cases hc : c.interest with
    | none => rfl
    | some m => simp [modify, hc] at hi
  · obtain ⟨_, -, rfl⟩ := Option.map_eq_some_iff.1 hi
    exact hm hr

theorem call_writeArmed (h : c.WriteArmed ps) (op : UserOp) : (c.call op).WriteArmed ps := by
  cases op with
  | send data =>
    simp only [call]
    split
    · exact h
    · exact h.frame rfl rfl (fun _ _ => id) rfl rfl id
  | pause => exact h.frame rfl rfl (fun _ _ => id) rfl rfl id
  | resume => exact h.frame rfl rfl (fun _ _ => id) rfl rfl id
  | close =>
    simp only [call]
    split
    · exact h
    · exact h.frame rfl rfl (fun _ _ => id) rfl rfl id

/-- A send sets the flag and, when it was not set, posts the request. -/
theorem enqueueSend_writeArmed (h : c.WriteArmed ps) (data : Bytes) :
    (c.enqueueSend data).1.WriteArmed (ps ++ (c.enqueueSend data).2.2) := by
  unfold enqueueSend
  split
  · exact h.frame rfl rfl (fun _ _ => id) rfl rfl (List.mem_append_left _)
  · split
    · exact h.frame rfl rfl (fun _ _ => id) rfl rfl (List.mem_append_left _)
    · refine ⟨fun _ => rfl, fun _ _ _ => rfl, fun _ _ _ => by simp, fun ho mask hm _ => ?_⟩
      cases hr : c.writeRegistered with
      | false => exact .inr (by simp)
      | true => exact (h.armed ho mask hm hr).imp_right (List.mem_append_left _)

theorem advance_writeArmed (h : c.WriteArmed ps) (i : Nat) (pc : UserPc) :
    (c.advance i pc).1.WriteArmed (ps ++ (c.advance i pc).2.posts) := by
  cases pc with
  | sendLock data =>
    have h' : ({ c with calls := c.calls.eraseIdx i } : Conn H).WriteArmed ps :=
      h.frame rfl rfl (fun _ _ => id) rfl rfl id
    exact (enqueueSend_writeArmed h' data).frame rfl rfl (fun _ _ => id) rfl rfl id
  | pauseStore k | pausePost k | resumeStore | resumePost | closePost =>
    exact h.frame rfl rfl (fun _ _ => id) rfl rfl (List.mem_append_left _)

/-- A task is taken off the posts and runs. -/
theorem runTask_writeArmed {t : ConnTask} (h : c.WriteArmed (t :: ps)) (ok : Bool) :
    (c.runTask ok t).1.WriteArmed ps := by
  cases t with
  | startReading =>
    simp only [runTask, add]
    split
    · exact h.frame rfl rfl (fun _ _ => id) rfl rfl (by simp)
    · rename_i hg
      obtain ⟨⟨ho, hi⟩, -⟩ : (c.closed = false ∧ c.interest = none) ∧ ok = true := by
        simpa using hg
      refine ⟨h.queued, h.sending, by rintro _ ⟨⟩, fun _ mask hm hr => .inl ?_⟩
      -- what was sent before is still in the queue
      cases hm
      rw [if_neg (by simpa using h.fresh ho hi hr)]
      decide
  | registerWritable =>
    simp only [runTask]
    split
    · rename_i hc
      exact h.closed rfl rfl (fun _ _ => id) hc
    · exact modify_writeArmed h fun _ => by decide
  | pause k =>
    have h' : ({ c with flow := { c.flow with ran := c.flow.ran || k == c.flow.pauses } } :
        Conn H).WriteArmed ps := h.frame rfl rfl (fun _ _ => id) rfl rfl (by simp)
    simp only [runTask]
    split
    · exact h'
    · exact modify_writeArmed h' fun hr => by rw [if_pos hr]; decide
  | resume =>
    simp only [runTask]
    split
    · rename_i hc
      exact h.closed rfl rfl (fun _ _ => id) hc
    · exact modify_writeArmed h fun hr => by rw [if_pos hr]; decide
  | initiateClose => exact initiateClose_writeArmed h (by simp)

theorem startDrain_writeArmed (h : c.WriteArmed ps) (ev : IoEvent) :
    (c.startDrain ev).WriteArmed ps := by
  unfold startDrain
  split
  · exact h.frame rfl rfl (fun _ _ e => by cases e) rfl rfl id
  · exact h

theorem onIoEvent_writeArmed (h : c.WriteArmed ps) (ev : IoEvent) (r : RecvResult) :
    (c.onIoEvent ev r).1.WriteArmed ps := by
  refine onIoEvent_elim (P := fun d => d.WriteArmed ps) r h (initiateClose_writeArmed h id)
    (startDrain_writeArmed h ev) fun bytes => ?_
  refine startDrain_writeArmed (c := { c with received := c.received ++ [bytes] }) ?_ ev
  exact h.frame rfl rfl (fun _ _ => id) rfl rfl id

/-- The flag is cleared only with the queue empty, and then nothing is asked. -/
theorem drainLock_writeArmed (h : c.WriteArmed ps) (hd : c.drain = .top) (hreg : c.DrainReg) :
    c.drainLock.WriteArmed ps := by
  unfold drainLock
  split
  · rename_i hq
    exact ⟨fun hne => absurd hq hne, nofun, nofun, nofun⟩
  · rename_i chunk rest hq
    have hr : c.writeRegistered = true := h.queued (by rw [hq]; rintro ⟨⟩)
    refine ⟨fun _ => hr, fun _ _ _ => hr, fun ho hi => ?_, h.armed⟩
    -- the socket is registered while it is drained
    rcases hreg (by rw [hd]; rintro ⟨⟩) with hs | hc
    · rw [show c.interest = none from hi] at hs; cases hs
    · rw [show c.closed = false from ho] at hc; cases hc

theorem drainSend_writeArmed {chunk : Bytes} {sent : Nat} (h : c.WriteArmed ps)
    (hd : c.drain = .sending chunk sent) (r : SendResult) :
    (c.drainSend chunk sent r).1.WriteArmed ps := by
  have hr := h.sending chunk sent hd
  cases r with
  | sent k => exact ⟨h.queued, fun _ _ _ => hr, h.fresh, h.armed⟩
  | wouldBlock => exact ⟨fun _ => hr, nofun, fun _ _ _ => List.cons_ne_nil _ _, h.armed⟩
  | error =>
    have hfailed : WriteArmed { c with drain := .idle, failed := true } ps :=
      h.frame rfl rfl nofun rfl rfl id
    exact initiateClose_writeArmed hfailed id

end Conn

namespace ConnLoop

variable {H : Type} {s s' : ConnLoop H}

theorem step_writeArmed {a : Act H} (h : s.conn.WriteArmed s.posts.pending)
    (hreg : s.conn.DrainReg) (he : s.step a = some s') :
    s'.conn.WriteArmed s'.posts.pending := by
  rcases step_cases he with ⟨b, r, rfl, hb, hr, rfl⟩ | ⟨ok, t, q, r, rfl, -, hn, hr, rfl⟩ |
    ⟨-, hc, hp, -⟩
  · obtain ⟨c', o⟩ := r
    rw [absorb_conn, absorb_pending]
    cases Conn.step_view hr with
    | setOnData _ => exact h.frame rfl rfl (fun _ _ => id) rfl rfl (List.mem_append_left _)
    | setOnClose _ _ => exact h.frame rfl rfl (fun _ _ => id) rfl rfl (List.mem_append_left _)
    | startReading _ => exact h.frame rfl rfl (fun _ _ => id) rfl rfl (List.mem_append_left _)
    | call op => rw [Out.quiet, List.append_nil]; exact Conn.call_writeArmed h op
    | advance i pc _ => exact Conn.advance_writeArmed h i pc
    | task t ok _ => cases hb
    | event ev rv _ _ _ _ =>
      rw [Out.submit, List.append_nil]; exact Conn.onIoEvent_writeArmed h ev rv
    | drainLock hd => rw [Out.quiet, List.append_nil]; exact Conn.drainLock_writeArmed h hd hreg
    | drainSend chunk sent rv hd _ =>
      rw [Out.submit, List.append_nil]; exact Conn.drainSend_writeArmed h hd rv
    | teardownClose => rw [Out.submit, List.append_nil]; exact Conn.initiateClose_writeArmed h id
  · obtain ⟨c', o⟩ := r
    rw [PostQueue.pending_next hn] at h
    rw [absorb_conn, absorb_pending]
    cases Conn.step_view hr with
    | task _ _ _ => rw [Out.submit, List.append_nil]; exact Conn.runTask_writeArmed h ok
  · rw [hc, hp]; exact h

theorem reach_writeArmed {m r : Nat} {ok : ConnLoop H → Act H → Prop}
    (h : (machine H m r).ReachOk ok s) : s.conn.WriteArmed s.posts.pending := by
  refine h.inv (I := fun s => s.conn.WriteArmed s.posts.pending) ?_ fun s a s' hr hi _ he => ?_
  · rintro s rfl
    exact ⟨fun hne => absurd rfl hne, nofun, nofun, nofun⟩
  · refine step_writeArmed hi ?_ he
    exact reach_conn (I := Conn.DrainReg) (fun hne => absurd rfl hne)
      (fun _ _ _ _ hd he => Conn.step_drainReg hd he) hr

/-- **No stalled write queue.** In every reachable state in which the connection
is open and registered and the write queue is not empty, the mask contains
`writable` or a `register_writable` task is among the posts. This holds whether
or not the loop thread is in `drain_write_queue`. -/
theorem no_stalled_write_queue {m r : Nat} (h : (machine H m r).Reach s)
    (ho : s.conn.closed = false) {mask : IoEvent} (hi : s.conn.interest = some mask)
    (hq : s.conn.writeQueue ≠ []) :
    IoEvent.hasEvent mask .writable = true ∨ .registerWritable ∈ s.posts.pending := by
  have hw := reach_writeArmed h
  exact hw.armed ho mask hi (hw.queued hq)

/-- A chunk sent before `start_reading` and a `pause` while it waits. -/
theorem no_stalled_write_queue_paused :
    ∃ s : ConnLoop Unit, (machine Unit 8 4).Reach s ∧
      (s.conn.closed = false ∧ s.conn.interest = some IoEvent.writable ∧ s.conn.drain = .idle ∧
        s.conn.writeQueue = [[1]] ∧ s.conn.paused = true) ∧
      (IoEvent.hasEvent .writable .writable = true ∨ .registerWritable ∈ s.posts.pending) := by
  obtain ⟨s, h, hp⟩ := Machine.Reach.of_run_init (M := machine Unit 8 4)
    (fun s => decide (s.conn.closed = false ∧ s.conn.interest = some IoEvent.writable ∧
      s.conn.drain = .idle ∧ s.conn.writeQueue = [[1]] ∧ s.conn.paused = true))
    [.conn (.call (.send [1])), .conn (.advance 0), .conn .startReading, .swap, .runPost true,
      .runPost true, .conn (.call .pause), .conn (.advance 0), .conn (.advance 0), .enterPoll,
      .swap, .runPost true]
    rfl (by decide)
  have hq := of_decide_eq_true hp
  exact ⟨s, h, hq, no_stalled_write_queue h hq.1 hq.2.1 (by rw [hq.2.2.2.1]; rintro ⟨⟩)⟩

end ConnLoop

end Socketpp
