import Socketpp.High.ConnectionSteps
import Socketpp.High.WritePath

/-!
# What a close leaves behind

`close` posts `initiate_close`, which closes the socket at once: it does not
look at the write queue. Whether the bytes a thread sent before its `close`
reach the socket depends on a writable event coming in between.

`CloseRun` follows a connection on its loop and records, for each call of
`close`, its thread and how many sends were accepted when it began, for each
accepted send its thread, and what the socket had taken when
`socket_.close()` ran. `FlushOk` is the condition under which nothing is left
behind: `initiate_close` finds the write queue empty, and no send holds
`write_mutex_` after the close (`enqueue_send` reads `closed_` before it).
-/

namespace Socketpp

structure CloseRun (H : Type) where
  loop : ConnLoop H
  /-- the thread in each call of `calls` -/
  callers : List Nat
  /-- the thread of each send of `accepted` -/
  senders : List Nat
  /-- each call of `close`: its thread, and how many sends were accepted before -/
  closes : List (Nat × Nat)
  /-- what the socket had taken when it was closed -/
  atClose : Option Bytes

namespace CloseRun

variable {H : Type}

def start (maxWriteBytes readBufSize : Nat) : CloseRun H where
  loop := .start maxWriteBytes readBufSize
  callers := []
  senders := []
  closes := []
  atClose := none

inductive Act (H : Type) where
  /-- a thread that is in no call begins one -/
  | call (thread : Nat) (op : UserOp)
  | advance (i : Nat)
  /-- any other action -/
  | loop (a : ConnLoop.Act H)

/-- The actions of user calls, which `Act` has on its own. -/
def ofCall : ConnLoop.Act H → Bool
  | .conn (.call _) | .conn (.advance _) => true
  | _ => false

def step (s : CloseRun H) : Act H → Option (CloseRun H)
  | .call thread op =>
    if thread ∈ s.callers then none
    else (s.loop.step (.conn (.call op))).map fun l =>
      { s with
        loop := l
        callers := if s.loop.conn.calls.length < l.conn.calls.length then s.callers ++ [thread]
          else s.callers
        closes := if op = .close then s.closes ++ [(thread, s.loop.conn.accepted.length)]
          else s.closes }
  | .advance i =>
    (s.loop.step (.conn (.advance i))).map fun l =>
      { s with
        loop := l
        callers := if l.conn.calls.length < s.loop.conn.calls.length then s.callers.eraseIdx i
          else s.callers
        senders := if s.loop.conn.accepted.length < l.conn.accepted.length then
          s.senders ++ (s.callers[i]?).toList else s.senders }
  | .loop a =>
    if ofCall a then none
    else (s.loop.step a).map fun l =>
      { s with
        loop := l
        atClose := if s.loop.conn.closed = false ∧ l.conn.closed = true then
          some s.loop.conn.wire else s.atClose }

def machine (H : Type) (maxWriteBytes readBufSize : Nat) : Machine (CloseRun H) (Act H) where
  Init s := s = start maxWriteBytes readBufSize
  step := step

/-- What each thread sent before it called `close` was taken by the socket
before the socket was closed. -/
def Flushed (s : CloseRun H) : Prop :=
  ∀ w, s.atClose = some w → ∀ thread k, (thread, k) ∈ s.closes →
    ∀ i < k, s.senders[i]? = some thread → (s.loop.conn.accepted.take (i + 1)).flatten <+: w

/-- No `send` or `recv` fails and the peer does not close. -/
def Clean : Act H → Prop
  | .loop (.conn (.event ev r)) =>
    IoEvent.hasEvent ev .error = false ∧ IoEvent.hasEvent ev .hangup = false ∧
      (IoEvent.hasEvent ev .readable = true → r ≠ .error ∧ r ≠ .data [])
  | .loop (.conn (.drainSend r)) => r ≠ .error
  | _ => True

/-- The action calls `initiate_close`. -/
def closing (s : ConnLoop H) : ConnLoop.Act H → Bool
  | .runPost _ => decide (s.posts.next.map Prod.fst = some .initiateClose)
  | .conn .teardownClose => true
  | _ => false

/-- The call is a send about to lock `write_mutex_`. -/
def atLock : Option UserPc → Bool
  | some (.sendLock _) => true
  | _ => false

/-- `initiate_close` finds the write queue empty, and no send holds the lock
after the close. -/
def FlushOk (s : CloseRun H) : Act H → Prop
  | .loop a => closing s.loop a = true → s.loop.conn.closed = true ∨ s.loop.conn.writeQueue = []
  | .advance i => atLock s.loop.conn.calls[i]? = true → s.loop.conn.closed = false
  | .call _ _ => True

instance : (a : Act H) → Decidable (Clean a)
  | .loop (.conn (.event ev r)) =>
    inferInstanceAs (Decidable (IoEvent.hasEvent ev .error = false ∧
      IoEvent.hasEvent ev .hangup = false ∧
      (IoEvent.hasEvent ev .readable = true → r ≠ .error ∧ r ≠ .data [])))
  | .loop (.conn (.drainSend r)) => inferInstanceAs (Decidable (r ≠ .error))
  | .call _ _ | .advance _ | .loop .swap | .loop (.runPost _) | .loop .enterPoll | .loop .join
  | .loop (.conn .setOnData) | .loop (.conn (.setOnClose _)) | .loop (.conn (.call _))
  | .loop (.conn (.advance _)) | .loop (.conn .startReading) | .loop (.conn (.task _ _))
  | .loop (.conn .drainLock) | .loop (.conn .teardownClose) => isTrue trivial

instance (s : CloseRun H) : (a : Act H) → Decidable (s.FlushOk a)
  | .loop a => inferInstanceAs (Decidable (closing s.loop a = true →
      s.loop.conn.closed = true ∨ s.loop.conn.writeQueue = []))
  | .advance i =>
    inferInstanceAs (Decidable (atLock s.loop.conn.calls[i]? = true → s.loop.conn.closed = false))
  | .call _ _ => isTrue trivial

variable {s s' : CloseRun H}

/-- A clean event closes nothing. -/
theorem onIoEvent_closed {c : Conn H} {ev : IoEvent} {r : RecvResult}
    (h : Clean (.loop (.conn (.event ev r)) : Act H)) : (c.onIoEvent ev r).1.closed = c.closed := by
  obtain ⟨herr, hhup, hrecv⟩ := h
  unfold Conn.onIoEvent
  split
  · rfl
  · rw [if_neg (by simp [herr, hhup])]
    split
    · rename_i hread
      obtain ⟨h1, h2⟩ := hrecv hread
      cases r with
      | wouldBlock => rfl
      | error => exact absurd rfl h1
      | data bytes =>
        simp only
        rw [if_neg (by simpa using fun e => h2 (by rw [e]))]
        exact (Conn.startDrain_frame { c with received := c.received ++ [bytes] } ev).1
    · exact (Conn.startDrain_frame c ev).1

/-- A clean action that closes the connection calls `initiate_close`. -/
theorem closing_of_closes {l : ConnLoop H} {a : ConnLoop.Act H} (hclean : Clean (.loop a : Act H))
    (he : s.loop.step a = some l) (ho : s.loop.conn.closed = false) (hc : l.conn.closed = true) :
    closing s.loop a = true := by
  rcases ConnLoop.step_cases he with ⟨b, ⟨c', o⟩, rfl, hb, hr, rfl⟩ |
    ⟨ok, t, q, ⟨c', o⟩, rfl, -, hn, hr, rfl⟩ | ⟨-, e, -, -⟩
  · rw [ConnLoop.absorb_conn] at hc
    cases Conn.step_view hr with
    | setOnData _ => cases ho.symm.trans hc
    | setOnClose _ _ => cases ho.symm.trans hc
    | startReading _ => cases ho.symm.trans hc
    | call op => rw [(Conn.call_drain op).2.2, ho] at hc; cases hc
    | advance i pc _ => rw [(Conn.advance_drain i pc).2.2, ho] at hc; cases hc
    | task _ _ _ => cases hb
    | event ev r _ _ _ _ => rw [onIoEvent_closed hclean, ho] at hc; cases hc
    | drainLock _ => rw [Conn.drainLock_closed, ho] at hc; cases hc
    | drainSend chunk sent r _ _ =>
      cases r with
      | sent k => cases ho.symm.trans hc
      | wouldBlock => cases ho.symm.trans hc
      | error => exact absurd rfl hclean
    | teardownClose => rfl
  · rw [ConnLoop.absorb_conn] at hc
    simp only [closing, hn, Option.map_some, decide_eq_true_eq, Option.some.injEq]
    cases Conn.step_view hr with
    | task _ _ _ =>
      by_contra ht
      rw [Conn.runTask_closed ok ht, ho] at hc
      cases hc
  · rw [e, ho] at hc; cases hc

/-- Once the loop thread is joined it is in no drain. -/
theorem joined_idle {m r : Nat} {ok : ConnLoop H → ConnLoop.Act H → Prop} {l : ConnLoop H}
    (h : (ConnLoop.machine H m r).ReachOk ok l) : l.joined = true → l.conn.drain = .idle := by
  refine h.inv (I := fun l => l.joined = true → l.conn.drain = .idle) ?_ fun l a l' _ hi _ he => ?_
  · rintro l rfl ⟨⟩
  · rcases ConnLoop.step_cases he with ⟨b, ⟨c', o⟩, rfl, hb, hr, rfl⟩ |
      ⟨ok, t, q, ⟨c', o⟩, rfl, hfree, -, -, rfl⟩ | ⟨hfree, e, -, -⟩
    · intro hj
      have hd := hi hj
      have hrun : ¬ (l.posts.polling = true ∧ l.joined = false) := fun h => by
        cases h.2.symm.trans hj
      rw [ConnLoop.absorb_conn]
      cases Conn.step_view hr with
      | setOnData _ => exact hd
      | setOnClose _ _ => exact hd
      | startReading _ => exact hd
      | call op => exact (Conn.call_drain op).1.trans hd
      | advance i pc _ => exact (Conn.advance_drain i pc).1.trans hd
      | task _ _ _ => cases hb
      | event _ _ _ _ _ _ => exact absurd hb hrun
      | drainLock _ => exact absurd hb hrun
      | drainSend _ _ _ _ _ => exact absurd hb hrun
      | teardownClose => exact (Conn.runTask_drain true .initiateClose).trans hd
    · intro hj
      cases hfree.1.symm.trans hj
    · intro _
      rw [e]
      exact hfree.2

/-- Sends are accepted in the critical section of `enqueue_send` only. -/
theorem step_accepted {c c' : Conn H} {a : Conn.Act H} {o : Out} (he : c.step a = some (c', o)) :
    c'.accepted = c.accepted ∨
      ∃ i data, a = .advance i ∧ c.calls[i]? = some (.sendLock data) := by
  cases Conn.step_view he with
  | setOnData _ => exact .inl rfl
  | setOnClose _ _ => exact .inl rfl
  | startReading _ => exact .inl rfl
  | call op =>
    left
    cases op with
    | send data => simp only [Conn.call]; split <;> rfl
    | pause => rfl
    | resume => rfl
    | close => simp only [Conn.call]; split <;> rfl
  | advance i pc hpc =>
    cases pc with
    | sendLock data => exact .inr ⟨i, data, rfl, hpc⟩
    | pauseStore k | pausePost k | resumeStore | resumePost | closePost => exact .inl rfl
  | task t ok _ =>
    left
    cases t <;> simp only [Conn.runTask, Conn.add, Conn.initiateClose] <;> split <;> rfl
  | event ev r _ _ _ _ =>
    left
    refine Conn.onIoEvent_elim (P := fun d => d.accepted = c.accepted) r rfl ?_ ?_ fun _ => ?_
    · unfold Conn.initiateClose; split <;> rfl
    · unfold Conn.startDrain; split <;> rfl
    · unfold Conn.startDrain; split <;> rfl
  | drainLock _ => left; unfold Conn.drainLock; split <;> rfl
  | drainSend chunk sent r _ _ =>
    left
    cases r with
    | sent k => rfl
    | wouldBlock => rfl
    | error => simp only [Conn.drainSend, Conn.initiateClose]; split <;> rfl
  | teardownClose => left; unfold Conn.initiateClose; split <;> rfl

/-- A run of the connection behind a run with threads. -/
theorem reach_loop {m r : Nat} {ok : CloseRun H → Act H → Prop}
    (h : (machine H m r).ReachOk ok s) : (ConnLoop.machine H m r).Reach s.loop := by
  refine h.sim (f := CloseRun.loop) (fun s hs => by rw [hs]; rfl) fun s a s' _ _ he => .inr ?_
  cases a with
  | call thread op =>
    simp only [machine, step] at he
    split at he
    · cases he
    · obtain ⟨l, hl, rfl⟩ := Option.map_eq_some_iff.1 he
      exact ⟨.conn (.call op), trivial, hl⟩
  | advance i =>
    obtain ⟨l, hl, rfl⟩ := Option.map_eq_some_iff.1 he
    exact ⟨.conn (.advance i), trivial, hl⟩
  | loop a =>
    simp only [machine, step] at he
    split at he
    · cases he
    · obtain ⟨l, hl, rfl⟩ := Option.map_eq_some_iff.1 he
      exact ⟨a, trivial, hl⟩

/-- Once the socket is closed, it has taken all that was ever accepted. -/
def Settled (s : CloseRun H) : Prop :=
  ∀ w, s.atClose = some w → s.loop.conn.closed = true ∧ s.loop.conn.accepted.flatten = w

/-- A step that accepts nothing and is not the close. -/
theorem Settled.keep (h : s.Settled) (hc : s'.atClose = s.atClose)
    (hcl : s.loop.conn.closed = true → s'.loop.conn.closed = true)
    (ha : s.loop.conn.closed = true → s'.loop.conn.accepted = s.loop.conn.accepted) :
    s'.Settled := by
  intro w hw
  rw [hc] at hw
  obtain ⟨h1, h2⟩ := h w hw
  exact ⟨hcl h1, by rw [ha h1]; exact h2⟩

/-- `closed_` stays set on the loop. -/
theorem loop_closed {l l' : ConnLoop H} {a : ConnLoop.Act H} (he : l.step a = some l')
    (hc : l.conn.closed = true) : l'.conn.closed = true := by
  cases ho : l'.conn.closed with
  | true => rfl
  | false =>
    rcases ConnLoop.step_cases he with ⟨b, r, rfl, -, hr, rfl⟩ |
      ⟨ok, t, q, r, rfl, -, -, hr, rfl⟩ | ⟨-, e, -, -⟩
    · rw [Conn.step_open hr ho] at hc; cases hc
    · rw [Conn.step_open hr ho] at hc; cases hc
    · rw [e, hc] at ho; cases ho

/-- Only a send inside its critical section changes what was accepted. -/
theorem loop_accepted {l l' : ConnLoop H} {a : ConnLoop.Act H} (he : l.step a = some l')
    (ha : ∀ i data, a = .conn (.advance i) → l.conn.calls[i]? ≠ some (.sendLock data)) :
    l'.conn.accepted = l.conn.accepted := by
  rcases ConnLoop.step_cases he with ⟨b, ⟨c', o⟩, rfl, -, hr, rfl⟩ |
    ⟨ok, t, q, ⟨c', o⟩, rfl, -, -, hr, rfl⟩ | ⟨-, e, -, -⟩
  · rcases step_accepted hr with h | ⟨i, data, rfl, h⟩
    · exact h
    · exact absurd h (ha i data rfl)
  · rcases step_accepted hr with h | ⟨_, _, h, -⟩
    · exact h
    · cases h
  · rw [e]

/-- With the queue empty and nothing in hand, the socket has taken everything. -/
theorem wire_eq_accepted {m r : Nat} {l : ConnLoop H} (h : (ConnLoop.machine H m r).Reach l)
    (ho : l.conn.closed = false) (hd : l.conn.drain = .idle) (hq : l.conn.writeQueue = []) :
    l.conn.accepted.flatten = l.conn.wire := by
  have hw : l.conn.WriteInv := ConnLoop.reach_conn (Conn.start_writeInv m r)
    (fun _ _ _ _ hi he => Conn.step_writeInv hi he) h
  have hf : l.conn.failed = false := by
    cases hf : l.conn.failed with
    | false => rfl
    | true => rw [hw.failed hf] at ho; cases ho
  rw [← hw.stream hf, Conn.inHand, hd, hq]
  simp

/-- `initiate_close` is called outside `drain_write_queue`. -/
theorem closing_idle {m r : Nat} {l l' : ConnLoop H} {a : ConnLoop.Act H}
    (h : (ConnLoop.machine H m r).Reach l) (he : l.step a = some l')
    (hc : closing l a = true) : l.conn.drain = .idle := by
  rcases ConnLoop.step_cases he with ⟨b, r, rfl, hb, -, -⟩ | ⟨_, _, _, _, rfl, hfree, -⟩ |
    ⟨hfree, -⟩
  · cases b with
    | teardownClose => exact joined_idle h hb
    | _ => cases hc
  · exact hfree.2
  · exact hfree.2

theorem step_settled {m r : Nat} {a : Act H} (hr : (ConnLoop.machine H m r).Reach s.loop)
    (h : s.Settled) (hclean : Clean a) (hok : s.FlushOk a) (he : s.step a = some s') :
    s'.Settled := by
  cases a with
  | call thread op =>
    simp only [step] at he
    split at he
    · cases he
    · obtain ⟨l, hl, rfl⟩ := Option.map_eq_some_iff.1 he
      exact h.keep rfl (loop_closed hl) fun _ => loop_accepted hl nofun
  | advance i =>
    obtain ⟨l, hl, rfl⟩ := Option.map_eq_some_iff.1 he
    refine h.keep rfl (loop_closed hl) fun hc => loop_accepted hl ?_
    -- a send in its critical section finds the connection open
    rintro _ data ⟨⟩ hpc
    rw [hok (by rw [hpc]; rfl)] at hc
    cases hc
  | loop a =>
    simp only [step] at he
    split at he
    · cases he
    · rename_i hcall
      obtain ⟨l, hl, rfl⟩ := Option.map_eq_some_iff.1 he
      have hacc : l.conn.accepted = s.loop.conn.accepted := loop_accepted hl fun i data e => by
        rw [e] at hcall
        exact absurd rfl hcall
      by_cases hc : s.loop.conn.closed = false ∧ l.conn.closed = true
      · have hclosing := closing_of_closes hclean hl hc.1 hc.2
        have hq : s.loop.conn.writeQueue = [] :=
          (hok hclosing).resolve_left fun h => by rw [hc.1] at h; cases h
        intro w hw
        rw [if_pos hc, Option.some.injEq] at hw
        refine ⟨hc.2, ?_⟩
        rw [hacc, ← hw]
        exact wire_eq_accepted hr hc.1 (closing_idle hr hl hclosing) hq
      · exact h.keep (if_neg hc) (loop_closed hl) fun _ => hacc

/-- **A close leaves nothing behind** in every run without errors and without
the peer closing in which `initiate_close` finds the write queue empty and no
send holds the lock after the close: what a thread sent before it called
`close` was taken by the socket before the socket was closed. -/
theorem close_flushes {m r : Nat}
    (h : (machine H m r).ReachOk (fun s a => Clean a ∧ s.FlushOk a) s) : s.Flushed := by
  have hs : s.Settled := by
    refine h.inv (I := Settled) (fun _ hs => by rw [hs]; exact nofun) fun s a s' hr hi hok he => ?_
    exact step_settled (reach_loop hr) hi hok.1 hok.2 he
  intro w hw thread k _ i _ _
  rw [← (hs w hw).2]
  exact (List.take_prefix (i + 1) _).flatten

/-- Two threads send; the first closes once the queue is drained. -/
theorem close_flushes_drained :
    ∃ s : CloseRun Unit, (machine Unit 8 4).ReachOk (fun s a => Clean a ∧ s.FlushOk a) s ∧
      (s.atClose = some [1, 2, 3] ∧ s.closes = [(0, 2)] ∧ s.senders = [0, 1]) ∧ s.Flushed := by
  obtain ⟨s, h, hp⟩ := Machine.ReachOk.of_runOk_init (M := machine Unit 8 4)
    (fun s a => Clean a ∧ s.FlushOk a)
    (fun s => decide (s.atClose = some [1, 2, 3] ∧ s.closes = [(0, 2)] ∧ s.senders = [0, 1]))
    [.loop (.conn .startReading), .call 0 (.send [1, 2]), .call 1 (.send [3]), .advance 0,
      .advance 0, .loop .swap, .loop (.runPost true), .loop (.runPost true), .loop .enterPoll,
      .loop (.conn (.event .writable .wouldBlock)), .loop (.conn .drainLock),
      .loop (.conn (.drainSend (.sent 2))), .loop (.conn .drainLock),
      .loop (.conn (.drainSend (.sent 1))), .loop (.conn .drainLock), .call 0 .close, .advance 0,
      .loop .swap, .loop (.runPost true)]
    rfl (by decide)
  exact ⟨s, h, of_decide_eq_true hp, close_flushes h⟩

/-- One thread sends and closes: both tasks run before any writable event, and
the byte is still in the queue when the socket is closed. -/
theorem close_drops_queued :
    ∃ s : CloseRun Unit, (machine Unit 8 4).ReachOk (fun _ a => Clean a) s ∧
      (s.senders = [0] ∧ s.loop.conn.accepted = [[1]] ∧ s.closes = [(0, 1)] ∧
        s.atClose = some [] ∧ s.loop.conn.writeQueue = [[1]]) ∧ ¬ s.Flushed := by
  obtain ⟨s, h, hp⟩ := Machine.ReachOk.of_runOk_init (M := machine Unit 8 4) (fun _ a => Clean a)
    (fun s => decide (s.senders = [0] ∧ s.loop.conn.accepted = [[1]] ∧ s.closes = [(0, 1)] ∧
      s.atClose = some [] ∧ s.loop.conn.writeQueue = [[1]]))
    [.loop (.conn .startReading), .loop .swap, .loop (.runPost true), .loop .enterPoll,
      .call 0 (.send [1]), .advance 0, .call 0 .close, .advance 0, .loop .swap,
      .loop (.runPost true), .loop (.runPost true)]
    rfl (by decide)
  have hq := of_decide_eq_true hp
  refine ⟨s, h, hq, fun hf => ?_⟩
  have := hf [] hq.2.2.2.1 0 1 (by rw [hq.2.2.1]; exact List.mem_singleton.2 rfl) 0 Nat.one_pos
    (by rw [hq.1]; rfl)
  rw [hq.2.1] at this
  cases List.prefix_nil.1 this

end CloseRun

end Socketpp
