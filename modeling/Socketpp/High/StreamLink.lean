import Socketpp.High.WritePath
import Socketpp.High.StreamInvariant

/-!
# Two streams and the network between them

A connection has an end in each of two streams (`src/high/stream.cpp`,
`src/high/connection_engine.hpp`), on two machines or in one process. TCP takes
what `socket_.send` was given to the other end in order, in pieces of its own
choice: `socket_.recv` returns some first part of what is in flight. How long that
takes, how much a `send` takes and how much a `recv` returns is left open, and the
two streams, their user threads, loops and pools run independently.

`link_integrity` follows every byte from `send` to `on_data`, which is set. What
`on_data` was given, what waits in the serial queue and what is in flight are
together what the socket has taken, and this is always a first part of what `send`
accepted. Until `socket_.send` fails for good, the rest of it is what
`drain_write_queue` has in hand and what is queued.
-/

namespace Socketpp

namespace Conn

variable {H : Type} {c c' : Conn H} {a : Act H}

/-! ## What a step adds to the logs -/

/-- Nothing is sent, accepted or received. -/
structure SameLogs (c c' : Conn H) : Prop where
  wire : c'.wire = c.wire
  accepted : c'.accepted = c.accepted
  received : c'.received = c.received
  failed : c'.failed = c.failed

theorem initiateClose_sameLogs (c : Conn H) : SameLogs c c.initiateClose.1 := by
  unfold initiateClose
  split <;> exact ⟨rfl, rfl, rfl, rfl⟩

theorem call_sameLogs (op : UserOp) : SameLogs c (c.call op) := by
  cases op with
  | send data =>
    simp only [call]
    split <;> exact ⟨rfl, rfl, rfl, rfl⟩
  | pause => exact ⟨rfl, rfl, rfl, rfl⟩
  | resume => exact ⟨rfl, rfl, rfl, rfl⟩
  | close =>
    simp only [call]
    split <;> exact ⟨rfl, rfl, rfl, rfl⟩

theorem runTask_sameLogs (ok : Bool) (t : ConnTask) : SameLogs c (c.runTask ok t).1 := by
  cases t with
  | startReading =>
    simp only [runTask, add]
    split <;> exact ⟨rfl, rfl, rfl, rfl⟩
  | registerWritable | pause k | resume =>
    simp only [runTask]
    split <;> exact ⟨rfl, rfl, rfl, rfl⟩
  | initiateClose => exact initiateClose_sameLogs c

theorem drainLock_sameLogs : SameLogs c c.drainLock := by
  unfold drainLock
  split <;> exact ⟨rfl, rfl, rfl, rfl⟩

theorem startDrain_sameLogs (c : Conn H) (ev : IoEvent) : SameLogs c (c.startDrain ev) := by
  unfold startDrain
  split <;> exact ⟨rfl, rfl, rfl, rfl⟩

/-- What a step adds: an accepted send, received bytes, bytes the socket took, the
failure of a `send`, or nothing. -/
inductive Logs (c c' : Conn H) : Prop where
  | same (h : SameLogs c c')
  | accept (data : Bytes) (hw : c'.wire = c.wire) (ha : c'.accepted = c.accepted ++ [data])
      (hr : c'.received = c.received) (hf : c'.failed = c.failed)
  | receive (bytes : Bytes) (hi : c.interest.isSome = true) (hw : c'.wire = c.wire)
      (ha : c'.accepted = c.accepted) (hr : c'.received = c.received ++ [bytes])
      (hf : c'.failed = c.failed)
  | send (bytes : Bytes) (hd : c.drain ≠ .idle) (hw : c'.wire = c.wire ++ bytes)
      (ha : c'.accepted = c.accepted) (hr : c'.received = c.received) (hf : c'.failed = c.failed)
  | fail (hi : c'.drain = .idle) (hw : c'.wire = c.wire) (ha : c'.accepted = c.accepted)
      (hr : c'.received = c.received)

theorem advance_logs (i : Nat) (pc : UserPc) : Logs c (c.advance i pc).1 := by
  cases pc with
  | sendLock data =>
    rcases enqueueSend_cases { c with calls := c.calls.eraseIdx i } data with e | ⟨-, -, e⟩
    · simp only [advance, e, Bool.false_eq_true, ↓reduceIte]
      exact .same ⟨rfl, rfl, rfl, rfl⟩
    · simp only [advance, e, ↓reduceIte]
      exact .accept data rfl rfl rfl rfl
  | pauseStore | pausePost | resumeStore | resumePost | closePost =>
    exact .same ⟨rfl, rfl, rfl, rfl⟩

theorem onIoEvent_logs (hi : c.interest.isSome = true) (ev : IoEvent) (r : RecvResult) :
    Logs c (c.onIoEvent ev r).1 := by
  refine onIoEvent_elim (P := Logs c) r (.same ⟨rfl, rfl, rfl, rfl⟩)
    (.same (initiateClose_sameLogs c)) (.same (startDrain_sameLogs c ev)) fun bytes => ?_
  obtain ⟨hw, ha, hr, hf⟩ := startDrain_sameLogs { c with received := c.received ++ [bytes] } ev
  exact .receive bytes hi hw ha hr hf

theorem drainSend_logs {chunk : Bytes} {sent : Nat} (hd : c.drain = .sending chunk sent)
    (r : SendResult) : Logs c (c.drainSend chunk sent r).1 := by
  cases r with
  | sent k => exact .send _ (by rw [hd]; rintro ⟨⟩) rfl rfl rfl rfl
  | wouldBlock => exact .same ⟨rfl, rfl, rfl, rfl⟩
  | error =>
    have hs := initiateClose_sameLogs { c with drain := .idle, failed := true }
    refine .fail ?_ hs.wire hs.accepted hs.received
    simp only [drainSend, initiateClose]
    split <;> rfl

theorem step_logs {o : Out} (he : c.step a = some (c', o)) : Logs c c' := by
  cases step_view he with
  | setOnData _ => exact .same ⟨rfl, rfl, rfl, rfl⟩
  | setOnClose _ _ => exact .same ⟨rfl, rfl, rfl, rfl⟩
  | startReading _ => exact .same ⟨rfl, rfl, rfl, rfl⟩
  | call op => exact .same (call_sameLogs op)
  | advance i pc _ => exact advance_logs i pc
  | task t ok _ => exact .same (runTask_sameLogs ok t)
  | event ev r mask hm _ _ => exact onIoEvent_logs (by rw [hm]; rfl) ev r
  | drainLock _ => exact .same drainLock_sameLogs
  | drainSend chunk sent r hd _ => exact drainSend_logs hd r
  | teardownClose => exact .same (initiateClose_sameLogs c)

/-! ## What the socket took, also after a failure -/

structure WireInv (c : Conn H) : Prop where
  write : c.WriteInv
  unregistered : c.closed = true → c.interest = none
  /-- `drain_write_queue` does not go on after a failure -/
  idle : c.failed = true → c.drain = .idle
  wire : c.wire <+: c.accepted.flatten

theorem start_wireInv (m r : Nat) : (start m r : Conn H).WireInv :=
  ⟨start_writeInv m r, nofun, nofun, List.nil_prefix⟩

/-- Until `send` fails, the write path accounts for every byte. -/
theorem WriteInv.wire_prefix (h : c.WriteInv) (hf : c.failed = false) :
    c.wire <+: c.accepted.flatten := by
  rw [← h.stream hf, List.append_assoc]
  exact List.prefix_append _ _

/-- Only an event leads into `drain_write_queue`. -/
theorem step_idle {o : Out} (hd : c.drain = .idle) (hi : c.interest = none)
    (he : c.step a = some (c', o)) : c'.drain = .idle := by
  cases step_view he with
  | setOnData _ => exact hd
  | setOnClose _ _ => exact hd
  | startReading _ => exact hd
  | call op => exact (call_drain op).1.trans hd
  | advance i pc _ => exact (advance_drain i pc).1.trans hd
  | task t ok _ => exact (runTask_drain ok t).trans hd
  | event ev r mask hm _ _ => cases hi.symm.trans hm
  | drainLock ht => cases hd.symm.trans ht
  | drainSend chunk sent r hs _ => cases hd.symm.trans hs
  | teardownClose =>
    unfold initiateClose
    split <;> exact hd

theorem step_wireInv {o : Out} (h : c.WireInv) (he : c.step a = some (c', o)) : c'.WireInv := by
  have hw := step_writeInv h.write he
  have hu := step_closed he h.unregistered
  have hlogs := step_logs he
  have hidle : c'.failed = true → c'.drain = .idle := by
    intro hf
    have hkept (hf' : c'.failed = c.failed) : c'.drain = .idle := by
      have hf := hf'.symm.trans hf
      exact step_idle (h.idle hf) (h.unregistered (h.write.failed hf)) he
    cases hlogs with
    | same hs => exact hkept hs.failed
    | accept data _ _ _ hf' => exact hkept hf'
    | receive bytes _ _ _ _ hf' => exact hkept hf'
    | send bytes _ _ _ _ hf' => exact hkept hf'
    | fail hi => exact hi
  refine ⟨hw, hu, hidle, ?_⟩
  cases hf : c'.failed with
  | false => exact hw.wire_prefix hf
  | true =>
    cases hlogs with
    | same hs => rw [hs.wire, hs.accepted]; exact h.wire
    | accept data e ha =>
      rw [e, ha, List.flatten_append]
      exact h.wire.trans (List.prefix_append _ _)
    | receive bytes hi e ha => rw [e, ha]; exact h.wire
    | send bytes hd e ha hr hf' => exact absurd (h.idle (hf'.symm.trans hf)) hd
    | fail hi e ha => rw [e, ha]; exact h.wire

/-- The logs only grow. -/
theorem Logs.grows (h : Logs c c') :
    c.wire <+: c'.wire ∧ c.received.flatten <+: c'.received.flatten := by
  cases h with
  | same hs =>
    rw [hs.wire, hs.received]
    exact ⟨List.prefix_rfl, List.prefix_rfl⟩
  | accept data hw _ hr | fail _ hw _ hr =>
    rw [hw, hr]
    exact ⟨List.prefix_rfl, List.prefix_rfl⟩
  | receive bytes _ hw _ hr =>
    rw [hw, hr, List.flatten_append]
    exact ⟨List.prefix_rfl, List.prefix_append _ _⟩
  | send bytes _ hw _ hr =>
    rw [hw, hr]
    exact ⟨List.prefix_append _ _, List.prefix_rfl⟩

end Conn

namespace Stream

variable {n m : Nat} {cfg : StreamConfig} {s s' : Stream n} {c : Nat}

/-- What the socket of connection `c` took in a step. -/
def sent (s s' : Stream n) (c : Nat) : Bytes := (s'.impls c).wire.drop (s.impls c).wire.length

/-- What `recv` of connection `c` returned in a step. -/
def taken (s s' : Stream n) (c : Nat) : Bytes :=
  (s'.impls c).received.flatten.drop (s.impls c).received.flatten.length

theorem step_grows {a : Act n} (he : step cfg s a = some s') (c : Nat) :
    (s'.impls c).wire = (s.impls c).wire ++ sent s s' c ∧
      (s'.impls c).received.flatten = (s.impls c).received.flatten ++ taken s s' c := by
  have hg : (s.impls c).wire <+: (s'.impls c).wire ∧
      (s.impls c).received.flatten <+: (s'.impls c).received.flatten := by
    cases step_view he c with
    | same hi => rw [hi]; exact ⟨List.prefix_rfl, List.prefix_rfl⟩
    | step b o _ he' => exact (Conn.step_logs he').grows
    | silent _ _ _ _ _ hi => rw [hi]; exact ⟨List.prefix_rfl, List.prefix_rfl⟩
  exact ⟨List.prefix_iff_eq_append.1 hg.1 |>.symm, List.prefix_iff_eq_append.1 hg.2 |>.symm⟩

theorem reach_wireInv {ok : Stream n → Act n → Prop} (h : (machine cfg n).ReachOk ok s) (c : Nat) :
    (s.impls c).WireInv :=
  reach_impls (Conn.start_wireInv _ _) (fun _ _ _ _ hi he => Conn.step_wireInv hi he) h c

end Stream

/-! ## The two ends -/

/-- A callback's payload. -/
def Callback.bytes : Callback → Bytes
  | .onData bytes => bytes
  | .onClose => []

/-- Two streams, and what is in flight between them. -/
structure StreamLink (n m : Nat) where
  left : Stream n
  right : Stream m
  forth : Bytes
  back : Bytes

namespace StreamLink

inductive Act (n m : Nat) where
  | left (a : Stream.Act n)
  | right (a : Stream.Act m)

variable {n m : Nat} (cfgL cfgR : StreamConfig) (c d : Nat)

/-- One of the streams takes a step. What its end of the connection reads is the first
part of what is in flight to it. -/
def step (s : StreamLink n m) : Act n m → Option (StreamLink n m)
  | .left a =>
    (s.left.step cfgL a).bind fun l =>
      if Stream.taken s.left l c <+: s.back then
        some { s with left := l
                      forth := s.forth ++ Stream.sent s.left l c
                      back := s.back.drop (Stream.taken s.left l c).length }
      else none
  | .right a =>
    (s.right.step cfgR a).bind fun r =>
      if Stream.taken s.right r d <+: s.forth then
        some { s with right := r
                      back := s.back ++ Stream.sent s.right r d
                      forth := s.forth.drop (Stream.taken s.right r d).length }
      else none

def machine (n m : Nat) : Machine (StreamLink n m) (Act n m) where
  Init s := s = ⟨.start cfgL n, .start cfgR m, [], []⟩
  step := step cfgL cfgR c d

variable {cfgL cfgR c d} {s s' : StreamLink n m} {a : Act n m}

/-- What a step is. -/
inductive StepView (cfgL cfgR : StreamConfig) (c d : Nat) (s : StreamLink n m) :
    Act n m → StreamLink n m → Prop where
  | left (a : Stream.Act n) (l : Stream n) (hl : s.left.step cfgL a = some l)
      (ht : Stream.taken s.left l c <+: s.back) : StepView cfgL cfgR c d s (.left a)
      { s with left := l
               forth := s.forth ++ Stream.sent s.left l c
               back := s.back.drop (Stream.taken s.left l c).length }
  | right (a : Stream.Act m) (r : Stream m) (hr : s.right.step cfgR a = some r)
      (ht : Stream.taken s.right r d <+: s.forth) : StepView cfgL cfgR c d s (.right a)
      { s with right := r
               back := s.back ++ Stream.sent s.right r d
               forth := s.forth.drop (Stream.taken s.right r d).length }

theorem step_view (he : step cfgL cfgR c d s a = some s') : StepView cfgL cfgR c d s a s' := by
  cases a with
  | left a =>
    obtain ⟨l, hl, he⟩ := Option.bind_eq_some_iff.1 he
    split at he
    · rename_i ht
      cases he
      exact .left a l hl ht
    · cases he
  | right a =>
    obtain ⟨r, hr, he⟩ := Option.bind_eq_some_iff.1 he
    split at he
    · rename_i ht
      cases he
      exact .right a r hr ht
    · cases he

/-- What a step of one stream does to the two directions of its connection. -/
theorem flow_step {n : Nat} {cfg : StreamConfig} {l l' : Stream n} {a : Stream.Act n} {c : Nat}
    {wire received incoming outgoing : Bytes} (he : l.step cfg a = some l')
    (hin : (l.impls c).received.flatten ++ incoming = wire)
    (hout : received ++ outgoing = (l.impls c).wire) (ht : Stream.taken l l' c <+: incoming) :
    (l'.impls c).received.flatten ++ incoming.drop (Stream.taken l l' c).length = wire ∧
      received ++ (outgoing ++ Stream.sent l l' c) = (l'.impls c).wire := by
  obtain ⟨hw, hr⟩ := Stream.step_grows he c
  constructor
  · rw [hr, List.append_assoc, List.prefix_iff_eq_append.1 ht, hin]
  · rw [hw, ← hout, List.append_assoc]

/-- Each stream is in a state of its own, and the network has lost nothing. -/
structure NetInv (cfgL cfgR : StreamConfig) (c d : Nat) (s : StreamLink n m) : Prop where
  left : (Stream.machine cfgL n).Reach s.left
  right : (Stream.machine cfgR m).Reach s.right
  forth : (s.right.impls d).received.flatten ++ s.forth = (s.left.impls c).wire
  back : (s.left.impls c).received.flatten ++ s.back = (s.right.impls d).wire

theorem step_netInv (h : NetInv cfgL cfgR c d s) (he : step cfgL cfgR c d s a = some s') :
    NetInv cfgL cfgR c d s' := by
  cases step_view he with
  | left a l hl ht =>
    obtain ⟨hback, hforth⟩ := flow_step hl h.back h.forth ht
    exact ⟨.step h.left trivial hl, h.right, hforth, hback⟩
  | right a r hr ht =>
    obtain ⟨hforth, hback⟩ := flow_step hr h.forth h.back ht
    exact ⟨h.left, .step h.right trivial hr, hforth, hback⟩

theorem reach_netInv (h : (machine cfgL cfgR c d n m).Reach s) : NetInv cfgL cfgR c d s := by
  refine h.inv (I := NetInv cfgL cfgR c d) (fun s hs => ?_) fun _ _ _ _ hi _ he => step_netInv hi he
  cases hs
  exact ⟨.init rfl, .init rfl, rfl, rfl⟩

/-! ## From `send` to `on_data` -/

/-- The payloads of callbacks, one behind the other. -/
def payload (cbs : List Callback) : Bytes := (cbs.map Callback.bytes).flatten

/-- Where the bytes are that connection `c` of `snd` accepted for connection `d` of `rcv`. -/
structure Carries (snd : Stream n) (c : Nat) (net : Bytes) (rcv : Stream m) (d : Nat) : Prop where
  /-- what the socket has taken was given to `on_data`, waits for it or is in flight -/
  wire : payload (rcv.pool.started d) ++ payload (rcv.pool.queues d).pending ++ net =
    (snd.impls c).wire
  /-- and is the first part of what `send` accepted -/
  ordered : (snd.impls c).wire <+: (snd.impls c).accepted.flatten
  /-- and the rest is with the sender, until `send` fails -/
  complete : (snd.impls c).failed = false →
    payload (rcv.pool.started d) ++ payload (rcv.pool.queues d).pending ++ net ++
      (snd.impls c).inHand ++ (snd.impls c).writeQueue.flatten = (snd.impls c).accepted.flatten

/-- What `recv` returned was executed or waits in the serial queue. -/
theorem payload_received {cfg : StreamConfig} {r : Stream m} (h : (Stream.machine cfg m).Reach r)
    (hd : (r.impls d).onData = true) :
    payload (r.pool.started d) ++ payload (r.pool.queues d).pending =
      (r.impls d).received.flatten := by
  obtain ⟨tail, hs, ht⟩ := (Stream.reach_cbInv h d).log (.inl hd)
  have hmap : ((r.impls d).received.map Callback.onData).map Callback.bytes =
      (r.impls d).received := by
    rw [List.map_map]
    exact List.map_id _
  rw [payload, payload, ← List.flatten_append, ← List.map_append, (Stream.reach_queue h d).fifo, hs,
    List.map_append, hmap, List.flatten_append]
  rcases ht with rfl | rfl
  · exact List.append_nil _
  · exact List.append_nil _

theorem carries_of_wire {cfg cfg' : StreamConfig} {l : Stream n} {r : Stream m} {net : Bytes}
    (hl : (Stream.machine cfg n).Reach l) (hr : (Stream.machine cfg' m).Reach r)
    (hnet : (r.impls d).received.flatten ++ net = (l.impls c).wire)
    (hd : (r.impls d).onData = true) : Carries l c net r d := by
  have hi := Stream.reach_wireInv hl c
  have hp := payload_received hr hd
  refine ⟨?_, hi.wire, fun hf => ?_⟩
  · rw [hp, hnet]
  · rw [hp, hnet]
    exact hi.write.stream hf

/-- **Every byte from `send` to `on_data`**, in both directions, whatever the threads, the
loops and the network do. -/
theorem link_integrity (h : (machine cfgL cfgR c d n m).Reach s) :
    ((s.right.impls d).onData = true → Carries s.left c s.forth s.right d) ∧
      ((s.left.impls c).onData = true → Carries s.right d s.back s.left c) := by
  have hi := reach_netInv h
  exact ⟨carries_of_wire hi.left hi.right hi.forth, carries_of_wire hi.right hi.left hi.back⟩

/-- A client has sent two of three bytes, and the server's `on_data` has seen one. -/
theorem link_integrity_partial :
    ∃ s : StreamLink 1 1,
      (machine ⟨.client, 0, true, 8, 4⟩ ⟨.listen, 0, true, 8, 4⟩ 0 0 1 1).Reach s ∧
      ((s.right.impls 0).onData = true ∧ (s.left.impls 0).failed = false ∧
        s.right.pool.started 0 = [.onData [1]] ∧ s.forth = [2] ∧ (s.left.impls 0).inHand = [3]) ∧
      Carries s.left 0 s.forth s.right 0 := by
  obtain ⟨s, h, hp⟩ := Machine.Reach.of_run_init
    (M := machine ⟨.client, 0, true, 8, 4⟩ ⟨.listen, 0, true, 8, 4⟩ 0 0 1 1)
    (fun s => decide ((s.right.impls 0).onData = true ∧ (s.left.impls 0).failed = false ∧
      s.right.pool.started 0 = [.onData [1]] ∧ s.forth = [2] ∧ (s.left.impls 0).inHand = [3]))
    [.left (.connected 3), .left (.take 0), .left (.conn 0 (.call (.send [1, 2, 3]))),
      .left (.conn 0 (.advance 0)), .left (.install 0), .left (.startReading 0), .left .swap,
      .left (.runPost true), .left (.runPost true), .left .enterPoll,
      .left (.conn 0 (.event .writable .wouldBlock)), .left (.conn 0 .drainLock),
      .left (.conn 0 (.drainSend (.sent 2))),
      .right (.accept 5), .right (.take 0), .right (.conn 0 .setOnData), .right (.install 0),
      .right (.startReading 0), .right .swap, .right (.runPost true), .right .enterPoll,
      .right (.conn 0 (.event .readable (.data [1]))), .right (.take 0), .right (.drainLock 0)]
    rfl (by decide)
  have hq := of_decide_eq_true hp
  exact ⟨s, h, hq, (link_integrity h).1 hq.1⟩

end StreamLink

end Socketpp
