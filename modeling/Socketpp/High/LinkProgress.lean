import Socketpp.High.StreamProgress

/-!
# What is sent arrives

Two streams with a connection between them are left to themselves: no thread calls any
more and no connection is made, while the loops, the workers and the network go on. The
dispatchers are epoll's and `add` succeeds. The network holds at most `cap` bytes each
way; it takes and gives bytes whenever it can, and it reports an end only after the
other side has closed. Neither end was ever paused, and the other connections are silent.

However the threads are scheduled, the two streams come to rest after a bounded number
of steps. Then both ends are closed or both are open; and if they are open, `on_data` of
each has been given every byte that `send` of the other accepted (`bytes_arrive`).
-/

namespace Socketpp

namespace StreamLink

variable {n m : Nat} {cfgL cfgR : StreamConfig} {cap c d : Nat} {s s' : StreamLink n m}
  {a : Act n m}

/-- The line of the left end. -/
def leftLine (cap d : Nat) (s : StreamLink n m) : Line where
  incoming := s.back
  room := cap - s.forth.length
  ended := (s.right.impls d).closed

/-- The line of the right end. -/
def rightLine (cap c : Nat) (s : StreamLink n m) : Line where
  incoming := s.forth
  room := cap - s.back.length
  ended := (s.left.impls c).closed

/-- What the streams do by themselves. -/
def Own (cap c d : Nat) (s : StreamLink n m) : Act n m → Prop
  | .left a => Stream.Own c (s.leftLine cap d) s.left a
  | .right a => Stream.Own d (s.rightLine cap c) s.right a

def Orderly (s : StreamLink n m) : Act n m → Prop
  | .left a => s.left.Orderly a
  | .right a => s.right.Orderly a

/-- The steps left: those of the streams, and five for each byte in flight. -/
def work (cap c d : Nat) (s : StreamLink n m) : Nat :=
  s.left.work c (decide (0 < cap - s.forth.length)) +
    s.right.work d (decide (0 < cap - s.back.length)) + 5 * s.forth.length + 5 * s.back.length

theorem own_orderly (ho : Own cap c d s a) : s.Orderly a := by
  cases a with
  | left a => exact ho.orderly
  | right a => exact ho.orderly

theorem reach_left (h : (machine cfgL cfgR c d n m).ReachOk Orderly s) :
    (Stream.machine cfgL n).ReachOk Stream.Orderly s.left := by
  refine h.sim (f := StreamLink.left) (fun s hs => by rw [hs]; rfl) fun s a s' _ ho he => ?_
  have hview : StepView cfgL cfgR c d s a s' := step_view he
  cases hview with
  | left a l hl => exact .inr ⟨a, ho, hl⟩
  | right => exact .inl rfl

theorem reach_right (h : (machine cfgL cfgR c d n m).ReachOk Orderly s) :
    (Stream.machine cfgR m).ReachOk Stream.Orderly s.right := by
  refine h.sim (f := StreamLink.right) (fun s hs => by rw [hs]; rfl) fun s a s' _ ho he => ?_
  have hview : StepView cfgL cfgR c d s a s' := step_view he
  cases hview with
  | left => exact .inl rfl
  | right a r hr => exact .inr ⟨a, ho, hr⟩

/-! ## One side -/

section Side

variable {n : Nat} {cfg : StreamConfig} {l l' : Stream n} {a : Stream.Act n} {c cap : Nat}
  {incoming outgoing : Bytes} {ended : Bool}

/-- What is taken is the first part of what waits. -/
theorem taken_first {k : Line} (ho : Stream.Own c k l a) (he : l.step cfg a = some l') :
    Stream.taken l l' c <+: k.incoming := by
  have hsame (h : (l'.impls c).received = (l.impls c).received) :
      Stream.taken l l' c <+: k.incoming := by
    rw [Stream.taken, h, List.drop_length]
    exact List.nil_prefix
  by_cases ha : ∃ b, a = .conn c b
  · obtain ⟨b, rfl⟩ := ha
    cases Stream.step_cases he with
    | conn _ _ _ _ _ hs =>
      obtain ⟨⟨c₁, o⟩, hr, rfl⟩ := Option.map_eq_some_iff.1 hs
      have hb : Conn.Own k (l.impls c) b := by simpa only [Stream.Own, ↓reduceIte] using ho
      rcases Conn.step_received hb hr with e | ⟨bytes, hpre, e⟩
      · exact hsame (by rw [Stream.absorb_impls_self]; exact e)
      · rw [Stream.taken, Stream.absorb_impls_self]
        simp only [e, List.flatten_append, List.flatten_cons, List.flatten_nil, List.append_nil,
          List.drop_left]
        exact hpre
  · exact hsame (Stream.step_lines he fun b e => ha ⟨b, e⟩).2

/-- A step of one side, with the two directions of its connection. -/
theorem side_work (hreach : (Stream.machine cfg n).ReachOk Stream.Orderly l)
    (hp : (l.impls c).flow.pauses = 0)
    (ho : Stream.Own c ⟨incoming, cap - outgoing.length, ended⟩ l a)
    (he : l.step cfg a = some l') :
    l'.work c (decide (0 < cap - (outgoing ++ Stream.sent l l' c).length)) +
        5 * (outgoing ++ Stream.sent l l' c).length +
        5 * (incoming.drop (Stream.taken l l' c).length).length <
      l.work c (decide (0 < cap - outgoing.length)) + 5 * outgoing.length +
        5 * incoming.length := by
  obtain ⟨hw, hr⟩ := Stream.step_grows he c
  have hle := (taken_first ho he).length_le
  have hlt := Stream.step_work _ (decide (0 < cap - (outgoing ++ Stream.sent l l' c).length))
    (Stream.reach_kept hreach) (hreach.mono fun _ _ _ => trivial) ho
    (.inl (Stream.asksRead_of_unpaused hreach hp)) he rfl fun e => by
      have hnil : Stream.sent l l' c = [] := by rw [Stream.sent, e, List.drop_length]
      rw [hnil, List.append_nil]
  rw [hw, hr, List.length_append, List.length_append] at hlt
  rw [List.length_drop]
  simp only [List.length_append] at hlt hle ⊢
  omega

end Side

/-- The two streams run, their ends exist, and neither was ever paused. -/
structure Running (cfgL cfgR : StreamConfig) (c d : Nat) (s : StreamLink n m) : Prop where
  reach : (machine cfgL cfgR c d n m).ReachOk Orderly s
  left : s.left.Runs c
  right : s.right.Runs d

theorem step_work (h : Running cfgL cfgR c d s) (ho : Own cap c d s a)
    (he : step cfgL cfgR c d s a = some s') : s'.work cap c d < s.work cap c d := by
  -- taking bytes makes room for the other side
  have hroom {p : Nat} (r : Stream p) (e k : Nat) (bytes : Bytes) :
      r.work e (decide (0 < cap - (bytes.drop k).length)) ≤
        r.work e (decide (0 < cap - bytes.length)) := by
    refine Stream.work_room_le r e _ _ ?_
    simp only [decide_eq_true_eq, List.length_drop]
    omega
  cases step_view he with
  | left a l hl =>
    have hlt := side_work (reach_left h.reach) h.left.unpaused ho hl
    have hright := hroom s.right d (Stream.taken s.left l c).length s.back
    unfold work
    dsimp only
    omega
  | right a r hr =>
    have hlt := side_work (reach_right h.reach) h.right.unpaused ho hr
    have hleft := hroom s.left c (Stream.taken s.right r d).length s.forth
    unfold work
    dsimp only
    omega

/-! ## At rest -/

def Stuck (cfgL cfgR : StreamConfig) (cap c d : Nat) (s : StreamLink n m) : Prop :=
  ∀ a, Own cap c d s a → step cfgL cfgR c d s a = none

theorem Stuck.left (hs : Stuck cfgL cfgR cap c d s) :
    s.left.Stuck cfgL c (s.leftLine cap d) := by
  intro a ho
  have hnone := hs (.left a) ho
  cases hl : s.left.step cfgL a with
  | none => rfl
  | some l =>
    have hpre : Stream.taken s.left l c <+: s.back := taken_first ho hl
    simp [step, hl, hpre] at hnone

theorem Stuck.right (hs : Stuck cfgL cfgR cap c d s) :
    s.right.Stuck cfgR d (s.rightLine cap c) := by
  intro a ho
  have hnone := hs (.right a) ho
  cases hr : s.right.step cfgR a with
  | none => rfl
  | some r =>
    have hpre : Stream.taken s.right r d <+: s.forth := taken_first ho hr
    simp [step, hr, hpre] at hnone

/-- From `snd` to `rcv`: the end of the connection has arrived, or all that was sent. -/
def Delivers (snd : Stream n) (c : Nat) (rcv : Stream m) (d : Nat) : Prop :=
  ((snd.impls c).closed = true → (rcv.impls d).closed = true) ∧
  ((snd.impls c).closed = false → (rcv.impls d).closed = false → (rcv.impls d).onData = true →
    payload (rcv.pool.started d) = (snd.impls c).accepted.flatten)

section Side

variable {n m : Nat} {cfg cfg' : StreamConfig} {snd : Stream n} {rcv : Stream m} {c d : Nat}
  {net : Bytes} {k k' : Line}

/-- A receiver that reads has read everything. -/
theorem net_nil (h : rcv.AtRest) (hs : rcv.Stuck cfg' d k')
    (hr : (Stream.machine cfg' m).ReachOk Stream.Orderly rcv) (hd : d < rcv.made)
    (hbuf : 0 < cfg'.readBufSize) (ho : (rcv.impls d).closed = false)
    (hp : (rcv.impls d).flow.pauses = 0) : k'.incoming = [] ∧ k'.ended = false := by
  obtain ⟨mask, hi⟩ := h.registered hr hd ho
  have hread : IoEvent.hasEvent mask .readable = true := Stream.asksRead_of_unpaused hr hp mask hi
  have hevent (r : RecvResult) (hfit : Conn.RecvResult.fits cfg'.readBufSize r = true) :
      ¬ k'.Receives r := by
    intro hk
    obtain ⟨ev, hev⟩ := Line.reports_readable hread hk
    exact h.event hs hd hi hr hfit hev
  have hnil : k'.incoming = [] := by
    cases hin : k'.incoming with
    | nil => rfl
    | cons b bs =>
      refine (hevent (.data [b]) (decide_eq_true hbuf) ⟨?_, .inl ?_⟩).elim
      · rw [hin]
        exact ⟨bs, rfl⟩
      · rintro ⟨⟩
  refine ⟨hnil, ?_⟩
  cases he : k'.ended with
  | false => rfl
  | true => exact (hevent (.data []) rfl ⟨List.nil_prefix, .inr ⟨hnil, he⟩⟩).elim

/-- A sender with room has sent everything. -/
theorem unsent_nil (h : snd.AtRest) (hs : snd.Stuck cfg c k)
    (hr : (Stream.machine cfg n).ReachOk Stream.Orderly snd) (hc : c < snd.made)
    (ho : (snd.impls c).closed = false) (hroom : 0 < k.room) :
    (snd.impls c).writeQueue = [] ∧ (snd.impls c).inHand = [] := by
  obtain ⟨mask, hi⟩ := h.registered hr hc ho
  constructor
  · by_contra hq
    obtain ⟨ev, hev⟩ := Line.reports_writable (h.asksWrite hr ho hi hq) hroom .wouldBlock
    exact h.event hs hc hi hr rfl hev
  · rw [Conn.inHand, h.free.2 c hc]
    rfl

theorem delivers_of_rest (hsnd : snd.AtRest) (hrcv : rcv.AtRest) (hs : snd.Stuck cfg c k)
    (hs' : rcv.Stuck cfg' d k') (hr : (Stream.machine cfg n).ReachOk Stream.Orderly snd)
    (hr' : (Stream.machine cfg' m).ReachOk Stream.Orderly rcv) (hc : c < snd.made)
    (hd : d < rcv.made) (hp : (rcv.impls d).flow.pauses = 0) (hbuf : 0 < cfg'.readBufSize)
    (hnet : (rcv.impls d).received.flatten ++ k'.incoming = (snd.impls c).wire)
    (hended : k'.ended = (snd.impls c).closed) (hroom : k'.incoming = [] → 0 < k.room) :
    Delivers snd c rcv d := by
  constructor
  · intro hclosed
    by_contra ho
    have hno := (net_nil hrcv hs' hr' hd hbuf (by simpa using ho) hp).2
    rw [hended, hclosed] at hno
    cases hno
  · intro ho ho' hdata
    have hnil := (net_nil hrcv hs' hr' hd hbuf ho' hp).1
    obtain ⟨hq, hh⟩ := unsent_nil hsnd hs hr hc ho (hroom hnil)
    have hf : (snd.impls c).failed = false := by
      by_contra hf
      cases ho.symm.trans ((Stream.reach_wireInv hr c).write.failed (by simpa using hf))
    have hpend := (Stream.reach_live hr' (by rw [hrcv.free.1]; rintro ⟨⟩)).pending_nil hrcv.queue
      hrcv.workers d
    have hall := (carries_of_wire (hr.mono fun _ _ _ => trivial) (hr'.mono fun _ _ _ => trivial)
      hnet hdata).complete hf
    rw [hnil, hq, hh, hpend] at hall
    simpa [payload] using hall

end Side

theorem step_running (h : Running cfgL cfgR c d s) (ho : Own cap c d s a)
    (he : step cfgL cfgR c d s a = some s') : Running cfgL cfgR c d s' := by
  have hreach : (machine cfgL cfgR c d n m).ReachOk Orderly s' :=
    .step h.reach (own_orderly ho) he
  cases step_view he with
  | left a l hl => exact ⟨hreach, h.left.step ho hl, h.right⟩
  | right a r hr => exact ⟨hreach, h.left, h.right.step ho hr⟩

theorem step_keeps (h : Running cfgL cfgR c d s) (ho : Own cap c d s a)
    (he : step cfgL cfgR c d s a = some s') :
    Running cfgL cfgR c d s' ∧ s'.work cap c d < s.work cap c d :=
  ⟨step_running h ho he, step_work h ho he⟩

/-- **What is sent arrives.** From every state reached with epoll in which both streams run, the two
ends exist and neither was ever paused, the streams left to themselves come to rest within `work`
steps, and at rest each end has what the other sent, or its end. A worker that calls an `on_close_`
that was taken back ends the program instead. -/
theorem bytes_arrive (hn : 0 < n) (hm : 0 < m) (hcap : 0 < cap) (hL : 0 < cfgL.readBufSize)
    (hR : 0 < cfgR.readBufSize) (h : Running cfgL cfgR c d s) {as : List (Act n m)}
    (hp : (machine cfgL cfgR c d n m).Path (Own cap c d) s as s') :
    as.length ≤ s.work cap c d ∧ (Stuck cfgL cfgR cap c d s' → s'.left.Throws ∨ s'.right.Throws ∨
      Delivers s'.left c s'.right d ∧ Delivers s'.right d s'.left c) := by
  constructor
  · exact Nat.le_trans (Nat.le_add_right _ _)
      (hp.length_le (fun _ _ _ hi ho he => step_keeps hi ho he) h)
  · intro hs
    have hend := hp.inv (fun _ _ _ hi ho he => step_running hi ho he) h
    have hnet := reach_netInv (hend.reach.mono fun _ _ _ => trivial)
    have hl := reach_left hend.reach
    have hr := reach_right hend.reach
    by_cases hthrowL : s'.left.Throws
    · exact .inl hthrowL
    · by_cases hthrowR : s'.right.Throws
      · exact .inr (.inl hthrowR)
      · have hrestL := hs.left.rest hl hn hend.left.running hthrowL
        have hrestR := hs.right.rest hr hm hend.right.running hthrowR
        refine .inr (.inr ⟨
          delivers_of_rest hrestL hrestR hs.left hs.right hl hr hend.left.made hend.right.made
            hend.right.unpaused hR hnet.forth rfl fun e => ?_,
          delivers_of_rest hrestR hrestL hs.right hs.left hr hl hend.right.made hend.left.made
            hend.left.unpaused hL hnet.back rfl fun e => ?_⟩)
        · show 0 < cap - s'.forth.length
          rw [show s'.forth = [] from e]
          exact hcap
        · show 0 < cap - s'.back.length
          rw [show s'.back = [] from e]
          exact hcap

/-- A client has three bytes in its write queue before it is registered, and the server is in
`on_connect_cb`. -/
theorem queued_running : ∃ s : StreamLink 1 1,
    Running ⟨.client, 0, true, 8, 4⟩ ⟨.listen, 0, true, 8, 4⟩ 0 0 s ∧
      (s.left.impls 0).accepted = [[1, 2, 3]] ∧ (s.right.impls 0).onData = true := by
  have hp : ∃ s, (machine ⟨.client, 0, true, 8, 4⟩ ⟨.listen, 0, true, 8, 4⟩ 0 0 1 1).Path Orderly
      ⟨.start ⟨.client, 0, true, 8, 4⟩ 1, .start ⟨.listen, 0, true, 8, 4⟩ 1, [], []⟩
      [.left (.connected 3), .left (.conn 0 (.call (.send [1, 2, 3]))),
        .left (.conn 0 (.advance 0)), .right (.accept 5), .right (.take 0),
        .right (.conn 0 .setOnData)] s ∧
      s.left.Runs 0 ∧ s.right.Runs 0 ∧
      (s.left.impls 0).accepted = [[1, 2, 3]] ∧ (s.right.impls 0).onData = true := by
    refine ⟨_, .cons trivial rfl (.cons trivial rfl (.cons trivial rfl (.cons trivial rfl
      (.cons trivial rfl (.cons trivial rfl (.nil _)))))), ?_, ?_, ?_, ?_⟩
    · exact ⟨rfl, Nat.one_pos, rfl⟩
    · exact ⟨rfl, Nat.one_pos, rfl⟩
    · rfl
    · rfl
  obtain ⟨s, hpath, hl, hr, hsent, hdata⟩ := hp
  exact ⟨s, ⟨Machine.ReachOk.of_path (.init rfl) hpath, hl, hr⟩, hsent, hdata⟩

/-- The streams of that state come to rest. -/
theorem bytes_arrive_queued : ∃ (s s' : StreamLink 1 1) (as : List (Act 1 1)),
    (s.left.impls 0).accepted = [[1, 2, 3]] ∧ (s.right.impls 0).onData = true ∧
    (machine ⟨.client, 0, true, 8, 4⟩ ⟨.listen, 0, true, 8, 4⟩ 0 0 1 1).Path (Own 2 0 0) s as s' ∧
    Stuck ⟨.client, 0, true, 8, 4⟩ ⟨.listen, 0, true, 8, 4⟩ 2 0 0 s' ∧
    as.length ≤ s.work 2 0 0 ∧ (s'.left.Throws ∨ s'.right.Throws ∨
      Delivers s'.left 0 s'.right 0 ∧ Delivers s'.right 0 s'.left 0) := by
  obtain ⟨s, h, hsent, hdata⟩ := queued_running
  obtain ⟨as, s', hp, hs⟩ := Machine.Path.exists_stuck
    (M := machine ⟨.client, 0, true, 8, 4⟩ ⟨.listen, 0, true, 8, 4⟩ 0 0 1 1)
    (fun _ _ _ hi ho he => step_keeps hi ho he) h
  obtain ⟨hlen, hrest⟩ := bytes_arrive Nat.one_pos Nat.one_pos Nat.two_pos (by decide)
    (by decide) h hp
  exact ⟨s, s', as, hsent, hdata, hp, hs, hlen, hrest hs⟩

end StreamLink

end Socketpp
