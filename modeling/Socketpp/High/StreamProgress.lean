import Socketpp.High.StreamQuiet
import Socketpp.High.StreamWork
import Socketpp.High.WriteInterest

/-!
# A stream comes to rest

What holds of a stream when none of its threads can do anything (`Stuck`): no call is
under way, the loop is in `poll` with nothing posted, the workers wait (`Stuck.rest`).
Four facts about one connection on its loop carry this, and hold of every connection of
a stream by the refinement of `StreamConn`: `drain_write_queue` runs inside `poll` for an
open connection (`DrainInv`), which is registered for writing if the dispatcher reports
what it is asked for (`DrainWrites`), a connection that was never paused asks for
`readable` (`Unpaused`), and one that was started is registered or has its task among the
posts (`Started`). `LambdaInv` accounts for the lambda that calls `on_connect_cb`.
-/

namespace Socketpp

/-! ## One connection on its loop -/

namespace ConnLoop

variable {H : Type} {s s' : ConnLoop H} {a : Act H}

theorem initiateClose_idle {c : Conn H} (hd : c.drain = .idle) :
    c.initiateClose.1.drain = .idle := by
  unfold Conn.initiateClose
  split <;> exact hd

/-- The loop thread is in `drain_write_queue` inside `poll`, for an open connection. -/
def DrainInv (s : ConnLoop H) : Prop :=
  s.conn.drain ≠ .idle → s.joined = false ∧ s.posts.polling = true ∧ s.conn.closed = false

theorem DrainInv.frame (h : s.DrainInv) (hd : s'.conn.drain = s.conn.drain)
    (hc : s'.conn.closed = s.conn.closed) (hj : s'.joined = s.joined)
    (hp : s'.posts.polling = s.posts.polling) : s'.DrainInv := by
  intro hne
  rw [hd] at hne
  rw [hj, hp, hc]
  exact h hne

/-- An event that leads to `drain_write_queue` is one of an open connection, and has `writable`. -/
theorem onIoEvent_drain {c : Conn H} {ev : IoEvent} {r : RecvResult} (hd : c.drain = .idle)
    (hne : (c.onIoEvent ev r).1.drain ≠ .idle) :
    (c.onIoEvent ev r).1.closed = false ∧ (c.onIoEvent ev r).1.interest = c.interest ∧
      IoEvent.hasEvent ev .writable = true := by
  have hstart (d : Conn H) (hi : d.interest = c.interest) (hidle : d.drain = .idle)
      (ho : d.closed = false) (hne : (d.startDrain ev).drain ≠ .idle) :
      (d.startDrain ev).closed = false ∧ (d.startDrain ev).interest = c.interest ∧
        IoEvent.hasEvent ev .writable = true := by
    unfold Conn.startDrain at hne ⊢
    split
    · rename_i hw
      exact ⟨ho, hi, hw⟩
    · rename_i hw
      rw [if_neg hw] at hne
      exact absurd hidle hne
  revert hne
  cases ho : c.closed with
  | true =>
    intro hne
    simp only [Conn.onIoEvent, ho, ↓reduceIte] at hne
    exact absurd hd hne
  | false =>
    refine Conn.onIoEvent_elim (P := fun d => d.drain ≠ .idle → d.closed = false ∧
      d.interest = c.interest ∧ IoEvent.hasEvent ev .writable = true) r
      (fun hne => absurd hd hne) (fun hne => absurd (initiateClose_idle hd) hne)
      (hstart c rfl hd ho) fun bytes => hstart { c with received := _ } rfl hd ho

theorem step_drainInv (h : s.DrainInv) (he : s.step a = some s') : s'.DrainInv := by
  rcases step_cases he with ⟨b, ⟨c', o⟩, rfl, hb, hr, rfl⟩ |
    ⟨ok, t, q, ⟨c', o⟩, rfl, hf, hn, hr, rfl⟩ | ⟨hf, hc, -, -⟩
  · cases Conn.step_view hr with
    | setOnData => exact h.frame rfl rfl rfl rfl
    | setOnClose => exact h.frame rfl rfl rfl rfl
    | startReading => exact h.frame rfl rfl rfl rfl
    | call op =>
      obtain ⟨h1, -, h3⟩ := Conn.call_drain (c := s.conn) op
      exact h.frame h1 h3 rfl rfl
    | advance i pc hg =>
      obtain ⟨h1, -, h3⟩ := Conn.advance_drain (c := s.conn) i pc
      exact h.frame h1 h3 rfl rfl
    | task t ok hd => cases hb
    | event ev r mask hm hd hfit => exact fun hne => ⟨hb.2, hb.1, (onIoEvent_drain hd hne).1⟩
    | drainLock hd =>
      obtain ⟨h1, h2, h3⟩ := h (by rw [hd]; rintro ⟨⟩)
      refine fun _ => ⟨h1, h2, ?_⟩
      show s.conn.drainLock.closed = false
      unfold Conn.drainLock
      split <;> exact h3
    | drainSend chunk sent r hd hfit =>
      obtain ⟨h1, h2, h3⟩ := h (by rw [hd]; rintro ⟨⟩)
      intro hne
      refine ⟨h1, h2, ?_⟩
      cases r with
      | sent k => exact h3
      | wouldBlock => exact absurd rfl hne
      | error =>
        exact absurd (initiateClose_idle (c := { s.conn with drain := .idle, failed := true }) rfl)
          hne
    | teardownClose =>
      -- the loop thread is joined, so it is not in `drain_write_queue`
      have hd : s.conn.drain = .idle := by
        by_contra hne
        cases (h hne).1.symm.trans hb
      exact fun hne => absurd (initiateClose_idle hd) hne
  · intro hne
    refine absurd ?_ hne
    cases Conn.step_view hr with
    | task _ _ hd => exact (Conn.runTask_drain ok t).trans hd
  · intro hne
    rw [hc] at hne
    exact absurd hf.2 hne

theorem reach_drainInv {m r : Nat} {ok : ConnLoop H → Act H → Prop}
    (h : (machine H m r).ReachOk ok s) : s.DrainInv := by
  refine h.inv (I := DrainInv) ?_ fun _ _ _ _ hi _ he => step_drainInv hi he
  rintro s rfl hne
  exact absurd rfl hne

/-- `dispatcher::add` succeeds, and the dispatcher reports what it is asked for, as epoll does. -/
def Orderly (s : ConnLoop H) : Act H → Prop
  | .runPost ok => ok = true
  | .conn (.event ev _) => ∀ mask ∈ s.conn.interest, Conn.Reports mask ev
  | .conn _ | .swap | .enterPoll | .join => True

/-- The loop thread is in `drain_write_queue` for a connection that is registered for writing. -/
def DrainWrites (s : ConnLoop H) : Prop := s.conn.drain ≠ .idle → s.conn.wantsWrite = true

theorem DrainWrites.frame (h : s.DrainWrites) (hd : s'.conn.drain = s.conn.drain)
    (hi : s'.conn.interest = s.conn.interest) : s'.DrainWrites := by
  intro hne
  rw [hd] at hne
  rw [Conn.wantsWrite, hi]
  exact h hne

theorem step_drainWrites (h : s.DrainWrites) (hinv : s.DrainInv) (hok : s.Orderly a)
    (he : s.step a = some s') : s'.DrainWrites := by
  rcases step_cases he with ⟨b, ⟨c', o⟩, rfl, hb, hr, rfl⟩ |
    ⟨ok, t, q, ⟨c', o⟩, rfl, hf, hn, hr, rfl⟩ | ⟨hf, hc, -, -⟩
  · cases Conn.step_view hr with
    | setOnData | setOnClose | startReading => exact h.frame rfl rfl
    | call op =>
      obtain ⟨h1, h2, -⟩ := Conn.call_drain (c := s.conn) op
      exact h.frame h1 h2
    | advance i pc hg =>
      obtain ⟨h1, h2, -⟩ := Conn.advance_drain (c := s.conn) i pc
      exact h.frame h1 h2
    | task t ok hd => cases hb
    | event ev r mask hm hd hfit =>
      intro hne
      obtain ⟨-, hi, hw⟩ := onIoEvent_drain hd hne
      have hmask := (hok mask hm).2 hw
      show Option.any _ (s.conn.onIoEvent ev r).1.interest = true
      rw [hi, hm]
      exact hmask
    | drainLock hd =>
      intro hne
      change s.conn.drainLock.drain ≠ .idle at hne
      show s.conn.drainLock.wantsWrite = true
      have hw := h (by rw [hd]; rintro ⟨⟩)
      unfold Conn.drainLock at hne ⊢
      split at hne
      · exact absurd rfl hne
      · exact hw
    | drainSend chunk sent r hd hfit =>
      intro hne
      cases r with
      | sent k => exact h (by rw [hd]; rintro ⟨⟩)
      | wouldBlock => exact absurd rfl hne
      | error =>
        exact absurd (initiateClose_idle (c := { s.conn with drain := .idle, failed := true }) rfl)
          hne
    | teardownClose =>
      have hd : s.conn.drain = .idle := by
        by_contra hne
        cases (hinv hne).1.symm.trans hb
      exact fun hne => absurd (initiateClose_idle hd) hne
  · intro hne
    refine absurd ?_ hne
    cases Conn.step_view hr with
    | task _ _ hd => exact (Conn.runTask_drain ok t).trans hd
  · intro hne
    rw [hc] at hne
    exact absurd hf.2 hne

theorem reach_drainWrites {m r : Nat} (h : (machine H m r).ReachOk Orderly s) :
    s.DrainWrites := by
  refine h.inv (I := DrainWrites) ?_ fun _ _ _ hr hi hok he =>
    step_drainWrites hi (reach_drainInv hr) hok he
  rintro s rfl hne
  exact absurd rfl hne

/-! ### A connection that was never paused reads -/

/-- Before the first `pause` call nothing takes `readable` out of the mask. -/
structure Unpaused (s : ConnLoop H) : Prop where
  calls : ∀ pc ∈ s.conn.calls, pc.isPause = false
  posts : ∀ k, .pause k ∉ s.posts.pending
  reads : s.conn.AsksRead

theorem modify_reads {c : Conn H} {mask : IoEvent} (hm : IoEvent.hasEvent mask .readable = true) :
    (c.modify mask).AsksRead := by
  intro m h
  obtain ⟨x, -, rfl⟩ := Option.map_eq_some_iff.1 h
  exact hm

theorem runTask_reads {c : Conn H} {t : ConnTask} (ok : Bool) (ht : ∀ k, t ≠ .pause k)
    (h : c.AsksRead) : (c.runTask ok t).1.AsksRead := by
  have hread : IoEvent.hasEvent IoEvent.readable .readable = true := by decide
  have hboth : IoEvent.hasEvent (IoEvent.readable ||| IoEvent.writable) .readable = true := by
    decide
  cases t with
  | startReading =>
    simp only [Conn.runTask, Conn.add]
    split
    · exact h
    · intro mask hm
      cases hm
      split
      · exact hread
      · exact hboth
  | registerWritable =>
    simp only [Conn.runTask]
    split
    · exact h
    · exact modify_reads hboth
  | pause k => exact absurd rfl (ht k)
  | resume =>
    simp only [Conn.runTask]
    split
    · exact h
    · refine modify_reads ?_
      split
      · exact hboth
      · exact hread
  | initiateClose =>
    simp only [Conn.runTask, Conn.initiateClose]
    split
    · exact h
    · rintro mask ⟨⟩

/-- A step of the connection keeps the mask, drops it, or asks for `readable` alone. -/
theorem step_mask {c c' : Conn H} {b : Conn.Act H} {o : Out} (he : c.step b = some (c', o))
    (hb : ∀ t ok, b ≠ .task t ok) :
    c'.interest = c.interest ∨ c'.interest = none ∨
      c'.interest = c.interest.map fun _ => IoEvent.readable := by
  have hclose (d : Conn H) (hd : d.interest = c.interest) :
      d.initiateClose.1.interest = c.interest ∨ d.initiateClose.1.interest = none := by
    unfold Conn.initiateClose
    split
    · exact .inl hd
    · exact .inr rfl
  have hwide {x : Option IoEvent} (h : x = c.interest ∨ x = none) : x = c.interest ∨ x = none ∨
      x = c.interest.map fun _ => IoEvent.readable := h.imp_right .inl
  cases Conn.step_view he with
  | setOnData | setOnClose | startReading => exact .inl rfl
  | call op => exact .inl (Conn.call_drain op).2.1
  | advance i pc _ => exact .inl (Conn.advance_drain i pc).2.1
  | task t ok _ => exact absurd rfl (hb t ok)
  | event ev r mask _ _ _ =>
    exact hwide (Conn.onIoEvent_elim
      (P := fun c' => c'.interest = c.interest ∨ c'.interest = none) r (.inl rfl) (hclose c rfl)
      (.inl (Conn.startDrain_frame c ev).2.2.1) fun bytes =>
        .inl (Conn.startDrain_frame { c with received := c.received ++ [bytes] } ev).2.2.1)
  | drainLock _ =>
    unfold Conn.drainLock
    split
    · exact .inr (.inr rfl)
    · exact .inl rfl
  | drainSend chunk sent r _ _ =>
    cases r with
    | sent k => exact .inl rfl
    | wouldBlock => exact .inl rfl
    | error => exact hwide (hclose { c with drain := .idle, failed := true } rfl)
  | teardownClose => exact hwide (hclose c rfl)

theorem advance_calls {c : Conn H} {i : Nat} {pc y : UserPc}
    (hy : y ∈ (c.advance i pc).1.calls) : y ∈ c.calls ∨ y.isPause = pc.isPause := by
  cases pc with
  | sendLock data =>
    refine .inl (List.mem_of_mem_eraseIdx (i := i) ?_)
    rcases Conn.enqueueSend_cases { c with calls := c.calls.eraseIdx i } data with e | ⟨-, -, e⟩ <;>
      simpa only [Conn.advance, e] using hy
  | pauseStore k => exact (List.mem_or_eq_of_mem_set hy).imp_right fun e => by rw [e]; rfl
  | resumeStore => exact (List.mem_or_eq_of_mem_set hy).imp_right fun e => by rw [e]; rfl
  | pausePost k | resumePost | closePost => exact .inl (List.mem_of_mem_eraseIdx hy)

theorem call_calls {c : Conn H} {op : UserOp} {y : UserPc} (hop : op ≠ .pause)
    (hy : y ∈ (c.call op).calls) : y ∈ c.calls ∨ y.isPause = false := by
  have happ (pc : UserPc) (hpc : pc.isPause = false) (h : y ∈ c.calls ++ [pc]) :
      y ∈ c.calls ∨ y.isPause = false :=
    (List.mem_append.1 h).imp_right fun h => by rw [List.mem_singleton.1 h]; exact hpc
  cases op with
  | send data =>
    simp only [Conn.call] at hy
    split at hy
    · exact .inl hy
    · exact happ _ rfl hy
  | pause => exact absurd rfl hop
  | resume =>
    simp only [Conn.call] at hy
    split at hy
    · exact .inl hy
    · exact happ _ rfl hy
  | close =>
    simp only [Conn.call] at hy
    split at hy
    · exact .inl hy
    · exact happ _ rfl hy

/-- A step of the connection adds no call of `pause` but by the call itself. -/
theorem step_calls {c c' : Conn H} {b : Conn.Act H} {o : Out} (he : c.step b = some (c', o))
    (hp : c'.flow.pauses = 0) (h : ∀ pc ∈ c.calls, pc.isPause = false) :
    ∀ pc ∈ c'.calls, pc.isPause = false := by
  have hframe (hc : c'.calls = c.calls) : ∀ pc ∈ c'.calls, pc.isPause = false := by rw [hc]; exact h
  cases Conn.step_view he with
  | setOnData | setOnClose | startReading => exact h
  | call op =>
    intro pc hpc
    have hop : op ≠ .pause := by
      rintro rfl
      cases hp
    exact (call_calls hop hpc).elim (h pc) id
  | advance i pc hg =>
    intro y hy
    rcases advance_calls hy with hmem | e
    · exact h y hmem
    · rw [e]
      exact h pc (List.mem_of_getElem? hg)
  | task t ok _ => exact hframe (runTask_frame c ok t).2.1
  | event ev r _ _ _ _ => exact hframe (onIoEvent_frame c ev r).calls
  | drainLock _ => exact hframe (drainLock_frame c).calls
  | drainSend chunk sent r _ _ => exact hframe (drainSend_frame c _ _ r).calls
  | teardownClose => exact hframe (initiateClose_frame ⟨rfl, rfl, rfl, rfl, id⟩).calls

/-- Only a call of `pause` counts as one. -/
theorem step_pauses {c c' : Conn H} {b : Conn.Act H} {o : Out} (he : c.step b = some (c', o))
    (hb : ∀ op, b ≠ .call op) : c'.flow.pauses = c.flow.pauses := by
  cases Conn.step_view he with
  | setOnData | setOnClose | startReading => rfl
  | call op => exact absurd rfl (hb op)
  | advance i pc _ =>
    cases pc with
    | sendLock data =>
      rcases Conn.enqueueSend_cases { c with calls := c.calls.eraseIdx i } data with
        e | ⟨-, -, e⟩ <;>
        simp only [Conn.advance, e]
    | pauseStore k | pausePost k | resumeStore | resumePost | closePost => rfl
  | task t ok _ => rw [(runTask_frame c ok t).2.2.2.2.2]
  | event ev r _ _ _ _ => rw [(onIoEvent_frame c ev r).flow]
  | drainLock _ => rw [(drainLock_frame c).flow]
  | drainSend chunk sent r _ _ => rw [(drainSend_frame c _ _ r).flow]
  | teardownClose => rw [(initiateClose_frame (c := c) ⟨rfl, rfl, rfl, rfl, id⟩).flow]

theorem step_unpaused (h : s.conn.flow.pauses = 0 → s.Unpaused) (he : s.step a = some s') :
    s'.conn.flow.pauses = 0 → s'.Unpaused := by
  intro hp
  rcases step_cases he with ⟨b, ⟨c', o⟩, rfl, hb, hr, rfl⟩ |
    ⟨ok, t, q, ⟨c', o⟩, rfl, hf, hn, hr, rfl⟩ | ⟨hf, hc, hpend, -⟩
  · have hnum := conn_pauses hr
    have hu := h (Nat.le_zero.1 (hp ▸ hnum.1))
    refine ⟨step_calls hr hp hu.calls, fun k hk => ?_, fun mask hm => ?_⟩
    · rw [absorb_pending] at hk
      rcases List.mem_append.1 hk with hk | hk
      · exact hu.posts k hk
      · obtain ⟨i, hi⟩ := hnum.2 k hk
        cases hu.calls _ (List.mem_of_getElem? hi)
    · change c'.interest = some mask at hm
      rcases step_mask hr (by rintro t ok rfl; cases hb) with e | e | e
      · exact hu.reads mask (e ▸ hm)
      · cases e.symm.trans hm
      · rw [e] at hm
        obtain ⟨x, -, rfl⟩ := Option.map_eq_some_iff.1 hm
        decide
  · have hnum := conn_pauses hr
    have hu := h (Nat.le_zero.1 (hp ▸ hnum.1))
    have hposts := hu.posts
    rw [PostQueue.pending_next hn] at hposts
    refine ⟨step_calls hr hp hu.calls, fun k hk => ?_, ?_⟩
    · rw [absorb_pending] at hk
      rcases List.mem_append.1 hk with hk | hk
      · exact hposts k (List.mem_cons_of_mem _ hk)
      · obtain ⟨i, hi⟩ := hnum.2 k hk
        cases hu.calls _ (List.mem_of_getElem? hi)
    · cases Conn.step_view hr with
      | task _ _ _ =>
        exact runTask_reads ok (fun k e => hposts k (e ▸ List.mem_cons_self)) hu.reads
  · rw [hc] at hp
    have hu := h hp
    exact ⟨by rw [hc]; exact hu.calls, by rw [hpend]; exact hu.posts, by rw [hc]; exact hu.reads⟩

theorem reach_unpaused {m r : Nat} {ok : ConnLoop H → Act H → Prop}
    (h : (machine H m r).ReachOk ok s) : s.conn.flow.pauses = 0 → s.Unpaused := by
  refine h.inv (I := fun s => s.conn.flow.pauses = 0 → s.Unpaused) ?_
    fun _ _ _ _ hi _ he => step_unpaused hi he
  rintro s rfl -
  exact ⟨(by intro pc h; cases h), (by intro k h; cases h), (by intro mask h; cases h)⟩

/-! ### A connection that was started is registered -/

/-- `start_reading` was called, and its task has not run yet. -/
def Started (s : ConnLoop H) : Prop :=
  s.conn.reading = true → s.conn.closed = false → s.conn.interest = none →
    .startReading ∈ s.posts.pending

theorem initiateClose_closed_ne (c : Conn H) : c.initiateClose.1.closed ≠ false := by
  unfold Conn.initiateClose
  split
  · rename_i hc
    rw [hc]
    rintro ⟨⟩
  · rintro ⟨⟩

/-- An open connection stays registered. -/
theorem step_registered {c c' : Conn H} {b : Conn.Act H} {o : Out} (he : c.step b = some (c', o))
    (hi : c.interest.isSome = true) (ho : c'.closed = false) : c'.interest.isSome = true := by
  cases Conn.step_view he with
  | setOnData | setOnClose | startReading => exact hi
  | call op => rw [(Conn.call_drain op).2.1]; exact hi
  | advance i pc _ => rw [(Conn.advance_drain i pc).2.1]; exact hi
  | task t ok _ =>
    cases t with
    | initiateClose => exact absurd ho (initiateClose_closed_ne c)
    | startReading =>
      simp only [Conn.runTask, Conn.add, hi, Bool.or_true, Bool.true_or, ↓reduceIte]
    | registerWritable | pause k | resume =>
      simp only [Conn.runTask]
      split
      · exact hi
      · exact (Conn.isSome_modify _ _).trans hi
  | event ev r mask _ _ _ =>
    revert ho
    refine Conn.onIoEvent_elim (P := fun c' => c'.closed = false → c'.interest.isSome = true) r
      (fun _ => hi) (fun ho => absurd ho (initiateClose_closed_ne c)) (fun _ => ?_)
      fun bytes _ => ?_
    · rw [(Conn.startDrain_frame c ev).2.2.1]
      exact hi
    · rw [(Conn.startDrain_frame { c with received := c.received ++ [bytes] } ev).2.2.1]
      exact hi
  | drainLock _ =>
    unfold Conn.drainLock
    split
    · exact (Conn.isSome_modify _ _).trans hi
    · exact hi
  | drainSend chunk sent r _ _ =>
    cases r with
    | sent k => exact hi
    | wouldBlock => exact hi
    | error => exact absurd ho (initiateClose_closed_ne _)
  | teardownClose => exact absurd ho (initiateClose_closed_ne c)

/-- If the connection is open and not registered after a step, it was so before. -/
theorem step_unregistered {c c' : Conn H} {b : Conn.Act H} {o : Out} (he : c.step b = some (c', o))
    (ho : c'.closed = false) (hi : c'.interest = none) : c.closed = false ∧ c.interest = none := by
  refine ⟨Conn.step_open he ho, Option.not_isSome_iff_eq_none.1 fun hs => ?_⟩
  have h := step_registered he hs ho
  rw [hi] at h
  cases h

theorem step_started (h : s.Started) (hok : s.Orderly a) (he : s.step a = some s') :
    s'.Started := by
  rcases step_cases he with ⟨b, ⟨c', o⟩, rfl, hb, hr, rfl⟩ |
    ⟨ok, t, q, ⟨c', o⟩, rfl, hf, hn, hr, rfl⟩ | ⟨hf, hc, hpend, -⟩
  · intro hread ho hi
    obtain ⟨ho', hi'⟩ := step_unregistered hr ho hi
    rw [absorb_pending, List.mem_append]
    by_cases hs : b.Setup
    · obtain ⟨hnot, -, ⟨-, rfl, -⟩ | ⟨_, -, rfl, -⟩ | ⟨-, -, hposts⟩⟩ := Conn.step_setup hs hr
      · cases hnot.symm.trans hread
      · cases hnot.symm.trans hread
      · exact .inr (by rw [hposts]; exact List.mem_singleton_self _)
    · have hsame := (Conn.step_spec hs hr).2.2.2
      exact .inl (h (hsame ▸ hread) ho' hi')
  · intro hread ho hi
    obtain ⟨ho', hi'⟩ := step_unregistered hr ho hi
    rw [absorb_pending]
    refine List.mem_append_left _ ?_
    cases Conn.step_view hr with
    | task _ _ _ =>
      have hsame : ((s.conn.runTask ok t).1).reading = s.conn.reading :=
        (runTask_frame _ ok t).2.2.1
      have hmem := h (hsame ▸ hread) ho' hi'
      rw [PostQueue.pending_next hn] at hmem
      rcases List.mem_cons.1 hmem with e | hmem
      · -- `add` has registered the socket
        have hadd : ok = true := hok
        have hsome : (s.conn.runTask ok t).1.interest ≠ none := by
          rw [← e, hadd]
          simp [Conn.runTask, Conn.add, ho', hi']
        exact absurd hi hsome
      · exact hmem
  · unfold Started
    rw [hc, hpend]
    exact h

theorem reach_started {m r : Nat} (h : (machine H m r).ReachOk Orderly s) : s.Started := by
  refine h.inv (I := Started) ?_ fun _ _ _ _ hi hok he => step_started hi hok he
  rintro s rfl h
  cases h

end ConnLoop

/-! ## The connections of a stream -/

namespace Conn

variable {H : Type} {c c' : Conn H} {b : Act H} {o : Out}

/-- Inside the inner loop of `drain_write_queue` bytes are left. -/
def BytesLeft (c : Conn H) : Prop :=
  ∀ chunk sent, c.drain = .sending chunk sent → sent < chunk.length

theorem sendLoop_left {chunk chunk' : Bytes} {sent sent' : Nat}
    (h : DrainPc.sendLoop chunk sent = .sending chunk' sent') : sent' < chunk'.length := by
  unfold DrainPc.sendLoop at h
  split at h
  · cases h
    assumption
  · cases h

theorem step_bytesLeft (h : c.BytesLeft) (he : c.step b = some (c', o)) : c'.BytesLeft := by
  have hkeep (hd : c'.drain = c.drain) : c'.BytesLeft := by
    intro chunk sent e
    exact h chunk sent (hd ▸ e)
  cases step_view he with
  | setOnData | setOnClose | startReading => exact h
  | call op => exact hkeep (call_drain op).1
  | advance i pc _ => exact hkeep (advance_drain i pc).1
  | task t ok _ => exact hkeep (runTask_drain ok t)
  | event ev r mask _ hd _ =>
    intro chunk sent
    refine onIoEvent_elim (P := fun c' => c'.drain = .sending chunk sent → sent < chunk.length) r
      (h chunk sent) (fun e => ?_) (fun e => ?_) fun bytes e => ?_
    · unfold initiateClose at e
      split at e <;> exact h chunk sent e
    · unfold startDrain at e
      split at e
      · cases e
      · exact h chunk sent e
    · unfold startDrain at e
      split at e
      · cases e
      · exact h chunk sent e
  | drainLock _ =>
    intro chunk sent e
    unfold drainLock at e
    split at e
    · cases e
    · exact sendLoop_left e
  | drainSend chunk sent r _ _ =>
    intro chunk' sent' e
    cases r with
    | sent k => exact sendLoop_left e
    | wouldBlock => cases e
    | error =>
      simp only [drainSend, initiateClose] at e
      split at e <;> cases e
  | teardownClose =>
    refine hkeep ?_
    unfold initiateClose
    split <;> rfl

/-- The read buffer keeps its size. -/
theorem step_readBufSize (he : c.step b = some (c', o)) : c'.readBufSize = c.readBufSize := by
  have hclose (d : Conn H) : d.initiateClose.1.readBufSize = d.readBufSize := by
    unfold initiateClose
    split <;> rfl
  have hdrain (d : Conn H) (ev : IoEvent) : (d.startDrain ev).readBufSize = d.readBufSize := by
    unfold startDrain
    split <;> rfl
  cases step_view he with
  | setOnData | setOnClose | startReading => rfl
  | call op =>
    cases op with
    | pause => rfl
    | resume => rfl
    | send data | close =>
      simp only [call]
      split <;> rfl
  | advance i pc _ =>
    cases pc with
    | sendLock data =>
      rcases enqueueSend_cases { c with calls := c.calls.eraseIdx i } data with e | ⟨-, -, e⟩ <;>
        simp only [advance, e]
    | pauseStore k | pausePost k | resumeStore | resumePost | closePost => rfl
  | task t ok _ =>
    cases t with
    | initiateClose => exact hclose c
    | startReading =>
      simp only [runTask, add]
      split <;> rfl
    | registerWritable | pause k | resume =>
      simp only [runTask]
      split <;> rfl
  | event ev r mask _ _ _ =>
    exact onIoEvent_elim (P := fun c' => c'.readBufSize = c.readBufSize) r rfl (hclose c)
      (hdrain c ev) fun bytes => hdrain { c with received := c.received ++ [bytes] } ev
  | drainLock _ =>
    unfold drainLock
    split <;> rfl
  | drainSend chunk sent r _ _ =>
    cases r with
    | sent k => rfl
    | wouldBlock => rfl
    | error => exact hclose _
  | teardownClose => exact hclose c

end Conn

namespace Stream

variable {n : Nat} {cfg : StreamConfig} {s s' : Stream n} {a : Act n} {c : Nat}
  {ok : Stream n → Act n → Prop}

theorem reach_readBufSize (h : (machine cfg n).ReachOk ok s) (c : Nat) :
    (s.impls c).readBufSize = cfg.readBufSize :=
  reach_impls (I := fun x => x.readBufSize = cfg.readBufSize) rfl
    (fun _ _ _ _ hi he => (Conn.step_readBufSize he).trans hi) h c

theorem reach_bytesLeft (h : (machine cfg n).ReachOk ok s) (c : Nat) : (s.impls c).BytesLeft :=
  reach_impls (I := Conn.BytesLeft) (by intro chunk sent e; cases e)
    (fun _ _ _ _ hi he => Conn.step_bytesLeft hi he) h c

/-- `dispatcher::add` succeeds, and the dispatcher reports what it is asked for, as epoll does. -/
def Orderly (s : Stream n) : Act n → Prop
  | .runPost ok => ok = true
  | .conn c (.event ev _) => ∀ mask ∈ (s.impls c).interest, Conn.Reports mask ev
  | _ => True

theorem reach_orderly (h : (machine cfg n).ReachOk Orderly s) (c : Nat) :
    (ConnLoop.machine CloseHandler cfg.maxWriteBuf cfg.readBufSize).ReachOk ConnLoop.Orderly
      (s.connLoop c) := by
  refine reach_connLoop c (fun s a l b ho hsame => ?_) h
  cases b with
  | runPost ok =>
    cases hsame
    exact ho
  | swap | enterPoll | join => trivial
  | conn b =>
    cases b with
    | event ev r =>
      obtain ⟨rfl, hl⟩ := hsame
      intro mask hm
      rw [hl] at hm
      exact ho mask hm
    | setOnData | setOnClose | call | advance | startReading | task | drainLock | drainSend
    | teardownClose => trivial

theorem kept_of_draining (h : (machine cfg n).ReachOk ok s)
    (hw : ∀ d, (s.impls d).drain ≠ .idle → (s.impls d).wantsWrite = true) : s.Kept := by
  refine ⟨fun d => (reach_wireInv h d).unregistered, fun d hd => ⟨?_, hw d hd⟩, fun d hd => ?_⟩
  · exact (ConnLoop.reach_drainInv (reach_connLoop_plain h d) hd).2.2
  · have hfresh := ((reach_wf h).fresh d (Nat.le_of_not_lt fun hlt =>
      hd (Finset.mem_range.2 hlt))).2.1
    have hfifo := (reach_queue h d).fifo
    rw [hfresh] at hfifo
    exact (List.append_eq_nil_iff.1 hfifo).2

theorem reach_kept (h : (machine cfg n).ReachOk Orderly s) : s.Kept :=
  kept_of_draining h fun d => ConnLoop.reach_drainWrites (reach_orderly h d)

/-- After the join the loop thread is not in `drain_write_queue`. -/
theorem kept_of_joined (h : (machine cfg n).ReachOk ok s) (ht : s.teardown ≠ .running) :
    s.Kept := by
  refine kept_of_draining h fun d hd => ?_
  have hj : decide (s.teardown ≠ .running) = false :=
    (ConnLoop.reach_drainInv (reach_connLoop_plain h d) hd).1
  exact absurd ht (of_decide_eq_false hj)

/-- A worker is in the lambda of a connection exactly until `start_reading` is called. -/
def LambdaInv (s : Stream n) : Prop :=
  ∀ c < s.made, s.lambdaJobs c + (s.impls c).reading.toNat = 1

theorem step_reading (he : step cfg s a = some s') (ha : ∀ w, a ≠ .startReading w)
    (hc : c < s.made) : (s'.impls c).reading = (s.impls c).reading := by
  cases step_view he c with
  | same hi => rw [hi]
  | step b o hb he' =>
    by_cases hs : b.Setup
    · obtain ⟨-, -, ⟨-, e, -⟩ | ⟨_, -, e, -⟩ | ⟨rfl, -, -⟩⟩ := Conn.step_setup hs he'
      · rw [e]
      · rw [e]
      · obtain ⟨w, rfl, -⟩ := hb
        exact absurd rfl (ha w)
    · exact (Conn.step_spec hs he').2.2.2
  | silent h hk hcb hc' => omega

/-- Until then the lambda stays where it is. -/
theorem step_lambda_same (hacc : s.Accepting) (he : step cfg s a = some s')
    (ha : ∀ w, a ≠ .startReading w) (hc : c < s.made) : s'.lambdaJobs c = s.lambdaJobs c := by
  obtain ⟨-, -, hp | ⟨pa, hp, hpa, hok⟩⟩ := step_pool he
  · rw [lambdaJobs, hp]
    rfl
  · rcases SerialPool.step_appJobs (f := StreamJob.connects c) (g := StreamExec.inLambda c)
      (fun x => by cases x <;> rfl) (hok hacc.accepts) hp with
      ⟨x, rfl, e⟩ | ⟨w, y, y', rfl, hw, e⟩ | e
    · cases x with
      | onConnect d =>
        obtain ⟨-, rfl, -⟩ := hpa
        rw [StreamJob.connects, if_neg (Nat.ne_of_gt hc)] at e
        exact e
      | onError => exact e
    · rcases hpa with ⟨d, hw', rfl, -⟩ | ⟨d, hw', rfl, rfl⟩ | ⟨hw', rfl⟩
      · cases hw.symm.trans hw'
        simp only [Option.elim, StreamExec.inLambda] at e
        exact Nat.add_right_cancel e
      · exact absurd rfl (ha w)
      · cases hw.symm.trans hw'
        exact e
    · exact e

theorem hand_lambda {s₀ : Stream n} {h : Option CloseHandler} (hacc : s.Accepting)
    (ht : s.teardown = .running) (hzero : s.lambdaJobs s.made = 0) (hs : s₀.pool = s.pool)
    (hread : (s₀.impls s.made).reading = false) :
    (s₀.hand cfg s.made h).lambdaJobs s.made +
      ((s₀.hand cfg s.made h).impls s.made).reading.toNat = 1 := by
  have hnot : s.teardown ≠ .down := by rw [ht]; rintro ⟨⟩
  unfold hand
  split
  · have happ : ((s₀.pool.submitApp (.onConnect s.made)).pool.appJobs (StreamJob.connects s.made)
        (StreamExec.inLambda s.made)) = s.lambdaJobs s.made + 1 := by
      rw [hs]
      refine (ThreadPool.jobs_submit (hacc.accepts hnot) _).trans ?_
      simp [Job.appWeight, StreamJob.connects, lambdaJobs, ThreadPool.appJobs]
    simp only [lambdaJobs, hread]
    rw [happ, hzero]
    rfl
  · simp only [lambdaJobs, Function.update_self, hs]
    have : s.pool.pool.appJobs (StreamJob.connects s.made) (StreamExec.inLambda s.made) = 0 := hzero
    rw [this]
    rfl

theorem hand_made (s₀ : Stream n) (d : Nat) (h : Option CloseHandler) :
    (s₀.hand cfg d h).made = s₀.made := by
  unfold hand
  split <;> rfl

/-- The lambda calls `start_reading` and returns. -/
theorem startReading_lambda {w : Fin n} (h : s.LambdaInv)
    (he : step cfg s (.startReading w) = some s') (hc : c < s.made) :
    s'.lambdaJobs c + (s'.impls c).reading.toNat = 1 := by
  cases step_cases he with
  | startReading _ d s₁ p hw hs hp =>
    obtain ⟨⟨c₁, o⟩, hr, rfl⟩ := Option.map_eq_some_iff.1 hs
    cases Conn.step_view hr with
    | startReading hread =>
      have hinv := h c hc
      have hfin := ThreadPool.jobs_finish (f := Job.appWeight (StreamJob.connects c))
        (g := Exec.appWeight (StreamExec.inLambda c)) hw
      cases SerialPool.step_view (b := StreamJob.begin) (a := .appStep w none) hp with
      | appReturn =>
        change (s.pool.pool.finish w).appJobs (StreamJob.connects c) (StreamExec.inLambda c) +
          ((s.absorb d ({ s.impls d with reading := true }, .post .startReading)).impls
            c).reading.toNat = 1
        unfold lambdaJobs ThreadPool.appJobs at *
        by_cases hd : c = d
        · subst hd
          rw [absorb_impls_self]
          simp only [Exec.appWeight, StreamExec.inLambda, ↓reduceIte] at hfin
          rw [hread] at hinv
          simp only [Bool.toNat_false, Bool.toNat_true] at hinv ⊢
          omega
        · rw [absorb_impls_ne _ _ hd]
          simp only [Exec.appWeight, StreamExec.inLambda, if_neg (Ne.symm hd)] at hfin
          omega

theorem step_lambdaInv (h : s.LambdaInv) (hacc : s.Accepting) (hwf : Wf cfg s)
    (he : step cfg s a = some s') : s'.LambdaInv := by
  intro c hc
  have hzero : s.lambdaJobs s.made = 0 := by
    have := hwf.lambda s.made
    rw [if_neg (Nat.lt_irrefl _)] at this
    exact Nat.le_zero.1 this
  have hread : (s.impls s.made).reading = false := by
    rw [(hwf.fresh s.made (Nat.le_refl _)).1]
    rfl
  by_cases hlt : c < s.made
  · by_cases ha : ∃ w, a = .startReading w
    · obtain ⟨w, rfl⟩ := ha
      exact startReading_lambda h he hlt
    · have ha' (w : Fin n) : a ≠ .startReading w := fun e => ha ⟨w, e⟩
      rw [step_lambda_same hacc he ha' hlt, step_reading he ha' hlt]
      exact h c hlt
  · -- the connection was just made
    have hnew : s'.made ≠ s.made := by omega
    cases step_cases he with
    | accept fd hmode ht =>
      rw [hand_made] at hc
      obtain rfl : c = s.made := by
        dsimp only at hc
        omega
      exact hand_lambda hacc ht hzero rfl hread
    | connected fd hmode ht =>
      unfold connected at hc ⊢
      rw [hand_made] at hc
      obtain rfl : c = s.made := by
        dsimp only at hc
        omega
      exact hand_lambda hacc ht hzero rfl hread
    | full | reportError | swap | enterPoll | erase | take | errorReturn | drainLock | runClose
    | fnReturn | join | clear | shutdown => exact absurd rfl hnew
    | conn d b _ _ _ hs => exact absurd (connStep_sameTable hs).made hnew
    | task ok d t q _ _ _ hs => exact absurd (connStep_sameTable hs).made hnew
    | teardownClose d _ _ _ hs => exact absurd (connStep_sameTable hs).made hnew
    | install w d s₁ p _ hs => exact absurd (connStep_sameTable hs).made hnew
    | startReading w d s₁ p _ hs => exact absurd (connStep_sameTable hs).made hnew

theorem reach_lambdaInv (h : (machine cfg n).ReachOk ok s) : s.LambdaInv := by
  refine h.inv (I := LambdaInv) ?_ fun _ _ _ hr hi _ he =>
    step_lambdaInv hi (reach_accepting hr) (reach_wf hr) he
  rintro s rfl c hc
  cases hc

/-- Until the pool is told to stop its workers are there. -/
theorem reach_live (h : (machine cfg n).ReachOk ok s) (hd : s.teardown ≠ .down) : s.pool.Live := by
  have hacc := reach_accepting h
  refine ⟨hacc.2 hd, hacc.1, reach_queue h, ?_⟩
  revert hd
  refine h.inv (I := fun s => s.teardown ≠ .down → ∀ w, s.pool.pool.workers w ≠ .exited) ?_
    fun s a s' hr hi _ he hd => ?_
  · rintro s rfl - w
    simp [start, SerialPool.start, ThreadPool.start]
  · have hd₀ := mt (step_pool he).down hd
    obtain ⟨-, -, hp | ⟨pa, hp, -, -⟩⟩ := step_pool he
    · rw [hp]
      exact hi hd₀
    · exact SerialPool.step_exited ((reach_accepting hr).2 hd₀) (hi hd₀) hp

/-! ### At rest -/

variable {k : Line}

/-- No thread of the stream can do anything. -/
def Stuck (cfg : StreamConfig) (c : Nat) (k : Line) (s : Stream n) : Prop :=
  ∀ a, Own c k s a → step cfg s a = none

/-- A close callback is about to call an `on_close_` that was taken back: the call throws. -/
def Throws (s : Stream n) : Prop :=
  ∃ w d, s.pool.pool.workers w = .running (.fn d .onClose) ∧ s.entered d = none ∧
    (s.impls d).onClose = none

/-- A call that is under way can go on. -/
theorem Stuck.calls (hs : s.Stuck cfg c k) {d : Nat} (hd : d < s.made) :
    (s.impls d).calls = [] := by
  cases hcalls : (s.impls d).calls with
  | nil => rfl
  | cons pc rest =>
    have hnone := hs (.conn d (.advance 0)) trivial
    simp [step, hd, Allows, connStep, Conn.step, hcalls] at hnone

/-- `drain_write_queue` can go on. -/
theorem Stuck.free (hs : s.Stuck cfg c k) (h : (machine cfg n).ReachOk ok s)
    (ht : s.teardown = .running) : s.LoopFree := by
  refine ⟨ht, fun d hd => ?_⟩
  by_contra hne
  have hpoll : s.posts.polling = true := (ConnLoop.reach_drainInv
    (reach_connLoop_plain h d) hne).2.1
  cases hdr : (s.impls d).drain with
  | idle => exact hne hdr
  | top =>
    have hnone := hs (.conn d .drainLock) trivial
    simp [step, hd, Allows, ht, hpoll, connStep, Conn.step, hdr] at hnone
  | sending chunk sent =>
    have hleft := reach_bytesLeft h d chunk sent hdr
    have hsend (r : SendResult) (hfit : Conn.SendResult.fits (chunk.length - sent) r = true) :
        step cfg s (.conn d (.drainSend r)) ≠ none := by
      simp [step, hd, Allows, ht, hpoll, connStep, Conn.step, hdr, hfit]
    generalize hline : (if d = c then k else Line.silent) = l at *
    have hown (r : SendResult) (hr : l.Takes r) : Own c k s (.conn d (.drainSend r)) := by
      show (if d = c then k else Line.silent).Takes r
      rw [hline]
      exact hr
    cases hroom : l.room with
    | zero => exact hsend .wouldBlock rfl (hs _ (hown .wouldBlock hroom))
    | succ m =>
      refine hsend (.sent 1) ?_ (hs _ (hown (.sent 1) ⟨Nat.one_pos, ?_⟩))
      · simp only [Conn.SendResult.fits, decide_eq_true_eq]
        omega
      · omega

/-- The loop runs what was posted. -/
theorem Stuck.posts (hs : s.Stuck cfg c k) (hwf : Wf cfg s) (hf : s.LoopFree) :
    s.posts.polling = true ∧ s.posts.pending = [] := by
  cases hp : s.posts.polling with
  | true =>
    refine ⟨rfl, ?_⟩
    rw [PostQueue.pending, s.posts.cleared hp, List.nil_append]
    by_contra hne
    have hnone := hs .swap hne
    simp [step, hf, PostQueue.swap_of_polling hp] at hnone
  | false =>
    cases hd : s.posts.drain with
    | nil =>
      have hnone := hs .enterPoll trivial
      simp [step, hf, PostQueue.enterPoll, hp, hd] at hnone
    | cons t rest =>
      have hnone := hs (.runPost true) rfl
      cases t with
      | erase fd =>
        simp [step, hf, PostQueue.next_of_drain hp hd, runTask] at hnone
      | conn d t =>
        have hd' : d < s.made := by
          refine Nat.lt_of_not_le fun hle => (hwf.fresh d hle).2.2 t ?_
          rw [PostQueue.pending, hd]
          exact List.mem_cons_self
        simp [step, hf, PostQueue.next_of_drain hp hd, runTask, connStep, Conn.step,
          hf.2 d hd'] at hnone

/-- A worker inside a callback can go on. -/
theorem Stuck.callback (hs : s.Stuck cfg c k) (hno : ¬ s.Throws) (w : Fin n) (d : Nat)
    (t : Callback) : s.pool.pool.workers w ≠ .running (.fn d t) := by
  intro hw
  have hreturn (hen : t = .onClose → (s.entered d).isSome = true) : False := by
    have hnone := hs (.fnReturn w) trivial
    simp only [step, hw, if_pos hen] at hnone
    simp [poolStep, SerialPool.fnReturn, hw] at hnone
  cases t with
  | onData bytes => exact hreturn (by rintro ⟨⟩)
  | onClose =>
    cases hen : s.entered d with
    | some h => exact hreturn fun _ => by rw [hen]; rfl
    | none =>
      cases hcl : (s.impls d).onClose with
      | none => exact hno ⟨w, d, hw, hen, hcl⟩
      | some h =>
        have hnone := hs (.runClose w) trivial
        simp [step, hw, hen, hcl] at hnone

/-- A worker inside a task of the stream can go on. -/
theorem Stuck.lambda (hs : s.Stuck cfg c k) (h : (machine cfg n).ReachOk ok s) (w : Fin n)
    (y : StreamExec) : s.pool.pool.workers w ≠ .running (.app y) := by
  intro hw
  have hread {d : Nat} (hy : y.inLambda d = 1) : (s.impls d).reading = false := by
    have hinv := reach_lambdaInv h d ((reach_wf h).lambda_lt hw hy)
    have hle : y.inLambda d ≤ s.lambdaJobs d := ThreadPool.weight_le_appJobs hw _ _
    cases hr : (s.impls d).reading with
    | false => rfl
    | true =>
      rw [hr, Bool.toNat_true] at hinv
      omega
  cases y with
  | onConnect d =>
    have hnone := hs (.install w) trivial
    simp [step, hw, connStep, Conn.step, hread (d := d) (by simp [StreamExec.inLambda]), poolStep,
      SerialPool.appStep, absorb, Out.quiet] at hnone
  | installed d =>
    have hnone := hs (.startReading w) trivial
    simp [step, hw, connStep, Conn.step, hread (d := d) (by simp [StreamExec.inLambda]), poolStep,
      SerialPool.appStep, absorb, Out.post] at hnone
  | onError =>
    have hnone := hs (.errorReturn w) trivial
    simp [step, hw, poolStep, SerialPool.appStep] at hnone

/-- The pool cannot do what the stream cannot. -/
theorem Stuck.pool (hs : s.Stuck cfg c k) {pa : StreamPoolAct n} {a : Act n} (ho : Own c k s a)
    (ha : step cfg s a = s.poolStep (SerialPool.step StreamJob.begin s.pool pa)) :
    SerialPool.step StreamJob.begin s.pool pa = none :=
  Option.map_eq_none_iff.1 (ha.symm.trans (hs a ho))

/-- The loop is in `poll` with nothing posted, the workers wait, and no call is under way. -/
structure AtRest (s : Stream n) : Prop where
  free : s.LoopFree
  polling : s.posts.polling = true
  posts : s.posts.pending = []
  calls : ∀ d < s.made, (s.impls d).calls = []
  queue : s.pool.pool.queue = []
  workers : ∀ w, s.pool.pool.workers w = .waiting

theorem Stuck.rest (hs : s.Stuck cfg c k) (h : (machine cfg n).ReachOk ok s) (hn : 0 < n)
    (ht : s.teardown = .running) (hno : ¬ s.Throws) : s.AtRest := by
  have hf := hs.free h ht
  obtain ⟨hp, hpend⟩ := hs.posts (reach_wf h) hf
  obtain ⟨hqueue, hworkers⟩ := (reach_live h (by rw [ht]; rintro ⟨⟩)).rest StreamJob.begin hn
    (hs.callback hno) (hs.lambda h) (fun w => hs.pool (a := .take w) trivial rfl)
    fun w => hs.pool (a := .drainLock w) trivial rfl
  exact ⟨hf, hp, hpend, fun d => hs.calls, hqueue, hworkers⟩

/-! ### The connections at rest -/

theorem AtRest.connPosts (h : s.AtRest) (c : Nat) : (s.connLoop c).posts.pending = [] := by
  show (s.posts.filterMap (StreamTask.ofConn c)).pending = []
  rw [PostQueue.filterMap_pending, h.posts]
  rfl

/-- An open connection is registered. -/
theorem AtRest.registered (h : s.AtRest) (hr : (machine cfg n).ReachOk Orderly s) (hc : c < s.made)
    (ho : (s.impls c).closed = false) : ∃ mask, (s.impls c).interest = some mask := by
  refine Option.ne_none_iff_exists'.1 fun hi => ?_
  have hinv := reach_lambdaInv hr c hc
  have hzero : s.lambdaJobs c = 0 := by
    rw [lambdaJobs, ThreadPool.appJobs, ThreadPool.jobs, h.queue]
    simp [h.workers]
  have hread : (s.impls c).reading = true := by
    rw [hzero, Nat.zero_add] at hinv
    simpa using hinv
  have hmem := ConnLoop.reach_started (reach_orderly hr c) hread ho hi
  rw [h.connPosts c] at hmem
  cases hmem

/-- One that was never paused is registered for reading. -/
theorem asksRead_of_unpaused (hr : (machine cfg n).ReachOk ok s)
    (hp : (s.impls c).flow.pauses = 0) : (s.impls c).AsksRead :=
  (ConnLoop.reach_unpaused (reach_connLoop_plain hr c) hp).reads

/-- One with something to write is registered for writing. -/
theorem AtRest.asksWrite (h : s.AtRest) (hr : (machine cfg n).ReachOk ok s)
    (ho : (s.impls c).closed = false) {mask : IoEvent} (hi : (s.impls c).interest = some mask)
    (hq : (s.impls c).writeQueue ≠ []) : IoEvent.hasEvent mask .writable = true := by
  have hw := ConnLoop.reach_writeArmed (reach_connLoop_plain hr c)
  rcases hw.armed ho mask hi (hw.queued hq) with hmask | hmem
  · exact hmask
  · rw [h.connPosts c] at hmem
    cases hmem

/-- The stream runs, and connection `c` exists and was never paused. -/
structure Runs (s : Stream n) (c : Nat) : Prop where
  running : s.teardown = .running
  made : c < s.made
  unpaused : (s.impls c).flow.pauses = 0

/-- No thread calls `pause` by itself. -/
theorem own_pauses {d : Nat} (ho : Own d k s a) (he : step cfg s a = some s') :
    (s'.impls c).flow.pauses = (s.impls c).flow.pauses := by
  cases step_view he c with
  | same hi => rw [hi]
  | silent _ _ _ _ _ hi => rw [hi]
  | step b o hb he' =>
    refine ConnLoop.step_pauses he' ?_
    rintro op rfl
    obtain ⟨rfl, -⟩ := hb
    exact ho

/-- The stream's own steps do not tear it down. -/
theorem Runs.step {d : Nat} (h : s.Runs c) (ho : Own d k s a) (he : step cfg s a = some s') :
    s'.Runs c := by
  obtain ⟨ht, hm, -⟩ := step_pool he
  refine ⟨?_, Nat.lt_of_lt_of_le h.made hm, (own_pauses ho he).trans h.unpaused⟩
  cases ht with
  | same e => exact e.trans h.running
  | join ha => subst ha; cases ho
  | clear _ e => cases h.running.symm.trans e
  | shutdown _ e => cases h.running.symm.trans e

/-- What epoll reports is what the mask asks for. -/
theorem Own.orderly {d : Nat} (ho : Own d k s a) : s.Orderly a := by
  cases a with
  | runPost ok => exact ho
  | conn e b =>
    cases b with
    | event ev r => exact fun mask hm => (ho mask hm).asked
    | setOnData | setOnClose | call | advance | startReading | task | drainLock | drainSend
    | teardownClose => trivial
  | accept | reportError | connected | swap | enterPoll | take | install | startReading
  | errorReturn | drainLock | runClose | fnReturn | join | teardownClose | clear | shutdown =>
    trivial

/-- An event that epoll reports is dispatched. -/
theorem AtRest.event (h : s.AtRest) (hs : s.Stuck cfg c k) (hc : c < s.made) {mask : IoEvent}
    (hi : (s.impls c).interest = some mask) {ev : IoEvent} {r : RecvResult}
    (hr : (machine cfg n).ReachOk ok s)
    (hfit : Conn.RecvResult.fits cfg.readBufSize r = true) : ¬ k.Reports mask ev r := by
  intro hk
  rw [← reach_readBufSize hr c] at hfit
  have hown : Own c k s (.conn c (.event ev r)) := by
    simp only [Own, ↓reduceIte]
    intro m hm
    cases hi.symm.trans hm
    exact hk
  have hnone := hs _ hown
  simp [step, hc, Allows, h.free, h.polling, connStep, Conn.step, hi, h.free.2 c hc, hfit] at hnone

end Stream

end Socketpp
