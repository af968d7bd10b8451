import Socketpp.High.ConnectionLoop
import Socketpp.High.ConnectionSteps
import Socketpp.Lib.Cells

/-!
# Pausing a connection

`pause_from_user` and `resume_from_user` each store `paused_` and post a task
that writes the mask; three other places write it too and do not look at
`paused_`: `start_reading`'s task, `register_writable` and the end of
`drain_write_queue`. A pause therefore holds only where none of them can come
after the pause's task. `PauseOk` is such a condition on what the users do:
calls of `pause` and `resume` do not overlap, `pause` comes after the socket
was registered and with nothing left to write, and nothing is sent before the
next `resume`. The dispatcher must report only what the mask asks for, as epoll
and kqueue do: IOCP calls back for a read that is still pending, and `recv` follows.

The invariant follows the last `pause` call (`Phase`): it is about to store
and post, then its task is posted behind every task that would write
`readable`, then the task has run and the mask stays empty.
-/

namespace Socketpp

/-- A call of `pause` or `resume` in flight. -/
def UserPc.isFlow : UserPc → Bool
  | .pauseStore _ | .pausePost _ | .resumeStore | .resumePost => true
  | .sendLock _ | .closePost => false

def UserPc.isPause : UserPc → Bool
  | .pauseStore _ | .pausePost _ => true
  | _ => false

/-- A task that never writes `readable` into the mask. -/
def ConnTask.isQuiet : ConnTask → Bool
  | .pause _ | .initiateClose => true
  | .startReading | .registerWritable | .resume => false

namespace ConnLoop

variable {H : Type} {s s' : ConnLoop H}

def flowCalls (c : Conn H) : List UserPc := c.calls.filter UserPc.isFlow

/-- A `pause` was called and no `resume` since. -/
def Held (c : Conn H) : Prop := 0 < c.flow.pauses ∧ c.flow.resumed = false

instance (c : Conn H) : Decidable (Held c) := inferInstanceAs (Decidable (_ ∧ _))

/-- A call about to take `write_mutex_` in `send` does so with no pause in force. -/
def UnheldSend (c : Conn H) : Option UserPc → Prop
  | some (.sendLock _) => ¬ Held c
  | _ => True

instance (c : Conn H) : (pc : Option UserPc) → Decidable (UnheldSend c pc)
  | some (.sendLock _) => inferInstanceAs (Decidable (¬ Held c))
  | some (.pauseStore _) | some (.pausePost _) | some .resumeStore | some .resumePost
  | some .closePost | none => isTrue trivial

/-- The use of a connection under which a pause holds: `pause` and `resume` are
not called while another such call is in flight; `pause` is called once
`start_reading`'s task has run and with `write_registered_` clear; no `send`
takes the lock between a `pause` and the next `resume`; events are what the mask
asks for. -/
def PauseOk (s : ConnLoop H) : Act H → Prop
  | .conn (.call .pause) => flowCalls s.conn = [] ∧ s.conn.writeRegistered = false ∧
      s.conn.reading = true ∧ .startReading ∉ s.posts.pending
  | .conn (.call .resume) => flowCalls s.conn = []
  | .conn (.advance i) => UnheldSend s.conn s.conn.calls[i]?
  | .conn (.event ev _) => ∀ mask ∈ s.conn.interest, Conn.Reports mask ev
  | _ => True

instance (s : ConnLoop H) : (a : Act H) → Decidable (s.PauseOk a)
  | .conn (.call .pause) => inferInstanceAs (Decidable (_ ∧ _ ∧ _ ∧ _))
  | .conn (.call .resume) => inferInstanceAs (Decidable (_ = _))
  | .conn (.advance i) => inferInstanceAs (Decidable (UnheldSend s.conn s.conn.calls[i]?))
  | .conn (.event ev _) =>
    inferInstanceAs (Decidable (∀ mask ∈ s.conn.interest, Conn.Reports mask ev))
  | .conn (.call (.send _)) | .conn (.call .close) | .conn .setOnData | .conn (.setOnClose _)
  | .conn .startReading | .conn (.task _ _) | .conn .drainLock
  | .conn (.drainSend _) | .conn .teardownClose | .swap | .runPost _ | .enterPoll | .join =>
    isTrue trivial

/-- A pause is in force: the socket was registered and nothing is left to write. -/
structure InForce (c : Conn H) : Prop where
  held : Held c
  reading : c.reading = true
  drained : c.writeRegistered = false

/-- Where the last `pause` call has come to, on an open connection. -/
inductive Phase (s : ConnLoop H) : Prop where
  /-- no `pause` yet, or a `resume` since -/
  | free (hf : s.conn.flow.resumed = true ∨ s.conn.flow.pauses = 0 ∧ s.conn.paused = false)
      (hc : ∀ pc ∈ flowCalls s.conn, pc.isPause = false)
  /-- the call is in flight -/
  | calling (pc : UserPc) (hc : flowCalls s.conn = [pc])
      (hpc : pc = .pauseStore s.conn.flow.pauses ∨ pc = .pausePost s.conn.flow.pauses)
      (hn : s.conn.flow.ran = false) (hk : .pause s.conn.flow.pauses ∉ s.posts.pending)
      (hs : .startReading ∉ s.posts.pending) (hi : InForce s.conn)
  /-- its task is posted, only quiet tasks behind it -/
  | posted (before after : List ConnTask) (hc : flowCalls s.conn = [])
      (hp : s.posts.pending = before ++ .pause s.conn.flow.pauses :: after)
      (hq : ∀ t ∈ after, t.isQuiet = true)
      (hn : s.conn.flow.ran = false) (hk : .pause s.conn.flow.pauses ∉ before)
      (hs : .startReading ∉ before) (hi : InForce s.conn)
  /-- its task has run -/
  | ran (hc : flowCalls s.conn = []) (hq : ∀ t ∈ s.posts.pending, t.isQuiet = true)
      (hm : ∀ mask ∈ s.conn.interest, mask = IoEvent.none) (hd : s.conn.drain = .idle)
      (hi : InForce s.conn)

/-- The invariant: a closed connection is not registered; on an open one the
pause tasks are numbered by the calls made and the last pause is in its phase. -/
structure PauseInv (s : ConnLoop H) : Prop where
  closed : s.conn.closed = true → s.conn.interest = none
  numbered : s.conn.closed = false → ∀ j, .pause j ∈ s.posts.pending → j ≤ s.conn.flow.pauses
  phase : s.conn.closed = false → s.Phase

/-- A step that makes no call of `pause` or `resume` move and posts at most
closes keeps the phase; once the task has run the mask must stay as it is. -/
theorem Phase.keep (h : s.Phase) (ts : List ConnTask) (hf : s'.conn.flow = s.conn.flow)
    (hp : s'.conn.paused = s.conn.paused) (hc : flowCalls s'.conn = flowCalls s.conn)
    (hr : s.conn.reading = true → s'.conn.reading = true)
    (hw : s.conn.writeRegistered = false → s'.conn.writeRegistered = false)
    (ht : ∀ t ∈ ts, t = .initiateClose) (hpend : s'.posts.pending = s.posts.pending ++ ts)
    (hm : (∀ mask ∈ s.conn.interest, mask = IoEvent.none) → s.conn.drain = .idle →
      (∀ mask ∈ s'.conn.interest, mask = IoEvent.none) ∧ s'.conn.drain = .idle) : s'.Phase := by
  have hquiet : ∀ t ∈ ts, t.isQuiet = true := fun t h => by rw [ht t h]; rfl
  have hpause : ∀ k, .pause k ∉ ts := fun k h => by cases ht _ h
  have hstart : .startReading ∉ ts := fun h => by cases ht _ h
  have hforce (h : InForce s.conn) : InForce s'.conn :=
    ⟨by rw [Held, hf]; exact h.held, hr h.reading, hw h.drained⟩
  cases h with
  | free h1 h2 => exact .free (by rw [hf, hp]; exact h1) (by rw [hc]; exact h2)
  | calling pc h1 h2 h3 h4 h5 h6 =>
    refine .calling pc (hc.trans h1) (by rw [hf]; exact h2) (by rw [hf]; exact h3) ?_ ?_ (hforce h6)
    · rw [hf, hpend, List.mem_append]
      exact not_or.2 ⟨h4, hpause _⟩
    · rw [hpend, List.mem_append]
      exact not_or.2 ⟨h5, hstart⟩
  | posted before after h1 h2 h3 h4 h5 h6 h7 =>
    refine .posted before (after ++ ts) (hc.trans h1) (by rw [hpend, h2, hf]; simp) ?_
      (by rw [hf]; exact h4) (by rw [hf]; exact h5) h6 (hforce h7)
    intro t h
    exact (List.mem_append.1 h).elim (h3 t) (hquiet t)
  | ran h1 h2 h3 h4 h5 =>
    refine .ran (hc.trans h1) ?_ (hm h3 h4).1 (hm h3 h4).2 (hforce h5)
    intro t h
    rw [hpend] at h
    exact (List.mem_append.1 h).elim (h2 t) (hquiet t)

/-! ## Calls -/

/-- Ending a call that is not of `pause` or `resume`. -/
theorem flowCalls_erase {c : Conn H} {i : Nat} {pc : UserPc} (h : c.calls[i]? = some pc)
    (hf : pc.isFlow = false) : (c.calls.eraseIdx i).filter UserPc.isFlow = flowCalls c := by
  obtain ⟨l₁, l₂, e, e', -⟩ := Cells.split_getElem? h
  rw [e', flowCalls, e]
  simp [hf]

/-- Under one `pause` or `resume` in flight, it is the one that moves. -/
theorem flowCalls_single {c : Conn H} {i : Nat} {pc pc' : UserPc} (h : c.calls[i]? = some pc)
    (hf : pc.isFlow = true) (hc : flowCalls c = [pc']) :
    pc = pc' ∧ (c.calls.eraseIdx i).filter UserPc.isFlow = [] ∧
      ∀ y : UserPc, y.isFlow = true → (c.calls.set i y).filter UserPc.isFlow = [y] := by
  obtain ⟨l₁, l₂, e, e', e''⟩ := Cells.split_getElem? h
  have hc' : l₁.filter UserPc.isFlow ++ pc :: l₂.filter UserPc.isFlow = [pc'] := by
    rw [← hc, flowCalls, e]; simp [hf]
  obtain ⟨h1, h2⟩ | ⟨h1, h2⟩ := List.append_eq_singleton_iff.1 hc'
  · simp only [List.cons.injEq] at h2
    refine ⟨h2.1, by simp [e', h1, h2.2], fun y hy => ?_⟩
    rw [e'' y, List.filter_append, List.filter_cons_of_pos hy, h1, h2.2]
    rfl
  · cases h2

theorem mem_flowCalls {c : Conn H} {i : Nat} {pc : UserPc} (h : c.calls[i]? = some pc)
    (hf : pc.isFlow = true) : pc ∈ flowCalls c :=
  List.mem_filter.2 ⟨List.mem_of_getElem? h, hf⟩

theorem call_phase (h : s.PauseInv) (ho : s.conn.closed = false) (op : UserOp)
    (hok : s.PauseOk (.conn (.call op))) : (s.absorb (s.conn.call op, .quiet)).Phase := by
  cases op with
  | send data =>
    refine (h.phase ho).keep [] ?_ ?_ ?_ ?_ ?_ nofun (by simp [absorb, Out.quiet]) ?_ <;>
      simp only [absorb, Conn.call] <;> split <;> simp_all [flowCalls, UserPc.isFlow]
  | close =>
    refine (h.phase ho).keep [] ?_ ?_ ?_ ?_ ?_ nofun (by simp [absorb, Out.quiet]) ?_ <;>
      simp only [absorb, Conn.call] <;> split <;> simp_all [flowCalls, UserPc.isFlow]
  | pause =>
    obtain ⟨hc, hw, hr, hs⟩ := hok
    refine .calling (.pauseStore (s.conn.flow.pauses + 1)) ?_ (.inl rfl) rfl ?_ ?_
      ⟨⟨Nat.succ_pos _, rfl⟩, hr, hw⟩
    · have : s.conn.calls.filter UserPc.isFlow = [] := hc
      simp [absorb, Conn.call, flowCalls, ho, this, UserPc.isFlow]
    · -- the number is new: every pending pause task is from an earlier call
      intro hk
      have : s.conn.flow.pauses + 1 ≤ s.conn.flow.pauses :=
        h.numbered ho _ (by simpa [Out.quiet, Conn.call] using hk)
      omega
    · simpa [Out.quiet] using hs
  | resume =>
    refine .free (.inl rfl) fun pc hpc => ?_
    have hc : s.conn.calls.filter UserPc.isFlow = [] := hok
    simp only [absorb_conn, Conn.call, flowCalls, ho, Bool.false_eq_true, ↓reduceIte,
      List.filter_append, hc, List.nil_append] at hpc
    have : pc = .resumeStore := by simpa using (List.mem_filter.1 hpc).1
    rw [this]; rfl

/-- A `pause` in flight is the last one called. -/
theorem Phase.calling_of_mem (h : s.Phase) {i : Nat} {pc : UserPc}
    (hg : s.conn.calls[i]? = some pc) (hp : pc.isPause = true) :
    flowCalls s.conn = [pc] ∧
    (pc = .pauseStore s.conn.flow.pauses ∨ pc = .pausePost s.conn.flow.pauses) ∧
    s.conn.flow.ran = false ∧ .pause s.conn.flow.pauses ∉ s.posts.pending ∧
    .startReading ∉ s.posts.pending ∧ InForce s.conn := by
  have hf : pc.isFlow = true := by cases pc <;> first | rfl | cases hp
  have hm := mem_flowCalls hg hf
  cases h with
  | free _ hc => rw [hc _ hm] at hp; cases hp
  | calling pc' hc hpc hn hk hs hi =>
    obtain ⟨rfl, -, -⟩ := flowCalls_single hg hf hc
    exact ⟨hc, hpc, hn, hk, hs, hi⟩
  | posted _ _ hc => rw [hc] at hm; cases hm
  | ran hc => rw [hc] at hm; cases hm

/-- Without a pause in force a `send` or a `resume` may move. -/
theorem Phase.free_of_not (h : s.Phase) {i : Nat} {pc : UserPc} (hg : s.conn.calls[i]? = some pc)
    (hp : pc.isFlow = true ∧ pc.isPause = false ∨ ¬ Held s.conn) :
    (s.conn.flow.resumed = true ∨ s.conn.flow.pauses = 0 ∧ s.conn.paused = false) ∧
    ∀ pc ∈ flowCalls s.conn, pc.isPause = false := by
  cases h with
  | free hf hc => exact ⟨hf, hc⟩
  | calling pc' hc hpc _ _ _ hi =>
    rcases hp with ⟨hf, hp⟩ | hp
    · obtain ⟨rfl, -, -⟩ := flowCalls_single hg hf hc
      rcases hpc with rfl | rfl <;> cases hp
    · exact absurd hi.held hp
  | posted _ _ hc _ _ _ _ _ hi =>
    rcases hp with ⟨hf, -⟩ | hp
    · have := mem_flowCalls hg hf; rw [hc] at this; cases this
    · exact absurd hi.held hp
  | ran hc _ _ _ hi =>
    rcases hp with ⟨hf, -⟩ | hp
    · have := mem_flowCalls hg hf; rw [hc] at this; cases this
    · exact absurd hi.held hp

theorem advance_phase (h : s.PauseInv) (ho : s.conn.closed = false) {i : Nat} {pc : UserPc}
    (hg : s.conn.calls[i]? = some pc) (hok : s.PauseOk (.conn (.advance i))) :
    (s.absorb (s.conn.advance i pc)).Phase := by
  have hp := h.phase ho
  obtain ⟨l₁, l₂, hl, herase, hset⟩ := Cells.split_getElem? hg
  cases pc with
  | sendLock data =>
    have hn : ¬ Held s.conn := by rw [PauseOk, hg] at hok; exact hok
    obtain ⟨hf, hc⟩ := hp.free_of_not hg (.inr hn)
    rw [← flowCalls_erase hg rfl] at hc
    refine .free ?_ ?_ <;> simp only [absorb_conn, Conn.advance] <;> unfold Conn.enqueueSend <;>
      split <;> first | exact hf | exact hc | (split <;> first | exact hf | exact hc)
  | closePost =>
    refine hp.keep [.initiateClose] rfl rfl (flowCalls_erase hg rfl) id id (by simp) ?_
      fun hm hd => ⟨hm, hd⟩
    simp [Conn.advance, Out.post]
  | pauseStore k =>
    obtain ⟨hc, hpc, hn, hk, hs, hi⟩ := hp.calling_of_mem hg rfl
    obtain ⟨-, -, hset⟩ := flowCalls_single hg rfl hc
    have hk' : k = s.conn.flow.pauses := by simpa using hpc
    subst hk'
    exact .calling _ (hset _ rfl) (.inr rfl) hn (by simpa [Conn.advance, Out.quiet] using hk)
      (by simpa [Conn.advance, Out.quiet] using hs) ⟨hi.held, hi.reading, hi.drained⟩
  | pausePost k =>
    obtain ⟨hc, hpc, hn, hk, hs, hi⟩ := hp.calling_of_mem hg rfl
    obtain ⟨-, herase, -⟩ := flowCalls_single hg rfl hc
    have hk' : k = s.conn.flow.pauses := by simpa using hpc
    subst hk'
    exact .posted s.posts.pending [] herase (by simp [Conn.advance, Out.post]) (by simp) hn hk hs
      ⟨hi.held, hi.reading, hi.drained⟩
  | resumeStore =>
    obtain ⟨hf, hc⟩ := hp.free_of_not hg (.inl ⟨rfl, rfl⟩)
    refine .free (hf.imp_right fun h => ⟨h.1, rfl⟩) fun pc hpc => ?_
    rw [flowCalls, hl] at hc
    simp only [absorb_conn, Conn.advance, flowCalls, hset] at hpc
    simp only [List.filter_append, List.filter_cons, UserPc.isFlow, ↓reduceIte, List.mem_append,
      List.mem_cons] at hc hpc
    rcases hpc with hpc | rfl | hpc
    · exact hc pc (.inl hpc)
    · rfl
    · exact hc pc (.inr (.inr hpc))
  | resumePost =>
    obtain ⟨hf, hc⟩ := hp.free_of_not hg (.inl ⟨rfl, rfl⟩)
    refine .free hf fun pc hpc => ?_
    rw [flowCalls, hl] at hc
    simp only [absorb_conn, Conn.advance, flowCalls, herase] at hpc
    simp only [List.filter_append, List.filter_cons, UserPc.isFlow, ↓reduceIte, List.mem_append,
      List.mem_cons] at hc hpc
    exact hc pc (hpc.imp_right .inr)

/-! ## Loop tasks and events -/

/-- What the tasks leave alone, and how they mark the last pause's task as run. -/
theorem runTask_frame (c : Conn H) (ok : Bool) (t : ConnTask) :
    (c.runTask ok t).1.paused = c.paused ∧ (c.runTask ok t).1.calls = c.calls ∧
    (c.runTask ok t).1.reading = c.reading ∧
    (c.runTask ok t).1.writeRegistered = c.writeRegistered ∧
    (c.runTask ok t).1.drain = c.drain ∧
    (c.runTask ok t).1.flow =
      { c.flow with ran := c.flow.ran || decide (t = .pause c.flow.pauses) } := by
  cases t with
  | startReading =>
    simp only [Conn.runTask, Conn.add]
    split <;> simp
  | registerWritable =>
    simp only [Conn.runTask, Conn.modify]
    split <;> simp
  | pause k =>
    simp only [Conn.runTask, Conn.modify]
    split <;> simp [Bool.beq_eq_decide_eq]
  | resume =>
    simp only [Conn.runTask, Conn.modify]
    split <;> simp
  | initiateClose =>
    simp only [Conn.runTask, Conn.initiateClose]
    split <;> simp

/-- With nothing to write, a quiet task leaves an empty mask. -/
theorem runTask_pause_interest {c : Conn H} {ok : Bool} {k : Nat} (ho : c.closed = false)
    (hw : c.writeRegistered = false) :
    ∀ mask ∈ (c.runTask ok (.pause k)).1.interest, mask = IoEvent.none := by
  intro mask hm
  simp only [Conn.runTask, ho, Bool.false_eq_true, ↓reduceIte, hw, Conn.modify, Option.mem_def,
    Option.map_eq_some_iff] at hm
  obtain ⟨_, -, hm⟩ := hm
  exact hm.symm

theorem runTask_initiateClose_closed (c : Conn H) (ok : Bool) :
    (c.runTask ok .initiateClose).1.closed = true := by
  simp only [Conn.runTask, Conn.initiateClose]
  split
  · assumption
  · rfl

theorem runPost_phase (h : s.PauseInv) (ho : s.conn.closed = false) {t : ConnTask} {ok : Bool}
    {rest : List ConnTask} (hn : s.posts.pending = t :: rest) (hd : s.conn.drain = .idle)
    (hc' : s'.conn = (s.conn.runTask ok t).1) (hp' : s'.posts.pending = rest)
    (ho' : s'.conn.closed = false) : s'.Phase := by
  obtain ⟨e1, e2, e3, e4, e5, e6⟩ := runTask_frame s.conn ok t
  rw [← hc'] at e1 e2 e3 e4 e5 e6
  have hcalls : flowCalls s'.conn = flowCalls s.conn := by rw [flowCalls, e2]; rfl
  have hpauses : s'.conn.flow.pauses = s.conn.flow.pauses := by rw [e6]
  have hforce (h : InForce s.conn) : InForce s'.conn :=
    ⟨by rw [Held, e6]; exact h.held, e3.trans h.reading, e4.trans h.drained⟩
  have hclose : t ≠ .initiateClose := by
    rintro rfl
    rw [hc', runTask_initiateClose_closed] at ho'
    cases ho'
  cases h.phase ho with
  | free hf hc => exact .free (by rw [e6, e1]; exact hf) (by rw [hcalls]; exact hc)
  | calling pc hc hpc hr hk hs hi =>
    rw [hn, List.mem_cons, not_or] at hk hs
    refine .calling pc (hcalls.trans hc) (by rw [hpauses]; exact hpc) ?_
      (by rw [hpauses, hp']; exact hk.2) (by rw [hp']; exact hs.2) (hforce hi)
    rw [e6, hr, Bool.false_or]
    exact decide_eq_false (Ne.symm hk.1)
  | posted before after hc hp hq hr hk hs hi =>
    cases before with
    | nil =>
      rw [hn, List.nil_append, List.cons.injEq] at hp
      obtain ⟨rfl, rfl⟩ := hp
      refine .ran (hcalls.trans hc) (by rw [hp']; exact hq) ?_ (e5.trans hd) (hforce hi)
      rw [hc']
      exact runTask_pause_interest ho hi.drained
    | cons t' before =>
      rw [hn, List.cons_append, List.cons.injEq] at hp
      obtain ⟨rfl, rfl⟩ := hp
      rw [List.mem_cons, not_or] at hk hs
      refine .posted before after (hcalls.trans hc) (by rw [hpauses]; exact hp') hq ?_
        (by rw [hpauses]; exact hk.2) hs.2 (hforce hi)
      rw [e6, hr, Bool.false_or]
      exact decide_eq_false (Ne.symm hk.1)
  | ran hc hq hm _ hi =>
    have ht := hq t (by rw [hn]; exact List.mem_cons_self)
    refine .ran (hcalls.trans hc) ?_ ?_ (e5.trans hd) (hforce hi)
    · rw [hp']
      exact fun t' h => hq t' (by rw [hn]; exact List.mem_cons_of_mem _ h)
    · rw [hc']
      cases t with
      | pause k => exact runTask_pause_interest ho hi.drained
      | initiateClose => exact absurd rfl hclose
      | startReading => cases ht
      | registerWritable => cases ht
      | resume => cases ht

/-- Under an empty mask an event does nothing but close. -/
theorem onIoEvent_none (c : Conn H) {ev : IoEvent} (r : RecvResult)
    (hr : Conn.Reports IoEvent.none ev) :
    (c.onIoEvent ev r).1 = c ∨ (c.onIoEvent ev r).1 = c.initiateClose.1 := by
  have h1 : IoEvent.hasEvent ev .readable = false := by
    cases h : IoEvent.hasEvent ev .readable with
    | false => rfl
    | true => cases hr.1 h
  have h2 : IoEvent.hasEvent ev .writable = false := by
    cases h : IoEvent.hasEvent ev .writable with
    | false => rfl
    | true => cases hr.2 h
  unfold Conn.onIoEvent
  split
  · exact .inl rfl
  · split
    · exact .inr rfl
    · simp [h1, h2, Conn.startDrain]

/-- The fields of the flow control are untouched. -/
structure FlowFrame (c c' : Conn H) : Prop where
  flow : c'.flow = c.flow
  paused : c'.paused = c.paused
  calls : c'.calls = c.calls
  reading : c'.reading = c.reading
  drained : c.writeRegistered = false → c'.writeRegistered = false

theorem initiateClose_frame {c d : Conn H} (h : FlowFrame c d) :
    FlowFrame c d.initiateClose.1 := by
  unfold Conn.initiateClose
  split
  · exact h
  · exact ⟨h.flow, h.paused, h.calls, h.reading, h.drained⟩

theorem startDrain_flow {c d : Conn H} (h : FlowFrame c d) (ev : IoEvent) :
    FlowFrame c (d.startDrain ev) := by
  unfold Conn.startDrain
  split
  · exact ⟨h.flow, h.paused, h.calls, h.reading, h.drained⟩
  · exact h

theorem onIoEvent_frame (c : Conn H) (ev : IoEvent) (r : RecvResult) :
    FlowFrame c (c.onIoEvent ev r).1 := by
  have hself : FlowFrame c c := ⟨rfl, rfl, rfl, rfl, id⟩
  refine Conn.onIoEvent_elim r hself (initiateClose_frame hself) (startDrain_flow hself ev)
    fun bytes => ?_
  have h' : FlowFrame c { c with received := c.received ++ [bytes] } := ⟨rfl, rfl, rfl, rfl, id⟩
  exact startDrain_flow h' ev

theorem drainLock_frame (c : Conn H) : FlowFrame c c.drainLock := by
  unfold Conn.drainLock
  split
  · exact ⟨rfl, rfl, rfl, rfl, fun _ => rfl⟩
  · exact ⟨rfl, rfl, rfl, rfl, id⟩

theorem drainSend_frame (c : Conn H) (chunk : Bytes) (sent : Nat) (r : SendResult) :
    FlowFrame c (c.drainSend chunk sent r).1 := by
  cases r with
  | sent k => exact ⟨rfl, rfl, rfl, rfl, id⟩
  | wouldBlock => exact ⟨rfl, rfl, rfl, rfl, id⟩
  | error => exact initiateClose_frame ⟨rfl, rfl, rfl, rfl, id⟩

/-- A step of the loop thread that posts nothing. -/
theorem Phase.keep_frame (h : s.Phase) {r : Conn H × Out} (hf : FlowFrame s.conn r.1)
    (hp : r.2.posts = [])
    (hm : (∀ mask ∈ s.conn.interest, mask = IoEvent.none) → s.conn.drain = .idle →
      (∀ mask ∈ r.1.interest, mask = IoEvent.none) ∧ r.1.drain = .idle) : (s.absorb r).Phase := by
  refine h.keep [] hf.flow hf.paused (by simp [flowCalls, hf.calls]) ?_ hf.drained nofun
    (by simp [hp]) hm
  intro hr
  exact hf.reading.trans hr

theorem conn_phase (h : s.PauseInv) {b : Conn.Act H} {r : Conn H × Out}
    (he : s.conn.step b = some r) (hb : s.Allows b) (hok : s.PauseOk (.conn b))
    (ho' : r.1.closed = false) : (s.absorb r).Phase := by
  have ho : s.conn.closed = false := Conn.step_open he ho'
  have hp := h.phase ho
  obtain ⟨c', o⟩ := r
  cases Conn.step_view he with
  | setOnData _ => exact hp.keep_frame ⟨rfl, rfl, rfl, rfl, id⟩ rfl fun hm hd => ⟨hm, hd⟩
  | setOnClose _ _ => exact hp.keep_frame ⟨rfl, rfl, rfl, rfl, id⟩ rfl fun hm hd => ⟨hm, hd⟩
  | startReading hr =>
    have hr : ¬ s.conn.reading = true := by rw [hr]; rintro ⟨⟩
    -- no pause is in force: `pause` comes after this call's task
    cases hp with
    | free hf hc => exact .free hf hc
    | calling _ _ _ _ _ _ hi => exact absurd hi.reading hr
    | posted _ _ _ _ _ _ _ _ hi => exact absurd hi.reading hr
    | ran _ _ _ _ hi => exact absurd hi.reading hr
  | call op => exact call_phase h ho op hok
  | advance i pc hg => exact advance_phase h ho hg hok
  | task t ok _ => cases hb
  | event ev rv mask hmask _ _ =>
    refine hp.keep_frame (onIoEvent_frame _ _ _) rfl fun hm hd => ?_
    have hrep := hok mask hmask
    rw [hm mask hmask] at hrep
    rcases onIoEvent_none s.conn rv hrep with e | e
    · rw [e]; exact ⟨hm, hd⟩
    · have := runTask_initiateClose_closed s.conn true
      rw [Conn.runTask, ← e, ho'] at this
      cases this
  | drainLock hd =>
    exact hp.keep_frame (drainLock_frame _) rfl fun _ hi => by rw [hd] at hi; cases hi
  | drainSend chunk sent rv hd _ =>
    exact hp.keep_frame (drainSend_frame _ _ _ _) rfl fun _ hi => by rw [hd] at hi; cases hi
  | teardownClose =>
    have := runTask_initiateClose_closed s.conn true
    rw [Conn.runTask, ho'] at this
    cases this

/-- Pause tasks are posted by the calls whose number they carry. -/
def Numbers (c c' : Conn H) (o : Out) : Prop :=
  c.flow.pauses ≤ c'.flow.pauses ∧
    ∀ j, .pause j ∈ o.posts → ∃ i : Nat, c.calls[i]? = some (.pausePost j)

/-- A step that posts no pause task and makes no `pause` call. -/
theorem numbered_frame {c c' : Conn H} {o : Out} (hf : c'.flow.pauses = c.flow.pauses)
    (hp : ∀ j, .pause j ∉ o.posts) : Numbers c c' o :=
  ⟨Nat.le_of_eq hf.symm, fun j h => absurd h (hp j)⟩

theorem advance_pauses {c : Conn H} {i : Nat} {pc : UserPc} (hg : c.calls[i]? = some pc) :
    Numbers c (c.advance i pc).1 (c.advance i pc).2 := by
  cases pc with
  | sendLock data =>
    simp only [Conn.advance]
    unfold Conn.enqueueSend
    split
    · exact numbered_frame (o := ⟨[], []⟩) rfl (by simp)
    · split
      · exact numbered_frame (o := ⟨[], []⟩) rfl (by simp)
      · exact numbered_frame (o := ⟨_, []⟩) rfl (by intro j; simp only; split <;> simp)
  | pauseStore k => exact numbered_frame (o := .quiet) rfl (by simp [Out.quiet])
  | pausePost k =>
    refine ⟨Nat.le_refl _, fun j hj => ⟨i, ?_⟩⟩
    have : j = k := by simpa [Conn.advance, Out.post] using hj
    rw [hg, this]
  | resumeStore => exact numbered_frame (o := .quiet) rfl (by simp [Out.quiet])
  | resumePost => exact numbered_frame (o := .post .resume) rfl (by simp [Out.post])
  | closePost => exact numbered_frame (o := .post .initiateClose) rfl (by simp [Out.post])

theorem conn_pauses {c c' : Conn H} {b : Conn.Act H} {o : Out} (he : c.step b = some (c', o)) :
    Numbers c c' o := by
  cases Conn.step_view he with
  | setOnData _ => exact numbered_frame rfl (by simp [Out.quiet])
  | setOnClose _ _ => exact numbered_frame rfl (by simp [Out.quiet])
  | startReading _ => exact numbered_frame rfl (by simp [Out.post])
  | call op =>
    cases op with
    | pause => exact ⟨Nat.le_succ _, by simp [Out.quiet]⟩
    | resume => exact numbered_frame rfl (by simp [Out.quiet])
    | send data =>
      refine numbered_frame ?_ (by simp [Out.quiet])
      simp only [Conn.call]; split <;> rfl
    | close =>
      refine numbered_frame ?_ (by simp [Out.quiet])
      simp only [Conn.call]; split <;> rfl
  | advance i pc hg => exact advance_pauses hg
  | task t ok _ =>
    refine numbered_frame ?_ (by simp [Out.submit])
    rw [(runTask_frame c ok t).2.2.2.2.2]
  | event ev rv _ _ _ _ =>
    exact numbered_frame (by rw [(onIoEvent_frame c ev rv).flow]) (by simp [Out.submit])
  | drainLock _ => exact numbered_frame (by rw [(drainLock_frame c).flow]) (by simp [Out.quiet])
  | drainSend chunk sent rv _ _ =>
    exact numbered_frame (by rw [(drainSend_frame c _ _ rv).flow]) (by simp [Out.submit])
  | teardownClose =>
    refine numbered_frame ?_ (by simp [Out.submit])
    rw [(initiateClose_frame ⟨rfl, rfl, rfl, rfl, id⟩).flow]

theorem step_pauseInv {a : Act H} (h : s.PauseInv) (hok : s.PauseOk a)
    (he : s.step a = some s') : s'.PauseInv := by
  rcases step_cases he with ⟨b, r, rfl, hb, hr, rfl⟩ | ⟨ok, t, q, r, rfl, hfree, hn, hr, rfl⟩ |
    ⟨-, hc, hp, -⟩
  · refine ⟨Conn.step_closed hr h.closed, fun ho' j hj => ?_, conn_phase h hr hb hok⟩
    have ho := Conn.step_open hr ho'
    obtain ⟨hle, hposts⟩ := conn_pauses hr
    rw [absorb_pending, List.mem_append] at hj
    rcases hj with hj | hj
    · exact Nat.le_trans (h.numbered ho j hj) hle
    · obtain ⟨i, hg⟩ := hposts j hj
      obtain ⟨-, hpc, -⟩ := (h.phase ho).calling_of_mem hg rfl
      have : j = s.conn.flow.pauses := by simpa using hpc
      exact this ▸ hle
  · have hpend := PostQueue.pending_next hn
    refine ⟨Conn.step_closed hr h.closed, fun ho' j hj => ?_, fun ho' => ?_⟩
    · have ho := Conn.step_open hr ho'
      obtain ⟨hle, -⟩ := conn_pauses hr
      simp only [Conn.step, if_pos hfree.2, Option.some.injEq] at hr
      subst hr
      have hj : .pause j ∈ q.pending := by simpa [Out.submit] using hj
      exact Nat.le_trans (h.numbered ho j (by rw [hpend]; exact List.mem_cons_of_mem _ hj)) hle
    · have ho := Conn.step_open hr ho'
      simp only [Conn.step, if_pos hfree.2, Option.some.injEq] at hr
      subst hr
      exact runPost_phase h ho hpend hfree.2 rfl (by simp [Out.submit]) ho'
  · refine ⟨by rw [hc]; exact h.closed, by rw [hc, hp]; exact h.numbered, fun ho => ?_⟩
    rw [hc] at ho
    refine (h.phase ho).keep [] (by rw [hc]) (by rw [hc]) (by rw [hc]) (by rw [hc]; exact id)
      (by rw [hc]; exact id) (by simp) (by simp [hp]) (by rw [hc]; exact .intro)

theorem start_pauseInv (m r : Nat) : (start m r : ConnLoop H).PauseInv :=
  ⟨fun _ => rfl, fun _ _ h => (List.not_mem_nil h).elim, fun _ => .free (.inr ⟨rfl, rfl⟩) nofun⟩

/-- **A pause holds.** In every run that uses the connection as `PauseOk` says,
when `paused_` is set, no `resume` was called after the last `pause` and that
pause's task has run, the mask lacks `readable` and no event of such a run receives
anything. -/
theorem pause_holds {m r : Nat} {s : ConnLoop H} (h : (machine H m r).ReachOk PauseOk s)
    (hp : s.conn.paused = true) (hr : s.conn.flow.resumed = false)
    (hn : s.conn.flow.ran = true) :
    (∀ mask ∈ s.conn.interest, IoEvent.hasEvent mask .readable = false) ∧
    ∀ ev rv s', s.PauseOk (.conn (.event ev rv)) → s.step (.conn (.event ev rv)) = some s' →
      s'.conn.received = s.conn.received := by
  have hi : s.PauseInv := h.inv (fun _ hs => hs ▸ start_pauseInv m r)
    fun _ _ _ _ hi hok he => step_pauseInv hi hok he
  have hmask : ∀ mask ∈ s.conn.interest, mask = IoEvent.none := by
    intro mask hm
    cases hc : s.conn.closed with
    | true => rw [hi.closed hc] at hm; cases hm
    | false =>
      cases hi.phase hc with
      | free hf =>
        rcases hf with hf | ⟨-, hf⟩
        · rw [hf] at hr; cases hr
        · rw [hf] at hp; cases hp
      | calling _ _ _ hn' => rw [hn'] at hn; cases hn
      | posted _ _ _ _ _ hn' => rw [hn'] at hn; cases hn
      | ran _ _ hm' => exact hm' mask hm
  refine ⟨fun mask hm => by rw [hmask mask hm]; rfl, fun ev rv s' hok he => ?_⟩
  rcases step_cases he with ⟨_, _, e, -, hr, rfl⟩ | ⟨_, _, _, _, e, -⟩ | ⟨-, hc, -, -⟩
  · cases e
    rename_i r
    obtain ⟨c', o⟩ := r
    cases Conn.step_view hr with
    | event ev rv mask hm _ _ =>
      have hrep := hok mask hm
      rw [hmask mask hm] at hrep
      rcases onIoEvent_none s.conn rv hrep with e | e
      · rw [absorb_conn, e]
      · rw [absorb_conn, e, Conn.initiateClose]
        split <;> rfl
  · cases e
  · rw [hc]

/-- A paused connection that was registered and had nothing to write. -/
theorem pause_holds_registered :
    ∃ s : ConnLoop Unit, (machine Unit 8 4).ReachOk PauseOk s ∧
      (s.conn.paused = true ∧ s.conn.flow.resumed = false ∧ s.conn.flow.ran = true) ∧
      ∀ mask ∈ s.conn.interest, IoEvent.hasEvent mask .readable = false := by
  obtain ⟨s, h, hp⟩ := Machine.ReachOk.of_runOk_init (M := machine Unit 8 4) PauseOk
    (fun s => decide (s.conn.paused = true ∧ s.conn.flow.resumed = false ∧
      s.conn.flow.ran = true))
    [.conn .startReading, .swap, .runPost true, .enterPoll, .conn (.call .pause),
      .conn (.advance 0), .conn (.advance 0), .swap, .runPost true]
    rfl (by decide)
  have hq := of_decide_eq_true hp
  exact ⟨s, h, hq, (pause_holds h hq.1 hq.2.1 hq.2.2).1⟩

/-- `pause` called during `on_connect`: its task finds no registration, and
`start_reading`'s task then registers the socket with `readable`. -/
theorem pause_lost_before_start_reading :
    ∃ s : ConnLoop Unit, (machine Unit 8 4).Reach s ∧ s.conn.closed = false ∧
      s.conn.paused = true ∧ s.conn.flow.resumed = false ∧ s.conn.flow.ran = true ∧
      s.conn.interest = some IoEvent.readable := by
  obtain ⟨s, h, hp⟩ := Machine.Reach.of_run_init (M := machine Unit 8 4)
    (fun s => decide (s.conn.closed = false ∧ s.conn.paused = true ∧
      s.conn.flow.resumed = false ∧ s.conn.flow.ran = true ∧
      s.conn.interest = some IoEvent.readable))
    [.conn (.call .pause), .conn (.advance 0), .conn (.advance 0), .conn .startReading,
      .swap, .runPost true, .runPost true]
    rfl (by decide)
  exact ⟨s, h, of_decide_eq_true hp⟩

end ConnLoop

end Socketpp
