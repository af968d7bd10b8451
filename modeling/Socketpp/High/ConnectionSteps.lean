import Socketpp.High.ConnectionEngine

/-!
# What a step of a connection does to its callbacks

Seen from the serial queue a step of a connection is one of three things
(`Effect`): it is quiet, it received bytes, or it closed the connection; the
callbacks it submits follow from which one it is (`step_effect`). The handlers
change only before `start_reading` (`step_handlers`), and only
`start_reading`'s own task registers the socket, so a closed connection stays
unregistered (`step_closed`).
-/

namespace Socketpp

namespace Conn

variable {H : Type} {c c' : Conn H} {a : Act H}

/-- What can close a connection: its events, the end of a failed `send`, the task
`close` posts, or the thread that tears the stream down. -/
def Closes (c : Conn H) (a : Act H) : Prop :=
  c.interest.isSome = true ∨ c.drain ≠ .idle ∨ (∃ ok, a = .task .initiateClose ok) ∨
    a = .teardownClose

inductive Effect (c c' : Conn H) (a : Act H) : List Callback → Prop where
  | quiet (hc : c'.closed = c.closed) (hr : c'.received = c.received)
      (hi : c'.interest.isSome = true →
        c.interest.isSome = true ∨ c.closed = false ∧ ∃ ok, a = .task .startReading ok) :
      Effect c c' a []
  | data (bytes : Bytes) (hb : bytes ≠ []) (ho : c.closed = false) (hc : c'.closed = false)
      (hi : c.interest.isSome = true) (hr : c'.received = c.received ++ [bytes]) :
      Effect c c' a (if c.onData then [.onData bytes] else [])
  | closing (hk : Closes c a) (ho : c.closed = false) (hc : c'.closed = true)
      (hi : c'.interest = none) (hr : c'.received = c.received) :
      Effect c c' a (if c.onClose.isSome then [.onClose] else [])

/-- The fields set before `start_reading`. -/
def SameHandlers (c c' : Conn H) : Prop :=
  c'.onData = c.onData ∧ c'.onClose = c.onClose ∧ c'.reading = c.reading

theorem SameHandlers.rfl {c : Conn H} : SameHandlers c c := ⟨.refl _, .refl _, .refl _⟩

/-- An effect that leaves the handlers alone. -/
def Spec (c c' : Conn H) (a : Act H) (cbs : List Callback) : Prop :=
  Effect c c' a cbs ∧ SameHandlers c c'

/-- Nothing the effect reads has changed. -/
theorem Spec.frame (hc : c'.closed = c.closed) (hr : c'.received = c.received)
    (hi : c'.interest.isSome = c.interest.isSome) (hh : SameHandlers c c') : Spec c c' a [] :=
  ⟨.quiet hc hr fun h => .inl (hi ▸ h), hh⟩

@[simp] theorem isSome_modify (c : Conn H) (mask : IoEvent) :
    (c.modify mask).interest.isSome = c.interest.isSome := by simp [modify]

/-- `initiate_close`, from a state that differs from `c` in nothing the effect reads. -/
theorem initiateClose_spec {d : Conn H} (hk : Closes c a) (hc : d.closed = c.closed)
    (hr : d.received = c.received) (hi : d.interest.isSome = c.interest.isSome)
    (hh : SameHandlers c d) :
    Spec c d.initiateClose.1 a d.initiateClose.2 := by
  unfold initiateClose
  split
  · exact .frame hc hr hi hh
  · rename_i ho
    have e : (if d.onClose.isSome then [Callback.onClose] else []) =
        if c.onClose.isSome then [Callback.onClose] else [] := by rw [hh.2.1]
    rw [e]
    exact ⟨.closing hk (by rw [← hc]; simpa using ho) rfl rfl hr, hh⟩

theorem call_spec (op : UserOp) : Spec c (c.call op) a [] := by
  cases op with
  | send data =>
    simp only [call]
    split <;> exact .frame rfl rfl rfl .rfl
  | pause => exact .frame rfl rfl rfl .rfl
  | resume => exact .frame rfl rfl rfl .rfl
  | close =>
    simp only [call]
    split <;> exact .frame rfl rfl rfl .rfl

theorem advance_submits (i : Nat) (pc : UserPc) : (c.advance i pc).2.submits = [] := by
  cases pc <;> rfl

theorem advance_spec (i : Nat) (pc : UserPc) : Spec c (c.advance i pc).1 a [] := by
  cases pc with
  | sendLock data =>
    simp only [advance]
    unfold enqueueSend
    split
    · exact .frame rfl rfl rfl .rfl
    · split <;> exact .frame rfl rfl rfl .rfl
  | pauseStore k | pausePost k | resumeStore | resumePost | closePost =>
    exact .frame rfl rfl rfl .rfl

theorem runTask_spec (ok : Bool) (t : ConnTask) :
    Spec c (c.runTask ok t).1 (.task t ok) (c.runTask ok t).2 := by
  cases t with
  | startReading =>
    simp only [runTask, add]
    split
    · exact .frame rfl rfl rfl .rfl
    · rename_i hg
      have ho : c.closed = false := by
        cases h : c.closed with
        | false => rfl
        | true => simp [h] at hg
      exact ⟨.quiet rfl rfl fun _ => .inr ⟨ho, ok, rfl⟩, .rfl⟩
  | registerWritable =>
    simp only [runTask]
    split
    · exact .frame rfl rfl rfl .rfl
    · exact .frame rfl rfl (isSome_modify _ _) .rfl
  | pause k =>
    simp only [runTask]
    split
    · exact .frame rfl rfl rfl .rfl
    · exact .frame rfl rfl (isSome_modify _ _) .rfl
  | resume =>
    simp only [runTask]
    split
    · exact .frame rfl rfl rfl .rfl
    · exact .frame rfl rfl (isSome_modify _ _) .rfl
  | initiateClose => exact initiateClose_spec (.inr (.inr (.inl ⟨ok, rfl⟩))) rfl rfl rfl .rfl

/-- Entering `drain_write_queue` changes nothing the effect reads. -/
theorem startDrain_frame (c : Conn H) (ev : IoEvent) :
    (c.startDrain ev).closed = c.closed ∧ (c.startDrain ev).received = c.received ∧
      (c.startDrain ev).interest = c.interest ∧ SameHandlers c (c.startDrain ev) := by
  unfold startDrain
  split <;> exact ⟨rfl, rfl, rfl, .rfl⟩

theorem onIoEvent_spec (hi : c.interest.isSome = true) (ev : IoEvent) (r : RecvResult) :
    Spec c (c.onIoEvent ev r).1 a (c.onIoEvent ev r).2 := by
  unfold onIoEvent
  split
  · exact .frame rfl rfl rfl .rfl
  · rename_i hc
    have ho : c.closed = false := by simpa using hc
    split
    · exact initiateClose_spec (.inl hi) rfl rfl rfl .rfl
    · split
      · cases r with
        | wouldBlock => exact .frame rfl rfl rfl .rfl
        | error => exact initiateClose_spec (.inl hi) rfl rfl rfl .rfl
        | data bytes =>
          simp only
          split
          · exact initiateClose_spec (.inl hi) rfl rfl rfl .rfl
          · rename_i hb
            obtain ⟨h1, h2, -, h4⟩ :=
              startDrain_frame { c with received := c.received ++ [bytes] } ev
            exact ⟨.data bytes (by simpa using hb) ho (h1.trans ho) hi h2, h4⟩
      · obtain ⟨h1, h2, h3, h4⟩ := startDrain_frame c ev
        exact .frame h1 h2 (by rw [h3]) h4

theorem drainLock_spec : Spec c c.drainLock a [] := by
  unfold drainLock
  split
  · exact .frame rfl rfl (isSome_modify _ _) .rfl
  · exact .frame rfl rfl rfl .rfl

theorem drainSend_spec (hd : c.drain ≠ .idle) (chunk : Bytes) (sent : Nat) (r : SendResult) :
    Spec c (c.drainSend chunk sent r).1 a (c.drainSend chunk sent r).2 := by
  cases r with
  | sent k => exact .frame rfl rfl rfl .rfl
  | wouldBlock => exact .frame rfl rfl rfl .rfl
  | error =>
    exact initiateClose_spec (d := { c with drain := .idle, failed := true }) (.inr (.inl hd)) rfl
      rfl rfl .rfl

/-- The three calls made by the thread that runs `on_connect`. -/
def Act.Setup : Act H → Prop
  | .setOnData | .setOnClose _ | .startReading => True
  | _ => False

/-- What the setup calls do. -/
theorem step_setup {o : Out} (hs : a.Setup) (he : c.step a = some (c', o)) :
    c.reading = false ∧ o.submits = [] ∧
    ((a = .setOnData ∧ c' = { c with onData := true } ∧ o.posts = []) ∨
      (∃ h, a = .setOnClose h ∧ c' = { c with onClose := h } ∧ o.posts = []) ∨
      (a = .startReading ∧ c' = { c with reading := true } ∧ o.posts = [.startReading])) := by
  cases step_view he with
  | setOnData hr => exact ⟨hr, rfl, .inl ⟨rfl, rfl, rfl⟩⟩
  | setOnClose h hr => exact ⟨hr, rfl, .inr (.inl ⟨h, rfl, rfl, rfl⟩)⟩
  | startReading hr => exact ⟨hr, rfl, .inr (.inr ⟨rfl, rfl, rfl⟩)⟩
  | call _ => cases hs
  | advance _ _ _ => cases hs
  | task _ _ _ => cases hs
  | event _ _ _ _ _ _ => cases hs
  | drainLock _ => cases hs
  | drainSend _ _ _ _ _ => cases hs
  | teardownClose => cases hs

/-- **Every other step.** It leaves the handlers alone, and its effect says
what it submits. -/
theorem step_spec {o : Out} (hs : ¬ a.Setup) (he : c.step a = some (c', o)) :
    Spec c c' a o.submits := by
  cases step_view he with
  | setOnData _ => exact absurd trivial hs
  | setOnClose _ _ => exact absurd trivial hs
  | startReading _ => exact absurd trivial hs
  | call op => exact call_spec op
  | advance i pc _ =>
    rw [advance_submits]
    exact advance_spec i pc
  | task t ok _ => exact runTask_spec ok t
  | event ev r mask hm _ _ => exact onIoEvent_spec (by rw [hm]; rfl) ev r
  | drainLock _ => exact drainLock_spec
  | drainSend chunk sent r hd _ => exact drainSend_spec (by rw [hd]; rintro ⟨⟩) _ _ r
  | teardownClose => exact initiateClose_spec (.inr (.inr (.inr rfl))) rfl rfl rfl .rfl

/-- Only `start_reading` posts its task. -/
theorem step_posts {o : Out} (hs : ¬ a.Setup) (he : c.step a = some (c', o)) :
    .startReading ∉ o.posts := by
  cases step_view he with
  | setOnData _ => exact absurd trivial hs
  | setOnClose _ _ => exact absurd trivial hs
  | startReading _ => exact absurd trivial hs
  | call _ | task _ _ _ | event _ _ _ _ _ _ | drainLock _ | drainSend _ _ _ _ _ | teardownClose =>
    exact List.not_mem_nil
  | advance i pc _ =>
    cases pc with
    | sendLock data =>
      simp only [advance, enqueueSend]
      split
      · exact List.not_mem_nil
      · split
        · exact List.not_mem_nil
        · simp only; split <;> simp
    | pauseStore k => exact List.not_mem_nil
    | pausePost k => simp [advance, Out.post]
    | resumeStore => exact List.not_mem_nil
    | resumePost => simp [advance, Out.post]
    | closePost => simp [advance, Out.post]

/-- A step submits at most one callback. -/
theorem step_submits {o : Out} (he : c.step a = some (c', o)) :
    o.submits = [] ∨ ¬ a.Setup ∧ ∃ cb, o.submits = [cb] := by
  by_cases hs : a.Setup
  · exact .inl (step_setup hs he).2.1
  · obtain ⟨he, -⟩ := step_spec hs he
    generalize o.submits = cbs at he
    cases he with
    | quiet => exact .inl rfl
    | data bytes =>
      split
      · exact .inr ⟨hs, _, rfl⟩
      · exact .inl rfl
    | closing =>
      split
      · exact .inr ⟨hs, _, rfl⟩
      · exact .inl rfl

/-- `closed_` is never cleared. -/
theorem step_open {o : Out} (he : c.step a = some (c', o)) (h : c'.closed = false) :
    c.closed = false := by
  by_cases hs : a.Setup
  · obtain ⟨-, -, ⟨-, rfl, -⟩ | ⟨_, -, rfl, -⟩ | ⟨-, rfl, -⟩⟩ := step_setup hs he
    · exact h
    · exact h
    · exact h
  · obtain ⟨he, -⟩ := step_spec hs he
    generalize o.submits = cbs at he
    cases he with
    | quiet h1 => rw [← h1]; exact h
    | data _ _ ho => exact ho
    | closing _ ho => exact ho

/-- A closed connection that is not registered stays so. -/
theorem step_closed {o : Out} (he : c.step a = some (c', o))
    (h : c.closed = true → c.interest = none) : c'.closed = true → c'.interest = none := by
  intro hc
  by_cases hs : a.Setup
  · obtain ⟨-, -, ⟨-, rfl, -⟩ | ⟨_, -, rfl, -⟩ | ⟨-, rfl, -⟩⟩ := step_setup hs he
    · exact h hc
    · exact h hc
    · exact h hc
  · obtain ⟨he, -⟩ := step_spec hs he
    generalize o.submits = cbs at he
    cases he with
    | quiet h1 _ hi =>
      rw [h1] at hc
      cases hi' : c'.interest with
      | none => rfl
      | some mask =>
        rcases hi (by rw [hi']; rfl) with h2 | ⟨h2, -⟩
        · rw [h hc] at h2; cases h2
        · rw [h2] at hc; cases hc
    | data _ _ _ h1 => rw [h1] at hc; cases hc
    | closing _ _ _ hi => exact hi

/-- `drain_write_queue` runs on a registered socket, unless the connection is closed. -/
def DrainReg (c : Conn H) : Prop :=
  c.drain ≠ .idle → c.interest.isSome = true ∨ c.closed = true

theorem initiateClose_drainReg (h : c.DrainReg) : c.initiateClose.1.DrainReg := by
  unfold initiateClose
  split
  · exact h
  · exact fun _ => .inr rfl

theorem startDrain_drainReg (h : c.DrainReg) (hi : c.interest.isSome = true) (ev : IoEvent) :
    (c.startDrain ev).DrainReg := by
  unfold startDrain
  split
  · exact fun _ => .inl hi
  · exact h

theorem onIoEvent_drainReg (h : c.DrainReg) (hi : c.interest.isSome = true) (ev : IoEvent)
    (r : RecvResult) : (c.onIoEvent ev r).1.DrainReg :=
  onIoEvent_elim r h (initiateClose_drainReg h) (startDrain_drainReg h hi ev) fun bytes =>
    startDrain_drainReg (c := { c with received := c.received ++ [bytes] }) h hi ev

theorem runTask_drain (ok : Bool) (t : ConnTask) : (c.runTask ok t).1.drain = c.drain := by
  cases t <;> simp only [runTask, add, initiateClose, modify] <;> split <;> rfl

/-- Only `initiate_close` closes. -/
theorem runTask_closed (ok : Bool) {t : ConnTask} (ht : t ≠ .initiateClose) :
    (c.runTask ok t).1.closed = c.closed := by
  cases t with
  | initiateClose => exact absurd rfl ht
  | startReading => simp only [runTask, add]; split <;> rfl
  | registerWritable => simp only [runTask]; split <;> rfl
  | pause k => simp only [runTask]; split <;> rfl
  | resume => simp only [runTask]; split <;> rfl

theorem drainLock_closed (c : Conn H) : c.drainLock.closed = c.closed := by
  unfold drainLock
  split <;> rfl

theorem advance_drain (i : Nat) (pc : UserPc) :
    (c.advance i pc).1.drain = c.drain ∧ (c.advance i pc).1.interest = c.interest ∧
      (c.advance i pc).1.closed = c.closed := by
  cases pc with
  | sendLock data =>
    simp only [advance, enqueueSend]
    split
    · exact ⟨rfl, rfl, rfl⟩
    · split <;> exact ⟨rfl, rfl, rfl⟩
  | pauseStore k | pausePost k | resumeStore | resumePost | closePost => exact ⟨rfl, rfl, rfl⟩

theorem call_drain (op : UserOp) :
    (c.call op).drain = c.drain ∧ (c.call op).interest = c.interest ∧
      (c.call op).closed = c.closed := by
  cases op with
  | send data =>
    simp only [call]
    split <;> exact ⟨rfl, rfl, rfl⟩
  | pause => exact ⟨rfl, rfl, rfl⟩
  | resume => exact ⟨rfl, rfl, rfl⟩
  | close =>
    simp only [call]
    split <;> exact ⟨rfl, rfl, rfl⟩

theorem step_drainReg {o : Out} (h : c.DrainReg) (he : c.step a = some (c', o)) :
    c'.DrainReg := by
  cases step_view he with
  | setOnData _ => exact h
  | setOnClose _ _ => exact h
  | startReading _ => exact h
  | call op =>
    obtain ⟨h1, h2, h3⟩ := call_drain (c := c) op
    rw [DrainReg, h1, h2, h3]
    exact h
  | advance i pc _ =>
    obtain ⟨h1, h2, h3⟩ := advance_drain (c := c) i pc
    rw [DrainReg, h1, h2, h3]
    exact h
  | task t ok hd =>
    -- no task enters `drain_write_queue`
    intro hne
    rw [runTask_drain] at hne
    exact absurd hd hne
  | event ev r mask hm _ _ => exact onIoEvent_drainReg h (by rw [hm]; rfl) ev r
  | drainLock hd =>
    unfold drainLock
    split
    · exact fun hne => absurd rfl hne
    · exact fun _ => h (by rw [hd]; rintro ⟨⟩)
  | drainSend chunk sent r hd _ =>
    cases r with
    | sent k => exact fun _ => h (by rw [hd]; rintro ⟨⟩)
    | wouldBlock => exact fun hne => absurd rfl hne
    | error => exact initiateClose_drainReg (fun hne => absurd rfl hne)
  | teardownClose => exact initiateClose_drainReg h

end Conn

end Socketpp
