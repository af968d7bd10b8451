import Socketpp.High.StreamSerial
import Socketpp.High.StreamLifetime
import Socketpp.Lib.Cells

/-!
# A listening stream at rest

A connection leaves the table through its close callback: `initiate_close`
submits `on_close_` if it is set, the callback posts the erase if by then
`on_close_` is the lambda of `arm_listen`, and the erase runs on the loop. The
lambda is installed when `on_connect_cb` has returned. A connection whose
`initiate_close` runs before that has no close callback, or one that calls the
user's handler only; nothing will ever erase its entry.

`WrapperOk` asks that `initiate_close` finds the lambda in place. `CloseInv` is
what then holds of a connection, `EraseInv` what holds of the table and its
counter in any run. A state is `Quiescent` when nothing is on its way.
-/

namespace Socketpp

/-- The worker is not inside a task of the application. -/
def Worker.atRest {κ τ Y : Type} : Worker (Exec κ τ Y) → Bool
  | .running (.fn _ _) | .running (.app _) => false
  | .running (.top _) | .waiting | .exited => true

namespace Stream

variable {n : Nat} {cfg : StreamConfig} {s s' : Stream n} {a : Act n} {c : Nat}

/-- Nothing is posted, queued or submitted, and no callback is running. -/
def Quiescent (s : Stream n) : Prop :=
  s.posts.pending = [] ∧ s.pool.pool.queue = [] ∧ (∀ c < s.made, (s.pool.queues c).pending = []) ∧
    ∀ w, (s.pool.pool.workers w).atRest = true

instance (s : Stream n) : Decidable s.Quiescent :=
  inferInstanceAs (Decidable (_ ∧ _ ∧ (∀ c < s.made, _) ∧
    ∀ w, (s.pool.pool.workers w).atRest = true))

/-- `on_close_` of `c` is the lambda that posts the erase. -/
def Wrapped (s : Stream n) (c : Nat) : Prop :=
  (s.impls c).onClose.any CloseHandler.isWrapper = true

instance (s : Stream n) (c : Nat) : Decidable (s.Wrapped c) :=
  inferInstanceAs (Decidable (_ = true))

/-- `initiate_close` on `c`, if it has an effect, finds the lambda in place. -/
def ClosesWrapped (s : Stream n) (c : Nat) : Prop := (s.impls c).closed = false → s.Wrapped c

instance (s : Stream n) (c : Nat) : Decidable (s.ClosesWrapped c) :=
  inferInstanceAs (Decidable (_ → _))

/-- Every `initiate_close`, posted by `close` or called by `do_destroy`, finds
the lambda in place. -/
def WrapperOk (s : Stream n) : Act n → Prop
  | .runPost _ => s.nextClose.all (fun c => decide (s.ClosesWrapped c)) = true
  | .teardownClose c => s.ClosesWrapped c
  | _ => True

instance (s : Stream n) : (a : Act n) → Decidable (s.WrapperOk a)
  | .runPost _ =>
    inferInstanceAs (Decidable (s.nextClose.all (fun c => decide (s.ClosesWrapped c)) = true))
  | .teardownClose c => inferInstanceAs (Decidable (s.ClosesWrapped c))
  | .accept _ | .reportError | .connected _ | .conn _ _ | .swap | .enterPoll | .take _
  | .install _ | .startReading _ | .errorReturn _ | .drainLock _ | .runClose _ | .fnReturn _
  | .join | .clear | .shutdown => isTrue trivial

/-! ## The close callback was executed -/

theorem connStep_workers {b : Conn.Act CloseHandler} (he : s.connStep c b = some s') :
    s'.pool.pool.workers = s.pool.pool.workers := by
  obtain ⟨r, -, rfl⟩ := Option.map_eq_some_iff.1 he
  show (r.2.submits.foldl (fun p cb => p.submit c cb) s.pool).pool.workers = _
  generalize s.pool = p
  induction r.2.submits generalizing p with
  | nil => rfl
  | cons cb cbs ih => rw [List.foldl_cons, ih, SerialPool.submit_workers]

theorem hand_workers (s : Stream n) (cfg : StreamConfig) (c : Nat) (h : Option CloseHandler) :
    (s.hand cfg c h).pool.pool.workers = s.pool.pool.workers := by
  unfold hand
  split
  · exact SerialPool.submitApp_workers _
  · rfl

/-- A callback stays on its worker until it returns. -/
theorem step_executing {w : Fin n} {t : Callback} (he : step cfg s a = some s')
    (ha : a ≠ .fnReturn w) (hw : s.pool.pool.workers w = .running (.fn c t)) :
    s'.pool.pool.workers w = .running (.fn c t) := by
  cases step_cases he with
  | full | swap | enterPoll | erase | runClose | join | clear | shutdown => exact hw
  | accept => rw [hand_workers]; exact hw
  | connected => unfold connected; rw [hand_workers]; exact hw
  | reportError => exact (congrFun (SerialPool.submitApp_workers _) w).trans hw
  | conn d b _ _ _ h => rw [connStep_workers h]; exact hw
  | task ok d t q _ _ _ h => rw [connStep_workers h]; exact hw
  | teardownClose d _ _ _ h => rw [connStep_workers h]; exact hw
  | take w' p hp =>
    exact SerialPool.step_executing (b := StreamJob.begin) (a := .take w') hp (by rintro ⟨⟩) hw
  | errorReturn w' p _ hp =>
    exact SerialPool.step_executing (b := StreamJob.begin) (a := .appStep w' none) hp
      (by rintro ⟨⟩) hw
  | drainLock w' p hp =>
    exact SerialPool.step_executing (b := StreamJob.begin) (a := .drainLock w') hp
      (by rintro ⟨⟩) hw
  | fnReturn w' d t p _ _ hp =>
    exact SerialPool.step_executing (b := StreamJob.begin) (a := .fnReturn w') hp
      (fun e => ha (by cases e; rfl)) hw
  | install w' d s₁ p _ h hp | startReading w' d s₁ p _ h hp =>
    exact SerialPool.step_executing (b := StreamJob.begin) (a := .appStep w' _) hp
      (by rintro ⟨⟩) (by rw [connStep_workers h]; exact hw)

theorem step_entered_some {k : CloseHandler} (he : step cfg s a = some s')
    (hk : s.entered c = some k) : s'.entered c = some k := by
  cases step_table he with
  | same h => rw [h.entered]; exact hk
  | made fd hg hm hf ht hn hc hen => rw [hen]; exact hk
  | connected fd hg hm hf ht hn hc hen => rw [hen]; exact hk
  | erased fd hg hm hf ht hn hc hen => rw [hen]; exact hk
  | cleared hg hm hf ht hn hc hen => rw [hen]; exact hk
  | entered d k' hg hm hf ht hn hc hen =>
    rw [hen, Function.update_of_ne, hk]
    rintro rfl
    rw [hg.2.1] at hk
    cases hk

/-- A close callback that was started has called `on_close_`, or is on a worker. -/
def CloseRan (s : Stream n) (c : Nat) : Prop :=
  .onClose ∈ s.pool.started c →
    (s.entered c).isSome = true ∨ ∃ w, s.pool.pool.workers w = .running (.fn c .onClose)

theorem CloseRan.step (h : s.CloseRan c) (he : step cfg s a = some s') : s'.CloseRan c := by
  intro hst
  have hold : .onClose ∈ s.pool.started c ∨
      ∃ w, s'.pool.pool.workers w = .running (.fn c .onClose) := by
    obtain ⟨-, -, hp | ⟨pa, hp, -⟩⟩ := step_pool he
    · rw [hp] at hst; exact .inl hst
    · exact SerialPool.step_started_cases hp hst
  rcases hold with hst | hw
  · rcases h hst with hen | ⟨w, hw⟩
    · obtain ⟨k, hk⟩ := Option.isSome_iff_exists.1 hen
      exact .inl (by rw [step_entered_some he hk]; rfl)
    · by_cases ha : a = .fnReturn w
      · -- the worker leaves the callback after `on_close_` was called
        subst ha
        obtain ⟨k, hk⟩ : ∃ k, s.entered c = some k := by
          cases step_cases he with
          | fnReturn _ d t p hw' hen =>
            cases hw.symm.trans hw'
            exact Option.isSome_iff_exists.1 (hen rfl)
        exact .inl (by rw [step_entered_some he hk]; rfl)
      · exact .inr ⟨w, step_executing he ha hw⟩
  · exact .inr hw

theorem reach_closeRan {ok : Stream n → Act n → Prop} (h : (machine cfg n).ReachOk ok s) (c : Nat) :
    s.CloseRan c :=
  h.inv (I := fun s => s.CloseRan c) (fun s hs => by rw [hs]; exact nofun)
    fun _ _ _ _ hi _ he => hi.step he

/-- At rest, a close callback that was submitted has called `on_close_`. -/
theorem Quiescent.entered (hq : s.Quiescent) (hc : c < s.made) (hinv : s.pool.QueueInv c)
    (hran : s.CloseRan c) (hs : .onClose ∈ s.pool.submitted c) : (s.entered c).isSome = true := by
  rw [← hinv.fifo, hq.2.2.1 c hc, List.append_nil] at hs
  refine (hran hs).resolve_right ?_
  rintro ⟨w, hw⟩
  have := hq.2.2.2 w
  rw [hw] at this
  cases this

/-! ## The lambda of `arm_listen` -/

/-- The calls of `on_connect_cb` counted for a connection that was made drop when
one returns, and do not change otherwise. -/
theorem step_handlerJobs_made (hacc : s.Accepting) (he : step cfg s a = some s')
    (hc : c < s.made) : s'.handlerJobs c = s.handlerJobs c ∨
      ∃ w, a = .install w ∧ s.pool.pool.workers w = .running (.app (.onConnect c)) := by
  obtain ⟨-, -, hp | ⟨pa, hp, hpa, ha⟩⟩ := step_pool he
  · exact .inl (by rw [handlerJobs, hp]; rfl)
  · rcases SerialPool.step_appJobs (f := StreamJob.connects c) (g := StreamExec.inHandler c)
      (fun x => by cases x <;> rfl) (ha hacc.accepts) hp with
      ⟨x, rfl, e⟩ | ⟨w, y, y', rfl, hw, e⟩ | e
    · refine .inl (e.trans ?_)
      cases x with
      | onConnect d =>
        obtain ⟨-, rfl, -⟩ := hpa
        rw [StreamJob.connects, if_neg (by omega)]
        rfl
      | onError => rfl
    · rcases hpa with ⟨d, hw', rfl, rfl⟩ | ⟨d, hw', rfl, -⟩ | ⟨hw', rfl⟩
      · rw [hw] at hw'
        cases hw'
        by_cases hd : d = c
        · subst hd; exact .inr ⟨w, rfl, hw⟩
        · rw [StreamExec.inHandler, if_neg hd] at e; exact .inl e
      · rw [hw] at hw'
        cases hw'
        exact .inl e
      · rw [hw] at hw'
        cases hw'
        exact .inl e
    · exact .inl e

/-- A connection just made has its lambda, or a call of `on_connect_cb` is queued. -/
theorem step_made_wrapped (hmode : cfg.mode = .listen) (hw : Wf cfg s) (hacc : s.Accepting)
    (he : step cfg s a = some s') (hm : s'.made = s.made + 1) :
    s'.Wrapped s.made ↔ s'.handlerJobs s.made = 0 := by
  have hzero : s.handlerJobs s.made = 0 :=
    Nat.eq_zero_of_not_pos fun hj => Nat.lt_irrefl _ (hw.handlerJobs_lt hj)
  cases step_table he with
  | same h => have := h.made; omega
  | connected fd hg => rw [hmode] at hg; cases hg.1
  | erased fd hg hm' => omega
  | entered d k hg hm' => omega
  | cleared hg hm' => omega
  | made fd hg =>
    obtain ⟨rfl, -, hrun, -⟩ := hg
    cases step_cases he with
    | full => exact absurd hm (Nat.succ_ne_self _).symm
    | accept =>
      unfold hand
      cases hcb : cfg.connectCb with
      | false =>
        exact iff_of_true (by simp [Wrapped, CloseHandler.isWrapper]) hzero
      | true =>
        have hacc' := hacc.accepts (by rw [hrun]; rintro ⟨⟩)
        refine iff_of_false ?_ ?_
        · simp [Wrapped, (hw.fresh s.made (Nat.le_refl _)).1, Conn.start]
        · have hjobs := ThreadPool.jobs_submit (f := Job.appWeight (StreamJob.connects s.made))
            (g := Exec.appWeight (StreamExec.inHandler s.made)) hacc' (.app (.onConnect s.made))
          have hone : Job.appWeight (κ := Nat) (StreamJob.connects s.made)
            (.app (.onConnect s.made)) = 1 := by simp [Job.appWeight, StreamJob.connects]
          rw [hone] at hjobs
          exact fun h => Nat.succ_ne_zero _ (hjobs.symm.trans h)

/-- What the lambda of `arm_listen` has done for `c`, and what a close found. -/
structure CloseInv (s : Stream n) (c : Nat) : Prop where
  wrapped : c < s.made → (s.Wrapped c ↔ s.handlerJobs c = 0)
  reading : 0 < s.handlerJobs c → (s.impls c).reading = false
  closed : (s.impls c).closed = true → s.Wrapped c ∧ .onClose ∈ s.pool.submitted c
  entered : ∀ k, s.entered c = some k → k.isWrapper = true

theorem start_closeInv (cfg : StreamConfig) (n c : Nat) : (start cfg n).CloseInv c :=
  ⟨fun h => absurd h (Nat.not_lt_zero _), fun _ => rfl, nofun, nofun⟩

theorem step_made_le (he : step cfg s a = some s') : s'.made = s.made ∨ s'.made = s.made + 1 := by
  cases step_table he with
  | same h => exact .inl h.made
  | made fd hg hm => exact .inr hm
  | connected fd hg hm => exact .inr hm
  | erased fd hg hm => exact .inl hm
  | entered d k hg hm => exact .inl hm
  | cleared hg hm => exact .inl hm

/-- `install` puts the lambda in place. -/
theorem step_install_wrapped {w : Fin n}
    (hrun : s.pool.pool.workers w = .running (.app (.onConnect c)))
    (he : step cfg s (.install w) = some s') : s'.Wrapped c := by
  simp only [step, hrun] at he
  obtain ⟨s₁, h₁, he⟩ := Option.bind_eq_some_iff.1 he
  obtain ⟨p, -, rfl⟩ := Option.map_eq_some_iff.1 he
  obtain ⟨r, hr, rfl⟩ := Option.map_eq_some_iff.1 h₁
  obtain ⟨-, -, ⟨h, -⟩ | ⟨k, hk, e, -⟩ | ⟨h, -⟩⟩ :=
    Conn.step_setup (a := .setOnClose _) trivial hr
  · cases h
  · cases hk
    simp [Wrapped, e, CloseHandler.isWrapper]
  · cases h

theorem CloseInv.step_wrapped (h : s.CloseInv c) (hmode : cfg.mode = .listen) (hw : Wf cfg s)
    (hw' : Wf cfg s') (hacc : s.Accepting) (he : step cfg s a = some s') (hc : c < s'.made) :
    s'.Wrapped c ↔ s'.handlerJobs c = 0 := by
  have hinstall {w : Fin n} (ha : a = .install w)
      (hrun : s.pool.pool.workers w = .running (.app (.onConnect c))) :
      s'.Wrapped c ↔ s'.handlerJobs c = 0 := by
    subst ha
    exact iff_of_true (step_install_wrapped hrun he)
      (Nat.eq_zero_of_not_pos (hw'.handlerJobs_installed (step_install hrun he)))
  by_cases hlt : c < s.made
  · rcases step_handlerJobs_made hacc he hlt with ej | ⟨w, ha, hrun⟩
    · rcases step_onClose he c with e | ⟨hin, ⟨-, hk⟩ | ⟨⟨w, ha, hrun⟩, -⟩⟩ | ⟨-, hc', -⟩
      · rw [Wrapped, e, ej]; exact h.wrapped hlt
      · -- the user's `on_close`, set while `on_connect_cb` runs
        have hj := handlerJobs_of_inHandler hin
        rw [Wrapped, ej]
        exact iff_of_false (by rcases hk with e | e <;> rw [e] <;> nofun) (by omega)
      · exact hinstall ha hrun
      · omega
    · exact hinstall ha hrun
  · have hm : s'.made = s.made + 1 := by have := step_made_le he; omega
    obtain rfl : c = s.made := by omega
    exact step_made_wrapped hmode hw hacc he hm

theorem CloseInv.step_reading (h : s.CloseInv c) (hw : Wf cfg s) (hacc : s.Accepting)
    (he : step cfg s a = some s') (hj' : 0 < s'.handlerJobs c) : (s'.impls c).reading = false := by
  have hold := handlerJobs_before hacc he hj'
  have hbase : (s.impls c).reading = false := by
    rcases hold with hj | ⟨-, hc⟩
    · exact h.reading hj
    · rw [(hw.fresh c (Nat.le_of_eq hc.symm)).1]; rfl
  cases step_view he c with
  | same hi => rw [hi]; exact hbase
  | silent k _ hncb hc =>
    rcases hold with hj | ⟨hcb, -⟩
    · exact absurd (hw.handlerJobs_lt hj) (by omega)
    · rw [hncb] at hcb; cases hcb
  | step b o hb he' =>
    have hlt := hw.permits_lt hb
    have hj := hold.resolve_right fun hc => by omega
    by_cases hset : b.Setup
    · obtain ⟨-, -, ⟨-, e, -⟩ | ⟨_, -, e, -⟩ | ⟨rfl, -⟩⟩ := Conn.step_setup hset he'
      · rw [e]; exact hbase
      · rw [e]; exact hbase
      · -- the one lambda of `c` is past `on_connect_cb`
        obtain ⟨w, -, hrun⟩ := hb
        exact absurd hj (hw.handlerJobs_installed hrun)
    · exact (Conn.step_spec hset he').2.2.2.trans hbase

/-- What can close a connection finds the lambda in place. -/
theorem CloseInv.closes (h : s.CloseInv c) (hw : Wf cfg s) (hcb : s.CbInv c)
    (hdr : (s.impls c).DrainReg) (hok : s.WrapperOk a) {b : Conn.Act CloseHandler}
    (hb : s.Permits a c b) (hk : (s.impls c).Closes b) (ho : (s.impls c).closed = false) :
    s.Wrapped c := by
  -- events reach a registered connection, and that is one past `on_connect_cb`
  have hreg (hi : (s.impls c).interest.isSome = true) : s.Wrapped c := by
    refine (h.wrapped (hw.permits_lt hb)).2 (Nat.eq_zero_of_not_pos fun hj => ?_)
    have := hcb.registered hi
    rw [h.reading hj] at this
    cases this
  rcases hk with hi | hd | ⟨ok, rfl⟩ | rfl
  · exact hreg hi
  · refine hreg ((hdr hd).resolve_right fun hc => ?_)
    rw [ho] at hc
    cases hc
  · obtain ⟨rfl, -, q, hn⟩ := hb
    have hnext : s.nextClose = some c := by rw [nextClose, hn]
    rw [WrapperOk, hnext] at hok
    exact of_decide_eq_true hok ho
  · obtain ⟨rfl, -⟩ := hb
    exact hok ho

/-- The lambda is never replaced. -/
theorem CloseInv.wrapped_step (h : s.CloseInv c) (hc : c < s.made) (he : step cfg s a = some s')
    (hwr : s.Wrapped c) : s'.Wrapped c := by
  rcases step_onClose he c with e | ⟨hin, -⟩ | ⟨-, hc', -⟩
  · rw [Wrapped, e]; exact hwr
  · have hj := handlerJobs_of_inHandler hin
    have hz := (h.wrapped hc).1 hwr
    omega
  · omega

theorem Wf.closed_lt (h : Wf cfg s) (hc : (s.impls c).closed = true) : c < s.made := by
  refine Nat.lt_of_not_le fun hle => ?_
  rw [(h.fresh c hle).1] at hc
  cases hc

theorem CloseInv.step_closed (h : s.CloseInv c) (hw : Wf cfg s) (hcb : s.CbInv c)
    (hdr : (s.impls c).DrainReg) (hok : s.WrapperOk a) (he : step cfg s a = some s')
    (hc : (s'.impls c).closed = true) : s'.Wrapped c ∧ .onClose ∈ s'.pool.submitted c := by
  -- `c` was closed before, or this step closes it
  have hbefore : s.Wrapped c ∧ c < s.made ∧ .onClose ∈ s'.pool.submitted c := by
    cases step_view he c with
    | same hi hs =>
      rw [hi] at hc
      rw [hs]
      exact ⟨(h.closed hc).1, hw.closed_lt hc, (h.closed hc).2⟩
    | silent k _ _ hc' _ hi =>
      rw [hi] at hc
      have := hw.closed_lt hc
      omega
    | step b o hb he' hs =>
      have hlt := hw.permits_lt hb
      cases ho : (s.impls c).closed with
      | true =>
        exact ⟨(h.closed ho).1, hlt, by rw [hs]; exact List.mem_append_left _ (h.closed ho).2⟩
      | false =>
        by_cases hset : b.Setup
        · obtain ⟨-, -, ⟨-, e, -⟩ | ⟨_, -, e, -⟩ | ⟨-, e, -⟩⟩ := Conn.step_setup hset he'
          all_goals rw [e] at hc; cases ho.symm.trans hc
        · obtain ⟨heff, -⟩ := Conn.step_spec hset he'
          generalize o.submits = cbs at heff hs
          cases heff with
          | quiet hc' => cases ho.symm.trans (hc'.symm.trans hc)
          | data _ _ _ hc' => cases hc'.symm.trans hc
          | closing hk =>
            have hwr := h.closes hw hcb hdr hok hb hk ho
            have hset : (s.impls c).onClose.isSome = true := by
              obtain ⟨k, hk, -⟩ := (Option.any_eq_true _ _).1 hwr
              rw [hk]
              rfl
            exact ⟨hwr, hlt, by rw [hs, if_pos hset]; simp⟩
  exact ⟨h.wrapped_step hbefore.2.1 he hbefore.1, hbefore.2.2⟩

theorem CloseInv.step_entered (h : s.CloseInv c) (hcb : s.CbInv c) (hq : s.pool.QueueInv c)
    (hlast : s.pool.LastStarted c) (he : step cfg s a = some s') {k : CloseHandler}
    (hk : s'.entered c = some k) : k.isWrapper = true := by
  rcases Stream.step_entered he c with e | ⟨⟨w, hrun⟩, e⟩
  · exact h.entered k (e ▸ hk)
  · have hst := List.mem_of_getLast? (hlast w _ hrun)
    have hwr := (h.closed (closed_of_started hcb hq hst)).1
    rw [Wrapped, ← e, hk] at hwr
    exact hwr

theorem reach_closeInv (hmode : cfg.mode = .listen) (h : (machine cfg n).ReachOk WrapperOk s)
    (c : Nat) : s.CloseInv c := by
  refine h.inv (fun _ hs => hs ▸ start_closeInv cfg n c) fun s a s' hr hi hok he => ?_
  have hw := reach_wf hr
  have hacc := reach_accepting hr
  have hcb := reach_cbInv hr c
  exact ⟨hi.step_wrapped hmode hw (reach_wf (hr.step hok he)) hacc he, hi.step_reading hw hacc he,
    hi.step_closed hw hcb (reach_drainReg hr c) hok he,
    fun _ => hi.step_entered hcb (reach_queue hr c) (reach_lastStarted hr c) he⟩

/-! ## The table and its counter -/

/-- How many connections have posted their erase. -/
def posted (s : Stream n) : Nat := (List.range s.made).countP s.hasPosted

/-- Every posted erase of an entry is still on its way, and the counter counts
the connections made less the erases that have run, modulo `2^64`. -/
structure EraseInv (s : Stream n) : Prop where
  entries : ∀ fd e, s.connections.lookup fd = some e → s.hasPosted e.impl = true → fd ∈ s.erases
  count : s.Live → (s.connectionCount + s.posted) % 2 ^ 64 = (s.made + s.erases.length) % 2 ^ 64
  bound : s.connectionCount < 2 ^ 64
  dropped : ¬ s.Live → s.connectionCount = 0
  distinct : ∀ c d, c < s.made → d < s.made → (s.impls c).closed = false →
    (s.impls d).closed = false → s.fds c = s.fds d → c = d

theorem start_eraseInv (cfg : StreamConfig) (n : Nat) : (start cfg n).EraseInv :=
  ⟨nofun, fun _ => rfl, Nat.two_pow_pos 64, fun _ => rfl,
    fun _ _ h => absurd h (Nat.not_lt_zero _)⟩

theorem EraseInv.step_distinct (h : s.EraseInv) (hmode : cfg.mode = .listen)
    (he : step cfg s a = some s') {c d : Nat} (hc : c < s'.made) (hd : d < s'.made)
    (hoc : (s'.impls c).closed = false) (hod : (s'.impls d).closed = false)
    (e : s'.fds c = s'.fds d) : c = d := by
  have hopen {d : Nat} (hod : (s'.impls d).closed = false) : (s.impls d).closed = false := by
    cases ho : (s.impls d).closed with
    | false => rfl
    | true => rw [Stream.step_closed he ho] at hod; cases hod
  have hsame (hm : s'.made = s.made) (hf : s'.fds = s.fds) : c = d := by
    rw [hm] at hc hd
    rw [hf] at e
    exact h.distinct c d hc hd (hopen hoc) (hopen hod) e
  cases step_table he with
  | same h' => exact hsame h'.made h'.fds
  | connected fd hg => rw [hmode] at hg; cases hg.1
  | erased fd hg hm hf => exact hsame hm hf
  | entered c k hg hm hf => exact hsame hm hf
  | cleared hg hm hf => exact hsame hm hf
  | made fd hg hm hf =>
    -- the kernel returns no descriptor of an open connection
    have hfree := hg.2.2.2.1
    rw [hf] at e
    rcases Nat.lt_succ_iff_lt_or_eq.1 (hm ▸ hc) with hc' | rfl
    · rw [Function.update_of_ne (Nat.ne_of_lt hc')] at e
      rcases Nat.lt_succ_iff_lt_or_eq.1 (hm ▸ hd) with hd' | rfl
      · rw [Function.update_of_ne (Nat.ne_of_lt hd')] at e
        exact h.distinct c d hc' hd' (hopen hoc) (hopen hod) e
      · rw [Function.update_self] at e
        exact absurd e (hfree c hc' (hopen hoc))
    · rw [Function.update_self] at e
      rcases Nat.lt_succ_iff_lt_or_eq.1 (hm ▸ hd) with hd' | rfl
      · rw [Function.update_of_ne (Nat.ne_of_lt hd')] at e
        exact absurd e.symm (hfree d hd' (hopen hod))
      · rfl

theorem EraseInv.step_entries (h : s.EraseInv) (hmode : cfg.mode = .listen) (hw : Wf cfg s)
    (hpc : s.PostedClosed) (he : step cfg s a = some s') {fd : Fd} {e : ConnEntry}
    (hl : s'.connections.lookup fd = some e) (hp' : s'.hasPosted e.impl = true) :
    fd ∈ s'.erases := by
  have hposted (hen : s'.entered = s.entered) : s.hasPosted e.impl = true := by
    rw [hasPosted, hen] at hp'; exact hp'
  cases step_table he with
  | same h' =>
    rw [h'.erases]
    exact h.entries fd e (h'.connections ▸ hl) (hposted h'.entered)
  | connected fd hg => rw [hmode] at hg; cases hg.1
  | cleared hg hm hf ht => rw [ht] at hl; cases hl
  | made fd' hg hm hf ht hn hc hen hp =>
    rw [ht] at hl
    rw [hp]
    by_cases hfd : fd = fd'
    · -- the new connection has posted nothing
      subst hfd
      rw [AList.lookup_insert, Option.some.injEq] at hl
      subst hl
      exact absurd (hpc _ (hposted hen)).1 (Nat.lt_irrefl _)
    · rw [AList.lookup_insert_ne hfd] at hl
      exact h.entries fd e hl (hposted hen)
  | erased fd' hg hm hf ht hn hc hen hp =>
    rw [ht] at hl
    by_cases hfd : fd = fd'
    · rw [hfd, AList.lookup_erase] at hl; cases hl
    · rw [AList.lookup_erase_ne hfd] at hl
      have hmem := h.entries fd e hl (hposted hen)
      rw [hp] at hmem
      exact (List.mem_cons.1 hmem).resolve_left hfd
  | entered d k hg hm hf ht hn hc hen hp =>
    rw [ht] at hl
    rw [hp]
    by_cases hd : e.impl = d
    · subst hd
      have hk : k.isWrapper = true := by rw [hasPosted, hen, Function.update_self] at hp'; exact hp'
      rw [if_pos ⟨hk, hmode⟩, (hw.table fd e hl).2]
      simp
    · rw [hasPosted, hen, Function.update_of_ne hd] at hp'
      exact List.mem_append_left _ (h.entries fd e hl hp')

theorem EraseInv.step_count (h : s.EraseInv) (hmode : cfg.mode = .listen) (hpc : s.PostedClosed)
    (hlt : ∀ c, (∃ w, s.pool.pool.workers w = .running (.fn c .onClose)) → c < s.made)
    (he : step cfg s a = some s') (hlive : s'.Live) :
    (s'.connectionCount + s'.posted) % 2 ^ 64 = (s'.made + s'.erases.length) % 2 ^ 64 := by
  have hsame (hen : s'.entered = s.entered) : s'.hasPosted = s.hasPosted := by
    funext c
    rw [hasPosted, hen]
    rfl
  have hposted (hm : s'.made = s.made) (hen : s'.entered = s.entered) : s'.posted = s.posted := by
    rw [posted, hm, hsame hen]
    rfl
  cases step_table he with
  | same h' =>
    rw [h'.count, hposted h'.made h'.entered, h'.made, h'.erases]
    exact h.count (h'.live.1 hlive)
  | connected fd hg => rw [hmode] at hg; cases hg.1
  | cleared hg hm hf ht hn hc hen hp hl => exact absurd hlive hl
  | made fd hg hm hf ht hn hc hen hp hl =>
    have hnew : s.hasPosted s.made = false := by
      cases hk : s.hasPosted s.made with
      | false => rfl
      | true => exact absurd (hpc _ hk).1 (Nat.lt_irrefl _)
    have hcnt : s'.posted = s.posted := by
      rw [posted, hm, hsame hen, List.range_succ, List.countP_append]
      simp [posted, hnew]
    have := h.count (hl.1 hlive)
    rw [hn, hcnt, hm, hp]
    unfold sizeAdd
    omega
  | erased fd hg hm hf ht hn hc hen hp hl =>
    have := h.count hg
    have hb := h.bound
    rw [hp, List.length_cons] at this
    rw [hn, hposted hm hen, hm]
    unfold sizeSub
    omega
  | entered d k hg hm hf ht hn hc hen hp hl =>
    have hd := hlt d hg.1
    have := h.count (hl.1 hlive)
    rw [hn, hm, hp, List.length_append]
    have hbefore : s.hasPosted d = false := by rw [hasPosted, hg.2.1]; rfl
    have hself : s'.hasPosted d = k.isWrapper := by rw [hasPosted, hen, Function.update_self]; rfl
    have hother : ∀ c, c ≠ d → s'.hasPosted c = s.hasPosted c := fun c hc => by
      rw [hasPosted, hen, Function.update_of_ne hc]; rfl
    cases hk : k.isWrapper with
    | true =>
      have hcnt : s'.posted = s.posted + 1 := by
        rw [posted, hm]
        exact Cells.countP_of_flip List.nodup_range (List.mem_range.2 hd) hbefore
          (hself.trans hk) hother
      rw [hcnt, if_pos ⟨rfl, hmode⟩, List.length_singleton]
      omega
    | false =>
      have hsame' : s'.hasPosted = s.hasPosted := by
        funext c
        by_cases hc : c = d
        · rw [hc, hself, hk, hbefore]
        · exact hother c hc
      rw [posted, hm, hsame', if_neg (by simp)]
      exact this

theorem EraseInv.step_bound (h : s.EraseInv) (he : step cfg s a = some s') :
    s'.connectionCount < 2 ^ 64 := by
  cases step_table he with
  | same h' => rw [h'.count]; exact h.bound
  | made fd hg hm hf ht hn => rw [hn]; exact Nat.mod_lt _ (Nat.two_pow_pos 64)
  | connected fd hg hm hf ht hn => rw [hn]; exact h.bound
  | erased fd hg hm hf ht hn => rw [hn]; exact Nat.mod_lt _ (Nat.two_pow_pos 64)
  | entered d k hg hm hf ht hn => rw [hn]; exact h.bound
  | cleared hg hm hf ht hn => rw [hn]; exact Nat.two_pow_pos 64

theorem EraseInv.step_dropped (h : s.EraseInv) (he : step cfg s a = some s') (hl' : ¬ s'.Live) :
    s'.connectionCount = 0 := by
  cases step_table he with
  | same h' => rw [h'.count]; exact h.dropped (mt h'.live.2 hl')
  | made fd hg hm hf ht hn hc hen hp hl => exact absurd (hl.2 (.inl hg.2.2.1)) hl'
  | connected fd hg hm hf ht hn hc hen hp hl => exact absurd (hl.2 (.inl hg.2.1)) hl'
  | erased fd hg hm hf ht hn hc hen hp hl => exact absurd (hl.2 hg) hl'
  | entered d k hg hm hf ht hn hc hen hp hl => rw [hn]; exact h.dropped (mt hl.2 hl')
  | cleared hg hm hf ht hn => exact hn

theorem reach_eraseInv {ok : Stream n → Act n → Prop} (hmode : cfg.mode = .listen)
    (h : (machine cfg n).ReachOk ok s) : s.EraseInv := by
  refine h.inv (fun _ hs => hs ▸ start_eraseInv cfg n) fun s a s' hr hi hok he => ?_
  have hw := reach_wf hr
  have hpc := reach_postedClosed hr
  have hlt (c : Nat) (hc : ∃ w, s.pool.pool.workers w = .running (.fn c .onClose)) :
      c < s.made := by
    obtain ⟨w, hrun⟩ := hc
    exact hw.started_lt (reach_queue hr c) (List.mem_of_getLast? (reach_lastStarted hr c w _ hrun))
  exact ⟨fun _ _ => hi.step_entries hmode hw hpc he, hi.step_count hmode hpc hlt he,
    hi.step_bound he, hi.step_dropped he, fun _ _ => hi.step_distinct hmode he⟩

/-- Open connections have descriptors of their own, so there are fewer than `2^64`. -/
theorem EraseInv.openConns_le (h : s.EraseInv) : s.openConns.length ≤ 2 ^ 31 := by
  have hnodup : (s.openConns.map s.fds).Nodup := by
    refine (List.nodup_map_iff_inj_on (List.nodup_range.filter _)).2 fun c hc d hd e => ?_
    obtain ⟨h1, h2⟩ := List.mem_filter.1 hc
    obtain ⟨h3, h4⟩ := List.mem_filter.1 hd
    exact h.distinct c d (List.mem_range.1 h1) (List.mem_range.1 h3) (by simpa using h2)
      (by simpa using h4) e
  have := hnodup.length_le_card
  rwa [Fintype.card_fin, List.length_map] at this

/-! ## At rest -/

/-- At rest the closed connections are those that have posted their erase. -/
theorem Quiescent.posted_iff (hq : s.Quiescent) (hmode : cfg.mode = .listen)
    (h : (machine cfg n).ReachOk WrapperOk s) (hc : c < s.made) :
    s.hasPosted c = (s.impls c).closed := by
  cases hcl : (s.impls c).closed with
  | false =>
    cases hp : s.hasPosted c with
    | false => rfl
    | true => rw [(reach_postedClosed h c hp).2] at hcl; cases hcl
  | true =>
    have hinv := reach_closeInv hmode h c
    have hen := hq.entered hc (reach_queue h c) (reach_closeRan h c) (hinv.closed hcl).2
    obtain ⟨k, hk⟩ := Option.isSome_iff_exists.1 hen
    rw [hasPosted, hk]
    exact hinv.entered k hk

theorem Quiescent.erases_nil (hq : s.Quiescent) : s.erases = [] := by rw [erases, hq.1]; rfl

/-- **Closed connections leave the table.** In every run of a listening stream in
which each `initiate_close` finds the lambda of `arm_listen` in place: at rest
every entry belongs to an open connection, and `connection_count` is the number
of open connections (`0` once `do_destroy` has dropped the table). -/
theorem closed_connections_leave (hmode : cfg.mode = .listen)
    (h : (machine cfg n).ReachOk WrapperOk s) (hq : s.Quiescent) :
    (∀ fd e, s.connections.lookup fd = some e → (s.impls e.impl).closed = false) ∧
    s.connectionCount ≤ s.openConns.length ∧
    (s.Live → s.connectionCount = s.openConns.length) := by
  have hinv := reach_eraseInv hmode h
  have hcount : s.Live → s.connectionCount = s.openConns.length := by
    intro hlive
    have hsplit : s.posted + s.openConns.length = s.made := by
      have hp : s.posted = (List.range s.made).countP fun c => (s.impls c).closed :=
        List.countP_congr fun c hc => by rw [hq.posted_iff hmode h (List.mem_range.1 hc)]
      have hlen := List.length_eq_countP_add_countP (l := List.range s.made)
        fun c => (s.impls c).closed
      rw [List.length_range] at hlen
      rw [hp, openConns, ← List.countP_eq_length_filter]
      simpa using hlen.symm
    have hmod := hinv.count hlive
    have hb := hinv.bound
    have hle := hinv.openConns_le
    rw [hq.erases_nil, List.length_nil] at hmod
    omega
  refine ⟨fun fd e hl => ?_, ?_, hcount⟩
  · cases hcl : (s.impls e.impl).closed with
    | false => rfl
    | true =>
      have hp := (hq.posted_iff hmode h ((reach_wf h).table fd e hl).1).trans hcl
      have := hinv.entries fd e hl hp
      rw [hq.erases_nil] at this
      cases this
  · by_cases hlive : s.Live
    · exact Nat.le_of_eq (hcount hlive)
    · rw [hinv.dropped hlive]; exact Nat.zero_le _

/-- One connection was closed and erased, another is open; the stream is at rest. -/
theorem closed_connections_leave_one_open :
    ∃ s : Stream 1, (machine ⟨.listen, 2, true, 8, 4⟩ 1).ReachOk WrapperOk s ∧
      (s.Quiescent ∧ s.made = 2 ∧ (s.impls 0).closed = true ∧ (s.impls 1).closed = false) ∧
      s.connectionCount ≤ s.openConns.length := by
  obtain ⟨s, h, hp⟩ := Machine.ReachOk.of_runOk_init (M := machine ⟨.listen, 2, true, 8, 4⟩ 1)
    WrapperOk
    (fun s => decide (s.Quiescent ∧ s.made = 2 ∧ (s.impls 0).closed = true ∧
      (s.impls 1).closed = false))
    [.accept 5, .take 0, .install 0, .startReading 0, .swap, .runPost true, .enterPoll,
      .accept 6, .conn 0 (.call .close), .conn 0 (.advance 0), .take 0, .install 0,
      .startReading 0, .swap, .runPost true, .runPost true, .take 0, .drainLock 0, .runClose 0,
      .fnReturn 0, .drainLock 0, .enterPoll, .swap, .runPost true]
    rfl (by decide)
  have hq := of_decide_eq_true hp
  exact ⟨s, h, hq, (closed_connections_leave rfl h hq.1).2.1⟩

/-- A connection closed from inside `on_connect`: the posted `initiate_close` runs
before the lambda is installed and finds no `on_close_`. At rest the closed
connection is still in the table and holds the only slot. -/
theorem closed_connection_stays :
    ∃ s : Stream 1, (machine ⟨.listen, 1, true, 8, 4⟩ 1).Reach s ∧ s.Quiescent ∧
      (∃ e, s.connections.lookup 5 = some e ∧ (s.impls e.impl).closed = true) ∧
      s.connectionCount = 1 ∧ s.openConns = [] := by
  obtain ⟨s, h, hp⟩ := Machine.Reach.of_run_init (M := machine ⟨.listen, 1, true, 8, 4⟩ 1)
    (fun s => decide (s.Quiescent ∧ (s.connections.lookup 5 = some ⟨0, true⟩ ∧
      (s.impls 0).closed = true) ∧ s.connectionCount = 1 ∧ s.openConns = []))
    [.accept 5, .take 0, .conn 0 (.call .close), .conn 0 (.advance 0), .swap, .runPost true,
      .install 0, .startReading 0, .enterPoll, .swap, .runPost true]
    rfl (by decide)
  obtain ⟨h1, ⟨h2, h3⟩, h4⟩ := of_decide_eq_true hp
  exact ⟨s, h, h1, ⟨_, h2, h3⟩, h4⟩

end Stream

end Socketpp
