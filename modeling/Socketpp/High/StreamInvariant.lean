import Socketpp.High.StreamCallbacks

/-!
# What holds in every state of a stream

Every connection has at most one `on_connect` lambda in the pool
(`lambdaJobs`), numbers not given out yet are untouched, the table's entries
are under their own descriptors, and `on_close_` was entered only by a close
callback that was executed. None of this depends on how the stream is used.
-/

namespace Socketpp

/-- A queued lambda that will call `on_connect_cb` for `c` (`0` or `1`). -/
def StreamJob.connects (c : Nat) : StreamJob → Nat
  | .onConnect c' => if c' = c then 1 else 0
  | .onError => 0

/-- A worker is in `on_connect_cb` for `c`. -/
def StreamExec.inHandler (c : Nat) : StreamExec → Nat
  | .onConnect c' => if c' = c then 1 else 0
  | _ => 0

/-- A worker is in the lambda of `c`, before or after `on_connect_cb` returned. -/
def StreamExec.inLambda (c : Nat) : StreamExec → Nat
  | .onConnect c' | .installed c' => if c' = c then 1 else 0
  | .onError => 0

namespace Stream

variable {n : Nat} {cfg : StreamConfig} {s s' : Stream n} {a : Act n}

/-- The calls of `on_connect_cb` for `c`, queued or being executed. -/
def handlerJobs (s : Stream n) (c : Nat) : Nat :=
  s.pool.pool.appJobs (StreamJob.connects c) (StreamExec.inHandler c)

/-- The lambdas of `c` that hold its wrapper, queued or running. -/
def lambdaJobs (s : Stream n) (c : Nat) : Nat :=
  s.pool.pool.appJobs (StreamJob.connects c) (StreamExec.inLambda c)

/-- Lambdas appear when a connection is made, and never otherwise. -/
theorem step_connectJobs {g : StreamExec → Nat} {c : Nat} (hacc : s.Accepting)
    (hg : ∀ x : StreamJob, g x.begin = x.connects c) (hi : ∀ d, g (.installed d) ≤ g (.onConnect d))
    (he : step cfg s a = some s') :
    s'.pool.pool.appJobs (StreamJob.connects c) g ≤ s.pool.pool.appJobs (StreamJob.connects c) g ∨
    cfg.connectCb = true ∧ c = s.made ∧ s'.made = s.made + 1 ∧
      s'.pool.pool.appJobs (StreamJob.connects c) g =
        s.pool.pool.appJobs (StreamJob.connects c) g + 1 := by
  obtain ⟨-, -, hp | ⟨pa, hp, hpa, ha⟩⟩ := step_pool he
  · exact .inl (by rw [hp])
  · rcases SerialPool.step_appJobs hg (ha hacc.accepts) hp with
      ⟨x, rfl, e⟩ | ⟨w, y, y', rfl, hw, e⟩ | e
    · cases x with
      | onConnect d =>
        obtain ⟨hcb, rfl, hm⟩ := hpa
        by_cases hc : s.made = c
        · subst hc
          exact .inr ⟨hcb, rfl, hm, by simpa [StreamJob.connects] using e⟩
        · exact .inl (by simp [StreamJob.connects, hc] at e; omega)
      | onError => exact .inl (by simp [StreamJob.connects] at e; omega)
    · refine .inl ?_
      rcases hpa with ⟨d, hw', rfl, -⟩ | ⟨d, hw', rfl, -⟩ | ⟨hw', rfl⟩
      · rw [hw] at hw'
        cases hw'
        have := hi d
        simp only [Option.elim] at e
        omega
      · simp only [Option.elim] at e; omega
      · simp only [Option.elim] at e; omega
    · exact .inl (Nat.le_of_eq e)

theorem step_lambdaJobs (hacc : s.Accepting) (he : step cfg s a = some s') (c : Nat) :
    s'.lambdaJobs c ≤ s.lambdaJobs c ∨
    cfg.connectCb = true ∧ c = s.made ∧ s'.made = s.made + 1 ∧
      s'.lambdaJobs c = s.lambdaJobs c + 1 :=
  step_connectJobs hacc (fun x => by cases x <;> rfl) (fun _ => Nat.le_refl _) he

theorem step_handlerJobs (hacc : s.Accepting) (he : step cfg s a = some s') (c : Nat) :
    s'.handlerJobs c ≤ s.handlerJobs c ∨
    cfg.connectCb = true ∧ c = s.made ∧ s'.made = s.made + 1 ∧
      s'.handlerJobs c = s.handlerJobs c + 1 :=
  step_connectJobs hacc (fun x => by cases x <;> rfl) (fun _ => Nat.zero_le _) he

structure Wf (cfg : StreamConfig) (s : Stream n) : Prop where
  lambda : ∀ c, s.lambdaJobs c ≤ if c < s.made then 1 else 0
  fresh : ∀ c, s.made ≤ c → s.impls c = .start cfg.maxWriteBuf cfg.readBufSize ∧
    s.pool.submitted c = [] ∧ ∀ t, .conn c t ∉ s.posts.pending
  table : ∀ fd e, s.connections.lookup fd = some e → e.impl < s.made ∧ s.fds e.impl = fd
  client : ∀ e, s.client = some e → e.impl < s.made
  entered : ∀ c h, s.entered c = some h → .onClose ∈ s.pool.started c

theorem start_wf (cfg : StreamConfig) (n : Nat) : Wf cfg (start cfg n) := by
  refine ⟨fun c => ?_, fun c _ => ⟨rfl, rfl, fun _ h => List.not_mem_nil h⟩, nofun, nofun, nofun⟩
  simp [lambdaJobs, ThreadPool.appJobs, start, SerialPool.start]

/-- A lambda on a worker is one of a connection that was made. -/
theorem Wf.lambda_lt (h : Wf cfg s) {c : Nat} {w : Fin n} {y : StreamExec}
    (hw : s.pool.pool.workers w = .running (.app y)) (hy : y.inLambda c = 1) : c < s.made := by
  have hle : y.inLambda c ≤ s.lambdaJobs c := ThreadPool.weight_le_appJobs hw _ _
  have := h.lambda c
  split at this
  · assumption
  · omega

theorem Wf.inHandler_lt (h : Wf cfg s) {c : Nat} (hc : s.InHandler c) : c < s.made := by
  obtain ⟨w, hw⟩ := hc
  exact h.lambda_lt hw (by simp [StreamExec.inLambda])

theorem owner_eq_some {s : Stream n} {c : Nat} {e : ConnEntry} (h : s.owner c = some e) :
    e.impl = c ∧ (s.connections.lookup (s.fds c) = some e ∨ s.client = some e) := by
  unfold owner at h
  rw [Option.filter_eq_some_iff] at h
  obtain ⟨h, hc⟩ := h
  refine ⟨by simpa using hc, ?_⟩
  cases hl : s.connections.lookup (s.fds c) with
  | none => rw [hl] at h; exact .inr h
  | some e' => rw [hl] at h; exact .inl h

/-- Only a connection that was made takes steps. -/
theorem Wf.permits_lt (h : Wf cfg s) {c : Nat} {b : Conn.Act CloseHandler}
    (hb : s.Permits a c b) : c < s.made := by
  cases b with
  | call _ => exact hb.2
  | advance _ => exact hb
  | event _ _ => exact hb.1
  | drainLock => exact hb.1
  | drainSend _ => exact hb.1
  | setOnData => exact h.inHandler_lt hb
  | setOnClose _ => exact h.inHandler_lt hb.1
  | startReading =>
    obtain ⟨w, -, hw⟩ := hb
    exact h.lambda_lt hw (by simp [StreamExec.inLambda])
  | task t ok =>
    obtain ⟨-, -, q, hn⟩ := hb
    refine Nat.lt_of_not_le fun hle => (h.fresh c hle).2.2 t ?_
    rw [PostQueue.pending_next hn]
    exact List.mem_cons_self
  | teardownClose =>
    obtain ⟨-, -, ho⟩ := hb
    obtain ⟨e, he⟩ := Option.isSome_iff_exists.1 ho
    obtain ⟨rfl, he | he⟩ := owner_eq_some he
    · exact (h.table _ e he).1
    · exact h.client e he

theorem Wf.step_lambda (h : Wf cfg s) (hacc : s.Accepting) (he : step cfg s a = some s') (c : Nat) :
    s'.lambdaJobs c ≤ if c < s'.made then 1 else 0 := by
  have hm := (step_pool he).made
  have hb := h.lambda c
  rcases step_lambdaJobs hacc he c with hle | ⟨-, rfl, hm', hle⟩
  · split at hb
    · rw [if_pos (by omega)]; omega
    · omega
  · rw [if_neg (Nat.lt_irrefl _)] at hb
    rw [if_pos (by omega)]
    omega

theorem Wf.step_fresh (h : Wf cfg s) (he : step cfg s a = some s') {c : Nat} (hc : s'.made ≤ c) :
    s'.impls c = .start cfg.maxWriteBuf cfg.readBufSize ∧ s'.pool.submitted c = [] ∧
      ∀ t, .conn c t ∉ s'.posts.pending := by
  have hle : s.made ≤ c := Nat.le_trans (step_pool he).made hc
  obtain ⟨h1, h2, h3⟩ := h.fresh c hle
  cases step_view he c with
  | same hi hs hp => exact ⟨hi.trans h1, hs.trans h2, fun t ht => h3 t (hp t ht)⟩
  | step b o hb => exact absurd (h.permits_lt hb) (Nat.not_lt.2 hle)
  | silent k _ _ hc' hm => omega

theorem Wf.step_entries (h : Wf cfg s) (he : step cfg s a = some s') {fd : Fd} {e : ConnEntry}
    (hl : s'.connections.lookup fd = some e) : e.impl < s'.made ∧ s'.fds e.impl = fd := by
  cases step_table he with
  | same h' => rw [h'.connections] at hl; rw [h'.made, h'.fds]; exact h.table fd e hl
  | made fd' hg hm hf ht =>
    rw [ht] at hl
    rw [hm, hf]
    by_cases hfd : fd = fd'
    · subst hfd
      rw [AList.lookup_insert, Option.some.injEq] at hl
      subst hl
      exact ⟨Nat.lt_succ_self _, by simp⟩
    · rw [AList.lookup_insert_ne hfd] at hl
      obtain ⟨h1, h2⟩ := h.table fd e hl
      exact ⟨Nat.lt_succ_of_lt h1, by rw [Function.update_of_ne (Nat.ne_of_lt h1)]; exact h2⟩
  | connected fd' hg hm hf ht =>
    rw [ht] at hl
    obtain ⟨h1, h2⟩ := h.table fd e hl
    rw [hm, hf]
    exact ⟨Nat.lt_succ_of_lt h1, by rw [Function.update_of_ne (Nat.ne_of_lt h1)]; exact h2⟩
  | erased fd' hg hm hf ht =>
    rw [ht] at hl
    rw [hm, hf]
    by_cases hfd : fd = fd'
    · rw [hfd, AList.lookup_erase] at hl; cases hl
    · rw [AList.lookup_erase_ne hfd] at hl; exact h.table fd e hl
  | entered c k hg hm hf ht => rw [ht] at hl; rw [hm, hf]; exact h.table fd e hl
  | cleared hg hm hf ht => rw [ht] at hl; cases hl

theorem Wf.step_client (h : Wf cfg s) (he : step cfg s a = some s') {e : ConnEntry}
    (hl : s'.client = some e) : e.impl < s'.made := by
  cases step_table he with
  | same h' => rw [h'.client] at hl; rw [h'.made]; exact h.client e hl
  | made fd' hg hm hf ht hn hc => rw [hc] at hl; rw [hm]; exact Nat.lt_succ_of_lt (h.client e hl)
  | connected fd' hg hm hf ht hn hc => rw [hc] at hl; cases hl; rw [hm]; exact Nat.lt_succ_self _
  | erased fd' hg hm hf ht hn hc => rw [hc] at hl; rw [hm]; exact h.client e hl
  | entered c k hg hm hf ht hn hc => rw [hc] at hl; rw [hm]; exact h.client e hl
  | cleared hg hm hf ht hn hc => rw [hc] at hl; cases hl

theorem step_started (he : step cfg s a = some s') {c : Nat} {t : Callback}
    (ht : t ∈ s.pool.started c) : t ∈ s'.pool.started c := by
  obtain ⟨-, -, hp | ⟨pa, hp, -⟩⟩ := step_pool he
  · rw [hp]; exact ht
  · exact SerialPool.step_started hp ht

/-- What a step does to `entered`. -/
theorem step_entered (he : step cfg s a = some s') (c : Nat) :
    s'.entered c = s.entered c ∨
    (∃ w, s.pool.pool.workers w = .running (.fn c .onClose)) ∧
      s'.entered c = (s.impls c).onClose := by
  cases step_table he with
  | same h => exact .inl (by rw [h.entered])
  | made fd hg hm hf ht hn hc hen => exact .inl (by rw [hen])
  | connected fd hg hm hf ht hn hc hen => exact .inl (by rw [hen])
  | erased fd hg hm hf ht hn hc hen => exact .inl (by rw [hen])
  | cleared hg hm hf ht hn hc hen => exact .inl (by rw [hen])
  | entered d k hg hm hf ht hn hc hen =>
    rw [hen]
    by_cases hd : c = d
    · subst hd
      exact .inr ⟨hg.1, by rw [Function.update_self, hg.2.2]⟩
    · exact .inl (Function.update_of_ne hd _ _)

theorem Wf.step_entered (h : Wf cfg s) (hlast : ∀ c, s.pool.LastStarted c)
    (he : step cfg s a = some s') {c : Nat} {k : CloseHandler} (hk : s'.entered c = some k) :
    .onClose ∈ s'.pool.started c := by
  rcases Stream.step_entered he c with e | ⟨⟨w, hw⟩, -⟩
  · exact Stream.step_started he (h.entered c k (e ▸ hk))
  · exact Stream.step_started he (List.mem_of_getLast? (hlast c w _ hw))

theorem reach_wf {ok : Stream n → Act n → Prop} (h : (machine cfg n).ReachOk ok s) : Wf cfg s := by
  refine h.inv (fun _ hs => hs ▸ start_wf cfg n) fun s a s' hr hi _ he => ?_
  exact ⟨hi.step_lambda (reach_accepting hr) he, fun _ => hi.step_fresh he,
    fun _ _ => hi.step_entries he, fun _ => hi.step_client he,
    fun _ _ => hi.step_entered (reach_lastStarted hr) he⟩

/-- **Invariants of the connections alone** hold of every connection of a stream. -/
theorem reach_impls {I : Conn CloseHandler → Prop}
    (h0 : I (.start cfg.maxWriteBuf cfg.readBufSize))
    (hs : ∀ c a c' o, I c → c.step a = some (c', o) → I c') {ok : Stream n → Act n → Prop}
    (h : (machine cfg n).ReachOk ok s) (c : Nat) : I (s.impls c) := by
  refine h.inv (I := fun s => I (s.impls c)) (fun s hi => by rw [hi]; exact h0) ?_
  intro s a s' hr ih _ he
  cases step_view he c with
  | same hi => rw [hi]; exact ih
  | step b o _ he' => exact hs _ _ _ _ ih he'
  | silent k _ _ hc _ hi =>
    -- the silent start sets `on_close_`, then calls `start_reading`
    have hfresh := ((reach_wf hr).fresh c (Nat.le_of_eq hc.symm)).1
    have h1 : I { s.impls c with onClose := k } :=
      hs _ (.setOnClose k) _ .quiet ih (by rw [hfresh]; rfl)
    rw [hi]
    exact hs _ .startReading _ (.post .startReading) h1 (by rw [hfresh]; rfl)

/-- A lambda on a worker is the only one of its connection. -/
theorem Wf.not_queued (h : Wf cfg s) {c : Nat} {w : Fin n} {y : StreamExec}
    (hw : s.pool.pool.workers w = .running (.app y)) (hy : y.inLambda c = 1) :
    .app (.onConnect c) ∉ s.pool.pool.queue := by
  intro hq
  have hle := ThreadPool.queued_add_weight_le (f := Job.appWeight (StreamJob.connects c))
    (g := Exec.appWeight (StreamExec.inLambda c)) hq w
  rw [hw] at hle
  have hb : s.lambdaJobs c ≤ 1 := Nat.le_trans (h.lambda c) (by split <;> omega)
  have h1 : Job.appWeight (StreamJob.connects c) (.app (.onConnect c) : Job Nat StreamJob) = 1 := by
    simp [Job.appWeight, StreamJob.connects]
  have h2 : (Worker.running (.app y : Exec Nat Callback StreamExec)).weight
      (Exec.appWeight (StreamExec.inLambda c)) = 1 := hy
  rw [h1, h2] at hle
  exact absurd (Nat.le_trans hle hb) (by omega)

theorem Wf.lambda_unique (h : Wf cfg s) {c : Nat} {w w' : Fin n} {y y' : StreamExec}
    (hw : s.pool.pool.workers w = .running (.app y)) (hy : y.inLambda c = 1)
    (hw' : s.pool.pool.workers w' = .running (.app y')) (hy' : y'.inLambda c = 1) : w = w' := by
  have hb : s.lambdaJobs c ≤ 1 := Nat.le_trans (h.lambda c) (by split <;> omega)
  refine ThreadPool.eq_of_weight (f := Job.appWeight (StreamJob.connects c))
    (g := Exec.appWeight (StreamExec.inLambda c)) hb ?_ ?_
  · rw [hw]; exact Nat.lt_of_lt_of_eq Nat.one_pos hy.symm
  · rw [hw']; exact Nat.lt_of_lt_of_eq Nat.one_pos hy'.symm

theorem Wf.queued_lt (h : Wf cfg s) {c : Nat} (hq : .app (.onConnect c) ∈ s.pool.pool.queue) :
    c < s.made := by
  have hle : 1 ≤ s.lambdaJobs c := by
    refine Nat.le_trans ?_ (Nat.le_add_right _ _)
    refine Nat.le_trans (Nat.le_of_eq ?_) (List.le_sum_of_mem (List.mem_map_of_mem hq))
    simp [Job.appWeight, StreamJob.connects]
  have := h.lambda c
  split at this
  · assumption
  · omega

/-- A counted call of `on_connect_cb` is queued or being executed. -/
theorem handlerJobs_pos {c : Nat} (h : 0 < s.handlerJobs c) :
    .app (.onConnect c) ∈ s.pool.pool.queue ∨ s.InHandler c := by
  rcases ThreadPool.exists_of_jobs_pos h with ⟨j, hj, hpos⟩ | ⟨w, hpos⟩
  · left
    cases j with
    | drain q => cases hpos
    | app x =>
      cases x with
      | onError => cases hpos
      | onConnect d =>
        have : d = c := by
          by_contra hne
          simp [Job.appWeight, StreamJob.connects, hne] at hpos
        rwa [this] at hj
  · right
    cases hw : s.pool.pool.workers w with
    | waiting => rw [hw] at hpos; cases hpos
    | exited => rw [hw] at hpos; cases hpos
    | running r =>
      rw [hw] at hpos
      cases r with
      | top q => cases hpos
      | fn q t => cases hpos
      | app y =>
        cases y with
        | onError => cases hpos
        | installed d => cases hpos
        | onConnect d =>
          have : d = c := by
            by_contra hne
            simp [Exec.appWeight, StreamExec.inHandler, hne] at hpos
          exact ⟨w, this ▸ hw⟩

theorem Wf.handlerJobs_lt (h : Wf cfg s) {c : Nat} (hj : 0 < s.handlerJobs c) : c < s.made :=
  (handlerJobs_pos hj).elim h.queued_lt h.inHandler_lt

theorem handlerJobs_of_inHandler {c : Nat} (h : s.InHandler c) : 0 < s.handlerJobs c := by
  obtain ⟨w, hw⟩ := h
  refine Nat.lt_of_lt_of_le ?_ (ThreadPool.weight_le_appJobs hw _ _)
  simp [StreamExec.inHandler]

/-- A counted call was counted before the step, or its connection was just made. -/
theorem handlerJobs_before (hacc : s.Accepting) (he : step cfg s a = some s') {c : Nat}
    (hj : 0 < s'.handlerJobs c) : 0 < s.handlerJobs c ∨ cfg.connectCb = true ∧ c = s.made := by
  rcases step_handlerJobs hacc he c with hle | ⟨hcb, hc, -⟩
  · exact .inl (Nat.lt_of_lt_of_le hj hle)
  · exact .inr ⟨hcb, hc⟩

/-- Callbacks are started only for connections that were made. -/
theorem Wf.started_lt (h : Wf cfg s) {c : Nat} (hq : s.pool.QueueInv c) {t : Callback}
    (ht : t ∈ s.pool.started c) : c < s.made := by
  refine Nat.lt_of_not_le fun hle => ?_
  rw [(hq.not_started (h.fresh c hle).2.1).1] at ht
  cases ht

/-- Once the lambda of `c` is past `on_connect_cb`, no call of it is counted. -/
theorem Wf.handlerJobs_installed (h : Wf cfg s) {c : Nat} {w : Fin n}
    (hw : s.pool.pool.workers w = .running (.app (.installed c))) : ¬ 0 < s.handlerJobs c := by
  intro hj
  have hy : (StreamExec.installed c).inLambda c = 1 := by simp [StreamExec.inLambda]
  rcases handlerJobs_pos hj with hq | ⟨w', hw'⟩
  · exact h.not_queued hw hy hq
  · have := h.lambda_unique hw hy hw' (by simp [StreamExec.inLambda])
    subst this
    rw [hw] at hw'
    cases hw'

/-- What a step does to `on_close_` of a connection. -/
theorem step_onClose (he : step cfg s a = some s') (c : Nat) :
    (s'.impls c).onClose = (s.impls c).onClose ∨
    s.Permits a c (.setOnClose (s'.impls c).onClose) ∨
    cfg.connectCb = false ∧ c = s.made ∧ s'.made = s.made + 1 ∧
      (s'.impls c).onClose.any CloseHandler.callsUser = false := by
  cases step_view he c with
  | same hi => exact .inl (by rw [hi])
  | silent k hk hcb hc hm hi => exact .inr (.inr ⟨hcb, hc, hm, by rw [hi]; exact hk⟩)
  | step b o hb he' =>
    by_cases hset : b.Setup
    · obtain ⟨-, -, ⟨-, e, -⟩ | ⟨k, rfl, e, -⟩ | ⟨-, e, -⟩⟩ := Conn.step_setup hset he'
      · exact .inl (by rw [e])
      · exact .inr (.inl (by rw [e]; exact hb))
      · exact .inl (by rw [e])
    · obtain ⟨-, -, hc, -⟩ := Conn.step_spec hset he'
      exact .inl hc

/-- A connection whose close callback was executed is closed. -/
theorem closed_of_started {c : Nat} (hw : s.CbInv c) (hq : s.pool.QueueInv c)
    (h : .onClose ∈ s.pool.started c) : (s.impls c).closed = true :=
  hw.close (by rw [← hq.fifo]; exact List.mem_append_left _ h)

end Stream

end Socketpp
