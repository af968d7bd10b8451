import Socketpp.High.StreamTable

/-!
# The lifetime of a connection's wrapper

`on_connect` is given a reference to a `Connection`. Its owners are the table's
entry (or `client_conn_wrapper`) and, until it returns, the lambda that calls
`on_connect_cb`. Three things drop the entry while a callback of the user may
still use the reference: the erase, posted before the user's `on_close` is
called; an accept that overwrites the entry; and `do_destroy`, which clears the
table before the pool is drained. `LifetimeOk` excludes them: `accept` returns
no descriptor that is a key, no `on_close` is set on a listening stream's
connections, and `do_destroy` finds the pool idle and, in client mode, no open
connection with an `on_close`.

While the owners are not dropped (`Live`), an erased entry belongs to a
connection whose last callback, its close, has begun (`NoUser`, `TableInv`);
a client's owner is never erased (`ClientInv`). Afterwards only close callbacks
that run no user code are left (`Joined`).
-/

namespace Socketpp

namespace Stream

variable {n : Nat} {cfg : StreamConfig} {s s' : Stream n} {a : Act n} {c : Nat}

/-- Running `on_close_` would run a handler of the user. -/
def callsUser (h : Option CloseHandler) : Bool := h.any CloseHandler.callsUser

/-- `on_connect` of `c` is queued in the pool or being executed. -/
def ConnectPending (s : Stream n) (c : Nat) : Prop :=
  .app (.onConnect c) ∈ s.pool.pool.queue ∨ s.InHandler c

instance (s : Stream n) (c : Nat) : Decidable (s.ConnectPending c) :=
  inferInstanceAs (Decidable (_ ∨ _))

/-- The `on_close_` the close callback runs, or would run now. -/
def closeHandler (s : Stream n) (c : Nat) : Option CloseHandler :=
  (s.entered c).or (s.impls c).onClose

/-- A callback of the user for connection `c` is queued or being executed. -/
def UserPending (s : Stream n) (c : Nat) : Prop :=
  s.ConnectPending c ∨ (∃ bytes, s.pool.Active c (.onData bytes)) ∨
    s.pool.Active c .onClose ∧ callsUser (s.closeHandler c) = true

instance (s : Stream n) (c : Nat) (t : Callback) : Decidable (s.pool.Active c t) :=
  inferInstanceAs (Decidable (_ ∨ ∃ w, s.pool.pool.workers w = .running (.fn c t)))

/-- The lambda that calls `on_connect_cb` for `c` is queued or running. -/
def LambdaPending (s : Stream n) (c : Nat) : Prop :=
  s.ConnectPending c ∨ ∃ w, s.pool.pool.workers w = .running (.app (.installed c))

instance (s : Stream n) (c : Nat) : Decidable (s.LambdaPending c) :=
  inferInstanceAs (Decidable (_ ∨ ∃ w, s.pool.pool.workers w = .running (.app (.installed c))))

/-- The wrapper of `c` has an owner. -/
def WrapperAlive (s : Stream n) (c : Nat) : Prop :=
  (s.owner c).any ConnEntry.wrapper = true ∨ s.LambdaPending c

instance (s : Stream n) (c : Nat) : Decidable (s.WrapperAlive c) :=
  inferInstanceAs (Decidable (_ ∨ _))

/-- Nothing is queued in the pool, and no worker is running a task. -/
def PoolIdle (s : Stream n) : Prop :=
  s.pool.pool.queue = [] ∧ ∀ w, s.pool.pool.workers w = .waiting

instance (s : Stream n) : Decidable s.PoolIdle :=
  inferInstanceAs (Decidable (_ ∧ ∀ w, s.pool.pool.workers w = .waiting))

/-- The use of a stream under which wrappers outlive the callbacks. -/
def LifetimeOk (cfg : StreamConfig) (s : Stream n) : Act n → Prop
  | .accept fd => fd ∉ s.connections
  | .conn _ (.setOnClose h) => cfg.mode = .listen → h = none
  | .join => s.PoolIdle ∧
      ∀ c < s.made, (s.impls c).closed = false → callsUser (s.impls c).onClose = false
  | _ => True

instance (cfg : StreamConfig) (s : Stream n) : (a : Act n) → Decidable (LifetimeOk cfg s a)
  | .accept fd => inferInstanceAs (Decidable (s.FreshFd (.accept fd)))
  | .conn _ (.setOnClose h) => inferInstanceAs (Decidable (cfg.mode = .listen → h = none))
  | .join => inferInstanceAs (Decidable (s.PoolIdle ∧ ∀ c < s.made, _ → _))
  | .conn _ (.call _) | .conn _ (.advance _) | .conn _ (.event _ _) | .conn _ .drainLock
  | .conn _ (.drainSend _) | .conn _ .setOnData | .conn _ .startReading | .conn _ (.task _ _)
  | .conn _ .teardownClose | .reportError | .connected _ | .swap | .runPost _ | .enterPoll
  | .take _ | .install _ | .startReading _ | .errorReturn _ | .drainLock _ | .runClose _
  | .fnReturn _ | .teardownClose _ | .clear | .shutdown => isTrue trivial

theorem LifetimeOk.freshFd (h : LifetimeOk cfg s a) : s.FreshFd a := by
  cases a <;> first | exact h | trivial

/-! ## Listening streams: no handler of the user runs in a close callback -/

structure NoUser (s : Stream n) (c : Nat) : Prop where
  connecting : 0 < s.handlerJobs c → (s.impls c).onClose = none
  set : callsUser (s.impls c).onClose = false
  entered : callsUser (s.entered c) = false

theorem start_noUser (cfg : StreamConfig) (n c : Nat) : (start cfg n).NoUser c :=
  ⟨fun _ => rfl, rfl, rfl⟩

/-- After `install` the lambda is past `on_connect_cb`. -/
theorem step_install {w : Fin n} (hw : s.pool.pool.workers w = .running (.app (.onConnect c)))
    (he : step cfg s (.install w) = some s') :
    s'.pool.pool.workers w = .running (.app (.installed c)) := by
  simp only [step, hw] at he
  obtain ⟨s₁, h₁, he⟩ := Option.bind_eq_some_iff.1 he
  obtain ⟨-, -, hp⟩ := connStep_quiet h₁ (setup_submits trivial)
  obtain ⟨p, hp', rfl⟩ := Option.map_eq_some_iff.1 he
  rw [hp, SerialPool.appStep, hw] at hp'
  cases hp'
  simp [ThreadPool.setRunning]

theorem NoUser.step_connecting (h : s.NoUser c) (hmode : cfg.mode = .listen) (hw : Wf cfg s)
    (hw' : Wf cfg s') (hacc : s.Accepting) (hok : LifetimeOk cfg s a)
    (he : step cfg s a = some s') (hj' : 0 < s'.handlerJobs c) :
    (s'.impls c).onClose = none := by
  have hold := handlerJobs_before hacc he hj'
  rcases step_onClose he c with e | ⟨-, ⟨rfl, -⟩ | ⟨⟨w, rfl, hrun⟩, -⟩⟩ | ⟨hncb, hc, -⟩
  · rw [e]
    rcases hold with hj | ⟨-, hc⟩
    · exact h.connecting hj
    · rw [(hw.fresh c (Nat.le_of_eq hc.symm)).1]; rfl
  · exact hok hmode
  · exact absurd hj' (hw'.handlerJobs_installed (step_install hrun he))
  · rcases hold with hj | ⟨hcb, -⟩
    · exact absurd (hw.handlerJobs_lt hj) (by omega)
    · rw [hncb] at hcb; cases hcb

theorem NoUser.step_set (h : s.NoUser c) (hmode : cfg.mode = .listen) (hok : LifetimeOk cfg s a)
    (he : step cfg s a = some s') : callsUser (s'.impls c).onClose = false := by
  rcases step_onClose he c with e | ⟨hin, ⟨rfl, -⟩ | ⟨-, e⟩⟩ | ⟨-, -, -, hk⟩
  · rw [e]; exact h.set
  · rw [hok hmode]; rfl
  · rw [e, h.connecting (handlerJobs_of_inHandler hin)]; rfl
  · exact hk

theorem NoUser.step_entered (h : s.NoUser c) (he : step cfg s a = some s') :
    callsUser (s'.entered c) = false := by
  rcases Stream.step_entered he c with e | ⟨-, e⟩
  · rw [e]; exact h.entered
  · rw [e]; exact h.set

theorem reach_noUser (hmode : cfg.mode = .listen) (h : (machine cfg n).ReachOk (LifetimeOk cfg) s)
    (c : Nat) : s.NoUser c := by
  refine h.inv (fun _ hs => hs ▸ start_noUser cfg n c) fun s a s' hr hi hok he => ?_
  have hw' := reach_wf (hr.step hok he)
  exact ⟨hi.step_connecting hmode (reach_wf hr) hw' (reach_accepting hr) hok he,
    hi.step_set hmode hok he, hi.step_entered he⟩

/-- Once the close callback of `c` runs, no other callback of it is active. -/
theorem active_of_entered (hw : Wf cfg s) (hcb : s.CbInv c) (hq : s.pool.QueueInv c)
    (hl : s.pool.LastStarted c) {k : CloseHandler} (hk : s.entered c = some k) {t : Callback}
    (ht : s.pool.Active c t) : t = .onClose := by
  obtain ⟨ds, tail, hsub, hds, htail⟩ := hcb.shape
  have hst := hw.entered c k hk
  rw [← hq.fifo] at hsub
  rcases List.append_eq_append_iff.1 hsub with ⟨more, e, -⟩ | ⟨rest, e, e'⟩
  · exact absurd (by rw [e]; exact List.mem_append_left _ hst) hds
  · have hrest : .onClose ∈ rest := (List.mem_append.1 (e ▸ hst)).resolve_left hds
    have hne : rest ≠ [] := List.ne_nil_of_mem hrest
    rcases htail with rfl | rfl
    · exact absurd (List.nil_eq_append_iff.1 e').1 hne
    · obtain ⟨h1, -⟩ | ⟨h1, h2⟩ := List.append_eq_singleton_iff.1 e'.symm
      · exact absurd h1 hne
      · rcases ht with ht | ⟨w, hw⟩
        · rw [h2] at ht; cases ht
        · have := hl w t hw
          rw [e, h1, List.getLast?_concat] at this
          exact (Option.some.inj this).symm

/-! ## After the loop thread is joined -/

/-- What can still run for `c`: close callbacks that call no handler of the user. -/
structure Joined (s : Stream n) (c : Nat) : Prop where
  lambda : s.lambdaJobs c = 0
  active : ∀ t, s.pool.Active c t → t = .onClose ∧ callsUser (s.impls c).onClose = false ∧
    callsUser (s.entered c) = false
  unclosed : (s.impls c).closed = false → callsUser (s.impls c).onClose = false

theorem lambdaJobs_idle (h : s.PoolIdle) (c : Nat) : s.lambdaJobs c = 0 := by
  simp [lambdaJobs, ThreadPool.appJobs, ThreadPool.jobs, h.1, h.2]

theorem lambdaJobs_of_inHandler (h : s.InHandler c) : 0 < s.lambdaJobs c := by
  obtain ⟨w, hw⟩ := h
  refine Nat.lt_of_lt_of_le ?_ (ThreadPool.weight_le_appJobs hw _ _)
  simp [StreamExec.inLambda]

/-- An idle pool, and no handler of the user on an open connection. -/
theorem joined_of_idle (hw : Wf cfg s) (hq : s.pool.QueueInv c) (hidle : s.PoolIdle)
    (hopen : ∀ c < s.made, (s.impls c).closed = false → callsUser (s.impls c).onClose = false) :
    s.Joined c := by
  refine ⟨lambdaJobs_idle hidle c, fun t ht => ?_, fun ho => ?_⟩
  · exact absurd ht (hq.not_active_of_idle hidle.1 hidle.2 t)
  · by_cases hc : c < s.made
    · exact hopen c hc ho
    · rw [(hw.fresh c (Nat.le_of_not_lt hc)).1]; rfl

theorem step_made_joined (he : step cfg s a = some s') (hr : s.teardown ≠ .running) :
    s'.made = s.made := by
  cases step_table he with
  | same h => exact h.made
  | made fd hg => exact absurd hg.2.2.1 hr
  | connected fd hg => exact absurd hg.2.1 hr
  | erased fd hg hm => exact hm
  | entered d k hg hm => exact hm
  | cleared hg hm => exact hm

/-- Then only `do_destroy` submits, and only close callbacks of open connections. -/
theorem step_submit_joined (he : step cfg s a = some s') (hr : s.teardown ≠ .running)
    {t : Callback} (hs : s'.pool.submitted c = s.pool.submitted c ++ [t]) :
    t = .onClose ∧ (s.impls c).closed = false := by
  cases step_view he c with
  | same hi hs' => rw [hs'] at hs; simp at hs
  | silent k _ _ _ _ _ hs' => rw [hs'] at hs; simp at hs
  | step b o hb he' hs' =>
    have hsub : o.submits = [t] := List.append_cancel_left (hs'.symm.trans hs)
    have hloud : ¬ o.submits = [] := by rw [hsub]; simp
    have hset : ¬ b.Setup := fun h => hloud (setup_submits h _ he')
    cases b with
    | call op => exact absurd (user_submits (.inl ⟨op, rfl⟩) _ he') hloud
    | advance i => exact absurd (user_submits (.inr ⟨i, rfl⟩) _ he') hloud
    | setOnData => exact absurd trivial hset
    | setOnClose _ => exact absurd trivial hset
    | startReading => exact absurd trivial hset
    | event _ _ => exact absurd hb.2 hr
    | drainLock => exact absurd hb.2 hr
    | drainSend _ => exact absurd hb.2 hr
    | task _ _ => exact absurd hb.2.1 hr
    | teardownClose =>
      have e : o = .submit (s.impls c).initiateClose.2 := (Prod.mk.inj (Option.some.inj he')).2.symm
      rw [e, Out.submit] at hsub
      unfold Conn.initiateClose at hsub
      split at hsub
      · cases hsub
      · rename_i ho
        split at hsub
        · cases hsub; exact ⟨rfl, by simpa using ho⟩
        · cases hsub

theorem Joined.step (h : s.Joined c) (hw : Wf cfg s) (hacc : s.Accepting) (hcb : s.CbInv c)
    (hq : s.pool.QueueInv c) (hr : s.teardown ≠ .running) (he : step cfg s a = some s') :
    s'.Joined c := by
  have hm := step_made_joined he hr
  have hclose : (s'.impls c).onClose = (s.impls c).onClose := by
    rcases step_onClose he c with e | ⟨hin, -⟩ | ⟨-, -, hm', -⟩
    · exact e
    · exact absurd (lambdaJobs_of_inHandler hin) (by rw [h.lambda]; simp)
    · omega
  refine ⟨?_, fun t ht => ?_, fun ho => ?_⟩
  · rcases step_lambdaJobs hacc he c with hle | ⟨-, -, hm', -⟩
    · exact Nat.eq_zero_of_le_zero (h.lambda ▸ hle)
    · omega
  · have hold : s.pool.Active c t ∨ t = .onClose ∧ (s.impls c).closed = false := by
      obtain ⟨-, -, hp | ⟨pa, hp, -⟩⟩ := step_pool he
      · exact .inl (hp ▸ ht)
      · refine (SerialPool.step_active hp ht).imp_right fun e => ?_
        subst e
        refine step_submit_joined he hr ?_
        rw [← Option.some.inj hp]
        simp [SerialPool.submit]
    obtain ⟨rfl, hset, hent⟩ : t = .onClose ∧ callsUser (s.impls c).onClose = false ∧
        callsUser (s.entered c) = false := by
      rcases hold with ht | ⟨rfl, ho⟩
      · exact h.active t ht
      · refine ⟨rfl, h.unclosed ho, ?_⟩
        cases hk : s.entered c with
        | none => rfl
        | some k =>
          rw [closed_of_started hcb hq (hw.entered c k hk)] at ho
          cases ho
    refine ⟨rfl, by rw [hclose]; exact hset, ?_⟩
    rcases Stream.step_entered he c with e | ⟨-, e⟩
    · rw [e]; exact hent
    · rw [e]; exact hset
  · rw [hclose]
    refine h.unclosed ?_
    cases hc : (s.impls c).closed with
    | false => rfl
    | true => rw [step_closed he hc] at ho; cases ho

theorem reach_joined (h : (machine cfg n).ReachOk (LifetimeOk cfg) s) (c : Nat) :
    s.teardown ≠ .running → s.Joined c := by
  refine h.inv (I := fun s => s.teardown ≠ .running → s.Joined c)
    (fun s hs hr => absurd (by rw [hs]; rfl) hr) fun s a s' hr ih hok he hr' => ?_
  have hstep (h : s.teardown ≠ .running) : s'.Joined c :=
    (ih h).step (reach_wf hr) (reach_accepting hr) (reach_cbInv hr c) (reach_queue hr c) h he
  cases (step_pool he).teardown with
  | same h => exact hstep (h ▸ hr')
  | clear _ h => exact hstep (by rw [h]; rintro ⟨⟩)
  | shutdown _ h => exact hstep (by rw [h]; rintro ⟨⟩)
  | join ha h =>
    subst ha
    have hj := joined_of_idle (reach_wf hr) (reach_queue hr c) hok.1 hok.2
    simp only [machine, step] at he
    split at he
    · cases he; exact ⟨hj.lambda, hj.active, hj.unclosed⟩
    · cases he

/-! ## Owners -/

/-- A client has an empty table and owns its one connection until `do_destroy`. -/
structure ClientInv (cfg : StreamConfig) (s : Stream n) : Prop where
  table : ∀ fd, s.connections.lookup fd = none
  one : s.made ≤ 1
  own : s.Live → ∀ c < s.made, s.client = some ⟨c, cfg.connectCb⟩

theorem start_clientInv (cfg : StreamConfig) (n : Nat) : ClientInv cfg (start cfg n) :=
  ⟨fun _ => rfl, Nat.zero_le _, fun _ _ h => absurd h (Nat.not_lt_zero _)⟩

theorem ClientInv.step (h : ClientInv cfg s) (hmode : cfg.mode = .client)
    (he : step cfg s a = some s') : ClientInv cfg s' := by
  cases step_table he with
  | same h' =>
    refine ⟨by rw [h'.connections]; exact h.table, by rw [h'.made]; exact h.one, fun hl => ?_⟩
    rw [h'.made, h'.client]
    exact h.own (h'.live.1 hl)
  | made fd hg => rw [hmode] at hg; cases hg.2.1
  | connected fd hg hm hf ht hn hc =>
    have h0 : s.made = 0 := hg.2.2
    refine ⟨by rw [ht]; exact h.table, by omega, fun _ c hc' => ?_⟩
    have : c = s.made := by omega
    rw [hc, this]
  | erased fd hg hm hf ht hn hc _ _ hl =>
    refine ⟨fun fd' => ?_, by rw [hm]; exact h.one, fun hl' => ?_⟩
    · rw [ht]
      by_cases hfd : fd' = fd
      · rw [hfd, AList.lookup_erase]
      · rw [AList.lookup_erase_ne hfd]; exact h.table fd'
    · rw [hm, hc]; exact h.own (hl.1 hl')
  | entered d k hg hm hf ht hn hc _ _ hl =>
    exact ⟨by rw [ht]; exact h.table, by rw [hm]; exact h.one,
      fun hl' => by rw [hm, hc]; exact h.own (hl.1 hl')⟩
  | cleared hg hm hf ht hn hc _ _ hl =>
    exact ⟨fun fd => by rw [ht]; rfl, by rw [hm]; exact h.one, fun hl' => absurd hl' hl⟩

theorem reach_clientInv {ok : Stream n → Act n → Prop} (hmode : cfg.mode = .client)
    (h : (machine cfg n).ReachOk ok s) : ClientInv cfg s :=
  h.inv (fun _ hs => hs ▸ start_clientInv cfg n) fun _ _ _ _ hi _ he => hi.step hmode he

/-- A serial queue with an active task is one of a connection that was made. -/
theorem Wf.active_lt (h : Wf cfg s) (hq : s.pool.QueueInv c) (hl : s.pool.LastStarted c)
    {t : Callback} (ht : s.pool.Active c t) : c < s.made := by
  rcases ht with ht | ⟨w, hw⟩
  · refine Nat.lt_of_not_le fun hle => ?_
    rw [(hq.not_started (h.fresh c hle).2.1).2] at ht
    cases ht
  · exact h.started_lt hq (List.mem_of_getLast? (hl w t hw))

theorem owner_listen {b : Bool} (h : s.connections.lookup (s.fds c) = some ⟨c, b⟩) :
    s.owner c = some ⟨c, b⟩ := by
  simp [owner, h]

theorem owner_client {b : Bool} (h : s.connections.lookup (s.fds c) = none)
    (hc : s.client = some ⟨c, b⟩) : s.owner c = some ⟨c, b⟩ := by
  simp [owner, h, hc]

/-- While the owners are not dropped, a connection without one is done with the
user's callbacks. -/
theorem owned_of_active (hmode : cfg.mode = .listen)
    (h : (machine cfg n).ReachOk (LifetimeOk cfg) s) (hlive : s.Live) {t : Callback}
    (ht : s.pool.Active c t) (hu : t ≠ .onClose ∨ callsUser (s.closeHandler c) = true) :
    s.owner c = some ⟨c, cfg.connectCb⟩ := by
  have hw := reach_wf h
  have hlt := hw.active_lt (reach_queue h c) (reach_lastStarted h c) ht
  have htab := reach_tableInv hmode (h.mono fun _ _ => LifetimeOk.freshFd)
  cases hp : s.hasPosted c with
  | false => exact owner_listen (htab.own hlive c hlt hp)
  | true =>
    obtain ⟨k, hk⟩ := hasPosted_entered hp
    rcases hu with hne | hu
    · exact absurd (active_of_entered hw (reach_cbInv h c) (reach_queue h c)
        (reach_lastStarted h c) hk ht) hne
    · have := (reach_noUser hmode h c).entered
      rw [hk] at this
      rw [closeHandler, hk, Option.some_or, this] at hu
      cases hu

/-- **The wrapper outlives the callbacks.** In every run in which `accept`
returns no descriptor that is a key of the table, no `on_close` is set on a
listening stream's connections, and `do_destroy` is called with an idle pool and
no `on_close` left to run: while a callback of the user for a connection is
queued or being executed, the wrapper given to `on_connect` has an owner. -/
theorem wrapper_outlives_callbacks (hcb : cfg.connectCb = true)
    (h : (machine cfg n).ReachOk (LifetimeOk cfg) s) (hp : s.UserPending c) :
    s.WrapperAlive c := by
  rcases hp with hp | hp
  · exact .inr (.inl hp)
  · obtain ⟨t, ht, hu⟩ : ∃ t, s.pool.Active c t ∧
        (t ≠ .onClose ∨ callsUser (s.closeHandler c) = true) := by
      rcases hp with ⟨bytes, ht⟩ | ⟨ht, hu⟩
      · exact ⟨_, ht, .inl nofun⟩
      · exact ⟨_, ht, .inr hu⟩
    by_cases hlive : s.Live
    · have ho : s.owner c = some ⟨c, cfg.connectCb⟩ := by
        cases hmode : cfg.mode with
        | listen => exact owned_of_active hmode h hlive ht hu
        | client =>
          have hlt := (reach_wf h).active_lt (reach_queue h c) (reach_lastStarted h c) ht
          have hc := reach_clientInv hmode h
          exact owner_client (hc.table _) (hc.own hlive c hlt)
      exact .inl (by rw [ho]; exact hcb)
    · obtain ⟨rfl, hset, hent⟩ := (reach_joined h c fun hr => hlive (.inl hr)).active t ht
      have hquiet : callsUser (s.closeHandler c) = false := by
        rw [closeHandler]
        cases hk : s.entered c with
        | none => rw [Option.none_or]; exact hset
        | some k => rw [Option.some_or, ← hk]; exact hent
      rw [hquiet] at hu
      simp at hu

/-- The peer has closed, and a worker is still at the last data. -/
theorem wrapper_outlives_callbacks_on_data :
    ∃ s : Stream 1, (machine ⟨.listen, 0, true, 8, 4⟩ 1).ReachOk
        (LifetimeOk ⟨.listen, 0, true, 8, 4⟩) s ∧
      (s.pool.pool.workers 0 = .running (.fn 0 (.onData [7])) ∧ (s.impls 0).closed = true) ∧
      s.WrapperAlive 0 := by
  obtain ⟨s, h, hp⟩ := Machine.ReachOk.of_runOk_init (M := machine ⟨.listen, 0, true, 8, 4⟩ 1)
    (LifetimeOk ⟨.listen, 0, true, 8, 4⟩)
    (fun s => decide (s.pool.pool.workers 0 = .running (.fn 0 (.onData [7])) ∧
      (s.impls 0).closed = true))
    [.accept 5, .take 0, .conn 0 .setOnData, .install 0, .startReading 0, .swap,
      .runPost true, .enterPoll, .conn 0 (.event .readable (.data [7])),
      .conn 0 (.event .readable (.data [])), .take 0, .drainLock 0]
    rfl (by decide)
  have hq := of_decide_eq_true hp
  exact ⟨s, h, hq, wrapper_outlives_callbacks rfl h (.inr (.inl ⟨[7], .inr ⟨0, hq.1⟩⟩))⟩

/-- A callback of the user is pending on a connection whose wrapper is gone: the
loop erases the entry while the user's `on_close` is executed; an accept
overwrites the entry while data is queued; `do_destroy` drops the client's
wrapper while data is queued. -/
theorem wrapper_destroyed_under_callback :
    (∃ s : Stream 1, (machine ⟨.listen, 0, true, 8, 4⟩ 1).Reach s ∧
      s.UserPending 0 ∧ ¬ s.WrapperAlive 0) ∧
    (∃ s : Stream 1, (machine ⟨.listen, 0, true, 8, 4⟩ 1).Reach s ∧ s.teardown = .running ∧
      (s.impls 0).onClose = some (.wrapper false) ∧ s.UserPending 0 ∧ ¬ s.WrapperAlive 0) ∧
    ∃ s : Stream 1, (machine ⟨.client, 0, true, 8, 4⟩ 1).Reach s ∧
      s.UserPending 0 ∧ ¬ s.WrapperAlive 0 := by
  refine ⟨?_, ?_, ?_⟩
  · obtain ⟨s, h, hp⟩ := Machine.Reach.of_run_init (M := machine ⟨.listen, 0, true, 8, 4⟩ 1)
      (fun s => decide ((s.pool.Active 0 .onClose ∧ callsUser (s.closeHandler 0) = true) ∧
        ¬ s.WrapperAlive 0))
      [.accept 5, .take 0, .conn 0 (.setOnClose (some .user)), .install 0, .startReading 0,
        .swap, .runPost true, .enterPoll, .conn 0 (.event .readable (.data [])), .take 0,
        .drainLock 0, .runClose 0, .swap, .runPost true]
      rfl (by decide)
    have hq := of_decide_eq_true hp
    exact ⟨s, h, .inr (.inr hq.1), hq.2⟩
  · obtain ⟨s, h, hp⟩ := Machine.Reach.of_run_init (M := machine ⟨.listen, 0, true, 8, 4⟩ 1)
      (fun s => decide (s.teardown = .running ∧ (s.impls 0).onClose = some (.wrapper false) ∧
        s.pool.Active 0 (.onData [7]) ∧ ¬ s.WrapperAlive 0))
      [.accept 5, .take 0, .conn 0 .setOnData, .install 0, .startReading 0, .swap,
        .runPost true, .enterPoll, .conn 0 (.event .readable (.data [7])),
        .conn 0 (.event .readable (.data [])), .accept 5]
      rfl (by decide)
    have hq := of_decide_eq_true hp
    exact ⟨s, h, hq.1, hq.2.1, .inr (.inl ⟨[7], hq.2.2.1⟩), hq.2.2.2⟩
  · obtain ⟨s, h, hp⟩ := Machine.Reach.of_run_init (M := machine ⟨.client, 0, true, 8, 4⟩ 1)
      (fun s => decide (s.pool.Active 0 (.onData [7]) ∧ ¬ s.WrapperAlive 0))
      [.connected 5, .take 0, .conn 0 .setOnData, .install 0, .startReading 0, .swap,
        .runPost true, .enterPoll, .conn 0 (.event .readable (.data [7])), .join,
        .teardownClose 0, .clear]
      rfl (by decide)
    have hq := of_decide_eq_true hp
    exact ⟨s, h, .inr (.inl ⟨[7], hq.1⟩), hq.2⟩

end Stream

end Socketpp
