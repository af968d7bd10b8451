import Socketpp.High.Stream

/-!
# Steps of a stream, seen from its parts

A step of a stream is at most one step of one connection and at most one step
of the pool. `step_cases` lists the steps; the rest is read off it. `step_view`
says what a step is to a given connection: nothing, a step of the engine with
what stands behind it (`Permits`), or the silent start of a connection made
without `on_connect_cb`. `step_pool` says what it is to the pool; since the pool
is stopped last, it accepts everything the stream submits, and the serial queues
keep their invariant (`reach_queue`).
-/

namespace Socketpp

namespace Stream

variable {n : Nat}

/-! ## The steps -/

abbrev StreamPoolAct (n : Nat) := SerialPool.SerialAct Nat Callback StreamJob StreamExec n

/-- **Every step**: what it finds and what it leaves. -/
inductive StepView (cfg : StreamConfig) (s : Stream n) : Act n → Stream n → Prop where
  /-- there are `max_conn` connections already -/
  | full (fd : Fd) : StepView cfg s (.accept fd) s
  | accept (fd : Fd) (hmode : cfg.mode = .listen) (ht : s.teardown = .running) (hf : s.FdFree fd)
      (hmax : ¬ (0 < cfg.maxConn ∧ cfg.maxConn ≤ s.size)) : StepView cfg s (.accept fd)
      ({ s with
        made := s.made + 1
        fds := Function.update s.fds s.made fd
        connections := s.connections.insert fd ⟨s.made, cfg.connectCb⟩
        connectionCount := sizeAdd s.connectionCount 1 }.hand cfg s.made (some (.wrapper false)))
  | reportError (ht : s.teardown = .running) :
      StepView cfg s .reportError { s with pool := s.pool.submitApp .onError }
  | connected (fd : Fd) (hmode : cfg.mode = .client) (ht : s.teardown = .running)
      (hm : s.made = 0) : StepView cfg s (.connected fd) (s.connected cfg fd)
  | conn (c : Nat) (b : Conn.Act CloseHandler) (s' : Stream n) (hc : c < s.made)
      (hb : s.Allows c b) (h : s.connStep c b = some s') : StepView cfg s (.conn c b) s'
  | swap (q : PostQueue StreamTask) (hq : q.pending = s.posts.pending) :
      StepView cfg s .swap { s with posts := q }
  | enterPoll (q : PostQueue StreamTask) (hq : q.pending = s.posts.pending) :
      StepView cfg s .enterPoll { s with posts := q }
  | task (ok : Bool) (c : Nat) (t : ConnTask) (q : PostQueue StreamTask) (s' : Stream n)
      (ht : s.teardown = .running) (hn : s.posts.next = some (.conn c t, q))
      (h : { s with posts := q }.connStep c (.task t ok) = some s') :
      StepView cfg s (.runPost ok) s'
  | erase (ok : Bool) (fd : Fd) (q : PostQueue StreamTask) (ht : s.teardown = .running)
      (hn : s.posts.next = some (.erase fd, q)) : StepView cfg s (.runPost ok)
      { s with posts := q
               connections := s.connections.erase fd
               connectionCount := sizeSub s.connectionCount 1 }
  | take (w : Fin n) (p : StreamPool n) (hp : s.pool.take StreamJob.begin w = some p) :
      StepView cfg s (.take w) { s with pool := p }
  | install (w : Fin n) (c : Nat) (s' : Stream n) (p : StreamPool n)
      (hw : s.pool.pool.workers w = .running (.app (.onConnect c)))
      (h : s.connStep c (.setOnClose (some (.wrapper (s.impls c).onClose.isSome))) = some s')
      (hp : s'.pool.appStep w (some (.installed c)) = some p) :
      StepView cfg s (.install w) { s' with pool := p }
  | startReading (w : Fin n) (c : Nat) (s' : Stream n) (p : StreamPool n)
      (hw : s.pool.pool.workers w = .running (.app (.installed c)))
      (h : s.connStep c .startReading = some s') (hp : s'.pool.appStep w none = some p) :
      StepView cfg s (.startReading w) { s' with pool := p }
  | errorReturn (w : Fin n) (p : StreamPool n)
      (hw : s.pool.pool.workers w = .running (.app .onError))
      (hp : s.pool.appStep w none = some p) : StepView cfg s (.errorReturn w) { s with pool := p }
  | drainLock (w : Fin n) (p : StreamPool n) (hp : s.pool.drainLock w = some p) :
      StepView cfg s (.drainLock w) { s with pool := p }
  | runClose (w : Fin n) (c : Nat) (h : CloseHandler)
      (hw : s.pool.pool.workers w = .running (.fn c .onClose)) (hen : s.entered c = none)
      (hcl : (s.impls c).onClose = some h) : StepView cfg s (.runClose w) (s.enter cfg c h)
  | fnReturn (w : Fin n) (c : Nat) (t : Callback) (p : StreamPool n)
      (hw : s.pool.pool.workers w = .running (.fn c t))
      (hen : t = .onClose → (s.entered c).isSome = true) (hp : s.pool.fnReturn w = some p) :
      StepView cfg s (.fnReturn w) { s with pool := p }
  | join (ht : s.teardown = .running) : StepView cfg s .join { s with teardown := .joined }
  | teardownClose (c : Nat) (s' : Stream n) (ht : s.teardown = .joined)
      (ho : (s.owner c).isSome = true) (h : s.connStep c .teardownClose = some s') :
      StepView cfg s (.teardownClose c) s'
  | clear (ht : s.teardown = .joined)
      (hall : ∀ c < s.made, (s.owner c).isSome = true → (s.impls c).closed = true) :
      StepView cfg s .clear s.clear
  | shutdown (ht : s.teardown = .cleared) :
      StepView cfg s .shutdown { s with pool := s.pool.shutdown, teardown := .down }

theorem step_cases {cfg : StreamConfig} {s s' : Stream n} {a : Act n}
    (he : step cfg s a = some s') : StepView cfg s a s' := by
  cases a with
  | accept fd =>
    simp only [step] at he
    split at he
    · rename_i hg
      cases he
      unfold accept
      split
      · exact .full fd
      · rename_i hmax; exact .accept fd hg.1 hg.2.1.1 hg.2.2.2 hmax
    · cases he
  | reportError =>
    simp only [step] at he
    split at he
    · rename_i hg; cases he; exact .reportError hg.1.1
    · cases he
  | connected fd =>
    simp only [step] at he
    split at he
    · rename_i hg; cases he; exact .connected fd hg.1 hg.2.1.1 hg.2.2.2
    · cases he
  | conn c b =>
    simp only [step] at he
    split at he
    · rename_i hg; exact .conn c b s' hg.1 hg.2 he
    · cases he
  | swap =>
    simp only [step] at he
    split at he
    · obtain ⟨q, hq, rfl⟩ := Option.map_eq_some_iff.1 he
      exact .swap q (PostQueue.pending_swap hq)
    · cases he
  | enterPoll =>
    simp only [step] at he
    split at he
    · obtain ⟨q, hq, rfl⟩ := Option.map_eq_some_iff.1 he
      exact .enterPoll q (PostQueue.pending_enterPoll hq)
    · cases he
  | runPost ok =>
    simp only [step] at he
    split at he
    · rename_i hg
      obtain ⟨⟨t, q⟩, hn, he⟩ := Option.bind_eq_some_iff.1 he
      cases t with
      | conn c t => exact .task ok c t q s' hg.1 hn he
      | erase fd => cases he; exact .erase ok fd q hg.1 hn
    · cases he
  | take w =>
    obtain ⟨p, hp, rfl⟩ := Option.map_eq_some_iff.1 he
    exact .take w p hp
  | install w =>
    simp only [step] at he
    split at he
    · rename_i c hw
      obtain ⟨s₁, h, he⟩ := Option.bind_eq_some_iff.1 he
      obtain ⟨p, hp, rfl⟩ := Option.map_eq_some_iff.1 he
      exact .install w c s₁ p hw h hp
    · cases he
  | startReading w =>
    simp only [step] at he
    split at he
    · rename_i c hw
      obtain ⟨s₁, h, he⟩ := Option.bind_eq_some_iff.1 he
      obtain ⟨p, hp, rfl⟩ := Option.map_eq_some_iff.1 he
      exact .startReading w c s₁ p hw h hp
    · cases he
  | errorReturn w =>
    simp only [step] at he
    split at he
    · rename_i hw
      obtain ⟨p, hp, rfl⟩ := Option.map_eq_some_iff.1 he
      exact .errorReturn w p hw hp
    · cases he
  | drainLock w =>
    obtain ⟨p, hp, rfl⟩ := Option.map_eq_some_iff.1 he
    exact .drainLock w p hp
  | runClose w =>
    simp only [step] at he
    split at he
    · rename_i c hw
      split at he
      · rename_i h hen hcl; cases he; exact .runClose w c h hw hen hcl
      · cases he
    · cases he
  | fnReturn w =>
    simp only [step] at he
    split at he
    · rename_i c t hw
      split at he
      · rename_i hen
        obtain ⟨p, hp, rfl⟩ := Option.map_eq_some_iff.1 he
        exact .fnReturn w c t p hw hen hp
      · cases he
    · cases he
  | join =>
    simp only [step] at he
    split at he
    · rename_i hg; cases he; exact .join hg.1.1
    · cases he
  | teardownClose c =>
    simp only [step] at he
    split at he
    · rename_i hg; exact .teardownClose c s' hg.1 hg.2 he
    · cases he
  | clear =>
    simp only [step] at he
    split at he
    · rename_i hg; cases he; exact .clear hg.1 hg.2
    · cases he
  | shutdown =>
    simp only [step] at he
    split at he
    · rename_i hg; cases he; exact .shutdown hg
    · cases he

/-! ## The steps of one connection -/

@[simp] theorem absorb_impls_self (s : Stream n) (c : Nat) (r : Conn CloseHandler × Out) :
    (s.absorb c r).impls c = r.1 := by simp [absorb]

theorem absorb_impls_ne (s : Stream n) {c c' : Nat} (r : Conn CloseHandler × Out) (h : c' ≠ c) :
    (s.absorb c r).impls c' = s.impls c' := by simp [absorb, h]

@[simp] theorem absorb_pending (s : Stream n) (c : Nat) (r : Conn CloseHandler × Out) :
    (s.absorb c r).posts.pending = s.posts.pending ++ r.2.posts.map (.conn c) :=
  PostQueue.pending_post _

theorem submitted_foldl (p : StreamPool n) (c c' : Nat) (cbs : List Callback) :
    (cbs.foldl (fun p cb => p.submit c cb) p).submitted c' =
      if c' = c then p.submitted c ++ cbs else p.submitted c' := by
  induction cbs generalizing p with
  | nil => by_cases h : c' = c <;> simp [h]
  | cons cb cbs ih =>
    rw [List.foldl_cons, ih]
    by_cases h : c' = c <;> simp [SerialPool.submit, h]

theorem absorb_submitted_self (s : Stream n) (c : Nat) (r : Conn CloseHandler × Out) :
    (s.absorb c r).pool.submitted c = s.pool.submitted c ++ r.2.submits := by
  rw [absorb, submitted_foldl, if_pos rfl]

theorem absorb_submitted_ne (s : Stream n) {c c' : Nat} (r : Conn CloseHandler × Out)
    (h : c' ≠ c) : (s.absorb c r).pool.submitted c' = s.pool.submitted c' := by
  rw [absorb, submitted_foldl, if_neg h]

/-- What stands behind a step of connection `c`. -/
def Permits (s : Stream n) (a : Act n) (c : Nat) : Conn.Act CloseHandler → Prop
  | .call op => a = .conn c (.call op) ∧ c < s.made
  | .advance _ => c < s.made
  | .event _ _ | .drainLock | .drainSend _ => c < s.made ∧ s.teardown = .running
  | .setOnData => s.InHandler c
  | .setOnClose h => s.InHandler c ∧
      (a = .conn c (.setOnClose h) ∧ (h = none ∨ h = some .user) ∨
        (∃ w, a = .install w ∧ s.pool.pool.workers w = .running (.app (.onConnect c))) ∧
          h = some (.wrapper (s.impls c).onClose.isSome))
  | .startReading =>
    ∃ w, a = .startReading w ∧ s.pool.pool.workers w = .running (.app (.installed c))
  | .task t ok => a = .runPost ok ∧ s.teardown = .running ∧ ∃ q, s.posts.next = some (.conn c t, q)
  | .teardownClose => a = .teardownClose c ∧ s.teardown = .joined ∧ (s.owner c).isSome = true

/-- What a step of the stream is to connection `c`. -/
inductive View (cfg : StreamConfig) (s s' : Stream n) (a : Act n) (c : Nat) : Prop where
  | same (hi : s'.impls c = s.impls c) (hs : s'.pool.submitted c = s.pool.submitted c)
      (hp : ∀ t, .conn c t ∈ s'.posts.pending → .conn c t ∈ s.posts.pending)
  | step (b : Conn.Act CloseHandler) (o : Out) (hb : s.Permits a c b)
      (he : (s.impls c).step b = some (s'.impls c, o))
      (hs : s'.pool.submitted c = s.pool.submitted c ++ o.submits)
      (hp : ∀ t, .conn c t ∈ s'.posts.pending → .conn c t ∈ s.posts.pending ∨ t ∈ o.posts)
  /-- made without `on_connect_cb`, it starts reading at once -/
  | silent (h : Option CloseHandler) (hk : h.any CloseHandler.callsUser = false)
      (hcb : cfg.connectCb = false) (hc : c = s.made) (hm : s'.made = s.made + 1)
      (hi : s'.impls c = { s.impls c with onClose := h, reading := true })
      (hs : s'.pool.submitted c = s.pool.submitted c)
      (hp : ∀ t, .conn c t ∈ s'.posts.pending → .conn c t ∈ s.posts.pending ∨ t = .startReading)

variable {cfg : StreamConfig} {s s' : Stream n} {a : Act n}

/-- The view of a step of connection `d` from connection `c`; `s₀` is `s` with
the task taken off the posts, if the step is one. -/
theorem connStep_view {s₀ : Stream n} {d : Nat} {b : Conn.Act CloseHandler}
    (he : s₀.connStep d b = some s') (hi : s₀.impls = s.impls) (hs : s₀.pool = s.pool)
    (hp : ∀ t, t ∈ s₀.posts.pending → t ∈ s.posts.pending) (hb : s.Permits a d b) (c : Nat) :
    View cfg s s' a c := by
  obtain ⟨r, hr, rfl⟩ := Option.map_eq_some_iff.1 he
  by_cases hc : c = d
  · subst hc
    refine .step b r.2 hb (by rw [← hi, hr, absorb_impls_self]) ?_ fun t ht => ?_
    · rw [absorb_submitted_self, hs]
    · rw [absorb_pending, List.mem_append] at ht
      refine ht.imp (hp _) fun ht => ?_
      simpa using ht
  · refine .same (by rw [absorb_impls_ne _ _ hc, hi]) ?_ fun t ht => ?_
    · rw [absorb_submitted_ne _ _ hc, hs]
    · rw [absorb_pending, List.mem_append] at ht
      refine hp _ (ht.resolve_right fun ht => ?_)
      simp only [List.mem_map, StreamTask.conn.injEq] at ht
      obtain ⟨_, _, e, _⟩ := ht
      exact hc e.symm

/-- A pool step that submits nothing to a serial queue. -/
theorem View.pool_step {c : Nat} (h : View cfg s s' a c) {p : StreamPool n}
    (hp : p.submitted = s'.pool.submitted) : View cfg s { s' with pool := p } a c := by
  cases h with
  | same hi hs ht => exact .same hi (by rw [← hs]; exact congrFun hp c) ht
  | step b o hb he hs ht => exact .step b o hb he (by rw [← hs]; exact congrFun hp c) ht
  | silent h hk hcb hc hm hi hs ht =>
    exact .silent h hk hcb hc hm hi (by rw [← hs]; exact congrFun hp c) ht

theorem hand_view {h : Option CloseHandler} {s₀ : Stream n} (hi : s₀.impls = s.impls)
    (hs : s₀.pool = s.pool) (hp : s₀.posts = s.posts) (hm : s₀.made = s.made + 1)
    (hk : h.any CloseHandler.callsUser = false) (c : Nat) :
    View cfg s (s₀.hand cfg s.made h) a c := by
  unfold hand
  split
  · exact .same (by rw [hi]) (by rw [← hs]; rfl) (by rw [← hp]; exact fun _ => id)
  · rename_i hcb
    by_cases hc : c = s.made
    · subst hc
      refine .silent h hk (by simpa using hcb) rfl hm (by simp [hi]) (by rw [← hs]) fun t ht => ?_
      simpa [hp] using ht
    · refine .same (by simp [hi, hc]) (by rw [← hs]) fun t ht => ?_
      simpa [hp, hc] using ht

/-- **Every step, seen from one connection.** -/
theorem step_view (he : step cfg s a = some s') (c : Nat) : View cfg s s' a c := by
  have hpool {p : StreamPool n} (pa : StreamPoolAct n)
      (hp : SerialPool.step StreamJob.begin s.pool pa = some p) (hpa : ∀ q t, pa ≠ .submit q t) :
      View cfg s { s with pool := p } a c :=
    .same rfl (congrFun (SerialPool.step_submitted hp hpa) c) fun _ => id
  cases step_cases he with
  | full | reportError | join | clear | shutdown => exact .same rfl rfl fun _ => id
  | accept fd | connected fd => refine hand_view (s := s) ?_ ?_ ?_ ?_ ?_ c <;> rfl
  | conn d b _ hd hb h =>
    refine connStep_view h rfl rfl (fun _ => id) ?_ c
    cases b with
    | call _ => exact ⟨rfl, hd⟩
    | advance _ => exact hd
    | event _ _ => exact ⟨hd, hb.1.1⟩
    | drainLock => exact ⟨hd, hb.1⟩
    | drainSend _ => exact ⟨hd, hb.1⟩
    | setOnData => exact hb
    | setOnClose h => exact ⟨hb.1, .inl ⟨rfl, hb.2⟩⟩
    | startReading => cases hb
    | task _ _ => cases hb
    | teardownClose => cases hb
  | swap q hq | enterPoll q hq => exact .same rfl rfl fun _ ht => hq ▸ ht
  | task ok d t q _ ht hn h =>
    refine connStep_view (s := s) h rfl rfl (fun t' ht' => ?_) ⟨rfl, ht, q, hn⟩ c
    rw [PostQueue.pending_next hn]
    exact List.mem_cons_of_mem _ ht'
  | erase ok fd q ht hn =>
    refine .same rfl rfl fun t' ht' => ?_
    rw [PostQueue.pending_next hn]
    exact List.mem_cons_of_mem _ ht'
  | take w p hp => exact hpool (.take w) hp (by simp)
  | errorReturn w p _ hp => exact hpool (.appStep w none) hp (by simp)
  | drainLock w p hp => exact hpool (.drainLock w) hp (by simp)
  | fnReturn w d t p _ _ hp => exact hpool (.fnReturn w) hp (by simp)
  | install w d s₁ p hw h hp =>
    refine (connStep_view h rfl rfl (fun _ => id) ⟨⟨w, hw⟩, .inr ⟨⟨w, rfl, hw⟩, rfl⟩⟩ c).pool_step
      ?_
    exact SerialPool.step_submitted (b := StreamJob.begin) (a := .appStep w _) hp (by simp)
  | startReading w d s₁ p hw h hp =>
    refine (connStep_view h rfl rfl (fun _ => id) ⟨w, rfl, hw⟩ c).pool_step ?_
    exact SerialPool.step_submitted (b := StreamJob.begin) (a := .appStep w none) hp (by simp)
  | runClose w d h =>
    refine .same rfl rfl fun t ht => ?_
    simp only [enter] at ht
    split at ht
    · simpa using ht
    · exact ht
  | teardownClose d _ ht ho h => exact connStep_view h rfl rfl (fun _ => id) ⟨rfl, ht, ho⟩ c

/-! ## The steps of the pool -/

/-- What stands behind a step of the pool. -/
def PoolPermits (cfg : StreamConfig) (s s' : Stream n) (a : Act n) : StreamPoolAct n → Prop
  | .submitApp (.onConnect c) => cfg.connectCb = true ∧ c = s.made ∧ s'.made = s.made + 1
  | .appStep w y =>
    (∃ c, s.pool.pool.workers w = .running (.app (.onConnect c)) ∧ y = some (.installed c) ∧
      a = .install w) ∨
    (∃ c, s.pool.pool.workers w = .running (.app (.installed c)) ∧ y = none ∧
      a = .startReading w) ∨
    (s.pool.pool.workers w = .running (.app .onError) ∧ y = none)
  | .shutdown => s'.teardown = .down
  | _ => True

/-- How far a step takes `do_destroy`. -/
inductive TeardownView (s s' : Stream n) (a : Act n) : Prop where
  | same (h : s'.teardown = s.teardown)
  | join (ha : a = .join) (h : s.teardown = .running) (h' : s'.teardown = .joined)
  | clear (ha : a = .clear) (h : s.teardown = .joined) (h' : s'.teardown = .cleared)
  | shutdown (ha : a = .shutdown) (h : s.teardown = .cleared) (h' : s'.teardown = .down)

/-- What a step of the stream is to the pool. -/
structure PoolView (cfg : StreamConfig) (s s' : Stream n) (a : Act n) : Prop where
  teardown : TeardownView s s' a
  made : s.made ≤ s'.made
  pool : s'.pool = s.pool ∨
    ∃ pa, SerialPool.step StreamJob.begin s.pool pa = some s'.pool ∧ PoolPermits cfg s s' a pa ∧
      ((s.teardown ≠ .down → s.pool.pool.Accepts) → s.pool.Accepted pa)

theorem PoolView.down (h : PoolView cfg s s' a) (hd : s.teardown = .down) :
    s'.teardown = .down := by
  cases h.teardown with
  | same h => exact h.trans hd
  | join _ h => rw [h] at hd; cases hd
  | clear _ h => rw [h] at hd; cases hd
  | shutdown _ _ h => exact h

theorem PoolView.of_eq (ht : s'.teardown = s.teardown) (hm : s.made ≤ s'.made)
    (hp : s'.pool = s.pool) : PoolView cfg s s' a := ⟨.same ht, hm, .inl hp⟩

/-- A step of the pool that submits nothing. -/
theorem PoolView.of_step (pa : StreamPoolAct n) (ht : s'.teardown = s.teardown)
    (hm : s'.made = s.made) (hp : SerialPool.step StreamJob.begin s.pool pa = some s'.pool)
    (hpa : PoolPermits cfg s s' a pa) (ha : s.pool.Accepted pa) : PoolView cfg s s' a :=
  ⟨.same ht, Nat.le_of_eq hm.symm, .inr ⟨pa, hp, hpa, fun _ => ha⟩⟩

/-- A step of a connection that submits nothing. -/
theorem connStep_quiet {c : Nat} {b : Conn.Act CloseHandler} (he : s.connStep c b = some s')
    (hq : ∀ r, (s.impls c).step b = some r → r.2.submits = []) :
    s'.teardown = s.teardown ∧ s'.made = s.made ∧ s'.pool = s.pool := by
  obtain ⟨r, hr, rfl⟩ := Option.map_eq_some_iff.1 he
  exact ⟨rfl, rfl, by simp [absorb, hq r hr]⟩

theorem setup_submits {c : Conn CloseHandler} {b : Conn.Act CloseHandler} (hb : b.Setup) :
    ∀ r, c.step b = some r → r.2.submits = [] := fun _ hr => (Conn.step_setup hb hr).2.1

theorem user_submits {c : Conn CloseHandler} {b : Conn.Act CloseHandler}
    (hb : (∃ op, b = .call op) ∨ ∃ i, b = .advance i) :
    ∀ r, c.step b = some r → r.2.submits = [] := by
  intro r hr
  rcases hb with ⟨op, rfl⟩ | ⟨i, rfl⟩
  · cases hr; rfl
  · obtain ⟨pc, -, rfl⟩ := Option.map_eq_some_iff.1 hr
    exact Conn.advance_submits i pc

/-- A step of a connection before the pool is stopped. -/
theorem connStep_pool {s₀ : Stream n} {c : Nat} {b : Conn.Act CloseHandler}
    (he : s₀.connStep c b = some s') (hp : s₀.pool = s.pool) (hm : s₀.made = s.made)
    (ht : s₀.teardown = s.teardown) (hd : s.teardown ≠ .down) : PoolView cfg s s' a := by
  obtain ⟨r, hr, rfl⟩ := Option.map_eq_some_iff.1 he
  refine ⟨.same ht, Nat.le_of_eq hm.symm, ?_⟩
  rcases Conn.step_submits hr with h | ⟨-, cb, h⟩
  · exact .inl (by simp [absorb, h, hp])
  · exact .inr ⟨.submit c cb, by simp [absorb, h, hp, SerialPool.step], trivial, fun ha _ => ha hd⟩

/-- A new connection, before the pool is stopped. -/
theorem hand_pool {h : Option CloseHandler} {s₀ : Stream n} (hp : s₀.pool = s.pool)
    (hm : s₀.made = s.made + 1) (ht : s₀.teardown = s.teardown) (hd : s.teardown ≠ .down) :
    PoolView cfg s (s₀.hand cfg s.made h) a := by
  unfold hand
  split
  · rename_i hcb
    refine ⟨.same ht, by rw [hm]; exact Nat.le_succ _,
      .inr ⟨.submitApp (.onConnect s.made), ?_, ⟨hcb, rfl, hm⟩, fun h => h hd⟩⟩
    rw [← hp]
    rfl
  · exact .of_eq ht (by rw [hm]; exact Nat.le_succ _) hp

/-- **Every step, seen from the pool.** -/
theorem step_pool (he : step cfg s a = some s') : PoolView cfg s s' a := by
  have hrun : s.teardown = .running → s.teardown ≠ .down := fun h => by rw [h]; rintro ⟨⟩
  cases step_cases he with
  | full | swap | enterPoll | erase | runClose => exact .of_eq rfl (Nat.le_refl _) rfl
  | accept fd _ ht | connected fd _ ht => exact hand_pool rfl rfl rfl (hrun ht)
  | reportError ht =>
    exact ⟨.same rfl, Nat.le_refl _,
      .inr ⟨.submitApp .onError, rfl, trivial, fun h => h (hrun ht)⟩⟩
  | conn c b _ hc hb h =>
    have hquiet (hq : ∀ r, (s.impls c).step b = some r → r.2.submits = []) :
        PoolView cfg s s' (.conn c b) := by
      obtain ⟨h1, h2, h3⟩ := connStep_quiet h hq
      exact .of_eq h1 (Nat.le_of_eq h2.symm) h3
    cases b with
    | call op => exact hquiet (user_submits (.inl ⟨op, rfl⟩))
    | advance i => exact hquiet (user_submits (.inr ⟨i, rfl⟩))
    | setOnData => exact hquiet (setup_submits trivial)
    | setOnClose h => exact hquiet (setup_submits trivial)
    | event ev r => exact connStep_pool h rfl rfl rfl (hrun hb.1.1)
    | drainLock => exact connStep_pool h rfl rfl rfl (hrun hb.1)
    | drainSend r => exact connStep_pool h rfl rfl rfl (hrun hb.1)
    | startReading => cases hb
    | task _ _ => cases hb
    | teardownClose => cases hb
  | task ok c t q _ ht hn h => exact connStep_pool h rfl rfl rfl (hrun ht)
  | teardownClose c _ ht ho h => exact connStep_pool h rfl rfl rfl (by rw [ht]; rintro ⟨⟩)
  | take w p hp => exact .of_step (.take w) rfl rfl hp trivial trivial
  | drainLock w p hp => exact .of_step (.drainLock w) rfl rfl hp trivial trivial
  | fnReturn w c t p _ _ hp => exact .of_step (.fnReturn w) rfl rfl hp trivial trivial
  | errorReturn w p hw hp =>
    exact .of_step (.appStep w none) rfl rfl hp (.inr (.inr ⟨hw, rfl⟩)) trivial
  | install w c s₁ p hw h hp =>
    obtain ⟨ht, hm, hs⟩ := connStep_quiet h (setup_submits trivial)
    rw [hs] at hp
    exact .of_step (.appStep w _) ht hm hp (.inl ⟨c, hw, rfl, rfl⟩) trivial
  | startReading w c s₁ p hw h hp =>
    obtain ⟨ht, hm, hs⟩ := connStep_quiet h (setup_submits trivial)
    rw [hs] at hp
    exact .of_step (.appStep w _) ht hm hp (.inr (.inl ⟨c, hw, rfl, rfl⟩)) trivial
  | join ht => exact ⟨.join rfl ht rfl, Nat.le_refl _, .inl rfl⟩
  | clear ht => exact ⟨.clear rfl ht rfl, Nat.le_refl _, .inl rfl⟩
  | shutdown ht =>
    exact ⟨.shutdown rfl ht rfl, Nat.le_refl _, .inr ⟨.shutdown, rfl, rfl, fun _ => trivial⟩⟩

/-- The pool takes whatever is submitted until it is told to stop. -/
def Accepting (s : Stream n) : Prop :=
  s.pool.pool.maxQueueSize = 0 ∧ (s.teardown ≠ .down → s.pool.pool.stopped = false)

theorem Accepting.accepts (h : s.Accepting) (hd : s.teardown ≠ .down) : s.pool.pool.Accepts :=
  ⟨h.2 hd, by rw [h.1]; simp⟩

theorem reach_accepting {ok : Stream n → Act n → Prop} (h : (machine cfg n).ReachOk ok s) :
    s.Accepting := by
  refine h.inv (fun s hs => by rw [hs]; exact ⟨rfl, fun _ => rfl⟩) fun s a s' _ ih _ he => ?_
  have hd := (step_pool he).down
  obtain ⟨-, -, hp | ⟨pa, hp, hs, -⟩⟩ := step_pool he
  · exact ⟨by rw [hp]; exact ih.1, fun h' => by rw [hp]; exact ih.2 (mt hd h')⟩
  · obtain ⟨hm, hst⟩ := SerialPool.step_limits hp
    refine ⟨hm.trans ih.1, fun h' => (hst ?_).trans (ih.2 (mt hd h'))⟩
    rintro rfl
    exact h' hs

/-- **The pool of a stream** runs as a pool that accepts every submission. -/
theorem reach_pool {ok : Stream n → Act n → Prop} (h : (machine cfg n).ReachOk ok s) :
    (SerialPool.machine StreamJob.begin n 0).ReachOk SerialPool.Accepted s.pool := by
  refine h.sim (f := Stream.pool) (fun s hs => by rw [hs]; rfl) fun s a s' hr _ he => ?_
  obtain ⟨-, -, hp | ⟨pa, hp, -, ha⟩⟩ := step_pool he
  · exact .inl hp
  · exact .inr ⟨pa, ha (reach_accepting hr).accepts, hp⟩

theorem reach_queue {ok : Stream n → Act n → Prop} (h : (machine cfg n).ReachOk ok s) (c : Nat) :
    s.pool.QueueInv c := SerialPool.reach_inv (reach_pool h) c

theorem reach_lastStarted {ok : Stream n → Act n → Prop} (h : (machine cfg n).ReachOk ok s)
    (c : Nat) : s.pool.LastStarted c := SerialPool.reach_last (reach_pool h) c

/-! ## The steps of the table -/

/-- The owners of the connections are not dropped yet. -/
def Live (s : Stream n) : Prop := s.teardown = .running ∨ s.teardown = .joined

def StreamTask.erased : StreamTask → Option Fd
  | .conn _ _ => none
  | .erase fd => some fd

/-- The descriptors whose erase is posted, in order. -/
def erases (s : Stream n) : List Fd := s.posts.pending.filterMap StreamTask.erased

/-- The table, and what decides about it, is untouched. -/
structure SameTable (s s' : Stream n) : Prop where
  made : s'.made = s.made
  fds : s'.fds = s.fds
  connections : s'.connections = s.connections
  count : s'.connectionCount = s.connectionCount
  client : s'.client = s.client
  entered : s'.entered = s.entered
  erases : s'.erases = s.erases
  live : s'.Live ↔ s.Live

theorem SameTable.trans {s₁ s₂ s₃ : Stream n} (h : SameTable s₁ s₂) (h' : SameTable s₂ s₃) :
    SameTable s₁ s₃ :=
  ⟨h'.made.trans h.made, h'.fds.trans h.fds, h'.connections.trans h.connections,
    h'.count.trans h.count, h'.client.trans h.client, h'.entered.trans h.entered,
    h'.erases.trans h.erases, h'.live.trans h.live⟩

/-- What a step of the stream is to its table. -/
inductive TableView (cfg : StreamConfig) (s s' : Stream n) (a : Act n) : Prop where
  | same (h : SameTable s s')
  | made (fd : Fd) (hg : a = .accept fd ∧ cfg.mode = .listen ∧ s.teardown = .running ∧ s.FdFree fd ∧
        ¬ (0 < cfg.maxConn ∧ cfg.maxConn ≤ s.size))
      (hm : s'.made = s.made + 1) (hf : s'.fds = Function.update s.fds s.made fd)
      (ht : s'.connections = s.connections.insert fd ⟨s.made, cfg.connectCb⟩)
      (hn : s'.connectionCount = sizeAdd s.connectionCount 1) (hc : s'.client = s.client)
      (he : s'.entered = s.entered) (hp : s'.erases = s.erases) (hl : s'.Live ↔ s.Live)
  | connected (fd : Fd) (hg : cfg.mode = .client ∧ s.teardown = .running ∧ s.made = 0)
      (hm : s'.made = s.made + 1) (hf : s'.fds = Function.update s.fds s.made fd)
      (ht : s'.connections = s.connections) (hn : s'.connectionCount = s.connectionCount)
      (hc : s'.client = some ⟨s.made, cfg.connectCb⟩)
      (he : s'.entered = s.entered) (hp : s'.erases = s.erases) (hl : s'.Live ↔ s.Live)
  | erased (fd : Fd) (hg : s.Live) (hm : s'.made = s.made) (hf : s'.fds = s.fds)
      (ht : s'.connections = s.connections.erase fd)
      (hn : s'.connectionCount = sizeSub s.connectionCount 1) (hc : s'.client = s.client)
      (he : s'.entered = s.entered) (hp : s.erases = fd :: s'.erases) (hl : s'.Live ↔ s.Live)
  | entered (c : Nat) (h : CloseHandler)
      (hg : (∃ w, s.pool.pool.workers w = .running (.fn c .onClose)) ∧ s.entered c = none ∧
        (s.impls c).onClose = some h)
      (hm : s'.made = s.made) (hf : s'.fds = s.fds) (ht : s'.connections = s.connections)
      (hn : s'.connectionCount = s.connectionCount) (hc : s'.client = s.client)
      (he : s'.entered = Function.update s.entered c (some h))
      (hp : s'.erases = s.erases ++
        if h.isWrapper ∧ cfg.mode = .listen then [s.fds c] else []) (hl : s'.Live ↔ s.Live)
  | cleared (hg : s.teardown = .joined ∧
        ∀ c < s.made, (s.owner c).isSome = true → (s.impls c).closed = true)
      (hm : s'.made = s.made) (hf : s'.fds = s.fds) (ht : s'.connections = ∅)
      (hn : s'.connectionCount = 0) (hc : s'.client = none) (he : s'.entered = s.entered)
      (hp : s'.erases = s.erases) (hl : ¬ s'.Live)

theorem filterMap_erased_conn (c : Nat) (ts : List ConnTask) :
    (ts.map (StreamTask.conn c)).filterMap StreamTask.erased = [] := by
  simp [List.filterMap_eq_nil_iff, StreamTask.erased]

theorem connStep_sameTable {c : Nat} {b : Conn.Act CloseHandler} (he : s.connStep c b = some s') :
    SameTable s s' := by
  obtain ⟨r, -, rfl⟩ := Option.map_eq_some_iff.1 he
  refine ⟨rfl, rfl, rfl, rfl, rfl, rfl, ?_, .rfl⟩
  rw [erases, absorb_pending, List.filterMap_append, filterMap_erased_conn, List.append_nil, erases]

/-- A step of the pool. -/
theorem sameTable_pool (s : Stream n) (p : StreamPool n) : SameTable s { s with pool := p } :=
  ⟨rfl, rfl, rfl, rfl, rfl, rfl, rfl, .rfl⟩

/-- The posts change hands. -/
theorem sameTable_posts {q : PostQueue StreamTask} (hq : q.pending = s.posts.pending) :
    SameTable s { s with posts := q } :=
  ⟨rfl, rfl, rfl, rfl, rfl, rfl, by rw [erases, erases, hq], .rfl⟩

theorem hand_sameTable (s : Stream n) (cfg : StreamConfig) (c : Nat) (h : Option CloseHandler) :
    SameTable s (s.hand cfg c h) := by
  unfold hand
  split
  · exact ⟨rfl, rfl, rfl, rfl, rfl, rfl, rfl, .rfl⟩
  · refine ⟨rfl, rfl, rfl, rfl, rfl, rfl, ?_, .rfl⟩
    rw [erases, PostQueue.pending_post, List.filterMap_append, erases]
    exact List.append_nil _

/-- **Every step, seen from the table.** -/
theorem step_table (he : step cfg s a = some s') : TableView cfg s s' a := by
  cases step_cases he with
  | full => exact .same ⟨rfl, rfl, rfl, rfl, rfl, rfl, rfl, .rfl⟩
  | accept fd hmode ht hf hmax =>
    have h := hand_sameTable { s with
      made := s.made + 1
      fds := Function.update s.fds s.made fd
      connections := s.connections.insert fd ⟨s.made, cfg.connectCb⟩
      connectionCount := sizeAdd s.connectionCount 1 } cfg s.made (some (.wrapper false))
    exact .made fd ⟨rfl, hmode, ht, hf, hmax⟩ h.made h.fds h.connections h.count h.client h.entered
      h.erases h.live
  | connected fd hmode ht hm =>
    have h := hand_sameTable { s with
      made := s.made + 1
      fds := Function.update s.fds s.made fd
      client := some ⟨s.made, cfg.connectCb⟩
      connectedFlag := true } cfg s.made none
    exact .connected fd ⟨hmode, ht, hm⟩ h.made h.fds h.connections h.count h.client h.entered
      h.erases h.live
  | conn c b _ _ _ h => exact .same (connStep_sameTable h)
  | teardownClose c _ _ _ h => exact .same (connStep_sameTable h)
  | swap q hq | enterPoll q hq => exact .same (sameTable_posts hq)
  | task ok c t q _ ht hn h =>
    have h₀ : SameTable s { s with posts := q } :=
      ⟨rfl, rfl, rfl, rfl, rfl, rfl, by rw [erases, erases, PostQueue.pending_next hn]; rfl, .rfl⟩
    exact .same (h₀.trans (connStep_sameTable h))
  | erase ok fd q ht hn =>
    exact .erased fd (.inl ht) rfl rfl rfl rfl rfl rfl
      (by rw [erases, PostQueue.pending_next hn]; rfl) .rfl
  | reportError | take | errorReturn | drainLock | fnReturn => exact .same (sameTable_pool ..)
  | install w c s₁ p hw h | startReading w c s₁ p hw h =>
    exact .same ((connStep_sameTable h).trans (sameTable_pool ..))
  | runClose w c h hw hen hcl =>
    refine .entered c h ⟨⟨w, hw⟩, hen, hcl⟩ rfl rfl rfl rfl rfl rfl ?_ .rfl
    rw [erases, enter]
    by_cases hg : h.isWrapper = true ∧ cfg.mode = .listen
    · simp only [if_pos hg, PostQueue.pending_post, List.filterMap_append]; rfl
    · simp only [if_neg hg, List.append_nil]; rfl
  | join ht => exact .same ⟨rfl, rfl, rfl, rfl, rfl, rfl, rfl, by simp [Live, ht]⟩
  | clear ht hall =>
    exact .cleared ⟨ht, hall⟩ rfl rfl rfl rfl rfl rfl rfl (by simp [Live, clear])
  | shutdown ht => exact .same ⟨rfl, rfl, rfl, rfl, rfl, rfl, rfl, by simp [Live, ht]⟩

end Stream

end Socketpp
