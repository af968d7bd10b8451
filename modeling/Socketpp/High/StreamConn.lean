import Socketpp.High.ConnectionLoop
import Socketpp.High.StreamInvariant

/-!
# A connection of a stream is a connection on a loop

`ConnLoop` is one connection alone with its event loop; a stream has many, made one
after the other, with a pool, a table and a destroying thread. Seen from connection
`c`, a run of the stream is a run of `ConnLoop` (`conn_refines`): the posts of the
others are taken out of the queue, `joined` is the join of `do_destroy`, and
`callbacks` is what was submitted to the serial queue of `c`. A connection that is
made without `on_connect_cb` takes two steps at once, `on_close_` and
`start_reading`.
-/

namespace Socketpp

namespace PostQueue

variable {τ σ : Type} {q q' : PostQueue τ} (f : τ → Option σ)

/-- The posts `f` picks, in the same buffers. -/
def filterMap (q : PostQueue τ) : PostQueue σ where
  active := q.active.filterMap f
  drain := q.drain.filterMap f
  polling := q.polling
  cleared := fun h => by rw [q.cleared h]; rfl

@[simp] theorem filterMap_pending : (q.filterMap f).pending = q.pending.filterMap f :=
  (List.filterMap_append ..).symm

@[simp] theorem filterMap_polling : (q.filterMap f).polling = q.polling := rfl

theorem ext_buffers {q q' : PostQueue τ} (ha : q.active = q'.active) (hd : q.drain = q'.drain)
    (hp : q.polling = q'.polling) : q = q' := by
  cases q
  cases q'
  cases ha
  cases hd
  cases hp
  rfl

theorem filterMap_post (ts : List τ) :
    (q.post ts).filterMap f = (q.filterMap f).post (ts.filterMap f) :=
  ext_buffers (List.filterMap_append ..) rfl rfl

theorem filterMap_swap (h : q.swap = some q') : (q.filterMap f).swap = some (q'.filterMap f) := by
  obtain ⟨hp, hp', ha, hd⟩ := swap_cases h
  rw [swap_of_polling (q := q.filterMap f) hp]
  refine congrArg some (ext_buffers ?_ ?_ hp'.symm)
  · show q.drain.filterMap f = q'.active.filterMap f
    rw [ha, q.cleared hp]
  · show q.active.filterMap f = q'.drain.filterMap f
    rw [hd]

theorem filterMap_enterPoll (h : q.enterPoll = some q') :
    (q.filterMap f).enterPoll = some (q'.filterMap f) := by
  obtain ⟨hp, hp', ha, hd, hd'⟩ := enterPoll_cases h
  have hdrain : (q.filterMap f).drain = [] := by
    show q.drain.filterMap f = []
    rw [hd]
    rfl
  unfold enterPoll
  rw [dif_pos ⟨hp, hdrain⟩]
  refine congrArg some (ext_buffers ?_ ?_ hp'.symm)
  · show q.active.filterMap f = q'.active.filterMap f
    rw [ha]
  · show (q.filterMap f).drain = q'.drain.filterMap f
    rw [hdrain, hd']
    rfl

/-- The next callback is one of those picked. -/
theorem filterMap_next {t : τ} {x : σ} (h : q.next = some (t, q')) (hx : f t = some x) :
    (q.filterMap f).next = some (x, q'.filterMap f) := by
  obtain ⟨hp, hp', ha, hd⟩ := next_cases h
  have hdrain : (q.filterMap f).drain = x :: q'.drain.filterMap f := by
    show q.drain.filterMap f = _
    rw [hd, List.filterMap_cons_some hx]
  rw [next_of_drain (q := q.filterMap f) hp hdrain]
  refine congrArg some (Prod.ext rfl (ext_buffers ?_ rfl hp'.symm))
  show q.active.filterMap f = q'.active.filterMap f
  rw [ha]

/-- The next callback is another one. -/
theorem filterMap_next_none {t : τ} (h : q.next = some (t, q')) (hx : f t = none) :
    q'.filterMap f = q.filterMap f := by
  obtain ⟨hp, hp', ha, hd⟩ := next_cases h
  refine ext_buffers ?_ ?_ (hp'.trans hp.symm)
  · show q'.active.filterMap f = q.active.filterMap f
    rw [ha]
  · show q'.drain.filterMap f = q.drain.filterMap f
    rw [hd, List.filterMap_cons_none hx]

end PostQueue

namespace ConnLoop

variable {H : Type} (l : ConnLoop H)

theorem step_setOnClose (hr : l.conn.reading = false) (h : Option H) :
    l.step (.conn (.setOnClose h)) = some { l with conn := { l.conn with onClose := h } } := by
  show (l.conn.step (.setOnClose h)).map l.absorb = _
  simp only [Conn.step]
  rw [if_neg (by rw [hr]; exact Bool.false_ne_true)]
  simp [absorb, Out.quiet]

theorem step_startReading (hr : l.conn.reading = false) :
    l.step (.conn .startReading) =
      some { l with conn := { l.conn with reading := true }
                    posts := l.posts.post [.startReading] } := by
  show (l.conn.step .startReading).map l.absorb = _
  simp only [Conn.step]
  rw [if_neg (by rw [hr]; exact Bool.false_ne_true)]
  simp [absorb, Out.post]

end ConnLoop

/-- The connection's task, if it is one of connection `c`. -/
def StreamTask.ofConn (c : Nat) : StreamTask → Option ConnTask
  | .conn c' t => if c' = c then some t else none
  | .erase _ => none

theorem StreamTask.ofConn_self (c : Nat) (ts : List ConnTask) :
    (ts.map (StreamTask.conn c)).filterMap (StreamTask.ofConn c) = ts := by
  rw [List.filterMap_map]
  convert List.filterMap_some
  simp [StreamTask.ofConn]

theorem StreamTask.ofConn_ne {c c' : Nat} (h : c' ≠ c) (ts : List ConnTask) :
    (ts.map (StreamTask.conn c')).filterMap (StreamTask.ofConn c) = [] := by
  rw [List.filterMap_map, List.filterMap_eq_nil_iff]
  intro t _
  exact if_neg h

namespace Stream

variable {n : Nat} {cfg : StreamConfig} {s s' : Stream n} {a : Act n}

/-- Connection `c` of a stream, alone on the loop. -/
def connLoop (s : Stream n) (c : Nat) : ConnLoop CloseHandler where
  conn := s.impls c
  posts := s.posts.filterMap (StreamTask.ofConn c)
  joined := decide (s.teardown ≠ .running)
  callbacks := s.pool.submitted c

/-! ## The steps of the loop thread, with their guards -/

theorem step_swap (he : step cfg s .swap = some s') :
    s.LoopFree ∧ ∃ q, s.posts.swap = some q ∧ s' = { s with posts := q } := by
  simp only [step] at he
  split at he
  · rename_i hf
    obtain ⟨q, hq, rfl⟩ := Option.map_eq_some_iff.1 he
    exact ⟨hf, q, hq, rfl⟩
  · cases he

theorem step_enterPoll (he : step cfg s .enterPoll = some s') :
    s.LoopFree ∧ ∃ q, s.posts.enterPoll = some q ∧ s' = { s with posts := q } := by
  simp only [step] at he
  split at he
  · rename_i hf
    obtain ⟨q, hq, rfl⟩ := Option.map_eq_some_iff.1 he
    exact ⟨hf, q, hq, rfl⟩
  · cases he

theorem step_runPost {ok : Bool} (he : step cfg s (.runPost ok) = some s') : s.LoopFree := by
  simp only [step] at he
  split at he
  · assumption
  · cases he

theorem step_join (he : step cfg s .join = some s') :
    s.LoopFree ∧ s.posts.polling = true ∧ s' = { s with teardown := .joined } := by
  simp only [step] at he
  split at he
  · rename_i hg
    cases he
    exact ⟨hg.1, hg.2, rfl⟩
  · cases he

theorem LoopFree.connLoop (h : s.LoopFree) (hw : Wf cfg s) (c : Nat) :
    (s.connLoop c).LoopFree := by
  refine ⟨by simp [Stream.connLoop, h.1], ?_⟩
  by_cases hc : c < s.made
  · exact h.2 c hc
  · show (s.impls c).drain = .idle
    rw [(hw.fresh c (Nat.le_of_not_lt hc)).1]
    rfl

/-! ## A step, seen from one connection -/

/-- What the dispatcher does is the same on both levels: the answer of `add`, and the events of
connection `c`. -/
def SameAnswer (s : Stream n) (a : Act n) (c : Nat) (l : ConnLoop CloseHandler) :
    ConnLoop.Act CloseHandler → Prop
  | .runPost ok => a = .runPost ok
  | .conn (.event ev r) => a = .conn c (.event ev r) ∧ l.conn = s.impls c
  | .conn _ | .swap | .enterPoll | .join => True

/-- A run of connection `c` behind the step `a` of the stream, to the state `l'`. -/
def ConnRun (cfg : StreamConfig) (s : Stream n) (a : Act n) (c : Nat)
    (l' : ConnLoop CloseHandler) : Prop :=
  ∃ bs, (ConnLoop.machine CloseHandler cfg.maxWriteBuf cfg.readBufSize).Path
    (SameAnswer s a c) (s.connLoop c) bs l'

theorem ConnRun.same {l' : ConnLoop CloseHandler} {c : Nat} (e : l' = s.connLoop c) :
    ConnRun cfg s a c l' := by
  rw [e]
  exact ⟨[], .nil _⟩

theorem ConnRun.one {l' : ConnLoop CloseHandler} {c : Nat} (b : ConnLoop.Act CloseHandler)
    (hb : SameAnswer s a c (s.connLoop c) b) (he : (s.connLoop c).step b = some l') :
    ConnRun cfg s a c l' :=
  ⟨[b], .cons hb he (.nil l')⟩

theorem connLoop_eq {c : Nat} (hi : s'.impls c = s.impls c)
    (hp : s'.posts.filterMap (StreamTask.ofConn c) = s.posts.filterMap (StreamTask.ofConn c))
    (ht : s'.teardown = .running ↔ s.teardown = .running)
    (hs : s'.pool.submitted c = s.pool.submitted c) : s'.connLoop c = s.connLoop c := by
  unfold connLoop
  rw [hi, hp, hs]
  simp only [ne_eq, ht]

/-- A step of connection `d`, seen from `c`. -/
theorem absorb_connLoop {c d : Nat} (r : Conn CloseHandler × Out) :
    (s.absorb d r).connLoop c = if d = c then (s.connLoop c).absorb r else s.connLoop c := by
  by_cases h : d = c
  · subst h
    rw [if_pos rfl]
    unfold connLoop ConnLoop.absorb
    rw [absorb_impls_self, absorb_submitted_self]
    congr 1
    show (s.posts.post (r.2.posts.map (StreamTask.conn d))).filterMap _ = _
    rw [PostQueue.filterMap_post, StreamTask.ofConn_self]
  · rw [if_neg h]
    refine connLoop_eq (absorb_impls_ne s r (Ne.symm h)) ?_ Iff.rfl
      (absorb_submitted_ne s r (Ne.symm h))
    show (s.posts.post (r.2.posts.map (StreamTask.conn d))).filterMap _ = _
    rw [PostQueue.filterMap_post, StreamTask.ofConn_ne h, PostQueue.post_nil]

/-- The engine takes a step the loop model allows. -/
theorem connRun_of_connStep {c d : Nat} {b : Conn.Act CloseHandler}
    (hb : d = c → (s.connLoop c).Allows b)
    (ha : d = c → SameAnswer s a c (s.connLoop c) (.conn b)) (he : s.connStep d b = some s') :
    ConnRun cfg s a c (s'.connLoop c) := by
  obtain ⟨r, hr, rfl⟩ := Option.map_eq_some_iff.1 he
  rw [absorb_connLoop]
  by_cases h : d = c
  · subst h
    rw [if_pos rfl]
    refine .one (.conn b) (ha rfl) ?_
    show (if (s.connLoop d).Allows b then _ else none) = _
    rw [if_pos (hb rfl)]
    exact congrArg (Option.map _) hr
  · rw [if_neg h]
    exact .same rfl

theorem Allows.connLoop {c : Nat} {b : Conn.Act CloseHandler} (hb : s.Allows c b) :
    (s.connLoop c).Allows b := by
  cases b with
  | event ev r => exact ⟨hb.2, by simp [Stream.connLoop, hb.1.1]⟩
  | drainLock => exact ⟨hb.2, by simp [Stream.connLoop, hb.1]⟩
  | drainSend r => exact ⟨hb.2, by simp [Stream.connLoop, hb.1]⟩
  | task t ok => cases hb
  | teardownClose => cases hb
  | setOnData | setOnClose h | call op | advance i | startReading => trivial

/-- A connection is made; without `on_connect_cb` it is given its close handler and starts
reading at once. -/
theorem connRun_hand {s₀ : Stream n} {h : Option CloseHandler} (hw : Wf cfg s)
    (hi : s₀.impls = s.impls) (hs : s₀.pool = s.pool) (hp : s₀.posts = s.posts)
    (ht : s₀.teardown = s.teardown) (c : Nat) :
    ConnRun cfg s a c ((s₀.hand cfg s.made h).connLoop c) := by
  have hl : s₀.connLoop c = s.connLoop c :=
    connLoop_eq (congrFun hi c) (by rw [hp]) (by rw [ht]) (by rw [hs])
  unfold ConnRun
  rw [← hl]
  unfold hand
  split
  · exact ⟨[], .nil _⟩
  · by_cases hc : c = s.made
    · subst hc
      have hread : (s₀.connLoop s.made).conn.reading = false := by
        show (s₀.impls s.made).reading = false
        rw [hi, (hw.fresh s.made (Nat.le_refl _)).1]
        rfl
      have hset := ConnLoop.step_setOnClose (s₀.connLoop s.made) hread h
      have hstart := ConnLoop.step_startReading { s₀.connLoop s.made with
        conn := { (s₀.connLoop s.made).conn with onClose := h } } hread
      refine ⟨[.conn (.setOnClose h), .conn .startReading], .cons trivial hset
        (.cons trivial (hstart.trans (congrArg some ?_)) (.nil _))⟩
      unfold connLoop
      simp only [Function.update_self, PostQueue.filterMap_post]
      rw [← StreamTask.ofConn_self s.made [ConnTask.startReading]]
      rfl
    · rw [hl]
      refine ConnRun.same (Eq.trans ?_ hl)
      refine connLoop_eq (s := s₀) ?_ ?_ Iff.rfl rfl
      · exact Function.update_of_ne hc _ _
      · show (s₀.posts.post ([ConnTask.startReading].map (StreamTask.conn s.made))).filterMap _ = _
        rw [PostQueue.filterMap_post, StreamTask.ofConn_ne (Ne.symm hc), PostQueue.post_nil]

/-- A pool step that submits nothing to the serial queue of `c`. -/
theorem connRun_pool {c : Nat} {p : StreamPool n} (pa : StreamPoolAct n)
    (hp : SerialPool.step StreamJob.begin s.pool pa = some p) (hpa : ∀ q t, pa ≠ .submit q t) :
    ({ s with pool := p }.connLoop c) = s.connLoop c :=
  connLoop_eq rfl rfl Iff.rfl (congrFun (SerialPool.step_submitted hp hpa) c)

/-- **A step of the stream is a run of each connection.** -/
theorem step_connLoop (hw : Wf cfg s) (he : step cfg s a = some s') (c : Nat) :
    ConnRun cfg s a c (s'.connLoop c) := by
  cases step_cases he with
  | full => exact .same rfl
  | reportError => exact .same rfl
  | accept fd | connected fd => refine connRun_hand (s := s) hw ?_ ?_ ?_ ?_ c <;> rfl
  | conn d b _ hd hb h =>
    refine connRun_of_connStep (fun e => by subst e; exact hb.connLoop) (fun e => ?_) h
    subst e
    cases b with
    | event ev r => exact ⟨rfl, rfl⟩
    | setOnData | setOnClose | call | advance | startReading | task | drainLock | drainSend
    | teardownClose => trivial
  | swap q hq =>
    obtain ⟨hf, q', hs, e⟩ := step_swap he
    rw [e]
    refine .one .swap trivial ?_
    show (if (s.connLoop c).LoopFree then _ else none) = _
    rw [if_pos (hf.connLoop hw c)]
    exact congrArg (Option.map _) (PostQueue.filterMap_swap _ hs)
  | enterPoll q hq =>
    obtain ⟨hf, q', hs, e⟩ := step_enterPoll he
    rw [e]
    refine .one .enterPoll trivial ?_
    show (if (s.connLoop c).LoopFree then _ else none) = _
    rw [if_pos (hf.connLoop hw c)]
    exact congrArg (Option.map _) (PostQueue.filterMap_enterPoll _ hs)
  | task ok d t q _ ht hn h =>
    by_cases hd : d = c
    · subst hd
      obtain ⟨r, hr, rfl⟩ := Option.map_eq_some_iff.1 h
      rw [absorb_connLoop, if_pos rfl]
      refine .one (.runPost ok) rfl ?_
      show (if (s.connLoop d).LoopFree then _ else none) = _
      rw [if_pos ((step_runPost he).connLoop hw d)]
      show ((s.posts.filterMap (StreamTask.ofConn d)).next.bind _) = _
      rw [PostQueue.filterMap_next _ hn (if_pos rfl)]
      exact congrArg (Option.map _) hr
    · obtain ⟨r, hr, rfl⟩ := Option.map_eq_some_iff.1 h
      rw [absorb_connLoop, if_neg hd]
      refine .same (connLoop_eq rfl ?_ Iff.rfl rfl)
      exact PostQueue.filterMap_next_none _ hn (if_neg hd)
  | erase ok fd q ht hn =>
    exact .same (connLoop_eq rfl (PostQueue.filterMap_next_none _ hn rfl) Iff.rfl rfl)
  | take w p hp => exact .same (connRun_pool (.take w) hp (by simp))
  | errorReturn w p _ hp => exact .same (connRun_pool (.appStep w none) hp (by simp))
  | drainLock w p hp => exact .same (connRun_pool (.drainLock w) hp (by simp))
  | fnReturn w d t p _ _ hp => exact .same (connRun_pool (.fnReturn w) hp (by simp))
  | install w d s₁ p hw' h hp =>
    rw [connRun_pool (.appStep w _) hp (by simp)]
    exact connRun_of_connStep (b := .setOnClose _) (fun _ => trivial) (fun _ => trivial) h
  | startReading w d s₁ p hw' h hp =>
    rw [connRun_pool (.appStep w none) hp (by simp)]
    exact connRun_of_connStep (b := .startReading) (fun _ => trivial) (fun _ => trivial) h
  | runClose w d h =>
    refine .same (connLoop_eq rfl ?_ Iff.rfl rfl)
    simp only [enter]
    split
    · rw [PostQueue.filterMap_post]
      exact PostQueue.post_nil
    · rfl
  | join ht =>
    obtain ⟨hf, hp, -⟩ := step_join he
    refine .one .join trivial ?_
    show (if (s.connLoop c).LoopFree ∧ (s.connLoop c).posts.polling = true then _ else none) = _
    rw [if_pos ⟨hf.connLoop hw c, hp⟩]
    rfl
  | teardownClose d _ ht ho h =>
    exact connRun_of_connStep (b := .teardownClose)
      (fun _ => by simp [ConnLoop.Allows, connLoop, ht]) (fun _ => trivial) h
  | clear ht => exact .same (connLoop_eq rfl rfl (by rw [ht]; simp [clear]) rfl)
  | shutdown ht => exact .same (connLoop_eq rfl rfl (by simp [ht]) rfl)

theorem reach_connLoop {ok : Stream n → Act n → Prop} (c : Nat)
    {okc : ConnLoop CloseHandler → ConnLoop.Act CloseHandler → Prop}
    (hok : ∀ s a l b, ok s a → SameAnswer s a c l b → okc l b) (h : (machine cfg n).ReachOk ok s) :
    (ConnLoop.machine CloseHandler cfg.maxWriteBuf cfg.readBufSize).ReachOk okc (s.connLoop c) := by
  refine h.sim_path (f := fun s => s.connLoop c) ?_ fun s a s' hr ho he => ?_
  · rintro s rfl
    rfl
  · obtain ⟨bs, hp⟩ := step_connLoop (reach_wf hr) he c
    exact ⟨bs, hp.mono fun l b hb => hok s a l b ho hb⟩

/-- The case without a condition. -/
theorem reach_connLoop_plain {ok : Stream n → Act n → Prop} (h : (machine cfg n).ReachOk ok s)
    (c : Nat) :
    (ConnLoop.machine CloseHandler cfg.maxWriteBuf cfg.readBufSize).Reach (s.connLoop c) :=
  reach_connLoop c (fun _ _ _ _ _ _ => trivial) h

/-- **A connection of a stream refines a connection on its own loop**, whatever the other
connections, the pool and the destroying thread do. -/
theorem conn_refines (h : (machine cfg n).Reach s) (c : Nat) :
    (ConnLoop.machine CloseHandler cfg.maxWriteBuf cfg.readBufSize).Reach (s.connLoop c) :=
  reach_connLoop_plain h c

/-- Two connections: the first one is closed by its end of stream, and the second one has
read a byte with the posts of the first one still queued. -/
theorem conn_refines_second :
    ∃ s : Stream 1, (machine ⟨.listen, 0, true, 8, 4⟩ 1).Reach s ∧
      ((s.impls 0).closed = true ∧ (s.impls 1).received = [[7]] ∧
        s.pool.submitted 0 = [.onClose] ∧ s.pool.submitted 1 = [.onData [7]] ∧
        s.posts.active ≠ [] ∧ (s.connLoop 1).posts.active = []) ∧
      (ConnLoop.machine CloseHandler 8 4).Reach (s.connLoop 1) := by
  obtain ⟨s, h, hp⟩ := Machine.Reach.of_run_init (M := machine ⟨.listen, 0, true, 8, 4⟩ 1)
    (fun s => decide ((s.impls 0).closed = true ∧ (s.impls 1).received = [[7]] ∧
      s.pool.submitted 0 = [.onClose] ∧ s.pool.submitted 1 = [.onData [7]] ∧
      s.posts.active ≠ [] ∧ (s.connLoop 1).posts.active = []))
    [.accept 5, .accept 6, .take 0, .install 0, .startReading 0, .take 0, .conn 1 .setOnData,
      .install 0, .startReading 0, .swap, .runPost true, .runPost true, .enterPoll,
      .conn 0 (.event .readable (.data [])), .take 0, .drainLock 0, .runClose 0,
      .conn 1 (.event .readable (.data [7]))]
    rfl (by decide)
  exact ⟨s, h, of_decide_eq_true hp, conn_refines h 1⟩

end Stream

end Socketpp
