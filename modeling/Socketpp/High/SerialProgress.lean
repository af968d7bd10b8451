import Socketpp.High.SerialQueue

/-!
# Serial queues come to rest

The facts about a pool and its serial queues that hold whatever is submitted. `Fifo`:
what was started and what is pending is what was submitted, also when the pool refuses
a drain. `Live`: a pool that was not stopped and has no limit keeps its workers; `work`
is a measure that each step of a worker makes smaller, and when no worker can do
anything nothing is pending. `Drained`: a worker leaves its loop only when the pool was
stopped and nothing is queued.
-/

namespace Socketpp

/-! ## Tasks and workers -/

section

variable {κ τ X Y : Type} {n : Nat} {f : X → Nat} {g : Y → Nat}

/-- A queued drain is taken and ends; `f` is the work of a task of the application. -/
def Job.work (f : X → Nat) : Job κ X → Nat
  | .drain _ => 1
  | .app x => f x

/-- A task that runs returns, and then its drain ends. -/
def Exec.work (g : Y → Nat) : Exec κ τ Y → Nat
  | .top _ => 1
  | .fn _ _ => 2
  | .app y => g y

/-- A worker that is still there has its exit to come. -/
def Worker.alive {R : Type} : Worker R → Nat
  | .exited => 0
  | .waiting | .running _ => 1

theorem ThreadPool.alive_setRunning {J R : Type} {p : ThreadPool J R n} {w : Fin n}
    (hw : p.workers w ≠ .exited) (r : R) :
    ∑ w', ((p.setRunning w r).workers w').alive = ∑ w', (p.workers w').alive := by
  refine Cells.sum_update_same (g := Worker.alive) ?_
  cases h : p.workers w with
  | exited => exact absurd h hw
  | waiting => rfl
  | running r => rfl

theorem ThreadPool.alive_finish {J R : Type} {p : ThreadPool J R n} {w : Fin n} {r : R}
    (hw : p.workers w = .running r) :
    ∑ w', ((p.finish w).workers w').alive = ∑ w', (p.workers w').alive := by
  refine Cells.sum_update_same (g := Worker.alive) ?_
  rw [hw]
  rfl

/-- A worker takes a task, or leaves. -/
theorem ThreadPool.take_work {b : X → Y} (hb : ∀ x, g (b x) = f x)
    {p p' : ThreadPool (Job κ X) (Exec κ τ Y) n} {w : Fin n}
    (hp : p.take (Job.begin b) w = some p') :
    p'.queue.length + p'.jobs (Job.work f) (Exec.work g) + ∑ w', (p'.workers w').alive <
      p.queue.length + p.jobs (Job.work f) (Exec.work g) + ∑ w', (p.workers w').alive := by
  have hjobs : p'.jobs (Job.work f) (Exec.work g) = p.jobs (Job.work f) (Exec.work g) := by
    refine ThreadPool.jobs_take (fun j => ?_) hp
    cases j with
    | drain q => rfl
    | app x => exact hb x
  obtain ⟨hw, ⟨-, hq, rfl⟩ | ⟨j, rest, hq, rfl⟩⟩ := ThreadPool.take_cases hp
  · have hexit := Cells.sum_update Worker.alive p.workers w .exited
    rw [hw] at hexit
    simp only [Worker.alive] at hexit
    simp only [hjobs, Worker.alive]
    omega
  · have halive := ThreadPool.alive_setRunning (p := p) (w := w) (by rw [hw]; rintro ⟨⟩)
      (Job.begin b j)
    simp only [ThreadPool.setRunning] at halive
    simp only [hjobs, halive, hq, List.length_cons]
    omega

end

namespace SerialPool

variable {κ τ X Y : Type} [DecidableEq κ] {n : Nat} {s s' : SerialPool κ τ X Y n} {f : X → Nat}
  {g : Y → Nat}

/-! ## What was submitted -/

theorem submit_submitted (s : SerialPool κ τ X Y n) (q q' : κ) (t : τ) :
    (s.submit q t).submitted q' = s.submitted q' ++ if q' = q then [t] else [] := by
  show Function.update s.submitted q _ q' = _
  by_cases e : q' = q
  · subst e
    rw [Function.update_self, if_pos rfl]
  · rw [Function.update_of_ne e, if_neg e, List.append_nil]

/-- What was started and what is pending is what was submitted, whether or not the pool accepts
the drains. -/
def Fifo (s : SerialPool κ τ X Y n) : Prop :=
  ∀ q, s.started q ++ (s.queues q).pending = s.submitted q

theorem step_fifo {b : X → Y} {a : SerialAct κ τ X Y n} (h : s.Fifo)
    (he : step b s a = some s') : s'.Fifo := by
  cases step_view he with
  | submit q t =>
    intro q'
    by_cases hq : q' = q
    · subst hq
      simp [submit, ← h q']
    · simpa [submit, hq] using h q'
  | drainEmpty w q hw hp =>
    intro q'
    by_cases hq : q' = q
    · subst hq
      simpa [hp] using h q'
    · simpa [hq] using h q'
  | drainNext w q t rest hw hp =>
    intro q'
    by_cases hq : q' = q
    · subst hq
      simpa [hp] using h q'
    · simpa [hq] using h q'
  | _ => exact h

/-! ## The work left in a pool -/

/-- The steps that are left: two for each pending task in one of the queues `K`, those of the
drains and of the application's own tasks, and the exits of the workers. -/
def work (K : Finset κ) (f : X → Nat) (g : Y → Nat) (s : SerialPool κ τ X Y n) : Nat :=
  2 * ∑ q ∈ K, (s.queues q).pending.length + s.pool.queue.length +
    s.pool.jobs (Job.work f) (Exec.work g) + ∑ w, (s.pool.workers w).alive

variable {K : Finset κ}

/-- Changing one queue. -/
theorem sum_pending_update (queues : κ → SerialState τ) {q : κ} (hq : q ∈ K)
    (v : SerialState τ) :
    ∑ q' ∈ K, (Function.update queues q v q').pending.length + (queues q).pending.length =
      ∑ q' ∈ K, (queues q').pending.length + v.pending.length :=
  Cells.sum_update_mem (fun x => x.pending.length) queues hq v

theorem work_submit {q : κ} (hq : q ∈ K) (t : τ) :
    (s.submit q t).work K f g ≤ s.work K f g + 4 := by
  have hsum := sum_pending_update s.queues hq ⟨(s.queues q).pending ++ [t], true⟩
  rw [List.length_append, List.length_singleton] at hsum
  have hpool : (s.submit q t).pool.queue.length +
        (s.submit q t).pool.jobs (Job.work f) (Exec.work g) ≤
      s.pool.queue.length + s.pool.jobs (Job.work f) (Exec.work g) + 2 := by
    simp only [submit]
    split
    · omega
    · rcases ThreadPool.submit_cases s.pool (.drain q) with e | e <;> rw [e]
      · omega
      · simp [ThreadPool.jobs, Job.work]
        omega
  have hqueues : (s.submit q t).queues =
      Function.update s.queues q ⟨(s.queues q).pending ++ [t], true⟩ := rfl
  unfold work
  rw [hqueues, submit_workers]
  omega

/-- What a worker does with the queues. -/
def SerialAct.Worker : SerialAct κ τ X Y n → Prop
  | .take _ | .drainLock _ | .fnReturn _ => True
  | _ => False

/-- **Every step of a worker leaves less to do.** -/
theorem work_lt {b : X → Y} (hb : ∀ x, g (b x) = f x)
    (hK : ∀ q, q ∉ K → (s.queues q).pending = []) {a : SerialAct κ τ X Y n}
    (ha : a.Worker) (he : step b s a = some s') : s'.work K f g < s.work K f g := by
  unfold work
  cases step_view he with
  | submit => cases ha
  | submitApp => cases ha
  | appReturn => cases ha
  | appMove => cases ha
  | shutdown => cases ha
  | take w p hp =>
    have hlt := ThreadPool.take_work hb hp
    dsimp only
    omega
  | drainEmpty w q hw hp =>
    have hsum : ∑ q' ∈ K, (Function.update s.queues q ⟨[], false⟩ q').pending.length =
        ∑ q' ∈ K, (s.queues q').pending.length := by
      refine Finset.sum_congr rfl fun q' _ => ?_
      by_cases e : q' = q
      · subst e
        rw [Function.update_self, hp]
      · rw [Function.update_of_ne e]
    have hjobs := ThreadPool.jobs_finish (f := Job.work f) (g := Exec.work g) hw
    have hlen : (s.pool.finish w).queue = s.pool.queue := rfl
    simp only [Exec.work] at hjobs
    simp only [hlen, hsum, ThreadPool.alive_finish hw]
    omega
  | drainNext w q t rest hw hp =>
    have hq : q ∈ K := by
      by_contra hq
      cases hp.symm.trans (hK q hq)
    have hsum := sum_pending_update s.queues hq { s.queues q with pending := rest }
    have hjobs := ThreadPool.jobs_setRunning (f := Job.work f) (g := Exec.work g) hw (.fn q t)
    have hlen : (s.pool.setRunning w (.fn q t)).queue = s.pool.queue := rfl
    have halive := ThreadPool.alive_setRunning (p := s.pool) (w := w) (by rw [hw]; rintro ⟨⟩)
      (.fn q t)
    simp only [Exec.work] at hjobs
    simp only [hp, List.length_cons] at hsum
    simp only [hlen, halive]
    omega
  | fnReturn w q t hw =>
    have hjobs := ThreadPool.jobs_setRunning (f := Job.work f) (g := Exec.work g) hw (.top q)
    have hlen : (s.pool.setRunning w (.top q)).queue = s.pool.queue := rfl
    have halive := ThreadPool.alive_setRunning (p := s.pool) (w := w) (by rw [hw]; rintro ⟨⟩)
      (.top q)
    simp only [Exec.work] at hjobs
    simp only [hlen, halive]
    omega

/-- A task of the application moves on, or returns. -/
theorem work_appStep {b : X → Y} {w : Fin n} {y : Y} (y' : Option Y)
    (hw : s.pool.workers w = .running (.app y))
    (he : step b s (.appStep w y') = some s') :
    s'.work K f g + g y = s.work K f g + y'.elim 0 g := by
  unfold work
  cases step_view he with
  | appReturn =>
    have hjobs := ThreadPool.jobs_finish (f := Job.work f) (g := Exec.work g) hw
    have hlen : (s.pool.finish w).queue = s.pool.queue := rfl
    simp only [Exec.work] at hjobs
    simp only [hlen, ThreadPool.alive_finish hw, Option.elim]
    omega
  | appMove _ _ y' =>
    have hjobs := ThreadPool.jobs_setRunning (f := Job.work f) (g := Exec.work g) hw (.app y')
    have hlen : (s.pool.setRunning w (.app y')).queue = s.pool.queue := rfl
    have halive := ThreadPool.alive_setRunning (p := s.pool) (w := w) (by rw [hw]; rintro ⟨⟩)
      (.app y')
    simp only [Exec.work] at hjobs
    simp only [hlen, halive, Option.elim]
    omega

/-- The work of a pool that only has serial queues. -/
def queueWork [Fintype κ] (s : SerialPool κ τ Empty Empty n) : Nat :=
  s.work Finset.univ Empty.elim Empty.elim

theorem queueWork_submit [Fintype κ] {s : SerialPool κ τ Empty Empty n} (q : κ) (t : τ) :
    (s.submit q t).queueWork ≤ s.queueWork + 4 :=
  work_submit (Finset.mem_univ q) t

theorem queueWork_lt [Fintype κ] {s s' : SerialPool κ τ Empty Empty n}
    {b : Empty → Empty} {a : SerialAct κ τ Empty Empty n} (ha : a.Worker)
    (he : step b s a = some s') : s'.queueWork < s.queueWork :=
  work_lt (by rintro ⟨⟩) (fun q hq => absurd (Finset.mem_univ q) hq) ha he

/-- A worker leaves its loop only when the pool is stopped. -/
theorem step_exited {b : X → Y} {a : SerialAct κ τ X Y n}
    (hs : s.pool.stopped = false) (h : ∀ w, s.pool.workers w ≠ .exited)
    (he : step b s a = some s') (w : Fin n) : s'.pool.workers w ≠ .exited := by
  have hupd (w' : Fin n) (r : Exec κ τ Y) :
      Function.update s.pool.workers w' (.running r) w ≠ .exited := by
    rw [Function.update_apply]
    split
    · simp
    · exact h w
  have hfin (w' : Fin n) : Function.update s.pool.workers w' .waiting w ≠ .exited := by
    rw [Function.update_apply]
    split
    · simp
    · exact h w
  cases step_view he with
  | submit q t => rw [submit_workers]; exact h w
  | submitApp x => rw [submitApp_workers]; exact h w
  | take w' p hp =>
    obtain ⟨-, ⟨hstop, -⟩ | ⟨j, rest, -, rfl⟩⟩ := ThreadPool.take_cases hp
    · cases hs.symm.trans hstop
    · exact hupd w' _
  | drainEmpty w' q hw hp => exact hfin w'
  | drainNext w' q t rest hw hp => exact hupd w' _
  | fnReturn w' q t hw => exact hupd w' _
  | appReturn w' y hw => exact hfin w'
  | appMove w' y y' hw => exact hupd w' _
  | shutdown => exact h w

/-- A pool without limit that runs: its queues are in order and its workers are there. -/
structure Live (s : SerialPool κ τ X Y n) : Prop where
  running : s.pool.stopped = false
  limit : s.pool.maxQueueSize = 0
  queues : ∀ q, s.QueueInv q
  workers : ∀ w, s.pool.workers w ≠ .exited

theorem start_live (n : Nat) : (start n 0 : SerialPool κ τ X Y n).Live :=
  ⟨rfl, rfl, fun q => start_inv n 0 q, fun _ => by simp [start,
    ThreadPool.start]⟩

theorem Live.accepts (h : s.Live) : s.pool.Accepts :=
  ⟨h.running, by rw [h.limit]; exact fun hl => Nat.lt_irrefl 0 hl.1⟩

theorem Live.accepted (h : s.Live) (a : SerialAct κ τ X Y n) :
    s.Accepted a := by
  cases a with
  | submit q t => exact fun _ => h.accepts
  | submitApp x => exact h.accepts
  | _ => trivial

/-- It stays so until the pool is stopped. -/
theorem step_live {b : X → Y} {a : SerialAct κ τ X Y n}
    (h : s.pool.stopped = false → s.Live) (he : step b s a = some s') :
    s'.pool.stopped = false → s'.Live := by
  intro hs'
  have hne : a ≠ .shutdown := by
    rintro rfl
    cases he
    cases hs'
  obtain ⟨hlimit, hstop⟩ := step_limits he
  have hl := h ((hstop hne).symm.trans hs')
  exact ⟨hs', hlimit.trans hl.limit, fun q => step_inv (hl.queues q) (hl.accepted a) he,
    step_exited hl.running hl.workers he⟩

theorem Live.step {b : X → Y} {a : SerialAct κ τ X Y n} (h : s.Live)
    (ha : a ≠ .shutdown) (he : step b s a = some s') : s'.Live :=
  step_live (fun _ => h) he (((step_limits he).2 ha).trans h.running)

/-- A queue without a drain job has nothing pending. -/
theorem QueueInv.pending_nil {q : κ} (h : s.QueueInv q) (hq : s.pool.queue = [])
    (hw : ∀ w r, s.pool.workers w ≠ .running r) : (s.queues q).pending = [] := by
  have hjobs := h.jobs
  have hzero (w : Fin n) : (s.pool.workers w).weight (Exec.drains q) = 0 := by
    cases hx : s.pool.workers w with
    | running r => exact absurd hx (hw w r)
    | waiting | exited => rfl
  rw [ThreadPool.drainJobs, ThreadPool.jobs, hq] at hjobs
  simp only [hzero, Finset.sum_const_zero, List.map_nil, List.sum_nil] at hjobs
  refine h.idle ?_
  cases hd : (s.queues q).draining with
  | false => rfl
  | true => rw [hd] at hjobs; cases hjobs

/-- At rest nothing is pending. -/
theorem Live.pending_nil (h : s.Live) (hq : s.pool.queue = [])
    (hw : ∀ w, s.pool.workers w = .waiting) (q : κ) : (s.queues q).pending = [] :=
  (h.queues q).pending_nil hq fun w r hr => by cases (hw w).symm.trans hr

/-- `drain` can go on. -/
theorem not_top {b : X → Y} {w : Fin n}
    (hdrain : step b s (.drainLock w) = none) (q : κ) :
    s.pool.workers w ≠ .running (.top q) := by
  intro hw
  cases hp : (s.queues q).pending <;>
    simp [step, drainLock, hw, hp] at hdrain

/-- A worker has something to do, unless the pool is at rest or the workers are inside tasks. -/
theorem Live.rest (h : s.Live) (b : X → Y) (hn : 0 < n)
    (hfn : ∀ w q t, s.pool.workers w ≠ .running (.fn q t))
    (happ : ∀ w y, s.pool.workers w ≠ .running (.app y))
    (htake : ∀ w, SerialPool.step b s (.take w) = none)
    (hdrain : ∀ w, SerialPool.step b s (.drainLock w) = none) :
    s.pool.queue = [] ∧ ∀ w, s.pool.workers w = .waiting := by
  have hwait (w : Fin n) : s.pool.workers w = .waiting := by
    cases hw : s.pool.workers w with
    | waiting => rfl
    | exited => exact absurd hw (h.workers w)
    | running r =>
      cases r with
      | app y => exact absurd hw (happ w y)
      | fn q t => exact absurd hw (hfn w q t)
      | top q => exact absurd hw (not_top (hdrain w) q)
  refine ⟨?_, hwait⟩
  cases hq : s.pool.queue with
  | nil => rfl
  | cons j rest =>
    have hnone := htake ⟨0, hn⟩
    simp [SerialPool.step, take, ThreadPool.take_task (hwait ⟨0, hn⟩) hq] at hnone

/-- The case of a pool that only has serial queues. -/
theorem Live.rest_worker [IsEmpty Y] (h : s.Live) (b : X → Y) (hn : 0 < n)
    (hstuck : ∀ a : SerialAct κ τ X Y n, a.Worker → SerialPool.step b s a = none) :
    s.pool.queue = [] ∧ ∀ w, s.pool.workers w = .waiting := by
  refine h.rest b hn (fun w q t hw => ?_) (fun _ y => isEmptyElim y)
    (fun w => hstuck (.take w) trivial) fun w => hstuck (.drainLock w) trivial
  have hnone := hstuck (.fnReturn w) trivial
  simp [SerialPool.step, fnReturn, hw] at hnone

/-! ### A pool that was stopped -/

/-- Workers have left their loops only when nothing was queued. -/
def Drained (s : SerialPool κ τ X Y n) : Prop :=
  ∀ w, s.pool.workers w = .exited → s.pool.stopped = true ∧ s.pool.queue = []

theorem step_drained {b : X → Y} {a : SerialAct κ τ X Y n} (h : s.Drained)
    (he : step b s a = some s') : s'.Drained := by
  have hupd {x : Worker (Exec κ τ Y)} (hx : x ≠ .exited) {w w' : Fin n}
      (hw : Function.update s.pool.workers w' x w = .exited) : s.pool.workers w = .exited := by
    rw [Function.update_apply] at hw
    split at hw
    · exact absurd hw hx
    · exact hw
  -- a stopped pool takes nothing
  have hsubmit (j : Job κ X) (w : Fin n) (hw : s.pool.workers w = .exited) :
      (s.pool.submit j).1 = s.pool := by
    rw [ThreadPool.submit, if_pos (h w hw).1]
  intro w hw
  cases step_view he with
  | submit q t =>
    rw [submit_workers] at hw
    unfold submit
    dsimp only
    split
    · exact h w hw
    · rw [hsubmit _ w hw]
      exact h w hw
  | submitApp x =>
    rw [submitApp_workers] at hw
    unfold submitApp
    rw [hsubmit _ w hw]
    exact h w hw
  | take w' p hp =>
    obtain ⟨-, ⟨hstop, hq, rfl⟩ | ⟨j, rest, hq, rfl⟩⟩ := ThreadPool.take_cases hp
    · exact ⟨hstop, hq⟩
    · have hnil := (h w (hupd (by rintro ⟨⟩) hw)).2
      rw [hq] at hnil
      cases hnil
  | drainEmpty | appReturn => exact h w (hupd (by rintro ⟨⟩) hw)
  | drainNext | fnReturn | appMove => exact h w (hupd (by rintro ⟨⟩) hw)
  | shutdown => exact ⟨rfl, (h w hw).2⟩

theorem step_stopped {b : X → Y} {a : SerialAct κ τ X Y n}
    (h : s.pool.stopped = true) (he : step b s a = some s') :
    s'.pool.stopped = true := by
  by_cases ha : a = .shutdown
  · subst ha
    cases he
    rfl
  · exact ((step_limits he).2 ha).trans h

/-- The workers of a stopped pool leave their loops, unless they are inside tasks. -/
theorem exited_of_stopped (b : X → Y) (hs : s.pool.stopped = true)
    (hfn : ∀ w q t, s.pool.workers w ≠ .running (.fn q t))
    (happ : ∀ w y, s.pool.workers w ≠ .running (.app y))
    (htake : ∀ w, step b s (.take w) = none)
    (hdrain : ∀ w, step b s (.drainLock w) = none) (w : Fin n) :
    s.pool.workers w = .exited := by
  cases hw : s.pool.workers w with
  | exited => rfl
  | waiting =>
    have hnone := htake w
    cases hq : s.pool.queue with
    | nil => simp [step, take, ThreadPool.take_exit hw hs hq] at hnone
    | cons j rest => simp [step, take, ThreadPool.take_task hw hq] at hnone
  | running r =>
    cases r with
    | app y => exact absurd hw (happ w y)
    | fn q t => exact absurd hw (hfn w q t)
    | top q => exact absurd hw (not_top (hdrain w) q)

end SerialPool

end Socketpp
