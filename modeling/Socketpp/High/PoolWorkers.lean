import Socketpp.Lib.Machine
import Socketpp.High.ThreadPool

/-!
# The workers of the thread pool and their condition variable

`thread_pool` (`src/high/thread_pool.cpp`) with what `ThreadPool` leaves out: a
worker that finds nothing to do is blocked on `cv_` until it is notified, or
wakes up spuriously; `submit` calls `notify_one` after its critical section, so
a task may be queued while its notification is still on its way; `shutdown` sets
`stopped_`, calls `notify_all` and joins the workers. Any thread may submit,
also a task on a worker; tasks do not call `shutdown`, which would join their
own thread.

`reach_pool` says that the pool refines the coarser one. `TaskInv` is the account of
the accepted tasks; `ServeInv` says that a queued task has a notification on its way
or a worker that will look at the queue. `step_work_lt` bounds what the pool can do
on its own, and `pool_accounting` collects what follows.
-/

namespace Socketpp

namespace ThreadPool

/-- A call on the pool, a worker's critical section, or the end of its task. -/
inductive Act (τ : Type) (n : Nat) where
  | submit (t : τ)
  | take (w : Fin n)
  | finish (w : Fin n)
  | shutdown

/-- The pool as a machine, a task being run having no state of its own. -/
def machine (τ : Type) (n maxQueueSize : Nat) : Machine (ThreadPool τ τ n) (Act τ n) where
  Init p := p = start n maxQueueSize
  step p
    | .submit t => some (p.submit t).1
    | .take w => p.take id w
    | .finish w =>
      match p.workers w with
      | .running _ => some (p.finish w)
      | _ => none
    | .shutdown => some p.shutdown

end ThreadPool

inductive PoolWorker (τ : Type) where
  /-- about to lock `mutex_` and look at the predicate of the wait -/
  | ready
  /-- blocked in `cv_.wait` -/
  | blocked
  /-- in `task()` -/
  | running (t : τ)
  /-- returned from its loop -/
  | exited
  deriving DecidableEq

/-- Where the call of `shutdown` that sets `stopped_` is. -/
inductive ShutdownPc where
  | idle
  /-- `stopped_` is set, `notify_all` comes next -/
  | stopping
  | joining
  | returned
  deriving DecidableEq

/-- A pool with `n` workers; `inl w` is worker `w` as a submitter, `inr i` any other thread. -/
structure PoolWorkers (ι τ : Type) (n : Nat) where
  queue : List τ
  maxQueueSize : Nat
  stopped : Bool
  workers : Fin n → PoolWorker τ
  /-- the threads in `submit` between their critical section and `notify_one` -/
  notifiers : Finset (Fin n ⊕ ι)
  shutdown : ShutdownPc
  /-- the tasks whose `submit` returns true -/
  accepted : List τ
  dequeued : List τ
  finished : List τ
  /-- `accepted` when `stopped_` was set -/
  atStop : Option (List τ)

namespace PoolWorkers

variable {ι τ : Type} {n : Nat}

def start (n maxQueueSize : Nat) : PoolWorkers ι τ n where
  queue := []
  maxQueueSize := maxQueueSize
  stopped := false
  workers := fun _ => .ready
  notifiers := ∅
  shutdown := .idle
  accepted := []
  dequeued := []
  finished := []
  atStop := none

/-- `submit` returns false. -/
def Rejects (s : PoolWorkers ι τ n) : Prop :=
  s.stopped = true ∨ 0 < s.maxQueueSize ∧ s.maxQueueSize ≤ s.queue.length

instance (s : PoolWorkers ι τ n) : Decidable s.Rejects :=
  inferInstanceAs (Decidable (_ ∨ _))

def isRunning : PoolWorker τ → Bool
  | .running _ => true
  | .ready | .blocked | .exited => false

def isBlocked : PoolWorker τ → Bool
  | .blocked => true
  | .ready | .running _ | .exited => false

def isExited : PoolWorker τ → Bool
  | .exited => true
  | .ready | .running _ | .blocked => false

/-- What `notify_all` does to a worker. -/
def notified : PoolWorker τ → PoolWorker τ
  | .blocked => .ready
  | w => w

/-- The thread may call `submit`: it is not in it, and a worker is in a task. -/
def MaySubmit (s : PoolWorkers ι τ n) : Fin n ⊕ ι → Prop
  | .inl w => .inl w ∉ s.notifiers ∧ isRunning (s.workers w) = true
  | .inr i => .inr i ∉ s.notifiers

inductive Act (ι τ : Type) (n : Nat) where
  /-- the critical section of `submit` -/
  | submit (i : Fin n ⊕ ι) (t : τ)
  /-- `notify_one`, which wakes a blocked worker if there is one -/
  | notifyOne (i : Fin n ⊕ ι) (w : Option (Fin n))
  /-- a worker's critical section -/
  | check (w : Fin n)
  | spurious (w : Fin n)
  /-- `task()` returns -/
  | finish (w : Fin n)
  /-- the critical section of `shutdown` -/
  | shutdown
  | notifyAll
  /-- every worker is joined -/
  | joined

variable [DecidableEq ι]

instance (s : PoolWorkers ι τ n) : (i : Fin n ⊕ ι) → Decidable (s.MaySubmit i)
  | .inl w => inferInstanceAs (Decidable (.inl w ∉ s.notifiers ∧ isRunning (s.workers w) = true))
  | .inr i => inferInstanceAs (Decidable (.inr i ∉ s.notifiers))

/-- A worker that has the lock. -/
def check (s : PoolWorkers ι τ n) (w : Fin n) : PoolWorkers ι τ n :=
  match s.queue with
  | [] => { s with workers := Function.update s.workers w
                     (if s.stopped then .exited else .blocked) }
  | t :: rest => { s with queue := rest
                          workers := Function.update s.workers w (.running t)
                          dequeued := s.dequeued ++ [t] }

def step (s : PoolWorkers ι τ n) : Act ι τ n → Option (PoolWorkers ι τ n)
  | .submit i t =>
    if s.MaySubmit i then
      if s.Rejects then some s
      else some { s with queue := s.queue ++ [t]
                         notifiers := insert i s.notifiers
                         accepted := s.accepted ++ [t] }
    else none
  | .notifyOne i none =>
    if i ∈ s.notifiers ∧ ∀ w, isBlocked (s.workers w) = false then
      some { s with notifiers := s.notifiers.erase i }
    else none
  | .notifyOne i (some w) =>
    if i ∈ s.notifiers ∧ isBlocked (s.workers w) = true then
      some { s with notifiers := s.notifiers.erase i
                    workers := Function.update s.workers w .ready }
    else none
  | .check w =>
    match s.workers w with
    | .ready => some (s.check w)
    | _ => none
  | .spurious w =>
    if isBlocked (s.workers w) then
      some { s with workers := Function.update s.workers w .ready }
    else none
  | .finish w =>
    match s.workers w with
    | .running t =>
      if .inl w ∈ s.notifiers then none
      else some { s with workers := Function.update s.workers w .ready
                         finished := s.finished ++ [t] }
    | _ => none
  | .shutdown =>
    if s.stopped then some s
    else some { s with stopped := true, shutdown := .stopping, atStop := some s.accepted }
  | .notifyAll =>
    if s.shutdown = .stopping then
      some { s with workers := fun w => notified (s.workers w), shutdown := .joining }
    else none
  | .joined =>
    if s.shutdown = .joining ∧ ∀ w, isExited (s.workers w) = true then
      some { s with shutdown := .returned }
    else none

def machine (ι τ : Type) [DecidableEq ι] (n maxQueueSize : Nat) :
    Machine (PoolWorkers ι τ n) (Act ι τ n) where
  Init s := s = start n maxQueueSize
  step := step

variable {m : Nat} {s s' : PoolWorkers ι τ n} {a : Act ι τ n}

/-- **Every step**: what it finds and what it leaves. -/
inductive StepView (s : PoolWorkers ι τ n) : Act ι τ n → PoolWorkers ι τ n → Prop where
  | reject (i : Fin n ⊕ ι) (t : τ) (hr : s.Rejects) : StepView s (.submit i t) s
  | accept (i : Fin n ⊕ ι) (t : τ) (hr : ¬ s.Rejects) : StepView s (.submit i t)
      { s with queue := s.queue ++ [t]
               notifiers := insert i s.notifiers
               accepted := s.accepted ++ [t] }
  | notifyNone (i : Fin n ⊕ ι) (hi : i ∈ s.notifiers) (hb : ∀ w, s.workers w ≠ .blocked) :
      StepView s (.notifyOne i none) { s with notifiers := s.notifiers.erase i }
  | notifyOne (i : Fin n ⊕ ι) (w : Fin n) (hi : i ∈ s.notifiers) (hw : s.workers w = .blocked) :
      StepView s (.notifyOne i (some w))
        { s with notifiers := s.notifiers.erase i
                 workers := Function.update s.workers w .ready }
  | pop (w : Fin n) (t : τ) (rest : List τ) (hw : s.workers w = .ready)
      (hq : s.queue = t :: rest) : StepView s (.check w)
      { s with queue := rest
               workers := Function.update s.workers w (.running t)
               dequeued := s.dequeued ++ [t] }
  | exit (w : Fin n) (hw : s.workers w = .ready) (hq : s.queue = []) (hs : s.stopped = true) :
      StepView s (.check w) { s with workers := Function.update s.workers w .exited }
  | block (w : Fin n) (hw : s.workers w = .ready) (hq : s.queue = []) (hs : s.stopped = false) :
      StepView s (.check w) { s with workers := Function.update s.workers w .blocked }
  | spurious (w : Fin n) (hw : s.workers w = .blocked) :
      StepView s (.spurious w) { s with workers := Function.update s.workers w .ready }
  | finish (w : Fin n) (t : τ) (hw : s.workers w = .running t) (hi : .inl w ∉ s.notifiers) :
      StepView s (.finish w) { s with workers := Function.update s.workers w .ready
                                      finished := s.finished ++ [t] }
  | shutdownAgain (hs : s.stopped = true) : StepView s .shutdown s
  | shutdown (hs : s.stopped = false) : StepView s .shutdown
      { s with stopped := true, shutdown := .stopping, atStop := some s.accepted }
  | notifyAll (hp : s.shutdown = .stopping) : StepView s .notifyAll
      { s with workers := fun w => notified (s.workers w), shutdown := .joining }
  | joined (hp : s.shutdown = .joining) (hx : ∀ w, s.workers w = .exited) :
      StepView s .joined { s with shutdown := .returned }

theorem isBlocked_iff {w : PoolWorker τ} : isBlocked w = true ↔ w = .blocked := by
  cases w <;> simp [isBlocked]

theorem isExited_iff {w : PoolWorker τ} : isExited w = true ↔ w = .exited := by
  cases w <;> simp [isExited]

theorem step_view (he : step s a = some s') : StepView s a s' := by
  cases a with
  | submit i t =>
    simp only [step] at he
    split at he
    · split at he
      · rename_i hr; cases he; exact .reject i t hr
      · rename_i hr; cases he; exact .accept i t hr
    · cases he
  | notifyOne i w =>
    cases w with
    | none =>
      simp only [step] at he
      split at he
      · rename_i hg
        cases he
        refine .notifyNone i hg.1 fun w hw => ?_
        have := hg.2 w
        rw [isBlocked_iff.2 hw] at this
        cases this
      · cases he
    | some w =>
      simp only [step] at he
      split at he
      · rename_i hg; cases he; exact .notifyOne i w hg.1 (isBlocked_iff.1 hg.2)
      · cases he
  | check w =>
    simp only [step] at he
    split at he
    · rename_i hw
      cases he
      unfold check
      split
      · rename_i hq
        by_cases hs : s.stopped = true
        · rw [if_pos hs]; exact .exit w hw hq hs
        · rw [if_neg hs]; exact .block w hw hq (by simpa using hs)
      · rename_i t rest hq; exact .pop w t rest hw hq
    · cases he
  | spurious w =>
    simp only [step] at he
    split at he
    · rename_i hw; cases he; exact .spurious w (isBlocked_iff.1 hw)
    · cases he
  | finish w =>
    simp only [step] at he
    split at he
    · rename_i t hw
      split at he
      · cases he
      · rename_i hi; cases he; exact .finish w t hw hi
    · cases he
  | shutdown =>
    simp only [step] at he
    split at he
    · rename_i hs; cases he; exact .shutdownAgain hs
    · rename_i hs; cases he; exact .shutdown (by simpa using hs)
  | notifyAll =>
    simp only [step] at he
    split at he
    · rename_i hp; cases he; exact .notifyAll hp
    · cases he
  | joined =>
    simp only [step] at he
    split at he
    · rename_i hg; cases he; exact .joined hg.1 fun w => isExited_iff.1 (hg.2 w)
    · cases he

/-! ## The coarser pool -/

/-- A worker of `ThreadPool` is waiting whether or not it is blocked. -/
def toWorker : PoolWorker τ → Worker τ
  | .ready | .blocked => .waiting
  | .running t => .running t
  | .exited => .exited

def toPool (s : PoolWorkers ι τ n) : ThreadPool τ τ n where
  queue := s.queue
  maxQueueSize := s.maxQueueSize
  stopped := s.stopped
  workers := toWorker ∘ s.workers

theorem toWorker_update (ws : Fin n → PoolWorker τ) (w : Fin n) (v : PoolWorker τ) :
    toWorker ∘ Function.update ws w v = Function.update (toWorker ∘ ws) w (toWorker v) :=
  Function.comp_update ..

/-- A worker that only blocks or wakes up is the same worker of the coarser pool. -/
theorem toWorker_update_eq {ws : Fin n → PoolWorker τ} {w : Fin n} {v : PoolWorker τ}
    (h : toWorker (ws w) = toWorker v) : toWorker ∘ Function.update ws w v = toWorker ∘ ws := by
  rw [toWorker_update, ← h]
  exact Function.update_eq_self w (toWorker ∘ ws)

/-- **Refinement**: a step of the pool is a call on the coarser one, or nothing. -/
theorem step_toPool (he : step s a = some s') :
    s'.toPool = s.toPool ∨
      ∃ b, True ∧ (ThreadPool.machine τ n m).step s.toPool b = some s'.toPool := by
  cases step_view he with
  | reject i t hr => exact .inl rfl
  | accept i t hr =>
    have hacc : s.toPool.Accepts := ⟨Bool.eq_false_of_not_eq_true (not_or.1 hr).1, (not_or.1 hr).2⟩
    refine .inr ⟨.submit t, trivial, ?_⟩
    exact congrArg (fun r => some r.1) (ThreadPool.submit_of_accepts hacc t)
  | notifyNone i hi hb => exact .inl rfl
  | notifyOne i w hi hw =>
    exact .inl (congrArg (ThreadPool.mk _ _ _) (toWorker_update_eq (by rw [hw]; rfl)))
  | block w hw hq hs =>
    exact .inl (congrArg (ThreadPool.mk _ _ _) (toWorker_update_eq (by rw [hw]; rfl)))
  | spurious w hw =>
    exact .inl (congrArg (ThreadPool.mk _ _ _) (toWorker_update_eq (by rw [hw]; rfl)))
  | pop w t rest hw hq =>
    have hwait : s.toPool.workers w = .waiting := congrArg toWorker hw
    refine .inr ⟨.take w, trivial, ?_⟩
    have hws := toWorker_update s.workers w (.running t)
    exact (ThreadPool.take_task hwait hq).trans
      (congrArg (fun ws => some (ThreadPool.mk _ _ _ ws)) hws.symm)
  | exit w hw hq hs =>
    have hwait : s.toPool.workers w = .waiting := congrArg toWorker hw
    refine .inr ⟨.take w, trivial, ?_⟩
    have hws := toWorker_update s.workers w .exited
    exact (ThreadPool.take_exit hwait hs hq).trans
      (congrArg (fun ws => some (ThreadPool.mk _ _ _ ws)) hws.symm)
  | finish w t hw hi =>
    have hrun : s.toPool.workers w = .running t := congrArg toWorker hw
    refine .inr ⟨.finish w, trivial, ?_⟩
    show (match s.toPool.workers w with
      | .running _ => some (s.toPool.finish w)
      | _ => none) = _
    rw [hrun]
    have hws := toWorker_update s.workers w .ready
    exact congrArg (fun ws => some (ThreadPool.mk _ _ _ ws)) hws.symm
  | shutdownAgain hs => exact .inl rfl
  | shutdown hs => exact .inr ⟨.shutdown, trivial, rfl⟩
  | notifyAll hp =>
    refine .inl (congrArg (ThreadPool.mk _ _ _) (funext fun w => ?_))
    show toWorker (notified (s.workers w)) = toWorker (s.workers w)
    cases s.workers w <;> rfl
  | joined hp hx => exact .inl rfl

theorem reach_pool (h : (machine ι τ n m).Reach s) : (ThreadPool.machine τ n m).Reach s.toPool :=
  Machine.ReachOk.sim (fun s h0 => by rw [h0]; rfl) (fun _ _ _ _ _ he => step_toPool he) h

/-! ## Tasks -/

/-- The task on a worker. -/
def task : PoolWorker τ → Multiset τ
  | .running t => {t}
  | .ready | .blocked | .exited => 0

/-- The tasks being executed. -/
def executing (s : PoolWorkers ι τ n) : Multiset τ := ∑ w, task (s.workers w)

/-- Where the accepted tasks are. -/
structure TaskInv (s : PoolWorkers ι τ n) : Prop where
  fifo : s.accepted = s.dequeued ++ s.queue
  once : (s.dequeued : Multiset τ) = s.finished + s.executing
  room : 0 < s.maxQueueSize → s.queue.length ≤ s.maxQueueSize
  /-- nothing is accepted once `stopped_` is set -/
  frozen : s.stopped = true → s.atStop = some s.accepted

theorem task_update {ws : Fin n → PoolWorker τ} {w : Fin n} {v : PoolWorker τ}
    (h : task v = task (ws w)) : ∑ x, task (Function.update ws w v x) = ∑ x, task (ws x) := by
  have := Cells.sum_update_add task ws w v
  rw [h] at this
  exact add_right_cancel this

theorem step_taskInv (h : s.TaskInv) (he : step s a = some s') : s'.TaskInv := by
  cases step_view he with
  | reject i t hr => exact h
  | accept i t hr =>
    have hrej := not_or.1 hr
    refine ⟨?_, h.once, fun hm => ?_, fun hs => absurd hs hrej.1⟩
    · show s.accepted ++ [t] = s.dequeued ++ (s.queue ++ [t])
      rw [h.fifo, List.append_assoc]
    · have := not_and.1 hrej.2 hm
      show (s.queue ++ [t]).length ≤ _
      rw [List.length_append, List.length_singleton]
      exact Nat.succ_le_of_lt (Nat.lt_of_not_le this)
  | notifyNone i hi hb => exact ⟨h.fifo, h.once, h.room, h.frozen⟩
  | notifyOne i w hi hw =>
    exact ⟨h.fifo, h.once.trans (congrArg _ (task_update (by rw [hw]; rfl)).symm), h.room,
      h.frozen⟩
  | pop w t rest hw hq =>
    refine ⟨?_, ?_, fun hm => ?_, h.frozen⟩
    · show s.accepted = s.dequeued ++ [t] ++ rest
      rw [h.fifo, hq, List.append_assoc]
      rfl
    · have hsum := Cells.sum_update_add task s.workers w (.running t)
      rw [hw] at hsum
      have hsum : ∑ x, task (Function.update s.workers w (.running t) x) = s.executing + {t} :=
        (add_zero _).symm.trans hsum
      show ((s.dequeued ++ [t] : List τ) : Multiset τ) = s.finished + _
      rw [executing, hsum, ← add_assoc, ← h.once]
      rfl
    · have := h.room hm
      rw [hq] at this
      exact Nat.le_of_succ_le this
  | exit w hw hq hs =>
    exact ⟨h.fifo, h.once.trans (congrArg _ (task_update (by rw [hw]; rfl)).symm), h.room,
      h.frozen⟩
  | block w hw hq hs =>
    exact ⟨h.fifo, h.once.trans (congrArg _ (task_update (by rw [hw]; rfl)).symm), h.room,
      h.frozen⟩
  | spurious w hw =>
    exact ⟨h.fifo, h.once.trans (congrArg _ (task_update (by rw [hw]; rfl)).symm), h.room,
      h.frozen⟩
  | finish w t hw hi =>
    refine ⟨h.fifo, ?_, h.room, h.frozen⟩
    have hsum := Cells.sum_update_add task s.workers w .ready
    rw [hw] at hsum
    have hsum : s.executing = ∑ x, task (Function.update s.workers w .ready x) + {t} :=
      (hsum.trans (add_zero _)).symm
    show (s.dequeued : Multiset τ) = ((s.finished ++ [t] : List τ) : Multiset τ) + _
    rw [h.once, hsum, executing, add_comm _ ({t} : Multiset τ), ← add_assoc]
    rfl
  | shutdownAgain hs => exact h
  | shutdown hs => exact ⟨h.fifo, h.once, h.room, fun _ => rfl⟩
  | notifyAll hp =>
    refine ⟨h.fifo, h.once.trans (congrArg _ ?_), h.room, h.frozen⟩
    refine Finset.sum_congr rfl fun w _ => ?_
    show task (s.workers w) = task (notified (s.workers w))
    cases s.workers w <;> rfl
  | joined hp hx => exact ⟨h.fifo, h.once, h.room, h.frozen⟩

/-! ## Workers -/

/-- The worker will look at the queue without being notified. -/
def looks : PoolWorker τ → Bool
  | .ready | .running _ => true
  | .blocked | .exited => false

theorem looks_update (ws : Fin n → PoolWorker τ) (w : Fin n) (v : PoolWorker τ) :
    looks (Function.update ws w v w) = looks v := by
  rw [Function.update_self]

theorem looks_notified {v : PoolWorker τ} (h : looks v = true) : looks (notified v) = true := by
  cases v with
  | ready => rfl
  | running t => rfl
  | blocked => rfl
  | exited => cases h

theorem notified_eq_exited {v : PoolWorker τ} (h : notified v = .exited) : v = .exited := by
  cases v with
  | exited => rfl
  | ready => cases h
  | running t => cases h
  | blocked => cases h

theorem notified_ne_blocked (v : PoolWorker τ) : notified v ≠ .blocked := by
  cases v <;> nofun

structure ServeInv (s : PoolWorkers ι τ n) : Prop where
  phase : s.stopped = false ↔ s.shutdown = .idle
  exited : ∀ w, s.workers w = .exited → s.stopped = true ∧ s.queue = []
  /-- a queued task has a notification on its way, or a worker that will look -/
  served : s.queue ≠ [] → s.notifiers.Nonempty ∨ ∃ w, looks (s.workers w) = true
  awake : s.shutdown = .joining ∨ s.shutdown = .returned → ∀ w, s.workers w ≠ .blocked
  gone : s.shutdown = .returned → ∀ w, s.workers w = .exited

theorem update_eq {ws : Fin n → PoolWorker τ} {w w' : Fin n} {v x : PoolWorker τ}
    (h : Function.update ws w v w' = x) (hv : v ≠ x) : ws w' = x := by
  by_cases hw : w' = w
  · subst hw; rw [Function.update_self] at h; exact absurd h hv
  · rwa [Function.update_of_ne hw] at h

omit [DecidableEq ι] in
/-- A worker that is not blocked on a queue that is not empty will look at it. -/
theorem ServeInv.looks_of (h : s.ServeInv) (hq : s.queue ≠ []) {w : Fin n}
    (hw : s.workers w ≠ .blocked) : looks (s.workers w) = true := by
  cases hv : s.workers w with
  | ready => rfl
  | running t => rfl
  | blocked => exact absurd hv hw
  | exited => exact absurd (h.exited w hv).2 hq

omit [DecidableEq ι] in
/-- Worker `w` leaves `ready`, `blocked` or a task, and is neither blocked nor exited then. -/
theorem ServeInv.moved (h : s.ServeInv) {w : Fin n} {v : PoolWorker τ} {ni : Finset (Fin n ⊕ ι)}
    {ts : List τ} (hw : s.workers w ≠ .exited) (hv : looks v = true) :
    ServeInv { s with notifiers := ni, finished := ts
                      workers := Function.update s.workers w v } := by
  have hx : v ≠ .exited := by rintro rfl; cases hv
  have hb : v ≠ .blocked := by rintro rfl; cases hv
  exact ⟨h.phase, fun w' hw' => h.exited w' (update_eq hw' hx),
    fun _ => .inr ⟨w, (looks_update ..).trans hv⟩,
    fun hs w' hw' => h.awake hs w' (update_eq hw' hb), fun hr => absurd (h.gone hr w) hw⟩

theorem step_serveInv (hn : 0 < n) (h : s.ServeInv) (he : step s a = some s') : s'.ServeInv := by
  cases step_view he with
  | reject i t hr => exact h
  | accept i t hr =>
    have hrun := (not_or.1 hr).1
    refine ⟨h.phase, fun w hw => absurd (h.exited w hw).1 hrun,
      fun _ => .inl ⟨i, Finset.mem_insert_self i _⟩, h.awake, h.gone⟩
  | notifyNone i hi hb =>
    exact ⟨h.phase, h.exited, fun hq => .inr ⟨⟨0, hn⟩, h.looks_of hq (hb _)⟩, h.awake, h.gone⟩
  | notifyOne i w hi hw => exact h.moved (by rw [hw]; rintro ⟨⟩) rfl
  | spurious w hw => exact h.moved (by rw [hw]; rintro ⟨⟩) rfl
  | finish w t hw hi => exact h.moved (by rw [hw]; rintro ⟨⟩) rfl
  | pop w t rest hw hq =>
    refine ⟨h.phase, fun w' hw' => ?_, fun _ => .inr ⟨w, looks_update ..⟩,
      fun hs w' hw' => h.awake hs w' (update_eq hw' nofun), fun hr => ?_⟩
    · have := (h.exited w' (update_eq hw' nofun)).2
      rw [hq] at this
      cases this
    · cases (h.gone hr w).symm.trans hw
  | exit w hw hq hs =>
    refine ⟨h.phase, fun _ _ => ⟨hs, hq⟩, fun hne => absurd hq hne,
      fun hp w' hw' => h.awake hp w' (update_eq hw' nofun), fun hr => ?_⟩
    cases (h.gone hr w).symm.trans hw
  | block w hw hq hs =>
    have hidle := h.phase.1 hs
    refine ⟨h.phase, fun w' hw' => h.exited w' (update_eq hw' nofun), fun hne => absurd hq hne,
      fun hp => ?_, fun hr => ?_⟩
    · rcases hp with hp | hp <;> cases hidle.symm.trans hp
    · cases hidle.symm.trans hr
  | shutdownAgain hs => exact h
  | shutdown hs =>
    exact ⟨iff_of_false nofun nofun, fun w hw => ⟨rfl, (h.exited w hw).2⟩, h.served,
      fun hp => hp.elim nofun nofun, nofun⟩
  | notifyAll hp =>
    have hstop : s.stopped ≠ false := fun hs => by
      cases hp.symm.trans (h.phase.1 hs)
    refine ⟨iff_of_false hstop nofun, fun w hw => h.exited w (notified_eq_exited hw), fun hq => ?_,
      fun _ w => notified_ne_blocked _, nofun⟩
    exact (h.served hq).imp_right (Exists.imp fun _ => looks_notified)
  | joined hp hx =>
    have hstop : s.stopped ≠ false := fun hs => by
      cases hp.symm.trans (h.phase.1 hs)
    exact ⟨iff_of_false hstop nofun, h.exited, h.served,
      fun _ w hw => (by cases hw.symm.trans (hx w)), fun _ => hx⟩

/-! ## Progress -/

/-- The steps of the pool's own threads and of calls already begun, tasks included: no
new `submit` or `shutdown`, no spurious wakeup. -/
def Own : Act ι τ n → Bool
  | .notifyOne _ _ | .check _ | .finish _ | .notifyAll | .joined => true
  | .submit _ _ | .spurious _ | .shutdown => false

def weight : PoolWorker τ → Nat
  | .ready => 1
  | .running _ => 2
  | .blocked | .exited => 0

/-- What is left to do for `shutdown`; its `notify_all` may make every worker look. -/
def ShutdownPc.left (n : Nat) : ShutdownPc → Nat
  | .stopping => n + 2
  | .joining => 1
  | .idle | .returned => 0

/-- The steps the pool can make on its own. -/
def work (s : PoolWorkers ι τ n) : Nat :=
  3 * s.queue.length + ∑ w, weight (s.workers w) + 2 * s.notifiers.card +
    ShutdownPc.left n s.shutdown

/-- Worker `w` goes from `x` to `v`. -/
theorem sum_weight_update {ws : Fin n → PoolWorker τ} {w : Fin n} {x : PoolWorker τ}
    (hw : ws w = x) (v : PoolWorker τ) :
    ∑ j, weight (Function.update ws w v j) + weight x = ∑ j, weight (ws j) + weight v := by
  rw [← hw]
  exact Cells.sum_update_add weight ws w v

theorem sum_weight_notified_le (ws : Fin n → PoolWorker τ) :
    ∑ w, weight (notified (ws w)) ≤ ∑ w, weight (ws w) + n := by
  have hle : ∀ w ∈ Finset.univ, weight (notified (ws w)) ≤ weight (ws w) + 1 := by
    intro w _
    cases ws w <;> simp [notified, weight]
  calc ∑ w, weight (notified (ws w)) ≤ ∑ w, (weight (ws w) + 1) := Finset.sum_le_sum hle
    _ = ∑ w, weight (ws w) + n := by
      rw [Finset.sum_add_distrib, Finset.sum_const, Finset.card_univ, Fintype.card_fin, smul_eq_mul,
        mul_one]

theorem step_work_lt (ho : Own a = true) (he : step s a = some s') : s'.work < s.work := by
  cases step_view he with
  | reject i t hr => cases ho
  | accept i t hr => cases ho
  | spurious w hw => cases ho
  | shutdownAgain hs => cases ho
  | shutdown hs => cases ho
  | notifyNone i hi hb =>
    have hc := Finset.card_erase_add_one hi
    simp only [work]
    omega
  | notifyOne i w hi hw =>
    have hc := Finset.card_erase_add_one hi
    have hsum : _ + 0 = _ + 1 := sum_weight_update hw .ready
    simp only [work]
    omega
  | pop w t rest hw hq =>
    have hsum : _ + 1 = _ + 2 := sum_weight_update hw (.running t)
    simp only [work, hq, List.length_cons]
    omega
  | exit w hw hq hs =>
    have hsum : _ + 1 = _ + 0 := sum_weight_update hw .exited
    simp only [work]
    omega
  | block w hw hq hs =>
    have hsum : _ + 1 = _ + 0 := sum_weight_update hw .blocked
    simp only [work]
    omega
  | finish w t hw hi =>
    have hsum : _ + 2 = _ + 1 := sum_weight_update hw .ready
    simp only [work]
    omega
  | notifyAll hp =>
    have hsum := sum_weight_notified_le s.workers
    simp only [work, hp, ShutdownPc.left]
    omega
  | joined hp hx =>
    simp only [work, hp, ShutdownPc.left]
    omega

theorem step_maxQueueSize (he : step s a = some s') : s'.maxQueueSize = s.maxQueueSize := by
  cases step_view he <;> rfl

theorem reach_maxQueueSize (h : (machine ι τ n m).Reach s) : s.maxQueueSize = m :=
  Machine.ReachOk.inv (I := fun s => s.maxQueueSize = m) (fun s h0 => by rw [h0]; rfl)
    (fun _ _ _ _ hi _ he => (step_maxQueueSize he).trans hi) h

theorem reach_taskInv (h : (machine ι τ n m).Reach s) : s.TaskInv := by
  refine Machine.ReachOk.inv (I := TaskInv) (fun s h0 => ?_)
    (fun _ _ _ _ hi _ he => step_taskInv hi he) h
  subst h0
  have hnone : (start n m : PoolWorkers ι τ n).executing = 0 :=
    Finset.sum_eq_zero fun _ _ => rfl
  exact ⟨rfl, by rw [hnone]; rfl, fun _ => Nat.zero_le _, nofun⟩

theorem reach_serveInv (hn : 0 < n) (h : (machine ι τ n m).Reach s) : s.ServeInv := by
  refine Machine.ReachOk.inv (I := ServeInv) (fun s h0 => ?_)
    (fun _ _ _ _ hi _ he => step_serveInv hn hi he) h
  subst h0
  exact ⟨iff_of_true rfl rfl, nofun, fun hq => absurd rfl hq, fun hp => hp.elim nofun nofun, nofun⟩

omit [DecidableEq ι] in
/-- With an empty queue and no worker in a task everything accepted has finished. -/
theorem TaskInv.all_finished (h : s.TaskInv) (hq : s.queue = [])
    (hw : ∀ w, task (s.workers w) = 0) : s.finished.Perm s.accepted := by
  have hexec : s.executing = 0 := Finset.sum_eq_zero fun w _ => hw w
  have hdeq := h.once
  rw [hexec, add_zero] at hdeq
  rw [h.fifo, hq, List.append_nil]
  exact (Multiset.coe_eq_coe.1 hdeq).symm

/-- No thread of the pool can move and no call of `notify_one` or `shutdown` can go on. -/
def Quiescent (s : PoolWorkers ι τ n) : Prop := ∀ a, Own a = true → step s a = none

theorem Quiescent.notifiers_eq (hs : s.Quiescent) : s.notifiers = ∅ := by
  by_contra hne
  obtain ⟨i, hi⟩ := Finset.nonempty_iff_ne_empty.2 hne
  by_cases hb : ∃ w, isBlocked (s.workers w) = true
  · obtain ⟨w, hw⟩ := hb
    have hnone := hs (.notifyOne i (some w)) rfl
    simp only [step, if_pos (And.intro hi hw)] at hnone
    cases hnone
  · have hall : ∀ w, isBlocked (s.workers w) = false := fun w => by
      simpa using not_exists.1 hb w
    have hnone := hs (.notifyOne i none) rfl
    simp only [step, if_pos (And.intro hi hall)] at hnone
    cases hnone

theorem Quiescent.looks_eq (hs : s.Quiescent) (w : Fin n) : looks (s.workers w) = false := by
  cases hw : s.workers w with
  | blocked => rfl
  | exited => rfl
  | ready =>
    have hnone := hs (.check w) rfl
    simp only [step, hw] at hnone
    cases hnone
  | running t =>
    have hnone := hs (.finish w) rfl
    have hi : Sum.inl w ∉ s.notifiers := by rw [hs.notifiers_eq]; exact Finset.notMem_empty _
    simp only [step, hw, if_neg hi] at hnone
    cases hnone

theorem task_eq_zero {v : PoolWorker τ} (h : looks v = false) : task v = 0 := by
  cases v with
  | blocked => rfl
  | exited => rfl
  | ready => cases h
  | running t => cases h

theorem Quiescent.queue_eq (hs : s.Quiescent) (h : s.ServeInv) : s.queue = [] := by
  by_contra hq
  rcases h.served hq with hi | ⟨w, hw⟩
  · rw [hs.notifiers_eq] at hi
    exact Finset.not_nonempty_empty hi
  · rw [hs.looks_eq w] at hw
    cases hw

theorem Quiescent.shutdown_eq (hs : s.Quiescent) (h : s.ServeInv) :
    s.shutdown = .idle ∨ s.shutdown = .returned := by
  cases hp : s.shutdown with
  | idle => exact .inl rfl
  | returned => exact .inr rfl
  | stopping =>
    have hnone := hs .notifyAll rfl
    simp only [step, if_pos hp] at hnone
    cases hnone
  | joining =>
    -- `notify_all` has left nobody blocked, and nobody is about to look
    have hx : ∀ w, isExited (s.workers w) = true := fun w => by
      have hl := hs.looks_eq w
      cases hw : s.workers w with
      | exited => rfl
      | blocked => exact absurd hw (h.awake (.inl hp) w)
      | ready => rw [hw] at hl; cases hl
      | running t => rw [hw] at hl; cases hl
    have hnone := hs .joined rfl
    simp only [step, if_pos (And.intro hp hx)] at hnone
    cases hnone

/-- **The pool's accounting.** In every reachable state of a pool with at least one worker,
whoever submits and however the workers interleave: the accepted tasks are dequeued in
order, each once, and every dequeued task is finished or on one worker; nothing is accepted
once `stopped_` is set, and when the `shutdown` that set it returns all tasks have
finished; the queue keeps within its bound; a queued task never waits with every worker
blocked and no notification on its way. Left to itself the pool comes to rest within
`work s` steps, and at rest every accepted task has finished. -/
theorem pool_accounting (hn : 0 < n) (h : (machine ι τ n m).Reach s) :
    s.accepted = s.dequeued ++ s.queue ∧
    (s.dequeued : Multiset τ) = s.finished + s.executing ∧
    (s.shutdown = .returned → s.finished.Perm s.accepted) ∧
    (s.stopped = true → s.atStop = some s.accepted) ∧
    (0 < m → s.queue.length ≤ m) ∧
    ¬ (s.queue ≠ [] ∧ (∀ w, s.workers w = .blocked) ∧ s.notifiers = ∅) ∧
    (∀ as s', (∀ a ∈ as, Own a = true) → (machine ι τ n m).run s as = some s' →
      as.length ≤ s.work) ∧
    (s.Quiescent → s.finished.Perm s.accepted ∧ (s.shutdown = .idle ∨ s.shutdown = .returned)) := by
  have ht := reach_taskInv h
  have hw := reach_serveInv hn h
  refine ⟨ht.fifo, ht.once, fun hr => ?_, ht.frozen, fun hm => ?_, fun hb => ?_,
    fun as s' ho hrun => ?_, fun hs => ?_⟩
  · have hq := (hw.exited ⟨0, hn⟩ (hw.gone hr _)).2
    exact ht.all_finished hq fun w => task_eq_zero (by rw [hw.gone hr w]; rfl)
  · have := ht.room
    rw [reach_maxQueueSize h] at this
    exact this hm
  · obtain ⟨hq, hblocked, hnone⟩ := hb
    rcases hw.served hq with hi | ⟨w, hl⟩
    · rw [hnone] at hi
      exact Finset.not_nonempty_empty hi
    · rw [hblocked w] at hl
      cases hl
  · have hd : ∀ s a s', Own a = true → (machine ι τ n m).step s a = some s' → s'.work < s.work :=
      fun _ _ _ ho he => step_work_lt ho he
    exact Nat.le_of_add_right_le (Machine.run_length_le hd ho hrun)
  · exact ⟨ht.all_finished (hs.queue_eq hw) fun w => task_eq_zero (hs.looks_eq w),
      hs.shutdown_eq hw⟩

/-- One worker and a bound of one: the worker blocks, a thread submits task 1 and notifies it,
task 1 submits task 2, `shutdown` is called while task 1 runs, and both have finished when it
returns. -/
theorem pool_accounting_drained : ∃ s : PoolWorkers (Fin 1) Nat 1,
    (machine (Fin 1) Nat 1 1).Reach s ∧ s.shutdown = .returned ∧ s.accepted = [1, 2] ∧
      s.finished.Perm s.accepted := by
  obtain ⟨s, h, hp⟩ := Machine.Reach.of_run_init (M := machine (Fin 1) Nat 1 1)
    (fun s => decide (s.shutdown = .returned ∧ s.accepted = [1, 2]))
    [.check 0, .submit (.inr 0) 1, .notifyOne (.inr 0) (some 0), .check 0, .submit (.inl 0) 2,
      .shutdown, .notifyOne (.inl 0) none, .notifyAll, .finish 0, .check 0, .finish 0, .check 0,
      .joined]
    rfl (by decide)
  have hp := of_decide_eq_true hp
  exact ⟨s, h, hp.1, hp.2, (pool_accounting Nat.one_pos h).2.2.1 hp.1⟩

end PoolWorkers

end Socketpp
