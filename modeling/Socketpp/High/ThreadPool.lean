import Socketpp.Lib.Cells

/-!
# The thread pool

`thread_pool` (`src/high/thread_pool.hpp`, `.cpp`): a task queue `queue_`
under `mutex_`, a stop flag and `n` workers. A worker waits until the pool is
stopped or the queue is non-empty, pops the front task and runs it outside the
lock; it leaves its loop when the pool is stopped and the queue is empty. Each
critical section of `mutex_` is one step here. `J` is the type of queued tasks
and `R` the state of a task being run: what a task does is the business of the
code that submitted it.

`jobs f g` counts tasks by weight, queued (`f`) or running (`g`): a task that
weighs the same queued and begun is counted once on its way through the pool.
-/

namespace Socketpp

/-- Where a worker thread is. -/
inductive Worker (R : Type) where
  /-- in `cv_.wait`, or on its way there -/
  | waiting
  /-- in `task()` -/
  | running (r : R)
  /-- returned from its loop -/
  | exited
  deriving DecidableEq, Repr

structure ThreadPool (J R : Type) (n : Nat) where
  queue : List J
  maxQueueSize : Nat
  stopped : Bool
  workers : Fin n → Worker R

namespace ThreadPool

variable {J R : Type} {n : Nat}

/-- A pool just constructed. -/
def start (n maxQueueSize : Nat) : ThreadPool J R n where
  queue := []
  maxQueueSize := maxQueueSize
  stopped := false
  workers := fun _ => .waiting

/-- `thread_pool::submit`. -/
def submit (p : ThreadPool J R n) (task : J) : ThreadPool J R n × Bool :=
  if p.stopped then (p, false)
  else if 0 < p.maxQueueSize ∧ p.maxQueueSize ≤ p.queue.length then (p, false)
  else ({ p with queue := p.queue ++ [task] }, true)

/-- The pool would accept a task. -/
def Accepts (p : ThreadPool J R n) : Prop :=
  p.stopped = false ∧ ¬ (0 < p.maxQueueSize ∧ p.maxQueueSize ≤ p.queue.length)

instance (p : ThreadPool J R n) : Decidable p.Accepts := inferInstanceAs (Decidable (_ ∧ _))

/-- A waiting worker's critical section: leave the loop, or pop the front task
and begin it (`begin` is the task's first state). Blocked while the pool runs
and the queue is empty. -/
def take (p : ThreadPool J R n) (begin : J → R) (w : Fin n) : Option (ThreadPool J R n) :=
  match p.workers w with
  | .waiting =>
    if p.stopped && p.queue.isEmpty then
      some { p with workers := Function.update p.workers w .exited }
    else
      match p.queue with
      | [] => none
      | task :: rest =>
        some { p with queue := rest
                      workers := Function.update p.workers w (.running (begin task)) }
  | _ => none

/-- A worker's running task moves on. -/
def setRunning (p : ThreadPool J R n) (w : Fin n) (r : R) : ThreadPool J R n :=
  { p with workers := Function.update p.workers w (.running r) }

/-- `task()` returns: back to the top of the worker's loop. -/
def finish (p : ThreadPool J R n) (w : Fin n) : ThreadPool J R n :=
  { p with workers := Function.update p.workers w .waiting }

/-- The critical section of `thread_pool::shutdown`. -/
def shutdown (p : ThreadPool J R n) : ThreadPool J R n := { p with stopped := true }

theorem submit_of_accepts {p : ThreadPool J R n} (h : p.Accepts) (task : J) :
    p.submit task = ({ p with queue := p.queue ++ [task] }, true) := by
  unfold submit
  rw [if_neg (by simp [h.1]), if_neg h.2]

/-- A task is refused, or it is the last of the queue. -/
theorem submit_cases (p : ThreadPool J R n) (task : J) :
    (p.submit task).1 = p ∨ (p.submit task).1 = { p with queue := p.queue ++ [task] } := by
  unfold submit
  split
  · exact .inl rfl
  · split
    · exact .inl rfl
    · exact .inr rfl

@[simp] theorem submit_workers (p : ThreadPool J R n) (task : J) :
    (p.submit task).1.workers = p.workers := by
  rcases submit_cases p task with h | h <;> rw [h]

theorem mem_submit {p : ThreadPool J R n} {task j : J} (h : j ∈ (p.submit task).1.queue) :
    j ∈ p.queue ∨ j = task := by
  rcases submit_cases p task with hs | hs
  · rw [hs] at h
    exact .inl h
  · rw [hs] at h
    exact (List.mem_append.1 h).imp_right List.mem_singleton.1

@[simp] theorem submit_maxQueueSize (p : ThreadPool J R n) (task : J) :
    (p.submit task).1.maxQueueSize = p.maxQueueSize := by
  rcases submit_cases p task with h | h <;> rw [h]

@[simp] theorem submit_stopped (p : ThreadPool J R n) (task : J) :
    (p.submit task).1.stopped = p.stopped := by
  rcases submit_cases p task with h | h <;> rw [h]

theorem take_task {p : ThreadPool J R n} {begin : J → R} {w : Fin n} {task : J} {rest : List J}
    (hw : p.workers w = .waiting) (hq : p.queue = task :: rest) :
    p.take begin w = some { p with queue := rest
                                   workers := Function.update p.workers w
                                     (.running (begin task)) } := by
  simp [take, hw, hq]

theorem take_exit {p : ThreadPool J R n} {begin : J → R} {w : Fin n}
    (hw : p.workers w = .waiting) (hs : p.stopped = true) (hq : p.queue = []) :
    p.take begin w = some { p with workers := Function.update p.workers w .exited } := by
  simp [take, hw, hs, hq]

/-- What a worker's critical section can do. -/
theorem take_cases {p p' : ThreadPool J R n} {begin : J → R} {w : Fin n}
    (h : p.take begin w = some p') :
    p.workers w = .waiting ∧
    ((p.stopped = true ∧ p.queue = [] ∧
        p' = { p with workers := Function.update p.workers w .exited }) ∨
      ∃ task rest, p.queue = task :: rest ∧
        p' = { p with queue := rest,
                      workers := Function.update p.workers w (.running (begin task)) }) := by
  unfold take at h
  split at h
  · rename_i hw
    refine ⟨hw, ?_⟩
    split at h
    · rename_i hs
      simp only [Bool.and_eq_true, List.isEmpty_iff] at hs
      exact .inl ⟨hs.1, hs.2, (Option.some.inj h).symm⟩
    · split at h
      · cases h
      · rename_i task rest hq
        exact .inr ⟨task, rest, hq, (Option.some.inj h).symm⟩
  · cases h

end ThreadPool

/-! ## Counting jobs -/

section Jobs

variable {J R : Type} {n : Nat}

def Worker.weight (g : R → Nat) : Worker R → Nat
  | .running r => g r
  | _ => 0

@[simp] theorem Worker.weight_waiting (g : R → Nat) :
    (Worker.waiting : Worker R).weight g = 0 := rfl

@[simp] theorem Worker.weight_running (g : R → Nat) (r : R) :
    (Worker.running r).weight g = g r := rfl

namespace ThreadPool

/-- The weight of the queued and the running tasks. -/
def jobs (p : ThreadPool J R n) (f : J → Nat) (g : R → Nat) : Nat :=
  (p.queue.map f).sum + ∑ w, (p.workers w).weight g

variable {p p' : ThreadPool J R n} {f : J → Nat} {g : R → Nat}

@[simp] theorem jobs_start (n m : Nat) (f : J → Nat) (g : R → Nat) :
    (start n m : ThreadPool J R n).jobs f g = 0 := by
  simp [start, jobs]

theorem jobs_submit (h : p.Accepts) (task : J) :
    (p.submit task).1.jobs f g = p.jobs f g + f task := by
  rw [submit_of_accepts h]
  simp only [jobs, List.map_append, List.map_cons, List.map_nil, List.sum_append, List.sum_cons,
    List.sum_nil]
  omega

/-- A task of no weight is not counted, accepted or not. -/
theorem jobs_submit_zero {task : J} (h : f task = 0) : (p.submit task).1.jobs f g = p.jobs f g := by
  unfold submit
  split
  · rfl
  · split
    · rfl
    · simp [jobs, h]

theorem jobs_take {begin : J → R} (hb : ∀ j, g (begin j) = f j) {w : Fin n}
    (h : p.take begin w = some p') : p'.jobs f g = p.jobs f g := by
  obtain ⟨hw, ⟨_, _, rfl⟩ | ⟨j, rest, hq, rfl⟩⟩ := take_cases h
  · simp only [jobs]
    rw [Cells.sum_update_same (g := Worker.weight g) (by rw [hw]; rfl)]
  · have e := Cells.sum_update (Worker.weight g) p.workers w (.running (begin j))
    rw [hw] at e
    simp only [Worker.weight_waiting, Worker.weight_running, hb] at e
    simp only [jobs, hq, List.map_cons, List.sum_cons]
    omega

theorem jobs_setRunning {w : Fin n} {r : R} (hw : p.workers w = .running r) (r' : R) :
    (p.setRunning w r').jobs f g + g r = p.jobs f g + g r' := by
  have e := Cells.sum_update (Worker.weight g) p.workers w (.running r')
  rw [hw] at e
  simp only [Worker.weight_running] at e
  simp only [jobs, setRunning]
  omega

theorem jobs_finish {w : Fin n} {r : R} (hw : p.workers w = .running r) :
    (p.finish w).jobs f g + g r = p.jobs f g := by
  have e := Cells.sum_update (Worker.weight g) p.workers w .waiting
  rw [hw] at e
  simp only [Worker.weight_waiting, Worker.weight_running] at e
  simp only [jobs, finish]
  omega

/-- A running task is among those counted. -/
theorem weight_le_jobs (w : Fin n) : (p.workers w).weight g ≤ p.jobs f g :=
  Nat.le_trans (Cells.weight_le_sum (Worker.weight g) p.workers w) (Nat.le_add_left _ _)

/-- A queued task and a running one are both counted. -/
theorem queued_add_weight_le {j : J} (hj : j ∈ p.queue) (w : Fin n) :
    f j + (p.workers w).weight g ≤ p.jobs f g :=
  Nat.add_le_add (List.le_sum_of_mem (List.mem_map_of_mem hj))
    (Cells.weight_le_sum (Worker.weight g) p.workers w)

/-- What is counted is queued or running. -/
theorem exists_of_jobs_pos (h : 0 < p.jobs f g) :
    (∃ j ∈ p.queue, 0 < f j) ∨ ∃ w, 0 < (p.workers w).weight g := by
  by_contra hn
  rw [not_or] at hn
  obtain ⟨h1, h2⟩ := hn
  have hq : (p.queue.map f).sum = 0 := by
    rw [List.sum_eq_zero_iff]
    intro x hx
    obtain ⟨j, hj, rfl⟩ := List.mem_map.1 hx
    exact Nat.eq_zero_of_not_pos fun hpos => h1 ⟨j, hj, hpos⟩
  have hw : ∑ w, (p.workers w).weight g = 0 :=
    Finset.sum_eq_zero fun w _ => Nat.eq_zero_of_not_pos fun hpos => h2 ⟨w, hpos⟩
  rw [jobs, hq, hw] at h
  exact Nat.lt_irrefl _ h

/-- Under a count of at most one, two workers with a counted task are one worker. -/
theorem eq_of_weight {w w' : Fin n} (h : p.jobs f g ≤ 1) (hw : 0 < (p.workers w).weight g)
    (hw' : 0 < (p.workers w').weight g) : w = w' :=
  Cells.eq_of_sum_le_one (g := Worker.weight g) (f := p.workers)
    (Nat.le_trans (Nat.le_add_left _ _) h) hw hw'

end ThreadPool

end Jobs

end Socketpp
