import Socketpp.High.ThreadPool
import Socketpp.Lib.Machine
import Socketpp.Lib.Cells

/-!
# Serial queues on a thread pool

`serial_queue` (`src/high/serial_queue.hpp`). The state of a queue is a FIFO
`pending_` and a flag `draining_` under `mutex_`; `submit` appends a task and,
when no drain is under way, submits `drain` to the pool; `drain` pops and runs
one task at a time until it finds the queue empty. Each critical section is
one step, so a submit from inside a running task is a submit like any other.

`SerialPool κ τ X Y n` is a pool of `n` workers shared by the queues `κ` with
tasks `τ` and by tasks `X` submitted to the pool directly (`Y`: their running
states). `submitted q` records the order in which `submit` took the mutex of
`q`, `started q` the order in which its tasks were begun.

`QueueInv` is the invariant of one queue: `draining_` counts its drain jobs,
queued or running (`drainJobs`), an idle queue is empty, and what was started
followed by what is pending is what was submitted. `submit_inv`, `take_inv`,
`drainLock_inv`, `fnReturn_inv` and the `app` steps keep it as long as the
pool accepts what is submitted to it.
-/

namespace Socketpp

/-- A task in the pool's queue: a queue's `drain`, or a task of its own. -/
inductive Job (κ X : Type) where
  | drain (q : κ)
  | app (x : X)
  deriving DecidableEq, Repr

/-- A task on a worker. -/
inductive Exec (κ τ Y : Type) where
  /-- `drain`, at the top of its loop -/
  | top (q : κ)
  /-- `drain`, in `fn()` -/
  | fn (q : κ) (t : τ)
  | app (y : Y)
  deriving DecidableEq, Repr

/-- `serial_queue::state`. -/
structure SerialState (τ : Type) where
  pending : List τ
  draining : Bool
  deriving DecidableEq, Repr

structure SerialPool (κ τ X Y : Type) (n : Nat) where
  pool : ThreadPool (Job κ X) (Exec κ τ Y) n
  queues : κ → SerialState τ
  submitted : κ → List τ
  started : κ → List τ

def Job.begin {κ τ X Y : Type} (b : X → Y) : Job κ X → Exec κ τ Y
  | .drain q => .top q
  | .app x => .app (b x)

namespace SerialPool

variable {κ τ X Y : Type} [DecidableEq κ] {n : Nat}

def start (n maxQueueSize : Nat) : SerialPool κ τ X Y n where
  pool := .start n maxQueueSize
  queues := fun _ => ⟨[], false⟩
  submitted := fun _ => []
  started := fun _ => []

/-- `serial_queue::submit`: `draining_` is set afterwards in either case. The
pool's answer is ignored, as in the source. -/
def submit (s : SerialPool κ τ X Y n) (q : κ) (t : τ) : SerialPool κ τ X Y n :=
  { s with
    queues := Function.update s.queues q ⟨(s.queues q).pending ++ [t], true⟩
    pool := if (s.queues q).draining then s.pool else (s.pool.submit (.drain q)).1
    submitted := Function.update s.submitted q (s.submitted q ++ [t]) }

/-- A task submitted to the pool itself. -/
def submitApp (s : SerialPool κ τ X Y n) (x : X) : SerialPool κ τ X Y n :=
  { s with pool := (s.pool.submit (.app x)).1 }

/-- A waiting worker takes the front task. -/
def take (b : X → Y) (s : SerialPool κ τ X Y n) (w : Fin n) : Option (SerialPool κ τ X Y n) :=
  (s.pool.take (Job.begin b) w).map fun p => { s with pool := p }

/-- The critical section of `drain`. -/
def drainLock (s : SerialPool κ τ X Y n) (w : Fin n) : Option (SerialPool κ τ X Y n) :=
  match s.pool.workers w with
  | .running (.top q) =>
    match (s.queues q).pending with
    | [] => some { s with queues := Function.update s.queues q ⟨[], false⟩
                          pool := s.pool.finish w }
    | t :: rest => some { s with
        queues := Function.update s.queues q { s.queues q with pending := rest }
        pool := s.pool.setRunning w (.fn q t)
        started := Function.update s.started q (s.started q ++ [t]) }
  | _ => none

/-- `fn()` returns. -/
def fnReturn (s : SerialPool κ τ X Y n) (w : Fin n) : Option (SerialPool κ τ X Y n) :=
  match s.pool.workers w with
  | .running (.fn q _) => some { s with pool := s.pool.setRunning w (.top q) }
  | _ => none

/-- A task of its own moves on, or returns (`none`). -/
def appStep (s : SerialPool κ τ X Y n) (w : Fin n) (y : Option Y) :
    Option (SerialPool κ τ X Y n) :=
  match s.pool.workers w with
  | .running (.app _) =>
    some { s with pool := y.elim (s.pool.finish w) fun y => s.pool.setRunning w (.app y) }
  | _ => none

def shutdown (s : SerialPool κ τ X Y n) : SerialPool κ τ X Y n :=
  { s with pool := s.pool.shutdown }

end SerialPool

/-! ## Drain jobs and the pool's own tasks -/

section DrainJobs

variable {κ τ X Y : Type} [DecidableEq κ] {n : Nat}

/-- Whether a queued task is a drain job of `q` (`0` or `1`). -/
def Job.drains (q : κ) : Job κ X → Nat
  | .drain q' => if q' = q then 1 else 0
  | .app _ => 0

/-- Whether a running task is a drain job of `q` (`0` or `1`). -/
def Exec.drains (q : κ) : Exec κ τ Y → Nat
  | .top q' => if q' = q then 1 else 0
  | .fn q' _ => if q' = q then 1 else 0
  | .app _ => 0

/-- The drain jobs of `q`, queued in the pool or running on it. -/
def ThreadPool.drainJobs (p : ThreadPool (Job κ X) (Exec κ τ Y) n) (q : κ) : Nat :=
  p.jobs (Job.drains q) (Exec.drains q)

/-- The weight of a queued task of the pool's own. -/
def Job.appWeight (f : X → Nat) : Job κ X → Nat
  | .drain _ => 0
  | .app x => f x

/-- The weight of a running task of the pool's own. -/
def Exec.appWeight (g : Y → Nat) : Exec κ τ Y → Nat
  | .app y => g y
  | _ => 0

/-- The weight of the tasks submitted to the pool directly, queued or running. -/
def ThreadPool.appJobs (p : ThreadPool (Job κ X) (Exec κ τ Y) n) (f : X → Nat)
    (g : Y → Nat) : Nat :=
  p.jobs (Job.appWeight f) (Exec.appWeight g)

omit [DecidableEq κ] in
theorem Job.appWeight_begin {b : X → Y} {f : X → Nat} {g : Y → Nat} (hb : ∀ x, g (b x) = f x)
    (j : Job κ X) : (j.begin b : Exec κ τ Y).appWeight g = j.appWeight f := by
  cases j with
  | drain q => rfl
  | app x => exact hb x

omit [DecidableEq κ] in
/-- A task of the pool's own on a worker is counted. -/
theorem ThreadPool.weight_le_appJobs {p : ThreadPool (Job κ X) (Exec κ τ Y) n} {w : Fin n} {y : Y}
    (hw : p.workers w = .running (.app y)) (f : X → Nat) (g : Y → Nat) : g y ≤ p.appJobs f g := by
  have := ThreadPool.weight_le_jobs (p := p) (f := Job.appWeight f) (g := Exec.appWeight g) w
  rw [hw] at this
  exact this

theorem Job.drains_begin (b : X → Y) (q : κ) (j : Job κ X) :
    (j.begin b : Exec κ τ Y).drains q = j.drains q := by
  cases j <;> rfl

end DrainJobs

/-! ## The invariant of a queue -/

namespace SerialPool

variable {κ τ X Y : Type} [DecidableEq κ] {n : Nat} {s s' : SerialPool κ τ X Y n}

structure QueueInv (s : SerialPool κ τ X Y n) (q : κ) : Prop where
  /-- `draining_` is set exactly while the queue has its one drain job -/
  jobs : s.pool.drainJobs q = (s.queues q).draining.toNat
  idle : (s.queues q).draining = false → (s.queues q).pending = []
  fifo : s.started q ++ (s.queues q).pending = s.submitted q

theorem start_inv (n m : Nat) (q : κ) : QueueInv (start n m : SerialPool κ τ X Y n) q := by
  refine ⟨?_, fun _ => rfl, rfl⟩
  simp [start, ThreadPool.drainJobs]

theorem submit_inv {q q' : κ} {t : τ} (h : s.QueueInv q)
    (ha : (s.queues q').draining = false → s.pool.Accepts) : (s.submit q' t).QueueInv q := by
  have hjobs : (s.submit q' t).pool.drainJobs q =
      s.pool.drainJobs q + if q' = q ∧ (s.queues q').draining = false then 1 else 0 := by
    cases hd : (s.queues q').draining with
    | true => simp [submit, hd]
    | false => simp [submit, hd, ThreadPool.drainJobs, ThreadPool.jobs_submit (ha hd), Job.drains]
  by_cases hq : q = q'
  · subst hq
    refine ⟨?_, by simp [submit], ?_⟩
    · rw [hjobs, h.jobs]
      cases hd : (s.queues q).draining <;> simp [submit]
    · simp [submit, ← h.fifo]
  · refine ⟨?_, by simpa [submit, hq] using h.idle, by simpa [submit, hq] using h.fifo⟩
    rw [hjobs, h.jobs]
    simp [submit, hq, Ne.symm hq]

theorem submitApp_inv {q : κ} {x : X} (h : s.QueueInv q) : (s.submitApp x).QueueInv q :=
  ⟨(ThreadPool.jobs_submit_zero (f := Job.drains q) rfl).trans h.jobs, h.idle, h.fifo⟩

theorem take_inv {b : X → Y} {q : κ} {w : Fin n} (h : s.QueueInv q)
    (he : take b s w = some s') : s'.QueueInv q := by
  obtain ⟨p, hp, rfl⟩ := Option.map_eq_some_iff.1 he
  exact ⟨(ThreadPool.jobs_take (Job.drains_begin b q) hp).trans h.jobs, h.idle, h.fifo⟩

/-- What the critical section of `drain` can do. -/
theorem drainLock_cases {w : Fin n} (h : s.drainLock w = some s') :
    ∃ q, s.pool.workers w = .running (.top q) ∧
      (((s.queues q).pending = [] ∧
          s' = { s with queues := Function.update s.queues q ⟨[], false⟩
                        pool := s.pool.finish w }) ∨
        ∃ t rest, (s.queues q).pending = t :: rest ∧
          s' = { s with
            queues := Function.update s.queues q { s.queues q with pending := rest }
            pool := s.pool.setRunning w (.fn q t)
            started := Function.update s.started q (s.started q ++ [t]) }) := by
  unfold drainLock at h
  split at h
  · rename_i q hw
    refine ⟨q, hw, ?_⟩
    split at h
    · rename_i hp; exact .inl ⟨hp, (Option.some.inj h).symm⟩
    · rename_i t rest hp; exact .inr ⟨t, rest, hp, (Option.some.inj h).symm⟩
  · cases h

theorem drainLock_inv {q : κ} {w : Fin n} (h : s.QueueInv q) (he : s.drainLock w = some s') :
    s'.QueueInv q := by
  obtain ⟨q', hw, ⟨hp, rfl⟩ | ⟨t, rest, hp, rfl⟩⟩ := drainLock_cases he
  · have e := ThreadPool.jobs_finish (f := Job.drains q) (g := Exec.drains q) hw
    by_cases hq : q = q'
    · subst hq
      -- the final empty check: the one drain job of `q` goes away with the flag
      simp only [Exec.drains, ↓reduceIte] at e
      have hb := h.jobs
      have : (s.queues q).draining.toNat ≤ 1 := Bool.toNat_le _
      refine ⟨?_, by simp, ?_⟩
      · simp only [ThreadPool.drainJobs, Function.update_self, Bool.toNat_false] at hb ⊢; omega
      · simpa [hp] using h.fifo
    · simp only [Exec.drains, if_neg (Ne.symm hq)] at e
      refine ⟨?_, by simpa [hq] using h.idle, by simpa [hq] using h.fifo⟩
      simpa [hq, ThreadPool.drainJobs] using e.trans h.jobs
  · have e' : (s.pool.setRunning w (.fn q' t)).drainJobs q = s.pool.drainJobs q :=
      Nat.add_right_cancel (ThreadPool.jobs_setRunning (f := Job.drains q) hw (.fn q' t))
    by_cases hq : q = q'
    · subst hq
      refine ⟨by simpa using e'.trans h.jobs, ?_, ?_⟩
      · intro hd
        simp only [Function.update_self] at hd
        rw [h.idle hd] at hp
        cases hp
      · simpa [hp] using h.fifo
    · refine ⟨?_, by simpa [hq] using h.idle, by simpa [hq] using h.fifo⟩
      simpa [hq] using e'.trans h.jobs

theorem fnReturn_inv {q : κ} {w : Fin n} (h : s.QueueInv q) (he : s.fnReturn w = some s') :
    s'.QueueInv q := by
  unfold fnReturn at he
  split at he
  · rename_i q' t hw
    cases he
    have e : (s.pool.setRunning w (.top q')).drainJobs q = s.pool.drainJobs q :=
      Nat.add_right_cancel (ThreadPool.jobs_setRunning (f := Job.drains q) hw (.top q'))
    exact ⟨e.trans h.jobs, h.idle, h.fifo⟩
  · cases he

theorem appStep_inv {q : κ} {w : Fin n} {y : Option Y} (h : s.QueueInv q)
    (he : s.appStep w y = some s') : s'.QueueInv q := by
  unfold appStep at he
  split at he
  · rename_i y' hw
    cases he
    refine ⟨?_, h.idle, h.fifo⟩
    cases y with
    | none =>
      exact (ThreadPool.jobs_finish (f := Job.drains q) (g := Exec.drains q) hw).trans h.jobs
    | some y => exact (ThreadPool.jobs_setRunning (f := Job.drains q) (g := Exec.drains q) hw
        (.app y)).trans h.jobs
  · cases he

theorem shutdown_inv {q : κ} (h : s.QueueInv q) : s.shutdown.QueueInv q := ⟨h.jobs, h.idle, h.fifo⟩

/-- At most one task of a queue is being executed. -/
theorem QueueInv.exec_unique {q : κ} (h : s.QueueInv q) {w w' : Fin n} {t t' : τ}
    (hw : s.pool.workers w = .running (.fn q t)) (hw' : s.pool.workers w' = .running (.fn q t')) :
    w = w' := by
  have hb : (s.queues q).draining.toNat ≤ 1 := Bool.toNat_le _
  have hj := h.jobs
  exact ThreadPool.eq_of_weight (f := Job.drains q) (g := Exec.drains q) (hj ▸ hb)
    (by simp [hw, Exec.drains]) (by simp [hw', Exec.drains])

/-! ## Runs of the pool -/

inductive SerialAct (κ τ X Y : Type) (n : Nat) where
  | submit (q : κ) (t : τ)
  | submitApp (x : X)
  | take (w : Fin n)
  | drainLock (w : Fin n)
  | fnReturn (w : Fin n)
  | appStep (w : Fin n) (y : Option Y)
  | shutdown

def step (b : X → Y) (s : SerialPool κ τ X Y n) :
    SerialAct κ τ X Y n → Option (SerialPool κ τ X Y n)
  | .submit q t => some (s.submit q t)
  | .submitApp x => some (s.submitApp x)
  | .take w => take b s w
  | .drainLock w => s.drainLock w
  | .fnReturn w => s.fnReturn w
  | .appStep w y => s.appStep w y
  | .shutdown => some s.shutdown

/-- A pool of `n` workers and its serial queues; `m` is `max_queue_size`. -/
def machine (b : X → Y) (n m : Nat) : Machine (SerialPool κ τ X Y n) (SerialAct κ τ X Y n) where
  Init s := s = start n m
  step := step b

/-- The pool accepts what the action submits to it. -/
def Accepted (s : SerialPool κ τ X Y n) : SerialAct κ τ X Y n → Prop
  | .submit q _ => (s.queues q).draining = false → s.pool.Accepts
  | .submitApp _ => s.pool.Accepts
  | _ => True

instance (s : SerialPool κ τ X Y n) : (a : SerialAct κ τ X Y n) → Decidable (s.Accepted a)
  | .submit q _ => inferInstanceAs (Decidable ((s.queues q).draining = false → s.pool.Accepts))
  | .submitApp _ => inferInstanceAs (Decidable s.pool.Accepts)
  | .take _ | .drainLock _ | .fnReturn _ | .appStep _ _ | .shutdown => isTrue trivial

theorem step_inv {b : X → Y} {a : SerialAct κ τ X Y n} {q : κ} (h : s.QueueInv q)
    (ha : s.Accepted a) (he : step b s a = some s') : s'.QueueInv q := by
  cases a with
  | submit q' t => cases he; exact submit_inv h ha
  | submitApp x => cases he; exact submitApp_inv h
  | take w => exact take_inv h he
  | drainLock w => exact drainLock_inv h he
  | fnReturn w => exact fnReturn_inv h he
  | appStep w y => exact appStep_inv h he
  | shutdown => cases he; exact shutdown_inv h

theorem reach_inv {b : X → Y} {n m : Nat} {s : SerialPool κ τ X Y n}
    (h : (machine b n m).ReachOk Accepted s) (q : κ) : s.QueueInv q :=
  h.inv (fun _ hs => hs ▸ start_inv n m q) fun _ _ _ _ hi ha he => step_inv hi ha he

/-- **Every step of the pool**: what it finds and what it leaves. -/
inductive StepView (b : X → Y) (s : SerialPool κ τ X Y n) :
    SerialAct κ τ X Y n → SerialPool κ τ X Y n → Prop where
  | submit (q : κ) (t : τ) : StepView b s (.submit q t) (s.submit q t)
  | submitApp (x : X) : StepView b s (.submitApp x) (s.submitApp x)
  | take (w : Fin n) (p : ThreadPool (Job κ X) (Exec κ τ Y) n)
      (hp : s.pool.take (Job.begin b) w = some p) : StepView b s (.take w) { s with pool := p }
  | drainEmpty (w : Fin n) (q : κ) (hw : s.pool.workers w = .running (.top q))
      (hp : (s.queues q).pending = []) : StepView b s (.drainLock w)
      { s with queues := Function.update s.queues q ⟨[], false⟩
               pool := s.pool.finish w }
  | drainNext (w : Fin n) (q : κ) (t : τ) (rest : List τ)
      (hw : s.pool.workers w = .running (.top q)) (hp : (s.queues q).pending = t :: rest) :
      StepView b s (.drainLock w)
      { s with queues := Function.update s.queues q { s.queues q with pending := rest }
               pool := s.pool.setRunning w (.fn q t)
               started := Function.update s.started q (s.started q ++ [t]) }
  | fnReturn (w : Fin n) (q : κ) (t : τ) (hw : s.pool.workers w = .running (.fn q t)) :
      StepView b s (.fnReturn w) { s with pool := s.pool.setRunning w (.top q) }
  | appReturn (w : Fin n) (y : Y) (hw : s.pool.workers w = .running (.app y)) :
      StepView b s (.appStep w none) { s with pool := s.pool.finish w }
  | appMove (w : Fin n) (y y' : Y) (hw : s.pool.workers w = .running (.app y)) :
      StepView b s (.appStep w (some y')) { s with pool := s.pool.setRunning w (.app y') }
  | shutdown : StepView b s .shutdown s.shutdown

variable {b : X → Y} {a : SerialAct κ τ X Y n} {q : κ} {t : τ}

theorem step_view (he : step b s a = some s') : StepView b s a s' := by
  cases a with
  | submit q t => cases he; exact .submit q t
  | submitApp x => cases he; exact .submitApp x
  | take w =>
    obtain ⟨p, hp, rfl⟩ := Option.map_eq_some_iff.1 he
    exact .take w p hp
  | drainLock w =>
    obtain ⟨q, hw, ⟨hp, rfl⟩ | ⟨t, rest, hp, rfl⟩⟩ := drainLock_cases he
    · exact .drainEmpty w q hw hp
    · exact .drainNext w q t rest hw hp
  | fnReturn w =>
    simp only [step, fnReturn] at he
    split at he
    · rename_i q t hw; cases he; exact .fnReturn w q t hw
    · cases he
  | appStep w y' =>
    simp only [step, appStep] at he
    split at he
    · rename_i y hw
      cases he
      cases y' with
      | none => exact .appReturn w y hw
      | some y' => exact .appMove w y y' hw
    · cases he
  | shutdown => cases he; exact .shutdown

/-- Only `submit` changes what was submitted. -/
theorem step_submitted (he : step b s a = some s') (ha : ∀ q t, a ≠ .submit q t) :
    s'.submitted = s.submitted := by
  cases step_view he with
  | submit q t => exact absurd rfl (ha q t)
  | _ => rfl

/-- Only `submit` adds to a queue. -/
theorem step_pending (he : step b s a = some s') (ht : t ∈ (s'.queues q).pending) :
    t ∈ (s.queues q).pending ∨ a = .submit q t := by
  cases step_view he with
  | submit q' t' =>
    by_cases hq : q = q'
    · subst hq
      simp only [submit, Function.update_self, List.mem_append, List.mem_singleton] at ht
      exact ht.imp_right fun e => by rw [e]
    · simp only [submit, Function.update_of_ne hq] at ht
      exact .inl ht
  | drainEmpty w q' hw hp =>
    by_cases hq : q = q'
    · subst hq; simp at ht
    · exact .inl (by simpa [hq] using ht)
  | drainNext w q' t' rest hw hp =>
    by_cases hq : q = q'
    · subst hq
      simp only [Function.update_self] at ht
      exact .inl (by rw [hp]; exact List.mem_cons_of_mem _ ht)
    · exact .inl (by simpa [hq] using ht)
  | _ => exact .inl ht

/-- What was started stays started. -/
theorem step_started (he : step b s a = some s') (ht : t ∈ s.started q) : t ∈ s'.started q := by
  cases step_view he with
  | drainNext w q' t' rest hw hp =>
    by_cases hq : q = q'
    · subst hq; simp [ht]
    · simpa [hq] using ht
  | _ => exact ht

/-- What comes into the pool's queue: drain jobs, and the tasks submitted. -/
theorem step_queue (he : step b s a = some s') {x : X} (hx : .app x ∈ s'.pool.queue) :
    .app x ∈ s.pool.queue ∨ a = .submitApp x := by
  cases step_view he with
  | submit q t =>
    simp only [submit] at hx
    split at hx
    · exact .inl hx
    · exact .inl ((ThreadPool.mem_submit hx).resolve_right nofun)
  | submitApp y => exact (ThreadPool.mem_submit hx).imp_right fun e => by cases e; rfl
  | take w p hp =>
    obtain ⟨-, ⟨-, -, rfl⟩ | ⟨j, rest, hq, rfl⟩⟩ := ThreadPool.take_cases hp
    · exact .inl hx
    · exact .inl (by rw [hq]; exact List.mem_cons_of_mem _ hx)
  | _ => exact .inl hx

/-- The queue limit is fixed, and only `shutdown` stops the pool. -/
theorem step_limits (he : step b s a = some s') :
    s'.pool.maxQueueSize = s.pool.maxQueueSize ∧
    (a ≠ .shutdown → s'.pool.stopped = s.pool.stopped) := by
  cases step_view he with
  | submit q t =>
    simp only [submit]
    split
    · exact ⟨rfl, fun _ => rfl⟩
    · exact ⟨ThreadPool.submit_maxQueueSize _ _, fun _ => ThreadPool.submit_stopped _ _⟩
  | submitApp x =>
    exact ⟨ThreadPool.submit_maxQueueSize _ _, fun _ => ThreadPool.submit_stopped _ _⟩
  | take w p hp =>
    obtain ⟨-, ⟨-, -, rfl⟩ | ⟨j, rest, -, rfl⟩⟩ := ThreadPool.take_cases hp <;>
      exact ⟨rfl, fun _ => rfl⟩
  | shutdown => exact ⟨rfl, fun h => absurd rfl h⟩
  | _ => exact ⟨rfl, fun _ => rfl⟩

/-- How the weight of the pool's own tasks changes: one is submitted, or one
moves on or returns. -/
theorem step_appJobs {f : X → Nat} {g : Y → Nat} (hb : ∀ x, g (b x) = f x) (ha : s.Accepted a)
    (he : step b s a = some s') :
    (∃ x, a = .submitApp x ∧ s'.pool.appJobs f g = s.pool.appJobs f g + f x) ∨
    (∃ w y y', a = .appStep w y' ∧ s.pool.workers w = .running (.app y) ∧
      s'.pool.appJobs f g + g y = s.pool.appJobs f g + y'.elim 0 g) ∨
    s'.pool.appJobs f g = s.pool.appJobs f g := by
  have hfin {w : Fin n} {r : Exec κ τ Y} (hw : s.pool.workers w = .running r) :=
    ThreadPool.jobs_finish (f := Job.appWeight f) (g := Exec.appWeight g) hw
  have hset {w : Fin n} {r : Exec κ τ Y} (hw : s.pool.workers w = .running r) :=
    ThreadPool.jobs_setRunning (f := Job.appWeight f) (g := Exec.appWeight g) hw
  cases step_view he with
  | submit q t =>
    refine .inr (.inr ?_)
    simp only [submit]
    split
    · rfl
    · exact ThreadPool.jobs_submit_zero (f := Job.appWeight f) rfl
  | submitApp x =>
    exact .inl ⟨x, rfl, ThreadPool.jobs_submit (f := Job.appWeight f) (g := Exec.appWeight g) ha _⟩
  | take w p hp => exact .inr (.inr (ThreadPool.jobs_take (Job.appWeight_begin hb) hp))
  | drainEmpty w q hw hp => exact .inr (.inr (hfin hw))
  | drainNext w q t rest hw hp => exact .inr (.inr (hset hw (.fn q t)))
  | fnReturn w q t hw => exact .inr (.inr (hset hw (.top q)))
  | appReturn w y hw => exact .inr (.inl ⟨w, y, none, rfl, hw, hfin hw⟩)
  | appMove w y y' hw => exact .inr (.inl ⟨w, y, some y', rfl, hw, hset hw (.app y')⟩)
  | shutdown => exact .inr (.inr rfl)

/-! ## The task being executed -/

/-- A task of `q` on a worker is the one started last. -/
def LastStarted (s : SerialPool κ τ X Y n) (q : κ) : Prop :=
  ∀ w t, s.pool.workers w = .running (.fn q t) → (s.started q).getLast? = some t

omit [DecidableEq κ] in
/-- Changing a worker to something other than a task of `q` brings up no task of `q`. -/
theorem workers_of_update {ws : Fin n → Worker (Exec κ τ Y)} {w w' : Fin n} {q : κ} {t : τ}
    {r : Worker (Exec κ τ Y)} (hr : ∀ t, r ≠ .running (.fn q t))
    (h : Function.update ws w r w' = .running (.fn q t)) : ws w' = .running (.fn q t) := by
  by_cases hw : w' = w
  · subst hw; rw [Function.update_self] at h; exact absurd h (hr t)
  · rwa [Function.update_of_ne hw] at h

@[simp] theorem submit_workers (q : κ) (t : τ) :
    (s.submit q t).pool.workers = s.pool.workers := by
  simp only [submit]; split <;> simp

omit [DecidableEq κ] in
@[simp] theorem submitApp_workers (x : X) : (s.submitApp x).pool.workers = s.pool.workers := by
  simp [submitApp]

/-- A task comes to a worker from the front of its queue. -/
theorem step_running (he : step b s a = some s') {w : Fin n}
    (hw : s'.pool.workers w = .running (.fn q t)) :
    s.pool.workers w = .running (.fn q t) ∨
      (∃ rest, (s.queues q).pending = t :: rest) ∧ s'.started q = s.started q ++ [t] := by
  cases step_view he with
  | submit q' t' => exact .inl (by rwa [submit_workers] at hw)
  | submitApp x => exact .inl (by rwa [submitApp_workers] at hw)
  | take w' p hp =>
    obtain ⟨-, ⟨-, -, rfl⟩ | ⟨j, rest, -, rfl⟩⟩ := ThreadPool.take_cases hp
    · exact .inl (workers_of_update (by simp) hw)
    · exact .inl (workers_of_update (by cases j <;> simp [Job.begin]) hw)
  | drainEmpty w' q' hw' hp | fnReturn w' q' t' hw' | appReturn w' y hw' | appMove w' y y' hw' =>
    exact .inl (workers_of_update (by simp) hw)
  | drainNext w' q' t' rest hw' hp =>
    by_cases hww : w = w'
    · subst hww
      simp only [ThreadPool.setRunning, Function.update_self, Worker.running.injEq,
        Exec.fn.injEq] at hw
      obtain ⟨rfl, rfl⟩ := hw
      exact .inr ⟨⟨rest, hp⟩, Function.update_self ..⟩
    · simp only [ThreadPool.setRunning, Function.update_of_ne hww] at hw
      exact .inl hw
  | shutdown => exact .inl hw

theorem step_last (hi : s.QueueInv q) (h : s.LastStarted q) (he : step b s a = some s') :
    s'.LastStarted q := by
  intro w t hw
  rcases step_running he hw with hold | ⟨-, hs⟩
  · have hlast := h w t hold
    cases step_view he with
    | drainNext w' q' t' rest hw' hp =>
      by_cases hq : q = q'
      · subst hq
        -- a second worker draining `q` contradicts the one drain job
        have hb : (s.queues q).draining.toNat ≤ 1 := Bool.toNat_le _
        have hj := hi.jobs
        have e : w = w' := ThreadPool.eq_of_weight (f := Job.drains q) (g := Exec.drains q)
          (hj ▸ hb) (by simp [hold, Exec.drains]) (by simp [hw', Exec.drains])
        rw [e, hw'] at hold
        cases hold
      · simpa [hq] using hlast
    | _ => exact hlast
  · rw [hs, List.getLast?_concat]

theorem reach_last {b : X → Y} {n m : Nat} {s : SerialPool κ τ X Y n}
    (h : (machine b n m).ReachOk Accepted s) (q : κ) : s.LastStarted q := by
  refine h.inv (I := fun s => s.LastStarted q) (fun s hs => ?_) fun s a s' hr ih _ he =>
    step_last (reach_inv hr q) ih he
  subst hs
  intro w t hw
  simp [start, ThreadPool.start] at hw

/-- A task is started by being put on a worker. -/
theorem step_started_cases (he : step b s a = some s') (ht : t ∈ s'.started q) :
    t ∈ s.started q ∨ ∃ w, s'.pool.workers w = .running (.fn q t) := by
  cases step_view he with
  | drainNext w q' t' rest hw hp =>
    by_cases hq : q = q'
    · subst hq
      simp only [Function.update_self, List.mem_append, List.mem_singleton] at ht
      refine ht.imp_right fun e => ⟨w, ?_⟩
      simp [ThreadPool.setRunning, e]
    · simp only [Function.update_of_ne hq] at ht
      exact .inl ht
  | _ => exact .inl ht

omit [DecidableEq κ] in
/-- A change of another worker leaves an executed task alone. -/
theorem workers_update_of_fn {ws : Fin n → Worker (Exec κ τ Y)} {w w' : Fin n} {q : κ} {t : τ}
    {r r' : Worker (Exec κ τ Y)} (hr : ws w' = r) (hne : r ≠ .running (.fn q t))
    (h : ws w = .running (.fn q t)) : Function.update ws w' r' w = .running (.fn q t) := by
  rw [Function.update_of_ne, h]
  rintro rfl
  exact hne (hr.symm.trans h)

/-- A task stays on its worker until it returns. -/
theorem step_executing (he : step b s a = some s') {w : Fin n} (ha : a ≠ .fnReturn w)
    (hw : s.pool.workers w = .running (.fn q t)) :
    s'.pool.workers w = .running (.fn q t) := by
  cases step_view he with
  | submit q t => rw [submit_workers]; exact hw
  | submitApp x => rw [submitApp_workers]; exact hw
  | take w' p hp =>
    obtain ⟨hw', ⟨-, -, rfl⟩ | ⟨j, rest, -, rfl⟩⟩ := ThreadPool.take_cases hp
    · exact workers_update_of_fn hw' nofun hw
    · exact workers_update_of_fn hw' nofun hw
  | drainEmpty w' q' hw' hp | drainNext w' q' t' rest hw' hp | appReturn w' y hw'
  | appMove w' y y' hw' => exact workers_update_of_fn hw' nofun hw
  | fnReturn w' q' t' hw' =>
    exact (Function.update_of_ne (fun e => ha (by rw [e])) _ _).trans hw
  | shutdown => exact hw

/-- A task waits in its queue or is being executed. -/
def Active (s : SerialPool κ τ X Y n) (q : κ) (t : τ) : Prop :=
  t ∈ (s.queues q).pending ∨ ∃ w, s.pool.workers w = .running (.fn q t)

/-- In a queue nothing was submitted to, no task is active and none was started. -/
theorem QueueInv.not_started {q : κ} (h : s.QueueInv q) (hs : s.submitted q = []) :
    s.started q = [] ∧ (s.queues q).pending = [] :=
  List.append_eq_nil_iff.1 (h.fifo.trans hs)

/-- Tasks become active by being submitted. -/
theorem step_active (he : step b s a = some s') (ht : s'.Active q t) :
    s.Active q t ∨ a = .submit q t := by
  rcases ht with ht | ⟨w, hw⟩
  · exact (step_pending he ht).imp_left .inl
  · rcases step_running he hw with hw | ⟨⟨rest, hp⟩, -⟩
    · exact .inl (.inr ⟨w, hw⟩)
    · exact .inl (.inl (by rw [hp]; exact List.mem_cons_self))

/-- An idle pool has no active task. -/
theorem QueueInv.not_active_of_idle {q : κ} (h : s.QueueInv q) (hq : s.pool.queue = [])
    (hw : ∀ w, s.pool.workers w = .waiting) (t : τ) : ¬ s.Active q t := by
  rintro (ht | ⟨w, hw'⟩)
  · have hj : s.pool.drainJobs q = 0 := by
      simp [ThreadPool.drainJobs, ThreadPool.jobs, hq, hw]
    have hd : (s.queues q).draining = false := by
      cases hd : (s.queues q).draining with
      | false => rfl
      | true => rw [h.jobs, hd] at hj; cases hj
    rw [h.idle hd] at ht
    cases ht
  · rw [hw w] at hw'; cases hw'

/-- **Serialisation.** While the pool accepts every submission, at most one
task of a queue is executed at a time and it is the one started last; tasks
are started in the order `submit` took the mutex, each once; and `draining_`
is set exactly while the queue has its one drain job, so a non-empty queue has
a drain job to run it. -/
theorem serial_queue_serialises {b : X → Y} {n m : Nat} {s : SerialPool κ τ X Y n}
    (h : (machine b n m).ReachOk Accepted s) (q : κ) :
    (∀ w w' t t', s.pool.workers w = .running (.fn q t) →
      s.pool.workers w' = .running (.fn q t') → w = w') ∧
    (∀ w t, s.pool.workers w = .running (.fn q t) → (s.started q).getLast? = some t) ∧
    s.started q ++ (s.queues q).pending = s.submitted q ∧
    ((s.queues q).draining = true ↔ s.pool.drainJobs q = 1) ∧
    s.pool.drainJobs q ≤ 1 ∧
    ((s.queues q).pending ≠ [] → s.pool.drainJobs q = 1) := by
  have hi := reach_inv h q
  have hj := hi.jobs
  refine ⟨fun w w' t t' => hi.exec_unique, reach_last h q, hi.fifo, ?_, ?_, fun hp => ?_⟩
  · cases hd : (s.queues q).draining <;> simp [hj, hd]
  · rw [hj]; exact Bool.toNat_le _
  · cases hd : (s.queues q).draining with
    | true => simp [hj, hd]
    | false => exact absurd (hi.idle hd) hp

/-- A task submits to its own queue while it runs: the drain that runs it picks
the new task up, and a second worker finds nothing to do. -/
theorem serial_queue_serialises_reentrant :
    ∃ s : SerialPool Unit Nat Empty Empty 2, (machine Empty.elim 2 0).ReachOk Accepted s ∧
      (s.submitted () = [1, 2] ∧ s.started () = [1, 2] ∧ s.pool.drainJobs () = 1) ∧
      s.started () ++ (s.queues ()).pending = s.submitted () := by
  obtain ⟨s, h, hp⟩ := Machine.ReachOk.of_runOk_init (M := machine Empty.elim 2 0) Accepted
    (P := fun s : SerialPool Unit Nat Empty Empty 2 =>
      decide (s.submitted () = [1, 2] ∧ s.started () = [1, 2] ∧ s.pool.drainJobs () = 1))
    [.submit () 1, .take 0, .drainLock 0, .submit () 2, .fnReturn 0, .drainLock 0]
    rfl (by decide)
  exact ⟨s, h, of_decide_eq_true hp, (serial_queue_serialises h ()).2.2.1⟩

end SerialPool

end Socketpp
