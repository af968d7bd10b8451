import Mathlib

/-!
# Machines, runs and invariants

A machine is a set of initial states and a partial step function: the action
carries every choice the environment makes, so a step is a function of the
state and the action. `ReachOk M ok s` says `s` is reached by a run every
action of which meets `ok` in the state it is taken in; `Reach M` is the case
without a condition. `ReachOk.inv` is the induction over runs, `ReachOk.sim` and
`ReachOk.sim_path` carry reachability along a map of states, and `run` evaluates a
concrete list of actions; `run_length_le` bounds it by a measure that every action
makes smaller.
-/

structure Machine (S A : Type*) where
  Init : S → Prop
  step : S → A → Option S

namespace Machine

variable {S A T B : Type*} {M : Machine S A} {ok ok' : S → A → Prop}

inductive ReachOk (M : Machine S A) (ok : S → A → Prop) : S → Prop where
  | init {s : S} : M.Init s → ReachOk M ok s
  | step {s s' : S} {a : A} : ReachOk M ok s → ok s a → M.step s a = some s' → ReachOk M ok s'

/-- The states of unconditioned runs. -/
abbrev Reach (M : Machine S A) : S → Prop := M.ReachOk fun _ _ => True

/-- **Induction over runs.** -/
theorem ReachOk.inv {I : S → Prop} (h0 : ∀ s, M.Init s → I s)
    (hs : ∀ s a s', M.ReachOk ok s → I s → ok s a → M.step s a = some s' → I s')
    {s : S} (h : M.ReachOk ok s) : I s := by
  induction h with
  | init hi => exact h0 _ hi
  | step hr ho he ih => exact hs _ _ _ hr ih ho he

theorem ReachOk.mono (h : ∀ s a, ok s a → ok' s a) {s : S} (hr : M.ReachOk ok s) :
    M.ReachOk ok' s := by
  induction hr with
  | init hi => exact .init hi
  | step _ ho he ih => exact .step ih (h _ _ ho) he

/-- **Simulation.** A map of states under which every step of `M` is a step of
`N` or leaves the image alone carries runs of `M` to runs of `N`. -/
theorem ReachOk.sim {N : Machine T B} {okN : T → B → Prop} {f : S → T}
    (h0 : ∀ s, M.Init s → N.Init (f s))
    (hs : ∀ s a s', M.ReachOk ok s → ok s a → M.step s a = some s' →
      f s' = f s ∨ ∃ b, okN (f s) b ∧ N.step (f s) b = some (f s'))
    {s : S} (h : M.ReachOk ok s) : N.ReachOk okN (f s) := by
  induction h with
  | init hi => exact .init (h0 _ hi)
  | step hr ho he ih =>
    rcases hs _ _ _ hr ho he with e | ⟨b, hb, e⟩
    · rw [e]; exact ih
    · exact .step ih hb e

/-! ## Runs that end -/

/-- A run by actions that meet `ok`, with the list of them. -/
inductive Path (M : Machine S A) (ok : S → A → Prop) : S → List A → S → Prop where
  | nil (s : S) : Path M ok s [] s
  | cons {s t s' : S} {a : A} {as : List A} : ok s a → M.step s a = some t → Path M ok t as s' →
      Path M ok s (a :: as) s'

theorem Path.inv {I : S → Prop} (hs : ∀ s a s', I s → ok s a → M.step s a = some s' → I s')
    {s s' : S} {as : List A} (hp : M.Path ok s as s') (h : I s) : I s' := by
  induction hp with
  | nil => exact h
  | cons ho he _ ih => exact ih (hs _ _ _ h ho he)

/-- **Termination.** A run is no longer than a measure that its actions make smaller. -/
theorem Path.length_le {I : S → Prop} {μ : S → Nat}
    (hs : ∀ s a s', I s → ok s a → M.step s a = some s' → I s' ∧ μ s' < μ s)
    {s s' : S} {as : List A} (hp : M.Path ok s as s') (h : I s) : as.length + μ s' ≤ μ s := by
  induction hp with
  | nil => exact Nat.le_of_eq (Nat.zero_add _)
  | cons ho he _ ih =>
    obtain ⟨hi, hlt⟩ := hs _ _ _ h ho he
    have hle := ih hi
    rw [List.length_cons]
    omega

/-- **A run that ends.** From every state a run leads to one in which no action is possible. -/
theorem Path.exists_stuck {I : S → Prop} {μ : S → Nat}
    (hs : ∀ s a s', I s → ok s a → M.step s a = some s' → I s' ∧ μ s' < μ s) {s : S} (h : I s) :
    ∃ as s', M.Path ok s as s' ∧ ∀ a, ok s' a → M.step s' a = none := by
  by_cases hstuck : ∀ a, ok s a → M.step s a = none
  · exact ⟨[], s, .nil s, hstuck⟩
  · push Not at hstuck
    obtain ⟨a, ho, hne⟩ := hstuck
    obtain ⟨t, ht⟩ := Option.ne_none_iff_exists'.1 hne
    obtain ⟨hi, hlt⟩ := hs s a t h ho ht
    obtain ⟨as, s', hp, hend⟩ := Path.exists_stuck hs hi
    exact ⟨a :: as, s', .cons ho ht hp, hend⟩
termination_by μ s

theorem Path.mono (h : ∀ s a, ok s a → ok' s a) {s s' : S} {as : List A}
    (hp : M.Path ok s as s') : M.Path ok' s as s' := by
  induction hp with
  | nil => exact .nil _
  | cons ho he _ ih => exact .cons (h _ _ ho) he ih

theorem ReachOk.of_path {s t : S} {as : List A} (h : M.ReachOk ok s) (hp : M.Path ok s as t) :
    M.ReachOk ok t :=
  hp.inv (I := M.ReachOk ok) (fun _ _ _ hr ho he => .step hr ho he) h

/-- **Simulation by runs.** As `sim`, where a step of `M` may take any number of steps of `N`. -/
theorem ReachOk.sim_path {N : Machine T B} {okN : T → B → Prop} {f : S → T}
    (h0 : ∀ s, M.Init s → N.Init (f s))
    (hs : ∀ s a s', M.ReachOk ok s → ok s a → M.step s a = some s' →
      ∃ bs, N.Path okN (f s) bs (f s'))
    {s : S} (h : M.ReachOk ok s) : N.ReachOk okN (f s) := by
  induction h with
  | init hi => exact .init (h0 _ hi)
  | step hr ho he ih =>
    obtain ⟨bs, hp⟩ := hs _ _ _ hr ho he
    exact ih.of_path hp

/-! ## Concrete runs -/

/-- The state after a list of actions, all of them enabled. -/
def run (M : Machine S A) : S → List A → Option S
  | s, [] => some s
  | s, a :: as => (M.step s a).bind fun s' => run M s' as

/-- **Termination.** If the actions in `own` make a measure smaller, a run of them is
no longer than the measure of the state it starts in. -/
theorem run_length_le {own : A → Prop} {μ : S → Nat}
    (hd : ∀ s a s', own a → M.step s a = some s' → μ s' < μ s) :
    ∀ {as : List A} {s s' : S}, (∀ a ∈ as, own a) → M.run s as = some s' →
      as.length + μ s' ≤ μ s
  | [], s, s', _, e => by cases e; exact Nat.le_of_eq (Nat.zero_add _)
  | a :: as, s, s', ho, e => by
    obtain ⟨t, ht, e⟩ := Option.bind_eq_some_iff.1 e
    have hlt := hd s a t (ho a List.mem_cons_self) ht
    have hle := run_length_le hd (fun b hb => ho b (List.mem_cons_of_mem _ hb)) e
    rw [List.length_cons]
    omega

/-- The state after a list of actions, all of them enabled and meeting `ok`. -/
def runOk (M : Machine S A) (ok : S → A → Prop) [∀ s a, Decidable (ok s a)] :
    S → List A → Option S
  | s, [] => some s
  | s, a :: as => if ok s a then (M.step s a).bind fun s' => runOk M ok s' as else none

theorem ReachOk.of_runOk [∀ s a, Decidable (ok s a)] :
    ∀ {as : List A} {s s' : S}, M.ReachOk ok s → M.runOk ok s as = some s' → M.ReachOk ok s'
  | [], s, s', h, e => by cases e; exact h
  | a :: as, s, s', h, e => by
    unfold runOk at e
    split at e
    · rename_i ho
      obtain ⟨t, ht, e⟩ := Option.bind_eq_some_iff.1 e
      exact of_runOk (.step h ho ht) e
    · cases e

theorem Reach.of_run :
    ∀ {as : List A} {s s' : S}, M.Reach s → M.run s as = some s' → M.Reach s'
  | [], s, s', h, e => by cases e; exact h
  | a :: as, s, s', h, e => by
    obtain ⟨t, ht, e⟩ := Option.bind_eq_some_iff.1 e
    exact of_run (.step h trivial ht) e

/-- A concrete run from an initial state ends in a state with property `P`. -/
theorem Reach.of_run_init (P : S → Bool) (as : List A) {s : S} (h0 : M.Init s)
    (h : (M.run s as).any P = true) : ∃ s', M.Reach s' ∧ P s' = true := by
  cases e : M.run s as with
  | none => rw [e] at h; cases h
  | some s' =>
    rw [e] at h
    exact ⟨s', Reach.of_run (.init h0) e, h⟩

theorem ReachOk.of_runOk_init (ok : S → A → Prop) [∀ s a, Decidable (ok s a)] (P : S → Bool)
    (as : List A) {s : S} (h0 : M.Init s) (h : (M.runOk ok s as).any P = true) :
    ∃ s', M.ReachOk ok s' ∧ P s' = true := by
  cases e : M.runOk ok s as with
  | none => rw [e] at h; cases h
  | some s' =>
    rw [e] at h
    exact ⟨s', ReachOk.of_runOk (.init h0) e, h⟩

end Machine
