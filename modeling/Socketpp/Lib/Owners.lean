import Mathlib

/-!
# Shared owners

Owners refer to objects, and an object goes with the last reference to it.
`released` are the objects that go when references are given up one after another.

The end of an object may take another owner away, the one its handle names. The
references of that owner are then given up as well, and so on. `release` follows
this to its end: it returns the handles of the objects that went, in order, and the
owners that are left.
-/

namespace Owners

variable {ρ ι : Type*}

/-- What the owners refer to. -/
def refs (os : List (ι × List ρ)) : List ρ := os.flatMap Prod.snd

theorem mem_refs {os : List (ι × List ρ)} {r : ρ} : r ∈ refs os ↔ ∃ o ∈ os, r ∈ o.2 :=
  List.mem_flatMap

section

variable [DecidableEq ρ]

/-- The objects that go with the references `rs`; `kept` are those that somebody else refers to. -/
def released (kept : ρ → Bool) : List ρ → List ρ
  | [] => []
  | r :: rs => if r ∈ rs ∨ kept r = true then released kept rs else r :: released kept rs

theorem mem_released {kept : ρ → Bool} {r : ρ} {rs : List ρ} :
    r ∈ released kept rs ↔ r ∈ rs ∧ kept r = false := by
  induction rs with
  | nil => exact iff_of_false List.not_mem_nil fun h => List.not_mem_nil h.1
  | cons x rs ih =>
    unfold released
    by_cases e : r = x
    · subst e
      split
      · rename_i h
        rw [ih]
        rcases h with h | h
        · simp [h]
        · simp [h]
      · rename_i h
        rw [not_or, Bool.not_eq_true] at h
        simp [h.2]
    · split <;> simp [ih, e]

end

section

variable [DecidableEq ι]

/-- The owner with the name `i`. -/
def named (os : List (ι × List ρ)) (i : ι) : List (ι × List ρ) := os.filter fun o => o.1 = i

def others (os : List (ι × List ρ)) (i : ι) : List (ι × List ρ) := os.filter fun o => o.1 ≠ i

theorem length_refs_split (os : List (ι × List ρ)) (i : ι) :
    (refs (named os i)).length + (refs (others os i)).length = (refs os).length := by
  unfold named others refs
  induction os with
  | nil => rfl
  | cons o os ih =>
    by_cases h : o.1 = i
    · simp only [List.filter_cons, h, decide_true, ne_eq, not_true_eq_false, decide_false,
        List.flatMap_cons, List.length_append, if_true, Bool.false_eq_true, if_false] at ih ⊢
      omega
    · simp only [List.filter_cons, h, decide_false, ne_eq, not_false_eq_true, decide_true,
        List.flatMap_cons, List.length_append, if_true, Bool.false_eq_true, if_false] at ih ⊢
      omega

variable [DecidableEq ρ]

/-- The references `rs` are given up, besides those of the owners `os`. -/
def release (kept : ρ → Bool) (handle : ρ → Option ι) (os : List (ι × List ρ)) :
    List ρ → List ι × List (ι × List ρ)
  | [] => ([], os)
  | r :: rs =>
    if r ∈ rs ∨ r ∈ refs os ∨ kept r = true then release kept handle os rs
    else
      match handle r with
      | none => release kept handle os rs
      | some i =>
        let p := release kept handle (others os i) (refs (named os i) ++ rs)
        (i :: p.1, p.2)
termination_by rs => rs.length + (refs os).length
decreasing_by
  · rw [List.length_cons]
    omega
  · rw [List.length_cons]
    omega
  · have := length_refs_split os i
    rw [List.length_cons, List.length_append]
    omega

/-- Owners are only taken away. -/
theorem mem_of_mem_release {kept : ρ → Bool} {handle : ρ → Option ι} {os : List (ι × List ρ)}
    {rs : List ρ} {o : ι × List ρ} (h : o ∈ (release kept handle os rs).2) : o ∈ os := by
  fun_induction release kept handle os rs with
  | case1 os => exact h
  | case2 os r rs _ ih => exact ih h
  | case3 os r rs _ _ ih => exact ih h
  | case4 os r rs _ i _ p ih => exact List.mem_of_mem_filter (ih h)

end

end Owners
