import Mathlib

/-!
# Entries of a table

A table is an association list with one entry a key. What a table has under a
key after an insert is the inserted value or an entry it had before
(`lookup_insert_some`); an erase leaves only entries it had before
(`lookup_erase_some`).
-/

namespace Tables

variable {α β : Type*} [DecidableEq α] {l : AList fun _ : α => β} {k k' : α} {x y : β}

theorem lookup_insert_some (h : (l.insert k x).lookup k' = some y) :
    k' = k ∧ y = x ∨ k' ≠ k ∧ l.lookup k' = some y := by
  by_cases e : k' = k
  · subst e
    rw [AList.lookup_insert] at h
    exact .inl ⟨rfl, (Option.some.inj h).symm⟩
  · rw [AList.lookup_insert_ne e] at h
    exact .inr ⟨e, h⟩

theorem lookup_erase_some (h : (l.erase k).lookup k' = some y) :
    k' ≠ k ∧ l.lookup k' = some y := by
  have e : k' ≠ k := by
    rintro rfl
    rw [AList.lookup_erase] at h
    cases h
  exact ⟨e, (AList.lookup_erase_ne e).symm.trans h⟩

theorem lookup_insert_isSome (k : α) (x : β) (h : (l.lookup k').isSome = true) :
    ((l.insert k x).lookup k').isSome = true := by
  by_cases e : k' = k
  · rw [e, AList.lookup_insert]; rfl
  · rwa [AList.lookup_insert_ne e]

end Tables
