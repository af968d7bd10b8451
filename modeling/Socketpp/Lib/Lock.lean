import Mathlib

/-!
# A flag that excludes

A spin lock is a flag that `test_and_set` sets when it finds it clear and that
the thread which set it clears. `Excl flag holds` says what follows for the
threads that hold the lock: none if the flag is clear, at most one otherwise.
-/

/-- At most one thread holds the lock, and none while its flag is clear. -/
structure Excl {T : Type*} (flag : Bool) (holds : T → Prop) : Prop where
  free : flag = false → ∀ t, ¬ holds t
  one : ∀ t t', holds t → holds t' → t = t'

namespace Excl

variable {T : Type*} {flag : Bool} {holds holds' : T → Prop} {t : T}

theorem mono (h : Excl flag holds) (hs : ∀ t, holds' t → holds t) : Excl flag holds' :=
  ⟨fun hf t ht => h.free hf t (hs t ht), fun t t' ht ht' => h.one t t' (hs t ht) (hs t' ht')⟩

/-- `test_and_set` on a clear flag. -/
theorem acquire (h : Excl false holds) (hs : ∀ t', holds' t' → holds t' ∨ t' = t) :
    Excl true holds' := by
  have hall (t' : T) (ht' : holds' t') : t' = t := (hs t' ht').resolve_left (h.free rfl t')
  exact ⟨nofun, fun t₁ t₂ h₁ h₂ => (hall t₁ h₁).trans (hall t₂ h₂).symm⟩

/-- The holder clears the flag. -/
theorem release (h : Excl flag holds) (ht : holds t)
    (hs : ∀ t', holds' t' → holds t' ∧ t' ≠ t) : Excl false holds' :=
  have hnone (t' : T) : ¬ holds' t' := fun ht' => (hs t' ht').2 (h.one t' t (hs t' ht').1 ht)
  ⟨fun _ => hnone, fun t₁ _ h₁ => absurd h₁ (hnone t₁)⟩

end Excl
