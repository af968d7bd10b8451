import Mathlib

/-!
# Machine types

Descriptors, byte strings and `size_t` as the rest of the development uses
them. Lengths are `Nat` where nothing can wrap; a counter the source keeps in a
`size_t` is stepped with `sizeAdd` and `sizeSub`.
-/

namespace Socketpp

/-- A descriptor: a non-negative `int`. -/
abbrev Fd := Fin (2 ^ 31)

instance neZeroFd : NeZero (2 ^ 31) := ⟨by decide⟩

abbrev Bytes := List UInt8

/-- Addition of `size_t`. -/
def sizeAdd (a b : Nat) : Nat := (a + b) % 2 ^ 64

/-- Subtraction of `size_t`. -/
def sizeSub (a b : Nat) : Nat := (a + 2 ^ 64 - b) % 2 ^ 64

theorem sizeAdd_eq {a b : Nat} (h : a + b < 2 ^ 64) : sizeAdd a b = a + b := Nat.mod_eq_of_lt h

theorem sizeSub_eq {a b : Nat} (ha : a < 2 ^ 64) (h : b ≤ a) : sizeSub a b = a - b := by
  unfold sizeSub; omega

end Socketpp
