import Mathlib
import Socketpp.Lib.Slices

/-!
# Keys: equality and order that agree

The containers of the standard library ask more of the comparisons of a key
type than that each of them is sensible: `==` is an equivalence, `<` is a strict
order that is total up to `==`, and neither sees a difference between equal
keys (`Lawful`). Comparisons that only look at a value of a linear order are so
(`Lawful.of_key`). `memcmp` compares blocks as their lists of bytes are ordered
(`memcmp_eq_iff`, `memcmp_lt_iff`), and numbers are ordered as their bytes are,
the highest first (`beValue_lt_iff`).
-/

namespace Keys

variable {α κ : Type*} {eq lt : α → α → Bool}

structure Lawful (eq lt : α → α → Bool) : Prop where
  refl : ∀ a, eq a a
  symm : ∀ a b, eq a b → eq b a
  trans : ∀ a b c, eq a b → eq b c → eq a c
  /-- exactly one of `a < b`, `a == b` and `b < a` -/
  trichotomy : ∀ a b, (lt a b ∧ ¬ eq a b ∧ ¬ lt b a) ∨ (¬ lt a b ∧ eq a b ∧ ¬ lt b a) ∨
    (¬ lt a b ∧ ¬ eq a b ∧ lt b a)
  lt_trans : ∀ a b c, lt a b → lt b c → lt a c
  congr : ∀ a a' b b', eq a a' → eq b b' → (lt a b ↔ lt a' b')

theorem Lawful.of_key [LinearOrder κ] (key : α → κ) (heq : ∀ a b, eq a b ↔ key a = key b)
    (hlt : ∀ a b, lt a b ↔ key a < key b) : Lawful eq lt where
  refl a := (heq a a).2 rfl
  symm a b h := (heq b a).2 ((heq a b).1 h).symm
  trans a b c h h' := (heq a c).2 (((heq a b).1 h).trans ((heq b c).1 h'))
  trichotomy a b := by
    rw [heq, hlt, hlt]
    rcases lt_trichotomy (key a) (key b) with h | h | h
    · exact .inl ⟨h, h.ne, h.not_gt⟩
    · exact .inr (.inl ⟨h.not_lt, h, h.symm.not_lt⟩)
    · exact .inr (.inr ⟨h.not_gt, h.ne', h⟩)
  lt_trans a b c h h' := (hlt a c).2 (((hlt a b).1 h).trans ((hlt b c).1 h'))
  congr a a' b b' h h' := by rw [hlt, hlt, (heq a a').1 h, (heq b b').1 h']

/-- A comparison that goes on where the first part is equal. -/
theorem ite_iff_lex {p q : Prop} [Decidable p] [Decidable q] (h : q → ¬ p) (c : Bool) :
    (if ¬ p then decide q else c) = true ↔ q ∨ p ∧ c = true := by
  by_cases hp : p
  · rw [if_neg (not_not_intro hp)]
    exact ⟨fun hc => .inr ⟨hp, hc⟩, fun hor => (hor.resolve_left fun hq => h hq hp).2⟩
  · rw [if_pos hp, decide_eq_true_iff]
    exact ⟨.inl, fun hor => hor.resolve_right fun hpc => hp hpc.1⟩

/-! ## Blocks of bytes -/

/-- `memcmp` of blocks of one length: the first bytes that differ decide. -/
def memcmp : List UInt8 → List UInt8 → Ordering
  | x :: xs, y :: ys => if x = y then memcmp xs ys else if x < y then .lt else .gt
  | _, _ => .eq

/-- The bytes of a block as numbers. -/
def values (l : List UInt8) : List ℕ := l.map UInt8.toNat

theorem values_injective : Function.Injective values :=
  List.map_injective_iff.2 fun _ _ => UInt8.toNat_inj.1

theorem memcmp_eq_iff {a b : List UInt8} (h : a.length = b.length) :
    memcmp a b = .eq ↔ a = b := by
  induction a generalizing b with
  | nil =>
    cases b with
    | nil => exact iff_of_true rfl rfl
    | cons y ys => cases h
  | cons x xs ih =>
    cases b with
    | nil => cases h
    | cons y ys =>
      rw [memcmp, List.cons.injEq, ← ih (Nat.succ.inj h)]
      by_cases hxy : x = y
      · rw [if_pos hxy]
        exact (and_iff_right hxy).symm
      · rw [if_neg hxy]
        refine iff_of_false ?_ fun hc => hxy hc.1
        split <;> exact Ordering.noConfusion

theorem memcmp_lt_iff {a b : List UInt8} (h : a.length = b.length) :
    memcmp a b = .lt ↔ values a < values b := by
  induction a generalizing b with
  | nil =>
    cases b with
    | nil => exact iff_of_false Ordering.noConfusion (lt_irrefl _)
    | cons y ys => cases h
  | cons x xs ih =>
    cases b with
    | nil => cases h
    | cons y ys =>
      rw [memcmp, values, values, List.map_cons, List.map_cons, List.cons_lt_cons_iff,
        UInt8.toNat_inj]
      by_cases hxy : x = y
      · rw [if_pos hxy, ih (Nat.succ.inj h)]
        refine ⟨fun hlt => .inr ⟨hxy, hlt⟩, fun hor => ?_⟩
        rcases hor with hlt | hlt
        · exact absurd (congrArg UInt8.toNat hxy) hlt.ne
        · exact hlt.2
      · rw [if_neg hxy]
        by_cases hlt : x < y
        · exact iff_of_true (if_pos hlt) (.inl (UInt8.lt_iff_toNat_lt.1 hlt))
        · rw [if_neg hlt]
          refine iff_of_false Ordering.noConfusion fun hor => ?_
          rcases hor with hc | hc
          · exact hlt (UInt8.lt_iff_toNat_lt.2 hc)
          · exact hxy hc.1

/-- Numbers of one width are ordered as their bytes are, the highest first. -/
theorem beValue_lt_iff {a b : List UInt8} (h : a.length = b.length) :
    Slices.beValue a < Slices.beValue b ↔ values a < values b := by
  induction a generalizing b with
  | nil =>
    cases b with
    | nil => exact iff_of_false (lt_irrefl _) (lt_irrefl _)
    | cons y ys => cases h
  | cons x xs ih =>
    cases b with
    | nil => cases h
    | cons y ys =>
      have hlen := Nat.succ.inj h
      have hx := Slices.beValue_lt xs
      have hy := Slices.beValue_lt ys
      rw [Slices.beValue_cons, Slices.beValue_cons, values, values, List.map_cons, List.map_cons,
        List.cons_lt_cons_iff]
      rw [hlen] at hx ⊢
      rcases lt_trichotomy x.toNat y.toNat with hlt | heq | hgt
      · -- the highest byte of one unit more outweighs the rest
        refine iff_of_true ?_ (.inl hlt)
        have hmul := Nat.mul_le_mul_left (256 ^ ys.length) (Nat.succ_le_of_lt hlt)
        rw [Nat.mul_succ] at hmul
        omega
      · rw [heq, Nat.add_lt_add_iff_right, ih hlen]
        exact ⟨fun hl => .inr ⟨rfl, hl⟩, fun hor => (hor.resolve_left (lt_irrefl _)).2⟩
      · refine iff_of_false ?_ fun hor => ?_
        · have hmul := Nat.mul_le_mul_left (256 ^ ys.length) (Nat.succ_le_of_lt hgt)
          rw [Nat.mul_succ] at hmul
          omega
        · rcases hor with hc | hc
          · exact hgt.not_gt hc
          · exact hgt.ne' hc.1

end Keys
