import Mathlib

/-!
# Weights of the cells of a finite family

`∑ i, g (f i)` weighs the cells of a family `f : Fin n → α`. Changing one cell
exchanges its weight (`sum_update`), a cell of positive weight bounds the sum
from below (`weight_le_sum`), and under a total of at most one at most one cell
has positive weight (`eq_of_sum_le_one`).

The same for the cells of a list, which can grow: `sum_map_set` and
`eq_of_sum_map_le_one`. A list splits at each of its cells (`split_getElem?`);
`map_set_of_nodup` and `countP_of_flip` map and count cells of which one changes.
-/

namespace Cells

open Finset

variable {α : Type*} {n : Nat}

/-- Changing one of the cells in `t` exchanges its weight, in any commutative monoid; a cell's
weight may depend on where it is. -/
theorem sum_change {ι W : Type*} [DecidableEq ι] [AddCommMonoid W] (g g' : ι → W)
    {t : Finset ι} {i : ι} (hi : i ∈ t) (h : ∀ j ∈ t, j ≠ i → g' j = g j) :
    ∑ j ∈ t, g' j + g i = ∑ j ∈ t, g j + g' i := by
  rw [← add_sum_erase t g' hi, ← add_sum_erase t g hi,
    sum_congr rfl fun j hj => h j (mem_of_mem_erase hj) (ne_of_mem_erase hj)]
  rw [add_right_comm, add_comm (g' i), add_right_comm]

/-- Updating one of the cells in `t`. -/
theorem sum_update_mem {ι W : Type*} [DecidableEq ι] [AddCommMonoid W] (g : α → W) (f : ι → α)
    {t : Finset ι} {i : ι} (hi : i ∈ t) (v : α) :
    ∑ j ∈ t, g (Function.update f i v j) + g (f i) = ∑ j ∈ t, g (f j) + g v := by
  have h := sum_change (fun j => g (f j)) (fun j => g (Function.update f i v j)) hi
    fun j _ hj => by rw [Function.update_of_ne hj]
  rwa [Function.update_self] at h

theorem sum_update_add {W : Type*} [AddCommMonoid W] (g : α → W) (f : Fin n → α) (i : Fin n)
    (v : α) : ∑ j, g (Function.update f i v j) + g (f i) = ∑ j, g (f j) + g v :=
  sum_update_mem g f (mem_univ i) v

/-- Updating a cell exchanges its weight. -/
theorem sum_update (g : α → Nat) (f : Fin n → α) (i : Fin n) (v : α) :
    ∑ j, g (Function.update f i v j) + g (f i) = ∑ j, g (f j) + g v :=
  sum_update_add g f i v

/-- Updating a cell by one of the same weight keeps the sum. -/
theorem sum_update_same {g : α → Nat} {f : Fin n → α} {i : Fin n} {v : α} (h : g v = g (f i)) :
    ∑ j, g (Function.update f i v j) = ∑ j, g (f j) := by
  have := sum_update g f i v
  omega

theorem weight_le_sum (g : α → Nat) (f : Fin n → α) (i : Fin n) : g (f i) ≤ ∑ j, g (f j) :=
  single_le_sum (f := fun j => g (f j)) (fun _ _ => Nat.zero_le _) (mem_univ i)

/-- Two cells of positive weight under a total of one are the same cell. -/
theorem eq_of_sum_le_one {g : α → Nat} {f : Fin n → α} (h : ∑ j, g (f j) ≤ 1) {i k : Fin n}
    (hi : 0 < g (f i)) (hk : 0 < g (f k)) : i = k := by
  by_contra hne
  rw [← add_sum_erase univ (fun j => g (f j)) (mem_univ i)] at h
  have : g (f k) ≤ ∑ j ∈ univ.erase i, g (f j) :=
    single_le_sum (f := fun j => g (f j)) (fun _ _ => Nat.zero_le _)
      (mem_erase.2 ⟨Ne.symm hne, mem_univ k⟩)
  omega

/-! ## Lists of cells -/

theorem split_getElem? {l : List α} {i : Nat} {x : α} (h : l[i]? = some x) :
    ∃ l₁ l₂, l = l₁ ++ x :: l₂ ∧ l.eraseIdx i = l₁ ++ l₂ ∧ ∀ y, l.set i y = l₁ ++ y :: l₂ := by
  obtain ⟨hi, rfl⟩ := List.getElem?_eq_some_iff.1 h
  refine ⟨l.take i, l.drop (i + 1), by simp, List.eraseIdx_eq_take_drop_succ .., fun y => ?_⟩
  rw [List.set_eq_take_append_cons_drop, if_pos hi]

/-- Cells that are all different are mapped, and the image of one of them changes. -/
theorem map_set_of_nodup {β : Type*} {f f' : α → β} {l : List α} (hn : l.Nodup) {i : Nat} {x : α}
    (hi : l[i]? = some x) (h : ∀ y, y ≠ x → f' y = f y) : l.map f' = (l.map f).set i (f' x) := by
  induction l generalizing i with
  | nil => cases hi
  | cons y l ih =>
    obtain ⟨hy, hn⟩ := List.nodup_cons.1 hn
    cases i with
    | zero =>
      cases hi
      have hrest : l.map f' = l.map f :=
        List.map_congr_left fun z hz => h z fun e => hy (e ▸ hz)
      rw [List.map_cons, List.map_cons, List.set_cons_zero, hrest]
    | succ i =>
      have hne : y ≠ x := fun e => hy (e ▸ List.mem_of_getElem? hi)
      rw [List.map_cons, List.map_cons, List.set_cons_succ, h y hne, ih hn hi]

theorem countP_of_flip [DecidableEq α] {l : List α} (hn : l.Nodup) {x : α} (hx : x ∈ l)
    {p p' : α → Bool} (hp : p x = false) (hp' : p' x = true) (h : ∀ y, y ≠ x → p' y = p y) :
    l.countP p' = l.countP p + 1 := by
  have hsplit := List.perm_cons_erase hx
  have hrest : (l.erase x).countP p' = (l.erase x).countP p := by
    refine List.countP_congr fun y hy => ?_
    rw [h y fun e => (List.Nodup.mem_erase_iff hn).1 hy |>.1 e]
  rw [hsplit.countP_eq, hsplit.countP_eq, List.countP_cons, List.countP_cons, hrest, hp, hp']
  rfl

/-- Setting a cell exchanges its weight. -/
theorem sum_map_set (g : α → Nat) {l : List α} {i : Nat} {x : α} (h : l[i]? = some x) (v : α) :
    ((l.set i v).map g).sum + g x = (l.map g).sum + g v := by
  induction l generalizing i with
  | nil => cases h
  | cons y l ih =>
    cases i with
    | zero =>
      cases h
      simp only [List.set_cons_zero, List.map_cons, List.sum_cons]
      omega
    | succ i =>
      have := ih h
      simp only [List.set_cons_succ, List.map_cons, List.sum_cons]
      omega

theorem weight_le_sum_map (g : α → Nat) {l : List α} {i : Nat} {x : α} (h : l[i]? = some x) :
    g x ≤ (l.map g).sum :=
  List.le_sum_of_mem (List.mem_map_of_mem (List.mem_of_getElem? h))

theorem eq_of_sum_map_le_one {g : α → Nat} {l : List α} (hl : (l.map g).sum ≤ 1) {i k : Nat}
    {x y : α} (hi : l[i]? = some x) (hk : l[k]? = some y) (hx : 0 < g x) (hy : 0 < g y) :
    i = k := by
  induction l generalizing i k with
  | nil => cases hi
  | cons z l ih =>
    rw [List.map_cons, List.sum_cons] at hl
    cases i with
    | zero =>
      cases k with
      | zero => rfl
      | succ k =>
        -- the head and a cell of the tail weigh two together
        cases hi
        have := weight_le_sum_map g (l := l) hk
        omega
    | succ i =>
      cases k with
      | zero =>
        cases hk
        have := weight_le_sum_map g (l := l) hi
        omega
      | succ k => rw [ih (by omega) hi hk]

end Cells
