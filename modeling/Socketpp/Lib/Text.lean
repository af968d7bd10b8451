import Mathlib

/-!
# Numerals and fields of byte strings

A field is read by a partial function, a list of fields by `List.mapM`.
`List.splitOn` takes a text apart at a separator and `List.intercalate` puts it
together; the lemmas here bound its length and its characters by those of the
fields.

`text b n` is the numeral of `n` in base `b`, with small letters for the digits
from ten on and no leading zeros; `value b` reads a numeral, of either case. Bases
go up to sixteen. Reading back what was written gives the number (`value_text`), so
a numeral determines it (`text_inj`), and a numeral is made of digits only, so it
can stand next to a separator.
-/

namespace Fields

variable {α β : Type} {f : α → Option β}

/-- A list of fields that could all be read. -/
theorem of_mapM {l : List α} {r : List β} (h : l.mapM f = some r) :
    l.length = r.length ∧ ∀ x ∈ l, (f x).isSome = true := by
  induction l generalizing r with
  | nil => cases h; exact ⟨rfl, List.forall_mem_nil _⟩
  | cons x l ih =>
    rw [List.mapM_cons] at h
    obtain ⟨y, hy, h⟩ := Option.bind_eq_some_iff.1 h
    obtain ⟨ys, hys, h⟩ := Option.bind_eq_some_iff.1 h
    cases h
    obtain ⟨hlen, hall⟩ := ih hys
    refine ⟨congrArg (· + 1) hlen, List.forall_mem_cons.2 ⟨?_, hall⟩⟩
    rw [hy]
    rfl

theorem mapM_map {g : β → α} {l : List β} (h : ∀ x ∈ l, f (g x) = some x) :
    (l.map g).mapM f = some l := by
  induction l with
  | nil => rfl
  | cons x l ih =>
    rw [List.forall_mem_cons] at h
    rw [List.map_cons, List.mapM_cons, h.1, ih h.2]
    rfl

/-- The separators count one for each field but the last. -/
theorem length_intercalate (sep : α) {fields : List (List α)} (h : fields ≠ []) :
    ([sep].intercalate fields).length + 1 = (fields.map fun p => p.length + 1).sum := by
  induction fields with
  | nil => contradiction
  | cons p fields ih =>
    cases fields with
    | nil => simp
    | cons q fields =>
      have := ih (List.cons_ne_nil q fields)
      rw [List.intercalate_cons_cons, List.map_cons, List.sum_cons, List.length_append,
        List.length_append, List.length_singleton]
      omega

theorem mem_intercalate {sep c : α} {fields : List (List α)}
    (h : c ∈ [sep].intercalate fields) : c = sep ∨ ∃ p ∈ fields, c ∈ p := by
  induction fields with
  | nil => cases h
  | cons p fields ih =>
    cases fields with
    | nil => exact .inr ⟨p, List.mem_cons_self, by simpa using h⟩
    | cons q fields =>
      rw [List.intercalate_cons_cons, List.mem_append, List.mem_append,
        List.mem_singleton] at h
      rcases h with (h | h) | h
      · exact .inr ⟨p, List.mem_cons_self, h⟩
      · exact .inl h
      · refine (ih h).imp_right fun ⟨p', hp', hc⟩ => ?_
        exact ⟨p', List.mem_cons_of_mem _ hp', hc⟩

/-- A separator that is in neither field is at the same place. -/
theorem append_cons_inj {sep : α} {l l' r r' : List α} (h : sep ∉ l) (h' : sep ∉ l') :
    l ++ sep :: r = l' ++ sep :: r' ↔ l = l' ∧ r = r' := by
  induction l generalizing l' with
  | nil =>
    cases l' with
    | nil => simp
    | cons y l' =>
      refine iff_of_false (fun e => h' ?_) fun e => by cases e.1
      rw [List.nil_append, List.cons_append, List.cons.injEq] at e
      exact e.1 ▸ List.mem_cons_self
  | cons x l ih =>
    cases l' with
    | nil =>
      refine iff_of_false (fun e => h ?_) fun e => by cases e.1
      rw [List.nil_append, List.cons_append, List.cons.injEq] at e
      exact e.1 ▸ List.mem_cons_self
    | cons y l' =>
      rw [List.cons_append, List.cons_append, List.cons.injEq, List.cons.injEq,
        ih (fun hm => h (List.mem_cons_of_mem _ hm)) fun hm => h' (List.mem_cons_of_mem _ hm),
        and_assoc]

theorem takeWhile_append_cons {p : α → Bool} {l : List α} {x : α} {r : List α}
    (hl : ∀ y ∈ l, p y = true) (hx : p x = false) : (l ++ x :: r).takeWhile p = l := by
  rw [List.takeWhile_append_of_pos hl, List.takeWhile_cons, hx]
  exact List.append_nil l

end Fields

namespace Numeral

/-- The character of a digit. -/
def digitByte (d : Nat) : UInt8 := if d < 10 then UInt8.ofNat (48 + d) else UInt8.ofNat (87 + d)

/-- The digit of a character. -/
def digitVal (c : UInt8) : Option Nat :=
  if 48 ≤ c.toNat ∧ c.toNat ≤ 57 then some (c.toNat - 48)
  else if 97 ≤ c.toNat ∧ c.toNat ≤ 102 then some (c.toNat - 87)
  else if 65 ≤ c.toNat ∧ c.toNat ≤ 70 then some (c.toNat - 55)
  else none

/-- The digit of a character in base `b`. -/
def digitIn (b : Nat) (c : UInt8) : Option Nat := (digitVal c).filter fun d => d < b

def text (b n : Nat) : List UInt8 :=
  if n = 0 then [digitByte 0] else ((Nat.digits b n).map digitByte).reverse

/-- The digits of a numeral, the last one first. -/
def digits (b : Nat) (s : List UInt8) : Option (List Nat) := s.reverse.mapM (digitIn b)

def value (b : Nat) (s : List UInt8) : Option Nat :=
  if s = [] then none else (digits b s).map (Nat.ofDigits b)

variable {b n : Nat} {s : List UInt8}

theorem digitVal_digitByte : ∀ d < 16, digitVal (digitByte d) = some d := by decide

theorem digitIn_digitByte (hb : b ≤ 16) {d : Nat} (hd : d < b) :
    digitIn b (digitByte d) = some d := by
  rw [digitIn, digitVal_digitByte d (by omega)]
  simp [hd]

theorem digitIn_mono {b' : Nat} (hb : b ≤ b') {c : UInt8} (h : (digitIn b c).isSome = true) :
    (digitIn b' c).isSome = true := by
  obtain ⟨d, hd⟩ := Option.isSome_iff_exists.1 h
  obtain ⟨hc, hlt⟩ := Option.filter_eq_some_iff.1 hd
  refine Option.isSome_iff_exists.2 ⟨d, Option.filter_eq_some_iff.2 ⟨hc, ?_⟩⟩
  exact decide_eq_true (Nat.lt_of_lt_of_le (of_decide_eq_true hlt) hb)

theorem text_ne_nil (b n : Nat) : text b n ≠ [] := by
  unfold text
  split
  · exact List.cons_ne_nil _ _
  · rename_i hn
    simpa [Nat.digits_eq_nil_iff_eq_zero] using hn

/-- **Reading back what was written.** -/
theorem value_text (h1 : 1 < b) (hb : b ≤ 16) (n : Nat) : value b (text b n) = some n := by
  rw [value, if_neg (text_ne_nil b n), digits, text]
  split
  · rename_i hn
    have h0 := digitIn_digitByte hb (show 0 < b by omega)
    simp [h0, hn]
  · rw [List.reverse_reverse,
      Fields.mapM_map fun d hd => digitIn_digitByte hb (Nat.digits_lt_base h1 hd)]
    exact congrArg some (Nat.ofDigits_digits b n)

theorem text_inj (h1 : 1 < b) (hb : b ≤ 16) {m n : Nat} (h : text b m = text b n) : m = n := by
  have hm := value_text h1 hb m
  rw [h, value_text h1 hb n] at hm
  exact (Option.some.inj hm).symm

/-- Every character of a numeral that is read is a digit. -/
theorem digitIn_of_value {v : Nat} (h : value b s = some v) :
    ∀ c ∈ s, (digitIn b c).isSome = true := by
  unfold value at h
  split at h
  · cases h
  · obtain ⟨ds, hds, -⟩ := Option.map_eq_some_iff.1 h
    intro c hc
    exact (Fields.of_mapM hds).2 c (List.mem_reverse.2 hc)

theorem digitIn_of_mem_text (h1 : 1 < b) (hb : b ≤ 16) (n : Nat) :
    ∀ c ∈ text b n, (digitIn b c).isSome = true :=
  digitIn_of_value (value_text h1 hb n)

/-- There are no leading zeros. -/
theorem eq_zero_of_head?_text (h1 : 1 < b) (hb : b ≤ 16)
    (h : (text b n).head? = some (digitByte 0)) : n = 0 := by
  by_contra hn
  rw [text, if_neg hn, List.head?_reverse, List.getLast?_map] at h
  obtain ⟨d, hd, he⟩ := Option.map_eq_some_iff.1 h
  obtain ⟨hne, hlast⟩ := List.mem_getLast?_eq_getLast hd
  have hlt : d < b := Nat.digits_lt_base h1 (List.mem_of_getLast? hd)
  have hz := digitVal_digitByte d (by omega)
  rw [he, digitVal_digitByte 0 (by omega)] at hz
  rw [← Option.some.inj hz] at hlast
  exact Nat.getLast_digit_ne_zero b hn hlast.symm

theorem text_length_le (h1 : 1 < b) {k : Nat} (hk : 0 < k) (hn : n < b ^ k) :
    (text b n).length ≤ k := by
  unfold text
  split
  · exact hk
  · rw [List.length_reverse, List.length_map]
    exact (Nat.digits_length_le_iff h1 n).2 hn

end Numeral
