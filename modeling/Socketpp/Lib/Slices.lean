import Mathlib

/-!
# Blocks packed into one buffer

`blit` copies a block into a buffer at an offset, `slice` reads one back.
`offsets` places blocks one behind the other: copying all of them fills a
buffer of their total length with their concatenation (`foldl_blit`), and each
slice reads its own block back (`slice_offsets`).

`Tiles lo spans hi` says that spans, each an offset and a length, lie one
behind the other from `lo` to `hi` and leave nothing out.

`leBytes` and `leValue` store a number in a buffer and read it back;
`ByteOrder.value` and `ByteOrder.bytes` do so in the order of the machine, and
`netToHost` turns the order of the network into it.
-/

namespace Slices

variable {α β : Type*}

/-- `memcpy` of a block to an offset. -/
def blit (buf : List α) (off : Nat) (block : List α) : List α :=
  buf.take off ++ block ++ buf.drop (off + block.length)

def slice (buf : List α) (off len : Nat) : List α := (buf.drop off).take len

/-- The blocks with the offsets they get one behind the other. -/
def offsets : Nat → List (List α) → List (Nat × List α)
  | _, [] => []
  | off, b :: bs => (off, b) :: offsets (off + b.length) bs

theorem blit_append (pre rest block : List α) :
    blit (pre ++ rest) pre.length block = pre ++ block ++ rest.drop block.length := by
  rw [blit, List.take_left, List.drop_length_add_append]

theorem length_blit {buf block : List α} {off : Nat} (h : off + block.length ≤ buf.length) :
    (blit buf off block).length = buf.length := by
  rw [blit, List.length_append, List.length_append, List.length_take, List.length_drop]
  omega

theorem length_slice {buf : List α} {off len : Nat} (h : off + len ≤ buf.length) :
    (slice buf off len).length = len := by
  rw [slice, List.length_take, List.length_drop]
  omega

theorem slice_append_left {l r : List α} {i len : Nat} (h : i + len ≤ l.length) :
    slice (l ++ r) i len = slice l i len := by
  rw [slice, slice, List.drop_append_of_le_length (by omega),
    List.take_append_of_le_length (by rw [List.length_drop]; omega)]

theorem slice_append_right (l r : List α) (i len : Nat) :
    slice (l ++ r) (l.length + i) len = slice r i len := by
  rw [slice, slice, List.drop_length_add_append]

/-- Copying does not change what lies in front of the block. -/
theorem slice_blit_before {buf block : List α} {off i len : Nat} (hoff : off ≤ buf.length)
    (h : i + len ≤ off) : slice (blit buf off block) i len = slice buf i len := by
  have htake : (buf.take off).length = off := List.length_take_of_le hoff
  calc slice (blit buf off block) i len = slice (buf.take off) i len := by
        rw [blit, List.append_assoc, slice_append_left (by omega)]
    _ = slice (buf.take off ++ buf.drop off) i len := (slice_append_left (by omega)).symm
    _ = slice buf i len := by rw [List.take_append_drop]

/-- A block can be read where it was copied to. -/
theorem slice_blit_inside {buf block : List α} {off i len : Nat} (hoff : off ≤ buf.length)
    (h : i + len ≤ block.length) :
    slice (blit buf off block) (off + i) len = slice block i len := by
  have htake : (buf.take off).length = off := List.length_take_of_le hoff
  have hright := slice_append_right (buf.take off) (block ++ buf.drop (off + block.length)) i len
  rw [htake] at hright
  rw [blit, List.append_assoc, hright, slice_append_left h]

/-- **Copying packed blocks.** -/
theorem foldl_blit (bs : List (List α)) (pre rest : List α)
    (h : rest.length = bs.flatten.length) :
    (offsets pre.length bs).foldl (fun buf p => blit buf p.1 p.2) (pre ++ rest) =
      pre ++ bs.flatten := by
  induction bs generalizing pre rest with
  | nil =>
    rw [List.flatten_nil, List.length_nil, List.length_eq_zero_iff] at h
    rw [h]
    rfl
  | cons b bs ih =>
    rw [List.flatten_cons, List.length_append] at h
    rw [offsets, List.foldl_cons, blit_append, ← List.length_append,
      ih (pre ++ b) (rest.drop b.length) (by rw [List.length_drop]; omega), List.flatten_cons,
      List.append_assoc]

/-- **Reading packed blocks.** -/
theorem slice_offsets (bs : List (List α)) (pre : List α) :
    ∀ p ∈ offsets pre.length bs, slice (pre ++ bs.flatten) p.1 p.2.length = p.2 := by
  induction bs generalizing pre with
  | nil => nofun
  | cons b bs ih =>
    intro p hp
    rcases List.mem_cons.1 hp with rfl | hp
    · simp [slice]
    · rw [← List.length_append] at hp
      have := ih (pre ++ b) p hp
      rwa [List.append_assoc, ← List.flatten_cons] at this

theorem slice_flatten {bs : List (List α)} {off : Nat} {b : List α}
    (h : (off, b) ∈ offsets 0 bs) : slice bs.flatten off b.length = b :=
  slice_offsets bs [] (off, b) h

/-- Elements put one by one into an array that has room for them. -/
theorem foldl_set_map {γ : Type*} (f : γ → β) (l : List γ) (pre rest : List β)
    (h : l.length ≤ rest.length) :
    (l.zipIdx pre.length).foldl (fun xs p => xs.set p.2 (f p.1)) (pre ++ rest) =
      pre ++ (l.map f ++ rest.drop l.length) := by
  induction l generalizing pre rest with
  | nil => rfl
  | cons x l ih =>
    cases rest with
    | nil => cases h
    | cons y rest =>
      have hset : (pre ++ y :: rest).set pre.length (f x) = pre ++ [f x] ++ rest := by simp
      have hnext : pre.length + 1 = (pre ++ [f x]).length := by simp
      rw [List.zipIdx_cons, List.foldl_cons, hset, hnext, ih _ _ (Nat.le_of_succ_le_succ h)]
      simp

/-- Filling an array from an index on. -/
theorem foldl_set (l pre rest : List β) (h : rest.length = l.length) :
    (l.zipIdx pre.length).foldl (fun xs p => xs.set p.2 p.1) (pre ++ rest) = pre ++ l := by
  have hset := foldl_set_map id l pre rest (Nat.le_of_eq h.symm)
  rw [List.map_id, List.drop_eq_nil_of_le (Nat.le_of_eq h), List.append_nil] at hset
  exact hset

/-- A loop over the slots that can fail, by the state after `n` of its passes. -/
theorem foldlM_range {S : Type*} {f : S → Nat → Option S} {s : Nat → S} {m : Nat}
    (h : ∀ n < m, f (s n) n = some (s (n + 1))) : (List.range m).foldlM f (s 0) = some (s m) := by
  induction m with
  | zero => rfl
  | succ m ih =>
    rw [List.range_succ, List.foldlM_append, ih fun n hn => h n (by omega)]
    simp [h m (by omega)]

/-! ## Spans that tile a range -/

def Tiles : Nat → List (Nat × Nat) → Nat → Prop
  | lo, [], hi => lo = hi
  | lo, s :: ss, hi => s.1 = lo ∧ Tiles (lo + s.2) ss hi

theorem tiles_offsets (bs : List (List α)) (off : Nat) :
    Tiles off ((offsets off bs).map fun p => (p.1, p.2.length)) (off + bs.flatten.length) := by
  induction bs generalizing off with
  | nil => rfl
  | cons b bs ih =>
    refine ⟨rfl, ?_⟩
    rw [List.flatten_cons, List.length_append, ← Nat.add_assoc]
    exact ih (off + b.length)

theorem Tiles.le {lo hi : Nat} {ss : List (Nat × Nat)} (h : Tiles lo ss hi) : lo ≤ hi := by
  induction ss generalizing lo with
  | nil => exact Nat.le_of_eq h
  | cons s ss ih => exact Nat.le_trans (Nat.le_add_right _ _) (ih h.2)

theorem Tiles.lo_le {lo hi : Nat} {ss : List (Nat × Nat)} (h : Tiles lo ss hi) :
    ∀ s ∈ ss, lo ≤ s.1 := by
  induction ss generalizing lo with
  | nil => nofun
  | cons s ss ih =>
    intro x hx
    rcases List.mem_cons.1 hx with rfl | hx
    · exact Nat.le_of_eq h.1.symm
    · exact Nat.le_trans (Nat.le_add_right _ _) (ih h.2 x hx)

theorem Tiles.disjoint {lo hi : Nat} {ss : List (Nat × Nat)} (h : Tiles lo ss hi) :
    ss.Pairwise fun s t => s.1 + s.2 ≤ t.1 := by
  induction ss generalizing lo with
  | nil => exact .nil
  | cons s ss ih =>
    refine .cons (fun t ht => ?_) (ih h.2)
    rw [h.1]
    exact h.2.lo_le t ht

/-- A position lies in a span exactly when it lies in the range. -/
theorem Tiles.cover {lo hi : Nat} {ss : List (Nat × Nat)} (h : Tiles lo ss hi) (k : Nat) :
    (∃ s ∈ ss, s.1 ≤ k ∧ k < s.1 + s.2) ↔ lo ≤ k ∧ k < hi := by
  induction ss generalizing lo with
  | nil =>
    cases h
    refine iff_of_false (by rintro ⟨s, hs, -⟩; cases hs) ?_
    omega
  | cons s ss ih =>
    obtain ⟨hs, ht⟩ := h
    have hle := ht.le
    rw [List.exists_mem_cons_iff, ih ht, hs]
    omega

/-! ## Numbers in a buffer -/

/-- The lowest `w` bytes of a number, the lowest first. -/
def leBytes : Nat → Nat → List UInt8
  | 0, _ => []
  | w + 1, n => UInt8.ofNat n :: leBytes w (n / 256)

def leValue : List UInt8 → Nat
  | [] => 0
  | b :: bs => b.toNat + 256 * leValue bs

@[simp] theorem length_leBytes (w n : Nat) : (leBytes w n).length = w := by
  induction w generalizing n with
  | zero => rfl
  | succ w ih => rw [leBytes, List.length_cons, ih]

theorem leValue_leBytes {w n : Nat} (h : n < 256 ^ w) : leValue (leBytes w n) = n := by
  induction w generalizing n with
  | zero => exact (Nat.lt_one_iff.1 h).symm
  | succ w ih =>
    have hdiv : n / 256 < 256 ^ w := Nat.div_lt_of_lt_mul (by rwa [Nat.pow_succ'] at h)
    rw [leBytes, leValue, ih hdiv]
    exact Nat.mod_add_div n 256

theorem leValue_lt (l : List UInt8) : leValue l < 256 ^ l.length := by
  induction l with
  | nil => exact Nat.one_pos
  | cons b bs ih =>
    have hb := b.toNat_lt
    rw [leValue, List.length_cons, Nat.pow_succ']
    omega

theorem leBytes_leValue (l : List UInt8) : leBytes l.length (leValue l) = l := by
  induction l with
  | nil => rfl
  | cons b bs ih =>
    have hb := b.toNat_lt
    have hdiv : (b.toNat + 256 * leValue bs) / 256 = leValue bs := by omega
    have hmod : UInt8.ofNat (b.toNat + 256 * leValue bs) = b := by
      refine UInt8.toNat_inj.1 ?_
      rw [UInt8.toNat_ofNat']
      omega
    rw [leValue, List.length_cons, leBytes, hdiv, ih, hmod]

theorem leValue_inj {l r : List UInt8} (h : l.length = r.length) :
    leValue l = leValue r ↔ l = r := by
  refine ⟨fun hv => ?_, congrArg leValue⟩
  rw [← leBytes_leValue l, ← leBytes_leValue r, h, hv]

theorem leValue_append (l r : List UInt8) :
    leValue (l ++ r) = leValue l + 256 ^ l.length * leValue r := by
  induction l with
  | nil => simp [leValue]
  | cons b bs ih =>
    rw [List.cons_append, leValue, leValue, ih, List.length_cons, Nat.pow_succ']
    ring

/-- The number whose bytes are these, the highest first. -/
def beValue (l : List UInt8) : Nat := leValue l.reverse

theorem beValue_lt (l : List UInt8) : beValue l < 256 ^ l.length := by
  have hlt := leValue_lt l.reverse
  rwa [List.length_reverse] at hlt

theorem beValue_cons (b : UInt8) (l : List UInt8) :
    beValue (b :: l) = beValue l + 256 ^ l.length * b.toNat := by
  rw [beValue, List.reverse_cons, leValue_append, List.length_reverse]
  rfl

theorem beValue_inj {l r : List UInt8} (h : l.length = r.length) :
    beValue l = beValue r ↔ l = r := by
  rw [beValue, beValue, leValue_inj (by rw [List.length_reverse, List.length_reverse, h]),
    List.reverse_inj]

/-- How a machine keeps a number in memory. -/
inductive ByteOrder where
  | little
  | big
  deriving DecidableEq, Repr

namespace ByteOrder

/-- The number at a place in memory. -/
def value : ByteOrder → List UInt8 → Nat
  | little => leValue
  | big => beValue

/-- The bytes that a number of `w` bytes is kept as. -/
def bytes : ByteOrder → Nat → Nat → List UInt8
  | little, w, n => leBytes w n
  | big, w, n => (leBytes w n).reverse

/-- `ntohs` and `ntohl`, and `htons` and `htonl`: the network keeps the highest byte first. -/
def netToHost : ByteOrder → Nat → Nat → Nat
  | little, w, n => beValue (leBytes w n)
  | big, _, n => n

variable (o : ByteOrder)

@[simp] theorem length_bytes (w n : Nat) : (o.bytes w n).length = w := by
  cases o with
  | little => exact length_leBytes w n
  | big => rw [bytes, List.length_reverse, length_leBytes]

theorem value_bytes {w n : Nat} (h : n < 256 ^ w) : o.value (o.bytes w n) = n := by
  cases o with
  | little => exact leValue_leBytes h
  | big => rw [value, bytes, beValue, List.reverse_reverse, leValue_leBytes h]

theorem value_inj {l r : List UInt8} (h : l.length = r.length) :
    o.value l = o.value r ↔ l = r := by
  cases o with
  | little => exact leValue_inj h
  | big => exact beValue_inj h

/-- Whatever the machine does, the bytes are read with the highest first. -/
theorem netToHost_value (l : List UInt8) : o.netToHost l.length (o.value l) = beValue l := by
  cases o with
  | little => rw [netToHost, value, leBytes_leValue]
  | big => rfl

theorem netToHost_lt {w n : Nat} (h : n < 256 ^ w) : o.netToHost w n < 256 ^ w := by
  cases o with
  | little =>
    have hlt := beValue_lt (leBytes w n)
    rwa [length_leBytes] at hlt
  | big => exact h

theorem netToHost_netToHost {w n : Nat} (h : n < 256 ^ w) :
    o.netToHost w (o.netToHost w n) = n := by
  cases o with
  | little =>
    have hlen : (leBytes w n).reverse.length = w := by rw [List.length_reverse, length_leBytes]
    have hback := leBytes_leValue (leBytes w n).reverse
    rw [hlen] at hback
    rw [netToHost, netToHost, beValue, beValue, hback, List.reverse_reverse, leValue_leBytes h]
  | big => rfl

/-- A number in the order of the network is read back. -/
theorem netToHost_value_bytes {w n : Nat} (h : n < 256 ^ w) :
    o.netToHost w (o.value (o.bytes w (o.netToHost w n))) = n := by
  rw [o.value_bytes (o.netToHost_lt h), o.netToHost_netToHost h]

end ByteOrder

end Slices
