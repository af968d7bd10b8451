import Socketpp.Lib.Text
import Socketpp.Platform

/-!
# The text form of an address

The grammars of `inet_pton`: `dottedQuad` reads an IPv4 address and `ipv6Text` an
IPv6 address, given the whole text. An address has no other characters than digits,
dots and colons, and there is a longest one in each family (`dottedQuad_wellFormed`,
`ipv6Text_wellFormed`); the buffers of `parse` are of that size on POSIX.
-/

namespace Socketpp

def dot : UInt8 := 46
def colon : UInt8 := 58

/-- `in_addr`, in network order. -/
structure InAddr where
  b0 : UInt8
  b1 : UInt8
  b2 : UInt8
  b3 : UInt8
  deriving DecidableEq, Repr

def InAddr.bytes (a : InAddr) : Bytes := [a.b0, a.b1, a.b2, a.b3]

/-- `in6_addr`. -/
structure In6Addr where
  bytes : Bytes
  length : bytes.length = 16
  deriving DecidableEq

def In6Addr.ofBytes (bytes : Bytes) : Option In6Addr :=
  if h : bytes.length = 16 then some ⟨bytes, h⟩ else none

/-! ## IPv4 -/

/-- One to three decimal digits, without a leading zero, that give a byte. -/
def octet (p : Bytes) : Option UInt8 :=
  if p.length ≤ 3 ∧ (p.head? = some 48 → p.length = 1) then
    ((Numeral.value 10 p).filter fun v => v < 256).map UInt8.ofNat
  else none

def dottedQuad (s : Bytes) : Option InAddr :=
  match (s.splitOn dot).mapM octet with
  | some [b0, b1, b2, b3] => some ⟨b0, b1, b2, b3⟩
  | _ => none

/-! ## IPv6 -/

/-- One to four hexadecimal digits. -/
def group (p : Bytes) : Option Bytes :=
  if p.length ≤ 4 then
    (Numeral.value 16 p).map fun v => [UInt8.ofNat (v / 256), UInt8.ofNat (v % 256)]
  else none

/-- The last group of the text may be an IPv4 address. -/
def lastGroup (p : Bytes) : Option Bytes := (group p).or ((dottedQuad p).map InAddr.bytes)

/-- Groups, the last of which is read by `last`. -/
def groups (last : Bytes → Option Bytes) : List Bytes → Option Bytes
  | [] => some []
  | [p] => last p
  | p :: q :: ps => (group p).bind fun b => (groups last (q :: ps)).map (b ++ ·)

/-- The groups on one side of `::`. -/
def sideGroups (last : Bytes → Option Bytes) (s : Bytes) : Option Bytes :=
  if s = [] then some [] else groups last (s.splitOn colon)

/-- The text before the first `::`, and after it. -/
def splitGap : Bytes → Option (Bytes × Bytes)
  | [] => none
  | [_] => none
  | c :: d :: s =>
    if c = colon ∧ d = colon then some ([], s)
    else (splitGap (d :: s)).map fun r => (c :: r.1, r.2)

def ipv6Text (s : Bytes) : Option In6Addr :=
  match splitGap s with
  | none => (groups lastGroup (s.splitOn colon)).bind In6Addr.ofBytes
  | some (l, r) =>
    (sideGroups group l).bind fun a => (sideGroups lastGroup r).bind fun b =>
      -- `::` stands for one group at least
      if a.length + b.length ≤ 14 then
        In6Addr.ofBytes (a ++ List.replicate (16 - (a.length + b.length)) 0 ++ b)
      else none

/-! ## What is accepted -/

/-- The characters of addresses. -/
def AddrByte (c : UInt8) : Prop := c = dot ∨ c = colon ∨ (Numeral.digitIn 16 c).isSome = true

instance (c : UInt8) : Decidable (AddrByte c) := inferInstanceAs (Decidable (_ ∨ _))

theorem not_addrByte_zero : ¬ AddrByte 0 := by decide

/-- A field of `len` characters that gives `k` bytes: two bytes take five characters with the
separator, and `slack` half characters are left over. -/
structure Fits (slack len k : Nat) (s : Bytes) : Prop where
  chars : ∀ c ∈ s, AddrByte c
  bound : 2 * len ≤ 5 * k + slack

theorem octet_chars {p : Bytes} (h : (octet p).isSome = true) :
    p.length ≤ 3 ∧ ∀ c ∈ p, AddrByte c := by
  unfold octet at h
  split at h
  · rename_i hp
    rw [Option.isSome_map] at h
    obtain ⟨v, hv⟩ := Option.isSome_iff_exists.1 h
    have hval := (Option.filter_eq_some_iff.1 hv).1
    refine ⟨hp.1, fun c hc => .inr (.inr ?_)⟩
    exact Numeral.digitIn_mono (by omega) (Numeral.digitIn_of_value hval c hc)
  · cases h

/-- **IPv4 addresses have at most 15 characters.** -/
theorem dottedQuad_wellFormed {s : Bytes} {a : InAddr} (h : dottedQuad s = some a) :
    s.length ≤ 15 ∧ ∀ c ∈ s, AddrByte c := by
  unfold dottedQuad at h
  split at h
  · rename_i b0 b1 b2 b3 hm
    obtain ⟨hlen, hall⟩ := Fields.of_mapM hm
    have hs : [dot].intercalate (s.splitOn dot) = s := List.intercalate_splitOn dot
    constructor
    · have hsum := Fields.length_intercalate dot (List.splitOn_ne_nil dot s)
      have hle : ((s.splitOn dot).map fun p => p.length + 1).sum ≤ 4 * (s.splitOn dot).length := by
        have := List.sum_le_card_nsmul ((s.splitOn dot).map fun p => p.length + 1) 4 ?_
        · rw [List.length_map, smul_eq_mul, Nat.mul_comm] at this
          exact this
        · intro n hn
          obtain ⟨p, hp, rfl⟩ := List.mem_map.1 hn
          have := (octet_chars (hall p hp)).1
          omega
      rw [hlen] at hle
      rw [hs] at hsum
      simp only [List.length_cons, List.length_nil] at hle
      omega
    · intro c hc
      rw [← hs] at hc
      rcases Fields.mem_intercalate hc with rfl | ⟨p, hp, hc⟩
      · exact .inl rfl
      · exact (octet_chars (hall p hp)).2 c hc
  · cases h

theorem group_fits {p bs : Bytes} (h : group p = some bs) : Fits 0 (p.length + 1) bs.length p := by
  unfold group at h
  split at h
  · obtain ⟨v, hv, rfl⟩ := Option.map_eq_some_iff.1 h
    refine ⟨fun c hc => .inr (.inr (Numeral.digitIn_of_value hv c hc)), ?_⟩
    simp only [List.length_cons, List.length_nil]
    omega
  · cases h

theorem lastGroup_fits {p bs : Bytes} (h : lastGroup p = some bs) :
    Fits 12 (p.length + 1) bs.length p := by
  rcases Option.or_eq_some_iff.1 h with h | ⟨-, h⟩
  · obtain ⟨hc, hb⟩ := group_fits h
    exact ⟨hc, by omega⟩
  · obtain ⟨a, ha, rfl⟩ := Option.map_eq_some_iff.1 h
    obtain ⟨hlen, hc⟩ := dottedQuad_wellFormed ha
    refine ⟨hc, ?_⟩
    simp only [InAddr.bytes, List.length_cons, List.length_nil]
    omega

variable {last : Bytes → Option Bytes} {slack : Nat}

theorem groups_fits (hl : ∀ p bs, last p = some bs → Fits slack (p.length + 1) bs.length p)
    {ps : List Bytes} {bs : Bytes} (h : groups last ps = some bs) :
    (∀ p ∈ ps, ∀ c ∈ p, AddrByte c) ∧
      2 * (ps.map fun p => p.length + 1).sum ≤ 5 * bs.length + slack := by
  induction ps generalizing bs with
  | nil => cases h; exact ⟨List.forall_mem_nil _, Nat.zero_le _⟩
  | cons p ps ih =>
    cases ps with
    | nil =>
      obtain ⟨hc, hb⟩ := hl p bs h
      refine ⟨List.forall_mem_cons.2 ⟨hc, List.forall_mem_nil _⟩, ?_⟩
      simpa using hb
    | cons q ps =>
      obtain ⟨b, hb, h⟩ := Option.bind_eq_some_iff.1 h
      obtain ⟨bs, hbs, rfl⟩ := Option.map_eq_some_iff.1 h
      obtain ⟨hc, hlen⟩ := group_fits hb
      obtain ⟨hcs, hlens⟩ := ih hbs
      refine ⟨List.forall_mem_cons.2 ⟨hc, hcs⟩, ?_⟩
      rw [List.map_cons, List.sum_cons, List.length_append]
      omega

theorem text_fits (hl : ∀ p bs, last p = some bs → Fits slack (p.length + 1) bs.length p)
    {s bs : Bytes} (h : groups last (s.splitOn colon) = some bs) :
    Fits slack (s.length + 1) bs.length s := by
  obtain ⟨hc, hlen⟩ := groups_fits hl h
  have hs : [colon].intercalate (s.splitOn colon) = s := List.intercalate_splitOn colon
  rw [← Fields.length_intercalate colon (List.splitOn_ne_nil colon s), hs] at hlen
  refine ⟨fun c hm => ?_, hlen⟩
  rw [← hs] at hm
  rcases Fields.mem_intercalate hm with rfl | ⟨p, hp, hm⟩
  · exact .inr (.inl rfl)
  · exact hc p hp c hm

theorem sideGroups_fits (hl : ∀ p bs, last p = some bs → Fits slack (p.length + 1) bs.length p)
    {s bs : Bytes} (h : sideGroups last s = some bs) : Fits slack s.length bs.length s := by
  unfold sideGroups at h
  split at h
  · rename_i hs
    rw [hs]
    exact ⟨List.forall_mem_nil _, Nat.zero_le _⟩
  · obtain ⟨hc, hb⟩ := text_fits hl h
    exact ⟨hc, by omega⟩

theorem splitGap_eq {s l r : Bytes} (h : splitGap s = some (l, r)) :
    s = l ++ colon :: colon :: r := by
  induction s generalizing l with
  | nil => cases h
  | cons c s ih =>
    cases s with
    | nil => cases h
    | cons d s =>
      unfold splitGap at h
      split at h
      · rename_i hcd
        cases h
        rw [hcd.1, hcd.2]
        rfl
      · obtain ⟨⟨l', r'⟩, h', he⟩ := Option.map_eq_some_iff.1 h
        cases he
        rw [List.cons_append, ← ih h']

theorem length_of_ofBytes {bs : Bytes} {a : In6Addr} (h : In6Addr.ofBytes bs = some a) :
    bs.length = 16 ∧ a.bytes = bs := by
  unfold In6Addr.ofBytes at h
  split at h
  · rename_i hlen
    cases h
    exact ⟨hlen, rfl⟩
  · cases h

/-- **IPv6 addresses have at most 45 characters.** -/
theorem ipv6Text_wellFormed {s : Bytes} {a : In6Addr} (h : ipv6Text s = some a) :
    s.length ≤ 45 ∧ ∀ c ∈ s, AddrByte c := by
  unfold ipv6Text at h
  split at h
  · obtain ⟨bs, hbs, h⟩ := Option.bind_eq_some_iff.1 h
    obtain ⟨hc, hb⟩ := text_fits (fun _ _ => lastGroup_fits) hbs
    have hlen := (length_of_ofBytes h).1
    exact ⟨by omega, hc⟩
  · rename_i l r hgap
    obtain ⟨a, ha, h⟩ := Option.bind_eq_some_iff.1 h
    obtain ⟨b, hb, h⟩ := Option.bind_eq_some_iff.1 h
    obtain ⟨hcl, hl⟩ := sideGroups_fits (fun _ _ => group_fits) ha
    obtain ⟨hcr, hr⟩ := sideGroups_fits (fun _ _ => lastGroup_fits) hb
    split at h
    · rw [splitGap_eq hgap]
      constructor
      · simp only [List.length_append, List.length_cons]
        omega
      · intro c hc
        rw [List.mem_append, List.mem_cons, List.mem_cons] at hc
        rcases hc with hc | rfl | rfl | hc
        · exact hcl c hc
        · exact .inr (.inl rfl)
        · exact .inr (.inl rfl)
        · exact hcr c hc
    · cases h

/-! ## Every address has a text -/

def dottedText (a : InAddr) : Bytes :=
  [dot].intercalate (a.bytes.map fun b => Numeral.text 10 b.toNat)

theorem octet_text (b : UInt8) : octet (Numeral.text 10 b.toNat) = some b := by
  have hlt := b.toNat_lt
  have hlen : (Numeral.text 10 b.toNat).length ≤ 3 :=
    Numeral.text_length_le (by omega) (by omega) (by omega)
  have hzero (h : (Numeral.text 10 b.toNat).head? = some 48) :
      (Numeral.text 10 b.toNat).length = 1 := by
    rw [Numeral.eq_zero_of_head?_text (by omega) (by omega) h]
    rfl
  rw [octet, if_pos ⟨hlen, hzero⟩, Numeral.value_text (by omega) (by omega)]
  simp [hlt]

/-- A separator is not a digit. -/
theorem not_mem_text {b : Nat} (h1 : 1 < b) (hb : b ≤ 16) {c : UInt8}
    (hc : Numeral.digitIn b c = none) (n : Nat) : c ∉ Numeral.text b n := by
  intro h
  have := Numeral.digitIn_of_mem_text h1 hb n c h
  rw [hc] at this
  cases this

theorem dottedQuad_dottedText (a : InAddr) : dottedQuad (dottedText a) = some a := by
  have hdot : ∀ p ∈ a.bytes.map fun b => Numeral.text 10 b.toNat, dot ∉ p := by
    intro p hp
    obtain ⟨b, -, rfl⟩ := List.mem_map.1 hp
    exact not_mem_text (by omega) (by omega) (by decide) _
  rw [dottedQuad, dottedText, List.splitOn_intercalate dot hdot (by simp [InAddr.bytes]),
    Fields.mapM_map fun b _ => octet_text b]
  rfl

/-- The eight groups, none left out. -/
def groupValues : Bytes → List Nat
  | hi :: lo :: bs => (hi.toNat * 256 + lo.toNat) :: groupValues bs
  | _ => []

def fullText (a : In6Addr) : Bytes :=
  [colon].intercalate ((groupValues a.bytes).map (Numeral.text 16))

def groupBytes (v : Nat) : Bytes := [UInt8.ofNat (v / 256), UInt8.ofNat (v % 256)]

theorem group_text {v : Nat} (h : v < 65536) : group (Numeral.text 16 v) = some (groupBytes v) := by
  rw [group, if_pos (Numeral.text_length_le (by omega) (by omega) h),
    Numeral.value_text (by omega) (by omega)]
  rfl

theorem groups_text {vs : List Nat} (h : ∀ v ∈ vs, v < 65536) :
    groups lastGroup (vs.map (Numeral.text 16)) = some (vs.flatMap groupBytes) := by
  induction vs with
  | nil => rfl
  | cons v vs ih =>
    rw [List.forall_mem_cons] at h
    cases vs with
    | nil =>
      simp only [List.map_cons, List.map_nil, groups, lastGroup, group_text h.1]
      simp
    | cons w vs =>
      have := ih h.2
      simp only [List.map_cons] at this
      simp only [List.map_cons, groups, group_text h.1, this, List.flatMap_cons]
      rfl

theorem groupValues_lt (bs : Bytes) : ∀ v ∈ groupValues bs, v < 65536 := by
  fun_induction groupValues bs with
  | case1 hi lo bs ih =>
    refine List.forall_mem_cons.2 ⟨?_, ih⟩
    have := hi.toNat_lt; have := lo.toNat_lt
    omega
  | case2 => exact List.forall_mem_nil _

theorem flatMap_groupValues (bs : Bytes) (h : bs.length % 2 = 0) :
    (groupValues bs).flatMap groupBytes = bs := by
  fun_induction groupValues bs with
  | case1 hi lo bs ih =>
    have hlo := lo.toNat_lt
    have h1 : (hi.toNat * 256 + lo.toNat) / 256 = hi.toNat := by omega
    have h2 : (hi.toNat * 256 + lo.toNat) % 256 = lo.toNat := by omega
    simp only [List.length_cons] at h
    rw [List.flatMap_cons, ih (by omega), groupBytes, h1, h2, UInt8.ofNat_toNat, UInt8.ofNat_toNat]
    rfl
  | case2 bs hbs =>
    match bs, hbs with
    | [], _ => rfl
    | [_], _ => simp at h
    | hi :: lo :: bs, hbs => exact absurd rfl (hbs hi lo bs)

/-- There is no `::` before the first separator. -/
theorem splitGap_append {l s : Bytes} (hl : colon ∉ l) (hs : splitGap s = none) :
    splitGap (l ++ s) = none := by
  induction l with
  | nil => exact hs
  | cons c l ih =>
    rw [List.mem_cons, not_or] at hl
    have := ih hl.2
    rw [List.cons_append]
    cases hls : l ++ s with
    | nil => rfl
    | cons d r =>
      rw [hls] at this
      rw [splitGap, if_neg fun h => hl.1 h.1.symm, this]
      rfl

theorem splitGap_intercalate {fields : List Bytes} (h : ∀ p ∈ fields, p ≠ [] ∧ colon ∉ p) :
    splitGap ([colon].intercalate fields) = none := by
  induction fields with
  | nil => rfl
  | cons p fields ih =>
    rw [List.forall_mem_cons] at h
    cases fields with
    | nil =>
      have := splitGap_append h.1.2 (s := []) rfl
      simpa using this
    | cons q fields =>
      rw [List.intercalate_cons_cons, List.append_assoc]
      refine splitGap_append h.1.2 ?_
      obtain ⟨hq, hqc⟩ := h.2 q List.mem_cons_self
      have hrest := ih h.2
      -- the next field begins with another character
      obtain ⟨d, q', rfl⟩ := List.exists_cons_of_ne_nil hq
      have hd : d ≠ colon := fun e => hqc (e ▸ List.mem_cons_self)
      have hcons : ∃ r, [colon].intercalate ((d :: q') :: fields) = d :: r := by
        cases fields with
        | nil => exact ⟨q', by simp⟩
        | cons q'' fields => exact ⟨_, List.intercalate_cons_cons⟩
      obtain ⟨r, hr⟩ := hcons
      rw [hr] at hrest ⊢
      rw [List.singleton_append, splitGap, if_neg fun h => hd h.2, hrest]
      rfl

theorem ipv6Text_fullText (a : In6Addr) : ipv6Text (fullText a) = some a := by
  obtain ⟨bs, hlen⟩ := a
  have hcolon : ∀ p ∈ (groupValues bs).map (Numeral.text 16), colon ∉ p := by
    intro p hp
    obtain ⟨v, -, rfl⟩ := List.mem_map.1 hp
    exact not_mem_text (by omega) (by omega) (by decide) v
  have hne : (groupValues bs).map (Numeral.text 16) ≠ [] := by
    intro h
    have := flatMap_groupValues bs (by omega)
    rw [List.map_eq_nil_iff.1 h] at this
    rw [← this] at hlen
    cases hlen
  have hgap : splitGap (fullText ⟨bs, hlen⟩) = none := by
    refine splitGap_intercalate fun p hp => ⟨?_, hcolon p hp⟩
    obtain ⟨v, -, rfl⟩ := List.mem_map.1 hp
    exact Numeral.text_ne_nil 16 v
  rw [ipv6Text, hgap]
  simp only [fullText]
  rw [List.splitOn_intercalate colon hcolon hne, groups_text (groupValues_lt bs),
    flatMap_groupValues bs (by omega)]
  exact dif_pos hlen

end Socketpp
