import Socketpp.Net.TextForm
import Socketpp.Platform.Error

/-!
# Addresses and their text

`inet4_address` and `inet6_address` (`src/net/inet4.cpp`, `src/net/inet6.cpp`):
`parse`, `to_string` and `==`. `inet_pton` and `inet_ntop` are the C library's, so
they are parameters. `htons` and `ntohs` undo each other; ports are kept in host
order.

`parse` copies as much of the `string_view` as its buffer takes and hands it over as
a C string. What comes after the buffer's size or after a NUL is not looked at, so
text is accepted that is no address (`parse_whole_iff`). `to_string` loses nothing
but `flowinfo`, which `==` ignores as well (`text_determines_address`).
-/

namespace Socketpp

/-- The bytes before a terminating NUL. -/
@[ext] structure CString where
  bytes : Bytes
  noNul : 0 ∉ bytes

/-- The C string at the start of a buffer. -/
def CString.ofBuf (buf : Bytes) : CString where
  bytes := buf.takeWhile fun c => c ≠ 0
  noNul h := by simpa using List.mem_takeWhile_imp h

def inetAddrstrlen : Os → Nat
  | .windows => 22
  | .linux | .macos => 16

def inet6Addrstrlen : Os → Nat
  | .windows => 65
  | .linux | .macos => 46

/-- `char buf[size] = {}`, with the start of `ip` copied into it. -/
def copyToBuf (size : Nat) (ip : Bytes) : Bytes :=
  let copyLen := if ip.length < size - 1 then ip.length else size - 1
  ip.take copyLen ++ List.replicate (size - copyLen) 0

/-- `std::make_error_code(std::errc::invalid_argument)`. -/
def invalidArgument : ErrorCode := ⟨22, .generic⟩

structure Inet4 where
  addr : InAddr
  port : UInt16
  deriving DecidableEq

structure Inet6 where
  addr : In6Addr
  port : UInt16
  scopeId : UInt32
  flowinfo : UInt32
  deriving DecidableEq

namespace Inet4

/-- `ip()`. -/
def ip (a : Inet4) : Nat :=
  a.addr.b0.toNat * 2 ^ 24 + a.addr.b1.toNat * 2 ^ 16 + a.addr.b2.toNat * 2 ^ 8 + a.addr.b3.toNat

/-- `operator==`. -/
def eq (a b : Inet4) : Bool := a.ip == b.ip && a.port == b.port

def parse (os : Os) (inetPton : CString → Option InAddr) (ip : Bytes) (port : UInt16) :
    Except ErrorCode Inet4 :=
  match inetPton (.ofBuf (copyToBuf (inetAddrstrlen os) ip)) with
  | none => .error invalidArgument
  | some addr => .ok ⟨addr, port⟩

end Inet4

namespace Inet6

def isLinkLocal (a : Inet6) : Bool :=
  a.addr.bytes.getD 0 0 == 0xfe && (a.addr.bytes.getD 1 0 &&& 0xc0) == 0x80

/-- `operator==`. -/
def eq (a b : Inet6) : Bool :=
  a.addr.bytes == b.addr.bytes && a.port == b.port && a.scopeId == b.scopeId

def parse (os : Os) (inetPton : CString → Option In6Addr) (ip : Bytes) (port : UInt16)
    (scopeId : UInt32) : Except ErrorCode Inet6 :=
  match inetPton (.ofBuf (copyToBuf (inet6Addrstrlen os) ip)) with
  | none => .error invalidArgument
  | some addr =>
    let resultAddr : Inet6 := ⟨addr, port, scopeId, 0⟩
    if resultAddr.isLinkLocal && scopeId == 0 then .error (makeErrorCode .missingScopeId)
    else .ok resultAddr

end Inet6

/-! ## What `parse` hands over -/

/-- What is left of `ip` in a buffer of `size` bytes. -/
def cut (size : Nat) (ip : Bytes) : Bytes := (ip.take (size - 1)).takeWhile fun c => c ≠ 0

theorem takeWhile_append_zeros (l : Bytes) (n : Nat) :
    (l ++ List.replicate n 0).takeWhile (fun c => c ≠ 0) = l.takeWhile fun c => c ≠ 0 := by
  induction l with
  | nil => cases n <;> rfl
  | cons c l ih =>
    rw [List.cons_append, List.takeWhile_cons, List.takeWhile_cons, ih]

theorem ofBuf_copyToBuf (size : Nat) (ip : Bytes) :
    (CString.ofBuf (copyToBuf size ip)).bytes = cut size ip := by
  have hlen : (if ip.length < size - 1 then ip.length else size - 1) =
      min (size - 1) ip.length := by
    split <;> omega
  rw [CString.ofBuf, copyToBuf, cut]
  simp only [hlen]
  rw [takeWhile_append_zeros, ← List.take_take, List.take_length]

/-- Text that fits and has no NUL is handed over as it is. -/
theorem cut_eq_self_iff {size : Nat} (hs : 0 < size) (ip : Bytes) :
    cut size ip = ip ↔ ip.length < size ∧ 0 ∉ ip := by
  have hle : (cut size ip).length ≤ size - 1 :=
    (List.takeWhile_prefix _).length_le.trans (List.length_take_le ..)
  constructor
  · intro h
    rw [h] at hle
    refine ⟨by omega, fun h0 => ?_⟩
    rw [← h] at h0
    simpa using List.mem_takeWhile_imp h0
  · rintro ⟨hlen, h0⟩
    rw [cut, List.take_of_length_le (by omega), List.takeWhile_eq_self_iff]
    intro c hc
    simpa using fun e : c = 0 => h0 (e ▸ hc)

theorem inetAddrstrlen_pos (os : Os) : 15 < inetAddrstrlen os := by cases os <;> decide

theorem inet6Addrstrlen_pos (os : Os) : 45 < inet6Addrstrlen os := by cases os <;> decide

section Whole

variable {β : Type} {accept : Bytes → Option β} {size : Nat}

/-- A reader of whole texts that is given the cut one reads the same, unless the cut text is
another one and can be read. -/
theorem whole_iff (hw : ∀ s a, accept s = some a → cut size s = s) (s : Bytes) :
    (∀ a, accept (cut size s) = some a ↔ accept s = some a) ↔
      cut size s = s ∨ accept (cut size s) = none := by
  constructor
  · intro h
    cases hc : accept (cut size s) with
    | none => exact .inr rfl
    | some a => exact .inl (hw s a ((h a).1 hc))
  · rintro (h | h) a
    · rw [h]
    · rw [h]
      refine iff_of_false (fun e => by cases e) fun e => ?_
      rw [hw s a e, e] at h
      cases h

end Whole

/-- The IPv4 address a text denotes, with its port. -/
def Inet4.denoted (port : UInt16) (s : Bytes) : Option Inet4 := (dottedQuad s).map (⟨·, port⟩)

/-- The IPv6 address a text denotes, with its port and scope, unless the scope is missing. -/
def Inet6.denoted (port : UInt16) (scopeId : UInt32) (s : Bytes) : Option Inet6 :=
  ((ipv6Text s).map (⟨·, port, scopeId, 0⟩)).filter fun a => !(a.isLinkLocal && scopeId == 0)

theorem Inet4.denoted_eq_some_iff {port : UInt16} {s : Bytes} {a : Inet4} :
    denoted port s = some a ↔ ∃ addr, dottedQuad s = some addr ∧ a = ⟨addr, port⟩ := by
  rw [denoted, Option.map_eq_some_iff]
  simp only [eq_comm]

theorem Inet6.denoted_eq_some_iff {port : UInt16} {scopeId : UInt32} {s : Bytes} {a : Inet6} :
    denoted port scopeId s = some a ↔
      ∃ addr, ipv6Text s = some addr ∧ a = ⟨addr, port, scopeId, 0⟩ ∧
        ¬ (a.isLinkLocal = true ∧ scopeId = 0) := by
  rw [denoted, Option.filter_eq_some_iff, Option.map_eq_some_iff, ← exists_and_right]
  simp only [Bool.not_eq_true', Bool.and_eq_false_imp, beq_eq_false_iff_ne, ne_eq, not_and,
    and_assoc, eq_comm (a := a)]

variable {os : Os} {pton4 : CString → Option InAddr} {pton6 : CString → Option In6Addr}

theorem Inet4.parse_eq (h : ∀ c, pton4 c = dottedQuad c.bytes) (s : Bytes) (port : UInt16)
    (a : Inet4) : parse os pton4 s port = .ok a ↔
      denoted port (cut (inetAddrstrlen os) s) = some a := by
  rw [parse, h, ofBuf_copyToBuf, denoted]
  cases dottedQuad (cut (inetAddrstrlen os) s) <;> simp

theorem Inet6.parse_eq (h : ∀ c, pton6 c = ipv6Text c.bytes) (s : Bytes) (port : UInt16)
    (scopeId : UInt32) (a : Inet6) : parse os pton6 s port scopeId = .ok a ↔
      denoted port scopeId (cut (inet6Addrstrlen os) s) = some a := by
  rw [parse, h, ofBuf_copyToBuf, denoted]
  cases ipv6Text (cut (inet6Addrstrlen os) s) with
  | none => simp
  | some addr =>
    simp only [Option.map_some, Option.filter_some, Bool.not_eq_true']
    split
    · rename_i hl
      simp [hl]
    · rename_i hl
      simp [hl]

theorem Inet4.cut_of_denoted {port : UInt16} (s : Bytes) (a : Inet4)
    (h : denoted port s = some a) : cut (inetAddrstrlen os) s = s := by
  obtain ⟨addr, ha, -⟩ := denoted_eq_some_iff.1 h
  obtain ⟨hlen, hc⟩ := dottedQuad_wellFormed ha
  have := inetAddrstrlen_pos os
  exact (cut_eq_self_iff (by omega) s).2 ⟨by omega, fun h0 => not_addrByte_zero (hc 0 h0)⟩

theorem Inet6.cut_of_denoted {port : UInt16} {scopeId : UInt32} (s : Bytes) (a : Inet6)
    (h : denoted port scopeId s = some a) : cut (inet6Addrstrlen os) s = s := by
  obtain ⟨addr, ha, -⟩ := denoted_eq_some_iff.1 h
  obtain ⟨hlen, hc⟩ := ipv6Text_wellFormed ha
  have := inet6Addrstrlen_pos os
  exact (cut_eq_self_iff (by omega) s).2 ⟨by omega, fun h0 => not_addrByte_zero (hc 0 h0)⟩

/-- **What `parse` accepts.** If `inet_pton` reads exactly the grammars, `parse` accepts exactly
the addresses and stores what they denote, unless the text is cut (it does not fit the buffer, or
has a NUL) and what is left of it is an address that is accepted. -/
theorem parse_whole_iff (os : Os) (h4 : ∀ c, pton4 c = dottedQuad c.bytes)
    (h6 : ∀ c, pton6 c = ipv6Text c.bytes) (s : Bytes) (port : UInt16) (scopeId : UInt32) :
    ((∀ a, Inet4.parse os pton4 s port = .ok a ↔
        ∃ addr, dottedQuad s = some addr ∧ a = ⟨addr, port⟩) ↔
      (s.length < inetAddrstrlen os ∧ 0 ∉ s) ∨ dottedQuad (cut (inetAddrstrlen os) s) = none) ∧
    ((∀ a, Inet6.parse os pton6 s port scopeId = .ok a ↔
        ∃ addr, ipv6Text s = some addr ∧ a = ⟨addr, port, scopeId, 0⟩ ∧
          ¬ (a.isLinkLocal = true ∧ scopeId = 0)) ↔
      (s.length < inet6Addrstrlen os ∧ 0 ∉ s) ∨
        ∀ addr, ipv6Text (cut (inet6Addrstrlen os) s) = some addr →
          Inet6.isLinkLocal ⟨addr, port, scopeId, 0⟩ = true ∧ scopeId = 0) := by
  have hp4 := inetAddrstrlen_pos os
  have hp6 := inet6Addrstrlen_pos os
  simp only [Inet4.parse_eq h4, Inet6.parse_eq h6, ← Inet4.denoted_eq_some_iff,
    ← Inet6.denoted_eq_some_iff, whole_iff Inet4.cut_of_denoted, whole_iff Inet6.cut_of_denoted]
  rw [cut_eq_self_iff (by omega), cut_eq_self_iff (by omega)]
  refine ⟨or_congr_right ?_, or_congr_right ?_⟩
  · rw [Inet4.denoted, Option.map_eq_none_iff]
  · rw [Inet6.denoted, Option.filter_eq_none_iff]
    cases ipv6Text (cut (inet6Addrstrlen os) s) <;> simp

/-- `"10.0.0.1"` and `"::1"` are read as they are. -/
theorem parse_whole_short :
    (∀ a, Inet4.parse .linux (fun c => dottedQuad c.bytes) [49, 48, 46, 48, 46, 48, 46, 49] 80 =
        .ok a ↔
      ∃ addr, dottedQuad [49, 48, 46, 48, 46, 48, 46, 49] = some addr ∧ a = ⟨addr, 80⟩) ∧
    (∀ a, Inet6.parse .linux (fun c => ipv6Text c.bytes) [58, 58, 49] 80 0 = .ok a ↔
      ∃ addr, ipv6Text [58, 58, 49] = some addr ∧ a = ⟨addr, 80, 0, 0⟩ ∧
        ¬ (a.isLinkLocal = true ∧ (0 : UInt32) = 0)) :=
  ⟨(parse_whole_iff .linux (fun _ => rfl) (fun _ => rfl) _ 80 0).1.2 (.inl (by decide)),
    (parse_whole_iff .linux (fun _ => rfl) (fun _ => rfl) _ 80 0).2.2 (.inl (by decide))⟩

/-- `"192.168.100.1005"` is cut to `"192.168.100.100"`, and `"10.0.0.1"` with a NUL and more after
it to `"10.0.0.1"`; both are accepted, and neither is an address. -/
theorem parse_accepts_cut :
    (dottedQuad [49, 57, 50, 46, 49, 54, 56, 46, 49, 48, 48, 46, 49, 48, 48, 53]).isNone = true ∧
      (Inet4.parse .linux (fun c => dottedQuad c.bytes)
        [49, 57, 50, 46, 49, 54, 56, 46, 49, 48, 48, 46, 49, 48, 48, 53] 80).toOption =
          some ⟨⟨192, 168, 100, 100⟩, 80⟩ ∧
      (dottedQuad [49, 48, 46, 48, 46, 48, 46, 49, 0, 120]).isNone = true ∧
      (Inet4.parse .linux (fun c => dottedQuad c.bytes)
        [49, 48, 46, 48, 46, 48, 46, 49, 0, 120] 80).toOption = some ⟨⟨10, 0, 0, 1⟩, 80⟩ := by
  decide

/-! ## `to_string` -/

def percent : UInt8 := 37
def openBracket : UInt8 := 91
def closeBracket : UInt8 := 93

/-- `std::to_string` of an unsigned number. -/
def toDecimal (n : Nat) : Bytes := Numeral.text 10 n

/-- `inet_ntop` into a zeroed buffer of `size` bytes: text that does not fit is not written. -/
def ntopBuf (size : Nat) (text : CString) : Bytes :=
  if text.bytes.length < size then text.bytes else []

/-- `to_string`. -/
def Inet4.text (os : Os) (inetNtop : InAddr → CString) (a : Inet4) : Bytes :=
  ntopBuf (inetAddrstrlen os) (inetNtop a.addr) ++ [colon] ++ toDecimal a.port.toNat

/-- The part of the text before the port. -/
def Inet4.hostPart (s : Bytes) : Bytes := s.takeWhile fun c => c ≠ colon

/-- The scope as `to_string` writes it. -/
def scopeText (scopeId : UInt32) : Bytes :=
  if scopeId ≠ 0 then [percent] ++ toDecimal scopeId.toNat else []

/-- `to_string`. -/
def Inet6.text (os : Os) (inetNtop : In6Addr → CString) (a : Inet6) : Bytes :=
  [openBracket] ++ ntopBuf (inet6Addrstrlen os) (inetNtop a.addr) ++ scopeText a.scopeId ++
    [closeBracket, colon] ++ toDecimal a.port.toNat

/-- The part of the text between the bracket and the scope, or the other bracket. -/
def Inet6.hostPart (s : Bytes) : Bytes :=
  (s.drop 1).takeWhile fun c => c ≠ percent ∧ c ≠ closeBracket

theorem toDecimal_inj {m n : Nat} (h : toDecimal m = toDecimal n) : m = n :=
  Numeral.text_inj (by omega) (by omega) h

/-- A decimal numeral has no separator in it. -/
theorem not_mem_toDecimal {c : UInt8} (hc : Numeral.digitIn 10 c = none) (n : Nat) :
    c ∉ toDecimal n := not_mem_text (by omega) (by omega) hc n

theorem ntopBuf_eq {size : Nat} {text : CString} (h : text.bytes.length < size) :
    ntopBuf size text = text.bytes := if_pos h

theorem scopeText_inj {m n : UInt32} (h : scopeText m = scopeText n) : m = n := by
  unfold scopeText at h
  split at h <;> split at h
  · exact UInt32.toNat.inj (toDecimal_inj (List.append_cancel_left h))
  · cases h
  · cases h
  · rename_i hm hn
    rw [not_not.1 hm, not_not.1 hn]

theorem not_mem_scopeText (scopeId : UInt32) : closeBracket ∉ scopeText scopeId := by
  unfold scopeText
  split
  · rw [List.mem_append, not_or]
    exact ⟨by decide, not_mem_toDecimal (by decide) _⟩
  · exact List.not_mem_nil

/-- The scope or the bracket ends the address. -/
theorem takeWhile_scopeText {p : UInt8 → Bool} {l r : Bytes} (hl : ∀ c ∈ l, p c = true)
    (hp : p percent = false) (hb : p closeBracket = false) (scopeId : UInt32) :
    (l ++ (scopeText scopeId ++ closeBracket :: r)).takeWhile p = l := by
  unfold scopeText
  split
  · exact Fields.takeWhile_append_cons hl hp
  · exact Fields.takeWhile_append_cons hl hb

theorem Inet4.eq_iff (a b : Inet4) : a.eq b = true ↔ a = b := by
  obtain ⟨⟨a0, a1, a2, a3⟩, pa⟩ := a
  obtain ⟨⟨b0, b1, b2, b3⟩, pb⟩ := b
  have := a1.toNat_lt; have := a2.toNat_lt; have := a3.toNat_lt
  have := b1.toNat_lt; have := b2.toNat_lt; have := b3.toNat_lt
  simp only [eq, ip, Bool.and_eq_true, beq_iff_eq, mk.injEq, InAddr.mk.injEq, ← UInt8.toNat_inj]
  refine and_congr_left fun _ => ?_
  omega

theorem Inet6.eq_iff (a b : Inet6) :
    a.eq b = true ↔ a.addr = b.addr ∧ a.port = b.port ∧ a.scopeId = b.scopeId := by
  obtain ⟨⟨x, hx⟩, pa, sa, fa⟩ := a
  obtain ⟨⟨y, hy⟩, pb, sb, fb⟩ := b
  simp [eq, and_assoc]

section Text

variable {ntop4 : InAddr → CString} {ntop6 : In6Addr → CString}

theorem Inet4.text_eq (hlen : ∀ x, (ntop4 x).bytes.length ≤ 15) (a : Inet4) :
    a.text os ntop4 = (ntop4 a.addr).bytes ++ colon :: toDecimal a.port.toNat := by
  have := inetAddrstrlen_pos os
  have := hlen a.addr
  rw [text, ntopBuf_eq (by omega), List.append_assoc, List.singleton_append]

theorem Inet6.text_eq (hlen : ∀ x, (ntop6 x).bytes.length ≤ 45) (a : Inet6) :
    a.text os ntop6 = openBracket :: ((ntop6 a.addr).bytes ++
      (scopeText a.scopeId ++ closeBracket :: colon :: toDecimal a.port.toNat)) := by
  have := inet6Addrstrlen_pos os
  have := hlen a.addr
  rw [text, ntopBuf_eq (by omega)]
  simp

theorem Inet4.hostPart_text (hlen : ∀ x, (ntop4 x).bytes.length ≤ 15)
    (hcolon : ∀ x, colon ∉ (ntop4 x).bytes) (a : Inet4) :
    hostPart (a.text os ntop4) = (ntop4 a.addr).bytes := by
  rw [text_eq hlen, hostPart]
  refine Fields.takeWhile_append_cons (fun c hc => ?_) (by decide)
  simpa using fun e : c = colon => hcolon a.addr (e ▸ hc)

theorem Inet6.hostPart_text (hlen : ∀ x, (ntop6 x).bytes.length ≤ 45)
    (hpercent : ∀ x, percent ∉ (ntop6 x).bytes) (hbracket : ∀ x, closeBracket ∉ (ntop6 x).bytes)
    (a : Inet6) : hostPart (a.text os ntop6) = (ntop6 a.addr).bytes := by
  rw [text_eq hlen, hostPart]
  refine takeWhile_scopeText (fun c hc => decide_eq_true ⟨?_, ?_⟩) (by decide) (by decide) _
  · exact fun e => hpercent a.addr (e ▸ hc)
  · exact fun e => hbracket a.addr (e ▸ hc)

/-- Text that fits is handed over as it was written. -/
theorem ofBuf_ntop {size : Nat} {c : CString} (h : c.bytes.length < size) :
    CString.ofBuf (copyToBuf size c.bytes) = c := by
  apply CString.ext
  rw [ofBuf_copyToBuf]
  exact (cut_eq_self_iff (by omega) c.bytes).2 ⟨h, c.noNul⟩

theorem Inet4.text_inj_iff (hlen : ∀ x, (ntop4 x).bytes.length ≤ 15)
    (hcolon : ∀ x, colon ∉ (ntop4 x).bytes) (hinv : ∀ x, pton4 (ntop4 x) = some x) (a b : Inet4) :
    a.text os ntop4 = b.text os ntop4 ↔ a.eq b = true := by
  rw [eq_iff]
  refine ⟨fun h => ?_, fun h => by rw [h]⟩
  rw [text_eq hlen, text_eq hlen, Fields.append_cons_inj (hcolon _) (hcolon _)] at h
  have haddr : a.addr = b.addr := by
    have := hinv a.addr
    rw [CString.ext h.1, hinv b.addr] at this
    exact (Option.some.inj this).symm
  have hport := UInt16.toNat.inj (toDecimal_inj h.2)
  obtain ⟨x, p⟩ := a
  obtain ⟨y, q⟩ := b
  cases haddr
  cases hport
  rfl

theorem Inet6.text_inj_iff (hlen : ∀ x, (ntop6 x).bytes.length ≤ 45)
    (hpercent : ∀ x, percent ∉ (ntop6 x).bytes) (hbracket : ∀ x, closeBracket ∉ (ntop6 x).bytes)
    (hinv : ∀ x, pton6 (ntop6 x) = some x) (a b : Inet6) :
    a.text os ntop6 = b.text os ntop6 ↔ a.eq b = true := by
  rw [eq_iff]
  constructor
  · intro h
    have hhost := congrArg hostPart h
    rw [hostPart_text hlen hpercent hbracket, hostPart_text hlen hpercent hbracket] at hhost
    have haddr : a.addr = b.addr := by
      have := hinv a.addr
      rw [CString.ext hhost, hinv b.addr] at this
      exact (Option.some.inj this).symm
    -- past the address, the closing bracket ends the scope
    rw [text_eq hlen, text_eq hlen, hhost, List.cons.injEq, List.append_cancel_left_eq,
      Fields.append_cons_inj (not_mem_scopeText _) (not_mem_scopeText _), List.cons.injEq] at h
    obtain ⟨-, hscope, -, hport⟩ := h
    exact ⟨haddr, UInt16.toNat.inj (toDecimal_inj hport), scopeText_inj hscope⟩
  · rintro ⟨haddr, hport, hscope⟩
    rw [text, text, haddr, hport, hscope]

/-- **The text of an address determines it.** -/
theorem text_determines_address (os : Os)
    (h4inv : ∀ x, pton4 (ntop4 x) = some x) (h4len : ∀ x, (ntop4 x).bytes.length ≤ 15)
    (h4colon : ∀ x, colon ∉ (ntop4 x).bytes)
    (h6inv : ∀ x, pton6 (ntop6 x) = some x) (h6len : ∀ x, (ntop6 x).bytes.length ≤ 45)
    (h6percent : ∀ x, percent ∉ (ntop6 x).bytes)
    (h6bracket : ∀ x, closeBracket ∉ (ntop6 x).bytes) :
    (∀ a b : Inet4, a.text os ntop4 = b.text os ntop4 ↔ a.eq b = true) ∧
    (∀ a b : Inet6, a.text os ntop6 = b.text os ntop6 ↔ a.eq b = true) ∧
    (∀ a : Inet4, ∃ b, Inet4.parse os pton4 (Inet4.hostPart (a.text os ntop4)) a.port = .ok b ∧
      b.eq a = true) ∧
    ∀ a : Inet6,
      if a.isLinkLocal = true ∧ a.scopeId = 0 then
        Inet6.parse os pton6 (Inet6.hostPart (a.text os ntop6)) a.port a.scopeId =
          .error (makeErrorCode .missingScopeId)
      else ∃ b, Inet6.parse os pton6 (Inet6.hostPart (a.text os ntop6)) a.port a.scopeId = .ok b ∧
        b.eq a = true := by
  refine ⟨Inet4.text_inj_iff h4len h4colon h4inv,
    Inet6.text_inj_iff h6len h6percent h6bracket h6inv, fun a => ?_, fun a => ?_⟩
  · have := inetAddrstrlen_pos os
    have := h4len a.addr
    rw [Inet4.hostPart_text h4len h4colon, Inet4.parse, ofBuf_ntop (by omega), h4inv]
    exact ⟨a, rfl, (Inet4.eq_iff a a).2 rfl⟩
  · have := inet6Addrstrlen_pos os
    have := h6len a.addr
    have hlocal : Inet6.isLinkLocal ⟨a.addr, a.port, a.scopeId, 0⟩ = a.isLinkLocal := rfl
    rw [Inet6.hostPart_text h6len h6percent h6bracket, Inet6.parse, ofBuf_ntop (by omega), h6inv]
    simp only [hlocal, Bool.and_eq_true, beq_iff_eq]
    split
    · rfl
    · exact ⟨_, rfl, (Inet6.eq_iff _ _).2 ⟨rfl, rfl, rfl⟩⟩

end Text

/-- `inet_ntop` of an IPv4 address. -/
def ntopDotted (a : InAddr) : CString where
  bytes := dottedText a
  noNul h := not_addrByte_zero ((dottedQuad_wellFormed (dottedQuad_dottedText a)).2 0 h)

/-- `inet_ntop` of an IPv6 address, if there are no two zero groups next to each other. -/
def ntopFull (a : In6Addr) : CString where
  bytes := fullText a
  noNul h := not_addrByte_zero ((ipv6Text_wellFormed (ipv6Text_fullText a)).2 0 h)

theorem colon_not_mem_dottedText (a : InAddr) : colon ∉ dottedText a := by
  intro h
  rcases Fields.mem_intercalate h with h | ⟨p, hp, h⟩
  · cases h
  · obtain ⟨b, -, rfl⟩ := List.mem_map.1 hp
    exact not_mem_text (by omega) (by omega) (by decide) _ h

/-- `"[2001:db8:1:2:3:4:5:6%7]:443"`, with scope 7. -/
def scopedAddr (scopeId : UInt32) : Inet6 :=
  ⟨⟨[32, 1, 13, 184, 0, 1, 0, 2, 0, 3, 0, 4, 0, 5, 0, 6], rfl⟩, 443, scopeId, 0⟩

/-- Scope 7 and scope 8 have different texts, and the address is read back. -/
theorem text_determines_scoped :
    ((scopedAddr 7).text .linux ntopFull = (scopedAddr 8).text .linux ntopFull ↔
      (scopedAddr 7).eq (scopedAddr 8) = true) ∧
    ∃ b, Inet6.parse .linux (fun c => ipv6Text c.bytes)
      (Inet6.hostPart ((scopedAddr 7).text .linux ntopFull)) 443 7 = .ok b ∧
        b.eq (scopedAddr 7) = true := by
  have h6 := fun x => ipv6Text_wellFormed (ipv6Text_fullText x)
  have h := @text_determines_address (fun c => dottedQuad c.bytes) (fun c => ipv6Text c.bytes)
    ntopDotted ntopFull .linux
    dottedQuad_dottedText (fun x => (dottedQuad_wellFormed (dottedQuad_dottedText x)).1)
    colon_not_mem_dottedText ipv6Text_fullText (fun x => (h6 x).1)
    (fun x hp => absurd ((h6 x).2 _ hp) (by decide))
    (fun x hp => absurd ((h6 x).2 _ hp) (by decide))
  have hparse := h.2.2.2 (scopedAddr 7)
  rw [if_neg (by decide)] at hparse
  exact ⟨h.2.1 _ _, hparse⟩

end Socketpp
