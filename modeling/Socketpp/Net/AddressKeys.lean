import Socketpp.Lib.Keys
import Socketpp.Net.Address
import Socketpp.Socket.AddressLength

/-!
# Addresses as keys

`inet4_address` (`include/socketpp/net/inet4.hpp`, `src/net/inet4.cpp`) and
`inet6_address` (`src/net/inet6.cpp`) keep a `sockaddr_in` and a `sockaddr_in6`
in their bytes. `==`, `<` and `hash_value` are written apart from each other and
read different parts: `==` of `inet6_address` compares ports as they are stored
and `<` compares them after `ntohs`, and none of the three reads `sin6_flowinfo`.
The machine may be of either byte order, and `std::hash` is any function.

All three look at the same key (`Inet6Storage.key`, `Inet4Storage.key`,
`SockAddress.key`), so the comparisons are those of a linear order
(`address_keys_lawful`). For the addresses of `Socketpp.Net.Address`, `==` is the
one given there (`Inet6Storage.eq_ofInet6`, `Inet4Storage.eq_ofInet4`).
-/

namespace Socketpp

open Slices Keys

variable (o : ByteOrder)

/-! ## `inet6_address` -/

/-- `storage_` of an `inet6_address`. -/
structure Inet6Storage where
  bytes : Bytes
  length : bytes.length = 28

namespace Inet6Storage

def sin6Port (s : Inet6Storage) : Nat := o.value (slice s.bytes 2 2)

def sin6Addr (s : Inet6Storage) : Bytes := slice s.bytes 8 16

def sin6ScopeId (s : Inet6Storage) : Nat := o.value (slice s.bytes 24 4)

def port (s : Inet6Storage) : Nat := o.netToHost 2 (s.sin6Port o)

def scopeId (s : Inet6Storage) : Nat := s.sin6ScopeId o

/-- `operator==`. -/
def eq (l r : Inet6Storage) : Bool :=
  memcmp l.sin6Addr r.sin6Addr = .eq && l.sin6Port o == r.sin6Port o &&
    l.sin6ScopeId o == r.sin6ScopeId o

/-- `operator<`. -/
def lt (l r : Inet6Storage) : Bool :=
  if memcmp l.sin6Addr r.sin6Addr ≠ .eq then memcmp l.sin6Addr r.sin6Addr = .lt
  else if l.sin6Port o ≠ r.sin6Port o then
    o.netToHost 2 (l.sin6Port o) < o.netToHost 2 (r.sin6Port o)
  else l.sin6ScopeId o < r.sin6ScopeId o

/-- `hash_value`, with a `size_t` of `w` bits and the two instances of `std::hash`. -/
def hashValue {w : Nat} (hash16 hash32 : Nat → BitVec w) (s : Inet6Storage) : BitVec w :=
  s.sin6Addr.foldl (fun h b => h * 131 + BitVec.ofNat w b.toNat) 0 ^^^
    hash16 (s.port o) <<< 1 ^^^ hash32 (s.scopeId o) <<< 2

/-- The bytes of the address, then the port in host order, then the scope. -/
def key (s : Inet6Storage) : List ℕ ×ₗ ℕ ×ₗ ℕ :=
  toLex (values s.sin6Addr, toLex (s.port o, s.scopeId o))

theorem length_sin6Addr (s : Inet6Storage) : s.sin6Addr.length = 16 :=
  length_slice (by rw [s.length]; decide)

theorem length_sin6Addr_eq (l r : Inet6Storage) : l.sin6Addr.length = r.sin6Addr.length :=
  l.length_sin6Addr.trans r.length_sin6Addr.symm

/-- Ports are equal as they are stored if they are in host order. -/
theorem sin6Port_eq_iff (l r : Inet6Storage) :
    l.sin6Port o = r.sin6Port o ↔ l.port o = r.port o := by
  have hl : (slice l.bytes 2 2).length = 2 := length_slice (by rw [l.length]; decide)
  have hr : (slice r.bytes 2 2).length = 2 := length_slice (by rw [r.length]; decide)
  have hpl := o.netToHost_value (slice l.bytes 2 2)
  have hpr := o.netToHost_value (slice r.bytes 2 2)
  rw [hl] at hpl
  rw [hr] at hpr
  rw [port, port, sin6Port, sin6Port, hpl, hpr, o.value_inj (hl.trans hr.symm),
    beValue_inj (hl.trans hr.symm)]

theorem eq_iff_key (l r : Inet6Storage) : l.eq o r ↔ l.key o = r.key o := by
  rw [eq, Bool.and_eq_true, Bool.and_eq_true, decide_eq_true_iff, beq_iff_eq, beq_iff_eq,
    memcmp_eq_iff (length_sin6Addr_eq l r), sin6Port_eq_iff, key, key, toLex_inj, Prod.mk.injEq,
    toLex_inj, Prod.mk.injEq, values_injective.eq_iff, and_assoc]
  rfl

theorem lt_iff_key (l r : Inet6Storage) : l.lt o r ↔ l.key o < r.key o := by
  rw [lt, ite_iff_lex, ite_iff_lex, decide_eq_true_iff, sin6Port_eq_iff,
    memcmp_lt_iff (length_sin6Addr_eq l r), memcmp_eq_iff (length_sin6Addr_eq l r), key, key,
    Prod.Lex.toLex_lt_toLex, Prod.Lex.toLex_lt_toLex, values_injective.eq_iff]
  · rfl
  · intro hlt heq
    exact hlt.ne ((sin6Port_eq_iff o l r).1 heq)
  · intro hlt heq
    cases heq.symm.trans hlt

theorem hashValue_eq {w : Nat} (hash16 hash32 : Nat → BitVec w) {l r : Inet6Storage}
    (h : l.eq o r) : l.hashValue o hash16 hash32 = r.hashValue o hash16 hash32 := by
  have hkey := (eq_iff_key o l r).1 h
  rw [key, key, toLex_inj, Prod.mk.injEq, toLex_inj, Prod.mk.injEq] at hkey
  rw [hashValue, hashValue, values_injective hkey.1, hkey.2.1, hkey.2.2]

/-- The fields of `sockaddr_in6`; the first two bytes are the family. -/
def fields (f0 f1 : UInt8) (a : Inet6) : List Bytes :=
  [[f0, f1], o.bytes 2 (o.netToHost 2 a.port.toNat), o.bytes 4 a.flowinfo.toNat, a.addr.bytes,
    o.bytes 4 a.scopeId.toNat]

/-- `inet6_address(addr, port, scope_id, flowinfo)`. -/
def ofInet6 (f0 f1 : UInt8) (a : Inet6) : Inet6Storage where
  bytes := (fields o f0 f1 a).flatten
  length := by simp [fields, a.addr.length]

variable (f0 f1 : UInt8) (a : Inet6)

theorem sin6Addr_ofInet6 : (ofInet6 o f0 f1 a).sin6Addr = a.addr.bytes := by
  have hs : slice (ofInet6 o f0 f1 a).bytes 8 a.addr.bytes.length = a.addr.bytes :=
    slice_flatten (by simp [fields, offsets])
  rwa [a.addr.length] at hs

theorem port_ofInet6 : (ofInet6 o f0 f1 a).port o = a.port.toNat := by
  have hlt : a.port.toNat < 256 ^ 2 := a.port.toNat_lt
  have hs : slice (ofInet6 o f0 f1 a).bytes 2 (o.bytes 2 (o.netToHost 2 a.port.toNat)).length =
      o.bytes 2 (o.netToHost 2 a.port.toNat) := slice_flatten (by simp [fields, offsets])
  rw [o.length_bytes] at hs
  rw [port, sin6Port, hs, o.netToHost_value_bytes hlt]

theorem scopeId_ofInet6 : (ofInet6 o f0 f1 a).scopeId o = a.scopeId.toNat := by
  have hs : slice (ofInet6 o f0 f1 a).bytes 24 (o.bytes 4 a.scopeId.toNat).length =
      o.bytes 4 a.scopeId.toNat := slice_flatten (by simp [fields, offsets, a.addr.length])
  rw [o.length_bytes] at hs
  rw [scopeId, sin6ScopeId, hs, o.value_bytes a.scopeId.toNat_lt]

/-- The constructor and `==` make the equality of `Inet6`. -/
theorem eq_ofInet6 (g0 g1 : UInt8) (b : Inet6) :
    (ofInet6 o f0 f1 a).eq o (ofInet6 o g0 g1 b) ↔ a.eq b := by
  rw [eq_iff_key, key, key, toLex_inj, Prod.mk.injEq, toLex_inj, Prod.mk.injEq,
    values_injective.eq_iff, sin6Addr_ofInet6, sin6Addr_ofInet6, port_ofInet6, port_ofInet6,
    scopeId_ofInet6, scopeId_ofInet6, UInt16.toNat_inj, UInt32.toNat_inj, Inet6.eq_iff]
  refine and_congr_left fun _ => ⟨fun h => ?_, congrArg In6Addr.bytes⟩
  obtain ⟨⟨x, hx⟩, _⟩ := a
  obtain ⟨⟨y, hy⟩, _⟩ := b
  cases h
  rfl

end Inet6Storage

/-! ## `inet4_address` -/

/-- `storage_` of an `inet4_address`. -/
structure Inet4Storage where
  bytes : Bytes
  length : bytes.length = 16

namespace Inet4Storage

/-- The bytes of `sin_addr`. -/
def sinAddr (s : Inet4Storage) : Bytes := slice s.bytes 4 4

def ip (s : Inet4Storage) : Nat := o.netToHost 4 (o.value s.sinAddr)

def port (s : Inet4Storage) : Nat := o.netToHost 2 (o.value (slice s.bytes 2 2))

/-- `operator==`. -/
def eq (l r : Inet4Storage) : Bool := l.ip o == r.ip o && l.port o == r.port o

/-- `operator<`. -/
def lt (l r : Inet4Storage) : Bool :=
  if l.ip o ≠ r.ip o then l.ip o < r.ip o else l.port o < r.port o

def hashValue {w : Nat} (hash16 hash32 : Nat → BitVec w) (s : Inet4Storage) : BitVec w :=
  hash32 (s.ip o) ^^^ hash16 (s.port o) <<< 1

/-- The bytes of the address, then the port in host order. -/
def key (s : Inet4Storage) : List ℕ ×ₗ ℕ := toLex (values s.sinAddr, s.port o)

theorem length_sinAddr (s : Inet4Storage) : s.sinAddr.length = 4 :=
  length_slice (by rw [s.length]; decide)

theorem length_sinAddr_eq (l r : Inet4Storage) : l.sinAddr.length = r.sinAddr.length :=
  l.length_sinAddr.trans r.length_sinAddr.symm

theorem ip_eq_beValue (s : Inet4Storage) : s.ip o = beValue s.sinAddr := by
  have hip := o.netToHost_value s.sinAddr
  rwa [length_sinAddr] at hip

theorem ip_eq_iff (l r : Inet4Storage) : l.ip o = r.ip o ↔ values l.sinAddr = values r.sinAddr := by
  rw [ip_eq_beValue, ip_eq_beValue, beValue_inj (length_sinAddr_eq l r), values_injective.eq_iff]

theorem ip_lt_iff (l r : Inet4Storage) : l.ip o < r.ip o ↔ values l.sinAddr < values r.sinAddr := by
  rw [ip_eq_beValue, ip_eq_beValue, beValue_lt_iff (length_sinAddr_eq l r)]

theorem eq_iff_key (l r : Inet4Storage) : l.eq o r ↔ l.key o = r.key o := by
  rw [eq, Bool.and_eq_true, beq_iff_eq, beq_iff_eq, ip_eq_iff, key, key, toLex_inj,
    Prod.mk.injEq]

theorem lt_iff_key (l r : Inet4Storage) : l.lt o r ↔ l.key o < r.key o := by
  rw [lt, ite_iff_lex LT.lt.ne, decide_eq_true_iff, ip_eq_iff, ip_lt_iff, key, key,
    Prod.Lex.toLex_lt_toLex]

theorem hashValue_eq {w : Nat} (hash16 hash32 : Nat → BitVec w) {l r : Inet4Storage}
    (h : l.eq o r) : l.hashValue o hash16 hash32 = r.hashValue o hash16 hash32 := by
  rw [eq, Bool.and_eq_true, beq_iff_eq, beq_iff_eq] at h
  rw [hashValue, hashValue, h.1, h.2]

/-- The fields of `sockaddr_in`. -/
def fields (f0 f1 : UInt8) (a : Inet4) : List Bytes :=
  [[f0, f1], o.bytes 2 (o.netToHost 2 a.port.toNat), o.bytes 4 (o.netToHost 4 a.ip),
    List.replicate 8 0]

/-- `inet4_address(address, port)`. -/
def ofInet4 (f0 f1 : UInt8) (a : Inet4) : Inet4Storage where
  bytes := (fields o f0 f1 a).flatten
  length := by simp [fields]

variable (f0 f1 : UInt8) (a : Inet4)

theorem ip_lt : a.ip < 2 ^ 32 := by
  have h0 := a.addr.b0.toNat_lt
  have h1 := a.addr.b1.toNat_lt
  have h2 := a.addr.b2.toNat_lt
  have h3 := a.addr.b3.toNat_lt
  unfold Inet4.ip
  omega

theorem ip_ofInet4 : (ofInet4 o f0 f1 a).ip o = a.ip := by
  have hlt : a.ip < 256 ^ 4 := ip_lt a
  have hs : slice (ofInet4 o f0 f1 a).bytes 4 (o.bytes 4 (o.netToHost 4 a.ip)).length =
      o.bytes 4 (o.netToHost 4 a.ip) := slice_flatten (by simp [fields, offsets])
  rw [o.length_bytes] at hs
  rw [ip, sinAddr, hs, o.netToHost_value_bytes hlt]

theorem port_ofInet4 : (ofInet4 o f0 f1 a).port o = a.port.toNat := by
  have hlt : a.port.toNat < 256 ^ 2 := a.port.toNat_lt
  have hs : slice (ofInet4 o f0 f1 a).bytes 2 (o.bytes 2 (o.netToHost 2 a.port.toNat)).length =
      o.bytes 2 (o.netToHost 2 a.port.toNat) := slice_flatten (by simp [fields, offsets])
  rw [o.length_bytes] at hs
  rw [port, hs, o.netToHost_value_bytes hlt]

/-- The constructor and `==` make the equality of `Inet4`. -/
theorem eq_ofInet4 (g0 g1 : UInt8) (b : Inet4) :
    (ofInet4 o f0 f1 a).eq o (ofInet4 o g0 g1 b) ↔ a.eq b := by
  rw [eq, Inet4.eq, ip_ofInet4, ip_ofInet4, port_ofInet4, port_ofInet4, Bool.and_eq_true,
    Bool.and_eq_true, beq_iff_eq, beq_iff_eq, beq_iff_eq, UInt16.toNat_inj]

end Inet4Storage

/-! ## `sock_address` -/

namespace SockAddress

/-- The length, then the bytes. -/
def key (a : SockAddress) : ℕ ×ₗ List ℕ := toLex (a.len, values a.bytes)

theorem eq_iff_key (a b : SockAddress) : a.eq b ↔ a.key = b.key := by
  rw [eq, key, key, toLex_inj, Prod.mk.injEq, values_injective.eq_iff]
  by_cases hlen : a.len = b.len
  · have hbytes : a.bytes.length = b.bytes.length := by rw [length_bytes, length_bytes, hlen]
    rw [if_neg (not_not_intro hlen), decide_eq_true_iff, memcmp_eq_iff hbytes]
    exact (and_iff_right hlen).symm
  · rw [if_pos hlen]
    exact iff_of_false Bool.false_ne_true fun h => hlen h.1

theorem lt_iff_key (a b : SockAddress) : a.lt b ↔ a.key < b.key := by
  rw [lt, ite_iff_lex LT.lt.ne, decide_eq_true_iff, key, key, Prod.Lex.toLex_lt_toLex]
  refine or_congr_right (and_congr_right fun hlen => ?_)
  exact memcmp_lt_iff (by rw [length_bytes, length_bytes, hlen])

end SockAddress

/-- **Addresses are keys.** On every machine and for every `std::hash`: the comparisons are
lawful, equal addresses have equal hashes, and `<` is the order of the keys. -/
theorem address_keys_lawful {w : Nat} (hash16 hash32 : Nat → BitVec w) :
    (Lawful (Inet6Storage.eq o) (Inet6Storage.lt o) ∧
      (∀ a b : Inet6Storage, a.eq o b → a.hashValue o hash16 hash32 = b.hashValue o hash16 hash32) ∧
      ∀ a b : Inet6Storage, a.lt o b ↔ a.key o < b.key o) ∧
    (Lawful (Inet4Storage.eq o) (Inet4Storage.lt o) ∧
      (∀ a b : Inet4Storage, a.eq o b → a.hashValue o hash16 hash32 = b.hashValue o hash16 hash32) ∧
      ∀ a b : Inet4Storage, a.lt o b ↔ a.key o < b.key o) ∧
    Lawful SockAddress.eq SockAddress.lt ∧ ∀ a b : SockAddress, a.lt b ↔ a.key < b.key :=
  ⟨⟨.of_key _ (Inet6Storage.eq_iff_key o) (Inet6Storage.lt_iff_key o),
      fun _ _ => Inet6Storage.hashValue_eq o hash16 hash32, Inet6Storage.lt_iff_key o⟩,
    ⟨.of_key _ (Inet4Storage.eq_iff_key o) (Inet4Storage.lt_iff_key o),
      fun _ _ => Inet4Storage.hashValue_eq o hash16 hash32, Inet4Storage.lt_iff_key o⟩,
    .of_key _ SockAddress.eq_iff_key SockAddress.lt_iff_key, SockAddress.lt_iff_key⟩

end Socketpp
