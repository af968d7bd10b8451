import Socketpp.Lib.Keys
import Socketpp.Socket.Options

/-!
# The length of a `sock_address`

`sock_address` (`include/socketpp/net/address.hpp`, `src/net/address.cpp`) has
128 bytes and a length. `==` and `<` compare as many bytes as the length says,
and `push_multicast` and `multicast_interface` copy that many. The constructor
copies no more than 128 bytes but keeps the length it is given, and `set_size`
keeps any length, so a `RawSockAddress` has no bound on it. A copy or a
comparison that leaves the 128 bytes is `none` here.

The length is within the storage exactly if the last length an address was
given is (`inBounds_iff`). `SockAddress` is an address for which this is so; for
these the operations are total.
-/

namespace Socketpp

open Slices Keys

/-- `sock_address` as the code has it: `len_` is any `uint32_t`. -/
structure RawSockAddress where
  storage : Bytes
  len : BitVec 32
  storage_length : storage.length = 128

namespace RawSockAddress

def size (a : RawSockAddress) : Nat := a.len.toNat

def capacity (a : RawSockAddress) : Nat := a.storage.length

/-- `sock_address()`. -/
def unspecified : RawSockAddress where
  storage := List.replicate 128 0
  len := 128#32
  storage_length := SockAddress.unspecified.storage_length

/-- `copy_len`: as many bytes as there are, but no more than the storage has. -/
def copyLen (len : BitVec 32) : Nat := if len.toNat < 128 then len.toNat else 128

theorem copyLen_le (len : BitVec 32) : copyLen len ≤ 128 := by
  rw [copyLen]
  split <;> omega

/-- `sock_address(addr, len)`, with the memory behind `addr` if it is not null. -/
def construct (addr : Option (Nat → UInt8)) (len : BitVec 32) : RawSockAddress where
  storage :=
    match addr with
    | none => List.replicate 128 0
    | some mem =>
      if 0 < len.toNat then blit (List.replicate 128 0) 0 ((List.range (copyLen len)).map mem)
      else List.replicate 128 0
  len := len
  storage_length := by
    have hlen := copyLen_le len
    split
    · exact List.length_replicate
    · split
      · rw [length_blit (by simpa using hlen), List.length_replicate]
      · exact List.length_replicate

def setSize (a : RawSockAddress) (len : BitVec 32) : RawSockAddress := { a with len }

/-! ## What reads the length -/

/-- `memcmp`, or `none` if it reads past the end of one of the two. -/
def memcmpWithin (a b : Bytes) (n : Nat) : Option Ordering :=
  if n ≤ a.length ∧ n ≤ b.length then some (memcmp (a.take n) (b.take n)) else none

/-- `memcpy`, or `none` if it reads past the end of `src` or writes past the end of `dst`. -/
def memcpyWithin (dst : Bytes) (off : Nat) (src : Bytes) (n : Nat) : Option Bytes :=
  if n ≤ src.length ∧ off + n ≤ dst.length then some (blit dst off (src.take n)) else none

/-- `operator==`. -/
def eq (a b : RawSockAddress) : Option Bool :=
  if a.len ≠ b.len then some false
  else (memcmpWithin a.storage b.storage a.size).map fun c => c = .eq

/-- `operator<`. -/
def lt (a b : RawSockAddress) : Option Bool :=
  if a.len ≠ b.len then some (a.len < b.len)
  else (memcmpWithin a.storage b.storage a.size).map fun c => c = .lt

/-- An address at an offset of the data of an option, with its length behind it. -/
def store (buf : Bytes) (off : Nat) (a : RawSockAddress) : Option Bytes :=
  (memcpyWithin buf off a.storage a.size).bind fun buf =>
    memcpyWithin buf (off + 128) (leBytes 4 a.size) 4

/-- The data of `multicast_interface`. -/
def multicastInterface (iface : RawSockAddress) : Option Bytes :=
  store (List.replicate addrBlock 0) 0 iface

/-- The data of `push_multicast`. -/
def pushMulticast (group iface : RawSockAddress) : Option Bytes :=
  (store (List.replicate (addrBlock * 2) 0) 0 group).bind fun buf => store buf addrBlock iface

/-- The length is within the storage, and so is what the four operations touch. -/
structure InBounds (a b : RawSockAddress) : Prop where
  left : a.size ≤ a.capacity
  right : b.size ≤ b.capacity
  eq : (a.eq b).isSome
  lt : (a.lt b).isSome
  interface : a.multicastInterface.isSome ∧ b.multicastInterface.isSome
  multicast : (a.pushMulticast b).isSome

end RawSockAddress

/-! ## Addresses with a length within the storage -/

namespace SockAddress

/-- `operator==`. -/
def eq (a b : SockAddress) : Bool :=
  if a.len ≠ b.len then false else memcmp a.bytes b.bytes = .eq

/-- `operator<`. -/
def lt (a b : SockAddress) : Bool :=
  if a.len ≠ b.len then a.len < b.len else memcmp a.bytes b.bytes = .lt

end SockAddress

namespace RawSockAddress

def toSockAddress (a : RawSockAddress) (h : a.size ≤ 128) : SockAddress where
  storage := a.storage
  len := a.size
  storage_length := a.storage_length
  len_le := h

section Within

variable {a b : RawSockAddress} (ha : a.size ≤ 128) (hb : b.size ≤ 128)

theorem size_eq_iff : a.size = b.size ↔ a.len = b.len := BitVec.toNat_inj

theorem memcmpWithin_eq (h : a.size = b.size) : memcmpWithin a.storage b.storage a.size =
    some (memcmp (a.toSockAddress ha).bytes (b.toSockAddress hb).bytes) := by
  rw [memcmpWithin, if_pos ⟨ha.trans_eq a.storage_length.symm, ha.trans_eq b.storage_length.symm⟩]
  change _ = some (memcmp (a.storage.take a.size) (b.storage.take b.size))
  rw [h]

/-- Both comparisons look at the lengths first. -/
theorem compare_eq (d : Bool) (f : Ordering → Bool) :
    (if a.len ≠ b.len then some d else (memcmpWithin a.storage b.storage a.size).map f) =
      some (if (a.toSockAddress ha).len ≠ (b.toSockAddress hb).len then d
        else f (memcmp (a.toSockAddress ha).bytes (b.toSockAddress hb).bytes)) := by
  by_cases h : (a.toSockAddress ha).len = (b.toSockAddress hb).len
  · rw [if_neg (not_not_intro (size_eq_iff.1 h)), if_neg (not_not_intro h),
      memcmpWithin_eq ha hb h, Option.map_some]
  · rw [if_pos fun hl => h (size_eq_iff.2 hl), if_pos h]

theorem eq_eq : a.eq b = some ((a.toSockAddress ha).eq (b.toSockAddress hb)) :=
  compare_eq ha hb false fun c => c = .eq

theorem lt_eq : a.lt b = some ((a.toSockAddress ha).lt (b.toSockAddress hb)) :=
  compare_eq ha hb (a.len < b.len) fun c => c = .lt

theorem store_eq {buf : Bytes} {off : Nat} (hbuf : off + addrBlock ≤ buf.length) :
    store buf off a = some (blitAddress buf off (a.toSockAddress ha)) := by
  have hcopy : memcpyWithin buf off a.storage a.size =
      some (blit buf off (a.toSockAddress ha).bytes) := by
    unfold addrBlock at hbuf
    refine if_pos ⟨?_, by omega⟩
    rw [a.storage_length]
    exact ha
  have hlen := length_blit_bytes (a.toSockAddress ha) hbuf
  rw [store, hcopy, Option.bind_some, memcpyWithin, if_pos, List.take_of_length_le]
  · rfl
  · rw [length_leBytes]
  · unfold addrBlock at hbuf
    rw [length_leBytes, hlen]
    omega

/-- The copies are those of `SockAddress`. -/
theorem multicastInterface_eq : a.multicastInterface =
    some (blitAddress (List.replicate addrBlock 0) 0 (a.toSockAddress ha)) :=
  store_eq ha (by rw [List.length_replicate]; decide)

theorem pushMulticast_eq : a.pushMulticast b =
    some (SocketOptions.multicastData (a.toSockAddress ha) (b.toSockAddress hb)) := by
  rw [pushMulticast, store_eq ha (by rw [List.length_replicate]; decide), Option.bind_some,
    store_eq hb (by rw [SocketOptions.length_groupData]; decide)]
  rfl

include ha hb in
theorem inBounds_of_size_le : InBounds a b where
  left := ha.trans_eq a.storage_length.symm
  right := hb.trans_eq b.storage_length.symm
  eq := by rw [eq_eq ha hb]; rfl
  lt := by rw [lt_eq ha hb]; rfl
  interface := by
    rw [multicastInterface_eq ha, multicastInterface_eq hb]
    exact ⟨rfl, rfl⟩
  multicast := by rw [pushMulticast_eq ha hb]; rfl

end Within

end RawSockAddress

/-! ## Where addresses come from -/

/-- How a `sock_address` was obtained. -/
inductive Origin where
  /-- `sock_address()` -/
  | unspecified
  /-- `sock_address(addr, len)` -/
  | construct (addr : Option (Nat → UInt8)) (len : BitVec 32)
  | copy (o : Origin)
  | setSize (o : Origin) (len : BitVec 32)
  /-- bytes written through `data()` -/
  | written (o : Origin) (storage : Bytes) (h : storage.length = 128)

namespace Origin

/-- The conversions of `inet4_address` and `inet6_address`. -/
def ofInet4 (storage : Nat → UInt8) : Origin := construct (some storage) 16

def ofInet6 (storage : Nat → UInt8) : Origin := construct (some storage) 28

/-- `local_address`, `recv_from_raw`, `accept_raw` and so on: the system is given `capacity()`
bytes to write an address to, and the length it reports goes to `set_size`. -/
def ofSystem (storage : Bytes) (h : storage.length = 128) (len : BitVec 32) : Origin :=
  setSize (written unspecified storage h) len

def value : Origin → RawSockAddress
  | unspecified => .unspecified
  | construct addr len => .construct addr len
  | copy o => o.value
  | setSize o len => o.value.setSize len
  | written o storage h => { o.value with storage, storage_length := h }

/-- The last length that was given, if one was, is no more than 128. -/
def LengthOk : Origin → Prop
  | unspecified => True
  | construct _ len | setSize _ len => len.toNat ≤ 128
  | copy o | written o _ _ => o.LengthOk

theorem size_value_le_iff (o : Origin) : o.value.size ≤ 128 ↔ o.LengthOk := by
  induction o with
  | unspecified => exact iff_of_true (by decide) trivial
  | construct addr len => exact Iff.rfl
  | copy o ih => exact ih
  | setSize o len ih => exact Iff.rfl
  | written o storage h ih => exact ih

/-- What the library itself makes is within bounds if the system reports no more bytes than
it was given. -/
theorem lengthOk_library (mem : Nat → UInt8) {storage : Bytes} (h : storage.length = 128)
    {len : BitVec 32} (hlen : len.toNat ≤ 128) :
    (ofInet4 mem).LengthOk ∧ (ofInet6 mem).LengthOk ∧ (ofSystem storage h len).LengthOk :=
  ⟨Nat.le_of_ble_eq_true rfl, Nat.le_of_ble_eq_true rfl, hlen⟩

/-- **The length of an address.** -/
theorem inBounds_iff (o p : Origin) :
    RawSockAddress.InBounds o.value p.value ↔ o.LengthOk ∧ p.LengthOk := by
  rw [← size_value_le_iff, ← size_value_le_iff]
  constructor
  · intro h
    exact ⟨h.left.trans_eq o.value.storage_length, h.right.trans_eq p.value.storage_length⟩
  · intro h
    exact RawSockAddress.inBounds_of_size_le h.1 h.2

/-- 200 bytes: the constructor copies 128 of them, and keeps 200 as the length. -/
theorem construct_out_of_bounds :
    (construct (some fun _ => 7) 200).value.size = 200 ∧
      (construct (some fun _ => 7) 200).value.capacity = 128 ∧
      (construct (some fun _ => 7) 200).value.eq (construct (some fun _ => 7) 200).value = none ∧
      (construct (some fun _ => 7) 200).value.multicastInterface = none ∧
      (construct (some fun _ => 7) 200).value.pushMulticast (unspecified).value = none := by
  decide +kernel

end Origin

end Socketpp
