import Socketpp.Lib.Requests
import Socketpp.Lib.Slices
import Socketpp.Platform.Error

/-!
# Socket options

`socket_options` (`include/socketpp/socket/options.hpp`,
`src/socket/options.cpp`) collects options in a list, each as an identifier
with the bytes of its value, and applies them to a socket later. `apply_to`
applies them in one pass. A UDP socket takes two: `apply_pre_bind` everything
but the multicast joins and leaves, `apply_post_bind` those.

The member functions that add options say with each of them whether the
platform has it. They agree with the `switch` that applies them: of the entries
they make, the library refuses only those that are not available and joins and
leaves of a group that is of neither family (`build_sound`).
-/

namespace Socketpp

open Requests Slices

/-! ## Requests to the operating system -/

inductive SockLevel where
  | solSocket
  | ipprotoIp
  | ipprotoIpv6
  | ipprotoTcp
  deriving DecidableEq, Repr

inductive OptName where
  | soReuseaddr
  | soReuseport
  | soExclusiveaddruse
  | soRcvbuf
  | soSndbuf
  | soKeepalive
  | soBroadcast
  | tcpNodelay
  | tcpCork
  | tcpNopush
  | tcpNotsentLowat
  | tcpUserTimeout
  | tcpFastopen
  | tcpDeferAccept
  | tcpKeepidle
  | tcpKeepalive
  | tcpKeepintvl
  | tcpKeepcnt
  | ipv6V6only
  | ipTos
  | ipMulticastTtl
  | ipMulticastLoop
  | ipv6MulticastHops
  | ipv6MulticastLoop
  | ipv6MulticastIf
  deriving DecidableEq, Repr

/-- `ip_mreq` and `ipv6_mreq`: a group and the interface it is joined on. -/
inductive Mreq where
  | ipMreq (multiaddr interface : Bytes)
  | ipv6Mreq (multiaddr : Bytes) (interface : BitVec 32)
  deriving DecidableEq, Repr

inductive SockRequest where
  /-- `setsockopt` with an `int`. -/
  | setInt (level : SockLevel) (name : OptName) (value : BitVec 32)
  /-- `SO_LINGER`. -/
  | linger (onoff linger : BitVec 32)
  /-- `IP_ADD_MEMBERSHIP` or `IPV6_JOIN_GROUP`, and the requests that undo them. -/
  | membership (join : Bool) (mreq : Mreq)
  /-- `IP_MULTICAST_IF`. -/
  | multicastIf (addr : Bytes)
  /-- `WSAIoctl` with `SIO_KEEPALIVE_VALS`. -/
  | keepaliveVals (onoff keepalivetime keepaliveinterval : BitVec 32)
  deriving DecidableEq, Repr

/-- The operating system: a request returns `errno` if it fails. -/
structure Kernel (K : Type) where
  setsockopt : K → SockRequest → K × Option Int
  getsockopt : K → OptName → Except Int (BitVec 32)

/-- A socket with the requests issued for it. -/
abbrev TracedSock (K : Type) := Traced K SockRequest ErrorCode

/-- What the library sees of the operating system. -/
def Kernel.device {K : Type} (k : Kernel K) (os : Os) : Device K SockRequest ErrorCode where
  ask s r :=
    ((k.setsockopt s r).1,
      (k.setsockopt s r).2.map fun errno => normalizeError os (lastSocketError errno))

/-- What a helper that returns `result<void>` does: a request, or an error without one. -/
abbrev OptStep := Step SockRequest ErrorCode

/-! ## Option entries -/

/-- `socket_option_id`. -/
inductive SocketOptionId where
  | reuseAddr
  | reusePort
  | exclusiveAddr
  | recvBuf
  | sendBuf
  | tcpNodelay
  | tcpCork
  | tcpNotsentLowat
  | tcpUserTimeout
  | tcpFastopen
  | tcpDeferAccept
  | keepAlive
  | keepAliveIdle
  | keepAliveInterval
  | keepAliveCount
  | lingerOpt
  | ipv6Only
  | ipTos
  | broadcast
  | multicastJoin
  | multicastLeave
  | multicastTtl
  | multicastLoop
  | multicastTtlV6
  | multicastLoopV6
  | multicastIf
  | multicastIfV6
  deriving DecidableEq, Repr

/-- `option_entry`. -/
structure OptionEntry where
  id : SocketOptionId
  data : Bytes
  platformAvailable : Bool
  deriving DecidableEq, Repr

/-- `socket_options`, with the flags that `apply_entries` reads. -/
structure SocketOptions where
  entries : List OptionEntry := []
  hasSendBuf : Bool := false
  hasRecvBuf : Bool := false
  deriving DecidableEq, Repr

/-- `sock_address`, whose length stays within its storage. -/
structure SockAddress where
  storage : Bytes
  len : Nat
  storage_length : storage.length = 128
  len_le : len ≤ 128

namespace SockAddress

/-- `sock_address()`: all zero, so of no family. -/
def unspecified : SockAddress where
  storage := List.replicate 128 0
  len := 128
  storage_length := List.length_replicate
  len_le := Nat.le_refl _

/-- `sock_address(addr, len)`. -/
def ofBytes (addr : Bytes) (h : addr.length ≤ 128) : SockAddress where
  storage := addr ++ List.replicate (128 - addr.length) 0
  len := addr.length
  storage_length := by rw [List.length_append, List.length_replicate]; omega
  len_le := h

/-- An IPv4 address with port zero, as a `sockaddr_in`. -/
def inet4 (os : Os) (a b c d : UInt8) : SockAddress :=
  match os with
  | .linux | .windows => ofBytes [2, 0, 0, 0, a, b, c, d, 0, 0, 0, 0, 0, 0, 0, 0] (by simp)
  | .macos => ofBytes [0, 2, 0, 0, a, b, c, d, 0, 0, 0, 0, 0, 0, 0, 0] (by simp)

/-- The bytes that `memcpy` of `size()` bytes from `data()` copies. -/
def bytes (a : SockAddress) : Bytes := a.storage.take a.len

theorem length_bytes (a : SockAddress) : a.bytes.length = a.len := by
  rw [bytes, List.length_take, a.storage_length]
  exact Nat.min_eq_left a.len_le

end SockAddress

/-- The bytes of an `int`. -/
def intBytes (value : BitVec 32) : Bytes := leBytes 4 value.toNat

/-- `addr_size` and `addr_block`: an address and its length. -/
def addrBlock : Nat := 132

/-- An address stored at an offset, with its length behind its 128 bytes. -/
def blitAddress (buf : Bytes) (off : Nat) (a : SockAddress) : Bytes :=
  blit (blit buf off a.bytes) (off + 128) (leBytes 4 a.len)

theorem length_blit_bytes {buf : Bytes} {off : Nat} (a : SockAddress)
    (h : off + addrBlock ≤ buf.length) : (blit buf off a.bytes).length = buf.length := by
  have hlen := a.len_le
  unfold addrBlock at h
  exact length_blit (by rw [a.length_bytes]; omega)

theorem length_blitAddress {buf : Bytes} {off : Nat} (a : SockAddress)
    (h : off + addrBlock ≤ buf.length) : (blitAddress buf off a).length = buf.length := by
  have haddr := length_blit_bytes a h
  unfold addrBlock at h
  rw [blitAddress, length_blit (by rw [haddr, length_leBytes]; omega), haddr]

namespace SocketOptions

variable (os : Os)

def push (o : SocketOptions) (e : OptionEntry) : SocketOptions :=
  { o with entries := o.entries ++ [e] }

def pushInt (o : SocketOptions) (id : SocketOptionId) (value : BitVec 32) (available : Bool) :
    SocketOptions :=
  o.push ⟨id, intBytes value, available⟩

/-- The data of `push_multicast`. -/
def multicastData (group iface : SockAddress) : Bytes :=
  blitAddress (blitAddress (List.replicate (addrBlock * 2) 0) 0 group) addrBlock iface

def pushMulticast (o : SocketOptions) (id : SocketOptionId) (group iface : SockAddress) :
    SocketOptions :=
  o.push ⟨id, multicastData group iface, true⟩

def flag (enable : Bool) : BitVec 32 := if enable then 1 else 0

/-- The member functions that add options. A duration is the count the caller gives, in
milliseconds for `tcp_user_timeout` and in seconds elsewhere. -/
inductive Setter where
  | reuseAddr (enable : Bool)
  | reusePort (enable : Bool)
  | exclusiveAddr (enable : Bool)
  | recvBuf (bytes : BitVec 32)
  | sendBuf (bytes : BitVec 32)
  | bufProfile (sendSize recvSize : BitVec 32)
  | tcpNodelay (enable : Bool)
  | tcpCork (enable : Bool)
  | tcpNotsentLowat (bytes : BitVec 32)
  | tcpUserTimeout (timeout : Int)
  | tcpFastopen (queueLen : BitVec 32)
  | tcpDeferAccept (timeout : Int)
  | keepAlive (enable : Bool)
  | keepAliveIdle (idle : Int)
  | keepAliveInterval (interval : Int)
  | keepAliveCount (count : BitVec 32)
  | linger (enable : Bool) (seconds : BitVec 32)
  | ipv6Only (enable : Bool)
  | ipTos (tos : BitVec 32)
  | broadcast (enable : Bool)
  | multicastJoin (group iface : SockAddress)
  | multicastLeave (group iface : SockAddress)
  | multicastTtl (ttl : BitVec 32)
  | multicastLoop (enable : Bool)
  | multicastTtlV6 (hops : BitVec 32)
  | multicastLoopV6 (enable : Bool)
  | multicastInterface (iface : SockAddress)
  | multicastInterfaceV6 (ifIndex : BitVec 32)

/-- One call, with the constants of `include/socketpp/platform/capabilities.hpp`. -/
def set (o : SocketOptions) : Setter → SocketOptions
  | .reuseAddr enable => o.pushInt .reuseAddr (flag enable) true
  | .reusePort enable => o.pushInt .reusePort (flag enable) (os != .windows)
  | .exclusiveAddr enable =>
    match os with
    | .windows => o.pushInt .exclusiveAddr (flag enable) true
    | .linux | .macos => o.pushInt .exclusiveAddr 0 false
  | .recvBuf bytes => { o.pushInt .recvBuf bytes true with hasRecvBuf := true }
  | .sendBuf bytes => { o.pushInt .sendBuf bytes true with hasSendBuf := true }
  | .bufProfile sendSize recvSize =>
    let o := { o.pushInt .sendBuf sendSize true with hasSendBuf := true }
    { o.pushInt .recvBuf recvSize true with hasRecvBuf := true }
  | .tcpNodelay enable => o.pushInt .tcpNodelay (flag enable) true
  | .tcpCork enable => o.pushInt .tcpCork (flag enable) (os != .windows)
  | .tcpNotsentLowat bytes => o.pushInt .tcpNotsentLowat bytes (os != .windows)
  | .tcpUserTimeout timeout =>
    o.pushInt .tcpUserTimeout (BitVec.ofInt 32 timeout) (os == .linux)
  | .tcpFastopen queueLen => o.pushInt .tcpFastopen queueLen true
  | .tcpDeferAccept timeout =>
    o.pushInt .tcpDeferAccept (BitVec.ofInt 32 timeout) (os == .linux)
  | .keepAlive enable => o.pushInt .keepAlive (flag enable) true
  | .keepAliveIdle idle => o.pushInt .keepAliveIdle (BitVec.ofInt 32 idle) true
  | .keepAliveInterval interval =>
    o.pushInt .keepAliveInterval (BitVec.ofInt 32 interval) true
  | .keepAliveCount count =>
    match os with
    | .linux | .macos => o.pushInt .keepAliveCount count true
    | .windows => o.pushInt .keepAliveCount 0 false
  | .linger enable seconds =>
    o.push ⟨.lingerOpt, intBytes (flag enable) ++ intBytes seconds, true⟩
  | .ipv6Only enable => o.pushInt .ipv6Only (flag enable) true
  | .ipTos tos => o.pushInt .ipTos tos true
  | .broadcast enable => o.pushInt .broadcast (flag enable) true
  | .multicastJoin group iface => o.pushMulticast .multicastJoin group iface
  | .multicastLeave group iface => o.pushMulticast .multicastLeave group iface
  | .multicastTtl ttl => o.pushInt .multicastTtl ttl true
  | .multicastLoop enable => o.pushInt .multicastLoop (flag enable) true
  | .multicastTtlV6 hops => o.pushInt .multicastTtlV6 hops true
  | .multicastLoopV6 enable => o.pushInt .multicastLoopV6 (flag enable) true
  | .multicastInterface iface =>
    o.push ⟨.multicastIf, blitAddress (List.replicate addrBlock 0) 0 iface, true⟩
  | .multicastInterfaceV6 ifIndex => o.push ⟨.multicastIfV6, intBytes ifIndex, true⟩

/-- The options after some calls on an empty `socket_options`. -/
def build (calls : List Setter) : SocketOptions := calls.foldl (set os) {}

end SocketOptions

/-! ## From an entry to its request -/

/-- `read_int`. -/
def readInt (data : Bytes) : BitVec 32 :=
  if 4 ≤ data.length then BitVec.ofNat 32 (leValue (slice data 0 4)) else 0

def setIntOpt (level : SockLevel) (name : OptName) (value : BitVec 32) : OptStep :=
  .ask (.setInt level name value)

def notSupported : OptStep := .refuse (makeErrorCode .optionNotSupported)

/-- The fields of `linger` are `u_short` on Windows. -/
def lingerField (os : Os) (value : BitVec 32) : BitVec 32 :=
  if os = .windows then value &&& 0xffff else value

def applyLinger (os : Os) (data : Bytes) : OptStep :=
  if 8 ≤ data.length then
    .ask (.linger (lingerField os (readInt data)) (lingerField os (readInt (data.drop 4))))
  else .ask (.linger 0 0)

def Os.afInet6 : Os → Nat
  | linux => 10
  | macos => 30
  | windows => 23

/-- `AF_INET`. -/
def afInet : Nat := 2

/-- `sa_family`, behind a byte for the length on macOS. -/
def saFamily (os : Os) (data : Bytes) : Nat :=
  match os with
  | .linux | .windows => leValue (slice data 0 2)
  | .macos => leValue (slice data 1 1)

/-- The group and the interface that `apply_multicast` reads from the data of an entry. -/
def mreqOf (os : Os) (data : Bytes) : Option Mreq :=
  if data.length < addrBlock * 2 then none
  else if saFamily os data = afInet then
    -- `sin_addr` of both, whatever the family of the interface's address
    some (.ipMreq (slice data 4 4) (slice data (addrBlock + 4) 4))
  else if saFamily os data = os.afInet6 then
    -- `sin6_addr` of the group and `sin6_scope_id` of the interface
    some (.ipv6Mreq (slice data 8 16)
      (BitVec.ofNat 32 (leValue (slice data (addrBlock + 24) 4))))
  else none

def applyMulticast (os : Os) (id : SocketOptionId) (data : Bytes) : OptStep :=
  match mreqOf os data with
  | some mreq => .ask (.membership (id == .multicastJoin) mreq)
  | none => .refuse (makeErrorCode .invalidState)

def applyTcpDeferAccept (os : Os) (seconds : BitVec 32) : OptStep :=
  match os with
  | .linux => setIntOpt .ipprotoTcp .tcpDeferAccept seconds
  | .macos | .windows => notSupported

def applyMulticastIf (data : Bytes) : OptStep :=
  if data.length < addrBlock then .refuse (makeErrorCode .invalidState)
  else .ask (.multicastIf (slice data 4 4))

def applyMulticastIfV6 (data : Bytes) : OptStep :=
  if data.length < 4 then .refuse (makeErrorCode .invalidState)
  else setIntOpt .ipprotoIpv6 .ipv6MulticastIf (readInt data)

def isMulticastEntry (id : SocketOptionId) : Bool :=
  id == .multicastJoin || id == .multicastLeave

/-- What the `switch` of `apply_entries` does with an entry. -/
inductive EntryAction where
  | step (st : OptStep)
  /-- `win_idle_sec`, kept for later. -/
  | idle (seconds : BitVec 32)
  /-- `win_interval_sec`, kept for later. -/
  | interval (seconds : BitVec 32)

def OptionEntry.action (os : Os) (e : OptionEntry) : EntryAction :=
  let val := readInt e.data
  match e.id with
  | .reuseAddr => .step (setIntOpt .solSocket .soReuseaddr val)
  | .reusePort =>
    match os with
    | .linux | .macos => .step (setIntOpt .solSocket .soReuseport val)
    | .windows => .step notSupported
  | .exclusiveAddr =>
    match os with
    | .windows => .step (setIntOpt .solSocket .soExclusiveaddruse val)
    | .linux | .macos => .step notSupported
  | .recvBuf => .step (setIntOpt .solSocket .soRcvbuf val)
  | .sendBuf => .step (setIntOpt .solSocket .soSndbuf val)
  | .tcpNodelay => .step (setIntOpt .ipprotoTcp .tcpNodelay val)
  | .tcpCork =>
    match os with
    | .linux => .step (setIntOpt .ipprotoTcp .tcpCork val)
    | .macos => .step (setIntOpt .ipprotoTcp .tcpNopush val)
    | .windows => .step notSupported
  | .tcpNotsentLowat =>
    match os with
    | .linux | .macos => .step (setIntOpt .ipprotoTcp .tcpNotsentLowat val)
    | .windows => .step notSupported
  | .tcpUserTimeout =>
    match os with
    | .linux => .step (setIntOpt .ipprotoTcp .tcpUserTimeout val)
    | .macos | .windows => .step notSupported
  | .tcpFastopen =>
    match os with
    | .linux | .macos => .step (setIntOpt .ipprotoTcp .tcpFastopen val)
    | .windows => .step (setIntOpt .ipprotoTcp .tcpFastopen 1)
  | .tcpDeferAccept => .step (applyTcpDeferAccept os val)
  | .keepAlive => .step (setIntOpt .solSocket .soKeepalive val)
  | .keepAliveIdle =>
    match os with
    | .linux => .step (setIntOpt .ipprotoTcp .tcpKeepidle val)
    | .macos => .step (setIntOpt .ipprotoTcp .tcpKeepalive val)
    | .windows => .idle val
  | .keepAliveInterval =>
    match os with
    | .linux | .macos => .step (setIntOpt .ipprotoTcp .tcpKeepintvl val)
    | .windows => .interval val
  | .keepAliveCount =>
    match os with
    | .linux | .macos => .step (setIntOpt .ipprotoTcp .tcpKeepcnt val)
    | .windows => .step notSupported
  | .lingerOpt => .step (applyLinger os e.data)
  | .ipv6Only => .step (setIntOpt .ipprotoIpv6 .ipv6V6only val)
  | .ipTos => .step (setIntOpt .ipprotoIp .ipTos val)
  | .broadcast => .step (setIntOpt .solSocket .soBroadcast val)
  | .multicastJoin | .multicastLeave => .step (applyMulticast os e.id e.data)
  | .multicastTtl => .step (setIntOpt .ipprotoIp .ipMulticastTtl val)
  | .multicastLoop => .step (setIntOpt .ipprotoIp .ipMulticastLoop val)
  | .multicastTtlV6 => .step (setIntOpt .ipprotoIpv6 .ipv6MulticastHops val)
  | .multicastLoopV6 => .step (setIntOpt .ipprotoIpv6 .ipv6MulticastLoop val)
  | .multicastIf => .step (applyMulticastIf e.data)
  | .multicastIfV6 => .step (applyMulticastIfV6 e.data)

/-- The keep-alive values of Windows that `apply_entries` has read so far. -/
structure WinKeepAlive where
  idle : Option (BitVec 32) := none
  interval : Option (BitVec 32) := none
  deriving DecidableEq, Repr

/-- `apply_windows_keepalive`, called if there is a value. -/
def applyWindowsKeepalive (ka : WinKeepAlive) : List OptStep :=
  if ka.idle.isSome || ka.interval.isSome then
    [.ask (.keepaliveVals 1 (ka.idle.elim 7200000 (· * 1000))
      (ka.interval.elim 1000 (· * 1000)))]
  else []

/-! ## What the library refuses -/

/-- The entry is available, and its group has an address if it joins or leaves one. -/
def OptionEntry.Accepted (os : Os) (e : OptionEntry) : Prop :=
  e.platformAvailable = true ∧
    (isMulticastEntry e.id = true →
      saFamily os e.data = afInet ∨ saFamily os e.data = os.afInet6)

instance (os : Os) (e : OptionEntry) : Decidable (e.Accepted os) :=
  inferInstanceAs (Decidable (_ ∧ _))

/-- The `switch` has a request for the entry if it is accepted. -/
def OptionEntry.Sound (os : Os) (e : OptionEntry) : Prop :=
  e.Accepted os → ∀ ec, e.action os ≠ .step (.refuse ec)

theorem OptionEntry.action_of_multicast {os : Os} {e : OptionEntry}
    (h : isMulticastEntry e.id = true) : e.action os = .step (applyMulticast os e.id e.data) := by
  obtain ⟨id, data, available⟩ := e
  cases id <;> first | rfl | cases h

theorem applyMulticast_of_mreq {os : Os} {data : Bytes} {mreq : Mreq}
    (h : mreqOf os data = some mreq) (id : SocketOptionId) :
    applyMulticast os id data = .ask (.membership (id == .multicastJoin) mreq) := by
  rw [applyMulticast, h]

theorem mreqOf_isSome {os : Os} {data : Bytes} (hlen : data.length = addrBlock * 2)
    (h : saFamily os data = afInet ∨ saFamily os data = os.afInet6) :
    ∃ mreq, mreqOf os data = some mreq := by
  rw [mreqOf, if_neg (by omega)]
  split
  · exact ⟨_, rfl⟩
  · rename_i h4
    rw [if_pos (h.resolve_left h4)]
    exact ⟨_, rfl⟩

/-! ## What the setters store -/

/-- **An `int` is read back** as it was stored. -/
theorem readInt_intBytes (value : BitVec 32) : readInt (intBytes value) = value := by
  have hlen : (intBytes value).length = 4 := length_leBytes 4 value.toNat
  have hslice : slice (intBytes value) 0 4 = intBytes value := by
    rw [slice, List.drop_zero, List.take_of_length_le (Nat.le_of_eq hlen)]
  rw [readInt, if_pos (Nat.le_of_eq hlen.symm), hslice, intBytes, leValue_leBytes value.isLt]
  exact (BitVec.ofNat_toNat 32 value).trans (BitVec.setWidth_eq value)

theorem slice_blitAddress {buf : Bytes} {off : Nat} (a : SockAddress)
    (hoff : off + addrBlock ≤ buf.length) {i len : Nat} (h : i + len ≤ a.len) :
    slice (blitAddress buf off a) (off + i) len = slice a.bytes i len := by
  have hlen := a.len_le
  have haddr := length_blit_bytes a hoff
  unfold addrBlock at hoff
  rw [blitAddress, slice_blit_before (by omega) (by omega), slice_blit_inside (by omega)]
  rwa [a.length_bytes]

theorem slice_blitAddress_before {buf : Bytes} {off : Nat} (a : SockAddress)
    (hoff : off + addrBlock ≤ buf.length) {i len : Nat} (h : i + len ≤ off) :
    slice (blitAddress buf off a) i len = slice buf i len := by
  have haddr := length_blit_bytes a hoff
  unfold addrBlock at hoff
  rw [blitAddress, slice_blit_before (by omega) (by omega), slice_blit_before (by omega) h]

namespace SocketOptions

variable {os : Os} {o : SocketOptions}

theorem length_groupData (group : SockAddress) :
    (blitAddress (List.replicate (addrBlock * 2) 0) 0 group).length = addrBlock * 2 :=
  (length_blitAddress group (by rw [List.length_replicate]; decide)).trans List.length_replicate

theorem length_multicastData (group iface : SockAddress) :
    (multicastData group iface).length = addrBlock * 2 :=
  (length_blitAddress iface (by rw [length_groupData]; decide)).trans (length_groupData group)

theorem slice_multicastData_group (group iface : SockAddress) {i len : Nat}
    (h : i + len ≤ group.len) :
    slice (multicastData group iface) i len = slice group.bytes i len := by
  have hzero : 0 + addrBlock ≤ (List.replicate (addrBlock * 2) (0 : UInt8)).length := by
    rw [List.length_replicate]; decide
  have hgroup := slice_blitAddress group hzero h
  have hle : i + len ≤ addrBlock := h.trans (group.len_le.trans (by decide))
  rw [Nat.zero_add] at hgroup
  rw [multicastData, slice_blitAddress_before iface (by rw [length_groupData]; decide) hle, hgroup]

theorem slice_multicastData_iface (group iface : SockAddress) {i len : Nat}
    (h : i + len ≤ iface.len) :
    slice (multicastData group iface) (addrBlock + i) len = slice iface.bytes i len :=
  slice_blitAddress iface (by rw [length_groupData]; decide) h

/-- **A group is joined and left** on the interface it was stored with. -/
theorem mreqOf_multicastData_inet4 (os : Os) (a b c d a' b' c' d' : UInt8) :
    mreqOf os (multicastData (.inet4 os a b c d) (.inet4 os a' b' c' d')) =
      some (.ipMreq [a, b, c, d] [a', b', c', d']) := by
  have hlen : ∀ x y z w, (SockAddress.inet4 os x y z w).len = 16 := by
    intro x y z w; cases os <;> rfl
  have haddr : ∀ x y z w, slice (SockAddress.inet4 os x y z w).bytes 4 4 = [x, y, z, w] := by
    intro x y z w; cases os <;> rfl
  have hfamily : saFamily os (multicastData (.inet4 os a b c d) (.inet4 os a' b' c' d')) =
      afInet := by
    cases os with
    | linux | windows | macos =>
      rw [saFamily, slice_multicastData_group _ _ (by rw [hlen]; decide)]
      rfl
  rw [mreqOf, length_multicastData, if_neg (Nat.lt_irrefl _), if_pos hfamily,
    slice_multicastData_group _ _ (by rw [hlen]; decide),
    slice_multicastData_iface _ _ (by rw [hlen]; decide), haddr, haddr]

theorem push_sound (ho : ∀ e ∈ o.entries, e.Sound os) {e : OptionEntry} (he : e.Sound os) :
    ∀ e' ∈ (o.push e).entries, e'.Sound os := by
  intro e' he'
  rcases List.mem_append.1 he' with he' | he'
  · exact ho e' he'
  · rwa [List.mem_singleton.1 he']

theorem multicast_sound {id : SocketOptionId} (hid : isMulticastEntry id = true)
    (group iface : SockAddress) :
    OptionEntry.Sound os ⟨id, multicastData group iface, true⟩ := by
  intro h ec hc
  obtain ⟨mreq, hm⟩ := mreqOf_isSome (length_multicastData group iface) (h.2 hid)
  rw [OptionEntry.action_of_multicast hid, applyMulticast_of_mreq hm] at hc
  cases hc

theorem set_sound (ho : ∀ e ∈ o.entries, e.Sound os) (c : Setter) :
    ∀ e ∈ (o.set os c).entries, e.Sound os := by
  cases c with
  | multicastJoin group iface => exact push_sound ho (multicast_sound rfl group iface)
  | multicastLeave group iface => exact push_sound ho (multicast_sound rfl group iface)
  | multicastInterface iface =>
    refine push_sound ho fun _ ec hc => ?_
    have hlen : (blitAddress (List.replicate addrBlock 0) 0 iface).length = addrBlock :=
      (length_blitAddress iface (by rw [List.length_replicate]; decide)).trans
        List.length_replicate
    simp only [OptionEntry.action, applyMulticastIf, hlen, Nat.lt_irrefl, if_false] at hc
    cases hc
  | multicastInterfaceV6 ifIndex =>
    refine push_sound ho fun _ ec hc => ?_
    simp only [OptionEntry.action, applyMulticastIfV6, intBytes, length_leBytes,
      Nat.lt_irrefl, if_false] at hc
    cases hc
  | linger enable seconds =>
    refine push_sound ho fun _ ec hc => ?_
    simp only [OptionEntry.action, applyLinger, EntryAction.step.injEq] at hc
    split at hc <;> cases hc
  | bufProfile sendSize recvSize =>
    have hsend := push_sound ho (e := ⟨.sendBuf, intBytes sendSize, true⟩) fun _ ec hc => by
      cases hc
    exact push_sound (o := { o.pushInt .sendBuf sendSize true with hasSendBuf := true }) hsend
      fun _ ec hc => by cases hc
  | _ =>
    -- an `int`: the capability of the platform goes with the branch of the `switch`
    cases os <;> exact push_sound ho fun h ec hc => by
      first | exact absurd h.1 Bool.false_ne_true | cases hc

/-- **The setters agree with the `switch`.** -/
theorem build_sound (os : Os) (calls : List Setter) :
    ∀ e ∈ (build os calls).entries, e.Sound os := by
  have hfold : ∀ {o : SocketOptions}, (∀ e ∈ o.entries, e.Sound os) →
      ∀ e ∈ (calls.foldl (set os) o).entries, e.Sound os := by
    induction calls with
    | nil => exact id
    | cons c calls ih => exact fun ho => ih (set_sound ho c)
  exact hfold (List.forall_mem_nil _)

end SocketOptions

/-! ## The passes -/

structure ApplyResult where
  actualSendBuf : BitVec 32 := 0
  actualRecvBuf : BitVec 32 := 0
  deriving DecidableEq, Repr

section Passes

variable {K : Type} (k : Kernel K) (os : Os)

/-- The loop of `apply_entries`. -/
def applyLoop (skipMulticast : Bool) :
    List OptionEntry → WinKeepAlive → TracedSock K → TracedSock K × Except ErrorCode WinKeepAlive
  | [], ka, s => (s, .ok ka)
  | e :: es, ka, s =>
    if skipMulticast && isMulticastEntry e.id then applyLoop skipMulticast es ka s
    else if !e.platformAvailable then (s, .error (makeErrorCode .optionNotSupported))
    else
      match e.action os with
      | .step st =>
        match (k.device os).run [st] s with
        | (s, some ec) => (s, .error ec)
        | (s, none) => applyLoop skipMulticast es ka s
      | .idle seconds => applyLoop skipMulticast es { ka with idle := some seconds } s
      | .interval seconds => applyLoop skipMulticast es { ka with interval := some seconds } s

/-- The values that `getsockopt` reports in the end; a failure leaves the zero. -/
def SocketOptions.readBack (o : SocketOptions) (s : K) : ApplyResult where
  actualSendBuf := if o.hasSendBuf then ((k.getsockopt s .soSndbuf).toOption.getD 0) else 0
  actualRecvBuf := if o.hasRecvBuf then ((k.getsockopt s .soRcvbuf).toOption.getD 0) else 0

def SocketOptions.applyEntries (o : SocketOptions) (skipMulticast : Bool) (s : TracedSock K) :
    TracedSock K × Except ErrorCode ApplyResult :=
  match applyLoop k os skipMulticast o.entries {} s with
  | (s, .error ec) => (s, .error ec)
  | (s, .ok ka) =>
    match (k.device os).run (applyWindowsKeepalive ka) s with
    | (s, some ec) => (s, .error ec)
    | (s, none) => (s, .ok (o.readBack k s.state))

def SocketOptions.applyTo (o : SocketOptions) (s : TracedSock K) :
    TracedSock K × Except ErrorCode ApplyResult :=
  o.applyEntries k os false s

def SocketOptions.applyPreBind (o : SocketOptions) (s : TracedSock K) :
    TracedSock K × Except ErrorCode ApplyResult :=
  o.applyEntries k os true s

/-- The loop of `apply_post_bind`. -/
def postBindLoop : List OptionEntry → TracedSock K → TracedSock K × Option ErrorCode
  | [], s => (s, none)
  | e :: es, s =>
    if !isMulticastEntry e.id then postBindLoop es s
    else if !e.platformAvailable then (s, some (makeErrorCode .optionNotSupported))
    else
      match (k.device os).run [applyMulticast os e.id e.data] s with
      | (s, some ec) => (s, some ec)
      | (s, none) => postBindLoop es s

def SocketOptions.applyPostBind (o : SocketOptions) (s : TracedSock K) :
    TracedSock K × Option ErrorCode :=
  postBindLoop k os o.entries s

/-- `apply_pre_bind` and, if it succeeds, `apply_post_bind`. What happens to the socket
between the two is `bind`. -/
def SocketOptions.applyTwoPhase (bind : K → K) (o : SocketOptions) (s : TracedSock K) :
    TracedSock K × Option ErrorCode :=
  match o.applyPreBind k os s with
  | (s, .error ec) => (s, some ec)
  | (s, .ok _) => o.applyPostBind k os { s with state := bind s.state }

end Passes

end Socketpp
