import Socketpp.Socket.Handle
import Socketpp.Socket.Multicast

/-!
# Opening a socket

`udp_socket_base::open` (`src/socket/udp.cpp`), `tcp_listener_base::open`
(`src/socket/tcp_listener.cpp`), `connect_impl` (`src/socket/tcp_connector.cpp`)
and `create_connected_udp` (`src/socket/udp_peer.cpp`) make a socket with
`socket::create` and then configure it, each in steps of its own; where a step
fails they close the socket and return the error. `configure` is what they
share. The two `open` functions move the new socket into the object they are
called on, whatever it held, and the other two return it.

A failed call leaves no descriptor behind, and a call that succeeds leaves one
(`open_leaks_nothing`). An object keeps what it held if `socket::create` fails:
it is assigned after that.
-/

namespace Socketpp

open Requests

/-! ## The operating system -/

/-- The calls on a descriptor, other than those for the entries of `socket_options`. -/
inductive SocketCall where
  /-- `fcntl` with `F_SETFD` and `FD_CLOEXEC` -/
  | setCloexec
  /-- `fcntl` with `F_SETFL` -/
  | setFlags (flags : BitVec 32)
  /-- `ioctlsocket` with `FIONBIO` -/
  | ioctlNonBlocking (enable : Bool)
  /-- `SO_NOSIGPIPE`, `SO_REUSEADDR`, `SO_REUSEPORT` and `SO_EXCLUSIVEADDRUSE` set to one -/
  | setNosigpipe
  | setReuseaddr
  | setReuseport
  | setExclusiveaddruse
  | bind (addr : SockAddress)
  | listen (backlog : Int)
  | connect (addr : SockAddress)

/-- The operating system: a call returns `errno` if it fails. -/
structure SocketKernel (K : Type) where
  /-- `setsockopt` and `getsockopt` for the entries of `socket_options` -/
  options : SocketT → Kernel K
  /-- `::socket` or `WSASocketW` -/
  socket : K → K × SocketT
  /-- `errno` after `::socket` -/
  errno : K → Int
  /-- `fcntl` with `F_GETFL` -/
  getFlags : K → SocketT → K × Except Int (BitVec 32)
  call : K → SocketT → SocketCall → K × Option Int
  close : K → SocketT → K

/-- Calls on the operating system that stop at the first one that fails. -/
abbrev OpenM (K : Type) := ExceptT ErrorCode (StateM K)

/-- `O_NONBLOCK`. -/
def Os.nonblock : Os → BitVec 32
  | linux => 0x800
  | macos => 0x4
  | windows => 0

/-- `has_reuse_addr`: the flag is set with the entry. -/
def SocketOptions.hasReuseAddr (o : SocketOptions) : Bool :=
  o.entries.any fun e => e.id = .reuseAddr

namespace SocketKernel

variable {K : Type} (env : SocketKernel K) (os : Os)

/-- A call whose failure is reported. -/
def issue (fd : SocketT) (c : SocketCall) : OpenM K Unit := fun k =>
  match env.call k fd c with
  | (k, none) => (.ok (), k)
  | (k, some errno) => (.error (normalizeError os (lastSocketError errno)), k)

/-- A call whose outcome is ignored. -/
def ignored (fd : SocketT) (c : SocketCall) : OpenM K Unit := fun k =>
  (.ok (), (env.call k fd c).1)

def setNonBlocking (fd : SocketT) (enable : Bool) : OpenM K Unit := do
  if fd = invalidSocket then throw (makeErrorCode .invalidState)
  match os with
  | .windows => env.issue os fd (.ioctlNonBlocking enable)
  | .linux | .macos =>
    let flags ← (fun k =>
      match env.getFlags k fd with
      | (k, .ok flags) => (.ok flags, k)
      | (k, .error errno) => (.error (normalizeError os (lastSocketError errno)), k) :
        OpenM K (BitVec 32))
    env.issue os fd
      (.setFlags (if enable then flags ||| os.nonblock else flags &&& ~~~ os.nonblock))

/-- `socket::bind`. -/
def bind (fd : SocketT) (addr : SockAddress) : OpenM K Unit := do
  if fd = invalidSocket then throw (makeErrorCode .invalidState)
  env.issue os fd (.bind addr)

def applyTo (fd : SocketT) (o : SocketOptions) : OpenM K Unit := fun k =>
  let r := o.applyTo (env.options fd) os (.start k)
  (r.2.map fun _ => (), r.1.state)

def applyPreBind (fd : SocketT) (o : SocketOptions) : OpenM K Unit := fun k =>
  let r := o.applyPreBind (env.options fd) os (.start k)
  (r.2.map fun _ => (), r.1.state)

def applyPostBind (fd : SocketT) (o : SocketOptions) : OpenM K Unit := fun k =>
  let r := o.applyPostBind (env.options fd) os (.start k)
  (r.2.elim (.ok ()) .error, r.1.state)

/-! ## The steps of each function -/

/-- What `socket::create` does to a new descriptor. Linux sets the flags with `::socket`. -/
def createSteps (fd : SocketT) : OpenM K Unit :=
  match os with
  | .linux => pure ()
  | .windows => env.setNonBlocking os fd true
  | .macos => do
    env.issue os fd .setCloexec
    env.setNonBlocking os fd true
    env.issue os fd .setNosigpipe

def udpOpenSteps (bindAddr : SockAddress) (o : SocketOptions) (fd : SocketT) : OpenM K Unit := do
  env.applyPreBind os fd o
  env.bind os fd bindAddr
  env.applyPostBind os fd o

def listenerOpenSteps (bindAddr : SockAddress) (backlog : Int) (o : SocketOptions)
    (fd : SocketT) : OpenM K Unit := do
  match os with
  | .linux | .macos =>
    env.issue os fd .setReuseaddr
    env.ignored fd .setReuseport
  | .windows => if !o.hasReuseAddr then env.issue os fd .setExclusiveaddruse
  env.applyTo os fd o
  env.bind os fd bindAddr
  env.issue os fd (.listen backlog)

/-- `::connect` as `connect_impl` sees it: it may go on in the background. -/
def connectOrInProgress (fd : SocketT) (addr : SockAddress) : OpenM K Unit := fun k =>
  match env.call k fd (.connect addr) with
  | (k, none) => (.ok (), k)
  | (k, some errno) =>
    let ec := normalizeError os (lastSocketError errno)
    let ec := if ec = makeErrorCode .wouldBlock then makeErrorCode .inProgress else ec
    if ec = makeErrorCode .inProgress then (.ok (), k) else (.error ec, k)

def connectSteps (addr : SockAddress) (o : SocketOptions) (fd : SocketT) : OpenM K Unit := do
  env.applyTo os fd o
  env.connectOrInProgress os fd addr

/-- Windows has no `create_connected_udp`. -/
def connectedUdpSteps (localAddr peer : SockAddress) (o : SocketOptions) (fd : SocketT) :
    OpenM K Unit := do
  env.issue os fd .setReuseaddr
  env.ignored fd .setReuseport
  env.applyTo os fd o
  env.bind os fd localAddr
  env.issue os fd (.connect peer)

end SocketKernel

/-! ### The steps and the models of their results -/

namespace SocketKernel

variable {K : Type} {env : SocketKernel K} {os : Os}

section Bind

variable {α β : Type} {x : OpenM K α} {f : α → OpenM K β} {k k' : K}

theorem run_bind {out : Except ErrorCode α} (h : x.run k = (out, k')) :
    (x >>= f).run k = ExceptT.bindCont f out k' := by
  change (x >>= f).run.run k = _
  change x.run.run k = _ at h
  rw [ExceptT.run_bind, StateT.run_bind, h]
  cases out <;> rfl

theorem run_bind_ok {a : α} (h : x.run k = (.ok a, k')) : (x >>= f).run k = (f a).run k' :=
  run_bind h

theorem run_bind_error {ec : ErrorCode} (h : x.run k = (.error ec, k')) :
    (x >>= f).run k = (.error ec, k') :=
  run_bind h

end Bind

/-- The steps are those of `udpOpen`. -/
theorem errorOf_udpOpenSteps {fd : SocketT} (hfd : fd ≠ invalidSocket) (addr : SockAddress)
    (o : SocketOptions) (k : K) :
    errorOf ((env.udpOpenSteps os addr o fd).run k).1 =
      errorOf (udpOpen (env.options fd) os (.ok k)
        (fun k => ((env.issue os fd (.bind addr) k).2, errorOf (env.issue os fd (.bind addr) k).1))
        o) := by
  have hbind : env.bind os fd addr = env.issue os fd (.bind addr) := by
    rw [bind, if_neg hfd]
  rw [udpOpenSteps, udpOpen, hbind]
  cases hpre : o.applyPreBind (env.options fd) os (.start k) with
  | mk t out =>
    have h1 : (env.applyPreBind os fd o).run k = (out.map fun _ => (), t.state) := by
      change (_, _) = _
      rw [hpre]
    cases out with
    | error ec =>
      rw [run_bind_error h1]
      rfl
    | ok a =>
      rw [run_bind_ok h1]
      simp only
      cases hb : env.issue os fd (.bind addr) t.state with
      | mk out k' =>
        have h2 : (env.issue os fd (.bind addr)).run t.state = (out, k') := hb
        cases out with
        | error ec =>
          rw [run_bind_error h2]
          rfl
        | ok u =>
          rw [run_bind_ok h2]
          have hcongr := (Device.run_congr (d := (env.options fd).device os)
            (p := postBindSteps os o.entries) (s := .start k') (t := { t with state := k' }) rfl).2
          rw [← postBindLoop_run, ← postBindLoop_run] at hcongr
          change errorOf (Option.elim (postBindLoop _ os o.entries (.start k')).2 _ _) = _
          rw [hcongr]
          simp only [errorOf, SocketOptions.applyPostBind]
          cases postBindLoop (env.options fd) os o.entries { t with state := k' } with
          | mk t' out => cases out <;> rfl

/-- The steps are those of `connectImpl`. -/
theorem errorOf_connectSteps (addr : SockAddress) (o : SocketOptions) (fd : SocketT) (f : Fd)
    (k : K) :
    errorOf ((env.connectSteps os addr o fd).run k).1 =
      errorOf (Socketpp.connectImpl os (.ok f) ((env.applyTo os fd o).run k).1
        (env.call ((env.applyTo os fd o).run k).2 fd (.connect addr)).2) := by
  rw [connectSteps]
  cases h1 : (env.applyTo os fd o).run k with
  | mk out k' =>
    cases out with
    | error ec =>
      rw [run_bind_error h1]
      rfl
    | ok u =>
      rw [run_bind_ok h1]
      simp only [Socketpp.connectImpl]
      change errorOf (env.connectOrInProgress os fd addr k').1 = _
      rw [connectOrInProgress]
      cases env.call k' fd (.connect addr) with
      | mk k'' rc =>
        cases rc with
        | none => rfl
        | some errno =>
          simp only
          generalize (if normalizeError os (lastSocketError errno) = makeErrorCode .wouldBlock
            then makeErrorCode .inProgress else normalizeError os (lastSocketError errno)) = ec
          by_cases hp : ec = makeErrorCode .inProgress
          · rw [if_pos hp, if_pos hp]
            rfl
          · rw [if_neg hp, if_neg hp]
            rfl

end SocketKernel

/-! ## Who owns the descriptor -/

/-- The operating system, and what happened to the handles since the call began. -/
structure OpenState (K : Type) where
  kernel : K
  log : List HandleEvent

namespace SocketKernel

variable {K : Type} (env : SocketKernel K) (os : Os)

/-- `close` of an object, or its destructor. -/
def closeSocket (s : OpenState K) (o : Socket) : OpenState K where
  kernel := if o.handle = invalidSocket then s.kernel else env.close s.kernel o.handle
  log := s.log ++ o.close.2

/-- The steps on a socket. Where one fails, the socket is closed. -/
def configure (steps : SocketT → OpenM K Unit) (s : OpenState K) (o : Socket) :
    OpenState K × Socket × Option ErrorCode :=
  match (steps o.handle).run s.kernel with
  | (.ok _, k) => ({ s with kernel := k }, o, none)
  | (.error ec, k) => (env.closeSocket { s with kernel := k } o, o.close.1, some ec)

/-- `socket::create`: the local object is moved into the result, and its destructor runs. -/
def create (s : OpenState K) : OpenState K × Except ErrorCode Socket :=
  match env.socket s.kernel with
  | (k, fd) =>
    if fd = invalidSocket then
      ({ s with kernel := k }, .error (normalizeError os (lastSocketError (env.errno k))))
    else
      match env.configure (env.createSteps os) ⟨k, s.log ++ [.passedIn fd]⟩ (.ofHandle fd) with
      | (s, o, none) => (env.closeSocket s o.moveFrom.2, .ok o.moveFrom.1)
      | (s, o, some ec) => (env.closeSocket s o, .error ec)

/-- The new socket is moved into `self`, which closes what it held; in the end the destructor
of `r` runs. -/
def openInto (steps : SocketT → OpenM K Unit) (self : Socket) (s : OpenState K) :
    OpenState K × Socket × Option ErrorCode :=
  match env.create os s with
  | (s, .error ec) => (s, self, some ec)
  | (s, .ok r) =>
    match env.configure steps (env.closeSocket s self) r.moveFrom.1 with
    | (s, self, error) => (env.closeSocket s r.moveFrom.2, self, error)

/-- The new socket is moved into `sock` and from there into the result; in the end the
destructors of `sock` and `r` run. -/
def openResult (steps : SocketT → OpenM K Unit) (s : OpenState K) :
    OpenState K × Except ErrorCode Socket :=
  match env.create os s with
  | (s, .error ec) => (s, .error ec)
  | (s, .ok r) =>
    match env.configure steps s r.moveFrom.1 with
    | (s, sock, none) =>
      (env.closeSocket (env.closeSocket s sock.moveFrom.2) r.moveFrom.2, .ok sock.moveFrom.1)
    | (s, sock, some ec) =>
      (env.closeSocket (env.closeSocket s sock) r.moveFrom.2, .error ec)

/-- `udp_socket_base::open`. -/
def udpSocketOpen (self : Socket) (bindAddr : SockAddress) (o : SocketOptions)
    (s : OpenState K) : OpenState K × Socket × Option ErrorCode :=
  env.openInto os (env.udpOpenSteps os bindAddr o) self s

/-- `tcp_listener_base::open`. -/
def tcpListenerOpen (self : Socket) (bindAddr : SockAddress) (backlog : Int) (o : SocketOptions)
    (s : OpenState K) : OpenState K × Socket × Option ErrorCode :=
  env.openInto os (env.listenerOpenSteps os bindAddr backlog o) self s

/-- `connect_impl`. -/
def connectImpl (addr : SockAddress) (o : SocketOptions) (s : OpenState K) :
    OpenState K × Except ErrorCode Socket :=
  env.openResult os (env.connectSteps os addr o) s

def createConnectedUdp (localAddr peer : SockAddress) (o : SocketOptions) (s : OpenState K) :
    OpenState K × Except ErrorCode Socket :=
  env.openResult os (env.connectedUdpSteps os localAddr peer o) s

end SocketKernel

/-! ## What a call leaves -/

def HandleEvent.isPassedIn : HandleEvent → Bool
  | passedIn _ => true
  | _ => false

/-- Every descriptor made is closed once. -/
def ClosedOnce (log : List HandleEvent) : Prop :=
  ∀ h, HandleEvent.passedIn h ∈ log → log.count (.closed h) = 1

/-- One descriptor is made, and it is not closed. -/
structure OneOpen (log : List HandleEvent) (h : SocketT) : Prop where
  valid : h ≠ invalidSocket
  made : log.filter HandleEvent.isPassedIn = [.passedIn h]
  isOpen : HandleEvent.closed h ∉ log

/-- The descriptor is not the one the object holds. -/
def Fresh (self : Socket) (fd : SocketT) : Prop := self.handle ≠ invalidSocket → fd ≠ self.handle

/-- What `open` leaves in an object that was `self`, with the outcome of `socket::create`. -/
structure IntoOutcome {K : Type} (self : Socket) (created : Except ErrorCode Socket)
    (r : OpenState K × Socket × Option ErrorCode) : Prop where
  failed : r.2.2 ≠ none → ClosedOnce r.1.log
  kept : errorOf created ≠ none → r.2.2 ≠ none ∧ r.2.1 = self
  closed : r.2.2 ≠ none → errorOf created = none → r.2.1.handle = invalidSocket
  opened : r.2.2 = none → OneOpen r.1.log r.2.1.handle

/-- What a function that returns the socket leaves. -/
structure ResultOutcome {K : Type} (r : OpenState K × Except ErrorCode Socket) : Prop where
  failed : ∀ ec, r.2 = .error ec → ClosedOnce r.1.log
  opened : ∀ sock, r.2 = .ok sock → OneOpen r.1.log sock.handle

/-! ### Lemmas on logs -/

theorem moveFrom_ofHandle (fd : SocketT) : (Socket.ofHandle fd).moveFrom = (.ofHandle fd, .empty) :=
  rfl

theorem close_ofHandle {fd : SocketT} (hfd : fd ≠ invalidSocket) :
    (Socket.ofHandle fd).close = (.empty, [.closed fd]) :=
  if_neg hfd

/-- An object closes nothing but its own handle. -/
theorem mem_close {o : Socket} {e : HandleEvent} (he : e ∈ o.close.2) :
    o.handle ≠ invalidSocket ∧ e.handle = o.handle ∧ e.isPassedIn = false := by
  rw [Socket.close] at he
  split at he
  · cases he
  · rename_i hne
    refine ⟨hne, ?_⟩
    rw [Socket.deregister] at he
    cases hcb : o.onCloseDeregister with
    | none =>
      rw [hcb] at he
      rw [List.mem_singleton.1 he]
      exact ⟨rfl, rfl⟩
    | some cb =>
      rw [hcb] at he
      rcases List.mem_cons.1 he with rfl | he
      · exact ⟨rfl, rfl⟩
      · rw [List.mem_singleton.1 he]
        exact ⟨rfl, rfl⟩

theorem filter_isPassedIn_close (o : Socket) : o.close.2.filter HandleEvent.isPassedIn = [] :=
  List.filter_eq_nil_iff.2 fun _ he => Bool.eq_false_iff.1 (mem_close he).2.2

theorem fresh_empty (fd : SocketT) : Fresh .empty fd := fun hne => absurd rfl hne

section Fresh

variable {self : Socket} {fd : SocketT} (hfresh : Fresh self fd)

include hfresh

theorem closed_not_mem_close : HandleEvent.closed fd ∉ self.close.2 :=
  fun he => hfresh (mem_close he).1 (mem_close he).2.1

/-- The log of a call that succeeds. -/
theorem oneOpen_of_log (hfd : fd ≠ invalidSocket) : OneOpen (.passedIn fd :: self.close.2) fd where
  valid := hfd
  made := by
    rw [List.filter_cons_of_pos (by exact rfl), filter_isPassedIn_close]
  isOpen he := by
    rcases List.mem_cons.1 he with hc | hc
    · cases hc
    · exact closed_not_mem_close hfresh hc

/-- The log of a call that fails after `socket::create`. -/
theorem closedOnce_of_log : ClosedOnce (.passedIn fd :: self.close.2 ++ [.closed fd]) := by
  intro h hm
  have hh : h = fd := by
    rcases List.mem_append.1 hm with hm | hm
    · rcases List.mem_cons.1 hm with hm | hm
      · cases hm
        rfl
      · cases (mem_close hm).2.2
    · cases List.mem_singleton.1 hm
  rw [hh, List.count_append, List.count_cons_of_ne (by simp),
    List.count_eq_zero.2 (closed_not_mem_close hfresh), List.count_singleton_self]

end Fresh

namespace SocketKernel

variable {K : Type} {env : SocketKernel K} {os : Os} {s : OpenState K}

/-! ### What each part leaves in the log -/

theorem closeSocket_of_invalid {o : Socket} (ho : o.handle = invalidSocket) :
    env.closeSocket s o = s := by
  rw [closeSocket, if_pos ho, Socket.close, if_pos ho, List.append_nil]

theorem configure_cases (env : SocketKernel K) (s : OpenState K) (steps : SocketT → OpenM K Unit)
    {fd : SocketT} (hfd : fd ≠ invalidSocket) :
    (∃ s', env.configure steps s (.ofHandle fd) = (s', .ofHandle fd, none) ∧ s'.log = s.log) ∨
      ∃ s' ec, env.configure steps s (.ofHandle fd) = (s', .empty, some ec) ∧
        s'.log = s.log ++ [.closed fd] := by
  rw [configure]
  cases (steps (Socket.ofHandle fd).handle).run s.kernel with
  | mk out k =>
    cases out with
    | ok u => exact .inl ⟨_, rfl, rfl⟩
    | error ec =>
      refine .inr ⟨env.closeSocket ⟨k, s.log⟩ (.ofHandle fd), ec, ?_, ?_⟩
      · rw [close_ofHandle hfd]
      · rw [closeSocket, close_ofHandle hfd]

theorem create_cases (env : SocketKernel K) (os : Os) (s : OpenState K) :
    (∃ s' ec, env.create os s = (s', .error ec) ∧ (s'.log = s.log ∨
      ∃ fd, s'.log = s.log ++ [.passedIn fd, .closed fd])) ∨
    ((env.socket s.kernel).2 ≠ invalidSocket ∧
      ∃ s', env.create os s = (s', .ok (.ofHandle (env.socket s.kernel).2)) ∧
        s'.log = s.log ++ [.passedIn (env.socket s.kernel).2]) := by
  rw [create]
  cases env.socket s.kernel with
  | mk k fd =>
    by_cases hfd : fd = invalidSocket
    · exact .inl ⟨_, _, if_pos hfd, .inl rfl⟩
    · simp only [if_neg hfd]
      rcases configure_cases env ⟨k, s.log ++ [.passedIn fd]⟩ (env.createSteps os) hfd with
        ⟨s', he, hlog⟩ | ⟨s', ec, he, hlog⟩
      · refine .inr ⟨hfd, s', ?_, hlog⟩
        rw [he]
        exact congrArg (Prod.mk · _) (closeSocket_of_invalid rfl)
      · refine .inl ⟨s', ec, ?_, .inr ⟨fd, ?_⟩⟩
        · rw [he]
          exact congrArg (Prod.mk · _) (closeSocket_of_invalid rfl)
        · rw [hlog, List.append_assoc]
          rfl

theorem closedOnce_of_create {s' : OpenState K}
    (h : s'.log = [] ∨ ∃ fd, s'.log = [.passedIn fd, .closed fd]) : ClosedOnce s'.log := by
  rcases h with h | ⟨fd, h⟩
  · rw [h]
    intro x hx
    cases hx
  · rw [h]
    exact closedOnce_of_log (fresh_empty fd)

theorem openInto_outcome (steps : SocketT → OpenM K Unit) {self : Socket} {k : K}
    (hfresh : Fresh self (env.socket k).2) :
    IntoOutcome self (env.create os ⟨k, []⟩).2 (env.openInto os steps self ⟨k, []⟩) := by
  rw [openInto]
  rcases create_cases env os ⟨k, []⟩ with
    ⟨s', ec, he, hlog⟩ | ⟨hfd, s', he, hlog⟩
  · simp only [he]
    exact ⟨fun _ => closedOnce_of_create hlog, fun _ => ⟨Option.some_ne_none _, rfl⟩,
      fun _ h => absurd h (Option.some_ne_none _), fun h => absurd h (Option.some_ne_none _)⟩
  · simp only [he]
    have hclosed : (env.closeSocket s' self).log = .passedIn (env.socket k).2 :: self.close.2 := by
      rw [closeSocket, hlog]
      rfl
    rcases configure_cases env (env.closeSocket s' self) steps hfd with
      ⟨t, hc, ht⟩ | ⟨t, ec, hc, ht⟩
    · simp only [moveFrom_ofHandle, hc]
      refine ⟨fun h => absurd rfl h, fun h => absurd rfl h, fun h => absurd rfl h, fun _ => ?_⟩
      rw [closeSocket_of_invalid rfl, ht, hclosed]
      exact oneOpen_of_log hfresh hfd
    · simp only [moveFrom_ofHandle, hc]
      refine ⟨fun _ => ?_, fun h => absurd rfl h, fun _ _ => rfl,
        fun h => absurd h (Option.some_ne_none _)⟩
      rw [closeSocket_of_invalid rfl, ht, hclosed]
      exact closedOnce_of_log hfresh

theorem openResult_outcome (steps : SocketT → OpenM K Unit) (k : K) :
    ResultOutcome (env.openResult os steps ⟨k, []⟩) := by
  rw [openResult]
  rcases create_cases env os ⟨k, []⟩ with
    ⟨s', ec, he, hlog⟩ | ⟨hfd, s', he, hlog⟩
  · simp only [he]
    refine ⟨fun _ _ => closedOnce_of_create hlog, fun sock h => ?_⟩
    cases h
  · simp only [he]
    rcases configure_cases env s' steps hfd with ⟨t, hc, ht⟩ | ⟨t, ec, hc, ht⟩
    · simp only [moveFrom_ofHandle, hc]
      refine ⟨fun _ h => ?_, fun sock h => ?_⟩
      · cases h
      · cases h
        rw [closeSocket_of_invalid rfl, closeSocket_of_invalid rfl, ht, hlog]
        exact oneOpen_of_log (fresh_empty _) hfd
    · simp only [moveFrom_ofHandle, hc]
      refine ⟨fun _ _ => ?_, fun sock h => ?_⟩
      · rw [closeSocket_of_invalid rfl, closeSocket_of_invalid rfl, ht, hlog]
        exact closedOnce_of_log (fresh_empty _)
      · cases h

/-- **Nothing is leaked.** Whatever the operating system answers and whatever the object held,
as long as `::socket` does not return the descriptor the object holds. -/
theorem open_leaks_nothing (env : SocketKernel K) (os : Os) (k : K) (self : Socket)
    (hfresh : Fresh self (env.socket k).2)
    (bindAddr peer : SockAddress) (backlog : Int) (o : SocketOptions) :
    IntoOutcome self (env.create os ⟨k, []⟩).2 (env.udpSocketOpen os self bindAddr o ⟨k, []⟩) ∧
      IntoOutcome self (env.create os ⟨k, []⟩).2
        (env.tcpListenerOpen os self bindAddr backlog o ⟨k, []⟩) ∧
      ResultOutcome (env.connectImpl os peer o ⟨k, []⟩) ∧
      ResultOutcome (env.createConnectedUdp os bindAddr peer o ⟨k, []⟩) :=
  ⟨openInto_outcome _ hfresh, openInto_outcome _ hfresh, openResult_outcome _ k,
    openResult_outcome _ k⟩

/-! ### Two systems -/

/-- Descriptors are handed out in order; `::listen` finds the address in use. -/
def portTaken : SocketKernel Int where
  options _ := ⟨fun k _ => (k, none), fun _ _ => .ok 0⟩
  socket k := (k + 1, k)
  errno _ := 0
  getFlags k _ := (k, .ok 2)
  call k _
    | .listen _ => (k, some 48)
    | _ => (k, none)
  close k _ := k

/-- A listener that held 3, on macOS. -/
theorem open_leaks_nothing_port_taken :
    (portTaken.tcpListenerOpen .macos (.ofHandle 3) .unspecified 16 ⟨[], false, false⟩
        ⟨4, []⟩).2 = (.empty, some (makeErrorCode .addressInUse)) ∧
      (portTaken.tcpListenerOpen .macos (.ofHandle 3) .unspecified 16 ⟨[], false, false⟩
        ⟨4, []⟩).1.log = [.passedIn 4, .closed 3, .closed 4] ∧
      IntoOutcome (.ofHandle 3) (portTaken.create .macos ⟨4, []⟩).2
        (portTaken.tcpListenerOpen .macos (.ofHandle 3) .unspecified 16 ⟨[], false, false⟩
          ⟨4, []⟩) :=
  ⟨rfl, rfl, (open_leaks_nothing portTaken .macos 4 (.ofHandle 3) (fun _ => by decide)
    .unspecified .unspecified 16 ⟨[], false, false⟩).2.1⟩

/-- The limit of descriptors is reached. -/
def fdLimit : SocketKernel Unit where
  options _ := SocketOptions.permissive
  socket _ := ((), invalidSocket)
  errno _ := 24
  getFlags _ _ := ((), .ok 2)
  call _ _ _ := ((), none)
  close _ _ := ()

/-- `udp_socket_base::open` fails, and the object still holds the socket it had. -/
theorem udpSocketOpen_keeps_handle :
    (fdLimit.udpSocketOpen .linux (.ofHandle 7) .unspecified ⟨[], false, false⟩ ⟨(), []⟩).2 =
      (.ofHandle 7, some (makeErrorCode .fdLimitReached)) :=
  rfl

end SocketKernel

end Socketpp
