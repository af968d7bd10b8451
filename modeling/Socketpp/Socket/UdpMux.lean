import Socketpp.Lib.Machine
import Socketpp.Platform.Error

/-!
# Peers of a UDP multiplexer

On Windows the peer sockets of one local address share a `udp_mux`
(`src/socket/udp_mux.hpp`), which calls the closure registered for the source of
each datagram. The closure captures a raw pointer to the `impl` of its peer
socket (`src/socket/udp_peer.cpp`); `impl` is a number here, and `peers` has
that of the closure. The template is the same for `inet4_address` and
`inet6_address`, and so is `create` of the two peer sockets.

`create` undoes nothing itself when `register_peer` fails: the destructor of
the `impl` it has built deregisters the peer by address.

`MuxDispatch` is the mux's thread, which looks a callback up under `mutex_` and
calls it when the lock is released, among threads that register and deregister
peers.
-/

namespace Socketpp

structure UdpMux (Addr : Type) where
  peers : Addr → Option Nat
  /-- whether `catch_all_` is set -/
  catchAll : Bool

namespace UdpMux

variable {Addr : Type} [DecidableEq Addr]

def start : UdpMux Addr := ⟨fun _ => none, false⟩

def registerPeer (m : UdpMux Addr) (peer : Addr) (impl : Nat) : Except Errc (UdpMux Addr) :=
  match m.peers peer with
  | some _ => .error .alreadyBound
  | none => .ok { m with peers := Function.update m.peers peer (some impl) }

def deregisterPeer (m : UdpMux Addr) (peer : Addr) : UdpMux Addr :=
  { m with peers := Function.update m.peers peer none }

/-- `create` of a peer socket, with what `get_or_create` returned. When it returns an error the
`impl` is destroyed, and `~impl` deregisters the peer. -/
def create (mux : Option (UdpMux Addr)) (peer : Addr) (impl : Nat) :
    Option (UdpMux Addr) × Except Errc Unit :=
  match mux with
  | none => (none, .error .invalidState)
  | some m =>
    match m.registerPeer peer impl with
    | .error e => (some (m.deregisterPeer peer), .error e)
    | .ok m => (some m, .ok ())

theorem create_of_registered {m : UdpMux Addr} {peer : Addr} {old : Nat}
    (h : m.peers peer = some old) (impl : Nat) :
    create (some m) peer impl = (some (m.deregisterPeer peer), .error .alreadyBound) := by
  simp [create, registerPeer, h]

theorem create_of_free {m : UdpMux Addr} {peer : Addr} (h : m.peers peer = none) (impl : Nat) :
    create (some m) peer impl =
      (some { m with peers := Function.update m.peers peer (some impl) }, .ok ()) := by
  simp [create, registerPeer, h]

/-- **`create` and the peers that are there.** That an `already_bound` leaves the mux as it was
holds only where `create` does not return it: a registration that makes it fail is taken away. -/
theorem create_already_bound_iff (m : UdpMux Addr) (peer : Addr) (impl : Nat) :
    ((create (some m) peer impl).2 = .error .alreadyBound →
      (create (some m) peer impl).1 = some m) ↔ m.peers peer = none := by
  cases hp : m.peers peer with
  | none =>
    rw [create_of_free hp]
    exact ⟨fun _ => rfl, fun _ => nofun⟩
  | some old =>
    rw [create_of_registered hp]
    refine ⟨fun h => ?_, nofun⟩
    have hm : m.deregisterPeer peer = m := Option.some.inj (h rfl)
    have hnone : m.peers peer = none := by
      rw [← hm]
      exact Function.update_self ..
    exact hp.symm.trans hnone

/-- A second peer socket for peer 4 is refused, and the first has lost its registration. -/
theorem create_already_bound_deregisters :
    (create (some (⟨fun a => if a = 4 then some 0 else none, false⟩ : UdpMux Nat)) 4 1).2 =
        .error .alreadyBound ∧
      ((create (some (⟨fun a => if a = 4 then some 0 else none, false⟩ : UdpMux Nat)) 4 1).1.bind
        fun m => m.peers 4) = none :=
  ⟨rfl, rfl⟩

/-! ### Registrations -/

theorem of_update_peers {m : UdpMux Addr} {peer a : Addr} {i k : Nat}
    (ha : Function.update m.peers peer (some k) a = some i) :
    a = peer ∧ i = k ∨ m.peers a = some i := by
  by_cases e : a = peer
  · subst e
    rw [Function.update_self] at ha
    exact .inl ⟨rfl, (Option.some.inj ha).symm⟩
  · rw [Function.update_of_ne e] at ha
    exact .inr ha

theorem of_deregisterPeer {m : UdpMux Addr} {peer a : Addr} {i : Nat}
    (ha : (m.deregisterPeer peer).peers a = some i) : a ≠ peer ∧ m.peers a = some i := by
  unfold deregisterPeer at ha
  by_cases e : a = peer
  · subst e
    cases (Function.update_self ..).symm.trans ha
  · exact ⟨e, (Function.update_of_ne e ..).symm.trans ha⟩

/-- What is registered was made and is not gone, and is registered under one address only. -/
structure Registered (m : UdpMux Addr) (made : Nat) (gone : List Nat) : Prop where
  peers : ∀ a i, m.peers a = some i → i < made ∧ i ∉ gone
  inj : ∀ a b i, m.peers a = some i → m.peers b = some i → a = b
  gone : ∀ i ∈ gone, i < made

namespace Registered

variable {m : UdpMux Addr} {made : Nat} {gone : List Nat}

theorem register (h : m.Registered made gone) (peer : Addr) :
    Registered { m with peers := Function.update m.peers peer (some made) } (made + 1) gone := by
  have hnew : made ∉ gone := fun hg => Nat.lt_irrefl _ (h.gone _ hg)
  refine ⟨fun a i ha => ?_, fun a b i ha hb => ?_, fun i hg => Nat.lt_succ_of_lt (h.gone i hg)⟩
  · rcases of_update_peers ha with ⟨-, rfl⟩ | ha
    · exact ⟨Nat.lt_succ_self _, hnew⟩
    · exact ⟨Nat.lt_succ_of_lt (h.peers a i ha).1, (h.peers a i ha).2⟩
  · rcases of_update_peers ha with ⟨ea, ei⟩ | ha <;> rcases of_update_peers hb with ⟨eb, ej⟩ | hb
    · exact ea.trans eb.symm
    · exact absurd (ei ▸ (h.peers b i hb).1) (Nat.lt_irrefl _)
    · exact absurd (ej ▸ (h.peers a i ha).1) (Nat.lt_irrefl _)
    · exact h.inj a b i ha hb

/-- Those of `l` are gone with the registration under `peer`. -/
theorem deregister (h : m.Registered made gone) {peer : Addr} {l : List Nat}
    (hl : ∀ i ∈ l, i < made ∧ ∀ a, m.peers a = some i → a = peer) :
    (m.deregisterPeer peer).Registered made (l ++ gone) := by
  refine ⟨fun a i ha => ?_, fun a b i ha hb => h.inj a b i (of_deregisterPeer ha).2
    (of_deregisterPeer hb).2, fun i hg => ?_⟩
  · obtain ⟨hne, ha⟩ := of_deregisterPeer ha
    refine ⟨(h.peers a i ha).1, fun hg => ?_⟩
    rcases List.mem_append.1 hg with hg | hg
    · exact hne ((hl i hg).2 a ha)
    · exact (h.peers a i ha).2 hg
  · rcases List.mem_append.1 hg with hg | hg
    · exact (hl i hg).1
    · exact h.gone i hg

end Registered

end UdpMux

/-! ## The mux's thread -/

/-- What `dispatch` calls for a datagram. -/
inductive MuxHandler where
  | peer (impl : Nat)
  | catchAll
  deriving DecidableEq

inductive MuxThread where
  | idle
  /-- `dispatch` has copied the callback and released the lock -/
  | found (handler : MuxHandler)
  | calling (handler : MuxHandler)
  deriving DecidableEq

def MuxThread.inHand : MuxThread → Option MuxHandler
  | .idle => none
  | .found handler | .calling handler => some handler

structure MuxDispatch (Addr : Type) where
  mux : UdpMux Addr
  /-- the `impl`s made so far -/
  made : Nat
  thread : MuxThread
  /-- those whose registration `deregister_peer` has removed -/
  gone : List Nat

namespace MuxDispatch

variable {Addr : Type} [DecidableEq Addr]

def start : MuxDispatch Addr := ⟨.start, 0, .idle, []⟩

inductive Act (Addr : Type) where
  | register (peer : Addr)
  | deregister (peer : Addr)
  | setCatchAll (set : Bool)
  /-- `dispatch` of a datagram up to the end of the lock -/
  | lookup (src : Addr)
  | call
  | callReturn

/-- The callback `dispatch` copies. -/
def handler (m : UdpMux Addr) (src : Addr) : Option MuxHandler :=
  match m.peers src with
  | some impl => some (.peer impl)
  | none => if m.catchAll then some .catchAll else none

def step (s : MuxDispatch Addr) : Act Addr → Option (MuxDispatch Addr)
  | .register peer =>
    match s.mux.registerPeer peer s.made with
    | .ok m => some { s with mux := m, made := s.made + 1 }
    | .error _ => some s
  | .deregister peer =>
    some { s with mux := s.mux.deregisterPeer peer
                  gone := (s.mux.peers peer).toList ++ s.gone }
  | .setCatchAll set => some { s with mux := { s.mux with catchAll := set } }
  | .lookup src =>
    match s.thread, handler s.mux src with
    | .idle, some h => some { s with thread := .found h }
    | .idle, none => some s
    | _, _ => none
  | .call =>
    match s.thread with
    | .found h => some { s with thread := .calling h }
    | _ => none
  | .callReturn =>
    match s.thread with
    | .calling _ => some { s with thread := .idle }
    | _ => none

def machine (Addr : Type) [DecidableEq Addr] : Machine (MuxDispatch Addr) (Act Addr) where
  Init s := s = start
  step := step

variable {s s' : MuxDispatch Addr} {a : Act Addr}

/-- No peer is deregistered while the mux's thread has its callback in hand. -/
def NotInHand (s : MuxDispatch Addr) : Act Addr → Prop
  | .deregister peer =>
    (s.mux.peers peer).all (fun impl => s.thread.inHand ≠ some (.peer impl)) = true
  | _ => True

instance (s : MuxDispatch Addr) :
    (a : Act Addr) → Decidable (s.NotInHand a)
  | .deregister _ => inferInstanceAs (Decidable (_ = true))
  | .register _ | .setCatchAll _ | .lookup _ | .call | .callReturn => isTrue trivial

structure Inv (s : MuxDispatch Addr) : Prop where
  reg : s.mux.Registered s.made s.gone
  /-- only `deregister_peer` removes a registration -/
  kept : ∀ impl < s.made, impl ∈ s.gone ∨ ∃ a, s.mux.peers a = some impl
  inHand : ∀ impl, s.thread.inHand = some (.peer impl) → impl < s.made ∧ impl ∉ s.gone

omit [DecidableEq Addr] in
theorem start_inv : (start : MuxDispatch Addr).Inv := ⟨⟨nofun, nofun, nofun⟩, nofun, nofun⟩

namespace Inv

theorem register (h : s.Inv) {peer : Addr} (hp : s.mux.peers peer = none) :
    Inv { s with
      mux := { s.mux with peers := Function.update s.mux.peers peer (some s.made) }
      made := s.made + 1 } := by
  refine ⟨h.reg.register peer, fun impl hlt => ?_,
    fun impl hi => ⟨Nat.lt_succ_of_lt (h.inHand impl hi).1, (h.inHand impl hi).2⟩⟩
  rcases Nat.lt_succ_iff_lt_or_eq.1 hlt with hlt | rfl
  · refine (h.kept impl hlt).imp_right fun ⟨a, ha⟩ => ⟨a, ?_⟩
    have hne : a ≠ peer := by
      rintro rfl
      cases hp.symm.trans ha
    exact (Function.update_of_ne hne ..).trans ha
  · exact .inr ⟨peer, Function.update_self ..⟩

theorem deregister (h : s.Inv) {peer : Addr} (hok : s.NotInHand (.deregister peer)) :
    Inv { s with mux := s.mux.deregisterPeer peer
                 gone := (s.mux.peers peer).toList ++ s.gone } := by
  refine ⟨h.reg.deregister fun impl hg => ?_, fun impl hlt => ?_, fun impl hi => ?_⟩
  · have hp : s.mux.peers peer = some impl := Option.mem_toList.1 hg
    exact ⟨(h.reg.peers peer impl hp).1, fun a ha => h.reg.inj a peer impl ha hp⟩
  · rcases h.kept impl hlt with hg | ⟨a, ha⟩
    · exact .inl (List.mem_append_right _ hg)
    · by_cases e : a = peer
      · exact .inl (List.mem_append_left _ (Option.mem_toList.2 (e ▸ ha)))
      · exact .inr ⟨a, (Function.update_of_ne e ..).trans ha⟩
  · refine ⟨(h.inHand impl hi).1, fun hg => ?_⟩
    rcases List.mem_append.1 hg with hg | hg
    · have hp : s.mux.peers peer = some impl := Option.mem_toList.1 hg
      simp only [NotInHand, hp, Option.all_some] at hok
      exact of_decide_eq_true hok hi
    · exact (h.inHand impl hi).2 hg

end Inv

omit [DecidableEq Addr] in
/-- What `dispatch` copies is registered. -/
theorem peers_of_handler {m : UdpMux Addr} {src : Addr} {impl : Nat}
    (h : handler m src = some (.peer impl)) : m.peers src = some impl := by
  unfold handler at h
  cases hp : m.peers src with
  | some old =>
    rw [hp] at h
    cases h
    rfl
  | none =>
    rw [hp] at h
    simp only at h
    split at h <;> cases h

theorem step_inv (h : s.Inv) (hok : s.NotInHand a) (he : step s a = some s') : s'.Inv := by
  cases a with
  | register peer =>
    simp only [step, UdpMux.registerPeer] at he
    cases hp : s.mux.peers peer with
    | some old =>
      rw [hp] at he
      cases he
      exact h
    | none =>
      rw [hp] at he
      cases he
      exact h.register hp
  | deregister peer =>
    cases he
    exact h.deregister hok
  | setCatchAll set =>
    cases he
    exact ⟨⟨h.reg.peers, h.reg.inj, h.reg.gone⟩, h.kept, h.inHand⟩
  | lookup src =>
    simp only [step] at he
    split at he
    · rename_i hd hh
      cases he
      refine ⟨h.reg, h.kept, fun impl hi => ?_⟩
      cases hi
      exact h.reg.peers src impl (peers_of_handler hh)
    · cases he
      exact h
    · cases he
  | call =>
    simp only [step] at he
    split at he
    · rename_i hd ht
      cases he
      exact ⟨h.reg, h.kept, fun impl hi => h.inHand impl (ht ▸ hi)⟩
    · cases he
  | callReturn =>
    simp only [step] at he
    split at he
    · cases he
      exact ⟨h.reg, h.kept, nofun⟩
    · cases he

theorem reach_inv (h : (machine Addr).ReachOk NotInHand s) : s.Inv :=
  h.inv (I := Inv) (fun s (hs : s = start) => hs ▸ start_inv)
    fun _ _ _ _ hi hok he => step_inv hi hok he

/-- **Deregistration is final** in every run in which no peer is deregistered while the mux's
thread has its callback in hand: a callback that is being called is registered. -/
theorem deregistration_final (h : (machine Addr).ReachOk NotInHand s) :
    ∀ impl ∈ s.gone, s.thread ≠ .calling (.peer impl) := by
  intro impl hg ht
  exact ((reach_inv h).inHand impl (by rw [ht]; rfl)).2 hg

/-- A peer is deregistered after its callback has returned. -/
theorem deregistration_final_after_call : ∃ s : MuxDispatch Nat,
    (machine Nat).ReachOk NotInHand s ∧ s.gone = [0] ∧ s.thread = .calling (.peer 1) ∧
      ∀ impl ∈ s.gone, s.thread ≠ .calling (.peer impl) := by
  obtain ⟨s, hr, hp⟩ := Machine.ReachOk.of_runOk_init (M := machine Nat) NotInHand
    (fun s => decide (s.gone = [0] ∧ s.thread = .calling (.peer 1)))
    [.register 4, .lookup 4, .call, .callReturn, .deregister 4, .register 4, .lookup 4, .call] rfl
    (by decide)
  obtain ⟨h1, h2⟩ := of_decide_eq_true hp
  exact ⟨s, hr, h1, h2, deregistration_final hr⟩

/-- The peer is deregistered between the lookup and the call, which then uses an `impl` that may
be gone. -/
theorem call_after_deregistration : ∃ s : MuxDispatch Nat, (machine Nat).Reach s ∧
    0 ∈ s.gone ∧ s.thread = .calling (.peer 0) := by
  obtain ⟨s, hr, hp⟩ := Machine.Reach.of_run_init (M := machine Nat)
    (fun s => decide (0 ∈ s.gone ∧ s.thread = .calling (.peer 0)))
    [.register 4, .lookup 4, .deregister 4, .call] rfl (by decide)
  exact ⟨s, hr, of_decide_eq_true hp⟩

end MuxDispatch

end Socketpp
