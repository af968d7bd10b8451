import Socketpp.High.DgramTable
import Socketpp.Lib.Machine

/-!
# The peers of a datagram socket alone

`PeerClaims` has the table of a datagram socket's peers and the claims under way,
and every change that the functions of `src/high/dgram.cpp` and
`dgram_peer_impl.hpp` make to them, on whichever thread and in whatever order.
Where the handles, the loop thread and the pool are is left out, and so is what
the dispatcher does.

`DgramPeers`, the peers in use, and `DgramDestroy`, their teardown, are both this
machine with more around it (`DgramPeers.reach_claims`, `DgramDestroy.reach_claims`),
and have from it that the table is in order: `reach_inv`.
-/

namespace Socketpp

structure PeerClaims (A : Type) where
  table : PeerTable A
  /-- the peers that are made and whose `execute_claim` is still to run -/
  pending : Multiset Nat

namespace PeerClaims

variable {A : Type}

def start [Inhabited A] : PeerClaims A := ⟨.start, 0⟩

inductive Act (A : Type) where
  /-- `claim` makes the peer -/
  | create (a : A)
  /-- `execute_claim` succeeds, with the answer of `PeerSocket::create` -/
  | grant (p : Nat) (sock : Except ClaimError Fd)
  | refuse (p : Nat)
  | setCallbacks (p : Nat) (onData onError : Bool)
  /-- the two halves of `do_relinquish` -/
  | exchangeOpen (p : Nat)
  | closeSocket (p : Nat)
  /-- a socket is registered, or a timer is scheduled, expires or is cancelled -/
  | dispatcher (d : Epoll Nat Nat)
  /-- the lazy cleanup of `handle_readable` -/
  | eraseEntry (a : A)
  /-- the task of `do_destroy` -/
  | relinquishAll

variable [DecidableEq A]

/-- A peer that is being claimed has no handle yet, and is not relinquished. -/
def step (demux : Bool) (s : PeerClaims A) : Act A → Option (PeerClaims A)
  | .create a => some ⟨s.table.create a, s.table.made ::ₘ s.pending⟩
  | .grant p sock =>
    if p ∈ s.pending ∧ s.table.SockFree sock then
      match s.table.executeClaim demux p sock with
      | .ok t => some ⟨t, s.pending.erase p⟩
      | .error _ => none
    else none
  | .refuse p => if p ∈ s.pending then some { s with pending := s.pending.erase p } else none
  | .setCallbacks p onData onError =>
    some { s with table := s.table.modify p fun x =>
                    { x with onData := onData, onError := onError } }
  | .exchangeOpen p =>
    if p ∈ s.pending then none else some { s with table := s.table.exchangeOpen p }
  | .closeSocket p => some { s with table := s.table.closeSocket p }
  | .dispatcher d => some { s with table := { s.table with disp := d } }
  | .eraseEntry a =>
    if (s.table.claimedPeers.lookup a).any fun p => (s.table.peers p).isOpen then none
    else some { s with table := s.table.eraseEntry a }
  | .relinquishAll => some { s with table := s.table.relinquishAll demux }

def machine (A : Type) [DecidableEq A] [Inhabited A] (demux : Bool) :
    Machine (PeerClaims A) (Act A) where
  Init s := s = start
  step := step demux

variable {demux : Bool} {s s' : PeerClaims A} {a : Act A}

/-- **Every step**: what it finds and what it leaves. -/
inductive StepView (demux : Bool) (s : PeerClaims A) : Act A → PeerClaims A → Prop where
  | create (a : A) :
      StepView demux s (.create a) ⟨s.table.create a, s.table.made ::ₘ s.pending⟩
  | grant (p : Nat) (sock : Except ClaimError Fd) (t : PeerTable A) (hp : p ∈ s.pending)
      (hc : s.table.executeClaim demux p sock = .ok t) :
      StepView demux s (.grant p sock) ⟨t, s.pending.erase p⟩
  | refuse (p : Nat) (hp : p ∈ s.pending) :
      StepView demux s (.refuse p) { s with pending := s.pending.erase p }
  | setCallbacks (p : Nat) (d e : Bool) : StepView demux s (.setCallbacks p d e)
      { s with table := s.table.modify p fun x => { x with onData := d, onError := e } }
  | exchangeOpen (p : Nat) (hp : p ∉ s.pending) :
      StepView demux s (.exchangeOpen p) { s with table := s.table.exchangeOpen p }
  | closeSocket (p : Nat) :
      StepView demux s (.closeSocket p) { s with table := s.table.closeSocket p }
  | dispatcher (d : Epoll Nat Nat) :
      StepView demux s (.dispatcher d) { s with table := { s.table with disp := d } }
  | eraseEntry (a : A)
      (hc : ∀ p, s.table.claimedPeers.lookup a = some p → (s.table.peers p).isOpen = false) :
      StepView demux s (.eraseEntry a) { s with table := s.table.eraseEntry a }
  | relinquishAll :
      StepView demux s .relinquishAll { s with table := s.table.relinquishAll demux }

theorem step_view (he : step demux s a = some s') : StepView demux s a s' := by
  cases a with
  | create a => cases he; exact .create a
  | grant p sock =>
    obtain ⟨⟨hp, -⟩, he⟩ := Option.ite_none_right_eq_some.1 he
    split at he
    · rename_i t hc
      cases he
      exact .grant p sock t hp hc
    · cases he
  | refuse p =>
    obtain ⟨hp, he⟩ := Option.ite_none_right_eq_some.1 he
    cases he
    exact .refuse p hp
  | setCallbacks p d e => cases he; exact .setCallbacks p d e
  | exchangeOpen p =>
    obtain ⟨hp, he⟩ := Option.ite_none_left_eq_some.1 he
    cases he
    exact .exchangeOpen p hp
  | closeSocket p => cases he; exact .closeSocket p
  | dispatcher d => cases he; exact .dispatcher d
  | eraseEntry a =>
    obtain ⟨hc, he⟩ := Option.ite_none_left_eq_some.1 he
    cases he
    refine .eraseEntry a fun p hp => ?_
    rw [hp] at hc
    exact Bool.eq_false_of_not_eq_true hc
  | relinquishAll => cases he; exact .relinquishAll

theorem step_grant {p : Nat} {sock : Except ClaimError Fd} {t : PeerTable A} (hp : p ∈ s.pending)
    (hf : s.table.SockFree sock) (hc : s.table.executeClaim demux p sock = .ok t) :
    step demux s (.grant p sock) = some ⟨t, s.pending.erase p⟩ := by
  rw [step, if_pos ⟨hp, hf⟩, hc]

theorem step_eraseEntry {x : A} {p : Nat} (hp : s.table.claimedPeers.lookup x = some p)
    (ho : (s.table.peers p).isOpen = false) :
    step demux s (.eraseEntry x) = some { s with table := s.table.eraseEntry x } := by
  rw [step, hp, Option.any_some, ho]
  rfl

/-! ## The table is in order -/

/-- The claims under way are of different peers, made, open and not claimed yet. -/
structure Inv (s : PeerClaims A) : Prop where
  table : s.table.Inv
  nodup : s.pending.Nodup
  pending : ∀ p ∈ s.pending, p < s.table.made ∧ (s.table.peers p).claimed = false ∧
    (s.table.peers p).isOpen = true

theorem start_inv [Inhabited A] : (start : PeerClaims A).Inv :=
  ⟨PeerTable.start_inv, Multiset.nodup_zero, fun _ hp => absurd hp (Multiset.notMem_zero _)⟩

namespace Inv

/-- The claims under way stay, and with them what is said of their peers. -/
theorem frame (h : s.Inv) {t : PeerTable A} (ht : t.Inv) (hm : t.made = s.table.made)
    (hp : ∀ p ∈ s.pending, (t.peers p).claimed = (s.table.peers p).claimed ∧
      (t.peers p).isOpen = (s.table.peers p).isOpen) : Inv { s with table := t } := by
  refine ⟨ht, h.nodup, fun p hm' => ?_⟩
  obtain ⟨hlt, hc, ho⟩ := h.pending p hm'
  exact ⟨hm ▸ hlt, (hp p hm').1.trans hc, (hp p hm').2.trans ho⟩

theorem create (h : s.Inv) (a : A) :
    Inv ⟨s.table.create a, s.table.made ::ₘ s.pending⟩ := by
  refine ⟨h.table.create a, Multiset.nodup_cons.2 ⟨fun hm => (h.pending _ hm).1.false, h.nodup⟩,
    fun p hp => ?_⟩
  rcases Multiset.mem_cons.1 hp with rfl | hp
  · rw [PeerTable.create_self]
    exact ⟨Nat.lt_succ_self _, rfl, rfl⟩
  · obtain ⟨hlt, hq⟩ := h.pending p hp
    rw [PeerTable.create_of_ne _ hlt.ne]
    exact ⟨Nat.lt_succ_of_lt hlt, hq⟩

theorem grant (h : s.Inv) {p : Nat} {sock : Except ClaimError Fd} {t : PeerTable A}
    (hp : p ∈ s.pending) (hc : s.table.executeClaim demux p sock = .ok t) :
    Inv ⟨t, s.pending.erase p⟩ := by
  have ht := h.table.executeClaim (h.pending p hp).1 hc
  obtain ⟨-, fd, rfl, -⟩ := PeerTable.executeClaim_ok hc
  refine ⟨ht, h.nodup.erase p, fun q hq => ?_⟩
  obtain ⟨hne, hq⟩ := h.nodup.mem_erase_iff.1 hq
  rw [PeerTable.enter_of_ne _ hne]
  exact h.pending q hq

theorem refuse (h : s.Inv) (p : Nat) : Inv { s with pending := s.pending.erase p } :=
  ⟨h.table, h.nodup.erase p, fun q hq => h.pending q (Multiset.mem_of_mem_erase hq)⟩

end Inv

theorem step_inv (h : s.Inv) (he : step demux s a = some s') : s'.Inv := by
  cases step_view he with
  | create a => exact h.create a
  | grant p sock t hp hc => exact h.grant hp hc
  | refuse p => exact h.refuse p
  | setCallbacks p d e =>
    let f : Peer A → Peer A := fun x => { x with onData := d, onError := e }
    exact h.frame (h.table.modify p f ⟨rfl, rfl, id⟩) rfl fun q _ =>
      ⟨PeerTable.modify_field Peer.claimed f (fun _ => rfl) s.table p q,
        PeerTable.modify_field Peer.isOpen f (fun _ => rfl) s.table p q⟩
  | exchangeOpen p hp =>
    refine h.frame (h.table.exchangeOpen p) rfl fun q hq => ?_
    have hne : q ≠ p := by rintro rfl; exact hp hq
    rw [PeerTable.exchangeOpen, PeerTable.modify_of_ne _ hne]
    exact ⟨rfl, rfl⟩
  | closeSocket p =>
    exact h.frame (h.table.closeSocket p) (PeerTable.closeSocket_made ..) fun q _ =>
      ⟨PeerTable.closeSocket_field Peer.claimed (fun _ => rfl) s.table p q,
        PeerTable.closeSocket_field Peer.isOpen (fun _ => rfl) s.table p q⟩
  | dispatcher d => exact h.frame (h.table.disp d) rfl fun _ _ => ⟨rfl, rfl⟩
  | eraseEntry a hc => exact h.frame (h.table.eraseEntry hc) rfl fun _ _ => ⟨rfl, rfl⟩
  | relinquishAll =>
    refine h.frame (h.table.relinquishAll demux)
      (PeerTable.foldl_doRelinquish_made demux _ s.table) fun q hq => ?_
    rw [h.table.relinquishAll_of_unclaimed demux (h.pending q hq).2.1]
    exact ⟨rfl, rfl⟩

theorem reach_inv [Inhabited A] (h : (machine A demux).Reach s) : s.Inv :=
  h.inv (I := Inv) (fun s (hs : s = start) => hs ▸ start_inv)
    fun _ _ _ _ hi _ he => step_inv hi he

end PeerClaims

end Socketpp
