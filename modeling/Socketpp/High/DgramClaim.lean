import Socketpp.High.DgramLifetime

/-!
# Exclusive claims

An address is held by at most one open peer: the entry of `claimed_peers` names
it, `execute_claim` refuses an address that has an entry, and the receive path
erases an entry only when it has read `open_ = false`, which no later step
undoes (`step_isOpen`). A claim that fails has touched nothing: before the
entry is made `execute_claim` writes only to the peer being claimed, and not
even there if it returns an error (`step_refused`).
-/

namespace Socketpp

/-- Two open peers of one address are one entry of the map. -/
theorem PeerTable.Inv.holds_unique {A : Type} [DecidableEq A] {t : PeerTable A} (h : t.Inv) {a : A}
    {p q : Nat} (hp : t.Holds a p) (hq : t.Holds a q) : p = q := by
  obtain ⟨hpc, hpa, hpo⟩ := hp
  obtain ⟨hqc, hqa, hqo⟩ := hq
  have hentry := h.opened p hpc hpo
  rw [hpa, ← hqa, h.opened q hqc hqo] at hentry
  exact (Option.some.inj hentry).symm

namespace DgramPeers

variable {A : Type} {n : Nat} [DecidableEq A] {demux : Bool} {s s' : DgramPeers A n} {a : Act A n}
  {p : Nat}

/-- **`open_` stays false.** -/
theorem step_isOpen (he : step demux s a = some s') (hp : p < s.table.made)
    (ho : (s.table.peers p).isOpen = false) : (s'.table.peers p).isOpen = false := by
  cases step_view he with
  | claim a | claimInline a =>
    exact (congrArg _ (PeerTable.create_of_ne s.table hp.ne a)).trans ho
  | setCallbacks q d e _ =>
    let f : Peer A → Peer A := fun x => { x with onData := d, onError := e }
    exact (PeerTable.modify_field Peer.isOpen f (fun _ => rfl) s.table q p).trans ho
  | relinquish q _ _ => exact PeerTable.exchangeOpen_isOpen ho q
  | closeSocket q _ =>
    exact (PeerTable.closeSocket_field Peer.isOpen (fun _ => rfl) s.table q p).trans ho
  | grant q sock tfd ctl t _ _ hc =>
    obtain ⟨-, fd, rfl, -⟩ := PeerTable.executeClaim_ok hc
    exact (PeerTable.enter_isOpen s.table q p fd).trans ho
  | _ => exact ho

/-- **A failed `execute_claim`** leaves the map, every peer and the dispatcher alone. -/
theorem step_refused {sock : Except ClaimError Fd} {tfd : Option Fd} {ctl : Bool} {e : ClaimError}
    (hl : s.loop = .task (.claim p)) (hc : s.table.executeClaim demux p sock = .error e)
    (he : step demux s (.run sock tfd ctl) = some s') :
    s'.table = s.table ∧ s'.handles p = .refused := by
  simp only [step, hl, runTask] at he
  split at he
  · rw [hc] at he
    cases he
    exact ⟨rfl, Function.update_self ..⟩
  · cases he

variable [Inhabited A]

/-- **Claim exclusivity and atomicity.** In every reachable state, whatever was
claimed, relinquished, destroyed and received before: at most one open peer
that was claimed holds an address; no step sets `open_` of a peer again; a
claim that begins makes a peer and changes no other and no entry; one that
fails, with `address_in_use` or with the error of the peer socket, changes no
entry and no peer; and its peer is in no entry later on. -/
theorem claim_exclusive (h : (machine A demux n).Reach s) :
    (∀ a p q, s.table.Holds a p → s.table.Holds a q → p = q) ∧
    (∀ act s' p, step demux s act = some s' → p < s.table.made →
      (s.table.peers p).isOpen = false → (s'.table.peers p).isOpen = false) ∧
    (∀ a s', step demux s (.claim a) = some s' ∨ step demux s (.claimInline a) = some s' →
      s'.table.claimedPeers = s.table.claimedPeers ∧
        ∀ q, q ≠ s.table.made → s'.table.peers q = s.table.peers q) ∧
    (∀ p sock tfd ctl e s', s.loop = .task (.claim p) →
      s.table.executeClaim demux p sock = .error e →
      step demux s (.run sock tfd ctl) = some s' →
      s'.table.claimedPeers = s.table.claimedPeers ∧ s'.table.peers = s.table.peers ∧
        s'.handles p = .refused) ∧
    (∀ p a, s.handles p = .refused → s.table.claimedPeers.lookup a ≠ some p) := by
  have hinv := reach_peersInv h
  refine ⟨fun a p q => hinv.table.holds_unique, fun act s' p => step_isOpen, ?_, ?_, ?_⟩
  · rintro a s' (he | he)
    · cases step_view he with
      | claim => exact ⟨rfl, fun q hq => PeerTable.create_of_ne s.table hq a⟩
    · cases step_view he with
      | claimInline => exact ⟨rfl, fun q hq => PeerTable.create_of_ne s.table hq a⟩
  · intro p sock tfd ctl e s' hl hc he
    obtain ⟨ht, hr⟩ := step_refused hl hc he
    exact ⟨congrArg _ ht, congrArg _ ht, hr⟩
  · intro p a hr ha
    have hclaimed := (hinv.table.entry a p ha).1
    rw [(reach_handleInv h).granted p, hr] at hclaimed
    cases hclaimed

/-- Address 7 is claimed twice: the second claim fails, and the entry and the
open peer are those of the first. -/
theorem claim_exclusive_twice : ∃ s : DgramPeers Nat 1, (machine Nat true 1).Reach s ∧
    (s.handles 1 = .refused ∧ s.table.Holds 7 0 ∧ s.table.claimedPeers.lookup 7 = some 0) ∧
    (∀ q, s.table.Holds 7 q → q = 0) ∧ ∀ a, s.table.claimedPeers.lookup a ≠ some 1 := by
  obtain ⟨s, h, hp⟩ := Machine.Reach.of_run_init (M := machine Nat true 1)
    (fun s => decide (s.handles 1 = .refused ∧ s.table.Holds 7 0 ∧
      s.table.claimedPeers.lookup 7 = some 0))
    [.claim 7, .swap, .next, .run (.ok 5) none false, .arm 0, .claim 7, .enterPoll, .swap, .next,
      .run (.ok 0) none true, .next, .run (.ok 6) none true] rfl (by decide)
  have hq := of_decide_eq_true hp
  have hx := claim_exclusive h
  exact ⟨s, h, hq, fun q hh => hx.1 7 q 0 hh hq.2.1, fun a => hx.2.2.2.2 1 a hq.1⟩

end DgramPeers

end Socketpp
