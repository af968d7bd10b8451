import Socketpp.Event.Epoll

/-!
# The claimed peers of a datagram socket

`claimed_peers` of `dgram_impl` (`src/high/dgram.cpp`), the peers it points to
(`dgram_peer_impl`, `src/high/dgram_peer_impl.hpp`) and the dispatcher their
sockets are registered with. With `demux` (`has_kernel_udp_demux`) each peer has
a connected socket of its own; without, the parent forwards its datagrams.

Peers are numbered in the order `claim` makes them. `claimed` records that a
peer's claim succeeded; it is false for the numbers not given out yet. `Inv`:
the map points to claimed peers, and an open one is in the map. The converse
fails: `relinquish` clears `open_` and leaves the entry where it is.
-/

namespace Socketpp

/-- The errors of `claim`. -/
inductive ClaimError where
  | addressInUse
  /-- what the operating system answered -/
  | system (code : Int)
  deriving DecidableEq, Repr

/-- `dgram_peer_impl`. -/
structure Peer (A : Type) where
  addr : A
  isOpen : Bool
  /-- the descriptor of `peer_socket_` -/
  sock : Option Fd
  /-- `on_data_cb` is not empty -/
  onData : Bool
  /-- `on_error_cb` is not empty -/
  onError : Bool
  claimed : Bool
  deriving DecidableEq, Repr

/-- A peer just constructed. -/
def Peer.start {A : Type} (a : A) : Peer A := ⟨a, true, none, false, false, false⟩

structure PeerTable (A : Type) where
  made : Nat
  peers : Nat → Peer A
  claimedPeers : AList fun _ : A => Nat
  /-- the callback of a socket calls `handle_readable` of a peer, that of a timer submits
  to the serial queue of one -/
  disp : Epoll Nat Nat

namespace PeerTable

variable {A : Type}

def start [Inhabited A] : PeerTable A := ⟨0, fun _ => .start default, ∅, .start⟩

/-- `claim` makes an `impl`. -/
def create (t : PeerTable A) (a : A) : PeerTable A :=
  { t with made := t.made + 1, peers := Function.update t.peers t.made (.start a) }

theorem create_self (t : PeerTable A) (a : A) : (t.create a).peers t.made = .start a :=
  Function.update_self ..

theorem create_of_ne (t : PeerTable A) {q : Nat} (h : q ≠ t.made) (a : A) :
    (t.create a).peers q = t.peers q := Function.update_of_ne h ..

def modify (t : PeerTable A) (p : Nat) (f : Peer A → Peer A) : PeerTable A :=
  { t with peers := Function.update t.peers p (f (t.peers p)) }

theorem modify_self (t : PeerTable A) (p : Nat) (f : Peer A → Peer A) :
    (t.modify p f).peers p = f (t.peers p) := Function.update_self ..

theorem modify_of_ne (t : PeerTable A) {p q : Nat} (h : q ≠ p) (f : Peer A → Peer A) :
    (t.modify p f).peers q = t.peers q := Function.update_of_ne h ..

/-- A field that `f` keeps. -/
theorem modify_field {B : Type} (g : Peer A → B) (f : Peer A → Peer A) (hf : ∀ x, g (f x) = g x)
    (t : PeerTable A) (p q : Nat) : g ((t.modify p f).peers q) = g (t.peers q) := by
  by_cases h : q = p
  · subst h
    rw [modify_self, hf]
  · rw [modify_of_ne t h]

/-- The first line of `do_relinquish`: `open_.exchange(false)`. -/
def exchangeOpen (t : PeerTable A) (p : Nat) : PeerTable A :=
  t.modify p fun x => { x with isOpen := false }

theorem exchangeOpen_claimed (t : PeerTable A) (p q : Nat) :
    ((t.exchangeOpen p).peers q).claimed = (t.peers q).claimed :=
  modify_field Peer.claimed (fun x => { x with isOpen := false }) (fun _ => rfl) t p q

theorem exchangeOpen_isOpen {t : PeerTable A} {q : Nat} (h : (t.peers q).isOpen = false) (p : Nat) :
    ((t.exchangeOpen p).peers q).isOpen = false := by
  by_cases e : q = p
  · subst e
    rw [exchangeOpen, modify_self]
  · rwa [exchangeOpen, modify_of_ne t e]

/-- The rest of it: the socket, if there is one, is removed from the dispatcher and closed. -/
def closeSocket (t : PeerTable A) (p : Nat) : PeerTable A :=
  match (t.peers p).sock with
  | none => t
  | some fd =>
    { t.modify p fun x => { x with sock := none } with disp := (t.disp.remove fd).closed fd }

/-- A field of the peers other than the socket. -/
theorem closeSocket_field {B : Type} (g : Peer A → B) (hg : ∀ x, g { x with sock := none } = g x)
    (t : PeerTable A) (p q : Nat) : g ((t.closeSocket p).peers q) = g (t.peers q) := by
  unfold closeSocket
  split
  · rfl
  · exact modify_field g _ hg t p q

theorem closeSocket_of_ne (t : PeerTable A) {p q : Nat} (h : q ≠ p) :
    (t.closeSocket p).peers q = t.peers q := by
  unfold closeSocket
  split
  · rfl
  · exact Function.update_of_ne h ..

@[simp] theorem closeSocket_made (t : PeerTable A) (p : Nat) : (t.closeSocket p).made = t.made := by
  unfold closeSocket
  split <;> rfl

/-- `do_relinquish`. -/
def doRelinquish (demux : Bool) (t : PeerTable A) (p : Nat) : PeerTable A :=
  if (t.peers p).isOpen then
    if demux then (t.exchangeOpen p).closeSocket p else t.exchangeOpen p
  else t

@[simp] theorem doRelinquish_made (demux : Bool) (t : PeerTable A) (p : Nat) :
    (t.doRelinquish demux p).made = t.made := by
  unfold doRelinquish
  split
  · split
    · exact closeSocket_made ..
    · rfl
  · rfl

theorem doRelinquish_of_ne (demux : Bool) (t : PeerTable A) {p q : Nat} (h : q ≠ p) :
    (t.doRelinquish demux p).peers q = t.peers q := by
  unfold doRelinquish
  split
  · split
    · exact (closeSocket_of_ne _ h).trans (modify_of_ne t h _)
    · exact modify_of_ne t h _
  · rfl

theorem doRelinquish_claimed (demux : Bool) (t : PeerTable A) (p q : Nat) :
    ((t.doRelinquish demux p).peers q).claimed = (t.peers q).claimed := by
  unfold doRelinquish
  split
  · split
    · rw [closeSocket_field Peer.claimed (fun _ => rfl), exchangeOpen_claimed]
    · exact exchangeOpen_claimed t p q
  · rfl

/-- Afterwards `p` is closed, and so is who was. -/
theorem doRelinquish_isOpen (demux : Bool) (t : PeerTable A) (p q : Nat)
    (h : q = p ∨ (t.peers q).isOpen = false) :
    ((t.doRelinquish demux p).peers q).isOpen = false := by
  have hx : ((t.exchangeOpen p).peers q).isOpen = false := by
    rcases h with rfl | h
    · rw [PeerTable.exchangeOpen, modify_self]
    · exact exchangeOpen_isOpen h p
  unfold doRelinquish
  split
  · split
    · rw [closeSocket_field Peer.isOpen (fun _ => rfl)]
      exact hx
    · exact hx
  · rename_i ho
    rcases h with rfl | h
    · exact Bool.eq_false_of_not_eq_true ho
    · exact h

section Fold

variable (demux : Bool)

theorem foldl_doRelinquish_made (l : List Nat) (t : PeerTable A) :
    (l.foldl (doRelinquish demux) t).made = t.made := by
  induction l generalizing t with
  | nil => rfl
  | cons q l ih => exact (ih _).trans (doRelinquish_made ..)

theorem foldl_doRelinquish_claimed (l : List Nat) (t : PeerTable A) (p : Nat) :
    ((l.foldl (doRelinquish demux) t).peers p).claimed = (t.peers p).claimed := by
  induction l generalizing t with
  | nil => rfl
  | cons q l ih => exact (ih _).trans (doRelinquish_claimed ..)

theorem foldl_doRelinquish_of_not_mem {l : List Nat} {p : Nat} (h : p ∉ l) (t : PeerTable A) :
    (l.foldl (doRelinquish demux) t).peers p = t.peers p := by
  induction l generalizing t with
  | nil => rfl
  | cons q l ih =>
    have hne : p ≠ q := fun e => h (e ▸ List.mem_cons_self)
    exact (ih (fun hm => h (List.mem_cons_of_mem _ hm)) _).trans (doRelinquish_of_ne demux t hne)

theorem foldl_doRelinquish_isOpen {l : List Nat} {t : PeerTable A} {p : Nat}
    (h : p ∈ l ∨ (t.peers p).isOpen = false) :
    ((l.foldl (doRelinquish demux) t).peers p).isOpen = false := by
  induction l generalizing t with
  | nil => exact h.resolve_left List.not_mem_nil
  | cons q l ih =>
    refine ih ?_
    by_cases hpl : p ∈ l
    · exact .inl hpl
    · refine .inr (doRelinquish_isOpen demux t q p (h.imp_left fun hm => ?_))
      exact (List.mem_cons.1 hm).resolve_right hpl

end Fold

/-- No open descriptor of a peer has the number, and it is not registered. -/
def FdFree (t : PeerTable A) (fd : Fd) : Prop :=
  (∀ p < t.made, (t.peers p).sock ≠ some fd) ∧ t.disp.interest.lookup fd = none

instance (t : PeerTable A) (fd : Fd) : Decidable (t.FdFree fd) :=
  inferInstanceAs (Decidable (_ ∧ _))

/-- The operating system gives a new socket a free number. -/
def SockFree (t : PeerTable A) : Except ClaimError Fd → Prop
  | .error _ => True
  | .ok fd => t.FdFree fd

instance (t : PeerTable A) :
    (sock : Except ClaimError Fd) → Decidable (t.SockFree sock)
  | .error _ => isTrue trivial
  | .ok fd => inferInstanceAs (Decidable (t.FdFree fd))

variable [DecidableEq A]

/-- `claimed_peers[peer_addr] = pi`, where `pi` has the socket `sock`. -/
def enter (t : PeerTable A) (p : Nat) (sock : Option Fd) : PeerTable A :=
  { t.modify p fun x => { x with sock := sock, claimed := true } with
    claimedPeers := t.claimedPeers.insert (t.peers p).addr p }

theorem enter_self (t : PeerTable A) (p : Nat) (sock : Option Fd) :
    (t.enter p sock).peers p = { t.peers p with sock := sock, claimed := true } :=
  Function.update_self ..

theorem enter_of_ne (t : PeerTable A) {p q : Nat} (h : q ≠ p) (sock : Option Fd) :
    (t.enter p sock).peers q = t.peers q := Function.update_of_ne h ..

theorem enter_isOpen (t : PeerTable A) (p q : Nat) (sock : Option Fd) :
    ((t.enter p sock).peers q).isOpen = (t.peers q).isOpen :=
  modify_field Peer.isOpen (fun x => { x with sock := sock, claimed := true }) (fun _ => rfl) t p q

/-- `execute_claim` for peer `p`; `sock` is the answer of `PeerSocket::create`. -/
def executeClaim (demux : Bool) (t : PeerTable A) (p : Nat) (sock : Except ClaimError Fd) :
    Except ClaimError (PeerTable A) :=
  if (t.claimedPeers.lookup (t.peers p).addr).isSome then .error .addressInUse
  else if demux then
    match sock with
    | .error e => .error e
    | .ok fd => .ok (t.enter p (some fd))
  else .ok (t.enter p none)

/-- The lazy cleanup of `handle_readable`. -/
def eraseEntry (t : PeerTable A) (a : A) : PeerTable A :=
  { t with claimedPeers := t.claimedPeers.erase a }

/-- The task `do_destroy` posts. -/
def relinquishAll (demux : Bool) (t : PeerTable A) : PeerTable A :=
  { (t.claimedPeers.entries.map Sigma.snd).foldl (doRelinquish demux) t with claimedPeers := ∅ }

omit [DecidableEq A] in
theorem relinquishAll_claimed (demux : Bool) (t : PeerTable A) (p : Nat) :
    ((t.relinquishAll demux).peers p).claimed = (t.peers p).claimed :=
  foldl_doRelinquish_claimed demux _ t p

/-! ## The map and the open peers -/

structure Inv (t : PeerTable A) : Prop where
  made : ∀ p, (t.peers p).claimed = true → p < t.made
  entry : ∀ a p, t.claimedPeers.lookup a = some p →
    (t.peers p).claimed = true ∧ (t.peers p).addr = a
  opened : ∀ p, (t.peers p).claimed = true → (t.peers p).isOpen = true →
    t.claimedPeers.lookup (t.peers p).addr = some p

variable {t t' : PeerTable A}

theorem start_inv [Inhabited A] : (start : PeerTable A).Inv :=
  ⟨nofun, nofun, nofun⟩

/-- The number of the next peer is of none that is claimed. -/
theorem Inv.made_unclaimed (h : t.Inv) : (t.peers t.made).claimed = false := by
  by_contra hc
  exact (h.made _ (Bool.eq_true_of_not_eq_false hc)).false

/-- The map stays and no peer is claimed or opened. -/
theorem Inv.frame (h : t.Inv) (hm : t.made ≤ t'.made) (hc : t'.claimedPeers = t.claimedPeers)
    (hn : ∀ p, (t'.peers p).claimed = true → (t.peers p).claimed = true)
    (hk : ∀ p, (t.peers p).claimed = true → (t'.peers p).claimed = true ∧
      (t'.peers p).addr = (t.peers p).addr ∧
      ((t'.peers p).isOpen = true → (t.peers p).isOpen = true)) : t'.Inv := by
  refine ⟨fun p hp => Nat.lt_of_lt_of_le (h.made p (hn p hp)) hm, fun a p ha => ?_,
    fun p hp ho => ?_⟩
  · rw [hc] at ha
    obtain ⟨hp, he⟩ := h.entry a p ha
    exact ⟨(hk p hp).1, (hk p hp).2.1.trans he⟩
  · have hk := hk p (hn p hp)
    rw [hc, hk.2.1]
    exact h.opened p (hn p hp) (hk.2.2 ho)

theorem Inv.disp (h : t.Inv) (d : Epoll Nat Nat) : Inv { t with disp := d } :=
  ⟨h.made, h.entry, h.opened⟩

theorem Inv.modify (h : t.Inv) (p : Nat) (f : Peer A → Peer A)
    (hf : (f (t.peers p)).claimed = (t.peers p).claimed ∧
      (f (t.peers p)).addr = (t.peers p).addr ∧
      ((f (t.peers p)).isOpen = true → (t.peers p).isOpen = true)) : (t.modify p f).Inv := by
  refine h.frame (Nat.le_refl _) rfl (fun q hq => ?_) fun q hq => ?_
  · by_cases e : q = p
    · subst e
      rw [modify_self] at hq
      exact hf.1.symm.trans hq
    · rwa [modify_of_ne t e] at hq
  · by_cases e : q = p
    · subst e
      rw [modify_self]
      exact ⟨hf.1.trans hq, hf.2⟩
    · rw [modify_of_ne t e]
      exact ⟨hq, rfl, id⟩

theorem Inv.exchangeOpen (h : t.Inv) (p : Nat) : (t.exchangeOpen p).Inv :=
  h.modify p _ ⟨rfl, rfl, nofun⟩

theorem Inv.closeSocket (h : t.Inv) (p : Nat) : (t.closeSocket p).Inv := by
  unfold PeerTable.closeSocket
  split
  · exact h
  · exact (h.modify p _ ⟨rfl, rfl, id⟩).disp _

theorem Inv.create (h : t.Inv) (a : A) : (t.create a).Inv := by
  have hne : ∀ p, (t.peers p).claimed = true → p ≠ t.made := fun p hp => (h.made p hp).ne
  refine h.frame (Nat.le_succ _) rfl (fun p hp => ?_) fun p hp => ?_
  · by_cases e : p = t.made
    · subst e
      rw [create_self] at hp
      cases hp
    · rwa [create_of_ne t e] at hp
  · rw [create_of_ne t (hne p hp)]
    exact ⟨hp, rfl, id⟩

theorem Inv.enter (h : t.Inv) {p : Nat} (hp : p < t.made)
    (hfree : t.claimedPeers.lookup (t.peers p).addr = none) (sock : Option Fd) :
    (t.enter p sock).Inv := by
  refine ⟨fun q hq => ?_, fun a q ha => ?_, fun q hq ho => ?_⟩
  · by_cases e : q = p
    · exact e ▸ hp
    · rw [enter_of_ne t e] at hq
      exact h.made q hq
  · replace ha : (t.claimedPeers.insert (t.peers p).addr p).lookup a = some q := ha
    by_cases ea : a = (t.peers p).addr
    · subst ea
      rw [AList.lookup_insert] at ha
      cases ha
      rw [enter_self]
      exact ⟨rfl, rfl⟩
    · rw [AList.lookup_insert_ne ea] at ha
      have hq := h.entry a q ha
      have e : q ≠ p := fun e => ea (e ▸ hq.2).symm
      rwa [enter_of_ne t e]
  · show (t.claimedPeers.insert (t.peers p).addr p).lookup _ = some q
    by_cases e : q = p
    · subst e
      rw [enter_self]
      exact AList.lookup_insert _
    · rw [enter_of_ne t e] at hq ho ⊢
      have hentry := h.opened q hq ho
      have ea : (t.peers q).addr ≠ (t.peers p).addr := fun ea => by
        rw [ea, hfree] at hentry
        cases hentry
      rwa [AList.lookup_insert_ne ea]

theorem executeClaim_ok {demux : Bool} {p : Nat} {sock : Except ClaimError Fd}
    (h : t.executeClaim demux p sock = .ok t') :
    t.claimedPeers.lookup (t.peers p).addr = none ∧
      ∃ fd, t' = t.enter p fd ∧ ∀ x, fd = some x → demux = true ∧ sock = .ok x := by
  unfold executeClaim at h
  split at h
  · cases h
  · rename_i hfree
    refine ⟨Option.not_isSome_iff_eq_none.1 hfree, ?_⟩
    split at h
    · rename_i hd
      split at h
      · cases h
      · rename_i fd
        cases h
        exact ⟨some fd, rfl, fun x hx => ⟨hd, by cases hx; rfl⟩⟩
    · cases h
      exact ⟨none, rfl, nofun⟩

theorem Inv.executeClaim (h : t.Inv) {demux : Bool} {p : Nat} (hp : p < t.made)
    {sock : Except ClaimError Fd} (he : t.executeClaim demux p sock = .ok t') : t'.Inv := by
  obtain ⟨hfree, fd, rfl, -⟩ := executeClaim_ok he
  exact h.enter hp hfree fd

/-- An entry may go once its peer is not open. -/
theorem Inv.eraseEntry (h : t.Inv) {a : A}
    (hc : ∀ p, t.claimedPeers.lookup a = some p → (t.peers p).isOpen = false) :
    (t.eraseEntry a).Inv := by
  have hlookup : ∀ {b q}, (t.claimedPeers.erase a).lookup b = some q →
      t.claimedPeers.lookup b = some q := fun {b q} hb => by
    have hne : b ≠ a := by
      rintro rfl
      rw [AList.lookup_erase] at hb
      cases hb
    rwa [AList.lookup_erase_ne hne] at hb
  refine ⟨h.made, fun b q hb => h.entry b q (hlookup hb), fun q hq ho => ?_⟩
  have hentry := h.opened q hq ho
  have hne : (t.peers q).addr ≠ a := by
    rintro rfl
    cases (hc q hentry).symm.trans ho
  exact (AList.lookup_erase_ne hne).trans hentry

/-- An open peer is in the map, and so is closed with the others. -/
theorem Inv.relinquishAll_isOpen (h : t.Inv) (demux : Bool) {p : Nat}
    (hp : (t.peers p).claimed = true) : ((t.relinquishAll demux).peers p).isOpen = false := by
  refine foldl_doRelinquish_isOpen demux ?_
  cases hop : (t.peers p).isOpen with
  | false => exact .inr rfl
  | true => exact .inl (List.mem_map.2 ⟨_, AList.mem_lookup_iff.1 (h.opened p hp hop), rfl⟩)

/-- A peer that was not claimed is left alone. -/
theorem Inv.relinquishAll_of_unclaimed (h : t.Inv) (demux : Bool) {p : Nat}
    (hp : (t.peers p).claimed = false) : (t.relinquishAll demux).peers p = t.peers p := by
  refine foldl_doRelinquish_of_not_mem demux (fun hm => ?_) t
  obtain ⟨e, he, rfl⟩ := List.mem_map.1 hm
  cases hp.symm.trans (h.entry e.1 e.2 (AList.mem_lookup_iff.2 he)).1

theorem Inv.relinquishAll (h : t.Inv) (demux : Bool) : (t.relinquishAll demux).Inv := by
  refine ⟨fun p hp => ?_, fun a p ha => absurd ha (by rintro ⟨⟩), fun p hp ho => ?_⟩
  · rw [relinquishAll_claimed] at hp
    exact (h.made p hp).trans_eq (foldl_doRelinquish_made ..).symm
  · rw [relinquishAll_claimed] at hp
    cases (h.relinquishAll_isOpen demux hp).symm.trans ho

/-- A peer that was claimed and is open holds the address. -/
def Holds (t : PeerTable A) (a : A) (p : Nat) : Prop :=
  (t.peers p).claimed = true ∧ (t.peers p).addr = a ∧ (t.peers p).isOpen = true

instance (t : PeerTable A) (a : A) (p : Nat) : Decidable (t.Holds a p) :=
  inferInstanceAs (Decidable (_ ∧ _ ∧ _))

theorem executeClaim_inUse (demux : Bool) (t : PeerTable A) (p : Nat) (fd : Fd) :
    t.executeClaim demux p (.ok fd) = .error .addressInUse ↔
      ∃ q, t.claimedPeers.lookup (t.peers p).addr = some q := by
  unfold executeClaim
  split
  · rename_i hs
    exact iff_of_true rfl (Option.isSome_iff_exists.1 hs)
  · rename_i hs
    refine iff_of_false ?_ (mt Option.isSome_iff_exists.2 hs)
    split <;> nofun

/-- The answer of `claim` is right exactly when the map has no entry of a closed peer. -/
theorem Inv.inUse_iff (h : t.Inv) (demux : Bool) (p : Nat) (fd : Fd) :
    (t.executeClaim demux p (.ok fd) = .error .addressInUse ↔ ∃ q, t.Holds (t.peers p).addr q) ↔
      ∀ q, t.claimedPeers.lookup (t.peers p).addr = some q → (t.peers q).isOpen = true := by
  rw [executeClaim_inUse]
  constructor
  · intro hiff q hq
    obtain ⟨q', hc, ha, ho⟩ := hiff.1 ⟨q, hq⟩
    have hentry := h.opened q' hc ho
    rw [ha, hq] at hentry
    cases hentry
    exact ho
  · intro hopen
    constructor
    · rintro ⟨q, hq⟩
      obtain ⟨hc, ha⟩ := h.entry _ q hq
      exact ⟨q, hc, ha, hopen q hq⟩
    · rintro ⟨q, hc, ha, ho⟩
      exact ⟨q, ha ▸ h.opened q hc ho⟩

end PeerTable

end Socketpp
