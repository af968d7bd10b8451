import Socketpp.High.DgramTable

/-!
# The sockets of the claimed peers

What `do_relinquish` has to undo: the socket of an open peer and its registration.
Here a call of `do_relinquish` is one step, as on a thread nobody interferes with.
`SockInv`: a peer with a socket is claimed and open, no two have the same
descriptor, and whatever is registered is the socket of some peer. So when every
claimed peer is relinquished (`relinquishAll_closed`) nothing is registered.
-/

namespace Socketpp

namespace PeerTable

variable {A : Type}

structure SockInv (demux : Bool) (t : PeerTable A) : Prop where
  /-- the parent does the reading -/
  forwarded : demux = false → ∀ p, (t.peers p).sock = none
  opened : ∀ p fd, (t.peers p).sock = some fd →
    (t.peers p).claimed = true ∧ (t.peers p).isOpen = true
  unclaimed : ∀ p, (t.peers p).claimed = false → (t.peers p).isOpen = true
  distinct : ∀ p q fd, (t.peers p).sock = some fd → (t.peers q).sock = some fd → p = q
  registered : ∀ fd, (t.disp.interest.lookup fd).isSome = true → ∃ p, (t.peers p).sock = some fd
  kept : ∀ fd, (t.disp.callbacks.lookup fd).isSome = true →
    (t.disp.interest.lookup fd).isSome = true

variable {demux : Bool} {t t' : PeerTable A}

theorem SockInv.sock_none (h : t.SockInv demux) {p : Nat} (hp : (t.peers p).claimed = false) :
    (t.peers p).sock = none := by
  cases hs : (t.peers p).sock with
  | none => rfl
  | some fd => cases (h.opened p fd hs).1.symm.trans hp

/-- The sockets and their registrations stay. -/
theorem SockInv.frame (h : t.SockInv demux) (hd : t'.disp = t.disp)
    (hs : ∀ p, (t'.peers p).sock = (t.peers p).sock)
    (ho : ∀ p fd, (t.peers p).sock = some fd → t'.peers p = t.peers p)
    (hu : ∀ p, (t'.peers p).claimed = false → (t'.peers p).isOpen = true) : t'.SockInv demux := by
  refine ⟨fun hdm p => (hs p).trans (h.forwarded hdm p), fun p fd hp => ?_, hu,
    fun p q fd hp hq => h.distinct p q fd ((hs p).symm.trans hp) ((hs q).symm.trans hq),
    fun fd hi => ?_, fun fd hc => ?_⟩
  · have hp := (hs p).symm.trans hp
    rw [ho p fd hp]
    exact h.opened p fd hp
  · obtain ⟨p, hp⟩ := h.registered fd (hd ▸ hi)
    exact ⟨p, (hs p).trans hp⟩
  · rw [hd] at hc ⊢
    exact h.kept fd hc

theorem SockInv.create (h : t.SockInv demux) (hm : (t.peers t.made).claimed = false) (a : A) :
    (t.create a).SockInv demux := by
  refine h.frame rfl (fun p => ?_) (fun p fd hp => ?_) fun p hp => ?_
  · by_cases e : p = t.made
    · subst e
      rw [create_self, h.sock_none hm]
      rfl
    · rw [create_of_ne t e]
  · refine create_of_ne t ?_ a
    rintro rfl
    cases (h.sock_none hm).symm.trans hp
  · by_cases e : p = t.made
    · subst e
      rw [create_self]
      rfl
    · rw [create_of_ne t e] at hp ⊢
      exact h.unclaimed p hp

/-- A claimed peer without a socket is closed. -/
theorem SockInv.exchangeOpen (h : t.SockInv demux) {p : Nat} (hp : (t.peers p).claimed = true)
    (hs : (t.peers p).sock = none) : (t.exchangeOpen p).SockInv demux := by
  have hsock := modify_field Peer.sock (fun x => { x with isOpen := false }) (fun _ => rfl) t p
  refine h.frame rfl hsock (fun q fd hq => modify_of_ne t ?_ _) fun q hq => ?_
  · rintro rfl
    cases hs.symm.trans hq
  · rw [exchangeOpen_claimed] at hq
    have e : q ≠ p := by
      rintro rfl
      cases hp.symm.trans hq
    rw [PeerTable.exchangeOpen, modify_of_ne t e]
    exact h.unclaimed q hq

/-- An open peer with a socket is relinquished. -/
theorem SockInv.close (h : t.SockInv demux) {p : Nat} {fd : Fd} (hp : (t.peers p).sock = some fd) :
    ((t.exchangeOpen p).closeSocket p).SockInv demux := by
  have hsock : ((t.exchangeOpen p).peers p).sock = some fd := by
    rw [PeerTable.exchangeOpen, modify_self]; exact hp
  have hdisp : ((t.exchangeOpen p).closeSocket p).disp = (t.disp.remove fd).closed fd := by
    rw [PeerTable.closeSocket, hsock]; rfl
  have hself : (((t.exchangeOpen p).closeSocket p).peers p).sock = none := by
    rw [PeerTable.closeSocket, hsock]; exact congrArg _ (Function.update_self ..)
  have hne : ∀ q ≠ p, ((t.exchangeOpen p).closeSocket p).peers q = t.peers q := fun q e =>
    (closeSocket_of_ne _ e).trans (modify_of_ne t e _)
  have hothers : ∀ q x, (((t.exchangeOpen p).closeSocket p).peers q).sock = some x → q ≠ p := by
    rintro q x hq rfl
    cases hself.symm.trans hq
  obtain ⟨hgone, hrest⟩ := t.disp.lookup_removed_closed fd
  refine ⟨fun hd => absurd (h.forwarded hd p) (by rw [hp]; rintro ⟨⟩), fun q x hq => ?_,
    fun q hq => ?_, fun q r x hq hr => ?_, fun x hx => ?_, fun x hx => ?_⟩
  · have e := hothers q x hq
    rw [hne q e] at hq ⊢
    exact h.opened q x hq
  · have e : q ≠ p := by
      rintro rfl
      rw [closeSocket_field Peer.claimed (fun _ => rfl), exchangeOpen_claimed] at hq
      cases (h.opened q fd hp).1.symm.trans hq
    rw [hne q e] at hq ⊢
    exact h.unclaimed q hq
  · have eq := hothers q x hq
    have er := hothers r x hr
    rw [hne q eq] at hq
    rw [hne r er] at hr
    exact h.distinct q r x hq hr
  · rw [hdisp] at hx
    have ex : x ≠ fd := by
      rintro rfl
      rw [hgone] at hx
      cases hx
    rw [(hrest x ex).1] at hx
    obtain ⟨q, hq⟩ := h.registered x hx
    have e : q ≠ p := by
      rintro rfl
      exact ex (Option.some.inj (hq.symm.trans hp))
    exact ⟨q, by rw [hne q e]; exact hq⟩
  · rw [hdisp] at hx ⊢
    have ex : x ≠ fd := by
      rintro rfl
      replace hx : ((t.disp.remove x).callbacks.lookup x).isSome = true := hx
      by_cases hi : (t.disp.interest.lookup x).isSome = true
      · rw [Epoll.lookup_callbacks_remove hi] at hx
        cases hx
      · rw [Epoll.remove, if_neg hi] at hx
        exact hi (h.kept x hx)
    replace hx : ((t.disp.remove fd).callbacks.lookup x).isSome = true := hx
    rw [(hrest x ex).2] at hx
    rw [(hrest x ex).1]
    exact h.kept x hx

theorem SockInv.doRelinquish (h : t.SockInv demux) {p : Nat} (hp : (t.peers p).claimed = true) :
    (t.doRelinquish demux p).SockInv demux := by
  unfold PeerTable.doRelinquish
  split
  · cases hs : (t.peers p).sock with
    | none =>
      have hopen := h.exchangeOpen hp hs
      split
      · rw [PeerTable.closeSocket, PeerTable.exchangeOpen, modify_self]
        simp only [hs]
        exact hopen
      · exact hopen
    | some fd =>
      split
      · exact h.close hs
      · rename_i hd
        exact absurd (h.forwarded (by simpa using hd) p) (by rw [hs]; rintro ⟨⟩)
  · exact h

/-- `arm` registers a number that is the descriptor of some peer. -/
theorem SockInv.register (h : t.SockInv demux) {fd : Fd} {mask : IoEvent} {p : Nat} {ctl : Bool}
    (hs : ctl = true → ∃ q, (t.peers q).sock = some fd) :
    SockInv demux { t with disp := t.disp.add fd mask p ctl } := by
  refine ⟨h.forwarded, h.opened, h.unclaimed, h.distinct, fun x hx => ?_, fun x hx => ?_⟩
  · replace hx : ((t.disp.add fd mask p ctl).interest.lookup x).isSome = true := hx
    unfold Epoll.add at hx
    split at hx
    · rename_i hc
      by_cases e : x = fd
      · subst e
        exact hs hc
      · exact h.registered x (by simpa only [AList.lookup_insert_ne e] using hx)
    · exact h.registered x hx
  · replace hx : ((t.disp.add fd mask p ctl).callbacks.lookup x).isSome = true := hx
    show ((t.disp.add fd mask p ctl).interest.lookup x).isSome = true
    unfold Epoll.add at hx ⊢
    split at hx
    · rename_i hc
      rw [if_pos hc]
      by_cases e : x = fd
      · subst e
        simp only [AList.lookup_insert, Option.isSome_some]
      · simp only [AList.lookup_insert_ne e] at hx ⊢
        exact h.kept x hx
    · rename_i hc
      rw [if_neg hc]
      exact h.kept x hx

variable [DecidableEq A]

/-- A claim succeeds. -/
theorem SockInv.enter (h : t.SockInv demux) {p : Nat} (hp : (t.peers p).claimed = false)
    {sock : Option Fd}
    (hs : ∀ fd, sock = some fd → demux = true ∧ ∀ q, (t.peers q).sock ≠ some fd) :
    (t.enter p sock).SockInv demux := by
  have hnone := h.sock_none hp
  have hself : ((t.enter p sock).peers p).sock = sock := by rw [enter_self]
  refine ⟨fun hd q => ?_, fun q x hq => ?_, fun q hq => ?_, fun q r x hq hr => ?_, fun x hx => ?_,
    h.kept⟩
  · by_cases e : q = p
    · subst e
      rw [hself]
      cases sock with
      | none => rfl
      | some fd => cases (hs fd rfl).1.symm.trans hd
    · rw [enter_of_ne t e, h.forwarded hd]
  · by_cases e : q = p
    · subst e
      rw [enter_self]
      exact ⟨rfl, h.unclaimed q hp⟩
    · rw [enter_of_ne t e] at hq ⊢
      exact h.opened q x hq
  · rw [enter_isOpen]
    by_cases e : q = p
    · exact h.unclaimed q (e ▸ hp)
    · rw [enter_of_ne t e] at hq
      exact h.unclaimed q hq
  · -- a new socket has no old one's number
    have hnew : ∀ {q}, q ≠ p → ((t.enter p sock).peers q).sock = some x → sock ≠ some x :=
      fun e hq hx => (hs x hx).2 _ (by rwa [enter_of_ne t e] at hq)
    by_cases eq : q = p <;> by_cases er : r = p
    · exact eq.trans er.symm
    · exact absurd (hself.symm.trans (eq ▸ hq)) (hnew er hr)
    · exact absurd (hself.symm.trans (er ▸ hr)) (hnew eq hq)
    · rw [enter_of_ne t eq] at hq
      rw [enter_of_ne t er] at hr
      exact h.distinct q r x hq hr
  · obtain ⟨q, hq⟩ := h.registered x hx
    have e : q ≠ p := by
      rintro rfl
      cases hnone.symm.trans hq
    exact ⟨q, by rw [enter_of_ne t e]; exact hq⟩

/-! ## Relinquishing them all -/

/-- Every peer that was ever claimed is closed, and nothing is registered. -/
def AllClosed (t : PeerTable A) : Prop :=
  (∀ p, (t.peers p).claimed = true → (t.peers p).isOpen = false) ∧
    ∀ fd, t.disp.interest.lookup fd = none ∧ t.disp.callbacks.lookup fd = none

end PeerTable

end Socketpp
