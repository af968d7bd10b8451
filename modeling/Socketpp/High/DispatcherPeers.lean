import Socketpp.High.DgramDestroy
import Socketpp.High.DgramPeers
import Socketpp.High.DispatcherUse

/-!
# The peers in the model of the dispatcher's users

`HighLevel` keeps of a claimed peer whether it is open and whether it has a socket
of its own. That is what the peers alone (`PeerClaims`) show of themselves: in
every state they reach, the claimed ones, in the order of their claims, have the
flags of a reachable state of `HighLevel` (`reach_shows`). There `do_relinquish` is
one step, here it is two, of which the first, the exchange of `open_`, counts.

`DgramPeers` and `DgramDestroy` refine `PeerClaims`, so their peers are those of
`HighLevel` as well.
-/

namespace Socketpp

namespace HighLevel

variable (os : Os) (peers : List PeerFlags) (stopped : Bool) (log : List DispatcherUse)

/-- A dgram of which only the peers have changed. -/
def withPeers : HighLevel := { start os .dgram with peers := peers, stopRequested := stopped }

/-- The socket of a peer is given up when the peer is closed, and there is one only with `demux`. -/
def Settled (f : PeerFlags) : Prop := f.socketOpen = (f.isOpen && os.kernelUdpDemux)

variable {os peers}

theorem Settled.closed {f : PeerFlags} (h : Settled os f) :
    (f.socketOpen && !(withPeers os peers stopped).relinquishes f) = false := by
  show (f.socketOpen && !(os.kernelUdpDemux && f.isOpen && f.socketOpen)) = false
  rw [h]
  cases f.isOpen <;> cases os.kernelUdpDemux <;> rfl

theorem step_claim : ∃ log', (DispatcherLog.machine os .dgram).step
    ⟨withPeers os peers stopped, log⟩ (.call .loop (.claim true)) =
      some ⟨withPeers os (peers ++ [⟨true, os.kernelUdpDemux⟩]) stopped, log'⟩ := ⟨_, rfl⟩

theorem step_relinquish {i : Nat} {f : PeerFlags} (hi : peers[i]? = some f) (hf : Settled os f) :
    ∃ log', (DispatcherLog.machine os .dgram).step ⟨withPeers os peers stopped, log⟩
      (.call (.other 0) (.relinquish i)) =
        some ⟨withPeers os (peers.set i ⟨false, false⟩) stopped, log'⟩ := by
  let calls : List DispatcherCall :=
    if (withPeers os peers stopped).relinquishes f then [.remove] else []
  have hrel : (withPeers os peers stopped).relinquish i =
      (withPeers os (peers.set i ⟨false, false⟩) stopped, calls) := by
    unfold relinquish
    rw [show (withPeers os peers stopped).peers[i]? = some f from hi]
    simp only [hf.closed stopped]
    rfl
  refine ⟨log ++ calls.map fun c => ⟨.other 0, false, c⟩, ?_⟩
  have hact : (withPeers os peers stopped).act (.call (.other 0) (.relinquish i)) =
      some (withPeers os (peers.set i ⟨false, false⟩) stopped, calls) := congrArg some hrel
  simp only [DispatcherLog.machine, DispatcherLog.step, hact]
  rfl

/-- `do_destroy` posts its two tasks, and the loop thread runs both. -/
theorem run_relinquishAll (hp : ∀ f ∈ peers, Settled os f) :
    ∃ as log', (DispatcherLog.machine os .dgram).Path (fun _ _ => True)
      ⟨withPeers os peers stopped, log⟩ as
      ⟨withPeers os (peers.map fun _ => ⟨false, false⟩) true, log'⟩ := by
  have hmap : (peers.map fun f => (⟨false,
      f.socketOpen && !(withPeers os peers stopped).relinquishes f⟩ : PeerFlags)) =
      peers.map fun _ => ⟨false, false⟩ := by
    refine List.map_congr_left fun f hf => ?_
    rw [(hp f hf).closed stopped]
  rw [← hmap]
  exact ⟨[.call (.other 0) .destroy, .swap, .runTask true, .runTask true, .enterPoll], _,
    .cons trivial rfl (.cons trivial rfl (.cons trivial rfl (.cons trivial rfl
      (.cons trivial rfl (.nil _)))))⟩

end HighLevel

namespace PeerClaims

variable {A : Type}

/-- What `HighLevel` keeps of a peer. -/
def flags (os : Os) (x : Peer A) : PeerFlags := ⟨x.isOpen, x.isOpen && os.kernelUdpDemux⟩

/-- `ps` are the claimed peers, in the order of their claims, and a dgram with their flags is
reached. -/
structure Shows (os : Os) (s : PeerClaims A) (ps : List Nat) : Prop where
  nodup : ps.Nodup
  claimed : ∀ p, p ∈ ps ↔ (s.table.peers p).claimed = true
  reach : ∃ stopped log, (DispatcherLog.machine os .dgram).Reach
    ⟨.withPeers os (ps.map fun p => flags os (s.table.peers p)) stopped, log⟩

variable {os : Os} {s s' : PeerClaims A} {ps : List Nat}

theorem settled_of_mem {f : PeerFlags} (hf : f ∈ ps.map fun p => flags os (s.table.peers p)) :
    HighLevel.Settled os f := by
  obtain ⟨p, -, rfl⟩ := List.mem_map.1 hf
  rfl

namespace Shows

/-- No peer is claimed, and none of the claimed ones closed. -/
theorem frame (h : Shows os s ps)
    (hc : ∀ p, (s'.table.peers p).claimed = (s.table.peers p).claimed)
    (ho : ∀ p, (s.table.peers p).claimed = true →
      (s'.table.peers p).isOpen = (s.table.peers p).isOpen) : Shows os s' ps := by
  refine ⟨h.nodup, fun p => by rw [hc]; exact h.claimed p, ?_⟩
  have hmap : (ps.map fun p => flags os (s'.table.peers p)) =
      ps.map fun p => flags os (s.table.peers p) := by
    refine List.map_congr_left fun p hp => ?_
    rw [flags, flags, ho p ((h.claimed p).1 hp)]
  rw [hmap]
  exact h.reach

/-- A claim succeeds. -/
theorem grant [DecidableEq A] (h : Shows os s ps) {p : Nat} (hp : (s.table.peers p).claimed = false)
    (ho : (s.table.peers p).isOpen = true) (sock : Option Fd) (l : Multiset Nat) :
    Shows os ⟨s.table.enter p sock, l⟩ (ps ++ [p]) := by
  have hnot : p ∉ ps := fun hm => by cases hp.symm.trans ((h.claimed p).1 hm)
  have hne : ∀ q ∈ ps, q ≠ p := fun q hq e => hnot (e ▸ hq)
  refine ⟨h.nodup.append (List.nodup_singleton p) fun q hq hm => hne q hq (List.mem_singleton.1 hm),
    fun q => ?_, ?_⟩
  · rw [List.mem_append, List.mem_singleton]
    by_cases e : q = p
    · subst e
      rw [PeerTable.enter_self]
      exact iff_of_true (.inr rfl) rfl
    · rw [PeerTable.enter_of_ne _ e, h.claimed q]
      exact or_iff_left e
  · obtain ⟨stopped, log, hr⟩ := h.reach
    obtain ⟨log', he⟩ := @HighLevel.step_claim os
      (ps.map fun q => flags os (s.table.peers q)) stopped log
    refine ⟨stopped, log', ?_⟩
    have hmap : ((ps ++ [p]).map fun q => flags os ((s.table.enter p sock).peers q)) =
        (ps.map fun q => flags os (s.table.peers q)) ++ [⟨true, os.kernelUdpDemux⟩] := by
      rw [List.map_append, List.map_congr_left fun q hq =>
        congrArg (flags os) (PeerTable.enter_of_ne s.table (hne q hq) sock)]
      simp [flags, PeerTable.enter_isOpen, ho]
    rw [hmap]
    exact hr.step trivial he

/-- The exchange of `open_`. -/
theorem exchangeOpen (h : Shows os s ps) (p : Nat) :
    Shows os { s with table := s.table.exchangeOpen p } ps := by
  by_cases hp : p ∈ ps
  · refine ⟨h.nodup, fun q => by rw [PeerTable.exchangeOpen_claimed]; exact h.claimed q, ?_⟩
    obtain ⟨i, hi⟩ := List.mem_iff_getElem?.1 hp
    obtain ⟨stopped, log, hr⟩ := h.reach
    have hget : (ps.map fun q => flags os (s.table.peers q))[i]? =
        some (flags os (s.table.peers p)) := by rw [List.getElem?_map, hi]; rfl
    obtain ⟨log', he⟩ := HighLevel.step_relinquish stopped log hget rfl
    refine ⟨stopped, log', ?_⟩
    have hmap : (ps.map fun q => flags os ((s.table.exchangeOpen p).peers q)) =
        (ps.map fun q => flags os (s.table.peers q)).set i ⟨false, false⟩ := by
      have hself : flags os ((s.table.exchangeOpen p).peers p) = ⟨false, false⟩ := by
        rw [PeerTable.exchangeOpen, PeerTable.modify_self]
        rfl
      rw [← hself]
      refine Cells.map_set_of_nodup h.nodup hi fun q hq => ?_
      rw [PeerTable.exchangeOpen, PeerTable.modify_of_ne _ hq]
    rw [hmap]
    exact hr.step trivial he
  · refine h.frame (fun q => PeerTable.exchangeOpen_claimed ..) fun q hq => ?_
    have hne : q ≠ p := fun e => hp (e ▸ (h.claimed q).2 hq)
    rw [PeerTable.exchangeOpen, PeerTable.modify_of_ne _ hne]

theorem relinquishAll [DecidableEq A] (h : Shows os s ps) (hi : s.table.Inv) :
    Shows os { s with table := s.table.relinquishAll os.kernelUdpDemux } ps := by
  refine ⟨h.nodup, fun q => by rw [PeerTable.relinquishAll_claimed]; exact h.claimed q, ?_⟩
  obtain ⟨stopped, log, hr⟩ := h.reach
  obtain ⟨as, log', hpath⟩ := HighLevel.run_relinquishAll stopped log fun f hf =>
    settled_of_mem hf
  refine ⟨true, log', ?_⟩
  have hmap : (ps.map fun q => flags os ((s.table.relinquishAll os.kernelUdpDemux).peers q)) =
      (ps.map fun q => flags os (s.table.peers q)).map fun _ => ⟨false, false⟩ := by
    rw [List.map_map]
    refine List.map_congr_left fun q hq => ?_
    rw [flags, hi.relinquishAll_isOpen _ ((h.claimed q).1 hq)]
    rfl
  rw [hmap]
  exact hr.of_path hpath

end Shows

variable [DecidableEq A]

theorem step_shows {a : Act A} (h : Shows os s ps) (hi : s.Inv)
    (he : step os.kernelUdpDemux s a = some s') : ∃ ps', Shows os s' ps' := by
  cases step_view he with
  | create a =>
    refine ⟨ps, h.frame (fun p => ?_) fun p hp => ?_⟩
    · by_cases e : p = s.table.made
      · subst e
        rw [PeerTable.create_self, hi.table.made_unclaimed]
        rfl
      · rw [PeerTable.create_of_ne _ e]
    · rw [PeerTable.create_of_ne _ (hi.table.made p hp).ne]
  | grant p sock t hp hc =>
    obtain ⟨-, fd, rfl, -⟩ := PeerTable.executeClaim_ok hc
    obtain ⟨-, hcl, ho⟩ := hi.pending p hp
    exact ⟨ps ++ [p], h.grant hcl ho fd _⟩
  | refuse p => exact ⟨ps, h.frame (fun _ => rfl) fun _ _ => rfl⟩
  | setCallbacks p d e =>
    let f : Peer A → Peer A := fun x => { x with onData := d, onError := e }
    exact ⟨ps, h.frame (PeerTable.modify_field Peer.claimed f (fun _ => rfl) s.table p)
      fun q _ => PeerTable.modify_field Peer.isOpen f (fun _ => rfl) s.table p q⟩
  | exchangeOpen p => exact ⟨ps, h.exchangeOpen p⟩
  | closeSocket p =>
    exact ⟨ps, h.frame (PeerTable.closeSocket_field Peer.claimed (fun _ => rfl) s.table p)
      fun q _ => PeerTable.closeSocket_field Peer.isOpen (fun _ => rfl) s.table p q⟩
  | dispatcher d => exact ⟨ps, h.frame (fun _ => rfl) fun _ _ => rfl⟩
  | eraseEntry a => exact ⟨ps, h.frame (fun _ => rfl) fun _ _ => rfl⟩
  | relinquishAll => exact ⟨ps, h.relinquishAll hi.table⟩

/-- **The peers alone refine those of `HighLevel`.** -/
theorem reach_shows [Inhabited A] (h : (machine A os.kernelUdpDemux).Reach s) :
    ∃ ps, Shows os s ps := by
  refine h.inv (I := fun s => ∃ ps, Shows os s ps) (fun s hs => ?_) fun _ _ _ hr ⟨ps, hi⟩ _ he =>
    step_shows hi (reach_inv hr) he
  rw [show s = start from hs]
  exact ⟨[], List.nodup_nil, fun p => iff_of_false List.not_mem_nil (by rintro ⟨⟩),
    false, [], .init rfl⟩

end PeerClaims

variable {A : Type} [DecidableEq A] [Inhabited A] {os : Os}

/-- The peers in use are those of a dgram in `HighLevel`. -/
theorem DgramPeers.reach_shows {n : Nat} {ok : DgramPeers A n → DgramPeers.Act A n → Prop}
    {s : DgramPeers A n} (h : (DgramPeers.machine A os.kernelUdpDemux n).ReachOk ok s) :
    ∃ ps, PeerClaims.Shows os s.peerClaims ps :=
  PeerClaims.reach_shows (reach_claims h)

/-- So are those of one that is being destroyed. -/
theorem DgramDestroy.reach_shows {ι : Type} [DecidableEq ι] {td : ι}
    {ok : DgramDestroy A ι → DgramDestroy.Act A ι → Prop} {s : DgramDestroy A ι}
    (h : (DgramDestroy.machine A os.kernelUdpDemux td).ReachOk ok s) :
    ∃ ps, PeerClaims.Shows os s.peerClaims ps :=
  PeerClaims.reach_shows (reach_claims h).1

end Socketpp
