import Socketpp.Socket.OptionPasses

/-!
# Leaving the multicast groups of a socket

`udp_socket_base::open` (`src/socket/udp.cpp`) applies the joins and leaves of
an options list in their order. `leave_all_multicast`
(`src/socket/options.cpp`) then undoes them: it leaves the groups of the join
entries, in their order, and stops at the first failure. It does not look at
the leave entries. So a group that the list has already left, or that it joins
a second time, ends the loop, and the groups joined behind it stay
(`teardown_complete_iff`, `teardown_keeps_group`).

The kernel keeps the memberships as a set: a socket cannot join a group that it
is in, nor leave one that it is not in. What else the kernel does is left open.
-/

namespace Socketpp

open Requests

/-! ## Groups -/

section Groups

variable {G : Type*} [DecidableEq G]

/-- The groups after a join (`true`) or a leave. -/
def moveGroup (m : Finset G) (p : Bool × G) : Finset G :=
  if p.1 then insert p.2 m else m.erase p.2

/-- Groups left one after the other, up to the first that is not there. -/
def dropGroups : Finset G → List G → Finset G
  | m, [] => m
  | m, g :: gs => if g ∈ m then dropGroups (m.erase g) gs else m

/-- Everything that stands in front of a group is there to be left, once. -/
def ClearTo (m : Finset G) (gs : List G) (g : G) : Prop :=
  (gs.takeWhile fun g' => g' ≠ g).Nodup ∧ ∀ g' ∈ gs.takeWhile fun g' => g' ≠ g, g' ∈ m

instance (m : Finset G) (gs : List G) (g : G) : Decidable (ClearTo m gs g) :=
  inferInstanceAs (Decidable (_ ∧ _))

theorem clearTo_cons_self (m : Finset G) (gs : List G) (g : G) : ClearTo m (g :: gs) g := by
  rw [ClearTo, List.takeWhile_cons_of_neg (by simp)]
  exact ⟨List.nodup_nil, List.forall_mem_nil _⟩

theorem clearTo_cons_of_ne {m : Finset G} {gs : List G} {g g' : G} (h : g' ≠ g) :
    ClearTo m (g' :: gs) g ↔ g' ∈ m ∧ ClearTo (m.erase g') gs g := by
  rw [ClearTo, ClearTo, List.takeWhile_cons_of_pos (by simpa using h), List.nodup_cons,
    List.forall_mem_cons]
  simp only [Finset.mem_erase]
  constructor
  · rintro ⟨⟨hnot, hnodup⟩, hmem, hall⟩
    exact ⟨hmem, hnodup, fun x hx => ⟨fun heq => hnot (heq ▸ hx), hall x hx⟩⟩
  · rintro ⟨hmem, hnodup, hall⟩
    exact ⟨⟨fun hg => (hall g' hg).1 rfl, hnodup⟩, hmem, fun x hx => (hall x hx).2⟩

/-- **What the loop leaves**: everything, if nothing in front of a group stops it. -/
theorem dropGroups_eq_empty_iff {m : Finset G} {gs : List G} :
    dropGroups m gs = ∅ ↔ ∀ g ∈ m, g ∈ gs ∧ ClearTo m gs g := by
  induction gs generalizing m with
  | nil =>
    rw [dropGroups, Finset.eq_empty_iff_forall_notMem]
    exact forall₂_congr fun g _ => iff_of_false id fun h => by cases h.1
  | cons g' gs ih =>
    rw [dropGroups]
    split
    · rename_i hg'
      rw [ih]
      constructor
      · intro h g hg
        by_cases heq : g' = g
        · exact heq ▸ ⟨List.mem_cons_self .., clearTo_cons_self ..⟩
        · obtain ⟨hmem, hclear⟩ := h g (Finset.mem_erase.2 ⟨Ne.symm heq, hg⟩)
          exact ⟨List.mem_cons_of_mem _ hmem, (clearTo_cons_of_ne heq).2 ⟨hg', hclear⟩⟩
      · intro h g hg
        obtain ⟨hne, hg⟩ := Finset.mem_erase.1 hg
        obtain ⟨hmem, hclear⟩ := h g hg
        exact ⟨List.mem_of_ne_of_mem hne hmem, ((clearTo_cons_of_ne hne.symm).1 hclear).2⟩
    · -- the loop stops here, so nothing may be left
      rename_i hg'
      rw [Finset.eq_empty_iff_forall_notMem]
      refine forall₂_congr fun g hg => iff_of_false id fun h => ?_
      have hne : g' ≠ g := fun heq => hg' (heq ▸ hg)
      exact hg' ((clearTo_cons_of_ne hne).1 h.2).1

theorem mem_foldl_moveGroup {ps : List (Bool × G)} {m : Finset G} {g : G}
    (h : g ∈ ps.foldl moveGroup m) : g ∈ m ∨ (true, g) ∈ ps := by
  induction ps generalizing m with
  | nil => exact .inl h
  | cons p ps ih =>
    obtain ⟨join, g'⟩ := p
    rcases ih h with hm | hm
    · cases join with
      | true =>
        rcases Finset.mem_insert.1 hm with rfl | hm
        · exact .inr (List.mem_cons_self ..)
        · exact .inl hm
      | false => exact .inl (Finset.mem_of_mem_erase hm)
    · exact .inr (List.mem_cons_of_mem _ hm)

end Groups

/-! ## The groups of an options list -/

/-- A join or a leave with its group. -/
def OptionEntry.move? (os : Os) (e : OptionEntry) : Option (Bool × Mreq) :=
  if isMulticastEntry e.id then
    (mreqOf os e.data).map fun mreq => (e.id == .multicastJoin, mreq)
  else none

/-- The groups that the entries join, in order. -/
def joinedGroups (os : Os) (es : List OptionEntry) : List Mreq :=
  (es.filter fun e => e.id == .multicastJoin).filterMap fun e => mreqOf os e.data

/-- The groups that a socket is in after the joins and leaves of a list. -/
def groupsAfter (os : Os) (es : List OptionEntry) : Finset Mreq :=
  (es.filterMap (OptionEntry.move? os)).foldl moveGroup ∅

/-- Before the first join of a group that the list stays in, it joins no group twice and none
that it leaves for good. -/
def TeardownOrder (os : Os) (es : List OptionEntry) : Prop :=
  ∀ g ∈ groupsAfter os es, ClearTo (groupsAfter os es) (joinedGroups os es) g

instance (os : Os) (es : List OptionEntry) :
    Decidable (TeardownOrder os es) :=
  inferInstanceAs (Decidable (∀ g ∈ groupsAfter os es, _))

theorem joinedGroups_cons_join {os : Os} {e : OptionEntry} {mreq : Mreq}
    (h : (e.id == .multicastJoin) = true) (hm : mreqOf os e.data = some mreq)
    (es : List OptionEntry) : joinedGroups os (e :: es) = mreq :: joinedGroups os es := by
  rw [joinedGroups, List.filter_cons_of_pos (by exact h), List.filterMap_cons_some (by exact hm)]
  rfl

theorem joinedGroups_cons_other {os : Os} {e : OptionEntry}
    (h : (e.id == .multicastJoin) = false) (es : List OptionEntry) :
    joinedGroups os (e :: es) = joinedGroups os es := by
  rw [joinedGroups, List.filter_cons_of_neg (by rw [h]; exact Bool.false_ne_true)]
  rfl

theorem groupsAfter_subset_joined {os : Os} {es : List OptionEntry} {g : Mreq}
    (h : g ∈ groupsAfter os es) : g ∈ joinedGroups os es := by
  have hmove := (mem_foldl_moveGroup h).resolve_left (Finset.notMem_empty g)
  obtain ⟨e, he, hm⟩ := List.mem_filterMap.1 hmove
  rw [OptionEntry.move?] at hm
  split at hm
  · obtain ⟨mreq, hmreq, heq⟩ := Option.map_eq_some_iff.1 hm
    obtain ⟨hjoin, rfl⟩ := Prod.mk.inj heq
    exact List.mem_filterMap.2 ⟨e, List.mem_filter.2 ⟨he, hjoin⟩, hmreq⟩
  · cases hm

/-! ## The kernel, opening and teardown -/

/-- The memberships of a socket, and the rest of its state. -/
structure Memberships (R : Type) where
  members : Finset Mreq
  rest : R

def Os.eaddrinuse : Os → Int
  | linux => 98
  | macos => 48
  | windows => 10048

def Os.eaddrnotavail : Os → Int
  | linux => 99
  | macos => 49
  | windows => 10049

/-- A kernel with memberships. It may refuse a join for reasons of its own. -/
def Kernel.withMemberships {R : Type} (os : Os) (base : Kernel R) : Kernel (Memberships R) where
  setsockopt s
    | .membership true mreq =>
      if mreq ∈ s.members then (s, some os.eaddrinuse)
      else
        match base.setsockopt s.rest (.membership true mreq) with
        | (rest, none) => (⟨insert mreq s.members, rest⟩, none)
        | (rest, some errno) => (⟨s.members, rest⟩, some errno)
    | .membership false mreq =>
      if mreq ∈ s.members then (⟨s.members.erase mreq, s.rest⟩, none)
      else (s, some os.eaddrnotavail)
    | r => (⟨s.members, (base.setsockopt s.rest r).1⟩, (base.setsockopt s.rest r).2)
  getsockopt s name := base.getsockopt s.rest name

section Open

variable {K : Type} (k : Kernel K) (os : Os)

/-- `udp_socket_base::open`, with the outcomes of `socket::create` and `bind`. Where it fails
it closes the socket. -/
def udpOpen (create : Except ErrorCode K) (bind : K → K × Option ErrorCode)
    (o : SocketOptions) : Except ErrorCode (TracedSock K) :=
  match create with
  | .error ec => .error ec
  | .ok fresh =>
    match o.applyPreBind k os (.start fresh) with
    | (_, .error ec) => .error ec
    | (s, .ok _) =>
      match bind s.state with
      | (_, some ec) => .error ec
      | (bound, none) =>
        match o.applyPostBind k os { s with state := bound } with
        | (_, some ec) => .error ec
        | (s, none) => .ok s

/-- The loop of `leave_all_multicast`. -/
def leaveLoop : List OptionEntry → TracedSock K → TracedSock K × Option ErrorCode
  | [], s => (s, none)
  | e :: es, s =>
    if e.id != .multicastJoin then leaveLoop es s
    else
      match (k.device os).run [applyMulticast os .multicastLeave e.data] s with
      | (s, some ec) => (s, some ec)
      | (s, none) => leaveLoop es s

def SocketOptions.leaveAllMulticast (o : SocketOptions) (s : TracedSock K) :
    TracedSock K × Option ErrorCode :=
  leaveLoop k os o.entries s

end Open

/-! ## Opening -/

section Memberships

variable {R : Type} {os : Os} {base : Kernel R}

theorem setsockopt_membership_ok {s : Memberships R} {join : Bool} {mreq : Mreq}
    (h : ((base.withMemberships os).setsockopt s (.membership join mreq)).2 = none) :
    ((base.withMemberships os).setsockopt s (.membership join mreq)).1.members =
      moveGroup s.members (join, mreq) := by
  cases join with
  | true =>
    simp only [Kernel.withMemberships] at h ⊢
    split at h
    · cases h
    · rename_i hnot
      rw [if_neg hnot]
      cases hb : base.setsockopt s.rest (.membership true mreq) with
      | mk rest out =>
        rw [hb] at h
        cases out with
        | none => rfl
        | some errno => cases h
  | false =>
    simp only [Kernel.withMemberships] at h ⊢
    split at h
    · rename_i hmem
      rw [if_pos hmem]
      rfl
    · cases h

theorem run_applyMulticast_ok {id : SocketOptionId} {data : Bytes}
    {s s' : TracedSock (Memberships R)}
    (h : ((base.withMemberships os).device os).run [applyMulticast os id data] s =
      (s', none)) :
    ∃ mreq, mreqOf os data = some mreq ∧
      s'.state.members = moveGroup s.state.members (id == .multicastJoin, mreq) := by
  cases hm : mreqOf os data with
  | none =>
    rw [applyMulticast, hm] at h
    cases h
  | some mreq =>
    rw [applyMulticast_of_mreq hm, Device.run_singleton_ask] at h
    obtain ⟨rfl, hout⟩ := Prod.mk.inj h
    exact ⟨mreq, rfl, setsockopt_membership_ok (Option.map_eq_none_iff.1 hout)⟩

/-- **`apply_post_bind`** moves the socket through the groups of the entries. -/
theorem postBindLoop_members {es : List OptionEntry} {s s' : TracedSock (Memberships R)}
    (h : postBindLoop (base.withMemberships os) os es s = (s', none)) :
    s'.state.members = (es.filterMap (OptionEntry.move? os)).foldl moveGroup s.state.members ∧
      ∀ e ∈ es, isMulticastEntry e.id = true → ∃ mreq, mreqOf os e.data = some mreq := by
  induction es generalizing s with
  | nil => cases h; exact ⟨rfl, List.forall_mem_nil _⟩
  | cons e es ih =>
    rw [postBindLoop] at h
    cases hmc : isMulticastEntry e.id with
    | false =>
      have hmove : e.move? os = none := by rw [OptionEntry.move?, hmc]; rfl
      rw [hmc] at h
      obtain ⟨hmem, hall⟩ := ih h
      rw [List.filterMap_cons_none hmove]
      exact ⟨hmem, List.forall_mem_cons.2
        ⟨fun ht => absurd (hmc.symm.trans ht) Bool.false_ne_true, hall⟩⟩
    | true =>
      rw [hmc] at h
      simp only [Bool.not_true, Bool.false_eq_true, if_false] at h
      split at h
      · cases h
      · cases hr : ((base.withMemberships os).device os).run
            [applyMulticast os e.id e.data] s with
        | mk s₁ out =>
          rw [hr] at h
          cases out with
          | some ec => cases h
          | none =>
            obtain ⟨mreq, hmreq, hstep⟩ := run_applyMulticast_ok hr
            obtain ⟨hmem, hall⟩ := ih h
            have hmove : e.move? os = some (e.id == .multicastJoin, mreq) := by
              rw [OptionEntry.move?, if_pos hmc, hmreq]
              rfl
            rw [List.filterMap_cons_some hmove, List.foldl_cons, ← hstep]
            exact ⟨hmem, List.forall_mem_cons.2 ⟨fun _ => ⟨mreq, hmreq⟩, hall⟩⟩

theorem OptionEntry.request?_ne_membership {e : OptionEntry} (h : isMulticastEntry e.id = false)
    {r : SockRequest} (hr : e.request? os = some r) (join : Bool) (mreq : Mreq) :
    r ≠ .membership join mreq := by
  rintro rfl
  obtain ⟨id, data, available⟩ := e
  rw [OptionEntry.request?] at hr
  cases id with
  | multicastJoin => cases h
  | multicastLeave => cases h
  | lingerOpt =>
    simp only [OptionEntry.action, applyLinger] at hr
    split at hr <;> cases hr
  | multicastIf =>
    simp only [OptionEntry.action, applyMulticastIf] at hr
    split at hr <;> cases hr
  | multicastIfV6 =>
    simp only [OptionEntry.action, applyMulticastIfV6] at hr
    split at hr <;> cases hr
  | _ => cases os <;> cases hr

/-- `apply_pre_bind` asks for no membership. -/
theorem ne_membership_of_mem_passSteps {es : List OptionEntry} {r : SockRequest}
    (hr : r ∈ requests (passSteps os true es)) (join : Bool) (mreq : Mreq) :
    r ≠ .membership join mreq := by
  obtain ⟨st, hst, hreq⟩ := List.mem_filterMap.1 hr
  rcases List.mem_append.1 hst with hst | hst
  · obtain ⟨e, -, hst⟩ := List.mem_flatMap.1 hst
    cases hmc : isMulticastEntry e.id with
    | true =>
      rw [OptionEntry.steps_skipped (by rw [hmc]; rfl)] at hst
      cases hst
    | false =>
      cases ha : e.platformAvailable with
      | false =>
        rw [OptionEntry.steps_unavailable (by rw [hmc]; exact Bool.false_ne_true) ha] at hst
        cases List.mem_singleton.1 hst
        cases hreq
      | true =>
        have hmem : r ∈ requests (e.steps os true) := List.mem_filterMap.2 ⟨st, hst, hreq⟩
        rw [OptionEntry.requests_steps (by rw [hmc]; exact Bool.false_ne_true) ha,
          Option.mem_toList] at hmem
        exact OptionEntry.request?_ne_membership hmc hmem join mreq
  · rw [applyWindowsKeepalive] at hst
    split at hst
    · cases List.mem_singleton.1 hst
      cases hreq
      rintro ⟨⟩
    · cases hst

theorem setsockopt_other_members {s : Memberships R} {r : SockRequest}
    (h : ∀ join mreq, r ≠ .membership join mreq) :
    ((base.withMemberships os).setsockopt s r).1.members = s.members := by
  cases r with
  | membership join mreq => exact absurd rfl (h join mreq)
  | setInt | linger | multicastIf | keepaliveVals => rfl

theorem applyPreBind_members (os : Os) (base : Kernel R) (o : SocketOptions)
    (s : TracedSock (Memberships R)) :
    (o.applyPreBind (base.withMemberships os) os s).1.state.members = s.state.members := by
  rw [SocketOptions.applyPreBind, SocketOptions.applyEntries_fst]
  refine Device.run_inv (I := fun k : Memberships R => k.members = s.state.members) ?_ rfl
  intro r hr k hk
  exact (setsockopt_other_members (ne_membership_of_mem_passSteps hr)).trans hk

/-- A socket that is in no group, and `bind`, which does not change the groups. -/
def createFresh (create : Except ErrorCode R) : Except ErrorCode (Memberships R) :=
  create.map fun rest => ⟨∅, rest⟩

def bindRest (bind : R → R × Option ErrorCode) (s : Memberships R) :
    Memberships R × Option ErrorCode :=
  (⟨s.members, (bind s.rest).1⟩, (bind s.rest).2)

/-- **What `open` leaves**: the groups of the list. -/
theorem udpOpen_members {create : Except ErrorCode R} {bind : R → R × Option ErrorCode}
    {o : SocketOptions} {s : TracedSock (Memberships R)}
    (h : udpOpen (base.withMemberships os) os (createFresh create) (bindRest bind) o = .ok s) :
    s.state.members = groupsAfter os o.entries ∧
      ∀ e ∈ o.entries, isMulticastEntry e.id = true →
        ∃ mreq, mreqOf os e.data = some mreq := by
  cases create with
  | error ec => cases h
  | ok fresh =>
    have hpre := applyPreBind_members os base o (.start ⟨∅, fresh⟩)
    simp only [udpOpen, createFresh, Except.map] at h
    cases hp : o.applyPreBind (base.withMemberships os) os (.start ⟨∅, fresh⟩) with
    | mk s₁ res =>
      rw [hp] at h hpre
      change s₁.state.members = ∅ at hpre
      cases res with
      | error ec => cases h
      | ok ar =>
        simp only [bindRest] at h
        cases hb : bind s₁.state.rest with
        | mk bound out =>
          rw [hb] at h
          cases out with
          | some ec => cases h
          | none =>
            simp only [SocketOptions.applyPostBind] at h
            cases hq : postBindLoop (base.withMemberships os) os o.entries
                { s₁ with state := ⟨s₁.state.members, bound⟩ } with
            | mk s₂ out =>
              rw [hq] at h
              cases out with
              | some ec => cases h
              | none =>
                cases h
                obtain ⟨hmem, hes⟩ := postBindLoop_members hq
                exact ⟨hmem.trans (by rw [hpre]; rfl), hes⟩

/-! ## Teardown -/

theorem issue_leave_of_mem (os : Os) (base : Kernel R) {s : TracedSock (Memberships R)}
    {mreq : Mreq} (h : mreq ∈ s.state.members) :
    ∃ s', ((base.withMemberships os).device os).issue s (.membership false mreq) = (s', none) ∧
      s'.state.members = s.state.members.erase mreq := by
  simp only [Device.issue, Kernel.device, Kernel.withMemberships, if_pos h]
  exact ⟨_, rfl, rfl⟩

theorem issue_leave_of_notMem (os : Os) (base : Kernel R) {s : TracedSock (Memberships R)}
    {mreq : Mreq} (h : mreq ∉ s.state.members) :
    ∃ s' ec, ((base.withMemberships os).device os).issue s (.membership false mreq) =
      (s', some ec) ∧ s'.state.members = s.state.members := by
  simp only [Device.issue, Kernel.device, Kernel.withMemberships, if_neg h]
  exact ⟨_, _, rfl, rfl⟩

/-- **`leave_all_multicast`** leaves the joined groups up to the first failure. -/
theorem leaveLoop_members {es : List OptionEntry}
    (hes : ∀ e ∈ es, isMulticastEntry e.id = true → ∃ mreq, mreqOf os e.data = some mreq)
    (s : TracedSock (Memberships R)) :
    (leaveLoop (base.withMemberships os) os es s).1.state.members =
      dropGroups s.state.members (joinedGroups os es) := by
  induction es generalizing s with
  | nil => rfl
  | cons e es ih =>
    have ih := ih fun e he => hes e (List.mem_cons_of_mem _ he)
    rw [leaveLoop]
    cases hj : e.id == SocketOptionId.multicastJoin with
    | false =>
      rw [bne, hj, joinedGroups_cons_other hj]
      exact ih s
    | true =>
      obtain ⟨mreq, hmreq⟩ := hes e (List.mem_cons_self ..) (by rw [isMulticastEntry, hj]; rfl)
      have hleave : applyMulticast os .multicastLeave e.data = .ask (.membership false mreq) :=
        applyMulticast_of_mreq hmreq _
      rw [bne, hj, joinedGroups_cons_join hj hmreq, hleave, Device.run_singleton_ask, dropGroups]
      simp only [Bool.not_true, Bool.false_eq_true, if_false]
      by_cases hmem : mreq ∈ s.state.members
      · obtain ⟨s', hs', hgroups⟩ := issue_leave_of_mem os base hmem
        rw [if_pos hmem, hs', ← hgroups]
        exact ih s'
      · obtain ⟨s', ec, hs', hgroups⟩ := issue_leave_of_notMem os base hmem
        rw [if_neg hmem, hs']
        exact hgroups

/-- **Teardown.** After `open` has applied a list, `leave_all_multicast` leaves every group of
it exactly if no join in front of a group that is still joined stops it. -/
theorem teardown_complete_iff {create : Except ErrorCode R} {bind : R → R × Option ErrorCode}
    {o : SocketOptions} {s : TracedSock (Memberships R)}
    (h : udpOpen (base.withMemberships os) os (createFresh create) (bindRest bind) o = .ok s) :
    (o.leaveAllMulticast (base.withMemberships os) os s).1.state.members = ∅ ↔
      TeardownOrder os o.entries := by
  obtain ⟨hmem, hes⟩ := udpOpen_members h
  rw [SocketOptions.leaveAllMulticast, leaveLoop_members hes, hmem, dropGroups_eq_empty_iff]
  exact forall₂_congr fun g hg => and_iff_right (groupsAfter_subset_joined hg)

/-- The groups 239.1.2.`n`, on any interface. -/
def groupAddress (n : UInt8) : SockAddress := .inet4 .linux 239 1 2 n

def anyInterface : SockAddress := .inet4 .linux 0 0 0 0

/-- One group is left again behind a group that stays. -/
def leftLater : SocketOptions :=
  SocketOptions.build .linux
    [.multicastJoin (groupAddress 2) anyInterface, .recvBuf 4096,
      .multicastJoin (groupAddress 1) anyInterface, .multicastLeave (groupAddress 1) anyInterface]

theorem teardown_complete_leftLater :
    ∃ s, udpOpen (SocketOptions.permissive.withMemberships .linux) .linux
        (createFresh (.ok ())) (bindRest fun _ => ((), none)) leftLater = .ok s ∧
      s.state.members.card = 1 ∧
      (leftLater.leaveAllMulticast (SocketOptions.permissive.withMemberships .linux) .linux
        s).1.state.members = ∅ := by
  cases h : udpOpen (SocketOptions.permissive.withMemberships .linux) .linux
      (createFresh (.ok ())) (bindRest fun _ => ((), none)) leftLater with
  | error ec =>
    have hok : (udpOpen (SocketOptions.permissive.withMemberships .linux) .linux
      (createFresh (.ok ())) (bindRest fun _ => ((), none)) leftLater).isOk = true := by
      decide +kernel
    rw [h] at hok
    cases hok
  | ok s =>
    have hcard : (groupsAfter .linux leftLater.entries).card = 1 := by decide +kernel
    exact ⟨s, rfl, by rw [(udpOpen_members h).1]; exact hcard,
      (teardown_complete_iff h).2 (by decide +kernel)⟩

/-- A group is joined and left, then another one is joined. -/
def leftBefore : SocketOptions :=
  SocketOptions.build .linux
    [.multicastJoin (groupAddress 1) anyInterface, .multicastLeave (groupAddress 1) anyInterface,
      .multicastJoin (groupAddress 2) anyInterface]

/-- `open` succeeds, but teardown stops at the first group and does not leave the second. -/
theorem teardown_keeps_group :
    (udpOpen (SocketOptions.permissive.withMemberships .linux) .linux (createFresh (.ok ()))
        (bindRest fun _ => ((), none)) leftBefore).toOption.map (fun s =>
      (leftBefore.leaveAllMulticast (SocketOptions.permissive.withMemberships .linux) .linux
        s).1.state.members) =
      some {.ipMreq [239, 1, 2, 2] [0, 0, 0, 0]} := by
  decide +kernel

end Memberships

end Socketpp
