import Socketpp.High.DgramPeers

/-!
# The lifetime of a claimed peer

A peer is owned by its handle and by its entry in `claimed_peers`. The tasks it
posts, its timers, the callback of its socket and the callbacks it submits to
its serial queue have captured `this` or `&serial_` and own nothing. `relinquish`
takes none of them back, and once the handle is gone the next datagram from the
address erases the entry.

`Refers` lists what may refer to a peer. References come from a live handle, or
from the loop thread inside the peer (`step_posted`, `step_registered`,
`step_timed`, `step_queued`, `step_loop`), so a handle that is destroyed only when
there are none is outlived by none, and erasing the entry later does no harm.
-/

namespace Socketpp

/-- `execute_claim` has succeeded. -/
def HandlePc.granted : HandlePc → Bool
  | .claimed | .held | .relinquishing | .dropped => true
  | .fresh | .claiming | .refused => false

/-- The peer can be used through its handle, or will be. -/
def HandlePc.live : HandlePc → Bool
  | .claimed | .held | .relinquishing => true
  | .fresh | .claiming | .refused | .dropped => false

theorem HandlePc.live_of_granted {h : HandlePc} (hg : h.granted = true) (hd : h ≠ .dropped) :
    h.live = true := by
  cases h with
  | dropped => exact absurd rfl hd
  | claimed | held | relinquishing => rfl
  | fresh | claiming | refused => cases hg

theorem HandlePc.granted_of_live {h : HandlePc} (hl : h.live = true) : h.granted = true := by
  cases h with
  | claimed | held | relinquishing => rfl
  | fresh | claiming | refused | dropped => cases hl

/-- The handle, or `claim` before it returns, owns the peer. -/
def HandlePc.owns : HandlePc → Bool
  | .claiming | .claimed | .held | .relinquishing => true
  | .fresh | .refused | .dropped => false

theorem HandlePc.owns_of_live {h : HandlePc} (hl : h.live = true) : h.owns = true := by
  cases h with
  | claimed | held | relinquishing => rfl
  | fresh | claiming | refused | dropped => cases hl

namespace DgramPeers

variable {A : Type} {n : Nat}

/-- A task in the loop's queue has captured the peer. -/
def Posted (s : DgramPeers A n) (p : Nat) : Prop := ∃ t ∈ s.posts.pending, t.peer = some p

/-- A callback registered with the dispatcher has captured it. -/
def Registered (s : DgramPeers A n) (p : Nat) : Prop :=
  ∃ e ∈ s.table.disp.callbacks.entries, e.2 = p

/-- A live timer has. -/
def Timed (s : DgramPeers A n) (p : Nat) : Prop :=
  ∃ e ∈ s.table.disp.timers.entries, e.2.callback = p

/-- A task in its serial queue has. -/
def Queued (s : DgramPeers A n) (p : Nat) : Prop :=
  ∃ cb ∈ (s.pool.queues p).pending, cb.captures = true

def Refers (s : DgramPeers A n) (p : Nat) : Prop :=
  s.Posted p ∨ s.Registered p ∨ s.Timed p ∨ s.Queued p

/-- The peer is referred to, or the loop thread is in it. -/
def Touches (s : DgramPeers A n) (p : Nat) : Prop := s.Refers p ∨ s.loop.peer = some p

instance (s : DgramPeers A n) (p : Nat) : Decidable (s.Touches p) :=
  inferInstanceAs (Decidable (((∃ t ∈ s.posts.pending, t.peer = some p) ∨
    (∃ e ∈ s.table.disp.callbacks.entries, e.2 = p) ∨
    (∃ e ∈ s.table.disp.timers.entries, e.2.callback = p) ∨
    ∃ cb ∈ (s.pool.queues p).pending, cb.captures = true) ∨ s.loop.peer = some p))

variable [DecidableEq A]

/-- An owner of the peer is left. -/
def Owned (s : DgramPeers A n) (p : Nat) : Prop :=
  (s.handles p).owns = true ∨ ∃ a, s.table.claimedPeers.lookup a = some p

variable {demux : Bool} {s s' : DgramPeers A n} {a : Act A n} {p : Nat}

/-! ## Handles -/

structure HandleInv (s : DgramPeers A n) : Prop where
  granted : ∀ q, (s.table.peers q).claimed = (s.handles q).granted
  closed : ∀ q, s.handles q = .dropped → (s.table.peers q).isOpen = false

omit [DecidableEq A] in
/-- No peer is claimed or opened, and no handle moves. -/
theorem HandleInv.frame (h : s.HandleInv)
    (hc : ∀ q, (s'.table.peers q).claimed = (s.table.peers q).claimed)
    (ho : ∀ q, (s'.table.peers q).isOpen = (s.table.peers q).isOpen)
    (hh : s'.handles = s.handles) : s'.HandleInv :=
  ⟨fun q => by rw [hc, hh, h.granted], fun q hq => (ho q).trans (h.closed q (hh ▸ hq))⟩

omit [DecidableEq A] in
/-- The handle of `p` moves, and no other peer changes. -/
theorem HandleInv.moved (h : s.HandleInv) {x : HandlePc}
    (hh : s'.handles = Function.update s.handles p x)
    (hp : (s'.table.peers p).claimed = x.granted)
    (hx : x = .dropped → (s'.table.peers p).isOpen = false)
    (hq : ∀ q ≠ p, s'.table.peers q = s.table.peers q) : s'.HandleInv := by
  refine ⟨fun q => ?_, fun q hd => ?_⟩
  · by_cases e : q = p
    · subst e
      rw [hp, hh, Function.update_self]
    · rw [hq q e, hh, Function.update_of_ne e, h.granted]
  · by_cases e : q = p
    · subst e
      rw [hh, Function.update_self] at hd
      exact hx hd
    · rw [hh, Function.update_of_ne e] at hd
      rw [hq q e]
      exact h.closed q hd

theorem step_handleInv (h : s.HandleInv) (hs : s.PeersInv) (he : step demux s a = some s') :
    s'.HandleInv := by
  cases step_view he with
  | claim a | claimInline a =>
    exact h.moved (x := .claiming) rfl (congrArg _ (PeerTable.create_self s.table a)) (by rintro ⟨⟩)
      fun q e => PeerTable.create_of_ne s.table e a
  | arm p hp =>
    refine h.moved (x := .held) rfl ?_ (by rintro ⟨⟩) fun _ _ => rfl
    exact (h.granted p).trans (by rw [hp]; rfl)
  | setCallbacks p d e hp =>
    let f : Peer A → Peer A := fun x => { x with onData := d, onError := e }
    exact h.frame (PeerTable.modify_field Peer.claimed f (fun _ => rfl) s.table p)
      (PeerTable.modify_field Peer.isOpen f (fun _ => rfl) s.table p) rfl
  | relinquish p hp ho =>
    have hg : (s.table.peers p).claimed = true := (h.granted p).trans (by rw [hp]; rfl)
    refine h.moved (x := if demux then .relinquishing else .held) rfl ?_ ?_
      fun q e => Function.update_of_ne e ..
    · exact (PeerTable.exchangeOpen_claimed s.table p p).trans (hg.trans (by cases demux <;> rfl))
    · cases demux <;> rintro ⟨⟩
  | closeSocket p hp =>
    have hg : (s.table.peers p).claimed = true := (h.granted p).trans (by rw [hp]; rfl)
    refine h.moved (x := .held) rfl ?_ (by rintro ⟨⟩)
      fun q e => PeerTable.closeSocket_of_ne s.table e
    exact (PeerTable.closeSocket_field Peer.claimed (fun _ => rfl) s.table p p).trans hg
  | destroy p hp ho =>
    refine h.moved (x := .dropped) rfl ?_ (fun _ => ho) fun _ _ => rfl
    exact (h.granted p).trans (by rw [hp]; rfl)
  | grant p sock tfd ctl t hl hf hc =>
    obtain ⟨-, fd, rfl, -⟩ := PeerTable.executeClaim_ok hc
    exact h.moved (x := .claimed) rfl (congrArg _ (PeerTable.enter_self s.table p fd))
      (by rintro ⟨⟩) fun q e => PeerTable.enter_of_ne s.table e fd
  | refuse p sock tfd ctl hl =>
    have hp : p ∈ s.claims := by rw [claims, hl]; exact List.mem_cons_self
    refine h.moved (x := .refused) rfl ?_ (by rintro ⟨⟩) fun _ _ => rfl
    exact (h.granted p).trans (by rw [hs.claiming p hp]; rfl)
  | _ => exact h.frame (fun _ => rfl) (fun _ => rfl) rfl

/-- A live handle stays until it is destroyed. -/
theorem step_live (h : s.HandleInv) (hs : s.PeersInv) (he : step demux s a = some s')
    (hl : (s.handles p).live = true) : (s'.handles p).live = true ∨ a = .destroy p := by
  have hkeep {q : Nat} {x : HandlePc} (hx : p = q → x.live = true) :
      (Function.update s.handles q x p).live = true := by
    by_cases e : p = q
    · subst e
      rw [Function.update_self]
      exact hx rfl
    · rwa [Function.update_of_ne e]
  cases step_view he with
  | claim a | claimInline a =>
    refine .inl (hkeep fun e => absurd (hs.table.made p ?_) (e ▸ Nat.lt_irrefl _))
    exact (h.granted p).trans (HandlePc.granted_of_live hl)
  | arm q hq => exact .inl (hkeep fun _ => rfl)
  | relinquish q hq ho => exact .inl (hkeep fun _ => by cases demux <;> rfl)
  | closeSocket q hq => exact .inl (hkeep fun _ => rfl)
  | destroy q hq ho =>
    by_cases e : p = q
    · exact .inr (e ▸ rfl)
    · exact .inl (hkeep fun e' => absurd e' e)
  | grant q sock tfd ctl t hc hf ht => exact .inl (hkeep fun _ => rfl)
  | refuse q sock tfd ctl hc =>
    have hq : q ∈ s.claims := by rw [claims, hc]; exact List.mem_cons_self
    refine .inl (hkeep fun e => ?_)
    rw [e, hs.claiming q hq] at hl
    cases hl
  | _ => exact .inl hl

/-! ## Where references come from -/

omit [DecidableEq A] in
theorem peer_of_mem_armTasks {x : Peer A} {q : Nat} {t : PeerTask} (h : t ∈ armTasks demux x q) :
    t.peer = some q := by
  unfold armTasks at h
  split at h
  · cases hs : x.sock with
    | none => rw [hs] at h; cases h
    | some fd =>
      rw [hs] at h
      cases List.mem_singleton.1 h
      rfl
  · cases h

omit [DecidableEq A] in
/-- Tasks of peer `q` are posted. -/
theorem posted_post {ts : List PeerTask} {q : Nat}
    (hts : ∀ t ∈ ts, t.peer = none ∨ t.peer = some q)
    (h : ∃ t ∈ (s.posts.post ts).pending, t.peer = some p) : s.Posted p ∨ p = q := by
  obtain ⟨t, ht, hp⟩ := h
  rw [PostQueue.pending_post, List.mem_append] at ht
  rcases ht with ht | ht
  · exact .inl ⟨t, ht, hp⟩
  · rcases hts t ht with hn | hq
    · cases hn.symm.trans hp
    · exact .inr (Option.some.inj (hp.symm.trans hq))

theorem step_posted (he : step demux s a = some s') (h : s'.Posted p) :
    s.Posted p ∨ (s.handles p).live = true := by
  cases step_view he with
  | claim a =>
    obtain ⟨t, ht, hp⟩ := h
    replace ht : t ∈ (s.posts.post [.claim s.table.made]).pending := ht
    rw [PostQueue.pending_post, List.mem_append, List.mem_singleton] at ht
    rcases ht with ht | rfl
    · exact .inl ⟨t, ht, hp⟩
    · cases hp
  | arm q hq =>
    rcases posted_post (fun t ht => .inr (peer_of_mem_armTasks ht)) h with h | rfl
    · exact .inl h
    · exact .inr (by rw [hq]; rfl)
  | timer q timeout rep hq =>
    rcases posted_post (q := q) (fun t ht => .inr (by cases List.mem_singleton.1 ht; rfl)) h with
      h | rfl
    · exact .inl h
    · exact .inr (by rw [hq]; rfl)
  | post q hq =>
    rcases posted_post (q := q) (fun t ht => .inr (by cases List.mem_singleton.1 ht; rfl)) h with
      h | rfl
    · exact .inl h
    · exact .inr (by rw [hq]; rfl)
  | swap q hq =>
    obtain ⟨t, ht, hp⟩ := h
    exact .inl ⟨t, PostQueue.pending_swap hq ▸ ht, hp⟩
  | enterPoll q hq =>
    obtain ⟨t, ht, hp⟩ := h
    exact .inl ⟨t, PostQueue.pending_enterPoll hq ▸ ht, hp⟩
  | next t q hl hq =>
    obtain ⟨t', ht, hp⟩ := h
    exact .inl ⟨t', by rw [PostQueue.pending_next hq]; exact List.mem_cons_of_mem _ ht, hp⟩
  | _ => exact .inl h

theorem step_registered (he : step demux s a = some s') (h : s'.Registered p) :
    s.Registered p ∨ s.loop.peer = some p := by
  cases step_view he with
  | closeSocket q hq =>
    obtain ⟨e, hm, hp⟩ := h
    refine .inl ⟨e, ?_, hp⟩
    replace hm : e ∈ (s.table.closeSocket q).disp.callbacks.entries := hm
    unfold PeerTable.closeSocket at hm
    split at hm
    · exact hm
    · exact Epoll.mem_callbacks_remove hm
  | grant q sock tfd ctl t hl hf hc =>
    obtain ⟨-, fd, rfl, -⟩ := PeerTable.executeClaim_ok hc
    exact .inl h
  | register q fd sock tfd ctl hl =>
    obtain ⟨e, hm, rfl⟩ := h
    rcases Epoll.mem_callbacks_add hm with hq | hm
    · exact .inr (by rw [hl, hq]; rfl)
    · exact .inl ⟨e, hm, rfl⟩
  | schedule q timeout rep sock tfd ctl hl =>
    obtain ⟨e, hm, hp⟩ := h
    exact .inl ⟨e, Epoll.scheduleTimer_callbacks (d := s.table.disp) .. ▸ hm, hp⟩
  | timerReturn fd q hl =>
    obtain ⟨e, hm, hp⟩ := h
    refine .inl ⟨e, ?_, hp⟩
    cases hi : s.table.disp.timers.lookup fd with
    | none => simpa only [hi, Option.elim_none] using hm
    | some info =>
      simpa only [hi, Option.elim_some, Epoll.afterTimer_callbacks] using hm
  | _ => exact .inl h

theorem step_timed (he : step demux s a = some s') (h : s'.Timed p) :
    s.Timed p ∨ s.loop.peer = some p := by
  cases step_view he with
  | closeSocket q hq =>
    obtain ⟨e, hm, hp⟩ := h
    refine .inl ⟨e, ?_, hp⟩
    replace hm : e ∈ (s.table.closeSocket q).disp.timers.entries := hm
    unfold PeerTable.closeSocket at hm
    split at hm
    · exact hm
    · exact Epoll.remove_timers (d := s.table.disp) _ ▸ hm
  | grant q sock tfd ctl t hl hf hc =>
    obtain ⟨-, fd, rfl, -⟩ := PeerTable.executeClaim_ok hc
    exact .inl h
  | register q fd sock tfd ctl hl =>
    obtain ⟨e, hm, hp⟩ := h
    exact .inl ⟨e, Epoll.add_timers (d := s.table.disp) .. ▸ hm, hp⟩
  | schedule q timeout rep sock tfd ctl hl =>
    obtain ⟨e, hm, rfl⟩ := h
    rcases Epoll.mem_timers_scheduleTimer hm with hq | hm
    · exact .inr (by rw [hl, hq]; rfl)
    · exact .inl ⟨e, hm, rfl⟩
  | timerReturn fd q hl =>
    obtain ⟨e, hm, hp⟩ := h
    refine .inl ⟨e, ?_, hp⟩
    cases hi : s.table.disp.timers.lookup fd with
    | none => simpa only [hi, Option.elim_none] using hm
    | some info =>
      simp only [hi, Option.elim_some] at hm
      exact Epoll.mem_timers_afterTimer hm
  | cancelTimer fd =>
    obtain ⟨e, hm, hp⟩ := h
    exact .inl ⟨e, Epoll.mem_entries_erase hm, hp⟩
  | _ => exact .inl h

omit [DecidableEq A] in
/-- A callback is submitted to the serial queue of `q`. -/
theorem queued_submit {q : Nat} {cb : PeerCallback}
    (h : ∃ c ∈ ((s.pool.submit q cb).queues p).pending, c.captures = true) :
    s.Queued p ∨ p = q ∧ cb.captures = true := by
  obtain ⟨c, hc, hcap⟩ := h
  rcases SerialPool.step_pending (b := id) (a := .submit q cb) rfl hc with hc | e
  · exact .inl ⟨c, hc, hcap⟩
  · cases e
    exact .inr ⟨rfl, hcap⟩

theorem step_queued (he : step demux s a = some s') (h : s'.Queued p) :
    s.Queued p ∨ s.loop.peer = some p := by
  cases step_view he with
  | posted q sock tfd ctl hl => exact .inl ((queued_submit h).resolve_right nofun)
  | timerReturn fd q hl => exact .inl ((queued_submit h).resolve_right nofun)
  | recvError q hl =>
    exact (queued_submit h).imp_right fun e => by rw [hl, e.1]; rfl
  | submit q own hl =>
    exact (queued_submit h).imp_right fun e => by rw [hl, e.1]; rfl
  | take w pool hp =>
    obtain ⟨c, hc, hcap⟩ := h
    exact .inl ⟨c, (SerialPool.step_pending (a := .take w) hp hc).resolve_right nofun, hcap⟩
  | drainLock w pool hp =>
    obtain ⟨c, hc, hcap⟩ := h
    have hold := SerialPool.step_pending (b := id) (a := .drainLock w) hp hc
    exact .inl ⟨c, hold.resolve_right nofun, hcap⟩
  | fnReturn w pool hp =>
    obtain ⟨c, hc, hcap⟩ := h
    exact .inl ⟨c, (SerialPool.step_pending (b := id) (a := .fnReturn w) hp hc).resolve_right nofun,
      hcap⟩
  | _ => exact .inl h

theorem peer_back {q : Nat} {own : Bool} (h : (PeerLoopPc.back q own).peer = some p) : q = p := by
  cases own with
  | true => exact Option.some.inj h
  | false => cases h

/-- The loop thread gets into a peer through a reference, or through the entry of an open one. -/
theorem step_loop (hh : s.HandleInv) (hs : s.PeersInv) (he : step demux s a = some s')
    (h : s'.loop.peer = some p) : s.Touches p ∨ (s.handles p).live = true := by
  cases step_view he with
  | next t q hl hq =>
    refine .inl (.inl (.inl ⟨t, ?_, h⟩))
    rw [PostQueue.pending_next hq]
    exact List.mem_cons_self
  | fire fd info hl hi =>
    cases h
    exact .inl (.inl (.inr (.inr (.inl ⟨⟨fd, info⟩, AList.mem_lookup_iff.1 hi, rfl⟩))))
  | readable fd q hl hc =>
    cases h
    exact .inl (.inl (.inr (.inl ⟨⟨fd, p⟩, AList.mem_lookup_iff.1 hc, rfl⟩)))
  | forward a q hq ho =>
    cases h
    have hg := (hh.granted p).symm.trans (hs.table.entry a p hq).1
    refine .inr (HandlePc.live_of_granted hg fun hd => ?_)
    cases (hh.closed p hd).symm.trans ho
  | claimInline a hl => cases h
  | recvData q hl => exact .inl (.inr (by rw [hl]; exact h))
  | deliver q own hl => exact .inl (.inr (by rw [hl]; exact h))
  | discard q own hl => exact .inl (.inr (by rw [hl, ← peer_back h]; rfl))
  | submit q own hl => exact .inl (.inr (by rw [hl, ← peer_back h]; rfl))
  | grant q sock tfd ctl t hl hf hc => cases h
  | refuse q sock tfd ctl hl => cases h
  | register q fd sock tfd ctl hl => cases h
  | schedule q timeout rep sock tfd ctl hl => cases h
  | posted q sock tfd ctl hl => cases h
  | timerReturn fd q hl => cases h
  | recvEnd q r hl => cases h
  | recvError q hl => cases h
  | _ => exact .inl (.inr h)

theorem step_touches (hh : s.HandleInv) (hs : s.PeersInv) (he : step demux s a = some s')
    (h : s'.Touches p) : s.Touches p ∨ (s.handles p).live = true := by
  rcases h with (h | h | h | h) | h
  · exact (step_posted he h).imp_left fun h => .inl (.inl h)
  · exact .inl ((step_registered he h).imp_left fun h => .inr (.inl h))
  · exact .inl ((step_timed he h).imp_left fun h => .inr (.inr (.inl h)))
  · exact .inl ((step_queued he h).imp_left fun h => .inr (.inr (.inr h)))
  · exact step_loop hh hs he h

/-! ## Runs -/

/-- A handle is destroyed only when no task, timer or callback refers to its peer and the
loop thread is not in it. -/
def LifetimeOk (s : DgramPeers A n) : Act A n → Prop
  | .destroy p => ¬ s.Touches p
  | _ => True

instance (s : DgramPeers A n) : (a : Act A n) → Decidable (s.LifetimeOk a)
  | .destroy p => inferInstanceAs (Decidable (¬ s.Touches p))
  | .onData _ | .claim _ | .claimInline _ | .arm _ | .setCallbacks _ _ _ | .timer _ _ _ | .post _
  | .relinquish _ | .closeSocket _ | .swap | .next | .enterPoll | .run _ _ _ | .fire _
  | .timerReturn | .cancelTimer _ | .readable _ | .recv _ | .deliver | .submit | .datagram _
  | .take _ | .drainLock _ | .fnReturn _ => isTrue trivial

variable [Inhabited A] {ok : DgramPeers A n → Act A n → Prop}

theorem reach_handleInv (h : (machine A demux n).ReachOk ok s) : s.HandleInv :=
  h.inv (I := HandleInv) (fun _ h0 => h0 ▸ ⟨fun _ => rfl, nofun⟩)
    fun _ _ _ hr hi _ he => step_handleInv hi (reach_peersInv hr) he

theorem reach_live (h : (machine A demux n).ReachOk LifetimeOk s) :
    ∀ p, s.Touches p → (s.handles p).live = true := by
  refine h.inv (I := fun s => ∀ p, s.Touches p → (s.handles p).live = true) ?_ ?_
  · rintro _ rfl p (h | h)
    · rcases h with ⟨_, h, _⟩ | ⟨_, h, _⟩ | ⟨_, h, _⟩ | ⟨_, h, _⟩ <;> cases h
    · cases h
  · intro s a s' hr ih hok he p ht
    have hh := reach_handleInv hr
    have hs := reach_peersInv hr
    have hl : (s.handles p).live = true := (step_touches hh hs he ht).elim (ih p) id
    refine (step_live hh hs he hl).resolve_right ?_
    rintro rfl
    -- destroying a handle adds no reference
    cases step_view (show step demux s (.destroy p) = some s' from he) with
    | destroy _ hp ho => exact hok ht

/-- **The lifetime of a peer.** In every run in which a handle is destroyed only when nothing
refers to its peer, whatever else happens on the loop, the pool and the users' threads,
an owner is left of every peer that a task in the loop's queue, a callback of the dispatcher,
a live timer or a task in a serial queue refers to. -/
theorem references_are_owned (h : (machine A demux n).ReachOk LifetimeOk s) (p : Nat)
    (hr : s.Refers p) : s.Owned p :=
  .inl (HandlePc.owns_of_live (reach_live h p (.inl hr)))

/-- Peer 0 is claimed, relinquished and destroyed when nothing refers to it; peer 1 has its
socket registered and a datagram in its serial queue. -/
theorem references_are_owned_queued : ∃ s : DgramPeers Nat 1,
    (machine Nat true 1).ReachOk LifetimeOk s ∧ s.handles 0 = .dropped ∧ s.Refers 1 ∧
      s.Owned 1 := by
  obtain ⟨s, h, hp⟩ := Machine.ReachOk.of_runOk_init (M := machine Nat true 1) LifetimeOk
    (fun s => decide (s.handles 0 = .dropped ∧ (s.pool.queues 1).pending = [.onData]))
    [.claim 3, .swap, .next, .run (.ok 5) none false, .arm 0, .enterPoll, .swap, .next,
      .run (.ok 0) none true, .relinquish 0, .closeSocket 0, .destroy 0, .claim 7, .enterPoll,
      .swap, .next, .run (.ok 5) none false, .arm 1, .enterPoll, .swap, .next,
      .run (.ok 0) none true, .setCallbacks 1 true false, .enterPoll, .readable 5, .recv .data,
      .deliver, .submit] rfl (by decide)
  obtain ⟨hd, hq⟩ := of_decide_eq_true hp
  have hr : s.Refers 1 := .inr (.inr (.inr ⟨.onData, by rw [hq]; exact List.mem_cons_self, rfl⟩))
  exact ⟨s, h, hd, hr, references_are_owned h 1 hr⟩

/-- A datagram for peer 0 waits in its serial queue while the peer is relinquished and its handle
destroyed. The next datagram from the address, now the parent's, erases the entry, and
the queued callback refers to a peer without an owner. -/
theorem reference_without_owner : ∃ s : DgramPeers Nat 1, (machine Nat true 1).Reach s ∧
    s.Refers 0 ∧ ¬ s.Owned 0 := by
  obtain ⟨s, h, hp⟩ := Machine.Reach.of_run_init (M := machine Nat true 1)
    (fun s => decide (s.handles 0 = .dropped ∧ (s.pool.queues 0).pending = [.onData] ∧
      (s.table.peers 0).addr = 7 ∧ s.table.claimedPeers.lookup 7 = none))
    [.onData true, .claim 7, .swap, .next, .run (.ok 5) none false, .arm 0, .enterPoll, .swap,
      .next, .run (.ok 0) none true, .setCallbacks 0 true false, .enterPoll, .readable 5,
      .recv .data, .deliver, .submit, .recv .wouldBlock, .relinquish 0, .closeSocket 0, .destroy 0,
      .datagram 7] rfl (by decide)
  obtain ⟨hd, hq, ha, he⟩ := of_decide_eq_true hp
  refine ⟨s, h, .inr (.inr (.inr ⟨.onData, by rw [hq]; exact List.mem_cons_self, rfl⟩)), ?_⟩
  rintro (ho | ⟨a, hentry⟩)
  · rw [hd] at ho
    cases ho
  · have haddr := ((reach_peersInv h).table.entry a 0 hentry).2
    rw [← haddr, ha, he] at hentry
    cases hentry

end DgramPeers

end Socketpp
