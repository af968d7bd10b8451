import Socketpp.Lib.Cells
import Socketpp.Socket.UdpMuxReceive

/-!
# A UDP multiplexer comes to rest

What the kernel, the mux's thread and the woken receivers do when nothing arrives
any more (`Own`). `work` is a measure each of these steps makes smaller, and a
state in which none of them is possible has dispatched every datagram and lets no
receiver sleep before a queue that is not empty.

The runs are those in which the system never refuses the receive and the mux is
not told to stop (`Served`): then the token is never lost (`ArmedInv`).
-/

namespace Socketpp

namespace MuxLoopPc

/-- The packets it has still to look at. -/
def packets : MuxLoopPc → List MuxPacket
  | .entries l => l
  | .found _ _ rest => rest
  | .rearm rest => rest
  | _ => []

/-- The steps that are left to it: four at most for a packet (one of them that of a receiver it
wakes), and two from the end of the packets to the wait. -/
def work : MuxLoopPc → Nat
  | .top => 1
  | .wait => 0
  | .entries l => 4 * l.length + 2
  | .found _ _ rest => 4 * rest.length + 5
  | .rearm rest => 4 * rest.length + 3
  | .exited => 0

end MuxLoopPc

namespace MuxReceive

variable {Addr : Type} {s s' : MuxReceive Addr} {a : Act Addr}

/-- The receive is not refused, and the mux does not stop. -/
def Served (s : MuxReceive Addr) : Act Addr → Prop
  | .rearm accepted => accepted = true
  | .stop => False
  | a => s.Careful a

instance (s : MuxReceive Addr) : (a : Act Addr) → Decidable (s.Served a)
  | .rearm _ => inferInstanceAs (Decidable (_ = true))
  | .stop => isFalse id
  | .destroy impl => inferInstanceAs (Decidable (s.Careful (.destroy impl)))
  | .arrive _ | .complete | .fail | .test | .harvest _ | .waitError | .next | .call
  | .create _ | .setCatchAll _ | .recv _ _ | .recvAgain _ _ | .spurious _ => isTrue trivial

theorem Served.careful (h : s.Served a) : s.Careful a := by
  cases a with
  | rearm | stop => trivial
  | _ => exact h

/-- What happens by itself. -/
def Own : Act Addr → Prop
  | .complete | .test | .harvest _ | .next | .call | .recvAgain _ _ => True
  | .rearm accepted => accepted = true
  | _ => False

def Stuck [DecidableEq Addr] (s : MuxReceive Addr) : Prop := ∀ a, Own a → step s a = none

/-! ## The token is never lost -/

structure ArmedInv (s : MuxReceive Addr) : Prop where
  running : s.thread ≠ .exited
  noStop : ∀ p ∈ s.port ++ s.thread.packets, p = .recv
  notStopping : s.stopRequested = false
  token : s.recvOv = .pending ∨ 0 < s.completions ∨ s.thread.rearming = true
  fresh : ∀ i, s.made ≤ i → s.inbox i = .empty

theorem start_armed [Inhabited Addr] : ArmedInv (start true : MuxReceive Addr) :=
  ⟨by rintro ⟨⟩, by rintro _ ⟨⟩, rfl, .inl rfl, fun _ _ => rfl⟩

namespace ArmedInv

/-- A receiver that is awake is one of a socket that was made. -/
theorem ready_lt (h : s.ArmedInv) {i : Nat} (hready : 0 < (s.inbox i).ready) : i < s.made := by
  by_contra hle
  rw [h.fresh i (Nat.le_of_not_lt hle)] at hready
  exact Nat.lt_irrefl 0 hready

theorem blocked_lt (h : s.ArmedInv) {i : Nat} (hblocked : 0 < (s.inbox i).blocked) :
    i < s.made := by
  by_contra hle
  rw [h.fresh i (Nat.le_of_not_lt hle)] at hblocked
  exact Nat.lt_irrefl 0 hblocked

theorem fresh_update (h : s.ArmedInv) {impl : Nat} (hlt : impl < s.made) (b : Inbox Bytes) :
    ∀ i, s.made ≤ i → Function.update s.inbox impl b i = .empty := by
  intro i hi
  rw [Function.update_of_ne (by omega)]
  exact h.fresh i hi

/-- The thread goes on and has the same completions. -/
theorem move {t : MuxLoopPc} {p : List MuxPacket} (h : s.ArmedInv) (ht : t ≠ .exited)
    (hp : ∀ x ∈ p ++ t.packets, x ∈ s.port ++ s.thread.packets)
    (hc : p.count .recv + t.completions = s.completions)
    (hr : t.rearming = s.thread.rearming) : ArmedInv { s with thread := t, port := p } := by
  refine ⟨ht, fun x hx => h.noStop x (hp x hx), h.notStopping, ?_, h.fresh⟩
  have htoken := h.token
  rwa [← hc, ← hr] at htoken

theorem packet [DecidableEq Addr] (h : s.ArmedInv) {rest : List MuxPacket}
    (ht : s.thread = .entries (.recv :: rest)) (ov : MuxOv) : ArmedInv (s.packet rest ov) := by
  have hrest : ∀ p ∈ s.port ++ rest, p = .recv := by
    intro p hp
    refine h.noStop p ?_
    rw [ht]
    rcases List.mem_append.1 hp with hp | hp
    · exact List.mem_append_left _ hp
    · exact List.mem_append_right _ (List.mem_cons_of_mem _ hp)
  unfold MuxReceive.packet
  split
  · refine ⟨by rintro ⟨⟩, hrest, h.notStopping, .inr (.inl ?_), h.fresh⟩
    exact Nat.lt_of_lt_of_le (Nat.succ_pos _) (Nat.le_add_left ..)
  · exact ⟨by rintro ⟨⟩, hrest, h.notStopping, .inr (.inr rfl), h.fresh⟩
  · exact ⟨by rintro ⟨⟩, hrest, h.notStopping, .inr (.inr rfl), h.fresh⟩

theorem callback (h : s.ArmedInv) (hreg : s.RegInv) {n : Nat} {handler : Option MuxHandler}
    {rest : List MuxPacket} (ht : s.thread = .found n handler rest) :
    ArmedInv (s.callback n handler rest) := by
  have hrest := h.noStop
  rw [ht] at hrest
  refine ⟨by rintro ⟨⟩, hrest, h.notStopping, .inr (.inr rfl), fun i hi => ?_⟩
  rw [BoxInv.callback_inbox, if_neg]
  · exact h.fresh i hi
  · intro e
    have hhand : s.thread.inHand = some (.peer i) := by
      rw [ht]
      exact e
    exact absurd (hreg.inHand i hhand).1 (Nat.not_lt_of_le hi)

end ArmedInv

theorem step_armed [DecidableEq Addr] (hi : s.Inv) (h : s.ArmedInv) (hok : s.Served a)
    (he : step s a = some s') : s'.ArmedInv := by
  have hrecv : ∀ p ∈ s.port ++ [.recv] ++ s.thread.packets, p = .recv := by
    intro p hp
    simp only [List.mem_append, List.mem_singleton] at hp
    rcases hp with (hp | hp) | hp
    · exact h.noStop p (List.mem_append_left _ hp)
    · exact hp
    · exact h.noStop p (List.mem_append_right _ hp)
  have hpending : 0 < (s.port ++ [MuxPacket.recv]).count .recv + s.thread.completions := by
    rw [FlowInv.completions_concat]
    exact Nat.succ_pos _
  cases step_view he with
  | arrive => exact ⟨h.running, h.noStop, h.notStopping, h.token, h.fresh⟩
  | complete => exact ⟨h.running, hrecv, h.notStopping, .inr (.inl hpending), h.fresh⟩
  | fail => exact ⟨h.running, hrecv, h.notStopping, .inr (.inl hpending), h.fresh⟩
  | test ht =>
    have hwait : (if s.stopRequested then MuxLoopPc.exited else .wait) = .wait := by
      rw [h.notStopping]
      rfl
    rw [hwait]
    exact h.move (by rintro ⟨⟩) (by rw [ht]; exact fun _ => id) (by rw [completions, ht]; rfl)
      (by rw [ht]; rfl)
  | harvest count ht =>
    have hsplit := List.take_append_drop count s.port
    refine h.move (by rintro ⟨⟩) (fun x hx => ?_) ?_ (by rw [ht]; rfl)
    · rw [ht]
      refine List.mem_append_left _ ?_
      rw [← hsplit]
      exact List.mem_append.2 (List.mem_append.1 hx).symm
    · rw [completions, ht]
      exact (Nat.add_comm ..).trans (List.count_append.symm.trans (congrArg _ hsplit))
  | waitError ht | nextEnd ht =>
    exact h.move (by rintro ⟨⟩) (by rw [ht]; exact fun _ => id) (by rw [completions, ht]; rfl)
      (by rw [ht]; rfl)
  | nextStop rest ht =>
    have hmem : MuxPacket.stop ∈ s.port ++ s.thread.packets := by
      rw [ht]
      exact List.mem_append_right _ List.mem_cons_self
    cases h.noStop _ hmem
  | nextRecv rest ht => exact h.packet ht s.recvOv
  | call n handler rest ht => exact h.callback hi.reg ht
  | rearm accepted rest ht =>
    have hnoStop := h.noStop
    rw [ht] at hnoStop
    refine ⟨by rintro ⟨⟩, hnoStop, h.notStopping, .inl ?_, h.fresh⟩
    have haccepted : accepted = true := hok
    show s.rearmed accepted = .pending
    rw [rearmed, h.notStopping, haccepted]
    rfl
  | stop => cases hok
  | createOk =>
    exact ⟨h.running, h.noStop, h.notStopping, h.token,
      fun i hi => h.fresh i (Nat.le_of_succ_le hi)⟩
  | createError | destroy | setCatchAll =>
    exact ⟨h.running, h.noStop, h.notStopping, h.token, h.fresh⟩
  | recv impl len hlt =>
    exact ⟨h.running, h.noStop, h.notStopping, h.token, h.fresh_update hlt _⟩
  | recvAgain impl len hready =>
    exact ⟨h.running, h.noStop, h.notStopping, h.token, h.fresh_update (h.ready_lt hready) _⟩
  | spurious impl hblocked =>
    exact ⟨h.running, h.noStop, h.notStopping, h.token, h.fresh_update (h.blocked_lt hblocked) _⟩

/-! ## The work that is left -/

/-- The receivers that are awake. -/
def awake (s : MuxReceive Addr) : Nat := ∑ i ∈ Finset.range s.made, (s.inbox i).ready

def work (s : MuxReceive Addr) : Nat :=
  8 * s.queue.length + 7 * s.port.length + s.thread.work + s.awake

/-- A callback wakes one receiver at most. -/
theorem awake_callback (hreg : s.RegInv) {n : Nat} {handler : Option MuxHandler}
    {rest : List MuxPacket} (ht : s.thread = .found n handler rest) :
    (s.callback n handler rest).awake ≤ s.awake + 1 := by
  unfold awake MuxReceive.callback
  split
  · rename_i impl
    have hlt : impl < s.made := (hreg.inHand impl (by rw [ht]; rfl)).1
    have hsum := Cells.sum_update_mem Inbox.ready s.inbox (Finset.mem_range.2 hlt)
      ((s.inbox impl).push (s.recvBuf.take n))
    have hready := Inbox.push_ready_le (s.inbox impl) (s.recvBuf.take n)
    show ∑ i ∈ Finset.range s.made, (Function.update s.inbox impl _ i).ready ≤ _
    omega
  · exact Nat.le_succ _

theorem awake_recvAgain (h : s.ArmedInv) {impl : Nat} (hready : 0 < (s.inbox impl).ready)
    (len : Nat) :
    (s.looked impl len (s.inbox impl).lookAgain).awake + 1 = s.awake := by
  have hsum := Cells.sum_update_mem Inbox.ready s.inbox (Finset.mem_range.2 (h.ready_lt hready))
    (s.inbox impl).lookAgain.2
  rw [Inbox.lookAgain_ready] at hsum
  show ∑ i ∈ Finset.range s.made, (Function.update s.inbox impl _ i).ready + 1 = _
  unfold awake
  omega

/-- The thread or a receiver goes on. -/
theorem work_lt_of_thread {k k' : Nat} (hq : s'.queue = s.queue) (hp : s'.port = s.port)
    (hk : s.thread.work = k) (hk' : s'.thread.work = k') (h : k' + s'.awake < k + s.awake) :
    s'.work < s.work := by
  rw [work, work, hq, hp, hk, hk']
  omega

theorem work_packet [DecidableEq Addr] {rest : List MuxPacket}
    (ht : s.thread = .entries (.recv :: rest)) (ov : MuxOv) :
    (s.packet rest ov).work < s.work := by
  have hk : s.thread.work = 4 * (rest.length + 1) + 2 := by
    rw [ht]
    rfl
  have hfound : 4 * rest.length + 5 < 4 * (rest.length + 1) + 2 := by omega
  have hrearm : 4 * rest.length + 3 < 4 * (rest.length + 1) + 2 := by omega
  unfold MuxReceive.packet
  split
  · exact work_lt_of_thread rfl rfl hk rfl (Nat.add_lt_add_right hfound _)
  · exact work_lt_of_thread rfl rfl hk rfl (Nat.add_lt_add_right hrearm _)
  · exact work_lt_of_thread rfl rfl hk rfl (Nat.add_lt_add_right hrearm _)

theorem work_lt [DecidableEq Addr] (hi : s.Inv) (h : s.ArmedInv) (ha : Own a)
    (he : step s a = some s') : s'.work < s.work := by
  cases step_view he with
  | complete d rest hov hq =>
    show 8 * rest.length + 7 * (s.port ++ [_]).length + s.thread.work + s.awake < s.work
    rw [work, hq, List.length_cons, List.length_append, List.length_singleton]
    omega
  | test ht =>
    have hzero : (if s.stopRequested then MuxLoopPc.exited else .wait).work = 0 := by
      split <;> rfl
    exact work_lt_of_thread rfl rfl (congrArg _ ht) hzero
      (Nat.add_lt_add_right Nat.one_pos _)
  | harvest count ht hpos hle =>
    show 8 * s.queue.length + 7 * (s.port.drop count).length +
      (4 * (s.port.take count).length + 2) + s.awake < s.work
    rw [work, ht, List.length_drop, List.length_take_of_le hle]
    simp only [MuxLoopPc.work]
    omega
  | nextEnd ht =>
    exact work_lt_of_thread rfl rfl (congrArg _ ht) rfl
      (Nat.add_lt_add_right (Nat.lt_succ_self 1) _)
  | nextStop rest ht =>
    exact work_lt_of_thread rfl rfl (congrArg _ ht) rfl
      (Nat.add_lt_add_right (Nat.succ_pos _) _)
  | nextRecv rest ht => exact work_packet ht s.recvOv
  | call n handler rest ht =>
    have hawake := awake_callback hi.reg ht
    refine work_lt_of_thread rfl rfl (congrArg _ ht) rfl ?_
    show 4 * rest.length + 3 + (s.callback n handler rest).awake < 4 * rest.length + 5 + s.awake
    omega
  | rearm accepted rest ht =>
    exact work_lt_of_thread rfl rfl (congrArg _ ht) rfl
      (Nat.add_lt_add_right (Nat.lt_succ_self _) _)
  | recvAgain impl len hready =>
    have hawake := awake_recvAgain h hready len
    refine work_lt_of_thread rfl rfl rfl rfl ?_
    show s.thread.work + _ < _
    omega
  | arrive | fail | waitError | stop | createOk | createError | destroy | setCatchAll | recv
  | spurious => cases ha

/-! ## At rest -/

/-- A thread that can do nothing waits before an empty port. -/
theorem Stuck.waiting [DecidableEq Addr] (hs : s.Stuck) (hrun : s.thread ≠ .exited) :
    s.thread = .wait ∧ s.port = [] := by
  have htest := hs .test trivial
  have hnext := hs .next trivial
  have hcall := hs .call trivial
  have hrearm := hs (.rearm true) rfl
  have hharvest := hs (.harvest 1) trivial
  cases ht : s.thread with
  | top => simp [step, ht] at htest
  | entries l =>
    rcases l with - | ⟨⟨⟩, rest⟩ <;> simp [step, ht] at hnext
  | found n handler rest => simp [step, ht] at hcall
  | rearm rest => simp [step, ht] at hrearm
  | exited => exact absurd ht hrun
  | wait =>
    refine ⟨rfl, ?_⟩
    cases hp : s.port with
    | nil => rfl
    | cons p rest => simp [step, ht, hp] at hharvest

theorem Stuck.rest [DecidableEq Addr] (hi : s.Inv) (h : s.ArmedInv) (hs : s.Stuck) :
    s.arrived = s.handled.map Prod.fst ∧
      ∀ i, 0 < (s.inbox i).blocked → (s.inbox i).queue = [] := by
  obtain ⟨ht, hport⟩ := hs.waiting h.running
  have hov : s.recvOv = .pending := by
    rcases h.token with hov | hpos | hr
    · exact hov
    · rw [completions, ht, hport] at hpos
      exact absurd hpos (Nat.lt_irrefl 0)
    · rw [ht] at hr
      cases hr
  have hqueue : s.queue = [] := by
    have hcomplete := hs .complete trivial
    cases hq : s.queue with
    | nil => rfl
    | cons d rest => simp [step, hov, hq] at hcomplete
  refine ⟨?_, fun i hblocked => ?_⟩
  · have hflow := hi.flow.flow
    rw [(hi.flow.pending_ends hov).1, hqueue] at hflow
    simpa using hflow
  · have hready : (s.inbox i).ready = 0 := by
      by_contra hne
      have hagain := hs (.recvAgain i 0) trivial
      simp [step, Nat.pos_of_ne_zero hne] at hagain
    have hserved := (hi.box i).inv.served hblocked
    rw [hready] at hserved
    exact List.eq_nil_of_length_eq_zero (Nat.le_zero.1 hserved)

theorem Own.served (ha : Own a) : s.Served a := by
  cases a with
  | complete | test | harvest | next | call | recvAgain => trivial
  | rearm => exact ha
  | arrive | fail | waitError | stop | create | destroy | setCatchAll | recv | spurious => cases ha

theorem arrived_of_own [DecidableEq Addr] (ha : Own a) (he : step s a = some s') :
    s'.arrived = s.arrived := by
  cases step_view he with
  | nextRecv rest =>
    unfold MuxReceive.packet
    split <;> rfl
  | arrive | fail | waitError | stop | createOk | createError | destroy | setCatchAll | recv
  | spurious => cases ha
  | _ => rfl

variable [DecidableEq Addr] [Inhabited Addr]

theorem reach_armed (h : (machine Addr true).ReachOk Served s) : s.Inv ∧ s.ArmedInv :=
  h.inv (I := fun s => s.Inv ∧ s.ArmedInv)
    (fun s (hs : s = start true) => hs ▸ ⟨start_inv true, start_armed⟩)
    fun _ _ _ _ hi hok he => ⟨step_inv hi.1 hok.careful he, step_armed hi.1 hi.2 hok he⟩

/-- **Nothing stays behind.** When nothing arrives any more, the kernel, the mux's thread and the
woken receivers come to rest, after a number of steps that is known beforehand; at rest every
datagram that has arrived is taken, and dispatched unless it is empty and so dropped, and no `recv`
sleeps while there is a datagram for it. -/
theorem maximal_run_receives (h : (machine Addr true).ReachOk Served s) {as : List (Act Addr)}
    (hp : (machine Addr true).Path (fun _ a => Own a) s as s') :
    as.length ≤ s.work ∧ (s'.Stuck →
      s'.handled.map Prod.fst = s.arrived ∧
        ∀ i, 0 < (s'.inbox i).blocked → (s'.inbox i).queue = []) := by
  have hstep : ∀ (t : MuxReceive Addr) a t', t.Inv ∧ t.ArmedInv → Own a →
      (machine Addr true).step t a = some t' → (t'.Inv ∧ t'.ArmedInv) ∧ t'.work < t.work :=
    fun t a t' hi ha he => ⟨⟨step_inv hi.1 ha.served.careful he,
      step_armed hi.1 hi.2 ha.served he⟩, work_lt hi.1 hi.2 ha he⟩
  have hlen := hp.length_le hstep (reach_armed h)
  refine ⟨Nat.le_of_add_right_le hlen, fun hs => ?_⟩
  obtain ⟨hi, harmed⟩ := hp.inv (fun t a t' hi ha he => (hstep t a t' hi ha he).1) (reach_armed h)
  have harrived : s'.arrived = s.arrived :=
    hp.inv (I := fun t => t.arrived = s.arrived)
      (fun t a t' ht ha he => (arrived_of_own ha he).trans ht) rfl
  obtain ⟨hall, hawake⟩ := hs.rest hi harmed
  exact ⟨hall.symm.trans harrived, hawake⟩

/-- A receiver sleeps, and its datagram has come in. -/
def asleep : MuxReceive Nat :=
  { start true with
    mux := ⟨Function.update (fun _ => none) 4 (some 0), false⟩
    made := 1
    peerAddr := Function.update (fun _ => 0) 0 4
    inbox := Function.update (fun _ => .empty) 0 ⟨[], 1, 0, [], []⟩
    returned := Function.update (fun _ => []) 0 []
    queue := [([7, 8, 9], 4)]
    arrived := [([7, 8, 9], 4)] }

theorem asleep_reach : (machine Nat true).ReachOk Served asleep :=
  .step (a := .arrive ([7, 8, 9], 4)) (.step (a := .recv 0 2)
    (.step (a := .create 4) (.init rfl) trivial rfl) trivial rfl) trivial rfl

theorem maximal_run_receives_asleep :
    ∃ as s', (machine Nat true).Path (fun _ a => Own a) asleep as s' ∧
      as.length ≤ asleep.work ∧ s'.handled.map Prod.fst = [([7, 8, 9], 4)] ∧
      s'.returned 0 = [(2, [7, 8])] := by
  have hp : (machine Nat true).Path (fun _ a => Own a) asleep
      [.complete, .test, .harvest 1, .next, .call, .rearm true, .recvAgain 0 2, .next, .test] _ :=
    .cons trivial rfl (.cons trivial rfl (.cons trivial rfl (.cons trivial rfl
      (.cons trivial rfl (.cons rfl rfl (.cons trivial rfl (.cons trivial rfl
        (.cons trivial rfl (.nil _)))))))))
  obtain ⟨hlen, hrest⟩ := maximal_run_receives asleep_reach hp
  refine ⟨_, _, hp, hlen, (hrest fun a ho => ?_).1, rfl⟩
  cases a with
  | arrive | fail | waitError | stop | create | destroy | setCatchAll | recv | spurious => cases ho
  | complete | test | next | call | rearm => rfl
  | harvest count => exact if_neg fun hc => Nat.not_lt_of_le hc.2.2 hc.1
  | recvAgain i len => rcases i with - | i <;> rfl

end MuxReceive

end Socketpp
