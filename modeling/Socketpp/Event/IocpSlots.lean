import Socketpp.Event.IocpDgram

/-!
# The receive slots of a datagram socket

`SlotInv`: at the address of a slot that is pending one operation is
outstanding, elsewhere none, and while the interest has readable all four slots
are pending. A receive that is refused at once breaks it: `arm_recv_from` leaves
the slot as it is, and only a change of the interest from not readable to
readable arms it again.
-/

namespace Socketpp.IocpDgram

variable {D : Type} {s s' : IocpDgram D} {a : Act D}

/-- The address is that of a slot that is pending. -/
def holds (s : IocpDgram D) (ov : DgramOv) : Bool := s.recvSlots == some ov.1 && s.pending ov.2

/-- What holds of the slots whatever the interest is. -/
structure SlotOk (s : IocpDgram D) : Prop where
  own : ∀ ov, s.outstanding ov = if s.holds ov then 1 else 0
  reissued : s.reissued = false
  failed : ∀ i, s.failed i = false
  owed : ∀ i, s.owed i = false

structure SlotInv (s : IocpDgram D) : Prop extends SlotOk s where
  armed : s.readable = true → s.recvSlots.isSome = true ∧ ∀ i, s.pending i = true
  unregistered : s.registered = false → s.recvSlots = none
  idle : s.polling = false → s.entries = []

theorem start_slotInv : (start : IocpDgram D).SlotInv :=
  ⟨⟨fun _ => rfl, rfl, fun _ => rfl, fun _ => rfl⟩, nofun, fun _ => rfl, fun _ => rfl⟩

/-- `WSARecvFrom` is never refused at once, and the socket is added once. -/
def Accepted (s : IocpDgram D) : Act D → Prop
  | .add _ _ oks => s.registered = false ∧ ∀ i, oks i = true
  | .modify _ _ oks => ∀ i, oks i = true
  | .entry ok => ok = true
  | _ => True

instance (s : IocpDgram D) : (a : Act D) → Decidable (s.Accepted a)
  | .add _ _ _ => inferInstanceAs (Decidable (_ ∧ _))
  | .modify _ _ oks => inferInstanceAs (Decidable (∀ i, oks i = true))
  | .entry ok => inferInstanceAs (Decidable (ok = true))
  | .finish _ _ | .poll _ | .notify | .pollReturn => isTrue trivial

/-! ## Arming -/

/-- A slot that is not pending is armed. -/
theorem armRecvFrom_eq {base : Nat} {i : Fin 4} (hb : s.recvSlots = some base)
    (hp : s.pending i = false) (ho : s.outstanding (base, i) = 0) :
    s.armRecvFrom i true = { s with
      failed := Function.update s.failed i false
      owed := Function.update s.owed i false
      pending := Function.update s.pending i true
      inFlight := s.inFlight ++ [(base, i)] } := by
  simp [armRecvFrom, hb, hp, ho]

theorem armRecvFrom_of_pending {i : Fin 4} (hp : s.pending i = true) (ok : Bool) :
    s.armRecvFrom i ok = s := by
  unfold armRecvFrom
  split
  · rfl
  · rw [if_pos hp]

/-- A change of one slot's flag is none to the others. -/
theorem holds_of_ne {base : Nat} {i : Fin 4} {b : Bool} {ov : DgramOv}
    (hb : s.recvSlots = some base) (hb' : s'.recvSlots = s.recvSlots)
    (hp : s'.pending = Function.update s.pending i b) (hne : ov ≠ (base, i)) :
    s'.holds ov = s.holds ov := by
  unfold holds
  rw [hb', hp, hb]
  by_cases e : ov.2 = i
  · have hov : base ≠ ov.1 := fun e' => hne (Prod.ext e'.symm e)
    have hf : (some base == some ov.1) = false := by simpa using hov
    rw [hf, Bool.false_and, Bool.false_and]
  · rw [Function.update_of_ne e]

theorem SlotOk.own_of_ne (h : s.SlotOk) {base : Nat} {i : Fin 4} {b : Bool} {ov : DgramOv}
    (hb : s.recvSlots = some base) (hb' : s'.recvSlots = s.recvSlots)
    (hp : s'.pending = Function.update s.pending i b) (hne : ov ≠ (base, i))
    (ho : s'.outstanding ov = s.outstanding ov) :
    s'.outstanding ov = if s'.holds ov then 1 else 0 := by
  rw [holds_of_ne hb hb' hp hne, ho]
  exact h.own ov

theorem SlotOk.arm (h : s.SlotOk) {base : Nat} (hb : s.recvSlots = some base) (i : Fin 4) :
    (s.armRecvFrom i true).SlotOk ∧
      (s.armRecvFrom i true).pending = Function.update s.pending i true := by
  cases hp : s.pending i with
  | true =>
    rw [armRecvFrom_of_pending hp]
    exact ⟨h, by rw [← hp, Function.update_eq_self]⟩
  | false =>
    have hown := h.own (base, i)
    have hh : s.holds (base, i) = false := by simp [holds, hp]
    rw [hh] at hown
    rw [armRecvFrom_eq hb hp hown]
    refine ⟨⟨fun ov => ?_, h.reissued, fun j => ?_, fun j => ?_⟩, rfl⟩
    · by_cases e : ov = (base, i)
      · subst e
        simp [outstanding, holds, hb] at hown ⊢
        omega
      · exact h.own_of_ne hb rfl rfl e (by simp [outstanding, Ne.symm e])
    · by_cases e : j = i
      · subst e
        exact Function.update_self ..
      · exact (Function.update_of_ne e ..).trans (h.failed j)
    · by_cases e : j = i
      · subst e
        exact Function.update_self ..
      · exact (Function.update_of_ne e ..).trans (h.owed j)

theorem SlotOk.foldl_arm {base : Nat} {oks : Fin 4 → Bool} (hoks : ∀ i, oks i = true)
    (l : List (Fin 4)) {s : IocpDgram D} (h : s.SlotOk) (hb : s.recvSlots = some base) :
    (l.foldl (fun s i => s.armRecvFrom i (oks i)) s).SlotOk ∧
      ∀ i, i ∈ l ∨ s.pending i = true →
        (l.foldl (fun s i => s.armRecvFrom i (oks i)) s).pending i = true := by
  induction l generalizing s with
  | nil => exact ⟨h, fun i hi => hi.resolve_left List.not_mem_nil⟩
  | cons j l ih =>
    rw [List.foldl_cons, hoks j]
    obtain ⟨h', hp⟩ := h.arm hb j
    have hb' : (s.armRecvFrom j true).recvSlots = some base := by
      obtain ⟨p, f, r, fl, ow, e⟩ := s.armRecvFrom_frame j true
      rw [e]
      exact hb
    obtain ⟨h1, h2⟩ := ih h' hb'
    refine ⟨h1, fun i hi => h2 i ?_⟩
    rw [hp]
    by_cases e : i = j
    · subst e
      exact .inr (Function.update_self ..)
    · rw [Function.update_of_ne e]
      exact hi.imp_left fun hm => (List.mem_cons.1 hm).resolve_left e

/-- The loop over the slots arms those that are not pending. -/
theorem SlotOk.armSlots (h : s.SlotOk) {base : Nat} (hb : s.recvSlots = some base)
    {oks : Fin 4 → Bool} (hoks : ∀ i, oks i = true) :
    (s.armSlots oks).SlotOk ∧ ∀ i, (s.armSlots oks).pending i = true := by
  obtain ⟨h1, h2⟩ := foldl_arm hoks (List.finRange 4) h hb
  exact ⟨h1, fun i => h2 i (.inl (List.mem_finRange i))⟩

/-- A new array has no operations outstanding. -/
theorem SlotOk.allocate (h : s.SlotOk) (base : Nat) : (s.allocate base).SlotOk := by
  unfold IocpDgram.allocate
  split
  · rename_i hn
    refine ⟨fun ov => ?_, h.reissued, h.failed, h.owed⟩
    have hown := h.own ov
    have hh : s.holds ov = false := by simp [holds, hn]
    rw [hh] at hown
    have hh' : holds { s with recvSlots := some base, pending := fun _ => false } ov = false :=
      Bool.and_false _
    rw [hh']
    exact hown
  · exact h

/-- Readable interest is new: the array is there and all slots are armed. -/
theorem SlotOk.restored (h : s.SlotOk) (hreg : s.registered = true)
    (hidle : s.polling = false → s.entries = []) (base : Nat) {oks : Fin 4 → Bool}
    (hoks : ∀ i, oks i = true) : ((s.allocate base).armSlots oks).SlotInv := by
  obtain ⟨b, p, e⟩ := s.allocate_frame base
  have hb : (s.allocate base).recvSlots = some b := by rw [e]
  obtain ⟨h1, h2⟩ := (h.allocate base).armSlots hb hoks
  obtain ⟨p', f, r, fl, ow, e'⟩ := (s.allocate base).armSlots_frame oks
  refine ⟨h1, fun _ => ⟨?_, h2⟩, fun hf => ?_, fun hf => ?_⟩
  · rw [e', e]
    rfl
  · rw [e', e] at hf
    cases hreg.symm.trans hf
  · rw [e', e] at hf ⊢
    exact hidle hf

/-! ## Steps -/

namespace SlotInv

theorem add (h : s.SlotInv) {interest : IoEvent} {base : Nat} {oks : Fin 4 → Bool}
    (hok : s.Accepted (.add interest base oks)) : (s.add interest base oks).SlotInv := by
  obtain ⟨hreg, hoks⟩ := hok
  have hnone (ov : DgramOv) : s.outstanding ov = 0 := by
    have hh : s.holds ov = false := by simp [holds, h.unregistered hreg]
    rw [h.own ov, hh]
    rfl
  unfold IocpDgram.add
  simp only
  split
  · refine SlotOk.restored ?_ ?_ ?_ base hoks
    · exact ⟨hnone, h.reissued, fun _ => rfl, fun _ => rfl⟩
    · rfl
    · exact h.idle
  · rename_i hr
    exact ⟨⟨hnone, h.reissued, fun _ => rfl, fun _ => rfl⟩, fun hr' => absurd hr' hr, nofun,
      h.idle⟩

theorem modify (h : s.SlotInv) {interest : IoEvent} {base : Nat} {oks : Fin 4 → Bool}
    (hoks : ∀ i, oks i = true) : (s.modify interest base oks).SlotInv := by
  unfold IocpDgram.modify
  split
  · rename_i hreg
    split
    · refine SlotOk.restored ?_ ?_ ?_ base hoks
      · exact ⟨h.own, h.reissued, h.failed, h.owed⟩
      · exact hreg
      · exact h.idle
    · rename_i hm
      refine ⟨⟨h.own, h.reissued, h.failed, h.owed⟩, fun hr => h.armed ?_, h.unregistered, h.idle⟩
      simp only [readable, Bool.and_eq_true] at hr ⊢
      exact ⟨hreg, by simpa [hr.2] using hm⟩
  · exact h

/-- The packet of a pending slot is gone over, and the slot is armed again if it should be. -/
theorem receive (h : s.SlotInv) {base : Nat} {i : Fin 4} {d : Option D}
    {rest : List (DgramOv × Option D)} (hent : s.entries = ((base, i), d) :: rest)
    (hb : s.recvSlots = some base) (hp : s.pending i = true) :
    ({ s with entries := rest }.receive i d true).SlotInv := by
  let s₁ : IocpDgram D := { s with
    entries := rest
    pending := Function.update s.pending i false
    dgramQueue := s.dgramQueue ++ d.toList }
  have hpoll : s.polling = true := by
    by_contra hf
    cases hent.symm.trans (h.idle (Bool.eq_false_of_not_eq_true hf))
  have hok : s₁.SlotOk := by
    refine ⟨fun ov => ?_, h.reissued, h.failed, h.owed⟩
    by_cases e : ov = (base, i)
    · subst e
      have hown := h.own (base, i)
      simp [s₁, outstanding, holds, hb, hp, hent] at hown ⊢
      omega
    · exact h.own_of_ne hb rfl rfl e (by simp [s₁, outstanding, hent, Ne.symm e])
  have hreg (hf : s.registered = false) : s.recvSlots = none := h.unregistered hf
  have hidle (hf : s.polling = false) : rest = [] := by cases hpoll.symm.trans hf
  unfold IocpDgram.receive
  simp only
  split
  · rename_i hr
    obtain ⟨h1, h2⟩ := hok.arm hb i
    obtain ⟨p, f, q, fl, ow, e⟩ := s₁.armRecvFrom_frame i true
    have hall : (s₁.armRecvFrom i true).pending = s.pending := by
      rw [h2, Function.update_idem, ← hp, Function.update_eq_self]
    obtain ⟨hsome, hpend⟩ := h.armed hr
    refine ⟨h1, fun _ => ⟨?_, fun j => (congrFun hall j).trans (hpend j)⟩, fun hf => ?_,
      fun hf => ?_⟩
    · rw [e]
      exact hsome
    · rw [e] at hf ⊢
      exact hreg hf
    · rw [e] at hf ⊢
      exact hidle hf
  · rename_i hr
    exact ⟨hok, fun hr' => absurd hr' hr, hreg, hidle⟩

/-- The queue and the turns in phase B are not what the invariant is about. -/
theorem turn (h : s.SlotInv) (queue : List D) (notified : Bool) (ready : Nat) :
    SlotInv { s with dgramQueue := queue, dgramNotified := notified, dgramReady := ready } :=
  ⟨⟨h.own, h.reissued, h.failed, h.owed⟩, h.armed, h.unregistered, h.idle⟩

theorem complete (h : s.SlotInv) {ov : DgramOv} {d : Option D}
    {rest : List (DgramOv × Option D)} (hent : s.entries = (ov, d) :: rest) :
    ({ s with entries := rest }.complete ov d true).SlotInv := by
  have hpos : 0 < s.outstanding ov := by
    simp only [outstanding, hent, List.map_cons, List.count_cons_self]
    omega
  have hheld : s.holds ov = true := by
    by_contra hh
    rw [h.own ov, if_neg hh] at hpos
    exact Nat.lt_irrefl 0 hpos
  obtain ⟨hb, hp⟩ := Bool.and_eq_true_iff.1 hheld
  have hrecv := h.receive hent (beq_iff_eq.1 hb) hp
  unfold IocpDgram.complete
  simp only
  split
  · split
    · exact hrecv
    · exact hrecv.turn _ _ _
  · -- the packet is one of the slots, so the socket is registered
    rename_i hm
    refine absurd (Bool.and_eq_true_iff.2 ⟨?_, hb⟩) hm
    by_contra hreg
    rw [h.unregistered (Bool.eq_false_of_not_eq_true hreg)] at hb
    cases hb

theorem phaseB (h : s.SlotInv) (n : Nat) : SlotInv { s with dgramReady := n }.phaseB := by
  unfold IocpDgram.phaseB
  simp only
  split
  · split
    · exact h.turn _ _ _
    · exact h.turn _ _ _
  · exact h.turn _ _ _

end SlotInv

theorem step_slotInv (h : s.SlotInv) (hok : s.Accepted a) (he : step s a = some s') :
    s'.SlotInv := by
  cases a with
  | add interest base oks => cases he; exact h.add hok
  | modify interest base oks => cases he; exact h.modify hok
  | finish ov d =>
    simp only [step] at he
    split at he
    · rename_i hm
      cases he
      refine ⟨⟨fun ov' => ?_, h.reissued, h.failed, h.owed⟩, h.armed, h.unregistered, h.idle⟩
      refine Eq.trans ?_ (h.own ov')
      have hpos : 0 < s.inFlight.count ov := List.count_pos_iff.2 hm
      by_cases e : ov' = ov
      · subst e
        simp only [outstanding, List.count_erase_self, List.map_append, List.map_cons,
          List.map_nil, List.count_append, List.count_singleton_self]
        omega
      · simp [outstanding, Ne.symm e, e]
    · cases he
  | poll n =>
    simp only [step] at he
    split at he
    · cases he
    · rename_i hp
      cases he
      have hent := h.idle (Bool.eq_false_of_not_eq_true hp)
      refine ⟨⟨fun ov => ?_, h.reissued, h.failed, h.failed⟩, h.armed, h.unregistered,
        fun hf => by cases hf⟩
      refine Eq.trans ?_ (h.own ov)
      have hsplit : (s.port.map Prod.fst).count ov =
          ((s.port.take n).map Prod.fst).count ov + ((s.port.drop n).map Prod.fst).count ov := by
        rw [← List.count_append, ← List.map_append, List.take_append_drop]
      simp only [outstanding, hent, List.map_nil, List.count_nil]
      omega
  | entry ok =>
    simp only [step] at he
    split at he
    · cases he
    · rename_i ov d rest hent
      cases he
      rw [show ok = true from hok]
      exact h.complete hent
  | notify =>
    simp only [step] at he
    split at he
    · cases he
      exact h.phaseB _
    · cases he
  | pollReturn =>
    simp only [step] at he
    split at he
    · rename_i hg
      cases he
      exact ⟨⟨h.own, h.reissued, h.failed, h.owed⟩, h.armed, h.unregistered, fun _ => hg.2.1⟩
    · cases he

theorem reach_slotInv (h : (machine D).ReachOk Accepted s) : s.SlotInv :=
  h.inv (I := SlotInv) (fun s (hs : s = start) => hs ▸ start_slotInv)
    fun _ _ _ _ hi hok he => step_slotInv hi hok he

/-! ## Between polls -/

/-- Every slot has an operation in flight or a packet in the port. -/
def AllArmed (s : IocpDgram D) : Prop :=
  ∃ base, s.recvSlots = some base ∧
    ∀ i, (base, i) ∈ s.inFlight ∨ (base, i) ∈ s.port.map Prod.fst

/-- Between polls all slots of a socket with readable interest are armed, no receive was issued
on an `OVERLAPPED` in use, and each slot that had been refused was tried again in the last
`poll`. -/
def SlotsServed (s : IocpDgram D) : Prop :=
  s.reissued = false ∧ (s.polling = false → (s.readable = true → s.AllArmed) ∧
    ∀ i, s.owed i = false)

theorem SlotInv.allArmed (h : s.SlotInv) (hp : s.polling = false) (hr : s.readable = true) :
    s.AllArmed := by
  obtain ⟨hsome, hpend⟩ := h.armed hr
  obtain ⟨base, hb⟩ := Option.isSome_iff_exists.1 hsome
  refine ⟨base, hb, fun i => ?_⟩
  have hown := h.own (base, i)
  have hh : s.holds (base, i) = true := by simp [holds, hb, hpend i]
  rw [hh, if_pos rfl, outstanding, h.idle hp, List.map_nil, List.count_nil] at hown
  rcases Nat.eq_zero_or_pos (s.inFlight.count (base, i)) with h0 | hpos
  · exact .inr (List.count_pos_iff.1 (by omega))
  · exact .inl (List.count_pos_iff.1 hpos)

/-- **The receive slots stay armed** in every run in which no receive is refused at once and
the socket is added once. -/
theorem recv_slots_armed (h : (machine D).ReachOk Accepted s) : s.SlotsServed := by
  have hi := reach_slotInv h
  exact ⟨hi.reissued, fun hp => ⟨hi.allArmed hp, hi.owed⟩⟩

/-- A socket is paused with all receives outstanding, two complete, and it is resumed. -/
theorem recv_slots_armed_resume : ∃ s : IocpDgram Nat, (machine Nat).ReachOk Accepted s ∧
    s.polling = false ∧ s.readable = true ∧ s.port = [((9, 3), none)] ∧ s.SlotsServed := by
  obtain ⟨s, hr, hp⟩ := Machine.ReachOk.of_runOk_init (M := machine Nat) Accepted
    (fun s => decide (s.polling = false ∧ s.readable = true ∧ s.port = [((9, 3), none)]))
    [.add .readable 9 fun _ => true, .modify .none 0 fun _ => true, .finish (9, 2) (some 7),
      .finish (9, 3) none, .poll 1, .entry true, .notify, .pollReturn,
      .modify .readable 0 fun _ => true] rfl (by decide)
  obtain ⟨h1, h2, h3⟩ := of_decide_eq_true hp
  exact ⟨s, hr, h1, h2, h3, recv_slots_armed hr⟩

/-- The receive of slot 2 is refused in `add`, and after a whole `poll` it has not been tried
again: nothing is in flight for it. -/
theorem recv_slot_abandoned : ∃ s : IocpDgram Nat, (machine Nat).Reach s ∧
    s.polling = false ∧ s.readable = true ∧ s.recvSlots = some 9 ∧
    (9, 2) ∉ s.inFlight ∧ s.port = [] ∧ s.owed 2 = true := by
  obtain ⟨s, hr, hp⟩ := Machine.Reach.of_run_init (M := machine Nat)
    (fun s => decide (s.polling = false ∧ s.readable = true ∧ s.recvSlots = some 9 ∧
      (9, 2) ∉ s.inFlight ∧ s.port = [] ∧ s.owed 2 = true))
    [.add .readable 9 (· ≠ 2), .finish (9, 0) (some 7), .poll 1, .entry true, .notify,
      .pollReturn] rfl (by decide)
  exact ⟨s, hr, of_decide_eq_true hp⟩

end Socketpp.IocpDgram
