import Socketpp.Lib.Machine
import Socketpp.Event.Loop

/-!
# A datagram socket on the IOCP dispatcher

`iocp_dispatcher` (`src/event/iocp.cpp`) keeps four receives outstanding on a
datagram socket, one for each of its `recv_slots`. A completion is matched with
a slot by the address of its `OVERLAPPED`: here that of the array, which the
allocator chooses, and the slot. `poll` first goes over the packets it took out
of the port, buffers the datagrams and issues the receives again, and then (its
phase B) calls back once for a socket that had a completion.

`IocpDgram` is one socket. The user's calls may come at any point of a `poll`,
from the callbacks of other sockets; what the operating system answers is an
argument. An `add` that cannot associate the socket with the port changes
nothing and is left out. The socket's callback drains the queue.

`QueueInv`: a datagram waits only while readable is off or the socket's turn in
phase B is still to come.
-/

namespace Socketpp

/-- The address of an `OVERLAPPED`: the slots' array and the slot. -/
abbrev DgramOv := Nat × Fin 4

structure IocpDgram (D : Type) where
  registered : Bool
  interest : IoEvent
  /-- the address of the array, once it is allocated -/
  recvSlots : Option Nat
  pending : Fin 4 → Bool
  dgramQueue : List D
  dgramNotified : Bool
  /-- the receives the kernel has -/
  inFlight : List DgramOv
  /-- the packets in the port; `none` is an error or an empty datagram -/
  port : List (DgramOv × Option D)
  /-- those `poll` has taken out and not gone over -/
  entries : List (DgramOv × Option D)
  /-- how often the socket is still in `dgram_ready` -/
  dgramReady : Nat
  polling : Bool
  /-- a receive was issued on an `OVERLAPPED` that had one outstanding -/
  reissued : Bool
  /-- the last receive of the slot was refused -/
  failed : Fin 4 → Bool
  /-- it was so when this or the last `poll` began, and has not been tried since -/
  owed : Fin 4 → Bool
  /-- the `poll` in progress or the last one began after readable was last restored -/
  begun : Bool
  /-- one that did has returned -/
  polled : Bool

namespace IocpDgram

variable {D : Type}

def start : IocpDgram D where
  registered := false
  interest := .none
  recvSlots := none
  pending _ := false
  dgramQueue := []
  dgramNotified := false
  inFlight := []
  port := []
  entries := []
  dgramReady := 0
  polling := false
  reissued := false
  failed _ := false
  owed _ := false
  begun := false
  polled := false

/-- `has_event(state.interest, io_event::readable)` of a registered socket. -/
def readable (s : IocpDgram D) : Bool := s.registered && s.interest.hasEvent .readable

/-- The operations issued on an `OVERLAPPED` whose packet has not been gone over. -/
def outstanding (s : IocpDgram D) (ov : DgramOv) : Nat :=
  s.inFlight.count ov + (s.port.map Prod.fst).count ov + (s.entries.map Prod.fst).count ov

/-- `arm_recv_from`; `ok` is whether `WSARecvFrom` completes or becomes pending. -/
def armRecvFrom (s : IocpDgram D) (i : Fin 4) (ok : Bool) : IocpDgram D :=
  match s.recvSlots with
  | none => s
  | some base =>
    if s.pending i then s
    else
      let s := { s with
        reissued := s.reissued || decide (0 < s.outstanding (base, i))
        failed := Function.update s.failed i (!ok)
        owed := Function.update s.owed i false }
      if ok then
        { s with pending := Function.update s.pending i true
                 inFlight := s.inFlight ++ [(base, i)] }
      else s

/-- The loop over the slots in `add` and `modify`. -/
def armSlots (s : IocpDgram D) (oks : Fin 4 → Bool) : IocpDgram D :=
  (List.finRange 4).foldl (fun s i => s.armRecvFrom i (oks i)) s

/-- The array's allocation, if there is none. -/
def allocate (s : IocpDgram D) (base : Nat) : IocpDgram D :=
  match s.recvSlots with
  | none => { s with recvSlots := some base, pending := fun _ => false }
  | some _ => s

/-- `add` puts a new state in place of one there may be, and nothing is cancelled. -/
def add (s : IocpDgram D) (interest : IoEvent) (base : Nat) (oks : Fin 4 → Bool) :
    IocpDgram D :=
  let s := { s with
    registered := true
    interest := interest
    recvSlots := none
    pending := fun _ => false
    dgramQueue := []
    dgramNotified := false
    failed := fun _ => false
    owed := fun _ => false
    begun := false
    polled := false }
  if interest.hasEvent .readable then (s.allocate base).armSlots oks else s

def modify (s : IocpDgram D) (interest : IoEvent) (base : Nat) (oks : Fin 4 → Bool) :
    IocpDgram D :=
  if s.registered then
    if interest.hasEvent .readable && !s.interest.hasEvent .readable then
      ({ s with interest := interest, begun := false, polled := false }.allocate base).armSlots oks
    else { s with interest := interest }
  else s

/-- A slot's packet: the datagram is buffered and the slot armed again. -/
def receive (s : IocpDgram D) (i : Fin 4) (d : Option D) (ok : Bool) : IocpDgram D :=
  let s := { s with pending := Function.update s.pending i false
                    dgramQueue := s.dgramQueue ++ d.toList }
  if s.readable then s.armRecvFrom i ok else s

/-- `poll` goes over one packet. -/
def complete (s : IocpDgram D) (ov : DgramOv) (d : Option D) (ok : Bool) : IocpDgram D :=
  if s.registered && s.recvSlots == some ov.1 then
    let s := s.receive ov.2 d ok
    if s.dgramNotified then s
    else { s with dgramNotified := true, dgramReady := s.dgramReady + 1 }
  else s

/-- The socket's turn in phase B. -/
def phaseB (s : IocpDgram D) : IocpDgram D :=
  if s.registered then
    let s := { s with dgramNotified := false }
    if s.dgramQueue.isEmpty || !s.readable then s else { s with dgramQueue := [] }
  else s

inductive Act (D : Type) where
  | add (interest : IoEvent) (base : Nat) (oks : Fin 4 → Bool)
  | modify (interest : IoEvent) (base : Nat) (oks : Fin 4 → Bool)
  /-- the kernel completes a receive and queues its packet -/
  | finish (ov : DgramOv) (d : Option D)
  /-- `poll` takes packets out of the port -/
  | poll (n : Nat)
  | entry (ok : Bool)
  | notify
  | pollReturn

def step (s : IocpDgram D) : Act D → Option (IocpDgram D)
  | .add interest base oks => some (s.add interest base oks)
  | .modify interest base oks => some (s.modify interest base oks)
  | .finish ov d =>
    if ov ∈ s.inFlight then
      some { s with inFlight := s.inFlight.erase ov, port := s.port ++ [(ov, d)] }
    else none
  | .poll n =>
    if s.polling then none
    else some { s with polling := true, entries := s.port.take n, port := s.port.drop n
                       owed := s.failed, begun := true }
  | .entry ok =>
    match s.entries with
    | [] => none
    | (ov, d) :: rest => some ({ s with entries := rest }.complete ov d ok)
  | .notify =>
    if s.entries = [] ∧ 0 < s.dgramReady then
      some { s with dgramReady := s.dgramReady - 1 }.phaseB
    else none
  | .pollReturn =>
    if s.polling = true ∧ s.entries = [] ∧ s.dgramReady = 0 then
      some { s with polling := false, polled := s.begun }
    else none

def machine (D : Type) : Machine (IocpDgram D) (Act D) where
  Init s := s = start
  step := step

variable {s s' : IocpDgram D} {a : Act D}

/-! ## Arming -/

/-- What arming changes. -/
theorem armRecvFrom_frame (s : IocpDgram D) (i : Fin 4) (ok : Bool) :
    ∃ p f r fl ow, s.armRecvFrom i ok =
      { s with pending := p, inFlight := f, reissued := r, failed := fl, owed := ow } := by
  unfold armRecvFrom
  split
  · exact ⟨_, _, _, _, _, rfl⟩
  · split
    · exact ⟨_, _, _, _, _, rfl⟩
    · cases ok <;> exact ⟨_, _, _, _, _, rfl⟩

theorem foldl_armRecvFrom_frame (l : List (Fin 4)) (oks : Fin 4 → Bool) (s : IocpDgram D) :
    ∃ p f r fl ow, l.foldl (fun s i => s.armRecvFrom i (oks i)) s =
      { s with pending := p, inFlight := f, reissued := r, failed := fl, owed := ow } := by
  induction l generalizing s with
  | nil => exact ⟨_, _, _, _, _, rfl⟩
  | cons i l ih =>
    obtain ⟨p, f, r, fl, ow, e⟩ := s.armRecvFrom_frame i (oks i)
    obtain ⟨p', f', r', fl', ow', e'⟩ := ih (s.armRecvFrom i (oks i))
    refine ⟨p', f', r', fl', ow', ?_⟩
    rw [List.foldl_cons, e', e]

theorem armSlots_frame (s : IocpDgram D) (oks : Fin 4 → Bool) :
    ∃ p f r fl ow, s.armSlots oks =
      { s with pending := p, inFlight := f, reissued := r, failed := fl, owed := ow } :=
  foldl_armRecvFrom_frame _ oks s

theorem allocate_frame (s : IocpDgram D) (base : Nat) :
    ∃ b p, s.allocate base = { s with recvSlots := some b, pending := p } := by
  unfold allocate
  split
  · exact ⟨_, _, rfl⟩
  · rename_i b hb
    exact ⟨b, s.pending, by rw [← hb]⟩

theorem receive_frame (s : IocpDgram D) (i : Fin 4) (d : Option D) (ok : Bool) :
    ∃ p f r fl ow, s.receive i d ok =
      { s with pending := p, inFlight := f, reissued := r, failed := fl, owed := ow
               dgramQueue := s.dgramQueue ++ d.toList } := by
  unfold receive
  simp only
  split
  · obtain ⟨p, f, r, fl, ow, e⟩ := armRecvFrom_frame (D := D)
      { s with pending := Function.update s.pending i false
               dgramQueue := s.dgramQueue ++ d.toList } i ok
    exact ⟨p, f, r, fl, ow, e⟩
  · exact ⟨_, _, _, _, _, rfl⟩

/-! ## Datagrams that wait -/

structure QueueInv (s : IocpDgram D) : Prop where
  waits : s.dgramQueue ≠ [] → s.readable = true → s.dgramNotified = true
  turn : s.dgramNotified = true → s.registered = true ∧ 0 < s.dgramReady
  idle : s.polling = false → s.dgramReady = 0 ∧ s.entries = []

theorem start_queueInv : (start : IocpDgram D).QueueInv :=
  ⟨fun h => absurd rfl h, nofun, fun _ => ⟨rfl, rfl⟩⟩

/-- Readable interest is restored while the queue is empty, or while the socket's turn in
phase B is still to come. -/
def RestoresEmpty (s : IocpDgram D) : Act D → Prop
  | .modify interest _ _ => interest.hasEvent .readable = true → s.readable = false →
      s.dgramQueue.isEmpty = true ∨ s.dgramNotified = true
  | _ => True

instance (s : IocpDgram D) :
    (a : Act D) → Decidable (s.RestoresEmpty a)
  | .modify _ _ _ => inferInstanceAs (Decidable (_ → _))
  | .add _ _ _ | .finish _ _ | .poll _ | .entry _ | .notify | .pollReturn => isTrue trivial

namespace QueueInv

theorem add (h : s.QueueInv) (interest : IoEvent) (base : Nat) (oks : Fin 4 → Bool) :
    (s.add interest base oks).QueueInv := by
  unfold IocpDgram.add
  simp only
  split
  · obtain ⟨b, p, e⟩ := allocate_frame (D := D) _ base
    rw [e]
    obtain ⟨p', f, r, fl, ow, e'⟩ := armSlots_frame (D := D) _ oks
    rw [e']
    exact ⟨fun hq => absurd rfl hq, nofun, h.idle⟩
  · exact ⟨fun hq => absurd rfl hq, nofun, h.idle⟩

theorem modify (h : s.QueueInv) {interest : IoEvent} {base : Nat} {oks : Fin 4 → Bool}
    (hok : s.RestoresEmpty (.modify interest base oks)) :
    (s.modify interest base oks).QueueInv := by
  unfold IocpDgram.modify
  split
  · rename_i hreg
    split
    · rename_i hm
      obtain ⟨hnew, hold⟩ := Bool.and_eq_true_iff.1 hm
      obtain ⟨b, p, e⟩ := allocate_frame (D := D) _ base
      rw [e]
      obtain ⟨p', f, r, fl, ow, e'⟩ := armSlots_frame (D := D) _ oks
      rw [e']
      have hr : s.readable = false := by
        rw [readable, hreg, Bool.true_and]
        exact (Bool.not_eq_true' _).mp hold
      refine ⟨fun hq _ => ?_, h.turn, h.idle⟩
      exact (hok hnew hr).resolve_left fun he => hq (List.isEmpty_iff.1 he)
    · rename_i hm
      refine ⟨fun hq hr => h.waits hq ?_, h.turn, h.idle⟩
      simp only [readable, Bool.and_eq_true] at hr ⊢
      exact ⟨hreg, by simpa [hr.2] using hm⟩
  · exact h

/-- A packet of one of the slots gives the socket a turn. -/
theorem complete (h : s.QueueInv) (hp : s.polling = true) (ov : DgramOv) (d : Option D)
    (ok : Bool) : (s.complete ov d ok).QueueInv := by
  unfold IocpDgram.complete
  simp only
  split
  · rename_i hm
    have hreg : s.registered = true := (Bool.and_eq_true_iff.1 hm).1
    obtain ⟨p, f, r, fl, ow, e⟩ := s.receive_frame ov.2 d ok
    rw [e]
    have hidle (hf : s.polling = false) : s.dgramReady + 1 = 0 ∧ s.entries = [] := by
      cases hp.symm.trans hf
    split
    · rename_i hn
      exact ⟨fun _ _ => hn, fun _ => ⟨hreg, (h.turn hn).2⟩, h.idle⟩
    · exact ⟨fun _ _ => rfl, fun _ => ⟨hreg, Nat.succ_pos _⟩, hidle⟩
  · exact h

theorem phaseB (h : s.QueueInv) (hp : s.polling = true) :
    QueueInv { s with dgramReady := s.dgramReady - 1 }.phaseB := by
  unfold IocpDgram.phaseB
  simp only
  split
  · split
    · rename_i hq
      refine ⟨fun hne hr => ?_, nofun, fun hf => by cases hp.symm.trans hf⟩
      rcases (Bool.or_eq_true ..).mp hq with hq | hq
      · exact absurd (List.isEmpty_iff.1 hq) hne
      · cases hr.symm.trans ((Bool.not_eq_true' _).mp hq)
    · exact ⟨fun hne => absurd rfl hne, nofun, fun hf => by cases hp.symm.trans hf⟩
  · rename_i hreg
    refine ⟨fun hne hr => h.waits hne hr, fun hn => absurd (h.turn hn).1 hreg,
      fun hf => by cases hp.symm.trans hf⟩

end QueueInv

theorem step_queueInv (h : s.QueueInv) (hok : s.RestoresEmpty a) (he : step s a = some s') :
    s'.QueueInv := by
  cases a with
  | add interest base oks => cases he; exact h.add interest base oks
  | modify interest base oks => cases he; exact h.modify hok
  | finish ov d =>
    simp only [step] at he
    split at he
    · cases he
      exact ⟨h.waits, h.turn, h.idle⟩
    · cases he
  | poll n =>
    simp only [step] at he
    split at he
    · cases he
    · cases he
      exact ⟨h.waits, h.turn, nofun⟩
  | entry ok =>
    simp only [step] at he
    split at he
    · cases he
    · rename_i ov d rest hent
      cases he
      have hp : s.polling = true := by
        by_contra hp
        cases hent.symm.trans (h.idle (Bool.eq_false_of_not_eq_true hp)).2
      have h' : QueueInv { s with entries := rest } :=
        ⟨h.waits, h.turn, fun hf => by cases hp.symm.trans hf⟩
      exact h'.complete hp ov d ok
  | notify =>
    simp only [step] at he
    split at he
    · rename_i hg
      cases he
      refine h.phaseB ?_
      by_contra hp
      have := (h.idle (Bool.eq_false_of_not_eq_true hp)).1
      omega
    · cases he
  | pollReturn =>
    simp only [step] at he
    split at he
    · rename_i hg
      cases he
      exact ⟨h.waits, h.turn, fun _ => ⟨hg.2.2, hg.2.1⟩⟩
    · cases he

theorem reach_queueInv (h : (machine D).ReachOk RestoresEmpty s) : s.QueueInv :=
  h.inv (I := QueueInv) (fun s (hs : s = start) => hs ▸ start_queueInv)
    fun _ _ _ _ hi hok he => step_queueInv hi hok he

/-- A `poll` that began after readable interest was restored has returned, and datagrams are
still in the queue. -/
def Stranded (s : IocpDgram D) : Prop :=
  s.polling = false ∧ s.polled = true ∧ s.readable = true ∧ s.dgramQueue.isEmpty = false

instance (s : IocpDgram D) : Decidable s.Stranded :=
  inferInstanceAs (Decidable (_ ∧ _))

/-- **Buffered datagrams are not stranded** in any run in which readable interest is restored
only while the queue is empty or the socket's turn is still to come. -/
theorem dgram_not_stranded (h : (machine D).ReachOk RestoresEmpty s) : ¬ s.Stranded := by
  rintro ⟨hp, -, hr, hq⟩
  have hi := reach_queueInv h
  have hne : s.dgramQueue ≠ [] := fun e => by simp [e] at hq
  have hturn := (hi.turn (hi.waits hne hr)).2
  rw [(hi.idle hp).1] at hturn
  exact Nat.lt_irrefl 0 hturn

/-- A datagram arrives while the socket is paused, and readable is restored by another socket's
callback before phase B; then one more `poll` begins and returns. -/
theorem dgram_not_stranded_same_poll : ∃ s : IocpDgram Nat,
    (machine Nat).ReachOk RestoresEmpty s ∧ s.polling = false ∧ s.polled = true ∧
      s.readable = true ∧ s.dgramQueue = [] ∧ ¬ s.Stranded := by
  obtain ⟨s, hr, hp⟩ := Machine.ReachOk.of_runOk_init (M := machine Nat) RestoresEmpty
    (fun s => decide (s.polling = false ∧ s.polled = true ∧ s.readable = true ∧
      s.dgramQueue = []))
    [.add .readable 0 fun _ => true, .modify .none 0 fun _ => true, .finish (0, 1) (some 7),
      .poll 1, .entry true, .modify .readable 0 fun _ => true, .notify, .pollReturn, .poll 1,
      .pollReturn] rfl (by decide)
  obtain ⟨h1, h2, h3, h4⟩ := of_decide_eq_true hp
  exact ⟨s, hr, h1, h2, h3, h4, dgram_not_stranded hr⟩

/-- A datagram buffered while the socket is paused stays in the queue after it is resumed and
`poll` has run, until another datagram comes. -/
theorem dgram_stranded : ∃ s : IocpDgram Nat, (machine Nat).Reach s ∧ s.Stranded ∧
    s.dgramQueue = [7] ∧ s.port = [] := by
  obtain ⟨s, hr, hp⟩ := Machine.Reach.of_run_init (M := machine Nat)
    (fun s => decide (s.Stranded ∧ s.dgramQueue = [7] ∧ s.port = []))
    [.add .readable 0 fun _ => true, .modify .none 0 fun _ => true, .finish (0, 1) (some 7),
      .poll 1, .entry true, .notify, .pollReturn, .modify .readable 0 fun _ => true, .poll 1,
      .pollReturn] rfl (by decide)
  exact ⟨s, hr, of_decide_eq_true hp⟩

end IocpDgram

end Socketpp
