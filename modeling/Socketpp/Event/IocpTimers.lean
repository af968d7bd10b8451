import Socketpp.Lib.Machine
import Socketpp.Platform

/-!
# Timers of the IOCP dispatcher

`iocp_dispatcher` (`src/event/iocp.cpp`) makes a thread-pool timer for each
`schedule_timer`. When it expires, a thread of the pool posts the id to the
completion port; `poll` takes packets out and `dispatch_timer` looks the id up
in `timer_infos_`. Three places close the thread-pool timer: `dispatch_timer`
after the callback of a one-shot, `cancel_timer`, and the destructor.

The loop thread makes all the calls, so `stack` has those it is in: user code
runs at the bottom (a task, a socket's callback) and inside timer callbacks.
The pool may post for any timer that is open, any number of times and also
before the entry is in the map.

`Inv.token`: a timer that was made is in one hand, the map's or that of a call
on the stack, or it is closed. `log` has the calls that returned and the
callbacks that were started, latest first.
-/

namespace Socketpp

/-- A thread-pool timer, with `repeating` of its `timer_info` and what it was set to. -/
structure TpTimer where
  repeating : Bool
  dueLow : BitVec 32
  dueHigh : BitVec 32
  period : BitVec 32
  /-- how often it was closed -/
  closed : Nat
  deriving DecidableEq

namespace TpTimer

/-- `li.QuadPart`, in `LONGLONG` arithmetic. -/
def quadPart (timeout : Int) : BitVec 64 := -(BitVec.ofInt 64 timeout * 10000#64)

/-- What `schedule_timer` makes of its arguments. -/
def ofTimeout (timeout : Int) (rep : Bool) : TpTimer where
  repeating := rep
  dueLow := (quadPart timeout).extractLsb' 0 32
  dueHigh := (quadPart timeout).extractLsb' 32 32
  period := if rep then (BitVec.ofInt 64 timeout).setWidth 32 else 0
  closed := 0

end TpTimer

/-- A call the loop thread is in. -/
inductive IocpTimers.Frame where
  /-- `schedule_timer`, before the entry is in the map -/
  | scheduling (id : Nat)
  /-- `dispatch_timer`, in the callback -/
  | running (id : Nat)
  /-- `cancel_timer`, with the entry taken out -/
  | cancelling (id : Nat)
  deriving DecidableEq

inductive IocpTimers.Event where
  | scheduled (id : Nat)
  | ran (id : Nat)
  | cancelled (id : Nat)
  deriving DecidableEq

structure IocpTimers where
  nextTimerId : Nat
  /-- the `timer_info`s that were made, by id -/
  infos : Nat → Option TpTimer
  /-- the keys of `timer_infos_` -/
  timerInfos : Finset Nat
  /-- the ids in the completion port -/
  port : List Nat
  /-- the ids `poll` has taken out and not gone over -/
  entries : List Nat
  stack : List IocpTimers.Frame
  destroyed : Bool
  log : List IocpTimers.Event

namespace IocpTimers

def start : IocpTimers := ⟨1, fun _ => none, ∅, [], [], [], false, []⟩

inductive Act where
  /-- `schedule_timer` up to `SetThreadpoolTimer`, and whether `CreateThreadpoolTimer` succeeds -/
  | schedule (timeout : Int) (rep created : Bool)
  /-- its entry, and the return -/
  | insert
  /-- `cancel_timer` up to the end of the lock -/
  | cancel (id : Nat)
  /-- its disarm, wait and close, and the return -/
  | close
  /-- `timer_callback` on a thread of the pool -/
  | expire (id : Nat)
  /-- `GetQueuedCompletionStatusEx` takes `n` packets out -/
  | harvest (n : Nat)
  | dispatch
  | callbackReturn
  /-- `~iocp_dispatcher` -/
  | destroy

/-- User code has the loop thread. -/
def user (s : IocpTimers) : Bool :=
  !s.destroyed && match s.stack with
    | [] => true
    | f :: _ => f matches .running _

/-- `CloseThreadpoolTimer`, with the disarm and the wait before it. -/
def closeTimer (s : IocpTimers) (id : Nat) : IocpTimers :=
  let info := (s.infos id).map fun t => { t with closed := t.closed + 1 }
  { s with infos := Function.update s.infos id info }

def scheduleTimer (s : IocpTimers) (timeout : Int) (rep created : Bool) : IocpTimers :=
  let id := s.nextTimerId
  let s := { s with nextTimerId := id + 1 }
  if created then
    { s with infos := Function.update s.infos id (some (.ofTimeout timeout rep))
             stack := .scheduling id :: s.stack }
  else s

/-- `cancel_timer` returns at once if there is no entry. -/
def cancelTimer (s : IocpTimers) (id : Nat) : IocpTimers :=
  if id ∈ s.timerInfos then
    { s with timerInfos := s.timerInfos.erase id, stack := .cancelling id :: s.stack }
  else { s with log := .cancelled id :: s.log }

/-- `dispatch_timer` up to the callback: a one-shot's entry is taken out. -/
def dispatchTimer (s : IocpTimers) (id : Nat) (t : TpTimer) : IocpTimers :=
  { s with timerInfos := if t.repeating then s.timerInfos else s.timerInfos.erase id
           stack := .running id :: s.stack
           log := .ran id :: s.log }

/-- The timers' part of the destructor. -/
def destructor (s : IocpTimers) : IocpTimers :=
  { s with infos := fun id =>
             if id ∈ s.timerInfos then
               (s.infos id).map fun t => { t with closed := t.closed + 1 }
             else s.infos id
           timerInfos := ∅
           destroyed := true }

def step (s : IocpTimers) : Act → Option IocpTimers
  | .schedule timeout rep created =>
    if s.user then some (s.scheduleTimer timeout rep created) else none
  | .insert =>
    match s.stack with
    | .scheduling id :: st =>
      some { s with timerInfos := insert id s.timerInfos, stack := st
                    log := .scheduled id :: s.log }
    | _ => none
  | .cancel id => if s.user then some (s.cancelTimer id) else none
  | .close =>
    match s.stack with
    | .cancelling id :: st =>
      some { s.closeTimer id with stack := st, log := .cancelled id :: s.log }
    | _ => none
  | .expire id =>
    match s.infos id with
    | some t => if t.closed = 0 then some { s with port := s.port ++ [id] } else none
    | none => none
  | .harvest n =>
    if s.destroyed = false ∧ s.stack = [] ∧ s.entries = [] then
      some { s with entries := s.port.take n, port := s.port.drop n }
    else none
  | .dispatch =>
    match s.stack, s.entries with
    | [], id :: rest =>
      if id ∈ s.timerInfos then
        (s.infos id).map fun t => { s.dispatchTimer id t with entries := rest }
      else some { s with entries := rest }
    | _, _ => none
  | .callbackReturn =>
    match s.stack with
    | .running id :: st =>
      (s.infos id).map fun t =>
        if t.repeating then { s with stack := st } else { s.closeTimer id with stack := st }
    | _ => none
  | .destroy =>
    if s.destroyed = false ∧ s.stack = [] ∧ s.entries = [] then some s.destructor else none

def machine : Machine IocpTimers Act where
  Init s := s = start
  step := step

variable {s s' : IocpTimers} {a : Act}

/-- What a step does. -/
inductive StepView (s : IocpTimers) : Act → IocpTimers → Prop where
  | notCreated (timeout rep) : s.user = true →
      StepView s (.schedule timeout rep false) { s with nextTimerId := s.nextTimerId + 1 }
  | schedule (timeout rep) : s.user = true →
      StepView s (.schedule timeout rep true)
        { s with nextTimerId := s.nextTimerId + 1
                 infos := Function.update s.infos s.nextTimerId (some (.ofTimeout timeout rep))
                 stack := .scheduling s.nextTimerId :: s.stack }
  | insert (id st) : s.stack = .scheduling id :: st →
      StepView s .insert { s with timerInfos := insert id s.timerInfos, stack := st
                                  log := .scheduled id :: s.log }
  | cancel (id) : s.user = true → id ∈ s.timerInfos →
      StepView s (.cancel id)
        { s with timerInfos := s.timerInfos.erase id, stack := .cancelling id :: s.stack }
  | cancelNone (id) : s.user = true → id ∉ s.timerInfos →
      StepView s (.cancel id) { s with log := .cancelled id :: s.log }
  | close (id st) : s.stack = .cancelling id :: st →
      StepView s .close { s.closeTimer id with stack := st, log := .cancelled id :: s.log }
  | expire (id t) : s.infos id = some t → t.closed = 0 →
      StepView s (.expire id) { s with port := s.port ++ [id] }
  | harvest (n) : s.destroyed = false →
      StepView s (.harvest n) { s with entries := s.port.take n, port := s.port.drop n }
  | dispatch (id rest t) : s.stack = [] → s.entries = id :: rest → id ∈ s.timerInfos →
      s.infos id = some t →
      StepView s .dispatch { s.dispatchTimer id t with entries := rest }
  | stale (id rest) : s.entries = id :: rest → StepView s .dispatch { s with entries := rest }
  | runReturn (id st t) : s.stack = .running id :: st → s.infos id = some t →
      t.repeating = true → StepView s .callbackReturn { s with stack := st }
  | onceReturn (id st t) : s.stack = .running id :: st → s.infos id = some t →
      t.repeating = false → StepView s .callbackReturn { s.closeTimer id with stack := st }
  | destroy : s.stack = [] → s.entries = [] → StepView s .destroy s.destructor

theorem step_view (h : step s a = some s') : StepView s a s' := by
  cases a with
  | schedule timeout rep created =>
    simp only [step] at h
    split at h
    · rename_i hu
      cases h
      cases created with
      | false => exact .notCreated timeout rep hu
      | true => exact .schedule timeout rep hu
    · cases h
  | insert =>
    simp only [step] at h
    split at h
    · rename_i id st hs
      cases h
      exact .insert id st hs
    · cases h
  | cancel id =>
    simp only [step, cancelTimer] at h
    split at h
    · rename_i hu
      split at h
      · rename_i hm
        cases h
        exact .cancel id hu hm
      · rename_i hm
        cases h
        exact .cancelNone id hu hm
    · cases h
  | close =>
    simp only [step] at h
    split at h
    · rename_i id st hs
      cases h
      exact .close id st hs
    · cases h
  | expire id =>
    simp only [step] at h
    split at h
    · rename_i t ht
      split at h
      · rename_i hc
        cases h
        exact .expire id t ht hc
      · cases h
    · cases h
  | harvest n =>
    simp only [step] at h
    split at h
    · rename_i hg
      cases h
      exact .harvest n hg.1
    · cases h
  | dispatch =>
    simp only [step] at h
    split at h
    · rename_i id rest hs he
      split at h
      · rename_i hm
        obtain ⟨t, ht, rfl⟩ := Option.map_eq_some_iff.1 h
        exact .dispatch id rest t hs he hm ht
      · cases h
        exact .stale id rest he
    · cases h
  | callbackReturn =>
    simp only [step] at h
    split at h
    · rename_i id st hs
      obtain ⟨t, ht, rfl⟩ := Option.map_eq_some_iff.1 h
      split
      · rename_i hr
        exact .runReturn id st t hs ht hr
      · rename_i hr
        exact .onceReturn id st t hs ht (Bool.eq_false_of_not_eq_true hr)
    · cases h
  | destroy =>
    simp only [step] at h
    split at h
    · rename_i hg
      cases h
      exact .destroy hg.2.1 hg.2.2
    · cases h

/-! ## One hand for each timer -/

namespace Frame

def id : Frame → Nat
  | .scheduling i | .running i | .cancelling i => i

/-- The call has the timer in hand: it will enter it in the map or close it. -/
def holds (rep : Bool) (i : Nat) : Frame → Bool
  | .scheduling j | .cancelling j => j = i
  | .running j => j = i && !rep

theorem id_of_holds {rep : Bool} {i : Nat} {f : Frame} (h : f.holds rep i = true) : f.id = i := by
  cases f with
  | scheduling j => exact of_decide_eq_true h
  | running j => exact of_decide_eq_true (Bool.and_eq_true .. ▸ h).1
  | cancelling j => exact of_decide_eq_true h

end Frame

/-- The map has the timer in hand. -/
def mapped (s : IocpTimers) (id : Nat) : Nat := if id ∈ s.timerInfos then 1 else 0

/-- After `schedule_timer` had returned the id, `cancel_timer` returned for it, and `l` is what
the log has since. -/
def AfterCancel (id : Nat) (log l : List Event) : Prop :=
  ∃ l₂ : List Event, log = l ++ Event.cancelled id :: l₂ ∧ Event.scheduled id ∈ l₂

structure Inv (s : IocpTimers) : Prop where
  fresh : ∀ id, s.nextTimerId ≤ id → s.infos id = none
  unmade : ∀ id, s.infos id = none →
    id ∉ s.timerInfos ∧ (∀ f ∈ s.stack, f.id ≠ id) ∧ .ran id ∉ s.log
  token : ∀ id t, s.infos id = some t →
    s.mapped id + s.stack.countP (Frame.holds t.repeating id) + t.closed = 1
  once : ∀ id t, s.infos id = some t → t.repeating = false →
    s.log.count (.ran id) + s.mapped id + s.stack.count (.scheduling id) ≤ 1
  scheduled : ∀ id, .scheduled id ∈ s.log → id < s.nextTimerId ∧ .scheduling id ∉ s.stack
  final : ∀ id l, AfterCancel id s.log l → id ∉ s.timerInfos ∧ .ran id ∉ l
  destroyed : s.destroyed = true → s.stack = [] ∧ s.timerInfos = ∅ ∧ s.entries = []

theorem start_inv : start.Inv where
  fresh _ _ := rfl
  unmade _ _ := ⟨Finset.notMem_empty _, nofun, List.not_mem_nil⟩
  token _ _ h := nomatch h
  once _ _ h := nomatch h
  scheduled _ h := nomatch h
  final _ l h := by
    obtain ⟨l₂, hl, -⟩ := h
    cases l <;> cases hl
  destroyed h := nomatch h

theorem user_cases (h : s.user = true) : s.destroyed = false := by
  unfold user at h
  simp only [Bool.and_eq_true, Bool.not_eq_true'] at h
  exact h.1

theorem infos_closeTimer {id j : Nat} {t' : TpTimer} (h : (s.closeTimer id).infos j = some t') :
    ∃ t, s.infos j = some t ∧ t'.repeating = t.repeating ∧
      t'.closed = t.closed + if j = id then 1 else 0 := by
  unfold closeTimer at h
  by_cases e : j = id
  · subst e
    simp only [Function.update_self] at h
    obtain ⟨t, ht, rfl⟩ := Option.map_eq_some_iff.1 h
    exact ⟨t, ht, rfl, by simp⟩
  · simp only [Function.update_of_ne e] at h
    exact ⟨t', h, rfl, by simp [e]⟩

theorem infos_closeTimer_none {id j : Nat} (h : (s.closeTimer id).infos j = none) :
    s.infos j = none := by
  unfold closeTimer at h
  by_cases e : j = id
  · subst e
    simpa using h
  · simpa [Function.update_of_ne e] using h

/-- A new entry of the log. -/
theorem AfterCancel.cons {e : Event} {id : Nat} {log l : List Event}
    (h : AfterCancel id (e :: log) l) :
    e = .cancelled id ∧ l = [] ∨ ∃ l', l = e :: l' ∧ AfterCancel id log l' := by
  obtain ⟨l₂, hl, hs⟩ := h
  cases l with
  | nil =>
    cases hl
    exact .inl ⟨rfl, rfl⟩
  | cons x l' =>
    obtain ⟨rfl, htail⟩ := List.cons.inj hl
    exact .inr ⟨l', rfl, l₂, htail, hs⟩

theorem AfterCancel.scheduled {id : Nat} {log l : List Event} (h : AfterCancel id log l) :
    .scheduled id ∈ log := by
  obtain ⟨l₂, rfl, hs⟩ := h
  exact List.mem_append_right _ (List.mem_cons_of_mem _ hs)

namespace Inv

/-- A call on the stack is about a timer that was made. -/
theorem made (h : s.Inv) {f : Frame} (hf : f ∈ s.stack) : ∃ t, s.infos f.id = some t := by
  cases ht : s.infos f.id with
  | none => exact absurd rfl ((h.unmade _ ht).2.1 f hf)
  | some t => exact ⟨t, rfl⟩

/-- Packets come and go. -/
theorem packets (h : s.Inv) (port entries : List Nat)
    (hd : s.destroyed = true → entries = []) : Inv { s with port := port, entries := entries } :=
  ⟨h.fresh, h.unmade, h.token, h.once, h.scheduled, h.final,
    fun hd' => ⟨(h.destroyed hd').1, (h.destroyed hd').2.1, hd hd'⟩⟩

/-- A timer that a call has in hand is not in the map. -/
theorem notMem_of_held (h : s.Inv) {f : Frame} {st : List Frame} (hs : s.stack = f :: st)
    (hf : ∀ rep, f.holds rep f.id = true) : f.id ∉ s.timerInfos := by
  obtain ⟨t, ht⟩ := h.made (f := f) (hs ▸ List.mem_cons_self)
  have htok := h.token _ t ht
  rw [hs, List.countP_cons, hf, if_pos rfl] at htok
  intro hm
  rw [mapped, if_pos hm] at htok
  omega

theorem schedule (h : s.Inv) (hu : s.user = true) (timeout : Int) (rep : Bool) :
    Inv { s with
      nextTimerId := s.nextTimerId + 1
      infos := Function.update s.infos s.nextTimerId (some (.ofTimeout timeout rep))
      stack := .scheduling s.nextTimerId :: s.stack } := by
  have hnone := h.fresh s.nextTimerId (Nat.le_refl _)
  obtain ⟨hm, hst, hran⟩ := h.unmade _ hnone
  have hother {id : Nat} (e : id ≠ s.nextTimerId) (r : Bool) :
      (Frame.scheduling s.nextTimerId).holds r id = false := by simp [Frame.holds, Ne.symm e]
  have hinfos {id : Nat} (e : id ≠ s.nextTimerId) :
      Function.update s.infos s.nextTimerId (some (.ofTimeout timeout rep)) id = s.infos id :=
    Function.update_of_ne e ..
  refine ⟨fun id hid => ?_, fun id hid => ?_, fun id t ht => ?_, fun id t ht hr => ?_,
    fun id hid => ?_, h.final, fun hd => ?_⟩
  · exact (hinfos (Nat.ne_of_gt hid)).trans (h.fresh id (Nat.le_of_succ_le hid))
  · have e : id ≠ s.nextTimerId := by
      rintro rfl
      simp at hid
    obtain ⟨h1, h2, h3⟩ := h.unmade id ((hinfos e).symm.trans hid)
    refine ⟨h1, fun f hf => ?_, h3⟩
    rcases List.mem_cons.1 hf with rfl | hf
    · exact Ne.symm e
    · exact h2 f hf
  · by_cases e : id = s.nextTimerId
    · subst e
      simp only [Function.update_self, Option.some.injEq] at ht
      have h0 : s.stack.countP (Frame.holds t.repeating s.nextTimerId) = 0 :=
        List.countP_eq_zero.2 fun f hf hh => hst f hf (Frame.id_of_holds hh)
      have hc : t.closed = 0 := by rw [← ht]; rfl
      simp [mapped, hm, Frame.holds, h0, hc]
    · simpa [mapped, hother e] using h.token id t ((hinfos e).symm.trans ht)
  · by_cases e : id = s.nextTimerId
    · subst e
      have h0 : s.stack.count (.scheduling s.nextTimerId) = 0 :=
        List.count_eq_zero.2 fun hf => hst _ hf rfl
      simp [mapped, hm, h0, List.count_eq_zero.2 hran]
    · simpa [mapped, Ne.symm e] using h.once id t ((hinfos e).symm.trans ht) hr
  · obtain ⟨h1, h2⟩ := h.scheduled id hid
    refine ⟨Nat.lt_succ_of_lt h1, fun hf => ?_⟩
    rcases List.mem_cons.1 hf with e | hf
    · cases e
      exact Nat.lt_irrefl _ h1
    · exact h2 hf
  · cases (user_cases hu).symm.trans hd

/-- `schedule_timer` enters the timer in the map. -/
theorem insert (h : s.Inv) {id : Nat} {st : List Frame} (hs : s.stack = .scheduling id :: st) :
    Inv { s with timerInfos := insert id s.timerInfos, stack := st
                 log := .scheduled id :: s.log } := by
  have hmem : Frame.scheduling id ∈ s.stack := hs ▸ List.mem_cons_self
  obtain ⟨t₀, ht₀⟩ : ∃ t, s.infos id = some t := h.made hmem
  have hm : id ∉ s.timerInfos := h.notMem_of_held hs fun _ => by simp [Frame.holds, Frame.id]
  have htok := h.token id t₀ ht₀
  rw [hs] at htok
  simp only [Frame.holds, List.countP_cons, decide_true, if_true] at htok
  have hst : st.countP (Frame.holds t₀.repeating id) = 0 := by omega
  have hlt : id < s.nextTimerId := by
    by_contra hge
    cases (h.fresh id (Nat.le_of_not_lt hge)).symm.trans ht₀
  refine ⟨h.fresh, fun j hj => ?_, fun j t ht => ?_, fun j t ht hr => ?_, fun j hj => ?_,
    fun j l hl => ?_, fun hd => ?_⟩
  · have e : j ≠ id := by
      rintro rfl
      cases ht₀.symm.trans hj
    obtain ⟨h1, h2, h3⟩ := h.unmade j hj
    refine ⟨by simp [e, h1], fun f hf => h2 f (hs ▸ List.mem_cons_of_mem _ hf), by simp [h3]⟩
  · have := h.token j t ht
    rw [hs] at this
    by_cases e : j = id
    · subst e
      cases ht₀.symm.trans ht
      simp only [mapped, Finset.mem_insert_self, if_true]
      simp only [mapped, hm, if_false] at htok
      omega
    · simpa [mapped, Frame.holds, List.countP_cons, e, Ne.symm e] using this
  · have := h.once j t ht hr
    rw [hs] at this
    by_cases e : j = id
    · subst e
      simp only [mapped, Finset.mem_insert_self, if_true]
      simp [mapped, hm] at this ⊢
      omega
    · simpa [mapped, e, Ne.symm e] using this
  · rcases List.mem_cons.1 hj with e | hj
    · cases e
      refine ⟨hlt, fun hf => ?_⟩
      have := List.countP_eq_zero.1 hst _ hf
      simp [Frame.holds] at this
    · obtain ⟨h1, h2⟩ := h.scheduled j hj
      exact ⟨h1, fun hf => h2 (hs ▸ List.mem_cons_of_mem _ hf)⟩
  · rcases hl.cons with ⟨e, -⟩ | ⟨l, rfl, hold⟩
    · cases e
    · have e : j ≠ id := by
        rintro rfl
        exact (h.scheduled j hold.scheduled).2 hmem
      obtain ⟨h1, h2⟩ := h.final j l hold
      exact ⟨by simp [e, h1], by simp [h2]⟩
  · cases hs.symm.trans (h.destroyed hd).1

/-- `cancel_timer` takes the timer out of the map. -/
theorem cancel (h : s.Inv) (hu : s.user = true) {id : Nat} (hm : id ∈ s.timerInfos) :
    Inv { s with timerInfos := s.timerInfos.erase id, stack := .cancelling id :: s.stack } := by
  refine ⟨h.fresh, fun j hj => ?_, fun j t ht => ?_, fun j t ht hr => ?_, fun j hj => ?_,
    fun j l hl => ?_, fun hd => ?_⟩
  · obtain ⟨h1, h2, h3⟩ := h.unmade j hj
    refine ⟨fun hk => h1 (Finset.mem_of_mem_erase hk), fun f hf => ?_, h3⟩
    rcases List.mem_cons.1 hf with rfl | hf
    · rintro rfl
      exact h1 hm
    · exact h2 f hf
  · have := h.token j t ht
    by_cases e : j = id
    · subst e
      simp [mapped, Frame.holds, hm] at this ⊢
      omega
    · simpa [mapped, Frame.holds, e, Ne.symm e] using this
  · have := h.once j t ht hr
    by_cases e : j = id
    · subst e
      simp [mapped, hm] at this ⊢
      omega
    · simpa [mapped, e] using this
  · obtain ⟨h1, h2⟩ := h.scheduled j hj
    exact ⟨h1, by simpa using h2⟩
  · obtain ⟨h1, h2⟩ := h.final j l hl
    exact ⟨fun hk => h1 (Finset.mem_of_mem_erase hk), h2⟩
  · cases (user_cases hu).symm.trans hd

/-- A call that has the timer in hand closes it and returns, with `e` logged or not. -/
theorem close (h : s.Inv) {id : Nat} {f : Frame} {st : List Frame} (hs : s.stack = f :: st)
    (hf : ∀ t, s.infos id = some t → f.holds t.repeating id = true)
    (hne : ∀ rep j, j ≠ id → f.holds rep j = false) (hsch : ∀ j, f ≠ .scheduling j) :
    Inv { s.closeTimer id with stack := st } := by
  have hsub {g : Frame} (hg : g ∈ st) : g ∈ s.stack := hs ▸ List.mem_cons_of_mem _ hg
  refine ⟨fun j hj => ?_, fun j hj => ?_, fun j t ht => ?_, fun j t ht hr => ?_, fun j hj => ?_,
    h.final, fun hd => ?_⟩
  · have := h.fresh j hj
    simp only [closeTimer]
    by_cases e : j = id
    · subst e
      simp [this]
    · rw [Function.update_of_ne e, this]
  · obtain ⟨h1, h2, h3⟩ := h.unmade j (infos_closeTimer_none hj)
    exact ⟨h1, fun g hg => h2 g (hsub hg), h3⟩
  · obtain ⟨t₀, ht₀, hr, hc⟩ := infos_closeTimer ht
    have := h.token j t₀ ht₀
    rw [hs, List.countP_cons] at this
    show s.mapped j + st.countP (Frame.holds t.repeating j) + t.closed = 1
    rw [hr, hc]
    by_cases e : j = id
    · subst e
      rw [hf t₀ ht₀, if_pos rfl] at this
      rw [if_pos rfl]
      omega
    · rw [hne _ j e] at this
      simpa [e] using this
  · obtain ⟨t₀, ht₀, hr', -⟩ := infos_closeTimer ht
    have := h.once j t₀ ht₀ (hr' ▸ hr)
    rw [hs, List.count_cons_of_ne (hsch j)] at this
    exact this
  · obtain ⟨h1, h2⟩ := h.scheduled j hj
    exact ⟨h1, fun hf => h2 (hsub hf)⟩
  · cases hs.symm.trans (h.destroyed hd).1

/-- `cancel_timer` returns: nobody will enter the timer in the map again. -/
theorem cancelled (h : s.Inv) {id : Nat} (hm : id ∉ s.timerInfos) :
    Inv { s with log := .cancelled id :: s.log } := by
  refine ⟨h.fresh, fun j hj => ?_, h.token, fun j t ht hr => ?_, fun j hj => ?_,
    fun j l hl => ?_, h.destroyed⟩
  · obtain ⟨h1, h2, h3⟩ := h.unmade j hj
    exact ⟨h1, h2, by simpa using h3⟩
  · simpa [mapped] using h.once j t ht hr
  · exact h.scheduled j (by simpa using hj)
  · rcases hl.cons with ⟨e, rfl⟩ | ⟨l, rfl, hold⟩
    · cases e
      exact ⟨hm, List.not_mem_nil⟩
    · obtain ⟨h1, h2⟩ := h.final j l hold
      exact ⟨h1, by simpa using h2⟩

/-- `dispatch_timer` has found the entry. -/
theorem dispatch (h : s.Inv) {id : Nat} {t₀ : TpTimer} (hs : s.stack = [])
    (hm : id ∈ s.timerInfos) (ht₀ : s.infos id = some t₀) (rest : List Nat) :
    Inv { s.dispatchTimer id t₀ with entries := rest } := by
  have hsub {j : Nat} (hj : j ∈ (s.dispatchTimer id t₀).timerInfos) : j ∈ s.timerInfos := by
    unfold dispatchTimer at hj
    split at hj
    · exact hj
    · exact Finset.mem_of_mem_erase hj
  have hne {j : Nat} (e : j ≠ id) : (s.dispatchTimer id t₀).mapped j = s.mapped j := by
    unfold dispatchTimer mapped
    split <;> simp [e]
  refine ⟨h.fresh, fun j hj => ?_, fun j t ht => ?_, fun j t ht hr => ?_, fun j hj => ?_,
    fun j l hl => ?_, fun hd => ?_⟩
  · have e : j ≠ id := by
      rintro rfl
      cases ht₀.symm.trans hj
    obtain ⟨h1, h2, h3⟩ := h.unmade j hj
    refine ⟨fun hk => h1 (hsub hk), fun f hf => ?_, by simp [dispatchTimer, h3, e]⟩
    rcases List.mem_cons.1 hf with rfl | hf
    · exact Ne.symm e
    · exact h2 f hf
  · have := h.token j t ht
    show (s.dispatchTimer id t₀).mapped j +
      (Frame.running id :: s.stack).countP (Frame.holds t.repeating j) + t.closed = 1
    by_cases e : j = id
    · subst e
      cases ht₀.symm.trans ht
      cases hr : t₀.repeating <;> simp [dispatchTimer, mapped, hr, hm, hs, Frame.holds] at this ⊢
      · exact this
      · exact this
    · rw [hne e]
      simpa [Frame.holds, Ne.symm e] using this
  · have := h.once j t ht hr
    show (Event.ran id :: s.log).count (.ran j) + (s.dispatchTimer id t₀).mapped j +
      (Frame.running id :: s.stack).count (.scheduling j) ≤ 1
    by_cases e : j = id
    · subst e
      cases ht₀.symm.trans ht
      simp [dispatchTimer, mapped, hr, hm] at this ⊢
      omega
    · rw [hne e]
      simpa [Ne.symm e] using this
  · obtain ⟨h1, h2⟩ := h.scheduled j (by simpa [dispatchTimer] using hj)
    exact ⟨h1, by simpa [dispatchTimer] using h2⟩
  · rcases hl.cons with ⟨e, -⟩ | ⟨l, rfl, hold⟩
    · cases e
    · obtain ⟨h1, h2⟩ := h.final j l hold
      have e : j ≠ id := by
        rintro rfl
        exact h1 hm
      exact ⟨fun hk => h1 (hsub hk), by simp [h2, e]⟩
  · cases (h.destroyed hd).2.1 ▸ hm

/-- The callback of a repeating timer returns. -/
theorem pop (h : s.Inv) {id : Nat} {t₀ : TpTimer} {st : List Frame}
    (hs : s.stack = .running id :: st) (ht₀ : s.infos id = some t₀)
    (hr₀ : t₀.repeating = true) : Inv { s with stack := st } := by
  have hsub {g : Frame} (hg : g ∈ st) : g ∈ s.stack := hs ▸ List.mem_cons_of_mem _ hg
  refine ⟨h.fresh, fun j hj => ?_, fun j t ht => ?_, fun j t ht hr => ?_, fun j hj => ?_,
    h.final, fun hd => ?_⟩
  · obtain ⟨h1, h2, h3⟩ := h.unmade j hj
    exact ⟨h1, fun g hg => h2 g (hsub hg), h3⟩
  · have := h.token j t ht
    rw [hs, List.countP_cons] at this
    have hn : (Frame.running id).holds t.repeating j = false := by
      by_cases e : j = id
      · subst e
        cases ht₀.symm.trans ht
        simp [Frame.holds, hr₀]
      · simp [Frame.holds, Ne.symm e]
    rw [hn] at this
    exact this
  · have := h.once j t ht hr
    rw [hs, List.count_cons_of_ne (by simp)] at this
    exact this
  · obtain ⟨h1, h2⟩ := h.scheduled j hj
    exact ⟨h1, fun hf => h2 (hsub hf)⟩
  · cases hs.symm.trans (h.destroyed hd).1

theorem destructor (h : s.Inv) (hs : s.stack = []) (he : s.entries = []) : s.destructor.Inv := by
  have hinfos {j : Nat} {t : TpTimer} (ht : s.destructor.infos j = some t) :
      ∃ t₀, s.infos j = some t₀ ∧ t.repeating = t₀.repeating ∧
        t.closed = t₀.closed + s.mapped j := by
    unfold IocpTimers.destructor at ht
    unfold mapped
    simp only at ht
    split at ht
    · obtain ⟨t₀, ht₀, rfl⟩ := Option.map_eq_some_iff.1 ht
      exact ⟨t₀, ht₀, rfl, by simp [*]⟩
    · exact ⟨t, ht, rfl, by simp [*]⟩
  refine ⟨fun j hj => ?_, fun j hj => ?_, fun j t ht => ?_, fun j t ht hr => ?_, h.scheduled,
    fun j l hl => ⟨Finset.notMem_empty _, (h.final j l hl).2⟩,
    fun _ => ⟨hs, rfl, he⟩⟩
  · simp [IocpTimers.destructor, h.fresh j hj]
  · have hn : s.infos j = none := by
      unfold IocpTimers.destructor at hj
      simp only at hj
      split at hj
      · simpa using hj
      · exact hj
    exact ⟨Finset.notMem_empty _, (h.unmade j hn).2⟩
  · obtain ⟨t₀, ht₀, hr, hc⟩ := hinfos ht
    have := h.token j t₀ ht₀
    show (if j ∈ (∅ : Finset Nat) then 1 else 0) +
      s.stack.countP (Frame.holds t.repeating j) + t.closed = 1
    rw [hr, hc, if_neg (Finset.notMem_empty _)]
    omega
  · obtain ⟨t₀, ht₀, hr', -⟩ := hinfos ht
    have := h.once j t₀ ht₀ (hr' ▸ hr)
    show s.log.count (.ran j) + (if j ∈ (∅ : Finset Nat) then 1 else 0) +
      s.stack.count (.scheduling j) ≤ 1
    rw [if_neg (Finset.notMem_empty _)]
    omega

end Inv

theorem step_inv (h : s.Inv) (hstep : step s a = some s') : s'.Inv := by
  cases step_view hstep with
  | notCreated timeout rep hu =>
    exact ⟨fun id hid => h.fresh id (Nat.le_of_succ_le hid), h.unmade, h.token, h.once,
      fun id hid => ⟨Nat.lt_succ_of_lt (h.scheduled id hid).1, (h.scheduled id hid).2⟩, h.final,
      h.destroyed⟩
  | schedule timeout rep hu => exact h.schedule hu timeout rep
  | insert id st hs => exact h.insert hs
  | cancel id hu hm => exact h.cancel hu hm
  | cancelNone id hu hm => exact h.cancelled hm
  | close id st hs =>
    have hc : Inv { s.closeTimer id with stack := st } :=
      h.close hs (fun _ _ => by simp [Frame.holds])
        (fun _ j e => by simp [Frame.holds, Ne.symm e]) (fun _ => by simp)
    exact hc.cancelled (h.notMem_of_held hs fun _ => by simp [Frame.holds, Frame.id])
  | expire id t ht hc => exact h.packets _ _ fun hd => (h.destroyed hd).2.2
  | harvest n hd => exact h.packets _ _ fun hd' => by cases hd.symm.trans hd'
  | dispatch id rest t hs he hm ht => exact h.dispatch hs hm ht rest
  | stale id rest he =>
    exact h.packets _ _ fun hd => by cases he.symm.trans (h.destroyed hd).2.2
  | runReturn id st t hs ht hr => exact h.pop hs ht hr
  | onceReturn id st t hs ht hr =>
    refine h.close hs (fun t' ht' => ?_) (fun _ j e => by simp [Frame.holds, Ne.symm e])
      (fun _ => by simp)
    cases ht.symm.trans ht'
    simp [Frame.holds, hr]
  | destroy hs he => exact h.destructor hs he

theorem reach_inv (h : machine.Reach s) : s.Inv :=
  h.inv (I := Inv) (fun s (hs : s = start) => hs ▸ start_inv) fun _ _ _ _ hi _ he => step_inv hi he

/-! ## Callbacks and cancels -/

/-- The timer is a one-shot whose callback was started, or `cancel_timer` has returned for
it. -/
def Over (s : IocpTimers) (id : Nat) : Prop :=
  (∃ t, s.infos id = some t ∧ t.repeating = false ∧ .ran id ∈ s.log) ∨
    ∃ l, AfterCancel id s.log l

theorem Inv.notMem_of_over (h : s.Inv) {id : Nat} (ho : s.Over id) : id ∉ s.timerInfos := by
  rcases ho with ⟨t, ht, hr, hran⟩ | ⟨l, hl⟩
  · have hone := h.once id t ht hr
    have hpos : 0 < s.log.count (.ran id) := List.count_pos_iff.2 hran
    intro hm
    rw [mapped, if_pos hm] at hone
    omega
  · exact (h.final id l hl).1

/-- The steps of a call of `cancel_timer` with this id. -/
def Cancels (s : IocpTimers) (id : Nat) (a : Act) : Prop :=
  a = .cancel id ∨ a = .close ∧ s.stack.head? = some (.cancelling id)

/-- What there is of a timer besides the log is the same in two states. -/
def SameTimer (s s' : IocpTimers) (id : Nat) : Prop :=
  s'.infos id = s.infos id ∧ (id ∈ s'.timerInfos ↔ id ∈ s.timerInfos) ∧
    s'.port.count id = s.port.count id ∧ s'.entries.count id = s.entries.count id

theorem cancels_sameTimer {id j : Nat} (hc : s.Cancels id a) (he : step s a = some s')
    (hj : j ≠ id) : s.SameTimer s' j := by
  rcases hc with rfl | ⟨rfl, htop⟩
  · cases step_view he with
    | cancel _ hu hm => exact ⟨rfl, by simp [hj], rfl, rfl⟩
    | cancelNone _ hu hm => exact ⟨rfl, Iff.rfl, rfl, rfl⟩
  · cases step_view he with
    | close i st hs =>
      rw [hs] at htop
      cases htop
      exact ⟨Function.update_of_ne hj .., Iff.rfl, rfl, rfl⟩

/-- A cancel of a timer that is over returns at once. -/
theorem cancel_of_over (h : s.Inv) {id : Nat} (ho : s.Over id)
    (he : step s (.cancel id) = some s') : s' = { s with log := .cancelled id :: s.log } := by
  cases step_view he with
  | cancel _ hu hm => exact absurd hm (h.notMem_of_over ho)
  | cancelNone _ hu hm => rfl

/-- A thread-pool timer is closed at most once, and once the destructor has run exactly
once. -/
theorem Inv.closed (h : s.Inv) {id : Nat} {t : TpTimer} (ht : s.infos id = some t) :
    t.closed ≤ 1 ∧ (s.destroyed = true → t.closed = 1) := by
  have htok := h.token id t ht
  refine ⟨by omega, fun hd => ?_⟩
  obtain ⟨hs, hm, -⟩ := h.destroyed hd
  rw [mapped, hm, if_neg (Finset.notMem_empty _), hs, List.countP_nil] at htok
  omega

/-- **IOCP timers.** In every run a one-shot's callback is started at most once, no callback
is started after `cancel_timer` has returned for it, a cancel leaves the other timers as they
are and one of a timer that is over leaves everything, and each thread-pool timer is closed
exactly once. -/
theorem iocp_timers (h : machine.Reach s) :
    (∀ id t, s.infos id = some t → t.repeating = false → s.log.count (.ran id) ≤ 1) ∧
      (∀ id l, AfterCancel id s.log l → .ran id ∉ l) ∧
      (∀ id a s', s.Cancels id a → step s a = some s' → ∀ j ≠ id, s.SameTimer s' j) ∧
      (∀ id s', s.Over id → step s (.cancel id) = some s' →
        s' = { s with log := .cancelled id :: s.log }) ∧
      ∀ id t, s.infos id = some t → t.closed ≤ 1 ∧ (s.destroyed = true → t.closed = 1) := by
  have hi := reach_inv h
  refine ⟨fun id t ht hr => ?_, fun id l hl => (hi.final id l hl).2,
    fun id a s' hc he j hj => cancels_sameTimer hc he hj,
    fun id s' ho he => cancel_of_over hi ho he, fun id t ht => hi.closed ht⟩
  have := hi.once id t ht hr
  omega

/-- A repeating timer whose packet is twice in the port cancels itself from its callback:
the second packet finds nothing, and the destructor has nothing left to close. -/
theorem iocp_timers_self_cancel : ∃ s, machine.Reach s ∧
    s.log = [.cancelled 1, .ran 1, .scheduled 1] ∧ s.entries = [] ∧ s.destroyed = true ∧
    ∃ t, s.infos 1 = some t ∧ t.closed = 1 := by
  obtain ⟨s, hr, hp⟩ := Machine.Reach.of_run_init (M := machine)
    (fun s => decide (s.log = [.cancelled 1, .ran 1, .scheduled 1] ∧ s.entries = [] ∧
      s.destroyed = true ∧ (s.infos 1).isSome = true))
    [.schedule 10 true true, .expire 1, .insert, .expire 1, .harvest 2, .dispatch, .cancel 1,
      .close, .callbackReturn, .dispatch, .destroy] rfl (by decide)
  obtain ⟨hl, he, hd, hs⟩ := of_decide_eq_true hp
  obtain ⟨t, ht⟩ := Option.isSome_iff_exists.1 hs
  exact ⟨s, hr, hl, he, hd, t, ht, ((iocp_timers hr).2.2.2.2 1 t ht).2 hd⟩

end IocpTimers

end Socketpp
