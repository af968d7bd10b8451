import Socketpp.Lib.Machine
import Socketpp.Event.Epoll

/-!
# Timer handles

`defer` and `repeat` (`include/socketpp/event/loop.hpp`) return a
`timer_handle` (`include/socketpp/event/timer.hpp`), which keeps the
`timer_id` and passes it to `cancel_timer` when it is cancelled or destroyed.
On epoll the id is the number of the timerfd, and a handle keeps it after its
timer is gone, so a stale handle can cancel a later timer whose timerfd got
the same number. It cannot while no timerfd gets a number that is still held
(`FreshId`): then a held id has no timer, or its own (`HandleInv.held`).

Timers are numbered in the order they are scheduled; the number stands for the
callback. Moving a handle changes nothing here: `hold` says who has the id of
a timer, not which object.
-/

namespace Socketpp

/-- Who can still cancel a timer. -/
inductive Hold where
  /-- a `timer_handle` whose `cancel_fn_` is set -/
  | handle
  /-- the caller of `release` has the bare id -/
  | bare
  | nobody
  deriving DecidableEq, Repr

structure TimerLoop where
  disp : Epoll Empty Nat
  made : Nat
  /-- the id returned for each timer, `0` if it could not be created -/
  ids : Nat → Fd
  hold : Nat → Hold
  /-- what is left of the events `epoll_wait` returned -/
  events : List Fd
  /-- `timer_it` while its callback runs -/
  firing : Option (Fd × Nat)

namespace TimerLoop

def start : TimerLoop := ⟨.start, 0, fun _ => 0, fun _ => .nobody, [], none⟩

inductive Act where
  /-- `defer` or `repeat`, with the operating system's answers -/
  | schedule (timeout : Int) (rep : Bool) (tfd : Option Fd) (ctl : Bool)
  /-- `cancel`, or the handle is destroyed or assigned to -/
  | cancel (k : Nat)
  | release (k : Nat)
  /-- the bare id is passed to `cancel_timer` -/
  | cancelTimer (k : Nat)
  /-- the bare id is dropped -/
  | drop (k : Nat)
  /-- `epoll_wait` returns -/
  | wait (fds : List Fd)
  | dispatch
  /-- the timer's callback has returned -/
  | callbackReturn

/-- `defer` and `repeat`. -/
def schedule (s : TimerLoop) (timeout : Int) (rep : Bool) (tfd : Option Fd) (ctl : Bool) :
    TimerLoop :=
  let r := s.disp.scheduleTimer timeout rep s.made tfd ctl
  { s with
    disp := r.1
    made := s.made + 1
    ids := Function.update s.ids s.made r.2
    hold := Function.update s.hold s.made .handle }

/-- `timer_handle::cancel`. -/
def cancel (s : TimerLoop) (k : Nat) : TimerLoop :=
  match s.hold k with
  | .handle =>
    { s with disp := s.disp.cancelTimer (s.ids k), hold := Function.update s.hold k .nobody }
  | _ => s

/-- The timer that has an entry in `timer_callbacks_` under number `fd`. -/
def timerAt (s : TimerLoop) (fd : Fd) : Option Nat :=
  (s.disp.timers.lookup fd).map TimerInfo.callback

/-- One step of the loop thread. Calls of `schedule` and `cancel` stand for those
made by the callback that is running. `timerfd_create` returns the number of no
open descriptor, and `epoll_wait` reports no timer that is not armed. After a
callback that has removed its own entry, `poll` reads freed memory: there is no
next state. -/
def step (s : TimerLoop) : Act → Option TimerLoop
  | .schedule timeout rep tfd ctl =>
    if tfd.bind s.timerAt = none then some (s.schedule timeout rep tfd ctl) else none
  | .cancel k => if k < s.made then some (s.cancel k) else none
  | .release k =>
    if s.hold k = .handle then some { s with hold := Function.update s.hold k .bare } else none
  | .cancelTimer k =>
    if s.hold k = .bare then some { s with disp := s.disp.cancelTimer (s.ids k) } else none
  | .drop k =>
    if s.hold k = .bare then some { s with hold := Function.update s.hold k .nobody } else none
  | .wait fds =>
    if s.events = [] ∧ s.firing = none ∧ fds.length ≤ 256 ∧ fds.Nodup ∧
        fds.all fun fd => (s.disp.timers.lookup fd).all fun info => info.its.Armed then
      some { s with events := fds }
    else none
  | .dispatch =>
    match s.firing, s.events with
    | none, fd :: rest =>
      some { s with events := rest, firing := (s.timerAt fd).map fun k => (fd, k) }
    | _, _ => none
  | .callbackReturn =>
    match s.firing with
    | none => none
    | some (fd, k) =>
      match s.disp.timers.lookup fd with
      | none => none
      | some info =>
        if info.callback = k then some { s with disp := s.disp.afterTimer fd info, firing := none }
        else none

def machine : Machine TimerLoop Act where
  Init s := s = start
  step := step

/-- The timer is scheduled and was neither cancelled nor, if one-shot, fired. -/
def Live (s : TimerLoop) (k : Nat) : Prop := s.timerAt (s.ids k) = some k

instance (s : TimerLoop) (k : Nat) : Decidable (s.Live k) := inferInstanceAs (Decidable (_ = _))

/-- A timerfd gets a number no handle or caller still has, and no timer is
scheduled while a live one has number `0`, the id of those that could not be
created. -/
def FreshId (s : TimerLoop) : Act → Prop
  | .schedule _ _ tfd _ =>
    (∀ k < s.made, s.hold k ≠ .nobody → tfd ≠ some (s.ids k)) ∧ s.timerAt 0 = none
  | _ => True

instance (s : TimerLoop) : (a : Act) → Decidable (s.FreshId a)
  | .schedule _ _ tfd _ => inferInstanceAs (Decidable
      ((∀ k < s.made, s.hold k ≠ .nobody → tfd ≠ some (s.ids k)) ∧ s.timerAt 0 = none))
  | .cancel _ | .release _ | .cancelTimer _ | .drop _ | .wait _ | .dispatch | .callbackReturn =>
    isTrue trivial

/-! ## What a step does to the timers -/

variable {s s' : TimerLoop} {a : Act}

/-- Why a step erases the entry of number `fd`. -/
inductive Erases (s : TimerLoop) (a : Act) (fd : Fd) : Prop where
  | held (k : Nat) (ha : a = .cancel k ∨ a = .cancelTimer k) (hk : s.hold k ≠ .nobody)
      (hf : fd = s.ids k)
  | fired (k : Nat) (info : TimerInfo Nat) (ha : a = .callbackReturn)
      (hf : s.firing = some (fd, k)) (hl : s.disp.timers.lookup fd = some info)
      (hc : info.callback = k) (hr : info.repeating = false)

inductive View (s s' : TimerLoop) (a : Act) : Prop where
  | same (hd : s'.disp = s.disp) (hm : s'.made = s.made) (hi : s'.ids = s.ids)
      (hh : ∀ k, s'.hold k ≠ .nobody → s.hold k ≠ .nobody)
  | made (timeout : Int) (rep : Bool) (tfd : Option Fd) (ctl : Bool) (id : Fd)
      (ha : a = .schedule timeout rep tfd ctl)
      (hd : tfd = some id ∧ s.timerAt id = none ∧ s'.disp.timers = s.disp.timers.insert id
          ⟨s.made, rep, .ofTimeout timeout rep⟩ ∨ id = 0 ∧ s'.disp = s.disp)
      (hm : s'.made = s.made + 1) (hi : s'.ids = Function.update s.ids s.made id)
      (hh : ∀ k, k ≠ s.made → s'.hold k = s.hold k)
  | erased (fd : Fd) (he : Erases s a fd) (hd : s'.disp = s.disp.cancelTimer fd)
      (hm : s'.made = s.made) (hi : s'.ids = s.ids)
      (hh : ∀ k, s'.hold k ≠ .nobody → s.hold k ≠ .nobody)

theorem hold_update {hold : Nat → Hold} {k : Nat} {x : Hold}
    (hx : x ≠ .nobody → hold k ≠ .nobody) (j : Nat) (h : Function.update hold k x j ≠ .nobody) :
    hold j ≠ .nobody := by
  by_cases hj : j = k
  · subst hj; rw [Function.update_self] at h; exact hx h
  · rwa [Function.update_of_ne hj] at h

/-- **Every step, seen from the timers.** -/
theorem step_view (he : s.step a = some s') : View s s' a := by
  cases a with
  | schedule timeout rep tfd ctl =>
    simp only [step] at he
    split at he
    · rename_i hfree
      cases he
      have hh : ∀ k, k ≠ s.made → (s.schedule timeout rep tfd ctl).hold k = s.hold k := by
        intro k hk
        simp [schedule, hk]
      rcases s.disp.scheduleTimer_cases timeout rep s.made tfd ctl with ⟨fd, rfl, -, e⟩ | e
      · refine .made timeout rep (some fd) ctl fd rfl (.inl ⟨rfl, hfree, ?_⟩) rfl ?_ hh
        · simp [schedule, e]
        · simp [schedule, e]
      · refine .made timeout rep tfd ctl 0 rfl (.inr ⟨rfl, ?_⟩) rfl ?_ hh
        · simp [schedule, e]
        · simp [schedule, e]
    · cases he
  | cancel k =>
    simp only [step] at he
    split at he
    · cases he
      unfold cancel
      split
      · rename_i hk
        exact .erased (s.ids k) (.held k (.inl rfl) (by rw [hk]; rintro ⟨⟩) rfl) rfl rfl rfl
          (hold_update (absurd rfl))
      · exact .same rfl rfl rfl fun _ => id
    · cases he
  | release k =>
    simp only [step] at he
    split at he
    · rename_i hk
      cases he
      exact .same rfl rfl rfl (hold_update fun _ => by rw [hk]; rintro ⟨⟩)
    · cases he
  | cancelTimer k =>
    simp only [step] at he
    split at he
    · rename_i hk
      cases he
      exact .erased (s.ids k) (.held k (.inr rfl) (by rw [hk]; rintro ⟨⟩) rfl) rfl rfl rfl
        fun _ => id
    · cases he
  | drop k =>
    simp only [step] at he
    split at he
    · cases he; exact .same rfl rfl rfl (hold_update (absurd rfl))
    · cases he
  | wait fds =>
    simp only [step] at he
    split at he
    · cases he; exact .same rfl rfl rfl fun _ => id
    · cases he
  | dispatch =>
    simp only [step] at he
    split at he
    · cases he; exact .same rfl rfl rfl fun _ => id
    · cases he
  | callbackReturn =>
    simp only [step] at he
    split at he
    · cases he
    · rename_i fd k hf
      split at he
      · cases he
      · rename_i info hl
        split at he
        · rename_i hc
          cases he
          cases hr : info.repeating with
          | true => exact .same (by simp [Epoll.afterTimer, hr]) rfl rfl fun _ => id
          | false =>
            exact .erased fd (.fired k info rfl hf hl hc hr) (by simp [Epoll.afterTimer, hr]) rfl
              rfl fun _ => id
        · cases he

/-! ## Held ids -/

theorem timerAt_of_eq (h : s'.disp = s.disp) (fd : Fd) : s'.timerAt fd = s.timerAt fd := by
  rw [timerAt, h, timerAt]

theorem timerAt_insert {fd : Fd} {info : TimerInfo Nat}
    (h : s'.disp.timers = s.disp.timers.insert fd info) (fd' : Fd) :
    s'.timerAt fd' = if fd' = fd then some info.callback else s.timerAt fd' := by
  rw [timerAt, h]
  split
  · rename_i e; rw [e, AList.lookup_insert]; rfl
  · rename_i hne; rw [AList.lookup_insert_ne hne, timerAt]

theorem timerAt_erase {fd : Fd} (h : s'.disp = s.disp.cancelTimer fd) (fd' : Fd) :
    s'.timerAt fd' = if fd' = fd then none else s.timerAt fd' := by
  rw [timerAt, h, Epoll.cancelTimer]
  split
  · rename_i e; rw [e, AList.lookup_erase]; rfl
  · rename_i hne; rw [AList.lookup_erase_ne hne, timerAt]

structure HandleInv (s : TimerLoop) : Prop where
  entry : ∀ fd k, s.timerAt fd = some k → k < s.made ∧ s.ids k = fd
  fresh : ∀ k, s.made ≤ k → s.hold k = .nobody
  /-- a held id has no timer, or its own -/
  held : ∀ k j, s.hold k ≠ .nobody → s.timerAt (s.ids k) = some j → j = k

theorem start_handleInv : start.HandleInv := ⟨nofun, fun _ _ => rfl, nofun⟩

theorem HandleInv.lt_made (h : s.HandleInv) {k : Nat} (hk : s.hold k ≠ .nobody) : k < s.made :=
  Nat.lt_of_not_le fun hle => hk (h.fresh k hle)

/-- Steps that schedule nothing. -/
theorem HandleInv.mono (h : s.HandleInv) (hm : s'.made = s.made) (hi : s'.ids = s.ids)
    (ht : ∀ fd k, s'.timerAt fd = some k → s.timerAt fd = some k)
    (hh : ∀ k, s'.hold k ≠ .nobody → s.hold k ≠ .nobody) : s'.HandleInv := by
  refine ⟨fun fd k hk => ?_, fun k hk => ?_, fun k j hk hj => ?_⟩
  · rw [hm, hi]; exact h.entry fd k (ht fd k hk)
  · by_contra hne; exact hh k hne (h.fresh k (hm ▸ hk))
  · exact h.held k j (hh k hk) (ht _ j (hi ▸ hj))

/-- A new timer. -/
theorem HandleInv.made (h : s.HandleInv) {id : Fd} (hm : s'.made = s.made + 1)
    (hi : s'.ids = Function.update s.ids s.made id) (hh : ∀ k, k ≠ s.made → s'.hold k = s.hold k)
    (hid : ∀ k < s.made, s.hold k ≠ .nobody → s'.timerAt (s.ids k) = s.timerAt (s.ids k))
    (hat : ∀ fd k, s'.timerAt fd = some k →
      fd = id ∧ k = s.made ∨ fd ≠ id ∧ s.timerAt fd = some k) :
    s'.HandleInv := by
  have hold (k : Nat) (hk : k < s.made) : s'.ids k = s.ids k := by
    rw [hi, Function.update_of_ne (Nat.ne_of_lt hk)]
  refine ⟨fun fd k hk => ?_, fun k hk => ?_, fun k j hk hj => ?_⟩
  · rcases hat fd k hk with ⟨rfl, rfl⟩ | ⟨-, hk⟩
    · exact ⟨by omega, by rw [hi, Function.update_self]⟩
    · obtain ⟨hlt, e⟩ := h.entry fd k hk
      exact ⟨by omega, (hold k hlt).trans e⟩
  · rw [hh k (by omega)]; exact h.fresh k (by omega)
  · by_cases hkm : k = s.made
    · subst hkm
      rw [hi, Function.update_self] at hj
      rcases hat id j hj with ⟨-, hj⟩ | ⟨hne, -⟩
      · exact hj
      · exact absurd rfl hne
    · rw [hh k hkm] at hk
      have hlt := h.lt_made hk
      rw [hold k hlt, hid k hlt hk] at hj
      exact h.held k j hk hj

theorem HandleInv.step (h : s.HandleInv) (hok : s.FreshId a) (he : s.step a = some s') :
    s'.HandleInv := by
  cases step_view he with
  | same hd hm hi hh => exact h.mono hm hi (fun fd k hk => by rwa [timerAt_of_eq hd] at hk) hh
  | erased fd _ hd hm hi hh =>
    refine h.mono hm hi (fun fd' k hk => ?_) hh
    rw [timerAt_erase hd] at hk
    split at hk
    · cases hk
    · exact hk
  | made timeout rep tfd ctl id ha hd hm hi hh =>
    subst ha
    rcases hd with ⟨rfl, hfree, hd⟩ | ⟨rfl, hd⟩
    · refine h.made hm hi hh (fun k hk hheld => ?_) fun fd k hk => ?_
      · rw [timerAt_insert hd, if_neg fun e => hok.1 k hk hheld (by rw [e])]
      · rw [timerAt_insert hd] at hk
        split at hk
        · rename_i e; exact .inl ⟨e, (Option.some.inj hk).symm⟩
        · rename_i hne; exact .inr ⟨hne, hk⟩
    · refine h.made hm hi hh (fun k _ _ => timerAt_of_eq hd _) fun fd k hk => ?_
      rw [timerAt_of_eq hd] at hk
      refine .inr ⟨fun e => ?_, hk⟩
      rw [e, hok.2] at hk
      cases hk

theorem reach_handleInv (h : machine.ReachOk FreshId s) : s.HandleInv :=
  h.inv (fun _ hs => hs ▸ start_handleInv) fun _ _ _ _ hi hok he => hi.step hok he

/-- A held id whose timer is gone names no timer. -/
theorem HandleInv.stale (h : s.HandleInv) {k : Nat} (hk : s.hold k ≠ .nobody) (hl : ¬ s.Live k) :
    s.disp.timers.lookup (s.ids k) = none := by
  cases ht : s.timerAt (s.ids k) with
  | none => exact Option.map_eq_none_iff.1 ht
  | some j => exact absurd (by rw [Live, ht, h.held k j hk ht]) hl

end TimerLoop

end Socketpp
