import Socketpp.Event.Loop
import Socketpp.Lib.Tables

/-!
# The epoll dispatcher

`epoll_dispatcher` (`src/event/epoll.cpp`), used by the loop thread alone.
Sockets are registered with the kernel and have a callback in `callbacks_`; a
timer is a timerfd with an entry in `timer_callbacks_` under its number, which
is also its `timer_id`. What a callback does is left to the code that
registers it: `C` and `F` are the types that name socket and timer callbacks.

What the operating system answers is an argument: the number `timerfd_create`
returns, and whether `epoll_ctl` takes the descriptor.
-/

namespace Socketpp

/-- The `itimerspec` handed to `timerfd_settime`. -/
structure Itimerspec where
  valueSec : Int
  valueNsec : Int
  intervalSec : Int
  intervalNsec : Int
  deriving DecidableEq, Repr

namespace Itimerspec

/-- The one `schedule_timer` builds; C++ division rounds towards zero. -/
def ofTimeout (timeout : Int) (rep : Bool) : Itimerspec :=
  let secs := timeout.tdiv 1000
  let nsecs := timeout.tmod 1000 * 1000000
  ⟨secs, nsecs, if rep then secs else 0, if rep then nsecs else 0⟩

/-- `timerfd_settime` takes it. -/
def Valid (its : Itimerspec) : Prop :=
  0 ≤ its.valueSec ∧ 0 ≤ its.valueNsec ∧ its.valueNsec < 1000000000 ∧
    0 ≤ its.intervalSec ∧ 0 ≤ its.intervalNsec ∧ its.intervalNsec < 1000000000

instance (its : Itimerspec) : Decidable its.Valid := inferInstanceAs (Decidable (_ ∧ _))

/-- The timer expires; a zero `it_value` disarms it. -/
def Armed (its : Itimerspec) : Prop := its.valueSec ≠ 0 ∨ its.valueNsec ≠ 0

instance (its : Itimerspec) : Decidable its.Armed := inferInstanceAs (Decidable (_ ∨ _))

theorem valid_ofTimeout {timeout : Int} (h : 0 ≤ timeout) (rep : Bool) :
    (ofTimeout timeout rep).Valid := by
  have h1 : 0 ≤ timeout.tdiv 1000 := Int.tdiv_nonneg h (by decide)
  have h2 : 0 ≤ timeout.tmod 1000 := Int.tmod_nonneg 1000 h
  have h3 : timeout.tmod 1000 < 1000 := Int.tmod_lt_of_pos timeout (by decide)
  unfold ofTimeout Valid
  cases rep <;> simp <;> omega

theorem armed_ofTimeout {timeout : Int} (h : 0 < timeout) (rep : Bool) :
    (ofTimeout timeout rep).Armed := by
  have h1 := Int.mul_tdiv_add_tmod timeout 1000
  unfold ofTimeout Armed
  simp only [ne_eq]
  omega

end Itimerspec

/-- `timer_info`, and what its timerfd was set to. -/
structure TimerInfo (F : Type) where
  callback : F
  repeating : Bool
  its : Itimerspec
  deriving DecidableEq, Repr

structure Epoll (C F : Type) where
  /-- the kernel's list of registered sockets, each with its interest -/
  interest : AList fun _ : Fd => IoEvent
  callbacks : AList fun _ : Fd => C
  timers : AList fun _ : Fd => TimerInfo F

namespace Epoll

variable {C F : Type}

def start : Epoll C F := ⟨∅, ∅, ∅⟩

/-- `add`; `ctl` is whether `EPOLL_CTL_ADD` succeeds. -/
def add (d : Epoll C F) (fd : Fd) (mask : IoEvent) (cb : C) (ctl : Bool) : Epoll C F :=
  if ctl then
    { d with interest := d.interest.insert fd mask, callbacks := d.callbacks.insert fd cb }
  else d

/-- `modify`: `EPOLL_CTL_MOD` fails on a descriptor that is not registered. -/
def modify (d : Epoll C F) (fd : Fd) (mask : IoEvent) : Epoll C F :=
  if (d.interest.lookup fd).isSome then { d with interest := d.interest.insert fd mask } else d

/-- `remove`: `EPOLL_CTL_DEL` fails on a descriptor that is not registered, and the
callback then stays. -/
def remove (d : Epoll C F) (fd : Fd) : Epoll C F :=
  if (d.interest.lookup fd).isSome then
    { d with interest := d.interest.erase fd, callbacks := d.callbacks.erase fd }
  else d

/-- The kernel forgets a descriptor that is closed. -/
def closed (d : Epoll C F) (fd : Fd) : Epoll C F := { d with interest := d.interest.erase fd }

/-- `schedule_timer`, with the id it returns. -/
def scheduleTimer (d : Epoll C F) (timeout : Int) (rep : Bool) (callback : F)
    (tfd : Option Fd) (ctl : Bool) : Epoll C F × Fd :=
  match tfd with
  | none => (d, 0)
  | some tfd =>
    let its := Itimerspec.ofTimeout timeout rep
    if ¬ its.Valid then (d, 0)
    else if ¬ ctl then (d, 0)
    else ({ d with timers := d.timers.insert tfd ⟨callback, rep, its⟩ }, tfd)

/-- `cancel_timer`: the timerfd is closed and its entry erased, if there is one. -/
def cancelTimer (d : Epoll C F) (id : Fd) : Epoll C F := { d with timers := d.timers.erase id }

/-- The end of `poll`'s timer branch: a one-shot timer is removed. -/
def afterTimer (d : Epoll C F) (fd : Fd) (info : TimerInfo F) : Epoll C F :=
  if info.repeating then d else d.cancelTimer fd

theorem lookup_add (d : Epoll C F) (fd : Fd) (mask : IoEvent) (cb : C) :
    (d.add fd mask cb true).interest.lookup fd = some mask := by
  simp [add, AList.lookup_insert]

theorem lookup_modify {d : Epoll C F} {fd : Fd} (h : (d.interest.lookup fd).isSome = true)
    (mask : IoEvent) : (d.modify fd mask).interest.lookup fd = some mask := by
  simp [modify, h, AList.lookup_insert]

theorem lookup_modify_ne {d : Epoll C F} {fd fd' : Fd} (h : fd ≠ fd') (mask : IoEvent) :
    (d.modify fd' mask).interest.lookup fd = d.interest.lookup fd := by
  unfold modify
  split
  · exact AList.lookup_insert_ne h
  · rfl

@[simp] theorem modify_timers (d : Epoll C F) (fd : Fd) (mask : IoEvent) :
    (d.modify fd mask).timers = d.timers := by
  unfold modify; split <;> rfl

@[simp] theorem afterTimer_interest (d : Epoll C F) (fd : Fd) (info : TimerInfo F) :
    (d.afterTimer fd info).interest = d.interest := by
  unfold afterTimer; split <;> rfl

/-- Either the timer is there afterwards, under the number that was granted, or
nothing has changed. -/
theorem scheduleTimer_cases (d : Epoll C F) (timeout : Int) (rep : Bool) (callback : F)
    (tfd : Option Fd) (ctl : Bool) :
    (∃ fd, tfd = some fd ∧ ctl = true ∧ d.scheduleTimer timeout rep callback tfd ctl =
        ({ d with timers := d.timers.insert fd ⟨callback, rep, .ofTimeout timeout rep⟩ }, fd)) ∨
      d.scheduleTimer timeout rep callback tfd ctl = (d, 0) := by
  unfold scheduleTimer
  cases tfd with
  | none => exact .inr rfl
  | some fd =>
    simp only
    split
    · exact .inr rfl
    · split
      · exact .inr rfl
      · rename_i hc
        exact .inl ⟨fd, rfl, by simpa using hc, rfl⟩

/-- With a non-negative timeout only the operating system can fail. -/
theorem scheduleTimer_granted (d : Epoll C F) {timeout : Int} (h : 0 ≤ timeout) (rep : Bool)
    (callback : F) (fd : Fd) : d.scheduleTimer timeout rep callback (some fd) true =
      ({ d with timers := d.timers.insert fd ⟨callback, rep, .ofTimeout timeout rep⟩ }, fd) := by
  simp [scheduleTimer, Itimerspec.valid_ofTimeout h rep]

/-- A descriptor that is removed and closed is not registered, and the others stay. -/
theorem lookup_removed_closed (d : Epoll C F) (fd : Fd) :
    ((d.remove fd).closed fd).interest.lookup fd = none ∧
      ∀ fd' ≠ fd, ((d.remove fd).closed fd).interest.lookup fd' = d.interest.lookup fd' ∧
        (d.remove fd).callbacks.lookup fd' = d.callbacks.lookup fd' := by
  refine ⟨AList.lookup_erase .., fun fd' h => ?_⟩
  unfold closed remove
  rw [AList.lookup_erase_ne h]
  split
  · exact ⟨AList.lookup_erase_ne h, AList.lookup_erase_ne h⟩
  · exact ⟨rfl, rfl⟩

theorem lookup_remove_ne {d : Epoll C F} {fd fd' : Fd} (h : fd ≠ fd') :
    (d.remove fd').interest.lookup fd = d.interest.lookup fd := by
  unfold remove
  split
  · exact AList.lookup_erase_ne h
  · rfl

/-- `remove` of a registered descriptor takes its callback. -/
theorem lookup_callbacks_remove {d : Epoll C F} {fd : Fd}
    (h : (d.interest.lookup fd).isSome = true) : (d.remove fd).callbacks.lookup fd = none := by
  rw [remove, if_pos h]
  exact AList.lookup_erase ..

/-! ## What the maps hold -/

/-- Every registered descriptor has a callback; the converse fails once one is closed. -/
def HasCallbacks (d : Epoll C F) : Prop :=
  ∀ fd, (d.interest.lookup fd).isSome = true → (d.callbacks.lookup fd).isSome = true

namespace HasCallbacks

variable {d : Epoll C F}

theorem add (h : d.HasCallbacks) (fd : Fd) (mask : IoEvent) (cb : C) (ctl : Bool) :
    (d.add fd mask cb ctl).HasCallbacks := by
  unfold Epoll.add
  split
  · intro fd' hs
    by_cases e : fd' = fd
    · subst e
      exact congrArg Option.isSome (AList.lookup_insert _)
    · rw [AList.lookup_insert_ne e] at hs ⊢
      exact h fd' hs
  · exact h

theorem modify (h : d.HasCallbacks) (fd : Fd) (mask : IoEvent) :
    (d.modify fd mask).HasCallbacks := by
  unfold Epoll.modify
  split
  · rename_i hr
    intro fd' hs
    by_cases e : fd' = fd
    · subst e
      exact h fd' hr
    · rw [AList.lookup_insert_ne e] at hs
      exact h fd' hs
  · exact h

theorem remove (h : d.HasCallbacks) (fd : Fd) : (d.remove fd).HasCallbacks := by
  unfold Epoll.remove
  split
  · intro fd' hs
    obtain ⟨m, hm⟩ := Option.isSome_iff_exists.1 hs
    obtain ⟨e, hm⟩ := Tables.lookup_erase_some hm
    rw [AList.lookup_erase_ne e]
    exact h fd' (Option.isSome_iff_exists.2 ⟨m, hm⟩)
  · exact h

theorem closed (h : d.HasCallbacks) (fd : Fd) : (d.closed fd).HasCallbacks := by
  intro fd' hs
  obtain ⟨m, hm⟩ := Option.isSome_iff_exists.1 hs
  exact h fd' (Option.isSome_iff_exists.2 ⟨m, (Tables.lookup_erase_some hm).2⟩)

end HasCallbacks

theorem mem_entries_insert {β : Type} {l : AList fun _ : Fd => β} {fd : Fd} {x : β}
    {e : Sigma fun _ : Fd => β} (h : e ∈ (l.insert fd x).entries) :
    e = ⟨fd, x⟩ ∨ e ∈ l.entries := by
  rw [AList.entries_insert] at h
  exact (List.mem_cons.1 h).imp_right fun h => (List.kerase_sublist fd l.entries).subset h

theorem mem_entries_erase {β : Type} {l : AList fun _ : Fd => β} {fd : Fd}
    {e : Sigma fun _ : Fd => β} (h : e ∈ (l.erase fd).entries) : e ∈ l.entries :=
  (List.kerase_sublist fd l.entries).subset h

variable {d : Epoll C F}

theorem mem_callbacks_add {fd : Fd} {mask : IoEvent} {cb : C} {ctl : Bool}
    {e : Sigma fun _ : Fd => C} (h : e ∈ (d.add fd mask cb ctl).callbacks.entries) :
    e.2 = cb ∨ e ∈ d.callbacks.entries := by
  unfold add at h
  split at h
  · rcases mem_entries_insert h with rfl | h
    · exact .inl rfl
    · exact .inr h
  · exact .inr h

theorem mem_callbacks_remove {fd : Fd} {e : Sigma fun _ : Fd => C}
    (h : e ∈ (d.remove fd).callbacks.entries) : e ∈ d.callbacks.entries := by
  unfold remove at h
  split at h
  · exact mem_entries_erase h
  · exact h

@[simp] theorem add_timers (fd : Fd) (mask : IoEvent) (cb : C) (ctl : Bool) :
    (d.add fd mask cb ctl).timers = d.timers := by
  unfold add; split <;> rfl

@[simp] theorem remove_timers (fd : Fd) : (d.remove fd).timers = d.timers := by
  unfold remove; split <;> rfl

@[simp] theorem scheduleTimer_callbacks (timeout : Int) (rep : Bool) (callback : F)
    (tfd : Option Fd) (ctl : Bool) :
    (d.scheduleTimer timeout rep callback tfd ctl).1.callbacks = d.callbacks := by
  rcases d.scheduleTimer_cases timeout rep callback tfd ctl with ⟨fd, -, -, e⟩ | e <;> rw [e]

@[simp] theorem afterTimer_callbacks (fd : Fd) (info : TimerInfo F) :
    (d.afterTimer fd info).callbacks = d.callbacks := by
  unfold afterTimer; split <;> rfl

theorem mem_timers_scheduleTimer {timeout : Int} {rep : Bool} {callback : F} {tfd : Option Fd}
    {ctl : Bool} {e : Sigma fun _ : Fd => TimerInfo F}
    (h : e ∈ (d.scheduleTimer timeout rep callback tfd ctl).1.timers.entries) :
    e.2.callback = callback ∨ e ∈ d.timers.entries := by
  rcases d.scheduleTimer_cases timeout rep callback tfd ctl with ⟨fd, -, -, he⟩ | he
  · rw [he] at h
    rcases mem_entries_insert h with rfl | h
    · exact .inl rfl
    · exact .inr h
  · rw [he] at h
    exact .inr h

theorem lookup_scheduleTimer {timeout : Int} {rep : Bool} {callback : F} {tfd : Option Fd}
    {ctl : Bool} {fd : Fd} {info : TimerInfo F}
    (h : (d.scheduleTimer timeout rep callback tfd ctl).1.timers.lookup fd = some info) :
    (fd = (d.scheduleTimer timeout rep callback tfd ctl).2 ∧ info.callback = callback ∧
        info.repeating = rep) ∨
      d.timers.lookup fd = some info := by
  rcases d.scheduleTimer_cases timeout rep callback tfd ctl with ⟨fd', -, -, e⟩ | e
  · rw [e] at h ⊢
    rcases Tables.lookup_insert_some h with ⟨rfl, rfl⟩ | ⟨-, h⟩
    · exact .inl ⟨rfl, rfl, rfl⟩
    · exact .inr h
  · rw [e] at h
    exact .inr h

theorem lookup_callbacks_add {fd fd' : Fd} {mask : IoEvent} {cb r : C} {ctl : Bool}
    (h : (d.add fd mask cb ctl).callbacks.lookup fd' = some r) :
    (fd' = fd ∧ r = cb ∧ (d.add fd mask cb ctl).interest.lookup fd = some mask) ∨
      d.callbacks.lookup fd' = some r := by
  cases ctl with
  | true =>
    rcases Tables.lookup_insert_some h with ⟨rfl, rfl⟩ | ⟨-, h⟩
    · exact .inl ⟨rfl, rfl, lookup_add ..⟩
    · exact .inr h
  | false => exact .inr h

theorem mem_timers_afterTimer {fd : Fd} {info : TimerInfo F} {e : Sigma fun _ : Fd => TimerInfo F}
    (h : e ∈ (d.afterTimer fd info).timers.entries) : e ∈ d.timers.entries := by
  unfold afterTimer at h
  split at h
  · exact h
  · exact mem_entries_erase h

end Epoll

end Socketpp
