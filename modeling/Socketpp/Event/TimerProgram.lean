import Socketpp.Event.Epoll
import Socketpp.Event.IocpTimers

/-!
# What a timer is set to

`schedule_timer` takes milliseconds in a 64-bit `count()`. On epoll it hands
`timerfd_settime` seconds and nanoseconds, on IOCP `SetThreadpoolTimer` a
`FILETIME` of 100 ns ticks, negative for a time relative to now, and a period in
a 32-bit `DWORD` of milliseconds. `Exact` says, for each of the two, that the
timer expires after the timeout and then, if it repeats, every timeout again.

`ofTimeout_exact_iff` of the one and of the other: a zero `it_value` disarms a
timerfd, the ticks leave `LONGLONG` from 922337203685478 ms on, and the `DWORD`
drops the upper half of the period.
-/

namespace Socketpp

namespace Itimerspec

/-- The timerfd is armed for `timeout` milliseconds. -/
structure Exact (its : Itimerspec) (timeout : Int) (rep : Bool) : Prop where
  armed : its.Armed
  nsec : 0 ≤ its.valueNsec ∧ its.valueNsec < 1000000000
  value : its.valueSec * 1000000000 + its.valueNsec = timeout * 1000000
  interval : its.intervalSec * 1000000000 + its.intervalNsec =
    if rep then timeout * 1000000 else 0

theorem ofTimeout_value (timeout : Int) (rep : Bool) :
    (ofTimeout timeout rep).valueSec * 1000000000 + (ofTimeout timeout rep).valueNsec =
      timeout * 1000000 := by
  have h := Int.mul_tdiv_add_tmod timeout 1000
  unfold ofTimeout
  simp only
  omega

theorem ofTimeout_interval (timeout : Int) (rep : Bool) :
    (ofTimeout timeout rep).intervalSec * 1000000000 + (ofTimeout timeout rep).intervalNsec =
      if rep then timeout * 1000000 else 0 := by
  cases rep with
  | false => rfl
  | true => exact ofTimeout_value timeout true

theorem ofTimeout_exact_iff {timeout : Int} (h : 0 ≤ timeout) (rep : Bool) :
    (ofTimeout timeout rep).Exact timeout rep ↔ 0 < timeout := by
  constructor
  · intro he
    have hv := he.value
    have hn := he.nsec
    have hs := (valid_ofTimeout h rep).1
    rcases he.armed with ha | ha <;> omega
  · intro ht
    obtain ⟨-, h2, h3, -⟩ := valid_ofTimeout h rep
    exact ⟨armed_ofTimeout ht rep, ⟨h2, h3⟩, ofTimeout_value timeout rep,
      ofTimeout_interval timeout rep⟩

end Itimerspec

namespace TpTimer

/-- The due time, as the 64-bit number its two halves make. -/
def dueTime (t : TpTimer) : BitVec 64 := t.dueHigh ++ t.dueLow

/-- The thread-pool timer is set to `timeout` milliseconds from now. -/
structure Exact (t : TpTimer) (timeout : Int) (rep : Bool) : Prop where
  due : t.dueTime.toInt = -(timeout * 10000)
  period : (t.period.toNat : Int) = if rep then timeout else 0

theorem dueTime_ofTimeout (timeout : Int) (rep : Bool) :
    (ofTimeout timeout rep).dueTime = quadPart timeout := by
  unfold dueTime ofTimeout
  simp only
  rw [BitVec.extractLsb'_append_extractLsb'_eq_extractLsb' (by rfl)]
  simp

theorem toInt_quadPart_eq_iff {timeout : Int} (h : 0 ≤ timeout) :
    (quadPart timeout).toInt = -(timeout * 10000) ↔ timeout * 10000 < 2 ^ 63 := by
  have he : quadPart timeout = BitVec.ofInt 64 (-(timeout * 10000)) := by
    unfold quadPart
    rw [BitVec.ofInt_neg, BitVec.ofInt_mul]
    rfl
  rw [he, BitVec.toInt_ofInt]
  constructor
  · intro hi
    have hle := Int.le_bmod (x := -(timeout * 10000)) (m := 2 ^ 64) (by decide)
    omega
  · intro hl
    apply Int.bmod_eq_of_le <;> omega

theorem period_ofTimeout_eq_iff {timeout : Int} (h : 0 ≤ timeout) (hb : timeout < 2 ^ 63)
    (rep : Bool) : ((ofTimeout timeout rep).period.toNat : Int) = (if rep then timeout else 0) ↔
      (rep = true → timeout < 2 ^ 32) := by
  cases rep with
  | false => simp [ofTimeout]
  | true =>
    simp [ofTimeout, BitVec.toNat_setWidth, BitVec.toNat_ofInt]
    omega

theorem ofTimeout_exact_iff {timeout : Int} (h : 0 ≤ timeout) (hb : timeout < 2 ^ 63)
    (rep : Bool) : (ofTimeout timeout rep).Exact timeout rep ↔
      timeout * 10000 < 2 ^ 63 ∧ (rep = true → timeout < 2 ^ 32) := by
  rw [← toInt_quadPart_eq_iff h, ← period_ofTimeout_eq_iff h hb rep,
    ← dueTime_ofTimeout timeout rep]
  exact ⟨fun he => ⟨he.due, he.period⟩, fun he => ⟨he.1, he.2⟩⟩

end TpTimer

theorem IocpTimers.infos_schedule {s s' : IocpTimers} {timeout : Int} {rep : Bool}
    (h : step s (.schedule timeout rep true) = some s') :
    s'.infos s.nextTimerId = some (.ofTimeout timeout rep) := by
  cases step_view h with
  | schedule _ _ hu => exact Function.update_self ..

theorem Epoll.lookup_scheduleTimer_id {C F : Type} {d : Epoll C F} {timeout : Int} {rep : Bool}
    {callback : F} {tfd : Option Fd} {ctl : Bool}
    (h : (d.scheduleTimer timeout rep callback tfd ctl).2 ≠ 0) :
    (d.scheduleTimer timeout rep callback tfd ctl).1.timers.lookup
      (d.scheduleTimer timeout rep callback tfd ctl).2 =
      some ⟨callback, rep, .ofTimeout timeout rep⟩ := by
  rcases d.scheduleTimer_cases timeout rep callback tfd ctl with ⟨fd, -, -, e⟩ | e
  · rw [e]
    exact AList.lookup_insert _
  · rw [e] at h
    exact absurd rfl h

section

variable {C F : Type} (d : Epoll C F) (callback : F) {s : IocpTimers}

/-- On epoll a timer `schedule_timer` returns the id of is exact. -/
def Epoll.TimersExact (timeout : Int) (rep : Bool) : Prop :=
  ∀ tfd ctl, (d.scheduleTimer timeout rep callback tfd ctl).2 ≠ 0 →
    ∃ info, (d.scheduleTimer timeout rep callback tfd ctl).1.timers.lookup
      (d.scheduleTimer timeout rep callback tfd ctl).2 = some info ∧ info.its.Exact timeout rep

/-- On IOCP one whose thread-pool timer could be made is. -/
def IocpTimers.TimersExact (s : IocpTimers) (timeout : Int) (rep : Bool) : Prop :=
  ∀ s', step s (.schedule timeout rep true) = some s' →
    ∃ t, s'.infos s.nextTimerId = some t ∧ t.Exact timeout rep

/-- **Timers are set exactly** but for a timeout of zero on epoll, and on IOCP for one whose
ticks are beyond 63 bits or, if it repeats, that is beyond 32 bits. -/
theorem timer_exact_iff (hs : s.user = true) {timeout : Int} (h0 : 0 ≤ timeout)
    (h1 : timeout < 2 ^ 63) (rep : Bool) :
    (d.TimersExact callback timeout rep ↔ 0 < timeout) ∧
      (s.TimersExact timeout rep ↔
        timeout * 10000 < 2 ^ 63 ∧ (rep = true → timeout < 2 ^ 32)) := by
  constructor
  · rw [← Itimerspec.ofTimeout_exact_iff h0 rep]
    constructor
    · intro h
      have hid : (d.scheduleTimer timeout rep callback (some 1) true).2 ≠ 0 := by
        rw [d.scheduleTimer_granted h0 rep callback 1]
        exact show (1 : Fd) ≠ 0 by decide
      obtain ⟨info, hl, he⟩ := h (some 1) true hid
      cases hl.symm.trans (Epoll.lookup_scheduleTimer_id hid)
      exact he
    · exact fun he tfd ctl hid => ⟨_, Epoll.lookup_scheduleTimer_id hid, he⟩
  · rw [← TpTimer.ofTimeout_exact_iff h0 h1 rep]
    constructor
    · intro h
      have hstep : s.step (.schedule timeout rep true) =
          some (s.scheduleTimer timeout rep true) := if_pos hs
      obtain ⟨t, ht, he⟩ := h _ hstep
      cases ht.symm.trans (IocpTimers.infos_schedule hstep)
      exact he
    · exact fun he s' hstep => ⟨_, IocpTimers.infos_schedule hstep, he⟩

end

/-- Five milliseconds, repeated, are exact on both. -/
theorem timer_exact_five : (Epoll.start : Epoll Unit Unit).TimersExact () 5 true ∧
    IocpTimers.start.TimersExact 5 true := by
  have h := timer_exact_iff (Epoll.start : Epoll Unit Unit) () (s := IocpTimers.start) rfl
    (show (0 : Int) ≤ 5 by decide) (by decide) true
  exact ⟨h.1.2 (by decide), h.2.2 (by decide)⟩

/-- With a timeout of zero epoll returns an id whose timerfd is disarmed. On IOCP a timer that
is to repeat every `2 ^ 32` ms gets period zero, and the due time of one of 922337203685478 ms
is positive, which makes it an absolute time. -/
theorem timer_not_exact :
    ((Epoll.start : Epoll Unit Unit).scheduleTimer 0 false () (some 5) true).2 = 5 ∧
      ((Epoll.start : Epoll Unit Unit).scheduleTimer 0 false () (some 5) true).1.timers.lookup 5 =
        some ⟨(), false, ⟨0, 0, 0, 0⟩⟩ ∧
      ((IocpTimers.start.scheduleTimer (2 ^ 32) true true).infos 1).map TpTimer.period =
        some 0 ∧
      ((IocpTimers.start.scheduleTimer 922337203685478 false true).infos 1).any
        (fun t => 0 < t.dueTime.toInt) = true := by
  decide

end Socketpp
