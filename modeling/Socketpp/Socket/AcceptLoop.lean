import Socketpp.Lib.Machine
import Socketpp.Event.Epoll

/-!
# The accept loop

`accept_loop_impl` (`src/socket/tcp_accept_loop.cpp`) registers the listener
for readable events and accepts until nothing is left. When the process is out
of descriptors it drops the listener's interest and schedules a timer that
restores it, with a delay that doubles from 100 ms up to 5 s. The loop stays
able to accept as long as that timer is created (`TimerOk`): the delay is
positive, so the timer is armed, and until it expires it is the only thing that
touches the listener's interest (`AcceptInv`). But a timer is a descriptor, and
the id `0` of a timer that could not be created is not looked at.
-/

namespace Socketpp

/-- What `accept` returns. -/
inductive AcceptResult where
  | ok (fd : Fd)
  | wouldBlock
  | fdLimitReached
  | error (ec : Nat)
  deriving DecidableEq, Repr

/-- What the user's handler is called with. -/
inductive Handled where
  | socket (fd : Fd)
  | fdLimitReached
  | error (ec : Nat)
  deriving DecidableEq, Repr

/-- A listener and the loop it is armed on. The only socket callback is the
accept callback; a timer's callback restores the interest of the descriptor it
names. -/
structure AcceptLoop where
  fd : Fd
  isOpen : Bool
  /-- `accept_loop` was called -/
  armed : Bool
  disp : Epoll Unit Fd
  /-- `*backoff_ms` -/
  backoff : Int
  /-- the calls of the handler, in order -/
  handled : List Handled

namespace AcceptLoop

def start (fd : Fd) : AcceptLoop := ⟨fd, true, false, .start, 100, []⟩

/-- The operating system's answers to `schedule_timer`. -/
structure TimerAnswer where
  tfd : Option Fd
  ctl : Bool
  deriving DecidableEq, Repr

/-- The branch for `fd_limit_reached`. -/
def suspend (s : AcceptLoop) (os : TimerAnswer) : AcceptLoop :=
  let d := s.disp.modify s.fd .none
  let delay := s.backoff
  { s with
    disp := (d.scheduleTimer delay false s.fd os.tfd os.ctl).1
    backoff := min (s.backoff * 2) 5000
    handled := s.handled ++ [.fdLimitReached] }

/-- The `for (;;)` of the accept callback, over the results `accept` returns;
there are no more of them once the callback returns. -/
def acceptAll (s : AcceptLoop) (os : TimerAnswer) : List AcceptResult → Option AcceptLoop
  | .ok fd :: rest =>
    ({ s with backoff := 100, handled := s.handled ++ [.socket fd] } : AcceptLoop).acceptAll os rest
  | [.wouldBlock] => some s
  | [.fdLimitReached] => some (s.suspend os)
  | [.error ec] => some { s with handled := s.handled ++ [.error ec] }
  | _ => none

/-- The accept callback, for the events `ev`. -/
def onEvents (s : AcceptLoop) (ev : IoEvent) (os : TimerAnswer) (rs : List AcceptResult) :
    Option AcceptLoop :=
  if ev.hasEvent .readable then s.acceptAll os rs
  else if rs = [] then some s
  else none

/-- The listener is registered with readable interest. -/
def Readable (s : AcceptLoop) : Prop :=
  (s.disp.interest.lookup s.fd).any (IoEvent.hasEvent · .readable) = true

instance (s : AcceptLoop) : Decidable s.Readable := inferInstanceAs (Decidable (_ = _))

inductive Act where
  /-- `accept_loop`; `ctl` is whether `epoll_ctl` takes the listener -/
  | listen (ctl : Bool)
  /-- an event of the listener is dispatched -/
  | event (ev : IoEvent) (os : TimerAnswer) (rs : List AcceptResult)
  /-- a timer has expired and is dispatched -/
  | expire (tfd : Fd)
  | close

/-- One dispatch, or a call from outside one. `epoll` reports readable only
where it is asked to, and `timerfd_create` returns the number of no open
descriptor. -/
def step (s : AcceptLoop) : Act → Option AcceptLoop
  | .listen ctl =>
    if s.armed = false ∧ s.isOpen = true then
      some { s with armed := true, disp := s.disp.add s.fd .readable () ctl }
    else none
  | .event ev os rs =>
    if (s.disp.interest.lookup s.fd).isSome = true ∧ (ev.hasEvent .readable = true → s.Readable) ∧
        os.tfd ≠ some s.fd ∧ os.tfd.bind s.disp.timers.lookup = none then
      match s.disp.callbacks.lookup s.fd with
      | none => some s
      | some () => s.onEvents ev os rs
    else none
  | .expire tfd =>
    match s.disp.timers.lookup tfd with
    | none => none
    | some info =>
      if info.its.Armed then
        some { s with disp := (s.disp.modify info.callback .readable).afterTimer tfd info }
      else none
  | .close =>
    if s.isOpen = true then some { s with isOpen := false, disp := s.disp.closed s.fd } else none

def machine (fd : Fd) : Machine AcceptLoop Act where
  Init s := s = start fd
  step := step

/-- The operating system registers the listener, and creates and registers the
timerfd whenever `accept` has run out of descriptors. -/
def TimerOk : Act → Prop
  | .listen ctl => ctl = true
  | .event _ os rs => .fdLimitReached ∈ rs → os.tfd.isSome = true ∧ os.ctl = true
  | _ => True

instance : (a : Act) → Decidable (TimerOk a)
  | .listen ctl => inferInstanceAs (Decidable (ctl = true))
  | .event _ os rs =>
    inferInstanceAs (Decidable (.fdLimitReached ∈ rs → os.tfd.isSome = true ∧ os.ctl = true))
  | .expire _ | .close => isTrue trivial

/-! ## What keeps the listener from going deaf -/

variable {s s' : AcceptLoop} {a : Act}

/-- A timer that will restore the listener's interest. -/
def Restores (s : AcceptLoop) : Prop :=
  ∃ tfd info, s.disp.timers.lookup tfd = some info ∧ info.callback = s.fd ∧ info.its.Armed

structure AcceptInv (s : AcceptLoop) : Prop where
  low : 100 ≤ s.backoff
  high : s.backoff ≤ 5000
  registered : s.armed = true → s.isOpen = true → (s.disp.interest.lookup s.fd).isSome = true
  hears : s.armed = true → s.isOpen = true → s.Readable ∨ s.Restores

theorem start_acceptInv (fd : Fd) : (start fd).AcceptInv :=
  ⟨Int.le_refl 100, show (100 : Int) ≤ 5000 by decide, nofun, nofun⟩

/-- Restoring interest keeps the listener registered, and readable if it was. -/
theorem readable_modify (h : s.Readable) (fd' : Fd) :
    ((s.disp.modify fd' .readable).interest.lookup s.fd).any (IoEvent.hasEvent · .readable) =
      true := by
  by_cases hfd : s.fd = fd'
  · subst hfd
    have hs : (s.disp.interest.lookup s.fd).isSome = true := by
      unfold Readable at h
      cases hl : s.disp.interest.lookup s.fd with
      | none => rw [hl] at h; cases h
      | some m => rfl
    rw [Epoll.lookup_modify hs]
    exact IoEvent.hasEvent_readable
  · rw [Epoll.lookup_modify_ne hfd]; exact h

/-- The branch for `fd_limit_reached`, when the timer is created. -/
theorem AcceptInv.suspend (h : s.AcceptInv) {os : TimerAnswer}
    (hreg : (s.disp.interest.lookup s.fd).isSome = true)
    (hos : os.tfd.isSome = true ∧ os.ctl = true) : (s.suspend os).AcceptInv := by
  have hlow := h.low
  obtain ⟨tfd, htfd⟩ := Option.isSome_iff_exists.1 hos.1
  have hsched := (s.disp.modify s.fd .none).scheduleTimer_granted (show 0 ≤ s.backoff by omega)
    false s.fd tfd
  refine ⟨?_, Int.min_le_right _ _, fun _ _ => ?_, fun _ _ => .inr ⟨tfd, ?_⟩⟩
  · simp only [AcceptLoop.suspend]; omega
  · simp [AcceptLoop.suspend, htfd, hos.2, hsched, Epoll.lookup_modify hreg]
  · refine ⟨⟨s.fd, false, .ofTimeout s.backoff false⟩, ?_, rfl,
      Itimerspec.armed_ofTimeout (by omega) _⟩
    simp [AcceptLoop.suspend, htfd, hos.2, hsched]

/-- The accept callback: by induction on the results of `accept`. -/
theorem AcceptInv.acceptAll {os : TimerAnswer} {rs : List AcceptResult} (h : s.AcceptInv)
    (hreg : (s.disp.interest.lookup s.fd).isSome = true)
    (hos : .fdLimitReached ∈ rs → os.tfd.isSome = true ∧ os.ctl = true)
    (he : s.acceptAll os rs = some s') : s'.AcceptInv := by
  induction rs generalizing s with
  | nil => cases he
  | cons r rest ih =>
    cases r with
    | ok fd =>
      refine ih (s := { s with backoff := 100, handled := _ }) ?_ hreg
        (fun hm => hos (List.mem_cons_of_mem _ hm)) he
      exact ⟨Int.le_refl 100, show (100 : Int) ≤ 5000 by decide, h.registered, h.hears⟩
    | wouldBlock =>
      cases rest with
      | nil => cases he; exact h
      | cons => cases he
    | fdLimitReached =>
      cases rest with
      | nil => cases he; exact h.suspend hreg (hos List.mem_cons_self)
      | cons => cases he
    | error ec =>
      cases rest with
      | nil => cases he; exact ⟨h.low, h.high, h.registered, h.hears⟩
      | cons => cases he

/-- The timer that restores the interest. -/
theorem AcceptInv.expire (h : s.AcceptInv) {tfd : Fd} {info : TimerInfo Fd}
    (hl : s.disp.timers.lookup tfd = some info) :
    AcceptInv { s with disp := (s.disp.modify info.callback .readable).afterTimer tfd info } := by
  refine ⟨h.low, h.high, fun ha ho => ?_, fun ha ho => ?_⟩
  · rw [Epoll.afterTimer_interest]
    by_cases hfd : s.fd = info.callback
    · rw [← hfd, Epoll.lookup_modify (h.registered ha ho)]; rfl
    · rw [Epoll.lookup_modify_ne hfd]; exact h.registered ha ho
  · rcases h.hears ha ho with hr | ⟨tfd', info', hl', hc, harm⟩
    · left
      rw [Readable, Epoll.afterTimer_interest]
      exact readable_modify hr _
    · by_cases hfd : s.fd = info.callback
      · left
        rw [Readable, Epoll.afterTimer_interest, ← hfd, Epoll.lookup_modify (h.registered ha ho)]
        exact IoEvent.hasEvent_readable
      · -- some other timer has expired, the one that restores is still there
        right
        have hne : tfd' ≠ tfd := fun e => by
          rw [e, hl, Option.some.injEq] at hl'
          exact hfd (by rw [hl']; exact hc.symm)
        refine ⟨tfd', info', ?_, hc, harm⟩
        simp only [Epoll.afterTimer]
        split
        · rw [Epoll.modify_timers]; exact hl'
        · rw [Epoll.cancelTimer, AList.lookup_erase_ne hne, Epoll.modify_timers]; exact hl'

theorem AcceptInv.step (h : s.AcceptInv) (hok : TimerOk a) (he : s.step a = some s') :
    s'.AcceptInv := by
  cases a with
  | listen ctl =>
    simp only [AcceptLoop.step] at he
    split at he
    · cases he
      have e : ctl = true := hok
      subst e
      have hadd := s.disp.lookup_add s.fd .readable ()
      refine ⟨h.low, h.high, fun _ _ => by rw [hadd]; rfl, fun _ _ => .inl ?_⟩
      rw [Readable, hadd]
      exact IoEvent.hasEvent_readable
    · cases he
  | event ev os rs =>
    simp only [AcceptLoop.step] at he
    split at he
    · rename_i hg
      split at he
      · cases he; exact h
      · unfold onEvents at he
        split at he
        · exact h.acceptAll hg.1 hok he
        · split at he
          · cases he; exact h
          · cases he
    · cases he
  | expire tfd =>
    simp only [AcceptLoop.step] at he
    split at he
    · cases he
    · rename_i info hl
      split at he
      · cases he; exact h.expire hl
      · cases he
  | close =>
    simp only [AcceptLoop.step] at he
    split at he
    · cases he; exact ⟨h.low, h.high, nofun, nofun⟩
    · cases he

theorem reach_acceptInv {fd : Fd} (h : (machine fd).ReachOk (fun _ => TimerOk) s) : s.AcceptInv :=
  h.inv (fun _ hs => hs ▸ start_acceptInv fd) fun _ _ _ _ hi hok he => hi.step hok he

/-- The timer that restores the interest does so when it expires. -/
theorem AcceptInv.restores (h : s.AcceptInv) (ha : s.armed = true) (ho : s.isOpen = true)
    (hr : s.Restores) : ∃ tfd s', s.step (.expire tfd) = some s' ∧ s'.Readable := by
  obtain ⟨tfd, info, hl, hc, harm⟩ := hr
  refine ⟨tfd, _, by simp only [AcceptLoop.step, hl, if_pos harm]; rfl, ?_⟩
  rw [Readable, Epoll.afterTimer_interest, hc, Epoll.lookup_modify (h.registered ha ho)]
  exact IoEvent.hasEvent_readable

/-- **The accept loop never goes deaf** in a run in which the operating system
registers the listener and creates the timer whenever `accept` has run out of
descriptors: between dispatches, an open listener is registered with readable
interest, or there is a timer whose expiry makes it so. -/
theorem accept_loop_hears {fd : Fd} (h : (machine fd).ReachOk (fun _ => TimerOk) s)
    (ha : s.armed = true) (ho : s.isOpen = true) :
    s.Readable ∨ ∃ tfd s', s.step (.expire tfd) = some s' ∧ s'.Readable := by
  have hi := reach_acceptInv h
  exact (hi.hears ha ho).imp_right (hi.restores ha ho)

/-- Out of descriptors twice, with an accepted connection in between. -/
theorem accept_loop_hears_suspended :
    ∃ s, (machine 3).ReachOk (fun _ => TimerOk) s ∧
      (s.armed = true ∧ s.isOpen = true ∧ ¬ s.Readable ∧ s.backoff = 200) ∧
      ∃ tfd s', s.step (.expire tfd) = some s' ∧ s'.Readable := by
  obtain ⟨s, h, hp⟩ := Machine.ReachOk.of_runOk_init (M := machine 3) (fun _ => TimerOk)
    (fun s => decide (s.armed = true ∧ s.isOpen = true ∧ ¬ s.Readable ∧ s.backoff = 200))
    [.listen true, .event .readable ⟨some 8, true⟩ [.fdLimitReached], .expire 8,
      .event .readable ⟨some 8, true⟩ [.ok 9, .fdLimitReached]]
    rfl (by decide)
  have hq := of_decide_eq_true hp
  exact ⟨s, h, hq, (accept_loop_hears h hq.1 hq.2.1).resolve_left hq.2.2.1⟩

/-- At the descriptor limit `timerfd_create` fails as well: the listener's
interest is dropped and no timer is left to restore it. -/
theorem accept_loop_goes_deaf :
    ∃ s, (machine 3).Reach s ∧ (s.armed = true ∧ s.isOpen = true) ∧
      ¬ s.Readable ∧ ∀ tfd, s.step (.expire tfd) = none := by
  obtain ⟨s, h, hp⟩ := Machine.Reach.of_run_init (M := machine 3)
    (fun s => decide (((s.armed = true ∧ s.isOpen = true) ∧ ¬ s.Readable) ∧
      s.disp.timers.keys = []))
    [.listen true, .event .readable ⟨none, false⟩ [.fdLimitReached]]
    rfl (by decide)
  obtain ⟨hq, hk⟩ := of_decide_eq_true hp
  refine ⟨s, h, hq.1, hq.2, fun tfd => ?_⟩
  have hnone : s.disp.timers.lookup tfd = none :=
    AList.lookup_eq_none.2 fun hm => by rw [AList.mem_keys, hk] at hm; cases hm
  simp [AcceptLoop.step, hnone]

end AcceptLoop

end Socketpp
