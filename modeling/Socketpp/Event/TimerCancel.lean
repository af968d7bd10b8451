import Socketpp.Event.Poll

/-!
# Cancelling a timer from inside a callback

After a timer's callback `poll` reads `repeating` from the entry it found before
it called, and erases the entry of a one-shot: on epoll (`PollLoop`) and on
kqueue (`KqueueLoop`, `src/event/kqueue.cpp`) alike. The entry is still there
unless it was erased in the meantime, and only `cancel_timer` with the timer's
own id does that, from its own callback (`CancelsOther`).

On epoll `poll` also closes the timerfd by its number. `CloseInv`: the entries
of `timer_callbacks_` and the open timerfds are the same, so each `close` hits
the timerfd it is meant for, and once.
-/

namespace Socketpp

namespace PollLoop

variable {s s' : PollLoop} {a : Act}

/-- No callback cancels the timer it is the callback of. -/
def CancelsOther (s : PollLoop) : Act → Prop
  | .cancel id => s.running.all (fun
    | .timer fd _ _ => id ≠ fd
    | .sock _ _ => true) = true
  | _ => True

instance (s : PollLoop) : (a : Act) → Decidable (s.CancelsOther a)
  | .cancel _ => inferInstanceAs (Decidable (_ = true))
  | .openFd _ | .closeFd _ | .add _ _ _ | .modify _ _ | .remove _ | .schedule _ _ _ _
  | .expire _ | .wait _ | .dispatch | .callbackReturn _ => isTrue trivial

theorem CancelsOther.ne {id fd : Fd} {r h : Nat} (hok : s.CancelsOther (.cancel id))
    (hr : s.running = some (.timer fd r h)) : id ≠ fd := by
  simpa [CancelsOther, hr] using hok

/-- How often the dispatcher has closed the timerfd of timer `r`. -/
def closes (s : PollLoop) (r : Nat) : Nat := s.closeLog.countP fun e => e.2 = some (.timerfd r)

structure CloseInv (s : PollLoop) : Prop where
  entry : ∀ fd info, s.disp.timers.lookup fd = some info →
    s.fds fd = some (.timerfd info.callback) ∧ info.callback < s.made ∧
      s.closes info.callback = 0
  inj : ∀ fd fd' info info', s.disp.timers.lookup fd = some info →
    s.disp.timers.lookup fd' = some info' → info.callback = info'.callback → fd = fd'
  unmade : ∀ r, s.made ≤ r → s.closes r = 0
  own : ∀ e ∈ s.closeLog, e.2 = some (.timerfd e.1)
  running : ∀ fd r h, s.running = some (.timer fd r h) →
    ∃ info, s.disp.timers.lookup fd = some info ∧ info.callback = r
  fired : ∀ r ∈ s.fired, s.closes r = 1 ∨ ∃ fd h, s.running = some (.timer fd r h) ∧
    ∀ info, s.disp.timers.lookup fd = some info → info.repeating = false
  dangling : s.dangling = false

theorem start_closeInv : start.CloseInv :=
  ⟨nofun, fun _ _ _ _ hl => (Option.some_ne_none _ hl.symm).elim, fun _ _ => rfl, nofun, nofun,
    nofun, rfl⟩

theorem closes_of_eq (h : s'.closeLog = s.closeLog) (r : Nat) : s'.closes r = s.closes r := by
  rw [closes, h, closes]

/-- Steps that leave the timers, their descriptors and the log alone. -/
theorem CloseInv.frame (h : s.CloseInv) (ht : s'.disp.timers = s.disp.timers)
    (hf : ∀ fd r, s.fds fd = some (.timerfd r) → s'.fds fd = some (.timerfd r))
    (hm : s.made ≤ s'.made) (hc : s'.closeLog = s.closeLog) (hfi : s'.fired = s.fired)
    (hd : s'.dangling = s.dangling)
    (hr : s'.running = s.running ∨ ∀ fd r g, s.running ≠ some (.timer fd r g) ∧
      s'.running ≠ some (.timer fd r g)) : s'.CloseInv := by
  refine ⟨fun fd info hi => ?_, ?_, fun r hr => ?_, ?_, fun fd r g hx => ?_, fun r hx => ?_,
    hd.trans h.dangling⟩
  · rw [ht] at hi
    obtain ⟨h1, h2, h3⟩ := h.entry fd info hi
    exact ⟨hf fd _ h1, Nat.lt_of_lt_of_le h2 hm, (closes_of_eq hc _).trans h3⟩
  · rw [ht]; exact h.inj
  · exact (closes_of_eq hc r).trans (h.unmade r (Nat.le_trans hm hr))
  · rw [hc]; exact h.own
  · rw [ht]
    rcases hr with hr | hr
    · exact h.running fd r g (hr.symm.trans hx)
    · exact absurd hx (hr fd r g).2
  · rw [hfi] at hx
    rcases h.fired r hx with hr' | ⟨fd, g, hr', hrep⟩
    · exact .inl ((closes_of_eq hc r).trans hr')
    · rcases hr with hr | hr
      · exact .inr ⟨fd, g, hr.trans hr', by rw [ht]; exact hrep⟩
      · exact absurd hr' (hr fd r g).1

/-- A timer gets a free number. -/
theorem CloseInv.scheduled (h : s.CloseInv) {fd : Fd} (hf : s.fds fd = none)
    (info : TimerInfo Nat) (hi : info.callback = s.made) :
    CloseInv { s with
      disp := { s.disp with timers := s.disp.timers.insert fd info }
      made := s.made + 1
      fds := Function.update s.fds fd (some (.timerfd s.made)) } := by
  have hold {fd' : Fd} {info' : TimerInfo Nat} (hl : s.disp.timers.lookup fd' = some info') :
      fd' ≠ fd ∧ info'.callback ≠ s.made := by
    obtain ⟨h1, h2, -⟩ := h.entry fd' info' hl
    refine ⟨fun e => ?_, h2.ne⟩
    rw [e, hf] at h1
    cases h1
  refine ⟨fun fd' info' hl => ?_, fun fd₁ fd₂ i₁ i₂ h₁ h₂ e => ?_,
    fun r hr => h.unmade r (Nat.le_of_succ_le hr), h.own, fun fd' r g hx => ?_, fun r hx => ?_,
    h.dangling⟩
  · rcases Tables.lookup_insert_some hl with ⟨rfl, rfl⟩ | ⟨-, hl⟩
    · rw [hi]
      exact ⟨Function.update_self .., Nat.lt_succ_self _, h.unmade _ (Nat.le_refl _)⟩
    · obtain ⟨h1, h2, h3⟩ := h.entry fd' info' hl
      exact ⟨(Function.update_of_ne (hold hl).1 ..).trans h1, Nat.lt_succ_of_lt h2, h3⟩
  · rcases Tables.lookup_insert_some h₁ with ⟨e₁, hi₁⟩ | ⟨-, h₁⟩
    · rcases Tables.lookup_insert_some h₂ with ⟨e₂, -⟩ | ⟨-, h₂⟩
      · exact e₁.trans e₂.symm
      · exact absurd (e.symm.trans (hi₁ ▸ hi)) (hold h₂).2
    · rcases Tables.lookup_insert_some h₂ with ⟨-, hi₂⟩ | ⟨-, h₂⟩
      · exact absurd (e.trans (hi₂ ▸ hi)) (hold h₁).2
      · exact h.inj fd₁ fd₂ i₁ i₂ h₁ h₂ e
  · obtain ⟨info', hl, hr⟩ := h.running fd' r g hx
    exact ⟨info', (AList.lookup_insert_ne (hold hl).1).trans hl, hr⟩
  · rcases h.fired r hx with h1 | ⟨fd', g, hr, hrep⟩
    · exact .inl h1
    · obtain ⟨info', hl, -⟩ := h.running fd' r g hr
      refine .inr ⟨fd', g, hr, fun i hi => hrep i ?_⟩
      exact (AList.lookup_insert_ne (hold hl).1).symm.trans hi

/-- The dispatcher erases an entry and closes its timerfd: another timer's, or that
of the callback that has just returned. -/
theorem CloseInv.erased (h : s.CloseInv) {fd : Fd} {info : TimerInfo Nat}
    (hl : s.disp.timers.lookup fd = some info) (x : Option Running)
    (hx : x = s.running ∧ (∀ r g, s.running ≠ some (.timer fd r g)) ∨
      x = none ∧ ∃ g, s.running = some (.timer fd info.callback g)) :
    CloseInv ({ s with running := x, disp := s.disp.cancelTimer fd }.close fd info.callback) := by
  obtain ⟨hown, hlt, hzero⟩ := h.entry fd info hl
  let s' := { s with running := x, disp := s.disp.cancelTimer fd }.close fd info.callback
  have hlog : s'.closeLog = s.closeLog ++ [(info.callback, some (.timerfd info.callback))] := by
    rw [← hown]; rfl
  have hself : s'.closes info.callback = 1 := by
    rw [closes, hlog, List.countP_append, ← closes, hzero]
    simp
  have hother {r : Nat} (hr : r ≠ info.callback) : s'.closes r = s.closes r := by
    rw [closes, hlog, List.countP_append, ← closes]
    simp [Ne.symm hr]
  have hkeep {fd' : Fd} {i : TimerInfo Nat} (hi : s'.disp.timers.lookup fd' = some i) :
      fd' ≠ fd ∧ s.disp.timers.lookup fd' = some i := Tables.lookup_erase_some hi
  have hne {fd' : Fd} {i : TimerInfo Nat} (hfd : fd' ≠ fd)
      (hi : s.disp.timers.lookup fd' = some i) : i.callback ≠ info.callback :=
    fun e => hfd (h.inj fd' fd i info hi hl e)
  refine ⟨fun fd' i hi => ?_, fun fd₁ fd₂ i₁ i₂ h₁ h₂ => ?_, fun r hr => ?_, fun e he => ?_,
    fun fd' r g hr => ?_, fun r hr => ?_, h.dangling⟩
  · obtain ⟨hfd, hi⟩ := hkeep hi
    obtain ⟨h1, h2, h3⟩ := h.entry fd' i hi
    exact ⟨(Function.update_of_ne hfd ..).trans h1, h2, (hother (hne hfd hi)).trans h3⟩
  · exact h.inj fd₁ fd₂ i₁ i₂ (hkeep h₁).2 (hkeep h₂).2
  · exact (hother (by have : s.made ≤ r := hr; omega)).trans (h.unmade r hr)
  · rw [hlog, List.mem_append, List.mem_singleton] at he
    rcases he with he | rfl
    · exact h.own e he
    · rfl
  · rcases hx with ⟨rfl, hx⟩ | ⟨rfl, -⟩
    · obtain ⟨i, hi, hc⟩ := h.running fd' r g hr
      have hfd : fd' ≠ fd := by rintro rfl; exact hx r g hr
      exact ⟨i, (AList.lookup_erase_ne hfd).trans hi, hc⟩
    · cases hr
  · rcases h.fired r hr with h1 | ⟨fd', g, hr', hrep⟩
    · refine .inl ((hother ?_).trans h1)
      rintro rfl
      cases h1.symm.trans hzero
    · rcases hx with ⟨rfl, -⟩ | ⟨rfl, g', hx⟩
      · exact .inr ⟨fd', g, hr', fun i hi => hrep i (hkeep hi).2⟩
      · cases hr'.symm.trans hx
        exact .inl hself

/-- The callback of a repeating timer has returned. -/
theorem CloseInv.rearmed (h : s.CloseInv) {fd : Fd} {info : TimerInfo Nat} {g : Nat}
    (hl : s.disp.timers.lookup fd = some info) (hrep : info.repeating = true)
    (hr : s.running = some (.timer fd info.callback g)) : CloseInv { s with running := none } := by
  refine ⟨h.entry, h.inj, h.unmade, h.own, nofun, fun r hx => ?_, h.dangling⟩
  rcases h.fired r hx with h1 | ⟨fd', g', hr', hone⟩
  · exact .inl h1
  · cases hr.symm.trans hr'
    cases hrep.symm.trans (hone info hl)

theorem CloseInv.timerReturn (h : s.CloseInv) {fd : Fd} {r g : Nat}
    (hr : s.running = some (.timer fd r g)) (b : Bool) : (s.timerReturn fd r b).CloseInv := by
  obtain ⟨info, hl, rfl⟩ := h.running fd r g hr
  have hown : (s.disp.timers.lookup fd).filter (fun i => i.callback = info.callback) =
      some info := by
    rw [hl]; simp
  unfold PollLoop.timerReturn
  rw [hown]
  simp only
  split
  · rename_i hrep
    exact h.rearmed hl hrep hr
  · exact h.erased hl none (.inr ⟨rfl, g, hr⟩)

/-- A timer's callback is called. -/
theorem CloseInv.dispatched (h : s.CloseInv) (hr : s.running = none) {fd : Fd}
    {info : TimerInfo Nat} (hl : s.disp.timers.lookup fd = some info) (g : Nat)
    (rest : List (Fd × Nat)) :
    CloseInv { s with
      batch := rest
      running := some (.timer fd info.callback g)
      fired := if info.repeating then s.fired else s.fired ++ [info.callback] } := by
  have hold {r : Nat} (hx : r ∈ s.fired) : s.closes r = 1 := by
    rcases h.fired r hx with h1 | ⟨fd', g', hr', -⟩
    · exact h1
    · cases hr.symm.trans hr'
  refine ⟨h.entry, h.inj, h.unmade, h.own, ?_, fun r hx => ?_, h.dangling⟩
  · rintro fd' r g' ⟨⟩
    exact ⟨info, hl, rfl⟩
  · replace hx : r ∈ if info.repeating then s.fired else s.fired ++ [info.callback] := hx
    split at hx
    · exact .inl (hold hx)
    · rename_i hrep
      rcases List.mem_append.1 hx with hx | hx
      · exact .inl (hold hx)
      · rw [List.mem_singleton.1 hx]
        refine .inr ⟨fd, g, rfl, fun i hi => ?_⟩
        cases hl.symm.trans hi
        exact Bool.eq_false_of_not_eq_true hrep

theorem step_closeInv (h : s.CloseInv) (hok : s.CancelsOther a) (he : s.step a = some s') :
    s'.CloseInv := by
  cases (step_view he).2 with
  | openFd fd hf =>
    refine h.frame rfl (fun fd' r hr => ?_) (Nat.le_refl _) rfl rfl rfl (.inl rfl)
    have hne : fd' ≠ fd := by rintro rfl; cases hf.symm.trans hr
    exact (Function.update_of_ne hne ..).trans hr
  | closeFd fd hf =>
    refine h.frame rfl (fun fd' r hr => ?_) (Nat.le_refl _) rfl rfl rfl (.inl rfl)
    have hne : fd' ≠ fd := by rintro rfl; rw [hr] at hf; cases hf
    exact (Function.update_of_ne hne ..).trans hr
  | add fd mask ctl =>
    exact h.frame (Epoll.add_timers ..) (fun _ _ => id) (Nat.le_succ _) rfl rfl rfl (.inl rfl)
  | modify fd mask =>
    exact h.frame (Epoll.modify_timers ..) (fun _ _ => id) (Nat.le_refl _) rfl rfl rfl (.inl rfl)
  | remove fd =>
    exact h.frame (Epoll.remove_timers ..) (fun _ _ => id) (Nat.le_refl _) rfl rfl rfl (.inl rfl)
  | scheduled timeout rep fd ctl hf => exact h.scheduled hf _ rfl
  | notScheduled timeout rep tfd ctl =>
    exact h.frame rfl (fun _ _ => id) (Nat.le_succ _) rfl rfl rfl (.inl rfl)
  | cancel fd info hl => exact h.erased hl s.running (.inl ⟨rfl, fun r g hr => hok.ne hr rfl⟩)
  | cancelNone fd => exact h
  | expire fd info _ | wait fds _ _ | skip fd g rest _ _ =>
    exact h.frame rfl (fun _ _ => id) (Nat.le_refl _) rfl rfl rfl (.inl rfl)
  | timer fd g rest info hr hb hl => exact h.dispatched hr hl g rest
  | sock fd g rest r hr hb hl =>
    refine h.frame rfl (fun _ _ => id) (Nat.le_refl _) rfl rfl rfl (.inr fun fd r g => ⟨?_, ?_⟩)
    · rw [hr]; rintro ⟨⟩
    · rintro ⟨⟩
  | sockReturn r g b hr =>
    refine h.frame rfl (fun _ _ => id) (Nat.le_refl _) rfl rfl rfl (.inr fun fd r g => ⟨?_, ?_⟩)
    · rw [hr]; rintro ⟨⟩
    · rintro ⟨⟩
  | timerReturn fd r g b hr => exact h.timerReturn hr b

theorem reach_closeInv (h : machine.ReachOk CancelsOther s) : s.CloseInv :=
  h.inv (fun _ hs => hs ▸ start_closeInv) fun _ _ _ _ hi hok he => step_closeInv hi hok he

end PollLoop

/-! ## kqueue -/

/-- `kqueue_dispatcher`, as far as its timers go. A timer's id is a counter's value, so it
stands for the callback as well. -/
structure KqueueLoop where
  /-- `timer_callbacks_`: whether the timer repeats -/
  timers : AList fun _ : Nat => Bool
  nextTimerId : Nat
  /-- what is left of the timer events `kevent` returned -/
  batch : List Nat
  /-- the timer whose callback is running -/
  running : Option Nat
  /-- `poll` has used an entry that was erased -/
  dangling : Bool

namespace KqueueLoop

def start : KqueueLoop := ⟨∅, 1, [], none, false⟩

inductive Act where
  /-- `schedule_timer`; `ok` is whether `kevent` takes the timer -/
  | schedule (rep : Bool) (ok : Bool)
  | cancel (id : Nat)
  /-- `kevent` returns -/
  | wait (ids : List Nat)
  | dispatch
  /-- the callback has returned; `garbage` is what `repeating` reads from freed memory -/
  | callbackReturn (garbage : Bool)

/-- The end of the timer branch. -/
def timerReturn (s : KqueueLoop) (id : Nat) (garbage : Bool) : KqueueLoop :=
  match s.timers.lookup id with
  | some rep => { s with running := none, timers := if rep then s.timers else s.timers.erase id }
  | none => { s with running := none, dangling := true
                     timers := if garbage then s.timers else s.timers.erase id }

def act (s : KqueueLoop) : Act → Option KqueueLoop
  | .schedule rep ok =>
    some { s with nextTimerId := s.nextTimerId + 1
                  timers := if ok then s.timers.insert s.nextTimerId rep else s.timers }
  | .cancel id => some { s with timers := s.timers.erase id }
  | .wait ids => if s.batch = [] ∧ s.running = none ∧ ids.length ≤ 256 then
      some { s with batch := ids } else none
  | .dispatch =>
    match s.running, s.batch with
    | none, id :: rest =>
      some { s with batch := rest, running := (s.timers.lookup id).map fun _ => id }
    | _, _ => none
  | .callbackReturn garbage => s.running.map fun id => s.timerReturn id garbage

def step (s : KqueueLoop) (a : Act) : Option KqueueLoop := if s.dangling then none else s.act a

def machine : Machine KqueueLoop Act where
  Init s := s = start
  step := step

/-- No callback cancels the timer it is the callback of. -/
def CancelsOther (s : KqueueLoop) : Act → Prop
  | .cancel id => s.running ≠ some id
  | _ => True

instance (s : KqueueLoop) : (a : Act) → Decidable (s.CancelsOther a)
  | .cancel id => inferInstanceAs (Decidable (s.running ≠ some id))
  | .schedule _ _ | .wait _ | .dispatch | .callbackReturn _ => isTrue trivial

/-- The entry of the running timer is there. -/
structure EntryInv (s : KqueueLoop) : Prop where
  running : ∀ id, s.running = some id → (s.timers.lookup id).isSome = true
  dangling : s.dangling = false

variable {s s' : KqueueLoop} {a : Act}

theorem step_entryInv (h : s.EntryInv) (hok : s.CancelsOther a) (he : s.step a = some s') :
    s'.EntryInv := by
  unfold step at he
  rw [h.dangling] at he
  cases a with
  | schedule rep ok =>
    cases he
    refine ⟨fun id hr => ?_, h.dangling⟩
    cases ok with
    | true => exact Tables.lookup_insert_isSome _ _ (h.running id hr)
    | false => exact h.running id hr
  | cancel id =>
    cases he
    refine ⟨fun id' hr => ?_, h.dangling⟩
    have hne : id' ≠ id := by rintro rfl; exact hok hr
    exact (congrArg Option.isSome (AList.lookup_erase_ne hne)).trans (h.running id' hr)
  | wait ids =>
    simp only [act, Bool.false_eq_true, if_false] at he
    split at he
    · cases he; exact ⟨h.running, h.dangling⟩
    · cases he
  | dispatch =>
    simp only [act, Bool.false_eq_true, if_false] at he
    split at he
    · cases he
      refine ⟨fun id hr => ?_, h.dangling⟩
      obtain ⟨rep, hl, rfl⟩ := Option.map_eq_some_iff.1 hr
      exact Option.isSome_iff_exists.2 ⟨rep, hl⟩
    · cases he
  | callbackReturn g =>
    simp only [act, Bool.false_eq_true, if_false] at he
    obtain ⟨id, hr, rfl⟩ := Option.map_eq_some_iff.1 he
    obtain ⟨rep, hl⟩ := Option.isSome_iff_exists.1 (h.running id hr)
    unfold timerReturn
    rw [hl]
    exact ⟨nofun, h.dangling⟩

theorem reach_entryInv (h : machine.ReachOk CancelsOther s) : s.EntryInv :=
  h.inv (fun _ hs => hs ▸ ⟨nofun, rfl⟩) fun _ _ _ _ hi hok he => step_entryInv hi hok he

end KqueueLoop

/-- **Timer dispatch and cancellation.** In every run in which no callback cancels
the timer it is the callback of: `poll` uses no entry that is no longer in
`timer_callbacks_`, on epoll and on kqueue; and on epoll every `close` of the
dispatcher closes the timerfd it is meant for, and that of a one-shot timer whose
callback has returned was closed exactly once. -/
theorem timer_dispatch_safe {s : PollLoop} {s' : KqueueLoop}
    (h : PollLoop.machine.ReachOk PollLoop.CancelsOther s)
    (h' : KqueueLoop.machine.ReachOk KqueueLoop.CancelsOther s') :
    (s.dangling = false ∧ s'.dangling = false) ∧
      (∀ e ∈ s.closeLog, e.2 = some (.timerfd e.1)) ∧
      ∀ r ∈ s.fired, (∀ fd h, s.running ≠ some (.timer fd r h)) → s.closes r = 1 := by
  have hi := PollLoop.reach_closeInv h
  refine ⟨⟨hi.dangling, (KqueueLoop.reach_entryInv h').dangling⟩, hi.own, fun r hr hnot => ?_⟩
  rcases hi.fired r hr with h1 | ⟨fd, g, hrun, -⟩
  · exact h1
  · exact absurd hrun (hnot fd g)

/-- A one-shot's callback cancels another timer, schedules one under the freed number and
opens a descriptor; then it returns. -/
theorem timer_dispatch_safe_cancel_other :
    ∃ s s', PollLoop.machine.ReachOk PollLoop.CancelsOther s ∧
      KqueueLoop.machine.ReachOk KqueueLoop.CancelsOther s' ∧
      (s.running = none ∧ s.fired = [0] ∧ s.fds 6 = some (.timerfd 2)) ∧ s.closes 0 = 1 ∧
      s'.timers.keys = [] ∧ s'.dangling = false := by
  obtain ⟨s, h, hp⟩ := Machine.ReachOk.of_runOk_init (M := PollLoop.machine)
    PollLoop.CancelsOther
    (fun s => decide (s.running = none ∧ s.fired = [0] ∧ s.fds 6 = some (.timerfd 2)))
    [.schedule 1000 false (some 5) true, .schedule 1000 false (some 6) true, .expire 5,
      .wait [5], .dispatch, .cancel 6, .schedule 9000 false (some 6) true, .openFd 7,
      .callbackReturn true]
    rfl (by decide)
  obtain ⟨s', h', hp'⟩ := Machine.ReachOk.of_runOk_init (M := KqueueLoop.machine)
    KqueueLoop.CancelsOther (fun s => decide (s.timers.keys = []))
    [.schedule false true, .schedule true true, .wait [1], .dispatch, .cancel 2,
      .callbackReturn true]
    rfl (by decide)
  have hq := of_decide_eq_true hp
  have hsafe := timer_dispatch_safe h h'
  refine ⟨s, s', h, h', hq, hsafe.2.2 0 ?_ ?_, of_decide_eq_true hp', hsafe.1.2⟩
  · rw [hq.2.1]; exact List.mem_cons_self
  · rw [hq.1]; rintro _ _ ⟨⟩

/-- A one-shot's callback cancels its own timer. On epoll the user then opens a descriptor,
which gets the number: `poll` reads the freed entry and closes the user's descriptor. On
kqueue `poll` reads and erases the freed entry. -/
theorem own_timer_cancelled :
    (∃ s, PollLoop.machine.Reach s ∧ s.dangling = true ∧
      s.closeLog = [(0, some (.timerfd 0)), (0, some (.user 0))]) ∧
    ∃ s, KqueueLoop.machine.Reach s ∧ s.dangling = true := by
  constructor
  · obtain ⟨s, h, hp⟩ := Machine.Reach.of_run_init (M := PollLoop.machine)
      (fun s => decide (s.dangling = true ∧
        s.closeLog = [(0, some (.timerfd 0)), (0, some (.user 0))]))
      [.schedule 1000 false (some 5) true, .expire 5, .wait [5], .dispatch, .cancel 5, .openFd 5,
        .callbackReturn false]
      rfl (by decide)
    exact ⟨s, h, of_decide_eq_true hp⟩
  · obtain ⟨s, h, hp⟩ := Machine.Reach.of_run_init (M := KqueueLoop.machine)
      (fun s => s.dangling)
      [.schedule false true, .wait [1], .dispatch, .cancel 1, .callbackReturn false]
      rfl (by decide)
    exact ⟨s, h, hp⟩

end Socketpp
