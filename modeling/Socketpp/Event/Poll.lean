import Socketpp.Lib.Machine
import Socketpp.Event.Epoll

/-!
# Dispatching a batch of events

`epoll_dispatcher::poll` (`src/event/epoll.cpp`) goes over the events of one
`epoll_wait` and calls what it finds under each descriptor number. A callback
may add, remove and close descriptors and schedule and cancel timers, and the
operating system gives a freed number to the next descriptor, so by the time an
event comes to its turn its number can belong to something else.

`fds` is the process's descriptor table. Registrations (`add`,
`schedule_timer`) are numbered in the order they are made, and an event of the
batch remembers which registration it was harvested for. The events of the
waker call nothing and are left out.

After a timer's callback `poll` goes on with the entry it found before: if the
callback has cancelled its own timer the entry is freed memory. The step records
the `close` that follows (`closeLog`) and ends the run (`dangling`).

`no_stale_event`: no callback registered during a `poll` is called in it for
somebody else's event, as long as nothing is registered under a number that still
has an event in the batch.
-/

namespace Socketpp

/-- What a descriptor number is open as. -/
inductive Desc where
  /-- a descriptor of the user, each with its own number -/
  | user (k : Nat)
  | timerfd (r : Nat)
  deriving DecidableEq, Repr

def Desc.isUser : Desc → Bool
  | user _ => true
  | timerfd _ => false

/-- The callback that is running, and the registration its event was harvested for. -/
inductive Running where
  | sock (r h : Nat)
  /-- with the number `timer_it` was found under -/
  | timer (fd : Fd) (r h : Nat)
  deriving DecidableEq, Repr

namespace Running

def reg : Running → Nat
  | sock r _ | timer _ r _ => r

def harvestedFor : Running → Nat
  | sock _ h | timer _ _ h => h

end Running

structure PollLoop where
  disp : Epoll Nat Nat
  fds : Fd → Option Desc
  /-- descriptors the user has opened -/
  opened : Nat
  /-- registrations made -/
  made : Nat
  /-- those made when `epoll_wait` returned last -/
  polled : Nat
  /-- timers whose timerfd has expired -/
  expired : Nat → Bool
  /-- what is left of the batch -/
  batch : List (Fd × Nat)
  running : Option Running
  /-- one-shot timers whose callback was called -/
  fired : List Nat
  /-- `close` calls of the dispatcher: for which timer, and what was closed -/
  closeLog : List (Nat × Option Desc)
  /-- `poll` has used an entry that was erased -/
  dangling : Bool

namespace PollLoop

def start : PollLoop where
  disp := .start
  fds := fun _ => none
  opened := 0
  made := 0
  polled := 0
  expired := fun _ => false
  batch := []
  running := none
  fired := []
  closeLog := []
  dangling := false

inductive Act where
  /-- the user opens a descriptor and gets the number -/
  | openFd (fd : Fd)
  | closeFd (fd : Fd)
  | add (fd : Fd) (mask : IoEvent) (ctl : Bool)
  | modify (fd : Fd) (mask : IoEvent)
  | remove (fd : Fd)
  | schedule (timeout : Int) (rep : Bool) (tfd : Option Fd) (ctl : Bool)
  | cancel (id : Fd)
  | expire (fd : Fd)
  /-- `epoll_wait` returns -/
  | wait (fds : List Fd)
  | dispatch
  /-- the callback has returned; `garbage` is what `info.repeating` reads from freed memory -/
  | callbackReturn (garbage : Bool)

/-- The registration that has an event for the number. -/
def holder (s : PollLoop) (fd : Fd) : Option Nat :=
  match s.disp.timers.lookup fd with
  | some info => some info.callback
  | none => s.disp.callbacks.lookup fd

/-- `epoll_wait` can report the number. -/
def ready (s : PollLoop) (fd : Fd) : Bool :=
  match s.disp.timers.lookup fd with
  | some info => s.expired info.callback
  | none => (s.disp.interest.lookup fd).isSome

/-- The numbers that still have an event. -/
def numbers (s : PollLoop) : List Fd := s.batch.map Prod.fst

/-- `::close` by the dispatcher, for timer `r`. -/
def close (s : PollLoop) (fd : Fd) (r : Nat) : PollLoop :=
  { s with fds := Function.update s.fds fd none, closeLog := s.closeLog ++ [(r, s.fds fd)] }

/-- `schedule_timer`. -/
def schedule (s : PollLoop) (timeout : Int) (rep : Bool) (tfd : Option Fd) (ctl : Bool) :
    PollLoop :=
  { s with
    disp := (s.disp.scheduleTimer timeout rep s.made tfd ctl).1
    made := s.made + 1
    -- a timerfd that cannot be set or registered is closed again
    fds := if ctl ∧ (Itimerspec.ofTimeout timeout rep).Valid then
        tfd.elim s.fds fun fd => Function.update s.fds fd (some (.timerfd s.made))
      else s.fds }

/-- `cancel_timer`. -/
def cancel (s : PollLoop) (id : Fd) : PollLoop :=
  match s.disp.timers.lookup id with
  | some info => { s with disp := s.disp.cancelTimer id }.close id info.callback
  | none => s

/-- The turn of one event. -/
def dispatch (s : PollLoop) (fd : Fd) (h : Nat) : PollLoop :=
  match s.disp.timers.lookup fd with
  | some info =>
    { s with running := some (.timer fd info.callback h)
             fired := if info.repeating then s.fired else s.fired ++ [info.callback] }
  | none =>
    match s.disp.callbacks.lookup fd with
    | some r => { s with running := some (.sock r h) }
    | none => s

/-- The end of the timer branch. -/
def timerReturn (s : PollLoop) (fd : Fd) (r : Nat) (garbage : Bool) : PollLoop :=
  match (s.disp.timers.lookup fd).filter fun info => info.callback = r with
  | some info =>
    if info.repeating then { s with running := none }
    else { s with running := none, disp := s.disp.cancelTimer fd }.close fd r
  | none =>
    if garbage then { s with running := none, dangling := true }
    else { s with running := none, dangling := true, disp := s.disp.closed fd }.close fd r

/-- A step of the loop thread: what a callback or a task does, or `poll`'s own. Users
close descriptors of their own, `EPOLL_CTL_ADD` takes an open one that is not
registered, and a new descriptor gets a free number. -/
def act (s : PollLoop) : Act → Option PollLoop
  | .openFd fd =>
    if s.fds fd = none then
      some { s with fds := Function.update s.fds fd (some (.user s.opened))
                    opened := s.opened + 1 }
    else none
  | .closeFd fd =>
    if (s.fds fd).any Desc.isUser then
      some { s with fds := Function.update s.fds fd none, disp := s.disp.closed fd }
    else none
  | .add fd mask ctl =>
    if ctl = true → (s.fds fd).any Desc.isUser ∧ s.disp.interest.lookup fd = none then
      some { s with disp := s.disp.add fd mask s.made ctl, made := s.made + 1 }
    else none
  | .modify fd mask => some { s with disp := s.disp.modify fd mask }
  | .remove fd => some { s with disp := s.disp.remove fd }
  | .schedule timeout rep tfd ctl =>
    if tfd.bind s.fds = none then some (s.schedule timeout rep tfd ctl) else none
  | .cancel id => some (s.cancel id)
  | .expire fd =>
    match s.disp.timers.lookup fd with
    | some info =>
      if info.its.Armed then
        some { s with expired := Function.update s.expired info.callback true }
      else none
    | none => none
  | .wait fds =>
    if s.batch = [] ∧ s.running = none ∧ fds.length ≤ 256 ∧ fds.all s.ready then
      some { s with batch := fds.filterMap fun fd => (s.holder fd).map (Prod.mk fd)
                    polled := s.made }
    else none
  | .dispatch =>
    match s.running, s.batch with
    | none, (fd, h) :: rest => some ({ s with batch := rest }.dispatch fd h)
    | _, _ => none
  | .callbackReturn garbage =>
    match s.running with
    | some (.sock _ _) => some { s with running := none }
    | some (.timer fd r _) => some (s.timerReturn fd r garbage)
    | none => none

def step (s : PollLoop) (a : Act) : Option PollLoop := if s.dangling then none else s.act a

def machine : Machine PollLoop Act where
  Init s := s = start
  step := step

/-! ## What a step does -/

variable {s s' : PollLoop} {a : Act}

theorem schedule_cases (s : PollLoop) (timeout : Int) (rep : Bool) (tfd : Option Fd)
    (ctl : Bool) :
    (∃ fd, tfd = some fd ∧ s.schedule timeout rep tfd ctl =
      { s with
        disp := { s.disp with timers :=
          s.disp.timers.insert fd ⟨s.made, rep, .ofTimeout timeout rep⟩ }
        made := s.made + 1
        fds := Function.update s.fds fd (some (.timerfd s.made)) }) ∨
    s.schedule timeout rep tfd ctl = { s with made := s.made + 1 } := by
  unfold schedule Epoll.scheduleTimer
  cases tfd with
  | none => exact .inr (by simp)
  | some fd =>
    by_cases hv : (Itimerspec.ofTimeout timeout rep).Valid
    · cases ctl with
      | true => exact .inl ⟨fd, rfl, by simp [hv]⟩
      | false => exact .inr (by simp [hv])
    · exact .inr (by simp [hv])

/-- **Every step.** -/
inductive StepView (s : PollLoop) : Act → PollLoop → Prop where
  | openFd (fd : Fd) (hf : s.fds fd = none) : StepView s (.openFd fd)
      { s with fds := Function.update s.fds fd (some (.user s.opened)), opened := s.opened + 1 }
  | closeFd (fd : Fd) (hf : (s.fds fd).any Desc.isUser = true) : StepView s (.closeFd fd)
      { s with fds := Function.update s.fds fd none, disp := s.disp.closed fd }
  | add (fd : Fd) (mask : IoEvent) (ctl : Bool) : StepView s (.add fd mask ctl)
      { s with disp := s.disp.add fd mask s.made ctl, made := s.made + 1 }
  | modify (fd : Fd) (mask : IoEvent) : StepView s (.modify fd mask)
      { s with disp := s.disp.modify fd mask }
  | remove (fd : Fd) : StepView s (.remove fd) { s with disp := s.disp.remove fd }
  | scheduled (timeout : Int) (rep : Bool) (fd : Fd) (ctl : Bool) (hf : s.fds fd = none) :
      StepView s (.schedule timeout rep (some fd) ctl)
        { s with
          disp := { s.disp with timers :=
            s.disp.timers.insert fd ⟨s.made, rep, .ofTimeout timeout rep⟩ }
          made := s.made + 1
          fds := Function.update s.fds fd (some (.timerfd s.made)) }
  | notScheduled (timeout : Int) (rep : Bool) (tfd : Option Fd) (ctl : Bool) :
      StepView s (.schedule timeout rep tfd ctl) { s with made := s.made + 1 }
  | cancel (id : Fd) (info : TimerInfo Nat) (hl : s.disp.timers.lookup id = some info) :
      StepView s (.cancel id) ({ s with disp := s.disp.cancelTimer id }.close id info.callback)
  | cancelNone (id : Fd) : StepView s (.cancel id) s
  | expire (fd : Fd) (info : TimerInfo Nat) (hl : s.disp.timers.lookup fd = some info) :
      StepView s (.expire fd)
        { s with expired := Function.update s.expired info.callback true }
  | wait (fds : List Fd) (hr : s.running = none) (hall : ∀ fd ∈ fds, s.ready fd = true) :
      StepView s (.wait fds)
        { s with batch := fds.filterMap fun fd => (s.holder fd).map (Prod.mk fd)
                 polled := s.made }
  | timer (fd : Fd) (h : Nat) (rest : List (Fd × Nat)) (info : TimerInfo Nat)
      (hr : s.running = none) (hb : s.batch = (fd, h) :: rest)
      (hl : s.disp.timers.lookup fd = some info) : StepView s .dispatch
      { s with batch := rest, running := some (.timer fd info.callback h)
               fired := if info.repeating then s.fired else s.fired ++ [info.callback] }
  | sock (fd : Fd) (h : Nat) (rest : List (Fd × Nat)) (r : Nat) (hr : s.running = none)
      (hb : s.batch = (fd, h) :: rest) (hl : s.disp.callbacks.lookup fd = some r) :
      StepView s .dispatch { s with batch := rest, running := some (.sock r h) }
  | skip (fd : Fd) (h : Nat) (rest : List (Fd × Nat)) (hr : s.running = none)
      (hb : s.batch = (fd, h) :: rest) : StepView s .dispatch { s with batch := rest }
  | sockReturn (r h : Nat) (g : Bool) (hr : s.running = some (.sock r h)) :
      StepView s (.callbackReturn g) { s with running := none }
  | timerReturn (fd : Fd) (r h : Nat) (g : Bool) (hr : s.running = some (.timer fd r h)) :
      StepView s (.callbackReturn g) (s.timerReturn fd r g)

theorem dispatch_view {fd : Fd} {h : Nat} {rest : List (Fd × Nat)} (hr : s.running = none)
    (hb : s.batch = (fd, h) :: rest) :
    StepView s .dispatch ({ s with batch := rest }.dispatch fd h) := by
  unfold dispatch
  split
  · rename_i info hl
    exact .timer fd h rest info hr hb hl
  · split
    · rename_i r hl
      exact .sock fd h rest r hr hb hl
    · exact .skip fd h rest hr hb

theorem act_view (he : s.act a = some s') : StepView s a s' := by
  cases a with
  | openFd fd =>
    simp only [act] at he
    split at he
    · rename_i hf; cases he; exact .openFd fd hf
    · cases he
  | closeFd fd =>
    simp only [act] at he
    split at he
    · rename_i hf; cases he; exact .closeFd fd hf
    · cases he
  | add fd mask ctl =>
    simp only [act] at he
    split at he
    · cases he; exact .add fd mask ctl
    · cases he
  | modify fd mask => cases he; exact .modify fd mask
  | remove fd => cases he; exact .remove fd
  | schedule timeout rep tfd ctl =>
    simp only [act] at he
    split at he
    · rename_i hf
      cases he
      rcases s.schedule_cases timeout rep tfd ctl with ⟨fd, rfl, e⟩ | e
      · rw [e]; exact .scheduled timeout rep fd ctl hf
      · rw [e]; exact .notScheduled timeout rep tfd ctl
    · cases he
  | cancel id =>
    cases he
    unfold cancel
    split
    · rename_i info hl; exact .cancel id info hl
    · exact .cancelNone id
  | expire fd =>
    simp only [act] at he
    split at he
    · rename_i info hl
      split at he
      · cases he; exact .expire fd info hl
      · cases he
    · cases he
  | wait fds =>
    simp only [act] at he
    split at he
    · rename_i hg; cases he; exact .wait fds hg.2.1 (List.all_eq_true.1 hg.2.2.2)
    · cases he
  | dispatch =>
    simp only [act] at he
    split at he
    · rename_i fd h rest hr hb; cases he; exact dispatch_view hr hb
    · cases he
  | callbackReturn g =>
    simp only [act] at he
    split at he
    · rename_i r h hr; cases he; exact .sockReturn r h g hr
    · rename_i fd r h hr; cases he; exact .timerReturn fd r h g hr
    · cases he

theorem step_view (he : s.step a = some s') : s.dangling = false ∧ StepView s a s' := by
  unfold step at he
  split at he
  · cases he
  · rename_i hd
    exact ⟨Bool.eq_false_of_not_eq_true hd, act_view he⟩

/-! ## Events of earlier holders -/

/-- Nothing is registered under a number that still has an event in the batch. -/
def FreshNumbers (s : PollLoop) : Act → Prop
  | .add fd _ ctl => ctl = true → fd ∉ s.numbers
  | .schedule _ _ tfd _ => tfd.all (fun fd => fd ∉ s.numbers) = true
  | _ => True

instance (s : PollLoop) : (a : Act) → Decidable (s.FreshNumbers a)
  | .add fd _ ctl => inferInstanceAs (Decidable (ctl = true → fd ∉ s.numbers))
  | .schedule _ _ tfd _ =>
    inferInstanceAs (Decidable (tfd.all (fun fd => fd ∉ s.numbers) = true))
  | .openFd _ | .closeFd _ | .modify _ _ | .remove _ | .cancel _ | .expire _ | .wait _
  | .dispatch | .callbackReturn _ => isTrue trivial

/-- The registrations under a number were made before the `n`-th. -/
structure Before (d : Epoll Nat Nat) (n : Nat) (fd : Fd) : Prop where
  timer : ∀ info, d.timers.lookup fd = some info → info.callback < n
  sock : ∀ r, d.callbacks.lookup fd = some r → r < n

structure FreshInv (s : PollLoop) : Prop where
  all : ∀ fd, Before s.disp s.made fd
  le : s.polled ≤ s.made
  batch : ∀ fd ∈ s.numbers, Before s.disp s.polled fd
  expired : ∀ fd ∈ s.numbers, ∀ info, s.disp.timers.lookup fd = some info →
    s.expired info.callback = true
  running : ∀ x, s.running = some x → x.reg < s.polled
  timer : ∀ fd r h, s.running = some (.timer fd r h) → s.expired r = true

theorem start_freshInv : start.FreshInv :=
  ⟨fun _ => ⟨nofun, nofun⟩, Nat.le_refl _, nofun, nofun, nofun, nofun⟩

/-- The maps of `d'` hold nothing that those of `d` do not. -/
structure Fewer (d d' : Epoll Nat Nat) : Prop where
  timer : ∀ fd info, d'.timers.lookup fd = some info → d.timers.lookup fd = some info
  sock : ∀ fd r, d'.callbacks.lookup fd = some r → d.callbacks.lookup fd = some r

theorem Fewer.rfl {d : Epoll Nat Nat} : Fewer d d := ⟨fun _ _ => id, fun _ _ => id⟩

theorem Fewer.closed (d : Epoll Nat Nat) (fd : Fd) : Fewer d (d.closed fd) :=
  ⟨fun _ _ => id, fun _ _ => id⟩

theorem Fewer.modify (d : Epoll Nat Nat) (fd : Fd) (mask : IoEvent) :
    Fewer d (d.modify fd mask) := by
  unfold Epoll.modify
  split <;> exact ⟨fun _ _ => id, fun _ _ => id⟩

theorem Fewer.remove (d : Epoll Nat Nat) (fd : Fd) : Fewer d (d.remove fd) := by
  unfold Epoll.remove
  split
  · exact ⟨fun _ _ => id, fun _ _ hr => (Tables.lookup_erase_some hr).2⟩
  · exact .rfl

theorem Fewer.cancelTimer (d : Epoll Nat Nat) (fd : Fd) : Fewer d (d.cancelTimer fd) :=
  ⟨fun _ _ hi => (Tables.lookup_erase_some hi).2, fun _ _ => id⟩

theorem Before.mono {d d' : Epoll Nat Nat} {n : Nat} {fd : Fd} (h : Before d n fd)
    (hf : Fewer d d') : Before d' n fd :=
  ⟨fun info hi => h.timer info (hf.timer fd info hi), fun r hr => h.sock r (hf.sock fd r hr)⟩

theorem Before.le {d : Epoll Nat Nat} {m n : Nat} {fd : Fd} (h : Before d m fd) (hmn : m ≤ n) :
    Before d n fd :=
  ⟨fun info hi => Nat.lt_of_lt_of_le (h.timer info hi) hmn,
    fun r hr => Nat.lt_of_lt_of_le (h.sock r hr) hmn⟩

/-- Steps that register nothing. -/
theorem FreshInv.frame (h : s.FreshInv) (hf : Fewer s.disp s'.disp) (hm : s.made ≤ s'.made)
    (hp : s'.polled = s.polled) (hb : ∀ fd ∈ s'.numbers, fd ∈ s.numbers)
    (he : ∀ r, s.expired r = true → s'.expired r = true)
    (hr : s'.running = none ∨ s'.running = s.running) : s'.FreshInv := by
  refine ⟨fun fd => ((h.all fd).mono hf).le hm, ?_, fun fd hfd => ?_, fun fd hfd info hi => ?_,
    fun x hx => ?_, fun fd r g hx => ?_⟩
  · rw [hp]; exact Nat.le_trans h.le hm
  · rw [hp]; exact (h.batch fd (hb fd hfd)).mono hf
  · exact he _ (h.expired fd (hb fd hfd) info (hf.timer fd info hi))
  · rcases hr with hr | hr
    · cases hr.symm.trans hx
    · rw [hp]; exact h.running x (hr.symm.trans hx)
  · rcases hr with hr | hr
    · cases hr.symm.trans hx
    · exact he r (h.timer fd r g (hr.symm.trans hx))

/-- The maps of `d'` are those of `d` and the registration `n` under a number. -/
structure Adds (d d' : Epoll Nat Nat) (n : Nat) (fd : Fd) : Prop where
  timer : ∀ fd' info, d'.timers.lookup fd' = some info →
    fd' = fd ∧ info.callback = n ∨ d.timers.lookup fd' = some info
  sock : ∀ fd' r, d'.callbacks.lookup fd' = some r →
    fd' = fd ∧ r = n ∨ d.callbacks.lookup fd' = some r

theorem Adds.add (d : Epoll Nat Nat) (fd : Fd) (mask : IoEvent) (n : Nat) :
    Adds d (d.add fd mask n true) n fd :=
  ⟨fun _ _ => .inr, fun _ _ hr => (Tables.lookup_insert_some hr).imp_right And.right⟩

theorem Adds.timers (d : Epoll Nat Nat) (fd : Fd) (info : TimerInfo Nat) :
    Adds d { d with timers := d.timers.insert fd info } info.callback fd :=
  ⟨fun _ _ hi => (Tables.lookup_insert_some hi).imp (And.imp_right (congrArg _)) And.right,
    fun _ _ => .inr⟩

/-- Another number keeps what it has. -/
theorem Adds.before {d d' : Epoll Nat Nat} {m n : Nat} {fd fd' : Fd} (h : Adds d d' n fd)
    (hb : Before d m fd') (hn : fd' = fd → n < m) : Before d' m fd' := by
  refine ⟨fun info hi => ?_, fun r hr => ?_⟩
  · rcases h.timer fd' info hi with ⟨e, hc⟩ | hi
    · rw [hc]; exact hn e
    · exact hb.timer info hi
  · rcases h.sock fd' r hr with ⟨e, hc⟩ | hr
    · rw [hc]; exact hn e
    · exact hb.sock r hr

/-- A registration under a number that has no event left in the batch. -/
theorem FreshInv.register (h : s.FreshInv) {fd : Fd} (hn : fd ∉ s.numbers)
    (hd : Adds s.disp s'.disp s.made fd) (hm : s'.made = s.made + 1)
    (hp : s'.polled = s.polled) (hb : s'.batch = s.batch) (he : s'.expired = s.expired)
    (hr : s'.running = s.running) : s'.FreshInv := by
  have hne {fd' : Fd} (hfd : fd' ∈ s'.numbers) : fd' ∈ s.numbers ∧ fd' ≠ fd := by
    rw [numbers, hb] at hfd
    exact ⟨hfd, fun e => hn (e ▸ hfd)⟩
  refine ⟨fun fd' => ?_, ?_, fun fd' hfd => ?_, fun fd' hfd info hi => ?_, ?_, ?_⟩
  · rw [hm]
    exact hd.before ((h.all fd').le (Nat.le_succ _)) fun _ => Nat.lt_succ_self _
  · rw [hm, hp]; exact Nat.le_succ_of_le h.le
  · rw [hp]
    exact hd.before (h.batch fd' (hne hfd).1) fun e => absurd e (hne hfd).2
  · rw [he]
    rcases hd.timer fd' info hi with ⟨e, -⟩ | hi
    · exact absurd e (hne hfd).2
    · exact h.expired fd' (hne hfd).1 info hi
  · rw [hr, hp]; exact h.running
  · rw [hr, he]; exact h.timer

/-- `poll` finds the entry of the timer whose callback has returned. -/
theorem timerReturn_of_not_dangling {fd : Fd} {r : Nat} {g : Bool}
    (hd : (s.timerReturn fd r g).dangling = false) :
    ∃ info, s.disp.timers.lookup fd = some info ∧ info.callback = r ∧
      s.timerReturn fd r g = if info.repeating then { s with running := none }
        else { s with running := none, disp := s.disp.cancelTimer fd }.close fd r := by
  unfold timerReturn at hd ⊢
  split
  · rename_i info hi
    obtain ⟨hl, hc⟩ := Option.filter_eq_some_iff.1 hi
    exact ⟨info, hl, of_decide_eq_true hc, rfl⟩
  · rename_i hn
    rw [hn] at hd
    cases g <;> cases hd

theorem fewer_timerReturn (s : PollLoop) (fd : Fd) (r : Nat) (g : Bool) :
    Fewer s.disp (s.timerReturn fd r g).disp := by
  unfold timerReturn
  split
  · split
    · exact .rfl
    · exact .cancelTimer ..
  · split
    · exact .rfl
    · exact .closed ..

theorem timerReturn_fields (s : PollLoop) (fd : Fd) (r : Nat) (g : Bool) :
    (s.timerReturn fd r g).made = s.made ∧ (s.timerReturn fd r g).polled = s.polled ∧
    (s.timerReturn fd r g).batch = s.batch ∧ (s.timerReturn fd r g).expired = s.expired ∧
    (s.timerReturn fd r g).running = none := by
  unfold timerReturn
  split <;> split <;> exact ⟨rfl, rfl, rfl, rfl, rfl⟩

/-- What `epoll_wait` returns is registered already. -/
theorem FreshInv.wait (h : s.FreshInv) (hr : s.running = none) {fds : List Fd}
    (hall : ∀ fd ∈ fds, s.ready fd = true) :
    FreshInv { s with batch := fds.filterMap fun fd => (s.holder fd).map (Prod.mk fd)
                      polled := s.made } := by
  refine ⟨h.all, Nat.le_refl _, fun fd _ => h.all fd, fun fd hfd info hi => ?_, ?_, ?_⟩
  · have hmem : fd ∈ fds := by
      obtain ⟨⟨fd', h'⟩, hp, rfl⟩ := List.mem_map.1 hfd
      obtain ⟨fd, hfd, he⟩ := List.mem_filterMap.1 hp
      obtain ⟨k, -, e⟩ := Option.map_eq_some_iff.1 he
      cases e
      exact hfd
    have hready := hall fd hmem
    replace hi : s.disp.timers.lookup fd = some info := hi
    rwa [ready, hi] at hready
  · intro x hx
    cases hr.symm.trans hx
  · intro fd r g hx
    cases hr.symm.trans hx

theorem mem_numbers_of_cons {fd : Fd} {h : Nat} {rest : List (Fd × Nat)}
    (hb : s.batch = (fd, h) :: rest) :
    fd ∈ s.numbers ∧ ∀ fd' ∈ rest.map Prod.fst, fd' ∈ s.numbers := by
  rw [numbers, hb]
  exact ⟨List.mem_cons_self, fun _ => List.mem_cons_of_mem _⟩

theorem step_freshInv (h : s.FreshInv) (hok : s.FreshNumbers a) (he : s.step a = some s') :
    s'.FreshInv := by
  cases (step_view he).2 with
  | openFd fd _ | cancelNone fd =>
    exact h.frame .rfl (Nat.le_refl _) rfl (fun _ => id) (fun _ => id) (.inr rfl)
  | closeFd fd _ =>
    exact h.frame (.closed ..) (Nat.le_refl _) rfl (fun _ => id) (fun _ => id) (.inr rfl)
  | modify fd mask =>
    exact h.frame (.modify ..) (Nat.le_refl _) rfl (fun _ => id) (fun _ => id) (.inr rfl)
  | remove fd =>
    exact h.frame (.remove ..) (Nat.le_refl _) rfl (fun _ => id) (fun _ => id) (.inr rfl)
  | cancel fd info _ =>
    exact h.frame (.cancelTimer ..) (Nat.le_refl _) rfl (fun _ => id) (fun _ => id) (.inr rfl)
  | notScheduled timeout rep tfd ctl =>
    exact h.frame .rfl (Nat.le_succ _) rfl (fun _ => id) (fun _ => id) (.inr rfl)
  | add fd mask ctl =>
    cases ctl with
    | true => exact h.register (hok rfl) (.add ..) rfl rfl rfl rfl rfl
    | false => exact h.frame .rfl (Nat.le_succ _) rfl (fun _ => id) (fun _ => id) (.inr rfl)
  | scheduled timeout rep fd ctl _ =>
    have hn : fd ∉ s.numbers := by simpa [FreshNumbers] using hok
    exact h.register hn (.timers ..) rfl rfl rfl rfl rfl
  | expire fd info _ =>
    refine h.frame .rfl (Nat.le_refl _) rfl (fun _ => id) (fun r hr => ?_) (.inr rfl)
    by_cases e : r = info.callback
    · subst e; exact Function.update_self ..
    · exact (Function.update_of_ne e ..).trans hr
  | wait fds hr hall => exact h.wait hr hall
  | timer fd g rest info hr hb hl =>
    obtain ⟨hfd, hrest⟩ := mem_numbers_of_cons hb
    refine ⟨h.all, h.le, fun fd' hm => h.batch fd' (hrest fd' hm),
      fun fd' hm => h.expired fd' (hrest fd' hm), ?_, ?_⟩
    · rintro x ⟨⟩
      exact (h.batch fd hfd).timer info hl
    · rintro fd' r g' ⟨⟩
      exact h.expired fd hfd info hl
  | sock fd g rest r hr hb hl =>
    obtain ⟨hfd, hrest⟩ := mem_numbers_of_cons hb
    refine ⟨h.all, h.le, fun fd' hm => h.batch fd' (hrest fd' hm),
      fun fd' hm => h.expired fd' (hrest fd' hm), ?_, by rintro fd' r g' ⟨⟩⟩
    rintro x ⟨⟩
    exact (h.batch fd hfd).sock r hl
  | skip fd g rest hr hb =>
    exact h.frame .rfl (Nat.le_refl _) rfl (mem_numbers_of_cons hb).2 (fun _ => id) (.inr rfl)
  | sockReturn r g b _ =>
    exact h.frame .rfl (Nat.le_refl _) rfl (fun _ => id) (fun _ => id) (.inl rfl)
  | timerReturn fd r g b _ =>
    obtain ⟨hm, hp, hb, he, hr⟩ := s.timerReturn_fields fd r b
    refine h.frame (s.fewer_timerReturn fd r b) (Nat.le_of_eq hm.symm) hp ?_ ?_ (.inl hr)
    · rw [numbers, hb]; exact fun _ => id
    · rw [he]; exact fun _ => id

theorem reach_freshInv (h : machine.ReachOk FreshNumbers s) : s.FreshInv :=
  h.inv (fun _ hs => hs ▸ start_freshInv) fun _ _ _ _ hi hok he => step_freshInv hi hok he

/-- **No stale event reaches a newer registration.** In every run in which nothing
is registered under a number that still has an event in the batch: the callback
that is running was not registered during this `poll` on account of another
registration's event, and if it is a timer's its timerfd has expired. -/
theorem no_stale_event (h : machine.ReachOk FreshNumbers s) (x : Running)
    (hx : s.running = some x) :
    ¬ (s.polled ≤ x.reg ∧ x.reg ≠ x.harvestedFor) ∧
      ∀ fd r g, x = .timer fd r g → s.expired r = true := by
  have hi := reach_freshInv h
  refine ⟨fun hs => ?_, ?_⟩
  · exact absurd hs.1 (Nat.not_le_of_lt (hi.running x hx))
  · rintro fd r g rfl
    exact hi.timer fd r g hx

/-- Two timers expire; the callback of the first cancels the second and schedules a
third, which gets a new number. The second event finds nothing. -/
theorem no_stale_event_cancelled :
    ∃ s, machine.ReachOk FreshNumbers s ∧
      (s.running = some (.timer 5 0 0) ∧ s.numbers = [6] ∧ s.disp.timers.lookup 6 = none ∧
        s.made = 3) ∧ s.expired 0 = true := by
  obtain ⟨s, h, hp⟩ := Machine.ReachOk.of_runOk_init (M := machine) FreshNumbers
    (fun s => decide (s.running = some (.timer 5 0 0) ∧ s.numbers = [6] ∧
      (s.disp.timers.lookup 6).isNone = true ∧ s.made = 3))
    [.schedule 1000 false (some 5) true, .schedule 1000 false (some 6) true, .expire 5,
      .expire 6, .wait [5, 6], .dispatch, .cancel 6, .schedule 9000 false (some 7) true]
    rfl (by decide)
  obtain ⟨hr, hn, hl, hm⟩ := of_decide_eq_true hp
  exact ⟨s, h, ⟨hr, hn, Option.isNone_iff_eq_none.1 hl, hm⟩, (no_stale_event h _ hr).2 5 0 0 rfl⟩

/-- The third timer gets the number of the second: the event harvested for the second
calls it, nine seconds early. -/
theorem stale_event_fires_new_timer :
    ∃ s, machine.Reach s ∧ s.running = some (.timer 6 2 1) ∧ s.polled ≤ 2 ∧
      s.expired 2 = false := by
  obtain ⟨s, h, hp⟩ := Machine.Reach.of_run_init (M := machine)
    (fun s => decide (s.running = some (.timer 6 2 1) ∧ s.polled ≤ 2 ∧ s.expired 2 = false))
    [.schedule 1000 false (some 5) true, .schedule 1000 false (some 6) true, .expire 5,
      .expire 6, .wait [5, 6], .dispatch, .cancel 6, .schedule 9000 false (some 6) true,
      .callbackReturn true, .dispatch]
    rfl (by decide)
  exact ⟨s, h, of_decide_eq_true hp⟩

end PollLoop

end Socketpp
