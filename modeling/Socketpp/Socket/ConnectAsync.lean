import Socketpp.Event.Poll
import Socketpp.Platform.Error

/-!
# Asynchronous connect

`connect_async_impl` (`src/socket/tcp_connect_async.cpp`) starts a connection and
leaves a `connect_state` to two closures: the callback of a timer and that of
the descriptor's registration. Whichever is called first completes the attempt,
takes the other one away and calls the user's callback.

Attempts run in a `PollLoop`, next to anything else the loop thread does there:
other registrations and timers, `cancel_timer` with whatever id, descriptors the
user opens and closes, further attempts started from a callback. They do not
touch the sockets of attempts that have not completed, which nobody else has.
A registration's number tells which closure it stands for (`callback`).

`Inv` ties the dispatcher to the attempts: a closure is registered only while
its attempt has not completed, except for the timer's while `poll` is inside it.
-/

namespace Socketpp

/-- What a registration calls, with what the closure captures. -/
inductive Closure where
  /-- code that is not `connect_async`'s -/
  | user
  /-- `[state, &loop, fd]`, given to `defer` -/
  | timeout (j : Nat) (fd : Fd)
  /-- `[state, &loop]`, given to `add` -/
  | connected (j : Nat)
  deriving DecidableEq, Repr

/-- The attempt whose `connect_state` the closure keeps alive. -/
def Closure.state : Closure → Option Nat
  | user => none
  | timeout j _ | connected j => some j

/-- A socket object. -/
inductive Sock where
  | held (fd : Fd)
  | closed
  | moved
  deriving DecidableEq, Repr

/-- `close`, which does nothing to an object that has no descriptor. -/
def Sock.close : Sock → Sock
  | held _ => closed
  | closed => closed
  | moved => moved

/-- `connect_state`. -/
structure Attempt where
  sock : Sock
  /-- `timer`: the id it has while `cancel_fn_` is set -/
  timer : Option Fd
  completed : Bool
  /-- the calls of `callback` -/
  results : List (Except ErrorCode Unit)

/-- The calls of the user's callback and what became of the socket. -/
structure Attempt.Shape (a : Attempt) : Prop where
  pending : a.completed = false → a.results = []
  done : a.completed = true → a.results = [.ok ()] ∧ a.sock = .moved ∨
    ∃ ec, a.results = [.error ec] ∧ a.sock = .closed

namespace PollLoop

def removeFd (l : PollLoop) (fd : Fd) : PollLoop := { l with disp := l.disp.remove fd }

/-- `close` of a socket object. -/
def closeSock (l : PollLoop) : Sock → PollLoop
  | .held fd => { l with fds := Function.update l.fds fd none, disp := l.disp.closed fd }
  | .closed | .moved => l

/-- `timer_handle::cancel`. -/
def cancelHandle (l : PollLoop) : Option Fd → PollLoop
  | some id => l.cancel id
  | none => l

end PollLoop

structure ConnectLoop where
  loop : PollLoop
  callback : Nat → Closure
  attempts : List Attempt

namespace ConnectLoop

def start : ConnectLoop := ⟨.start, fun _ => .user, []⟩

inductive Act where
  /-- `connect_async`, with the operating system's answers -/
  | connect (create : Except ErrorCode Fd) (applyTo : Except ErrorCode Unit) (rc : Option Int)
      (timeout : Int) (tfd : Option Fd) (ctlTimer ctl : Bool)
  /-- the turn of an event; `so` is what `getsockopt` would answer -/
  | dispatch (so : Except Int Int)
  | callbackReturn
  /-- the last reference to a `connect_state` is gone -/
  | destroy (j : Nat)
  /-- anything else that happens on the loop thread -/
  | other (a : PollLoop.Act)

/-- The part of `connect_async_impl` that runs if `Connector::connect` returns a socket. -/
def connect (s : ConnectLoop) (fd : Fd) (timeout : Int) (tfd : Option Fd)
    (ctlTimer ctl : Bool) : Option ConnectLoop := do
  let l ← s.loop.step (.openFd fd)
  let id := (l.disp.scheduleTimer timeout false l.made tfd ctlTimer).2
  let l' ← l.step (.schedule timeout false tfd ctlTimer)
  let l'' ← l'.step (.add fd .writable ctl)
  let j := s.attempts.length
  some {
    loop := l''
    callback := Function.update (Function.update s.callback l.made (.timeout j fd)) l'.made
      (.connected j)
    attempts := s.attempts ++ [⟨.held fd, some id, false, []⟩] }

/-- The timer's callback. -/
def onTimeout (s : ConnectLoop) (j : Nat) (fd : Fd) : ConnectLoop :=
  match s.attempts[j]? with
  | none => s
  | some a =>
    if a.completed then s
    else { s with
      loop := (s.loop.removeFd fd).closeSock a.sock
      attempts := s.attempts.set j { a with
        completed := true
        sock := a.sock.close
        results := a.results ++ [.error (makeErrorCode .timedOut)] } }

/-- The descriptor's callback, on whatever events. -/
def onEvent (s : ConnectLoop) (j : Nat) (fd : Fd) (so : Except Int Int) : ConnectLoop :=
  match s.attempts[j]? with
  | none => s
  | some a =>
    if a.completed then s
    else
      let l := (s.loop.cancelHandle a.timer).removeFd fd
      let a := { a with completed := true, timer := none }
      match soErrorResult .linux so with
      | .error ec =>
        { s with
          loop := l.closeSock a.sock
          attempts := s.attempts.set j
            { a with sock := a.sock.close, results := a.results ++ [.error ec] } }
      | .ok () =>
        { s with
          loop := l
          attempts := s.attempts.set j
            { a with sock := .moved, results := a.results ++ [.ok ()] } }

/-- The closure that is called, if it is `connect_async`'s. -/
def called (s : ConnectLoop) (fd : Fd) (so : Except Int Int) : ConnectLoop :=
  match s.loop.running with
  | some (.timer _ r _) =>
    match s.callback r with
    | .timeout j fd => s.onTimeout j fd
    | _ => s
  | some (.sock r _) =>
    match s.callback r with
    | .connected j => s.onEvent j fd so
    | _ => s
  | none => s

/-- The attempt whose closure is running. -/
def runningFor (s : ConnectLoop) : Option Nat :=
  s.loop.running.bind fun x => (s.callback x.reg).state

/-- A closure in one of the dispatcher's maps refers to the attempt. -/
def owned (s : ConnectLoop) (j : Nat) : Bool :=
  s.loop.disp.timers.entries.any (fun e => (s.callback e.2.callback).state = some j) ||
    s.loop.disp.callbacks.entries.any fun e => (s.callback e.2).state = some j

/-- `~connect_state`: the handle goes before the socket. -/
def destroy (s : ConnectLoop) (j : Nat) (a : Attempt) : ConnectLoop :=
  { s with
    loop := (s.loop.cancelHandle a.timer).closeSock a.sock
    attempts := s.attempts.set j { a with timer := none, sock := a.sock.close } }

/-- What the rest of the program does: `poll`'s own steps are not its, nor are the sockets
of attempts. -/
def foreign (s : ConnectLoop) : PollLoop.Act → Bool
  | .closeFd fd | .add fd _ _ | .modify fd _ | .remove fd =>
    s.attempts.all fun a => a.sock ≠ .held fd
  | .dispatch | .callbackReturn _ => false
  | .openFd _ | .schedule _ _ _ _ | .cancel _ | .expire _ | .wait _ => true

/-- A step of the loop thread. If a callback has had its own timer cancelled, `poll`
goes on with a freed entry: there is no next state. A `connect_state` is destroyed at
once when its last closure goes; here it may also take longer. -/
def step (s : ConnectLoop) : Act → Option ConnectLoop
  | .connect create applyTo rc timeout tfd ctlTimer ctl =>
    match connectImpl .linux create applyTo rc with
    | .error ec => some { s with attempts := s.attempts ++ [⟨.closed, none, true, [.error ec]⟩] }
    | .ok fd => s.connect fd timeout tfd ctlTimer ctl
  | .dispatch so =>
    match s.loop.batch with
    | [] => none
    | (fd, _) :: _ => (s.loop.step .dispatch).map fun l => { s with loop := l }.called fd so
  | .callbackReturn =>
    match s.loop.step (.callbackReturn false) with
    | some l => if l.dangling then none else some { s with loop := l }
    | none => none
  | .destroy j =>
    match s.attempts[j]? with
    | some a =>
      if s.owned j = false ∧ s.runningFor ≠ some j then some (s.destroy j a) else none
    | none => none
  | .other a => if s.foreign a then (s.loop.step a).map fun l => { s with loop := l } else none

def machine : Machine ConnectLoop Act where
  Init s := s = start
  step := step

/-! ## The invariant -/

/-- An attempt's timer. -/
structure TimerOf (s : ConnectLoop) (fd : Fd) (info : TimerInfo Nat) (j : Nat) (a : Attempt)
    (n : Fd) : Prop where
  attempt : s.attempts[j]? = some a
  callback : s.callback info.callback = .timeout j n
  oneShot : info.repeating = false
  timer : a.timer = some fd
  pending : a.completed = false ∧ a.sock = .held n ∨
    a.completed = true ∧ ∃ g, s.loop.running = some (.timer fd info.callback g)

/-- An attempt's registration. -/
structure SockOf (s : ConnectLoop) (fd : Fd) (r j : Nat) (a : Attempt) : Prop where
  attempt : s.attempts[j]? = some a
  callback : s.callback r = .connected j
  pending : a.completed = false
  sock : a.sock = .held fd
  handle : a.timer.isSome = true
  interest : (s.loop.disp.interest.lookup fd).isSome = true

/-- The number of the socket of an attempt. -/
def Holds (s : ConnectLoop) (fd : Fd) : Prop :=
  ∃ (j : Nat) (a : Attempt), s.attempts[j]? = some a ∧ a.sock = .held fd

/-- What holds of the dispatcher and the descriptors, whoever uses them. -/
structure LoopInv (l : PollLoop) : Prop where
  before : ∀ fd, PollLoop.Before l.disp l.made fd
  timerfd : ∀ fd info, l.disp.timers.lookup fd = some info → ∃ r, l.fds fd = some (.timerfd r)
  regs : l.disp.HasCallbacks

structure Inv (s : ConnectLoop) : Prop where
  loop : LoopInv s.loop
  user : ∀ r, s.loop.made ≤ r → s.callback r = .user
  timeout : ∀ fd info j, s.loop.disp.timers.lookup fd = some info →
    (s.callback info.callback).state = some j → ∃ a n, s.TimerOf fd info j a n
  connected : ∀ fd r j, s.loop.disp.callbacks.lookup fd = some r →
    (s.callback r).state = some j → ∃ a, s.SockOf fd r j a
  held : ∀ fd, s.Holds fd → (s.loop.fds fd).any Desc.isUser = true
  inj : ∀ (j j' : Nat) (a a' : Attempt) (fd : Fd), s.attempts[j]? = some a →
    s.attempts[j']? = some a' → a.sock = .held fd → a'.sock = .held fd → j = j'
  shape : ∀ a ∈ s.attempts, a.Shape

theorem start_inv : start.Inv where
  loop := ⟨fun _ => ⟨nofun, nofun⟩, nofun, nofun⟩
  user _ _ := rfl
  timeout := nofun
  connected := nofun
  held := by rintro fd ⟨j, a, h, -⟩; cases h
  inj := by rintro j j' a a' fd ⟨⟩
  shape := nofun

/-! ## Steps that leave the attempts alone -/

theorem LoopInv.fewer {l l' : PollLoop} (h : LoopInv l) (hf : PollLoop.Fewer l.disp l'.disp)
    (hm : l.made ≤ l'.made)
    (ht : ∀ fd info, l'.disp.timers.lookup fd = some info → l'.fds fd = l.fds fd)
    (hr : l'.disp.HasCallbacks) : LoopInv l' := by
  refine ⟨fun fd => ((h.before fd).mono hf).le hm, fun fd info hi => ?_, hr⟩
  rw [ht fd info hi]
  exact h.timerfd fd info (hf.timer fd info hi)

theorem LoopInv.timerfd_ne {l : PollLoop} (h : LoopInv l) {fd fd' : Fd} {info : TimerInfo Nat}
    (hi : l.disp.timers.lookup fd = some info) (hf : ∀ r, l.fds fd' ≠ some (.timerfd r)) :
    fd ≠ fd' := by
  obtain ⟨r, hr⟩ := h.timerfd fd info hi
  rintro rfl
  exact hf r hr

/-- One registration more, under number `fd`. -/
theorem LoopInv.adds {l l' : PollLoop} {fd : Fd} (h : LoopInv l)
    (hd : PollLoop.Adds l.disp l'.disp l.made fd) (hm : l'.made = l.made + 1)
    (ht : ∀ fd' info, l'.disp.timers.lookup fd' = some info → l'.fds fd' = l.fds fd' ∧
      l.disp.timers.lookup fd' = some info ∨ ∃ r, l'.fds fd' = some (.timerfd r))
    (hr : l'.disp.HasCallbacks) : LoopInv l' := by
  refine ⟨fun fd' => ?_, fun fd' info hi => ?_, hr⟩
  · rw [hm]
    exact hd.before ((h.before fd').le (Nat.le_succ _)) fun _ => Nat.lt_succ_self _
  · rcases ht fd' info hi with ⟨e, hi⟩ | hi
    · rw [e]; exact h.timerfd fd' info hi
    · exact hi

theorem LoopInv.cancel {l : PollLoop} (h : LoopInv l) (id : Fd) : LoopInv (l.cancel id) := by
  unfold PollLoop.cancel
  split
  · refine h.fewer (.cancelTimer ..) (Nat.le_refl _) (fun fd info hi => ?_) h.regs
    exact Function.update_of_ne (Tables.lookup_erase_some hi).1 ..
  · exact h

theorem LoopInv.timerReturn {l : PollLoop} (h : LoopInv l) (fd : Fd) (r : Nat) (g : Bool)
    (hd : (l.timerReturn fd r g).dangling = false) : LoopInv (l.timerReturn fd r g) := by
  obtain ⟨info, -, -, e⟩ := PollLoop.timerReturn_of_not_dangling hd
  rw [e]
  split
  · exact ⟨h.before, h.timerfd, h.regs⟩
  · refine h.fewer (.cancelTimer ..) (Nat.le_refl _) (fun fd' info hi => ?_) h.regs
    exact Function.update_of_ne (Tables.lookup_erase_some hi).1 ..

theorem LoopInv.step {l l' : PollLoop} {a : PollLoop.Act} (h : LoopInv l)
    (he : l.step a = some l') (hd : ∀ g, a = .callbackReturn g → l'.dangling = false) :
    LoopInv l' := by
  cases (PollLoop.step_view he).2 with
  | openFd fd hf =>
    refine h.fewer .rfl (Nat.le_refl _) (fun fd' info hi => ?_) h.regs
    have hne := h.timerfd_ne hi fun r hr => (by cases hf.symm.trans hr)
    exact Function.update_of_ne hne ..
  | closeFd fd hf =>
    refine h.fewer (.closed ..) (Nat.le_refl _) (fun fd' info hi => ?_) (h.regs.closed fd)
    have hne := h.timerfd_ne hi fun r hr => (by rw [hr] at hf; cases hf)
    exact Function.update_of_ne hne ..
  | add fd mask ctl =>
    cases ctl with
    | true =>
      exact h.adds (.add ..) rfl (fun _ _ hi => .inl ⟨rfl, hi⟩) (h.regs.add fd mask l.made true)
    | false => exact h.fewer .rfl (Nat.le_succ _) (fun _ _ _ => rfl) h.regs
  | modify fd mask =>
    exact h.fewer (.modify ..) (Nat.le_refl _) (fun _ _ _ => rfl) (h.regs.modify fd mask)
  | remove fd =>
    exact h.fewer (.remove ..) (Nat.le_refl _) (fun _ _ _ => rfl) (h.regs.remove fd)
  | scheduled timeout rep fd ctl hf =>
    refine h.adds (.timers ..) rfl (fun fd' info hi => ?_) h.regs
    rcases Tables.lookup_insert_some hi with ⟨rfl, -⟩ | ⟨hne, hi⟩
    · exact .inr ⟨l.made, Function.update_self ..⟩
    · exact .inl ⟨Function.update_of_ne hne .., hi⟩
  | notScheduled timeout rep tfd ctl =>
    exact h.fewer .rfl (Nat.le_succ _) (fun _ _ _ => rfl) h.regs
  | cancel fd info hl =>
    have := h.cancel fd
    rwa [PollLoop.cancel, hl] at this
  | cancelNone fd => exact h
  | expire fd info _ | wait fds _ _ | timer fd g rest info _ _ _ | sock fd g rest r _ _ _
  | skip fd g rest _ _ | sockReturn r g b _ =>
    exact ⟨h.before, h.timerfd, h.regs⟩
  | timerReturn fd r g b _ => exact h.timerReturn fd r b (hd b rfl)

/-- `l` has the attempts' closures and sockets of `s`, if not all of the timers. -/
structure Keeps (s : ConnectLoop) (l : PollLoop) : Prop where
  loop : LoopInv l
  made : s.loop.made ≤ l.made
  timer : ∀ fd info, l.disp.timers.lookup fd = some info →
    s.loop.disp.timers.lookup fd = some info ∨ s.loop.made ≤ info.callback
  sock : ∀ fd r, l.disp.callbacks.lookup fd = some r →
    s.loop.disp.callbacks.lookup fd = some r ∨ s.loop.made ≤ r
  held : ∀ fd, s.Holds fd → l.fds fd = s.loop.fds fd ∧
    ((s.loop.disp.interest.lookup fd).isSome = true → (l.disp.interest.lookup fd).isSome = true)
  running : ∀ fd info g, l.disp.timers.lookup fd = some info → info.repeating = false →
    s.loop.running = some (.timer fd info.callback g) →
      l.running = some (.timer fd info.callback g)

variable {s s' : ConnectLoop} {l : PollLoop}

theorem Inv.ge_made (h : s.Inv) {r j : Nat} (hj : (s.callback r).state = some j) :
    ¬ s.loop.made ≤ r := by
  intro hr
  rw [h.user r hr] at hj
  cases hj

/-- The closures of an attempt that stays as it is. -/
theorem Inv.timerOf_keeps (h : s.Inv) {A : List Attempt}
    (hk : Keeps { s with attempts := A } l) {fd : Fd} {info : TimerInfo Nat} {j : Nat}
    (hl : l.disp.timers.lookup fd = some info) (hj : (s.callback info.callback).state = some j)
    (hA : A[j]? = s.attempts[j]?) :
    ∃ a n, TimerOf { s with loop := l, attempts := A } fd info j a n := by
  obtain ⟨a, n, ht⟩ := h.timeout fd info j ((hk.timer fd info hl).resolve_right (h.ge_made hj)) hj
  refine ⟨a, n, hA.trans ht.attempt, ht.callback, ht.oneShot, ht.timer, ?_⟩
  exact ht.pending.imp_right fun ⟨hc, g, hr⟩ => ⟨hc, g, hk.running fd info g hl ht.oneShot hr⟩

theorem Inv.sockOf_keeps (h : s.Inv) {A : List Attempt}
    (hk : Keeps { s with attempts := A } l) {fd : Fd} {r j : Nat}
    (hl : l.disp.callbacks.lookup fd = some r) (hj : (s.callback r).state = some j)
    (hA : A[j]? = s.attempts[j]?) : ∃ a, SockOf { s with loop := l, attempts := A } fd r j a := by
  obtain ⟨a, hs⟩ := h.connected fd r j ((hk.sock fd r hl).resolve_right (h.ge_made hj)) hj
  have ha := hA.trans hs.attempt
  exact ⟨a, ha, hs.callback, hs.pending, hs.sock, hs.handle,
    (hk.held fd ⟨j, a, ha, hs.sock⟩).2 hs.interest⟩

theorem Inv.keep (h : s.Inv) (hk : s.Keeps l) : Inv { s with loop := l } where
  loop := hk.loop
  user r hr := h.user r (Nat.le_trans hk.made hr)
  timeout _ _ _ hl hj := h.timerOf_keeps hk hl hj rfl
  connected _ _ _ hl hj := h.sockOf_keeps hk hl hj rfl
  held fd hf := (congrArg _ (hk.held fd hf).1).trans (h.held fd hf)
  inj := h.inj
  shape := h.shape

theorem Inv.held_ne (h : s.Inv) {fd fd' : Fd} (hf : s.Holds fd)
    (hn : (s.loop.fds fd').any Desc.isUser = false) : fd ≠ fd' := by
  rintro rfl
  cases (h.held fd hf).symm.trans hn

/-- Fewer closures, on the same descriptors. -/
theorem Keeps.fewer (hl : LoopInv l) (hf : PollLoop.Fewer s.loop.disp l.disp)
    (hm : s.loop.made ≤ l.made)
    (hh : ∀ fd, s.Holds fd → l.fds fd = s.loop.fds fd ∧
      l.disp.interest.lookup fd = s.loop.disp.interest.lookup fd)
    (hr : l.running = s.loop.running) : s.Keeps l where
  loop := hl
  made := hm
  timer fd info hi := .inl (hf.timer fd info hi)
  sock fd r hi := .inl (hf.sock fd r hi)
  held fd hf := ⟨(hh fd hf).1, fun hs => (congrArg _ (hh fd hf).2).trans hs⟩
  running _ _ _ _ _ e := hr.trans e

theorem Keeps.adds {fd : Fd} (hl : LoopInv l)
    (hd : PollLoop.Adds s.loop.disp l.disp s.loop.made fd) (hm : l.made = s.loop.made + 1)
    (hh : ∀ fd, s.Holds fd → l.fds fd = s.loop.fds fd ∧
      l.disp.interest.lookup fd = s.loop.disp.interest.lookup fd)
    (hr : l.running = s.loop.running) : s.Keeps l where
  loop := hl
  made := hm ▸ Nat.le_succ _
  timer fd info hi := (hd.timer fd info hi).symm.imp_right fun e => Nat.le_of_eq e.2.symm
  sock fd r hi := (hd.sock fd r hi).symm.imp_right fun e => Nat.le_of_eq e.2.symm
  held fd hf := ⟨(hh fd hf).1, fun hs => (congrArg _ (hh fd hf).2).trans hs⟩
  running _ _ _ _ _ e := hr.trans e

theorem ne_of_all {fd fd' : Fd} (hf : (s.attempts.all fun a => a.sock ≠ .held fd) = true)
    (hh : s.Holds fd') : fd' ≠ fd := by
  obtain ⟨j, a, ha, hs⟩ := hh
  rintro rfl
  exact of_decide_eq_true (List.all_eq_true.1 hf a (List.mem_of_getElem? ha)) hs

theorem Inv.keeps_cancel (h : s.Inv) (id : Fd) : s.Keeps (s.loop.cancel id) := by
  have hl := h.loop.cancel id
  unfold PollLoop.cancel at hl ⊢
  split
  · rename_i info hi
    rw [hi] at hl
    refine .fewer hl (.cancelTimer ..) (Nat.le_refl _) (fun fd' hh => ⟨?_, rfl⟩) rfl
    obtain ⟨r, hr⟩ := h.loop.timerfd id info hi
    exact Function.update_of_ne (h.held_ne hh (by rw [hr]; rfl)) ..
  · exact .fewer h.loop .rfl (Nat.le_refl _) (fun _ _ => ⟨rfl, rfl⟩) rfl

/-- What the rest of the program does. -/
theorem Inv.keeps_foreign (h : s.Inv) {a : PollLoop.Act} (hf : s.foreign a = true)
    (he : s.loop.step a = some l) : s.Keeps l := by
  have hl := h.loop.step he (by rintro g rfl; cases hf)
  cases (PollLoop.step_view he).2 with
  | openFd fd hn =>
    refine .fewer hl .rfl (Nat.le_refl _) (fun fd' hh => ⟨?_, rfl⟩) rfl
    exact Function.update_of_ne (h.held_ne hh (by rw [hn]; rfl)) ..
  | closeFd fd _ =>
    refine .fewer hl (.closed ..) (Nat.le_refl _) (fun fd' hh => ?_) rfl
    have hne := ne_of_all hf hh
    exact ⟨Function.update_of_ne hne .., AList.lookup_erase_ne hne⟩
  | add fd mask ctl =>
    cases ctl with
    | true =>
      refine .adds hl (.add ..) rfl (fun fd' hh => ⟨rfl, ?_⟩) rfl
      exact AList.lookup_insert_ne (ne_of_all hf hh)
    | false => exact .fewer hl .rfl (Nat.le_succ _) (fun _ _ => ⟨rfl, rfl⟩) rfl
  | modify fd mask =>
    refine .fewer hl (.modify ..) (Nat.le_refl _) (fun fd' hh => ⟨rfl, ?_⟩) rfl
    exact Epoll.lookup_modify_ne (ne_of_all hf hh) mask
  | remove fd =>
    refine .fewer hl (.remove ..) (Nat.le_refl _) (fun fd' hh => ⟨rfl, ?_⟩) rfl
    exact Epoll.lookup_remove_ne (ne_of_all hf hh)
  | scheduled timeout rep fd ctl hn =>
    refine .adds hl (.timers ..) rfl (fun fd' hh => ⟨?_, rfl⟩) rfl
    exact Function.update_of_ne (h.held_ne hh (by rw [hn]; rfl)) ..
  | notScheduled timeout rep tfd ctl =>
    exact .fewer hl .rfl (Nat.le_succ _) (fun _ _ => ⟨rfl, rfl⟩) rfl
  | cancel fd info hi =>
    have hk := h.keeps_cancel fd
    rwa [PollLoop.cancel, hi] at hk
  | cancelNone | expire | wait =>
    exact .fewer hl .rfl (Nat.le_refl _) (fun _ _ => ⟨rfl, rfl⟩) rfl
  | timer | sock | skip | sockReturn | timerReturn => cases hf

/-- `poll` takes the next event. -/
theorem Inv.keeps_dispatch (h : s.Inv) (he : s.loop.step .dispatch = some l) : s.Keeps l := by
  have hl := h.loop.step he nofun
  cases (PollLoop.step_view he).2 with
  | timer fd g rest info hr | sock fd g rest r hr =>
    refine ⟨hl, Nat.le_refl _, fun _ _ => .inl, fun _ _ => .inl, fun _ _ => ⟨rfl, id⟩, ?_⟩
    intro fd info g _ _ e
    cases hr.symm.trans e
  | skip => exact .fewer hl .rfl (Nat.le_refl _) (fun _ _ => ⟨rfl, rfl⟩) rfl

/-- A callback returns: a one-shot timer's entry goes with it. -/
theorem Inv.keeps_callbackReturn (h : s.Inv) {g : Bool}
    (he : s.loop.step (.callbackReturn g) = some l) (hd : l.dangling = false) : s.Keeps l := by
  have hl := h.loop.step he fun _ _ => hd
  cases (PollLoop.step_view he).2 with
  | sockReturn r g' _ hr =>
    refine ⟨hl, Nat.le_refl _, fun _ _ => .inl, fun _ _ => .inl, fun _ _ => ⟨rfl, id⟩, ?_⟩
    intro fd info g _ _ e
    cases hr.symm.trans e
  | timerReturn fd r g' _ hr =>
    obtain ⟨info, hi, rfl, e⟩ := PollLoop.timerReturn_of_not_dangling hd
    have hfd {fd' : Fd} {r' g'' : Nat} (e : s.loop.running = some (.timer fd' r' g'')) :
        fd = fd' := (Running.timer.inj (Option.some.inj (hr.symm.trans e))).1
    rw [e] at hl ⊢
    by_cases hrep : info.repeating = true
    · rw [if_pos hrep] at hl ⊢
      refine ⟨hl, Nat.le_refl _, fun _ _ => .inl, fun _ _ => .inl, fun _ _ => ⟨rfl, id⟩, ?_⟩
      intro fd' info' g'' hi' hone e'
      cases hfd e'
      cases hi.symm.trans hi'
      cases hrep.symm.trans hone
    · rw [if_neg hrep] at hl ⊢
      have hf := PollLoop.Fewer.cancelTimer s.loop.disp fd
      refine ⟨hl, Nat.le_refl _, fun fd' i hi' => .inl (hf.timer fd' i hi'), fun _ _ => .inl,
        fun fd' hh => ⟨?_, id⟩, ?_⟩
      · obtain ⟨r, hr⟩ := h.loop.timerfd fd info hi
        exact Function.update_of_ne (h.held_ne hh (by rw [hr]; rfl)) ..
      · intro fd' info' g'' hi' _ e'
        exact absurd (hfd e').symm (Tables.lookup_erase_some hi').1

/-! ## An attempt completes, or is given up -/

/-- Attempt `j` no longer has a socket, and no closure but the one that is running. -/
theorem Inv.release (h : s.Inv) {j : Nat} {a a' : Attempt} (ha : s.attempts[j]? = some a)
    (hk : Keeps { s with attempts := s.attempts.set j a' } l) (hs : a'.Shape)
    (hn : ∀ fd, a'.sock ≠ .held fd)
    (ht : ∀ fd info, l.disp.timers.lookup fd = some info →
      (s.callback info.callback).state = some j →
        ∃ n, TimerOf { s with loop := l, attempts := s.attempts.set j a' } fd info j a' n)
    (hc : ∀ fd r, l.disp.callbacks.lookup fd = some r → (s.callback r).state ≠ some j) :
    Inv { s with loop := l, attempts := s.attempts.set j a' } := by
  have hlt : j < s.attempts.length := (List.getElem?_eq_some_iff.1 ha).1
  have hself : (s.attempts.set j a')[j]? = some a' := List.getElem?_set_self hlt
  have hother {i : Nat} (hi : i ≠ j) : (s.attempts.set j a')[i]? = s.attempts[i]? :=
    List.getElem?_set_ne hi.symm
  -- a socket that is held after the step belongs to another attempt
  have hheld {i : Nat} {b : Attempt} {fd : Fd} (hb : (s.attempts.set j a')[i]? = some b)
      (hf : b.sock = .held fd) : s.attempts[i]? = some b := by
    by_cases e : i = j
    · subst e
      cases hself.symm.trans hb
      exact absurd hf (hn fd)
    · exact (hother e).symm.trans hb
  refine ⟨hk.loop, fun r hr => h.user r (Nat.le_trans hk.made hr), fun fd info i hl hi => ?_,
    fun fd r i hl hi => ?_, fun fd hf => ?_, fun i i' b b' fd hb hb' hf hf' => ?_, fun b hb => ?_⟩
  · by_cases e : i = j
    · subst e
      exact ⟨a', ht fd info hl hi⟩
    · exact h.timerOf_keeps hk hl hi (hother e)
  · by_cases e : i = j
    · subst e
      exact absurd hi (hc fd r hl)
    · exact h.sockOf_keeps hk hl hi (hother e)
  · obtain ⟨i, b, hb, hbf⟩ := hf
    exact (congrArg _ (hk.held fd ⟨i, b, hb, hbf⟩).1).trans (h.held fd ⟨i, b, hheld hb hbf, hbf⟩)
  · exact h.inj i i' b b' fd (hheld hb hf) (hheld hb' hf') hf hf'
  · rcases List.mem_or_eq_of_mem_set hb with hb | rfl
    · exact h.shape b hb
    · exact hs

/-- `l'` is `l` but for what is at number `fd`, which has no timer. -/
structure Drops (l l' : PollLoop) (fd : Fd) : Prop where
  fewer : PollLoop.Fewer l.disp l'.disp
  regs : l.disp.HasCallbacks → l'.disp.HasCallbacks
  made : l'.made = l.made
  running : l'.running = l.running
  fds : ∀ fd' ≠ fd, l'.fds fd' = l.fds fd'
  interest : ∀ fd' ≠ fd, l'.disp.interest.lookup fd' = l.disp.interest.lookup fd'

theorem Drops.refl (l : PollLoop) (fd : Fd) : Drops l l fd :=
  ⟨.rfl, id, rfl, rfl, fun _ _ => rfl, fun _ _ => rfl⟩

theorem Drops.removeFd (l : PollLoop) (fd : Fd) : Drops l (l.removeFd fd) fd :=
  ⟨.remove .., fun h => h.remove fd, rfl, rfl, fun _ _ => rfl,
    fun _ h => Epoll.lookup_remove_ne h⟩

theorem Drops.closeSock (l : PollLoop) (fd : Fd) : Drops l (l.closeSock (.held fd)) fd :=
  ⟨.closed .., fun h => h.closed fd, rfl, rfl, fun _ h => Function.update_of_ne h ..,
    fun _ h => AList.lookup_erase_ne h⟩

theorem Drops.trans {l l' l'' : PollLoop} {fd : Fd} (h : Drops l l' fd) (h' : Drops l' l'' fd) :
    Drops l l'' fd where
  fewer := ⟨fun fd i hi => h.fewer.timer fd i (h'.fewer.timer fd i hi),
    fun fd r hr => h.fewer.sock fd r (h'.fewer.sock fd r hr)⟩
  regs := h'.regs ∘ h.regs
  made := h'.made.trans h.made
  running := h'.running.trans h.running
  fds fd' e := (h'.fds fd' e).trans (h.fds fd' e)
  interest fd' e := (h'.interest fd' e).trans (h.interest fd' e)

/-- Attempt `j` gives its socket away. -/
theorem Inv.keeps_drops (h : s.Inv) {j : Nat} {a a' : Attempt} {fd : Fd}
    (ha : s.attempts[j]? = some a) (hs : a.sock = .held fd) (hn : ∀ fd, a'.sock ≠ .held fd)
    (hd : Drops s.loop l fd) : Keeps { s with attempts := s.attempts.set j a' } l := by
  have hne {fd' : Fd} (hh : Holds { s with attempts := s.attempts.set j a' } fd') :
      fd' ≠ fd := by
    obtain ⟨i, b, hb, hbf⟩ := hh
    rintro rfl
    by_cases e : i = j
    · subst e
      cases (List.getElem?_set_self (List.getElem?_eq_some_iff.1 ha).1).symm.trans hb
      exact hn _ hbf
    · exact e (h.inj i j b a fd' ((List.getElem?_set_ne (Ne.symm e)).symm.trans hb) ha hbf hs)
  have huser := h.held fd ⟨j, a, ha, hs⟩
  have hl : LoopInv l := by
    refine h.loop.fewer hd.fewer (Nat.le_of_eq hd.made.symm) (fun fd' info hi => hd.fds fd' ?_)
      (hd.regs h.loop.regs)
    refine h.loop.timerfd_ne (hd.fewer.timer fd' info hi) fun r hr => ?_
    rw [hr] at huser
    cases huser
  exact .fewer hl hd.fewer (Nat.le_of_eq hd.made.symm)
    (fun fd' hh => ⟨hd.fds fd' (hne hh), hd.interest fd' (hne hh)⟩) hd.running

/-- After `remove` no closure in `callbacks_` is the attempt's. -/
theorem Inv.unregistered (h : s.Inv) {j : Nat} {a : Attempt} {fd : Fd}
    (ha : s.attempts[j]? = some a) (hs : a.sock = .held fd) {fd' : Fd} {r : Nat}
    (hl : (s.loop.disp.remove fd).callbacks.lookup fd' = some r) :
    (s.callback r).state ≠ some j := by
  intro hj
  have hf := (PollLoop.Fewer.remove s.loop.disp fd).sock fd' r hl
  obtain ⟨b, hb⟩ := h.connected fd' r j hf hj
  cases ha.symm.trans hb.attempt
  cases hs.symm.trans hb.sock
  cases (Epoll.lookup_callbacks_remove hb.interest).symm.trans hl

theorem Inv.onTimeout (h : s.Inv) {fd n : Fd} {info : TimerInfo Nat} {g j : Nat}
    (hr : s.loop.running = some (.timer fd info.callback g))
    (hl : s.loop.disp.timers.lookup fd = some info)
    (hc : s.callback info.callback = .timeout j n) : (s.onTimeout j n).Inv := by
  obtain ⟨a, n', ht⟩ := h.timeout fd info j hl (by rw [hc]; rfl)
  cases hc.symm.trans ht.callback
  unfold ConnectLoop.onTimeout
  rw [ht.attempt]
  simp only
  split
  · exact h
  · rename_i hnc
    have hs : a.sock = .held n := by
      rcases ht.pending with hp | hp
      · exact hp.2
      · exact absurd hp.1 hnc
    have hres := (h.shape a (List.mem_of_getElem? ht.attempt)).pending
      (Bool.eq_false_of_not_eq_true hnc)
    rw [hs, hres]
    refine h.release ht.attempt
      (h.keeps_drops ht.attempt hs (fun _ e => by cases e)
        ((Drops.removeFd ..).trans (.closeSock ..)))
      ⟨fun e => (by cases e), fun _ => .inr ⟨_, rfl, rfl⟩⟩ (fun _ e => by cases e)
      (fun fd' info' hl' hj => ?_) fun fd' r hl' => h.unregistered ht.attempt hs hl'
    -- the timer's own entry is there until `poll` is back
    have hl' := (PollLoop.Fewer.remove s.loop.disp n).timer fd' info' hl'
    obtain ⟨b, n', hb⟩ := h.timeout fd' info' j hl' hj
    cases ht.attempt.symm.trans hb.attempt
    cases ht.timer.symm.trans hb.timer
    cases hl.symm.trans hl'
    have hlt := (List.getElem?_eq_some_iff.1 ht.attempt).1
    exact ⟨n, List.getElem?_set_self hlt, hc, ht.oneShot, ht.timer, .inr ⟨rfl, g, hr⟩⟩

theorem Inv.cancelHandle (h : s.Inv) (id : Option Fd) :
    Inv { s with loop := s.loop.cancelHandle id } := by
  cases id with
  | none => exact h
  | some id => exact h.keep (h.keeps_cancel id)

/-- With the timer of its handle an attempt has none left. -/
theorem Inv.cancelled (h : s.Inv) {j : Nat} {a : Attempt} (ha : s.attempts[j]? = some a) {fd : Fd}
    {info : TimerInfo Nat} (hl : (s.loop.cancelHandle a.timer).disp.timers.lookup fd = some info) :
    (s.callback info.callback).state ≠ some j := by
  intro hj
  have hf : s.loop.disp.timers.lookup fd = some info ∧ a.timer ≠ some fd := by
    unfold PollLoop.cancelHandle PollLoop.cancel at hl
    split at hl
    · rename_i id e
      rw [e]
      split at hl
      · obtain ⟨hne, hl⟩ := Tables.lookup_erase_some hl
        exact ⟨hl, fun e => hne (Option.some.inj e).symm⟩
      · rename_i hnone
        refine ⟨hl, ?_⟩
        rintro ⟨⟩
        cases hnone.symm.trans hl
    · rename_i e
      rw [e]
      exact ⟨hl, by rintro ⟨⟩⟩
  obtain ⟨b, n, hb⟩ := h.timeout fd info j hf.1 hj
  cases ha.symm.trans hb.attempt
  exact hf.2 hb.timer

theorem cancelHandle_callbacks (l : PollLoop) (id : Option Fd) :
    (l.cancelHandle id).disp.callbacks = l.disp.callbacks := by
  unfold PollLoop.cancelHandle PollLoop.cancel
  split
  · split <;> rfl
  · rfl

/-- The attempt's timer is cancelled and its descriptor removed, and perhaps closed. -/
theorem Inv.unhooked (h : s.Inv) {j : Nat} {a a' : Attempt} {fd : Fd}
    (ha : s.attempts[j]? = some a) (hs : a.sock = .held fd) (hn : ∀ fd, a'.sock ≠ .held fd)
    (hshape : a'.Shape) (hd : Drops ((s.loop.cancelHandle a.timer).removeFd fd) l fd) :
    Inv { s with loop := l, attempts := s.attempts.set j a' } := by
  have h₀ := h.cancelHandle a.timer
  refine h₀.release ha (h₀.keeps_drops ha hs hn ((Drops.removeFd ..).trans hd)) hshape hn
    (fun fd' info hl hj => ?_) fun fd' r hl => h₀.unregistered ha hs (hd.fewer.sock fd' r hl)
  have hl := (PollLoop.Fewer.remove _ fd).timer fd' info (hd.fewer.timer fd' info hl)
  exact absurd hj (h.cancelled ha hl)

theorem Inv.onEvent (h : s.Inv) {fd : Fd} {r j : Nat}
    (hl : s.loop.disp.callbacks.lookup fd = some r) (hc : s.callback r = .connected j)
    (so : Except Int Int) : (s.onEvent j fd so).Inv := by
  obtain ⟨a, hsk⟩ := h.connected fd r j hl (by rw [hc]; rfl)
  have ha := hsk.attempt
  have hs := hsk.sock
  have hres := (h.shape a (List.mem_of_getElem? ha)).pending hsk.pending
  unfold ConnectLoop.onEvent
  rw [ha]
  simp only [hsk.pending, Bool.false_eq_true, if_false, hs, hres]
  split
  · exact h.unhooked ha hs (fun _ e => by cases e)
      ⟨fun e => (by cases e), fun _ => .inr ⟨_, rfl, rfl⟩⟩ (.closeSock ..)
  · exact h.unhooked ha hs (fun _ e => by cases e)
      ⟨fun e => (by cases e), fun _ => .inl ⟨rfl, rfl⟩⟩ (.refl ..)

theorem not_owned {j : Nat} (h : s.owned j = false) :
    (∀ fd info, s.loop.disp.timers.lookup fd = some info →
      (s.callback info.callback).state ≠ some j) ∧
    ∀ fd r, s.loop.disp.callbacks.lookup fd = some r → (s.callback r).state ≠ some j := by
  obtain ⟨h1, h2⟩ := Bool.or_eq_false_iff.1 h
  refine ⟨fun fd info hl hj => ?_, fun fd r hl hj => ?_⟩
  · exact List.any_eq_false.1 h1 ⟨fd, info⟩ (AList.mem_lookup_iff.1 hl) (decide_eq_true hj)
  · exact List.any_eq_false.1 h2 ⟨fd, r⟩ (AList.mem_lookup_iff.1 hl) (decide_eq_true hj)

/-- A `connect_state` without a closure is destroyed. -/
theorem Inv.destroy (h : s.Inv) {j : Nat} {a : Attempt} (ha : s.attempts[j]? = some a)
    (ho : s.owned j = false) : (s.destroy j a).Inv := by
  have h₀ := h.cancelHandle a.timer
  have hshape := h.shape a (List.mem_of_getElem? ha)
  have hc {fd : Fd} {r : Nat}
      (hl : (s.loop.cancelHandle a.timer).disp.callbacks.lookup fd = some r) :
      (s.callback r).state ≠ some j := by
    rw [cancelHandle_callbacks] at hl
    exact (not_owned ho).2 fd r hl
  unfold ConnectLoop.destroy
  cases hs : a.sock with
  | held fd =>
    have hpend : a.completed ≠ true := by
      intro e
      rcases hshape.done e with ⟨-, hm⟩ | ⟨ec, -, hm⟩ <;> cases hs.symm.trans hm
    exact h₀.release ha (h₀.keeps_drops ha hs (fun _ e => by cases e) (.closeSock ..))
      ⟨hshape.pending, fun e => absurd e hpend⟩ (fun _ e => by cases e)
      (fun fd' info hl hj => absurd hj (h.cancelled ha hl)) fun _ _ hl => hc hl
  | closed | moved =>
    refine h₀.release ha (.fewer h₀.loop .rfl (Nat.le_refl _) (fun _ _ => ⟨rfl, rfl⟩) rfl)
      ⟨hshape.pending, fun e => ?_⟩ (fun _ e => by cases e)
      (fun fd' info hl hj => absurd hj (h.cancelled ha hl)) fun _ _ hl => hc hl
    have hd := hshape.done e
    rwa [hs] at hd

/-! ## A new attempt -/

theorem getElem?_append_singleton {A : List Attempt} {a b : Attempt} {j : Nat}
    (h : (A ++ [a])[j]? = some b) : A[j]? = some b ∨ j = A.length ∧ b = a := by
  rw [List.getElem?_append] at h
  split at h
  · exact .inl h
  · rename_i hj
    obtain ⟨hlt, he⟩ := List.getElem?_eq_some_iff.1 h
    rw [List.length_singleton] at hlt
    exact .inr ⟨by omega, by rw [← he, List.getElem_singleton]⟩

/-- One attempt more: the closures that get a new meaning are its own. -/
theorem Inv.append (h : s.Inv) {cb : Nat → Closure} {a : Attempt} (hs : a.Shape)
    (hu : ∀ r, s.loop.made ≤ r → cb r = .user)
    (ht : ∀ fd info, s.loop.disp.timers.lookup fd = some info →
      cb info.callback = s.callback info.callback ∨ (cb info.callback).state = some
        s.attempts.length ∧ ∃ n, TimerOf { s with callback := cb, attempts := s.attempts ++ [a] }
          fd info s.attempts.length a n)
    (hc : ∀ fd r, s.loop.disp.callbacks.lookup fd = some r →
      cb r = s.callback r ∨ (cb r).state = some s.attempts.length ∧
        SockOf { s with callback := cb, attempts := s.attempts ++ [a] } fd r s.attempts.length a)
    (hh : ∀ fd, a.sock = .held fd → (s.loop.fds fd).any Desc.isUser = true ∧ ¬ s.Holds fd) :
    Inv { s with callback := cb, attempts := s.attempts ++ [a] } := by
  have hold {j : Nat} {b : Attempt} (hb : s.attempts[j]? = some b) :
      (s.attempts ++ [a])[j]? = some b :=
    (List.getElem?_append_left (List.getElem?_eq_some_iff.1 hb).1).trans hb
  refine ⟨h.loop, hu, fun fd info j hl hj => ?_, fun fd r j hl hj => ?_, fun fd hf => ?_,
    fun j j' b b' fd hb hb' hf hf' => ?_, fun b hb => ?_⟩
  · rcases ht fd info hl with e | ⟨e, n, ht⟩
    · obtain ⟨b, n, hb⟩ := h.timeout fd info j hl (e ▸ hj)
      exact ⟨b, n, hold hb.attempt, e.trans hb.callback, hb.oneShot, hb.timer, hb.pending⟩
    · cases e.symm.trans hj
      exact ⟨a, n, ht⟩
  · rcases hc fd r hl with e | ⟨e, hc⟩
    · obtain ⟨b, hb⟩ := h.connected fd r j hl (e ▸ hj)
      exact ⟨b, hold hb.attempt, e.trans hb.callback, hb.pending, hb.sock, hb.handle, hb.interest⟩
    · cases e.symm.trans hj
      exact ⟨a, hc⟩
  · obtain ⟨j, b, hb, hbf⟩ := hf
    rcases getElem?_append_singleton hb with hb | ⟨-, rfl⟩
    · exact h.held fd ⟨j, b, hb, hbf⟩
    · exact (hh fd hbf).1
  · rcases getElem?_append_singleton hb with hb | ⟨e, ea⟩
    · rcases getElem?_append_singleton hb' with hb' | ⟨-, ea'⟩
      · exact h.inj j j' b b' fd hb hb' hf hf'
      · exact absurd ⟨j, b, hb, hf⟩ (hh fd (ea' ▸ hf')).2
    · rcases getElem?_append_singleton hb' with hb' | ⟨e', -⟩
      · exact absurd ⟨j', b', hb', hf'⟩ (hh fd (ea ▸ hf)).2
      · exact e.trans e'.symm
  · rcases List.mem_append.1 hb with hb | hb
    · exact h.shape b hb
    · rw [List.mem_singleton.1 hb]; exact hs

/-- `Connector::connect` fails. -/
theorem Inv.failed (h : s.Inv) (ec : ErrorCode) :
    Inv { s with attempts := s.attempts ++ [⟨.closed, none, true, [.error ec]⟩] } :=
  h.append ⟨nofun, fun _ => .inr ⟨ec, rfl, rfl⟩⟩ h.user
    (fun _ _ _ => .inl rfl) (fun _ _ _ => .inl rfl) nofun

/-- Registrations `t` and `t'` become the closures of a new attempt. -/
theorem Inv.started (h : s.Inv) {t t' : Nat} {fd id : Fd} (ht' : t' = t + 1)
    (ht : s.loop.made = t' + 1)
    (htimer : ∀ fd' info, s.loop.disp.timers.lookup fd' = some info →
      info.callback < t ∨ info.callback = t ∧ fd' = id ∧ info.repeating = false)
    (hsock : ∀ fd' r, s.loop.disp.callbacks.lookup fd' = some r →
      r < t ∨ r = t' ∧ fd' = fd ∧ (s.loop.disp.interest.lookup fd).isSome = true)
    (hfd : (s.loop.fds fd).any Desc.isUser = true) (hnew : ¬ s.Holds fd) :
    Inv { s with
      callback := Function.update (Function.update s.callback t (.timeout s.attempts.length fd))
        t' (.connected s.attempts.length)
      attempts := s.attempts ++ [⟨.held fd, some id, false, []⟩] } := by
  have hother {r : Nat} (h1 : r ≠ t) (h2 : r ≠ t') :
      Function.update (Function.update s.callback t (.timeout s.attempts.length fd)) t'
        (.connected s.attempts.length) r = s.callback r :=
    (Function.update_of_ne h2 ..).trans (Function.update_of_ne h1 ..)
  have htime : Function.update (Function.update s.callback t (.timeout s.attempts.length fd))
      t' (.connected s.attempts.length) t = .timeout s.attempts.length fd :=
    (Function.update_of_ne (by omega) ..).trans (Function.update_self ..)
  have hlast {a : Attempt} : (s.attempts ++ [a])[s.attempts.length]? = some a :=
    List.getElem?_concat_length
  refine h.append ⟨fun _ => rfl, nofun⟩ (fun r hr => ?_) (fun fd' info hl => ?_)
    (fun fd' r hl => ?_) ?_
  · exact (hother (by omega) (by omega)).trans (h.user r hr)
  · rcases htimer fd' info hl with hlt | ⟨e, rfl, hrep⟩
    · exact .inl (hother (by omega) (by omega))
    · rw [e, htime]
      exact .inr ⟨rfl, fd, hlast, e ▸ htime, hrep, rfl, .inl ⟨rfl, rfl⟩⟩
  · rcases hsock fd' r hl with hlt | ⟨rfl, rfl, hint⟩
    · exact .inl (hother (by omega) (by omega))
    · rw [Function.update_self]
      exact .inr ⟨rfl, hlast, Function.update_self .., rfl, rfl, rfl, hint⟩
  · rintro _ ⟨⟩
    exact ⟨hfd, hnew⟩

theorem step_openFd {l l' : PollLoop} {fd : Fd} (he : l.step (.openFd fd) = some l') :
    l.fds fd = none ∧ l'.disp = l.disp ∧ l'.made = l.made ∧ l'.fds fd = some (.user l.opened) := by
  cases (PollLoop.step_view he).2 with
  | openFd _ hf => exact ⟨hf, rfl, rfl, Function.update_self ..⟩

theorem step_schedule {l l' : PollLoop} {timeout : Int} {rep : Bool} {tfd : Option Fd}
    {ctl : Bool} (he : l.step (.schedule timeout rep tfd ctl) = some l') :
    l'.disp = (l.disp.scheduleTimer timeout rep l.made tfd ctl).1 ∧ l'.made = l.made + 1 ∧
      ∀ fd k, l.fds fd = some (.user k) → l'.fds fd = some (.user k) := by
  have he' : l' = l.schedule timeout rep tfd ctl := by
    replace he : (if l.dangling then none
      else if tfd.bind l.fds = none then some (l.schedule timeout rep tfd ctl) else none) =
        some l' := he
    split at he
    · cases he
    · split at he
      · exact (Option.some.inj he).symm
      · cases he
  refine ⟨by rw [he']; rfl, by rw [he']; rfl, fun fd k hk => ?_⟩
  cases (PollLoop.step_view he).2 with
  | scheduled _ _ fd' _ hf =>
    have hne : fd ≠ fd' := by rintro rfl; cases hf.symm.trans hk
    exact (Function.update_of_ne hne ..).trans hk
  | notScheduled => exact hk

theorem Inv.connect (h : s.Inv) {fd : Fd} {timeout : Int} {tfd : Option Fd}
    {ctlTimer ctl : Bool} (he : s.connect fd timeout tfd ctlTimer ctl = some s') : s'.Inv := by
  unfold ConnectLoop.connect at he
  obtain ⟨l₁, h₁, he⟩ := Option.bind_eq_some_iff.1 he
  obtain ⟨l₂, h₂, he⟩ := Option.bind_eq_some_iff.1 he
  obtain ⟨l₃, h₃, he⟩ := Option.bind_eq_some_iff.1 he
  cases he
  -- the three calls are like anybody's; only then the registrations get their meaning
  obtain ⟨hfree, hd₁, hm₁, hfd₁⟩ := step_openFd h₁
  obtain ⟨hd₂, hm₂, hfd₂⟩ := step_schedule h₂
  have hnew : ¬ s.Holds fd := fun hh => h.held_ne hh (by rw [hfree]; rfl) rfl
  have hI₁ := h.keep (h.keeps_foreign rfl h₁)
  have hI₂ := hI₁.keep (hI₁.keeps_foreign rfl h₂)
  have hadd : foreign { s with loop := l₂ } (.add fd .writable ctl) = true := by
    refine List.all_eq_true.2 fun a ha => decide_eq_true fun hs => hnew ?_
    obtain ⟨j, hj⟩ := List.mem_iff_getElem?.1 ha
    exact ⟨j, a, hj, hs⟩
  have hI₃ := hI₂.keep (hI₂.keeps_foreign hadd h₃)
  cases (PollLoop.step_view h₃).2 with
  | add =>
    refine hI₃.started hm₂ rfl (fun fd' info hl => ?_) (fun fd' r hl => ?_) ?_ hnew
    · rw [Epoll.add_timers, hd₂] at hl
      rcases Epoll.lookup_scheduleTimer hl with ⟨e, hcb, hrep⟩ | hl
      · exact .inr ⟨hcb, e, hrep⟩
      · exact .inl ((hI₁.loop.before fd').timer info hl)
    · rcases Epoll.lookup_callbacks_add hl with ⟨rfl, rfl, hint⟩ | hl
      · exact .inr ⟨rfl, rfl, Option.isSome_iff_exists.2 ⟨_, hint⟩⟩
      · rw [hd₂, Epoll.scheduleTimer_callbacks] at hl
        exact .inl ((hI₁.loop.before fd').sock r hl)
    · rw [show l₂.fds fd = _ from hfd₂ fd _ hfd₁]
      rfl

/-! ## Runs -/

theorem Inv.called (h : s.Inv) {fd : Fd} {g : Nat} {rest : List (Fd × Nat)}
    (hb : s.loop.batch = (fd, g) :: rest) (he : s.loop.step .dispatch = some l)
    (so : Except Int Int) : (called { s with loop := l } fd so).Inv := by
  have hk := h.keep (h.keeps_dispatch he)
  cases (PollLoop.step_view he).2 with
  | timer fd' g' rest' info hr hb' hi =>
    unfold ConnectLoop.called
    simp only
    split
    · rename_i j n hc
      exact hk.onTimeout rfl hi hc
    · exact hk
  | sock fd' g' rest' r hr hb' hi =>
    cases hb.symm.trans hb'
    unfold ConnectLoop.called
    simp only
    split
    · rename_i j hc
      exact hk.onEvent hi hc so
    · exact hk
  | skip fd' g' rest' hr hb' =>
    unfold ConnectLoop.called
    simp only [hr]
    rw [hr] at hk
    exact hk

theorem step_inv {a : Act} (h : s.Inv) (he : s.step a = some s') : s'.Inv := by
  cases a with
  | connect create applyTo rc timeout tfd ctlTimer ctl =>
    simp only [step] at he
    split at he
    · cases he; exact h.failed _
    · exact h.connect he
  | dispatch so =>
    simp only [step] at he
    split at he
    · cases he
    · rename_i fd g rest hb
      obtain ⟨l, hl, rfl⟩ := Option.map_eq_some_iff.1 he
      exact h.called hb hl so
  | callbackReturn =>
    simp only [step] at he
    split at he
    · rename_i l hl
      split at he
      · cases he
      · rename_i hd
        cases he
        exact h.keep (h.keeps_callbackReturn hl (Bool.eq_false_of_not_eq_true hd))
    · cases he
  | destroy j =>
    simp only [step] at he
    split at he
    · rename_i a ha
      split at he
      · rename_i hg
        cases he
        exact h.destroy ha hg.1
      · cases he
    · cases he
  | other a =>
    simp only [step] at he
    split at he
    · rename_i hf
      obtain ⟨l, hl, rfl⟩ := Option.map_eq_some_iff.1 he
      exact h.keep (h.keeps_foreign hf hl)
    · cases he

theorem reach_inv (h : machine.Reach s) : s.Inv :=
  h.inv (I := Inv) (fun s (hs : s = start) => hs ▸ start_inv) fun _ _ _ _ hi _ he =>
    step_inv hi he

/-- A completed attempt whose closure is not running has none in the dispatcher. -/
theorem Inv.owned_eq_false (h : s.Inv) {j : Nat} {a : Attempt} (ha : s.attempts[j]? = some a)
    (hc : a.completed = true) (hr : s.runningFor ≠ some j) : s.owned j = false := by
  refine Bool.or_eq_false_iff.2 ⟨List.any_eq_false.2 fun e he hj => ?_,
    List.any_eq_false.2 fun e he hj => ?_⟩
  · replace hj := of_decide_eq_true hj
    obtain ⟨b, n, hb⟩ := h.timeout e.1 e.2 j (AList.mem_lookup_iff.2 he) hj
    cases ha.symm.trans hb.attempt
    rcases hb.pending with ⟨hp, -⟩ | ⟨-, g, hg⟩
    · cases hc.symm.trans hp
    · refine hr ?_
      rw [runningFor, hg]
      exact hj
  · obtain ⟨b, hb⟩ := h.connected e.1 e.2 j (AList.mem_lookup_iff.2 he) (of_decide_eq_true hj)
    cases ha.symm.trans hb.attempt
    cases hc.symm.trans hb.pending

/-- **Asynchronous connect.** In every run the callback of an attempt is called at most
once. Once it has been called and `poll` is out of the closure that did, no closure of the
attempt is in the dispatcher, a registration there may be under its number is somebody
else's, and the socket was moved into the result if that is a success and closed if it is an
error. -/
theorem connect_async_once (h : machine.Reach s) {j : Nat} {a : Attempt}
    (ha : s.attempts[j]? = some a) :
    a.results.length ≤ 1 ∧
    (a.results ≠ [] → s.runningFor ≠ some j →
      s.owned j = false ∧
      (∀ fd, (s.loop.disp.interest.lookup fd).isSome = true →
        ∃ r, s.loop.disp.callbacks.lookup fd = some r ∧ (s.callback r).state ≠ some j) ∧
      (a.results = [.ok ()] ∧ a.sock = .moved ∨
        ∃ ec, a.results = [.error ec] ∧ a.sock = .closed)) := by
  have hi := reach_inv h
  have hs := hi.shape a (List.mem_of_getElem? ha)
  cases hc : a.completed with
  | false =>
    have hnil := hs.pending hc
    exact ⟨by rw [hnil]; exact Nat.zero_le _, fun hne => absurd hnil hne⟩
  | true =>
    refine ⟨?_, fun _ hr => ?_⟩
    · rcases hs.done hc with ⟨e, -⟩ | ⟨ec, e, -⟩ <;> rw [e] <;> exact Nat.le_refl _
    · have ho := hi.owned_eq_false ha hc hr
      refine ⟨ho, fun fd hf => ?_, hs.done hc⟩
      obtain ⟨r, hl⟩ := Option.isSome_iff_exists.1 (hi.loop.regs fd hf)
      exact ⟨r, hl, (not_owned ho).2 fd r hl⟩

/-- The timer and the descriptor have an event in one batch; from the user's callback a second
attempt is started, whose socket gets the same number. -/
theorem connect_async_once_same_batch :
    ∃ s, machine.Reach s ∧ (s.attempts.length = 2 ∧ s.runningFor = none ∧
      s.loop.numbers = [5]) ∧ ∃ a, s.attempts[0]? = some a ∧ a.results ≠ [] ∧
        a.results.length ≤ 1 ∧ s.owned 0 = false := by
  obtain ⟨s, h, hp⟩ := Machine.Reach.of_run_init (M := machine)
    (fun s => decide (s.attempts.length = 2 ∧ s.runningFor = none ∧ s.loop.numbers = [5] ∧
      s.attempts[0]?.any (fun a => a.results ≠ []) = true))
    [.connect (.ok 5) (.ok ()) (some 115) 3000 (some 6) true true, .other (.expire 6),
      .other (.wait [6, 5]), .dispatch (.ok 0),
      .connect (.ok 5) (.ok ()) (some 115) 3000 (some 7) true true, .callbackReturn]
    rfl (by decide)
  obtain ⟨hn, hr, hb, hres⟩ := of_decide_eq_true hp
  cases ha : s.attempts[0]? with
  | none => rw [ha] at hres; cases hres
  | some a =>
    rw [ha] at hres
    have hne : a.results ≠ [] := of_decide_eq_true hres
    have hone := connect_async_once h ha
    exact ⟨s, h, ⟨hn, hr, hb⟩, a, ha, hne, hone.1, (hone.2 hne (by rw [hr]; rintro ⟨⟩)).1⟩

end ConnectLoop

end Socketpp
