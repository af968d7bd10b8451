import Socketpp.Event.StopSequence
import Socketpp.High.DgramSockets
import Socketpp.High.PeerClaims

/-!
# Destroying a datagram socket

`do_destroy` (`src/high/dgram.cpp`) posts a task that relinquishes every claimed
peer, posts one that calls `stop`, calls `stop` itself and joins the background
thread. Up to then peers are claimed, armed and relinquished by other threads;
their tasks take effect on the loop thread. The loop and the posts of the
destroying thread are `StopRun`; here the tasks get their meaning for the table
of peers. A task takes effect in one step while its callback runs. Seen from the
peers alone a step is a run of `PeerClaims` (`step_claims`).

`run` tests the flag before it drains the posts, so the direct `stop` may keep the
first task from running at all (`peer_left_open`). `Covered` says that it will run
before the flag is tested again.
-/

namespace Socketpp

/-- A task posted to the loop. -/
inductive DgramTask where
  /-- `execute_claim` -/
  | claim (p : Nat)
  | arm (p : Nat) (fd : Fd)
  /-- one that concerns neither the peers nor their sockets: `pause`, `defer`, `post`, … -/
  | other
  /-- the first task of `do_destroy` -/
  | relinquishAll
  /-- the second -/
  | stop
  deriving DecidableEq, Repr

/-- What `do_destroy` posts. -/
def destroyTasks : List DgramTask := [.relinquishAll, .stop]

structure DgramDestroy (A ι : Type) where
  table : PeerTable A
  loop : StopRun ι DgramTask
  /-- the callback on the loop thread has had its effect -/
  performed : Bool
  /-- the first task of `do_destroy` has had its effect -/
  relinquished : Bool

namespace DgramDestroy

variable {A ι : Type}

def start [Inhabited A] : DgramDestroy A ι where
  table := .start
  loop := .start destroyTasks
  performed := true
  relinquished := false

/-- `do_destroy` is not called yet. -/
def InUse (s : DgramDestroy A ι) : Prop := s.loop.pc = .posting destroyTasks

inductive Act (A ι : Type) where
  /-- the destroying thread's next step -/
  | destroy
  /-- a step of the loop thread, or the `wake` of a thread in `post` -/
  | loop (a : RunLoop.Act ι DgramTask)
  /-- the callback takes effect, with the operating system's answers -/
  | perform (sock : Except ClaimError Fd) (ctl : Bool)
  | claim (i : ι) (a : A)
  | arm (i : ι) (p : Nat)
  | post (i : ι)
  | relinquish (p : Nat)
  /-- the parent reads a datagram from `a` -/
  | datagram (a : A)

/-- A callback returns after its effect, and only that of the second task calls `stop`. Other
threads post by the calls below. -/
def Allows (s : DgramDestroy A ι) : RunLoop.Act ι DgramTask → Prop
  | .push _ _ => False
  | .store t => t = none ∧ s.loop.run.pc = .callback .stop
  | .fnReturn => s.performed = true
  | .wake _ | .enter | .reset | .test | .swap | .call | .enterPoll | .pollReturn _ | .pollError
  | .event | .eventReturn | .endBatch => True

variable [DecidableEq ι]

instance (s : DgramDestroy A ι) :
    (a : RunLoop.Act ι DgramTask) → Decidable (s.Allows a)
  | .push _ _ => isFalse id
  | .store t => inferInstanceAs (Decidable (t = none ∧ s.loop.run.pc = .callback .stop))
  | .fnReturn => inferInstanceAs (Decidable (s.performed = true))
  | .wake _ | .enter | .reset | .test | .swap | .call | .enterPoll | .pollReturn _ | .pollError
  | .event | .eventReturn | .endBatch => isTrue trivial

/-- `performed` after an action on the loop. -/
def performs (b : Bool) : RunLoop.Act ι DgramTask → Bool
  | .call => false
  | _ => b

variable [DecidableEq A]

/-- The effect of a task. -/
def perform (demux : Bool) (s : DgramDestroy A ι) (sock : Except ClaimError Fd) (ctl : Bool) :
    DgramTask → Option (DgramDestroy A ι)
  | .claim p =>
    if s.table.SockFree sock then
      match s.table.executeClaim demux p sock with
      | .ok t => some { s with table := t, performed := true }
      | .error _ => some { s with performed := true }
    else none
  | .arm p fd =>
    if ctl = true → s.table.disp.interest.lookup fd = none then
      some { s with table := { s.table with disp := s.table.disp.add fd .readable p ctl }
                    performed := true }
    else none
  | .other | .stop => some { s with performed := true }
  | .relinquishAll =>
    some { s with table := s.table.relinquishAll demux, performed := true, relinquished := true }

/-- The lazy cleanup of `handle_readable`. -/
def handleDatagram (s : DgramDestroy A ι) (a : A) : DgramDestroy A ι :=
  match s.table.claimedPeers.lookup a with
  | none => s
  | some p =>
    if (s.table.peers p).isOpen then s else { s with table := s.table.eraseEntry a }

instance (s : DgramDestroy A ι) : Decidable s.InUse :=
  inferInstanceAs (Decidable (_ = _))

/-- Thread `i` posts a task. -/
def push (td : ι) (s : DgramDestroy A ι) (i : ι) (t : DgramTask) : Option (DgramDestroy A ι) :=
  (s.loop.step td .stop (.run (.push (some i) t))).map fun r => { s with loop := r }

def step (demux : Bool) (td : ι) (s : DgramDestroy A ι) : Act A ι → Option (DgramDestroy A ι)
  | .destroy => (s.loop.step td .stop .teardown).map fun r => { s with loop := r }
  | .loop a =>
    if s.Allows a then
      (s.loop.step td .stop (.run a)).map fun r =>
        { s with loop := r, performed := performs s.performed a }
    else none
  | .perform sock ctl =>
    match s.loop.run.pc with
    | .callback t => if s.performed then none else s.perform demux sock ctl t
    | _ => none
  | .claim i a =>
    if s.InUse then { s with table := s.table.create a }.push td i (.claim s.table.made) else none
  | .arm i p =>
    if s.InUse ∧ demux = true then
      match (s.table.peers p).sock with
      | some fd => s.push td i (.arm p fd)
      | none => none
    else none
  | .post i => s.push td i .other
  | .relinquish p =>
    if s.InUse ∧ (s.table.peers p).claimed = true then
      some { s with table := s.table.doRelinquish demux p }
    else none
  | .datagram a =>
    match s.loop.run.pc with
    | .dispatch _ => some (s.handleDatagram a)
    | _ => none

/-- A datagram socket that thread `td` destroys. -/
def machine (A : Type) [DecidableEq A] [Inhabited A] (demux : Bool) (td : ι) :
    Machine (DgramDestroy A ι) (Act A ι) where
  Init s := s = start
  step := step demux td

variable {demux : Bool} {td : ι} {s s' : DgramDestroy A ι} {a : Act A ι}

/-- The loop after an action of a thread other than the destroying one. -/
def afterRun (l : StopRun ι DgramTask) (a : RunLoop.Act ι DgramTask) (r : RunLoop ι DgramTask) :
    StopRun ι DgramTask :=
  { l with run := r, entered := l.entered || StopRun.enters a, stopped := l.marks a }

/-- **Every step**: what it finds and what it leaves. -/
inductive StepView (demux : Bool) (td : ι) (s : DgramDestroy A ι) :
    Act A ι → DgramDestroy A ι → Prop where
  | destroy (b : RunLoop.Act ι DgramTask) (pc : StopPc DgramTask) (r : RunLoop ι DgramTask)
      (hn : StopRun.next td s.loop.pc = some (b, pc)) (hr : s.loop.run.step b = some r) :
      StepView demux td s .destroy { s with loop := { s.loop with run := r, pc := pc } }
  | loop (b : RunLoop.Act ι DgramTask) (r : RunLoop ι DgramTask) (ha : s.Allows b)
      (hr : s.loop.run.step b = some r) : StepView demux td s (.loop b)
      { s with loop := afterRun s.loop b r, performed := performs s.performed b }
  | grant (p : Nat) (sock : Except ClaimError Fd) (ctl : Bool) (t : PeerTable A)
      (hp : s.loop.run.pc = .callback (.claim p)) (hu : s.performed = false)
      (hf : s.table.SockFree sock) (hc : s.table.executeClaim demux p sock = .ok t) :
      StepView demux td s (.perform sock ctl) { s with table := t, performed := true }
  | register (p : Nat) (fd : Fd) (sock : Except ClaimError Fd) (ctl : Bool)
      (hp : s.loop.run.pc = .callback (.arm p fd)) (hu : s.performed = false) :
      StepView demux td s (.perform sock ctl)
        { s with table := { s.table with disp := s.table.disp.add fd .readable p ctl }
                 performed := true }
  | nothing (t : DgramTask) (sock : Except ClaimError Fd) (ctl : Bool)
      (hp : s.loop.run.pc = .callback t) (hu : s.performed = false) (ht : t ≠ .relinquishAll) :
      StepView demux td s (.perform sock ctl) { s with performed := true }
  | relinquishAll (sock : Except ClaimError Fd) (ctl : Bool)
      (hp : s.loop.run.pc = .callback .relinquishAll) (hu : s.performed = false) :
      StepView demux td s (.perform sock ctl)
        { s with table := s.table.relinquishAll demux, performed := true, relinquished := true }
  | claim (i : ι) (a : A) (r : RunLoop ι DgramTask) (hu : s.InUse)
      (hr : s.loop.run.step (.push (some i) (.claim s.table.made)) = some r) :
      StepView demux td s (.claim i a)
        { s with table := s.table.create a
                 loop := afterRun s.loop (.push (some i) (.claim s.table.made)) r }
  | arm (i : ι) (p : Nat) (fd : Fd) (r : RunLoop ι DgramTask) (hu : s.InUse)
      (hr : s.loop.run.step (.push (some i) (.arm p fd)) = some r) :
      StepView demux td s (.arm i p)
        { s with loop := afterRun s.loop (.push (some i) (.arm p fd)) r }
  | post (i : ι) (r : RunLoop ι DgramTask)
      (hr : s.loop.run.step (.push (some i) .other) = some r) :
      StepView demux td s (.post i) { s with loop := afterRun s.loop (.push (some i) .other) r }
  | relinquish (p : Nat) (hu : s.InUse) (hc : (s.table.peers p).claimed = true) :
      StepView demux td s (.relinquish p) { s with table := s.table.doRelinquish demux p }
  | ignore (a : A) : StepView demux td s (.datagram a) s
  | erase (a : A) (p : Nat) (he : s.table.claimedPeers.lookup a = some p)
      (ho : (s.table.peers p).isOpen = false) :
      StepView demux td s (.datagram a) { s with table := s.table.eraseEntry a }

omit [DecidableEq A] in
theorem push_cases {i : ι} {t : DgramTask} (he : s.push td i t = some s') :
    ∃ r, s.loop.run.step (.push (some i) t) = some r ∧
      s' = { s with loop := afterRun s.loop (.push (some i) t) r } := by
  obtain ⟨l, hl, rfl⟩ := Option.map_eq_some_iff.1 he
  simp only [StopRun.step] at hl
  split at hl
  · obtain ⟨r, hr, rfl⟩ := Option.map_eq_some_iff.1 hl
    exact ⟨r, hr, rfl⟩
  · cases hl

theorem perform_view {sock : Except ClaimError Fd} {ctl : Bool} {t : DgramTask}
    (hp : s.loop.run.pc = .callback t) (hu : s.performed = false)
    (he : s.perform demux sock ctl t = some s') : StepView demux td s (.perform sock ctl) s' := by
  cases t with
  | claim p =>
    simp only [perform] at he
    split at he
    · rename_i hf
      split at he
      · rename_i t hc; cases he; exact .grant p sock ctl t hp hu hf hc
      · cases he; exact .nothing _ sock ctl hp hu nofun
    · cases he
  | arm p fd =>
    simp only [perform] at he
    split at he
    · cases he; exact .register p fd sock ctl hp hu
    · cases he
  | other => cases he; exact .nothing _ sock ctl hp hu nofun
  | stop => cases he; exact .nothing _ sock ctl hp hu nofun
  | relinquishAll => cases he; exact .relinquishAll sock ctl hp hu

theorem step_view (he : step demux td s a = some s') : StepView demux td s a s' := by
  cases a with
  | destroy =>
    obtain ⟨l, hl, rfl⟩ := Option.map_eq_some_iff.1 he
    obtain ⟨⟨b, pc⟩, hn, hl⟩ := Option.bind_eq_some_iff.1 hl
    obtain ⟨r, hr, rfl⟩ := Option.map_eq_some_iff.1 hl
    exact .destroy b pc r hn hr
  | loop b =>
    simp only [step] at he
    split at he
    · rename_i ha
      obtain ⟨l, hl, rfl⟩ := Option.map_eq_some_iff.1 he
      simp only [StopRun.step] at hl
      split at hl
      · obtain ⟨r, hr, rfl⟩ := Option.map_eq_some_iff.1 hl
        exact .loop b r ha hr
      · cases hl
    · cases he
  | perform sock ctl =>
    simp only [step] at he
    split at he
    · rename_i t hp
      split at he
      · cases he
      · rename_i hu; exact perform_view hp (Bool.eq_false_of_not_eq_true hu) he
    · cases he
  | claim i a =>
    simp only [step] at he
    split at he
    · rename_i hu
      obtain ⟨r, hr, rfl⟩ := push_cases he
      exact .claim i a r hu hr
    · cases he
  | arm i p =>
    simp only [step] at he
    split at he
    · rename_i hu
      split at he
      · rename_i fd hs
        obtain ⟨r, hr, rfl⟩ := push_cases he
        exact .arm i p fd r hu.1 hr
      · cases he
    · cases he
  | post i =>
    obtain ⟨r, hr, rfl⟩ := push_cases he
    exact .post i r hr
  | relinquish p =>
    simp only [step] at he
    split at he
    · rename_i hu; cases he; exact .relinquish p hu.1 hu.2
    · cases he
  | datagram a =>
    simp only [step] at he
    split at he
    · cases he
      unfold handleDatagram
      split
      · exact .ignore a
      · rename_i p hp
        split
        · exact .ignore a
        · rename_i ho
          exact .erase a p hp (Bool.eq_false_of_not_eq_true ho)
    · cases he

/-! ## The tasks still to take effect -/

/-- The callback on the loop thread, before its effect. -/
def current : RunPc DgramTask → Bool → List DgramTask
  | .callback t, false => [t]
  | .callback _, true => []
  | .out, _ | .reset, _ | .test, _ | .drain, _ | .callbacks, _ | .poll, _ | .batch _, _
  | .dispatch _, _ => []

/-- The tasks still to take effect, in order. -/
def todo (r : RunLoop ι DgramTask) (performed : Bool) : List DgramTask :=
  current r.pc performed ++ r.queue.pending

omit [DecidableEq A] in
theorem todo_push {r r' : RunLoop ι DgramTask} {i : Option ι} {t : DgramTask}
    (he : r.step (.push i t) = some r') (b : Bool) : todo r' b = todo r b ++ [t] := by
  cases RunLoop.step_view he with
  | push _ _ hm =>
    show current r.pc b ++ (r.queue.post [t]).pending = _
    rw [PostQueue.pending_post, todo, List.append_assoc]

omit [DecidableEq A] in
/-- The loop thread takes tasks and runs callbacks in the order they were posted. -/
theorem todo_loop {b : RunLoop.Act ι DgramTask} {r : RunLoop ι DgramTask} (ha : s.Allows b)
    (he : s.loop.run.step b = some r) :
    todo r (performs s.performed b) = todo s.loop.run s.performed := by
  cases RunLoop.step_view he with
  | push t fn hm => cases ha
  | store t hm => rfl
  | wake t ho => rfl
  | swap q hp hq => rw [todo, todo, hp, ← PostQueue.pending_swap hq]; rfl
  | call fn q hp hq => rw [todo, todo, hp, PostQueue.pending_next hq]; rfl
  | fnReturn fn hp ho =>
    have hperf : s.performed = true := ha
    rw [todo, todo, hp, hperf]
    rfl
  | enterPoll q hp hq => rw [todo, todo, hp, ← PostQueue.pending_enterPoll hq]; rfl
  | enter hp | reset hp | exit hp hs | iterate hp hs | pollReturn events hp hw | pollError hp
  | drainWaker events hp | dispatch events hp | eventReturn events hp ho | endBatch hp =>
    rw [todo, todo, hp]
    rfl

/-- A task that leaves the peers and their sockets alone. -/
def Harmless (t : DgramTask) : Prop := t = .stop ∨ t = .other

/-- How far `do_destroy` has come, with the tasks still to take effect. -/
inductive Stage (pc : StopPc DgramTask) : Bool → List DgramTask → Prop where
  | inUse {l : List DgramTask} (hpc : pc = .posting destroyTasks) (hr : .relinquishAll ∉ l)
      (hs : .stop ∉ l) : Stage pc false l
  | posted {l l' : List DgramTask} (hpc : pc.rest = [.stop] ∨ pc.rest = [])
      (hr : .relinquishAll ∉ l) (hs : .stop ∉ l) (hl : ∀ t ∈ l', Harmless t) :
      Stage pc false (l ++ .relinquishAll :: l')
  | relinquished {l : List DgramTask} (hpc : pc.rest = [.stop] ∨ pc.rest = [])
      (hl : ∀ t ∈ l, Harmless t) : Stage pc true l

section Stages

variable {pc pc' : StopPc DgramTask} {b : Bool} {l : List DgramTask} {t : DgramTask}

theorem rest_ne_destroyTasks (h : pc.rest = [.stop] ∨ pc.rest = []) :
    pc ≠ .posting destroyTasks := by
  rintro rfl
  rcases h with h | h <;> cases h

theorem harmless_concat (hl : ∀ t ∈ l, Harmless t) (ht : Harmless t) :
    ∀ x ∈ l ++ [t], Harmless x := fun x hx => by
  rcases List.mem_append.1 hx with hx | hx
  · exact hl x hx
  · exact List.mem_singleton.1 hx ▸ ht

/-- A thread posts a task while the socket is in use, or a harmless one at any time. -/
theorem Stage.push (h : Stage pc b l) (ht : t ≠ .relinquishAll ∧ t ≠ .stop)
    (hh : pc = .posting destroyTasks ∨ Harmless t) : Stage pc b (l ++ [t]) := by
  cases h with
  | inUse hpc hr hs =>
    refine .inUse hpc ?_ ?_ <;> rw [List.mem_append, List.mem_singleton]
    · exact not_or.2 ⟨hr, Ne.symm ht.1⟩
    · exact not_or.2 ⟨hs, Ne.symm ht.2⟩
  | @posted l l' hpc hr hs hl =>
    have hharm := hh.resolve_left (rest_ne_destroyTasks hpc)
    rw [List.append_assoc, List.cons_append]
    exact .posted hpc hr hs (harmless_concat hl hharm)
  | relinquished hpc hl =>
    have hharm := hh.resolve_left (rest_ne_destroyTasks hpc)
    exact .relinquished hpc (harmless_concat hl hharm)

/-- The task at the front takes effect. -/
theorem Stage.perform (h : Stage pc b (t :: l)) (ht : t ≠ .relinquishAll) : Stage pc b l := by
  generalize hm : t :: l = m at h
  cases h with
  | inUse hpc hr hs =>
    subst hm
    exact .inUse hpc (fun h => hr (List.mem_cons_of_mem _ h)) fun h => hs (List.mem_cons_of_mem _ h)
  | @posted k k' hpc hr hs hl =>
    cases k with
    | nil => exact absurd (List.cons.inj hm).1 ht
    | cons x k =>
      obtain ⟨-, rfl⟩ := List.cons.inj hm
      exact .posted hpc (fun h => hr (List.mem_cons_of_mem _ h))
        (fun h => hs (List.mem_cons_of_mem _ h)) hl
  | relinquished hpc hl =>
    subst hm
    exact .relinquished hpc fun t' ht' => hl t' (List.mem_cons_of_mem _ ht')

theorem Stage.relinquishAll (h : Stage pc b (.relinquishAll :: l)) : Stage pc true l := by
  generalize hm : DgramTask.relinquishAll :: l = m at h
  cases h with
  | inUse hpc hr hs => subst hm; exact absurd List.mem_cons_self hr
  | @posted k k' hpc hr hs hl =>
    cases k with
    | nil =>
      obtain ⟨-, rfl⟩ := List.cons.inj hm
      exact .relinquished hpc hl
    | cons x k => exact absurd ((List.cons.inj hm).1 ▸ List.mem_cons_self) hr
  | relinquished hpc hl =>
    subst hm
    exact absurd (hl _ List.mem_cons_self) (by rintro (h | h) <;> cases h)

/-- What an action posts. -/
def pushes : RunLoop.Act ι DgramTask → List DgramTask
  | .push _ t => [t]
  | _ => []

/-- The destroying thread posts nothing. -/
theorem Stage.move (h : Stage pc b l) (hpc : pc ≠ .posting destroyTasks)
    (hrest : pc'.rest = pc.rest) : Stage pc' b l := by
  cases h with
  | inUse hpc' hr hs => exact absurd hpc' hpc
  | posted hpc' hr hs hl => exact .posted (hrest ▸ hpc') hr hs hl
  | relinquished hpc' hl => exact .relinquished (hrest ▸ hpc') hl

omit [DecidableEq ι] in
/-- The destroying thread's next step. -/
theorem Stage.next {act : RunLoop.Act ι DgramTask} (h : Stage pc b l)
    (hn : StopRun.next td pc = some (act, pc')) : Stage pc' b (l ++ pushes act) := by
  cases pc with
  | posting fns =>
    cases fns with
    | nil =>
      cases hn
      exact (List.append_nil l).symm ▸ h.move nofun rfl
    | cons f fns =>
      cases hn
      cases h with
      | inUse hpc hr hs =>
        cases hpc
        exact .posted (.inl rfl) hr hs nofun
      | @posted k k' hpc hr hs hl =>
        cases hpc.resolve_right nofun
        rw [pushes, List.append_assoc, List.cons_append]
        exact .posted (.inr rfl) hr hs (harmless_concat hl (.inl rfl))
      | relinquished hpc hl =>
        cases hpc.resolve_right nofun
        exact .relinquished (.inr rfl) (harmless_concat hl (.inl rfl))
  | pushed fns =>
    cases hn
    exact (List.append_nil l).symm ▸ h.move nofun rfl
  | stored =>
    cases hn
    exact (List.append_nil l).symm ▸ h.move nofun rfl
  | done => cases hn

end Stages

/-! ## The peers alone -/

def claimOf : DgramTask → Option Nat
  | .claim p => some p
  | .arm _ _ | .other | .relinquishAll | .stop => none

/-- The peers, with the claims that are still to take effect. -/
def peerClaims (s : DgramDestroy A ι) : PeerClaims A :=
  ⟨s.table, (todo s.loop.run s.performed).filterMap claimOf⟩

omit [DecidableEq ι] in
/-- What the destroying thread's next step is. -/
theorem next_act {pc pc' : StopPc DgramTask} {b : RunLoop.Act ι DgramTask}
    (hn : StopRun.next td pc = some (b, pc')) :
    (∃ f, b = .push (some td) f ∧ f ∈ pc.rest) ∨ (b = .store (some td) ∧ pc = .posting []) ∨
      b = .wake (some td) := by
  cases pc with
  | posting fns =>
    cases fns with
    | nil => cases hn; exact .inr (.inl ⟨rfl, rfl⟩)
    | cons f fns => cases hn; exact .inl ⟨f, rfl, List.mem_cons_self⟩
  | pushed fns => cases hn; exact .inr (.inr rfl)
  | stored => cases hn; exact .inr (.inr rfl)
  | done => cases hn

omit [DecidableEq ι] [DecidableEq A] in
theorem todo_callback {t : DgramTask} (hp : s.loop.run.pc = .callback t)
    (hu : s.performed = false) :
    todo s.loop.run s.performed = t :: s.loop.run.queue.pending := by
  rw [todo, hp, hu]
  rfl

omit [DecidableEq ι] [DecidableEq A] in
theorem todo_performed {t : DgramTask} (hp : s.loop.run.pc = .callback t) :
    todo s.loop.run true = s.loop.run.queue.pending := by
  rw [todo, hp]
  rfl

/-- What the destroying thread has to post contains no claim. -/
def PostsNoClaim (s : DgramDestroy A ι) : Prop := ∀ f ∈ s.loop.pc.rest, claimOf f = none

theorem step_postsNoClaim (h : s.PostsNoClaim) (he : step demux td s a = some s') :
    s'.PostsNoClaim := by
  cases step_view he with
  | destroy b pc r hn hr =>
    intro f hf
    replace hf : f ∈ pc.rest := hf
    refine h f ?_
    cases hpc : s.loop.pc with
    | posting fns =>
      rw [hpc] at hn
      cases fns with
      | nil => cases hn; cases hf
      | cons g fns => cases hn; exact List.mem_cons_of_mem _ hf
    | pushed fns => rw [hpc] at hn; cases hn; exact hf
    | stored => rw [hpc] at hn; cases hn; cases hf
    | done => rw [hpc] at hn; cases hn
  | _ => exact h

section Claims

variable [Inhabited A]

/-- A step seen from the peers is a run of `PeerClaims`. -/
def ClaimsRun (demux : Bool) (s s' : DgramDestroy A ι) : Prop :=
  ∃ as, (PeerClaims.machine A demux).Path (fun _ _ => True) s.peerClaims as s'.peerClaims

omit [DecidableEq ι] in
theorem ClaimsRun.stays (ht : s'.table = s.table)
    (hc : (todo s'.loop.run s'.performed).filterMap claimOf =
      (todo s.loop.run s.performed).filterMap claimOf) : ClaimsRun demux s s' := by
  refine ⟨[], ?_⟩
  rw [peerClaims, peerClaims, ht, hc]
  exact .nil _

omit [DecidableEq ι] in
theorem ClaimsRun.single (b : PeerClaims.Act A)
    (hb : PeerClaims.step demux s.peerClaims b = some s'.peerClaims) : ClaimsRun demux s s' :=
  ⟨[b], .cons trivial hb (.nil _)⟩

/-- A task that is no claim is posted. -/
theorem ClaimsRun.push {r : RunLoop ι DgramTask} {l : StopRun ι DgramTask} {i : Option ι}
    {f : DgramTask} (hr : s.loop.run.step (.push i f) = some r) (hl : l.run = r)
    (hf : claimOf f = none) : ClaimsRun demux s { s with loop := l } := by
  refine .stays rfl ?_
  have hnil : [f].filterMap claimOf = [] := by rw [List.filterMap_cons, hf]; rfl
  show (todo l.run s.performed).filterMap claimOf = _
  rw [hl, todo_push hr, List.filterMap_append, hnil, List.append_nil]

omit [DecidableEq ι] in
/-- The task in front takes effect and is no claim. -/
theorem ClaimsRun.perform {f : DgramTask} {tb : PeerTable A} {x : Bool}
    (hp : s.loop.run.pc = .callback f) (hu : s.performed = false) (hf : claimOf f = none)
    (b : PeerClaims.Act A)
    (hb : PeerClaims.step demux s.peerClaims b = some { s.peerClaims with table := tb }) :
    ClaimsRun demux s { s with table := tb, performed := true, relinquished := x } := by
  refine .single b (hb.trans ?_)
  rw [peerClaims, peerClaims, todo_callback hp hu, List.filterMap_cons, hf]
  simp only [todo_performed hp]

omit [DecidableEq A] [Inhabited A] [DecidableEq ι] in
theorem mem_pending {p : Nat} (hp : s.loop.run.pc = .callback (.claim p))
    (hu : s.performed = false) : p ∈ s.peerClaims.pending := by
  rw [peerClaims, todo_callback hp hu]
  exact List.mem_cons_self

omit [DecidableEq ι] in
/-- The claim in front takes effect. -/
theorem ClaimsRun.claim {p : Nat} {tb : PeerTable A} (hp : s.loop.run.pc = .callback (.claim p))
    (hu : s.performed = false) (b : PeerClaims.Act A)
    (hb : PeerClaims.step demux s.peerClaims b = some ⟨tb, s.peerClaims.pending.erase p⟩) :
    ClaimsRun demux s { s with table := tb, performed := true } := by
  refine .single b (hb.trans ?_)
  have hcl : (todo s.loop.run s.performed).filterMap claimOf =
      p :: s.loop.run.queue.pending.filterMap claimOf := by
    rw [todo_callback hp hu]
    rfl
  rw [peerClaims, peerClaims, hcl, Multiset.coe_erase, List.erase_cons_head]
  simp only [todo_performed hp]

omit [DecidableEq ι] in
/-- `do_relinquish` is its two halves. -/
theorem ClaimsRun.relinquish (hi : s.peerClaims.Inv) {p : Nat}
    (hp : (s.table.peers p).claimed = true) :
    ClaimsRun demux s { s with table := s.table.doRelinquish demux p } := by
  have hnot : p ∉ s.peerClaims.pending := fun hm => by
    cases hp.symm.trans (hi.pending p hm).2.1
  unfold PeerTable.doRelinquish
  split
  · cases demux with
    | true => exact ⟨[.exchangeOpen p, .closeSocket p],
        .cons trivial (if_neg hnot) (.cons trivial rfl (.nil _))⟩
    | false => exact ⟨[.exchangeOpen p], .cons trivial (if_neg hnot) (.nil _)⟩
  · exact .stays rfl rfl

/-- **A step of the teardown is a run of the peers alone.** -/
theorem step_claims (hr : s.PostsNoClaim) (hi : s.peerClaims.Inv)
    (he : step demux td s a = some s') : ClaimsRun demux s s' := by
  cases step_view he with
  | destroy b pc r hn hs =>
    rcases next_act hn with ⟨f, rfl, hf⟩ | ⟨rfl, -⟩ | rfl
    · exact .push hs rfl (hr f hf)
    · cases RunLoop.step_view hs with
      | store => exact .stays rfl rfl
    · cases RunLoop.step_view hs with
      | wake => exact .stays rfl rfl
  | loop b r ha hs => exact .stays rfl (congrArg _ (todo_loop ha hs))
  | grant p sock ctl t hp hu hf hc =>
    exact .claim hp hu (.grant p sock) (PeerClaims.step_grant (mem_pending hp hu) hf hc)
  | register p fd sock ctl hp hu => exact .perform hp hu rfl (.dispatcher _) rfl
  | nothing f sock ctl hp hu ht =>
    cases f with
    | claim p => exact .claim hp hu (.refuse p) (if_pos (mem_pending hp hu))
    | arm | other | relinquishAll | stop => exact .perform hp hu rfl (.dispatcher s.table.disp) rfl
  | relinquishAll sock ctl hp hu => exact .perform hp hu rfl .relinquishAll rfl
  | claim i x r hu hs =>
    refine .single (.create x) ?_
    have htodo : todo r s.performed = todo s.loop.run s.performed ++ [.claim s.table.made] :=
      todo_push hs s.performed
    show some (PeerClaims.mk (s.table.create x) (s.table.made ::ₘ _)) =
      some ⟨s.table.create x, (todo r s.performed).filterMap claimOf⟩
    rw [htodo, List.filterMap_append, peerClaims, Multiset.cons_coe,
      Multiset.coe_eq_coe.2 (List.perm_append_singleton _ _).symm]
    rfl
  | arm i p fd r hu hs => exact .push hs rfl rfl
  | post i r hs => exact .push hs rfl rfl
  | relinquish p hu hc => exact .relinquish hi hc
  | ignore x => exact .stays rfl rfl
  | erase x p hp ho =>
    exact .single (.eraseEntry x) (PeerClaims.step_eraseEntry hp ho)

theorem reach_claims {ok : DgramDestroy A ι → Act A ι → Prop}
    (h : (machine A demux td).ReachOk ok s) :
    (PeerClaims.machine A demux).Reach s.peerClaims ∧ s.PostsNoClaim := by
  refine h.inv (I := fun s => (PeerClaims.machine A demux).Reach s.peerClaims ∧ s.PostsNoClaim)
    (fun s hs => ?_) fun _ _ _ _ ⟨hc, hr⟩ _ he => ?_
  · rw [show s = start from hs]
    have hposts : ∀ f ∈ destroyTasks, claimOf f = none := by decide
    exact ⟨.init rfl, hposts⟩
  · obtain ⟨as, hp⟩ := step_claims hr (PeerClaims.reach_inv hc) he
    exact ⟨hc.of_path hp, step_postsNoClaim hr he⟩

end Claims

/-! ## The flag and the first task -/

/-- The first task takes effect before the flag is tested again, or the flag is cleared. -/
def Covered (q : PostQueue DgramTask) (performed entered : Bool) : RunPc DgramTask → Prop
  | .out => entered = false
  | .reset => True
  | .drain => .relinquishAll ∈ q.active
  | .callbacks => .relinquishAll ∈ q.drain
  | .callback t => (t = .relinquishAll ∧ performed = false) ∨ .relinquishAll ∈ q.drain
  | .test | .poll | .batch _ | .dispatch _ => False

structure DestroyInv (demux : Bool) (s : DgramDestroy A ι) : Prop where
  stage : Stage s.loop.pc s.relinquished (todo s.loop.run s.performed)
  sock : s.relinquished = false → s.table.SockInv demux
  closed : s.relinquished = true → s.table.AllClosed
  stopping : s.loop.run.pc = .callback .stop → s.relinquished = true
  covered : s.relinquished = false → s.loop.run.stopRequested = true →
    Covered s.loop.run.queue s.performed s.loop.entered s.loop.run.pc
  returned : s.loop.Returned → s.relinquished = true
  wake : s.loop.run.WakeInv

/-- A number that `arm` registers is the descriptor of a peer. -/
def Registers (t : PeerTable A) (ctl : Bool) : RunPc DgramTask → Prop
  | .callback (.arm _ fd) => ctl = true → ∃ q < t.made, (t.peers q).sock = some fd
  | _ => True

/-- The `stop` of the destroying thread itself is not between the first task's post and the swap
that takes it, unless the flag will be cleared or was tested just before. `epoll_wait` does
not fail. -/
def DestroyOk (s : DgramDestroy A ι) : Act A ι → Prop
  | .destroy => s.loop.pc = .posting [] →
      .relinquishAll ∉ s.loop.run.queue.active ∨ s.loop.run.pc = .drain ∨ s.loop.Unstarted
  | .loop .pollError => False
  | .perform _ ctl => Registers s.table ctl s.loop.run.pc
  | _ => True

instance (t : PeerTable A) (ctl : Bool) :
    (pc : RunPc DgramTask) → Decidable (Registers t ctl pc)
  | .callback (.arm _ fd) =>
    inferInstanceAs (Decidable (ctl = true → ∃ q < t.made, (t.peers q).sock = some fd))
  | .callback (.claim _) | .callback .other | .callback .relinquishAll | .callback .stop | .out
  | .reset | .test | .drain | .callbacks | .poll | .batch _ | .dispatch _ => isTrue trivial

instance (s : DgramDestroy A ι) : (a : Act A ι) → Decidable (s.DestroyOk a)
  | .destroy => inferInstanceAs (Decidable (s.loop.pc = .posting [] →
      .relinquishAll ∉ s.loop.run.queue.active ∨ s.loop.run.pc = .drain ∨
        s.loop.run.pc = .reset ∨ s.loop.run.pc = .out ∧ s.loop.entered = false))
  | .loop .pollError => isFalse id
  | .perform _ ctl => inferInstanceAs (Decidable (Registers s.table ctl s.loop.run.pc))
  | .loop (.push _ _) | .loop (.store _) | .loop (.wake _) | .loop .enter | .loop .reset
  | .loop .test | .loop .swap | .loop .call | .loop .fnReturn | .loop .enterPoll
  | .loop (.pollReturn _) | .loop .event | .loop .eventReturn | .loop .endBatch | .claim _ _
  | .arm _ _ | .post _ | .relinquish _ | .datagram _ => isTrue trivial

section Flag

variable {q : PostQueue DgramTask} {b e : Bool} {pc : RunPc DgramTask} {r : RunLoop ι DgramTask}

theorem Covered.post (h : Covered q b e pc) (ts : List DgramTask) : Covered (q.post ts) b e pc := by
  cases pc with
  | drain => exact List.mem_append_left _ h
  | out | reset | test | callbacks | callback t | poll | batch events | dispatch events => exact h

omit [DecidableEq A] in
/-- The loop thread does not test a set flag, or go to `poll`, before the first task. -/
theorem covered_loop {a : RunLoop.Act ι DgramTask}
    (h : s.loop.run.stopRequested = true →
      Covered s.loop.run.queue s.performed s.loop.entered s.loop.run.pc)
    (hs : s.loop.run.pc ≠ .callback .stop) (ha : s.Allows a) (he : s.loop.run.step a = some r)
    (hr : r.stopRequested = true) :
    Covered r.queue (performs s.performed a) (s.loop.entered || StopRun.enters a) r.pc := by
  cases RunLoop.step_view he with
  | push t fn hm => cases ha
  | store t hm => exact absurd ha.2 hs
  | wake t ho =>
    simp only [StopRun.enters, Bool.or_false]
    exact h hr
  | enter hp => trivial
  | reset hp => cases hr
  | iterate hp hf => cases hf.symm.trans hr
  | swap q hp hq =>
    have hc := h hr
    rw [hp] at hc
    show DgramTask.relinquishAll ∈ q.drain
    rw [(PostQueue.swap_cases hq).2.2.2]
    exact hc
  | call fn q hp hq =>
    have hc : DgramTask.relinquishAll ∈ s.loop.run.queue.drain := by
      have hc := h hr
      rwa [hp] at hc
    rw [(PostQueue.next_cases hq).2.2.2] at hc
    exact (List.mem_cons.1 hc).imp_left fun e => ⟨e.symm, rfl⟩
  | fnReturn fn hp ho =>
    have hc := h hr
    rw [hp] at hc
    refine hc.resolve_left fun hn => ?_
    cases hn.2.symm.trans ha
  | enterPoll q hp hq =>
    have hc : DgramTask.relinquishAll ∈ s.loop.run.queue.drain := by
      have hc := h hr
      rwa [hp] at hc
    rw [(PostQueue.enterPoll_cases hq).2.2.2.1] at hc
    cases hc
  | exit hp hf | pollReturn events hp hw | pollError hp | drainWaker events hp
  | dispatch events hp | eventReturn events hp ho | endBatch hp =>
    have hc := h hr
    rw [hp] at hc
    cases hc

omit [DecidableEq ι] in
/-- The second task is not taken before the first has taken effect. -/
theorem Stage.relinquished_of_stop {l : List DgramTask} {pc : StopPc DgramTask}
    (h : Stage pc b (.stop :: l)) : b = true := by
  generalize hm : DgramTask.stop :: l = m at h
  cases h with
  | inUse hpc hr hs => subst hm; exact absurd List.mem_cons_self hs
  | @posted k k' hpc hr hs hl =>
    cases k with
    | nil => cases hm
    | cons x k => exact absurd ((List.cons.inj hm).1 ▸ List.mem_cons_self) hs
  | relinquished hpc hl => rfl

end Flag

/-! ## Runs -/

omit [DecidableEq A] in
theorem step_loop (h : DestroyInv demux s) {b : RunLoop.Act ι DgramTask}
    {r : RunLoop ι DgramTask} (hok : s.DestroyOk (.loop b)) (ha : s.Allows b)
    (hr : s.loop.run.step b = some r) :
    DestroyInv demux
      { s with loop := afterRun s.loop b r, performed := performs s.performed b } := by
  have htodo := todo_loop ha hr
  have hstage : Stage s.loop.pc s.relinquished (todo r (performs s.performed b)) := htodo ▸ h.stage
  refine ⟨hstage, h.sock, h.closed, fun hp => ?_, fun hn => ?_,
    fun hret => ?_, RunLoop.step_wakeInv h.wake hr⟩
  · -- only `call` puts a new callback on the loop thread
    replace hp : r.pc = .callback .stop := hp
    cases RunLoop.step_view hr with
    | push t fn hm => cases ha
    | store t hm => exact h.stopping hp
    | wake t ho => exact h.stopping hp
    | call fn q hp' hq => cases hp; exact hstage.relinquished_of_stop
    | exit hp' hs => cases hp
    | iterate hp' hs => cases hp
    | _ => cases hp
  · refine covered_loop (h.covered hn) (fun hp => ?_) ha hr
    cases hn.symm.trans (h.stopping hp)
  · obtain ⟨hout, hent⟩ := hret
    replace hout : r.pc = .out := hout
    cases RunLoop.step_view hr with
    | push t fn hm => cases ha
    | store t hm => exact h.returned ⟨hout, (Bool.or_false _).symm.trans hent⟩
    | wake t ho => exact h.returned ⟨hout, (Bool.or_false _).symm.trans hent⟩
    | pollError hp => cases hok
    | exit hp hs =>
      cases hn : s.relinquished with
      | true => rfl
      | false =>
        have hc := h.covered hn hs
        rw [hp] at hc
        cases hc
    | _ => cases hout

omit [DecidableEq A] in
/-- A thread other than the destroying one posts. -/
theorem DestroyInv.push (h : DestroyInv demux s) {i : ι} {t : DgramTask} {r : RunLoop ι DgramTask}
    {tb : PeerTable A} (hr : s.loop.run.step (.push (some i) t) = some r)
    (hstage : Stage s.loop.pc s.relinquished (todo s.loop.run s.performed ++ [t]))
    (ht : s.relinquished = false → tb.SockInv demux)
    (hc : s.relinquished = true → tb.AllClosed) :
    DestroyInv demux { s with table := tb, loop := afterRun s.loop (.push (some i) t) r } := by
  have htodo := todo_push hr s.performed
  have hw := RunLoop.step_wakeInv h.wake hr
  have hent : (s.loop.entered || StopRun.enters (RunLoop.Act.push (some i) t)) = s.loop.entered :=
    Bool.or_false _
  cases RunLoop.step_view hr with
  | push _ _ hm =>
    refine ⟨htodo ▸ hstage, ht, hc, h.stopping, fun hn hs => ?_,
      fun hret => ?_, hw⟩
    · show Covered (s.loop.run.queue.post [t]) s.performed _ s.loop.run.pc
      rw [afterRun, hent]
      exact (h.covered hn hs).post _
    · exact h.returned ⟨hret.1, hent.symm.trans hret.2⟩

omit [DecidableEq ι] [DecidableEq A] in
/-- The callback on the loop thread takes effect; the first task's is `relinquished`. -/
theorem DestroyInv.perform (h : DestroyInv demux s) {t : DgramTask} {tb : PeerTable A} {x : Bool}
    (hp : s.loop.run.pc = .callback t)
    (hstage : Stage s.loop.pc x s.loop.run.queue.pending)
    (hx : s.relinquished = true → x = true) (ht : x = false → t ≠ .relinquishAll)
    (htb : x = false → tb.SockInv demux)
    (hc : x = true → tb.AllClosed) :
    DestroyInv demux { s with table := tb, performed := true, relinquished := x } := by
  have htodo := todo_performed hp
  have hxf : x = false → s.relinquished = false := fun hxf => by
    cases hr : s.relinquished with
    | false => rfl
    | true => cases (hx hr).symm.trans hxf
  refine ⟨htodo.symm ▸ hstage, htb, hc, fun hs => hx (h.stopping hs),
    fun hn hs => ?_, fun hret => hx (h.returned hret), h.wake⟩
  have hcov := h.covered (hxf hn) hs
  show Covered s.loop.run.queue true s.loop.entered s.loop.run.pc
  rw [hp] at hcov ⊢
  exact .inr (hcov.resolve_left fun he => ht hn he.1)

/-- `do_destroy` has joined the loop thread. -/
def Joined (s : DgramDestroy A ι) : Prop := s.loop.pc = .done ∧ s.loop.Returned

end DgramDestroy

end Socketpp
