import Socketpp.Lib.Lock
import Socketpp.Lib.Machine
import Socketpp.Event.Loop

/-!
# The two buffers behind `post`

`event_loop` (`include/socketpp/event/loop.hpp`) has two vectors and two
pointers to them. `post` takes the spinlock, appends to the vector
`active_queue_` points to and releases it. `drain_posts` takes the spinlock,
swaps the pointers, releases it, calls the callbacks of the vector
`drain_queue_` now points to and clears it. Here each of these is a step of
its own, for any number of threads; the callbacks, and whatever the loop thread
does between two runs of `drain_posts`, may call `post` too.

The buffers refine the queue that the rest of the development uses
(`reach_postLog`): `push` is its `post`, the swap its `swap`, a call its `next`
and the clear its `enterPoll`. That the queue executes what was posted, in order
and without loss, is a fact about it alone (`PostLog.reach_fifo`).
-/

namespace Socketpp

/-! ## A queue and what went through it -/

structure PostLog (τ : Type) where
  queue : PostQueue τ
  posted : List τ
  executed : List τ

namespace PostLog

variable {τ : Type}

inductive Act (τ : Type) where
  | post (t : τ)
  | swap
  | next
  | enterPoll

def step (s : PostLog τ) : Act τ → Option (PostLog τ)
  | .post t => some { s with queue := s.queue.post [t], posted := s.posted ++ [t] }
  | .swap => s.queue.swap.map fun q => { s with queue := q }
  | .next => s.queue.next.map fun p => { s with queue := p.2, executed := s.executed ++ [p.1] }
  | .enterPoll => s.queue.enterPoll.map fun q => { s with queue := q }

def machine (τ : Type) : Machine (PostLog τ) (Act τ) where
  Init s := s = ⟨.start, [], []⟩
  step := step

/-- Nothing is lost, and nothing overtakes. -/
theorem reach_fifo {s : PostLog τ} (h : (machine τ).Reach s) :
    s.posted = s.executed ++ s.queue.pending := by
  refine h.inv (I := fun s => s.posted = s.executed ++ s.queue.pending)
    (fun s hs => by rw [hs]; rfl) fun s a s' _ hi _ he => ?_
  cases a with
  | post t =>
    cases he
    rw [PostQueue.pending_post, ← List.append_assoc, ← hi]
  | swap =>
    obtain ⟨q, hq, rfl⟩ := Option.map_eq_some_iff.1 he
    rw [PostQueue.pending_swap hq]
    exact hi
  | next =>
    obtain ⟨⟨t, q⟩, hq, rfl⟩ := Option.map_eq_some_iff.1 he
    rw [PostQueue.pending_next hq] at hi
    rw [List.append_assoc]
    exact hi
  | enterPoll =>
    obtain ⟨q, hq, rfl⟩ := Option.map_eq_some_iff.1 he
    rw [PostQueue.pending_enterPoll hq]
    exact hi

end PostLog

/-! ## The buffers -/

/-- Where a thread is in `post`. -/
inductive PostPc (τ : Type) where
  | idle
  /-- in `spin_lock` -/
  | spin (fn : τ)
  | locked (fn : τ)
  | pushed
  deriving DecidableEq

namespace PostPc

variable {τ : Type}

def isIdle : PostPc τ → Bool
  | .idle => true
  | .spin _ | .locked _ | .pushed => false

/-- The thread has the spinlock. -/
def holds : PostPc τ → Bool
  | .locked _ | .pushed => true
  | .idle | .spin _ => false

theorem isIdle_iff {pc : PostPc τ} : pc.isIdle = true ↔ pc = .idle := by
  cases pc <;> simp [isIdle]

end PostPc

/-- Where the loop thread is in `drain_posts`. -/
inductive DrainPostsPc where
  /-- outside -/
  | out
  /-- in `spin_lock` -/
  | spin
  | locked
  | swapped
  /-- at the test of the range-for, `i` of `e` callbacks called -/
  | iter (i e : Nat)
  /-- in callback `i` -/
  | call (i e : Nat)
  deriving DecidableEq

namespace DrainPostsPc

def holds : DrainPostsPc → Bool
  | .locked | .swapped => true
  | .out | .spin | .iter _ _ | .call _ _ => false

/-- The buffers are not swapped yet. -/
def polling : DrainPostsPc → Bool
  | .out | .spin | .locked => true
  | .swapped | .iter _ _ | .call _ _ => false

/-- Code that may call `post` is running on the loop thread. -/
def mayPost : DrainPostsPc → Bool
  | .out | .call _ _ => true
  | .spin | .locked | .swapped | .iter _ _ => false

theorem holds_of_mayPost {pc : DrainPostsPc} (h : pc.mayPost = true) : pc.holds = false := by
  cases pc with
  | out => rfl
  | call i e => rfl
  | spin => cases h
  | locked => cases h
  | swapped => cases h
  | iter i e => cases h

end DrainPostsPc

/-- The post queue of `event_loop`; `none` is the loop thread, `some i` any other. -/
structure PostBuffers (ι τ : Type) where
  queueA : List τ
  queueB : List τ
  /-- `active_queue_` points to `queue_a_` and `drain_queue_` to `queue_b_`; otherwise the
  other way round -/
  activeA : Bool
  postLock : Bool
  posters : Option ι → PostPc τ
  loop : DrainPostsPc
  /-- the callbacks in the order in which `post` acquired the spinlock -/
  order : List τ
  /-- the callbacks appended to a buffer -/
  posted : List τ
  /-- the callbacks called -/
  executed : List τ

namespace PostBuffers

variable {ι τ : Type}

def start : PostBuffers ι τ where
  queueA := []
  queueB := []
  activeA := true
  postLock := false
  posters := fun _ => .idle
  loop := .out
  order := []
  posted := []
  executed := []

/-- `*active_queue_`. -/
def active (s : PostBuffers ι τ) : List τ := if s.activeA then s.queueA else s.queueB

/-- `*drain_queue_`. -/
def drain (s : PostBuffers ι τ) : List τ := if s.activeA then s.queueB else s.queueA

/-- `active_queue_->push_back(fn)`. -/
def push (s : PostBuffers ι τ) (fn : τ) : PostBuffers ι τ :=
  if s.activeA then { s with queueA := s.queueA ++ [fn] } else { s with queueB := s.queueB ++ [fn] }

/-- `drain_queue_->clear()`. -/
def clear (s : PostBuffers ι τ) : PostBuffers ι τ :=
  if s.activeA then { s with queueB := [] } else { s with queueA := [] }

section Buffers

variable (s : PostBuffers ι τ) (fn : τ)

@[simp] theorem active_push : (s.push fn).active = s.active ++ [fn] := by
  cases h : s.activeA <;> simp [push, active, h]

@[simp] theorem drain_push : (s.push fn).drain = s.drain := by
  cases h : s.activeA <;> simp [push, drain, h]

@[simp] theorem active_clear : s.clear.active = s.active := by
  cases h : s.activeA <;> simp [clear, active, h]

@[simp] theorem drain_clear : s.clear.drain = [] := by
  cases h : s.activeA <;> simp [clear, drain, h]

/-- `push` and `clear` touch a buffer only. -/
theorem push_frame : (s.push fn).postLock = s.postLock ∧ (s.push fn).posters = s.posters ∧
    (s.push fn).loop = s.loop ∧ (s.push fn).order = s.order ∧
    (s.push fn).executed = s.executed := by
  cases h : s.activeA <;> simp [push, h]

theorem clear_frame : s.clear.postLock = s.postLock ∧ s.clear.posters = s.posters ∧
    s.clear.order = s.order ∧ s.clear.posted = s.posted ∧ s.clear.executed = s.executed := by
  cases h : s.activeA <;> simp [clear, h]

end Buffers

variable [DecidableEq ι]

inductive Act (ι τ : Type) where
  /-- a thread calls `post` -/
  | post (t : Option ι) (fn : τ)
  | acquire (t : Option ι)
  | push (t : Option ι)
  | release (t : Option ι)
  /-- the loop thread calls `drain_posts` -/
  | drain
  | drainAcquire
  | swap
  | drainRelease
  | call
  | fnReturn
  | clear

def step (s : PostBuffers ι τ) : Act ι τ → Option (PostBuffers ι τ)
  | .post t fn =>
    if (s.posters t).isIdle ∧ (t = none → s.loop.mayPost = true) then
      some { s with posters := Function.update s.posters t (.spin fn) }
    else none
  | .acquire t =>
    match s.posters t, s.postLock with
    | .spin fn, false =>
      some { s with postLock := true
                    posters := Function.update s.posters t (.locked fn)
                    order := s.order ++ [fn] }
    | _, _ => none
  | .push t =>
    match s.posters t with
    | .locked fn =>
      some { s.push fn with posters := Function.update s.posters t .pushed
                            posted := s.posted ++ [fn] }
    | _ => none
  | .release t =>
    match s.posters t with
    | .pushed => some { s with postLock := false, posters := Function.update s.posters t .idle }
    | _ => none
  | .drain =>
    if s.loop = .out ∧ (s.posters none).isIdle then some { s with loop := .spin } else none
  | .drainAcquire =>
    if s.loop = .spin ∧ s.postLock = false then some { s with postLock := true, loop := .locked }
    else none
  | .swap =>
    if s.loop = .locked then some { s with activeA := !s.activeA, loop := .swapped } else none
  | .drainRelease =>
    if s.loop = .swapped then some { s with postLock := false, loop := .iter 0 s.drain.length }
    else none
  | .call =>
    match s.loop with
    | .iter i e =>
      if i < e then
        s.drain[i]?.map fun fn => { s with loop := .call i e, executed := s.executed ++ [fn] }
      else none
    | _ => none
  | .fnReturn =>
    match s.loop with
    | .call i e => if (s.posters none).isIdle then some { s with loop := .iter (i + 1) e } else none
    | _ => none
  | .clear =>
    match s.loop with
    | .iter i e => if i < e then none else some { s.clear with loop := .out }
    | _ => none

def machine (ι τ : Type) [DecidableEq ι] : Machine (PostBuffers ι τ) (Act ι τ) where
  Init s := s = start
  step := step

variable {s s' : PostBuffers ι τ} {a : Act ι τ}

/-- **Every step**: what it finds and what it leaves. -/
inductive StepView (s : PostBuffers ι τ) : PostBuffers ι τ → Prop where
  | post (t : Option ι) (fn : τ) (hi : s.posters t = .idle)
      (hm : t = none → s.loop.mayPost = true) :
      StepView s { s with posters := Function.update s.posters t (.spin fn) }
  | acquire (t : Option ι) (fn : τ) (hs : s.posters t = .spin fn) (hl : s.postLock = false) :
      StepView s { s with postLock := true
                          posters := Function.update s.posters t (.locked fn)
                          order := s.order ++ [fn] }
  | push (t : Option ι) (fn : τ) (hk : s.posters t = .locked fn) :
      StepView s { s.push fn with posters := Function.update s.posters t .pushed
                                  posted := s.posted ++ [fn] }
  | release (t : Option ι) (hp : s.posters t = .pushed) :
      StepView s { s with postLock := false, posters := Function.update s.posters t .idle }
  | drain (ho : s.loop = .out) (hi : s.posters none = .idle) :
      StepView s { s with loop := .spin }
  | drainAcquire (ho : s.loop = .spin) (hl : s.postLock = false) :
      StepView s { s with postLock := true, loop := .locked }
  | swap (ho : s.loop = .locked) : StepView s { s with activeA := !s.activeA, loop := .swapped }
  | drainRelease (ho : s.loop = .swapped) :
      StepView s { s with postLock := false, loop := .iter 0 s.drain.length }
  | call (i e : Nat) (fn : τ) (ho : s.loop = .iter i e) (hlt : i < e) (hf : s.drain[i]? = some fn) :
      StepView s { s with loop := .call i e, executed := s.executed ++ [fn] }
  | fnReturn (i e : Nat) (ho : s.loop = .call i e) (hi : s.posters none = .idle) :
      StepView s { s with loop := .iter (i + 1) e }
  | clear (i e : Nat) (ho : s.loop = .iter i e) (hle : e ≤ i) :
      StepView s { s.clear with loop := .out }

theorem step_view (he : step s a = some s') : StepView s s' := by
  cases a with
  | post t fn =>
    simp only [step] at he
    split at he
    · rename_i hg; cases he; exact .post t fn (PostPc.isIdle_iff.1 hg.1) hg.2
    · cases he
  | acquire t =>
    simp only [step] at he
    split at he
    · rename_i fn hs hl; cases he; exact .acquire t fn hs hl
    · cases he
  | push t =>
    simp only [step] at he
    split at he
    · rename_i fn hk; cases he; exact .push t fn hk
    · cases he
  | release t =>
    simp only [step] at he
    split at he
    · rename_i hp; cases he; exact .release t hp
    · cases he
  | drain =>
    simp only [step] at he
    split at he
    · rename_i hg; cases he; exact .drain hg.1 (PostPc.isIdle_iff.1 hg.2)
    · cases he
  | drainAcquire =>
    simp only [step] at he
    split at he
    · rename_i hg; cases he; exact .drainAcquire hg.1 hg.2
    · cases he
  | swap =>
    simp only [step] at he
    split at he
    · rename_i ho; cases he; exact .swap ho
    · cases he
  | drainRelease =>
    simp only [step] at he
    split at he
    · rename_i ho; cases he; exact .drainRelease ho
    · cases he
  | call =>
    simp only [step] at he
    split at he
    · rename_i i e ho
      split at he
      · rename_i hlt
        obtain ⟨fn, hf, rfl⟩ := Option.map_eq_some_iff.1 he
        exact .call i e fn ho hlt hf
      · cases he
    · cases he
  | fnReturn =>
    simp only [step] at he
    split at he
    · rename_i i e ho
      split at he
      · rename_i hi; cases he; exact .fnReturn i e ho (PostPc.isIdle_iff.1 hi)
      · cases he
    · cases he
  | clear =>
    simp only [step] at he
    split at he
    · rename_i i e ho
      split at he
      · cases he
      · rename_i hlt; cases he; exact .clear i e ho (Nat.le_of_not_lt hlt)
    · cases he

end PostBuffers

/-! ## The spinlock -/

section SpinLock

variable {ι τ : Type}

/-- Thread `t` has the spinlock, in `post` or in `drain_posts`. -/
def Holds (posters : Option ι → PostPc τ) (loop : DrainPostsPc) (t : Option ι) : Prop :=
  (posters t).holds = true ∨ t = none ∧ loop.holds = true

/-- A poster that moves on: who holds the lock now held it before, or is that poster. -/
theorem Holds.of_update [DecidableEq ι] {posters : Option ι → PostPc τ} {loop : DrainPostsPc}
    {t t' : Option ι} {pc : PostPc τ} (h : Holds (Function.update posters t pc) loop t') :
    Holds posters loop t' ∨ t' = t ∧ pc.holds = true := by
  rcases h with h | h
  · by_cases ht : t' = t
    · subst ht; rw [Function.update_self] at h; exact .inr ⟨rfl, h⟩
    · rw [Function.update_of_ne ht] at h; exact .inl (.inl h)
  · exact .inl (.inr h)

/-- What the spinlock's flag and the order of its acquisitions say. -/
structure LockInv (lock : Bool) (posters : Option ι → PostPc τ) (loop : DrainPostsPc)
    (order posted : List τ) : Prop where
  excl : Excl lock (Holds posters loop)
  /-- the loop thread is not in `post` and in `drain_posts` at once -/
  nested : posters none ≠ .idle → loop.mayPost = true
  /-- only the holder's callback is not in a buffer yet -/
  inflight : ∀ t fn, posters t = .locked fn → order = posted ++ [fn]
  settled : (∀ t fn, posters t ≠ .locked fn) → order = posted

namespace LockInv

theorem start : LockInv false (fun _ : Option ι => (.idle : PostPc τ)) .out [] [] := by
  have hnone (t : Option ι) : ¬ Holds (fun _ => (.idle : PostPc τ)) .out t := by
    rintro (h | ⟨-, h⟩) <;> cases h
  exact ⟨⟨fun _ => hnone, fun t _ h => absurd h (hnone t)⟩, fun h => absurd rfl h, nofun,
    fun _ => rfl⟩

variable {lock : Bool} {posters : Option ι → PostPc τ} {loop : DrainPostsPc} {order posted : List τ}
  {t : Option ι} {fn : τ}

theorem not_locked (h : LockInv false posters loop order posted) (t : Option ι) (fn : τ) :
    posters t ≠ .locked fn := fun hk => h.excl.free rfl t (.inl (by rw [hk]; rfl))

/-- The loop thread inside `drain_posts` is not inside `post`. -/
theorem idle (h : LockInv lock posters loop order posted) (hm : loop.mayPost = false) :
    posters none = .idle := by
  by_contra hne
  rw [h.nested hne] at hm
  cases hm

/-- The loop thread moves on in `drain_posts`, the lock and its holder as before. -/
theorem advance (h : LockInv lock posters loop order posted) {loop' : DrainPostsPc}
    (hh : loop'.holds = true → loop.holds = true)
    (hm : posters none ≠ .idle → loop'.mayPost = true) :
    LockInv lock posters loop' order posted :=
  ⟨h.excl.mono fun _ ht => ht.imp_right (And.imp_right hh), hm, h.inflight, h.settled⟩

theorem drainAcquire (h : LockInv false posters .spin order posted) :
    LockInv true posters .locked order posted :=
  ⟨h.excl.acquire (t := none) fun _ ht => ht.imp .inl And.left,
    fun hne => absurd (h.idle rfl) hne, h.inflight, h.settled⟩

theorem drainRelease (h : LockInv lock posters .swapped order posted) (e : Nat) :
    LockInv false posters (.iter 0 e) order posted := by
  have hidle := h.idle rfl
  refine ⟨h.excl.release (t := none) (.inr ⟨rfl, rfl⟩) fun t ht => ?_, fun hne => absurd hidle hne,
    h.inflight, h.settled⟩
  rcases ht with ht | ⟨-, ht⟩
  · refine ⟨.inl ht, ?_⟩
    rintro rfl
    rw [hidle] at ht
    cases ht
  · cases ht

variable [DecidableEq ι]

/-- A poster that was in `post` already stays where it may be. -/
theorem nested_update (h : LockInv lock posters loop order posted) {pc : PostPc τ}
    (ht : posters t ≠ .idle) : Function.update posters t pc none ≠ .idle → loop.mayPost = true := by
  intro hne
  refine h.nested fun hidle => ?_
  have hn : (none : Option ι) ≠ t := fun e => ht (e ▸ hidle)
  rw [Function.update_of_ne hn] at hne
  exact hne hidle

theorem post (h : LockInv lock posters loop order posted) (hi : posters t = .idle)
    (hm : t = none → loop.mayPost = true) :
    LockInv lock (Function.update posters t (.spin fn)) loop order posted := by
  refine ⟨h.excl.mono fun t' ht' => ht'.of_update.resolve_right (by rintro ⟨-, e⟩; cases e),
    fun hne => ?_, fun t' fn' hk => ?_, fun hk => h.settled fun t' fn' hk' => ?_⟩
  · by_cases ht : t = none
    · exact hm ht
    · exact h.nested (by rwa [Function.update_of_ne (Ne.symm ht)] at hne)
  · by_cases ht : t' = t
    · subst ht; rw [Function.update_self] at hk; cases hk
    · rw [Function.update_of_ne ht] at hk; exact h.inflight t' fn' hk
  · have ht : t' ≠ t := fun e => by rw [e, hi] at hk'; cases hk'
    exact hk t' fn' (by rw [Function.update_of_ne ht]; exact hk')

theorem acquire (h : LockInv false posters loop order posted) (hs : posters t = .spin fn) :
    LockInv true (Function.update posters t (.locked fn)) loop (order ++ [fn]) posted := by
  refine ⟨h.excl.acquire (t := t) fun t' ht' => ht'.of_update.imp_right And.left,
    h.nested_update (by rw [hs]; rintro ⟨⟩), fun t' fn' hk => ?_, fun hk => ?_⟩
  · by_cases ht : t' = t
    · subst ht
      rw [Function.update_self] at hk
      cases hk
      rw [h.settled h.not_locked]
    · rw [Function.update_of_ne ht] at hk; exact absurd hk (h.not_locked t' fn')
  · exact absurd (Function.update_self ..) (hk t fn)

theorem push (h : LockInv lock posters loop order posted) (hk : posters t = .locked fn) :
    LockInv lock (Function.update posters t .pushed) loop order (posted ++ [fn]) := by
  have hholds : Holds posters loop t := .inl (by rw [hk]; rfl)
  refine ⟨h.excl.mono fun t' ht' => ht'.of_update.elim id ?_,
    h.nested_update (by rw [hk]; rintro ⟨⟩),
    fun t' fn' hk' => ?_, fun _ => h.inflight t fn hk⟩
  · rintro ⟨rfl, -⟩
    exact hholds
  · by_cases ht : t' = t
    · subst ht; rw [Function.update_self] at hk'; cases hk'
    · rw [Function.update_of_ne ht] at hk'
      exact absurd (h.excl.one t' t (.inl (by rw [hk']; rfl)) hholds) ht

theorem release (h : LockInv lock posters loop order posted) (hp : posters t = .pushed) :
    LockInv false (Function.update posters t .idle) loop order posted := by
  have hne : posters t ≠ .idle := by rw [hp]; rintro ⟨⟩
  refine ⟨h.excl.release (t := t) (.inl (by rw [hp]; rfl)) fun t' ht' => ?_, h.nested_update hne,
    fun t' fn' hk => ?_, fun hk => h.settled fun t' fn' hk' => ?_⟩
  · refine ⟨ht'.of_update.resolve_right (by rintro ⟨-, e⟩; cases e), ?_⟩
    rintro rfl
    rcases ht' with ht' | ⟨rfl, hl⟩
    · rw [Function.update_self] at ht'; cases ht'
    · -- the loop thread holds the lock in `post`, so it is not in `drain_posts`
      rw [DrainPostsPc.holds_of_mayPost (h.nested hne)] at hl
      cases hl
  · by_cases ht : t' = t
    · subst ht; rw [Function.update_self] at hk; cases hk
    · rw [Function.update_of_ne ht] at hk; exact h.inflight t' fn' hk
  · have ht : t' ≠ t := fun e => by rw [e, hp] at hk'; cases hk'
    exact hk t' fn' (by rw [Function.update_of_ne ht]; exact hk')

end LockInv

end SpinLock

namespace PostBuffers

variable {ι τ : Type} [DecidableEq ι] {s s' : PostBuffers ι τ} {a : Act ι τ}

theorem step_lockInv (h : LockInv s.postLock s.posters s.loop s.order s.posted)
    (he : step s a = some s') : LockInv s'.postLock s'.posters s'.loop s'.order s'.posted := by
  cases step_view he with
  | post t fn hi hm => exact h.post hi hm
  | acquire t fn hs hl => exact (hl ▸ h).acquire hs
  | push t fn hk =>
    obtain ⟨e1, -, e3, e4, -⟩ := s.push_frame fn
    simp only [e1, e3, e4]
    exact h.push hk
  | release t hp => exact h.release hp
  | drain ho hi => exact h.advance nofun fun hne => absurd hi hne
  | drainAcquire ho hl => exact (ho ▸ hl ▸ h).drainAcquire
  | swap ho =>
    rw [ho] at h
    exact h.advance (fun _ => rfl) fun hne => absurd (h.idle rfl) hne
  | drainRelease ho => exact (ho ▸ h).drainRelease _
  | call i e fn ho hlt hf => exact h.advance nofun fun _ => rfl
  | fnReturn i e ho hi => exact h.advance nofun fun hne => absurd hi hne
  | clear i e ho hle =>
    obtain ⟨e1, e2, e4, e5, -⟩ := s.clear_frame
    simp only [e1, e2, e4, e5]
    exact h.advance nofun fun _ => rfl

theorem reach_lockInv (h : (machine ι τ).Reach s) :
    LockInv s.postLock s.posters s.loop s.order s.posted :=
  h.inv (I := fun s => LockInv s.postLock s.posters s.loop s.order s.posted)
    (fun s hs => by rw [hs]; exact .start) fun _ _ _ _ hi _ he => step_lockInv hi he

/-! ## The buffers as a queue -/

/-- The callbacks of the drained buffer that are still to be called. -/
def remaining (drain : List τ) : DrainPostsPc → List τ
  | .out | .spin | .locked => []
  | .swapped => drain
  | .iter i _ => drain.drop i
  | .call i _ => drain.drop (i + 1)

/-- What the drained buffer has, and how far the range-for is. -/
def DrainInv (drain : List τ) : DrainPostsPc → Prop
  | .out | .spin | .locked => drain = []
  | .swapped => True
  | .iter i e => i ≤ e ∧ e = drain.length
  | .call i e => i < e ∧ e = drain.length

/-- The queue the buffers stand for. -/
def toQueue (s : PostBuffers ι τ) : PostQueue τ where
  active := s.active
  drain := remaining s.drain s.loop
  polling := s.loop.polling
  cleared h := by
    cases hl : s.loop with
    | out => rfl
    | spin => rfl
    | locked => rfl
    | swapped => rw [hl] at h; cases h
    | iter i e => rw [hl] at h; cases h
    | call i e => rw [hl] at h; cases h

/-- The queue with what went through it. -/
def toLog (s : PostBuffers ι τ) : PostLog τ := ⟨s.toQueue, s.posted, s.executed⟩

theorem step_drainInv (h : DrainInv s.drain s.loop) (he : step s a = some s') :
    DrainInv s'.drain s'.loop := by
  cases step_view he with
  | post t fn hi hm => exact h
  | acquire t fn hs hl => exact h
  | release t hp => exact h
  | push t fn hk =>
    obtain ⟨-, -, e3, -⟩ := s.push_frame fn
    show DrainInv (s.push fn).drain (s.push fn).loop
    rw [drain_push, e3]
    exact h
  | drain ho hi => rw [ho] at h; exact h
  | drainAcquire ho hl => rw [ho] at h; exact h
  | swap ho => trivial
  | drainRelease ho => exact ⟨Nat.zero_le _, rfl⟩
  | call i e fn ho hlt hf => rw [ho] at h; exact ⟨hlt, h.2⟩
  | fnReturn i e ho hi => rw [ho] at h; exact h
  | clear i e ho hle => exact drain_clear s

theorem reach_drainInv (h : (machine ι τ).Reach s) : DrainInv s.drain s.loop :=
  h.inv (I := fun s => DrainInv s.drain s.loop) (fun s hs => by rw [hs]; rfl)
    fun _ _ _ _ hi _ he => step_drainInv hi he

omit [DecidableEq ι] in
theorem toLog_eq {l : PostLog τ} (ha : s.active = l.queue.active)
    (hd : remaining s.drain s.loop = l.queue.drain) (hp : s.loop.polling = l.queue.polling)
    (h1 : s.posted = l.posted) (h2 : s.executed = l.executed) : s.toLog = l := by
  obtain ⟨⟨_, _, _, _⟩, _, _⟩ := l
  simp only at ha hd hp h1 h2
  subst ha hd hp h1 h2
  rfl

/-- **The buffers refine the queue.** Appending is its `post`, the exchange of the
pointers its `swap`, a call its `next`, the clear its `enterPoll`; the other
steps leave it alone. -/
theorem step_toLog (h : DrainInv s.drain s.loop) (he : step s a = some s') :
    s'.toLog = s.toLog ∨ ∃ b, PostLog.step s.toLog b = some s'.toLog := by
  have hstep {b : PostLog.Act τ} {l : PostLog τ} (hb : PostLog.step s.toLog b = some l)
      (hl : s'.toLog = l) : s'.toLog = s.toLog ∨ ∃ b, PostLog.step s.toLog b = some s'.toLog :=
    .inr ⟨b, by rw [hl]; exact hb⟩
  cases step_view he with
  | post t fn hi hm => exact .inl rfl
  | acquire t fn hs hl => exact .inl rfl
  | release t hp => exact .inl rfl
  | drain ho hi => exact .inl (toLog_eq rfl (by simp [toLog, toQueue, ho, remaining])
      (by simp [toLog, toQueue, ho, DrainPostsPc.polling]) rfl rfl)
  | drainAcquire ho hl => exact .inl (toLog_eq rfl (by simp [toLog, toQueue, ho, remaining])
      (by simp [toLog, toQueue, ho, DrainPostsPc.polling]) rfl rfl)
  | drainRelease ho =>
    refine .inl (toLog_eq rfl ?_ (by simp [toLog, toQueue, ho, DrainPostsPc.polling]) rfl rfl)
    simp only [toLog, toQueue, ho, remaining, List.drop_zero]
    rfl
  | fnReturn i e ho hi =>
    refine .inl (toLog_eq rfl ?_ (by simp [toLog, toQueue, ho, DrainPostsPc.polling]) rfl rfl)
    simp only [toLog, toQueue, ho, remaining]
    rfl
  | push t fn hk =>
    obtain ⟨-, -, e3, -, e5⟩ := s.push_frame fn
    refine hstep (b := .post fn) rfl (toLog_eq (active_push s fn) ?_ ?_ rfl e5)
    · show remaining (s.push fn).drain (s.push fn).loop = _
      rw [drain_push, e3]
      rfl
    · show (s.push fn).loop.polling = _
      rw [e3]
      rfl
  | swap ho =>
    have hq := PostQueue.swap_of_polling (q := s.toQueue)
      (by simp [toQueue, ho, DrainPostsPc.polling])
    rw [ho] at h
    refine hstep (b := .swap) (by rw [PostLog.step, toLog, hq]; rfl) (toLog_eq ?_ ?_ rfl rfl rfl)
    · -- the buffer that was cleared is the one posted to from now on
      have : s.toQueue.drain = [] := by simp [toQueue, ho, remaining]
      rw [this]
      simp only [DrainInv, PostBuffers.drain] at h
      cases hA : s.activeA <;> simpa [active, hA] using h
    · cases hA : s.activeA <;> simp [remaining, toQueue, active, PostBuffers.drain, hA]
  | call i e fn ho hlt hf =>
    have hd : s.drain.drop i = fn :: s.drain.drop (i + 1) := by
      obtain ⟨hi, hfn⟩ := List.getElem?_eq_some_iff.1 hf
      rw [List.drop_eq_getElem_cons hi, hfn]
    have hq := PostQueue.next_of_drain (q := s.toQueue)
      (by simp [toQueue, ho, DrainPostsPc.polling])
      (show remaining s.drain s.loop = _ by rw [ho]; exact hd)
    exact hstep (b := .next) (by rw [PostLog.step, toLog, hq]; rfl) (toLog_eq rfl rfl rfl rfl rfl)
  | clear i e ho hle =>
    obtain ⟨-, -, -, e4, e5⟩ := s.clear_frame
    rw [ho] at h
    have hnil : s.drain.drop i = [] := List.drop_eq_nil_of_le (h.2 ▸ hle)
    have hq : s.toQueue.enterPoll = some ⟨s.active, [], true, fun _ => rfl⟩ := by
      unfold PostQueue.enterPoll
      simp only [toQueue, ho, DrainPostsPc.polling, remaining, hnil]
      rfl
    have hb : PostLog.step s.toLog .enterPoll =
        some ⟨⟨s.active, [], true, fun _ => rfl⟩, s.posted, s.executed⟩ := by
      rw [PostLog.step, toLog, hq]
      rfl
    exact hstep hb (toLog_eq (active_clear s) rfl rfl e4 e5)

theorem reach_postLog (h : (machine ι τ).Reach s) : (PostLog.machine τ).Reach s.toLog := by
  refine h.sim (f := toLog) (fun s hs => by rw [hs]; rfl) fun s a s' hr _ he => ?_
  rcases step_toLog (reach_drainInv hr) he with e | ⟨b, hb⟩
  · exact .inl e
  · exact .inr ⟨b, trivial, hb⟩

/-- The callbacks the two buffers still hold, in the order they will be called. -/
def held (s : PostBuffers ι τ) : List τ := remaining s.drain s.loop ++ s.active

/-- The callback of the thread that has the spinlock and has not appended it yet. -/
def InFlight (s : PostBuffers ι τ) (fns : List τ) : Prop :=
  (∃ t fn, s.posters t = .locked fn ∧ fns = [fn]) ∨ (∀ t fn, s.posters t ≠ .locked fn) ∧ fns = []

/-- **The post queue.** In every interleaving of `post` on any number of threads
with `drain_posts` on the loop thread, the callbacks in the order in which
`post` acquired the spinlock are: those executed, then those the two buffers
still hold, then the one its thread is about to append. So what was executed is
a first part of that order, and if no callback is posted twice, none is executed
twice and none that was executed is still held. -/
theorem post_queue_fifo (h : (machine ι τ).Reach s) :
    (∃ fns, s.InFlight fns ∧ s.order = s.executed ++ s.held ++ fns) ∧ s.executed <+: s.order ∧
    (s.order.Nodup → s.executed.Nodup ∧ ∀ fn ∈ s.executed, fn ∉ s.held) := by
  have hlock := reach_lockInv h
  have hfifo : s.posted = s.executed ++ s.held := PostLog.reach_fifo (reach_postLog h)
  obtain ⟨fns, hfl, horder⟩ : ∃ fns, s.InFlight fns ∧ s.order = s.posted ++ fns := by
    by_cases hk : ∃ t fn, s.posters t = .locked fn
    · obtain ⟨t, fn, hk⟩ := hk
      exact ⟨[fn], .inl ⟨t, fn, hk, rfl⟩, hlock.inflight t fn hk⟩
    · have hk : ∀ t fn, s.posters t ≠ .locked fn := fun t fn e => hk ⟨t, fn, e⟩
      exact ⟨[], .inr ⟨hk, rfl⟩, by rw [List.append_nil]; exact hlock.settled hk⟩
  have hall : s.order = s.executed ++ s.held ++ fns := by rw [horder, hfifo]
  refine ⟨⟨fns, hfl, hall⟩, ⟨s.held ++ fns, by rw [hall, List.append_assoc]⟩, fun hnd => ?_⟩
  rw [hall, List.append_assoc, List.nodup_append] at hnd
  exact ⟨hnd.1, fun fn hfn hheld =>
    hnd.2.2 fn hfn fn (List.mem_append_left _ hheld) rfl⟩

/-- The range-for never runs past the buffer: the next callback is there. -/
theorem call_enabled (h : (machine ι τ).Reach s) {i e : Nat} (ho : s.loop = .iter i e)
    (hlt : i < e) : ∃ s', step s .call = some s' := by
  have hinv := reach_drainInv h
  rw [ho] at hinv
  have hi : i < s.drain.length := hinv.2 ▸ hlt
  refine ⟨{ s with loop := .call i e, executed := s.executed ++ [s.drain[i]] }, ?_⟩
  simp [step, ho, hlt, List.getElem?_eq_getElem hi]

/-- Two threads post, one of them while the loop thread is in a callback that posts too. -/
theorem post_queue_fifo_reposting :
    ∃ s : PostBuffers Bool Nat, (machine Bool Nat).Reach s ∧
      (s.loop = .call 0 1 ∧ s.executed = [10] ∧ s.active = [11, 12] ∧ s.order = [10, 11, 12, 13]) ∧
      s.executed <+: s.order := by
  obtain ⟨s, h, hp⟩ := Machine.Reach.of_run_init (M := machine Bool Nat)
    (fun s => decide (s.loop = .call 0 1 ∧ s.executed = [10] ∧ s.active = [11, 12] ∧
      s.order = [10, 11, 12, 13]))
    [.post (some true) 10, .acquire (some true), .push (some true), .release (some true), .drain,
      .drainAcquire, .swap, .drainRelease, .call, .post none 12, .post (some false) 11,
      .acquire (some false), .push (some false), .release (some false), .acquire none, .push none,
      .release none, .post (some true) 13, .acquire (some true)]
    rfl (by decide)
  exact ⟨s, h, of_decide_eq_true hp, (post_queue_fifo h).2.1⟩

end PostBuffers

end Socketpp
