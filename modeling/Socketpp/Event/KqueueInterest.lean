import Socketpp.Lib.Machine
import Socketpp.Event.Loop

/-!
# Interest sets of the kqueue dispatcher

`kqueue_dispatcher` (`src/event/kqueue.cpp`) keeps in `interests_` the mask it
last registered for each descriptor, and `modify` and `remove` compute their
change lists from it. `kevent` goes over a change list from the front and stops
at the first change that fails; those before it are done (`taken` of them, all
if the call succeeds).

`Mirrors`: the kernel has the filters that `interests_` says. `Whole` is what a
call must meet to keep it so, and `step_mirrors_iff` says that nothing less will
do.
-/

namespace Socketpp

/-- `EVFILT_READ` and `EVFILT_WRITE`. -/
inductive EvFilter where
  | read
  | write
  deriving DecidableEq

instance : Fintype EvFilter where
  elems := {.read, .write}
  complete f := by cases f <;> decide

def EvFilter.flag : EvFilter → IoEvent
  | .read => .readable
  | .write => .writable

/-- A `struct kevent` of a change list: `EV_ADD | EV_ENABLE` or `EV_DELETE`. -/
structure Change where
  filter : EvFilter
  add : Bool
  deriving DecidableEq

/-! ## Change lists -/

namespace Change

/-- The filters of one descriptor after a list of changes. -/
def applyAll (reg : EvFilter → Bool) (cs : List Change) : EvFilter → Bool :=
  cs.foldl (fun r c => Function.update r c.filter c.add) reg

/-- The change for `EVFILT_READ`, if there is one, and then that for `EVFILT_WRITE`. -/
def listOf (g : EvFilter → Option Bool) : List Change :=
  ((g .read).map (Change.mk .read)).toList ++ ((g .write).map (Change.mk .write)).toList

theorem mem_listOf {g : EvFilter → Option Bool} {c : Change} :
    c ∈ listOf g ↔ g c.filter = some c.add := by
  obtain ⟨f, b⟩ := c
  cases f <;> simp [listOf]

theorem nodup_listOf (g : EvFilter → Option Bool) : ((listOf g).map filter).Nodup := by
  unfold listOf
  cases g .read <;> cases g .write <;> simp

variable {reg : EvFilter → Bool} {cs : List Change}

theorem applyAll_of_notMem {f : EvFilter} (h : f ∉ cs.map filter) : applyAll reg cs f = reg f := by
  induction cs generalizing reg with
  | nil => rfl
  | cons c cs ih =>
    rw [List.map_cons, List.mem_cons, not_or] at h
    exact (ih h.2).trans (Function.update_of_ne h.1 ..)

theorem applyAll_of_mem {c : Change} (hn : (cs.map filter).Nodup) (h : c ∈ cs) :
    applyAll reg cs c.filter = c.add := by
  induction cs generalizing reg with
  | nil => cases h
  | cons c' cs ih =>
    rw [List.map_cons, List.nodup_cons] at hn
    rcases List.mem_cons.1 h with rfl | h
    · exact (applyAll_of_notMem hn.1).trans (Function.update_self ..)
    · exact ih hn.2 h

theorem applyAll_listOf (g : EvFilter → Option Bool) (f : EvFilter) :
    applyAll reg (listOf g) f = (g f).getD (reg f) := by
  cases hg : g f with
  | none =>
    refine applyAll_of_notMem fun hm => ?_
    obtain ⟨c, hc, rfl⟩ := List.mem_map.1 hm
    cases hg.symm.trans (mem_listOf.1 hc)
  | some b => exact applyAll_of_mem (c := ⟨f, b⟩) (nodup_listOf g) (mem_listOf.2 hg)

/-- A list that changes something has an effect unless none of it is taken. -/
theorem applyAll_take_eq_iff {n : Nat} (hn : (cs.map filter).Nodup) :
    applyAll reg (cs.take n) = reg ↔ ∀ c ∈ cs.take n, reg c.filter = c.add := by
  have hnt : ((cs.take n).map filter).Nodup := by
    rw [List.map_take]
    exact hn.sublist (List.take_sublist ..)
  constructor
  · intro he c hc
    rw [← congrFun he]
    exact applyAll_of_mem hnt hc
  · intro h
    funext f
    by_cases hm : f ∈ (cs.take n).map filter
    · obtain ⟨c, hc, rfl⟩ := List.mem_map.1 hm
      rw [applyAll_of_mem hnt hc, h c hc]
    · exact applyAll_of_notMem hm

/-- The first change that is not taken leaves its filter as it was. -/
theorem applyAll_take_getElem {n : Nat} (hn : (cs.map filter).Nodup) (h : n < cs.length) :
    applyAll reg (cs.take n) cs[n].filter = reg cs[n].filter := by
  refine applyAll_of_notMem fun hm => ?_
  rw [← List.take_append_drop n cs, List.drop_eq_getElem_cons h, List.map_append,
    List.nodup_append] at hn
  exact hn.2.2 _ hm _ (List.mem_map_of_mem List.mem_cons_self) rfl

end Change

/-! ## The dispatcher -/

structure Kqueue (C : Type) where
  /-- the kernel's registrations -/
  filters : Fd → EvFilter → Bool
  interests : Fd → Option IoEvent
  callbacks : Fd → Option C

namespace Kqueue

variable {C : Type}

def start : Kqueue C := ⟨fun _ _ => false, fun _ => none, fun _ => none⟩

/-- `interests_` has this filter for the descriptor. -/
def recorded (s : Kqueue C) (fd : Fd) (f : EvFilter) : Bool :=
  (s.interests fd).any (IoEvent.hasEvent · f.flag)

/-- `kevent` of which `taken` changes are done, and whether that is all of them. -/
def kevent (s : Kqueue C) (fd : Fd) (changes : List Change) (taken : Nat) : Kqueue C × Bool :=
  let reg := Change.applyAll (s.filters fd) (changes.take taken)
  ({ s with filters := Function.update s.filters fd reg }, changes.length ≤ taken)

/-- The change list of `apply_interest`. -/
def addChanges (interest : IoEvent) : List Change :=
  Change.listOf fun f => if interest.hasEvent f.flag then some true else none

/-- That of `modify`. -/
def modifyChanges (s : Kqueue C) (fd : Fd) (interest : IoEvent) : List Change :=
  Change.listOf fun f =>
    let want := interest.hasEvent f.flag
    let had := s.recorded fd f
    if want && !had then some true else if !want && had then some false else none

/-- That of `remove`. -/
def removeChanges (s : Kqueue C) (fd : Fd) : List Change :=
  Change.listOf fun f => if s.recorded fd f then some false else none

def add (s : Kqueue C) (fd : Fd) (interest : IoEvent) (cb : C) (taken : Nat) :
    Kqueue C × Bool :=
  let r := s.kevent fd (addChanges interest) taken
  if r.2 then
    ({ r.1 with callbacks := Function.update s.callbacks fd (some cb)
                interests := Function.update s.interests fd (some interest) }, true)
  else (r.1, false)

def modify (s : Kqueue C) (fd : Fd) (interest : IoEvent) (taken : Nat) : Kqueue C × Bool :=
  let r := s.kevent fd (s.modifyChanges fd interest) taken
  if r.2 then ({ r.1 with interests := Function.update s.interests fd (some interest) }, true)
  else (r.1, false)

/-- `remove` ignores what `kevent` returns. -/
def remove (s : Kqueue C) (fd : Fd) (taken : Nat) : Kqueue C :=
  let r := s.kevent fd (s.removeChanges fd) taken
  { r.1 with interests := Function.update s.interests fd none
             callbacks := Function.update s.callbacks fd none }

inductive Act (C : Type) where
  | add (fd : Fd) (interest : IoEvent) (cb : C) (taken : Nat)
  | modify (fd : Fd) (interest : IoEvent) (taken : Nat)
  | remove (fd : Fd) (taken : Nat)

def step (s : Kqueue C) : Act C → Option (Kqueue C)
  | .add fd interest cb taken => some (s.add fd interest cb taken).1
  | .modify fd interest taken => some (s.modify fd interest taken).1
  | .remove fd taken => some (s.remove fd taken)

def machine (C : Type) : Machine (Kqueue C) (Act C) where
  Init s := s = start
  step := step

/-- The kernel has the filters that `interests_` says. -/
def Mirrors (s : Kqueue C) : Prop := ∀ fd, s.filters fd = s.recorded fd

/-- The call keeps the kernel and `interests_` together: `modify` is done in full or not at
all and `remove` in full; an `add` that succeeds asks for what is recorded already, and one that
fails has registered nothing new. -/
def Whole (s : Kqueue C) : Act C → Prop
  | .add fd interest _ taken =>
    ((addChanges interest).length ≤ taken →
        ∀ f, s.recorded fd f = true → interest.hasEvent f.flag = true) ∧
      (taken < (addChanges interest).length →
        ∀ c ∈ (addChanges interest).take taken, s.recorded fd c.filter = true)
  | .modify fd interest taken => (s.modifyChanges fd interest).length ≤ taken ∨ taken = 0
  | .remove fd taken => (s.removeChanges fd).length ≤ taken

instance (s : Kqueue C) : (a : Act C) → Decidable (s.Whole a)
  | .add _ _ _ _ => inferInstanceAs (Decidable (_ ∧ _))
  | .modify _ _ _ => inferInstanceAs (Decidable (_ ∨ _))
  | .remove _ _ => inferInstanceAs (Decidable (_ ≤ _))

/-- A `modify` that fails leaves the kernel and `interests_` as they are. -/
def FailsClean (s : Kqueue C) (a : Act C) (s' : Kqueue C) : Prop :=
  ∀ fd interest taken, a = .modify fd interest taken → (s.modify fd interest taken).2 = false →
    s'.filters = s.filters ∧ s'.interests = s.interests

variable {s s' : Kqueue C} {a : Act C}

/-! ## One call -/

section

variable {fd : Fd} {interest : IoEvent} {taken : Nat}

theorem add_of_le (cb : C) (hl : (addChanges interest).length ≤ taken) :
    s.add fd interest cb taken =
      ({ (s.kevent fd (addChanges interest) taken).1 with
          callbacks := Function.update s.callbacks fd (some cb)
          interests := Function.update s.interests fd (some interest) }, true) :=
  if_pos (decide_eq_true hl)

theorem add_of_lt (cb : C) (hl : taken < (addChanges interest).length) :
    s.add fd interest cb taken = ((s.kevent fd (addChanges interest) taken).1, false) :=
  if_neg fun hr => Nat.not_le.2 hl (of_decide_eq_true hr)

theorem modify_of_le (hl : (s.modifyChanges fd interest).length ≤ taken) :
    s.modify fd interest taken =
      ({ (s.kevent fd (s.modifyChanges fd interest) taken).1 with
          interests := Function.update s.interests fd (some interest) }, true) :=
  if_pos (decide_eq_true hl)

theorem modify_of_lt (hl : taken < (s.modifyChanges fd interest).length) :
    s.modify fd interest taken = ((s.kevent fd (s.modifyChanges fd interest) taken).1, false) :=
  if_neg fun hr => Nat.not_le.2 hl (of_decide_eq_true hr)

/-- Each change of `modify` is one: it adds what is not recorded or deletes what is. -/
theorem ne_add_of_mem_modifyChanges {c : Change} (h : c ∈ s.modifyChanges fd interest) :
    s.recorded fd c.filter ≠ c.add := by
  have hg := Change.mem_listOf.1 h
  simp only at hg
  cases hw : interest.hasEvent c.filter.flag <;> cases hr : s.recorded fd c.filter <;>
    simp [hw, hr] at hg <;> simp [← hg]

/-- A call changes the filters and the record of one descriptor. -/
theorem mirrors_update_iff (h : s.Mirrors) (reg : EvFilter → Bool) (mask : Option IoEvent)
    (hf : s'.filters = Function.update s.filters fd reg)
    (hi : s'.interests = Function.update s.interests fd mask) :
    s'.Mirrors ↔ ∀ f, reg f = mask.any (IoEvent.hasEvent · f.flag) := by
  constructor
  · intro hm f
    have := congrFun (hm fd) f
    rw [recorded, hf, hi, Function.update_self, Function.update_self] at this
    exact this
  · intro hr fd'
    funext f
    unfold recorded
    by_cases e : fd' = fd
    · subst e
      rw [hf, hi, Function.update_self, Function.update_self]
      exact hr f
    · rw [hf, hi, Function.update_of_ne e, Function.update_of_ne e]
      exact congrFun (h fd') f

/-- One that records nothing must not have changed anything in the kernel. -/
theorem mirrors_kevent_iff (h : s.Mirrors) {changes : List Change}
    (hn : (changes.map Change.filter).Nodup) :
    (s.kevent fd changes taken).1.Mirrors ↔
      ∀ c ∈ changes.take taken, s.recorded fd c.filter = c.add := by
  have hi : (s.kevent fd changes taken).1.interests =
      Function.update s.interests fd (s.interests fd) := (Function.update_eq_self ..).symm
  rw [mirrors_update_iff h _ _ rfl hi, ← h fd, ← Change.applyAll_take_eq_iff hn, funext_iff, h fd]
  rfl

theorem add_mirrors_iff (h : s.Mirrors) (cb : C) :
    (s.add fd interest cb taken).1.Mirrors ↔ s.Whole (.add fd interest cb taken) := by
  simp only [Whole]
  rcases Nat.lt_or_ge taken (addChanges interest).length with hl | hl
  · simp only [hl, Nat.not_le.2 hl, forall_const, false_imp_iff, true_and]
    rw [add_of_lt cb hl]
    refine (mirrors_kevent_iff h (Change.nodup_listOf _)).trans (forall₂_congr fun c hc => ?_)
    have hadd := Change.mem_listOf.1 (List.mem_of_mem_take hc)
    split at hadd
    · rw [← Option.some.inj hadd]
    · cases hadd
  · simp only [hl, Nat.not_lt.2 hl, forall_const, false_imp_iff, and_true]
    rw [add_of_le cb hl, mirrors_update_iff h _ (some interest) rfl rfl,
      List.take_of_length_le hl]
    refine forall_congr' fun f => ?_
    rw [addChanges, Change.applyAll_listOf, h fd, Option.any_some]
    cases s.recorded fd f <;> cases interest.hasEvent f.flag <;> simp

/-- A `modify` that succeeds installs exactly the filters it was asked for. -/
theorem filters_modify (h : s.Mirrors) (hl : (s.modifyChanges fd interest).length ≤ taken)
    (f : EvFilter) :
    (s.modify fd interest taken).1.filters fd f = interest.hasEvent f.flag := by
  rw [modify_of_le hl]
  simp only [kevent, Function.update_self]
  rw [List.take_of_length_le hl, modifyChanges, Change.applyAll_listOf, h fd]
  cases s.recorded fd f <;> cases interest.hasEvent f.flag <;> simp

theorem modify_mirrors_iff (h : s.Mirrors) :
    (s.modify fd interest taken).1.Mirrors ↔ s.Whole (.modify fd interest taken) := by
  simp only [Whole]
  rcases Nat.lt_or_ge taken (s.modifyChanges fd interest).length with hl | hl
  · simp only [Nat.not_le.2 hl, false_or]
    rw [modify_of_lt hl]
    refine (mirrors_kevent_iff h (Change.nodup_listOf _)).trans ⟨fun hall => ?_, ?_⟩
    · -- a first change that was taken has changed something
      by_contra hpos
      have hc := List.getElem_mem (l := (s.modifyChanges fd interest).take taken) (n := 0)
        (by rw [List.length_take]; omega)
      exact ne_add_of_mem_modifyChanges (List.mem_of_mem_take hc) (hall _ hc)
    · rintro rfl
      simp
  · simp only [hl, true_or, iff_true]
    have hf := filters_modify h hl
    rw [modify_of_le hl] at hf ⊢
    refine (mirrors_update_iff h _ (some interest) rfl rfl).2 fun f => ?_
    simpa [kevent] using hf f

theorem remove_mirrors_iff (h : s.Mirrors) :
    (s.remove fd taken).Mirrors ↔ s.Whole (.remove fd taken) := by
  simp only [Whole, remove]
  rw [mirrors_update_iff h _ none rfl rfl]
  constructor
  · intro hall
    by_contra hlt
    have hlt := Nat.lt_of_not_le hlt
    have hc := Change.mem_listOf.1 (List.getElem_mem hlt)
    have hkept : Change.applyAll (s.filters fd) ((s.removeChanges fd).take taken)
        (s.removeChanges fd)[taken].filter = s.filters fd (s.removeChanges fd)[taken].filter :=
      Change.applyAll_take_getElem (Change.nodup_listOf _) hlt
    rw [hall, h fd] at hkept
    split at hc
    · rename_i hr
      cases hkept.trans hr
    · cases hc
  · intro hl f
    rw [List.take_of_length_le hl, removeChanges, Change.applyAll_listOf, h fd]
    cases s.recorded fd f <;> simp

end

/-! ## Runs -/

theorem failsClean_of_whole (hok : s.Whole a) (he : step s a = some s') : s.FailsClean a s' := by
  rintro fd interest taken rfl hfail
  cases he
  rcases hok with hl | rfl
  · rw [modify_of_le hl] at hfail
    cases hfail
  · rcases Nat.lt_or_ge 0 (s.modifyChanges fd interest).length with hl | hl
    · rw [modify_of_lt hl]
      exact ⟨Function.update_eq_self .., rfl⟩
    · rw [modify_of_le hl] at hfail
      cases hfail

theorem step_mirrors_iff (h : s.Mirrors) (he : step s a = some s') :
    s'.Mirrors ↔ s.Whole a := by
  cases a with
  | add fd interest cb taken => cases he; exact add_mirrors_iff h cb
  | modify fd interest taken => cases he; exact modify_mirrors_iff h
  | remove fd taken => cases he; exact remove_mirrors_iff h

theorem reach_mirrors (h : (machine C).ReachOk Whole s) : s.Mirrors :=
  h.inv (I := Mirrors) (fun s (hs : s = start) => hs ▸ fun _ => rfl)
    fun _ _ _ _ hm hok he => (step_mirrors_iff hm he).2 hok

/-- **The kqueue interest mirror.** In every run of whole calls the kernel has exactly the
filters that `interests_` says and a `modify` that succeeds installs exactly those it was asked
for; and the next call keeps it so, with a failed `modify` changing nothing, just when it is
whole. -/
theorem kqueue_mirror_iff (h : (machine C).ReachOk Whole s) :
    s.Mirrors ∧
      (∀ fd interest taken f, (s.modify fd interest taken).2 = true →
        (s.modify fd interest taken).1.filters fd f = interest.hasEvent f.flag) ∧
      ∀ a s', step s a = some s' → (s'.Mirrors ∧ s.FailsClean a s' ↔ s.Whole a) := by
  have hm := reach_mirrors h
  refine ⟨hm, fun fd interest taken f hok => ?_, fun a s' he => ⟨fun hk => ?_, fun hok => ?_⟩⟩
  · rcases Nat.lt_or_ge taken (s.modifyChanges fd interest).length with hl | hl
    · rw [modify_of_lt hl] at hok
      cases hok
    · exact filters_modify hm hl f
  · exact (step_mirrors_iff hm he).1 hk.1
  · exact ⟨(step_mirrors_iff hm he).2 hok, failsClean_of_whole hok he⟩

/-- A `modify` fails at its first change, and a second one goes through. -/
theorem kqueue_mirror_retry : ∃ s : Kqueue Unit, (machine Unit).ReachOk Whole s ∧
    s.interests 3 = some .writable ∧ s.Mirrors := by
  obtain ⟨s, hr, hp⟩ := Machine.ReachOk.of_runOk_init (M := machine Unit) Whole
    (fun s => decide (s.interests 3 = some .writable))
    [.add 3 .readable () 1, .modify 3 .writable 0, .modify 3 .writable 2] rfl (by decide)
  exact ⟨s, hr, of_decide_eq_true hp, (kqueue_mirror_iff hr).1⟩

/-- From readable to writable `modify` adds `EVFILT_WRITE` after it has deleted `EVFILT_READ`;
when the second change fails, the descriptor is recorded readable and has no filter. The next
`modify` to readable sees no change to make. -/
theorem kqueue_mirror_lost : ∃ s : Kqueue Unit, (machine Unit).Reach s ∧
    s.interests 3 = some .readable ∧ s.filters 3 .read = false ∧
    (s.modify 3 .readable 2).2 = true ∧ (s.modify 3 .readable 2).1.filters 3 .read = false := by
  obtain ⟨s, hr, hp⟩ := Machine.Reach.of_run_init (M := machine Unit)
    (fun s => decide (s.interests 3 = some .readable ∧ s.filters 3 .read = false ∧
      (s.modify 3 .readable 2).2 = true ∧ (s.modify 3 .readable 2).1.filters 3 .read = false))
    [.add 3 .readable () 1, .modify 3 .writable 1] rfl (by decide)
  exact ⟨s, hr, of_decide_eq_true hp⟩

end Kqueue

end Socketpp
