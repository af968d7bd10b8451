import Socketpp.Lib.Machine

/-!
# Who tears down a stream or a datagram socket

`stream4`, `stream6`, `dgram4` and `dgram6` (`src/high/stream.cpp`,
`src/high/dgram.cpp`) each hold a `unique_ptr` to their impl, with a background
thread and a thread pool in it. The destructor calls `do_destroy`, which joins the
thread and shuts down the pool, before the impl is deleted. The move operations are
defaulted. So a move assignment onto a live value deletes the old impl through
`unique_ptr` alone, without `do_destroy`: its thread is still joinable, which ends
the process.

The factories make a local value and return it through `result<T>`
(`platform/error.hpp`), whose own move assignment destroys the old value first. All
ways of dropping an impl are steps here; the move assignment onto a live value is
the only one that goes wrong (`impl_torn_down`). A value owns its impl alone, so the
model keeps the impl in the value.
-/

namespace Socketpp

/-- The impl of a stream or datagram socket, as far as it has to be torn down. -/
structure Impl where
  /-- `background_thread` is joinable -/
  thread : Bool
  /-- the pool was made and not shut down -/
  pool : Bool
  /-- `do_destroy` has run -/
  destroyed : Bool
  deriving DecidableEq, Repr

/-- How `do_listen`, `do_connect` or `do_create` ends. -/
inductive FactoryEnd where
  | started
  /-- the socket could not be opened -/
  | refused
  /-- an exception, after the pool was made or before -/
  | threw (pool : Bool)
  deriving DecidableEq, Repr

namespace Impl

/-- The impl a factory has filled in. -/
def ofFactory : FactoryEnd → Impl
  | .started => ⟨true, true, false⟩
  | .refused => ⟨false, false, false⟩
  | .threw pool => ⟨false, pool, false⟩

/-- `do_destroy` joins the thread if it is joinable and shuts down the pool if there is one. -/
def doDestroy (_ : Impl) : Impl := ⟨false, false, true⟩

def TornDown (i : Impl) : Prop := i.destroyed = true ∧ i.thread = false ∧ i.pool = false

instance (i : Impl) : Decidable i.TornDown := inferInstanceAs (Decidable (_ ∧ _))

theorem doDestroy_tornDown (i : Impl) : i.doDestroy.TornDown := ⟨rfl, rfl, rfl⟩

end Impl

/-- An object of type `T` or `result<T>`, for `T` one of the four classes. `impl` is `none` in a
value that was moved from. -/
inductive Obj where
  | value (impl : Option Impl)
  /-- an error (`none`), or a value -/
  | result (value : Option (Option Impl))
  deriving DecidableEq, Repr

namespace Obj

/-- `impl_` of the value an object is or has. -/
def impl? : Obj → Option (Option Impl)
  | value p => some p
  | result v => v

/-- The same object with another `impl_`. -/
def setImpl (p : Option Impl) : Obj → Obj
  | value _ => value p
  | result _ => result (some p)

@[simp] theorem impl?_setImpl (p : Option Impl) (o : Obj) : (o.setImpl p).impl? = some p := by
  cases o <;> rfl

/-- A result after its value, if it has one, was moved from. -/
def movedFrom : Obj → Obj
  | value _ => value none
  | result v => result (v.map fun _ => none)

end Obj

structure Values where
  /-- the objects, `none` once their lifetime is over -/
  objs : List (Option Obj)
  /-- the impls that were deleted, as they were then -/
  freed : List Impl
  deriving DecidableEq, Repr

namespace Values

def start : Values := ⟨[], []⟩

/-- `~T()`: `do_destroy` if there is an impl, then `~unique_ptr()`. -/
def destruct (s : Values) (p : Option Impl) : Values :=
  { s with freed := s.freed ++ (p.map Impl.doDestroy).toList }

/-- The old pointer of a `unique_ptr` that is assigned to. -/
def delete (s : Values) (p : Option Impl) : Values := { s with freed := s.freed ++ p.toList }

/-- `result<T>::destroy()`. -/
def destroyValue (s : Values) (o : Obj) : Values :=
  match o.impl? with
  | some p => s.destruct p
  | none => s

/-- A factory: the local value is filled in, and moved into the result or destroyed. -/
def factory (s : Values) : FactoryEnd → Values
  | .started =>
    { s with objs := s.objs ++ [some (.result (some (some (Impl.ofFactory .started))))] }
  | .refused =>
    { s with objs := s.objs ++ [some (Obj.result none)] }.destruct (some (.ofFactory .refused))
  | .threw pool => s.destruct (some (.ofFactory (.threw pool)))

/-- The object at `i`. -/
def objAt (s : Values) (i : Nat) : Option Obj := s.objs[i]?.join

inductive Act where
  | factory (e : FactoryEnd)
  /-- `T(T &&)` from the value of object `i` -/
  | moveConstruct (i : Nat)
  /-- `result<T>(T &&)` -/
  | wrap (i : Nat)
  /-- `result<T>(result<T> &&)` -/
  | moveResult (i : Nat)
  /-- `T::operator=(T &&)`, to the value of object `i` from that of object `j` -/
  | moveAssign (i j : Nat)
  /-- `result<T>::operator=(result<T> &&)` -/
  | assignResult (i j : Nat)
  /-- the lifetime of object `i` ends -/
  | destroy (i : Nat)

def step (s : Values) : Act → Option Values
  | .factory e => some (s.factory e)
  | .moveConstruct i =>
    match s.objAt i with
    | some o => o.impl?.map fun p =>
        { s with objs := s.objs.set i (some (o.setImpl none)) ++ [some (.value p)] }
    | none => none
  | .wrap i =>
    match s.objAt i with
    | some o => o.impl?.map fun p =>
        { s with objs := s.objs.set i (some (o.setImpl none)) ++ [some (.result (some p))] }
    | none => none
  | .moveResult i =>
    match s.objAt i with
    | some (.result v) => some
        { s with objs := s.objs.set i (some (Obj.result v).movedFrom) ++ [some (.result v)] }
    | _ => none
  | .moveAssign i j =>
    match s.objAt i, s.objAt j with
    | some o, some o' =>
      match o.impl?, o'.impl? with
      | some p, some q =>
        if i = j then some s
        else some ({ s with
          objs := (s.objs.set j (some (o'.setImpl none))).set i (some (o.setImpl q)) }.delete p)
      | _, _ => none
    | _, _ => none
  | .assignResult i j =>
    match s.objAt i, s.objAt j with
    | some (.result v), some (.result v') =>
      if i = j then some s
      else some ({ s with
        objs := (s.objs.set j (some (Obj.result v').movedFrom)).set i (some (.result v')) }
          |>.destroyValue (.result v))
    | _, _ => none
  | .destroy i =>
    match s.objAt i with
    | some o => some ({ s with objs := s.objs.set i none }.destroyValue o)
    | none => none

def machine : Machine Values Act where
  Init s := s = start
  step := step

/-- The value assigned to has no impl, or is the one assigned from. -/
def OntoEmpty (s : Values) : Act → Prop
  | .moveAssign i j => i = j ∨ (s.objAt i).bind Obj.impl? = some none
  | _ => True

instance (s : Values) : ∀ a, Decidable (s.OntoEmpty a)
  | .moveAssign i j => inferInstanceAs (Decidable (i = j ∨ (s.objAt i).bind Obj.impl? = some none))
  | .factory _ | .moveConstruct _ | .wrap _ | .moveResult _ | .assignResult _ _ | .destroy _ =>
    isTrue trivial

/-- Every impl that was deleted was torn down before. -/
def AllTornDown (s : Values) : Prop := ∀ i ∈ s.freed, i.TornDown

variable {s s' : Values} {a : Act}

/-- What a step is: one constructor for each action, with its guard. -/
inductive StepView (s : Values) : Act → Values → Prop where
  | factory (e : FactoryEnd) : StepView s (.factory e) (s.factory e)
  | moveConstruct (i : Nat) (o : Obj) (p : Option Impl) (ho : s.objAt i = some o)
      (hp : o.impl? = some p) :
      StepView s (.moveConstruct i)
        { s with objs := s.objs.set i (some (o.setImpl none)) ++ [some (.value p)] }
  | wrap (i : Nat) (o : Obj) (p : Option Impl) (ho : s.objAt i = some o)
      (hp : o.impl? = some p) :
      StepView s (.wrap i)
        { s with objs := s.objs.set i (some (o.setImpl none)) ++ [some (.result (some p))] }
  | moveResult (i : Nat) (v : Option (Option Impl)) (ho : s.objAt i = some (.result v)) :
      StepView s (.moveResult i)
        { s with objs := s.objs.set i (some (Obj.result v).movedFrom) ++ [some (.result v)] }
  | assignSelf (i : Nat) : StepView s (.moveAssign i i) s
  | moveAssign (i j : Nat) (o o' : Obj) (p q : Option Impl) (hij : i ≠ j)
      (ho : s.objAt i = some o) (ho' : s.objAt j = some o') (hp : o.impl? = some p)
      (hq : o'.impl? = some q) :
      StepView s (.moveAssign i j) (delete { s with
        objs := (s.objs.set j (some (o'.setImpl none))).set i (some (o.setImpl q)) } p)
  | assignResultSelf (i : Nat) : StepView s (.assignResult i i) s
  | assignResult (i j : Nat) (v v' : Option (Option Impl)) (ho' : s.objAt j = some (.result v')) :
      StepView s (.assignResult i j) (destroyValue { s with
        objs := (s.objs.set j (some (Obj.result v').movedFrom)).set i (some (.result v')) }
          (.result v))
  | destroy (i : Nat) (o : Obj) :
      StepView s (.destroy i) (destroyValue { s with objs := s.objs.set i none } o)

theorem step_view (he : s.step a = some s') : s.StepView a s' := by
  cases a with
  | factory e => cases he; exact .factory e
  | moveConstruct i =>
    simp only [step] at he
    split at he
    · rename_i o ho
      obtain ⟨p, hp, rfl⟩ := Option.map_eq_some_iff.1 he
      exact .moveConstruct i o p ho hp
    · cases he
  | wrap i =>
    simp only [step] at he
    split at he
    · rename_i o ho
      obtain ⟨p, hp, rfl⟩ := Option.map_eq_some_iff.1 he
      exact .wrap i o p ho hp
    · cases he
  | moveResult i =>
    simp only [step] at he
    split at he
    · rename_i v ho
      cases he
      exact .moveResult i v ho
    · cases he
  | moveAssign i j =>
    simp only [step] at he
    split at he
    · rename_i o o' ho ho'
      split at he
      · rename_i p q hp hq
        split at he
        · rename_i hij
          cases he
          subst hij
          exact .assignSelf i
        · rename_i hij
          cases he
          exact .moveAssign i j o o' p q hij ho ho' hp hq
      · cases he
    · cases he
  | assignResult i j =>
    simp only [step] at he
    split at he
    · rename_i v v' ho ho'
      split at he
      · rename_i hij
        cases he
        subst hij
        exact .assignResultSelf i
      · cases he
        exact .assignResult i j v v' ho'
    · cases he
  | destroy i =>
    simp only [step] at he
    split at he
    · rename_i o ho
      cases he
      exact .destroy i o
    · cases he

/-! ## What is deleted -/

theorem AllTornDown.destruct (h : s.AllTornDown) {t : Values} (ht : t.freed = s.freed)
    (p : Option Impl) : (t.destruct p).AllTornDown := by
  intro i hi
  rcases List.mem_append.1 hi with hi | hi
  · exact h i (ht ▸ hi)
  · obtain ⟨j, -, rfl⟩ := Option.map_eq_some_iff.1 (Option.mem_toList.1 hi)
    exact j.doDestroy_tornDown

theorem AllTornDown.destroyValue (h : s.AllTornDown) {t : Values} (ht : t.freed = s.freed)
    (o : Obj) : (t.destroyValue o).AllTornDown := by
  unfold Values.destroyValue
  split
  · exact h.destruct ht _
  · exact fun i hi => h i (ht ▸ hi)

/-- A step that assigns to no live value deletes nothing that was not torn down. -/
theorem step_tornDown (h : s.AllTornDown) (hok : s.OntoEmpty a) (he : s.step a = some s') :
    s'.AllTornDown := by
  cases step_view he with
  | factory e =>
    cases e with
    | started => exact h
    | refused => exact h.destruct rfl _
    | threw pool => exact h.destruct rfl _
  | moveConstruct | wrap | moveResult | assignSelf | assignResultSelf => exact h
  | moveAssign i j o o' p q hij ho ho' hp hq =>
    have hnone : p = none := by
      rcases hok with e | e
      · exact absurd e hij
      · rw [ho] at e
        exact Option.some.inj (hp.symm.trans e)
    intro x hx
    rw [hnone] at hx
    exact h x (by simpa [delete] using hx)
  | assignResult i j v v' ho' => apply h.destroyValue; rfl
  | destroy i o => apply h.destroyValue; rfl

/-! ## The impls that are still owned -/

/-- The impl of the value, if there is one, is as a factory has left it. -/
def Running (o : Obj) : Prop := ∀ p, o.impl? = some (some p) → p = Impl.ofFactory .started

def AllRunning (objs : List (Option Obj)) : Prop := ∀ o, some o ∈ objs → Running o

theorem running_setImpl {o : Obj} {q : Option Impl}
    (hq : ∀ p, q = some p → p = Impl.ofFactory .started) : Running (o.setImpl q) := by
  intro p hp
  rw [Obj.impl?_setImpl] at hp
  exact hq p (Option.some.inj hp)

theorem running_movedFrom (o : Obj) : Running o.movedFrom := by
  intro p hp
  cases o with
  | value q => cases hp
  | result v => cases v <;> cases hp

variable {objs : List (Option Obj)}

theorem AllRunning.set (h : AllRunning objs) (i : Nat) {o : Obj} (ho : Running o) :
    AllRunning (objs.set i (some o)) := by
  intro o' ho'
  rcases List.mem_or_eq_of_mem_set ho' with ho' | ho'
  · exact h o' ho'
  · cases ho'
    exact ho

theorem AllRunning.ended (h : AllRunning objs) (i : Nat) : AllRunning (objs.set i none) := by
  intro o ho
  rcases List.mem_or_eq_of_mem_set ho with ho | ho
  · exact h o ho
  · cases ho

theorem AllRunning.append (h : AllRunning objs) {o : Obj} (ho : Running o) :
    AllRunning (objs ++ [some o]) := by
  intro o' ho'
  rcases List.mem_append.1 ho' with ho' | ho'
  · exact h o' ho'
  · cases List.mem_singleton.1 ho'
    exact ho

theorem AllRunning.objAt (h : AllRunning s.objs) {i : Nat} {o : Obj} (ho : s.objAt i = some o) :
    Running o := h o (List.mem_of_getElem? (Option.join_eq_some_iff.1 ho))

theorem destroyValue_objs (s : Values) (o : Obj) : (s.destroyValue o).objs = s.objs := by
  unfold destroyValue
  split <;> rfl

/-- The value that is moved out of an object. -/
theorem AllRunning.moved (h : AllRunning s.objs) {i : Nat} {o : Obj} (ho : s.objAt i = some o)
    {q : Option Impl} (hq : o.impl? = some q) : ∀ p, q = some p → p = Impl.ofFactory .started :=
  fun p hp => h.objAt ho p (hp ▸ hq)

theorem running_none (o : Obj) : Running (o.setImpl none) := running_setImpl fun p hp => by cases hp

theorem step_running (h : AllRunning s.objs) (he : s.step a = some s') : AllRunning s'.objs := by
  cases step_view he with
  | factory e =>
    cases e with
    | started => exact h.append fun p hp => (Option.some.inj (Option.some.inj hp)).symm
    | refused => exact AllRunning.append h fun p hp => by cases hp
    | threw pool => exact h
  | moveConstruct i o q ho hq =>
    exact (h.set i (running_none o)).append fun p hp => h.moved ho hq p (Option.some.inj hp)
  | wrap i o q ho hq =>
    exact (h.set i (running_none o)).append fun p hp => h.moved ho hq p (Option.some.inj hp)
  | moveResult i v ho => exact (h.set i (running_movedFrom _)).append (h.objAt ho)
  | assignSelf | assignResultSelf => exact h
  | moveAssign i j o o' p q hij ho ho' hp hq =>
    exact (h.set j (running_none o')).set i (running_setImpl (h.moved ho' hq))
  | assignResult i j v v' ho' =>
    rw [destroyValue_objs]
    exact (h.set j (running_movedFrom _)).set i (h.objAt ho')
  | destroy i o =>
    rw [destroyValue_objs]
    exact h.ended i

theorem reach_running {ok : Values → Act → Prop} (h : machine.ReachOk ok s) : AllRunning s.objs :=
  h.inv (I := fun s => AllRunning s.objs) (fun s (hs : s = start) => hs ▸ fun o ho => by cases ho)
    fun _ _ _ _ hi _ he => step_running hi he

theorem reach_tornDown (h : machine.ReachOk OntoEmpty s) : s.AllTornDown :=
  h.inv (I := AllTornDown) (fun s (hs : s = start) => hs ▸ fun i hi => by cases hi)
    fun _ _ _ _ hi hok he => step_tornDown hi hok he

/-- **Every impl is torn down before it is deleted**, in every run that assigns only to values that
were moved from. An assignment to any other value deletes an impl whose thread is running. -/
theorem impl_torn_down (h : machine.ReachOk OntoEmpty s) :
    (∀ i ∈ s.freed, i.destroyed = true ∧ i.thread = false ∧ i.pool = false) ∧
    ∀ a s', s.step a = some s' → ¬ s.OntoEmpty a →
      ∃ i ∈ s'.freed, i.destroyed = false ∧ i.thread = true ∧ i.pool = true := by
  refine ⟨reach_tornDown h, fun a s' he hn => ?_⟩
  cases step_view he with
  | factory | moveConstruct | wrap | moveResult | assignResult | assignResultSelf | destroy =>
    exact absurd trivial hn
  | assignSelf => exact absurd (.inl rfl) hn
  | moveAssign i j o o' p q hij ho ho' hp hq =>
    cases p with
    | none => exact absurd (.inr (by rw [ho]; exact hp)) hn
    | some p =>
      have hp' := (reach_running h).objAt ho p hp
      refine ⟨p, by simp [delete], ?_⟩
      rw [hp']
      exact ⟨rfl, rfl, rfl⟩

/-- A listener is moved out of its result and back, assigned to an empty value and destroyed;
another one could not be opened. -/
theorem impl_torn_down_moved :
    ∃ s, machine.ReachOk OntoEmpty s ∧ s.freed.length = 2 ∧
      ∀ i ∈ s.freed, i.destroyed = true ∧ i.thread = false ∧ i.pool = false := by
  obtain ⟨s, h, hp⟩ := Machine.ReachOk.of_runOk_init (M := machine) OntoEmpty
    (fun s => decide (s.freed.length = 2))
    [.factory .started, .moveConstruct 0, .moveConstruct 1, .moveAssign 1 2, .factory .refused,
      .moveAssign 1 1, .wrap 1, .assignResult 3 4, .destroy 3]
    rfl (by decide)
  exact ⟨s, h, of_decide_eq_true hp, (impl_torn_down h).1⟩

/-- `s = std::move(t)` for two listeners: the impl of `s` is deleted with its thread running. -/
theorem live_impl_deleted :
    ∃ s, machine.Reach s ∧ ∃ i ∈ s.freed, i.destroyed = false ∧ i.thread = true := by
  obtain ⟨s, h, hp⟩ := Machine.Reach.of_run_init (M := machine)
    (fun s => decide (∃ i ∈ s.freed, i.destroyed = false ∧ i.thread = true))
    [.factory .started, .factory .started, .moveConstruct 0, .moveConstruct 1, .moveAssign 2 3]
    rfl (by decide)
  exact ⟨s, h, of_decide_eq_true hp⟩

end Values

end Socketpp
