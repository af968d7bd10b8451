import Socketpp.Lib.Machine
import Socketpp.Lib.Slices

/-!
# The option list's vector

`small_vector<T, N>` (`include/socketpp/socket/options.hpp`) keeps up to `N`
elements in raw storage of its own and moves to a `std::vector` with the next one.
Elements in the storage are constructed and destroyed by hand.

A slot of the storage is `none` while nothing is constructed in it. Constructing in
a slot that is taken or past the end, and using or destroying what is not there, are
undefined in C++ and have no result here. So a run that has a result constructs every
element before it is used and destroys it once.

`Rep` says which list a vector stands for, in both of its forms. Every operation of a
program with any number of vectors does to them what it does to lists
(`small_vector_refines`). A `std::vector` that was moved from is empty, and nothing
throws.
-/

namespace Socketpp

/-! ## Storage -/

/-- `storage_`, slot by slot. -/
abbrev Storage (T : Type) := Nat → Option T

namespace Storage

variable {T : Type} {N : Nat}

def raw : Storage T := fun _ => none

/-- `new (slot(i)) T(x)` in storage of `N` slots. -/
def construct (N : Nat) (st : Storage T) (i : Nat) (x : T) : Option (Storage T) :=
  if i < N ∧ (st i).isNone = true then some (Function.update st i (some x)) else none

/-- `ref(i).~T()`. -/
def destroy (st : Storage T) (i : Nat) : Option (Storage T) :=
  if (st i).isSome = true then some (Function.update st i none) else none

/-- The first slots hold the list. -/
def ofList (xs : List T) : Storage T := fun i => xs[i]?

/-- The first `n` elements of the list have been destroyed. -/
def dropped (n : Nat) (xs : List T) : Storage T := fun i => if i < n then none else xs[i]?

theorem dropped_length (xs : List T) : dropped xs.length xs = raw := by
  funext i
  simp only [dropped, raw]
  split
  · rfl
  · rename_i h
    exact List.getElem?_eq_none (Nat.le_of_not_lt h)

theorem construct_ofList {xs : List T} (h : xs.length < N) (x : T) :
    construct N (ofList xs) xs.length x = some (ofList (xs ++ [x])) := by
  have hnone : (ofList xs xs.length).isNone = true := by simp [ofList]
  rw [construct, if_pos ⟨h, hnone⟩]
  refine congrArg some (funext fun i => ?_)
  rcases lt_trichotomy i xs.length with hi | rfl | hi
  · rw [Function.update_of_ne (by omega)]
    exact (List.getElem?_append_left hi).symm
  · simp [ofList]
  · rw [Function.update_of_ne (by omega), ofList, ofList, List.getElem?_eq_none (by omega),
      List.getElem?_eq_none (by simp; omega)]

theorem destroy_dropped {xs : List T} {n : Nat} (h : n < xs.length) :
    destroy (dropped n xs) n = some (dropped (n + 1) xs) := by
  have hsome : (dropped n xs n).isSome = true := by simp [dropped, h]
  rw [destroy, if_pos hsome]
  refine congrArg some (funext fun i => ?_)
  by_cases hi : i = n
  · subst hi
    simp [dropped]
  · rw [Function.update_of_ne hi]
    simp only [dropped]
    split <;> split <;> first | rfl | omega

/-- The loop that copies `n` elements of `src`. -/
def copyLoop (N : Nat) (src st : Storage T) (n : Nat) : Option (Storage T) :=
  (List.range n).foldlM (fun st i => (src i).bind (construct N st i)) st

/-- The loop that moves `n` elements from the second storage and destroys them there. -/
def moveLoop (N : Nat) (sts : Storage T × Storage T) (n : Nat) : Option (Storage T × Storage T) :=
  (List.range n).foldlM (fun sts i => (sts.2 i).bind fun x =>
    (construct N sts.1 i x).bind fun st => (destroy sts.2 i).map fun o => (st, o)) sts

/-- The loop of `spill`. -/
def spillLoop (heap : List T) (st : Storage T) (n : Nat) : Option (List T × Storage T) :=
  (List.range n).foldlM (fun r i => (r.2 i).bind fun x =>
    (destroy r.2 i).map fun st => (r.1 ++ [x], st)) (heap, st)

/-- The loop of `destroy_inline`. -/
def destroyLoop (st : Storage T) (n : Nat) : Option (Storage T) := (List.range n).foldlM destroy st

variable {xs : List T}

theorem dropped_get {n : Nat} (h : n < xs.length) : dropped n xs n = some (xs[n]) := by
  simp [dropped, h]

theorem construct_take {n : Nat} (h : n < xs.length) (hN : xs.length ≤ N) :
    construct N (ofList (xs.take n)) n xs[n] = some (ofList (xs.take (n + 1))) := by
  have hlen : (xs.take n).length = n := by rw [List.length_take]; omega
  have hlt : (xs.take n).length < N := by omega
  have := construct_ofList hlt xs[n]
  rwa [hlen, List.take_append_getElem] at this

theorem copyLoop_ofList (hN : xs.length ≤ N) :
    copyLoop N (ofList xs) raw xs.length = some (ofList xs) := by
  have h := Slices.foldlM_range (f := fun st i => (ofList xs i).bind (construct N st i))
    (s := fun n => ofList (xs.take n)) (m := xs.length) fun n hn => by
      rw [show ofList xs n = some xs[n] from List.getElem?_eq_getElem hn]
      exact construct_take hn hN
  rw [List.take_length] at h
  exact h

theorem moveLoop_ofList (hN : xs.length ≤ N) :
    moveLoop N (raw, ofList xs) xs.length = some (ofList xs, raw) := by
  have h := Slices.foldlM_range (f := fun sts i => (sts.2 i).bind fun x =>
      (construct N sts.1 i x).bind fun st => (destroy sts.2 i).map fun o => (st, o))
    (s := fun n => (ofList (xs.take n), dropped n xs)) (m := xs.length) fun n hn => by
      simp only [dropped_get hn, Option.bind_some, construct_take hn hN, destroy_dropped hn,
        Option.map_some]
  rw [List.take_length, dropped_length] at h
  exact h

theorem spillLoop_ofList : spillLoop [] (ofList xs) xs.length = some (xs, raw) := by
  have h := Slices.foldlM_range (f := fun r i => (r.2 i).bind fun x =>
      (destroy r.2 i).map fun st => (r.1 ++ [x], st))
    (s := fun n => (xs.take n, dropped n xs)) (m := xs.length) fun n hn => by
      simp only [dropped_get hn, Option.bind_some, destroy_dropped hn, Option.map_some,
        List.take_append_getElem]
  rw [List.take_length, dropped_length] at h
  exact h

theorem destroyLoop_ofList : destroyLoop (ofList xs) xs.length = some raw := by
  have h := Slices.foldlM_range (f := destroy) (s := fun n => dropped n xs) (m := xs.length)
    fun n hn => destroy_dropped hn
  rw [dropped_length] at h
  exact h

theorem mapM_ofList : (List.range xs.length).mapM (ofList xs) = some xs := by
  have h : ∀ n ≤ xs.length, (List.range n).mapM (ofList xs) = some (xs.take n) := by
    intro n hn
    induction n with
    | zero => rfl
    | succ n ih =>
      have hget : ofList xs n = some (xs.get ⟨n, hn⟩) := List.getElem?_eq_getElem hn
      rw [List.range_succ, List.mapM_append, ih (by omega), List.mapM_cons, hget]
      exact congrArg some (List.take_append_getElem hn)
  rw [h xs.length (Nat.le_refl _), List.take_length]

end Storage

/-! ## The vector -/

structure SmallVector (T : Type) where
  storage : Storage T
  heap : List T
  size : Nat
  onHeap : Bool

namespace SmallVector

variable {T : Type} {N : Nat}

/-- `small_vector()`. -/
def empty : SmallVector T := ⟨.raw, [], 0, false⟩

def destroyInline (v : SmallVector T) : Option (SmallVector T) :=
  if v.onHeap then some v
  else (v.storage.destroyLoop v.size).map fun st => { v with storage := st }

def clear (v : SmallVector T) : Option (SmallVector T) :=
  (if v.onHeap then some { v with heap := [] } else v.destroyInline).map fun v =>
    { v with size := 0, onHeap := false }

def spill (v : SmallVector T) : Option (SmallVector T) :=
  (v.storage.spillLoop v.heap v.size).map fun r =>
    { v with heap := r.1, storage := r.2, onHeap := true }

def pushBack (N : Nat) (v : SmallVector T) (x : T) : Option (SmallVector T) :=
  (if v.onHeap = false ∧ v.size < N then
    (v.storage.construct N v.size x).map fun st => { v with storage := st }
  else
    (if v.onHeap = false then v.spill else some v).map fun v =>
      { v with heap := v.heap ++ [x] }).map fun v => { v with size := v.size + 1 }

/-- The copy that the constructor and the assignment make. -/
def copyFrom (N : Nat) (v o : SmallVector T) : Option (SmallVector T) :=
  let v := { v with size := o.size, onHeap := o.onHeap }
  if v.onHeap then some { v with heap := o.heap }
  else (Storage.copyLoop N o.storage v.storage v.size).map fun st => { v with storage := st }

/-- The move that the constructor and the assignment make, and what is left of `o`. -/
def moveFrom (N : Nat) (v o : SmallVector T) : Option (SmallVector T × SmallVector T) :=
  let v := { v with size := o.size, onHeap := o.onHeap }
  (if v.onHeap then some ({ v with heap := o.heap }, { o with heap := [] })
  else (Storage.moveLoop N (v.storage, o.storage) v.size).map fun r =>
    ({ v with storage := r.1 }, { o with storage := r.2 })).map fun r =>
      (r.1, { r.2 with size := 0, onHeap := false })

/-- What is read from `begin()` to `end()`. -/
def elements (v : SmallVector T) : Option (List T) :=
  if v.onHeap then (if v.size ≤ v.heap.length then some (v.heap.take v.size) else none)
  else (List.range v.size).mapM v.storage

/-- The list in its own storage. -/
def inline (xs : List T) : SmallVector T := ⟨.ofList xs, [], xs.length, false⟩

/-- The list on the heap. -/
def spilled (xs : List T) : SmallVector T := ⟨.raw, xs, xs.length, true⟩

/-- The vector stands for the list. -/
inductive Rep (N : Nat) : SmallVector T → List T → Prop where
  | inline (xs : List T) (h : xs.length ≤ N) : Rep N (inline xs) xs
  | spilled (xs : List T) : Rep N (spilled xs) xs

variable {v : SmallVector T} {xs : List T}

theorem Rep.empty : Rep N (empty : SmallVector T) [] := .inline [] (Nat.zero_le N)

theorem Rep.elements (h : Rep N v xs) : v.elements = some xs ∧ v.size = xs.length := by
  cases h with
  | inline xs h => exact ⟨Storage.mapM_ofList, rfl⟩
  | spilled xs =>
    refine ⟨?_, rfl⟩
    simp [SmallVector.elements, SmallVector.spilled]

theorem Rep.clear (h : Rep N v xs) : v.clear = some .empty := by
  cases h with
  | inline xs h =>
    simp only [SmallVector.clear, destroyInline, SmallVector.inline, Bool.false_eq_true, ↓reduceIte,
      Storage.destroyLoop_ofList, Option.map_some]
    rfl
  | spilled xs => rfl

/-- The destructor leaves nothing in the storage. -/
theorem Rep.destroyInline (h : Rep N v xs) :
    ∃ v', v.destroyInline = some v' ∧ v'.storage = .raw := by
  cases h with
  | inline xs h =>
    simp only [SmallVector.destroyInline, SmallVector.inline, Bool.false_eq_true, ↓reduceIte,
      Storage.destroyLoop_ofList, Option.map_some]
    exact ⟨_, rfl, rfl⟩
  | spilled xs => exact ⟨_, rfl, rfl⟩

theorem Rep.copyFrom (h : Rep N v xs) : ∃ v', copyFrom N .empty v = some v' ∧ Rep N v' xs := by
  cases h with
  | inline xs h =>
    refine ⟨_, ?_, .inline xs h⟩
    simp only [SmallVector.copyFrom, SmallVector.inline, SmallVector.empty, Bool.false_eq_true,
      ↓reduceIte, Storage.copyLoop_ofList h, Option.map_some]
  | spilled xs => exact ⟨_, rfl, .spilled xs⟩

theorem Rep.moveFrom (h : Rep N v xs) :
    ∃ v', moveFrom N .empty v = some (v', .empty) ∧ Rep N v' xs := by
  cases h with
  | inline xs h =>
    refine ⟨_, ?_, .inline xs h⟩
    simp only [SmallVector.moveFrom, SmallVector.inline, SmallVector.empty, Bool.false_eq_true,
      ↓reduceIte, Storage.moveLoop_ofList h, Option.map_some]
  | spilled xs => exact ⟨_, rfl, .spilled xs⟩

/-- The element that does not fit takes all of them to the heap. -/
theorem Rep.pushBack (h : Rep N v xs) (x : T) :
    ∃ v', v.pushBack N x = some v' ∧ Rep N v' (xs ++ [x]) := by
  cases h with
  | inline xs h =>
    by_cases hlt : xs.length < N
    · refine ⟨_, ?_, .inline (xs ++ [x]) (by simpa using hlt)⟩
      simp [SmallVector.pushBack, SmallVector.inline, hlt, Storage.construct_ofList hlt]
    · refine ⟨_, ?_, .spilled (xs ++ [x])⟩
      simp [SmallVector.pushBack, SmallVector.inline, SmallVector.spilled, hlt, spill,
        Storage.spillLoop_ofList]
  | spilled xs =>
    refine ⟨_, ?_, .spilled (xs ++ [x])⟩
    simp [SmallVector.pushBack, SmallVector.spilled]

end SmallVector

/-! ## Programs -/

/-- What a program does with its vectors; `k` and `j` name objects. -/
inductive VectorAct (T : Type) where
  | create (k : Nat)
  | pushBack (k : Nat) (x : T)
  | copyConstruct (k j : Nat)
  | copyAssign (k j : Nat)
  | moveConstruct (k j : Nat)
  | moveAssign (k j : Nat)
  | destroy (k : Nat)

/-- The objects of a program. -/
structure Vectors (T : Type) where
  objs : Nat → Option (SmallVector T)
  /-- the storage of the objects that were destroyed, as they left it -/
  ended : List (Storage T)

namespace Vectors

variable {T : Type}

def start : Vectors T := ⟨fun _ => none, []⟩

def put (w : Vectors T) (k : Nat) (v : SmallVector T) : Vectors T :=
  { w with objs := Function.update w.objs k (some v) }

open SmallVector in
def step (N : Nat) (w : Vectors T) : VectorAct T → Option (Vectors T)
  | .create k => if (w.objs k).isNone = true then some (w.put k .empty) else none
  | .pushBack k x => (w.objs k).bind fun v => (v.pushBack N x).map (w.put k)
  | .copyConstruct k j =>
    if (w.objs k).isNone = true then
      (w.objs j).bind fun o => (copyFrom N .empty o).map (w.put k)
    else none
  | .copyAssign k j => (w.objs k).bind fun v => (w.objs j).bind fun o =>
    if k = j then some w else (v.clear.bind (copyFrom N · o)).map (w.put k)
  | .moveConstruct k j =>
    if (w.objs k).isNone = true then
      (w.objs j).bind fun o => (moveFrom N .empty o).map fun r => (w.put j r.2).put k r.1
    else none
  | .moveAssign k j => (w.objs k).bind fun v => (w.objs j).bind fun o =>
    if k = j then some w
    else (v.clear.bind (moveFrom N · o)).map fun r => (w.put j r.2).put k r.1
  | .destroy k => (w.objs k).bind fun v => v.destroyInline.map fun v =>
    ⟨Function.update w.objs k none, w.ended ++ [v.storage]⟩

def machine (T : Type) (N : Nat) : Machine (Vectors T) (VectorAct T) where
  Init w := w = start
  step := step N

end Vectors

/-- The same program with lists for its objects. -/
abbrev Lists (T : Type) := Nat → Option (List T)

namespace Lists

variable {T : Type}

def start : Lists T := fun _ => none

def put (l : Lists T) (k : Nat) (xs : List T) : Lists T := Function.update l k (some xs)

def step (l : Lists T) : VectorAct T → Option (Lists T)
  | .create k => if (l k).isNone = true then some (l.put k []) else none
  | .pushBack k x => (l k).map fun xs => l.put k (xs ++ [x])
  | .copyConstruct k j => if (l k).isNone = true then (l j).map (l.put k) else none
  | .copyAssign k j => (l k).bind fun _ => (l j).map fun ys => if k = j then l else l.put k ys
  | .moveConstruct k j =>
    if (l k).isNone = true then (l j).map fun ys => (l.put j []).put k ys else none
  | .moveAssign k j => (l k).bind fun _ => (l j).map fun ys =>
    if k = j then l else (l.put j []).put k ys
  | .destroy k => (l k).map fun _ => Function.update l k none

def machine (T : Type) : Machine (Lists T) (VectorAct T) where
  Init l := l = start
  step := step

end Lists

namespace Vectors

open SmallVector

variable {T : Type} {N : Nat} {w : Vectors T} {l : Lists T}

/-- Every object stands for its list, and what was destroyed left nothing behind. -/
structure Rel (N : Nat) (w : Vectors T) (l : Lists T) : Prop where
  objs : ∀ k, Option.Rel (Rep N) (w.objs k) (l k)
  ended : ∀ st ∈ w.ended, st = .raw

theorem start_rel : Rel N (start : Vectors T) .start := ⟨fun _ => .none, fun st h => by cases h⟩

theorem Rel.put (h : Rel N w l) (k : Nat) {v : SmallVector T} {xs : List T} (hv : Rep N v xs) :
    Rel N (w.put k v) (l.put k xs) := by
  refine ⟨fun i => ?_, h.ended⟩
  by_cases hi : i = k
  · subst hi
    simpa [Vectors.put, Lists.put] using Option.Rel.some hv
  · simpa [Vectors.put, Lists.put, hi] using h.objs i

/-- An object is there on both sides or on neither. -/
theorem Rel.cases (h : Rel N w l) (k : Nat) :
    (w.objs k = none ∧ l k = none) ∨ ∃ v xs, w.objs k = some v ∧ l k = some xs ∧ Rep N v xs := by
  have := h.objs k
  generalize w.objs k = x at this
  generalize l k = y at this
  cases this with
  | some hr => exact .inr ⟨_, _, rfl, rfl, hr⟩
  | none => exact .inl ⟨rfl, rfl⟩

/-- Construction of object `k` from object `j`. -/
theorem step_rel_construct (h : Rel N w l) (k j : Nat) {f : SmallVector T → Option (Vectors T)}
    {g : List T → Lists T}
    (hf : ∀ o ys, Rep N o ys → ∃ w', f o = some w' ∧ Rel N w' (g ys)) :
    Option.Rel (Rel N) (if (w.objs k).isNone = true then (w.objs j).bind f else none)
      (if (l k).isNone = true then (l j).map g else none) := by
  rcases h.cases k with ⟨hk, hk'⟩ | ⟨v, xs, hk, hk', -⟩
  · rw [hk, hk', if_pos Option.isNone_none, if_pos Option.isNone_none]
    rcases h.cases j with ⟨hj, hj'⟩ | ⟨o, ys, hj, hj', hr⟩
    · rw [hj, hj']
      exact .none
    · obtain ⟨w', hw', hrel⟩ := hf o ys hr
      rw [hj, hj', Option.bind_some, hw']
      exact .some hrel
  · rw [hk, hk']
    exact .none

/-- Assignment to object `k` from object `j`; to itself it changes nothing. -/
theorem step_rel_assign (h : Rel N w l) (k j : Nat)
    {f : SmallVector T → SmallVector T → Option (Vectors T)} {g : List T → Lists T}
    (hf : ∀ v o xs ys, Rep N v xs → Rep N o ys → ∃ w', f v o = some w' ∧ Rel N w' (g ys)) :
    Option.Rel (Rel N)
      ((w.objs k).bind fun v => (w.objs j).bind fun o => if k = j then some w else f v o)
      ((l k).bind fun _ => (l j).map fun ys => if k = j then l else g ys) := by
  rcases h.cases k with ⟨hk, hk'⟩ | ⟨v, xs, hk, hk', hv⟩
  · rw [hk, hk']
    exact .none
  · rw [hk, hk', Option.bind_some, Option.bind_some]
    rcases h.cases j with ⟨hj, hj'⟩ | ⟨o, ys, hj, hj', ho⟩
    · rw [hj, hj']
      exact .none
    · rw [hj, hj', Option.bind_some, Option.map_some]
      split
      · exact .some h
      · obtain ⟨w', hw', hrel⟩ := hf v o xs ys hv ho
        rw [hw']
        exact .some hrel

/-- **One operation** does to the vectors what it does to the lists. -/
theorem step_rel (h : Rel N w l) (a : VectorAct T) :
    Option.Rel (Rel N) (w.step N a) (l.step a) := by
  cases a with
  | create k =>
    simp only [step, Lists.step]
    rcases h.cases k with ⟨hk, hk'⟩ | ⟨v, xs, hk, hk', -⟩
    · rw [hk, hk']
      exact .some (h.put k .empty)
    · rw [hk, hk']
      exact .none
  | pushBack k x =>
    simp only [step, Lists.step]
    rcases h.cases k with ⟨hk, hk'⟩ | ⟨v, xs, hk, hk', hv⟩
    · rw [hk, hk']
      exact .none
    · obtain ⟨v', hp, hv'⟩ := hv.pushBack x
      rw [hk, hk', Option.bind_some, hp]
      exact .some (h.put k hv')
  | copyConstruct k j =>
    refine step_rel_construct h k j fun o ys ho => ?_
    obtain ⟨v', hc, hv'⟩ := ho.copyFrom
    exact ⟨_, by rw [hc]; rfl, h.put k hv'⟩
  | copyAssign k j =>
    refine step_rel_assign h k j fun v o xs ys hv ho => ?_
    obtain ⟨v', hc, hv'⟩ := ho.copyFrom
    exact ⟨_, by rw [hv.clear, Option.bind_some, hc]; rfl, h.put k hv'⟩
  | moveConstruct k j =>
    refine step_rel_construct h k j fun o ys ho => ?_
    obtain ⟨v', hm, hv'⟩ := ho.moveFrom
    exact ⟨_, by rw [hm]; rfl, (h.put j .empty).put k hv'⟩
  | moveAssign k j =>
    refine step_rel_assign h k j fun v o xs ys hv ho => ?_
    obtain ⟨v', hm, hv'⟩ := ho.moveFrom
    exact ⟨_, by rw [hv.clear, Option.bind_some, hm]; rfl, (h.put j .empty).put k hv'⟩
  | destroy k =>
    simp only [step, Lists.step]
    rcases h.cases k with ⟨hk, hk'⟩ | ⟨v, xs, hk, hk', hv⟩
    · rw [hk, hk']
      exact .none
    · obtain ⟨v', hd, hraw⟩ := hv.destroyInline
      rw [hk, hk', Option.bind_some, hd]
      refine .some ⟨fun i => ?_, fun st hst => ?_⟩
      · by_cases hi : i = k
        · subst hi
          simp
        · simpa [hi] using h.objs i
      · rcases List.mem_append.1 hst with hst | hst
        · exact h.ended st hst
        · rw [List.mem_singleton.1 hst, hraw]

/-- A whole program. -/
theorem run_rel (h : Rel N w l) (acts : List (VectorAct T)) :
    Option.Rel (Rel N) ((machine T N).run w acts) ((Lists.machine T).run l acts) := by
  induction acts generalizing w l with
  | nil => exact .some h
  | cons a acts ih =>
    have hs := step_rel h a
    unfold Machine.run
    change Option.Rel (Rel N) ((w.step N a).bind _) ((l.step a).bind _)
    generalize w.step N a = x at hs
    generalize l.step a = y at hs
    cases hs with
    | some hr => exact ih hr
    | none => exact .none

/-- **`small_vector` refines a list.** A program with vectors has a result exactly if it has one
with lists in their place, and then every vector that is alive shows the elements and the size of
its list. Nothing is left in the storage of those that were destroyed. -/
theorem small_vector_refines (T : Type) (N : Nat) (acts : List (VectorAct T)) :
    ((machine T N).run start acts).isSome = ((Lists.machine T).run .start acts).isSome ∧
    ∀ w l, (machine T N).run start acts = some w → (Lists.machine T).run .start acts = some l →
      (∀ k, (w.objs k).map (fun v => (v.elements, v.size)) =
        (l k).map fun xs => (some xs, xs.length)) ∧
      ∀ st ∈ w.ended, ∀ i, st i = none := by
  have h := run_rel (N := N) (start_rel (T := T)) acts
  generalize (machine T N).run start acts = x at h
  generalize (Lists.machine T).run .start acts = y at h
  cases h with
  | none => exact ⟨rfl, fun w l hw => by cases hw⟩
  | some hr =>
    refine ⟨rfl, fun w l hw hl => ?_⟩
    cases hw
    cases hl
    refine ⟨fun k => ?_, fun st hst i => ?_⟩
    · rcases hr.cases k with ⟨hk, hk'⟩ | ⟨v, xs, hk, hk', hv⟩
      · rw [hk, hk']
        rfl
      · rw [hk, hk', Option.map_some, Option.map_some, hv.elements.1, hv.elements.2]
    · rw [hr.ended st hst]
      rfl

/-- Three elements in a vector with room for two, moved to another object; the first one is used
again and destroyed. -/
def spillProgram : List (VectorAct Nat) :=
  [.create 0, .pushBack 0 1, .pushBack 0 2, .pushBack 0 3, .moveConstruct 1 0, .pushBack 0 4,
    .moveAssign 0 0, .destroy 0]

theorem small_vector_refines_spill :
    ∃ w, (machine Nat 2).run start spillProgram = some w ∧
      (w.objs 1).map (fun v => (v.elements, v.size)) = some (some [1, 2, 3], 3) ∧
      ∀ st ∈ w.ended, ∀ i, st i = none := by
  obtain ⟨hsome, hall⟩ := small_vector_refines Nat 2 spillProgram
  obtain ⟨w, hw⟩ := Option.isSome_iff_exists.1 (hsome.trans rfl)
  obtain ⟨hobjs, hended⟩ := hall w _ hw rfl
  exact ⟨w, hw, hobjs 1, hended⟩

end Vectors

end Socketpp
