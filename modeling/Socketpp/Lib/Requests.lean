import Mathlib

/-!
# Passes over a list of requests

A pass works through a list of steps. Each of them asks a device for something
or gives up without asking; the pass stops at the first step that fails.
`Ran p l res` says which requests a pass over `p` can issue with which
outcomes, whatever the device answers: every pass is such a run (`run_ran`), so
what holds of `Ran` by induction holds of every pass on every device.
-/

namespace Requests

variable {K R E : Type*}

/-- A device answers a request with an error, or with `none`. -/
structure Device (K R E : Type*) where
  ask : K → R → K × Option E

/-- The state of a device with the requests issued to it so far and their outcomes. -/
@[ext] structure Traced (K R E : Type*) where
  state : K
  issued : List (R × Option E)
  deriving DecidableEq

inductive Step (R E : Type*) where
  | ask (r : R)
  | refuse (e : E)

namespace Step

def request? : Step R E → Option R
  | ask r => some r
  | refuse _ => none

def IsRefusal : Step R E → Prop
  | ask _ => False
  | refuse _ => True

end Step

/-- The requests of a list of steps. -/
def requests (p : List (Step R E)) : List R := p.filterMap Step.request?

namespace Traced

def start (k : K) : Traced K R E := ⟨k, []⟩

/-- The requests issued, without their outcomes. -/
def requests (s : Traced K R E) : List R := s.issued.map Prod.fst

/-- Every request issued so far succeeded. -/
def AllOk (s : Traced K R E) : Prop := ∀ x ∈ s.issued, x.2 = none

instance (s : Traced K R E) : Decidable s.AllOk :=
  decidable_of_iff (∀ x ∈ s.issued, x.2.isNone = true) <| by
    simp only [AllOk, Option.isNone_iff_eq_none]

/-- No request was issued after one that failed. -/
def StopsAtFailure (s : Traced K R E) : Prop :=
  ∀ a b r e, s.issued = a ++ (r, some e) :: b → b = []

end Traced

namespace Device

variable (d : Device K R E)

def issue (s : Traced K R E) (r : R) : Traced K R E × Option E :=
  (⟨(d.ask s.state r).1, s.issued ++ [(r, (d.ask s.state r).2)]⟩, (d.ask s.state r).2)

def run : List (Step R E) → Traced K R E → Traced K R E × Option E
  | [], s => (s, none)
  | .refuse e :: _, s => (s, some e)
  | .ask r :: p, s =>
    match d.issue s r with
    | (s', none) => run p s'
    | (s', some e) => (s', some e)

@[simp] theorem run_nil (s : Traced K R E) : d.run [] s = (s, none) := rfl

variable {d}

theorem run_ask_ok {r : R} {p : List (Step R E)} {s s' : Traced K R E}
    (h : d.issue s r = (s', none)) : d.run (.ask r :: p) s = d.run p s' := by
  rw [run, h]

theorem run_ask_error {r : R} {p : List (Step R E)} {s s' : Traced K R E} {e : E}
    (h : d.issue s r = (s', some e)) : d.run (.ask r :: p) s = (s', some e) := by
  rw [run, h]

theorem run_singleton_ask (r : R) (s : Traced K R E) : d.run [.ask r] s = d.issue s r := by
  cases hi : d.issue s r with
  | mk s' out =>
    cases out with
    | none => rw [run_ask_ok hi, run_nil]
    | some e => rw [run_ask_error hi]

/-- A pass looks at the state only, not at what was issued before. -/
theorem run_congr {p : List (Step R E)} {s t : Traced K R E} (h : s.state = t.state) :
    (d.run p s).1.state = (d.run p t).1.state ∧ (d.run p s).2 = (d.run p t).2 := by
  induction p generalizing s t with
  | nil => exact ⟨h, rfl⟩
  | cons st p ih =>
    cases st with
    | refuse e => exact ⟨h, rfl⟩
    | ask r =>
      rw [run, run, issue, issue, h]
      cases (d.ask t.state r).2 with
      | some e => exact ⟨rfl, rfl⟩
      | none => exact ih rfl

/-- A pass goes on with what follows where it ends without an error. -/
theorem run_append_ok {p q : List (Step R E)} {s s' : Traced K R E}
    (h : d.run p s = (s', none)) : d.run (p ++ q) s = d.run q s' := by
  induction p generalizing s with
  | nil => cases h; rfl
  | cons st p ih =>
    cases st with
    | refuse e => cases h
    | ask r =>
      rw [List.cons_append]
      cases hi : d.issue s r with
      | mk s₁ out =>
        cases out with
        | none => rw [run_ask_ok hi] at h ⊢; exact ih h
        | some e => rw [run_ask_error hi] at h; cases h

theorem run_append_error {p q : List (Step R E)} {s s' : Traced K R E} {e : E}
    (h : d.run p s = (s', some e)) : d.run (p ++ q) s = (s', some e) := by
  induction p generalizing s with
  | nil => cases h
  | cons st p ih =>
    cases st with
    | refuse e => exact h
    | ask r =>
      rw [List.cons_append]
      cases hi : d.issue s r with
      | mk s₁ out =>
        cases out with
        | none => rw [run_ask_ok hi] at h ⊢; exact ih h
        | some e => rw [run_ask_error hi] at h ⊢; exact h

/-- **Invariants of a device**: what every answered request keeps holds after a pass. -/
theorem run_inv {I : K → Prop} {p : List (Step R E)}
    (hask : ∀ r ∈ requests p, ∀ k, I k → I (d.ask k r).1) {s : Traced K R E} (hs : I s.state) :
    I (d.run p s).1.state := by
  induction p generalizing s with
  | nil => exact hs
  | cons st p ih =>
    cases st with
    | refuse e => exact hs
    | ask r =>
      have hnext : I (d.issue s r).1.state := hask r (List.mem_cons_self ..) s.state hs
      cases hi : d.issue s r with
      | mk s₁ out =>
        rw [hi] at hnext
        cases out with
        | none =>
          rw [run_ask_ok hi]
          exact ih (fun r' hr' => hask r' (List.mem_cons_of_mem _ hr')) hnext
        | some e => rw [run_ask_error hi]; exact hnext

/-- A device that takes every request. -/
theorem run_allOk (hd : ∀ k r, (d.ask k r).2 = none) {p : List (Step R E)} {s : Traced K R E}
    (hs : s.AllOk) : (d.run p s).1.AllOk := by
  induction p generalizing s with
  | nil => exact hs
  | cons st p ih =>
    cases st with
    | refuse e => exact hs
    | ask r =>
      have hi : d.issue s r = ((d.issue s r).1, none) := Prod.ext rfl (hd s.state r)
      rw [run_ask_ok hi]
      refine ih fun x hx => ?_
      rcases List.mem_append.1 hx with hx | hx
      · exact hs x hx
      · rw [List.mem_singleton.1 hx]
        exact hd s.state r

end Device

/-! ## What a pass can do -/

/-- A pass over some steps issues these requests with these outcomes, and ends so. -/
inductive Ran : List (Step R E) → List (R × Option E) → Option E → Prop where
  | done : Ran [] [] none
  | refused (e : E) (p : List (Step R E)) : Ran (.refuse e :: p) [] (some e)
  | failed (r : R) (e : E) (p : List (Step R E)) : Ran (.ask r :: p) [(r, some e)] (some e)
  | asked (r : R) {p : List (Step R E)} {l : List (R × Option E)} {res : Option E}
      (h : Ran p l res) : Ran (.ask r :: p) ((r, none) :: l) res

theorem Device.run_ran (d : Device K R E) (p : List (Step R E)) (s : Traced K R E) :
    ∃ l, (d.run p s).1.issued = s.issued ++ l ∧ Ran p l (d.run p s).2 := by
  induction p generalizing s with
  | nil => exact ⟨[], (List.append_nil _).symm, .done⟩
  | cons st p ih =>
    cases st with
    | refuse e => exact ⟨[], (List.append_nil _).symm, .refused e p⟩
    | ask r =>
      have hissued : (d.issue s r).1.issued = s.issued ++ [(r, (d.issue s r).2)] := rfl
      cases hi : d.issue s r with
      | mk s₁ out =>
        rw [hi] at hissued
        cases out with
        | none =>
          obtain ⟨l, hl, hran⟩ := ih s₁
          rw [run_ask_ok hi]
          exact ⟨(r, none) :: l, by rw [hl, hissued, List.append_assoc]; rfl, .asked r hran⟩
        | some e =>
          rw [run_ask_error hi]
          exact ⟨[(r, some e)], hissued, .failed r e p⟩

/-- A pass on a device that nothing was asked of. -/
theorem Device.run_ran_start (d : Device K R E) (p : List (Step R E)) (k : K) :
    Ran p (d.run p (.start k)).1.issued (d.run p (.start k)).2 := by
  obtain ⟨l, hl, hran⟩ := d.run_ran p (.start k)
  rwa [hl]

namespace Ran

variable {p : List (Step R E)} {l : List (R × Option E)} {res : Option E}

/-- **Nothing is asked after a failure.** -/
theorem stops (h : Ran p l res) {a b : List (R × Option E)} {r : R} {e : E}
    (hl : l = a ++ (r, some e) :: b) : b = [] := by
  induction h generalizing a with
  | done => cases a <;> cases hl
  | refused => cases a <;> cases hl
  | failed r' e' p =>
    cases a with
    | nil => cases hl; rfl
    | cons x a =>
      have := congrArg List.length (List.cons.inj hl).2
      simp at this
  | asked r' _ ih =>
    cases a with
    | nil => cases hl
    | cons x a => exact ih (List.cons.inj hl).2

/-- **A pass that nothing stops** issues every request once, in order. -/
theorem complete (h : Ran p l res) (hp : ∀ st ∈ p, ¬ st.IsRefusal)
    (hl : ∀ x ∈ l, x.2 = none) : res = none ∧ l.map Prod.fst = requests p := by
  induction h with
  | done => exact ⟨rfl, rfl⟩
  | refused e p => exact absurd trivial (hp _ (List.mem_cons_self ..))
  | failed r e p => cases hl _ (List.mem_cons_self ..)
  | asked r _ ih =>
    obtain ⟨hres, hreq⟩ := ih (fun st hst => hp st (List.mem_cons_of_mem _ hst))
      fun x hx => hl x (List.mem_cons_of_mem _ hx)
    refine ⟨hres, ?_⟩
    rw [List.map_cons, hreq]
    rfl

/-- In a pass that ends without an error no request fails. -/
theorem allOk_of_none (h : Ran p l res) (hres : res = none) : ∀ x ∈ l, x.2 = none := by
  induction h with
  | done => exact List.forall_mem_nil _
  | refused e p => cases hres
  | failed r e p => cases hres
  | asked r _ ih => exact List.forall_mem_cons.2 ⟨rfl, ih hres⟩

/-- A pass with a step that gives up ends with an error. -/
theorem ne_none_of_refusal (h : Ran p l res) {st : Step R E} (hst : st ∈ p)
    (hr : st.IsRefusal) : res ≠ none := by
  induction h with
  | done => cases hst
  | refused e p => exact Option.some_ne_none e
  | failed r e p => exact Option.some_ne_none e
  | asked r _ ih =>
    rcases List.mem_cons.1 hst with rfl | hst
    · exact hr.elim
    · exact ih hst

end Ran

end Requests
