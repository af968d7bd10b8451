import Socketpp.Lib.Cells
import Socketpp.Lib.Machine

/-!
# Who closes a handle

`socket` (`include/socketpp/socket/socket.hpp`, `src/socket/socket.cpp`) owns a
handle: it closes it in its destructor and before a move assignment, and gives
it up in `release` and when it is moved from. `on_close_deregister_` is called
before a handle is closed or released, and travels with it. A `std::function`
that was moved from is empty.

`Sockets` is any number of such objects. The log keeps what happens to the
handles. A handle that is passed in once has one life: it is passed in, held by
one object for as long as nothing else happens, and in the end closed or
released (`Life`, `handles_linear`).
-/

namespace Socketpp

/-- `socket_t`. -/
abbrev SocketT := Int

def invalidSocket : SocketT := -1

/-- What happens to a handle. -/
inductive HandleEvent where
  /-- `socket(socket_t)` -/
  | passedIn (h : SocketT)
  /-- a call of `on_close_deregister_` -/
  | deregistered (h : SocketT) (callback : Nat)
  /-- `::close` or `::closesocket` -/
  | closed (h : SocketT)
  /-- returned by `release` -/
  | released (h : SocketT)
  deriving DecidableEq, Repr

def HandleEvent.handle : HandleEvent → SocketT
  | passedIn h | deregistered h _ | closed h | released h => h

/-! ## One object -/

/-- `socket`, with the callback and the dispatcher as the caller names them. -/
structure Socket where
  handle : SocketT
  dispatcher : Option Nat
  onCloseDeregister : Option Nat
  deriving DecidableEq, Repr

namespace Socket

/-- `socket()`, and an object that was moved from, closed or released. -/
def empty : Socket := ⟨invalidSocket, none, none⟩

def ofHandle (h : SocketT) : Socket := ⟨h, none, none⟩

/-- The call of the callback, if there is one. -/
def deregister (s : Socket) : List HandleEvent :=
  (s.onCloseDeregister.map (HandleEvent.deregistered s.handle)).toList

def close (s : Socket) : Socket × List HandleEvent :=
  if s.handle = invalidSocket then (s, [])
  else (empty, s.deregister ++ [.closed s.handle])

def release (s : Socket) : Socket × List HandleEvent :=
  (empty, s.deregister ++ [.released s.handle])

/-- The new object and what is left of `other`. -/
def moveFrom (other : Socket) : Socket × Socket :=
  (⟨other.handle, other.dispatcher, other.onCloseDeregister⟩, ⟨invalidSocket, none, none⟩)

end Socket

/-! ## Many objects -/

structure Sockets where
  /-- the objects, `none` once their lifetime is over -/
  objs : List (Option Socket)
  log : List HandleEvent
  deriving DecidableEq, Repr

namespace Sockets

def start : Sockets := ⟨[], []⟩

inductive Act where
  /-- `socket()` -/
  | create
  /-- `socket(socket_t)` -/
  | construct (h : SocketT)
  /-- `socket(socket &&)` from object `j` -/
  | moveConstruct (j : Nat)
  /-- `operator=(socket &&)`, to object `k` from object `j` -/
  | moveAssign (k j : Nat)
  | release (k : Nat)
  | close (k : Nat)
  | destroy (k : Nat)
  | setDispatcher (k : Nat) (d : Option Nat)
  | setCloseCallback (k : Nat) (callback : Option Nat)
  deriving DecidableEq, Repr

/-- The object at `k`. -/
def objAt (s : Sockets) (k : Nat) : Option Socket := s.objs[k]?.join

def put (s : Sockets) (k : Nat) (o : Option Socket) (events : List HandleEvent) : Sockets :=
  ⟨s.objs.set k o, s.log ++ events⟩

def add (s : Sockets) (o : Socket) (events : List HandleEvent) : Sockets :=
  ⟨s.objs ++ [some o], s.log ++ events⟩

def step (s : Sockets) : Act → Option Sockets
  | .create => some (s.add .empty [])
  | .construct h => some (s.add (.ofHandle h) [.passedIn h])
  | .moveConstruct j =>
    (s.objAt j).map fun p => (s.put j (some p.moveFrom.2) []).add p.moveFrom.1 []
  | .moveAssign k j =>
    (s.objAt k).bind fun o => (s.objAt j).map fun p =>
      if k = j then s
      else ((s.put k (some o.close.1) o.close.2).put k (some p.moveFrom.1) []).put j
        (some p.moveFrom.2) []
  | .release k => (s.objAt k).map fun o => s.put k (some o.release.1) o.release.2
  | .close k => (s.objAt k).map fun o => s.put k (some o.close.1) o.close.2
  | .destroy k => (s.objAt k).map fun o => s.put k none o.close.2
  | .setDispatcher k d => (s.objAt k).map fun o => s.put k (some { o with dispatcher := d }) []
  | .setCloseCallback k cb =>
    (s.objAt k).map fun o => s.put k (some { o with onCloseDeregister := cb }) []

def machine : Machine Sockets Act where
  Init s := s = start
  step := step

/-- Object `k` holds the handle. -/
def Holds (s : Sockets) (k : Nat) (h : SocketT) : Prop := (s.objAt k).map Socket.handle = some h

instance (s : Sockets) (k : Nat) (h : SocketT) : Decidable (s.Holds k h) :=
  inferInstanceAs (Decidable (_ = _))

/-! ## The life of a handle -/

/-- What happened to a handle, in order. -/
def history (s : Sockets) (h : SocketT) : List HandleEvent := s.log.filter fun e => e.handle = h

/-- One if the object holds the handle. -/
def weight (h : SocketT) : Option Socket → Nat
  | some o => if o.handle = h then 1 else 0
  | none => 0

def holders (s : Sockets) (h : SocketT) : Nat := (s.objs.map (weight h)).sum

end Sockets

/-- The end of a handle: the callback, if there is one, and then `close` or `release`. -/
inductive Ending (h : SocketT) : List HandleEvent → Prop where
  | closed (callback : Option Nat) :
      Ending h ((callback.map (HandleEvent.deregistered h)).toList ++ [.closed h])
  | released (callback : Option Nat) :
      Ending h ((callback.map (HandleEvent.deregistered h)).toList ++ [.released h])

/-- The history of a handle goes with the number of objects that hold it. -/
inductive Life (h : SocketT) : List HandleEvent → Nat → Prop where
  | unused : Life h [] 0
  | held : Life h [.passedIn h] 1
  | ended {events : List HandleEvent} (he : Ending h events) : Life h (.passedIn h :: events) 0

namespace Sockets

variable {s s' : Sockets} {k j : Nat} {o p : Socket} {h : SocketT}

/-- Every handle that was passed in once has one life. -/
def Inv (s : Sockets) : Prop :=
  ∀ h, h ≠ invalidSocket → s.log.count (.passedIn h) ≤ 1 → Life h (s.history h) (s.holders h)

theorem start_inv : start.Inv := fun _ _ _ => .unused

/-! ### Lemmas on one update -/

theorem objAt_eq_some : s.objAt k = some o ↔ s.objs[k]? = some (some o) :=
  Option.join_eq_some_iff

theorem history_put (v : Option Socket) (events : List HandleEvent) :
    (s.put k v events).history h = s.history h ++ events.filter fun e => e.handle = h :=
  List.filter_append ..

theorem holders_put (hk : s.objAt k = some o) (v : Option Socket) (events : List HandleEvent) :
    (s.put k v events).holders h + weight h (some o) = s.holders h + weight h v :=
  Cells.sum_map_set (weight h) (objAt_eq_some.1 hk) v

theorem count_log_put (e : HandleEvent) (v : Option Socket) (events : List HandleEvent) :
    s.log.count e ≤ (s.put k v events).log.count e := by
  rw [put, List.count_append]
  exact Nat.le_add_right ..

theorem count_log_add (e : HandleEvent) (events : List HandleEvent) :
    s.log.count e ≤ (s.add o events).log.count e := by
  rw [add, List.count_append]
  exact Nat.le_add_right ..

theorem history_add (events : List HandleEvent) :
    (s.add o events).history h = s.history h ++ events.filter fun e => e.handle = h :=
  List.filter_append ..

theorem holders_add (events : List HandleEvent) :
    (s.add o events).holders h = s.holders h + weight h (some o) := by
  simp [holders, add]

theorem objAt_put_self {events : List HandleEvent} (hk : s.objAt k = some o) (v : Option Socket) :
    (s.put k v events).objAt k = v := by
  have hlt := (List.getElem?_eq_some_iff.1 (objAt_eq_some.1 hk)).1
  rw [objAt, put, List.getElem?_set_self hlt]
  rfl

theorem objAt_put_ne {events : List HandleEvent} (hne : k ≠ j) (v : Option Socket) :
    (s.put k v events).objAt j = s.objAt j := by
  rw [objAt, put, List.getElem?_set_ne hne]
  rfl

theorem weight_moved (hh : h ≠ invalidSocket) : weight h (some p.moveFrom.2) = 0 :=
  if_neg (Ne.symm hh)

/-! ### The steps -/

/-- An object that keeps its handle. -/
theorem Inv.keep (hi : s.Inv) (hk : s.objAt k = some o) {o' : Socket}
    (hh : o'.handle = o.handle) : (s.put k (some o') []).Inv := by
  intro h hne hp
  have hw : weight h (some o') = weight h (some o) := by rw [weight, weight, hh]
  have hn := holders_put hk (some o') [] (h := h)
  rw [history_put, List.filter_nil, List.append_nil,
    show (s.put k (some o') []).holders h = s.holders h by omega]
  exact hi h hne ((count_log_put ..).trans hp)

/-- The events end the handle of the object, and the object no longer holds one. -/
structure Drops (o : Socket) (v : Option Socket) (events : List HandleEvent) : Prop where
  empty : ∀ h, h ≠ invalidSocket → weight h v = 0
  ends : o.handle ≠ invalidSocket → Ending o.handle events
  other : ∀ h, h ≠ invalidSocket → o.handle ≠ h → events.filter (fun e => e.handle = h) = []

theorem Ending.filter_self {events : List HandleEvent} (he : Ending h events) :
    events.filter (fun e => e.handle = h) = events := by
  cases he with
  | closed cb | released cb => cases cb <;> simp [HandleEvent.handle]

/-- An object that closes or releases its handle. -/
theorem Inv.drop (hi : s.Inv) (hk : s.objAt k = some o) {v : Option Socket}
    {events : List HandleEvent} (hd : Drops o v events) : (s.put k v events).Inv := by
  intro h hne hp
  have hn := holders_put hk v events (h := h)
  rw [hd.empty h hne] at hn
  rw [history_put]
  have hl := hi h hne ((count_log_put ..).trans hp)
  by_cases hh : o.handle = h
  · -- the object is the only holder, so the handle was passed in and nothing more
    rw [show weight h (some o) = 1 from if_pos hh] at hn
    have he := hh ▸ hd.ends (hh ▸ hne)
    rw [Ending.filter_self he]
    generalize s.history h = l at hl ⊢
    generalize s.holders h = n at hl hn
    cases hl with
    | unused => omega
    | held =>
      rw [show (s.put k v events).holders h = 0 by omega]
      exact .ended he
    | ended => omega
  · rw [show weight h (some o) = 0 from if_neg hh] at hn
    rw [hd.other h hne hh, List.append_nil,
      show (s.put k v events).holders h = s.holders h by omega]
    exact hl

theorem deregister_filter (hh : o.handle ≠ h) :
    o.deregister.filter (fun e => e.handle = h) = [] := by
  rw [Socket.deregister]
  cases o.onCloseDeregister <;> simp [HandleEvent.handle, hh]

theorem drops_close (v : Option Socket) (hv : ∀ h, h ≠ invalidSocket → weight h v = 0) :
    Drops o v o.close.2 where
  empty := hv
  ends hne := by
    rw [Socket.close, if_neg hne]
    exact .closed _
  other h _ hh := by
    rw [Socket.close]
    split
    · rfl
    · rw [List.filter_append, deregister_filter hh]
      simp [HandleEvent.handle, hh]

theorem weight_close {h : SocketT} (hne : h ≠ invalidSocket) :
    weight h (some o.close.1) = 0 := by
  rw [Socket.close]
  split
  · rename_i ho
    refine if_neg fun hc => hne ?_
    rw [← hc, ho]
  · exact if_neg (Ne.symm hne)

theorem drops_release : Drops o (some o.release.1) o.release.2 where
  empty _ hne := if_neg (Ne.symm hne)
  ends _ := .released _
  other h _ hh := by
    rw [Socket.release, List.filter_append, deregister_filter hh]
    simp [HandleEvent.handle, hh]

/-- The handle of object `j` goes to object `k`, which holds none. -/
theorem Inv.transfer (hi : s.Inv) (hk : s.objAt k = some o) (hj : s.objAt j = some p)
    (hne : k ≠ j) (ho : ∀ h, h ≠ invalidSocket → weight h (some o) = 0) :
    ((s.put k (some p.moveFrom.1) []).put j (some p.moveFrom.2) []).Inv := by
  intro h hh hp
  have hn := holders_put hk (some p.moveFrom.1) [] (h := h)
  have hj' : (s.put k (some p.moveFrom.1) []).objAt j = some p := (objAt_put_ne hne _).trans hj
  have hn' := holders_put hj' (some p.moveFrom.2) [] (h := h)
  have hw : weight h (some p.moveFrom.1) = weight h (some p) := rfl
  rw [weight_moved hh] at hn'
  rw [ho h hh, hw] at hn
  rw [history_put, history_put, List.filter_nil, List.append_nil, List.append_nil,
    show ((s.put k (some p.moveFrom.1) []).put j (some p.moveFrom.2) []).holders h =
      s.holders h by omega]
  exact hi h hh ((count_log_put ..).trans ((count_log_put ..).trans hp))

theorem Inv.moveConstruct (hi : s.Inv) (hj : s.objAt j = some p) :
    ((s.put j (some p.moveFrom.2) []).add p.moveFrom.1 []).Inv := by
  intro h hh hp
  have hn := holders_put hj (some p.moveFrom.2) [] (h := h)
  have hw : weight h (some p.moveFrom.1) = weight h (some p) := rfl
  rw [weight_moved hh] at hn
  rw [history_add, history_put, List.filter_nil, List.append_nil, List.append_nil, holders_add, hw,
    show (s.put j (some p.moveFrom.2) []).holders h + weight h (some p) = s.holders h by omega]
  exact hi h hh ((count_log_put ..).trans ((count_log_add ..).trans hp))

theorem Inv.create (hi : s.Inv) : (s.add .empty []).Inv := by
  intro h hh hp
  have hw : weight h (some Socket.empty) = 0 := if_neg (Ne.symm hh)
  rw [history_add, holders_add, hw, List.filter_nil, List.append_nil, Nat.add_zero]
  exact hi h hh ((count_log_add ..).trans hp)

theorem not_passedIn_of_count (hp : (s.add o [.passedIn h]).log.count (.passedIn h) ≤ 1) :
    HandleEvent.passedIn h ∉ s.history h := by
  rw [add, List.count_append, List.count_singleton_self] at hp
  intro hm
  have := List.count_pos_iff.2 (List.mem_filter.1 hm).1
  omega

/-- A handle that was not passed in before. -/
theorem Inv.construct (hi : s.Inv) (x : SocketT) :
    (s.add (.ofHandle x) [.passedIn x]).Inv := by
  intro h hh hp
  have hl := hi h hh ((count_log_add ..).trans hp)
  rw [history_add, holders_add]
  by_cases hxh : x = h
  · subst hxh
    have hnot := not_passedIn_of_count hp
    rw [show weight x (some (Socket.ofHandle x)) = 1 from if_pos rfl,
      show [HandleEvent.passedIn x].filter (fun e => e.handle = x) = [.passedIn x] by
        simp [HandleEvent.handle]]
    generalize s.history x = l at hl hnot ⊢
    generalize s.holders x = n at hl ⊢
    cases hl with
    | unused => exact .held
    | held => exact absurd (List.mem_singleton.2 rfl) hnot
    | ended => exact absurd (List.mem_cons_self ..) hnot
  · rw [show weight h (some (Socket.ofHandle x)) = 0 from if_neg hxh,
      show [HandleEvent.passedIn x].filter (fun e => e.handle = h) = [] by
        simp [HandleEvent.handle, hxh], List.append_nil]
    exact hl

theorem step_inv {a : Act} (hi : s.Inv) (he : s.step a = some s') : s'.Inv := by
  cases a with
  | create => cases he; exact hi.create
  | construct h => cases he; exact hi.construct h
  | moveConstruct j =>
    obtain ⟨p, hj, rfl⟩ := Option.map_eq_some_iff.1 he
    exact hi.moveConstruct hj
  | moveAssign k j =>
    obtain ⟨o, hk, he⟩ := Option.bind_eq_some_iff.1 he
    obtain ⟨p, hj, rfl⟩ := Option.map_eq_some_iff.1 he
    split
    · exact hi
    · rename_i hne
      have hdrop := hi.drop hk (drops_close (some o.close.1) fun _ => weight_close)
      exact hdrop.transfer (objAt_put_self hk _) ((objAt_put_ne hne _).trans hj) hne
        fun _ => weight_close
  | release k =>
    obtain ⟨o, hk, rfl⟩ := Option.map_eq_some_iff.1 he
    exact hi.drop hk drops_release
  | close k =>
    obtain ⟨o, hk, rfl⟩ := Option.map_eq_some_iff.1 he
    exact hi.drop hk (drops_close _ fun _ => weight_close)
  | destroy k =>
    obtain ⟨o, hk, rfl⟩ := Option.map_eq_some_iff.1 he
    exact hi.drop hk (drops_close _ fun _ _ => rfl)
  | setDispatcher k d =>
    obtain ⟨o, hk, rfl⟩ := Option.map_eq_some_iff.1 he
    exact hi.keep hk rfl
  | setCloseCallback k cb =>
    obtain ⟨o, hk, rfl⟩ := Option.map_eq_some_iff.1 he
    exact hi.keep hk rfl

theorem reach_inv (h : machine.Reach s) : s.Inv :=
  h.inv (I := Inv) (fun s (hs : s = start) => hs ▸ start_inv)
    fun _ _ _ _ hi _ he => step_inv hi he

end Sockets

/-! ## What a life says -/

/-- A call of `on_close_deregister_` for the handle. -/
def isDeregistration (h : SocketT) : HandleEvent → Bool
  | .deregistered h' _ => h' = h
  | _ => false

namespace Life

variable {h : SocketT} {l : List HandleEvent} {n : Nat}

/-- A handle that was passed in is held, closed or released. -/
theorem balance (hl : Life h l n) :
    l.count (.closed h) + l.count (.released h) + n = l.count (.passedIn h) ∧
      l.countP (isDeregistration h) ≤ 1 := by
  cases hl with
  | unused => exact ⟨rfl, Nat.zero_le _⟩
  | held => simp [isDeregistration]
  | ended he =>
    cases he with
    | closed cb | released cb => cases cb <;> simp [isDeregistration]

/-- The callback comes right after the handle was passed in. -/
theorem deregistered_first {a b : List HandleEvent} {cb : Nat}
    (hl : Life h (a ++ .deregistered h cb :: b) n) : a = [.passedIn h] := by
  generalize hw : a ++ HandleEvent.deregistered h cb :: b = l at hl
  cases hl with
  | unused => simp at hw
  | held => rcases a with _ | ⟨x, _ | ⟨y, a⟩⟩ <;> simp at hw
  | ended he =>
    cases he with
    | closed cb' | released cb' =>
      cases cb' <;> rcases a with _ | ⟨x, _ | ⟨y, _ | ⟨z, a⟩⟩⟩ <;> simp at hw
      exact congrArg (fun e => [e]) hw.1

end Life

namespace Sockets

variable {s : Sockets} {k : Nat} {h : SocketT}

theorem count_history {e : HandleEvent} (he : e.handle = h) :
    (s.history h).count e = s.log.count e :=
  List.count_filter (decide_eq_true he)

theorem countP_history :
    (s.history h).countP (isDeregistration h) = s.log.countP (isDeregistration h) := by
  rw [history, List.countP_filter]
  refine List.countP_congr fun e _ => ?_
  cases e with
  | deregistered x cb =>
    rw [Bool.and_eq_true]
    exact and_iff_left_of_imp id
  | passedIn | closed | released => rfl

theorem weight_pos_of_holds (hk : s.Holds k h) : ∃ o, s.objs[k]? = some o ∧ 0 < weight h o := by
  obtain ⟨o, ho, hh⟩ := Option.map_eq_some_iff.1 hk
  refine ⟨some o, objAt_eq_some.1 ho, ?_⟩
  rw [weight, if_pos hh]
  exact Nat.one_pos

theorem holders_pos_of_holds (hk : s.Holds k h) : 0 < s.holders h := by
  obtain ⟨o, ho, hw⟩ := weight_pos_of_holds hk
  exact Nat.lt_of_lt_of_le hw (Cells.weight_le_sum_map (weight h) ho)

theorem holds_of_holders_pos (hn : 0 < s.holders h) : ∃ k, s.Holds k h := by
  obtain ⟨n, hm, hpos⟩ := List.exists_mem_ne_zero_of_sum_ne_zero (Nat.ne_of_gt hn)
  obtain ⟨o, ho, rfl⟩ := List.mem_map.1 hm
  obtain ⟨k, hk⟩ := List.getElem?_of_mem ho
  cases o with
  | none => exact absurd rfl hpos
  | some o =>
    refine ⟨k, ?_⟩
    have hh : o.handle = h := by
      by_contra hne
      exact hpos (if_neg hne)
    rw [Holds, objAt_eq_some.2 hk, Option.map_some, hh]

/-- The handle has one owner at a time, and one end. -/
structure OwnedOnce (s : Sockets) (h : SocketT) : Prop where
  /-- at most one object holds it -/
  holder : ∀ k j, s.Holds k h → s.Holds j h → k = j
  /-- it is neither closed nor released while it is held -/
  held : ∀ k, s.Holds k h → HandleEvent.closed h ∉ s.log ∧ HandleEvent.released h ∉ s.log
  /-- it is closed at most once -/
  closed_le : s.log.count (.closed h) ≤ 1
  /-- and exactly once when no object holds it any more, if it was not released -/
  closed : HandleEvent.released h ∉ s.log → (∀ k, ¬ s.Holds k h) → s.log.count (.closed h) = 1
  /-- and never if it was -/
  released : HandleEvent.released h ∈ s.log → HandleEvent.closed h ∉ s.log
  /-- its callback runs at most once -/
  callback_le : s.log.countP (isDeregistration h) ≤ 1
  /-- before the handle is closed or released -/
  callback : ∀ a cb b, s.log = a ++ .deregistered h cb :: b →
    HandleEvent.closed h ∉ a ∧ HandleEvent.released h ∉ a

/-- **Ownership is linear.** For every handle that is passed in once. -/
theorem handles_linear (hr : machine.Reach s) (hne : h ≠ invalidSocket)
    (hone : s.log.count (.passedIn h) = 1) : s.OwnedOnce h := by
  have hl := reach_inv hr h hne hone.le
  obtain ⟨hbalance, hcallback⟩ := hl.balance
  rw [count_history (h := h) (e := .closed h) rfl, count_history (h := h) (e := .released h) rfl,
    count_history (h := h) (e := .passedIn h) rfl, hone] at hbalance
  rw [countP_history] at hcallback
  refine ⟨fun k j hk hj => ?_, fun k hk => ?_, by omega, fun hnr hno => ?_, fun hrel => ?_,
    hcallback, fun a cb b hlog => ?_⟩
  · obtain ⟨o, ho, hwo⟩ := weight_pos_of_holds hk
    obtain ⟨p, hp, hwp⟩ := weight_pos_of_holds hj
    have hle : s.holders h ≤ 1 := by omega
    exact Cells.eq_of_sum_map_le_one (g := weight h) hle ho hp hwo hwp
  · have hpos := holders_pos_of_holds hk
    exact ⟨List.count_eq_zero.1 (by omega), List.count_eq_zero.1 (by omega)⟩
  · have hreleased := List.count_eq_zero.2 hnr
    have hholders : s.holders h = 0 := by
      by_contra hpos
      obtain ⟨k, hk⟩ := holds_of_holders_pos (Nat.pos_of_ne_zero hpos)
      exact hno k hk
    omega
  · have hreleased := List.count_pos_iff.2 hrel
    exact List.count_eq_zero.1 (by omega)
  · -- what is in front of the callback in the log is so in the history
    have hfilter : s.history h = a.filter (fun e => e.handle = h) ++
        .deregistered h cb :: b.filter fun e => e.handle = h := by
      rw [history, hlog, List.filter_append, List.filter_cons_of_pos (by simp [HandleEvent.handle])]
    rw [hfilter] at hl
    have ha := hl.deregistered_first
    have hnot : ∀ e : HandleEvent, e.handle = h → e ≠ .passedIn h → e ∉ a := by
      intro e he hpe hm
      have hmem : e ∈ a.filter fun e => e.handle = h := List.mem_filter.2 ⟨hm, decide_eq_true he⟩
      rw [ha, List.mem_singleton] at hmem
      exact hpe hmem
    exact ⟨hnot _ rfl (by simp), hnot _ rfl (by simp)⟩

/-- Handle 5 is moved twice and closed with its callback; handle 6 is released. -/
theorem handles_linear_moved :
    ∃ s, machine.Reach s ∧
      s.log = [.passedIn 5, .passedIn 6, .released 6, .deregistered 5 9, .closed 5] ∧
      s.OwnedOnce 5 ∧ s.OwnedOnce 6 := by
  obtain ⟨s, h, hp⟩ := Machine.Reach.of_run_init (M := machine)
    (fun s => decide (s.log =
      [.passedIn 5, .passedIn 6, .released 6, .deregistered 5 9, .closed 5]))
    [.construct 5, .setCloseCallback 0 (some 9), .moveConstruct 0, .construct 6, .moveAssign 1 1,
      .release 2, .moveAssign 2 1, .destroy 0, .destroy 1, .destroy 2]
    rfl (by decide)
  have hlog := of_decide_eq_true hp
  refine ⟨s, h, hlog, handles_linear h (by decide) ?_, handles_linear h (by decide) ?_⟩
  · rw [hlog]
    decide
  · rw [hlog]
    decide

end Sockets

end Socketpp
