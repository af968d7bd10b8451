import Socketpp.Socket.UdpMux

/-!
# Making and reclaiming UDP multiplexers

`udp_mux::get_or_create` (`src/socket/udp_mux.hpp`) holds `registry_mutex_` from
its first line to its return. Its local `mux` is declared after the lock, so when
a step fails `~udp_mux` runs before the lock is released, and it takes the same
lock: `test_and_set` finds the flag set by this very call and spins. `MuxCall`
has the call step by step.

The registry holds a weak pointer. Strong owners of a mux are the peer sockets
on it and the closure of its polling thread, which returns from `iocp_loop` only
when the destructor has asked it to stop. `MuxWorld` has the owners over any
sequence of creations and destructions of peer sockets.
-/

namespace Socketpp

/-- The step of `get_or_create` that fails. -/
inductive MuxFail where
  | socket
  | options
  | bind
  | port
  | association
  deriving DecidableEq

/-- How often a handle was opened and closed. -/
structure HandleUse where
  opened : Nat
  closed : Nat
  deriving DecidableEq

namespace HandleUse

def unused : HandleUse := ⟨0, 0⟩

def make (h : HandleUse) : HandleUse := { h with opened := h.opened + 1 }

/-- `close()`, which does nothing to a handle that is closed. -/
def close (h : HandleUse) : HandleUse :=
  if h.closed < h.opened then { h with closed := h.closed + 1 } else h

end HandleUse

/-- Where the call is; a mux is known by its number. -/
inductive MuxPc where
  | lock
  | find
  | create
  | apply
  | bind
  | port
  | associate
  | run
  /-- `~udp_mux` of the abandoned mux, up to its lock -/
  | destroy
  | destroyLock
  | destroyErase
  | unlock (mux : Option Nat)
  | returned (mux : Option Nat)
  deriving DecidableEq

structure MuxCall (Addr : Type) where
  /-- the flag of `registry_mutex_` -/
  registryLock : Bool
  registry : Addr → Option Nat
  /-- the muxes that have a strong owner -/
  alive : Nat → Bool
  localAddr : Addr
  socket : HandleUse
  iocp : HandleUse
  /-- the polling thread was started -/
  polling : Bool
  pc : MuxPc

namespace MuxCall

variable {Addr : Type} [DecidableEq Addr]

def enter [Inhabited Addr] (registry : Addr → Option Nat) (alive : Nat → Bool) : MuxCall Addr :=
  ⟨false, registry, alive, default, .unused, .unused, false, .lock⟩

variable (addr : Addr) (self : Nat) (fail : Option MuxFail)

/-- `get_or_create(addr)`, where a new mux is number `self`. -/
def step (s : MuxCall Addr) : MuxCall Addr :=
  match s.pc with
  | .lock => if s.registryLock then s else { s with registryLock := true, pc := .find }
  | .find =>
    match s.registry addr with
    | some m =>
      if s.alive m then { s with pc := .unlock (some m) }
      else { s with registry := Function.update s.registry addr none, pc := .create }
    | none => { s with pc := .create }
  | .create =>
    let s := { s with alive := Function.update s.alive self true }
    if fail = some .socket then { s with pc := .destroy }
    else { s with socket := s.socket.make, pc := .apply }
  | .apply =>
    if fail = some .options then { s with socket := s.socket.close, pc := .destroy }
    else { s with pc := .bind }
  | .bind =>
    if fail = some .bind then { s with socket := s.socket.close, pc := .destroy }
    else { s with localAddr := addr, registry := Function.update s.registry addr (some self)
                  pc := .port }
  | .port =>
    if fail = some .port then { s with socket := s.socket.close, pc := .destroy }
    else { s with iocp := s.iocp.make, pc := .associate }
  | .associate =>
    if fail = some .association then
      { s with iocp := s.iocp.close, socket := s.socket.close, pc := .destroy }
    else { s with pc := .run }
  | .run => { s with polling := true, pc := .unlock (some self) }
  | .destroy =>
    { s with alive := Function.update s.alive self false, iocp := s.iocp.close
             pc := .destroyLock }
  | .destroyLock =>
    if s.registryLock then s else { s with registryLock := true, pc := .destroyErase }
  | .destroyErase =>
    let registry := if (s.registry s.localAddr).any (fun m => !s.alive m) then
      Function.update s.registry s.localAddr none else s.registry
    { s with registry := registry, registryLock := false, socket := s.socket.close
             pc := .unlock none }
  | .unlock mux => { s with registryLock := false, pc := .returned mux }
  | .returned _ => s

/-- The call has returned and released the lock; if it returned `nullptr` it has left no entry
of its own in the registry, and its handles are closed as often as they were opened. -/
def Clean (registry : Addr → Option Nat) (s : MuxCall Addr) : Prop :=
  ∃ mux, s.pc = .returned mux ∧ s.registryLock = false ∧
    (mux = none → (∀ a m, s.registry a = some m → registry a = some m) ∧
      s.socket.closed = s.socket.opened ∧ s.iocp.closed = s.iocp.opened)

variable {addr self fail} {registry : Addr → Option Nat} {alive : Nat → Bool} {s : MuxCall Addr}

/-! ## Runs of the call -/

/-- Where a call can be that has the lock and a step to fail at, or has failed. -/
def Doomed (fail : MuxFail) (s : MuxCall Addr) : Prop :=
  s.registryLock = true ∧
    (s.pc = .create ∨ s.pc = .apply ∧ fail ≠ .socket ∨
      s.pc = .bind ∧ fail ≠ .socket ∧ fail ≠ .options ∨
      s.pc = .port ∧ (fail = .port ∨ fail = .association) ∨
      s.pc = .associate ∧ fail = .association ∨ s.pc = .destroy ∨ s.pc = .destroyLock)

theorem Doomed.step {fail : MuxFail} (h : s.Doomed fail) :
    (step addr self (some fail) s).Doomed fail := by
  obtain ⟨hl, hpc⟩ := h
  rcases hpc with hpc | ⟨hpc, h1⟩ | ⟨hpc, h1, h2⟩ | ⟨hpc, h1⟩ | ⟨hpc, h1⟩ | hpc | hpc
  all_goals
    unfold MuxCall.step Doomed
    rw [hpc]
  · cases fail <;> simp [hl]
  · cases fail <;> simp_all
  · cases fail <;> simp_all
  · cases fail <;> simp_all
  · simp [hl, h1]
  · simp [hl]
  · simp [hl, hpc]

theorem iterate_doomed {fail : MuxFail} (h : s.Doomed fail) (n : Nat) :
    ((MuxCall.step addr self (some fail))^[n] s).Doomed fail := by
  induction n with
  | zero => exact h
  | succ n ih =>
    rw [Function.iterate_succ_apply']
    exact ih.step

omit [DecidableEq Addr] in
theorem Doomed.not_returned {fail : MuxFail} (h : s.Doomed fail) (mux : Option Nat) :
    s.pc ≠ .returned mux := by
  intro hr
  simp [Doomed, hr] at h

section

variable [Inhabited Addr]

theorem run_live {m : Nat} (hm : registry addr = some m) (ha : alive m = true) :
    (step addr self fail)^[3] (enter registry alive) =
      { enter registry alive with pc := .returned (some m) } := by
  simp [step, enter, hm, ha]

theorem run_new (h : (registry addr).any alive = false) :
    (step addr self none)^[9] (enter registry alive) =
      { enter registry alive with
        registry := Function.update registry addr (some self)
        alive := Function.update alive self true
        localAddr := addr
        socket := ⟨1, 0⟩
        iocp := ⟨1, 0⟩
        polling := true
        pc := .returned (some self) } := by
  cases hm : registry addr with
  | none => simp [step, enter, hm, HandleUse.make, HandleUse.unused]
  | some m =>
    rw [hm, Option.any_some] at h
    simp [step, enter, hm, h, HandleUse.make, HandleUse.unused]

theorem doomed_of_not_live {fail : MuxFail} (h : (registry addr).any alive = false) :
    ((step addr self (some fail))^[2] (enter registry alive)).Doomed fail := by
  cases hm : registry addr with
  | none => simp [step, enter, hm, Doomed]
  | some m =>
    rw [hm, Option.any_some] at h
    simp [step, enter, hm, h, Doomed]

/-- A call that fails never returns. -/
theorem not_returned_of_fail {fail : MuxFail} (h : (registry addr).any alive = false) (n : Nat)
    (mux : Option Nat) :
    ((step addr self (some fail))^[n] (enter registry alive)).pc ≠ .returned mux := by
  rcases n with - | - | n
  · simp [enter]
  · simp [step, enter]
  · rw [Function.iterate_add_apply _ n 2]
    exact (iterate_doomed (doomed_of_not_live h) n).not_returned mux

/-- **`get_or_create` comes to a clean end** just when no step fails, or none is taken because a
live mux is registered. -/
theorem get_or_create_clean_iff (registry : Addr → Option Nat) (alive : Nat → Bool)
    (addr : Addr) (self : Nat) (fail : Option MuxFail) :
    (∃ n, ((step addr self fail)^[n] (enter registry alive)).Clean registry) ↔
      fail = none ∨ (registry addr).any alive = true := by
  constructor
  · rintro ⟨n, mux, hr, -⟩
    by_contra hn
    rw [not_or] at hn
    obtain ⟨f, rfl⟩ := Option.ne_none_iff_exists'.1 hn.1
    exact not_returned_of_fail (Bool.eq_false_of_not_eq_true hn.2) n mux hr
  · intro h
    cases hl : (registry addr).any alive with
    | true =>
      obtain ⟨m, hm, ha⟩ := (Option.any_eq_true _ _).mp hl
      refine ⟨3, some m, ?_⟩
      rw [run_live hm ha]
      exact ⟨rfl, rfl, fun hnone => by cases hnone⟩
    | false =>
      rw [hl] at h
      rw [h.resolve_right Bool.false_ne_true]
      refine ⟨9, some self, ?_⟩
      rw [run_new hl]
      exact ⟨rfl, rfl, fun hnone => by cases hnone⟩

end

/-- `bind` fails with an empty registry: the call ends up waiting for the lock it holds, and never
returns. -/
theorem get_or_create_spins : ∃ s : MuxCall Nat,
    (step 0 0 (some .bind))^[6] (enter (fun _ => none) fun _ => false) = s ∧
      s.pc = .destroyLock ∧ s.registryLock = true ∧ step 0 0 (some .bind) s = s ∧
      ¬ ∃ n, ((step 0 0 (some .bind))^[n] (enter (fun _ => none) fun _ => false)).Clean
        fun _ => none := by
  refine ⟨_, rfl, rfl, rfl, rfl, ?_⟩
  rintro ⟨n, mux, hr, -⟩
  exact not_returned_of_fail rfl n mux hr

/-- The call when it has returned, or is where it stays: no path is longer. -/
def outcome [Inhabited Addr] (registry : Addr → Option Nat) (alive : Nat → Bool) (addr : Addr)
    (self : Nat) (fail : Option MuxFail) : MuxCall Addr :=
  (step addr self fail)^[9] (enter registry alive)

section

variable [Inhabited Addr]

theorem outcome_live {m : Nat} (hm : registry addr = some m) (ha : alive m = true) :
    outcome registry alive addr self fail =
      { enter registry alive with pc := .returned (some m) } := by
  have hfix : Function.IsFixedPt (step addr self fail)
      { enter registry alive with pc := .returned (some m) } := rfl
  unfold outcome
  rw [show 9 = 6 + 3 from rfl, Function.iterate_add_apply, run_live hm ha, hfix.iterate]

/-- A call returns the live mux that is registered, or makes a new one, or does not return. -/
theorem outcome_cases (registry : Addr → Option Nat) (alive : Nat → Bool) (addr : Addr)
    (self : Nat) (fail : Option MuxFail) :
    let c := outcome registry alive addr self fail
    (∃ m, registry addr = some m ∧ alive m = true ∧ c.pc = .returned (some m) ∧
        c.registry = registry) ∨
      (c.pc = .returned (some self) ∧ c.registry = Function.update registry addr (some self)) ∨
      ∀ mux, c.pc ≠ .returned mux := by
  intro c
  cases hl : (registry addr).any alive with
  | true =>
    obtain ⟨m, hm, ha⟩ := (Option.any_eq_true _ _).mp hl
    have hc : c = _ := outcome_live hm ha
    exact .inl ⟨m, hm, ha, by rw [hc], by rw [hc]; rfl⟩
  | false =>
    cases fail with
    | none =>
      have hc : c = _ := run_new hl
      exact .inr (.inl ⟨by rw [hc], by rw [hc]⟩)
    | some f => exact .inr (.inr (not_returned_of_fail hl 9))

end

end MuxCall

/-! ## Strong owners -/

structure MuxObject (Addr : Type) where
  localAddr : Addr
  mux : UdpMux Addr
  /-- the polling thread has not returned from `iocp_loop` -/
  running : Bool
  stopRequested : Bool

structure PeerSocket (Addr : Type) where
  peer : Addr
  mux : Nat

structure MuxWorld (Addr : Type) where
  registry : Addr → Option Nat
  /-- the muxes made so far, by number -/
  muxes : List (MuxObject Addr)
  /-- the peer sockets that exist -/
  sockets : List (PeerSocket Addr)
  /-- the `impl`s made so far -/
  made : Nat
  /-- a `get_or_create` waits for the registry's lock, which it has -/
  hung : Bool

namespace MuxWorld

variable {Addr : Type} [DecidableEq Addr]

def start : MuxWorld Addr := ⟨fun _ => none, [], [], 0, false⟩

/-- Peer sockets, and the closure of the polling thread. -/
def owners (s : MuxWorld Addr) (m : Nat) : Nat :=
  s.sockets.countP (fun p => p.mux = m) + if s.muxes[m]?.any MuxObject.running then 1 else 0

/-- A strong owner of the mux has gone. After the last one `~udp_mux` runs, which gets to the
registry if no call keeps the lock. -/
def release (s : MuxWorld Addr) (m : Nat) : MuxWorld Addr :=
  if s.owners m = 0 then
    match s.muxes[m]? with
    | none => s
    | some o =>
      let expired := (s.registry o.localAddr).any fun m' => s.owners m' = 0
      { s with muxes := s.muxes.set m { o with stopRequested := true }
               registry := if !s.hung && expired then Function.update s.registry o.localAddr none
                 else s.registry }
  else s

inductive Act (Addr : Type) where
  /-- `create` of a peer socket, and the step of `get_or_create` that fails if it is taken -/
  | create (addr peer : Addr) (fail : Option MuxFail)
  /-- a peer socket is destroyed -/
  | destroy (k : Nat)
  /-- `iocp_loop` returns, and the closure is destroyed -/
  | threadReturn (m : Nat)

/-- The rest of `create`, with mux `m`. -/
def createOn (s : MuxWorld Addr) (m : Nat) (peer : Addr) : Option (MuxWorld Addr) :=
  match s.muxes[m]? with
  | none => none
  | some o =>
    match UdpMux.create (some o.mux) peer s.made with
    | (some mux, .ok _) =>
      some { s with muxes := s.muxes.set m { o with mux := mux }
                    sockets := s.sockets ++ [⟨peer, m⟩]
                    made := s.made + 1 }
    | (some mux, .error _) =>
      some ({ s with muxes := s.muxes.set m { o with mux := mux }, made := s.made + 1 }.release m)
    | (none, _) => none

/-- `get_or_create` for the address. -/
def call [Inhabited Addr] (s : MuxWorld Addr) (addr : Addr) (fail : Option MuxFail) :
    MuxCall Addr :=
  MuxCall.outcome s.registry (fun m => 0 < s.owners m) addr s.muxes.length fail

def step [Inhabited Addr] (s : MuxWorld Addr) : Act Addr → Option (MuxWorld Addr)
  | .create addr peer fail =>
    if s.hung then none
    else
      let c := s.call addr fail
      match c.pc with
      | .returned (some m) =>
        let muxes := if m = s.muxes.length then s.muxes ++ [⟨addr, .start, true, false⟩]
          else s.muxes
        { s with registry := c.registry, muxes := muxes }.createOn m peer
      | .returned none => some { s with registry := c.registry }
      | _ => some { s with registry := c.registry, hung := true }
  | .destroy k =>
    match s.sockets[k]? with
    | none => none
    | some p =>
      match s.muxes[p.mux]? with
      | none => none
      | some o =>
        some ({ s with
          muxes := s.muxes.set p.mux { o with mux := o.mux.deregisterPeer p.peer }
          sockets := s.sockets.eraseIdx k }.release p.mux)
  | .threadReturn m =>
    match s.muxes[m]? with
    | none => none
    | some o =>
      if o.running && o.stopRequested then
        some ({ s with muxes := s.muxes.set m { o with running := false } }.release m)
      else none

def machine (Addr : Type) [DecidableEq Addr] [Inhabited Addr] :
    Machine (MuxWorld Addr) (Act Addr) where
  Init s := s = start
  step := step

/-- The muxes made for the address have no owner left and were told to stop, and `get_or_create`
makes a fresh one. -/
def Reclaimed [Inhabited Addr] (s : MuxWorld Addr) (addr : Addr) : Prop :=
  (∀ m o, s.muxes[m]? = some o → o.localAddr = addr →
    s.owners m = 0 ∧ o.stopRequested = true) ∧
  s.hung = false ∧ (s.call addr none).pc = .returned (some s.muxes.length)

/-! ## The polling thread keeps its mux -/

structure Inv (s : MuxWorld Addr) : Prop where
  /-- the thread of every mux runs and was not told to stop -/
  polling : ∀ o ∈ s.muxes, o.running = true ∧ o.stopRequested = false
  socket : ∀ p ∈ s.sockets, p.mux < s.muxes.length
  entry : s.hung = false → ∀ a m, s.registry a = some m →
    ∃ o, s.muxes[m]? = some o ∧ o.localAddr = a

variable {s s' : MuxWorld Addr} {a : Act Addr} {m : Nat} {o : MuxObject Addr}

omit [DecidableEq Addr] in
theorem Inv.owners_pos (h : s.Inv) (hm : s.muxes[m]? = some o) : 0 < s.owners m := by
  unfold owners
  rw [hm, Option.any_some, (h.polling o (List.mem_of_getElem? hm)).1, if_pos rfl]
  exact Nat.succ_pos _

omit [DecidableEq Addr] in
theorem Inv.not_live (h : s.Inv) (hh : s.hung = false) {addr : Addr}
    (hn : ∀ o ∈ s.muxes, o.localAddr ≠ addr) (alive : Nat → Bool) :
    (s.registry addr).any alive = false := by
  cases hr : s.registry addr with
  | none => rfl
  | some m =>
    obtain ⟨o, ho, ha⟩ := h.entry hh addr m hr
    exact absurd ha (hn o (List.mem_of_getElem? ho))

/-- `~udp_mux` does not run. -/
theorem Inv.release_eq (h : s.Inv) (m : Nat) : s.release m = s := by
  unfold release
  split
  · rename_i h0
    cases hm : s.muxes[m]? with
    | none => rfl
    | some o => exact absurd h0 (h.owners_pos hm).ne'
  · rfl

omit [DecidableEq Addr] in
/-- The peers of a mux are not what the invariant is about. -/
theorem Inv.setMux (h : s.Inv) (hm : s.muxes[m]? = some o) (mux : UdpMux Addr)
    {sockets : List (PeerSocket Addr)} (hs : ∀ p ∈ sockets, p.mux < s.muxes.length) (made : Nat) :
    Inv { s with muxes := s.muxes.set m { o with mux := mux }, sockets := sockets
                 made := made } where
  polling o' ho' := by
    rcases List.mem_or_eq_of_mem_set ho' with ho' | rfl
    · exact h.polling o' ho'
    · exact h.polling o (List.mem_of_getElem? hm)
  socket p hp := by
    rw [List.length_set]
    exact hs p hp
  entry hh a m' ha := by
    obtain ⟨o', ho', rfl⟩ := h.entry hh a m' ha
    rcases eq_or_ne m m' with rfl | hne
    · cases hm.symm.trans ho'
      exact ⟨_, List.getElem?_set_self (List.getElem?_eq_some_iff.1 hm).1, rfl⟩
    · exact ⟨o', (List.getElem?_set_ne hne).trans ho', rfl⟩

theorem Inv.createOn (h : s.Inv) {peer : Addr} (he : s.createOn m peer = some s') : s'.Inv := by
  unfold MuxWorld.createOn at he
  cases hm : s.muxes[m]? with
  | none => simp [hm] at he
  | some o =>
    simp only [hm] at he
    cases hp : o.mux.peers peer with
    | some old =>
      rw [UdpMux.create_of_registered hp] at he
      have hi := h.setMux hm (o.mux.deregisterPeer peer) h.socket (s.made + 1)
      cases he
      rw [hi.release_eq]
      exact hi
    | none =>
      rw [UdpMux.create_of_free hp] at he
      cases he
      refine h.setMux hm _ (fun p hp => ?_) _
      rcases List.mem_append.1 hp with hp | hp
      · exact h.socket p hp
      · rw [List.mem_singleton.1 hp]
        exact (List.getElem?_eq_some_iff.1 hm).1

theorem Inv.append (h : s.Inv) (hh : s.hung = false) (addr : Addr) :
    Inv { s with registry := Function.update s.registry addr (some s.muxes.length)
                 muxes := s.muxes ++ [⟨addr, .start, true, false⟩] } where
  polling o ho := by
    rcases List.mem_append.1 ho with ho | ho
    · exact h.polling o ho
    · rw [List.mem_singleton.1 ho]
      exact ⟨rfl, rfl⟩
  socket p hp := by
    rw [List.length_append]
    exact Nat.lt_add_right _ (h.socket p hp)
  entry _ a m ha := by
    rcases eq_or_ne a addr with rfl | hne
    · cases (Function.update_self ..).symm.trans ha
      exact ⟨_, List.getElem?_concat_length, rfl⟩
    · obtain ⟨o, ho, ho'⟩ := h.entry hh a m ((Function.update_of_ne hne ..).symm.trans ha)
      exact ⟨o, (List.getElem?_append_left (List.getElem?_eq_some_iff.1 ho).1).trans ho, ho'⟩

section

variable [Inhabited Addr]

theorem Inv.create (h : s.Inv) {addr peer : Addr} {fail : Option MuxFail}
    (he : s.step (.create addr peer fail) = some s') : s'.Inv := by
  simp only [MuxWorld.step] at he
  split at he
  · cases he
  · rename_i hh
    have hh : s.hung = false := Bool.eq_false_of_not_eq_true hh
    rcases MuxCall.outcome_cases s.registry (fun m => 0 < s.owners m) addr s.muxes.length fail with
      ⟨m, hm, -, hc, hr⟩ | ⟨hc, hr⟩ | hc
    · obtain ⟨o, ho, -⟩ := h.entry hh addr m hm
      have hne : m ≠ s.muxes.length := (List.getElem?_eq_some_iff.1 ho).1.ne
      simp only [call, hc, hr, if_neg hne] at he
      exact h.createOn he
    · simp only [call, hc, hr, if_pos] at he
      exact (h.append hh addr).createOn he
    · have hs : s' = { s with registry := (s.call addr fail).registry, hung := true } := by
        split at he
        · exact absurd ‹_› (hc _)
        · exact absurd ‹_› (hc _)
        · exact (Option.some.inj he).symm
      rw [hs]
      exact ⟨h.polling, h.socket, nofun⟩

theorem step_inv (h : s.Inv) (he : s.step a = some s') : s'.Inv := by
  cases a with
  | create addr peer fail => exact h.create he
  | destroy k =>
    simp only [step] at he
    split at he
    · cases he
    · rename_i p hp
      split at he
      · cases he
      · rename_i o ho
        have hsock : ∀ q ∈ s.sockets.eraseIdx k, q.mux < s.muxes.length :=
          fun q hq => h.socket q (List.mem_of_mem_eraseIdx hq)
        have hi := h.setMux ho (o.mux.deregisterPeer p.peer) hsock s.made
        cases he
        rw [hi.release_eq]
        exact hi
  | threadReturn m =>
    simp only [step] at he
    split at he
    · cases he
    · rename_i o ho
      -- nothing has told the thread to stop
      simp [(h.polling o (List.mem_of_getElem? ho)).2] at he

theorem reach_inv (h : (machine Addr).Reach s) : s.Inv :=
  h.inv (I := Inv) (fun _ hs => hs ▸ ⟨nofun, nofun, nofun⟩) fun _ _ _ _ hi _ he => step_inv hi he

/-- **Reclaiming muxes.** After any creations and destructions of peer sockets, whether some are
left or none, an address is free for a fresh mux just when it never had one: the closure of the
polling thread owns its mux, and only the destructor of the mux ends the thread. -/
theorem mux_reclaimed_iff (h : (machine Addr).Reach s) (addr : Addr) :
    s.Reclaimed addr ↔ (∀ o ∈ s.muxes, o.localAddr ≠ addr) ∧ s.hung = false := by
  have hi := reach_inv h
  constructor
  · rintro ⟨hr, hh, -⟩
    refine ⟨fun o ho ha => ?_, hh⟩
    obtain ⟨m, hm⟩ := List.mem_iff_getElem?.1 ho
    exact (hi.owners_pos hm).ne' (hr m o hm ha).1
  · rintro ⟨hn, hh⟩
    refine ⟨fun m o hm ha => absurd ha (hn o (List.mem_of_getElem? hm)), hh, ?_⟩
    unfold call MuxCall.outcome
    rw [MuxCall.run_new (hi.not_live hh hn _)]

end

/-- A peer socket on address 1, destroyed: address 2 is free. -/
theorem mux_reclaimed_other : ∃ s, (machine Nat).Reach s ∧ s.Reclaimed 2 := by
  obtain ⟨s, hs, hp⟩ := Machine.Reach.of_run_init (M := machine Nat)
    (fun s => decide ((∀ o ∈ s.muxes, o.localAddr ≠ 2) ∧ s.hung = false))
    [.create 1 4 none, .destroy 0] rfl (by decide)
  exact ⟨s, hs, (mux_reclaimed_iff hs 2).2 (of_decide_eq_true hp)⟩

/-- A peer socket on address 1, destroyed: its mux is still owned by its thread, which was not
told to stop, and the next `get_or_create` returns it. -/
theorem mux_not_reclaimed : ∃ s, (machine Nat).Reach s ∧ s.sockets.length = 0 ∧
    s.owners 0 = 1 ∧ s.muxes.map MuxObject.stopRequested = [false] ∧
    (s.call 1 none).pc = .returned (some 0) ∧ ¬ s.Reclaimed 1 := by
  obtain ⟨s, hs, hp⟩ := Machine.Reach.of_run_init (M := machine Nat)
    (fun s => decide (s.sockets.length = 0 ∧ s.owners 0 = 1 ∧
      s.muxes.map MuxObject.stopRequested = [false] ∧
      (s.call 1 none).pc = .returned (some 0) ∧ s.muxes.length = 1))
    [.create 1 4 none, .destroy 0] rfl (by decide)
  obtain ⟨h0, h1, h2, h3, h4⟩ := of_decide_eq_true hp
  refine ⟨s, hs, h0, h1, h2, h3, fun hr => ?_⟩
  have hfresh := hr.2.2
  rw [h3, h4] at hfresh
  cases hfresh

end MuxWorld

end Socketpp
