import Socketpp.Platform

/-!
# Event masks and the event loop's post queue

`io_event` (`include/socketpp/event/dispatcher.hpp`) is a 32-bit mask;
`hasEvent` tests one flag.

`event_loop` (`include/socketpp/event/loop.hpp`) keeps posted callbacks in two
buffers: `post` appends to `active_queue_` under the spinlock, and
`drain_posts` swaps the buffers and runs the drained one, so what is posted
meanwhile waits for the next iteration. `run` alternates `drain_posts` and
`poll`. `PostQueue` has the two buffers and the side of that alternation the
loop thread is on; `pending` is the order in which the callbacks will run.
-/

namespace Socketpp

abbrev IoEvent := BitVec 32

namespace IoEvent

def none : IoEvent := 0#32
def readable : IoEvent := 1#32
def writable : IoEvent := 2#32
def error : IoEvent := 4#32
def hangup : IoEvent := 8#32
def peerShutdown : IoEvent := 16#32

/-- `has_event`. -/
def hasEvent (mask flag : IoEvent) : Bool := (mask &&& flag) != none

@[simp] theorem hasEvent_readable : hasEvent readable readable = true := by decide
@[simp] theorem writable_ne_none : writable ≠ none := by decide

end IoEvent

structure PostQueue (τ : Type) where
  active : List τ
  drain : List τ
  /-- the loop thread is in `poll`, or at the top of an iteration -/
  polling : Bool
  /-- `drain_posts` has cleared the buffer it ran -/
  cleared : polling = true → drain = []
  deriving DecidableEq

namespace PostQueue

variable {τ : Type}

def start : PostQueue τ := ⟨[], [], true, fun _ => rfl⟩

/-- `post`, once per callback. -/
def post (q : PostQueue τ) (ts : List τ) : PostQueue τ := { q with active := q.active ++ ts }

/-- The swap of `drain_posts`. -/
def swap (q : PostQueue τ) : Option (PostQueue τ) :=
  if q.polling then some ⟨q.drain, q.active, false, nofun⟩ else none

/-- The next callback of the drained buffer. -/
def next (q : PostQueue τ) : Option (τ × PostQueue τ) :=
  match q.polling, q.drain with
  | false, t :: rest => some (t, ⟨q.active, rest, false, nofun⟩)
  | _, _ => none

/-- `drain_posts` is done, `poll` is called. -/
def enterPoll (q : PostQueue τ) : Option (PostQueue τ) :=
  if h : q.polling = false ∧ q.drain = [] then some ⟨q.active, q.drain, true, fun _ => h.2⟩
  else none

/-- The callbacks not yet run, in the order they will be. -/
def pending (q : PostQueue τ) : List τ := q.drain ++ q.active

variable {q q' : PostQueue τ}

@[simp] theorem pending_post (ts : List τ) : (q.post ts).pending = q.pending ++ ts := by
  simp [pending, post]

@[simp] theorem post_nil : q.post [] = q := by simp [post]

theorem swap_of_polling (h : q.polling = true) :
    q.swap = some ⟨q.drain, q.active, false, nofun⟩ := if_pos h

theorem next_of_drain {t : τ} {rest : List τ} (hp : q.polling = false) (hd : q.drain = t :: rest) :
    q.next = some (t, ⟨q.active, rest, false, nofun⟩) := by
  unfold next
  rw [hp, hd]

theorem swap_cases (h : q.swap = some q') :
    q.polling = true ∧ q'.polling = false ∧ q'.active = [] ∧ q'.drain = q.active := by
  unfold swap at h
  split at h
  · rename_i hp
    cases h
    exact ⟨hp, rfl, q.cleared hp, rfl⟩
  · cases h

theorem next_cases {t : τ} (h : q.next = some (t, q')) :
    q.polling = false ∧ q'.polling = false ∧ q'.active = q.active ∧ q.drain = t :: q'.drain := by
  unfold next at h
  split at h
  · rename_i hp hd
    cases h
    exact ⟨hp, rfl, rfl, hd⟩
  · cases h

theorem enterPoll_cases (h : q.enterPoll = some q') :
    q.polling = false ∧ q'.polling = true ∧ q'.active = q.active ∧ q.drain = [] ∧
      q'.drain = [] := by
  unfold enterPoll at h
  split at h
  · rename_i hp
    cases h
    exact ⟨hp.1, rfl, rfl, hp.2, hp.2⟩
  · cases h

theorem pending_swap (h : q.swap = some q') : q'.pending = q.pending := by
  obtain ⟨hp, -, ha, hd⟩ := swap_cases h
  rw [pending, pending, ha, hd, q.cleared hp, List.append_nil, List.nil_append]

theorem pending_next {t : τ} (h : q.next = some (t, q')) : q.pending = t :: q'.pending := by
  obtain ⟨-, -, ha, hd⟩ := next_cases h
  rw [pending, pending, ha, hd, List.cons_append]

theorem pending_enterPoll (h : q.enterPoll = some q') : q'.pending = q.pending := by
  obtain ⟨-, -, ha, hd, hd'⟩ := enterPoll_cases h
  rw [pending, pending, ha, hd, hd']

end PostQueue

end Socketpp
