import Mathlib

/-!
# A queue with a condition variable

Producers push under a mutex and notify one consumer; a consumer that finds the
queue empty under the mutex goes to sleep and looks again when it is notified, or
wakes up spuriously. Consumers are counted: `blocked` of them sleep, `ready` are
awake and will look again. `pushed` and `popped` are the history.

`Inv`: nothing is lost or reordered, and while a consumer sleeps every element
of the queue has an awake consumer coming for it.
-/

structure Inbox (α : Type*) where
  queue : List α
  blocked : Nat
  ready : Nat
  pushed : List α
  popped : List α

namespace Inbox

variable {α : Type*} {b : Inbox α}

def empty : Inbox α := ⟨[], 0, 0, [], []⟩

/-- One sleeping consumer, if there is one, becomes ready. -/
def notifyOne (b : Inbox α) : Inbox α :=
  match b.blocked with
  | 0 => b
  | k + 1 => { b with blocked := k, ready := b.ready + 1 }

/-- A producer's critical section. -/
def push (b : Inbox α) (x : α) : Inbox α :=
  notifyOne { b with queue := b.queue ++ [x], pushed := b.pushed ++ [x] }

/-- A consumer looks at the queue: it takes the front element or goes to sleep. -/
def look (b : Inbox α) : Option α × Inbox α :=
  match b.queue with
  | [] => (none, { b with blocked := b.blocked + 1 })
  | x :: rest => (some x, { b with queue := rest, popped := b.popped ++ [x] })

/-- A consumer that was woken looks again. -/
def lookAgain (b : Inbox α) : Option α × Inbox α := look { b with ready := b.ready - 1 }

/-- A consumer wakes up without being notified. -/
def spurious (b : Inbox α) : Inbox α := { b with blocked := b.blocked - 1, ready := b.ready + 1 }

structure Inv (b : Inbox α) : Prop where
  fifo : b.popped ++ b.queue = b.pushed
  served : 0 < b.blocked → b.queue.length ≤ b.ready

theorem empty_inv : (empty : Inbox α).Inv := ⟨rfl, fun h => absurd h (Nat.lt_irrefl 0)⟩

@[simp] theorem push_pushed (b : Inbox α) (x : α) : (b.push x).pushed = b.pushed ++ [x] := by
  unfold push notifyOne
  split <;> rfl

@[simp] theorem push_popped (b : Inbox α) (x : α) : (b.push x).popped = b.popped := by
  unfold push notifyOne
  split <;> rfl

theorem push_ready_le (b : Inbox α) (x : α) : (b.push x).ready ≤ b.ready + 1 := by
  unfold push notifyOne
  split
  · exact Nat.le_succ _
  · exact Nat.le_refl _

theorem Inv.push (h : b.Inv) (x : α) : (b.push x).Inv := by
  have hfifo : b.popped ++ (b.queue ++ [x]) = b.pushed ++ [x] := by
    rw [← List.append_assoc, h.fifo]
  unfold Inbox.push notifyOne
  cases hb : b.blocked with
  | zero => exact ⟨hfifo, fun hpos => absurd hpos (by simp)⟩
  | succ k =>
    refine ⟨hfifo, fun _ => ?_⟩
    have hserved := h.served (by omega)
    show (b.queue ++ [x]).length ≤ b.ready + 1
    rw [List.length_append, List.length_singleton]
    omega

/-- A look keeps the order, and takes an element that one awake consumer less comes for. -/
theorem look_inv (hfifo : b.popped ++ b.queue = b.pushed)
    (hserved : 0 < b.blocked → b.queue.length ≤ b.ready + 1) : b.look.2.Inv := by
  unfold look
  split
  · rename_i hq
    exact ⟨hfifo, fun _ => by simp [hq]⟩
  · rename_i x rest hq
    rw [hq] at hfifo hserved
    exact ⟨by simpa using hfifo, fun hpos => Nat.le_of_succ_le_succ (hserved hpos)⟩

/-- A caller that was not asleep may take what a woken one was coming for. -/
theorem Inv.look (h : b.Inv) : b.look.2.Inv :=
  look_inv h.fifo fun hpos => Nat.le_succ_of_le (h.served hpos)

theorem Inv.lookAgain (h : b.Inv) (hr : 0 < b.ready) : b.lookAgain.2.Inv := by
  refine look_inv h.fifo fun hpos => ?_
  have hserved := h.served hpos
  show b.queue.length ≤ b.ready - 1 + 1
  omega

theorem Inv.spurious (h : b.Inv) (hb : 0 < b.blocked) : b.spurious.Inv :=
  ⟨h.fifo, fun _ => Nat.le_succ_of_le (h.served hb)⟩

/-- What a look hands out is the element that is popped. -/
theorem look_popped (b : Inbox α) : b.look.2.popped = b.popped ++ b.look.1.toList := by
  unfold look
  split
  · exact (List.append_nil _).symm
  · rfl

theorem lookAgain_popped (b : Inbox α) :
    b.lookAgain.2.popped = b.popped ++ b.lookAgain.1.toList :=
  look_popped { b with ready := b.ready - 1 }

@[simp] theorem look_pushed (b : Inbox α) : b.look.2.pushed = b.pushed := by
  unfold look
  split <;> rfl

@[simp] theorem lookAgain_pushed (b : Inbox α) : b.lookAgain.2.pushed = b.pushed :=
  look_pushed { b with ready := b.ready - 1 }

theorem lookAgain_ready (b : Inbox α) : b.lookAgain.2.ready = b.ready - 1 := by
  unfold lookAgain look
  split <;> rfl

end Inbox
