import Socketpp.High.ConnectionEngine
import Socketpp.Lib.Machine

/-!
# A connection on its event loop

`ConnLoop` is a connection together with the post queue of its event loop and
the order of its submissions to the serial queue (`callbacks`). User threads
and the pool thread that ran `on_connect` take their steps at any time; the
loop thread runs the drained posts between two polls and the events inside
one; the thread that tears the stream down may call `initiate_close` once it
has joined the loop thread (`joined`).

`step_cases` says what a step can be. An invariant of the connection alone,
kept by every `Conn.step`, holds in every reachable state (`reach_conn`).
-/

namespace Socketpp

structure ConnLoop (H : Type) where
  conn : Conn H
  posts : PostQueue ConnTask
  joined : Bool
  callbacks : List Callback

namespace ConnLoop

variable {H : Type}

def start (maxWriteBytes readBufSize : Nat) : ConnLoop H where
  conn := .start maxWriteBytes readBufSize
  posts := .start
  joined := false
  callbacks := []

inductive Act (H : Type) where
  | conn (a : Conn.Act H)
  /-- `drain_posts` swaps the buffers -/
  | swap
  /-- the next drained post runs -/
  | runPost (addOk : Bool)
  | enterPoll
  | join

/-- Which steps of the connection can be taken in a state by themselves. -/
def Allows (s : ConnLoop H) : Conn.Act H → Prop
  | .task _ _ => False
  | .event _ _ | .drainLock | .drainSend _ => s.posts.polling = true ∧ s.joined = false
  | .teardownClose => s.joined = true
  | _ => True

instance (s : ConnLoop H) : (a : Conn.Act H) → Decidable (s.Allows a)
  | .task _ _ => isFalse id
  | .event _ _ | .drainLock | .drainSend _ =>
    inferInstanceAs (Decidable (s.posts.polling = true ∧ s.joined = false))
  | .teardownClose => inferInstanceAs (Decidable (s.joined = true))
  | .setOnData | .setOnClose _ | .call _ | .advance _ | .startReading => isTrue trivial

/-- The loop thread is not inside a callback. -/
def LoopFree (s : ConnLoop H) : Prop := s.joined = false ∧ s.conn.drain = .idle

instance (s : ConnLoop H) : Decidable s.LoopFree := inferInstanceAs (Decidable (_ ∧ _))

/-- The connection after a step, its posts posted and its callbacks submitted. -/
def absorb (s : ConnLoop H) (r : Conn H × Out) : ConnLoop H :=
  { s with conn := r.1, posts := s.posts.post r.2.posts, callbacks := s.callbacks ++ r.2.submits }

@[simp] theorem absorb_conn (s : ConnLoop H) (r : Conn H × Out) : (s.absorb r).conn = r.1 := rfl

@[simp] theorem absorb_pending (s : ConnLoop H) (r : Conn H × Out) :
    (s.absorb r).posts.pending = s.posts.pending ++ r.2.posts := PostQueue.pending_post _

def step (s : ConnLoop H) : Act H → Option (ConnLoop H)
  | .conn a => if s.Allows a then (s.conn.step a).map s.absorb else none
  | .swap => if s.LoopFree then s.posts.swap.map fun q => { s with posts := q } else none
  | .runPost addOk =>
    if s.LoopFree then
      s.posts.next.bind fun p =>
        (s.conn.step (.task p.1 addOk)).map { s with posts := p.2 }.absorb
    else none
  | .enterPoll =>
    if s.LoopFree then s.posts.enterPoll.map fun q => { s with posts := q } else none
  | .join => if s.LoopFree ∧ s.posts.polling = true then some { s with joined := true } else none

def machine (H : Type) (maxWriteBytes readBufSize : Nat) : Machine (ConnLoop H) (Act H) where
  Init s := s = start maxWriteBytes readBufSize
  step := step

/-- What a step can be: a step of the connection, or one of the loop thread's
own that leaves the connection and the pending posts alone. -/
theorem step_cases {s s' : ConnLoop H} {a : Act H} (h : s.step a = some s') :
    (∃ b r, a = .conn b ∧ s.Allows b ∧ s.conn.step b = some r ∧ s' = s.absorb r) ∨
    (∃ addOk t q r, a = .runPost addOk ∧ s.LoopFree ∧ s.posts.next = some (t, q) ∧
      s.conn.step (.task t addOk) = some r ∧ s' = { s with posts := q }.absorb r) ∨
    (s.LoopFree ∧ s'.conn = s.conn ∧ s'.posts.pending = s.posts.pending ∧
      s'.callbacks = s.callbacks) := by
  cases a with
  | conn b =>
    simp only [step] at h
    split at h
    · rename_i hb
      obtain ⟨r, hr, rfl⟩ := Option.map_eq_some_iff.1 h
      exact .inl ⟨b, r, rfl, hb, hr, rfl⟩
    · cases h
  | runPost addOk =>
    simp only [step] at h
    split at h
    · rename_i hf
      obtain ⟨⟨t, q⟩, hn, h⟩ := Option.bind_eq_some_iff.1 h
      obtain ⟨r, hr, rfl⟩ := Option.map_eq_some_iff.1 h
      exact .inr (.inl ⟨addOk, t, q, r, rfl, hf, hn, hr, rfl⟩)
    · cases h
  | swap =>
    simp only [step] at h
    split at h
    · rename_i hf
      obtain ⟨q, hq, rfl⟩ := Option.map_eq_some_iff.1 h
      exact .inr (.inr ⟨hf, rfl, PostQueue.pending_swap hq, rfl⟩)
    · cases h
  | enterPoll =>
    simp only [step] at h
    split at h
    · rename_i hf
      obtain ⟨q, hq, rfl⟩ := Option.map_eq_some_iff.1 h
      exact .inr (.inr ⟨hf, rfl, PostQueue.pending_enterPoll hq, rfl⟩)
    · cases h
  | join =>
    simp only [step] at h
    split at h
    · rename_i hf
      cases h
      exact .inr (.inr ⟨hf.1, rfl, rfl, rfl⟩)
    · cases h

/-- **Invariants of the connection alone.** -/
theorem reach_conn {I : Conn H → Prop} {m r : Nat} {ok : ConnLoop H → Act H → Prop}
    (h0 : I (.start m r))
    (hs : ∀ c a c' o, I c → c.step a = some (c', o) → I c')
    {s : ConnLoop H} (h : (machine H m r).ReachOk ok s) : I s.conn := by
  refine h.inv (I := fun s => I s.conn) (fun s hi => by rw [hi]; exact h0) ?_
  intro s a s' _ ih _ he
  rcases step_cases he with ⟨b, r, -, -, hr, rfl⟩ | ⟨_, t, q, r, -, -, -, hr, rfl⟩ | ⟨-, hc, -, -⟩
  · exact hs _ _ _ _ ih hr
  · exact hs _ _ _ _ ih hr
  · rw [hc]; exact ih

end ConnLoop

end Socketpp
