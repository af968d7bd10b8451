import Socketpp.High.DgramBatch
import Socketpp.Lib.Slices

/-!
# The two receive branches agree

`handle_readable` with `on_data_cb` set instead of `on_data_batch_cb` goes over
the datagrams once (`handleOne`). Datagram by datagram it decides as the first
pass of the batch branch does, so the entries it erases and the datagrams it
forwards are the same (`foldl_handleOne`), and what it submits to the main
callback is what the first pass counts.

The batch branch hands the main callback slices of one buffer: `sharedBuf` and
`sharedMsgs` are the two vectors after the second pass. While no `open_` flag
changes, the second pass copies what the first has counted, and the slices read
back the datagrams (`secondPass_messages`).
-/

namespace Socketpp

/-- No `relinquish` falls into the call. -/
def Race.still {P : Type} (opened : P → Bool) : Race P := ⟨opened, fun _ => []⟩

theorem Race.still_openAt {P : Type} [DecidableEq P] (opened : P → Bool) (t : Nat) :
    (Race.still opened).openAt t = opened := by
  funext p
  simp [openAt, still]

namespace DgramBatch

variable {A P : Type}

/-- What a callback is given of a datagram. -/
def given (e : Entry A) : Bytes × A := (e.1.data, e.1.sender)

section Single

variable [DecidableEq A] [DecidableEq P]

structure SinglePass (A P : Type) where
  claimedPeers : AList fun _ : A => P
  /-- what was submitted to the socket's serial queue for `on_data_cb` -/
  submitted : List (Bytes × A)
  /-- what was submitted to the peers, by index in the batch -/
  delivered : List (P × Nat)

/-- The end of the loop body: the copy for the main callback. -/
def SinglePass.submit (s : SinglePass A P) (e : Entry A) : SinglePass A P :=
  { s with submitted := s.submitted ++ [given e] }

/-- The body of the loop. -/
def handleOne (cfg : Config P) (r : Race P) (s : SinglePass A P) (e : Entry A) :
    SinglePass A P :=
  match s.claimedPeers.lookup e.1.sender with
  | some p =>
    if r.openAt (checkTime e.2) p = false then
      { s with claimedPeers := s.claimedPeers.erase e.1.sender }.submit e
    else if cfg.kernelDemux then s
    else if r.openAt (deliverTime e.2) p && cfg.onData p then
      { s with delivered := s.delivered ++ [(p, e.2)] }
    else s
  | none => s.submit e

/-- The single branch over a batch. -/
def handleSingle (cfg : Config P) (r : Race P) (claimedPeers : AList fun _ : A => P)
    (batch : List (Datagram A)) : SinglePass A P :=
  batch.zipIdx.foldl (handleOne cfg r) ⟨claimedPeers, [], []⟩

variable {r : Race P} {m₀ : AList fun _ : A => P} {t : Nat}

/-- The same entries and the same datagrams forwarded. -/
def Agree (s : FirstPass A P) (q : SinglePass A P) : Prop :=
  q.claimedPeers = s.claimedPeers ∧ q.delivered = s.delivered

/-- One datagram in both branches; the single branch submits what the first pass counts. -/
theorem handleOne_agree (cfg : Config P) {s : FirstPass A P} {q : SinglePass A P} (h : Agree s q)
    (e : Entry A) :
    Agree (check cfg r s e) (handleOne cfg r q e) ∧
    (handleOne cfg r q e).submitted =
      q.submitted ++ if counted r s.claimedPeers e then [given e] else [] := by
  obtain ⟨hm, hd⟩ := h
  unfold check handleOne counted held
  rw [hm]
  cases hl : s.claimedPeers.lookup e.1.sender with
  | none => exact ⟨⟨hm, hd⟩, rfl⟩
  | some p =>
    cases ho : r.openAt (checkTime e.2) p with
    | false =>
      simp only [Option.any_some, ho, Bool.not_false, ↓reduceIte]
      exact ⟨⟨rfl, hd⟩, rfl⟩
    | true =>
      simp only [Option.any_some, ho, Bool.not_true, Bool.true_eq_false, Bool.false_eq_true,
        ↓reduceIte, List.append_nil, deliverData]
      split
      · exact ⟨⟨hm, hd⟩, rfl⟩
      · split
        · exact ⟨⟨rfl, congrArg (· ++ [(p, e.2)]) hd⟩, rfl⟩
        · exact ⟨⟨hm, hd⟩, rfl⟩

/-- **Both branches over the datagrams from index `k` on**, whatever other
threads relinquish meanwhile. -/
theorem foldl_handleOne (cfg : Config P) (ds : List (Datagram A)) (k : Nat) {s : FirstPass A P}
    {q : SinglePass A P} (ha : Agree s q) (h : Shrinks r t m₀ s.claimedPeers)
    (ht : t ≤ checkTime k) :
    Agree ((ds.zipIdx k).foldl (check cfg r) s) ((ds.zipIdx k).foldl (handleOne cfg r) q) ∧
    ((ds.zipIdx k).foldl (handleOne cfg r) q).submitted =
      q.submitted ++ ((ds.zipIdx k).filter (counted r m₀)).map given := by
  induction ds generalizing k s q t with
  | nil => exact ⟨ha, (List.append_nil _).symm⟩
  | cons d ds ih =>
    have hnext : checkTime k ≤ checkTime (k + 1) := by unfold checkTime; omega
    -- the entries erased so far do not change the decision
    have hcount : counted r s.claimedPeers (d, k) = counted r m₀ (d, k) := by
      rw [counted, counted, h.held_eq ht]
    obtain ⟨ha', hsub⟩ := handleOne_agree (r := r) cfg ha (d, k)
    obtain ⟨h1, h2⟩ := ih (k + 1) ha' (check_shrinks cfg (e := (d, k)) h ht) hnext
    rw [List.zipIdx_cons, List.foldl_cons, List.foldl_cons]
    refine ⟨h1, ?_⟩
    rw [h2, hsub, hcount, List.append_assoc]
    cases hc : counted r m₀ (d, k) with
    | true => rw [List.filter_cons_of_pos hc]; rfl
    | false => rw [List.filter_cons_of_neg (by simp [hc])]; rfl

end Single

/-! ## The vectors of the batch branch -/

/-- `dgram4_message`: a slice of `shared_buf` and the sender. -/
structure Message (A : Type) where
  offset : Nat
  len : Nat
  sender : A
  deriving DecidableEq, Repr

def Message.span (x : Message A) : Nat × Nat := (x.offset, x.len)

/-- What the callback reads through a message. -/
def Message.read (buf : Bytes) (x : Message A) : Bytes × A :=
  (Slices.slice buf x.offset x.len, x.sender)

/-- The message that a write stores. -/
def Write.message (w : Write A) : Message A := ⟨w.offset, w.entry.1.data.length, w.entry.1.sender⟩

/-- `shared_buf`. The model's buffer grows where the code would write past its end. -/
def SecondPass.sharedBuf (q : SecondPass A) (totalBytes : Nat) : Bytes :=
  q.writes.foldl (fun buf w => Slices.blit buf w.offset w.entry.1.data)
    (List.replicate totalBytes 0)

/-- `shared_msgs`. -/
def SecondPass.sharedMsgs [Inhabited A] (q : SecondPass A) (unclaimedCount : Nat) :
    List (Message A) :=
  q.writes.foldl (fun ms w => ms.set w.msg w.message)
    (List.replicate unclaimedCount ⟨0, 0, default⟩)

/-- What the second pass writes for a list of datagrams. -/
def layout : Nat → Nat → List (Entry A) → List (Write A)
  | _, _, [] => []
  | offset, msg, e :: l => ⟨msg, offset, e⟩ :: layout (offset + e.1.data.length) (msg + 1) l

theorem foldl_write_writes (l : List (Entry A)) (s : SecondPass A) :
    (l.foldl SecondPass.write s).writes = s.writes ++ layout s.offset s.msgIdx l := by
  induction l generalizing s with
  | nil => exact (List.append_nil _).symm
  | cons e l ih => rw [List.foldl_cons, ih]; simp [SecondPass.write, layout]

theorem layout_offsets (l : List (Entry A)) (offset msg : Nat) :
    (layout offset msg l).map (fun w => (w.offset, w.entry.1.data)) =
      Slices.offsets offset (l.map fun e => e.1.data) := by
  induction l generalizing offset msg with
  | nil => rfl
  | cons e l ih => simp only [layout, List.map_cons, Slices.offsets, ih]

theorem layout_entry (l : List (Entry A)) (offset msg : Nat) :
    (layout offset msg l).map Write.entry = l := by
  induction l generalizing offset msg with
  | nil => rfl
  | cons e l ih => simp only [layout, List.map_cons, ih]

theorem layout_zipIdx (l : List (Entry A)) (offset msg : Nat) :
    (layout offset msg l).map (fun w => (w.message, w.msg)) =
      ((layout offset msg l).map Write.message).zipIdx msg := by
  induction l generalizing offset msg with
  | nil => rfl
  | cons e l ih => simp only [layout, List.map_cons, List.zipIdx_cons, ih]

theorem length_layout (l : List (Entry A)) (offset msg : Nat) :
    (layout offset msg l).length = l.length := by
  conv_rhs => rw [← layout_entry l offset msg]
  rw [List.length_map]

theorem bytes_eq (l : List (Entry A)) :
    bytes l = (l.map fun e => e.1.data).flatten.length := by
  rw [bytes, List.length_flatten, List.map_map]
  rfl

/-- The writes of a second pass over `l`. -/
theorem sharedBuf_eq {q : SecondPass A} {l : List (Entry A)} (hq : q.writes = layout 0 0 l) :
    q.sharedBuf (bytes l) = (l.map fun e => e.1.data).flatten := by
  have h := Slices.foldl_blit (l.map fun e => e.1.data) [] (List.replicate (bytes l) 0)
    (by rw [List.length_replicate, bytes_eq])
  rw [List.length_nil, ← layout_offsets l 0 0, List.foldl_map] at h
  rw [SecondPass.sharedBuf, hq]
  exact h

theorem sharedMsgs_eq [Inhabited A] {q : SecondPass A} {l : List (Entry A)}
    (hq : q.writes = layout 0 0 l) :
    q.sharedMsgs l.length = (layout 0 0 l).map Write.message := by
  have h := Slices.foldl_set ((layout 0 0 l).map Write.message) []
    (List.replicate l.length ⟨0, 0, default⟩)
    (by rw [List.length_replicate, List.length_map, length_layout])
  rw [List.length_nil, ← layout_zipIdx, List.foldl_map] at h
  rw [SecondPass.sharedMsgs, hq]
  exact h

/-- **The slices read back the datagrams** and tile the buffer. -/
theorem secondPass_messages [Inhabited A] {q : SecondPass A} {l : List (Entry A)}
    (hq : q.writes = layout 0 0 l) :
    (q.sharedMsgs l.length).map (Message.read (q.sharedBuf (bytes l))) = l.map given ∧
    Slices.Tiles 0 ((q.sharedMsgs l.length).map Message.span) (q.sharedBuf (bytes l)).length := by
  rw [sharedMsgs_eq hq, sharedBuf_eq hq, List.map_map, List.map_map]
  constructor
  · conv_rhs => rw [← layout_entry l 0 0, List.map_map]
    refine List.map_congr_left fun w hw => ?_
    have hmem : (w.offset, w.entry.1.data) ∈ Slices.offsets 0 (l.map fun e => e.1.data) := by
      rw [← layout_offsets l 0 0]
      exact List.mem_map.2 ⟨w, hw, rfl⟩
    have hread := Slices.slice_offsets (l.map fun e => e.1.data) [] _ hmem
    exact Prod.ext hread rfl
  · have h := Slices.tiles_offsets (l.map fun e => e.1.data) 0
    rw [← layout_offsets l 0 0, List.map_map, Nat.zero_add] at h
    exact h

/-! ## Both branches -/

section Agreement

variable [DecidableEq A] [DecidableEq P] [Inhabited A]

/-- What the batch branch submits: the two vectors. -/
def submittedBatch (cfg : Config P) (r : Race P) (m : AList fun _ : A => P)
    (batch : List (Datagram A)) : Option (Bytes × List (Message A)) :=
  let b := handleBatch cfg r m batch
  b.2.map fun q => (q.sharedBuf b.1.totalBytes, q.sharedMsgs b.1.unclaimedCount)

/-- What `on_data_batch_cb` reads from the messages it is called with. -/
def batchGiven (cfg : Config P) (r : Race P) (m : AList fun _ : A => P)
    (batch : List (Datagram A)) : List (Bytes × A) :=
  (submittedBatch cfg r m batch).elim [] fun v => v.2.map (Message.read v.1)

/-- The vectors, while no flag changes. -/
theorem submittedBatch_still (cfg : Config P) (opened : P → Bool) (m : AList fun _ : A => P)
    (batch : List (Datagram A)) :
    let l := batch.zipIdx.filter (counted (.still opened) m)
    (submittedBatch cfg (.still opened) m batch = none ∧ l = []) ∨
    ∃ q : SecondPass A, q.writes = layout 0 0 l ∧
      submittedBatch cfg (.still opened) m batch =
        some (q.sharedBuf (bytes l), q.sharedMsgs l.length) := by
  intro l
  have hsteady : Steady (.still opened) m batch := fun e _ hheld => by
    rw [held, Race.still_openAt] at *
    exact hheld
  obtain ⟨hcount, hbytes, -, hsecond⟩ := handleBatch_spec cfg (.still opened) m batch
  rw [← filter_eq_iff_steady.2 hsteady] at hsecond
  unfold submittedBatch
  simp only [hcount, hbytes, hsecond]
  split
  · exact .inr ⟨_, foldl_write_writes l ⟨0, 0, []⟩, rfl⟩
  · rename_i hl
    exact .inl ⟨rfl, List.eq_nil_of_length_eq_zero (Nat.eq_zero_of_not_pos hl)⟩

/-- **The two branches agree.** For every batch, table and assignment of `open_`
flags that does not change during the call: the batch branch gives the main
callback the datagrams the single branch submits, in the same order; both
forward the same datagrams to the same peers in the same order and leave the
same table; and the slices are consecutive and disjoint and cover `shared_buf`
exactly. -/
theorem branches_agree (cfg : Config P) (opened : P → Bool) (m : AList fun _ : A => P)
    (batch : List (Datagram A)) :
    let single := handleSingle cfg (.still opened) m batch
    let first := (handleBatch cfg (.still opened) m batch).1
    batchGiven cfg (.still opened) m batch = single.submitted ∧
    first.delivered = single.delivered ∧
    first.claimedPeers = single.claimedPeers ∧
    ∀ buf ms, submittedBatch cfg (.still opened) m batch = some (buf, ms) →
      Slices.Tiles 0 (ms.map Message.span) buf.length ∧
      ms.Pairwise (fun x y => x.offset + x.len ≤ y.offset) ∧
      ∀ k, (∃ x ∈ ms, x.offset ≤ k ∧ k < x.offset + x.len) ↔ k < buf.length := by
  intro single first
  obtain ⟨⟨hm, hd⟩, hsub⟩ := foldl_handleOne (r := .still opened) (t := 0) cfg batch 0
    (s := ⟨m, 0, 0, []⟩) (q := ⟨m, [], []⟩) ⟨rfl, rfl⟩ Shrinks.refl (Nat.zero_le _)
  have hvec := submittedBatch_still cfg opened m batch
  refine ⟨?_, hd.symm, hm.symm, fun buf ms hv => ?_⟩
  · refine Eq.trans ?_ hsub.symm
    rcases hvec with ⟨hnone, hl⟩ | ⟨q, hq, hsome⟩
    · rw [batchGiven, hnone, hl]
      rfl
    · rw [batchGiven, hsome]
      exact (secondPass_messages hq).1
  · rcases hvec with ⟨hnone, -⟩ | ⟨q, hq, hsome⟩
    · cases hnone.symm.trans hv
    · cases hsome.symm.trans hv
      have ht := (secondPass_messages hq).2
      refine ⟨ht, List.pairwise_map.1 ht.disjoint, fun k => ?_⟩
      have hk := ht.cover k
      simpa [Message.span] using hk

/-- Peer 7 has address 1 and is open, peer 8 had address 2 and is not. The
second datagram from address 2 finds no entry any more. -/
example : batchGiven ⟨false, fun _ => true⟩ (.still (· == 7))
    (((∅ : AList fun _ : Nat => Nat).insert 1 7).insert 2 8)
    [⟨[10], 2⟩, ⟨[11, 12], 1⟩, ⟨[], 3⟩, ⟨[13, 14], 2⟩] = [([10], 2), ([], 3), ([13, 14], 2)] := by
  decide

end Agreement

end DgramBatch

end Socketpp
