import Socketpp.Platform

/-!
# The batch branch of a datagram socket

`handle_readable` (`src/high/dgram.cpp`) with `on_data_batch_cb` set goes over
the datagrams it received twice. The first pass counts those that are not for
a claimed peer, forwards the others where the kernel does not, and drops
relinquished peers from `claimed_peers`. The second pass copies into buffers
of the size counted. Both load `open_` of the sender's peer, and another
thread may call `relinquish` at any time, so they can decide differently about
the same datagram.

The loop thread's loads are numbered (`checkTime`, `deliverTime`, `copyTime`);
`Race` says which `relinquish` calls fall between one load and the next.
Erasing a relinquished peer changes no later decision (`Shrinks`), so both
passes decide by the table the branch began with and the time of the load
(`held`), and the second pass copies all the first has counted, plus the
datagrams whose peer was relinquished in between.
-/

namespace Socketpp

/-- One entry of `batch_entries`. -/
structure Datagram (A : Type) where
  data : Bytes
  sender : A
  deriving DecidableEq, Repr

/-- The `relinquish` calls of other threads, seen from the loop thread. -/
structure Race (P : Type) where
  /-- `open_` when `handle_readable` is called -/
  opened : P → Bool
  /-- those whose `exchange(false)` comes after load `t - 1` and before load `t` -/
  relinquished : Nat → List P

/-- What load number `t` reads from `open_` of `p`. -/
def Race.openAt {P : Type} [DecidableEq P] (r : Race P) (t : Nat) (p : P) : Bool :=
  r.opened p && (List.range (t + 1)).all fun u => p ∉ r.relinquished u

theorem Race.openAt_mono {P : Type} [DecidableEq P] (r : Race P) {t u : Nat} (h : t ≤ u) {p : P}
    (hu : r.openAt u p = true) : r.openAt t p = true := by
  simp only [openAt, Bool.and_eq_true, List.all_eq_true, List.mem_range] at hu ⊢
  exact ⟨hu.1, fun v hv => hu.2 v (by omega)⟩

namespace DgramBatch

variable {A P : Type} [DecidableEq A] [DecidableEq P]

/-- A datagram and its index in the batch. -/
abbrev Entry (A : Type) := Datagram A × Nat

structure Config (P : Type) where
  /-- `has_kernel_udp_demux` -/
  kernelDemux : Bool
  /-- the peers with an `on_data_cb` -/
  onData : P → Bool

/-- The load of the first pass for the datagram at index `i`. -/
def checkTime (i : Nat) : Nat := 2 * i

/-- The load `deliver_data` makes for it. -/
def deliverTime (i : Nat) : Nat := 2 * i + 1

/-- The load of the second pass for it, in a batch of `n`. -/
def copyTime (n i : Nat) : Nat := 2 * n + i

structure FirstPass (A P : Type) where
  claimedPeers : AList fun _ : A => P
  totalBytes : Nat
  unclaimedCount : Nat
  /-- what was submitted to the peers, by index in the batch -/
  delivered : List (P × Nat)

/-- A datagram for the main callback is counted. -/
def FirstPass.count (s : FirstPass A P) (d : Datagram A) : FirstPass A P :=
  { s with totalBytes := s.totalBytes + d.data.length, unclaimedCount := s.unclaimedCount + 1 }

/-- `deliver_data` of peer `p`. -/
def deliverData (cfg : Config P) (r : Race P) (s : FirstPass A P) (p : P) (i : Nat) :
    FirstPass A P :=
  if r.openAt (deliverTime i) p && cfg.onData p then
    { s with delivered := s.delivered ++ [(p, i)] }
  else s

/-- The body of the first loop. -/
def check (cfg : Config P) (r : Race P) (s : FirstPass A P) (e : Entry A) : FirstPass A P :=
  match s.claimedPeers.lookup e.1.sender with
  | some p =>
    if r.openAt (checkTime e.2) p = false then
      { s with claimedPeers := s.claimedPeers.erase e.1.sender }.count e.1
    else if cfg.kernelDemux then s
    else deliverData cfg r s p e.2
  | none => s.count e.1

/-- One message written: its place in `shared_msgs`, the place of its bytes in
`shared_buf`, and the datagram. -/
structure Write (A : Type) where
  msg : Nat
  offset : Nat
  entry : Entry A
  deriving DecidableEq, Repr

structure SecondPass (A : Type) where
  offset : Nat
  msgIdx : Nat
  writes : List (Write A)

/-- The body of the second loop, after its `continue`. -/
def SecondPass.write (s : SecondPass A) (e : Entry A) : SecondPass A :=
  { offset := s.offset + e.1.data.length
    msgIdx := s.msgIdx + 1
    writes := s.writes ++ [⟨s.msgIdx, s.offset, e⟩] }

/-- The body of the second loop, in a batch of `n`. -/
def copy (r : Race P) (claimedPeers : AList fun _ : A => P) (n : Nat) (s : SecondPass A)
    (e : Entry A) : SecondPass A :=
  match claimedPeers.lookup e.1.sender with
  | some p => if r.openAt (copyTime n e.2) p then s else s.write e
  | none => s.write e

/-- The first pass over a batch. -/
def firstPass (cfg : Config P) (r : Race P) (claimedPeers : AList fun _ : A => P)
    (batch : List (Datagram A)) : FirstPass A P :=
  batch.zipIdx.foldl (check cfg r) ⟨claimedPeers, 0, 0, []⟩

/-- The second pass, over the table the first has left. -/
def secondPass (r : Race P) (claimedPeers : AList fun _ : A => P) (batch : List (Datagram A)) :
    SecondPass A :=
  batch.zipIdx.foldl (copy r claimedPeers batch.length) ⟨0, 0, []⟩

/-- The batch branch: the second pass is made only if something was counted. -/
def handleBatch (cfg : Config P) (r : Race P) (claimedPeers : AList fun _ : A => P)
    (batch : List (Datagram A)) : FirstPass A P × Option (SecondPass A) :=
  let s := firstPass cfg r claimedPeers batch
  (s, if 0 < s.unclaimedCount then some (secondPass r s.claimedPeers batch) else none)

/-- The second pass stays inside the buffers, fills them, and copies no datagram
that was delivered to a peer. -/
structure Safe (s : FirstPass A P) (q : SecondPass A) : Prop where
  msgs : ∀ w ∈ q.writes, w.msg < s.unclaimedCount
  bytes : ∀ w ∈ q.writes, w.offset + w.entry.1.data.length ≤ s.totalBytes
  filled : q.msgIdx = s.unclaimedCount ∧ q.offset = s.totalBytes
  once : ∀ w ∈ q.writes, ∀ d ∈ s.delivered, d.2 ≠ w.entry.2

/-! ## What both passes decide by -/

variable {r : Race P} {m₀ m : AList fun _ : A => P} {t u : Nat}

/-- The sender is claimed in `m`, by a peer that is open at load `t`. -/
def held (r : Race P) (m : AList fun _ : A => P) (t : Nat) (d : Datagram A) : Bool :=
  (m.lookup d.sender).any (r.openAt t)

theorem held_mono (h : t ≤ u) {d : Datagram A} (hu : held r m u d = true) :
    held r m t d = true := by
  unfold held at *
  cases hl : m.lookup d.sender with
  | none => rw [hl] at hu; cases hu
  | some p => rw [hl] at hu; exact r.openAt_mono h hu

/-- `m` is `m₀` without some peers that are closed at load `t`. -/
def Shrinks (r : Race P) (t : Nat) (m₀ m : AList fun _ : A => P) : Prop :=
  ∀ a, m.lookup a = m₀.lookup a ∨
    m.lookup a = none ∧ ∀ p, m₀.lookup a = some p → r.openAt t p = false

theorem Shrinks.refl : Shrinks r t m m := fun _ => .inl rfl

theorem Shrinks.mono (h : Shrinks r t m₀ m) (htu : t ≤ u) : Shrinks r u m₀ m := by
  refine fun a => (h a).imp_right (And.imp_right fun hc p hp => ?_)
  cases ho : r.openAt u p with
  | false => rfl
  | true => rw [← hc p hp]; exact (r.openAt_mono htu ho).symm

/-- A table without closed peers gives the same decisions. -/
theorem Shrinks.held_eq (h : Shrinks r t m₀ m) (htu : t ≤ u) (d : Datagram A) :
    held r m u d = held r m₀ u d := by
  unfold held
  rcases h.mono htu d.sender with e | ⟨hn, hc⟩
  · rw [e]
  · rw [hn]
    cases hl : m₀.lookup d.sender with
    | none => rfl
    | some p => exact (hc p hl).symm

/-- The number of bytes of a list of datagrams. -/
def bytes (l : List (Entry A)) : Nat := (l.map fun e => e.1.data.length).sum

omit [DecidableEq A] in
@[simp] theorem bytes_cons (e : Entry A) (l : List (Entry A)) :
    bytes (e :: l) = e.1.data.length + bytes l := by simp [bytes]

/-! ## The first pass -/

/-- The first pass counts the datagram. -/
def counted (r : Race P) (m : AList fun _ : A => P) (e : Entry A) : Bool :=
  !held r m (checkTime e.2) e.1

theorem check_counted (cfg : Config P) {s : FirstPass A P} {e : Entry A}
    (h : counted r s.claimedPeers e = true) :
    (check cfg r s e).unclaimedCount = s.unclaimedCount + 1 ∧
    (check cfg r s e).totalBytes = s.totalBytes + e.1.data.length ∧
    (check cfg r s e).delivered = s.delivered := by
  unfold counted held at h
  unfold check
  cases hl : s.claimedPeers.lookup e.1.sender with
  | none => exact ⟨rfl, rfl, rfl⟩
  | some p =>
    rw [hl] at h
    have ho : r.openAt (checkTime e.2) p = false := by simpa using h
    simp only [if_pos ho]
    exact ⟨rfl, rfl, rfl⟩

theorem check_not_counted (cfg : Config P) {s : FirstPass A P} {e : Entry A}
    (h : counted r s.claimedPeers e = false) :
    (check cfg r s e).unclaimedCount = s.unclaimedCount ∧
    (check cfg r s e).totalBytes = s.totalBytes ∧
    (check cfg r s e).claimedPeers = s.claimedPeers ∧
    ∀ d ∈ (check cfg r s e).delivered, d ∈ s.delivered ∨ d.2 = e.2 := by
  unfold counted held at h
  unfold check
  cases hl : s.claimedPeers.lookup e.1.sender with
  | none => rw [hl] at h; cases h
  | some p =>
    rw [hl] at h
    have ho : r.openAt (checkTime e.2) p = true := by simpa using h
    simp only [ho, Bool.true_eq_false, if_false]
    split
    · exact ⟨rfl, rfl, rfl, fun _ => .inl⟩
    · unfold deliverData
      split
      · refine ⟨rfl, rfl, rfl, fun d hd => ?_⟩
        rcases List.mem_append.1 hd with hd | hd
        · exact .inl hd
        · rw [List.mem_singleton.1 hd]; exact .inr rfl
      · exact ⟨rfl, rfl, rfl, fun _ => .inl⟩

theorem check_shrinks (cfg : Config P) {s : FirstPass A P} {e : Entry A}
    (h : Shrinks r t m₀ s.claimedPeers) (ht : t ≤ checkTime e.2) :
    Shrinks r (checkTime e.2) m₀ (check cfg r s e).claimedPeers := by
  have h := h.mono ht
  cases hc : counted r s.claimedPeers e with
  | false => rw [(check_not_counted cfg hc).2.2.1]; exact h
  | true =>
    unfold counted held at hc
    cases hl : s.claimedPeers.lookup e.1.sender with
    | none =>
      have hsame : (check cfg r s e).claimedPeers = s.claimedPeers := by
        simp [check, hl, FirstPass.count]
      rw [hsame]
      exact h
    | some p =>
      rw [hl] at hc
      have ho : r.openAt (checkTime e.2) p = false := by simpa using hc
      have herase : (check cfg r s e).claimedPeers = s.claimedPeers.erase e.1.sender := by
        simp [check, hl, ho, FirstPass.count]
      intro a
      by_cases ha : a = e.1.sender
      · subst ha
        refine .inr ⟨by rw [herase, AList.lookup_erase], fun p' hp' => ?_⟩
        rcases h e.1.sender with e' | ⟨hn, -⟩
        · rw [← e', hl, Option.some.injEq] at hp'; rw [← hp']; exact ho
        · rw [hn] at hl; cases hl
      · rw [herase, AList.lookup_erase_ne ha]
        exact h a

/-- The first pass over the datagrams from index `k` on. -/
theorem foldl_check (cfg : Config P) (ds : List (Datagram A)) (k : Nat) {s : FirstPass A P}
    (h : Shrinks r t m₀ s.claimedPeers) (ht : t ≤ checkTime k) :
    ((ds.zipIdx k).foldl (check cfg r) s).unclaimedCount =
      s.unclaimedCount + ((ds.zipIdx k).filter (counted r m₀)).length ∧
    ((ds.zipIdx k).foldl (check cfg r) s).totalBytes =
      s.totalBytes + bytes ((ds.zipIdx k).filter (counted r m₀)) ∧
    (∀ d ∈ ((ds.zipIdx k).foldl (check cfg r) s).delivered,
      d ∈ s.delivered ∨ ∃ e ∈ ds.zipIdx k, d.2 = e.2 ∧ counted r m₀ e = false) ∧
    Shrinks r (checkTime (k + ds.length)) m₀
      ((ds.zipIdx k).foldl (check cfg r) s).claimedPeers := by
  induction ds generalizing k s t with
  | nil => exact ⟨rfl, rfl, fun _ => .inl, h.mono (by simpa using ht)⟩
  | cons d ds ih =>
    have hnext : checkTime k ≤ checkTime (k + 1) := by unfold checkTime; omega
    have hend : k + (d :: ds).length = k + 1 + ds.length := by rw [List.length_cons]; omega
    have heq : counted r s.claimedPeers (d, k) = counted r m₀ (d, k) := by
      rw [counted, counted, h.held_eq ht]
    obtain ⟨h1, h2, h3, h4⟩ :=
      ih (k + 1) (s := check cfg r s (d, k)) (check_shrinks cfg (e := (d, k)) h ht) hnext
    rw [List.zipIdx_cons, List.foldl_cons, hend]
    cases hc : counted r m₀ (d, k) with
    | true =>
      obtain ⟨e1, e2, e3⟩ := check_counted cfg (heq.trans hc)
      rw [List.filter_cons_of_pos hc]
      refine ⟨?_, ?_, fun x hx => ?_, h4⟩
      · rw [h1, e1, List.length_cons]; omega
      · rw [h2, e2, bytes_cons]; omega
      · rcases h3 x hx with hx | ⟨e, he, hx⟩
        · rw [e3] at hx; exact .inl hx
        · exact .inr ⟨e, List.mem_cons_of_mem _ he, hx⟩
    | false =>
      obtain ⟨e1, e2, -, e3⟩ := check_not_counted cfg (heq.trans hc)
      rw [List.filter_cons_of_neg (by simp [hc])]
      refine ⟨by rw [h1, e1], by rw [h2, e2], fun x hx => ?_, h4⟩
      rcases h3 x hx with hx | ⟨e, he, hx⟩
      · rcases e3 x hx with hx | hx
        · exact .inl hx
        · exact .inr ⟨(d, k), List.mem_cons_self, hx, hc⟩
      · exact .inr ⟨e, List.mem_cons_of_mem _ he, hx⟩

/-! ## The second pass -/

/-- The second pass copies the datagram. -/
def copied (r : Race P) (m : AList fun _ : A => P) (n : Nat) (e : Entry A) : Bool :=
  !held r m (copyTime n e.2) e.1

theorem copy_eq (n : Nat) (s : SecondPass A) (e : Entry A) :
    copy r m n s e = if copied r m n e then s.write e else s := by
  unfold copy copied held
  cases m.lookup e.1.sender with
  | none => rfl
  | some p => cases ho : r.openAt (copyTime n e.2) p <;> simp [ho]

omit [DecidableEq A] in
@[simp] theorem write_msgIdx (s : SecondPass A) (e : Entry A) :
    (s.write e).msgIdx = s.msgIdx + 1 := rfl

omit [DecidableEq A] in
@[simp] theorem write_offset (s : SecondPass A) (e : Entry A) :
    (s.write e).offset = s.offset + e.1.data.length := rfl

/-- The messages lie one behind the other. -/
structure Packed (s : SecondPass A) : Prop where
  msgs : ∀ w ∈ s.writes, w.msg < s.msgIdx
  bytes : ∀ w ∈ s.writes, w.offset + w.entry.1.data.length ≤ s.offset

omit [DecidableEq A] in
theorem Packed.write {s : SecondPass A} (h : Packed s) (e : Entry A) : Packed (s.write e) := by
  refine ⟨fun w hw => ?_, fun w hw => ?_⟩
  · rcases List.mem_append.1 hw with hw | hw
    · exact Nat.lt_succ_of_lt (h.msgs w hw)
    · rw [List.mem_singleton.1 hw]; exact Nat.lt_succ_self _
  · rcases List.mem_append.1 hw with hw | hw
    · exact Nat.le_trans (h.bytes w hw) (Nat.le_add_right _ _)
    · rw [List.mem_singleton.1 hw]; exact Nat.le_refl _

omit [DecidableEq A] in
theorem foldl_write (l : List (Entry A)) {s : SecondPass A} (h : Packed s) :
    Packed (l.foldl SecondPass.write s) ∧
    (l.foldl SecondPass.write s).msgIdx = s.msgIdx + l.length ∧
    (l.foldl SecondPass.write s).offset = s.offset + DgramBatch.bytes l ∧
    ∀ w ∈ (l.foldl SecondPass.write s).writes, w ∈ s.writes ∨ w.entry ∈ l := by
  induction l generalizing s with
  | nil => exact ⟨h, rfl, rfl, fun _ => .inl⟩
  | cons e l ih =>
    obtain ⟨h1, h2, h3, h4⟩ := ih (h.write e)
    refine ⟨h1, ?_, ?_, fun w hw => ?_⟩
    · rw [List.foldl_cons, h2, write_msgIdx, List.length_cons]; omega
    · rw [List.foldl_cons, h3, write_offset, bytes_cons]; omega
    · rcases h4 w hw with hw | hw
      · rcases List.mem_append.1 hw with hw | hw
        · exact .inl hw
        · rw [List.mem_singleton.1 hw]; exact .inr List.mem_cons_self
      · exact .inr (List.mem_cons_of_mem _ hw)

/-- The second pass over a table that has lost only closed peers. -/
theorem secondPass_eq {batch : List (Datagram A)} (h : Shrinks r (checkTime batch.length) m₀ m) :
    secondPass r m batch = (batch.zipIdx.filter (copied r m₀ batch.length)).foldl
      SecondPass.write ⟨0, 0, []⟩ := by
  rw [List.foldl_filter, secondPass]
  congr 1
  funext s e
  have ht : checkTime batch.length ≤ copyTime batch.length e.2 := Nat.le_add_right _ _
  rw [copy_eq, copied, copied, h.held_eq ht]

/-! ## Both passes -/

/-- What the first pass counts the second copies. -/
theorem counted_imp_copied {n : Nat} {e : Entry A} (hn : e.2 < n) (h : counted r m e = true) :
    copied r m n e = true := by
  unfold counted copied at *
  rw [Bool.not_eq_true'] at *
  by_contra hc
  have ht : checkTime e.2 ≤ copyTime n e.2 := by unfold checkTime copyTime; omega
  rw [held_mono ht (by simpa using hc)] at h
  cases h

/-- No peer is relinquished between the two decisions about one of its datagrams. -/
def Steady (r : Race P) (m : AList fun _ : A => P) (batch : List (Datagram A)) : Prop :=
  ∀ e ∈ batch.zipIdx, held r m (checkTime e.2) e.1 = true →
    held r m (copyTime batch.length e.2) e.1 = true

/-- Every datagram is for a peer that is open when the first pass checks it. -/
def AllClaimed (r : Race P) (m : AList fun _ : A => P) (batch : List (Datagram A)) : Prop :=
  ∀ e ∈ batch.zipIdx, held r m (checkTime e.2) e.1 = true

theorem counted_sublist {batch : List (Datagram A)} :
    (batch.zipIdx.filter (counted r m)).Sublist
      (batch.zipIdx.filter (copied r m batch.length)) := by
  have h : batch.zipIdx.filter (counted r m) =
      batch.zipIdx.filter fun e => counted r m e && copied r m batch.length e := by
    refine List.filter_congr fun e he => ?_
    cases hc : counted r m e with
    | false => rfl
    | true =>
      have := counted_imp_copied (n := batch.length) (List.snd_lt_of_mem_zipIdx he) hc
      rw [this]
      rfl
  rw [h, ← List.filter_filter]
  exact List.filter_sublist

omit [DecidableEq A] in
theorem eq_of_index {batch : List (Datagram A)} {e e' : Entry A} (h : e ∈ batch.zipIdx)
    (h' : e' ∈ batch.zipIdx) (hi : e.2 = e'.2) : e = e' := by
  have h1 := List.mem_zipIdx_iff_getElem?.1 h
  rw [hi, List.mem_zipIdx_iff_getElem?.1 h'] at h1
  exact Prod.ext (Option.some.inj h1).symm hi

theorem filter_eq_iff_steady {batch : List (Datagram A)} :
    batch.zipIdx.filter (counted r m) = batch.zipIdx.filter (copied r m batch.length) ↔
      Steady r m batch := by
  constructor
  · intro h e he hheld
    by_contra hc
    have hmem : e ∈ batch.zipIdx.filter (copied r m batch.length) :=
      List.mem_filter.2 ⟨he, by simpa [copied] using hc⟩
    rw [← h] at hmem
    have := (List.mem_filter.1 hmem).2
    simp [counted, hheld] at this
  · intro h
    refine List.filter_congr fun e he => ?_
    cases hc : counted r m e with
    | true => exact (counted_imp_copied (List.snd_lt_of_mem_zipIdx he) hc).symm
    | false =>
      have := h e he (by simpa [counted] using hc)
      simp [copied, this]

/-- What the two passes do, by the decisions at the table they began with. -/
theorem handleBatch_spec (cfg : Config P) (r : Race P) (m : AList fun _ : A => P)
    (batch : List (Datagram A)) :
    (handleBatch cfg r m batch).1.unclaimedCount = (batch.zipIdx.filter (counted r m)).length ∧
    (handleBatch cfg r m batch).1.totalBytes = bytes (batch.zipIdx.filter (counted r m)) ∧
    (∀ d ∈ (handleBatch cfg r m batch).1.delivered,
      ∃ e ∈ batch.zipIdx, d.2 = e.2 ∧ counted r m e = false) ∧
    (handleBatch cfg r m batch).2 =
      if 0 < (batch.zipIdx.filter (counted r m)).length then
        some ((batch.zipIdx.filter (copied r m batch.length)).foldl SecondPass.write ⟨0, 0, []⟩)
      else none := by
  obtain ⟨h1, h2, h3, h4⟩ := foldl_check cfg batch 0 (s := ⟨m, 0, 0, []⟩)
    (Shrinks.refl (r := r) (t := 0)) (Nat.zero_le _)
  rw [Nat.zero_add] at h1 h2 h4
  refine ⟨h1, h2, fun d hd => (h3 d hd).resolve_left List.not_mem_nil, ?_⟩
  show (if 0 < (firstPass cfg r m batch).unclaimedCount then _ else _) = _
  rw [show (firstPass cfg r m batch).unclaimedCount = _ from h1]
  split
  · exact congrArg some (secondPass_eq h4)
  · rfl

/-- The second pass is safe exactly if it decides like the first. -/
theorem safe_iff_steady {cfg : Config P} {batch : List (Datagram A)}
    {q : SecondPass A} (hq : (handleBatch cfg r m batch).2 = some q) :
    Safe (handleBatch cfg r m batch).1 q ↔ Steady r m batch := by
  obtain ⟨h1, h2, h3, h4⟩ := handleBatch_spec cfg r m batch
  rw [h4] at hq
  split at hq
  · cases hq
    obtain ⟨hpack, hmsgs, hbytes, hmem⟩ :=
      foldl_write (batch.zipIdx.filter (copied r m batch.length)) (s := ⟨0, 0, []⟩) ⟨nofun, nofun⟩
    rw [Nat.zero_add] at hmsgs hbytes
    constructor
    · intro hs
      have hlen := hs.filled.1
      rw [h1, hmsgs] at hlen
      exact filter_eq_iff_steady.1 (counted_sublist.eq_of_length hlen.symm)
    · intro hs
      have heq := filter_eq_iff_steady.2 hs
      rw [heq] at h1 h2
      refine ⟨fun w hw => ?_, fun w hw => ?_, ⟨hmsgs.trans h1.symm, hbytes.trans h2.symm⟩,
        fun w hw d hd e' => ?_⟩
      · rw [h1, ← hmsgs]; exact hpack.msgs w hw
      · rw [h2, ← hbytes]; exact hpack.bytes w hw
      · -- copied means counted, delivered means not counted
        obtain ⟨e, he, hde, hnc⟩ := h3 d hd
        have hw' := (hmem w hw).resolve_left List.not_mem_nil
        rw [← heq, List.mem_filter] at hw'
        rw [eq_of_index he hw'.1 (hde.symm.trans e'), hw'.2] at hnc
        cases hnc
  · cases hq

theorem second_none_iff {cfg : Config P} {batch : List (Datagram A)} :
    (handleBatch cfg r m batch).2 = none ↔ AllClaimed r m batch := by
  obtain ⟨-, -, -, h⟩ := handleBatch_spec cfg r m batch
  rw [h, AllClaimed]
  simp [counted]

/-- **When the batch branch stays within its buffers.** For every batch, table
and interleaving with `relinquish`: the second pass, if it is made, writes
inside both buffers, fills them exactly and copies no datagram a peer was
given, if and only if every datagram is for a peer found open by the first
pass, or no peer is relinquished between the two decisions about one of its
datagrams. -/
theorem batch_within_buffers_iff (cfg : Config P) (r : Race P) (m : AList fun _ : A => P)
    (batch : List (Datagram A)) :
    (∀ q, (handleBatch cfg r m batch).2 = some q → Safe (handleBatch cfg r m batch).1 q) ↔
      AllClaimed r m batch ∨ Steady r m batch := by
  cases hq : (handleBatch cfg r m batch).2 with
  | none => exact ⟨fun _ => .inl (second_none_iff.1 hq), fun _ => nofun⟩
  | some q =>
    have hnot : ¬ AllClaimed r m batch := fun h => by rw [second_none_iff.2 h] at hq; cases hq
    constructor
    · intro h; exact .inr ((safe_iff_steady hq).1 (h q rfl))
    · rintro h q' ⟨⟩
      exact (safe_iff_steady hq).2 (h.resolve_left hnot)

/-- A datagram for peer `7` and one for the main callback; the peer is
relinquished after the first pass. One message and one byte are counted, the
second pass writes two messages and three bytes, and the datagram the peer was
given is among them. -/
theorem batch_overflows_on_relinquish :
    ∃ s q, handleBatch ⟨false, fun _ => true⟩ ⟨fun _ => true, fun t => if t = 4 then [7] else []⟩
        ((∅ : AList fun _ : Nat => Nat).insert 1 7) [⟨[10, 11], 1⟩, ⟨[12], 2⟩] = (s, some q) ∧
      (s.unclaimedCount = 1 ∧ s.totalBytes = 1 ∧ s.delivered = [(7, 0)]) ∧
      q.writes = [⟨0, 0, ⟨[10, 11], 1⟩, 0⟩, ⟨1, 2, ⟨[12], 2⟩, 1⟩] ∧ ¬ Safe s q := by
  refine ⟨_, _, rfl, by decide, by decide, fun h => ?_⟩
  exact absurd h.filled.1 (by decide)

end DgramBatch

end Socketpp
