import Socketpp.Platform
import Socketpp.Lib.Slices

/-!
# Batches of datagrams

`recv_batch` and `send_batch` of `udp_socket_base` (`src/socket/udp.cpp`). On
Linux each is one `recvmmsg` or `sendmmsg`, elsewhere a loop of `recv_from_raw`
or `send_to_raw` that stops at the first error and returns it only if nothing
was transferred before.

`UdpSocket` is what the kernel holds of a socket: the datagrams and an error not
reported yet, which the next receive returns. Datagrams and errors may arrive
between two receives of a batch (`env i`, after receive `i`). `recvmmsg` puts an
error that it meets after the first datagram back for the next call; the loop
has nowhere to put it, and `dropped` records it.
-/

namespace Socketpp

/-- `msg_batch_entry`; `buf` is the memory behind the pointer. -/
structure MsgBatchEntry (A : Type) where
  buf : Bytes
  len : Nat
  addr : A
  transferred : Nat
  deriving DecidableEq, Repr

/-- The errors of the calls below. -/
inductive UdpError (E : Type) where
  | invalidState
  | wouldBlock
  /-- of a peer that is not open any more -/
  | notConnected
  /-- what the operating system answered -/
  | system (e : E)
  deriving DecidableEq, Repr

/-- What the kernel holds for a UDP socket. -/
structure UdpSocket (A E : Type) where
  queue : List (Bytes × A)
  /-- an error that was not reported yet -/
  error : Option E
  deriving DecidableEq, Repr

inductive UdpArrival (A E : Type) where
  | datagram (d : Bytes × A)
  | error (e : E)
  deriving DecidableEq, Repr

variable {A E : Type}

/-- The datagrams among the arrivals. -/
def UdpArrival.datagrams : List (UdpArrival A E) → List (Bytes × A)
  | [] => []
  | .datagram d :: as => d :: datagrams as
  | .error _ :: as => datagrams as

namespace UdpSocket

def arrive (k : UdpSocket A E) : UdpArrival A E → UdpSocket A E
  | .datagram d => { k with queue := k.queue ++ [d] }
  | .error e => { k with error := some e }

/-- `recvfrom` into a buffer of `len` bytes. The error comes first and is gone with that; what
does not fit of a datagram is cut off. -/
def recvfrom (k : UdpSocket A E) (len : Nat) :
    Except (UdpError E) (Bytes × A) × UdpSocket A E :=
  match k.error, k.queue with
  | some e, _ => (.error (.system e), { k with error := none })
  | none, d :: rest => (.ok (d.1.take len, d.2), { k with queue := rest })
  | none, [] => (.error .wouldBlock, k)

theorem foldl_arrive_queue (as : List (UdpArrival A E)) (k : UdpSocket A E) :
    (as.foldl arrive k).queue = k.queue ++ UdpArrival.datagrams as := by
  induction as generalizing k with
  | nil => exact (List.append_nil _).symm
  | cons a as ih =>
    rw [List.foldl_cons, ih]
    cases a with
    | datagram d => simp [arrive, UdpArrival.datagrams]
    | error e => rfl

/-- What `recvfrom` does. -/
inductive Received (k : UdpSocket A E) (len : Nat) :
    Except (UdpError E) (Bytes × A) × UdpSocket A E → Prop where
  | failed (e : E) (he : k.error = some e) :
      Received k len (.error (.system e), { k with error := none })
  | empty (he : k.error = none) (hq : k.queue = []) : Received k len (.error .wouldBlock, k)
  | datagram (d : Bytes × A) (rest : List (Bytes × A)) (he : k.error = none)
      (hq : k.queue = d :: rest) :
      Received k len (.ok (d.1.take len, d.2), ⟨rest, none⟩)

theorem recvfrom_view (k : UdpSocket A E) (len : Nat) : k.Received len (k.recvfrom len) := by
  unfold recvfrom
  cases he : k.error with
  | some e => exact .failed e he
  | none =>
    cases hq : k.queue with
    | nil => exact .empty he hq
    | cons d rest => exact .datagram d rest he hq

end UdpSocket

namespace UdpBatch

/-! ## Receiving -/

structure Received (A E : Type) where
  result : Except (UdpError E) Nat
  msgs : List (MsgBatchEntry A)
  sock : UdpSocket A E
  /-- an error met after the first datagram and not returned -/
  dropped : Option E

/-- The kernel, and then the call, fill an entry. -/
def fill (m : MsgBatchEntry A) (d : Bytes × A) : MsgBatchEntry A :=
  { m with buf := Slices.blit m.buf 0 d.1, addr := d.2, transferred := d.1.length }

/-- The loop of the portable branch, at entry `i`. -/
def recvLoop (env : Nat → List (UdpArrival A E)) (i : Nat) (k : UdpSocket A E) :
    List (MsgBatchEntry A) → Received A E
  | [] => ⟨.ok i, [], k, none⟩
  | m :: ms =>
    match k.recvfrom m.len with
    | (.error e, k) =>
      if i = 0 then ⟨.error e, m :: ms, k, none⟩
      else ⟨.ok i, m :: ms, k, match e with | .system e => some e | _ => none⟩
    | (.ok d, k) =>
      let r := recvLoop env (i + 1) ((env i).foldl UdpSocket.arrive k) ms
      { r with msgs := fill m d :: r.msgs }

/-- The loop inside `recvmmsg` over the lengths of the buffers: what was received, and the error
that ended it. -/
def recvmmsgLoop (env : Nat → List (UdpArrival A E)) (i : Nat) (k : UdpSocket A E) :
    List Nat → List (Bytes × A) × Option (UdpError E) × UdpSocket A E
  | [] => ([], none, k)
  | len :: lens =>
    match k.recvfrom len with
    | (.error e, k) => ([], some e, k)
    | (.ok d, k) =>
      let r := recvmmsgLoop env (i + 1) ((env i).foldl UdpSocket.arrive k) lens
      (d :: r.1, r.2)

/-- `recvmmsg`: a pending error is returned at once; one that ends the loop is returned if nothing
was received, and otherwise kept. -/
def recvmmsg (env : Nat → List (UdpArrival A E)) (k : UdpSocket A E) (lens : List Nat) :
    Except (UdpError E) (List (Bytes × A)) × UdpSocket A E :=
  match k.error with
  | some e => (.error (.system e), { k with error := none })
  | none =>
    match recvmmsgLoop env 0 k lens with
    | ([], some e, k) => (.error e, k)
    | (ds, some (.system e), k) => (.ok ds, { k with error := some e })
    | (ds, _, k) => (.ok ds, k)

/-- The entries after a batch: as many as there are datagrams are filled. -/
def fillAll : List (MsgBatchEntry A) → List (Bytes × A) → List (MsgBatchEntry A)
  | m :: ms, d :: ds => fill m d :: fillAll ms ds
  | ms, _ => ms

/-- The branch for Linux. -/
def recvLinux (env : Nat → List (UdpArrival A E)) (k : UdpSocket A E)
    (msgs : List (MsgBatchEntry A)) : Received A E :=
  match recvmmsg env k (msgs.map MsgBatchEntry.len) with
  | (.error e, k) => ⟨.error e, msgs, k, none⟩
  | (.ok ds, k) => ⟨.ok ds.length, fillAll msgs ds, k, none⟩

/-- `recv_batch` of a socket that is open or not. -/
def recvBatch (linux isOpen : Bool) (env : Nat → List (UdpArrival A E)) (k : UdpSocket A E)
    (msgs : List (MsgBatchEntry A)) : Received A E :=
  if isOpen = false then ⟨.error .invalidState, msgs, k, none⟩
  else if linux then recvLinux env k msgs
  else recvLoop env 0 k msgs

/-! ### What a batch takes -/

/-- What arrives during the receives `i`, …, `i + n - 1`. -/
def arrivals (env : Nat → List (UdpArrival A E)) (i n : Nat) : List (Bytes × A) :=
  (List.range' i n).flatMap fun j => UdpArrival.datagrams (env j)

theorem arrivals_succ (env : Nat → List (UdpArrival A E)) (i n : Nat) :
    arrivals env i (n + 1) = UdpArrival.datagrams (env i) ++ arrivals env (i + 1) n := by
  rw [arrivals, List.range'_succ, List.flatMap_cons]
  rfl

/-- A datagram as the entry takes it. -/
def cut (m : MsgBatchEntry A) (d : Bytes × A) : Bytes × A := (d.1.take m.len, d.2)

/-- The datagrams `ds` are taken from the front of the queue, and what arrives is put behind it. -/
structure Took (env : Nat → List (UdpArrival A E)) (i : Nat) (k : UdpSocket A E)
    (msgs : List (MsgBatchEntry A)) (ds : List (Bytes × A)) (k' : UdpSocket A E) : Prop where
  room : ds.length ≤ msgs.length
  order : k.queue ++ arrivals env i ds.length = ds ++ k'.queue

theorem Took.nil (env : Nat → List (UdpArrival A E)) (i : Nat) {k k' : UdpSocket A E}
    (msgs : List (MsgBatchEntry A)) (h : k'.queue = k.queue) : Took env i k msgs [] k' :=
  ⟨Nat.zero_le _, by simp [arrivals, h]⟩

theorem Took.cons {env : Nat → List (UdpArrival A E)} {i : Nat} {k k' : UdpSocket A E}
    {m : MsgBatchEntry A} {ms : List (MsgBatchEntry A)} {d : Bytes × A} {ds rest : List (Bytes × A)}
    (hq : k.queue = d :: rest)
    (h : Took env (i + 1) ((env i).foldl UdpSocket.arrive ⟨rest, none⟩) ms ds k') :
    Took env i k (m :: ms) (d :: ds) k' := by
  refine ⟨Nat.succ_le_succ h.room, ?_⟩
  have ho := h.order
  rw [UdpSocket.foldl_arrive_queue] at ho
  rw [hq, List.length_cons, arrivals_succ, List.cons_append, List.cons_append, ← ho,
    List.append_assoc]

/-- What ended the receives after `n` of them. -/
inductive Stop (E : Type) where
  /-- every entry is filled -/
  | full
  | empty
  | failed (e : E)
  deriving DecidableEq

def Stop.error : Stop E → Option (UdpError E)
  | .full => none
  | .empty => some .wouldBlock
  | .failed e => some (.system e)

/-- **The kernel's loop**: the datagrams it has taken are cut to the buffers; it goes on as long
as there is a buffer and something to receive. -/
theorem recvmmsgLoop_spec (env : Nat → List (UdpArrival A E)) (i : Nat) (k : UdpSocket A E)
    (msgs : List (MsgBatchEntry A)) :
    ∃ ds stop k', recvmmsgLoop env i k (msgs.map MsgBatchEntry.len) =
        (List.zipWith cut msgs ds, Stop.error stop, k') ∧
      Took env i k msgs ds k' ∧
      match stop with
      | .full => ds.length = msgs.length
      | .empty => k'.queue = [] ∧ k'.error = none ∧ ds.length < msgs.length
      | .failed _ => k'.error = none ∧ ds.length < msgs.length := by
  induction msgs generalizing i k with
  | nil => exact ⟨[], .full, k, rfl, .nil env i [] rfl, rfl⟩
  | cons m ms ih =>
    rw [List.map_cons, recvmmsgLoop]
    have hv := k.recvfrom_view m.len
    generalize k.recvfrom m.len = r at hv ⊢
    cases hv with
    | failed e he =>
      exact ⟨[], .failed e, _, rfl, .nil env i _ rfl, rfl, Nat.succ_pos _⟩
    | empty he hq => exact ⟨[], .empty, _, rfl, .nil env i _ rfl, hq, he, Nat.succ_pos _⟩
    | datagram d rest he hq =>
      obtain ⟨ds, stop, k', hr, ht, hs⟩ :=
        ih (i + 1) ((env i).foldl UdpSocket.arrive ⟨rest, none⟩)
      refine ⟨d :: ds, stop, k', by simp only [hr]; rfl, .cons hq ht, ?_⟩
      cases stop with
      | full => exact congrArg (· + 1) hs
      | empty => exact ⟨hs.1, hs.2.1, Nat.succ_lt_succ hs.2.2⟩
      | failed e => exact ⟨hs.1, Nat.succ_lt_succ hs.2⟩

/-- What the portable loop makes of the receives of the kernel's loop. -/
def outcome (i : Nat) (msgs : List (MsgBatchEntry A))
    (r : List (Bytes × A) × Option (UdpError E) × UdpSocket A E) : Received A E where
  result :=
    match i + r.1.length, r.2.1 with
    | 0, some e => .error e
    | n, _ => .ok n
  msgs := fillAll msgs r.1
  sock := r.2.2
  dropped :=
    match i + r.1.length, r.2.1 with
    | _ + 1, some (.system e) => some e
    | _, _ => none

/-- **The portable loop makes the receives of `recvmmsg`**, with the same buffers in the same
order. -/
theorem recvLoop_eq (env : Nat → List (UdpArrival A E)) (i : Nat) (k : UdpSocket A E)
    (msgs : List (MsgBatchEntry A)) :
    recvLoop env i k msgs =
      outcome i msgs (recvmmsgLoop env i k (msgs.map MsgBatchEntry.len)) := by
  induction msgs generalizing i k with
  | nil => cases i <;> rfl
  | cons m ms ih =>
    rw [List.map_cons, recvLoop, recvmmsgLoop]
    generalize k.recvfrom m.len = r
    obtain ⟨e | d, k'⟩ := r
    · cases i with
      | zero => rfl
      | succ i => cases e <;> rfl
    · simp only [ih, outcome, List.length_cons]
      rw [show i + 1 + (recvmmsgLoop env (i + 1) ((env i).foldl UdpSocket.arrive k')
        (ms.map MsgBatchEntry.len)).1.length = i + ((recvmmsgLoop env (i + 1)
        ((env i).foldl UdpSocket.arrive k') (ms.map MsgBatchEntry.len)).1.length + 1) by omega]
      rfl

/-! ### Both branches -/

/-- What the user of an entry reads. -/
def read (m : MsgBatchEntry A) : Bytes × A := (m.buf.take m.transferred, m.addr)

@[simp] theorem read_fill (m : MsgBatchEntry A) (d : Bytes × A) : read (fill m d) = d := by
  simp [read, fill, Slices.blit]

theorem length_fillAll (msgs : List (MsgBatchEntry A)) (ds : List (Bytes × A)) :
    (fillAll msgs ds).length = msgs.length := by
  induction msgs generalizing ds with
  | nil => cases ds <;> rfl
  | cons m ms ih =>
    cases ds with
    | nil => rfl
    | cons d ds => exact congrArg (· + 1) (ih ds)

/-- Nothing of what a buffer held before is read. -/
theorem map_read_fillAll (msgs : List (MsgBatchEntry A)) (ds : List (Bytes × A))
    (h : ds.length ≤ msgs.length) : ((fillAll msgs ds).take ds.length).map read = ds := by
  induction msgs generalizing ds with
  | nil => rw [List.eq_nil_of_length_eq_zero (Nat.le_zero.1 h)]; rfl
  | cons m ms ih =>
    cases ds with
    | nil => rfl
    | cons d ds =>
      rw [fillAll, List.length_cons, List.take_succ_cons, List.map_cons, read_fill,
        ih ds (Nat.le_of_succ_le_succ h)]

/-- A batch of `ds.length` datagrams was received into `msgs`. -/
structure Batch (env : Nat → List (UdpArrival A E)) (k : UdpSocket A E)
    (msgs : List (MsgBatchEntry A)) (ds : List (Bytes × A)) (r : Received A E) : Prop where
  took : Took env 0 k msgs ds r.sock
  msgs : r.msgs = fillAll msgs (List.zipWith cut msgs ds)
  result : r.result = .ok ds.length ∨ ds = [] ∧ ∃ e, r.result = .error e

theorem Batch.received {env : Nat → List (UdpArrival A E)} {k : UdpSocket A E}
    {msgs : List (MsgBatchEntry A)} {ds : List (Bytes × A)} {r : Received A E}
    (h : Batch env k msgs ds r) :
    (r.msgs.take ds.length).map read = List.zipWith cut msgs ds := by
  have hl : (List.zipWith cut msgs ds).length = ds.length := by
    rw [List.length_zipWith, Nat.min_eq_right h.took.room]
  rw [h.msgs, ← hl]
  exact map_read_fillAll _ _ (hl ▸ h.took.room)

/-- The error that the loop has dropped, put back. -/
def Received.keep (r : Received A E) : Received A E where
  result := r.result
  msgs := r.msgs
  sock := r.dropped.elim r.sock fun e => { r.sock with error := some e }
  dropped := none

theorem recvLinux_eq (env : Nat → List (UdpArrival A E)) (k : UdpSocket A E)
    {msgs : List (MsgBatchEntry A)} (h : msgs ≠ []) :
    recvLinux env k msgs = (recvLoop env 0 k msgs).keep := by
  obtain ⟨m, ms, rfl⟩ := List.exists_cons_of_ne_nil h
  cases he : k.error with
  | some e => simp [recvLinux, recvmmsg, recvLoop, UdpSocket.recvfrom, he, Received.keep]
  | none =>
    rw [recvLoop_eq, recvLinux, recvmmsg, he]
    generalize recvmmsgLoop env 0 k ((m :: ms).map MsgBatchEntry.len) = r
    obtain ⟨ds, e, k'⟩ := r
    cases ds with
    | nil =>
      cases e with
      | none => rfl
      | some e => cases e <;> rfl
    | cons d ds =>
      have hn : 0 + (d :: ds).length = ds.length + 1 := by rw [List.length_cons, Nat.zero_add]
      cases e with
      | none => simp only [outcome, Received.keep, hn]; rfl
      | some e => cases e <;> simp only [outcome, Received.keep, hn] <;> rfl

theorem Batch.of_outcome (env : Nat → List (UdpArrival A E)) (k : UdpSocket A E)
    (msgs : List (MsgBatchEntry A)) : ∃ ds, Batch env k msgs ds (recvLoop env 0 k msgs) := by
  obtain ⟨ds, stop, k', hr, ht, -⟩ := recvmmsgLoop_spec env 0 k msgs
  have hl : (List.zipWith cut msgs ds).length = ds.length := by
    rw [List.length_zipWith, Nat.min_eq_right ht.room]
  refine ⟨ds, ?_⟩
  rw [recvLoop_eq, hr]
  refine ⟨ht, rfl, ?_⟩
  simp only [outcome, hl, Nat.zero_add]
  cases ds with
  | nil => cases stop with
    | full => exact .inl rfl
    | empty => exact .inr ⟨rfl, _, rfl⟩
    | failed e => exact .inr ⟨rfl, _, rfl⟩
  | cons d ds => exact .inl rfl

theorem Batch.keep {env : Nat → List (UdpArrival A E)} {k : UdpSocket A E}
    {msgs : List (MsgBatchEntry A)} {ds : List (Bytes × A)} {r : Received A E}
    (h : Batch env k msgs ds r) : Batch env k msgs ds r.keep := by
  refine ⟨⟨h.took.room, h.took.order.trans ?_⟩, h.msgs, h.result⟩
  unfold Received.keep
  cases r.dropped <;> rfl

/-- **A batch is a front part of the queue**, on every platform. -/
theorem recvBatch_batch (linux isOpen : Bool) (env : Nat → List (UdpArrival A E))
    (k : UdpSocket A E) (msgs : List (MsgBatchEntry A)) :
    ∃ ds, Batch env k msgs ds (recvBatch linux isOpen env k msgs) := by
  cases isOpen with
  | false => exact ⟨[], .nil env 0 msgs rfl, by cases msgs <;> rfl, .inr ⟨rfl, _, rfl⟩⟩
  | true =>
    obtain ⟨ds, hb⟩ := Batch.of_outcome env k msgs
    cases linux with
    | false => exact ⟨ds, hb⟩
    | true =>
      cases msgs with
      | nil =>
        -- no buffer: only a pending error makes a difference
        cases he : k.error with
        | none =>
          refine ⟨[], .nil env 0 [] ?_, ?_, .inl ?_⟩ <;>
            simp [recvBatch, recvLinux, recvmmsg, recvmmsgLoop, he, fillAll]
        | some e =>
          refine ⟨[], .nil env 0 [] ?_, ?_, .inr ⟨rfl, .system e, ?_⟩⟩ <;>
            simp [recvBatch, recvLinux, recvmmsg, he, fillAll]
      | cons m ms =>
        refine ⟨ds, ?_⟩
        have hlin := recvLinux_eq env k (List.cons_ne_nil m ms)
        show Batch env k (m :: ms) ds (recvLinux env k (m :: ms))
        rw [hlin]
        exact hb.keep

/-! ### While nothing arrives -/

theorem recvmmsgLoop_calm (i : Nat) (q : List (Bytes × A)) (lens : List Nat) :
    recvmmsgLoop (E := E) (fun _ => []) i ⟨q, none⟩ lens =
      (List.zipWith (fun len d => (d.1.take len, d.2)) lens q,
        if q.length < lens.length then some .wouldBlock else none, ⟨q.drop lens.length, none⟩) := by
  induction lens generalizing i q with
  | nil => rfl
  | cons len lens ih =>
    cases q with
    | nil => rfl
    | cons d q =>
      rw [recvmmsgLoop]
      simp only [UdpSocket.recvfrom, List.foldl_nil, ih]
      simp

/-- A batch is as long as the queue and the entries allow. -/
theorem recvBatch_calm (linux : Bool) {k : UdpSocket A E} {msgs : List (MsgBatchEntry A)}
    (he : k.error = none) (hq : k.queue ≠ []) (hm : msgs ≠ []) :
    (recvBatch linux true (fun _ => []) k msgs).result = .ok (min msgs.length k.queue.length) ∧
    (recvBatch linux true (fun _ => []) k msgs).sock = ⟨k.queue.drop msgs.length, none⟩ := by
  obtain ⟨q, e⟩ := k
  cases he
  obtain ⟨m, ms, rfl⟩ := List.exists_cons_of_ne_nil hm
  obtain ⟨d, q, rfl⟩ := List.exists_cons_of_ne_nil hq
  have hloop : recvLoop (E := E) (fun _ => []) 0 ⟨d :: q, none⟩ (m :: ms) =
      ⟨.ok (min (m :: ms).length (d :: q).length), (recvLoop (E := E) (fun _ => []) 0
        ⟨d :: q, none⟩ (m :: ms)).msgs, ⟨(d :: q).drop (m :: ms).length, none⟩, none⟩ := by
    rw [recvLoop_eq, recvmmsgLoop_calm]
    simp only [outcome, List.map_cons, List.zipWith_cons_cons, List.length_cons,
      List.length_zipWith, List.length_map, Nat.zero_add, Nat.add_min_add_right]
    by_cases hlt : q.length + 1 < ms.length + 1
    · rw [if_pos hlt]
    · rw [if_neg hlt]
  cases linux with
  | false =>
    show (recvLoop _ 0 _ _).result = _ ∧ (recvLoop _ 0 _ _).sock = _
    rw [hloop]
    exact ⟨rfl, rfl⟩
  | true =>
    show (recvLinux _ _ _).result = _ ∧ (recvLinux _ _ _).sock = _
    rw [recvLinux_eq _ _ hm, hloop]
    exact ⟨rfl, rfl⟩

/-- Nothing is received: the call returns the pending error, or that it would block. -/
theorem recvBatch_none (linux : Bool) (env : Nat → List (UdpArrival A E)) {k : UdpSocket A E}
    {msgs : List (MsgBatchEntry A)} (hm : msgs ≠ []) (h : k.error = none → k.queue = []) :
    (recvBatch linux true env k msgs).result =
      .error (k.error.elim .wouldBlock .system) ∧
    (recvBatch linux true env k msgs).sock = ⟨k.queue, none⟩ := by
  obtain ⟨q, e⟩ := k
  obtain ⟨m, ms, rfl⟩ := List.exists_cons_of_ne_nil hm
  cases linux with
  | false =>
    cases e with
    | some e => exact ⟨rfl, rfl⟩
    | none => cases h rfl; exact ⟨rfl, rfl⟩
  | true =>
    cases e with
    | some e => exact ⟨rfl, rfl⟩
    | none => cases h rfl; exact ⟨rfl, rfl⟩

/-- **The two branches of `recv_batch` agree.** For every state of the socket, every non-empty
list of entries and whatever arrives meanwhile, they return the same, fill the same entries with
the next datagrams of the queue in order, each cut to its buffer, touch no other entry, and leave
the same datagrams; they leave the same error unless one was met after the first datagram: that
one is kept on Linux and lost elsewhere. -/
theorem recv_batch_agrees (isOpen : Bool) (env : Nat → List (UdpArrival A E)) (k : UdpSocket A E)
    {msgs : List (MsgBatchEntry A)} (h : msgs ≠ []) :
    recvBatch true isOpen env k msgs = (recvBatch false isOpen env k msgs).keep ∧
    ∃ ds, Batch env k msgs ds (recvBatch false isOpen env k msgs) ∧
      ((recvBatch false isOpen env k msgs).msgs.take ds.length).map read =
        List.zipWith cut msgs ds := by
  obtain ⟨ds, hb⟩ := recvBatch_batch false isOpen env k msgs
  refine ⟨?_, ds, hb, hb.received⟩
  cases isOpen with
  | false => rfl
  | true => exact recvLinux_eq env k h

/-- Two datagrams, an error between them: the second one stays in the queue, and the error is
kept by the one branch. -/
theorem recv_batch_agrees_error :
    let env : Nat → List (UdpArrival Nat Nat) := fun i => if i = 0 then [.error 111] else []
    let msgs : List (MsgBatchEntry Nat) := [⟨[0, 0], 2, 0, 0⟩, ⟨[0, 0], 2, 0, 0⟩]
    recvBatch true true env ⟨[([7, 8, 9], 5), ([1], 6)], none⟩ msgs =
      (recvBatch false true env ⟨[([7, 8, 9], 5), ([1], 6)], none⟩ msgs).keep ∧
    (recvBatch true true env ⟨[([7, 8, 9], 5), ([1], 6)], none⟩ msgs).sock.error = some 111 ∧
    (recvBatch false true env ⟨[([7, 8, 9], 5), ([1], 6)], none⟩ msgs).sock.error = none :=
  ⟨(recv_batch_agrees true _ _ (List.cons_ne_nil _ _)).1, by decide, by decide⟩

/-! ## Sending -/

structure Sent (A E : Type) where
  result : Except (UdpError E) Nat
  msgs : List (MsgBatchEntry A)
  /-- what was put on the wire -/
  wire : List (Bytes × A)

/-- The datagram of an entry. -/
def datagram (m : MsgBatchEntry A) : Bytes × A := (m.buf.take m.len, m.addr)

/-- The call records a datagram that was sent. -/
def mark (m : MsgBatchEntry A) (n : Nat) : MsgBatchEntry A := { m with transferred := n }

/-- The loop of the portable branch at entry `i`; `answer i` is the error of that send. -/
def sendLoop (answer : Nat → Option E) (i : Nat) : List (MsgBatchEntry A) → Sent A E
  | [] => ⟨.ok i, [], []⟩
  | m :: ms =>
    match answer i with
    | some e => ⟨if i = 0 then .error (.system e) else .ok i, m :: ms, []⟩
    | none =>
      let r := sendLoop answer (i + 1) ms
      { r with msgs := mark m (datagram m).1.length :: r.msgs, wire := datagram m :: r.wire }

/-- The loop inside `sendmmsg`: what was sent, and the error that ended it. -/
def sendmmsgLoop (answer : Nat → Option E) (i : Nat) :
    List (Bytes × A) → List (Bytes × A) × Option E
  | [] => ([], none)
  | d :: ds =>
    match answer i with
    | some e => ([], some e)
    | none => let r := sendmmsgLoop answer (i + 1) ds; (d :: r.1, r.2)

/-- `UIO_MAXIOV`, the most that one `sendmmsg` sends. -/
def uioMaxiov : Nat := 1024

/-- `sendmmsg`; an error after the first datagram is not returned. -/
def sendmmsg (answer : Nat → Option E) (ds : List (Bytes × A)) :
    Except E Nat × List (Bytes × A) :=
  match sendmmsgLoop answer 0 (ds.take uioMaxiov) with
  | ([], some e) => (.error e, [])
  | (sent, _) => (.ok sent.length, sent)

/-- The lengths sent, recorded in the entries. -/
def markAll : List (MsgBatchEntry A) → List (Bytes × A) → List (MsgBatchEntry A)
  | m :: ms, d :: ds => mark m d.1.length :: markAll ms ds
  | ms, _ => ms

/-- The branch for Linux. -/
def sendLinux (answer : Nat → Option E) (msgs : List (MsgBatchEntry A)) : Sent A E :=
  match sendmmsg answer (msgs.map datagram) with
  | (.error e, sent) => ⟨.error (.system e), msgs, sent⟩
  | (.ok n, sent) => ⟨.ok n, markAll msgs sent, sent⟩

/-- `send_batch` of a socket that is open or not. -/
def sendBatch (linux isOpen : Bool) (answer : Nat → Option E) (msgs : List (MsgBatchEntry A)) :
    Sent A E :=
  if isOpen = false then ⟨.error .invalidState, msgs, []⟩
  else if linux then sendLinux answer msgs
  else sendLoop answer 0 msgs

/-- What the portable loop makes of the sends of the kernel's loop. -/
def sendOutcome (i : Nat) (msgs : List (MsgBatchEntry A)) (r : List (Bytes × A) × Option E) :
    Sent A E where
  result :=
    match i + r.1.length, r.2 with
    | 0, some e => .error (.system e)
    | n, _ => .ok n
  msgs := markAll msgs r.1
  wire := r.1

theorem sendLoop_eq (answer : Nat → Option E) (i : Nat) (msgs : List (MsgBatchEntry A)) :
    sendLoop answer i msgs = sendOutcome i msgs (sendmmsgLoop answer i (msgs.map datagram)) := by
  induction msgs generalizing i with
  | nil => cases i <;> rfl
  | cons m ms ih =>
    rw [List.map_cons, sendLoop, sendmmsgLoop]
    cases answer i with
    | some e => cases i <;> rfl
    | none =>
      have hn := Nat.add_right_comm i 1 (sendmmsgLoop answer (i + 1) (ms.map datagram)).1.length
      simp only [ih, sendOutcome, List.length_cons, ← Nat.add_assoc, hn]
      rfl

/-- The sends up to the first that fails, `n` of at most `len`. -/
def Accepted (answer : Nat → Option E) (i len n : Nat) : Prop :=
  n ≤ len ∧ (∀ j < n, answer (i + j) = none) ∧ (n < len → (answer (i + n)).isSome)

theorem Accepted.zero {answer : Nat → Option E} {i : Nat} {e : E} (h : answer i = some e)
    (len : Nat) : Accepted answer i len 0 :=
  ⟨Nat.zero_le _, fun _ hj => absurd hj (Nat.not_lt_zero _), fun _ => by simp [h]⟩

theorem Accepted.succ {answer : Nat → Option E} {i len n : Nat} (h0 : answer i = none)
    (h : Accepted answer (i + 1) len n) : Accepted answer i (len + 1) (n + 1) := by
  obtain ⟨hle, hok, hfail⟩ := h
  refine ⟨Nat.succ_le_succ hle, fun j hj => ?_, fun hlt => ?_⟩
  · cases j with
    | zero => exact h0
    | succ j =>
      rw [← Nat.add_assoc, Nat.add_right_comm]
      exact hok j (Nat.lt_of_succ_lt_succ hj)
  · rw [← Nat.add_assoc, Nat.add_right_comm]
    exact hfail (Nat.lt_of_succ_lt_succ hlt)

/-- The kernel's loop sends the datagrams up to the first that fails. -/
theorem sendmmsgLoop_spec (answer : Nat → Option E) (i : Nat) (ds : List (Bytes × A)) :
    ∃ n, Accepted answer i ds.length n ∧
      sendmmsgLoop answer i ds = (ds.take n, if n < ds.length then answer (i + n) else none) := by
  induction ds generalizing i with
  | nil => exact ⟨0, ⟨Nat.le_refl 0, fun _ hj => absurd hj (Nat.not_lt_zero _), by simp⟩, rfl⟩
  | cons d ds ih =>
    rw [sendmmsgLoop]
    cases h0 : answer i with
    | some e => exact ⟨0, .zero h0 _, by simp [h0]⟩
    | none =>
      obtain ⟨n, ha, he⟩ := ih (i + 1)
      refine ⟨n + 1, ha.succ h0, ?_⟩
      simp only [he, List.take_succ_cons, List.length_cons, Nat.add_lt_add_iff_right]
      rw [Nat.add_right_comm, Nat.add_assoc]

theorem markAll_append (ms rest : List (MsgBatchEntry A)) (ds : List (Bytes × A))
    (h : ds.length ≤ ms.length) : markAll (ms ++ rest) ds = markAll ms ds ++ rest := by
  induction ms generalizing ds with
  | nil =>
    rw [List.eq_nil_of_length_eq_zero (Nat.le_zero.1 h)]
    cases rest <;> rfl
  | cons m ms ih =>
    cases ds with
    | nil => rfl
    | cons d ds =>
      rw [List.cons_append, markAll, markAll, ih ds (Nat.le_of_succ_le_succ h), List.cons_append]

/-- The datagrams of the first `n` entries were sent, and `n` is returned unless it is zero
because of an error. -/
structure SentFirst (answer : Nat → Option E) (msgs : List (MsgBatchEntry A)) (n : Nat)
    (r : Sent A E) : Prop where
  wire : r.wire = (msgs.take n).map datagram
  msgs : r.msgs = (msgs.take n).map (fun m => mark m (datagram m).1.length) ++ msgs.drop n
  result : r.result = .ok n ∨ n = 0 ∧ ∃ e, answer 0 = some e ∧ r.result = .error (.system e)

theorem markAll_take (msgs : List (MsgBatchEntry A)) (n : Nat) :
    markAll msgs ((msgs.take n).map datagram) =
      (msgs.take n).map (fun m => mark m (datagram m).1.length) ++ msgs.drop n := by
  induction msgs generalizing n with
  | nil => cases n <;> rfl
  | cons m ms ih =>
    cases n with
    | zero => rfl
    | succ n => exact congrArg (_ :: ·) (ih n)

theorem sendLoop_spec (answer : Nat → Option E) (msgs : List (MsgBatchEntry A)) :
    ∃ n, Accepted answer 0 msgs.length n ∧ SentFirst answer msgs n (sendLoop answer 0 msgs) := by
  obtain ⟨n, ha, he⟩ := sendmmsgLoop_spec answer 0 (msgs.map datagram)
  rw [List.length_map] at ha he
  have hn : ((msgs.map datagram).take n).length = n := by
    rw [List.length_take, List.length_map, Nat.min_eq_left ha.1]
  refine ⟨n, ha, ?_⟩
  rw [sendLoop_eq, he]
  refine ⟨by rw [sendOutcome, List.map_take], ?_, ?_⟩
  · rw [sendOutcome, ← List.map_take, markAll_take]
  · simp only [sendOutcome, hn, Nat.zero_add]
    cases n with
    | succ n => exact .inl rfl
    | zero =>
      by_cases hlen : 0 < msgs.length
      · rw [if_pos hlen]
        cases h0 : answer 0 with
        | none => exact .inl rfl
        | some e => exact .inr ⟨rfl, e, rfl, rfl⟩
      · rw [if_neg hlen]
        exact .inl rfl

/-- The branch for Linux is the portable loop over the first `UIO_MAXIOV` entries. -/
theorem sendLinux_eq (answer : Nat → Option E) (msgs : List (MsgBatchEntry A)) :
    sendLinux answer msgs =
      let r := sendLoop answer 0 (msgs.take uioMaxiov)
      { r with msgs := r.msgs ++ msgs.drop uioMaxiov } := by
  have hle := (sendmmsgLoop_spec answer 0 ((msgs.take uioMaxiov).map datagram))
  rw [sendLoop_eq, sendLinux, sendmmsg, ← List.map_take]
  obtain ⟨n, ha, he⟩ := hle
  have hmark : markAll msgs (((msgs.take uioMaxiov).map datagram).take n) =
      markAll (msgs.take uioMaxiov) (((msgs.take uioMaxiov).map datagram).take n) ++
        msgs.drop uioMaxiov := by
    rw [← markAll_append _ _ _ (by simp), List.take_append_drop]
  rw [he]
  simp only [sendOutcome]
  rw [← hmark]
  generalize ((msgs.take uioMaxiov).map datagram).take n = sent
  generalize (if n < ((msgs.take uioMaxiov).map datagram).length then answer (0 + n) else none) = e
  cases sent with
  | nil => cases e with
    | none => rfl
    | some e => cases msgs <;> rfl
  | cons d ds =>
    have hn : 0 + (d :: ds).length = ds.length + 1 := by rw [List.length_cons, Nat.zero_add]
    simp only [hn]
    rfl

/-- The most that one call sends. -/
def limit (linux : Bool) (len : Nat) : Nat := if linux then min uioMaxiov len else len

/-- **A batch is sent in order, up to the first error**, on every platform. -/
theorem sendBatch_spec (linux : Bool) (answer : Nat → Option E) (msgs : List (MsgBatchEntry A)) :
    ∃ n, Accepted answer 0 (limit linux msgs.length) n ∧
      SentFirst answer msgs n (sendBatch linux true answer msgs) := by
  cases linux with
  | false => exact sendLoop_spec answer msgs
  | true =>
    obtain ⟨n, ha, hs⟩ := sendLoop_spec answer (msgs.take uioMaxiov)
    rw [List.length_take] at ha
    have hn : n ≤ uioMaxiov := Nat.le_trans ha.1 (Nat.min_le_left _ _)
    have htake : (msgs.take uioMaxiov).take n = msgs.take n := by
      rw [List.take_take, Nat.min_eq_left hn]
    refine ⟨n, ha, ?_⟩
    show SentFirst answer msgs n (sendLinux answer msgs)
    rw [sendLinux_eq]
    refine ⟨htake ▸ hs.wire, ?_, hs.result⟩
    have hdrop : (msgs.take uioMaxiov).drop n ++ msgs.drop uioMaxiov = msgs.drop n := by
      rw [← List.drop_append_of_le_length (by rw [List.length_take]; exact ha.1),
        List.take_append_drop]
    show (sendLoop answer 0 (msgs.take uioMaxiov)).msgs ++ msgs.drop uioMaxiov = _
    rw [hs.msgs, htake, List.append_assoc, hdrop]

/-! ## The batches of a datagram socket and of its peers -/

/-- `dgram4_send_entry`. -/
structure SendEntry (A : Type) where
  data : Bytes
  len : Nat
  dest : A
  deriving DecidableEq, Repr

/-- `stack_limit`. -/
def stackLimit : Nat := 64

/-- The array of entries, on the stack if `n` of them fit there. -/
def scratch [Inhabited A] (n : Nat) : List (MsgBatchEntry A) :=
  List.replicate (if n ≤ stackLimit then stackLimit else n) ⟨[], 0, default, 0⟩

/-- The entry of a message that goes to `a`. -/
def entry (a : A) (x : SendEntry A) : MsgBatchEntry A := ⟨x.data, x.len, a, 0⟩

/-- The entries that both `do_send_batch` hand on; `dst` is the address they write. -/
def prepare [Inhabited A] (dst : SendEntry A → A) (msgs : List (SendEntry A)) :
    List (MsgBatchEntry A) :=
  (msgs.zipIdx.foldl (fun es p => es.set p.2 (entry (dst p.1) p.1)) (scratch msgs.length)).take
    msgs.length

/-- `do_send_batch` of `dgram_impl`. -/
def doSendBatch [Inhabited A] (linux isOpen : Bool) (answer : Nat → Option E)
    (msgs : List (SendEntry A)) : Sent A E :=
  sendBatch linux isOpen answer (prepare SendEntry.dest msgs)

/-- `do_send_batch` of `dgram_peer_impl`, over the socket of its parent. -/
def doSendBatchPeer [Inhabited A] (linux isOpen peerOpen : Bool) (peerAddr : A)
    (answer : Nat → Option E) (msgs : List (SendEntry A)) : Sent A E :=
  if peerOpen = false then ⟨.error .notConnected, [], []⟩
  else sendBatch linux isOpen answer (prepare (fun _ => peerAddr) msgs)

theorem prepare_eq [Inhabited A] (dst : SendEntry A → A) (msgs : List (SendEntry A)) :
    prepare dst msgs = msgs.map fun x => entry (dst x) x := by
  have hroom : msgs.length ≤ (scratch msgs.length : List (MsgBatchEntry A)).length := by
    rw [scratch, List.length_replicate]
    split
    · assumption
    · exact Nat.le_refl _
  have h := Slices.foldl_set_map (fun x => entry (dst x) x) msgs [] _ hroom
  rw [List.nil_append, List.nil_append, List.length_nil] at h
  rw [prepare, h]
  exact List.take_left' (List.length_map _)

/-- The first `n` messages are on the wire, each for the address `dst` gives, `n` is returned
(or the error, if the first one failed), and the next one failed if there was room for it. -/
structure SentBatch (linux : Bool) (answer : Nat → Option E) (dst : SendEntry A → A)
    (msgs : List (SendEntry A)) (r : Sent A E) (n : Nat) : Prop where
  accepted : Accepted answer 0 (limit linux msgs.length) n
  wire : r.wire = (msgs.take n).map fun x => (x.data.take x.len, dst x)
  result : r.result = .ok n ∨ n = 0 ∧ ∃ e, answer 0 = some e ∧ r.result = .error (.system e)

theorem sendBatch_prepare [Inhabited A] (linux : Bool) (answer : Nat → Option E)
    (dst : SendEntry A → A) (msgs : List (SendEntry A)) :
    ∃ n, SentBatch linux answer dst msgs (sendBatch linux true answer (prepare dst msgs)) n := by
  obtain ⟨n, ha, hs⟩ := sendBatch_spec linux answer (prepare dst msgs)
  rw [prepare_eq, List.length_map] at ha
  refine ⟨n, ha, ?_, hs.result⟩
  rw [hs.wire, prepare_eq, ← List.map_take, List.map_map]
  rfl

/-- **What `send_batch` of a datagram socket and of a peer sends.** On every platform, for every
list of messages and whatever the kernel answers to each send: the messages up to the first that
fails go out in order, those of a peer all to its address, and their number is returned, or the
error if there are none. On Linux one call sends 1024 at most; elsewhere all of them, if none
fails. A peer that is closed sends nothing. -/
theorem do_send_batch_sends [Inhabited A] (linux : Bool) (answer : Nat → Option E) (peerAddr : A)
    (msgs : List (SendEntry A)) :
    (∃ n, SentBatch linux answer SendEntry.dest msgs (doSendBatch linux true answer msgs) n) ∧
    (∃ n, SentBatch linux answer (fun _ => peerAddr) msgs
      (doSendBatchPeer linux true true peerAddr answer msgs) n) ∧
    (doSendBatchPeer linux true false peerAddr answer msgs).wire = [] ∧
    ((∀ i, answer i = none) →
      (doSendBatch linux true answer msgs).result = .ok (limit linux msgs.length)) := by
  obtain ⟨n, h⟩ := sendBatch_prepare linux answer SendEntry.dest msgs
  refine ⟨⟨n, h⟩, sendBatch_prepare linux answer (fun _ => peerAddr) msgs, rfl, fun hall => ?_⟩
  have hn : n = limit linux msgs.length := by
    refine Nat.le_antisymm h.accepted.1 (Nat.le_of_not_lt fun hlt => ?_)
    have hfail := h.accepted.2.2 hlt
    rw [hall] at hfail
    cases hfail
  rcases h.result with hok | ⟨-, e, h0, -⟩
  · exact hn ▸ hok
  · cases (hall 0).symm.trans h0

/-- A peer's batch of two, of which the second is refused. -/
theorem do_send_batch_sends_one :
    (∃ n, SentBatch true (fun i => if i = 1 then some 90 else none) (fun _ => 7)
      [⟨[1, 2, 3], 2, 0⟩, ⟨[4], 1, 0⟩]
      (doSendBatchPeer true true true 7 (fun i => if i = 1 then some 90 else none)
        [⟨[1, 2, 3], 2, 0⟩, ⟨[4], 1, 0⟩]) n) ∧
    (doSendBatchPeer true true true 7 (fun i => if i = 1 then some 90 else none)
        [⟨[1, 2, 3], 2, 0⟩, ⟨[4], 1, 0⟩]).wire = [([1, 2], 7)] :=
  ⟨(do_send_batch_sends true (fun i => if i = 1 then some 90 else none) 7
    [⟨[1, 2, 3], 2, 0⟩, ⟨[4], 1, 0⟩]).2.1, by decide⟩

end UdpBatch

end Socketpp
