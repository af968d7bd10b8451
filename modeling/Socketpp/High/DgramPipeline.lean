import Socketpp.Event.Loop
import Socketpp.High.DgramReceive
import Socketpp.High.SerialProgress
import Socketpp.Socket.UdpBatch

/-!
# From the kernel's queue to the callbacks

The way of a datagram through `dgram_impl` (`src/high/dgram.cpp`). The loop
thread calls `handle_readable` for a readable event: at most eight times it
resets the entries, receives a batch (`recv_batch`), decides for each datagram
whether it goes to the main callback, to a claimed peer or nowhere, and submits
the callbacks to the serial queue of the socket or the peer; the workers of the
pool run them.

`DgramPipe` is the socket with its queues and its registration. Between two events
the loop thread may do anything to the table of peers, and it runs the tasks of
`arm`, `do_pause` and `do_resume`; other threads relinquish peers at any point of a
pass (`Race`), datagrams and errors arrive at any point, and the workers run
meanwhile. The submits of a batch are steps of their own; those to the socket's
queue and those to the peers are kept apart, so every order of the two is covered.

`recv_batch` reads the kernel's queue, and on Windows the dispatcher's `dgram_queue`.
There an arrival is a completion that the loop thread takes: it queues the datagram
unless it is empty, and drops an error.

`arrived` and `received` are history: what has been queued, and what was received
with where it went. `FlowInv` relates them to the queues.
-/

namespace Socketpp

/-- What is submitted to a serial queue. -/
inductive RxTask (A E : Type) where
  /-- `on_data_cb` -/
  | data (d : Bytes × A)
  /-- `on_data_batch_cb`, with `shared_buf` and `shared_msgs` -/
  | batch (buf : Bytes) (msgs : List (DgramBatch.Message A))
  /-- `on_error_cb` -/
  | error (e : UdpError E)
  /-- a function posted by the user -/
  | user (x : Nat)
  deriving DecidableEq, Repr

/-- The datagrams that a callback is given. -/
def RxTask.given {A E : Type} : RxTask A E → List (Bytes × A)
  | .data d => [d]
  | .batch buf msgs => msgs.map (DgramBatch.Message.read buf)
  | .error _ => []
  | .user _ => []

/-- Where a datagram goes. -/
inductive Route (P : Type) where
  | main
  | peer (p : P)
  /-- its peer is claimed, and nothing is submitted -/
  | dropped
  deriving DecidableEq, Repr

structure DgramConfig (P : Type) extends DgramBatch.Config P where
  linux : Bool
  /-- only Windows is without the kernel's demultiplexing -/
  demux : linux = true → kernelDemux = true
  /-- `on_data_batch_cb` is set, not `on_data_cb` -/
  batchMode : Bool
  /-- `on_error_cb` is set -/
  onError : Bool
  batchSize : Nat
  bufSize : Nat

/-- A task that is posted to the loop. -/
inductive ReadTask where
  | arm
  | pause
  | resume
  deriving DecidableEq, Repr

structure DgramPipe (A P E : Type) (n : Nat) where
  /-- what `recv_batch` reads -/
  sock : UdpSocket A E
  /-- what the dispatcher has the socket registered for -/
  interest : Option IoEvent
  batchEntries : List (MsgBatchEntry A)
  claimedPeers : AList fun _ : A => P
  opened : P → Bool
  /-- `iter`, while the loop of `handle_readable` goes on -/
  iter : Option Nat
  /-- what it has still to submit of the last batch: to the socket's queue -/
  toMain : List (RxTask A E)
  /-- and to the peers' -/
  toPeers : List (P × (Bytes × A))
  /-- `none` is the queue of the socket -/
  serial : SerialPool (Option P) (RxTask A E) Empty Empty n
  arrived : List (Bytes × A)
  received : List ((Bytes × A) × Route P)

namespace DgramPipe

variable {A P E : Type} [DecidableEq A] [DecidableEq P] [Inhabited A] {n : Nat}

def start (cfg : DgramConfig P) (n m : Nat) : DgramPipe A P E n where
  sock := ⟨[], none⟩
  interest := none
  batchEntries := List.replicate cfg.batchSize
    ⟨List.replicate cfg.bufSize 0, cfg.bufSize, default, 0⟩
  claimedPeers := ∅
  opened _ := false
  iter := none
  toMain := []
  toPeers := []
  serial := .start n m
  arrived := []
  received := []

/-- `max_iterations`. -/
def maxIterations : Nat := 8

/-- The loop at the top of an iteration. -/
def reset (cfg : DgramConfig P) (m : MsgBatchEntry A) : MsgBatchEntry A :=
  { m with len := cfg.bufSize, transferred := 0 }

/-- The datagrams of the first `count` entries. -/
def batchOf (entries : List (MsgBatchEntry A)) (count : Nat) : List (Datagram A) :=
  (entries.take count).map fun m => ⟨(UdpBatch.read m).1, (UdpBatch.read m).2⟩

/-- What a pass has forwarded, with the data. -/
def forwards (batch : List (Datagram A)) (delivered : List (P × Nat)) : List (P × (Bytes × A)) :=
  delivered.filterMap fun d => batch[d.2]?.map fun x => (d.1, (x.data, x.sender))

/-- What a batch does: the new table, and what is submitted to the socket's queue and to the
peers. -/
def passes (cfg : DgramConfig P) (r : Race P) (m : AList fun _ : A => P)
    (batch : List (Datagram A)) :
    (AList fun _ : A => P) × List (RxTask A E) × List (P × (Bytes × A)) :=
  if cfg.batchMode then
    let s := (DgramBatch.handleBatch cfg.toConfig r m batch).1
    (s.claimedPeers,
      ((DgramBatch.submittedBatch cfg.toConfig r m batch).map fun v => .batch v.1 v.2).toList,
      forwards batch s.delivered)
  else
    let s := DgramBatch.handleSingle cfg.toConfig r m batch
    (s.claimedPeers, s.submitted.map .data, forwards batch s.delivered)

/-- Where the datagram `e` of a batch goes, by the table at its start. -/
def route (cfg : DgramConfig P) (r : Race P) (m : AList fun _ : A => P)
    (e : DgramBatch.Entry A) : Route P :=
  match m.lookup e.1.sender with
  | none => .main
  | some p =>
    if r.openAt (DgramBatch.checkTime e.2) p = false then .main
    else if cfg.kernelDemux then .dropped
    else if r.openAt (DgramBatch.deliverTime e.2) p && cfg.onData p then .peer p
    else .dropped

/-- The last load of a batch of `count`. -/
def lastTime (count : Nat) : Nat := 3 * count

/-- An iteration of `handle_readable` after its `recv_batch` has received `count` datagrams. -/
def dispatch (cfg : DgramConfig P) (r : Race P) (i count : Nat) (s : DgramPipe A P E n) :
    DgramPipe A P E n :=
  let batch := batchOf s.batchEntries count
  let d := passes cfg r s.claimedPeers batch
  { s with
    claimedPeers := d.1
    opened := r.openAt (lastTime count)
    toMain := d.2.1
    toPeers := d.2.2
    received := s.received ++
      batch.zipIdx.map fun e => (DgramBatch.given e, route cfg r s.claimedPeers e)
    iter := if count < cfg.batchSize ∨ maxIterations ≤ i + 1 then none else some (i + 1) }

/-- What arrives during a `recv_batch`: on Windows nothing, since the loop thread queues it. -/
def during (cfg : DgramConfig P) (env : Nat → List (UdpArrival A E)) :
    Nat → List (UdpArrival A E) :=
  if cfg.kernelDemux then env else fun _ => []

/-- The `recv_batch` of an iteration. -/
def receive (cfg : DgramConfig P) (env : Nat → List (UdpArrival A E)) (s : DgramPipe A P E n) :
    UdpBatch.Received A E :=
  UdpBatch.recvBatch cfg.linux true (during cfg env) s.sock (s.batchEntries.map (reset cfg))

/-- Iteration `i` of `handle_readable`, up to the submits. -/
def iteration (cfg : DgramConfig P) (env : Nat → List (UdpArrival A E))
    (relinquished : Nat → List P) (i : Nat) (s : DgramPipe A P E n) : DgramPipe A P E n :=
  let r := s.receive cfg env
  let s := { s with sock := r.sock, batchEntries := r.msgs }
  match r.result with
  | .error .wouldBlock => { s with iter := none }
  | .error e => { s with iter := none, toMain := if cfg.onError then [.error e] else [] }
  | .ok 0 => { s with iter := none }
  | .ok count =>
    { dispatch cfg ⟨s.opened, relinquished⟩ i count s with
      arrived := s.arrived ++ UdpBatch.arrivals (during cfg env) 0 count }

/-- `dispatcher::add`, which fails for a socket that it has. -/
def addReadable (ok : Bool) (interest : Option IoEvent) : Option IoEvent :=
  if interest.isSome || !ok then interest else some .readable

/-- A task of the loop. On Windows the socket stays with the dispatcher. -/
def runTask (cfg : DgramConfig P) (ok : Bool) (interest : Option IoEvent) :
    ReadTask → Option IoEvent
  | .arm => addReadable ok interest
  | .pause => if cfg.kernelDemux then none else interest.map fun _ => .none
  | .resume => if cfg.kernelDemux then addReadable ok interest else interest.map fun _ => .readable

/-- A completion that is put into `dgram_queue`. -/
def queued : UdpArrival A E → Bool
  | .datagram d => !d.1.isEmpty
  | .error _ => false

/-- Readable events are dispatched. -/
def reads (s : DgramPipe A P E n) : Bool :=
  s.interest.any fun mask => IoEvent.hasEvent mask .readable

/-- What the workers and the destructor do to the pool. -/
inductive PoolAct (n : Nat) where
  | take (w : Fin n)
  | drainLock (w : Fin n)
  | fnReturn (w : Fin n)
  | shutdown

def PoolAct.act {n : Nat} : PoolAct n → SerialPool.SerialAct (Option P) (RxTask A E) Empty Empty n
  | .take w => .take w
  | .drainLock w => .drainLock w
  | .fnReturn w => .fnReturn w
  | .shutdown => .shutdown

inductive Act (A P E : Type) (n : Nat) where
  /-- the kernel queues a datagram; on Windows the completion of a receive -/
  | arrive (a : UdpArrival A E)
  /-- a task of `arm`, `do_pause` or `do_resume` is run by the loop; `ok`: an `add` succeeds -/
  | task (t : ReadTask) (ok : Bool)
  /-- `claim` and whatever else the loop thread does to the table -/
  | table (m : AList fun _ : A => P) (opened : P → Bool)
  /-- `open_.exchange(false)` on another thread -/
  | relinquish (p : P)
  /-- the dispatcher calls back -/
  | readable
  /-- it calls back without `readable` -/
  | ignored
  | receive (env : Nat → List (UdpArrival A E)) (relinquished : Nat → List P)
  | submitMain
  | submitPeer
  /-- the function posted by `do_post` is run by the loop -/
  | post (x : Nat)
  | pool (a : PoolAct n)

/-- The loop thread is not inside `handle_readable`. -/
def idle (s : DgramPipe A P E n) : Bool := s.iter.isNone && s.toMain.isEmpty && s.toPeers.isEmpty

def step (cfg : DgramConfig P) (s : DgramPipe A P E n) : Act A P E n → Option (DgramPipe A P E n)
  | .arrive a =>
    if cfg.kernelDemux || (s.idle && s.interest.isSome && queued a) then
      some { s with sock := s.sock.arrive a, arrived := s.arrived ++ UdpArrival.datagrams [a] }
    else if s.idle && s.interest.isSome then some s
    else none
  | .task t ok => if s.idle then some { s with interest := runTask cfg ok s.interest t } else none
  | .table m opened => if s.idle then some { s with claimedPeers := m, opened := opened } else none
  | .relinquish p => some { s with opened := Function.update s.opened p false }
  | .readable => if s.idle && s.reads then some { s with iter := some 0 } else none
  | .ignored => if s.idle && s.interest.isSome then some s else none
  | .receive env relinquished =>
    if s.toMain.isEmpty && s.toPeers.isEmpty then
      s.iter.map fun i => iteration cfg env relinquished i s
    else none
  | .submitMain =>
    match s.toMain with
    | [] => none
    | t :: rest => some { s with toMain := rest, serial := s.serial.submit none t }
  | .submitPeer =>
    match s.toPeers with
    | [] => none
    | x :: rest => some { s with toPeers := rest, serial := s.serial.submit (some x.1) (.data x.2) }
  | .post x => if s.idle then some { s with serial := s.serial.submit none (.user x) } else none
  | .pool a => (SerialPool.step Empty.elim s.serial a.act).map fun p => { s with serial := p }

/-- A datagram socket on a pool of `n` workers; `m` is the pool's `max_queue_size`. -/
def machine (cfg : DgramConfig P) (n m : Nat) : Machine (DgramPipe A P E n) (Act A P E n) where
  Init s := s = start cfg n m
  step := step cfg

/-- In batch mode no peer is relinquished between the two decisions about one of its datagrams. -/
def SteadyAct (cfg : DgramConfig P) (s : DgramPipe A P E n) : Act A P E n → Prop
  | .receive env relinquished =>
    ∀ count ∈ (s.receive cfg env).result.toOption, cfg.batchMode = true →
      DgramBatch.Steady ⟨s.opened, relinquished⟩ s.claimedPeers
        (batchOf (s.receive cfg env).msgs count)
  | _ => True

instance (cfg : DgramConfig P) (s : DgramPipe A P E n) :
    (a : Act A P E n) → Decidable (SteadyAct cfg s a)
  | .receive _ _ => inferInstanceAs (Decidable (∀ count ∈ _, _ → ∀ e ∈ _, _ → _))
  | .arrive _ | .task _ _ | .table _ _ | .relinquish _ | .readable | .ignored | .submitMain
  | .submitPeer | .post _ | .pool _ => isTrue trivial

/-! ## Where the datagrams of a batch go -/

section Passes

open DgramBatch

variable {cfg : DgramConfig P} {r : Race P} {m₀ : AList fun _ : A => P} {t : Nat}

omit [Inhabited A] in
theorem route_eq_main_iff (e : Entry A) : route cfg r m₀ e = .main ↔ counted r m₀ e = true := by
  unfold route counted held
  cases m₀.lookup e.1.sender with
  | none => simp
  | some p =>
    cases ho : r.openAt (checkTime e.2) p with
    | false => simp [ho]
    | true =>
      simp only [ho, Bool.true_eq_false, if_false, Option.any_some, Bool.not_true,
        Bool.false_eq_true, iff_false]
      split
      · simp
      · split <;> simp

/-- What is forwarded of a datagram. -/
def forwarded (cfg : DgramConfig P) (r : Race P) (m : AList fun _ : A => P) (e : Entry A) :
    Option P :=
  match route cfg r m e with
  | .peer p => some p
  | _ => none

omit [Inhabited A] in
/-- The first pass decides by the table at the start. -/
theorem check_delivered {s : FirstPass A P} (h : Shrinks r t m₀ s.claimedPeers) {e : Entry A}
    (ht : t ≤ checkTime e.2) :
    (check cfg.toConfig r s e).delivered =
      s.delivered ++ ((forwarded cfg r m₀ e).map fun p => (p, e.2)).toList := by
  have hcount : counted r s.claimedPeers e = counted r m₀ e := by
    rw [counted, counted, h.held_eq ht]
  cases hc : counted r s.claimedPeers e with
  | true =>
    have hmain : route cfg r m₀ e = .main := (route_eq_main_iff e).2 (hcount ▸ hc)
    simp [(check_counted cfg.toConfig hc).2.2, forwarded, hmain]
  | false =>
    unfold counted held at hc
    cases hl : s.claimedPeers.lookup e.1.sender with
    | none => rw [hl] at hc; cases hc
    | some p =>
      rw [hl] at hc
      have ho : r.openAt (checkTime e.2) p = true := by simpa using hc
      have hl₀ : m₀.lookup e.1.sender = some p := by
        rcases h e.1.sender with e' | ⟨hn, -⟩
        · rw [← e', hl]
        · cases hn.symm.trans hl
      simp only [check, hl, forwarded, route, hl₀, ho, Bool.true_eq_false, if_false, deliverData]
      split
      · simp
      · split <;> simp

omit [Inhabited A] in
theorem foldl_check_delivered (ds : List (Datagram A)) (k : Nat) {s : FirstPass A P}
    (h : Shrinks r t m₀ s.claimedPeers) (ht : t ≤ checkTime k) :
    ((ds.zipIdx k).foldl (check cfg.toConfig r) s).delivered =
      s.delivered ++
        (ds.zipIdx k).filterMap fun e => (forwarded cfg r m₀ e).map fun p => (p, e.2) := by
  induction ds generalizing k s t with
  | nil => exact (List.append_nil _).symm
  | cons d ds ih =>
    have hnext : checkTime k ≤ checkTime (k + 1) := by unfold checkTime; omega
    rw [List.zipIdx_cons, List.foldl_cons,
      ih (k + 1) (check_shrinks cfg.toConfig (e := (d, k)) h ht) hnext,
      check_delivered h (e := (d, k)) ht, List.append_assoc, List.filterMap_cons]
    cases forwarded cfg r m₀ (d, k) <;> rfl

omit [DecidableEq A] [Inhabited A] [DecidableEq P] in
/-- The data of the forwarded datagrams. -/
theorem forwards_filterMap (batch : List (Datagram A)) (f : Entry A → Option P) :
    forwards batch (batch.zipIdx.filterMap fun e => (f e).map fun p => (p, e.2)) =
      batch.zipIdx.filterMap fun e => (f e).map fun p => (p, given e) := by
  rw [forwards, List.filterMap_filterMap]
  refine List.filterMap_congr fun e he => ?_
  cases f e with
  | none => rfl
  | some p =>
    have hget := List.mem_zipIdx_iff_getElem?.1 he
    simp only [Option.map_some, Option.bind_some, hget]
    rfl

omit [Inhabited A] in
/-- The datagrams forwarded to one peer are those with that route. -/
theorem filter_forwarded (l : List (Entry A)) (p : P) :
    ((l.filterMap fun e => (forwarded cfg r m₀ e).map fun p => (p, given e)).filter
        (fun x => x.1 = p)).map Prod.snd =
      (l.filter fun e => route cfg r m₀ e = .peer p).map given := by
  induction l with
  | nil => rfl
  | cons e l ih =>
    rw [List.filterMap_cons, List.filter_cons]
    cases hr : route cfg r m₀ e with
    | main => simpa [forwarded, hr] using ih
    | dropped => simpa [forwarded, hr] using ih
    | peer p' =>
      by_cases hp : p' = p
      · simpa [forwarded, hr, hp] using ih
      · simpa [forwarded, hr, hp] using ih

omit [Inhabited A] in
theorem filter_counted (l : List (Entry A)) :
    l.filter (counted r m₀) = l.filter fun e => route cfg r m₀ e = .main := by
  refine List.filter_congr fun e _ => ?_
  rw [Bool.eq_iff_iff, decide_eq_true_iff, route_eq_main_iff]

variable (cfg) in
/-- The vectors of the batch branch, if it is steady. -/
theorem batchGiven_steady {batch : List (Datagram A)} (h : Steady r m₀ batch) :
    batchGiven cfg.toConfig r m₀ batch = (batch.zipIdx.filter (counted r m₀)).map given := by
  obtain ⟨hcount, hbytes, -, hsecond⟩ := handleBatch_spec cfg.toConfig r m₀ batch
  rw [← filter_eq_iff_steady.2 h] at hsecond
  unfold batchGiven submittedBatch
  simp only [hcount, hbytes, hsecond]
  generalize batch.zipIdx.filter (counted r m₀) = l
  split
  · exact (secondPass_messages (foldl_write_writes l ⟨0, 0, []⟩)).1
  · rename_i hl
    rw [List.eq_nil_of_length_eq_zero (Nat.eq_zero_of_not_pos hl)]
    rfl

omit [Inhabited A] in
theorem handleBatch_delivered (batch : List (Datagram A)) :
    (handleBatch cfg.toConfig r m₀ batch).1.delivered =
      batch.zipIdx.filterMap fun e => (forwarded cfg r m₀ e).map fun p => (p, e.2) :=
  foldl_check_delivered (t := 0) batch 0 (s := ⟨m₀, 0, 0, []⟩) Shrinks.refl (Nat.zero_le _)

variable (cfg) in
omit [Inhabited A] in
theorem handleSingle_spec (batch : List (Datagram A)) :
    (handleSingle cfg.toConfig r m₀ batch).submitted =
      (batch.zipIdx.filter (counted r m₀)).map given ∧
    (handleSingle cfg.toConfig r m₀ batch).delivered =
      batch.zipIdx.filterMap fun e => (forwarded cfg r m₀ e).map fun p => (p, e.2) := by
  obtain ⟨⟨-, hdel⟩, hsub⟩ := foldl_handleOne (r := r) (t := 0) cfg.toConfig batch 0
    (s := ⟨m₀, 0, 0, []⟩) (q := ⟨m₀, [], []⟩) ⟨rfl, rfl⟩ Shrinks.refl (Nat.zero_le _)
  exact ⟨hsub, hdel.trans (handleBatch_delivered batch)⟩

/-- The forwarded datagrams are the same in both modes. -/
theorem passes_forwards (batch : List (Datagram A)) :
    (passes (E := E) cfg r m₀ batch).2.2 =
      batch.zipIdx.filterMap fun e => (forwarded cfg r m₀ e).map fun p => (p, given e) := by
  rw [← forwards_filterMap]
  unfold passes
  split
  · rw [← handleBatch_delivered]
  · rw [← (handleSingle_spec cfg batch).2]

/-- **Where a batch goes**: the tasks for the socket's queue carry the datagrams for the main
callback, those for a peer the ones for that peer, each in the order of the batch. -/
theorem passes_spec {batch : List (Datagram A)}
    (h : cfg.batchMode = true → Steady r m₀ batch) :
    let d := passes (E := E) cfg r m₀ batch
    d.2.1.flatMap RxTask.given =
      (batch.zipIdx.filter fun e => route cfg r m₀ e = .main).map given ∧
    ∀ p, (d.2.2.filter fun x => x.1 = p).map Prod.snd =
      (batch.zipIdx.filter fun e => route cfg r m₀ e = .peer p).map given := by
  refine ⟨?_, fun p => by rw [passes_forwards, filter_forwarded]⟩
  rw [← filter_counted]
  unfold passes
  split
  · rename_i hb
    rw [← batchGiven_steady cfg (h hb)]
    unfold batchGiven
    cases submittedBatch cfg.toConfig r m₀ batch <;> simp [RxTask.given]
  · rw [← (handleSingle_spec cfg batch).1]
    simp [List.flatMap_map, RxTask.given]

variable (cfg r m₀) in
/-- A batch submits no more than its datagrams. -/
theorem passes_length {batch : List (Datagram A)} (hb : batch ≠ []) :
    (passes (E := E) cfg r m₀ batch).2.1.length ≤ batch.length ∧
    (passes (E := E) cfg r m₀ batch).2.2.length ≤ batch.length := by
  have hzip : batch.zipIdx.length ≤ batch.length := Nat.le_of_eq List.length_zipIdx
  constructor
  · unfold passes
    split
    · cases submittedBatch cfg.toConfig r m₀ batch with
      | none => exact Nat.zero_le _
      | some v => exact List.length_pos_iff.2 hb
    · rw [List.length_map, (handleSingle_spec cfg batch).1, List.length_map]
      exact Nat.le_trans (List.length_filter_le _ _) hzip
  · rw [passes_forwards]
    exact Nat.le_trans (List.length_filterMap_le _ _) hzip

end Passes

/-! ## One step -/

/-- A datagram cut to a buffer. -/
def cutTo (cfg : DgramConfig P) (d : Bytes × A) : Bytes × A := (d.1.take cfg.bufSize, d.2)

/-- What an iteration does: it ends the loop and submits no datagram, or a batch is dispatched. -/
inductive Iterated (cfg : DgramConfig P) (relinquished : Nat → List P) (i : Nat)
    (s : DgramPipe A P E n) : DgramPipe A P E n → Prop where
  | quiet (k : UdpSocket A E) (es : List (MsgBatchEntry A)) (l : List (RxTask A E))
      (hq : k.queue = s.sock.queue) (he : es.length = s.batchEntries.length)
      (hl : l.flatMap RxTask.given = []) : Iterated cfg relinquished i s
      { s with sock := k, batchEntries := es, iter := none, toMain := l }
  | batch (ds more : List (Bytes × A)) (k : UdpSocket A E) (es : List (MsgBatchEntry A))
      (hds : ds ≠ []) (hroom : ds.length ≤ s.batchEntries.length)
      (horder : s.sock.queue ++ more = ds ++ k.queue) (he : es.length = s.batchEntries.length)
      (hread : batchOf es ds.length = ds.map fun d => ⟨(cutTo cfg d).1, (cutTo cfg d).2⟩)
      (hsteady : cfg.batchMode = true →
        DgramBatch.Steady ⟨s.opened, relinquished⟩ s.claimedPeers (batchOf es ds.length)) :
      Iterated cfg relinquished i s
      { dispatch cfg ⟨s.opened, relinquished⟩ i ds.length
          { s with sock := k, batchEntries := es } with arrived := s.arrived ++ more }

omit [DecidableEq A] [DecidableEq P] [Inhabited A] in
/-- All entries have the same length after the reset. -/
theorem zipWith_cut_reset (cfg : DgramConfig P) (es : List (MsgBatchEntry A))
    {ds : List (Bytes × A)} (h : ds.length ≤ es.length) :
    List.zipWith UdpBatch.cut (es.map (reset cfg)) ds = ds.map (cutTo cfg) := by
  induction es generalizing ds with
  | nil => rw [List.eq_nil_of_length_eq_zero (Nat.le_zero.1 h)]; rfl
  | cons e es ih =>
    cases ds with
    | nil => rfl
    | cons d ds => exact congrArg (_ :: ·) (ih (Nat.le_of_succ_le_succ h))

omit [DecidableEq A] [DecidableEq P] [Inhabited A] in
theorem length_receive_msgs (cfg : DgramConfig P) (env : Nat → List (UdpArrival A E))
    (s : DgramPipe A P E n) : (s.receive cfg env).msgs.length = s.batchEntries.length := by
  obtain ⟨ds, hb⟩ := UdpBatch.recvBatch_batch cfg.linux true (during cfg env) s.sock
    (s.batchEntries.map (reset cfg))
  rw [receive, hb.msgs, UdpBatch.length_fillAll, List.length_map]

theorem iteration_view {cfg : DgramConfig P} {env : Nat → List (UdpArrival A E)}
    {relinquished : Nat → List P} {i : Nat} {s : DgramPipe A P E n}
    (h : SteadyAct cfg s (.receive env relinquished)) (hm : s.toMain = []) :
    Iterated cfg relinquished i s (iteration cfg env relinquished i s) := by
  obtain ⟨ds, hb⟩ := UdpBatch.recvBatch_batch cfg.linux true (during cfg env) s.sock
    (s.batchEntries.map (reset cfg))
  change UdpBatch.Batch (during cfg env) s.sock _ ds (s.receive cfg env) at hb
  have he := length_receive_msgs cfg env s
  have hroom : ds.length ≤ s.batchEntries.length := by
    have := hb.took.room
    rwa [List.length_map] at this
  have hq (h0 : ds = []) : (s.receive cfg env).sock.queue = s.sock.queue := by
    have := hb.took.order
    rw [h0] at this
    simpa [UdpBatch.arrivals] using this.symm
  have hread : batchOf (s.receive cfg env).msgs ds.length =
      ds.map fun d => ⟨(cutTo cfg d).1, (cutTo cfg d).2⟩ := by
    have := hb.received
    rw [zipWith_cut_reset cfg s.batchEntries hroom] at this
    have hmap := congrArg (List.map fun x : Bytes × A => (⟨x.1, x.2⟩ : Datagram A)) this
    rw [List.map_map, List.map_map] at hmap
    exact hmap
  have hnone : s.toMain.flatMap RxTask.given = [] := by rw [hm]; rfl
  unfold iteration
  rcases hb.result with hr | ⟨h0, e, hr⟩
  · have h := h ds.length (by rw [hr]; rfl)
    cases hds : ds with
    | nil =>
      simp only [hr, hds]
      exact .quiet _ _ _ (hq hds) he hnone
    | cons d rest =>
      rw [hds] at hr hread hroom h hb
      simp only [hr, List.length_cons]
      exact .batch (d :: rest) _ _ _ (List.cons_ne_nil _ _) hroom hb.took.order he hread h
  · simp only [hr]
    have hl : (if cfg.onError then [RxTask.error e] else [] : List (RxTask A E)).flatMap
        RxTask.given = [] := by
      split <;> rfl
    cases e with
    | wouldBlock => exact .quiet _ _ _ (hq h0) he hnone
    | invalidState => exact .quiet _ _ _ (hq h0) he hl
    | notConnected => exact .quiet _ _ _ (hq h0) he hl
    | system e => exact .quiet _ _ _ (hq h0) he hl

/-- **Every step of the socket.** -/
inductive StepView (cfg : DgramConfig P) (s : DgramPipe A P E n) :
    Act A P E n → DgramPipe A P E n → Prop where
  | arrive (a : UdpArrival A E) : StepView cfg s (.arrive a)
      { s with sock := s.sock.arrive a, arrived := s.arrived ++ UdpArrival.datagrams [a] }
  /-- an empty datagram, or an error, on Windows -/
  | lost (a : UdpArrival A E) (hw : cfg.kernelDemux = false) : StepView cfg s (.arrive a) s
  | task (t : ReadTask) (ok : Bool) (hi : s.idle = true) :
      StepView cfg s (.task t ok) { s with interest := runTask cfg ok s.interest t }
  | table (m : AList fun _ : A => P) (opened : P → Bool) (hi : s.idle = true) :
      StepView cfg s (.table m opened) { s with claimedPeers := m, opened := opened }
  | relinquish (p : P) :
      StepView cfg s (.relinquish p) { s with opened := Function.update s.opened p false }
  | readable (hi : s.idle = true) (hr : s.reads = true) :
      StepView cfg s .readable { s with iter := some 0 }
  | ignored (hi : s.idle = true) : StepView cfg s .ignored s
  | receive (env : Nat → List (UdpArrival A E)) (relinquished : Nat → List P) (i : Nat)
      (hi : s.iter = some i) (hm : s.toMain = []) (hp : s.toPeers = []) :
      StepView cfg s (.receive env relinquished) (iteration cfg env relinquished i s)
  | submitMain (t : RxTask A E) (rest : List (RxTask A E)) (ht : s.toMain = t :: rest) :
      StepView cfg s .submitMain { s with toMain := rest, serial := s.serial.submit none t }
  | submitPeer (p : P) (d : Bytes × A) (rest : List (P × (Bytes × A)))
      (ht : s.toPeers = (p, d) :: rest) : StepView cfg s .submitPeer
      { s with toPeers := rest, serial := s.serial.submit (some p) (.data d) }
  | post (x : Nat) (hi : s.idle = true) :
      StepView cfg s (.post x) { s with serial := s.serial.submit none (.user x) }
  | pool (a : PoolAct n) (p : SerialPool (Option P) (RxTask A E) Empty Empty n)
      (hp : SerialPool.step Empty.elim s.serial a.act = some p) :
      StepView cfg s (.pool a) { s with serial := p }

theorem step_view {cfg : DgramConfig P} {s s' : DgramPipe A P E n} {a : Act A P E n}
    (he : step cfg s a = some s') : StepView cfg s a s' := by
  cases a with
  | arrive a =>
    simp only [step] at he
    split at he
    · cases he; exact .arrive a
    · rename_i hq
      split at he
      · cases he
        refine .lost a ?_
        cases hd : cfg.kernelDemux with
        | false => rfl
        | true => simp [hd] at hq
      · cases he
  | task t ok =>
    simp only [step] at he
    split at he
    · rename_i hi; cases he; exact .task t ok hi
    · cases he
  | relinquish p => cases he; exact .relinquish p
  | table m opened =>
    simp only [step] at he
    split at he
    · rename_i hi; cases he; exact .table m opened hi
    · cases he
  | readable =>
    simp only [step] at he
    split at he
    · rename_i hi
      cases he
      rw [Bool.and_eq_true] at hi
      exact .readable hi.1 hi.2
    · cases he
  | ignored =>
    simp only [step] at he
    split at he
    · rename_i hi
      cases he
      exact .ignored ((Bool.and_eq_true _ _).mp hi).1
    · cases he
  | receive env relinquished =>
    simp only [step] at he
    split at he
    · rename_i hempty
      simp only [Bool.and_eq_true, List.isEmpty_iff] at hempty
      obtain ⟨i, hi, rfl⟩ := Option.map_eq_some_iff.1 he
      exact .receive env relinquished i hi hempty.1 hempty.2
    · cases he
  | submitMain =>
    simp only [step] at he
    split at he
    · cases he
    · rename_i t rest ht; cases he; exact .submitMain t rest ht
  | submitPeer =>
    simp only [step] at he
    split at he
    · cases he
    · rename_i x rest ht; cases he; exact .submitPeer x.1 x.2 rest ht
  | post x =>
    simp only [step] at he
    split at he
    · rename_i hi; cases he; exact .post x hi
    · cases he
  | pool a =>
    obtain ⟨p, hp, rfl⟩ := Option.map_eq_some_iff.1 he
    exact .pool a p hp

/-! ## The flow of the datagrams -/

/-- The datagrams that went to `x`, in order. -/
def routed (received : List ((Bytes × A) × Route P)) (x : Route P) : List (Bytes × A) :=
  (received.filter fun y => y.2 = x).map Prod.fst

/-- The datagrams for `p`. -/
def addressed (l : List (P × (Bytes × A))) (p : P) : List (Bytes × A) :=
  (l.filter fun x => x.1 = p).map Prod.snd

structure FlowInv (cfg : DgramConfig P) (s : DgramPipe A P E n) : Prop where
  size : s.batchEntries.length = cfg.batchSize
  flow : s.arrived.map (cutTo cfg) = s.received.map Prod.fst ++ s.sock.queue.map (cutTo cfg)
  main : (s.serial.submitted none ++ s.toMain).flatMap RxTask.given = routed s.received .main
  peer : ∀ p, (s.serial.submitted (some p)).flatMap RxTask.given ++ addressed s.toPeers p =
    routed s.received (.peer p)

omit [DecidableEq A] in
theorem start_flowInv (cfg : DgramConfig P) (n m : Nat) :
    FlowInv cfg (start cfg n m : DgramPipe A P E n) :=
  ⟨List.length_replicate, rfl, rfl, fun _ => rfl⟩

omit [DecidableEq A] [DecidableEq P] [Inhabited A] in
theorem idle_lists {s : DgramPipe A P E n} (h : s.idle = true) :
    s.iter = none ∧ s.toMain = [] ∧ s.toPeers = [] := by
  simpa [idle, and_assoc] using h

omit [Inhabited A] in
/-- The datagrams of a batch with one route, in the history of it. -/
theorem filter_map_route (cfg : DgramConfig P) (r : Race P) (m : AList fun _ : A => P)
    (l : List (DgramBatch.Entry A)) (x : Route P) :
    ((l.map fun e => (DgramBatch.given e, route cfg r m e)).filter fun y => y.2 = x).map Prod.fst =
      (l.filter fun e => route cfg r m e = x).map DgramBatch.given := by
  rw [List.filter_map, List.map_map]
  rfl

/-- **An iteration** hands its datagrams on. -/
theorem iterated_flowInv {cfg : DgramConfig P} {relinquished : Nat → List P} {i : Nat}
    {s s' : DgramPipe A P E n} (h : FlowInv cfg s) (hm : s.toMain = []) (hp : s.toPeers = [])
    (hv : Iterated cfg relinquished i s s') : FlowInv cfg s' := by
  have hmain := h.main
  have hpeer := h.peer
  simp only [hm, List.append_nil, addressed, hp, List.filter_nil, List.map_nil] at hmain hpeer
  cases hv with
  | quiet k es l hq he hl =>
    refine ⟨he.trans h.size, by rw [hq]; exact h.flow, ?_, h.peer⟩
    rw [List.flatMap_append, hl, List.append_nil]
    exact hmain
  | batch ds more k es hds hroom horder he hread hsteady =>
    obtain ⟨hto, htoPeers⟩ := passes_spec (E := E) hsteady
    have hgiven : (batchOf es ds.length).zipIdx.map DgramBatch.given = ds.map (cutTo cfg) := by
      have hfst : (DgramBatch.given : DgramBatch.Entry A → Bytes × A) =
        (fun d : Datagram A => (d.data, d.sender)) ∘ Prod.fst := rfl
      rw [hfst, ← List.map_map, List.zipIdx_map_fst, hread, List.map_map]
      rfl
    refine ⟨he.trans h.size, ?_, ?_, fun p => ?_⟩
    · show (s.arrived ++ more).map (cutTo cfg) =
        (s.received ++ _).map Prod.fst ++ k.queue.map (cutTo cfg)
      rw [List.map_append, h.flow, List.append_assoc, ← List.map_append, horder, List.map_append,
        List.map_append, List.append_assoc, List.map_map]
      exact congrArg (fun l => _ ++ (l ++ _)) hgiven.symm
    · rw [routed]
      simp only [dispatch, List.flatMap_append, List.filter_append, List.map_append]
      rw [hmain, filter_map_route]
      exact congrArg (_ ++ ·) hto
    · simp only [routed, addressed, dispatch, List.filter_append, List.map_append]
      rw [hpeer p, filter_map_route]
      exact congrArg (_ ++ ·) (htoPeers p)

theorem step_flowInv {cfg : DgramConfig P} {s s' : DgramPipe A P E n} {a : Act A P E n}
    (h : FlowInv cfg s) (ha : SteadyAct cfg s a) (he : step cfg s a = some s') :
    FlowInv cfg s' := by
  cases step_view he with
  | arrive a =>
    refine ⟨h.size, ?_, h.main, h.peer⟩
    have harr := UdpSocket.foldl_arrive_queue [a] s.sock
    rw [List.foldl_cons, List.foldl_nil] at harr
    rw [List.map_append, h.flow, harr, List.map_append, List.append_assoc]
  | lost a hw => exact h
  | task t ok hi => exact ⟨h.size, h.flow, h.main, h.peer⟩
  | table m opened hi => exact ⟨h.size, h.flow, h.main, h.peer⟩
  | relinquish p => exact ⟨h.size, h.flow, h.main, h.peer⟩
  | readable hi hr => exact ⟨h.size, h.flow, h.main, h.peer⟩
  | ignored hi => exact h
  | receive env relinquished i hi hm hp => exact iterated_flowInv h hm hp (iteration_view ha hm)
  | submitMain t rest ht =>
    refine ⟨h.size, h.flow, ?_, fun p => ?_⟩
    · simpa [SerialPool.submit, ht] using h.main
    · simpa [SerialPool.submit] using h.peer p
  | submitPeer p d rest ht =>
    refine ⟨h.size, h.flow, ?_, fun p' => ?_⟩
    · simpa [SerialPool.submit] using h.main
    · have hpeer := h.peer p'
      by_cases hp : p' = p
      · subst hp
        simpa [SerialPool.submit, addressed, ht, RxTask.given] using hpeer
      · simpa [SerialPool.submit, addressed, ht, hp, Ne.symm hp] using hpeer
  | post x hi =>
    obtain ⟨-, hm, -⟩ := idle_lists hi
    refine ⟨h.size, h.flow, ?_, fun p => ?_⟩
    · simpa [SerialPool.submit, hm, RxTask.given] using h.main
    · simpa [SerialPool.submit] using h.peer p
  | pool a p hp =>
    have hsub := SerialPool.step_submitted hp (by cases a <;> rintro _ _ ⟨⟩)
    exact ⟨h.size, h.flow, by rw [hsub]; exact h.main, by rw [hsub]; exact h.peer⟩

/-- The steps of the socket are steps of its queues. -/
theorem step_serial {cfg : DgramConfig P} {s s' : DgramPipe A P E n} {a : Act A P E n}
    (he : step cfg s a = some s') :
    s'.serial = s.serial ∨ ∃ b, SerialPool.step Empty.elim s.serial b = some s'.serial ∧
      ∀ x, b ≠ .submitApp x := by
  cases step_view he with
  | receive env relinquished i hi hm hp =>
    refine .inl ?_
    cases hr : (s.receive cfg env).result with
    | error e => cases e <;> simp only [iteration, hr]
    | ok count => cases count <;> simp only [iteration, hr, dispatch]
  | submitMain t rest ht => exact .inr ⟨.submit none t, rfl, by rintro _ ⟨⟩⟩
  | submitPeer p d rest ht => exact .inr ⟨.submit (some p) (.data d), rfl, by rintro _ ⟨⟩⟩
  | post x hi => exact .inr ⟨.submit none (.user x), rfl, by rintro _ ⟨⟩⟩
  | pool a p hp => exact .inr ⟨a.act, hp, by cases a <;> rintro _ ⟨⟩⟩
  | _ => exact .inl rfl

theorem reach_fifo {cfg : DgramConfig P} {m : Nat} {ok : DgramPipe A P E n → Act A P E n → Prop}
    {s : DgramPipe A P E n} (h : (machine cfg n m).ReachOk ok s) : s.serial.Fifo := by
  refine h.inv (I := fun s => s.serial.Fifo) (fun s hs => ?_) fun s a s' _ hi _ he => ?_
  · rw [show s = start cfg n m from hs]
    exact fun _ => rfl
  · rcases step_serial he with e | ⟨b, e, -⟩
    · rw [e]; exact hi
    · exact SerialPool.step_fifo hi e

theorem reach_flowInv {cfg : DgramConfig P} {m : Nat} {s : DgramPipe A P E n}
    (h : (machine cfg n m).ReachOk (SteadyAct cfg) s) : FlowInv cfg s :=
  h.inv (fun s hs => show FlowInv cfg s from hs ▸ start_flowInv cfg n m)
    fun _ _ _ _ hi ha he => step_flowInv hi ha he

/-- What the callbacks of queue `q` have been given. -/
def executed (s : DgramPipe A P E n) (q : Option P) : List (Bytes × A) :=
  (s.serial.started q).flatMap RxTask.given

/-- What they are still to be given: it is in the serial queue or about to be submitted. -/
def waiting (s : DgramPipe A P E n) : Option P → List (Bytes × A)
  | none => ((s.serial.queues none).pending ++ s.toMain).flatMap RxTask.given
  | some p => (s.serial.queues (some p)).pending.flatMap RxTask.given ++ addressed s.toPeers p

/-- The route to the queue `q`. -/
def routeTo : Option P → Route P
  | none => .main
  | some p => .peer p

/-- Each datagram that was queued is in the queue or was received, in order and cut to
`read_buffer_size`; and each one that was received for a callback was given to it or waits, in
order. -/
structure InOrder (cfg : DgramConfig P) (s : DgramPipe A P E n) : Prop where
  kernel : s.arrived.map (cutTo cfg) = s.received.map Prod.fst ++ s.sock.queue.map (cutTo cfg)
  queues : ∀ q, s.executed q ++ s.waiting q = routed s.received (routeTo q)

omit [DecidableEq A] [Inhabited A] in
theorem inOrder_of_flow {cfg : DgramConfig P} {s : DgramPipe A P E n} (hflow : FlowInv cfg s)
    (hfifo : s.serial.Fifo) : InOrder cfg s := by
  refine ⟨hflow.flow, fun q => ?_⟩
  cases q with
  | none =>
    have hmain := hflow.main
    rw [← hfifo none, List.append_assoc, List.flatMap_append] at hmain
    exact hmain
  | some p =>
    have hpeer := hflow.peer p
    rw [← hfifo (some p), List.flatMap_append, List.append_assoc] at hpeer
    exact hpeer

/-- **No datagram is lost, duplicated, reordered or mixed up with another on its way from the
queue that `recv_batch` reads to the callbacks**: in every reachable state, on Linux, on the other
POSIX systems and on Windows, for `on_data` and `on_data_batch`, whatever arrives, is claimed or
relinquished meanwhile, whenever the socket is paused and whatever the workers do, as long as in
batch mode no peer is relinquished between the two decisions about one of its datagrams. The
queue is the kernel's; on Windows it is the dispatcher's, and an empty datagram never gets there. -/
theorem datagrams_in_order {cfg : DgramConfig P} {m : Nat} {s : DgramPipe A P E n}
    (h : (machine cfg n m).ReachOk (SteadyAct cfg) s) : InOrder cfg s :=
  inOrder_of_flow (reach_flowInv h) (reach_fifo h)

/-- On Windows, two workers, a batch of two; peer 7 claims address 1. -/
def sample : DgramConfig Nat :=
  ⟨⟨false, fun _ => true⟩, false, (by rintro ⟨⟩), true, true, 2, 4⟩

theorem datagrams_in_order_batch :
    ∃ s : DgramPipe Nat Nat Nat 2, (machine sample 2 0).ReachOk (SteadyAct sample) s ∧
      InOrder sample s ∧
      s.executed none = [([5], 2)] ∧ s.executed (some 7) = [([1, 2, 3, 4], 1)] ∧
      s.sock.queue = [([6], 2)] ∧ s.interest = some .none := by
  obtain ⟨s, hr, hp⟩ := Machine.ReachOk.of_runOk_init (SteadyAct sample)
    (M := (machine sample 2 0 : Machine (DgramPipe Nat Nat Nat 2) (Act Nat Nat Nat 2)))
    (fun s => decide (s.executed none = [([5], 2)] ∧ s.executed (some 7) = [([1, 2, 3, 4], 1)] ∧
      s.sock.queue = [([6], 2)] ∧ s.interest = some .none))
    [.table ((∅ : AList fun _ : Nat => Nat).insert 1 7) (fun _ => true), .task .arm true,
      .arrive (.datagram ([1, 2, 3, 4, 5], 1)), .arrive (.datagram ([], 2)),
      .arrive (.datagram ([5], 2)), .readable, .receive (fun _ => []) (fun _ => []), .submitPeer,
      .submitMain, .receive (fun _ => []) (fun _ => []), .task .pause true,
      .arrive (.datagram ([6], 2)), .pool (.take 0), .pool (.take 1), .pool (.drainLock 1),
      .pool (.drainLock 0)]
    rfl (by decide +kernel)
  exact ⟨s, hr, datagrams_in_order hr, of_decide_eq_true hp⟩

end DgramPipe

end Socketpp
