import Socketpp.High.DgramPipeline

/-!
# A datagram socket comes to rest

What the loop thread and the workers do when nothing arrives any more, the socket
being registered for reading. The dispatchers of the POSIX systems are
level-triggered: they call back as long as datagrams are queued. `Own` are these
steps, `work` is a measure each of them makes smaller, and a state in which none of
them is possible has handed every datagram on. IOCP calls back for a completion only.

epoll also calls back as long as an error is pending, and without `readable` if
nothing else is. The callback returns at once then and leaves the error where it is,
so the loop spins (`unheard_spins`); `Heard` excludes it.

`event_takes` says what one readable event does: it takes the first `8 *
batch_size` datagrams and leaves the rest for the next.
-/

namespace Socketpp

namespace DgramPipe

variable {A P E : Type} [DecidableEq A] [DecidableEq P] [Inhabited A] {n : Nat}
  {cfg : DgramConfig P} {s s' : DgramPipe A P E n} {a : Act A P E n}

/-! ## Reachable states -/

/-- What the reachable states have in common. -/
structure RunInv (cfg : DgramConfig P) (s : DgramPipe A P E n) : Prop where
  flow : FlowInv cfg s
  fifo : s.serial.Fifo
  iter : ∀ i, s.iter = some i → i < maxIterations
  live : s.serial.pool.stopped = false → s.serial.Live

omit [DecidableEq A] in
theorem start_runInv (cfg : DgramConfig P) (n : Nat) :
    RunInv cfg (start cfg n 0 : DgramPipe A P E n) :=
  ⟨start_flowInv cfg n 0, fun _ => rfl, fun _ h => (by cases h), fun _ => SerialPool.start_live n⟩

theorem step_iter (ha : SteadyAct cfg s a) (h : ∀ i, s.iter = some i → i < maxIterations)
    (he : step cfg s a = some s') : ∀ i, s'.iter = some i → i < maxIterations := by
  cases step_view he with
  | readable hi hr => intro i hs; cases hs; decide
  | receive env relinquished i hi hm hp =>
    intro j hj
    have hv := iteration_view (i := i) ha hm
    generalize iteration cfg env relinquished i s = s' at hv hj
    cases hv with
    | quiet => cases hj
    | batch ds =>
      simp only [dispatch] at hj
      split at hj
      · cases hj
      · rename_i hlt
        cases hj
        omega
  | _ => exact h

theorem step_runInv (h : RunInv cfg s) (ha : SteadyAct cfg s a) (he : step cfg s a = some s') :
    RunInv cfg s' := by
  refine ⟨step_flowInv h.flow ha he, ?_, step_iter ha h.iter he, ?_⟩
  · rcases step_serial he with e | ⟨b, e, -⟩
    · rw [e]; exact h.fifo
    · exact SerialPool.step_fifo h.fifo e
  · rcases step_serial he with e | ⟨b, e, -⟩
    · rw [e]; exact h.live
    · exact SerialPool.step_live h.live e

theorem reach_runInv (h : (machine cfg n 0).ReachOk (SteadyAct cfg) s) : RunInv cfg s :=
  h.inv (fun s hs => show RunInv cfg s from hs ▸ start_runInv cfg n)
    fun _ _ _ _ hi ha he => step_runInv hi ha he

/-! ## Steps of its own -/

/-- What the loop thread and the workers do while nothing arrives: a level-triggered dispatcher
calls back for a socket that has datagrams, and epoll for an error alone. -/
def Own (cfg : DgramConfig P) (s : DgramPipe A P E n) : Act A P E n → Prop
  | .readable => cfg.kernelDemux = true ∧ s.sock.queue ≠ []
  | .ignored => cfg.linux = true ∧ s.sock.error ≠ none ∧ s.sock.queue = []
  | .receive env relinquished => env = (fun _ => []) ∧ SteadyAct cfg s (.receive env relinquished)
  | .submitMain | .submitPeer => True
  | .pool (.take _) | .pool (.drainLock _) | .pool (.fnReturn _) => True
  | _ => False

omit [Inhabited A] in
theorem Own.steady (h : Own cfg s a) : SteadyAct cfg s a := by
  cases a with
  | receive env relinquished => exact h.2
  | _ => trivial

omit [DecidableEq A] [DecidableEq P] [Inhabited A] in
theorem during_quiet (cfg : DgramConfig P) :
    during cfg (fun _ => ([] : List (UdpArrival A E))) = fun _ => [] := by
  unfold during
  split <;> rfl

/-- An error that is pending will be met by a `recv_batch`. -/
def Heard (s : DgramPipe A P E n) : Prop :=
  s.sock.error = none ∨ s.iter ≠ none ∨ s.sock.queue ≠ []

omit [Inhabited A] in
theorem Heard.not_ignored (h : s.Heard) (hi : s.idle = true) : ¬ Own cfg s .ignored := by
  rintro ⟨-, he, hq⟩
  rcases h with he' | hiter | hq'
  · exact he he'
  · exact hiter (idle_lists hi).1
  · exact hq' hq

/-- Any other error keeps the loop thread busy for ever. -/
theorem unheard_spins (hl : cfg.linux = true) (hi : s.idle = true) (hr : s.reads = true)
    (hs : ¬ s.Heard) (k : Nat) :
    (machine cfg n 0).Path (Own cfg) s (List.replicate k .ignored) s := by
  unfold Heard at hs
  push Not at hs
  have hsome : s.interest.isSome = true := by
    unfold reads at hr
    cases hint : s.interest with
    | none => rw [hint] at hr; cases hr
    | some mask => rfl
  have hstep : step cfg s .ignored = some s := by
    simp only [step, hi, hsome, Bool.and_self, if_true]
  induction k with
  | zero => exact .nil s
  | succ k ih => exact .cons ⟨hl, hs.1, hs.2.2⟩ hstep ih

/-- An iteration that receives datagrams, while nothing arrives. -/
structure CalmBatch (cfg : DgramConfig P) (i : Nat) (s s' : DgramPipe A P E n) : Prop where
  sock : s'.sock = ⟨s.sock.queue.drop cfg.batchSize, none⟩
  main : s'.toMain.length ≤ min cfg.batchSize s.sock.queue.length
  peers : s'.toPeers.length ≤ min cfg.batchSize s.sock.queue.length
  serial : s'.serial = s.serial
  interest : s'.interest = s.interest
  arrived : s'.arrived = s.arrived
  iter : s'.iter = if min cfg.batchSize s.sock.queue.length < cfg.batchSize ∨
    maxIterations ≤ i + 1 then none else some (i + 1)

/-- One that receives none. -/
structure CalmEnd (s s' : DgramPipe A P E n) : Prop where
  sock : s'.sock = ⟨s.sock.queue, none⟩
  main : s'.toMain.length ≤ if s.sock.error = none then 0 else 1
  peers : s'.toPeers = []
  serial : s'.serial = s.serial
  interest : s'.interest = s.interest
  arrived : s'.arrived = s.arrived
  iter : s'.iter = none

theorem iteration_calm (h : RunInv cfg s) (hB : 0 < cfg.batchSize) (he : s.sock.error = none)
    (hq : s.sock.queue ≠ []) (relinquished : Nat → List P) (i : Nat) :
    CalmBatch cfg i s (iteration cfg (fun _ => []) relinquished i s) := by
  have hlen : (s.batchEntries.map (reset cfg)).length = cfg.batchSize := by
    rw [List.length_map, h.flow.size]
  have hne : s.batchEntries.map (reset cfg) ≠ [] := by
    rw [← List.length_pos_iff, hlen]; exact hB
  obtain ⟨hres, hsock⟩ := UdpBatch.recvBatch_calm cfg.linux he hq hne
  rw [hlen, ← during_quiet cfg] at hres hsock
  change (s.receive cfg _).result = _ at hres
  change (s.receive cfg _).sock = _ at hsock
  have hpos : 0 < min cfg.batchSize s.sock.queue.length :=
    Nat.lt_min.2 ⟨hB, List.length_pos_iff.2 hq⟩
  have hbatch : (batchOf (s.receive cfg fun _ => []).msgs
      (min cfg.batchSize s.sock.queue.length)).length = min cfg.batchSize s.sock.queue.length := by
    rw [batchOf, List.length_map, List.length_take, length_receive_msgs, h.flow.size,
      Nat.min_eq_left (Nat.min_le_left _ _)]
  have hne' : batchOf (s.receive cfg fun _ => []).msgs (min cfg.batchSize s.sock.queue.length) ≠
      [] := by
    rw [← List.length_pos_iff, hbatch]; exact hpos
  obtain ⟨hmain, hpeers⟩ := passes_length (E := E) cfg ⟨s.opened, relinquished⟩
    s.claimedPeers hne'
  rw [hbatch] at hmain hpeers
  obtain ⟨c, hc⟩ := Nat.exists_eq_succ_of_ne_zero (Nat.ne_of_gt hpos)
  have hiter : iteration cfg (fun _ => []) relinquished i s =
      { dispatch cfg ⟨s.opened, relinquished⟩ i (min cfg.batchSize s.sock.queue.length)
          { s with sock := (s.receive cfg fun _ => []).sock
                   batchEntries := (s.receive cfg fun _ => []).msgs } with
        arrived := s.arrived ++
          UdpBatch.arrivals (during cfg fun _ => ([] : List (UdpArrival A E))) 0
            (min cfg.batchSize s.sock.queue.length) } := by
    rw [hc] at hres ⊢
    simp only [iteration, hres]
  rw [hiter]
  refine ⟨hsock, hmain, hpeers, rfl, rfl, ?_, rfl⟩
  simp [during_quiet, UdpBatch.arrivals, UdpArrival.datagrams]

theorem iteration_end (h : RunInv cfg s) (hB : 0 < cfg.batchSize) (hm : s.toMain = [])
    (hp : s.toPeers = []) (hn : s.sock.error = none → s.sock.queue = [])
    (relinquished : Nat → List P) (i : Nat) :
    CalmEnd s (iteration cfg (fun _ => []) relinquished i s) := by
  have hne : s.batchEntries.map (reset cfg) ≠ [] := by
    rw [← List.length_pos_iff, List.length_map, h.flow.size]; exact hB
  obtain ⟨hres, hsock⟩ := UdpBatch.recvBatch_none cfg.linux (during cfg fun _ => []) hne hn
  change (s.receive cfg _).result = _ at hres
  change (s.receive cfg _).sock = _ at hsock
  cases he : s.sock.error with
  | none =>
    rw [he] at hres
    simp only [Option.elim_none] at hres
    simp only [iteration, hres, hsock]
    exact ⟨rfl, by simp [hm, he], hp, rfl, rfl, rfl, rfl⟩
  | some e =>
    rw [he] at hres
    simp only [Option.elim_some] at hres
    simp only [iteration, hres, hsock]
    refine ⟨rfl, ?_, hp, rfl, rfl, rfl, rfl⟩
    rw [he, if_neg (Option.some_ne_none e)]
    split <;> simp

/-- The work of an event that goes on, or that is to come. -/
def eventWork (s : DgramPipe A P E n) : Nat :=
  match s.iter with
  | some i => 9 - i
  | none => if s.sock.queue.isEmpty then 0 else 10

/-- The work left: a datagram in the kernel is worth more than all the steps it leads to. -/
def work [Fintype P] (s : DgramPipe A P E n) : Nat :=
  32 * s.sock.queue.length + 32 * s.sock.error.isSome.toNat + s.eventWork +
    5 * (s.toMain.length + s.toPeers.length) + s.serial.queueWork

theorem receive_work [Fintype P] (h : RunInv cfg s) (hB : 0 < cfg.batchSize) {i : Nat}
    (hi : s.iter = some i) (hm : s.toMain = []) (hp : s.toPeers = [])
    (relinquished : Nat → List P) :
    (iteration cfg (fun _ => []) relinquished i s).work < s.work := by
  have hlt : i < maxIterations := h.iter i hi
  have hevent : s.eventWork = 9 - i := by rw [eventWork, hi]
  have hle (t : DgramPipe A P E n) (ht : ∀ j, t.iter = some j → j = i + 1) : t.eventWork ≤ 10 := by
    unfold eventWork
    cases hj : t.iter with
    | none => simp only; split <;> omega
    | some j => simp only; omega
  unfold maxIterations at hlt
  by_cases hq : s.sock.error = none ∧ s.sock.queue ≠ []
  · have hc := iteration_calm h hB hq.1 hq.2 relinquished i
    generalize iteration cfg (fun _ => []) relinquished i s = s' at hc
    have hpos : 0 < s.sock.queue.length := List.length_pos_iff.2 hq.2
    have hmain := hc.main
    have hpeers := hc.peers
    have hev := hle s' fun j hj => by
      rw [hc.iter] at hj
      split at hj
      · cases hj
      · exact (Option.some.inj hj).symm
    simp only [work, hc.sock, hc.serial, hm, hp, hevent, hq.1, List.length_drop,
      Option.isSome_none, Bool.toNat_false, List.length_nil]
    omega
  · have hc := iteration_end h hB hm hp (fun he => not_not.1 fun hne => hq ⟨he, hne⟩) relinquished i
    generalize iteration cfg (fun _ => []) relinquished i s = s' at hc
    have hmain := hc.main
    cases he : s.sock.error with
    | none =>
      have hempty : s.sock.queue = [] := not_not.1 fun hne => hq ⟨he, hne⟩
      have hev : s'.eventWork = 0 := by simp [eventWork, hc.iter, hc.sock, hempty]
      rw [he, if_pos rfl] at hmain
      simp only [work, hc.sock, hc.serial, hc.peers, hm, hp, hevent, hev, he, Option.isSome_none,
        Bool.toNat_false, List.length_nil]
      omega
    | some e =>
      have hev := hle s' fun j hj => by rw [hc.iter] at hj; cases hj
      rw [he, if_neg (Option.some_ne_none e)] at hmain
      simp only [work, hc.sock, hc.serial, hc.peers, hm, hp, hevent, he, Option.isSome_none,
        Option.isSome_some, Bool.toNat_false, Bool.toNat_true, List.length_nil]
      omega

theorem step_work [Fintype P] (h : RunInv cfg s) (hh : s.Heard) (hB : 0 < cfg.batchSize)
    (ho : Own cfg s a) (he : step cfg s a = some s') : s'.work < s.work := by
  cases step_view he with
  | arrive | lost | task | table | relinquish | post => exact ho.elim
  | ignored hi => exact absurd ho (hh.not_ignored hi)
  | readable hi hr =>
    have hq : s.sock.queue ≠ [] := ho.2
    have hev : s.eventWork = 10 := by simp [eventWork, (idle_lists hi).1, hq]
    have hev' : eventWork { s with iter := some 0 } = 9 := rfl
    unfold work
    rw [hev, hev']
    dsimp only
    omega
  | receive env relinquished i hi hm hp =>
    obtain ⟨rfl, -⟩ := ho
    exact receive_work h hB hi hm hp relinquished
  | submitMain t rest ht =>
    have hs := SerialPool.queueWork_submit (s := s.serial) none t
    simp only [work, eventWork, ht, List.length_cons]
    omega
  | submitPeer p d rest ht =>
    have hs := SerialPool.queueWork_submit (s := s.serial) (some p) (.data d)
    simp only [work, eventWork, ht, List.length_cons]
    omega
  | pool a p hp =>
    have hs : p.queueWork < s.serial.queueWork := by
      refine SerialPool.queueWork_lt ?_ hp
      cases a with
      | shutdown => exact ho.elim
      | _ => trivial
    simp only [work, eventWork]
    omega

/-! ## At rest -/

omit [Inhabited A] in
/-- Without a `relinquish` the two decisions about a datagram are the same. -/
theorem steadyAct_still (cfg : DgramConfig P) (s : DgramPipe A P E n)
    (env : Nat → List (UdpArrival A E)) : SteadyAct cfg s (.receive env fun _ => []) := by
  intro count _ _ e _ hheld
  have hopen := Race.still_openAt s.opened
  unfold Race.still at hopen
  unfold DgramBatch.held at hheld ⊢
  rw [hopen] at hheld ⊢
  exact hheld

/-- A state in which no step of its own is possible. -/
def Stuck (cfg : DgramConfig P) (s : DgramPipe A P E n) : Prop :=
  ∀ a, Own cfg s a → step cfg s a = none

/-- Nothing is queued, and nothing waits. -/
structure AtRest (s : DgramPipe A P E n) : Prop where
  kernel : s.sock.queue = []
  waiting : ∀ q, s.waiting q = []

theorem Stuck.atRest (hs : Stuck cfg s) (h : RunInv cfg s) (hd : cfg.kernelDemux = true)
    (hrun : s.serial.pool.stopped = false) (hr : s.reads = true) (hn : 0 < n) : AtRest s := by
  have hm : s.toMain = [] := by
    have hnone := hs .submitMain trivial
    cases ht : s.toMain with
    | nil => rfl
    | cons t rest => simp [step, ht] at hnone
  have hp : s.toPeers = [] := by
    have hnone := hs .submitPeer trivial
    cases ht : s.toPeers with
    | nil => rfl
    | cons t rest => simp [step, ht] at hnone
  have hi : s.iter = none := by
    have hnone := hs (.receive (fun _ => []) fun _ => []) ⟨rfl, steadyAct_still cfg s _⟩
    cases hi : s.iter with
    | none => rfl
    | some i => simp [step, hm, hp, hi] at hnone
  have hq : s.sock.queue = [] := by
    by_contra hq
    have hnone := hs .readable ⟨hd, hq⟩
    simp [step, idle, hm, hp, hi, hr] at hnone
  have hl := h.live hrun
  obtain ⟨hpool, hw⟩ := hl.rest_worker Empty.elim hn fun a ha => by
    have hpool (b : PoolAct n) (hb : Own cfg s (.pool b)) :
        SerialPool.step Empty.elim s.serial b.act = none :=
      Option.map_eq_none_iff.1 (hs (.pool b) hb)
    cases a with
    | take w => exact hpool (.take w) trivial
    | drainLock w => exact hpool (.drainLock w) trivial
    | fnReturn w => exact hpool (.fnReturn w) trivial
    | submit | submitApp | appStep | shutdown => exact ha.elim
  refine ⟨hq, fun q => ?_⟩
  cases q with
  | none => simp [waiting, hl.pending_nil hpool hw, hm]
  | some p => simp [waiting, hl.pending_nil hpool hw, hp, addressed]

/-- The steps of its own bring nothing in, leave the registration and do not stop the pool, and no
error is left behind. -/
theorem step_own (hB : 0 < cfg.batchSize) (h : RunInv cfg s) (hh : s.Heard) (ho : Own cfg s a)
    (he : step cfg s a = some s') :
    s'.arrived = s.arrived ∧ s'.serial.pool.stopped = s.serial.pool.stopped ∧
      s'.interest = s.interest ∧ s'.Heard := by
  have hsubmit (q : Option P) (t : RxTask A E) :
      (s.serial.submit q t).pool.stopped = s.serial.pool.stopped :=
    (SerialPool.step_limits (b := Empty.elim) (a := .submit q t) rfl).2 (by rintro ⟨⟩)
  cases step_view he with
  | arrive | lost | task | table | relinquish | post => exact ho.elim
  | readable hi hr => exact ⟨rfl, rfl, rfl, .inr (.inl (by rintro ⟨⟩))⟩
  | ignored hi => exact absurd ho (hh.not_ignored hi)
  | receive env relinquished i hi hm hp =>
    obtain ⟨rfl, -⟩ := ho
    by_cases hq : s.sock.error = none ∧ s.sock.queue ≠ []
    · have hc := iteration_calm h hB hq.1 hq.2 relinquished i
      exact ⟨hc.arrived, by rw [hc.serial], hc.interest, .inl (by rw [hc.sock])⟩
    · have hc := iteration_end h hB hm hp (fun he => not_not.1 fun hne => hq ⟨he, hne⟩)
        relinquished i
      exact ⟨hc.arrived, by rw [hc.serial], hc.interest, .inl (by rw [hc.sock])⟩
  | submitMain t rest ht => exact ⟨rfl, hsubmit none t, rfl, hh⟩
  | submitPeer p d rest ht => exact ⟨rfl, hsubmit (some p) (.data d), rfl, hh⟩
  | pool b p hp =>
    refine ⟨rfl, (SerialPool.step_limits hp).2 ?_, rfl, hh⟩
    cases b with
    | shutdown => exact ho.elim
    | _ => rintro ⟨⟩

/-- What they keep, `arrived` being what had arrived at the start. -/
structure OwnInv (cfg : DgramConfig P) (arrived : List (Bytes × A)) (s : DgramPipe A P E n) :
    Prop where
  run : RunInv cfg s
  running : s.serial.pool.stopped = false
  reads : s.reads = true
  heard : s.Heard
  arrived : s.arrived = arrived

theorem step_ownInv [Fintype P] {arrived : List (Bytes × A)} (hB : 0 < cfg.batchSize)
    (h : OwnInv cfg arrived s) (ho : Own cfg s a) (he : step cfg s a = some s') :
    OwnInv cfg arrived s' ∧ s'.work < s.work := by
  obtain ⟨harr, hstop, hint, hheard⟩ := step_own hB h.run h.heard ho he
  have hreads : s'.reads = true := by
    rw [DgramPipe.reads, hint]
    exact h.reads
  exact ⟨⟨step_runInv h.run ho.steady he, hstop.trans h.running, hreads, hheard,
    harr.trans h.arrived⟩, step_work h.run h.heard hB ho he⟩

/-- Every datagram that has arrived was received, and the callbacks were given all that were
routed to them. -/
structure AllDelivered (cfg : DgramConfig P) (arrived : List (Bytes × A))
    (s : DgramPipe A P E n) : Prop where
  received : s.received.map Prod.fst = arrived.map (cutTo cfg)
  executed : ∀ q, s.executed q = routed s.received (routeTo q)

theorem OwnInv.delivered {arrived : List (Bytes × A)} (h : OwnInv cfg arrived s)
    (hd : cfg.kernelDemux = true) (hn : 0 < n) (hs : Stuck cfg s) : AllDelivered cfg arrived s := by
  have hrest := hs.atRest h.run hd h.running h.reads hn
  have horder := inOrder_of_flow h.run.flow h.run.fifo
  refine ⟨?_, fun q => ?_⟩
  · have hkernel := horder.kernel
    rw [hrest.kernel, List.map_nil, List.append_nil, h.arrived] at hkernel
    exact hkernel.symm
  · have hqueue := horder.queues q
    rw [hrest.waiting q, List.append_nil] at hqueue
    exact hqueue

/-- **The socket comes to rest, and then every datagram has been delivered.** From every reachable
state of a POSIX socket that is registered for reading, with no error that nobody will hear of, and
whose pool runs, if nothing arrives any more: every run of the loop thread and the workers is
finite, `work` bounds it, and when it cannot go on, every datagram that had arrived was received and
has been given to the callback it was routed to. -/
theorem maximal_run_delivers [Fintype P] (hd : cfg.kernelDemux = true) (hB : 0 < cfg.batchSize)
    (hn : 0 < n) (h : (machine cfg n 0).ReachOk (SteadyAct cfg) s)
    (hrun : s.serial.pool.stopped = false) (hr : s.reads = true) (hh : s.Heard)
    {as : List (Act A P E n)} (hp : (machine cfg n 0).Path (Own cfg) s as s') :
    as.length ≤ s.work ∧ (Stuck cfg s' → AllDelivered cfg s.arrived s') := by
  have h0 : OwnInv cfg s.arrived s := ⟨reach_runInv h, hrun, hr, hh, rfl⟩
  have hstep : ∀ (t : DgramPipe A P E n) (b : Act A P E n) (t' : DgramPipe A P E n),
      OwnInv cfg s.arrived t → Own cfg t b → (machine cfg n 0).step t b = some t' →
        OwnInv cfg s.arrived t' ∧ t'.work < t.work :=
    fun _ _ _ ht ho he => step_ownInv hB ht ho he
  have hlen := hp.length_le hstep h0
  have h' := hp.inv (fun t b t' ht ho he => (hstep t b t' ht ho he).1) h0
  exact ⟨Nat.le_of_add_right_le hlen, h'.delivered hd hn⟩

/-- One worker, batches of two, nobody claims. -/
def plain : DgramConfig (Fin 2) :=
  ⟨⟨true, fun _ => true⟩, false, (by rintro ⟨⟩), false, true, 2, 4⟩

/-- Three datagrams of one sender wait in the kernel. -/
def loaded : DgramPipe Nat (Fin 2) Nat 1 :=
  { start plain 1 0 with
    sock := ⟨[([1], 5), ([2], 5), ([3], 5)], none⟩
    interest := some .readable
    arrived := [([1], 5), ([2], 5), ([3], 5)] }

theorem loaded_reach : (machine plain 1 0).ReachOk (SteadyAct plain) loaded :=
  .step (a := .arrive (.datagram ([3], 5))) (.step (a := .arrive (.datagram ([2], 5)))
    (.step (a := .arrive (.datagram ([1], 5)))
      (.step (a := .task .arm true) (.init rfl) trivial rfl) trivial rfl) trivial rfl) trivial rfl

theorem maximal_run_delivers_three :
    ∃ as s', (machine plain 1 0).Path (Own plain) loaded as s' ∧ as.length ≤ loaded.work ∧
      AllDelivered plain [([1], 5), ([2], 5), ([3], 5)] s' ∧
      s'.executed none = [([1], 5), ([2], 5), ([3], 5)] := by
  have hp : (machine plain 1 0).Path (Own plain) loaded
      [.readable, .receive (fun _ => []) fun _ => [], .submitMain, .pool (.take 0), .submitMain,
        .pool (.drainLock 0), .receive (fun _ => []) fun _ => [], .submitMain,
        .pool (.fnReturn 0), .pool (.drainLock 0), .pool (.fnReturn 0), .pool (.drainLock 0),
        .pool (.fnReturn 0), .pool (.drainLock 0)] _ :=
    .cons ⟨rfl, by rintro ⟨⟩⟩ rfl (.cons ⟨rfl, steadyAct_still _ _ _⟩ rfl (.cons trivial rfl
      (.cons trivial rfl (.cons trivial rfl (.cons trivial rfl
        (.cons ⟨rfl, steadyAct_still _ _ _⟩ rfl (.cons trivial rfl (.cons trivial rfl
          (.cons trivial rfl (.cons trivial rfl (.cons trivial rfl (.cons trivial rfl
            (.cons trivial rfl (.nil _))))))))))))))
  obtain ⟨hlen, hdel⟩ := maximal_run_delivers rfl (by decide) (by decide) loaded_reach rfl rfl
    (.inl rfl) hp
  refine ⟨_, _, hp, hlen, hdel fun a ho => ?_, rfl⟩
  cases a with
  | arrive | task | table | relinquish | post => exact ho.elim
  | readable => exact absurd rfl ho.2
  | ignored => exact absurd ho.1 (by decide : plain.linux ≠ true)
  | receive | submitMain | submitPeer => rfl
  | pool b =>
    cases b with
    | shutdown => exact ho.elim
    | take w | drainLock w | fnReturn w => rw [Subsingleton.elim w 0]; rfl

/-! ## One event -/

/-- The steps of one event: the dispatcher does not call back again. -/
def InEvent (cfg : DgramConfig P) (s : DgramPipe A P E n) (a : Act A P E n) : Prop :=
  Own cfg s a ∧ a ≠ .readable

/-- `q` was queued when the event began. -/
structure EventInv (cfg : DgramConfig P) (q : List (Bytes × A)) (s : DgramPipe A P E n) :
    Prop where
  run : RunInv cfg s
  error : s.sock.error = none
  going : ∀ i, s.iter = some i → s.sock.queue = q.drop (i * cfg.batchSize)
  ended : s.iter = none → s.sock.queue = q.drop (maxIterations * cfg.batchSize)

theorem receive_eventInv {q : List (Bytes × A)} (hB : 0 < cfg.batchSize) (h : EventInv cfg q s)
    {relinquished : Nat → List P} {i : Nat} (hi : s.iter = some i) (hm : s.toMain = [])
    (hp : s.toPeers = []) (hrun : RunInv cfg (iteration cfg (fun _ => []) relinquished i s)) :
    EventInv cfg q (iteration cfg (fun _ => []) relinquished i s) := by
  have hq := h.going i hi
  have hlt : i < maxIterations := h.run.iter i hi
  have hover (j : Nat) (hj : j ≤ maxIterations) (hnil : q.drop (j * cfg.batchSize) = []) :
      q.drop (maxIterations * cfg.batchSize) = [] :=
    List.drop_eq_nil_of_le (Nat.le_trans (List.drop_eq_nil_iff.1 hnil) (Nat.mul_le_mul_right _ hj))
  by_cases hne : s.sock.queue = []
  · have hc := iteration_end h.run hB hm hp (fun _ => hne) relinquished i
    refine ⟨hrun, by rw [hc.sock], fun j hj => ?_, fun _ => ?_⟩
    · cases hc.iter.symm.trans hj
    · rw [hc.sock, hover i (Nat.le_of_lt hlt) (hq.symm.trans hne)]
      exact hne
  · have hc := iteration_calm h.run hB h.error hne relinquished i
    have hnext : s.sock.queue.drop cfg.batchSize = q.drop ((i + 1) * cfg.batchSize) := by
      rw [hq, List.drop_drop, Nat.succ_mul]
    refine ⟨hrun, by rw [hc.sock], fun j hj => ?_, fun hj => ?_⟩
    · rw [hc.iter] at hj
      split at hj
      · cases hj
      · cases hj
        rw [hc.sock]
        exact hnext
    · rw [hc.iter] at hj
      split at hj
      · rename_i hend
        rw [hc.sock]
        show s.sock.queue.drop cfg.batchSize = _
        rcases hend with hshort | hlast
        · -- fewer than a batch were queued
          have hnil : s.sock.queue.drop cfg.batchSize = [] :=
            List.drop_eq_nil_of_le (by omega)
          rw [hnil, hover (i + 1) hlt (hnext ▸ hnil)]
        · have hsucc : i + 1 = maxIterations := Nat.le_antisymm hlt hlast
          rw [hnext, hsucc]
      · cases hj

theorem step_eventInv {q : List (Bytes × A)} (hB : 0 < cfg.batchSize) (h : EventInv cfg q s)
    (ho : InEvent cfg s a) (he : step cfg s a = some s') : EventInv cfg q s' := by
  have hrun := step_runInv h.run ho.1.steady he
  cases step_view he with
  | arrive | lost | task | table | relinquish | post => exact ho.1.elim
  | readable => exact absurd rfl ho.2
  | ignored => exact absurd h.error ho.1.2.1
  | receive env relinquished i hi hm hp =>
    obtain ⟨rfl, -⟩ := ho.1
    exact receive_eventInv hB h hi hm hp hrun
  | submitMain | submitPeer | pool => exact ⟨hrun, h.error, h.going, h.ended⟩

/-- **What one readable event takes.** While nothing arrives and if no error is pending,
`handle_readable` takes the first `8 * batch_size` datagrams, or all if there are fewer, and
returns; the rest stays for the next event, however the workers are scheduled meanwhile. -/
theorem event_takes (hB : 0 < cfg.batchSize) (h : (machine cfg n 0).ReachOk (SteadyAct cfg) s)
    (hi : s.iter = some 0) (he : s.sock.error = none) {as : List (Act A P E n)}
    (hp : (machine cfg n 0).Path (InEvent cfg) s as s') (hend : s'.iter = none) :
    s'.sock.queue = s.sock.queue.drop (maxIterations * cfg.batchSize) := by
  have h0 : EventInv cfg s.sock.queue s := by
    refine ⟨reach_runInv h, he, fun i hi' => ?_, fun hnone => ?_⟩
    · cases hi.symm.trans hi'
      rw [Nat.zero_mul, List.drop_zero]
    · cases hi.symm.trans hnone
  exact (hp.inv (fun _ _ _ ht ho he => step_eventInv hB ht ho he) h0).ended hend

theorem event_takes_three :
    ∃ as s', (machine plain 1 0).Path (InEvent plain) { loaded with iter := some 0 } as s' ∧
      s'.iter = none ∧ s'.sock.queue = [([1], 5), ([2], 5), ([3], 5)].drop (8 * 2) := by
  have hp : (machine plain 1 0).Path (InEvent plain) { loaded with iter := some 0 }
      [.receive (fun _ => []) fun _ => [], .submitMain, .submitMain,
        .receive (fun _ => []) fun _ => []] _ :=
    .cons ⟨⟨rfl, steadyAct_still _ _ _⟩, by rintro ⟨⟩⟩ rfl (.cons ⟨trivial, by rintro ⟨⟩⟩ rfl
      (.cons ⟨trivial, by rintro ⟨⟩⟩ rfl
        (.cons ⟨⟨rfl, steadyAct_still _ _ _⟩, by rintro ⟨⟩⟩ rfl (.nil _))))
  have hreach : (machine plain 1 0).ReachOk (SteadyAct plain) { loaded with iter := some 0 } :=
    .step (a := .readable) loaded_reach trivial rfl
  exact ⟨_, _, hp, rfl, event_takes (by decide) hreach rfl rfl hp rfl⟩

end DgramPipe

end Socketpp
