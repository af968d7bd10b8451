import Socketpp.High.StreamSteps

/-!
# The callbacks of a stream's connection

The order in which a connection submits its callbacks to its serial queue:
what `recv` returned, one callback each, then at most one close (`CbInv`). The
queue is a FIFO, so what was executed is a first part of that.
-/

namespace Socketpp

namespace Stream

variable {n : Nat} {cfg : StreamConfig} {s s' : Stream n} {a : Act n} {c : Nat}

/-- The invariant of one connection's callbacks. -/
structure CbInv (s : Stream n) (c : Nat) : Prop where
  registered : (s.impls c).interest.isSome = true → (s.impls c).reading = true
  posted : .conn c .startReading ∈ s.posts.pending → (s.impls c).reading = true
  close : .onClose ∈ s.pool.submitted c → (s.impls c).closed = true
  shape : ∃ ds tail, s.pool.submitted c = ds ++ tail ∧ .onClose ∉ ds ∧
    (tail = [] ∨ tail = [.onClose])
  log : (s.impls c).onData = true ∨ (s.impls c).reading = false →
    ∃ tail, s.pool.submitted c = (s.impls c).received.map .onData ++ tail ∧
      (tail = [] ∨ tail = [.onClose])

theorem start_cbInv (cfg : StreamConfig) (n c : Nat) : (start cfg n).CbInv c :=
  ⟨nofun, fun h => (List.not_mem_nil h).elim, fun h => (List.not_mem_nil h).elim,
    ⟨[], [], rfl, List.not_mem_nil, .inl rfl⟩, fun _ => ⟨[], rfl, .inl rfl⟩⟩

/-- On an open connection no close was submitted. -/
theorem CbInv.log_open (h : s.CbInv c) (ho : (s.impls c).closed = false)
    (hd : (s.impls c).onData = true ∨ (s.impls c).reading = false) :
    s.pool.submitted c = (s.impls c).received.map .onData := by
  obtain ⟨tail, he, rfl | rfl⟩ := h.log hd
  · rw [he, List.append_nil]
  · have := h.close (by rw [he]; simp)
    rw [ho] at this
    cases this

theorem CbInv.step (h : s.CbInv c) (hv : View cfg s s' a c) : s'.CbInv c := by
  cases hv with
  | same hi hs hp =>
    exact ⟨by rw [hi]; exact h.registered, fun ht => by rw [hi]; exact h.posted (hp _ ht),
      by rw [hi, hs]; exact h.close, by rw [hs]; exact h.shape, by rw [hi, hs]; exact h.log⟩
  | silent _ _ _ _ _ hi hs hp =>
    refine ⟨fun _ => by rw [hi], fun _ => by rw [hi], by rw [hi, hs]; exact h.close,
      by rw [hs]; exact h.shape, fun hd => ?_⟩
    rw [hi, hs] at *
    exact h.log (.inl (hd.resolve_right nofun))
  | step b o hb he hs hp =>
    by_cases hset : b.Setup
    · obtain ⟨hr, hsub, hcases⟩ := Conn.step_setup hset he
      rw [hsub, List.append_nil] at hs
      have hlog := h.log (.inr hr)
      obtain ⟨rfl, e, ho⟩ | ⟨_, rfl, e, ho⟩ | ⟨rfl, e, ho⟩ := hcases
      · refine ⟨by rw [e]; exact h.registered, fun ht => ?_, by rw [e, hs]; exact h.close,
          by rw [hs]; exact h.shape, fun _ => ?_⟩
        · rw [e]; exact h.posted ((hp _ ht).resolve_right (by rw [ho]; simp))
        · rw [e, hs]; exact hlog
      · refine ⟨by rw [e]; exact h.registered, fun ht => ?_, by rw [e, hs]; exact h.close,
          by rw [hs]; exact h.shape, fun _ => ?_⟩
        · rw [e]; exact h.posted ((hp _ ht).resolve_right (by rw [ho]; simp))
        · rw [e, hs]; exact hlog
      · exact ⟨fun _ => by rw [e], fun _ => by rw [e], by rw [e, hs]; exact h.close,
          by rw [hs]; exact h.shape, fun _ => by rw [e, hs]; exact hlog⟩
    · have hposts := Conn.step_posts hset he
      obtain ⟨heff, hdata, -, hread⟩ := Conn.step_spec hset he
      have hposted (ht : .conn c .startReading ∈ s'.posts.pending) :
          (s'.impls c).reading = true :=
        hread.trans (h.posted ((hp _ ht).resolve_right hposts))
      generalize o.submits = cbs at heff hs
      cases heff with
      | quiet hc hr hi =>
        rw [List.append_nil] at hs
        refine ⟨fun hsome => ?_, hposted, by rw [hs, hc]; exact h.close, by rw [hs]; exact h.shape,
          ?_⟩
        · rw [hread]
          rcases hi hsome with h' | ⟨-, ok, rfl⟩
          · exact h.registered h'
          · obtain ⟨-, -, q, hn⟩ := hb
            exact h.posted (by rw [PostQueue.pending_next hn]; exact List.mem_cons_self)
        · rw [hdata, hread, hs, hr]; exact h.log
      | data bytes _ ho hc hi hr =>
        have hreg := h.registered hi
        have hnone : .onClose ∉ s'.pool.submitted c := fun hmem => by
          rw [hs, List.mem_append] at hmem
          rcases hmem with hmem | hmem
          · rw [h.close hmem] at ho; cases ho
          · split at hmem <;> simp at hmem
        refine ⟨fun _ => hread.trans hreg, hposted, fun hmem => absurd hmem hnone,
          ⟨_, [], (List.append_nil _).symm, hnone, .inl rfl⟩, fun hd => ?_⟩
        · -- registered, so `start_reading` was called and `on_data_` is set
          rw [hdata, hread] at hd
          have hd' := hd.resolve_right (by rw [hreg]; rintro ⟨⟩)
          refine ⟨[], ?_, .inl rfl⟩
          rw [hs, if_pos hd', h.log_open ho hd, hr]
          simp
      | closing _ ho hc hi hr =>
        have hnone : .onClose ∉ s.pool.submitted c := fun hmem => by
          rw [h.close hmem] at ho; cases ho
        refine ⟨by rw [hi]; rintro ⟨⟩, hposted, fun _ => hc, ⟨_, _, hs, hnone, ?_⟩, fun hd => ?_⟩
        · split
          · exact .inr rfl
          · exact .inl rfl
        · rw [hdata, hread] at hd
          rw [hs, h.log_open ho hd, hr]
          split
          · exact ⟨[.onClose], rfl, .inr rfl⟩
          · exact ⟨[], rfl, .inl rfl⟩

theorem reach_cbInv {ok : Stream n → Act n → Prop} (h : (machine cfg n).ReachOk ok s) (c : Nat) :
    s.CbInv c :=
  h.inv (fun _ hs => hs ▸ start_cbInv cfg n c) fun _ _ _ _ hi _ he => hi.step (step_view he c)

/-- What a FIFO has executed of a list of data followed by at most a close. -/
theorem started_shape {started pending tail : List Callback} {received : List Bytes}
    (h : started ++ pending = received.map .onData ++ tail) (ht : tail = [] ∨ tail = [.onClose]) :
    ∃ ds rest, started = ds.map .onData ++ rest ∧ (rest = [] ∨ rest = [.onClose]) ∧
      ds <+: received ∧ (pending = [] → ds = received) := by
  rcases List.append_eq_append_iff.1 h with ⟨more, he, hp⟩ | ⟨rest, he, hp⟩
  · obtain ⟨ds, ds', rfl, rfl, rfl⟩ := List.map_eq_append_iff.1 he
    refine ⟨ds, [], by simp, .inl rfl, List.prefix_append _ _, fun h0 => ?_⟩
    rw [h0] at hp
    simp only [List.nil_eq_append_iff, List.map_eq_nil_iff] at hp
    rw [hp.1, List.append_nil]
  · refine ⟨received, rest, he, ?_, List.prefix_rfl, fun _ => rfl⟩
    rcases ht with rfl | rfl
    · exact .inl (List.nil_eq_append_iff.1 hp).1
    · rcases List.append_eq_singleton_iff.1 hp.symm with ⟨h1, -⟩ | ⟨h1, -⟩
      · exact .inl h1
      · exact .inr h1

/-- **The callback protocol.** Of a connection whose `on_data_` was set before
`start_reading` the callbacks executed are data callbacks and then at most one
close; their payloads are what `recv` returned, in order, and all of it once
the serial queue is drained. -/
theorem callback_protocol (h : (machine cfg n).Reach s) (hd : (s.impls c).onData = true) :
    ∃ ds rest, s.pool.started c = ds.map .onData ++ rest ∧ (rest = [] ∨ rest = [.onClose]) ∧
      ds <+: (s.impls c).received ∧ ds.flatten <+: (s.impls c).received.flatten ∧
      ((s.pool.queues c).pending = [] → ds.flatten = (s.impls c).received.flatten) := by
  obtain ⟨tail, hs, ht⟩ := (reach_cbInv h c).log (.inl hd)
  obtain ⟨ds, rest, h1, h2, h3, h4⟩ := started_shape ((reach_queue h c).fifo.trans hs) ht
  exact ⟨ds, rest, h1, h2, h3, h3.flatten, fun h0 => by rw [h4 h0]⟩

/-- Two chunks and the end of the stream, while a worker is at the first chunk. -/
theorem callback_protocol_two_chunks :
    ∃ s : Stream 1, (machine ⟨.listen, 0, true, 8, 4⟩ 1).Reach s ∧
      ((s.impls 0).onData = true ∧ (s.impls 0).received = [[1, 2], [3]] ∧
        s.pool.started 0 = [.onData [1, 2]] ∧
        (s.pool.queues 0).pending = [.onData [3], .onClose]) ∧
      ∃ ds rest, s.pool.started 0 = ds.map .onData ++ rest ∧ (rest = [] ∨ rest = [.onClose]) ∧
        ds <+: (s.impls 0).received := by
  obtain ⟨s, h, hp⟩ := Machine.Reach.of_run_init (M := machine ⟨.listen, 0, true, 8, 4⟩ 1)
    (fun s => decide ((s.impls 0).onData = true ∧ (s.impls 0).received = [[1, 2], [3]] ∧
      s.pool.started 0 = [.onData [1, 2]] ∧ (s.pool.queues 0).pending = [.onData [3], .onClose]))
    [.accept 5, .take 0, .conn 0 .setOnData, .conn 0 (.setOnClose (some .user)), .install 0,
      .startReading 0, .swap, .runPost true, .enterPoll,
      .conn 0 (.event .readable (.data [1, 2])), .take 0, .drainLock 0,
      .conn 0 (.event .readable (.data [3])), .conn 0 (.event .readable (.data []))]
    rfl (by decide)
  have hq := of_decide_eq_true hp
  obtain ⟨ds, rest, h1, h2, h3, -⟩ := callback_protocol h hq.1
  exact ⟨s, h, hq, ds, rest, h1, h2, h3⟩

end Stream

end Socketpp
