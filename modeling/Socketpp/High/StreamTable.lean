import Socketpp.High.StreamInvariant

/-!
# The connection table of a listening stream

An entry is erased by descriptor number two queue hops after its socket was
closed, so the table is right only while `accept` returns no number that is
still a key (`FreshFd`). Under that condition every connection keeps its entry
until its own erase runs (`own`), each posted erase belongs to the entry it
will find (`posted`), and the counter is the table's size.
-/

namespace Socketpp

namespace Stream

variable {n : Nat} {cfg : StreamConfig} {s s' : Stream n} {a : Act n}

/-- `accept` returns no descriptor that is still a key of the table. -/
def FreshFd (s : Stream n) : Act n → Prop
  | .accept fd => fd ∉ s.connections
  | _ => True

instance (s : Stream n) : (a : Act n) → Decidable (s.FreshFd a)
  | .accept fd =>
    decidable_of_iff (s.connections.lookup fd = none) (AList.lookup_eq_none (s := s.connections))
  | .reportError | .connected _ | .conn _ _ | .swap | .runPost _ | .enterPoll | .take _
  | .install _ | .startReading _ | .errorReturn _ | .drainLock _ | .runClose _ | .fnReturn _
  | .join | .teardownClose _ | .clear | .shutdown => isTrue trivial

/-- The erase of connection `c` was posted. -/
def hasPosted (s : Stream n) (c : Nat) : Bool := (s.entered c).any CloseHandler.isWrapper

structure TableInv (cfg : StreamConfig) (s : Stream n) : Prop where
  own : s.Live → ∀ c < s.made, s.hasPosted c = false →
    s.connections.lookup (s.fds c) = some ⟨c, cfg.connectCb⟩
  posted : s.Live → ∀ fd, s.erases.count fd =
    (s.connections.lookup fd).elim 0 fun e => (s.hasPosted e.impl).toNat
  count : s.connectionCount = s.size
  room : 0 < cfg.maxConn → s.size ≤ cfg.maxConn
  dropped : ¬ s.Live → ∀ c < s.made, (s.impls c).closed = true

theorem size_le (s : Stream n) : s.size ≤ 2 ^ 31 := by
  have := s.connections.keys_nodup.length_le_card
  rwa [Fintype.card_fin] at this

theorem size_insert {fd : Fd} {e : ConnEntry} (t : AList fun _ : Fd => ConnEntry) (h : fd ∉ t) :
    (t.insert fd e).keys.length = t.keys.length + 1 := by
  rw [AList.keys_insert, List.erase_of_not_mem (mt AList.mem_keys.2 h), List.length_cons]

theorem size_erase {fd : Fd} (t : AList fun _ : Fd => ConnEntry) (h : fd ∈ t) :
    (t.erase fd).keys.length = t.keys.length - 1 := by
  rw [AList.keys_erase, List.length_erase_of_mem (AList.mem_keys.1 h)]

theorem step_closed (he : step cfg s a = some s') {c : Nat} (h : (s.impls c).closed = true) :
    (s'.impls c).closed = true := by
  cases step_view he c with
  | same hi => rw [hi]; exact h
  | silent k _ _ _ _ hi => rw [hi]; exact h
  | step b o _ he' =>
    cases hc : (s'.impls c).closed with
    | true => rfl
    | false => rw [Conn.step_open he' hc] at h; cases h

theorem start_tableInv (cfg : StreamConfig) (n : Nat) : TableInv cfg (start cfg n) :=
  ⟨fun _ _ h => absurd h (Nat.not_lt_zero _), fun _ _ => rfl, rfl, fun _ => Nat.zero_le _,
    fun h => absurd (.inl rfl) h⟩

theorem hasPosted_entered {c : Nat} (h : s.hasPosted c = true) : ∃ k, s.entered c = some k := by
  unfold hasPosted at h
  cases hk : s.entered c with
  | none => rw [hk] at h; cases h
  | some k => exact ⟨k, rfl⟩

/-- What a posted erase says about its connection. -/
def PostedClosed (s : Stream n) : Prop :=
  ∀ c, s.hasPosted c = true → c < s.made ∧ (s.impls c).closed = true

theorem reach_postedClosed {ok : Stream n → Act n → Prop} (h : (machine cfg n).ReachOk ok s) :
    s.PostedClosed := by
  intro c hc
  obtain ⟨k, hk⟩ := hasPosted_entered hc
  have hw := reach_wf h
  have hst := hw.entered c k hk
  exact ⟨hw.started_lt (reach_queue h c) hst,
    closed_of_started (reach_cbInv h c) (reach_queue h c) hst⟩

theorem TableInv.made (h : TableInv cfg s) (hpc : s.PostedClosed) {fd : Fd}
    (hfd : fd ∉ s.connections) (hlive : s.Live) (hroom : ¬ (0 < cfg.maxConn ∧ cfg.maxConn ≤ s.size))
    (hm : s'.made = s.made + 1) (hf : s'.fds = Function.update s.fds s.made fd)
    (ht : s'.connections = s.connections.insert fd ⟨s.made, cfg.connectCb⟩)
    (hn : s'.connectionCount = sizeAdd s.connectionCount 1)
    (he : s'.entered = s.entered) (hp : s'.erases = s.erases) (hl : s'.Live) :
    TableInv cfg s' := by
  have hnone : s.connections.lookup fd = none := AList.lookup_eq_none.2 hfd
  have hposted : s'.hasPosted = s.hasPosted := by funext c; rw [hasPosted, he]; rfl
  have hsize : s'.size = s.size + 1 := by rw [size, ht]; exact size_insert _ hfd
  have hnew : s.hasPosted s.made = false := by
    cases hc : s.hasPosted s.made with
    | false => rfl
    | true => exact absurd (hpc _ hc).1 (Nat.lt_irrefl _)
  refine ⟨fun _ c hc hnp => ?_, fun _ fd' => ?_, ?_, fun hmax => ?_, fun hd => absurd hl hd⟩
  · rw [hposted] at hnp
    rw [ht, hf]
    rcases Nat.lt_succ_iff_lt_or_eq.1 (hm ▸ hc) with hc' | rfl
    · have hown := h.own hlive c hc' hnp
      have hne : s.fds c ≠ fd := fun e => by rw [e, hnone] at hown; cases hown
      rw [Function.update_of_ne (Nat.ne_of_lt hc'), AList.lookup_insert_ne hne, hown]
    · rw [Function.update_self, AList.lookup_insert]
  · rw [hp, h.posted hlive fd', ht, hposted]
    by_cases hfd' : fd' = fd
    · subst hfd'
      rw [hnone, AList.lookup_insert]
      simp [hnew]
    · rw [AList.lookup_insert_ne hfd']
  · have := s.size_le
    rw [hn, h.count, hsize]
    exact Nat.mod_eq_of_lt (by omega)
  · rw [hsize]
    have := not_and.1 hroom hmax
    omega

theorem TableInv.erased (h : TableInv cfg s) {fd : Fd} (hlive : s.Live) (hm : s'.made = s.made)
    (hf : s'.fds = s.fds) (ht : s'.connections = s.connections.erase fd)
    (hn : s'.connectionCount = sizeSub s.connectionCount 1)
    (he : s'.entered = s.entered) (hp : s.erases = fd :: s'.erases) (hl : s'.Live) :
    TableInv cfg s' := by
  have hposted : s'.hasPosted = s.hasPosted := by funext c; rw [hasPosted, he]; rfl
  -- the erase finds the entry of the connection that posted it
  have hcount := h.posted hlive fd
  rw [hp, List.count_cons_self] at hcount
  obtain ⟨e, hlook⟩ : ∃ e, s.connections.lookup fd = some e := by
    cases hlook : s.connections.lookup fd with
    | none => rw [hlook] at hcount; simp at hcount
    | some e => exact ⟨e, rfl⟩
  rw [hlook, Option.elim_some] at hcount
  have hle := Bool.toNat_le (s.hasPosted e.impl)
  have hmem : fd ∈ s.connections := AList.lookup_isSome.1 (by rw [hlook]; rfl)
  have hsize : s'.size = s.size - 1 := by rw [size, ht]; exact size_erase _ hmem
  have hpos : 0 < s.size := List.length_pos_of_mem (AList.mem_keys.1 hmem)
  refine ⟨fun _ c hc hnp => ?_, fun _ fd' => ?_, ?_, fun hmax => ?_, fun hd => absurd hl hd⟩
  · rw [hm] at hc
    rw [hposted] at hnp
    have hown := h.own hlive c hc hnp
    have hne : s.fds c ≠ fd := fun e' => by
      rw [e', hlook, Option.some.injEq] at hown
      subst hown
      simp only [hnp, Bool.toNat_false] at hcount
      omega
    rw [ht, hf, AList.lookup_erase_ne hne, hown]
  · rw [ht, hposted]
    by_cases hfd' : fd' = fd
    · subst hfd'
      rw [AList.lookup_erase, Option.elim_none]
      omega
    · rw [AList.lookup_erase_ne hfd', ← h.posted hlive fd', hp,
        List.count_cons_of_ne (Ne.symm hfd')]
  · have := s.size_le
    rw [hn, h.count, hsize]
    unfold sizeSub
    omega
  · rw [hsize]
    have := h.room hmax
    omega

theorem TableInv.entered (h : TableInv cfg s) (hmode : cfg.mode = .listen) (hw : Wf cfg s)
    {c : Nat} {k : CloseHandler} (hc : c < s.made) (hnone : s.entered c = none)
    (hm : s'.made = s.made) (hf : s'.fds = s.fds) (ht : s'.connections = s.connections)
    (hn : s'.connectionCount = s.connectionCount)
    (he : s'.entered = Function.update s.entered c (some k))
    (hp : s'.erases = s.erases ++ if k.isWrapper ∧ cfg.mode = .listen then [s.fds c] else [])
    (hl : s'.Live ↔ s.Live) (hcl : ∀ d, (s.impls d).closed = true → (s'.impls d).closed = true) :
    TableInv cfg s' := by
  have hself : s'.hasPosted c = k.isWrapper := by rw [hasPosted, he, Function.update_self]; rfl
  have hother : ∀ d, d ≠ c → s'.hasPosted d = s.hasPosted d := fun d hd => by
    rw [hasPosted, he, Function.update_of_ne hd]; rfl
  have hbefore : s.hasPosted c = false := by rw [hasPosted, hnone]; rfl
  have hsize : s'.size = s.size := by rw [size, ht]; rfl
  refine ⟨fun hlive d hd hnp => ?_, fun hlive fd => ?_, by rw [hn, hsize]; exact h.count,
    by rw [hsize]; exact h.room, fun hd d hd' => hcl d (h.dropped (mt hl.2 hd) d (hm ▸ hd'))⟩
  · rw [ht, hf]
    refine h.own (hl.1 hlive) d (hm ▸ hd) ?_
    by_cases hdc : d = c
    · rw [hdc]; exact hbefore
    · rw [← hother d hdc]; exact hnp
  · have hlive := hl.1 hlive
    have hown := h.own hlive c hc hbefore
    rw [hp, List.count_append, h.posted hlive fd, ht]
    simp only [hmode, and_true]
    by_cases hfd : fd = s.fds c
    · subst hfd
      rw [hown]
      simp only [Option.elim_some, hself, hbefore]
      cases k.isWrapper <;> simp
    · have hzero : (if k.isWrapper = true then [s.fds c] else []).count fd = 0 := by
        split <;> simp [Ne.symm hfd]
      rw [hzero, Nat.add_zero]
      cases hlook : s.connections.lookup fd with
      | none => rfl
      | some e =>
        have hne : e.impl ≠ c := fun e' => hfd (by rw [← e']; exact (hw.table fd e hlook).2.symm)
        simp only [Option.elim_some, hother _ hne]

theorem TableInv.cleared (h : TableInv cfg s) (hpc : s.PostedClosed)
    (hg : s.teardown = .joined ∧
      ∀ c < s.made, (s.owner c).isSome = true → (s.impls c).closed = true)
    (hm : s'.made = s.made) (ht : s'.connections = ∅) (hn : s'.connectionCount = 0)
    (hl : ¬ s'.Live) (hcl : ∀ d, (s.impls d).closed = true → (s'.impls d).closed = true) :
    TableInv cfg s' := by
  have hsize : s'.size = 0 := by rw [size, ht]; rfl
  refine ⟨fun h' => absurd h' hl, fun h' => absurd h' hl, hn.trans hsize.symm,
    fun _ => by rw [hsize]; exact Nat.zero_le _, fun _ c hc => hcl c ?_⟩
  rw [hm] at hc
  cases hp : s.hasPosted c with
  | true => exact (hpc c hp).2
  | false =>
    refine hg.2 c hc ?_
    rw [owner, h.own (.inr hg.1) c hc hp]
    simp

theorem TableInv.step (h : TableInv cfg s) (hmode : cfg.mode = .listen) (hw : Wf cfg s)
    (hpc : s.PostedClosed) (hlast : ∀ c, s.pool.LastStarted c) (hq : ∀ c, s.pool.QueueInv c)
    (hok : s.FreshFd a) (he : step cfg s a = some s') : TableInv cfg s' := by
  have hcl : ∀ d, (s.impls d).closed = true → (s'.impls d).closed = true := fun d => step_closed he
  cases step_table he with
  | same h' =>
    have hposted : s'.hasPosted = s.hasPosted := by funext c; rw [hasPosted, h'.entered]; rfl
    have hsize : s'.size = s.size := by rw [size, h'.connections]; rfl
    refine ⟨fun hl => ?_, fun hl => ?_, by rw [h'.count, hsize]; exact h.count,
      by rw [hsize]; exact h.room,
      fun hd c hc => hcl c (h.dropped (mt h'.live.2 hd) c (h'.made ▸ hc))⟩
    · rw [hposted, h'.made, h'.connections, h'.fds]; exact h.own (h'.live.1 hl)
    · rw [hposted, h'.connections, h'.erases]; exact h.posted (h'.live.1 hl)
  | made fd hg hm hf ht hn _ hen hp hl =>
    obtain ⟨rfl, -, hrun, -, hroom⟩ := hg
    have hlive : s.Live := .inl hrun
    exact h.made hpc hok hlive hroom hm hf ht hn hen hp (hl.2 hlive)
  | connected fd hg => rw [hmode] at hg; cases hg.1
  | erased fd hlive hm hf ht hn _ hen hp hl =>
    exact h.erased hlive hm hf ht hn hen hp (hl.2 hlive)
  | entered c k hg hm hf ht hn _ hen hp hl =>
    obtain ⟨⟨w, hrun⟩, hnone, -⟩ := hg
    have hlt := hw.started_lt (hq c) (List.mem_of_getLast? (hlast c w _ hrun))
    exact h.entered hmode hw hlt hnone hm hf ht hn hen hp hl hcl
  | cleared hg hm hf ht hn _ _ _ hl => exact h.cleared hpc hg hm ht hn hl hcl

theorem reach_tableInv (hmode : cfg.mode = .listen) (h : (machine cfg n).ReachOk FreshFd s) :
    TableInv cfg s :=
  h.inv (fun _ hs => hs ▸ start_tableInv cfg n) fun _ _ _ hr hi hok he =>
    hi.step hmode (reach_wf hr) (reach_postedClosed hr) (reach_lastStarted hr) (reach_queue hr)
      hok he

/-- The connections made that are still open. -/
def openConns (s : Stream n) : List Nat :=
  (List.range s.made).filter fun c => !(s.impls c).closed

/-- Connections that own entries are no more than the entries. -/
theorem openConns_le_size {b : Bool}
    (h : ∀ c < s.made, (s.impls c).closed = false → s.connections.lookup (s.fds c) = some ⟨c, b⟩) :
    s.openConns.length ≤ s.size := by
  have hown : ∀ c ∈ s.openConns, s.connections.lookup (s.fds c) = some ⟨c, b⟩ := fun c hc => by
    obtain ⟨h1, h2⟩ := List.mem_filter.1 hc
    exact h c (List.mem_range.1 h1) (by simpa using h2)
  have hnodup : (s.openConns.map s.fds).Nodup := by
    refine (List.nodup_map_iff_inj_on (List.nodup_range.filter _)).2 fun c hc d hd e => ?_
    have := hown c hc
    rw [e, hown d hd] at this
    simpa using this.symm
  have hsub : s.openConns.map s.fds ⊆ s.connections.keys := by
    intro fd hfd
    obtain ⟨c, hc, rfl⟩ := List.mem_map.1 hfd
    exact AList.mem_keys.1 (AList.lookup_isSome.1 (by rw [hown c hc]; rfl))
  have := (hnodup.subperm hsub).length_le
  rwa [List.length_map] at this

/-- **Table integrity.** In every run of a listening stream in which `accept`
returns no descriptor that is still a key: every open connection has its own
entry under its descriptor, `connection_count` is the table's size, and no more
than `max_conn` connections are open. -/
theorem table_integrity (hmode : cfg.mode = .listen) (h : (machine cfg n).ReachOk FreshFd s) :
    (∀ c < s.made, (s.impls c).closed = false →
      s.connections.lookup (s.fds c) = some ⟨c, cfg.connectCb⟩) ∧
    s.connectionCount = s.size ∧
    (0 < cfg.maxConn → s.openConns.length ≤ cfg.maxConn) := by
  have hi := reach_tableInv hmode h
  have hown : ∀ c < s.made, (s.impls c).closed = false →
      s.connections.lookup (s.fds c) = some ⟨c, cfg.connectCb⟩ := by
    intro c hc ho
    by_cases hl : s.Live
    · refine hi.own hl c hc ?_
      cases hp : s.hasPosted c with
      | false => rfl
      | true => rw [(reach_postedClosed h c hp).2] at ho; cases ho
    · rw [hi.dropped hl c hc] at ho; cases ho
  exact ⟨hown, hi.count, fun hmax => Nat.le_trans (openConns_le_size hown) (hi.room hmax)⟩

/-- One connection closes and is erased, another is open. -/
theorem table_integrity_one_closed :
    ∃ s : Stream 1, (machine ⟨.listen, 2, true, 8, 4⟩ 1).ReachOk FreshFd s ∧
      (s.made = 2 ∧ (s.impls 0).closed = true ∧ (s.impls 1).closed = false ∧ s.size = 1) ∧
      s.connections.lookup (s.fds 1) = some ⟨1, true⟩ ∧ s.connectionCount = s.size ∧
      s.openConns.length ≤ 2 := by
  obtain ⟨s, h, hp⟩ := Machine.ReachOk.of_runOk_init (M := machine ⟨.listen, 2, true, 8, 4⟩ 1)
    FreshFd
    (fun s => decide (s.made = 2 ∧ (s.impls 0).closed = true ∧ (s.impls 1).closed = false ∧
      s.size = 1))
    [.accept 5, .take 0, .install 0, .startReading 0, .swap, .runPost true, .enterPoll,
      .accept 6, .conn 0 (.event .readable (.data [])), .take 0, .install 0, .startReading 0,
      .take 0, .drainLock 0, .runClose 0, .swap, .runPost true, .runPost true]
    rfl (by decide)
  have hq := of_decide_eq_true hp
  obtain ⟨h1, h2, h3⟩ := table_integrity rfl h
  exact ⟨s, h, hq, h1 1 (by omega) hq.2.2.1, h2, h3 (by decide)⟩

/-- A descriptor reused before its erase has run: connection `1` overwrites the
entry of connection `0` and loses its own to the pending erase. It is open and
not in the table, the counter is wrong, and three connections are open where
two are allowed. -/
theorem table_lost_entry :
    ∃ s : Stream 1, (machine ⟨.listen, 2, true, 8, 4⟩ 1).Reach s ∧
      ((s.impls 1).closed = false ∧ s.made = 4 ∧ s.connections.lookup (s.fds 1) = none) ∧
      (s.connectionCount = 3 ∧ s.size = 2) ∧ s.openConns.length = 3 := by
  obtain ⟨s, h, hp⟩ := Machine.Reach.of_run_init (M := machine ⟨.listen, 2, true, 8, 4⟩ 1)
    (fun s => decide (((s.impls 1).closed = false ∧ s.made = 4 ∧
      s.connections.lookup (s.fds 1) = none) ∧ (s.connectionCount = 3 ∧ s.size = 2) ∧
      s.openConns.length = 3))
    [.accept 5, .take 0, .install 0, .startReading 0, .swap, .runPost true, .enterPoll,
      .conn 0 (.event .readable (.data [])), .accept 5, .take 0, .drainLock 0, .runClose 0, .swap,
      .runPost true, .enterPoll, .accept 6, .accept 7]
    rfl (by decide)
  exact ⟨s, h, of_decide_eq_true hp⟩

end Stream

end Socketpp
