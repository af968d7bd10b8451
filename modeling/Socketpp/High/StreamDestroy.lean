import Socketpp.High.StreamProgress

/-!
# `do_destroy` returns

The loop thread of a stream has been joined, and no thread calls any more. What is left
is the rest of `do_destroy` (closing the connections of the table, dropping them, and
`shutdown` of the pool) with the workers still running callbacks beside it.

However the threads are scheduled this ends after a bounded number of steps
(`destroy_returns`). Then every worker has left its loop, as the joins of `shutdown`
wait for; every connection the table had is closed and unregistered; and every callback
that was submitted has been executed, with the close callbacks of the connections that
`do_destroy` itself closed. That `shutdown` comes last is what this needs: a pool that
was stopped takes no drain job, but its workers finish those it has (`Drained`).

A callback must not be in `do_defer` or `do_repeat`: there it waits for a task of the loop
thread, which was joined, so it never returns and `shutdown` waits for its worker.
-/

namespace Socketpp

namespace Stream

variable {n : Nat} {cfg : StreamConfig} {s s' : Stream n} {a : Act n}
  {ok : Stream n → Act n → Prop}

theorem reach_drained (h : (machine cfg n).ReachOk ok s) : s.pool.Drained := by
  refine h.inv (I := fun s => s.pool.Drained) ?_ fun _ _ _ _ hi _ he => ?_
  · rintro s rfl w hw
    cases hw
  · obtain ⟨-, -, hp | ⟨pa, hp, -, -⟩⟩ := step_pool he
    · rw [hp]
      exact hi
    · exact SerialPool.step_drained hi hp

theorem reach_stopped (h : (machine cfg n).ReachOk ok s) (hd : s.teardown = .down) :
    s.pool.pool.stopped = true := by
  revert hd
  refine h.inv (I := fun s => s.teardown = .down → s.pool.pool.stopped = true) ?_
    fun s a s' _ hi _ he hd => ?_
  · rintro s rfl hd
    cases hd
  · have hview := step_pool he
    cases hview.teardown with
    | same e =>
      obtain hp | ⟨pa, hp, -, -⟩ := hview.pool
      · rw [hp]
        exact hi (e.symm.trans hd)
      · exact SerialPool.step_stopped (hi (e.symm.trans hd)) hp
    | join _ _ e => cases e.symm.trans hd
    | clear _ _ e => cases e.symm.trans hd
    | shutdown ha _ _ =>
      have hs : step cfg s .shutdown = some s' := ha ▸ he
      cases step_cases hs with
      | shutdown => rfl

theorem Wf.owner_lt (h : Wf cfg s) {d : Nat} (ho : (s.owner d).isSome = true) : d < s.made := by
  obtain ⟨e, he⟩ := Option.isSome_iff_exists.1 ho
  obtain ⟨rfl, ht | hc⟩ := owner_eq_some he
  · exact (h.table _ e ht).1
  · exact h.client e hc

theorem SameTable.owner (h : SameTable s s') (d : Nat) : s'.owner d = s.owner d := by
  unfold Stream.owner
  rw [h.connections, h.fds, h.client]

/-- After the join only the end of the loop over the connections drops an owner. -/
theorem step_owner (ht : s.teardown = .joined) (he : step cfg s a = some s') (ha : a ≠ .clear) :
    s'.teardown = .joined ∧ ∀ d, s'.owner d = s.owner d := by
  have hteardown : s'.teardown = .joined := by
    cases (step_pool he).teardown with
    | same e => exact e.trans ht
    | join _ e => cases e.symm.trans ht
    | clear e => exact absurd e ha
    | shutdown _ e => cases e.symm.trans ht
  refine ⟨hteardown, ?_⟩
  have hrun (e : s.teardown = .running) : ∀ d, s'.owner d = s.owner d := by cases e.symm.trans ht
  cases step_cases he with
  | accept _ _ e | reportError e | connected _ _ e | task _ _ _ _ _ e | erase _ _ _ e | join e =>
    exact hrun e
  | clear => exact absurd rfl ha
  | full | swap | enterPoll | take | errorReturn | drainLock | runClose | fnReturn | shutdown =>
    exact fun _ => rfl
  | conn c b _ _ _ hs | teardownClose c _ _ _ hs => exact (connStep_sameTable hs).owner
  | install w c s₁ p _ hs | startReading w c s₁ p _ hs => exact (connStep_sameTable hs).owner

/-- The close callback of `d` was submitted, or `d` is open and `on_close_` is set. -/
def WillClose (s : Stream n) (d : Nat) : Prop :=
  .onClose ∈ s.pool.submitted d ∨
    (s.impls d).closed = false ∧ (s.impls d).onClose.isSome = true

theorem step_willClose {d : Nat} (h : s.WillClose d) (hwf : Wf cfg s) (ho : Own 0 .silent s a)
    (he : step cfg s a = some s') : s'.WillClose d := by
  rcases h with hsub | ⟨hopen, hset⟩
  · refine .inl ?_
    cases step_view he d with
    | same _ hs | silent _ _ _ _ _ _ hs =>
      rw [hs]
      exact hsub
    | step b o _ _ hs =>
      rw [hs]
      exact List.mem_append_left _ hsub
  · have hframe (hc : (s'.impls d).closed = (s.impls d).closed)
        (hh : (s'.impls d).onClose = (s.impls d).onClose) : s'.WillClose d :=
      .inr ⟨hc.trans hopen, (congrArg Option.isSome hh).trans hset⟩
    cases step_view he d with
    | same hi => exact hframe (by rw [hi]) (by rw [hi])
    | silent _ _ _ hd =>
      rw [(hwf.fresh d (Nat.le_of_eq hd.symm)).1] at hset
      cases hset
    | step b o hb he' hs =>
      by_cases hsetup : b.Setup
      · obtain ⟨-, -, ⟨-, e, -⟩ | ⟨k, rfl, e, -⟩ | ⟨rfl, e, -⟩⟩ := Conn.step_setup hsetup he'
        · exact hframe (by rw [e]) (by rw [e])
        · -- the handler has returned and `on_close_` is wrapped
          obtain ⟨-, ⟨rfl, -⟩ | ⟨-, rfl⟩⟩ := hb
          · simp [Own, Conn.Own] at ho
          · rw [WillClose, e]
            exact .inr ⟨hopen, rfl⟩
        · exact hframe (by rw [e]) (by rw [e])
      · obtain ⟨heffect, -, hclose, -⟩ := Conn.step_spec hsetup he'
        generalize hcbs : o.submits = cbs at heffect
        cases heffect with
        | quiet hc => exact hframe hc hclose
        | data _ _ _ hc => exact hframe (hc.trans hopen.symm) hclose
        | closing =>
          refine .inl ?_
          rw [hs, hcbs, if_pos hset]
          exact List.mem_append_right _ List.mem_cons_self

/-- `do_destroy` goes on after the join, where `s₀` is the stream at the join. -/
structure Destroying (cfg : StreamConfig) (s₀ s : Stream n) : Prop where
  reach : (machine cfg n).Reach s
  joined : s.teardown ≠ .running
  owned : ∀ d, (s₀.owner d).isSome = true → (s.impls d).closed = true ∨
    s.teardown = .joined ∧ (s.owner d).isSome = true
  willClose : ∀ d, s₀.WillClose d → s.WillClose d

/-- A step without the network leaves less to do. -/
theorem step_silent_work (h : (machine cfg n).Reach s) (ht : s.teardown ≠ .running)
    (ho : Own 0 .silent s a)
    (he : step cfg s a = some s') : s'.work 0 false < s.work 0 false := by
  have hlines : (s'.impls 0).wire = (s.impls 0).wire ∧
      (s'.impls 0).received = (s.impls 0).received := by
    by_cases ha : ∃ b, a = .conn 0 b
    · obtain ⟨b, rfl⟩ := ha
      cases step_cases he with
      | conn _ _ _ _ _ hs =>
        obtain ⟨⟨c₁, o⟩, hr, rfl⟩ := Option.map_eq_some_iff.1 hs
        rw [absorb_impls_self]
        exact Conn.step_silent ho hr
    · exact step_lines he fun b e => ha ⟨b, e⟩
  have hlt := step_work false false (kept_of_joined h ht) h ho (.inr rfl) he rfl fun _ => rfl
  rw [hlines.1, hlines.2] at hlt
  omega

theorem step_destroying {s₀ : Stream n} (h : Destroying cfg s₀ s) (ho : Own 0 .silent s a)
    (he : step cfg s a = some s') :
    Destroying cfg s₀ s' ∧ s'.work 0 false < s.work 0 false := by
  refine ⟨⟨.step h.reach trivial he, ?_, fun d hd => ?_, fun d hd => ?_⟩,
    step_silent_work h.reach h.joined ho he⟩
  · cases (step_pool he).teardown with
    | same e => rw [e]; exact h.joined
    | join _ e => exact absurd e h.joined
    | clear _ _ e => rw [e]; rintro ⟨⟩
    | shutdown _ _ e => rw [e]; rintro ⟨⟩
  · rcases h.owned d hd with hc | ⟨ht, hown⟩
    · exact .inl (step_closed he hc)
    · by_cases ha : a = .clear
      · subst ha
        cases step_cases he with
        | clear _ hall => exact .inl (hall d ((reach_wf h.reach).owner_lt hown) hown)
      · obtain ⟨ht', hsame⟩ := step_owner ht he ha
        exact .inr ⟨ht', (congrArg Option.isSome (hsame d)).trans hown⟩
  · exact step_willClose (h.willClose d hd) (reach_wf h.reach) ho he

/-- `do_destroy` has returned. `s₀` is the stream at the join. -/
structure Destroyed (s₀ s : Stream n) : Prop where
  down : s.teardown = .down
  workers : ∀ w, s.pool.pool.workers w = .exited
  callbacks : ∀ d, s.pool.started d = s.pool.submitted d
  closed : ∀ d, (s₀.owner d).isSome = true →
    (s.impls d).closed = true ∧ (s.impls d).interest = none
  onClose : ∀ d, (s₀.owner d).isSome = true → (s₀.impls d).closed = false →
    (s₀.impls d).onClose.isSome = true → .onClose ∈ s.pool.started d

/-- A callback of one of the workers `waits` returns. -/
def Returns (waits : Fin n → Prop) : Act n → Prop
  | .install w | .errorReturn w | .fnReturn w => waits w
  | _ => False

/-- A worker is inside a callback of the user. -/
def InCallback (s : Stream n) (w : Fin n) : Prop :=
  (∃ d, s.pool.pool.workers w = .running (.app (.onConnect d))) ∨
    s.pool.pool.workers w = .running (.app .onError) ∨
      ∃ d t, s.pool.pool.workers w = .running (.fn d t)

/-- No thread can do anything, where the callbacks of the workers `waits` do not return: they are in
`do_defer` or `do_repeat`. -/
def StuckBut (cfg : StreamConfig) (waits : Fin n → Prop) (s : Stream n) : Prop :=
  ∀ a, Own 0 .silent s a → ¬ Returns waits a → step cfg s a = none

theorem StuckBut.stuck {waits : Fin n → Prop} (hs : s.StuckBut cfg waits)
    (hno : ∀ w, waits w → ¬ s.InCallback w) : s.Stuck cfg 0 .silent := by
  intro a ho
  by_cases hr : Returns waits a
  · refine Option.eq_none_iff_forall_ne_some.2 fun s' he => ?_
    cases step_cases he with
    | install w d _ _ hw => exact hno w hr (.inl ⟨d, hw⟩)
    | errorReturn w _ hw => exact hno w hr (.inr (.inl hw))
    | fnReturn w d t _ hw => exact hno w hr (.inr (.inr ⟨d, t, hw⟩))
    | full | accept | reportError | connected | conn | swap | enterPoll | task | erase | take
    | startReading | drainLock | runClose | join | teardownClose | clear | shutdown => cases hr
  · exact hs a ho hr

/-- The destroying thread can go on until the pool is told to stop. -/
theorem StuckBut.down {waits : Fin n → Prop} (hs : s.StuckBut cfg waits)
    (ht : s.teardown ≠ .running) : s.teardown = .down := by
  cases htd : s.teardown with
  | down => rfl
  | running => exact absurd htd ht
  | cleared =>
    have hnone := hs .shutdown trivial id
    simp [step, htd] at hnone
  | joined =>
    by_cases hall : ∀ d < s.made, (s.owner d).isSome = true → (s.impls d).closed = true
    · have hnone := hs .clear trivial id
      rw [step, if_pos ⟨htd, hall⟩] at hnone
      cases hnone
    · push Not at hall
      obtain ⟨d, -, hown, hopen⟩ := hall
      have hnone := hs (.teardownClose d) (Bool.eq_false_of_not_eq_true hopen) id
      rw [step, if_pos ⟨htd, hown⟩] at hnone
      simp [connStep, Conn.step] at hnone

theorem Stuck.destroyed {s₀ : Stream n} (hs : s.Stuck cfg 0 .silent) (h : Destroying cfg s₀ s)
    (hdown : s.teardown = .down) (hn : 0 < n) (hno : ¬ s.Throws) : Destroyed s₀ s := by
  have hworkers := SerialPool.exited_of_stopped StreamJob.begin (reach_stopped h.reach hdown)
    (hs.callback hno) (hs.lambda h.reach) (fun w => hs.pool (a := .take w) trivial rfl)
    fun w => hs.pool (a := .drainLock w) trivial rfl
  have hqueue := (reach_drained h.reach ⟨0, hn⟩ (hworkers _)).2
  have hcallbacks (d : Nat) : s.pool.started d = s.pool.submitted d := by
    have hq := reach_queue h.reach d
    have hpend := hq.pending_nil hqueue fun w r hw => by cases (hworkers w).symm.trans hw
    rw [← hq.fifo, hpend, List.append_nil]
  have hclosed (d : Nat) (hd : (s₀.owner d).isSome = true) : (s.impls d).closed = true := by
    rcases h.owned d hd with hc | ⟨ht, -⟩
    · exact hc
    · cases ht.symm.trans hdown
  refine ⟨hdown, hworkers, hcallbacks, fun d hd => ?_, fun d hd hopen hset => ?_⟩
  · exact ⟨hclosed d hd, (kept_of_joined h.reach h.joined).unregistered d (hclosed d hd)⟩
  · rcases h.willClose d (.inr ⟨hopen, hset⟩) with hsub | ⟨hopen', -⟩
    · rw [hcallbacks]
      exact hsub
    · cases hopen'.symm.trans (hclosed d hd)

/-- **`do_destroy` returns**, after every callback that was submitted has been executed, unless a
callback waits in `do_defer` or `do_repeat`. -/
theorem destroy_returns (hn : 0 < n) (h : (machine cfg n).Reach s) (ht : s.teardown = .joined)
    {as : List (Act n)} (hp : (machine cfg n).Path (Own 0 .silent) s as s') :
    as.length ≤ s.work 0 false ∧ ∀ waits, s'.StuckBut cfg waits →
      s'.Throws ∨ (s'.teardown = .down ∧ ∃ w, waits w ∧ s'.InCallback w) ∨ Destroyed s s' := by
  have h0 : Destroying cfg s s := ⟨h, by rw [ht]; rintro ⟨⟩, fun d hd => .inr ⟨ht, hd⟩,
    fun _ hd => hd⟩
  constructor
  · exact Nat.le_trans (Nat.le_add_right _ _)
      (hp.length_le (fun _ _ _ hi ho he => step_destroying hi ho he) h0)
  · intro waits hs
    have hend := hp.inv (fun _ _ _ hi ho he => (step_destroying hi ho he).1) h0
    have hdown := hs.down hend.joined
    by_cases hthrow : s'.Throws
    · exact .inl hthrow
    · by_cases hwait : ∃ w, waits w ∧ s'.InCallback w
      · exact .inr (.inl ⟨hdown, hwait⟩)
      · refine .inr (.inr ((hs.stuck fun w hw hin => ?_).destroyed hend hdown hn hthrow))
        exact hwait ⟨w, hw, hin⟩

/-- A connection is open with a chunk queued when the loop thread is joined; no callback waits. -/
theorem destroy_returns_open :
    ∃ (s s' : Stream 1) (as : List (Act 1)), s.teardown = .joined ∧
      ((s.owner 0).isSome = true ∧ (s.impls 0).closed = false ∧
        (s.impls 0).onClose = some (.wrapper true) ∧ s.pool.submitted 0 = [.onData [7]] ∧
        s.pool.started 0 = []) ∧
      (machine ⟨.listen, 0, true, 8, 4⟩ 1).Path (Own 0 .silent) s as s' ∧
      s'.Stuck ⟨.listen, 0, true, 8, 4⟩ 0 .silent ∧ as.length ≤ s.work 0 false ∧
      (s'.Throws ∨ Destroyed s s') := by
  obtain ⟨s, h, hq⟩ := Machine.Reach.of_run_init (M := machine ⟨.listen, 0, true, 8, 4⟩ 1)
    (fun s => decide (s.teardown = .joined ∧ (s.owner 0).isSome = true ∧
      (s.impls 0).closed = false ∧ (s.impls 0).onClose = some (.wrapper true) ∧
      s.pool.submitted 0 = [.onData [7]] ∧ s.pool.started 0 = []))
    [.accept 5, .take 0, .conn 0 .setOnData, .conn 0 (.setOnClose (some .user)), .install 0,
      .startReading 0, .swap, .runPost true, .enterPoll, .conn 0 (.event .readable (.data [7])),
      .join]
    rfl (by decide)
  obtain ⟨ht, hstate⟩ := of_decide_eq_true hq
  obtain ⟨as, s', hp, hs⟩ := Machine.Path.exists_stuck
    (M := machine ⟨.listen, 0, true, 8, 4⟩ 1) (fun _ _ _ hi ho he => step_destroying hi ho he)
    ⟨h, by rw [ht]; rintro ⟨⟩, fun d hd => .inr ⟨ht, hd⟩,
    fun _ hd => hd⟩
  obtain ⟨hlen, hrest⟩ := destroy_returns Nat.one_pos h ht hp
  refine ⟨s, s', as, ht, hstate, hp, hs, hlen, ?_⟩
  rcases hrest (fun _ => False) fun a ho _ => hs a ho with hthrow | ⟨-, _, hno, -⟩ | hdone
  · exact .inl hthrow
  · exact hno.elim
  · exact .inr hdone

end Stream

end Socketpp
