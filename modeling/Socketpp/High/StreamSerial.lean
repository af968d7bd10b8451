import Socketpp.High.StreamInvariant

/-!
# Callbacks of one connection do not overlap

`on_data` and `on_close` of a connection go through its serial queue, but
`on_connect` is submitted to the pool directly. They are kept apart only by
the order of things: nothing is submitted to the serial queue before
`on_connect_cb` has returned. Data cannot be, because the socket is registered
afterwards. A close can: `close` called inside `on_connect`, or `do_destroy`,
reaches `initiate_close` while `on_connect_cb` is still being executed, and if
`on_close_` is set by then it is submitted. `CloseOk` excludes just that.
-/

namespace Socketpp

namespace Stream

variable {n : Nat} {cfg : StreamConfig} {s s' : Stream n} {a : Act n} {c : Nat}

/-- `initiate_close` would submit `on_close_` while `on_connect_cb` is executed. -/
def ClosesInHandler (s : Stream n) (c : Nat) : Prop :=
  s.InHandler c ∧ (s.impls c).closed = false ∧ (s.impls c).onClose.isSome = true

instance (s : Stream n) (c : Nat) : Decidable (s.ClosesInHandler c) :=
  inferInstanceAs (Decidable (_ ∧ _ ∧ _))

/-- The connection the next posted task closes, if it is such a task. -/
def nextClose (s : Stream n) : Option Nat :=
  match s.posts.next with
  | some (.conn c .initiateClose, _) => some c
  | _ => none

/-- No `initiate_close` takes effect on a connection while `on_connect_cb` is
being executed for it and has set `on_close_`. -/
def CloseOk (s : Stream n) : Act n → Prop
  | .runPost _ => ∀ c ∈ s.nextClose, ¬ s.ClosesInHandler c
  | .teardownClose c => ¬ s.ClosesInHandler c
  | _ => True

instance (s : Stream n) : (a : Act n) → Decidable (s.CloseOk a)
  | .runPost _ => inferInstanceAs (Decidable (∀ c ∈ s.nextClose, ¬ s.ClosesInHandler c))
  | .teardownClose c => inferInstanceAs (Decidable (¬ s.ClosesInHandler c))
  | .accept _ | .reportError | .connected _ | .conn _ _ | .swap | .enterPoll | .take _
  | .install _ | .startReading _ | .errorReturn _ | .drainLock _ | .runClose _ | .fnReturn _
  | .join | .clear | .shutdown => isTrue trivial

/-- While `on_connect_cb` is queued or executed nothing was submitted to the
serial queue; while it is queued, no close handler is set either. -/
structure HandlerInv (s : Stream n) (c : Nat) : Prop where
  quiet : 0 < s.handlerJobs c → s.pool.submitted c = [] ∧ (s.impls c).reading = false
  queued : .app (.onConnect c) ∈ s.pool.pool.queue → (s.impls c).onClose = none

theorem start_handlerInv (cfg : StreamConfig) (n c : Nat) : (start cfg n).HandlerInv c :=
  ⟨fun _ => ⟨rfl, rfl⟩, fun _ => rfl⟩

/-- A close in such a state submits nothing. -/
theorem HandlerInv.close_quiet (h : s.HandlerInv c) (hj : 0 < s.handlerJobs c)
    (ho : (s.impls c).closed = false) (hok : ¬ s.ClosesInHandler c) :
    (s.impls c).onClose.isSome = false := by
  rcases handlerJobs_pos hj with hq | hin
  · rw [h.queued hq]; rfl
  · cases hs : (s.impls c).onClose.isSome with
    | false => rfl
    | true => exact absurd ⟨hin, ho, hs⟩ hok

/-- Every step of a connection in such a state submits nothing. -/
theorem HandlerInv.submits_nil (h : s.HandlerInv c) (hcb : s.CbInv c)
    (hdr : (s.impls c).DrainReg) (hok : s.CloseOk a) (hj : 0 < s.handlerJobs c)
    {b : Conn.Act CloseHandler} {d : Conn CloseHandler} {o : Out} (hb : s.Permits a c b)
    (hset : ¬ b.Setup) (he : (s.impls c).step b = some (d, o)) : o.submits = [] := by
  obtain ⟨heff, -⟩ := Conn.step_spec hset he
  have hreg : ¬ (s.impls c).interest.isSome = true := fun hi => by
    have := hcb.registered hi
    rw [(h.quiet hj).2] at this
    cases this
  generalize o.submits = cbs at heff
  cases heff with
  | quiet => rfl
  | data _ _ _ _ hi => exact absurd hi hreg
  | closing hk ho =>
    have hno : ¬ s.ClosesInHandler c := by
      rcases hk with hi | hd | ⟨ok, rfl⟩ | rfl
      · exact absurd hi hreg
      · rcases hdr hd with hi | hc
        · exact absurd hi hreg
        · rw [ho] at hc; cases hc
      · obtain ⟨rfl, -, q, hn⟩ := hb
        exact hok c (by rw [nextClose, hn]; rfl)
      · obtain ⟨rfl, -⟩ := hb
        exact hok
    rw [h.close_quiet hj ho hno]
    rfl

theorem HandlerInv.step_quiet (h : s.HandlerInv c) (hw : Wf cfg s) (hacc : s.Accepting)
    (hcb : s.CbInv c) (hdr : (s.impls c).DrainReg) (hok : s.CloseOk a)
    (he : step cfg s a = some s') (hj' : 0 < s'.handlerJobs c) :
    s'.pool.submitted c = [] ∧ (s'.impls c).reading = false := by
  have hold := handlerJobs_before hacc he hj'
  have hbase : s.pool.submitted c = [] ∧ (s.impls c).reading = false := by
    rcases hold with hj | ⟨-, hc⟩
    · exact h.quiet hj
    · obtain ⟨h1, h2, -⟩ := hw.fresh c (Nat.le_of_eq hc.symm)
      exact ⟨h2, by rw [h1]; rfl⟩
  cases step_view he c with
  | same hi hs => rw [hi, hs]; exact hbase
  | silent k _ hncb hc =>
    rcases hold with hj | ⟨hcb, -⟩
    · exact absurd (hw.handlerJobs_lt hj) (by omega)
    · rw [hncb] at hcb; cases hcb
  | step b o hb he' hs =>
    have hlt := hw.permits_lt hb
    have hj := hold.resolve_right fun hc => by omega
    by_cases hset : b.Setup
    · obtain ⟨-, hsub, hcases⟩ := Conn.step_setup hset he'
      rw [hs, hsub, List.append_nil]
      obtain ⟨-, e, -⟩ | ⟨_, -, e, -⟩ | ⟨rfl, -⟩ := hcases
      · rw [e]; exact hbase
      · rw [e]; exact hbase
      · -- the one lambda of `c` is past `on_connect_cb`
        obtain ⟨w, -, hrun⟩ := hb
        exact absurd hj (hw.handlerJobs_installed hrun)
    · rw [hs, h.submits_nil hcb hdr hok hj hb hset he', List.append_nil]
      obtain ⟨-, -, -, hr⟩ := Conn.step_spec hset he'
      exact ⟨hbase.1, hr.trans hbase.2⟩

theorem HandlerInv.step_queued (h : s.HandlerInv c) (hw : Wf cfg s)
    (he : step cfg s a = some s') (hq' : .app (.onConnect c) ∈ s'.pool.pool.queue) :
    (s'.impls c).onClose = none := by
  have hold : .app (.onConnect c) ∈ s.pool.pool.queue ∨ cfg.connectCb = true ∧ c = s.made := by
    obtain ⟨-, -, hp | ⟨pa, hp, hpa, -⟩⟩ := step_pool he
    · rw [hp] at hq'; exact .inl hq'
    · rcases SerialPool.step_queue hp hq' with hq | rfl
      · exact .inl hq
      · exact .inr ⟨hpa.1, hpa.2.1⟩
  have hbase : (s.impls c).onClose = none := by
    rcases hold with hq | ⟨-, hc⟩
    · exact h.queued hq
    · rw [(hw.fresh c (Nat.le_of_eq hc.symm)).1]; rfl
  rcases step_onClose he c with e | ⟨⟨w, hrun⟩, -⟩ | ⟨hncb, hc, -⟩
  · exact e.trans hbase
  · have hlt := hw.inHandler_lt ⟨w, hrun⟩
    have hq := hold.resolve_right fun hc => by omega
    exact absurd hq (hw.not_queued hrun (by simp [StreamExec.inLambda]))
  · rcases hold with hq | ⟨hcb, -⟩
    · exact absurd (hw.queued_lt hq) (by omega)
    · rw [hncb] at hcb; cases hcb

theorem reach_drainReg {ok : Stream n → Act n → Prop} (h : (machine cfg n).ReachOk ok s) (c : Nat) :
    (s.impls c).DrainReg :=
  reach_impls (I := Conn.DrainReg) (fun hne => absurd rfl hne)
    (fun _ _ _ _ hi he => Conn.step_drainReg hi he) h c

theorem reach_handlerInv (h : (machine cfg n).ReachOk CloseOk s) (c : Nat) : s.HandlerInv c :=
  h.inv (fun _ hs => hs ▸ start_handlerInv cfg n c) fun _ _ _ hr hi hok he =>
    ⟨hi.step_quiet (reach_wf hr) (reach_accepting hr) (reach_cbInv hr c) (reach_drainReg hr c) hok
      he, hi.step_queued (reach_wf hr) he⟩

/-- Worker `w` is executing a callback of connection `c`. -/
def Executing (s : Stream n) (w : Fin n) (c : Nat) : Prop :=
  s.pool.pool.workers w = .running (.app (.onConnect c)) ∨
    ∃ t, s.pool.pool.workers w = .running (.fn c t)

/-- While `on_connect_cb` is executed no other callback of the connection is. -/
theorem HandlerInv.not_fn (h : s.HandlerInv c) (hq : s.pool.QueueInv c)
    (hlast : s.pool.LastStarted c) (hin : s.InHandler c) (w : Fin n) (t : Callback) :
    s.pool.pool.workers w ≠ .running (.fn c t) := by
  intro hw
  have hst := List.mem_of_getLast? (hlast w t hw)
  rw [(hq.not_started (h.quiet (handlerJobs_of_inHandler hin)).1).1] at hst
  cases hst

/-- **Callbacks of one connection never overlap** in a run in which no
`initiate_close` takes effect while `on_connect_cb` is executed with `on_close_`
set: the workers executing a callback of `c`, `on_connect` included, are one. -/
theorem callbacks_never_overlap (h : (machine cfg n).ReachOk CloseOk s) {w w' : Fin n}
    (hw : s.Executing w c) (hw' : s.Executing w' c) : w = w' := by
  have hi := reach_handlerInv h c
  have hq := reach_queue h c
  have hl := reach_lastStarted h c
  rcases hw with hw | ⟨t, hw⟩
  · rcases hw' with hw' | ⟨t', hw'⟩
    · exact (reach_wf h).lambda_unique (c := c) hw (by simp [StreamExec.inLambda]) hw'
        (by simp [StreamExec.inLambda])
    · exact absurd hw' (hi.not_fn hq hl ⟨w, hw⟩ w' t')
  · rcases hw' with hw' | ⟨t', hw'⟩
    · exact absurd hw (hi.not_fn hq hl ⟨w', hw'⟩ w t)
    · exact hq.exec_unique hw hw'

/-- `close` called inside `on_connect` before `on_close_` is set, then data of
another connection: the one worker in a callback of connection `1` is worker `0`. -/
theorem callbacks_never_overlap_on_data :
    ∃ s : Stream 2, (machine ⟨.listen, 0, true, 8, 4⟩ 2).ReachOk CloseOk s ∧
      (s.pool.pool.workers 0 = .running (.fn 1 (.onData [7])) ∧ (s.impls 0).closed = true) ∧
      ∀ w, s.Executing w 1 → w = 0 := by
  obtain ⟨s, h, hp⟩ := Machine.ReachOk.of_runOk_init (M := machine ⟨.listen, 0, true, 8, 4⟩ 2)
    CloseOk
    (fun s => decide (s.pool.pool.workers 0 = .running (.fn 1 (.onData [7])) ∧
      (s.impls 0).closed = true))
    [.accept 5, .take 0, .conn 0 (.call .close), .conn 0 (.advance 0), .swap, .runPost true,
      .enterPoll, .accept 6, .take 1, .conn 1 .setOnData, .install 1, .startReading 1, .swap,
      .runPost true, .enterPoll, .install 0, .startReading 0,
      .conn 1 (.event .readable (.data [7])), .take 0, .drainLock 0]
    rfl (by decide)
  have hq := of_decide_eq_true hp
  exact ⟨s, h, hq, fun w hw => callbacks_never_overlap h hw (.inr ⟨_, hq.1⟩)⟩

/-- `close` called inside `on_connect` after `on_close_` is set: worker `1` is in
the user's `on_close` while worker `0` is still in `on_connect`. -/
theorem on_close_overlaps_on_connect :
    ∃ s : Stream 2, (machine ⟨.listen, 0, true, 8, 4⟩ 2).Reach s ∧
      s.pool.pool.workers 0 = .running (.app (.onConnect 0)) ∧
      s.pool.pool.workers 1 = .running (.fn 0 .onClose) ∧ s.entered 0 = some .user := by
  obtain ⟨s, h, hp⟩ := Machine.Reach.of_run_init (M := machine ⟨.listen, 0, true, 8, 4⟩ 2)
    (fun s => decide (s.pool.pool.workers 0 = .running (.app (.onConnect 0)) ∧
      s.pool.pool.workers 1 = .running (.fn 0 .onClose) ∧ s.entered 0 = some .user))
    [.accept 5, .take 0, .conn 0 (.setOnClose (some .user)), .conn 0 (.call .close),
      .conn 0 (.advance 0), .swap, .runPost true, .take 1, .drainLock 1, .runClose 1]
    rfl (by decide)
  exact ⟨s, h, of_decide_eq_true hp⟩

end Stream

end Socketpp
