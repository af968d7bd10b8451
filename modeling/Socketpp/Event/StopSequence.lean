import Socketpp.Event.RunLoop

/-!
# Stopping a loop that may not have started

`do_destroy` (`src/high/stream.cpp`, `src/high/dgram.cpp`) posts a callback
that calls `stop`, then calls `stop` itself, while the background thread is
anywhere in `run`, or has not begun it. `run` clears the flag first, so it may
erase the direct `stop`; then the posted one is in the queue that the first
iteration drains. `StopRun` follows the teardown thread, which posts a list of
callbacks one after the other (the last of a stream's is the one that stops)
and then calls `stop`; any other threads may call `post` and `stop` as well.

`StopInv` says where the stop is on its way: while the flag is clear after the
teardown thread has stored it, the waker is set and the stop callback is ahead
of the loop thread in the iteration it is in.
-/

namespace Socketpp

/-- Where the teardown thread is. -/
inductive StopPc (τ : Type) where
  /-- about to post the callbacks of `rest`, or to store the flag if there is none -/
  | posting (rest : List τ)
  /-- in `post`, before its `wake` -/
  | pushed (rest : List τ)
  /-- in `stop`, before its `wake` -/
  | stored
  | done
  deriving DecidableEq

namespace StopPc

variable {τ : Type}

/-- The callbacks still to be posted. -/
def rest : StopPc τ → List τ
  | .posting fns | .pushed fns => fns
  | .stored | .done => []

def isPushed : StopPc τ → Bool
  | .pushed _ => true
  | .posting _ | .stored | .done => false

/-- The flag is stored. -/
def hasStored : StopPc τ → Bool
  | .stored | .done => true
  | .posting _ | .pushed _ => false

end StopPc

structure StopRun (ι τ : Type) where
  run : RunLoop ι τ
  pc : StopPc τ
  /-- the background thread has called `run` -/
  entered : Bool
  /-- the last callback begun has called `stop` -/
  stopped : Bool

namespace StopRun

variable {ι τ : Type}

def start (fns : List τ) : StopRun ι τ where
  run := .start
  pc := .posting fns
  entered := false
  stopped := false

def enters : RunLoop.Act ι τ → Bool
  | .enter => true
  | _ => false

/-- What the other threads may do: `run` is called once, and the callback `fn`
returns after it has called `stop`. -/
def Allows (td : ι) (fn : τ) (s : StopRun ι τ) : RunLoop.Act ι τ → Prop
  | .push t _ | .store t | .wake t => t ≠ some td
  | .enter => s.entered = false
  | .fnReturn => s.run.pc = .callback fn → s.stopped = true
  | _ => True

inductive Act (ι τ : Type) where
  /-- the teardown thread's next step -/
  | teardown
  | run (a : RunLoop.Act ι τ)

/-- The teardown thread's next action on the loop, and where it is afterwards. -/
def next (td : ι) : StopPc τ → Option (RunLoop.Act ι τ × StopPc τ)
  | .posting (fn :: fns) => some (.push (some td) fn, .pushed fns)
  | .posting [] => some (.store (some td), .stored)
  | .pushed fns => some (.wake (some td), .posting fns)
  | .stored => some (.wake (some td), .done)
  | .done => none

/-- `stopped` after an action of the loop thread or another one. -/
def marks (s : StopRun ι τ) : RunLoop.Act ι τ → Bool
  | .store none => true
  | .call => false
  | _ => s.stopped

section Model

variable [DecidableEq ι] [DecidableEq τ]

instance (td : ι) (fn : τ) (s : StopRun ι τ) :
    (a : RunLoop.Act ι τ) → Decidable (Allows td fn s a)
  | .push t _ | .store t | .wake t => inferInstanceAs (Decidable (t ≠ some td))
  | .enter => inferInstanceAs (Decidable (s.entered = false))
  | .fnReturn => inferInstanceAs (Decidable (s.run.pc = .callback fn → s.stopped = true))
  | .reset | .test | .swap | .call | .enterPoll | .pollReturn _ | .pollError | .event
  | .eventReturn | .endBatch => isTrue trivial

def step (td : ι) (fn : τ) (s : StopRun ι τ) : Act ι τ → Option (StopRun ι τ)
  | .teardown => (next td s.pc).bind fun p =>
      (s.run.step p.1).map fun r => { s with run := r, pc := p.2 }
  | .run a =>
    if Allows td fn s a then
      (s.run.step a).map fun r =>
        { s with run := r, entered := s.entered || enters a, stopped := s.marks a }
    else none

/-- The teardown thread `td` posts `fns`, one of which, `fn`, calls `stop`, and calls `stop`. -/
def machine (td : ι) (fn : τ) (fns : List τ) : Machine (StopRun ι τ) (Act ι τ) where
  Init s := s = start fns
  step := step td fn

end Model

variable {td : ι} {fn : τ} {s s' : StopRun ι τ} {a : Act ι τ}

/-- `run` has not cleared the flag yet. -/
def Unstarted (s : StopRun ι τ) : Prop :=
  s.run.pc = .reset ∨ s.run.pc = .out ∧ s.entered = false

/-- `run` has returned. -/
def Returned (s : StopRun ι τ) : Prop := s.run.pc = .out ∧ s.entered = true

/-- The callback `fn` is executed before the loop thread next goes to `poll`. -/
def Ahead (fn : τ) (q : PostQueue τ) : RunPc τ → Prop
  | .out | .reset | .test | .drain => fn ∈ q.active
  | .callbacks => fn ∈ q.drain
  | .callback fn' => fn' = fn ∨ fn ∈ q.drain
  | .poll | .batch _ | .dispatch _ => False

structure StopInv (fn : τ) (s : StopRun ι τ) : Prop where
  inRun : s.run.pc ≠ .out → s.entered = true
  queued : fn ∉ s.pc.rest → s.Unstarted → fn ∈ s.run.queue.active
  woken : fn ∉ s.pc.rest → s.pc.isPushed = false → s.Unstarted → 0 < s.run.waker
  /-- the flag was erased: the stop callback is ahead -/
  early : s.pc.hasStored = true → s.run.stopRequested = false → ¬ s.Returned →
    0 < s.run.waker ∧ Ahead fn s.run.queue s.run.pc
  /-- the flag was stored after the loop condition was tested -/
  late : s.pc = .done → s.run.stopRequested = true → s.run.pc.tested = true → 0 < s.run.waker
  ran : s.stopped = true → s.run.stopRequested = true ∧ ¬ s.Unstarted

theorem start_stopInv {fns : List τ} (hfn : fn ∈ fns) : StopInv fn (start fns : StopRun ι τ) :=
  ⟨fun h => absurd rfl h, fun h => absurd hfn h, fun h => absurd hfn h, nofun, nofun, nofun⟩

theorem Ahead.mono {q q' : PostQueue τ} {pc : RunPc τ} (h : Ahead fn q pc)
    (ha : ∀ f ∈ q.active, f ∈ q'.active) (hd : q'.drain = q.drain) : Ahead fn q' pc := by
  cases pc with
  | out => exact ha _ h
  | reset => exact ha _ h
  | test => exact ha _ h
  | drain => exact ha _ h
  | callbacks => rw [Ahead, hd]; exact h
  | callback f => rw [Ahead, hd]; exact h
  | poll => exact h
  | batch _ => exact h
  | dispatch _ => exact h

/-- A call of `post` or `stop` by a thread other than the teardown thread. -/
theorem StopInv.called (h : StopInv fn s) {r : RunLoop ι τ} {b : Bool} (hpc : r.pc = s.run.pc)
    (ha : ∀ f ∈ s.run.queue.active, f ∈ r.queue.active) (hd : r.queue.drain = s.run.queue.drain)
    (hw : s.run.waker ≤ r.waker) (hs : s.run.stopRequested = true → r.stopRequested = true)
    (hb : b = true → s.stopped = true ∨ r.stopRequested = true ∧ ¬ s.Unstarted) :
    StopInv fn { s with run := r, stopped := b } := by
  have hun : Unstarted { s with run := r, stopped := b } → s.Unstarted := by
    simp only [Unstarted, hpc]; exact id
  have hret : s.Returned → Returned { s with run := r, stopped := b } := by
    simp only [Returned, hpc]; exact id
  have hclear : r.stopRequested = false → s.run.stopRequested = false := fun hf => by
    cases hs' : s.run.stopRequested with
    | false => rfl
    | true => rw [hs hs'] at hf; cases hf
  refine ⟨?_, fun hr hu => ha _ (h.queued hr (hun hu)),
    fun hr hp hu => Nat.lt_of_lt_of_le (h.woken hr hp (hun hu)) hw, fun hst hf hnr => ?_,
    fun hdone hst ht => ?_, fun hb' => ?_⟩
  · show r.pc ≠ .out → s.entered = true
    rw [hpc]
    exact h.inRun
  · obtain ⟨hpos, hah⟩ := h.early hst (hclear hf) (mt hret hnr)
    exact ⟨Nat.lt_of_lt_of_le hpos hw, by rw [hpc]; exact hah.mono ha hd⟩
  · -- the flag was set before, or the stop callback is ahead and the waker set
    replace ht : s.run.pc.tested = true := hpc ▸ ht
    cases hs' : s.run.stopRequested with
    | true => exact Nat.lt_of_lt_of_le (h.late hdone hs' ht) hw
    | false =>
      have hnr : ¬ s.Returned := fun hr => by rw [hr.1] at ht; cases ht
      exact Nat.lt_of_lt_of_le (h.early (by rw [hdone]; rfl) hs' hnr).1 hw
  · rcases hb hb' with hb' | ⟨hr, hu⟩
    · exact ⟨hs (h.ran hb').1, fun hu => (h.ran hb').2 (hun hu)⟩
    · exact ⟨hr, fun hu' => hu (hun hu')⟩

/-- The loop thread moves on inside `run`, past its first line. -/
theorem StopInv.moved (h : StopInv fn s) {r : RunLoop ι τ} {b : Bool} (hin : s.run.pc ≠ .out)
    (hres : r.pc ≠ .reset) (hs : r.stopRequested = s.run.stopRequested)
    (hb : b = true → s.stopped = true)
    (hearly : s.run.stopRequested = false → 0 < s.run.waker →
      Ahead fn s.run.queue s.run.pc → r.pc ≠ .out → 0 < r.waker ∧ Ahead fn r.queue r.pc)
    (hlate : s.run.stopRequested = true → r.pc.tested = true →
      s.run.pc.tested = true ∧ s.run.waker = r.waker) :
    StopInv fn { s with run := r, stopped := b } := by
  have hent := h.inRun hin
  have hun : ¬ Unstarted { s with run := r, stopped := b } := by
    rintro (e | ⟨-, e⟩)
    · exact hres e
    · cases hent.symm.trans e
  refine ⟨fun _ => hent, fun _ hu => absurd hu hun, fun _ _ hu => absurd hu hun,
    fun hst hf hnr => ?_, fun hdone hst ht => ?_, fun hb' => ⟨hs.trans (h.ran (hb hb')).1, hun⟩⟩
  · obtain ⟨hpos, hah⟩ := h.early hst (hs ▸ hf) fun hr => hin hr.1
    exact hearly (hs ▸ hf) hpos hah fun e => hnr ⟨e, hent⟩
  · obtain ⟨ht', hw⟩ := hlate (hs ▸ hst) ht
    exact hw ▸ h.late hdone (hs ▸ hst) ht'

variable [DecidableEq ι]

/-- A step of the loop thread, or of a thread other than the teardown thread. -/
theorem StopInv.step_run (h : StopInv fn s) {b : RunLoop.Act ι τ} {r : RunLoop ι τ}
    (ha : Allows td fn s b) (he : s.run.step b = some r) :
    StopInv fn { s with run := r, entered := s.entered || enters b, stopped := s.marks b } := by
  have hsame : (s.entered || false) = s.entered := Bool.or_false _
  cases RunLoop.step_view he with
  | push t f hm =>
    simp only [enters, hsame]
    exact h.called rfl (fun _ hf => List.mem_append_left _ hf) rfl (Nat.le_refl _) id .inl
  | store t hm =>
    simp only [enters, hsame]
    refine h.called rfl (fun _ hf => hf) rfl (Nat.le_refl _) (fun _ => rfl) fun hb => ?_
    cases t with
    | some i => exact .inl hb
    | none =>
      refine .inr ⟨rfl, ?_⟩
      have hc := hm.2 rfl
      rintro (e | ⟨e, -⟩) <;> rw [e] at hc <;> cases hc
  | wake t ho =>
    simp only [enters, hsame]
    exact h.called rfl (fun _ hf => hf) rfl (Nat.le_succ _) id .inl
  | enter hp =>
    have hun : s.Unstarted := .inr ⟨hp, ha⟩
    refine ⟨fun _ => Bool.or_true _, fun hr _ => h.queued hr hun,
      fun hr hps _ => h.woken hr hps hun, fun hst hf _ => ?_, nofun, fun hb => ?_⟩
    · have hah := h.early hst hf fun hr => by cases hr.2.symm.trans ha
      rw [hp] at hah
      exact hah
    · exact absurd hun (h.ran hb).2
  | reset hp =>
    have hun : s.Unstarted := .inl hp
    have hstart : s.pc.hasStored = true → fn ∉ s.pc.rest ∧ s.pc.isPushed = false := by
      cases s.pc with
      | posting _ => exact nofun
      | pushed _ => exact nofun
      | stored => exact fun _ => ⟨List.not_mem_nil, rfl⟩
      | done => exact fun _ => ⟨List.not_mem_nil, rfl⟩
    have hnot {s' : StopRun ι τ} (e : s'.run.pc = .test) : ¬ s'.Unstarted := by
      rintro (e' | ⟨e', -⟩) <;> rw [e] at e' <;> cases e'
    simp only [enters, hsame]
    refine ⟨fun _ => h.inRun (by rw [hp]; rintro ⟨⟩), fun _ hu => absurd hu (hnot rfl),
      fun _ _ hu => absurd hu (hnot rfl), fun hst _ _ => ?_, nofun,
      fun hb => absurd hun (h.ran hb).2⟩
    obtain ⟨hr, hps⟩ := hstart hst
    exact ⟨h.woken hr hps hun, h.queued hr hun⟩
  | exit hp hs =>
    simp only [enters, hsame]
    exact h.moved (by rw [hp]; rintro ⟨⟩) nofun rfl id (fun _ _ _ hne => absurd rfl hne) nofun
  | iterate hp hs =>
    simp only [enters, hsame]
    refine h.moved (by rw [hp]; rintro ⟨⟩) nofun rfl id (fun _ hpos hah _ => ⟨hpos, ?_⟩)
      fun hst => ?_
    · rw [hp] at hah; exact hah
    · cases hs.symm.trans hst
  | swap q hp hq =>
    simp only [enters, hsame]
    obtain ⟨-, -, -, hd⟩ := PostQueue.swap_cases hq
    refine h.moved (by rw [hp]; rintro ⟨⟩) nofun rfl id (fun _ hpos hah _ => ⟨hpos, ?_⟩)
      fun _ _ => ⟨by rw [hp]; rfl, rfl⟩
    rw [hp] at hah
    rw [Ahead, hd]
    exact hah
  | call f q hp hq =>
    simp only [enters, hsame]
    obtain ⟨-, -, -, hd⟩ := PostQueue.next_cases hq
    refine h.moved (by rw [hp]; rintro ⟨⟩) nofun rfl nofun (fun _ hpos hah _ => ⟨hpos, ?_⟩)
      fun _ _ => ⟨by rw [hp]; rfl, rfl⟩
    rw [hp, Ahead, hd, List.mem_cons] at hah
    exact hah.imp_left Eq.symm
  | fnReturn f hp ho =>
    simp only [enters, hsame]
    refine h.moved (by rw [hp]; rintro ⟨⟩) nofun rfl id (fun hf hpos hah _ => ⟨hpos, ?_⟩)
      fun _ _ => ⟨by rw [hp]; rfl, rfl⟩
    rw [hp] at hah
    refine hah.resolve_left fun e => ?_
    -- the stop callback has called `stop`
    have := (h.ran (ha (by rw [hp, e]))).1
    cases hf.symm.trans this
  | enterPoll q hp hq =>
    simp only [enters, hsame]
    obtain ⟨-, -, -, hd, -⟩ := PostQueue.enterPoll_cases hq
    refine h.moved (by rw [hp]; rintro ⟨⟩) nofun rfl id (fun _ _ hah _ => ?_)
      fun _ _ => ⟨by rw [hp]; rfl, rfl⟩
    rw [hp, Ahead, hd] at hah
    cases hah
  | pollReturn events hp hw | pollError hp | drainWaker events hp | dispatch events hp
  | eventReturn events hp ho | endBatch hp =>
    simp only [enters, hsame]
    refine h.moved (by rw [hp]; rintro ⟨⟩) (by rintro ⟨⟩) rfl id (fun _ _ hah => ?_)
      (by rintro _ ⟨⟩)
    rw [hp] at hah
    cases hah

/-- The teardown thread's next step. -/
theorem StopInv.step_teardown (h : StopInv fn s) {b : RunLoop.Act ι τ} {pc : StopPc τ}
    {r : RunLoop ι τ} (hn : next td s.pc = some (b, pc)) (he : s.run.step b = some r) :
    StopInv fn { s with run := r, pc := pc } := by
  cases hpc : s.pc with
  | posting fns =>
    cases fns with
    | nil =>
      rw [hpc] at hn
      cases hn
      cases RunLoop.step_view he with
      | store t hm =>
        have hr : fn ∉ s.pc.rest := by rw [hpc]; exact List.not_mem_nil
        have hps : s.pc.isPushed = false := by rw [hpc]; rfl
        exact ⟨h.inRun, fun _ => h.queued hr, fun _ _ => h.woken hr hps, nofun, nofun,
          fun hb => ⟨rfl, (h.ran hb).2⟩⟩
    | cons f fns =>
      rw [hpc] at hn
      cases hn
      cases RunLoop.step_view he with
      | push t f hm =>
        refine ⟨h.inRun, fun hr hu => ?_, nofun, nofun, nofun, h.ran⟩
        by_cases hf : fn = f
        · rw [hf]; exact List.mem_append_right _ (List.mem_singleton.2 rfl)
        · refine List.mem_append_left _ (h.queued ?_ hu)
          rw [hpc]
          exact fun hm => (List.mem_cons.1 hm).elim hf hr
  | pushed fns =>
    rw [hpc] at hn
    cases hn
    cases RunLoop.step_view he with
    | wake t ho =>
      refine ⟨h.inRun, fun hr => h.queued (by rw [hpc]; exact hr), fun _ _ _ => Nat.succ_pos _,
        nofun, nofun, h.ran⟩
  | stored =>
    rw [hpc] at hn
    cases hn
    cases RunLoop.step_view he with
    | wake t ho =>
      have hst : s.pc.hasStored = true := by rw [hpc]; rfl
      refine ⟨h.inRun, fun _ => h.queued (by rw [hpc]; exact List.not_mem_nil),
        fun _ _ _ => Nat.succ_pos _, fun _ hf hnr => ⟨Nat.succ_pos _, (h.early hst hf hnr).2⟩,
        fun _ _ _ => Nat.succ_pos _, h.ran⟩
  | done => rw [hpc] at hn; cases hn

variable [DecidableEq τ]

theorem reach_stopInv {fns : List τ} (hfn : fn ∈ fns) (h : (machine td fn fns).Reach s) :
    StopInv fn s := by
  refine h.inv (fun s hs => by rw [hs]; exact start_stopInv hfn) fun s a s' _ hi _ he => ?_
  cases a with
  | teardown =>
    obtain ⟨⟨b, pc⟩, hn, he⟩ := Option.bind_eq_some_iff.1 he
    obtain ⟨r, hr, rfl⟩ := Option.map_eq_some_iff.1 he
    exact hi.step_teardown hn hr
  | run b =>
    simp only [machine, step] at he
    split at he
    · rename_i ha
      obtain ⟨r, hr, rfl⟩ := Option.map_eq_some_iff.1 he
      exact hi.step_run ha hr
    · cases he

/-- **Stop is never lost at teardown.** Once the teardown thread has posted its
callbacks, among them `fn`, which calls `stop`, and has called `stop` itself, the
loop thread is not asleep in `poll` with the waker at zero; and at the loop
condition, with the wakes consumed or the stop callback no longer pending, the
flag is set. -/
theorem stop_not_lost {fns : List τ} (hfn : fn ∈ fns) (h : (machine td fn fns).Reach s)
    (hd : s.pc = .done) :
    ¬ (s.run.pc = .poll ∧ s.run.waker = 0) ∧
    (s.run.pc = .test → s.run.waker = 0 ∨ fn ∉ s.run.queue.pending →
      s.run.stopRequested = true) := by
  have hi := reach_stopInv hfn h
  have hst : s.pc.hasStored = true := by rw [hd]; rfl
  refine ⟨fun hp => ?_, fun hp hc => ?_⟩
  · cases hs : s.run.stopRequested with
    | true =>
      have := hi.late hd hs (by rw [hp.1]; rfl)
      omega
    | false =>
      have hah := (hi.early hst hs fun hr => by cases hp.1.symm.trans hr.1).2
      rw [hp.1] at hah
      exact hah
  · cases hs : s.run.stopRequested with
    | true => rfl
    | false =>
      obtain ⟨hpos, hah⟩ := hi.early hst hs fun hr => by cases hp.symm.trans hr.1
      rw [hp] at hah
      rcases hc with hw | hn
      · omega
      · exact absurd (List.mem_append_right _ hah) hn

/-- `run` clears the flag after the direct `stop`: at the loop condition the flag
is clear, and after one iteration it is set. -/
theorem stop_not_lost_reset :
    ∃ s : StopRun Unit Nat, (machine () 7 [7]).Reach s ∧
      (s.pc = .done ∧ s.run.pc = .test ∧ s.run.waker = 0 ∧ s.run.queue.pending = []) ∧
      s.run.stopRequested = true := by
  obtain ⟨s, h, hp⟩ := Machine.Reach.of_run_init (M := machine (ι := Unit) () 7 [7])
    (fun s => decide (s.pc = .done ∧ s.run.pc = .test ∧ s.run.waker = 0 ∧
      s.run.queue.pending = []))
    [.run .enter, .teardown, .teardown, .teardown, .teardown, .run .reset, .run .test, .run .swap,
      .run .call, .run (.store none), .run (.wake none), .run .fnReturn, .run .enterPoll,
      .run (.pollReturn [true]), .run .event, .run .endBatch]
    rfl (by decide)
  have hq := of_decide_eq_true hp
  exact ⟨s, h, hq, (stop_not_lost (List.mem_singleton.2 rfl) h hq.1).2 hq.2.1 (.inl hq.2.2.1)⟩

end StopRun

end Socketpp
