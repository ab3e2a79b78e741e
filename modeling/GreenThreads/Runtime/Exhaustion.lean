import GreenThreads.Runtime.Dispatch

/-!
# GreenThreads — when blocked fibers hold all workers

A fiber that blocks keeps its worker. The deadlock detector therefore counts a runtime as stuck
when it finds as many blocked fibers as there are workers, although other fibers are ready. Here is
why it may: when that many fibers are blocked at one moment, they are the ones that hold the
workers, and nothing is dispatched until one of their functions moves on (`slots_exhausted_stuck`).

It may not after a `Stop` has given up waiting: the fibers it leaves behind hold workers of an
earlier run, and those of a new run are free.
-/

namespace GreenThreads.Runtime

open Trans

namespace State

variable {c : Config} {s s' : State} {l : Label} {f : FiberID}

/-- The fibers that are blocked, of those in `rt.fibers`. -/
def blockedFibers (s : State) : Finset FiberID :=
  (Finset.range s.calls).filter fun f =>
    Key.spawned f ∈ s.fibers ∧ (s.threads f).fiber.state = .blocked

/-- A goroutine that has not ended. -/
def live (s : State) (f : FiberID) : Prop :=
  (s.threads f).go ≠ .absent ∧ (s.threads f).go ≠ .ended

/-- Only fibers of the current run have goroutines, and none when there is no run. -/
structure Joined (s : State) : Prop where
  run : ∀ f, s.live f → (s.threads f).run = s.epoch
  none : s.stopped = true → ∀ f, ¬s.live f

/-- A goroutine is there before a step, or the loop launches it. -/
theorem live_step (h : step c s l = some s') (hf : s'.live f) :
    s.live f ∧ (s'.threads f).run = (s.threads f).run
      ∨ l = .loop .next ∧ s.loop.pc = .launching f ∧ (s'.threads f).run = s.epoch := by
  unfold live at hf ⊢
  cases step_moves h f with
  | rest ht | call _ ht | spawn _ _ ht | mark _ ht =>
    rw [ht] at hf ⊢
    exact .inl ⟨hf, rfl⟩
  | launch hpc ht => exact .inr ⟨rfl, hpc, by rw [ht]⟩
  | body _ hgo ht => exact .inl ⟨by simp [hgo], by rw [ht]⟩
  | go hl ht =>
    refine .inl ⟨?_, by rw [ht]⟩
    rcases hl with ⟨drop, rfl⟩ | rfl | rfl
    · exact (goStep_flow h).before
    · cases step_effect h with | discard hsend => simp [hsend]
    · cases step_effect h with | goexit hbody => simp [hbody]

/-- A run comes to its end when `Stop` has seen all its goroutines end. -/
theorem lifecycleStep_stopped (h : s.lifecycleStep c = some s')
    (hstart : s.lifecycle ≠ .startRun) :
    s'.stopped = s.stopped ∨ s.fiberWG s.epoch = 0 := by
  cases lifecycleStep_effect h with
  | startRun hl => exact absurd hl hstart
  | join _ hzero => exact .inr hzero
  | _ => exact .inl rfl

end State

theorem Shared.Ok.looping_of_stopped {r : Shared} (h : r.Ok) (hstop : r.stopped = true) :
    r.looping = false := by
  unfold Shared.Ok Shared.Up Shared.Down at h
  split at h <;> simp_all

namespace State.Joined

variable {c : Config} {s s' : State} {l : Label}

/-- Steps that neither begin nor end a run. -/
theorem of_same (hs : s.Sound c) (hj : s.Joined) (h : step c s l = some s')
    (hepoch : s'.epoch = s.epoch) (hstop : s'.stopped = s.stopped) : s'.Joined := by
  constructor
  · intro f hf
    rw [hepoch]
    rcases live_step h hf with ⟨hlive, hrun⟩ | ⟨-, -, hrun⟩
    · exact hrun.trans (hj.run f hlive)
    · exact hrun
  · intro hstopped f hf
    rw [hstop] at hstopped
    rcases live_step h hf with ⟨hlive, -⟩ | ⟨-, hpc, -⟩
    · exact hj.none hstopped f hlive
    · -- the loop is gone when there is no run
      have hlooping := (hs.life f).shared.looping_of_stopped hstopped
      simp [State.life, State.shared, hpc] at hlooping

theorem step (hs : s.Sound c) (hj : s.Joined) (hl : l ≠ .deadline) (h : step c s l = some s') :
    s'.Joined := by
  cases step_turn h with
  | call ht | begin _ _ ht | cancelCtx ht =>
    subst ht
    exact hj.of_same hs h rfl rfl
  | work hwork =>
    have hrun := (step_frame h hwork).run
    exact hj.of_same hs h hrun.1 hrun.2.2.2
  | deadline => exact absurd rfl hl
  | lifecycle hst =>
    have hthreads := lifecycleStep_threads hst
    have hnone : (∀ f, ¬s.live f) → s'.Joined := by
      intro hnone
      have hnone' : ∀ f, ¬s'.live f := by
        intro f
        rw [live, hthreads]
        exact hnone f
      exact ⟨fun f hf => absurd hf (hnone' f), fun _ => hnone'⟩
    by_cases hstart : s.lifecycle = .startRun
    · have hok := (hs.life 0).shared
      simp only [Shared.Ok, State.life, State.shared, hstart] at hok
      exact hnone (hj.none hok.1.1)
    · rcases lifecycleStep_stopped hst hstart with hstop | hzero
      · exact hj.of_same hs h (lifecycleStep_same hst hstart).1 hstop
      · refine hnone fun f hf => ?_
        have hmem : f ∈ s.inFlight s.epoch := hs.mem_inFlight.mpr ⟨hj.run f hf, hf⟩
        rw [fiberWG_eq_card, Finset.card_eq_zero] at hzero
        rw [hzero] at hmem
        cases hmem

end State.Joined

/-! ## The worker slots -/

/-- The steps of neither the fiber functions in flight nor a deadline. -/
def Label.isBystander : Label → Bool
  | .go _ _ | .goexit _ | .unblock _ | .deadline => false
  | _ => true

namespace State

variable {c : Config} {s s' : State} {l : Label} {f : FiberID}

/-- Blocked is only a fiber whose function has been called and has not returned. -/
theorem go_of_blocked (hs : s.Sound c) (h : (s.threads f).fiber.state = .blocked) :
    (s.threads f).go = .body := by
  have hfiber : (s.life f).FiberOk := (hs.life f).fiber
  have hstate : (s.life f).fiber.state = .blocked := h
  unfold Life.FiberOk at hfiber
  cases hgo : (s.life f).go with
  | body => exact hgo
  | _ =>
    simp only [hgo, hstate] at hfiber
    simp at hfiber

theorem blockedFibers_subset (hs : s.Sound c) (hj : s.Joined) :
    s.blockedFibers ⊆ s.inFlight s.epoch := by
  intro f hf
  obtain ⟨-, -, hblocked⟩ := Finset.mem_filter.mp hf
  have hlive : s.live f := by simp [live, go_of_blocked hs hblocked]
  exact hs.mem_inFlight.mpr ⟨hj.run f hlive, hlive⟩

/-- All workers are held by fibers that are inside their function, and the loop knows. -/
structure Exhausted (c : Config) (s : State) : Prop where
  sound : s.Sound c
  stopped : s.stopped = false
  active : s.loop.active = c.numWorkers
  results : s.results s.epoch = 0
  pc : s.loop.pc = .select ∨ s.loop.pc = .inner ∨ s.loop.pc = .drain ∨ s.loop.pc = .exited
  flight : (s.inFlight s.epoch).Nonempty
  body : ∀ f, s.live f → (s.threads f).go = .body

theorem Exhausted.loopStep {choice : LoopChoice} (hx : s.Exhausted c)
    (h : s.loopStep c choice = some s') :
    s'.loop.active = s.loop.active ∧ s'.results = s.results ∧ s'.threads = s.threads
      ∧ (s'.loop.pc = .select ∨ s'.loop.pc = .inner ∨ s'.loop.pc = .drain
        ∨ s'.loop.pc = .exited) := by
  cases loopStep_effect h with
  | done | tick | drained | rest => exact ⟨rfl, rfl, rfl, by simp [setLoop]⟩
  | receive _ hpos =>
    rw [hx.results] at hpos
    cases hpos
  | look _ hfree =>
    rw [hx.active] at hfree
    exact absurd hfree.1 (lt_irrefl _)
  | lookEmpty hpc | take hpc | noFibers hpc | test hpc | drop hpc | mark hpc | launch hpc =>
    have hnot := hx.pc
    rw [hpc] at hnot
    simp at hnot

/-- The run, the workers and the goroutines are as before. -/
structure SameSlots (s s' : State) : Prop where
  epoch : s'.epoch = s.epoch
  stopped : s'.stopped = s.stopped
  active : s'.loop.active = s.loop.active
  results : s'.results = s.results
  go : ∀ f, (s'.threads f).go = (s.threads f).go
  run : ∀ f, (s'.threads f).run = (s.threads f).run

theorem Exhausted.of_sameSlots (hx : s.Exhausted c) (hs' : s'.Sound c) (hq : s.SameSlots s')
    (hpc : s'.loop.pc = .select ∨ s'.loop.pc = .inner ∨ s'.loop.pc = .drain
      ∨ s'.loop.pc = .exited) : s'.Exhausted c where
  sound := hs'
  stopped := hq.stopped.trans hx.stopped
  active := hq.active.trans hx.active
  results := by
    rw [hq.results, hq.epoch]
    exact hx.results
  pc := hpc
  flight := by
    rw [hq.epoch, hx.sound.inFlight_eq hs' hq.go hq.run]
    exact hx.flight
  body f hf := by
    rw [hq.go]
    rw [live, hq.go] at hf
    exact hx.body f hf

/-- The steps aside leave the run alone. -/
theorem step_aside_stopped (h : step c s l = some s') (hl : l.isAside = true)
    (hdeadline : l ≠ .deadline) : s'.stopped = s.stopped := by
  cases step_turn h with
  | call ht | begin _ _ ht | cancelCtx ht =>
    subst ht
    rfl
  | work hwork => exact (step_frame h hwork).run.2.2.2
  | lifecycle => cases hl
  | deadline => exact absurd rfl hdeadline

/-- In the middle of a run no step of `Start`, `Stop` or `Reset` ends it: goroutines are in
flight. -/
theorem Exhausted.lifecycleStep (hx : s.Exhausted c) (h : s.lifecycleStep c = some s') :
    s.SameSlots s' ∧ s'.loop = s.loop := by
  have hstart : s.lifecycle ≠ .startRun := by
    intro hstart
    have hok := (hx.sound.life 0).shared
    simp only [Shared.Ok, State.life, State.shared, hstart] at hok
    rw [hx.stopped] at hok
    cases hok.1.1
  obtain ⟨hepoch, -, hloop, hres⟩ := lifecycleStep_same h hstart
  have hthreads := lifecycleStep_threads h
  refine ⟨⟨hepoch, ?_, by rw [hloop], hres, fun f => by rw [hthreads], fun f => by rw [hthreads]⟩,
    hloop⟩
  refine (lifecycleStep_stopped h hstart).resolve_right fun hzero => ?_
  rw [fiberWG_eq_card, Finset.card_eq_zero] at hzero
  exact hx.flight.ne_empty hzero

/-- Nobody but the blocked functions moves a goroutine or frees a worker. -/
theorem Exhausted.step (hx : s.Exhausted c) (hl : l.isBystander = true)
    (h : step c s l = some s') : s'.Exhausted c ∧ s.SameSlots s' := by
  have hs' := hx.sound.step h
  by_cases haside : l.isAside = true
  · obtain ⟨hepoch, -, hloop, hres⟩ := step_aside h haside
    have hstop := step_aside_stopped h haside (by rintro rfl; cases hl)
    have hgo := step_aside_go h haside
    have hq : s.SameSlots s' :=
      ⟨hepoch, hstop, by rw [hloop], hres, fun f => (hgo f).1, fun f => (hgo f).2⟩
    exact ⟨hx.of_sameSlots hs' hq (hloop ▸ hx.pc), hq⟩
  · cases l with
    | loop choice =>
      obtain ⟨hactive, hres, hthreads, hpc⟩ := hx.loopStep h
      have hrun := (loopStep_frame h).1.run
      have hq : s.SameSlots s' := ⟨hrun.1, hrun.2.2.2, hactive, hres, fun f => by rw [hthreads],
        fun f => by rw [hthreads]⟩
      exact ⟨hx.of_sameSlots hs' hq hpc, hq⟩
    | discard g =>
      -- a goroutine at its send has left its function
      cases step_effect h with | discard hsend =>
      have hbody := hx.body g (by simp [live, hsend])
      rw [hsend] at hbody
      cases hbody
    | lifecycle =>
      obtain ⟨hq, hloop⟩ := hx.lifecycleStep h
      exact ⟨hx.of_sameSlots hs' hq (hloop ▸ hx.pc), hq⟩
    | go | goexit => cases hl
    | _ => exact absurd rfl haside

end State

section

variable {c : Config} {s₀ s : State}

theorem joined_of_reach (h₀ : Initial c s₀)
    (h : Reach (step c) (fun _ l => l.isGoexit = false ∧ l ≠ .deadline) s₀ s) : s.Joined := by
  refine sound_invariant h₀.sound ⟨fun f hf => ?_, fun _ f hf => ?_⟩
    (fun _ _ _ hs hj hok hst => hj.step hs hok.2 hst) h
  all_goals
    have hgo : (s₀.threads f).go = .absent := congrArg Life.go (h₀.life f)
    exact absurd hgo hf.1

/-- As many blocked fibers as there are workers: they are all there is in flight. -/
theorem exhausted_of_blocked (h₀ : Initial c s₀)
    (h : Reach (step c) (fun _ l => l.isGoexit = false ∧ l ≠ .deadline) s₀ s)
    (hrun : s.isRunning = true) (hctx : s.done s.epoch = false) (hpos : 0 < c.numWorkers)
    (hslots : c.numWorkers ≤ s.blockedFibers.card) :
    s.Exhausted c ∧ s.inFlight s.epoch = s.blockedFibers
      ∧ s.blockedFibers.card = c.numWorkers := by
  have hs := sound_of_reach h₀ h
  have hj := joined_of_reach h₀ h
  have hflows := leaks_of_reach h₀ (h.mono fun _ _ hok => hok.1)
  have hsub := State.blockedFibers_subset hs hj
  have hcard := Finset.card_le_card hsub
  have hactive := hflows.active hctx
  have hwithin := hflows.within.le
  rw [State.fiberWG_eq_card] at hactive
  have heq : s.blockedFibers = s.inFlight s.epoch := Finset.eq_of_subset_of_card_le hsub (by omega)
  refine ⟨?_, heq.symm, by omega⟩
  refine ⟨hs, ((State.isRunning_iff s).mp hrun).2, by omega, by omega, ?_, ?_, fun f hf => ?_⟩
  · -- with all workers taken the loop is not about to dispatch
    have hfull := hflows.within
    unfold State.Within at hfull
    split at hfull <;> first | omega | skip
    cases hpc : s.loop.pc <;> simp_all
  · rw [← heq]
    exact Finset.card_pos.mp (by omega)
  · have hmem : f ∈ s.blockedFibers := heq ▸ hs.mem_inFlight.mpr ⟨hj.run f hf, hf⟩
    exact State.go_of_blocked hs (Finset.mem_filter.mp hmem).2.2

/-- When in a run that is going, and whose context is not cancelled, at least as many fibers are
blocked as there are workers: these fibers are the ones that hold the workers, each inside its
function, and no result is on its way. From then on nothing is dispatched, whatever the `Spawn`
calls, the loop, `Start`, `Stop`, `Reset` and a cancelled context do, until one of the functions
moves on or the deadline of a `Stop` passes. -/
theorem slots_exhausted_stuck (h₀ : Initial c s₀)
    (h : Reach (step c) (fun _ l => l.isGoexit = false ∧ l ≠ .deadline) s₀ s)
    (hrun : s.isRunning = true) (hctx : s.done s.epoch = false) (hpos : 0 < c.numWorkers)
    (hslots : c.numWorkers ≤ s.blockedFibers.card) :
    s.inFlight s.epoch = s.blockedFibers ∧ s.blockedFibers.card = c.numWorkers
      ∧ (∀ f ∈ s.blockedFibers, (s.threads f).go = .body) ∧ s.results s.epoch = 0
      ∧ ∀ s', Reach (step c) (fun _ l => l.isBystander = true) s s' →
        ∀ f, (s'.threads f).go = (s.threads f).go := by
  obtain ⟨hx, hflight, hcard⟩ := exhausted_of_blocked h₀ h hrun hctx hpos hslots
  refine ⟨hflight, hcard, fun f hf => State.go_of_blocked hx.sound (Finset.mem_filter.mp hf).2.2,
    hx.results, fun s' hreach => ?_⟩
  have hinv : s'.Exhausted c ∧ ∀ f, (s'.threads f).go = (s.threads f).go := by
    refine hreach.invariant
      (P := fun t => t.Exhausted c ∧ ∀ f, (t.threads f).go = (s.threads f).go) ⟨hx, fun _ => rfl⟩ ?_
    rintro t l t' ⟨hx, hgo⟩ hl hst
    obtain ⟨hx', hq⟩ := hx.step hl hst
    exact ⟨hx', fun f => (hq.go f).trans (hgo f)⟩
  exact hinv.2

end

/-- One worker, held by fiber 0, which is blocked; fiber 1 is ready. -/
theorem slots_exhausted_stuck_one :
    ∃ s, Reach (step (.ofNewRuntime .fifo 1)) (fun _ l => l.isGoexit = false ∧ l ≠ .deadline)
        (.new (.ofNewRuntime .fifo 1)) s
      ∧ s.blockedFibers = {0} ∧ (s.threads 1).fiber.state = .ready
      ∧ ⟨0, 1⟩ ∈ s.sched.queue
      ∧ ∀ s', Reach (step (.ofNewRuntime .fifo 1)) (fun _ l => l.isBystander = true) s s' →
        ∀ f, (s'.threads f).go = (s.threads f).go := by
  obtain ⟨s, hs, htest⟩ := exists_reach_of_exec_guarded (step (.ofNewRuntime .fifo 1))
    (fun _ l => l.isGoexit = false ∧ l ≠ .deadline) (.new (.ofNewRuntime .fifo 1))
    (List.flatten [Label.startTrace, List.replicate 2 (.call false 0), Label.spawnTrace 0 9,
      Label.spawnTrace 1 9, Label.dispatchTrace 0, [.block 0]])
    (fun s => decide (s.blockedFibers = {0} ∧ (s.threads 1).fiber.state = .ready
      ∧ ⟨0, 1⟩ ∈ s.sched.queue ∧ s.isRunning = true ∧ s.done s.epoch = false))
    (by decide +kernel)
  obtain ⟨hblocked, hready, hqueued, hrun, hctx⟩ := of_decide_eq_true htest
  exact ⟨s, hs, hblocked, hready, hqueued,
    (slots_exhausted_stuck (.inl rfl) hs hrun hctx (by decide) (by rw [hblocked]; decide)).2.2.2.2⟩

end GreenThreads.Runtime
