import GreenThreads.Runtime.Gauge
import GreenThreads.Runtime.Isolation

/-!
# GreenThreads — a run whose context is cancelled

`StartWithContext` derives the context of the run from the caller's. When that is cancelled the
execution loop returns, and that is all: what else a `Stop` does (`stopped` is closed, the
scheduler is stopped and cleared, what is pending is reaped) is done by `Stop` alone. So a run
that is over because its context was cancelled still counts as running, keeps its queue, and the
next `Start` is refused.

Where the loop returns only while a `Stop` waits for it, a runtime in which nothing is going on
any more has been stopped, whatever cancelled its run.
-/

namespace GreenThreads.Runtime

open Trans

/-! ## The loop and the `Stop` that waits for it -/

/-- A `Stop` has cancelled the run and waits, or is about to wait, for the loop to return. -/
def Lifecycle.awaitsLoop : Lifecycle → Bool
  | stopSched | stopJoin _ => true
  | _ => false

/-- The execution loop returns only while a `Stop` of its run waits for it. -/
def StopsFirst (s : State) (l : Label) : Prop :=
  l = .loop .next → s.loop.pc = .drain → s.lifecycle.awaitsLoop = true

instance (s : State) (l : Label) : Decidable (StopsFirst s l) :=
  inferInstanceAs (Decidable (_ → _))

namespace State

variable {c : Config} {s s' : State} {l : Label}

/-- The loop returns after it has drained the results. -/
theorem loopStep_exited {choice : LoopChoice} (h : s.loopStep c choice = some s')
    (hexit : s'.loop.pc = .exited) : choice = .next ∧ s.loop.pc = .drain := by
  cases loopStep_effect h with
  | drained hpc => exact ⟨rfl, hpc⟩
  | receive hpc =>
    have hsame : s.loop.pc = .exited := hexit
    rcases hpc with hpc | hpc <;> cases hsame.symm.trans hpc
  | lookEmpty hpc => cases (show s.loop.pc = .exited from hexit).symm.trans hpc
  | done | tick | look | rest | take | noFibers | test | drop | mark | launch => cases hexit

/-- While a run is up and no `Stop` has cancelled it, its loop is there. -/
def Attended (s : State) : Prop :=
  match s.lifecycle with
  | .idle _ | .stopCancel => s.stopped = false → s.loop.pc ≠ .exited
  | _ => True

namespace Attended

theorem of_frame (hs : s.Attended) (h : s.Frame s')
    (hloop : s'.loop.pc = .exited → s.loop.pc = .exited ∨ s.lifecycle.awaitsLoop = true) :
    s'.Attended := by
  unfold Attended at hs ⊢
  rw [h.lifecycle, h.run.2.2.2]
  split <;> rename_i hl <;> simp only [hl] at hs hloop
  · exact fun hstop hexit => hs hstop ((hloop hexit).resolve_right nofun)
  · exact fun hstop hexit => hs hstop ((hloop hexit).resolve_right nofun)
  · trivial

theorem lifecycleStep (hok : s.shared.Ok) (h : s.lifecycleStep c = some s') : s'.Attended := by
  cases lifecycleStep_effect h with
  | startFailed hl | resetMetrics hl =>
    -- there is no run
    simp only [Shared.Ok, State.shared, hl] at hok
    intro hstop
    cases hok.1.symm.trans hstop
  | startRun =>
    -- `Start` returns with a new loop
    intro _ hexit
    cases hexit
  | join =>
    intro hstop
    cases hstop
  | @clearAtOnce why | @clearBase why => cases why <;> trivial
  | _ => trivial

theorem step (hok : s.shared.Ok) (hs : s.Attended) (hl : StopsFirst s l)
    (h : step c s l = some s') : s'.Attended := by
  cases step_turn h with
  | call ht | cancelCtx ht =>
    subst ht
    exact hs
  | work hwork =>
    refine hs.of_frame (step_frame h hwork) fun hexit => ?_
    rcases (step_work h hwork).2.2 with heq | ⟨choice, rfl⟩
    · rw [heq] at hexit
      exact .inl hexit
    · obtain ⟨rfl, hdrain⟩ := loopStep_exited h hexit
      exact .inr (hl rfl hdrain)
  | begin hidle hnext ht =>
    subst ht
    simp only [Attended, hidle] at hs
    rcases hnext with ⟨-, rfl⟩ | ⟨-, rfl⟩ | ⟨-, rfl⟩ | ⟨r, rfl⟩
    · trivial
    · exact hs
    · trivial
    · exact hs
  | lifecycle h => exact lifecycleStep hok h
  | deadline _ ht =>
    subst ht
    intro hstop
    cases hstop

end Attended

/-! ## The scheduler between two runs -/

/-- The scheduler is not running once a `Stop` has stopped it, until the next `Start`. -/
def SchedDown (s : State) : Prop :=
  match s.lifecycle with
  | .startFibers | .startRun | .stopCancel | .stopSched => True
  | .idle _ | .startSched | .resetMain | .resetFibers =>
    s.stopped = true → s.sched.base.running = false
  | _ => s.sched.base.running = false

namespace SchedDown

theorem of_frame (hs : s.SchedDown) (h : s.Frame s')
    (hrun : s'.sched.base.running = s.sched.base.running) : s'.SchedDown := by
  unfold SchedDown at hs ⊢
  rw [h.lifecycle, h.run.2.2.2, hrun]
  exact hs

theorem stop_running (b : Scheduler.BaseScheduler) : b.stop.1.running = false := by
  unfold Scheduler.BaseScheduler.stop
  cases hrun : b.running <;> simp [hrun]

theorem lifecycleStep (hok : s.shared.Ok) (hs : s.SchedDown) (h : s.lifecycleStep c = some s') :
    s'.SchedDown := by
  cases lifecycleStep_effect h with
  | startSched | startFibers | stopCancel => trivial
  | startRun =>
    intro hstop
    cases hstop
  | stopSched => exact stop_running _ -- the one step that stops the scheduler
  | resetFibers hl =>
    -- `Reset` is allowed between two runs only
    simp only [Shared.Ok, State.shared, hl] at hok
    simp only [SchedDown, hl] at hs
    exact hs hok.1
  | startFailed hl | stopJoin hl | clearWorker hl | reapScan hl | reaped hl | reapUndo hl
  | reapRecord hl | resetMain hl =>
    simp only [SchedDown, hl] at hs
    exact hs
  | @clearAtOnce why _ hl | @clearBase why _ hl =>
    simp only [SchedDown, hl] at hs
    cases why <;> exact hs
  | join hl | resetMetrics hl =>
    simp only [SchedDown, hl] at hs
    exact fun _ => hs

theorem step (hok : s.shared.Ok) (hs : s.SchedDown) (h : step c s l = some s') :
    s'.SchedDown := by
  cases step_turn h with
  | call ht | cancelCtx ht =>
    subst ht
    exact hs
  | work hl => exact hs.of_frame (step_frame h hl) (step_work h hl).2.1
  | begin hidle hnext ht =>
    subst ht
    simp only [SchedDown, hidle] at hs
    rcases hnext with ⟨-, rfl⟩ | ⟨-, rfl⟩ | ⟨-, rfl⟩ | ⟨r, rfl⟩
    · exact hs
    · trivial
    · exact hs
    · exact hs
  | lifecycle h => exact lifecycleStep hok hs h
  | deadline hjoin ht =>
    subst ht
    simp only [SchedDown, hjoin] at hs
    exact fun _ => hs

end SchedDown

/-- A `Start` of a runtime that is not running succeeds. -/
theorem start_succeeds (hs : s.SchedDown) {last : Option (Except LifecycleError Unit)}
    (hidle : s.lifecycle = .idle last) (hstop : s.stopped = true) :
    ∃ s', exec (step c) s Label.startTrace = some s' ∧ s'.isRunning = true
      ∧ s'.epoch = s.epoch + 1 ∧ s'.lifecycle = .idle (some (.ok ())) := by
  simp only [SchedDown, hidle] at hs
  have hrun : s.isRunning = false := by simp [isRunning, hstop]
  have hbegin : step c s .start = some { s with lifecycle := .startSched } := by
    simp [step, begin, hidle, hrun]
  have hstart : s.sched.base.start
      = ({ s.sched.base with running := true, stopped := false }, none) := by
    simp [Scheduler.BaseScheduler.start, hs hstop]
  simp only [Label.startTrace, List.replicate, exec, hbegin, Option.bind_some]
  simp only [step, lifecycleStep, hstart, Option.bind_some]
  exact ⟨_, rfl, by simp [isRunning], rfl, rfl⟩

end State

/-! ## Nothing is going on -/

/-- Nobody is at `Start`, `Stop` or `Reset`, the execution loop has returned, no `Spawn` call and
no `complete` is in progress, and no fiber function is running or about to. -/
structure State.Quiescent (s : State) : Prop where
  idle : ∃ last, s.lifecycle = .idle last
  exited : s.loop.pc = .exited
  quiet : s.Quiet
  noBody : ∀ f ∈ Finset.range s.calls, (s.threads f).go ≠ .run ∧ (s.threads f).go ≠ .body

section

variable {c : Config} {ok : State → Label → Prop} {s₀ s : State}

theorem attended_of_reach (hok : ∀ s l, ok s l → StopsFirst s l) (h₀ : Initial c s₀)
    (h : Reach (step c) ok s₀ s) : s.Attended := by
  have hinit : s₀.Attended := by rcases h₀ with rfl | rfl <;> exact nofun
  exact sound_invariant h₀.sound hinit
    (fun s l _ hs hatt hl hst => hatt.step (hs.life 0).shared (hok s l hl) hst) h

theorem schedDown_of_reach (h₀ : Initial c s₀) (h : Reach (step c) ok s₀ s) : s.SchedDown := by
  have hinit : s₀.SchedDown := by rcases h₀ with rfl | rfl <;> exact fun _ => rfl
  exact sound_invariant h₀.sound hinit
    (fun _ _ _ hs hdown _ hst => hdown.step (hs.life 0).shared hst) h

theorem SpawnPc.not_doomed {pc : SpawnPc} {cancelled : Finset Nat} (h : pc.atRest = true) :
    ¬ pc.Doomed cancelled := by
  intro hdoom
  cases pc with
  | uncalled | returned => cases hdoom
  | _ => cases h

/-- With no run going and no call in progress the queues are empty. -/
theorem State.Sound.queue_empty (hs : s.Sound c) (hstop : s.stopped = true) (hrest : s.NoSpawn) :
    s.sched.queue = [] := by
  refine List.eq_nil_iff_forall_not_mem.mpr fun e he => ?_
  have hw : e.worker ∈ (s.life e.fiber).queuedAt := (Sched.mem_workersOf ..).mpr he
  have hdoom := (hs.life e.fiber).swept e.worker hw (.inl hstop)
  refine SpawnPc.not_doomed ?_ hdoom
  by_cases hf : e.fiber < s.calls
  · exact hrest _ (Finset.mem_range.mpr hf)
  · rw [hs.uncalled _ (Nat.le_of_not_lt hf)]
    rfl

/-- With nothing in progress the counter is the number of fibers in `rt.fibers`. -/
theorem State.Balanced.at_rest (hb : s.Balanced) (hs : s.Sound c) (hq : s.Quiet) :
    s.activeFiberCount = s.spawnedFibers.card := by
  have hweight : ∀ f ∈ Finset.range s.calls, (s.life f).weight = (s.life f).inFibers.toNat :=
    fun f hf => Life.weight_at_rest (hq.noSpawn f hf) (hq.noComplete f hf)
      (Lifecycle.reaping_of_not_reaps hq.noReap f)
  rw [hb, ← Nat.cast_sum, Finset.sum_congr rfl hweight, hs.sum_inFibers]

/-- In runs in which the loop returns only under a `Stop`, and in which the end of a fiber is
recorded after its creation, a runtime in which nothing is going on after a run has been stopped,
whatever has cancelled that run: it is not running, its queue is empty, what was not dispatched
is out of `rt.fibers` and reaped once, the counter and the gauges are those of the fibers left in
`rt.fibers`, whose functions have ended in `runtime.Goexit`, and the next `Start` succeeds. -/
theorem cancelled_run_stopped (h₀ : Initial c s₀)
    (h : Reach (step c) (fun s l => l ≠ .reset ∧ CreatedFirst s l ∧ StopsFirst s l) s₀ s)
    (hq : s.Quiescent) (hepoch : 0 < s.epoch) :
    s.isRunning = false
      ∧ s.sched.queue = []
      ∧ (∀ f, (s.threads f).pc = .returned (.ok ()) → (s.threads f).go = .absent →
        Key.spawned f ∉ s.fibers ∧ s.reaped.count f = 1)
      ∧ (∀ f, Key.spawned f ∈ s.fibers → (s.threads f).go = .ended)
      ∧ s.activeFiberCount = s.liveFibers.card
      ∧ s.metrics.activeFibers = s.liveFibers.card
      ∧ s.metrics.totalStackMemory
        = ∑ f ∈ Finset.range s.calls with Key.spawned f ∈ s.fibers, (s.threads f).stackSize
      ∧ ∃ s', exec (step c) s Label.startTrace = some s' ∧ s'.isRunning = true
        ∧ s'.epoch = s.epoch + 1 ∧ s'.lifecycle = .idle (some (.ok ())) := by
  obtain ⟨last, hidle⟩ := hq.idle
  -- the loop could not have returned under a run that is still up
  have hstop : s.stopped = true := by
    have hatt := attended_of_reach (fun _ _ hok => hok.2.2) h₀ h
    simp only [State.Attended, hidle] at hatt
    by_contra hup
    exact hatt (by simpa using hup) hq.exited
  obtain ⟨hs, hv, ha⟩ := audited_of_reach h₀ (h.mono fun _ _ hok => ⟨hok.1, hok.2.1⟩)
  obtain ⟨hsteady, hbooks⟩ := steady_of_noReset h₀ h
  have hreaped : ∀ f, (s.threads f).pc = .returned (.ok ()) → (s.threads f).go = .absent →
      f ∈ s.reaped := fun f hpc hgo =>
    reaped_between_runs (fun _ _ hok => hok.1) h₀ h hidle hepoch hstop (by rw [hpc]; rfl) hgo
  have hgone : ∀ f ∈ s.reaped, Key.spawned f ∉ s.fibers := fun f hf =>
    of_decide_eq_false ((hs.life f).reaped.gone (decide_eq_true hf)).inFibers
  refine ⟨by simp [State.isRunning, hstop], hs.queue_empty hstop hq.quiet.noSpawn, ?_, ?_, ?_, ?_,
    ha.memory_at_rest hs hv hq.quiet,
    State.start_succeeds (schedDown_of_reach h₀ h) hidle hstop⟩
  · intro f hpc hgo
    have hmem := hreaped f hpc hgo
    exact ⟨hgone f hmem, List.count_eq_one_of_mem (reaped_nodup_of_reach h₀ h) hmem⟩
  · intro f hin
    have hf := Finset.mem_range.mpr (hs.lt_of_mem hin)
    have hpc := (hs.life f).returned_of_inFibers (decide_eq_true hin) (hq.quiet.noSpawn f hf)
    have hcomplete := hq.quiet.noComplete f hf
    -- every other place is excluded: never dispatched is reaped, completed is removed
    cases hgo : (s.threads f).go with
    | absent => exact absurd hin (hgone f (hreaped f hpc hgo))
    | run => exact absurd hgo (hq.noBody f hf).1
    | body => exact absurd hgo (hq.noBody f hf).2
    | send => exact absurd hin (of_decide_eq_false ((hv f).removed (.inr hgo)))
    | ended => rfl
    | _ => rw [hgo] at hcomplete; cases hcomplete
  · rw [hsteady.liveFibers]
    exact (balanced_of_reach (fun _ _ hok => hok.1) h₀ hbooks).at_rest hs hq.quiet
  · rw [hsteady.liveFibers]
    exact ha.active_at_rest hs hv hq.quiet

end

/-- The context is cancelled while a `Stop` is on its way: fiber 0, which was never dispatched, has
been reaped when the `Stop` has returned. -/
theorem cancelled_run_stopped_both :
    ∃ s, Reach (step (.ofNewRuntime .fifo 1))
        (fun s l => l ≠ .reset ∧ CreatedFirst s l ∧ StopsFirst s l)
        (.new (.ofNewRuntime .fifo 1)) s
      ∧ s.epoch = 1 ∧ s.done 1 = true ∧ (s.threads 0).pc = .returned (.ok ())
      ∧ s.isRunning = false ∧ s.sched.queue = [] ∧ s.activeFiberCount = s.liveFibers.card := by
  obtain ⟨s, hs, htest⟩ := exists_reach_of_exec_guarded (step (.ofNewRuntime .fifo 1))
    (fun s l => l ≠ .reset ∧ CreatedFirst s l ∧ StopsFirst s l) (.new (.ofNewRuntime .fifo 1))
    (List.flatten [Label.startTrace, [.call false 0], Label.spawnTrace 0 9,
      [.cancelCtx, .loop .done, .stop, .lifecycle, .lifecycle, .loop .next],
      List.replicate 7 .lifecycle])
    (fun s => decide (s.epoch = 1 ∧ s.done 1 = true ∧ (s.threads 0).pc = .returned (.ok ())
      ∧ s.lifecycle = .idle (some (.ok ())) ∧ s.loop.pc = .exited ∧ s.Quiet
      ∧ ∀ f ∈ Finset.range s.calls, (s.threads f).go ≠ .run ∧ (s.threads f).go ≠ .body))
    (by decide)
  obtain ⟨hepoch, hdone, hpc, hidle, hexit, hquiet, hbody⟩ := of_decide_eq_true htest
  obtain ⟨hrun, hqueue, -, -, hcount, -⟩ := cancelled_run_stopped (.inl rfl) hs
    ⟨⟨_, hidle⟩, hexit, hquiet, hbody⟩ (by omega)
  exact ⟨s, hs, hepoch, hdone, hpc, hrun, hqueue, hcount⟩

/-- The context is cancelled and nobody calls `Stop`. The loop has returned and nothing is going
on, but the runtime says that it is running, fiber 0 is in its queue, in `rt.fibers` and counted,
and `Start` is refused. -/
theorem cancelled_run_stays_up :
    ∃ s, Reach (step (.ofNewRuntime .fifo 1))
        (fun s l => l ≠ .reset ∧ CreatedFirst s l) (.new (.ofNewRuntime .fifo 1)) s
      ∧ s.Quiescent ∧ s.done s.epoch = true ∧ s.isRunning = true ∧ s.sched.queue = [⟨0, 0⟩]
      ∧ (s.threads 0).go = .absent ∧ Key.spawned 0 ∈ s.fibers ∧ s.activeFiberCount = 1
      ∧ s.metrics.totalStackMemory = 65536
      ∧ ∃ s', step (.ofNewRuntime .fifo 1) s .start = some s'
        ∧ s'.lifecycle = .idle (some (.error .alreadyRunning)) := by
  obtain ⟨s, hs, htest⟩ := exists_reach_of_exec_guarded (step (.ofNewRuntime .fifo 1))
    (fun s l => l ≠ .reset ∧ CreatedFirst s l) (.new (.ofNewRuntime .fifo 1))
    (List.flatten [Label.startTrace, [.call false 0], Label.spawnTrace 0 9,
      [.cancelCtx, .loop .done, .loop .next]])
    (fun s => decide ((s.lifecycle = .idle (some (.ok ())) ∧ s.loop.pc = .exited ∧ s.Quiet
        ∧ ∀ f ∈ Finset.range s.calls, (s.threads f).go ≠ .run ∧ (s.threads f).go ≠ .body)
      ∧ s.done s.epoch = true ∧ s.isRunning = true ∧ s.sched.queue = [⟨0, 0⟩]
      ∧ (s.threads 0).go = .absent ∧ Key.spawned 0 ∈ s.fibers ∧ s.activeFiberCount = 1
      ∧ s.metrics.totalStackMemory = 65536))
    (by decide)
  obtain ⟨⟨hidle, hexit, hquiet, hbody⟩, hdone, hrun, hqueue, hgo, hin, hcount, hmemory⟩ :=
    of_decide_eq_true htest
  refine ⟨s, hs, ⟨⟨_, hidle⟩, hexit, hquiet, hbody⟩, hdone, hrun, hqueue, hgo, hin, hcount, hmemory,
    { s with lifecycle := .idle (some (.error .alreadyRunning)) }, ?_, rfl⟩
  simp [step, State.begin, hidle, hrun]

end GreenThreads.Runtime
