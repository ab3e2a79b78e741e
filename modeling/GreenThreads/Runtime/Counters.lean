import GreenThreads.Lib.Backlog
import GreenThreads.Runtime.Gauge

/-!
# GreenThreads — fibers created and fibers completed

The metrics of a run count creations and completions. `Spawn` counts the creation of a fiber
after the fiber has been published, so that the dispatch goroutine may count its completion
first; and `Reset` sets both counters back to zero, also when fibers that were counted as created
are still running because a `Stop` gave up waiting for them.

Where neither happens every completion is one of a fiber whose creation has been counted. The
invariant behind it leaves room for the completions to come: those counted, and the fibers that
are *due*, are together no more than the creations counted.
-/

namespace GreenThreads.Runtime

open Trans

/-- The goroutine of the fiber has still to record a completion. -/
def GoPc.unrecorded : GoPc → Bool
  | run | body | recordCompleted => true
  | _ => false

namespace Life

variable {n : Nat} {v v' : Life} {e : Event}

/-- The creation of the fiber has been counted, and its completion is still to come: its goroutine
has not recorded it, or has still to be launched. -/
def due (v : Life) : Bool :=
  decide (v.pc = .returned (.ok ()))
    && (v.go.unrecorded || decide (v.queuedAt ≠ []) || decide (v.hand ≠ .empty))

theorem due_iff : v.due = true ↔ v.pc = .returned (.ok ())
    ∧ (v.go.unrecorded = true ∨ v.queuedAt ≠ [] ∨ v.hand ≠ .empty) := by
  simp [due, or_assoc]

/-- Once `Schedule` is through, a fiber waits in a queue or in the hand of the loop only if it did
so before. -/
theorem Step.waiting (h : v.Step n e v') (hpc : v.pc ≠ .enqueue)
    (hwait : v'.queuedAt ≠ [] ∨ v'.hand ≠ .empty) : v.queuedAt ≠ [] ∨ v.hand ≠ .empty := by
  have hshrunk : ∀ {q : List Nat}, q ⊆ v.queuedAt → q ≠ [] → v.queuedAt ≠ [] := by
    rintro q hsub hne hnil
    exact hne (List.eq_nil_of_subset_nil (hnil ▸ hsub))
  cases h with
  | enqueue h => exact absurd h hpc
  | drop | clearWorker | clearOnly | sweep =>
    exact hwait.imp_left (hshrunk (List.filter_subset_self _))
  | removeFound | markRemove => exact hwait.imp_left (hshrunk List.erase_subset)
  | pop _ _ hw => exact .inl (List.ne_nil_of_mem hw)
  | held h | notRunnable h | mark h | launch h => exact .inr (by simp [h])
  | _ => exact hwait

/-- What is still to come of a fiber was to come before. `late` are the places of the goroutine
before some point that it passes once. -/
theorem Step.coming {late : GoPc → Bool} (h : v.Step n e v') (hpc : v.pc ≠ .enqueue)
    (hlate : ∀ {go go'}, GoPc.Next go go' → late go' = true → late go = true)
    (hended : late .ended = false)
    (hd : late v'.go = true ∨ v'.queuedAt ≠ [] ∨ v'.hand ≠ .empty) :
    late v.go = true ∨ v.queuedAt ≠ [] ∨ v.hand ≠ .empty := by
  rcases hd with hgo | hwait
  · rcases h.go_next with heq | ⟨hhand, -⟩ | hnext | ⟨-, hexit⟩
    · exact .inl (heq ▸ hgo)
    · exact .inr (.inr (by simp [hhand]))
    · exact .inl (hlate hnext hgo)
    · rw [hexit, hended] at hgo
      cases hgo
  · exact .inr (h.waiting hpc hwait)

theorem unrecorded_of_next {go go' : GoPc} (h : GoPc.Next go go') (hrec : go'.unrecorded = true) :
    go.unrecorded = true := by
  cases h with
  | begin | skip | ends => rfl
  | record | undo | send => cases hrec
  | mark h | sweep h | remove h => rcases h with rfl | rfl <;> cases hrec

/-- A fiber that is accepted and not due does not become so again. -/
theorem Step.due (h : v.Step n e v') (hpc : v.pc = .returned (.ok ())) (hd : v'.due = true) :
    v.due = true := by
  rw [due_iff] at hd ⊢
  exact ⟨hpc, h.coming (by rw [hpc]; exact nofun) unrecorded_of_next rfl hd.2⟩

/-- Whose completion has just been recorded is not due any more. -/
theorem Sound.not_due (hs : v.Sound n) (hgo : v.go = .markCompleted) : v.due = false := by
  refine Bool.eq_false_iff.mpr fun hd => ?_
  obtain ⟨-, hrec | hplace⟩ := due_iff.mp hd
  · rw [hgo] at hrec
    cases hrec
  · rw [hs.placed.go_absent hplace.symm] at hgo
    cases hgo

/-- Between two runs only a goroutine of an earlier run can be due. -/
theorem Sound.unrecorded_of_due (hs : v.Sound n) (hstop : v.shared.stopped = true)
    (hd : v.due = true) : v.go.unrecorded = true := by
  obtain ⟨hpc, hrec | hqueue | hhand⟩ := due_iff.mp hd
  · exact hrec
  · -- what is left in a queue belongs to calls that will roll back
    obtain ⟨w, hw⟩ := List.exists_mem_of_ne_nil _ hqueue
    have hdoom := (hs.swept w hw (.inl hstop)).not_committed
    rw [hpc] at hdoom
    cases hdoom
  · have hloop := hs.placed.looping hhand
    rw [hs.shared.not_looping (w := 0) (.inl hstop)] at hloop
    cases hloop

end Life

/-- A completion is counted when the creation of the fiber has been, and a `Reset` clears the
counters when no goroutine of a fiber counted as created has still to record its completion. -/
def CountsCreated (s : State) : Label → Prop
  | .go f _ => (s.threads f).go = .recordCompleted → (s.threads f).pc = .returned (.ok ())
  | .lifecycle => s.lifecycle = .resetMetrics → ∀ f ∈ Finset.range s.calls,
      (s.threads f).pc = .returned (.ok ()) → (s.threads f).go.unrecorded = false
  | _ => True

instance (s : State) : (l : Label) → Decidable (CountsCreated s l)
  | .go _ _ => inferInstanceAs (Decidable (_ → _))
  | .lifecycle => inferInstanceAs (Decidable (_ → _))
  | .call _ _ | .spawn _ _ | .loop _ | .discard _ | .goexit _ | .block _ | .unblock _ | .start
  | .stop | .reset | .deadline | .cancelCtx | .setStackSize _ => isTrue trivial

namespace State

variable {c : Config} {s s' : State} {l : Label} {f : FiberID}

/-- The fibers whose creation has been counted and whose completion is still to come. -/
def due (s : State) : Finset FiberID := (Finset.range s.calls).filter fun f => (s.life f).due

theorem Sound.mem_due (hs : s.Sound c) : f ∈ s.due ↔ (s.life f).due = true := by
  simp only [State.due, Finset.mem_filter, Finset.mem_range, and_iff_right_iff_imp]
  intro hd
  refine hs.lt_calls ?_
  rw [(Life.due_iff.mp hd).1]
  exact nofun

/-- A fiber becomes due when its creation is recorded. -/
theorem Sound.due_or_created (hs : s.Sound c) (h : Runtime.step c s l = some s')
    (hf : f ∈ s'.due) :
    f ∈ s.due ∨ (s.threads f).pc = .recordCreated ∧ ∃ w, l = .spawn f w := by
  have hd := (hs.step h).mem_due.mp hf
  have hpc' := (Life.due_iff.mp hd).1
  rcases (hs.step_life h f).created hpc' with hpc | hpc
  · exact .inl (hs.mem_due.mpr ((hs.step_life h f).due hpc hd))
  · right
    have hrec : (s.threads f).pc = .recordCreated := hpc
    have hmoved : (s'.threads f).pc ≠ (s.threads f).pc := by
      rw [hrec, show (s'.threads f).pc = _ from hpc']
      exact nofun
    rcases step_pc h hmoved with rfl | hturn
    · rw [hs.uncalled _ le_rfl] at hpc
      cases hpc
    · exact ⟨hrec, hturn⟩

theorem Sound.due_subset (hs : s.Sound c) (h : Runtime.step c s l = some s')
    (hl : ∀ f w, l = .spawn f w → (s.threads f).pc ≠ .recordCreated) : s'.due ⊆ s.due := by
  intro f hf
  refine (hs.due_or_created h hf).resolve_right ?_
  rintro ⟨hpc, w, hturn⟩
  exact hl f w hturn hpc

/-- The completions counted and those still to come are of fibers counted as created. -/
def Counted (s : State) : Prop :=
  s.metrics.totalFibersCompleted + s.due.card ≤ s.metrics.totalFibersCreated

theorem counted_iff : s.Counted
    ↔ Backlog s.metrics.totalFibersCreated s.metrics.totalFibersCompleted s.due :=
  Iff.rfl

theorem Counted.of_subset (hc : s.Counted)
    (hdone : s'.metrics.totalFibersCompleted = s.metrics.totalFibersCompleted)
    (hmade : s'.metrics.totalFibersCreated = s.metrics.totalFibersCreated)
    (hsub : s'.due ⊆ s.due) : s'.Counted := by
  rw [counted_iff, hdone, hmade]
  exact (counted_iff.mp hc).mono hsub

/-- `RecordFiberCompleted` counts one completion, or none of a fiber it has in its map. -/
theorem recordFiberCompleted_counts (m : Metrics) (f : FiberID) (size : Int)
    (drop : Finset FiberID) :
    (m.recordFiberCompleted f size drop).totalFibersCompleted ≤ m.totalFibersCompleted + 1
      ∧ (m.recordFiberCompleted f size drop).totalFibersCreated = m.totalFibersCreated := by
  unfold Metrics.recordFiberCompleted
  split_ifs
  · exact ⟨Nat.le_succ _, rfl⟩
  · exact ⟨le_rfl, rfl⟩

theorem Counted.created {w : Nat} (hc : s.Counted) (hs : s.Sound c)
    (h : step c s (.spawn f w) = some s') (hpc : (s.threads f).pc = .recordCreated) :
    s'.Counted := by
  have hsub : s'.due ⊆ insert f s.due := by
    intro g hg
    rcases hs.due_or_created h hg with hold | ⟨-, w', hturn⟩
    · exact Finset.mem_insert_of_mem hold
    · cases hturn
      exact Finset.mem_insert_self ..
  simp only [step, spawnStep, hpc, Option.some.injEq] at h
  have hdone : s'.metrics.totalFibersCompleted = s.metrics.totalFibersCompleted := by rw [← h]; rfl
  have hmade : s'.metrics.totalFibersCreated = s.metrics.totalFibersCreated + 1 := by rw [← h]; rfl
  rw [counted_iff, hdone, hmade]
  exact (counted_iff.mp hc).takeOn hsub

theorem Counted.completed {drop : Finset FiberID} (hc : s.Counted) (hs : s.Sound c)
    (h : step c s (.go f drop) = some s') (hgo : (s.threads f).go = .recordCompleted)
    (hpc : (s.threads f).pc = .returned (.ok ())) : s'.Counted := by
  have hs' := hs.step h
  have hsub := hs.due_subset h nofun
  have hdue : f ∈ s.due :=
    hs.mem_due.mpr (Life.due_iff.mpr ⟨hpc, .inl (by rw [show (s.life f).go = _ from hgo]; rfl)⟩)
  simp only [step, goStep, hgo] at h
  split_ifs at h
  simp only [Option.some.injEq] at h
  have hgone : f ∉ s'.due := by
    rw [hs'.mem_due, Bool.not_eq_true]
    refine (hs'.life f).not_due ?_
    rw [← h]
    exact congrArg Life.go (life_setGo ..)
  have hcounts := recordFiberCompleted_counts s.metrics f (s.threads f).stackSize drop
  have hmetrics : s'.metrics = s.metrics.recordFiberCompleted f (s.threads f).stackSize drop := by
    rw [← h]
    rfl
  rw [← hmetrics] at hcounts
  -- one completion more, and one fiber less to come
  rw [counted_iff, hcounts.2]
  exact (counted_iff.mp hc).settle hsub hdue hgone hcounts.1

theorem Counted.reset (hs : s.Sound c) (hok : CountsCreated s .lifecycle)
    (h : step c s .lifecycle = some s') (hl : s.lifecycle = .resetMetrics) : s'.Counted := by
  have hsub := hs.due_subset h nofun
  have hnone : s.due = ∅ := by
    refine Finset.eq_empty_of_forall_notMem fun f hf => ?_
    have hd := hs.mem_due.mp hf
    have hstop : s.stopped = true := by
      have hdown := (hs.life f).shared
      simp only [Shared.Ok, show (s.life f).shared.lifecycle = s.lifecycle from rfl, hl] at hdown
      exact hdown.1
    have hrec := (hs.life f).unrecorded_of_due hstop hd
    have hnot := hok hl f (Finset.mem_of_mem_filter f hf) (Life.due_iff.mp hd).1
    rw [show (s.life f).go = (s.threads f).go from rfl, hnot] at hrec
    cases hrec
  simp only [step, lifecycleStep, hl, Option.some.injEq] at h
  have hmetrics : s'.metrics = .new := by rw [← h]
  rw [counted_iff, hmetrics]
  exact .restart (Finset.subset_empty.mp (hnone ▸ hsub))

theorem Counted.step (hc : s.Counted) (hs : s.Sound c) (hok : CountsCreated s l)
    (h : step c s l = some s') : s'.Counted := by
  by_cases hno : ∀ f, ¬ s.Books f l
  · by_cases hreset : l = .lifecycle ∧ s.lifecycle = .resetMetrics
    · obtain ⟨rfl, hl⟩ := hreset
      exact Counted.reset hs hok h hl
    · have hmetrics := step_metrics h hno fun hl hlife => hreset ⟨hl, hlife⟩
      refine hc.of_subset (by rw [hmetrics]) (by rw [hmetrics]) (hs.due_subset h ?_)
      rintro f w rfl hpc
      exact hno f (.created hpc)
  · push Not at hno
    obtain ⟨f, hf⟩ := hno
    cases hf with
    | created hpc => exact hc.created hs h hpc
    | completed hgo => exact hc.completed hs h hgo (hok hgo)
    | cancelled hl =>
      have hsub := hs.due_subset h nofun
      simp only [Runtime.step, lifecycleStep, hl] at h
      cases h
      exact hc.of_subset rfl rfl hsub

end State

/-- In runs in which a completion is counted after the creation of the fiber, and in which a
`Reset` clears the counters when nothing counted as created has still to be counted as completed,
no more completions than creations are ever counted. -/
theorem completed_le_created {c : Config} {s₀ s : State} (h₀ : Initial c s₀)
    (h : Reach (step c) CountsCreated s₀ s) :
    s.metrics.totalFibersCompleted ≤ s.metrics.totalFibersCreated := by
  have hinit : s₀.Counted := by rcases h₀ with rfl | rfl <;> exact Nat.le_refl 0
  have hcounted : s.Counted :=
    sound_invariant h₀.sound hinit (fun _ _ _ hs hc hok hst => hc.step hs hok hst) h
  exact (State.counted_iff.mp hcounted).le

/-- A fiber completes, the runtime is stopped, reset and started again, and a second fiber
completes. -/
theorem completed_le_created_reset :
    ∃ s, Reach (step (.ofNewRuntime .fifo 1)) CountsCreated (.new (.ofNewRuntime .fifo 1)) s
      ∧ s.epoch = 2 ∧ s.metrics.totalFibersCompleted = 1
      ∧ s.metrics.totalFibersCompleted ≤ s.metrics.totalFibersCreated := by
  obtain ⟨s, hs, htest⟩ := exists_reach_of_exec_guarded (step (.ofNewRuntime .fifo 1))
    CountsCreated (.new (.ofNewRuntime .fifo 1))
    (List.flatten [Label.startTrace, [.call false 0], Label.spawnTrace 0 9, Label.dispatchTrace 0,
      List.replicate 6 (.go 0 ∅), [.loop .next, .loop .result], Label.stopTrace 5, [.reset],
      List.replicate 4 .lifecycle, Label.startTrace, [.call false 0], Label.spawnTrace 1 9,
      Label.dispatchTrace 1, List.replicate 2 (.go 1 ∅)])
    (fun s => decide (s.epoch = 2 ∧ s.metrics.totalFibersCompleted = 1))
    (by decide +kernel)
  obtain ⟨hepoch, hdone⟩ := of_decide_eq_true htest
  exact ⟨s, hs, hepoch, hdone, completed_le_created (.inl rfl) hs⟩

/-- Both conditions are needed. The loop may be faster than the `Spawn` of a fiber; and a fiber
that outlives the deadline of a `Stop` may complete after a `Reset`. -/
theorem completed_exceeds_created :
    (∃ s, Reach (step (.ofNewRuntime .fifo 1)) (fun _ l => l ≠ .reset)
        (.new (.ofNewRuntime .fifo 1)) s
      ∧ s.metrics.totalFibersCreated = 0 ∧ s.metrics.totalFibersCompleted = 1)
    ∧ ∃ s, Reach (step (.ofNewRuntime .fifo 1)) CreatedFirst (.new (.ofNewRuntime .fifo 1)) s
      ∧ s.metrics.totalFibersCreated = 0 ∧ s.metrics.totalFibersCompleted = 1 := by
  constructor
  · obtain ⟨s, hs, htest⟩ := exists_reach_of_exec_guarded (step (.ofNewRuntime .fifo 1))
      (fun _ l => l ≠ .reset) (.new (.ofNewRuntime .fifo 1))
      (List.flatten [Label.startTrace, [.call false 0], Label.spawnTrace 0 5,
        Label.dispatchTrace 0, List.replicate 2 (.go 0 ∅)])
      (fun s => decide (s.metrics.totalFibersCreated = 0 ∧ s.metrics.totalFibersCompleted = 1))
      (by decide +kernel)
    exact ⟨s, hs, of_decide_eq_true htest⟩
  · obtain ⟨s, hs, htest⟩ := exists_reach_of_exec_guarded (step (.ofNewRuntime .fifo 1))
      CreatedFirst (.new (.ofNewRuntime .fifo 1))
      (List.flatten [Label.startTrace, [.call false 0], Label.spawnTrace 0 9,
        Label.dispatchTrace 0, [.loop .next], Label.stopTrace 4, [.deadline, .reset],
        List.replicate 4 .lifecycle, List.replicate 2 (.go 0 ∅)])
      (fun s => decide (s.metrics.totalFibersCreated = 0 ∧ s.metrics.totalFibersCompleted = 1))
      (by decide +kernel)
    exact ⟨s, hs, of_decide_eq_true htest⟩

end GreenThreads.Runtime
