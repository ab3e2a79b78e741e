import GreenThreads.Runtime.Cap

/-!
# GreenThreads — one run and the next

What a `Stop` leaves to the next run, in runs without a `Reset`.

* The queues: a fiber that was committed before a run began is in no queue and not in the hand
  of the loop while that run goes on. When a run begins every queue has been cleared, and what
  has got into one since belongs to calls that have not committed.
* The maps: `reapPending` closes the drain gate before it scans, so that what is committed has
  been seen by the scan. From then on until the next `Start` every committed fiber that was
  never dispatched has been reaped, and it has been reaped once.
-/

namespace GreenThreads.Runtime

open Trans

/-! ## The queues -/

namespace Life

variable {n : Nat} {v v' : Life} {e : Event}

/-- In no queue and not in the hand of the loop. -/
def OffQueue (v : Life) : Prop := v.queuedAt = [] ∧ v.hand = .empty

/-- Only `Schedule` puts a fiber into a queue. -/
theorem Step.offQueue (h : v.Step n e v') (hpc : v.pc.committed = true) (hv : v.OffQueue) :
    v'.OffQueue := by
  obtain ⟨hq, hh⟩ := hv
  cases h with
  | enqueue h => rw [h] at hpc; cases hpc
  | removeFound h => rw [h] at hpc; cases hpc
  | pop _ _ hw => rw [hq] at hw; cases hw
  | held h | mark h => rw [hh] at h; cases h
  | notRunnable | launch => exact ⟨hq, rfl⟩
  | drop | sweep | clearWorker | clearOnly => exact ⟨by rw [hq]; rfl, hh⟩
  | markRemove => exact ⟨by rw [hq]; rfl, hh⟩
  | _ => exact ⟨hq, hh⟩

/-- When no run is going, a committed fiber is in no queue, and no loop has it in its hand. -/
theorem Sound.offQueue (hs : v.Sound n) (hstop : v.shared.stopped = true)
    (hpc : v.pc.committed = true) : v.OffQueue := by
  have hswept : ∀ w, v.shared.Swept w := fun _ => .inl hstop
  constructor
  · refine List.eq_nil_iff_forall_not_mem.mpr fun w hw => ?_
    -- an entry would be of a call bound to roll back
    have := (hs.swept w hw (hswept w)).not_committed
    rw [hpc] at this
    cases this
  · by_contra hhand
    have hlooping := hs.placed.looping hhand
    rw [hs.shared.not_looping (hswept 0)] at hlooping
    cases hlooping

theorem Step.committed (h : v.Step n e v') (hpc : v.pc.committed = true) :
    v'.pc.committed = true := by
  cases h with
  | call h | checked h | notStarted h | reserve h | unreserve h | insert h | schedule h | enqueue h
  | countScheduled h | unschedule h | unscheduleUndo h | readCtx h | recheck h | rollback h
  | removeFound h | removeNext h | removeMissing h | rollbackUndo h =>
    rw [h] at hpc
    cases hpc
  | commit | recordCreated => rfl
  | _ => exact hpc

/-- A new run begins when none is going. -/
theorem Step.epoch_eq (h : v.Step n e v') (hs : v.Sound n) :
    v'.shared.epoch = v.shared.epoch
      ∨ v.shared.stopped = true ∧ v'.pc = v.pc ∧ v'.queuedAt = v.queuedAt ∧ v'.hand = v.hand := by
  cases h with
  | shared h =>
    cases h with
    | startRun _ h =>
      have hok := hs.shared
      simp only [Shared.Ok, h] at hok
      exact .inr ⟨hok.1.1, rfl, rfl, rfl⟩
    | _ => exact .inl rfl
  | _ => exact .inl rfl

end Life

/-! ## The drain gate -/

/-- After its scan the gate of a reap stays closed until the next `Start`. -/
def Shared.Shut (r : Shared) : Prop :=
  match r.lifecycle with
  | .idle _ | .startSched | .startFibers => r.stopped = true → 0 < r.epoch → r.draining = true
  | .reapUndo _ _ | .reapRecord _ _ _ | .join _ => r.draining = true
  | _ => True

theorem Shared.Step.shut {n : Nat} {r r' : Shared} (h : r.Step n r')
    (hreset : r.lifecycle.resetting = false) (hr : r.Shut) : r'.Shut := by
  cases h with
  | cancelCtx => exact hr
  | @clearBase why => cases why <;> trivial
  | startRun => exact fun hstop => by cases hstop
  | resetMetrics _ h => rw [h] at hreset; cases hreset
  | idle _ h | startBegin h | startFail _ h | startSched h | reapDone h | reapRecord h =>
    simp only [Shut, h] at hr ⊢
    exact hr
  | joined _ h =>
    simp only [Shut, h] at hr ⊢
    exact fun _ _ => hr
  | stopBegin | stopCancel | stopSched | stopJoin | resetBegin | resetMain => trivial

namespace Life

variable {n : Nat} {v v' : Life} {e : Event}

theorem Step.shut (h : v.Step n e v') (hreset : v.shared.lifecycle.resetting = false)
    (hv : v.shared.Shut) : v'.shared.Shut := by
  cases h with
  | shared h => exact h.shut hreset hv
  | startFibers | clearWorker | resetFibers => trivial
  | @clearOnly why => cases why <;> trivial
  | reapTake | reapLeave => exact rfl
  | reapUndo h | reapUndoOther h =>
    simp only [Shared.Shut, h] at hv ⊢
    exact hv
  | _ => exact hv

/-- Behind the closed gate every committed fiber that was not dispatched has been reaped. -/
def Settled (v : Life) : Prop :=
  v.shared.draining = true → v.pc.committed = true → v.go = .absent → v.reaped = true

theorem Step.settled (h : v.Step n e v') (hs : v.Sound n) (hk : v.Kept) (hv : v.Settled) :
    v'.Settled := by
  intro hdrain hcom hgo
  cases h with
  | shared h =>
    refine hv ?_ hcom hgo
    cases h <;> exact hdrain
  | commit _ hd =>
    rw [show v.shared.draining = true from hdrain] at hd
    cases hd
  | recordCreated h => exact hv hdrain (by rw [h]; rfl) hgo
  | call _ hpc => rcases hpc with rfl | rfl | rfl <;> cases hcom
  | reserve _ hpc | schedule _ hpc => rcases hpc with rfl | rfl <;> cases hcom
  | enqueue _ _ hpc => rcases hpc with rfl | rfl <;> cases hcom
  | @removeFound _ present | @removeMissing _ present => cases present <;> cases hcom
  | checked | notStarted | unreserve | insert | unschedule | unscheduleUndo | countScheduled
  | readCtx | recheck | rollback | removeNext | rollbackUndo => cases hcom
  | startFibers | resetFibers => cases hdrain
  | reapTake => rfl
  | reapLeave _ h hn =>
    -- the scan would have taken it
    by_contra hnot
    obtain ⟨hin, hadm⟩ := hk.committed hcom (by rw [hgo]; rfl) (by simpa using hnot)
    have hhand : v.hand = .empty := by
      by_contra hhand
      have hlooping := hs.placed.looping hhand
      rw [hs.shared.not_looping (w := 0) (.inr (by rw [h]; trivial))] at hlooping
      cases hlooping
    have hrun := hs.fiber.isRunnable hgo (by simp [hhand])
    simp [hin, hadm, hrun] at hn
  | launch | runBegin | runSkip | runEnd | goexit | recordCompleted | markRemove | undo | send =>
    cases hgo
  | markCompleted _ hnext | sweep _ hnext => rcases hnext with rfl | rfl <;> cases hgo
  | remove => cases hin : v.inFibers <;> simp [hin] at hgo
  | _ => exact hv hdrain hcom hgo

end Life

/-! ## Nothing is reaped twice -/

/-- The next step is the scan of `reapPending`. -/
def Lifecycle.scans : Lifecycle → Bool
  | reapScan _ => true
  | _ => false

namespace State

variable {c : Config} {s s' : State} {l : Label}

/-- Only the scan of a reap adds to the fibers reaped. -/
theorem step_reaped (h : step c s l = some s') :
    s'.reaped = s.reaped ∨ l = .lifecycle ∧ s.lifecycle.scans = true
      ∧ s'.reaped = s.reaped ++ s.reapable := by
  cases step_turn h with
  | call ht | begin _ _ ht | deadline _ ht | cancelCtx ht =>
    subst ht
    exact .inl rfl
  | work hl => exact .inl (step_work h hl).1
  | lifecycle hlife =>
    cases lifecycleStep_effect hlife with
    | reapScan hl => exact .inr ⟨rfl, by rw [hl]; rfl, rfl⟩
    | _ => exact .inl rfl

/-- What has been reaped is not in `rt.fibers` any more, where the scan looks. -/
theorem Sound.not_reapable (hs : s.Sound c) {f : FiberID} (hf : f ∈ s.reaped) :
    f ∉ s.reapable := by
  intro hmem
  have htest := (List.mem_filter.mp hmem).2
  have hout := ((hs.life f).reaped.gone (decide_eq_true hf)).inFibers
  simp [show decide (Key.spawned f ∈ s.fibers) = false from hout] at htest

theorem Sound.reaped_nodup (hs : s.Sound c) (h : Runtime.step c s l = some s')
    (hr : s.reaped.Nodup) : s'.reaped.Nodup := by
  rcases step_reaped h with heq | ⟨-, -, heq⟩ <;> rw [heq]
  · exact hr
  · refine List.nodup_append.mpr ⟨hr, List.nodup_range.filter _, fun f hf g hg hfg => ?_⟩
    exact hs.not_reapable hf (hfg ▸ hg)

end State

section

variable {c : Config} {ok : State → Label → Prop} {s₀ s s' : State}

theorem reaped_nodup_of_reach (h₀ : Initial c s₀) (h : Reach (step c) ok s₀ s) :
    s.reaped.Nodup := by
  have hinit : s₀.reaped.Nodup := by rcases h₀ with rfl | rfl <;> exact List.nodup_nil
  exact sound_invariant h₀.sound hinit (fun _ _ _ hs hr _ hst => hs.reaped_nodup hst hr) h

/-! ## Runs -/

/-- A goroutine belongs to the run whose loop has launched it. -/
theorem State.step_run {l : Label} (h : step c s l = some s') (f : FiberID) :
    (s'.threads f).run = (s.threads f).run
      ∨ s.loop.pc = .launching f ∧ (s'.threads f).run = s.epoch := by
  cases State.step_moves h f with
  | launch hpc ht => exact .inr ⟨hpc, by rw [ht]⟩
  | rest ht | call _ ht | spawn _ _ ht | mark _ ht | body _ _ ht | go _ ht =>
    exact .inl (by rw [ht])

theorem run_le_epoch (h₀ : Initial c s₀) (h : Reach (step c) ok s₀ s) (f : FiberID) :
    (s.threads f).run ≤ s.epoch := by
  have hinit : (s₀.threads f).run ≤ s₀.epoch := by rcases h₀ with rfl | rfl <;> exact le_rfl
  refine sound_invariant (P := fun s => (s.threads f).run ≤ s.epoch) h₀.sound hinit ?_ h
  intro s l s' hs hrun _ hst
  have hmono : s.epoch ≤ s'.epoch := (hs.step_life hst f).epoch_le
  rcases State.step_run hst f with heq | ⟨-, heq⟩ <;> rw [heq]
  · exact hrun.trans hmono
  · exact hmono

/-- Fiber `f` was committed by the end of run `k`, and no later run has anything of it. -/
structure State.Past (k : Nat) (f : FiberID) (s : State) : Prop where
  committed : (s.life f).pc.committed = true
  run : (s.threads f).run ≤ k
  offQueue : k < s.epoch → (s.life f).OffQueue

theorem State.Past.step {k : Nat} {f : FiberID} {l : Label} (hp : s.Past k f) (hs : s.Sound c)
    (h : step c s l = some s') : s'.Past k f := by
  have hlife := hs.step_life h f
  refine ⟨hlife.committed hp.committed, ?_, fun hk => ?_⟩
  · rcases State.step_run h f with heq | ⟨hlaunch, heq⟩
    · exact heq ▸ hp.run
    · -- a later loop has nothing of the fiber to launch
      rw [heq]
      refine Nat.le_of_not_lt fun hk => ?_
      have hhand : s.loop.pc.hand f = .empty := (hp.offQueue hk).2
      simp [hlaunch, LoopPc.hand] at hhand
  · rcases hlife.epoch_eq (hs.life f) with heq | ⟨hstop, -, hq, hh⟩
    · exact hlife.offQueue hp.committed (hp.offQueue (hk.trans_eq heq))
    · -- a run begins: nothing is left over from the one before
      have hoff := (hs.life f).offQueue hstop hp.committed
      exact ⟨hq.trans hoff.1, hh.trans hoff.2⟩

theorem past_of_reach {k : Nat} {f : FiberID} (hs : s.Sound c) (hp : s.Past k f)
    (h : Reach (step c) ok s s') : s'.Past k f :=
  sound_invariant hs hp (fun _ _ _ hs hp _ hst => hp.step hs hst) h

/-- Without a `Reset` the gate stays closed between two runs, and what is behind it is settled. -/
theorem settled_of_reach (hok : ∀ s l, ok s l → l ≠ .reset) (h₀ : Initial c s₀)
    (h : Reach (step c) ok s₀ s) (f : FiberID) :
    (s.life f).Kept ∧ (s.life f).shared.Shut ∧ (s.life f).Settled := by
  have hinit : (s₀.life f).Kept ∧ (s₀.life f).shared.Shut ∧ (s₀.life f).Settled := by
    rw [h₀.life f]
    exact ⟨⟨nofun, nofun, nofun⟩, fun _ hepoch => absurd hepoch (lt_irrefl 0), nofun⟩
  have hall : s.Steady
      ∧ (s.life f).Kept ∧ (s.life f).shared.Shut ∧ (s.life f).Settled := by
    refine sound_invariant (P := fun s => s.Steady
      ∧ (s.life f).Kept ∧ (s.life f).shared.Shut ∧ (s.life f).Settled) h₀.sound
      ⟨h₀.steady, hinit⟩ ?_ h
    rintro s l s' hs ⟨hsteady, hk, hshut, hset⟩ hsl hst
    have hstep := hs.step_life hst f
    exact ⟨hsteady.step (hok s l hsl) hst,
      hstep.kept (hs.life f) (hsteady.resetsEmpty l).inFibers hk,
      hstep.shut hsteady.lifecycle hshut, hstep.settled (hs.life f) hk hset⟩
  exact hall.2

/-- When a `Stop` has returned, and no `Start` has begun, what was not dispatched is reaped. -/
theorem reaped_between_runs (hok : ∀ s l, ok s l → l ≠ .reset) (h₀ : Initial c s₀)
    (h : Reach (step c) ok s₀ s) {last : Option (Except LifecycleError Unit)}
    (hidle : s.lifecycle = .idle last) (hepoch : 0 < s.epoch) (hstop : s.stopped = true)
    {f : FiberID} (hpc : (s.threads f).pc.committed = true) (hgo : (s.threads f).go = .absent) :
    f ∈ s.reaped := by
  obtain ⟨-, hshut, hset⟩ := settled_of_reach hok h₀ h f
  simp only [Shared.Shut, show (s.life f).shared.lifecycle = _ from hidle] at hshut
  exact of_decide_eq_true (hset (hshut hstop hepoch) hpc hgo)

/-- In runs without a `Reset` a fiber whose `Spawn` call has returned without an error is not
dispatched by the loop of a later run: it is in no queue then and not in the hand of the loop,
and its goroutine, if it has one, is of the run in which the call returned or an earlier one.
When a `Stop` has returned and no `Start` has begun, no admitted fiber is ready, and every
committed fiber that was not dispatched has been reaped once. -/
theorem runs_isolated (h₀ : Initial c s₀) (h : Reach (step c) (fun _ l => l ≠ .reset) s₀ s)
    (f : FiberID) :
    ((s.threads f).pc = .returned (.ok ()) →
        ∀ s', Reach (step c) (fun _ l => l ≠ .reset) s s' →
          (s'.threads f).run ≤ s.epoch
            ∧ (s.epoch < s'.epoch → ¬ s'.Queued f ∧ s'.loop.pc.hand f = .empty))
      ∧ (∀ last, s.lifecycle = .idle last → 0 < s.epoch → s.stopped = true →
        (f ∈ s.admitted → Key.spawned f ∈ s.fibers → (s.threads f).fiber.state ≠ .ready)
          ∧ ((s.threads f).pc.committed = true → (s.threads f).go = .absent →
            s.reaped.count f = 1)) := by
  have hs := sound_of_reach h₀ h
  constructor
  · intro hpc s' h'
    have hpast : s.Past s.epoch f :=
      ⟨by rw [show (s.life f).pc = _ from hpc]; rfl, run_le_epoch h₀ h f,
        fun hlt => absurd hlt (lt_irrefl _)⟩
    have hpast' := past_of_reach hs hpast h'
    refine ⟨hpast'.run, fun hk => ?_⟩
    obtain ⟨hq, hh⟩ := hpast'.offQueue hk
    exact ⟨fun hqueued => (State.queued_iff s' f).mp hqueued hq, hh⟩
  · intro last hidle hepoch hstop
    constructor
    · intro hadm hin hready
      -- a ready fiber has not been dispatched, so that the reap has had it
      have hcom := (hs.life f).listed.admitted (decide_eq_true hadm)
      have hgo := ((hs.life f).fiber.runnable (beq_iff_eq.mpr hready)).1
      have hreaped := reaped_between_runs (fun _ _ hl => hl) h₀ h hidle hepoch hstop hcom hgo
      have hout := ((hs.life f).reaped.gone (decide_eq_true hreaped)).inFibers
      exact of_decide_eq_false hout hin
    · intro hpc hgo
      have hreaped := reaped_between_runs (fun _ _ hl => hl) h₀ h hidle hepoch hstop hpc hgo
      exact List.count_eq_one_of_mem (reaped_nodup_of_reach h₀ h) hreaped

end

/-- The `Stop` of the first run has returned: fiber 0, which was never dispatched, has been reaped,
and no later run will dispatch it. -/
theorem runs_isolated_stopped :
    ∃ s, Reach (step (.ofNewRuntime .fifo 1)) (fun _ l => l ≠ .reset)
        (.new (.ofNewRuntime .fifo 1)) s
      ∧ s.epoch = 1 ∧ s.isRunning = false ∧ s.reaped.count 0 = 1
      ∧ ∀ s', Reach (step (.ofNewRuntime .fifo 1)) (fun _ l => l ≠ .reset) s s' →
        (s'.threads 0).run ≤ s.epoch
          ∧ (s.epoch < s'.epoch → ¬ s'.Queued 0 ∧ s'.loop.pc.hand 0 = .empty) := by
  obtain ⟨s, hs, htest⟩ := exists_reach_of_exec_guarded (step (.ofNewRuntime .fifo 1))
    (fun _ l => l ≠ .reset) (.new (.ofNewRuntime .fifo 1))
    (List.flatten [Label.startTrace, [.call false 0], Label.spawnTrace 0 9, Label.stopTrace 7])
    (fun s => decide (s.epoch = 1 ∧ s.isRunning = false ∧ s.stopped = true
      ∧ s.lifecycle = .idle (some (.ok ())) ∧ (s.threads 0).pc = .returned (.ok ())
      ∧ (s.threads 0).go = .absent))
    (by decide)
  obtain ⟨hepoch, hrun, hstop, hidle, hpc, hgo⟩ := of_decide_eq_true htest
  obtain ⟨hpast, hbetween⟩ := runs_isolated (.inl rfl) hs 0
  exact ⟨s, hs, hepoch, hrun,
    (hbetween _ hidle (by omega) hstop).2 (by rw [hpc]; rfl) hgo, hpast hpc⟩

end GreenThreads.Runtime
