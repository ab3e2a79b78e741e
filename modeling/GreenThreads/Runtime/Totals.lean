import GreenThreads.Runtime.Counters

/-!
# GreenThreads — fibers scheduled and fibers completed

The scheduler of a runtime counts what `Schedule` has put into a queue and what `MarkCompleted` has
been told of. Three things let the second counter overtake the first:

* `Stop` clears the scheduler, totals included, before it waits for the fibers in flight, and a
  `Reset` clears it while fibers are running that a `Stop` did not wait for;
* the work-stealing `Schedule` counts a fiber after it has put it into a queue;
* the `Clear` of a priority or work-stealing scheduler empties the queues first, so that a fiber may
  be put into a queue and counted before the totals are set back, and still be there afterwards.

Where none of them happens, what has been counted as completed and what is *owed* is together no
more than what has been counted as scheduled.
-/

namespace GreenThreads.Runtime

open Trans
open Scheduler (BaseScheduler)

/-- `Schedule` has counted the fiber. -/
def SpawnPc.counted (pc : SpawnPc) : Bool := pc.published && decide (pc ≠ .countScheduled)

/-- The goroutine of the fiber has still to call `MarkCompleted`. -/
def GoPc.unmarked : GoPc → Bool
  | run | body | recordCompleted | markCompleted => true
  | _ => false

/-! ## What a fiber owes -/

namespace Life

variable {n : Nat} {v v' : Life} {e : Event}

/-- The fiber has been counted as scheduled, and its `MarkCompleted` is still to come. -/
def owed (v : Life) : Bool :=
  v.pc.counted && (v.go.unmarked || decide (v.queuedAt ≠ []) || decide (v.hand ≠ .empty))

theorem owed_iff : v.owed = true ↔ v.pc.counted = true
    ∧ (v.go.unmarked = true ∨ v.queuedAt ≠ [] ∨ v.hand ≠ .empty) := by
  simp [owed, or_assoc]

theorem unmarked_of_next {go go' : GoPc} (h : GoPc.Next go go') (hmark : go'.unmarked = true) :
    go.unmarked = true := by
  cases h with
  | begin | skip | ends | record => rfl
  | undo | send => cases hmark
  | mark h | sweep h | remove h => rcases h with rfl | rfl <;> cases hmark

/-- A fiber is counted in the section that puts it into a queue or in the one after. -/
theorem Step.counted_or (h : v.Step n e v') (hc : v'.pc.counted = true) :
    v.pc.counted = true ∨ v.pc = .enqueue ∨ v.pc = .countScheduled := by
  cases h with
  | enqueue h => exact .inr (.inl h)
  | countScheduled h => exact .inr (.inr h)
  | readCtx h | recheck h | commit h | rollback h | removeFound h | removeNext h
  | removeMissing h | rollbackUndo h | recordCreated h => exact .inl (by rw [h]; rfl)
  | call _ hpc => rcases hpc with rfl | rfl | rfl <;> cases hc
  | reserve _ hpc | schedule _ hpc => rcases hpc with rfl | rfl <;> cases hc
  | checked | notStarted | unreserve | insert | unschedule | unscheduleUndo => cases hc
  | _ => exact .inl hc

/-- A fiber that is counted and owes nothing does not come to owe again. -/
theorem Step.owed (h : v.Step n e v') (hpc : v.pc.counted = true) (hd : v'.owed = true) :
    v.owed = true := by
  rw [owed_iff] at hd ⊢
  refine ⟨hpc, h.coming ?_ unmarked_of_next rfl hd.2⟩
  intro hq
  rw [hq] at hpc
  cases hpc

/-- Whose `MarkCompleted` is over owes nothing. -/
theorem Sound.not_owed (hs : v.Sound n) (hgo : v.go ≠ .absent) (hmark : v.go.unmarked = false) :
    v.owed = false := by
  refine Bool.eq_false_iff.mpr fun hd => ?_
  obtain ⟨-, hrec | hplace⟩ := owed_iff.mp hd
  · rw [hmark] at hrec
    cases hrec
  · exact hgo (hs.placed.go_absent hplace.symm)

end Life

/-! ## The totals -/

namespace State

/-- The step is the section of `Clear` that sets the totals back. -/
def zeroes (c : Config) (s : State) : Bool :=
  match s.lifecycle with
  | .clear _ w => decide (c.clearsAtOnce = true ∨ c.numQueues ≤ w)
  | _ => false

/-- The step changes the totals, or may do so. -/
inductive Tallies (c : Config) (s : State) : Label → Prop where
  | scheduled {f : FiberID} {w : Nat}
      (hpc : (s.threads f).pc = .enqueue ∨ (s.threads f).pc = .countScheduled) :
      Tallies c s (.spawn f w)
  | completed {f : FiberID} {drop : Finset FiberID} (hgo : (s.threads f).go = .markCompleted) :
      Tallies c s (.go f drop)
  | cleared (hz : s.zeroes c = true) : Tallies c s .lifecycle

def totals (s : State) : Nat × Nat := (s.sched.base.totalScheduled, s.sched.base.totalCompleted)

variable {c : Config} {s s' : State} {l : Label} {f : FiberID}

theorem lifecycleStep_totals (h : s.lifecycleStep c = some s') (hz : s.zeroes c = false) :
    s'.totals = s.totals := by
  cases lifecycleStep_effect h with
  | startSched _ hstart =>
    have hbase := congrArg Prod.fst hstart
    dsimp only at hbase
    simp only [totals, ← hbase, BaseScheduler.start]
    split_ifs <;> rfl
  | stopSched =>
    simp only [totals, BaseScheduler.stop]
    split_ifs <;> rfl
  | clearAtOnce hl hatOnce => simp [zeroes, hl, hatOnce] at hz
  | clearBase hl _ hw => simp [zeroes, hl, hw] at hz
  | _ => rfl

/-- The other steps leave the totals alone. -/
theorem step_totals (h : step c s l = some s') (hno : ¬ s.Tallies c l) :
    s'.totals = s.totals := by
  cases step_effect h with
  | spawn hspawn =>
    cases hspawn with
    | enqueue hpc => exact absurd (.scheduled (.inl hpc)) hno
    | countScheduled hpc => exact absurd (.scheduled (.inr hpc)) hno
    | _ => rfl
  | loop =>
    obtain ⟨threads, loop, results, switches, queue, rfl⟩ := loopStep_writes h
    rfl
  | go hgo =>
    cases hgo with
    | marked hgo | markCompleted hgo | markCompletedFirst hgo =>
      exact absurd (.completed hgo) hno
    | _ => rfl
  | lifecycle =>
    exact lifecycleStep_totals h (Bool.eq_false_iff.mpr fun hz => hno (.cleared hz))
  | _ => rfl

end State

/-! ## The invariant -/

/-- A completion is counted when the fiber has been counted as scheduled, and the totals are set
back when no fiber that has been counted is running or, where that is not the section that empties
the queue, in a queue. -/
def CountsScheduled (c : Config) (s : State) : Label → Prop
  | .go f _ => (s.threads f).go = .markCompleted → (s.threads f).pc ≠ .countScheduled
  | .lifecycle => s.zeroes c = true → ∀ f ∈ Finset.range s.calls, (s.threads f).pc.counted = true →
      (s.threads f).go.unmarked = false ∧ (c.clearsAtOnce = false → s.sched.workersOf f = [])
  | _ => True

instance (c : Config) (s : State) : (l : Label) → Decidable (CountsScheduled c s l)
  | .go _ _ => inferInstanceAs (Decidable (_ → _))
  | .lifecycle => inferInstanceAs (Decidable (_ → _))
  | .call _ _ | .spawn _ _ | .loop _ | .discard _ | .goexit _ | .block _ | .unblock _ | .start
  | .stop | .reset | .deadline | .cancelCtx | .setStackSize _ => isTrue trivial

namespace State

variable {c : Config} {s s' : State} {l : Label} {f : FiberID}

/-- The fibers that have been counted as scheduled and whose `MarkCompleted` is still to come. -/
def owed (s : State) : Finset FiberID := (Finset.range s.calls).filter fun f => (s.life f).owed

theorem Sound.mem_owed (hs : s.Sound c) : f ∈ s.owed ↔ (s.life f).owed = true := by
  simp only [State.owed, Finset.mem_filter, Finset.mem_range, and_iff_right_iff_imp]
  intro hd
  refine hs.lt_calls fun hpc => ?_
  have hcounted := (Life.owed_iff.mp hd).1
  rw [hpc] at hcounted
  cases hcounted

/-- A fiber comes to owe when `Schedule` counts it. -/
theorem Sound.owed_or_scheduled (hs : s.Sound c) (h : Runtime.step c s l = some s')
    (hf : f ∈ s'.owed) :
    f ∈ s.owed ∨ ((s.threads f).pc = .enqueue ∨ (s.threads f).pc = .countScheduled)
      ∧ ∃ w, l = .spawn f w := by
  have hd := (hs.step h).mem_owed.mp hf
  have hcounted := (Life.owed_iff.mp hd).1
  rcases (hs.step_life h f).counted_or hcounted with hpc | hpc
  · -- counted before: it owed then, too
    exact .inl (hs.mem_owed.mpr ((hs.step_life h f).owed hpc hd))
  · right
    have hplace : (s.threads f).pc = .enqueue ∨ (s.threads f).pc = .countScheduled := hpc
    have hmoved : (s'.threads f).pc ≠ (s.threads f).pc := by
      intro heq
      rw [show (s'.life f).pc = (s'.threads f).pc from rfl, heq] at hcounted
      rcases hplace with hpc | hpc <;> rw [hpc] at hcounted <;> cases hcounted
    rcases step_pc h hmoved with rfl | hturn
    · rw [show (s.life s.calls).pc = _ from hs.uncalled _ le_rfl] at hpc
      rcases hpc with hpc | hpc <;> cases hpc
    · exact ⟨hplace, hturn⟩

theorem Sound.owed_subset (hs : s.Sound c) (h : Runtime.step c s l = some s')
    (hl : ¬ ∃ f w, l = .spawn f w
      ∧ ((s.threads f).pc = .enqueue ∨ (s.threads f).pc = .countScheduled)) :
    s'.owed ⊆ s.owed := by
  intro f hf
  refine (hs.owed_or_scheduled h hf).resolve_right ?_
  rintro ⟨hpc, w, hturn⟩
  exact hl ⟨f, w, hturn, hpc⟩

/-- The totals leave room for the completions to come. -/
def Tallied (s : State) : Prop :=
  Backlog s.sched.base.totalScheduled s.sched.base.totalCompleted s.owed

theorem Tallied.of_totals {taken done : Nat} (htotals : s.totals = (taken, done))
    (h : Backlog taken done s.owed) : s.Tallied := by
  cases htotals
  exact h

theorem Sound.owed_subset_insert {w : Nat} (hs : s.Sound c)
    (h : Runtime.step c s (.spawn f w) = some s') : s'.owed ⊆ insert f s.owed := by
  intro g hg
  rcases hs.owed_or_scheduled h hg with hold | ⟨-, w', hturn⟩
  · exact Finset.mem_insert_of_mem hold
  · cases hturn
    exact Finset.mem_insert_self ..

theorem Tallied.enqueued {w : Nat} (ht : s.Tallied) (hs : s.Sound c)
    (h : step c s (.spawn f w) = some s') (hpc : (s.threads f).pc = .enqueue) : s'.Tallied := by
  have hs' := hs.step h
  have hsub := hs.owed_subset_insert h
  simp only [step, spawnStep, hpc] at h
  split_ifs at h with hw hkind <;> rw [Option.some.injEq] at h
  · -- work stealing puts the fiber into a queue and counts it later
    have htotals : s'.totals = s.totals := by
      rw [← h]
      simp [totals, setPc, setThread, Sched.enqueue, hkind]
    have hpc' : (s'.life f).pc = .countScheduled := by
      rw [← h]
      simp [life, setPc, setThread]
    refine .of_totals htotals (ht.mono fun g hg => ?_)
    refine Finset.mem_of_mem_insert_of_ne (hsub hg) ?_
    rintro rfl
    have hcounted := (Life.owed_iff.mp (hs'.mem_owed.mp hg)).1
    rw [hpc'] at hcounted
    cases hcounted
  · refine .of_totals ?_ (ht.takeOn hsub)
    rw [← h]
    simp [totals, setPc, setThread, Sched.enqueue, hkind]

theorem Tallied.counted {w : Nat} (ht : s.Tallied) (hs : s.Sound c)
    (h : step c s (.spawn f w) = some s') (hpc : (s.threads f).pc = .countScheduled) :
    s'.Tallied := by
  refine .of_totals ?_ (ht.takeOn (hs.owed_subset_insert h))
  simp only [step, spawnStep, hpc, Option.some.injEq] at h
  rw [← h]
  rfl

/-- `MarkCompleted` counts one completion, or none of a fiber it has in its map. -/
theorem markCompleted_totals {drop : Finset FiberID} (h : step c s (.go f drop) = some s')
    (hgo : (s.threads f).go = .markCompleted) :
    s'.sched.base.totalScheduled = s.sched.base.totalScheduled
      ∧ s'.sched.base.totalCompleted ≤ s.sched.base.totalCompleted + 1 := by
  simp only [step, goStep, hgo] at h
  split_ifs at h <;> cases h
  · exact ⟨rfl, Nat.le_succ _⟩
  · exact ⟨rfl, le_rfl⟩
  · exact ⟨rfl, le_rfl⟩

theorem Tallied.completed {drop : Finset FiberID} (ht : s.Tallied) (hs : s.Sound c)
    (h : step c s (.go f drop) = some s') (hgo : (s.threads f).go = .markCompleted)
    (hpc : (s.threads f).pc ≠ .countScheduled) : s'.Tallied := by
  have hsub := hs.owed_subset h (by rintro ⟨g, w, hl, -⟩; cases hl)
  have howed : f ∈ s.owed := by
    have hlive : (s.life f).go = .markCompleted := hgo
    refine hs.mem_owed.mpr (Life.owed_iff.mpr ⟨?_, .inl (by rw [hlive]; rfl)⟩)
    -- a fiber with a goroutine has been in a queue
    have hpub : (s.life f).pc.published = true := by
      by_contra hnot
      have habsent := (hs.life f).placed.go_absent_of_not_published (Bool.eq_false_iff.mpr hnot)
      rw [hlive] at habsent
      cases habsent
    rw [SpawnPc.counted, hpub]
    exact decide_eq_true hpc
  have hgone : f ∉ s'.owed := by
    have hnext : (s'.threads f).go = .remove ∨ (s'.threads f).go = .sweep 0 := by
      have hnext := goStep_next h
      rw [hgo] at hnext
      generalize (s'.threads f).go = go at hnext ⊢
      cases hnext with
      | mark h => exact h
    rw [(hs.step h).mem_owed, Bool.not_eq_true]
    refine ((hs.step h).life f).not_owed ?_ ?_ <;>
      rw [show (s'.life f).go = (s'.threads f).go from rfl]
    · rcases hnext with hgo' | hgo' <;> rw [hgo'] <;> exact nofun
    · rcases hnext with hgo' | hgo' <;> rw [hgo'] <;> rfl
  -- one completion more at most, and one fiber less that owes
  obtain ⟨hscheduled, hcompleted⟩ := markCompleted_totals h hgo
  rw [Tallied, hscheduled]
  exact ht.settle hsub howed hgone hcompleted

/-- While the scheduler is cleared the loop has no fiber in its hand. -/
theorem Sound.hand_of_clear {why : Clearing} {w : Nat} (hs : s.Sound c)
    (hl : s.lifecycle = .clear why w) : s.loop.pc.hand f = .empty := by
  have hok := (hs.life f).shared
  simp only [Shared.Ok, show (s.life f).shared.lifecycle = s.lifecycle from rfl, hl] at hok
  have hloop : (s.life f).shared.looping = false := by
    cases why with
    | stop => exact hok.2.2
    | reset => exact hok.2.1
  by_contra hhand
  have hlooping := (hs.life f).placed.looping hhand
  rw [hloop] at hlooping
  cases hlooping

theorem zeroes_iff : s.zeroes c = true ↔ ∃ why w, s.lifecycle = .clear why w
    ∧ (c.clearsAtOnce = true ∨ c.numQueues ≤ w) := by
  unfold zeroes
  split
  · rename_i why w hl
    simp [hl]
  · rename_i hl
    simp only [Bool.false_eq_true, false_iff]
    rintro ⟨why, w, heq, -⟩
    exact hl why w heq

/-- The section that sets the totals back. Where it is all of `Clear` it empties the queue too. -/
theorem clearStep_zeroes (f : FiberID) (why : Clearing) {w : Nat} (hs : s.Sound c)
    (hz : c.clearsAtOnce = true ∨ c.numQueues ≤ w) :
    (s.clearStep c why w).totals = (0, 0) ∧ (s.clearStep c why w).threads = s.threads
      ∧ (s.clearStep c why w).loop = s.loop
      ∧ ((c.clearsAtOnce = false → s.sched.workersOf f = []) →
        (s.clearStep c why w).sched.workersOf f = []) := by
  by_cases honce : c.clearsAtOnce = true
  · rw [clearStep, if_pos honce]
    refine ⟨rfl, rfl, rfl, fun _ => ?_⟩
    have hzero : ∀ w ∈ s.sched.workersOf f, w = 0 := by
      intro w hw
      have hlt := (hs.life f).placed.queues w hw
      rw [c.single_of_clearsAtOnce honce] at hlt
      omega
    show (s.sched.clearWorker 0).workersOf f = []
    rw [Sched.workersOf_clearWorker, List.filter_eq_nil_iff]
    intro w hw
    simp [hzero w hw]
  · rw [clearStep, if_neg honce, if_neg (Nat.not_lt.mpr (hz.resolve_left honce))]
    exact ⟨rfl, rfl, rfl, fun hqueue => hqueue (Bool.eq_false_iff.mpr honce)⟩

theorem Tallied.cleared (hs : s.Sound c) (hok : CountsScheduled c s .lifecycle)
    (h : step c s .lifecycle = some s') (hz : s.zeroes c = true) : s'.Tallied := by
  have hsub := hs.owed_subset h (by rintro ⟨g, w, hl, -⟩; cases hl)
  have hs' := hs.step h
  obtain ⟨why, w, hl, hlast⟩ := zeroes_iff.mp hz
  simp only [step, lifecycleStep, hl, Option.some.injEq] at h
  subst h
  have hzeroes := fun f => clearStep_zeroes f why hs hlast
  refine .of_totals (hzeroes 0).1 (.restart (Finset.eq_empty_of_forall_notMem fun f hf => ?_))
  obtain ⟨-, hthreads, hloop, hempty⟩ := hzeroes f
  -- the fiber was counted before, so the condition says where it is not
  have hcounted := (Life.owed_iff.mp (hs.mem_owed.mp (hsub hf))).1
  obtain ⟨hmark, hqueue⟩ := hok hz f (Finset.mem_of_mem_filter f (hsub hf)) hcounted
  -- neither in its goroutine, nor in a queue, nor in the hand of the loop
  rcases (Life.owed_iff.mp (hs'.mem_owed.mp hf)).2 with hgo | hqueued | hhand
  · rw [show (life _ f).go = _ from congrArg Thread.go (congrFun hthreads f), hmark] at hgo
    cases hgo
  · exact hqueued (hempty hqueue)
  · refine hhand ?_
    show (s.clearStep c why w).loop.pc.hand f = .empty
    rw [hloop]
    exact hs.hand_of_clear hl

theorem Tallied.step (ht : s.Tallied) (hs : s.Sound c) (hok : CountsScheduled c s l)
    (h : step c s l = some s') : s'.Tallied := by
  by_cases hno : s.Tallies c l
  · cases hno with
    | scheduled hpc =>
      rcases hpc with hpc | hpc
      · exact ht.enqueued hs h hpc
      · exact ht.counted hs h hpc
    | completed hgo => exact ht.completed hs h hgo (hok hgo)
    | cleared hz => exact .cleared hs hok h hz
  · refine .of_totals (step_totals h hno) (ht.mono (hs.owed_subset h ?_))
    rintro ⟨f, w, rfl, hpc⟩
    exact hno (.scheduled hpc)

end State

/-- **Totals.** In runs in which a completion is counted after the schedule of the fiber, and the
totals are set back when nothing that was counted is still to complete, no scheduler ever has
more completions than schedules. -/
theorem totalCompleted_le_totalScheduled {c : Config} {s₀ s : State} (h₀ : Initial c s₀)
    (h : Reach (step c) (CountsScheduled c) s₀ s) :
    s.sched.base.totalCompleted ≤ s.sched.base.totalScheduled := by
  have hinit : s₀.Tallied := by rcases h₀ with rfl | rfl <;> exact Nat.le_refl 0
  have htallied : s.Tallied :=
    sound_invariant h₀.sound hinit (fun _ _ _ hs ht hok hst => ht.step hs hok hst) h
  exact htallied.le

/-- Under work stealing, a fiber completes, the runtime is stopped and started again, and a second
fiber completes. -/
theorem totalCompleted_le_totalScheduled_restarted :
    ∃ s, Reach (step (.ofNewRuntime .workStealing 1))
        (CountsScheduled (.ofNewRuntime .workStealing 1)) (.new (.ofNewRuntime .workStealing 1)) s
      ∧ s.epoch = 2 ∧ s.sched.base.totalCompleted = 1
      ∧ s.sched.base.totalCompleted ≤ s.sched.base.totalScheduled := by
  obtain ⟨s, hs, htest⟩ := exists_reach_of_exec_guarded (step (.ofNewRuntime .workStealing 1))
    (CountsScheduled (.ofNewRuntime .workStealing 1)) (.new (.ofNewRuntime .workStealing 1))
    (List.flatten [Label.startTrace, [.call false 0], Label.spawnTrace 0 10, Label.dispatchTrace 0,
      List.replicate 7 (.go 0 ∅), [.loop .next, .loop .result], Label.stopTrace 6,
      Label.startTrace, [.call false 0], Label.spawnTrace 1 10, Label.dispatchTrace 1,
      List.replicate 3 (.go 1 ∅)])
    (fun s => decide (s.epoch = 2 ∧ s.sched.base.totalCompleted = 1))
    (by decide +kernel)
  obtain ⟨hepoch, hdone⟩ := of_decide_eq_true htest
  exact ⟨s, hs, hepoch, hdone, totalCompleted_le_totalScheduled (.inl rfl) hs⟩

/-- The three ways to overtake. A `Stop` clears the totals while the only fiber is running; a fiber
completes before the work-stealing `Schedule` has counted it; and a fiber is put into the heap that
a `Stop` has just emptied, is counted before the totals are set back, and runs after the next
`Start`. -/
theorem totalCompleted_overtakes :
    (∃ s, Reach (step (.ofNewRuntime .fifo 1)) anyStep (.new (.ofNewRuntime .fifo 1)) s
      ∧ s.sched.base.totalScheduled = 0 ∧ s.sched.base.totalCompleted = 1)
    ∧ (∃ s, Reach (step (.ofNewRuntime .workStealing 1)) (fun _ l => l ≠ .stop)
        (.new (.ofNewRuntime .workStealing 1)) s
      ∧ s.sched.base.totalScheduled = 0 ∧ s.sched.base.totalCompleted = 1)
    ∧ ∃ s, Reach (step (.ofNewRuntime .priority 1)) anyStep (.new (.ofNewRuntime .priority 1)) s
      ∧ s.epoch = 2 ∧ s.sched.base.totalScheduled = 0 ∧ s.sched.base.totalCompleted = 1 := by
  refine ⟨?_, ?_, ?_⟩
  · obtain ⟨s, hs, htest⟩ := exists_reach_of_exec (step (.ofNewRuntime .fifo 1))
      (.new (.ofNewRuntime .fifo 1))
      (List.flatten [Label.startTrace, [.call false 0], Label.spawnTrace 0 9,
        Label.dispatchTrace 0, [.loop .next], Label.stopTrace 2, List.replicate 3 (.go 0 ∅)])
      (fun s => decide (s.sched.base.totalScheduled = 0 ∧ s.sched.base.totalCompleted = 1))
      (by decide +kernel)
    exact ⟨s, hs, of_decide_eq_true htest⟩
  · obtain ⟨s, hs, htest⟩ := exists_reach_of_exec_guarded (step (.ofNewRuntime .workStealing 1))
      (fun _ l => l ≠ .stop) (.new (.ofNewRuntime .workStealing 1))
      (List.flatten [Label.startTrace, [.call false 0], Label.spawnTrace 0 5,
        Label.dispatchTrace 0, List.replicate 3 (.go 0 ∅)])
      (fun s => decide (s.sched.base.totalScheduled = 0 ∧ s.sched.base.totalCompleted = 1))
      (by decide +kernel)
    exact ⟨s, hs, of_decide_eq_true htest⟩
  · obtain ⟨s, hs, htest⟩ := exists_reach_of_exec (step (.ofNewRuntime .priority 1))
      (.new (.ofNewRuntime .priority 1))
      (List.flatten [Label.startTrace, [.call false 0], Label.spawnTrace 0 4, Label.stopTrace 2,
        Label.spawnTrace 0 1, List.replicate 4 .lifecycle, Label.startTrace,
        Label.dispatchTrace 0, List.replicate 3 (.go 0 ∅)])
      (fun s => decide (s.epoch = 2 ∧ s.sched.base.totalScheduled = 0
        ∧ s.sched.base.totalCompleted = 1))
      (by decide +kernel)
    exact ⟨s, hs, of_decide_eq_true htest⟩

end GreenThreads.Runtime
