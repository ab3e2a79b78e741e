import GreenThreads.Lib.Progress
import GreenThreads.Runtime.Runs
import Mathlib.Algebra.Order.BigOperators.Group.Finset

/-!
# GreenThreads — who waits for whom in a runtime

`Spawn`, the execution loop, the goroutines and the holder of `lifecycleMu` wait for one another in
few places: everybody for a `Start` that holds `rt.mu`, `Stop` for the execution loop and then for
the fibers in flight. Each kind of thread gets a rank, the number of steps it has before it at
most, where a step is one of `Runtime.step`.

* `spawn_bounded` — a `Spawn` call takes boundedly many steps, and none of them waits for anything
  but a `Start`;
* `State.loop_exits`, `State.joins`, `State.lifecycle_rests` — the loop of a cancelled run returns,
  the goroutines in flight end, and the holder of `lifecycleMu` gets on until it waits for them.
-/

namespace GreenThreads.Runtime

open Trans

/-! ## `Spawn` -/

/-- The steps that a `Spawn` call with `n` queues to look through has before it, at most. -/
def SpawnPc.rank (n : Nat) : SpawnPc → Nat
  | uncalled => n + 11
  | check => n + 11
  | reserve => n + 10
  | unreserve => 1
  | insert => n + 9
  | schedule => n + 8
  | enqueue => n + 7
  | countScheduled => n + 6
  | unschedule => 2
  | unscheduleUndo => 1
  | readCtx => n + 5
  | recheck _ => n + 4
  | commit _ => n + 3
  | remove w _ => n - w + 2
  | rollbackUndo => 1
  | recordCreated => 1
  | returned _ => 0

/-- The steps of `Spawn` call `f`. -/
def Label.isStepOf (f : FiberID) : Label → Bool
  | spawn g _ => g == f
  | _ => false

namespace State

variable {c : Config} {s s' : State} {l : Label} {f : FiberID}

theorem rank_rolledBack (n : Nat) (present : Bool) : (rolledBack present).rank n ≤ 1 := by
  cases present <;> simp [rolledBack, SpawnPc.rank]

/-- Every step of a `Spawn` call lowers its rank. -/
theorem spawnStep_rank {w : Nat} (h : s.spawnStep c f w = some s') :
    (s'.threads f).pc.rank c.numQueues < (s.threads f).pc.rank c.numQueues := by
  have hself : ∀ (t : State) (pc : SpawnPc), ((t.setPc f pc).threads f).pc = pc := by
    intro t pc
    simp [setPc, setThread]
  cases spawnStep_effect h with
  | check hpc =>
    rw [hpc]
    simp [setThread, SpawnPc.rank]
  | notStarted hpc | reserve hpc | overCap hpc | unreserve hpc | insert hpc | schedule hpc
  | refused hpc | countScheduled hpc | unschedule hpc | unscheduleUndo hpc | readCtx hpc
  | recheck hpc | commit hpc | rollback hpc | rollbackUndo hpc | recordCreated hpc =>
    rw [hpc, hself]
    simp [SpawnPc.rank]
  | enqueue hpc =>
    rw [hpc, hself]
    split_ifs <;> simp [SpawnPc.rank]
  | @removeFound v present hpc | @removeLast v present hpc =>
    rw [hpc, hself]
    have hrolled := rank_rolledBack c.numQueues present
    show (rolledBack present).rank c.numQueues < c.numQueues - v + 2
    omega
  | @removeNext v present hpc _ hmore =>
    rw [hpc, hself]
    show c.numQueues - (v + 1) + 2 < c.numQueues - v + 2
    omega

/-- Nobody else moves a `Spawn` call. -/
theorem step_spawnRank (hs : s.Sound c) (h : step c s l = some s') (hl : l.isStepOf f = false) :
    (s'.threads f).pc.rank c.numQueues ≤ (s.threads f).pc.rank c.numQueues := by
  by_cases hpc : (s'.threads f).pc = (s.threads f).pc
  · rw [hpc]
  · rcases step_pc h hpc with rfl | ⟨w, rfl⟩
    · -- the call is being made
      have huncalled : (s.threads s.calls).pc = .uncalled := hs.uncalled s.calls le_rfl
      rw [huncalled]
      cases hpc' : (s'.threads s.calls).pc with
      | remove w present =>
        show c.numQueues - w + 2 ≤ c.numQueues + 11
        omega
      | _ => simp [SpawnPc.rank]
    · simp [Label.isStepOf] at hl

/-- The only thing a `Spawn` call waits for is a `Start` that holds `rt.mu`. -/
theorem spawnStep_isSome (hmade : (s.threads f).pc ≠ .uncalled)
    (hopen : ∀ r, (s.threads f).pc ≠ .returned r) (hmu : s.muHeld = false) :
    (s.spawnStep c f 0).isSome = true := by
  unfold spawnStep
  cases hpc : (s.threads f).pc with
  | uncalled => exact absurd hpc hmade
  | returned r => exact absurd hpc (hopen r)
  | check =>
    simp only [hmu, Bool.false_eq_true, if_false]
    split_ifs <;> rfl
  | enqueue => simp [c.numQueues_pos]
  | readCtx => simp [hmu]
  | commit | remove =>
    dsimp only
    split_ifs <;> rfl
  | reserve | unreserve | insert | schedule | countScheduled | unschedule | unscheduleUndo
  | recheck | rollbackUndo | recordCreated => rfl

/-- While a `Start` holds `rt.mu`, it does not wait itself. -/
theorem lifecycleStep_isSome_of_muHeld (h : s.muHeld = true) :
    (s.lifecycleStep c).isSome = true := by
  unfold lifecycleStep
  cases hlife : s.lifecycle with
  | startSched =>
    dsimp only
    split <;> rfl
  | startFibers | startRun => rfl
  | _ => simp [muHeld, hlife] at h

end State

/-- In every run, whatever the others do: the steps of a `Spawn` call are bounded by a number that
depends on the number of queues alone. It is a bound for `spawnStep`, of which a step takes in the
sections that only number the fiber, record an event or read the length of a queue. As long as the
call has not returned, its next step is enabled, unless a `Start` holds `rt.mu`; and then the next
step of that `Start` is. -/
theorem spawn_bounded {c : Config} {s₀ s : State} {ls : List Label} (h₀ : Initial c s₀)
    (h : exec (step c) s₀ ls = some s) (f : FiberID) :
    ls.countP (Label.isStepOf f) ≤ c.numQueues + 11
      ∧ ((s.threads f).pc ≠ .uncalled → (∀ r, (s.threads f).pc ≠ .returned r) →
        (s.muHeld = false → (step c s (.spawn f 0)).isSome = true)
          ∧ (s.muHeld = true → (step c s .lifecycle).isSome = true)) := by
  constructor
  · have hcount := countP_add_rank_le (step c)
      (fun s => (s.threads f).pc.rank c.numQueues) (Label.isStepOf f)
      (P := State.Sound c) (fun _ _ _ hs hstep => hs.step hstep)
      (fun s l s' _ hstep hl => by
        cases l with
        | spawn g w =>
          obtain rfl : g = f := by simpa [Label.isStepOf] using hl
          exact State.spawnStep_rank hstep
        | _ => cases hl)
      (fun s l s' hs hstep hl => State.step_spawnRank hs hstep hl) h₀.sound h
    have hstart : (s₀.threads f).pc = .uncalled := congrArg Life.pc (h₀.life f)
    have hrank : SpawnPc.rank c.numQueues .uncalled = c.numQueues + 11 := rfl
    rw [hstart, hrank] at hcount
    omega
  · intro hmade hopen
    exact ⟨State.spawnStep_isSome hmade hopen, State.lifecycleStep_isSome_of_muHeld⟩

/-- A call made while a `Start` is under way waits for it. -/
theorem spawn_bounded_waiting :
    ∃ s, exec (step (.ofNewRuntime .fifo 1)) (.new (.ofNewRuntime .fifo 1))
        [.start, .call false 0] = some s
      ∧ (s.threads 0).pc = .check ∧ s.muHeld = true
      ∧ (step (.ofNewRuntime .fifo 1) s .lifecycle).isSome = true := by
  obtain ⟨s, hs, hpc, hmu⟩ : ∃ s, exec (step (.ofNewRuntime .fifo 1))
      (.new (.ofNewRuntime .fifo 1)) [.start, .call false 0] = some s
      ∧ (s.threads 0).pc = .check ∧ s.muHeld = true := ⟨_, rfl, by decide, by decide⟩
  exact ⟨s, hs, hpc, hmu,
    ((spawn_bounded (.inl rfl) hs 0).2 (by simp [hpc]) (by simp [hpc])).2 hmu⟩

/-! ## The execution loop -/

/-- The steps that the loop of a cancelled run has before it, at most: a fiber that `Next` hands
out takes up to five, a result one. -/
def State.loopRank (s : State) : Nat :=
  match s.loop.pc with
  | .exited => 0
  | .drain => s.results s.epoch + 1
  | .select => s.results s.epoch + 2
  | .looking => s.results s.epoch + 3 + 6 * s.sched.queue.length
  | .inner => s.results s.epoch + 4 + 6 * s.sched.queue.length
  | .launching _ => s.results s.epoch + 5 + 6 * s.sched.queue.length
  | .marking _ => s.results s.epoch + 6 + 6 * s.sched.queue.length
  | .holding _ => s.results s.epoch + 7 + 6 * s.sched.queue.length

namespace State

variable {c : Config} {s s' : State} {l : Label} {f : FiberID}

theorem mem_localQueue {q : Sched} {w : Nat} (h : f ∈ q.localQueue w) : ⟨w, f⟩ ∈ q.queue := by
  obtain ⟨e, he, rfl⟩ := List.mem_map.mp h
  obtain ⟨hmem, hw⟩ := List.mem_filter.mp he
  obtain rfl : e.worker = w := by simpa using hw
  exact hmem

/-- A queue that `filterFinished` has emptied has got shorter. -/
theorem length_filterFinished_lt {q : Sched} {finished : FiberID → Bool} {w : Nat}
    (h : q.localQueue w ≠ []) (hempty : (q.filterFinished finished w).localQueue w = []) :
    (q.filterFinished finished w).queue.length < q.queue.length := by
  obtain ⟨f, hf⟩ := List.exists_mem_of_ne_nil _ h
  refine List.length_filter_lt_length_iff_exists.mpr ⟨⟨w, f⟩, mem_localQueue hf, fun hkept => ?_⟩
  have hmem : f ∈ (q.filterFinished finished w).localQueue w :=
    List.mem_map.mpr ⟨⟨w, f⟩, List.mem_filter.mpr
      ⟨List.mem_filter.mpr ⟨mem_localQueue hf, hkept⟩, by simp⟩, rfl⟩
  rw [hempty] at hmem
  cases hmem

/-- What `Next` takes is gone from the queue. -/
theorem length_take_lt {q : Sched} {finished : FiberID → Bool} {w : Nat}
    (h : ⟨w, f⟩ ∈ (q.filterFinished finished w).queue) :
    ((q.filterFinished finished w).take ⟨w, f⟩).queue.length < q.queue.length :=
  calc ((q.filterFinished finished w).take ⟨w, f⟩).queue.length
      < (q.filterFinished finished w).queue.length := by
        simp only [Sched.take, List.length_erase_of_mem h]
        exact Nat.sub_lt (List.length_pos_of_mem h) Nat.one_pos
    _ ≤ q.queue.length := List.length_filter_le ..

/-- `Next` comes to an end: the queues are empty, or there is one it can take a fiber from. -/
theorem exists_loopStep_looking (h : s.loop.pc = .looking) :
    ∃ choice s', s.loopStep c choice = some s' ∧ s'.loopRank < s.loopRank := by
  by_cases hnone : s.sched.queue = []
  · have hqueue : s.sched.localQueue 0 = [] := by simp [Sched.localQueue, hnone]
    refine ⟨.noFibers, s.setLoop .select, by simp only [loopStep, h, if_pos (Or.inr hqueue)], ?_⟩
    simp only [loopRank, setLoop, h]
    omega
  · obtain ⟨⟨w, g⟩, hg⟩ := List.exists_mem_of_ne_nil _ hnone
    have hqueue : s.sched.localQueue w ≠ [] :=
      List.ne_nil_of_mem (List.mem_map.mpr ⟨⟨w, g⟩, List.mem_filter.mpr ⟨hg, by simp⟩, rfl⟩)
    cases hleft : (s.sched.filterFinished s.finished w).localQueue w with
    | nil =>
      -- all that is left in the queue has finished: it is dropped, and `Next` looks on
      have hlt := length_filterFinished_lt hqueue hleft
      refine ⟨.look w none, { s with sched := s.sched.filterFinished s.finished w },
        by simp only [loopStep, h, lookStep, if_pos hleft], ?_⟩
      simp only [loopRank, h]
      omega
    | cons f rest =>
      have hmem : ⟨w, f⟩ ∈ (s.sched.filterFinished s.finished w).queue :=
        mem_localQueue (hleft ▸ List.mem_cons_self)
      have htake : Sched.mayTake c.kind (f :: rest) f = true := by
        cases c.kind <;> simp [Sched.mayTake]
      have hlength := length_take_lt hmem
      refine ⟨.look w (some f), _, by
        simp only [loopStep, h, lookStep, hleft, if_pos htake]; rfl, ?_⟩
      simp only [loopRank, setLoop, h]
      omega

/-- Once the run is cancelled, the loop always has a step that brings it nearer to its return. -/
theorem exists_loopStep (hdone : s.done s.epoch = true) (hmu : s.muHeld = false)
    (hpc : s.loop.pc ≠ .exited) :
    ∃ choice s', s.loopStep c choice = some s' ∧ s'.loopRank < s.loopRank := by
  cases h : s.loop.pc with
  | exited => exact absurd h hpc
  | select =>
    refine ⟨.done, s.setLoop .drain, by simp [loopStep, h, hdone], ?_⟩
    simp [loopRank, setLoop, h]
  | drain =>
    by_cases hzero : s.results s.epoch = 0
    · refine ⟨.next, s.setLoop .exited, by simp [loopStep, h, hzero], ?_⟩
      simp [loopRank, setLoop, h]
    · have hreceive : s.loopStep c .result = s.receive := by simp only [loopStep, h]
      rw [receive, if_pos (Nat.pos_of_ne_zero hzero)] at hreceive
      refine ⟨.result, _, hreceive, ?_⟩
      simp only [loopRank, h, Function.update_self]
      omega
  | inner =>
    refine ⟨.next, _, by simp only [loopStep, h]; rfl, ?_⟩
    split_ifs <;> simp only [loopRank, setLoop, h] <;> omega
  | looking => exact exists_loopStep_looking h
  | holding f =>
    refine ⟨.next, _, by simp only [loopStep, h]; rfl, ?_⟩
    split_ifs <;> simp only [loopRank, setLoop, h] <;> omega
  | marking f =>
    refine ⟨.next, _, by simp only [loopStep, h]; rfl, ?_⟩
    simp only [loopRank, setLoop, setThread, h]
    omega
  | launching f =>
    refine ⟨.next, s.launch f, by simp [loopStep, h, hmu], ?_⟩
    simp only [loopRank, launch, setThread, h]
    omega

/-- The loop of a cancelled run can return, with no help but its own. -/
theorem loop_exits (hdone : s.done s.epoch = true) (hmu : s.muHeld = false) :
    ∃ s', Reach (step c) (fun _ l => ∃ choice, l = .loop choice) s s'
      ∧ s'.lifecycle = s.lifecycle ∧ s'.loop.pc = .exited := by
  obtain ⟨s', hrun, ⟨hlife, -⟩, hexit⟩ := exists_reach_of_rank (step c)
    (fun _ l => ∃ choice, l = .loop choice) loopRank
    (P := fun t => t.lifecycle = s.lifecycle ∧ t.done t.epoch = true)
    (Q := fun t => t.loop.pc = .exited) (s := s) (fun t ⟨hlife, hdone⟩ hpc => by
      have hmu' : t.muHeld = false := by simpa only [muHeld, hlife] using hmu
      obtain ⟨choice, t', ht, hrank⟩ := exists_loopStep (c := c) hdone hmu' hpc
      have hframe := (loopStep_frame ht).1
      refine ⟨.loop choice, t', ⟨choice, rfl⟩, ht, ⟨hframe.lifecycle.trans hlife, ?_⟩, hrank⟩
      rwa [done, hframe.run.1, hframe.run.2.1]) ⟨rfl, hdone⟩
  exact ⟨s', hrun, hlife, hexit⟩

end State

/-! ## The goroutines -/

/-- The steps that a goroutine has before it, at most. -/
def GoPc.rank (n : Nat) : GoPc → Nat
  | absent | ended => 0
  | run => n + 9
  | body => n + 8
  | recordCompleted => n + 7
  | markCompleted => n + 6
  | sweep w => n - w + 4
  | remove => 3
  | undo => 2
  | send => 1

/-- The steps that the goroutines of the current run have before them, at most. -/
def State.goRank (c : Config) (s : State) : Nat :=
  ∑ f ∈ Finset.range s.calls,
    if (s.threads f).run = s.epoch then (s.threads f).go.rank c.numQueues else 0

theorem Metrics.exists_trims (completed : Finset FiberID) : ∃ drop, Trims completed drop := by
  obtain ⟨drop, hsub, hcard⟩ := Finset.exists_subset_card_eq (s := completed)
    (n := if 16384 < completed.card then completed.card - 8192 else 0) (by split_ifs <;> omega)
  exact ⟨drop, hsub, hcard⟩

theorem exists_prunes (completed : Finset FiberID) :
    ∃ drop, Scheduler.BaseScheduler.Prunes completed drop := by
  obtain ⟨drop, hsub, hcard⟩ := Finset.exists_subset_card_eq (s := completed)
    (n := if 4096 < completed.card then 2048 else 0) (by split_ifs <;> omega)
  exact ⟨drop, hsub, hcard⟩

namespace State

variable {c : Config} {s s' : State} {l : Label} {f : FiberID}

theorem goStep_rank {drop : Finset FiberID} (h : s.goStep c f drop = some s') :
    (s'.threads f).go.rank c.numQueues < (s.threads f).go.rank c.numQueues := by
  have hself : ∀ (t : State) (go : GoPc), ((t.setGo f go).threads f).go = go := by
    intro t go
    simp [setGo, setThread]
  cases goStep_effect h with
  | run hgo | body hgo =>
    rw [hgo]
    simp [setFiber, setThread, GoPc.rank]
  | skip hgo | recordCompleted hgo | marked hgo | markCompleted hgo | markCompletedFirst hgo
  | undo hgo | send hgo =>
    rw [hgo, hself]
    simp [GoPc.rank]
  | sweep hgo =>
    rw [hgo, hself]
    split_ifs <;> simp only [GoPc.rank] <;> omega
  | remove hgo =>
    rw [hgo, hself]
    split_ifs <;> simp [GoPc.rank]

/-- The only thing a goroutine waits for is room in the result channel. -/
theorem exists_goStep (hlive : (s.threads f).go ≠ .absent ∧ (s.threads f).go ≠ .ended)
    (hroom : (s.threads f).go = .send → s.results (s.threads f).run < 1024) :
    ∃ drop s', s.goStep c f drop = some s' := by
  cases h : (s.threads f).go with
  | absent => exact absurd h hlive.1
  | ended => exact absurd h hlive.2
  | run =>
    refine ⟨∅, ?_⟩
    cases hrun : (s.threads f).fiber.runBegin <;> simp [goStep, h, hrun]
  | recordCompleted =>
    obtain ⟨drop, hdrop⟩ := Metrics.exists_trims (insert f s.metrics.completed)
    exact ⟨drop, by simp [goStep, h, hdrop]⟩
  | markCompleted =>
    obtain ⟨drop, hdrop⟩ := exists_prunes (insert f s.sched.base.completed)
    refine ⟨drop, ?_⟩
    simp only [goStep, h, if_pos hdrop]
    split_ifs <;> simp
  | send => exact ⟨∅, by simp [goStep, h, hroom h]⟩
  | body | sweep w | remove | undo => exact ⟨∅, by simp [goStep, h]⟩

/-- In a cancelled run it need not wait for that either. -/
theorem exists_goStep_of_done (hlive : (s.threads f).go ≠ .absent ∧ (s.threads f).go ≠ .ended)
    (hdone : s.done (s.threads f).run = true) :
    ∃ l s', ((∃ drop, l = .go f drop) ∨ l = .discard f) ∧ step c s l = some s'
      ∧ (s'.threads f).go.rank c.numQueues < (s.threads f).go.rank c.numQueues := by
  by_cases hsend : (s.threads f).go = .send
  · refine ⟨.discard f, s.setGo f .ended, .inr rfl, ?_, ?_⟩
    · simp only [step, discardStep, if_pos (And.intro hsend hdone)]
    · simp [setGo, setThread, hsend, GoPc.rank]
  · obtain ⟨drop, s', h⟩ := exists_goStep (c := c) hlive fun h => absurd h hsend
    exact ⟨.go f drop, s', .inl ⟨drop, rfl⟩, h, goStep_rank h⟩

/-- A step of a goroutine of the current run brings them all nearer to their end. -/
theorem goRank_lt (h : step c s l = some s') (hl : (∃ drop, l = .go f drop) ∨ l = .discard f)
    (hf : f < s.calls) (hrun : (s.threads f).run = s.epoch)
    (hlt : (s'.threads f).go.rank c.numQueues < (s.threads f).go.rank c.numQueues) :
    s'.goRank c < s.goRank c := by
  have hframe : s.Frame s' := step_frame h (by rcases hl with ⟨_, rfl⟩ | rfl <;> rfl)
  have hothers : ∀ g, g ≠ f → s'.threads g = s.threads g := by
    intro g hne
    cases step_moves h g with
    | rest ht => exact ht
    | go hl' => rcases hl with ⟨_, rfl⟩ | rfl <;> simp [hne.symm] at hl'
    | body hl' => rcases hl with ⟨_, rfl⟩ | rfl <;> simp at hl'
    | call | spawn | mark | launch => simp at hl
  have hown : (s'.threads f).run = (s.threads f).run := by
    cases step_moves h f with
    | launch => simp at hl
    | rest ht | call _ ht | spawn _ _ ht | mark _ ht | body _ _ ht | go _ ht => rw [ht]
  rw [goRank, goRank, hframe.calls, hframe.run.1]
  refine Finset.sum_lt_sum (fun g _ => ?_) ⟨f, Finset.mem_range.mpr hf, ?_⟩
  · by_cases hne : g = f
    · subst hne
      rw [if_pos hrun, if_pos (hown.trans hrun)]
      exact hlt.le
    · rw [hothers g hne]
  · rw [if_pos hrun, if_pos (hown.trans hrun)]
    exact hlt

/-- A `Stop` that waits for the fibers in flight sees them all done, if their functions return. -/
theorem joins {err : Option String} (hjoin : s.lifecycle = .join err)
    (hdone : s.done s.epoch = true) :
    ∃ s', Reach (step c) (fun _ l => (∃ f drop, l = .go f drop) ∨ ∃ f, l = .discard f) s s'
      ∧ s'.lifecycle = .join err ∧ s'.fiberWG s'.epoch = 0 := by
  obtain ⟨s', hrun, ⟨hlife, -⟩, hzero⟩ := exists_reach_of_rank (step c)
    (fun _ l => (∃ f drop, l = .go f drop) ∨ ∃ f, l = .discard f) (goRank c)
    (P := fun t => t.lifecycle = .join err ∧ t.done t.epoch = true)
    (Q := fun t => t.fiberWG t.epoch = 0) (s := s) (fun t ⟨hlife, hdone⟩ hpos => by
      obtain ⟨f, hf⟩ := Finset.card_pos.mp (Nat.pos_of_ne_zero hpos)
      obtain ⟨hcalls, hepoch, hlive⟩ := Finset.mem_filter.mp hf
      obtain ⟨l, t', hl, ht, hlt⟩ := exists_goStep_of_done (c := c) hlive (hepoch ▸ hdone)
      have hframe : t.Frame t' := step_frame ht (by rcases hl with ⟨_, rfl⟩ | rfl <;> rfl)
      refine ⟨l, t', hl.imp (fun h => ⟨f, h⟩) (fun h => ⟨f, h⟩), ht,
        ⟨hframe.lifecycle.trans hlife, ?_⟩,
        goRank_lt ht hl (Finset.mem_range.mp hcalls) hepoch hlt⟩
      rwa [done, hframe.run.1, hframe.run.2.1]) ⟨hjoin, hdone⟩
  exact ⟨s', hrun, hlife, hzero⟩

end State

/-! ## The holder of `lifecycleMu` -/

/-- The steps that the holder of `lifecycleMu` has before it, at most, until it waits or is done;
`n` is the number of queues and `calls` that of the fibers there may be to reap. -/
def Lifecycle.rank (n calls : Nat) : Lifecycle → Nat
  | idle _ | stopJoin _ | join _ => 0
  | startSched => 3
  | startFibers => 2
  | startRun => 1
  | stopCancel => 2
  | stopSched => 1
  | clear _ w => n - w + 2 * calls + 4
  | reapScan _ => 2 * calls + 2
  | reapUndo _ reaped => 2 * reaped.length + 1
  | reapRecord _ _ reaped => 2 * reaped.length + 2
  | resetMain => n + 2 * calls + 6
  | resetFibers => n + 2 * calls + 5
  | resetMetrics => 1

/-- Where the holder of `lifecycleMu` waits, or is done. -/
def Lifecycle.rests : Lifecycle → Bool
  | idle _ | stopJoin _ | join _ => true
  | _ => false

/-- A `Stop` that has not come past the execution loop. -/
def Lifecycle.beforeLoop : Lifecycle → Bool
  | stopCancel | stopSched | stopJoin _ => true
  | _ => false

/-- What the holder of `lifecycleMu` leaves behind when it returns, without a deadline. -/
def Lifecycle.ReturnsInTime (p : Lifecycle) : Prop :=
  ∀ last, p = .idle last → ∃ r, last = some r ∧ r ≠ .error .stopDeadline

namespace State

variable {c : Config} {s s' : State}

theorem length_reapable_le (s : State) : s.reapable.length ≤ s.calls := by
  have h := List.length_filter_le (fun f => decide (Key.spawned f ∈ s.fibers)
    && decide (f ∈ s.admitted) && (s.threads f).fiber.isRunnable) (List.range s.calls)
  rwa [List.length_range] at h

theorem afterClear_rank (n calls : Nat) (why : Clearing) :
    (afterClear why).rank n calls ≤ 2 * calls + 2 := by
  cases why <;> simp [afterClear, Lifecycle.rank]

theorem stopResult_ne_stopDeadline (err : Option String) :
    stopResult err ≠ .error .stopDeadline := by
  cases err <;> simp [stopResult]

/-- Where the holder of `lifecycleMu` does not wait, its step brings it nearer to where it does,
on the same side of the wait for the loop. -/
theorem exists_lifecycleStep (h : s.lifecycle.rests = false) :
    ∃ s', s.lifecycleStep c = some s'
      ∧ s'.lifecycle.rank c.numQueues s'.calls < s.lifecycle.rank c.numQueues s.calls
      ∧ s'.lifecycle.beforeLoop = s.lifecycle.beforeLoop ∧ s'.lifecycle.ReturnsInTime := by
  cases hlife : s.lifecycle with
  | idle | stopJoin | join => simp [hlife, Lifecycle.rests] at h
  | startSched =>
    cases hstart : s.sched.base.start with
    | mk base e =>
      cases e <;>
        simp [lifecycleStep, hlife, hstart, Lifecycle.rank, Lifecycle.beforeLoop,
          Lifecycle.ReturnsInTime]
  | clear why w =>
    refine ⟨s.clearStep c why w, by simp [lifecycleStep, hlife], ?_⟩
    have hrank := afterClear_rank c.numQueues s.calls why
    have hafter : (afterClear why).beforeLoop = false ∧ (afterClear why).ReturnsInTime := by
      cases why <;> simp [afterClear, Lifecycle.beforeLoop, Lifecycle.ReturnsInTime]
    unfold clearStep
    split_ifs with hatOnce hw
    · refine ⟨?_, hafter⟩
      show (afterClear why).rank c.numQueues s.calls < c.numQueues - w + 2 * s.calls + 4
      omega
    · refine ⟨?_, rfl, by simp [Lifecycle.ReturnsInTime]⟩
      show c.numQueues - (w + 1) + 2 * s.calls + 4 < c.numQueues - w + 2 * s.calls + 4
      omega
    · refine ⟨?_, hafter⟩
      show (afterClear why).rank c.numQueues s.calls < c.numQueues - w + 2 * s.calls + 4
      omega
  | reapScan err =>
    have := s.length_reapable_le
    refine ⟨s.reapStep err, by simp [lifecycleStep, hlife], ?_, rfl, by
      simp [Lifecycle.ReturnsInTime, reapStep]⟩
    simp only [reapStep, Lifecycle.rank]
    omega
  | reapUndo err reaped =>
    cases reaped <;>
      simp [lifecycleStep, hlife, Lifecycle.rank, Lifecycle.beforeLoop, Lifecycle.ReturnsInTime,
        addCount]
    omega
  | startFibers | startRun | stopCancel | stopSched | reapRecord | resetMain | resetFibers
  | resetMetrics =>
    simp [lifecycleStep, hlife, Lifecycle.rank, Lifecycle.beforeLoop, Lifecycle.ReturnsInTime]

/-- The holder of `lifecycleMu` comes to where it waits, or returns, on its own. -/
theorem lifecycle_rests (hbusy : s.lifecycle.ReturnsInTime) :
    ∃ s', Reach (step c) (fun t l => l = .lifecycle ∧ t.lifecycle.rests = false) s s'
      ∧ s'.lifecycle.rests = true ∧ s'.lifecycle.beforeLoop = s.lifecycle.beforeLoop
      ∧ s'.lifecycle.ReturnsInTime := by
  obtain ⟨s', hrun, ⟨hside, hreturns⟩, hrests⟩ := exists_reach_of_rank (step c)
    (fun t l => l = .lifecycle ∧ t.lifecycle.rests = false)
    (fun t => t.lifecycle.rank c.numQueues t.calls)
    (P := fun t => t.lifecycle.beforeLoop = s.lifecycle.beforeLoop ∧ t.lifecycle.ReturnsInTime)
    (Q := fun t => t.lifecycle.rests = true) (s := s) (fun t ⟨hside, _⟩ hrests => by
      have hbusy : t.lifecycle.rests = false := Bool.eq_false_iff.mpr hrests
      obtain ⟨t', ht, hrank, hside', hreturns⟩ := exists_lifecycleStep (c := c) hbusy
      exact ⟨.lifecycle, t', ⟨rfl, hbusy⟩, ht, ⟨hside'.trans hside, hreturns⟩, hrank⟩) ⟨rfl, hbusy⟩
  exact ⟨s', hrun, hrests, hside, hreturns⟩

end State

end GreenThreads.Runtime
