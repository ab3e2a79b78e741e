import GreenThreads.Runtime.Step

/-!
# GreenThreads — what the steps of a runtime do

For each kind of thread, a relation with one constructor for each branch of its step function,
under the name of the place it is taken from (`SpawnEffect`, `LoopEffect`, `GoEffect`,
`LifecycleEffect`), and `Effect` for a step of the whole. A proof about a step goes through these
cases and does not unfold the functions.
-/

namespace GreenThreads.Runtime.State

open Scheduler (SchedulerType BaseScheduler)

variable (c : Config) (s : State)

/-! ## `Spawn` -/

/-- A step of `Spawn` call `f`; `Schedule` picks worker `w`. -/
inductive SpawnEffect (f : FiberID) (w : Nat) : State → Prop where
  | check (hpc : (s.threads f).pc = .check) (hmu : s.muHeld = false)
      (hrun : s.isRunning = true) :
      SpawnEffect f w (s.setThread f { s.threads f with
        pc := .reserve
        stackSize := validateStackSize s.stackSize })
  | notStarted (hpc : (s.threads f).pc = .check) (hmu : s.muHeld = false)
      (hrun : s.isRunning = false) :
      SpawnEffect f w (s.setPc f (.returned (.error .notStarted)))
  | reserve (hpc : (s.threads f).pc = .reserve)
      (hcap : ¬(0 < c.maxFibers ∧ c.maxFibers < s.activeFiberCount + 1)) :
      SpawnEffect f w ((s.addCount 1).setPc f .insert)
  | overCap (hpc : (s.threads f).pc = .reserve)
      (hcap : 0 < c.maxFibers ∧ c.maxFibers < s.activeFiberCount + 1) :
      SpawnEffect f w ((s.addCount 1).setPc f .unreserve)
  | unreserve (hpc : (s.threads f).pc = .unreserve) :
      SpawnEffect f w
        ((s.addCount (-1)).setPc f (.returned (.error (.maxFibersReached c.maxFibers))))
  | insert (hpc : (s.threads f).pc = .insert) :
      SpawnEffect f w ({ s with fibers := insert (Key.spawned f) s.fibers }.setPc f .schedule)
  | schedule (hpc : (s.threads f).pc = .schedule) (hstop : s.sched.base.stopped = false) :
      SpawnEffect f w (s.setPc f .enqueue)
  | refused (hpc : (s.threads f).pc = .schedule) (hstop : s.sched.base.stopped = true) :
      SpawnEffect f w (s.setPc f .unschedule)
  | enqueue (hpc : (s.threads f).pc = .enqueue) (hw : w < c.numQueues) :
      SpawnEffect f w ({ s with sched := s.sched.enqueue c.kind w f }.setPc f
        (if c.kind = SchedulerType.workStealing then .countScheduled else .readCtx))
  | countScheduled (hpc : (s.threads f).pc = .countScheduled) :
      SpawnEffect f w ({ s with sched := s.sched.countScheduled }.setPc f .readCtx)
  | unschedule (hpc : (s.threads f).pc = .unschedule) :
      SpawnEffect f w ({ s with fibers := s.fibers.erase (.spawned f) }.setPc f .unscheduleUndo)
  | unscheduleUndo (hpc : (s.threads f).pc = .unscheduleUndo) :
      SpawnEffect f w
        ((s.addCount (-1)).setPc f (.returned (.error (.schedule "scheduler stopped"))))
  | readCtx (hpc : (s.threads f).pc = .readCtx) (hmu : s.muHeld = false) :
      SpawnEffect f w (s.setPc f (.recheck s.runCtx))
  | recheck {runCtx} (hpc : (s.threads f).pc = .recheck runCtx) :
      SpawnEffect f w (s.setPc f (.commit (runCtx.any s.done)))
  | commit (hpc : (s.threads f).pc = .commit false) (hdrain : s.draining = false) :
      SpawnEffect f w ({ s with admitted := insert f s.admitted }.setPc f .recordCreated)
  | rollback {stopping} (hpc : (s.threads f).pc = .commit stopping)
      (hback : (stopping || s.draining) = true) :
      SpawnEffect f w ({ s with
          fibers := s.fibers.erase (.spawned f)
          admitted := s.admitted.erase f }.setPc f
        (.remove 0 (decide (Key.spawned f ∈ s.fibers))))
  | removeFound {v present} (hpc : (s.threads f).pc = .remove v present)
      (hmem : ⟨v, f⟩ ∈ s.sched.queue) :
      SpawnEffect f w ({ s with sched := s.sched.remove ⟨v, f⟩ }.setPc f (rolledBack present))
  | removeNext {v present} (hpc : (s.threads f).pc = .remove v present)
      (hmem : ⟨v, f⟩ ∉ s.sched.queue) (hmore : v + 1 < c.numQueues) :
      SpawnEffect f w (s.setPc f (.remove (v + 1) present))
  | removeLast {v present} (hpc : (s.threads f).pc = .remove v present)
      (hmem : ⟨v, f⟩ ∉ s.sched.queue) (hlast : c.numQueues ≤ v + 1) :
      SpawnEffect f w (s.setPc f (rolledBack present))
  | rollbackUndo (hpc : (s.threads f).pc = .rollbackUndo) :
      SpawnEffect f w ((s.addCount (-1)).setPc f (.returned (.error .stoppedDuringSpawn)))
  | recordCreated (hpc : (s.threads f).pc = .recordCreated) :
      SpawnEffect f w ({ s with
          metrics := s.metrics.recordFiberCreated (s.threads f).stackSize }.setPc f
        (.returned (.ok ())))

/-! ## The execution loop -/

/-- A step of the execution loop. -/
inductive LoopEffect : LoopChoice → State → Prop where
  | done (hpc : s.loop.pc = .select) (hdone : s.done s.epoch = true) :
      LoopEffect .done (s.setLoop .drain)
  | receive (hpc : s.loop.pc = .select ∨ s.loop.pc = .drain) (hpos : 0 < s.results s.epoch) :
      LoopEffect .result { s with
        results := Function.update s.results s.epoch (s.results s.epoch - 1)
        loop := { s.loop with active := s.loop.active - 1 } }
  | tick (hpc : s.loop.pc = .select) : LoopEffect .tick (s.setLoop .inner)
  | drained (hpc : s.loop.pc = .drain) (hzero : s.results s.epoch = 0) :
      LoopEffect .next (s.setLoop .exited)
  | look (hpc : s.loop.pc = .inner)
      (hfree : s.loop.active < c.numWorkers ∧ s.sched.base.stopped = false) :
      LoopEffect .next (s.setLoop .looking)
  | rest (hpc : s.loop.pc = .inner)
      (hfull : ¬(s.loop.active < c.numWorkers ∧ s.sched.base.stopped = false)) :
      LoopEffect .next (s.setLoop .select)
  | lookEmpty {w} (hpc : s.loop.pc = .looking)
      (hempty : (s.sched.filterFinished s.finished w).localQueue w = []) :
      LoopEffect (.look w none) { s with sched := s.sched.filterFinished s.finished w }
  | take {w f} (hpc : s.loop.pc = .looking)
      (hmay : Sched.mayTake c.kind ((s.sched.filterFinished s.finished w).localQueue w) f = true) :
      LoopEffect (.look w (some f))
        ({ s with sched := (s.sched.filterFinished s.finished w).take ⟨w, f⟩ }.setLoop (.holding f))
  | noFibers (hpc : s.loop.pc = .looking)
      (hempty : c.kind = .workStealing ∨ s.sched.localQueue 0 = []) :
      LoopEffect .noFibers (s.setLoop .select)
  | test {f} (hpc : s.loop.pc = .holding f)
      (hrunnable : (s.threads f).fiber.isRunnable = true) :
      LoopEffect .next (s.setLoop (.marking f))
  | drop {f} (hpc : s.loop.pc = .holding f)
      (hrunnable : (s.threads f).fiber.isRunnable = false) :
      LoopEffect .next (s.setLoop .inner)
  | mark {f} (hpc : s.loop.pc = .marking f) :
      LoopEffect .next
        ((s.setThread f { s.threads f with fiber := (s.threads f).fiber.markScheduled }).setLoop
          (.launching f))
  | launch {f} (hpc : s.loop.pc = .launching f) (hmu : s.muHeld = false) :
      LoopEffect .next (s.launch f)

/-! ## The dispatch goroutine of a fiber -/

/-- A step of the goroutine of fiber `f`; `drop` is what a full map loses. -/
inductive GoEffect (f : FiberID) (drop : Finset FiberID) : State → Prop where
  | run {fiber} (hgo : (s.threads f).go = .run)
      (hbegin : (s.threads f).fiber.runBegin = some fiber) :
      GoEffect f drop (s.setFiber f fiber .body)
  | skip (hgo : (s.threads f).go = .run) (hbegin : (s.threads f).fiber.runBegin = none) :
      GoEffect f drop (s.setGo f .recordCompleted)
  | body (hgo : (s.threads f).go = .body) :
      GoEffect f drop (s.setFiber f (s.threads f).fiber.runEnd .recordCompleted)
  | recordCompleted (hgo : (s.threads f).go = .recordCompleted)
      (htrims : Metrics.Trims (insert f s.metrics.completed) drop) :
      GoEffect f drop ({ s with
          metrics := s.metrics.recordFiberCompleted f (s.threads f).stackSize drop }.setGo f
        .markCompleted)
  | marked (hgo : (s.threads f).go = .markCompleted) (hmem : f ∈ s.sched.base.completed) :
      GoEffect f drop (s.setGo f .remove)
  | markCompleted (hgo : (s.threads f).go = .markCompleted) (hmem : f ∉ s.sched.base.completed)
      (hprunes : BaseScheduler.Prunes (insert f s.sched.base.completed) drop)
      (hkind : c.kind ≠ .workStealing) :
      GoEffect f drop
        ({ s with sched := (s.sched.countCompleted f drop).remove ⟨0, f⟩ }.setGo f .remove)
  | markCompletedFirst (hgo : (s.threads f).go = .markCompleted)
      (hmem : f ∉ s.sched.base.completed)
      (hprunes : BaseScheduler.Prunes (insert f s.sched.base.completed) drop)
      (hkind : c.kind = .workStealing) :
      GoEffect f drop ({ s with sched := s.sched.countCompleted f drop }.setGo f (.sweep 0))
  | sweep {w} (hgo : (s.threads f).go = .sweep w) :
      GoEffect f drop ({ s with sched := s.sched.sweep ⟨w, f⟩ }.setGo f
        (if w + 1 < c.numQueues then .sweep (w + 1) else .remove))
  | remove (hgo : (s.threads f).go = .remove) :
      GoEffect f drop ({ s with
          fibers := s.fibers.erase (.spawned f)
          admitted := s.admitted.erase f }.setGo f
        (if Key.spawned f ∈ s.fibers then .undo else .send))
  | undo (hgo : (s.threads f).go = .undo) :
      GoEffect f drop ((s.addCount (-1)).setGo f .send)
  | send (hgo : (s.threads f).go = .send) (hroom : s.results (s.threads f).run < 1024) :
      GoEffect f drop ((s.deliver (s.threads f).run).setGo f .ended)

/-! ## The holder of `lifecycleMu` -/

/-- A step of the holder of `lifecycleMu`. -/
inductive LifecycleEffect : State → Prop where
  | startSched {base} (hl : s.lifecycle = .startSched)
      (hstart : s.sched.base.start = (base, none)) :
      LifecycleEffect { s with
        sched := { s.sched with base := base }
        lifecycle := .startFibers }
  | startFailed {base e} (hl : s.lifecycle = .startSched)
      (hstart : s.sched.base.start = (base, some e)) :
      LifecycleEffect { s with lifecycle := .idle (some (.error (.startScheduler e))) }
  | startFibers (hl : s.lifecycle = .startFibers) :
      LifecycleEffect { s with
        mainFiber := some (s.mainFiber.getD s.mains)
        mains := if s.mainFiber.isNone then s.mains + 1 else s.mains
        fibers := insert (.main (s.mainFiber.getD s.mains)) s.fibers
        draining := false
        lifecycle := .startRun }
  | startRun (hl : s.lifecycle = .startRun) :
      LifecycleEffect { s with
        epoch := s.epoch + 1
        stopped := false
        loop := ⟨.select, 0⟩
        lifecycle := .idle (some (.ok ())) }
  | stopCancel (hl : s.lifecycle = .stopCancel) :
      LifecycleEffect { s with
        cancelled := insert s.epoch s.cancelled
        lifecycle := .stopSched }
  | stopSched (hl : s.lifecycle = .stopSched) :
      LifecycleEffect { s with
        sched := { s.sched with base := s.sched.base.stop.1 }
        lifecycle := .stopJoin s.sched.base.stop.2 }
  | stopJoin {err} (hl : s.lifecycle = .stopJoin err)
      (hexit : s.loop.pc = .exited) :
      LifecycleEffect { s with lifecycle := .clear (.stop err) 0 }
  | clearAtOnce {why w} (hl : s.lifecycle = .clear why w)
      (hatOnce : c.clearsAtOnce = true) :
      LifecycleEffect { s with
        sched := (s.sched.clearWorker 0).clearBase
        lifecycle := afterClear why }
  | clearWorker {why w} (hl : s.lifecycle = .clear why w)
      (hatOnce : c.clearsAtOnce = false) (hw : w < c.numQueues) :
      LifecycleEffect { s with
        sched := s.sched.clearWorker w
        lifecycle := .clear why (w + 1) }
  | clearBase {why w} (hl : s.lifecycle = .clear why w)
      (hatOnce : c.clearsAtOnce = false) (hw : c.numQueues ≤ w) :
      LifecycleEffect { s with sched := s.sched.clearBase, lifecycle := afterClear why }
  | reapScan {err} (hl : s.lifecycle = .reapScan err) :
      LifecycleEffect (s.reapStep err)
  | reaped {err} (hl : s.lifecycle = .reapUndo err []) :
      LifecycleEffect { s with lifecycle := .join err }
  | reapUndo {err f rest}
      (hl : s.lifecycle = .reapUndo err (f :: rest)) :
      LifecycleEffect { s.addCount (-1) with lifecycle := .reapRecord err f rest }
  | reapRecord {err f rest}
      (hl : s.lifecycle = .reapRecord err f rest) :
      LifecycleEffect { s with
        metrics := s.metrics.release (s.threads f).stackSize
        lifecycle := .reapUndo err rest }
  | join {err} (hl : s.lifecycle = .join err)
      (hzero : s.fiberWG s.epoch = 0) :
      LifecycleEffect { s with stopped := true, lifecycle := .idle (some (stopResult err)) }
  | resetMain (hl : s.lifecycle = .resetMain) :
      LifecycleEffect { s with mainFiber := none, lifecycle := .resetFibers }
  | resetFibers (hl : s.lifecycle = .resetFibers) :
      LifecycleEffect { s with
        fibers := ∅
        admitted := ∅
        draining := false
        lifecycle := .clear .reset 0 }
  | resetMetrics (hl : s.lifecycle = .resetMetrics) :
      LifecycleEffect { s with metrics := .new, lifecycle := .idle (some (.ok ())) }

/-! ## The whole runtime -/

/-- A step of the runtime. -/
inductive Effect : Label → State → Prop where
  | call {nilFn nameLen} : Effect (.call nilFn nameLen) (s.spawnCall nilFn nameLen)
  | spawn {f w s'} (h : s.SpawnEffect c f w s') : Effect (.spawn f w) s'
  | loop {choice s'} (h : s.LoopEffect c choice s') : Effect (.loop choice) s'
  | go {f drop s'} (h : s.GoEffect c f drop s') : Effect (.go f drop) s'
  | discard {f} (hgo : (s.threads f).go = .send) (hdone : s.done (s.threads f).run = true) :
      Effect (.discard f) (s.setGo f .ended)
  | goexit {f} (hgo : (s.threads f).go = .body) :
      Effect (.goexit f) (s.setFiber f (s.threads f).fiber.runEnd .ended)
  | block {f} (hgo : (s.threads f).go = .body) :
      Effect (.block f) (s.setFiber f (s.threads f).fiber.block .body)
  | unblock {f} (hgo : (s.threads f).go = .body) :
      Effect (.unblock f) (s.setFiber f (s.threads f).fiber.unblock .body)
  | start {last} (hidle : s.lifecycle = .idle last) :
      Effect .start { s with
        lifecycle := if !s.isRunning then .startSched else .idle (some (.error .alreadyRunning)) }
  | stop {last} (hidle : s.lifecycle = .idle last) :
      Effect .stop { s with
        lifecycle := if s.isRunning then .stopCancel else .idle (some (.ok ())) }
  | reset {last} (hidle : s.lifecycle = .idle last) :
      Effect .reset { s with
        lifecycle := if !s.isRunning then .resetMain else .idle (some (.error .alreadyRunning)) }
  | lifecycle {s'} (h : s.LifecycleEffect c s') : Effect .lifecycle s'
  | deadline {err} (hjoin : s.lifecycle = .join err) :
      Effect .deadline { s with
        stopped := true
        lifecycle := .idle (some (.error .stopDeadline)) }
  | cancelCtx (hepoch : 0 < s.epoch) :
      Effect .cancelCtx { s with cancelled := insert s.epoch s.cancelled }
  | setStackSize {size} (hmu : s.muHeld = false) :
      Effect (.setStackSize size) { s with stackSize := validateStackSize size }

/-! ## The step functions have these effects -/

variable {c s} {s' : State}

theorem spawnStep_effect {f : FiberID} {w : Nat} (h : s.spawnStep c f w = some s') :
    s.SpawnEffect c f w s' := by
  revert h
  unfold spawnStep
  cases hpc : (s.threads f).pc with
  | uncalled | returned => nofun
  | check =>
    intro h
    dsimp only at h
    split_ifs at h with hmu hrun <;> cases h
    · exact .check hpc (Bool.eq_false_iff.mpr hmu) hrun
    · exact .notStarted hpc (Bool.eq_false_iff.mpr hmu) (Bool.eq_false_iff.mpr hrun)
  | reserve =>
    rintro ⟨⟩
    split_ifs with hcap
    · exact .overCap hpc hcap
    · exact .reserve hpc hcap
  | schedule =>
    rintro ⟨⟩
    split_ifs with hstop
    · exact .refused hpc hstop
    · exact .schedule hpc (Bool.eq_false_iff.mpr hstop)
  | enqueue =>
    intro h
    dsimp only at h
    by_cases hw : w < c.numQueues
    · rw [if_pos hw, Option.some.injEq] at h
      exact h ▸ .enqueue hpc hw
    · rw [if_neg hw] at h
      cases h
  | readCtx =>
    intro h
    dsimp only at h
    split_ifs at h with hmu
    cases h
    exact .readCtx hpc (Bool.eq_false_iff.mpr hmu)
  | commit stopping =>
    intro h
    dsimp only at h
    split_ifs at h with hback <;> cases h
    · exact .rollback hpc hback
    · simp only [Bool.or_eq_true, not_or, Bool.not_eq_true] at hback
      exact .commit (hback.1 ▸ hpc) hback.2
  | remove v present =>
    intro h
    dsimp only at h
    split_ifs at h with hmem hmore <;> cases h
    · exact .removeFound hpc hmem
    · exact .removeNext hpc hmem hmore
    · exact .removeLast hpc hmem (Nat.le_of_not_lt hmore)
  | unreserve =>
    rintro ⟨⟩
    exact .unreserve hpc
  | insert =>
    rintro ⟨⟩
    exact .insert hpc
  | countScheduled =>
    rintro ⟨⟩
    exact .countScheduled hpc
  | unschedule =>
    rintro ⟨⟩
    exact .unschedule hpc
  | unscheduleUndo =>
    rintro ⟨⟩
    exact .unscheduleUndo hpc
  | recheck runCtx =>
    rintro ⟨⟩
    exact .recheck hpc
  | rollbackUndo =>
    rintro ⟨⟩
    exact .rollbackUndo hpc
  | recordCreated =>
    rintro ⟨⟩
    exact .recordCreated hpc

theorem receive_effect (hpc : s.loop.pc = .select ∨ s.loop.pc = .drain)
    (h : s.receive = some s') : s.LoopEffect c .result s' := by
  unfold receive at h
  split_ifs at h with hpos
  cases h
  exact .receive hpc hpos

theorem lookStep_effect {w : Nat} {found : Option FiberID} (hpc : s.loop.pc = .looking)
    (h : s.lookStep c w found = some s') : s.LoopEffect c (.look w found) s' := by
  unfold lookStep at h
  cases found with
  | none =>
    dsimp only at h
    split_ifs at h with hempty
    cases h
    exact .lookEmpty hpc hempty
  | some f =>
    dsimp only at h
    split_ifs at h with hmay
    cases h
    exact .take hpc hmay

theorem loopStep_effect {choice : LoopChoice} (h : s.loopStep c choice = some s') :
    s.LoopEffect c choice s' := by
  unfold loopStep at h
  cases hpc : s.loop.pc with
  | exited => simp [hpc] at h
  | select =>
    cases choice <;> simp only [hpc, reduceCtorEq, Option.some.injEq] at h
    · split_ifs at h with hdone
      cases h
      exact .done hpc hdone
    · exact receive_effect (.inl hpc) h
    · exact h ▸ .tick hpc
  | drain =>
    cases choice <;> simp only [hpc, reduceCtorEq] at h
    · exact receive_effect (.inr hpc) h
    · split_ifs at h with hzero
      cases h
      exact .drained hpc hzero
  | inner =>
    cases choice <;> simp only [hpc, reduceCtorEq, Option.some.injEq] at h
    subst h
    split_ifs with hfree
    · exact .look hpc hfree
    · exact .rest hpc hfree
  | looking =>
    cases choice <;> simp only [hpc, reduceCtorEq] at h
    · exact lookStep_effect hpc h
    · split_ifs at h with hempty
      cases h
      exact .noFibers hpc hempty
  | holding f =>
    cases choice <;> simp only [hpc, reduceCtorEq, Option.some.injEq] at h
    subst h
    split_ifs with hrunnable
    · exact .test hpc hrunnable
    · exact .drop hpc (Bool.eq_false_iff.mpr hrunnable)
  | marking f =>
    cases choice <;> simp only [hpc, reduceCtorEq, Option.some.injEq] at h
    exact h ▸ .mark hpc
  | launching f =>
    cases choice <;> simp only [hpc, reduceCtorEq] at h
    split_ifs at h with hmu
    cases h
    exact .launch hpc (Bool.eq_false_iff.mpr hmu)

theorem goStep_effect {f : FiberID} {drop : Finset FiberID} (h : s.goStep c f drop = some s') :
    s.GoEffect c f drop s' := by
  revert h
  unfold goStep
  cases hgo : (s.threads f).go with
  | absent | ended => nofun
  | run =>
    intro h
    dsimp only at h
    cases hbegin : (s.threads f).fiber.runBegin with
    | some fiber =>
      simp only [hbegin, Option.some.injEq] at h
      exact h ▸ .run hgo hbegin
    | none =>
      simp only [hbegin, Option.some.injEq] at h
      exact h ▸ .skip hgo hbegin
  | body =>
    rintro ⟨⟩
    exact .body hgo
  | recordCompleted =>
    intro h
    dsimp only at h
    split_ifs at h with htrims
    cases h
    exact .recordCompleted hgo htrims
  | markCompleted =>
    intro h
    dsimp only at h
    split_ifs at h with hmem hprunes hkind <;> cases h
    · exact .marked hgo hmem
    · exact .markCompletedFirst hgo hmem hprunes hkind
    · exact .markCompleted hgo hmem hprunes hkind
  | sweep w =>
    rintro ⟨⟩
    exact .sweep hgo
  | remove =>
    rintro ⟨⟩
    exact .remove hgo
  | undo =>
    rintro ⟨⟩
    exact .undo hgo
  | send =>
    intro h
    dsimp only at h
    split_ifs at h with hroom
    cases h
    exact .send hgo hroom

theorem lifecycleStep_effect (h : s.lifecycleStep c = some s') : s.LifecycleEffect c s' := by
  revert h
  unfold lifecycleStep
  cases hl : s.lifecycle with
  | idle => nofun
  | startSched =>
    intro h
    dsimp only at h
    split at h <;> cases h
    · next hstart => exact .startSched hl hstart
    · next hstart => exact .startFailed hl hstart
  | startFibers =>
    rintro ⟨⟩
    exact .startFibers hl
  | startRun =>
    rintro ⟨⟩
    exact .startRun hl
  | stopCancel =>
    rintro ⟨⟩
    exact .stopCancel hl
  | stopSched =>
    rintro ⟨⟩
    exact .stopSched hl
  | stopJoin err =>
    intro h
    dsimp only at h
    split_ifs at h with hexit
    cases h
    exact .stopJoin hl hexit
  | clear why w =>
    rintro ⟨⟩
    unfold clearStep
    split_ifs with hatOnce hw
    · exact .clearAtOnce hl hatOnce
    · exact .clearWorker hl (Bool.eq_false_iff.mpr hatOnce) hw
    · exact .clearBase hl (Bool.eq_false_iff.mpr hatOnce) (Nat.le_of_not_lt hw)
  | reapScan err =>
    rintro ⟨⟩
    exact .reapScan hl
  | reapUndo err reaped =>
    cases reaped with
    | nil =>
      rintro ⟨⟩
      exact .reaped hl
    | cons f rest =>
      rintro ⟨⟩
      exact .reapUndo hl
  | reapRecord err f rest =>
    rintro ⟨⟩
    exact .reapRecord hl
  | join err =>
    intro h
    dsimp only at h
    split_ifs at h with hzero
    cases h
    exact .join hl hzero
  | resetMain =>
    rintro ⟨⟩
    exact .resetMain hl
  | resetFibers =>
    rintro ⟨⟩
    exact .resetFibers hl
  | resetMetrics =>
    rintro ⟨⟩
    exact .resetMetrics hl

theorem bodyStep_effect {f : FiberID} {change : Fiber → Fiber}
    (h : s.bodyStep f change = some s') :
    (s.threads f).go = .body ∧ s' = s.setFiber f (change (s.threads f).fiber) .body := by
  unfold bodyStep at h
  split_ifs at h with hgo
  cases h
  exact ⟨hgo, rfl⟩

theorem begin_effect {enters : Bool} {first : Lifecycle} {r : Except LifecycleError Unit}
    (h : s.begin enters first r = some s') :
    ∃ last, s.lifecycle = .idle last
      ∧ s' = { s with lifecycle := if enters then first else .idle (some r) } := by
  unfold begin at h
  split at h <;> cases h
  exact ⟨_, ‹_›, rfl⟩

theorem step_effect {l : Label} (h : step c s l = some s') : s.Effect c l s' := by
  cases l with
  | call nilFn nameLen =>
    cases h
    exact .call
  | spawn f w => exact .spawn (spawnStep_effect h)
  | loop choice => exact .loop (loopStep_effect h)
  | go f drop => exact .go (goStep_effect h)
  | discard f =>
    simp only [step, discardStep] at h
    split_ifs at h with hgo
    cases h
    exact .discard hgo.1 hgo.2
  | goexit f =>
    simp only [step, goexitStep] at h
    split_ifs at h with hgo
    cases h
    exact .goexit hgo
  | block f =>
    obtain ⟨hgo, rfl⟩ := bodyStep_effect h
    exact .block hgo
  | unblock f =>
    obtain ⟨hgo, rfl⟩ := bodyStep_effect h
    exact .unblock hgo
  | start =>
    obtain ⟨last, hidle, rfl⟩ := begin_effect h
    exact .start hidle
  | stop =>
    obtain ⟨last, hidle, rfl⟩ := begin_effect h
    exact .stop hidle
  | reset =>
    obtain ⟨last, hidle, rfl⟩ := begin_effect h
    exact .reset hidle
  | lifecycle => exact .lifecycle (lifecycleStep_effect h)
  | deadline =>
    simp only [step, deadlineStep] at h
    split at h <;> cases h
    next hjoin => exact .deadline hjoin
  | cancelCtx =>
    simp only [step] at h
    split_ifs at h with hepoch
    cases h
    exact .cancelCtx hepoch
  | setStackSize size =>
    simp only [step] at h
    split_ifs at h with hmu
    cases h
    exact .setStackSize (Bool.eq_false_iff.mpr hmu)

end GreenThreads.Runtime.State
