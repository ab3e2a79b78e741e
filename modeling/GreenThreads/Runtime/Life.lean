import GreenThreads.Runtime.Effects

/-!
# GreenThreads — the life of one fiber

What the runtime does to one fiber can be told without the others: its `Spawn` call moves on,
it enters and leaves `rt.fibers`, `rt.admitted`, a run queue and the hand of the execution
loop, its goroutine runs; and the state of the run, which all fibers share, changes under it.
`Life` is that projection, `Life.Step` says what can happen to it, and `step_life` shows that
every step of the runtime is such a step for every fiber.
-/

namespace GreenThreads.Runtime

open Scheduler (SchedulerType BaseScheduler)

/-! ## The projection -/

/-- What the execution loop holds of one fiber. -/
inductive Hand where
  | empty
  | holding
  | marking
  | launching
  deriving DecidableEq, Repr

def LoopPc.hand (pc : LoopPc) (f : FiberID) : Hand :=
  match pc with
  | .holding g => if g = f then .holding else .empty
  | .marking g => if g = f then .marking else .empty
  | .launching g => if g = f then .launching else .empty
  | _ => .empty

/-- The decrements of `activeFiberCount` a reap still owes for fiber `f`. -/
def Lifecycle.reaping (l : Lifecycle) (f : FiberID) : Nat :=
  match l with
  | .reapUndo _ reaped => reaped.count f
  | .reapRecord _ _ reaped => reaped.count f
  | _ => 0

/-- The state of the run. -/
structure Shared where
  lifecycle : Lifecycle
  epoch : Nat
  cancelled : Finset Nat
  draining : Bool
  stopped : Bool
  looping : Bool

/-- The workers in whose queues fiber `f` stands, one entry for each time. -/
def Sched.workersOf (s : Sched) (f : FiberID) : List Nat :=
  (s.queue.filter fun e => e.fiber == f).map Entry.worker

/-- One fiber and the run. -/
@[ext]
structure Life where
  pc : SpawnPc
  fiber : Fiber
  go : GoPc
  inFibers : Bool
  admitted : Bool
  queuedAt : List Nat
  hand : Hand
  reaping : Nat
  reaped : Bool
  shared : Shared

namespace State

variable (s : State)

def shared : Shared :=
  ⟨s.lifecycle, s.epoch, s.cancelled, s.draining, s.stopped, decide (s.loop.pc ≠ .exited)⟩

def life (f : FiberID) : Life where
  pc := (s.threads f).pc
  fiber := (s.threads f).fiber
  go := (s.threads f).go
  inFibers := decide (Key.spawned f ∈ s.fibers)
  admitted := decide (f ∈ s.admitted)
  queuedAt := s.sched.workersOf f
  hand := s.loop.pc.hand f
  reaping := s.lifecycle.reaping f
  reaped := decide (f ∈ s.reaped)
  shared := s.shared

end State

/-! ## What can happen -/

/-- The steps of one fiber's life that the accounting and the admission rules look at. -/
inductive Event where
  | tau
  | call
  /-- An atomic addition to `activeFiberCount` on behalf of this fiber. -/
  | add (d : Int)
  | commit
  | rollback
  | pop
  | goexit
  /-- `Start` opens the drain gate. -/
  | startFibers
  /-- `Reset` replaces the maps. -/
  | resetFibers
  deriving DecidableEq, Repr

/-- The change an event makes to `activeFiberCount`. -/
def Event.delta : Event → Int
  | .add d => d
  | _ => 0

/-- A step that changes the state of the run and nothing about the fiber. `n` is the number of
run queues. -/
inductive Shared.Step (n : Nat) (r : Shared) : Shared → Prop where
  | idle {last} (last' : Option (Except LifecycleError Unit)) (h : r.lifecycle = .idle last) :
      Step n r { r with lifecycle := .idle last' }
  | startBegin {last} (h : r.lifecycle = .idle last) (hs : r.epoch = 0 ∨ r.stopped = true) :
      Step n r { r with lifecycle := .startSched }
  | startFail (last : Option (Except LifecycleError Unit)) (h : r.lifecycle = .startSched) :
      Step n r { r with lifecycle := .idle last }
  | startSched (h : r.lifecycle = .startSched) : Step n r { r with lifecycle := .startFibers }
  | startRun (last : Option (Except LifecycleError Unit)) (h : r.lifecycle = .startRun) :
      Step n r { r with
        epoch := r.epoch + 1
        stopped := false
        looping := true
        lifecycle := .idle last }
  | stopBegin {last} (h : r.lifecycle = .idle last) (he : 0 < r.epoch) (hs : r.stopped = false) :
      Step n r { r with lifecycle := .stopCancel }
  | stopCancel (h : r.lifecycle = .stopCancel) :
      Step n r { r with cancelled := insert r.epoch r.cancelled, lifecycle := .stopSched }
  | stopSched (err : Option String) (h : r.lifecycle = .stopSched) :
      Step n r { r with lifecycle := .stopJoin err }
  | stopJoin {err} (h : r.lifecycle = .stopJoin err) (hl : r.looping = false) :
      Step n r { r with lifecycle := .clear (.stop err) 0 }
  | clearBase {why w} (h : r.lifecycle = .clear why w) (hw : n ≤ w) :
      Step n r { r with lifecycle := State.afterClear why }
  | reapDone {err} (h : r.lifecycle = .reapUndo err []) :
      Step n r { r with lifecycle := .join err }
  | reapRecord {err f reaped} (h : r.lifecycle = .reapRecord err f reaped) :
      Step n r { r with lifecycle := .reapUndo err reaped }
  | joined {err} (last : Option (Except LifecycleError Unit)) (h : r.lifecycle = .join err) :
      Step n r { r with stopped := true, lifecycle := .idle last }
  | resetBegin {last} (h : r.lifecycle = .idle last) (hs : r.epoch = 0 ∨ r.stopped = true) :
      Step n r { r with lifecycle := .resetMain }
  | resetMain (h : r.lifecycle = .resetMain) : Step n r { r with lifecycle := .resetFibers }
  | resetMetrics (last : Option (Except LifecycleError Unit)) (h : r.lifecycle = .resetMetrics) :
      Step n r { r with lifecycle := .idle last }
  | cancelCtx (he : 0 < r.epoch) : Step n r { r with cancelled := insert r.epoch r.cancelled }

/-- A step in the life of a fiber. -/
inductive Life.Step (n : Nat) (v : Life) : Event → Life → Prop where
  | stutter : Step n v .tau v
  | shared {r} (h : v.shared.Step n r) : Step n v .tau { v with shared := r }
  -- `Spawn`
  | call {pc} (h : v.pc = .uncalled)
      (hpc : pc = .check ∨ pc = .returned (.error .nilFunction)
        ∨ pc = .returned (.error .nameTooLong)) : Step n v .call { v with pc := pc }
  | checked (h : v.pc = .check) (he : 0 < v.shared.epoch) : Step n v .tau { v with pc := .reserve }
  | notStarted (h : v.pc = .check) :
      Step n v .tau { v with pc := .returned (.error .notStarted) }
  | reserve {pc} (h : v.pc = .reserve) (hpc : pc = .unreserve ∨ pc = .insert) :
      Step n v (.add 1) { v with pc := pc }
  | unreserve {limit} (h : v.pc = .unreserve) :
      Step n v (.add (-1)) { v with pc := .returned (.error (.maxFibersReached limit)) }
  | insert (h : v.pc = .insert) : Step n v .tau { v with inFibers := true, pc := .schedule }
  | schedule {pc} (h : v.pc = .schedule) (hpc : pc = .unschedule ∨ pc = .enqueue) :
      Step n v .tau { v with pc := pc }
  | enqueue {w pc} (h : v.pc = .enqueue) (hw : w < n)
      (hpc : pc = .countScheduled ∨ pc = .readCtx) :
      Step n v .tau { v with queuedAt := v.queuedAt ++ [w], pc := pc }
  | countScheduled (h : v.pc = .countScheduled) : Step n v .tau { v with pc := .readCtx }
  | unschedule (h : v.pc = .unschedule) :
      Step n v .tau { v with inFibers := false, pc := .unscheduleUndo }
  | unscheduleUndo {cause} (h : v.pc = .unscheduleUndo) :
      Step n v (.add (-1)) { v with pc := .returned (.error (.schedule cause)) }
  | readCtx (h : v.pc = .readCtx) :
      Step n v .tau { v with
        pc := .recheck (if v.shared.epoch = 0 then none else some v.shared.epoch) }
  | recheck {runCtx} (h : v.pc = .recheck runCtx) :
      Step n v .tau { v with
        pc := .commit (runCtx.any fun k => decide (k ∈ v.shared.cancelled)) }
  | commit (h : v.pc = .commit false) (hd : v.shared.draining = false) :
      Step n v .commit { v with admitted := true, pc := .recordCreated }
  | rollback {stopping} (h : v.pc = .commit stopping) :
      Step n v .rollback { v with
        inFibers := false
        admitted := false
        pc := .remove 0 v.inFibers }
  | removeFound {w present} (h : v.pc = .remove w present) (hw : w ∈ v.queuedAt) :
      Step n v .tau { v with
        queuedAt := v.queuedAt.erase w
        pc := State.rolledBack present }
  | removeNext {w present} (h : v.pc = .remove w present) (hw : w ∉ v.queuedAt) :
      Step n v .tau { v with pc := .remove (w + 1) present }
  | removeMissing {w present} (h : v.pc = .remove w present) (hw : w ∉ v.queuedAt)
      (hn : n ≤ w + 1) : Step n v .tau { v with pc := State.rolledBack present }
  | rollbackUndo (h : v.pc = .rollbackUndo) :
      Step n v (.add (-1)) { v with pc := .returned (.error .stoppedDuringSpawn) }
  | recordCreated (h : v.pc = .recordCreated) : Step n v .tau { v with pc := .returned (.ok ()) }
  -- the execution loop
  | drop {w} (h : v.fiber.isFinished = true) :
      Step n v .tau { v with queuedAt := v.queuedAt.filter (· != w) }
  | pop {w} (hl : v.shared.looping = true) (hh : v.hand = .empty) (hw : w ∈ v.queuedAt) :
      Step n v .pop { v with queuedAt := v.queuedAt.erase w, hand := .holding }
  | held (h : v.hand = .holding) (hr : v.fiber.isRunnable = true) :
      Step n v .tau { v with hand := .marking }
  | notRunnable (h : v.hand = .holding) (hr : v.fiber.isRunnable = false) :
      Step n v .tau { v with hand := .empty }
  | mark (h : v.hand = .marking) :
      Step n v .tau { v with fiber := v.fiber.markScheduled, hand := .launching }
  | launch (h : v.hand = .launching) : Step n v .tau { v with go := .run, hand := .empty }
  | loopExit (h : v.hand = .empty) :
      Step n v .tau { v with shared := { v.shared with looping := false } }
  -- the dispatch goroutine
  | runBegin {fiber} (h : v.go = .run) (hf : v.fiber.runBegin = some fiber) :
      Step n v .tau { v with fiber := fiber, go := .body }
  | runSkip (h : v.go = .run) (hf : v.fiber.runBegin = none) :
      Step n v .tau { v with go := .recordCompleted }
  | runEnd (h : v.go = .body) :
      Step n v .tau { v with fiber := v.fiber.runEnd, go := .recordCompleted }
  | goexit (h : v.go = .body) :
      Step n v .goexit { v with fiber := v.fiber.runEnd, go := .ended }
  | block (h : v.go = .body) : Step n v .tau { v with fiber := v.fiber.block }
  | unblock (h : v.go = .body) : Step n v .tau { v with fiber := v.fiber.unblock }
  | recordCompleted (h : v.go = .recordCompleted) : Step n v .tau { v with go := .markCompleted }
  | markCompleted {go} (h : v.go = .markCompleted) (hgo : go = .remove ∨ go = .sweep 0) :
      Step n v .tau { v with go := go }
  | markRemove (h : v.go = .markCompleted) :
      Step n v .tau { v with queuedAt := v.queuedAt.erase 0, go := .remove }
  | sweep {w go} (h : v.go = .sweep w) (hgo : go = .sweep (w + 1) ∨ go = .remove) :
      Step n v .tau { v with queuedAt := v.queuedAt.filter (· != w), go := go }
  | remove (h : v.go = .remove) :
      Step n v .tau { v with
        inFibers := false
        admitted := false
        go := if v.inFibers then .undo else .send }
  | undo (h : v.go = .undo) : Step n v (.add (-1)) { v with go := .send }
  | send (h : v.go = .send) : Step n v .tau { v with go := .ended }
  -- `Start`, `Stop` and `Reset`
  | startFibers (h : v.shared.lifecycle = .startFibers) :
      Step n v .startFibers { v with
        shared := { v.shared with draining := false, lifecycle := .startRun } }
  | clearWorker {why w} (h : v.shared.lifecycle = .clear why w) (hw : w < n) :
      Step n v .tau { v with
        queuedAt := v.queuedAt.filter (· != w)
        shared := { v.shared with lifecycle := .clear why (w + 1) } }
  | clearOnly {why w} (h : v.shared.lifecycle = .clear why w) (hn : n = 1) :
      Step n v .tau { v with
        queuedAt := v.queuedAt.filter (· != 0)
        shared := { v.shared with lifecycle := State.afterClear why } }
  | reapTake {err} (reaped : List FiberID) (h : v.shared.lifecycle = .reapScan err)
      (hf : v.inFibers = true) (ha : v.admitted = true) (hr : v.fiber.isRunnable = true)
      (h0 : v.reaping = 0) :
      Step n v .tau { v with
        inFibers := false
        admitted := false
        reaping := 1
        reaped := true
        shared := { v.shared with draining := true, lifecycle := .reapUndo err reaped } }
  | reapLeave {err} (reaped : List FiberID) (h : v.shared.lifecycle = .reapScan err)
      (hn : (v.inFibers && v.admitted && v.fiber.isRunnable) = false) (h0 : v.reaping = 0) :
      Step n v .tau { v with
        shared := { v.shared with draining := true, lifecycle := .reapUndo err reaped } }
  | reapUndo {err f reaped} (h : v.shared.lifecycle = .reapUndo err (f :: reaped))
      (h0 : 0 < v.reaping) :
      Step n v (.add (-1)) { v with
        reaping := v.reaping - 1
        shared := { v.shared with lifecycle := .reapRecord err f reaped } }
  | reapUndoOther {err f reaped} (h : v.shared.lifecycle = .reapUndo err (f :: reaped)) :
      Step n v .tau { v with
        shared := { v.shared with lifecycle := .reapRecord err f reaped } }
  | resetFibers (h : v.shared.lifecycle = .resetFibers) :
      Step n v .resetFibers { v with
        inFibers := false
        admitted := false
        shared := { v.shared with draining := false, lifecycle := .clear .reset 0 } }

theorem Life.Step.to_eq {n : Nat} {v v' w : Life} {e : Event} (h : v.Step n e v') (heq : w = v') :
    v.Step n e w :=
  heq ▸ h

/-- Where the goroutine goes next, when it is its turn. -/
inductive GoPc.Next : GoPc → GoPc → Prop where
  | begin : Next .run .body
  | skip : Next .run .recordCompleted
  | ends : Next .body .recordCompleted
  | record : Next .recordCompleted .markCompleted
  | mark {go : GoPc} (h : go = .remove ∨ go = .sweep 0) : Next .markCompleted go
  | sweep {w : Nat} {go : GoPc} (h : go = .remove ∨ go = .sweep (w + 1)) : Next (.sweep w) go
  | remove {go : GoPc} (h : go = .undo ∨ go = .send) : Next .remove go
  | undo : Next .undo .send
  | send : Next .send .ended

/-- The goroutine stays where it is, is launched, takes its turn, or ends in `runtime.Goexit`. -/
theorem Life.Step.go_next {n : Nat} {v v' : Life} {e : Event} (h : v.Step n e v') :
    v'.go = v.go ∨ v.hand = .launching ∧ v'.go = .run ∨ GoPc.Next v.go v'.go
      ∨ v.go = .body ∧ v'.go = .ended := by
  cases h with
  | launch h => exact .inr (.inl ⟨h, rfl⟩)
  | goexit h => exact .inr (.inr (.inr ⟨h, rfl⟩))
  | runBegin h => exact .inr (.inr (.inl (h ▸ .begin)))
  | runSkip h => exact .inr (.inr (.inl (h ▸ .skip)))
  | runEnd h => exact .inr (.inr (.inl (h ▸ .ends)))
  | recordCompleted h => exact .inr (.inr (.inl (h ▸ .record)))
  | markCompleted h hgo => exact .inr (.inr (.inl (h ▸ .mark hgo)))
  | markRemove h => exact .inr (.inr (.inl (h ▸ .mark (.inl rfl))))
  | sweep h hgo => exact .inr (.inr (.inl (h ▸ .sweep hgo.symm)))
  | remove h =>
    refine .inr (.inr (.inl (h ▸ .remove ?_)))
    cases v.inFibers
    · exact .inr rfl
    · exact .inl rfl
  | undo h => exact .inr (.inr (.inl (h ▸ .undo)))
  | send h => exact .inr (.inr (.inl (h ▸ .send)))
  | _ => exact .inl rfl

/-! ## Entries of one fiber -/

namespace Sched

variable (s : Sched) (f g : FiberID) (w : Nat)

theorem mem_workersOf : w ∈ s.workersOf f ↔ (⟨w, f⟩ : Entry) ∈ s.queue := by
  unfold workersOf
  rw [List.mem_map]
  constructor
  · rintro ⟨e, he, rfl⟩
    obtain ⟨hmem, hf⟩ := List.mem_filter.mp he
    rw [beq_iff_eq] at hf
    subst hf
    exact hmem
  · intro h
    exact ⟨⟨w, f⟩, List.mem_filter.mpr ⟨h, beq_self_eq_true f⟩, rfl⟩

/-- Dropping entries by worker and by a test of their fiber drops workers from each fiber's
list. -/
theorem workersOf_filter (drop : FiberID → Bool) :
    ({ s with queue := s.queue.filter fun e => !(e.worker == w && drop e.fiber) }).workersOf f
      = if drop f then (s.workersOf f).filter (· != w) else s.workersOf f := by
  unfold workersOf
  dsimp only
  induction s.queue with
  | nil => simp
  | cons e q ih =>
    obtain ⟨w', f'⟩ := e
    grind

theorem workersOf_filterFinished (finished : FiberID → Bool) :
    (s.filterFinished finished w).workersOf f
      = if finished f then (s.workersOf f).filter (· != w) else s.workersOf f :=
  s.workersOf_filter f w finished

theorem workersOf_clearWorker :
    (s.clearWorker w).workersOf f = (s.workersOf f).filter (· != w) := by
  simpa [clearWorker] using s.workersOf_filter f w fun _ => true

theorem workersOf_sweep_self :
    (s.sweep ⟨w, f⟩).workersOf f = (s.workersOf f).filter (· != w) := by
  unfold workersOf sweep
  dsimp only
  induction s.queue with
  | nil => rfl
  | cons e q ih =>
    obtain ⟨w', f'⟩ := e
    grind

theorem workersOf_sweep_ne (h : g ≠ f) : (s.sweep ⟨w, f⟩).workersOf g = s.workersOf g := by
  unfold workersOf sweep
  dsimp only
  induction s.queue with
  | nil => rfl
  | cons e q ih =>
    obtain ⟨w', f'⟩ := e
    grind

theorem workersOf_remove_self : (s.remove ⟨w, f⟩).workersOf f = (s.workersOf f).erase w := by
  unfold workersOf remove
  dsimp only
  induction s.queue with
  | nil => rfl
  | cons e q ih =>
    obtain ⟨w', f'⟩ := e
    grind

theorem workersOf_remove_ne (h : g ≠ f) : (s.remove ⟨w, f⟩).workersOf g = s.workersOf g := by
  unfold workersOf remove
  dsimp only
  induction s.queue with
  | nil => rfl
  | cons e q ih =>
    obtain ⟨w', f'⟩ := e
    grind

theorem workersOf_take (e : Entry) : (s.take e).workersOf f = (s.remove e).workersOf f := rfl

theorem workersOf_enqueue_self (kind : SchedulerType) :
    (s.enqueue kind w f).workersOf f = s.workersOf f ++ [w] := by
  simp [workersOf, enqueue]

theorem workersOf_enqueue_ne (kind : SchedulerType) (h : g ≠ f) :
    (s.enqueue kind w f).workersOf g = s.workersOf g := by
  simp [workersOf, enqueue, h.symm]

/-- What `Next` may take from a queue is in it. -/
theorem mem_of_mayTake {kind : SchedulerType} {s : Sched} {f : FiberID} {w : Nat}
    (h : mayTake kind (s.localQueue w) f = true) : w ∈ s.workersOf f := by
  have hmem : f ∈ s.localQueue w := by
    cases kind with
    | fifo | roundRobin => exact List.mem_of_head? (beq_iff_eq.mp h)
    | priority => exact List.contains_iff_mem.mp h
    | workStealing =>
      rcases Bool.or_eq_true_iff.mp h with h | h
      · exact List.mem_of_head? (beq_iff_eq.mp h)
      · exact List.mem_of_getLast? (beq_iff_eq.mp h)
  obtain ⟨e, he, hf⟩ := List.mem_map.mp hmem
  obtain ⟨hq, hw⟩ := List.mem_filter.mp he
  rw [beq_iff_eq] at hw
  subst hf hw
  exact (mem_workersOf s e.fiber e.worker).mpr hq

end Sched

/-! ## Every step of the runtime is a step in each life -/

namespace State

variable {c : Config} {s s' : State} {f g : FiberID}

/-- The event a step of the runtime is for fiber `f`. -/
def event (s : State) (f : FiberID) : Label → Event
  | .call _ _ => if f = s.calls then .call else .tau
  | .spawn g _ =>
    if g = f then
      match (s.threads f).pc with
      | .reserve => .add 1
      | .unreserve | .unscheduleUndo | .rollbackUndo => .add (-1)
      | .commit stopping => if stopping || s.draining then .rollback else .commit
      | _ => .tau
    else .tau
  | .loop (.look _ (some g)) => if g = f then .pop else .tau
  | .go g _ => if g = f ∧ (s.threads f).go = .undo then .add (-1) else .tau
  | .goexit g => if g = f then .goexit else .tau
  | .lifecycle =>
    match s.lifecycle with
    | .startFibers => .startFibers
    | .reapUndo _ (g :: _) => if g = f then .add (-1) else .tau
    | .resetFibers => .resetFibers
    | _ => .tau
  | _ => .tau

theorem life_setThread_ne (s : State) (t : Thread) (h : g ≠ f) :
    (s.setThread f t).life g = s.life g := by
  simp only [life, setThread, Function.update_of_ne h]
  rfl

theorem life_setThread (s : State) (f : FiberID) (t : Thread) :
    (s.setThread f t).life f = { s.life f with pc := t.pc, fiber := t.fiber, go := t.go } := by
  simp only [life, setThread, Function.update_self]
  rfl

theorem life_setPc (s : State) (f : FiberID) (pc : SpawnPc) :
    (s.setPc f pc).life f = { s.life f with pc := pc } :=
  s.life_setThread f _

theorem life_setGo (s : State) (f : FiberID) (go : GoPc) :
    (s.setGo f go).life f = { s.life f with go := go } :=
  s.life_setThread f _

theorem life_setFiber (s : State) (f : FiberID) (fiber : Fiber) (go : GoPc) :
    (s.setFiber f fiber go).life f = { s.life f with fiber := fiber, go := go } :=
  s.life_setThread f _

theorem life_spawnCall_ne {nilFn : Bool} {nameLen : Nat} (h : f ≠ s.calls) :
    (s.spawnCall nilFn nameLen).life f = s.life f :=
  life_setThread_ne _ _ h

theorem spawnCall_life {n nilFn nameLen} (hnum : (s.threads s.calls).pc = .uncalled) :
    (s.life s.calls).Step n .call ((s.spawnCall nilFn nameLen).life s.calls) := by
  have hlife := ({ s with calls := s.calls + 1 } : State).life_setPc s.calls
    (if nilFn then .returned (.error .nilFunction)
    else if 128 < nameLen then .returned (.error .nameTooLong) else .check)
  refine hlife ▸ .call hnum ?_
  split_ifs <;> simp

/-- A `Spawn` call leaves the lives of the other fibers alone. -/
theorem spawnStep_life_ne {w : Nat} (h : s.spawnStep c f w = some s') (hne : g ≠ f) :
    s'.life g = s.life g := by
  -- every branch ends by moving call `f`; before that it touches entries of `f` alone
  cases spawnStep_effect h with
  | enqueue =>
    refine (life_setThread_ne _ _ hne).trans ?_
    apply Life.ext <;> first | rfl | simp [life, hne, Sched.workersOf_enqueue_ne]
  | removeFound =>
    refine (life_setThread_ne _ _ hne).trans ?_
    apply Life.ext <;> first | rfl | simp [life, hne, Sched.workersOf_remove_ne]
  | insert | unschedule | commit | rollback =>
    refine (life_setThread_ne _ _ hne).trans ?_
    apply Life.ext <;> first | rfl | simp [life, hne]
  | _ =>
    exact life_setThread_ne _ _ hne

theorem event_spawn (s : State) (f : FiberID) (w : Nat) :
    s.event f (.spawn f w) =
      match (s.threads f).pc with
      | .reserve => .add 1
      | .unreserve | .unscheduleUndo | .rollbackUndo => .add (-1)
      | .commit stopping => if stopping || s.draining then .rollback else .commit
      | _ => .tau :=
  if_pos rfl

theorem spawnStep_life {w : Nat} (h : s.spawnStep c f w = some s') :
    (s.life f).Step c.numQueues (s.event f (.spawn f w)) (s'.life f) := by
  rw [event_spawn]
  cases spawnStep_effect h with
  | check hpc _ hrun =>
    have hepoch : 0 < s.epoch := by simp [isRunning] at hrun; omega
    rw [hpc]
    exact life_setThread s f _ ▸ .checked hpc hepoch
  | notStarted hpc =>
    rw [hpc]
    exact life_setPc s f _ ▸ .notStarted hpc
  | reserve hpc =>
    rw [hpc, life_setPc]
    exact .reserve hpc (.inr rfl)
  | overCap hpc =>
    rw [hpc, life_setPc]
    exact .reserve hpc (.inl rfl)
  | unreserve hpc =>
    rw [hpc, life_setPc]
    exact .unreserve hpc
  | insert hpc =>
    rw [hpc, life_setPc]
    refine (Life.Step.insert hpc).to_eq ?_
    apply Life.ext <;> first | rfl | simp [life]
  | schedule hpc =>
    rw [hpc, life_setPc]
    exact .schedule hpc (.inr rfl)
  | refused hpc =>
    rw [hpc, life_setPc]
    exact .schedule hpc (.inl rfl)
  | enqueue hpc hw =>
    rw [hpc, life_setPc]
    have hnext : (if c.kind = .workStealing then SpawnPc.countScheduled else .readCtx)
          = .countScheduled
        ∨ (if c.kind = .workStealing then SpawnPc.countScheduled else .readCtx) = .readCtx := by
      split_ifs <;> simp
    refine (Life.Step.enqueue hpc hw hnext).to_eq ?_
    apply Life.ext <;> first | rfl | exact Sched.workersOf_enqueue_self ..
  | countScheduled hpc =>
    rw [hpc, life_setPc]
    exact .countScheduled hpc
  | unschedule hpc =>
    rw [hpc, life_setPc]
    refine (Life.Step.unschedule hpc).to_eq ?_
    apply Life.ext <;> first | rfl | simp [life]
  | unscheduleUndo hpc =>
    rw [hpc, life_setPc]
    exact .unscheduleUndo hpc
  | readCtx hpc =>
    rw [hpc, life_setPc]
    exact .readCtx hpc
  | recheck hpc =>
    rw [hpc, life_setPc]
    exact .recheck hpc
  | commit hpc hdrain =>
    rw [hpc, life_setPc]
    dsimp only
    rw [if_neg (by simp [hdrain])]
    refine (Life.Step.commit hpc hdrain).to_eq ?_
    apply Life.ext <;> first | rfl | simp [life]
  | rollback hpc hback =>
    rw [hpc, life_setPc]
    dsimp only
    rw [if_pos hback]
    refine (Life.Step.rollback hpc).to_eq ?_
    apply Life.ext <;> first | rfl | simp [life]
  | removeFound hpc hmem =>
    rw [hpc, life_setPc]
    refine (Life.Step.removeFound hpc ((Sched.mem_workersOf ..).mpr hmem)).to_eq ?_
    apply Life.ext <;> first | rfl | exact Sched.workersOf_remove_self ..
  | removeNext hpc hmem =>
    rw [hpc, life_setPc]
    exact .removeNext hpc (mt (Sched.mem_workersOf ..).mp hmem)
  | removeLast hpc hmem hlast =>
    rw [hpc, life_setPc]
    exact .removeMissing hpc (mt (Sched.mem_workersOf ..).mp hmem) hlast
  | rollbackUndo hpc =>
    rw [hpc, life_setPc]
    exact .rollbackUndo hpc
  | recordCreated hpc =>
    rw [hpc, life_setPc]
    exact .recordCreated hpc

/-! ### The execution loop -/

/-- While the loop runs, its place shows in a life as what it holds. -/
theorem life_setLoop (s : State) (pc : LoopPc) (f : FiberID) (h : s.loop.pc ≠ .exited)
    (h' : pc ≠ .exited) : (s.setLoop pc).life f = { s.life f with hand := pc.hand f } := by
  apply Life.ext <;> first
    | rfl
    | simp [life, shared, setLoop, h, h']

/-- A move of the loop from one place to another, where it holds the same of the fiber. -/
theorem setLoop_life {n : Nat} {pc pc' : LoopPc} (hpc : s.loop.pc = pc') (h : pc' ≠ .exited)
    (h' : pc ≠ .exited) (hhand : pc.hand f = pc'.hand f) :
    (s.life f).Step n .tau ((s.setLoop pc).life f) := by
  rw [life_setLoop s pc f (hpc ▸ h) h', hhand, ← hpc]
  exact .stutter

/-- What a look of `Next` at the queue of worker `w` does to the fibers that stay in it: the
finished ones leave. -/
theorem filterFinished_life {n : Nat} (s : State) (f : FiberID) (w : Nat) :
    (s.life f).Step n .tau { s.life f with
      queuedAt := (s.sched.filterFinished s.finished w).workersOf f } := by
  rw [Sched.workersOf_filterFinished]
  split_ifs with hfin
  · exact .drop hfin
  · exact .stutter

/-- `Next` takes a fiber: that fiber is popped, and the others stay. -/
theorem take_life {w : Nat} (hpc : s.loop.pc = .looking)
    (hmay : Sched.mayTake c.kind ((s.sched.filterFinished s.finished w).localQueue w) g = true) :
    (s.life f).Step c.numQueues (s.event f (.loop (.look w (some g))))
      (({ s with sched := (s.sched.filterFinished s.finished w).take ⟨w, g⟩ }.setLoop
        (.holding g)).life f) := by
  have hlooping : s.loop.pc ≠ .exited := by simp [hpc]
  have hhand : s.loop.pc.hand f = .empty := by rw [hpc]; rfl
  rw [life_setLoop _ _ f (by exact hlooping) (by simp)]
  by_cases hg : g = f
  · subst hg
    rw [show s.event g (.loop (.look w (some g))) = .pop from if_pos rfl]
    have hdrop := Sched.workersOf_filterFinished s.sched g w s.finished
    have hmem := Sched.mem_of_mayTake hmay
    -- an entry the filter kept is not of a finished fiber
    have hnot : s.finished g = false := by
      by_contra hfin
      rw [hdrop, if_pos (by simpa using hfin)] at hmem
      simp at hmem
    rw [hdrop, if_neg (by simp [hnot])] at hmem
    refine (Life.Step.pop (by simp [life, shared, hlooping]) hhand hmem).to_eq ?_
    apply Life.ext <;> first
      | rfl
      | simp [life, LoopPc.hand, Sched.workersOf_take, Sched.workersOf_remove_self, hdrop, hnot]
  · rw [show s.event f (.loop (.look w (some g))) = .tau from if_neg hg]
    refine (filterFinished_life s f w).to_eq ?_
    apply Life.ext <;> first
      | rfl
      | simp [life, LoopPc.hand, Sched.workersOf_take, Sched.workersOf_remove_ne, Ne.symm hg,
          hg, hpc]

theorem loopStep_life {choice : LoopChoice} (h : s.loopStep c choice = some s') :
    (s.life f).Step c.numQueues (s.event f (.loop choice)) (s'.life f) := by
  cases loopStep_effect h with
  | done hpc | tick hpc | look hpc | rest hpc | noFibers hpc =>
    exact setLoop_life hpc (by simp) (by simp) rfl
  | receive => exact .stutter
  | drained hpc =>
    refine (Life.Step.loopExit (by simp [life, LoopPc.hand, hpc])).to_eq ?_
    apply Life.ext <;> first
      | rfl
      | simp [life, setLoop, LoopPc.hand, hpc]
  | @lookEmpty w => exact filterFinished_life s f w
  | take hpc hmay => exact take_life hpc hmay
  | @test g hpc hrunnable =>
    by_cases hg : g = f
    · subst hg
      have hhand : s.loop.pc.hand g = .holding := by rw [hpc]; exact if_pos rfl
      refine (Life.Step.held hhand hrunnable).to_eq ?_
      rw [life_setLoop _ _ _ (by simp [hpc]) (by simp)]
      simp [LoopPc.hand]
    · exact setLoop_life hpc (by simp) (by simp) (by simp [LoopPc.hand, hg])
  | @drop g hpc hrunnable =>
    by_cases hg : g = f
    · subst hg
      have hhand : s.loop.pc.hand g = .holding := by rw [hpc]; exact if_pos rfl
      refine (Life.Step.notRunnable hhand hrunnable).to_eq ?_
      rw [life_setLoop _ _ _ (by simp [hpc]) (by simp)]
      rfl
    · exact setLoop_life hpc (by simp) (by simp) (by simp [LoopPc.hand, hg])
  | @mark g hpc =>
    rw [life_setLoop _ _ _ (by simp [setThread, hpc]) (by simp)]
    by_cases hg : g = f
    · subst hg
      have hhand : s.loop.pc.hand g = .marking := by rw [hpc]; exact if_pos rfl
      refine (Life.Step.mark hhand).to_eq ?_
      rw [life_setThread]
      simp [LoopPc.hand, life]
    · rw [life_setThread_ne _ _ (Ne.symm hg)]
      refine Life.Step.stutter.to_eq ?_
      apply Life.ext <;> first
        | rfl
        | simp [life, LoopPc.hand, hpc, hg]
  | @launch g hpc =>
    by_cases hg : g = f
    · subst hg
      have hhand : s.loop.pc.hand g = .launching := by rw [hpc]; exact if_pos rfl
      refine (Life.Step.launch hhand).to_eq ?_
      apply Life.ext <;> first
        | rfl
        | simp [life, State.launch, setThread, shared, LoopPc.hand, hpc]
    · refine Life.Step.stutter.to_eq ?_
      apply Life.ext <;> first
        | rfl
        | simp [life, State.launch, setThread, shared, LoopPc.hand, hpc, hg, Function.update_of_ne,
            Ne.symm hg]

/-! ### The dispatch goroutine -/

theorem goStep_life_ne {drop : Finset FiberID} (h : s.goStep c f drop = some s') (hne : g ≠ f) :
    s'.life g = s.life g := by
  cases goStep_effect h with
  | markCompleted =>
    refine (life_setThread_ne _ _ hne).trans ?_
    apply Life.ext <;> first | rfl | exact Sched.workersOf_remove_ne _ _ _ _ hne
  | sweep =>
    refine (life_setThread_ne _ _ hne).trans ?_
    apply Life.ext <;> first | rfl | simp [life, hne, Sched.workersOf_sweep_ne]
  | remove =>
    refine (life_setThread_ne _ _ hne).trans ?_
    apply Life.ext <;> first | rfl | simp [life, hne]
  | _ =>
    exact life_setThread_ne _ _ hne

theorem event_go (s : State) (f : FiberID) (drop : Finset FiberID) :
    s.event f (.go f drop) = if (s.threads f).go = .undo then .add (-1) else .tau := by
  simp [event]

theorem goStep_life {drop : Finset FiberID} (h : s.goStep c f drop = some s') :
    (s.life f).Step c.numQueues (s.event f (.go f drop)) (s'.life f) := by
  rw [event_go]
  cases goStep_effect h with
  | run hgo hbegin =>
    rw [hgo]
    exact life_setFiber s f _ _ ▸ .runBegin hgo hbegin
  | skip hgo hbegin =>
    rw [hgo]
    exact life_setGo s f _ ▸ .runSkip hgo hbegin
  | body hgo =>
    rw [hgo]
    exact life_setFiber s f _ _ ▸ .runEnd hgo
  | recordCompleted hgo =>
    rw [hgo, life_setGo]
    exact .recordCompleted hgo
  | marked hgo =>
    rw [hgo, life_setGo]
    exact .markCompleted hgo (.inl rfl)
  | markCompletedFirst hgo =>
    rw [hgo, life_setGo]
    exact .markCompleted hgo (.inr rfl)
  | markCompleted hgo =>
    rw [hgo, life_setGo]
    refine (Life.Step.markRemove hgo).to_eq ?_
    apply Life.ext <;> first
      | rfl
      | exact Sched.workersOf_remove_self _ f 0
  | @sweep w hgo =>
    rw [hgo, life_setGo]
    have hnext : (if w + 1 < c.numQueues then GoPc.sweep (w + 1) else .remove) = .sweep (w + 1)
        ∨ (if w + 1 < c.numQueues then GoPc.sweep (w + 1) else .remove) = .remove := by
      split_ifs <;> simp
    refine (Life.Step.sweep hgo hnext).to_eq ?_
    apply Life.ext <;> first
      | rfl
      | exact Sched.workersOf_sweep_self ..
  | remove hgo =>
    rw [hgo, life_setGo]
    refine (Life.Step.remove hgo).to_eq ?_
    apply Life.ext <;> first
      | rfl
      | simp [life]
  | undo hgo =>
    rw [hgo, life_setGo]
    exact .undo hgo
  | send hgo =>
    rw [hgo, life_setGo]
    exact .send hgo

/-- A step of fiber `g`'s goroutine that is not a step of `complete`: what is left to show is
the step for `g` itself. -/
theorem setFiber_life {n : Nat} {e : Event} {fiber : Fiber} {go : GoPc}
    (hself : (s.life g).Step n e { s.life g with fiber := fiber, go := go }) :
    (s.life f).Step n (if g = f then e else .tau) ((s.setFiber g fiber go).life f) := by
  split_ifs with hg
  · subst hg
    rwa [life_setFiber]
  · rw [setFiber, life_setThread_ne _ _ (Ne.symm hg)]
    exact .stutter

/-- The function of fiber `g` blocks or unblocks it. -/
theorem body_life {n : Nat} {fiber : Fiber} (hgo : (s.threads g).go = .body)
    (hself : (s.life g).Step n .tau { s.life g with fiber := fiber }) :
    (s.life f).Step n .tau ((s.setFiber g fiber .body).life f) := by
  have hstep : (s.life f).Step n (if g = f then .tau else .tau)
      ((s.setFiber g fiber .body).life f) :=
    setFiber_life (hself.to_eq (by rw [← hgo]; rfl))
  simpa using hstep

/-! ### `Start`, `Stop` and `Reset` -/

theorem begin_life {n : Nat} {enters : Bool} {first : Lifecycle} {r : Except LifecycleError Unit}
    {last : Option (Except LifecycleError Unit)} (hidle : s.lifecycle = .idle last)
    (hreap : first.reaping f = 0)
    (hfirst : enters = true → s.shared.Step n { s.shared with lifecycle := first }) :
    (s.life f).Step n .tau
      ({ s with lifecycle := if enters then first else .idle (some r) }.life f) := by
  have h0 : s.lifecycle.reaping f = 0 := by rw [hidle]; rfl
  split_ifs with he
  · refine (Life.Step.shared (hfirst he)).to_eq ?_
    apply Life.ext <;> first
      | rfl
      | exact hreap.trans h0.symm
  · refine (Life.Step.shared (.idle (some r) hidle)).to_eq ?_
    apply Life.ext <;> first
      | rfl
      | exact h0.symm

theorem not_running_iff (s : State) : (!s.isRunning) = true ↔ s.epoch = 0 ∨ s.stopped = true := by
  simp [isRunning]

theorem isRunning_iff (s : State) : s.isRunning = true ↔ 0 < s.epoch ∧ s.stopped = false := by
  simp [isRunning]

theorem mem_reapable (s : State) (f : FiberID) :
    f ∈ s.reapable ↔ f < s.calls ∧ (s.life f).inFibers = true ∧ (s.life f).admitted = true
      ∧ (s.life f).fiber.isRunnable = true := by
  simp [reapable, life, and_assoc]

theorem count_reapable (s : State) (h : f ∈ s.reapable) : s.reapable.count f = 1 :=
  List.count_eq_one_of_mem (List.nodup_range.filter _) h

theorem reapStep_life {n : Nat} {err : Option String} (hscan : s.lifecycle = .reapScan err)
    (hadm : f ∈ s.admitted → f < s.calls) :
    (s.life f).Step n .tau ((s.reapStep err).life f) := by
  have h0 : (s.life f).reaping = 0 := by simp [life, hscan, Lifecycle.reaping]
  by_cases hmem : f ∈ s.reapable
  · obtain ⟨-, hf, ha, hr⟩ := (mem_reapable s f).mp hmem
    refine (Life.Step.reapTake s.reapable hscan hf ha hr h0).to_eq ?_
    apply Life.ext <;> first
      | rfl
      | simp [life, reapStep, hmem, Lifecycle.reaping, count_reapable]
  · refine (Life.Step.reapLeave s.reapable hscan ?_ h0).to_eq ?_
    · by_contra hall
      simp only [Bool.not_eq_false, Bool.and_eq_true] at hall
      have hlt := hadm (by simpa [life] using hall.1.2)
      exact hmem ((mem_reapable s f).mpr ⟨hlt, hall.1.1, hall.1.2, hall.2⟩)
    · apply Life.ext <;> first
        | rfl
        | simp [life, reapStep, hmem, hscan, Lifecycle.reaping, List.count_eq_zero]

theorem reaping_afterClear (why : Clearing) (f : FiberID) : (afterClear why).reaping f = 0 := by
  cases why <;> rfl

theorem lifecycleStep_life (h : s.lifecycleStep c = some s')
    (hadm : f ∈ s.admitted → f < s.calls)
    (hloop : s.lifecycle = .startRun → s.loop.pc = .exited) :
    (s.life f).Step c.numQueues (s.event f .lifecycle) (s'.life f) := by
  unfold event
  cases lifecycleStep_effect h with
  | startSched hl =>
    rw [hl]
    refine (Life.Step.shared (.startSched hl)).to_eq ?_
    apply Life.ext <;> first | rfl | simp [life, Lifecycle.reaping, hl]
  | @startFailed _ e hl =>
    rw [hl]
    refine (Life.Step.shared (.startFail (some (.error (.startScheduler e))) hl)).to_eq ?_
    apply Life.ext <;> first | rfl | simp [life, Lifecycle.reaping, hl]
  | startFibers hl =>
    rw [hl]
    refine (Life.Step.startFibers hl).to_eq ?_
    apply Life.ext <;> first | rfl | simp [life, Lifecycle.reaping, hl]
  | startRun hl =>
    rw [hl]
    refine (Life.Step.shared (.startRun (some (.ok ())) hl)).to_eq ?_
    apply Life.ext <;> first | rfl | simp [life, Lifecycle.reaping, LoopPc.hand, hl, hloop hl]
  | stopCancel hl =>
    rw [hl]
    refine (Life.Step.shared (.stopCancel hl)).to_eq ?_
    apply Life.ext <;> first | rfl | simp [life, Lifecycle.reaping, hl]
  | stopSched hl =>
    rw [hl]
    refine (Life.Step.shared (.stopSched s.sched.base.stop.2 hl)).to_eq ?_
    apply Life.ext <;> first | rfl | simp [life, Lifecycle.reaping, hl]
  | stopJoin hl hexit =>
    rw [hl]
    refine (Life.Step.shared (.stopJoin hl (by simp [life, shared, hexit]))).to_eq ?_
    apply Life.ext <;> first | rfl | simp [life, Lifecycle.reaping, hl]
  | @clearAtOnce why _ hl hatOnce =>
    have h0 : s.lifecycle.reaping f = 0 := by rw [hl]; rfl
    rw [hl]
    refine (Life.Step.clearOnly hl (c.single_of_clearsAtOnce hatOnce)).to_eq ?_
    apply Life.ext <;> first
      | rfl
      | exact (reaping_afterClear why f).trans h0.symm
      | exact Sched.workersOf_clearWorker ..
  | clearWorker hl _ hw =>
    have h0 : s.lifecycle.reaping f = 0 := by rw [hl]; rfl
    rw [hl]
    refine (Life.Step.clearWorker hl hw).to_eq ?_
    apply Life.ext <;> first
      | rfl
      | exact h0.symm
      | exact Sched.workersOf_clearWorker ..
  | @clearBase why _ hl _ hw =>
    have h0 : s.lifecycle.reaping f = 0 := by rw [hl]; rfl
    rw [hl]
    refine (Life.Step.shared (.clearBase hl hw)).to_eq ?_
    apply Life.ext <;> first
      | rfl
      | exact (reaping_afterClear why f).trans h0.symm
  | reapScan hl =>
    rw [hl]
    exact reapStep_life hl hadm
  | reaped hl =>
    rw [hl]
    refine (Life.Step.shared (.reapDone hl)).to_eq ?_
    apply Life.ext <;> first | rfl | simp [life, Lifecycle.reaping, hl]
  | reapUndo hl =>
    rw [hl]
    dsimp only
    split_ifs with hg
    · subst hg
      refine (Life.Step.reapUndo hl (by simp [life, hl, Lifecycle.reaping])).to_eq ?_
      apply Life.ext <;> first | rfl | simp [life, Lifecycle.reaping, hl]
    · refine (Life.Step.reapUndoOther hl).to_eq ?_
      apply Life.ext <;> first | rfl | simp [life, Lifecycle.reaping, hl, hg]
  | reapRecord hl =>
    rw [hl]
    refine (Life.Step.shared (.reapRecord hl)).to_eq ?_
    apply Life.ext <;> first | rfl | simp [life, Lifecycle.reaping, hl]
  | @join err hl =>
    rw [hl]
    refine (Life.Step.shared (.joined (some (stopResult err)) hl)).to_eq ?_
    apply Life.ext <;> first | rfl | simp [life, Lifecycle.reaping, hl]
  | resetMain hl =>
    rw [hl]
    refine (Life.Step.shared (.resetMain hl)).to_eq ?_
    apply Life.ext <;> first | rfl | simp [life, Lifecycle.reaping, hl]
  | resetFibers hl =>
    rw [hl]
    refine (Life.Step.resetFibers hl).to_eq ?_
    apply Life.ext <;> first | rfl | simp [life, Lifecycle.reaping, hl]
  | resetMetrics hl =>
    rw [hl]
    refine (Life.Step.shared (.resetMetrics (some (.ok ())) hl)).to_eq ?_
    apply Life.ext <;> first | rfl | simp [life, Lifecycle.reaping, hl]

end State

/-- Every step of the runtime is a step in the life of every fiber. The hypotheses hold in
every state a runtime can be in: only calls made so far have left their mark, and no loop is
left when a new run begins. -/
theorem step_life {c : Config} {s s' : State} {l : Label} (f : FiberID) (h : step c s l = some s')
    (hnum : (s.threads s.calls).pc = .uncalled) (hadm : f ∈ s.admitted → f < s.calls)
    (hloop : s.lifecycle = .startRun → s.loop.pc = .exited) :
    (s.life f).Step c.numQueues (s.event f l) (s'.life f) := by
  cases State.step_effect h with
  | @call nilFn nameLen =>
    by_cases hf : f = s.calls
    · subst hf
      rw [show s.event s.calls (.call nilFn nameLen) = .call from if_pos rfl]
      exact State.spawnCall_life hnum
    · rw [show s.event f (.call nilFn nameLen) = .tau from if_neg hf, State.life_spawnCall_ne hf]
      exact .stutter
  | @spawn g w =>
    by_cases hg : g = f
    · subst hg
      exact State.spawnStep_life h
    · rw [show s.event f (.spawn g w) = .tau from if_neg hg,
        State.spawnStep_life_ne h (Ne.symm hg)]
      exact .stutter
  | loop => exact State.loopStep_life h
  | @go g drop =>
    by_cases hg : g = f
    · subst hg
      exact State.goStep_life h
    · rw [show s.event f (.go g drop) = .tau from if_neg fun hand => hg hand.1,
        State.goStep_life_ne h (Ne.symm hg)]
      exact .stutter
  | @discard g hgo =>
    by_cases hg : g = f
    · subst hg
      exact State.life_setGo s g _ ▸ .send hgo
    · rw [State.setGo, State.life_setThread_ne _ _ (Ne.symm hg)]
      exact .stutter
  | goexit hgo => exact State.setFiber_life (.goexit hgo)
  | block hgo => exact State.body_life hgo (.block hgo)
  | unblock hgo => exact State.body_life hgo (.unblock hgo)
  | start hidle =>
    exact State.begin_life hidle rfl fun he => .startBegin hidle ((State.not_running_iff s).mp he)
  | stop hidle =>
    refine State.begin_life hidle rfl fun he => ?_
    obtain ⟨hepoch, hstopped⟩ := (State.isRunning_iff s).mp he
    exact .stopBegin hidle hepoch hstopped
  | reset hidle =>
    exact State.begin_life hidle rfl fun he => .resetBegin hidle ((State.not_running_iff s).mp he)
  | lifecycle => exact State.lifecycleStep_life h hadm hloop
  | deadline hl =>
    refine (Life.Step.shared (.joined (some (.error .stopDeadline)) hl)).to_eq ?_
    apply Life.ext <;> first | rfl | simp [State.life, Lifecycle.reaping, hl]
  | cancelCtx hepoch => exact .shared (.cancelCtx hepoch)
  | setStackSize => exact .stutter

end GreenThreads.Runtime
