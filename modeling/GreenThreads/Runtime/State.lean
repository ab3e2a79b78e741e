import GreenThreads.Fiber
import GreenThreads.Scheduler.Base
import Mathlib.Data.Finset.Range
import Mathlib.Data.Finset.Union
import Mathlib.Logic.Function.Basic

/-!
# GreenThreads — the state of a runtime (`internal/runtime/runtime.go`)

A `Runtime` is shared by any number of `Spawn` calls, by the execution loop of the current run,
by one dispatch goroutine for each fiber handed to it, and by `Start`, `Stop` and `Reset`,
which take turns under `lifecycleMu`. The state below is the shared memory together with the
place each of these threads has reached. A place stands between two steps, and a step is one
critical section of a mutex, one atomic addition or one look at a channel.

`NewFiber` numbers fibers by an atomic counter, so that no two share an ID. Here the fiber of
a `Spawn` call goes by the number of that call, and main fibers are numbered apart from them.

Left out: the event tracker, `currentFiber`, and every metric other than the fiber and stack gauges.
The goroutine of the deadlock detector has a model of its own in `Runtime.Detector`, and so has
`Stop`'s wait for it.
-/

namespace GreenThreads.Runtime

open Scheduler (SchedulerType BaseScheduler)

/-! ## Configuration -/

/-- What is fixed when a runtime is built. A work-stealing scheduler has one run queue per
worker; every other scheduler has one. `numWorkers` bounds the fibers in flight and need not
be the number of queues. -/
structure Config where
  kind : SchedulerType
  numQueues : Nat
  numWorkers : Nat
  maxFibers : Int
  stackSize : Int
  numQueues_pos : 0 < numQueues
  single : kind ≠ .workStealing → numQueues = 1

/-- `Clear` is a single section. -/
def Config.clearsAtOnce (c : Config) : Bool := c.kind = .fifo || c.kind = .roundRobin

theorem Config.single_of_clearsAtOnce (c : Config) (h : c.clearsAtOnce = true) :
    c.numQueues = 1 := by
  refine c.single fun hkind => ?_
  simp [clearsAtOnce, hkind] at h

/-- The run queues of `NewScheduler(t)`, or of `NewWorkStealingScheduler(workers)`. -/
def Config.withScheduler (c : Config) (t : SchedulerType) (workers : Nat) (h : 0 < workers) :
    Config :=
  { c with
    kind := t
    numQueues := if t = .workStealing then workers else 1
    numQueues_pos := by split <;> omega
    single := fun hne => if_neg hne }

/-- What `NewRuntime` and `NewRuntimeWithOptions` start from. -/
def Config.base (numWorkers : Nat) : Config :=
  ⟨.fifo, 1, numWorkers, 0, defaultStackSize, Nat.one_pos, fun _ => rfl⟩

/-- The worker bound of `NewRuntime`, clamped to between 1 and `maxWorkers`. -/
def clampWorkers (numWorkers : Int) : Nat := (min (max numWorkers 1) 64).toNat

theorem clampWorkers_pos (numWorkers : Int) : 0 < clampWorkers numWorkers := by
  unfold clampWorkers
  omega

/-- The configuration of `NewRuntime`, where a work-stealing scheduler has as many queues as
there are workers. -/
def Config.ofNewRuntime (t : SchedulerType) (numWorkers : Int) : Config :=
  (Config.base (clampWorkers numWorkers)).withScheduler t (clampWorkers numWorkers)
    (clampWorkers_pos numWorkers)

/-- `type RuntimeOption`, without the detector's option. -/
inductive RuntimeOption where
  | withNumWorkers (n : Int)
  | withStackSize (size : Int)
  | withSchedulerType (t : SchedulerType)
  | withMaxFibers (n : Int)

def RuntimeOption.apply (c : Config) : RuntimeOption → Config
  | withNumWorkers n => if 0 < n then { c with numWorkers := n.toNat } else c
  | withStackSize size => if 0 < size then { c with stackSize := size } else c
  -- `NewScheduler` gives a work-stealing scheduler four workers, whatever `numWorkers` is
  | withSchedulerType t => c.withScheduler t 4 (by decide)
  | withMaxFibers n => { c with maxFibers := n }

/-- The configuration of `NewRuntimeWithOptions` on a machine with `numCPU` processors. -/
def Config.ofOptions (numCPU : Nat) (opts : List RuntimeOption) : Config :=
  opts.foldl RuntimeOption.apply (Config.base (if numCPU < 2 then 2 else numCPU))

/-! ## The scheduler, as the runtime meets it

The order in which fibers leave a queue is the business of each scheduler; all the runtime
relies on is which entry `Next` may hand out. -/

/-- A fiber in a run queue. -/
structure Entry where
  worker : Nat
  fiber : FiberID
  deriving DecidableEq, Repr

/-- A scheduler: the entries of all its run queues, each queue in order, and what it shares
with the others. -/
structure Sched where
  base : BaseScheduler
  queue : List Entry

namespace Sched

def new : Sched := ⟨.new, []⟩

/-- The run queue of worker `w`; of a scheduler with a single queue that is worker 0's. -/
def localQueue (s : Sched) (w : Nat) : List FiberID :=
  (s.queue.filter fun e => e.worker == w).map Entry.fiber

/-- The locked section of `Schedule`. A work-stealing scheduler counts the call later, in a
section of its own. -/
def enqueue (s : Sched) (kind : SchedulerType) (w : Nat) (f : FiberID) : Sched :=
  { base := if kind = .workStealing then s.base
      else { s.base with totalScheduled := s.base.totalScheduled + 1 }
    queue := s.queue ++ [⟨w, f⟩] }

/-- The second locked section of the work-stealing `Schedule`. -/
def countScheduled (s : Sched) : Sched :=
  { s with base := { s.base with totalScheduled := s.base.totalScheduled + 1 } }

/-- `filterFinishedInPlace` on the queue of worker `w`. -/
def filterFinished (s : Sched) (finished : FiberID → Bool) (w : Nat) : Sched :=
  { s with queue := s.queue.filter fun e => !(e.worker == w && finished e.fiber) }

/-- Whether `Next`, looking at a queue, may take `f` from it: the front for a FIFO or
round-robin scheduler, the front of the own queue or the back of a victim's for work stealing.
Any entry may be the top of the priority heap. -/
def mayTake (kind : SchedulerType) (q : List FiberID) (f : FiberID) : Bool :=
  match kind with
  | .fifo | .roundRobin => q.head? == some f
  | .priority => q.contains f
  | .workStealing => q.head? == some f || q.getLast? == some f

/-- `Next` takes an entry; `recordSwitch` counts it. -/
def take (s : Sched) (e : Entry) : Sched :=
  { base := { s.base with contextSwitches := s.base.contextSwitches + 1 }
    queue := s.queue.erase e }

/-- Take one entry out of the queue of worker `w`, if it is there (`Remove`, `removeLocked`). -/
def remove (s : Sched) (e : Entry) : Sched := { s with queue := s.queue.erase e }

/-- Drop every entry of fiber `f` from the queue of worker `w` (`MarkCompleted` of the
work-stealing scheduler). -/
def sweep (s : Sched) (e : Entry) : Sched := { s with queue := s.queue.filter fun e' => e' != e }

/-- The bookkeeping of `MarkCompleted` for a fiber it has not seen. -/
def countCompleted (s : Sched) (f : FiberID) (drop : Finset FiberID) : Sched :=
  { s with base := { s.base with
      completed := insert f s.base.completed \ drop
      totalCompleted := s.base.totalCompleted + 1 } }

/-- Empty the queue of worker `w`. -/
def clearWorker (s : Sched) (w : Nat) : Sched :=
  { s with queue := s.queue.filter fun e => !(e.worker == w) }

/-- `BaseScheduler.Clear` but for the run queue. -/
def clearBase (s : Sched) : Sched := { s with base := s.base.clear }

end Sched

/-! ## Metrics -/

/-- The gauges of `type Metrics struct` that `Spawn`, `complete` and `reapPending` drive. -/
structure Metrics where
  totalFibersCreated : Nat
  totalFibersCompleted : Nat
  activeFibers : Nat
  totalStackMemory : Int
  completed : Finset FiberID

namespace Metrics

def new : Metrics := ⟨0, 0, 0, 0, ∅⟩

/-- `RecordFiberCreated`. -/
def recordFiberCreated (m : Metrics) (stackSize : Int) : Metrics :=
  { m with
    totalFibersCreated := m.totalFibersCreated + 1
    activeFibers := m.activeFibers + 1
    totalStackMemory := m.totalStackMemory + stackSize }

/-- What `RecordFiberCompleted` and `RecordFiberCancelled` take back; a gauge that is too small
is left alone. -/
def release (m : Metrics) (stackSize : Int) : Metrics :=
  { m with
    activeFibers := m.activeFibers - 1
    totalStackMemory :=
      if stackSize ≤ m.totalStackMemory then m.totalStackMemory - stackSize
      else m.totalStackMemory }

/-- The entries `trimCompletedMap` may drop: more than 16384 are cut down to 8192. -/
def Trims (completed drop : Finset FiberID) : Prop :=
  drop ⊆ completed ∧ drop.card = if 16384 < completed.card then completed.card - 8192 else 0

instance (completed drop : Finset FiberID) : Decidable (Trims completed drop) :=
  inferInstanceAs (Decidable (_ ∧ _))

/-- `RecordFiberCompleted`; `drop` is what it trims from `completed`. -/
def recordFiberCompleted (m : Metrics) (f : FiberID) (stackSize : Int)
    (drop : Finset FiberID) : Metrics :=
  if f ∈ m.completed then m
  else
    { m.release stackSize with
      completed := insert f m.completed \ drop
      totalFibersCompleted := m.totalFibersCompleted + 1 }

end Metrics

/-! ## Threads -/

/-- The errors of `Spawn`. -/
inductive SpawnError where
  | nilFunction
  | nameTooLong
  | notStarted
  | maxFibersReached (limit : Int)
  | schedule (cause : String)
  | stoppedDuringSpawn
  deriving DecidableEq, Repr

def SpawnError.text : SpawnError → String
  | nilFunction => "fiber function must not be nil"
  | nameTooLong => "fiber name exceeds 128 characters"
  | notStarted => "runtime not started"
  | maxFibersReached limit => "fiber cap exceeded: limit " ++ toString limit
  | schedule cause => "schedule fiber: " ++ cause
  | stoppedDuringSpawn => "runtime stopped during spawn"

/-- How far a `Spawn` call has come: the step it takes next, or its result. -/
inductive SpawnPc where
  | uncalled
  /-- The first look at `epoch` and `stopped`. -/
  | check
  /-- The atomic `+1` and the comparison with the cap. -/
  | reserve
  /-- The `-1` of a call over the cap. -/
  | unreserve
  /-- `NewFiber` and the insertion into `rt.fibers`. -/
  | insert
  /-- The look of `Schedule` at the scheduler's `stopped`. -/
  | schedule
  | enqueue
  | countScheduled
  /-- After a failed `Schedule`: the deletion from `rt.fibers`, then the `-1`. -/
  | unschedule
  | unscheduleUndo
  /-- The second look: the run context is read, then polled. -/
  | readCtx
  | recheck (runCtx : Option Nat)
  /-- The section under `fibersMu` that commits or rolls back. -/
  | commit (stopping : Bool)
  /-- The rollback's `scheduler.Remove`, at worker `w`, and its `-1` if the fiber was present. -/
  | remove (w : Nat) (present : Bool)
  | rollbackUndo
  | recordCreated
  | returned (r : Except SpawnError Unit)
  deriving DecidableEq, Repr

/-- How far the dispatch goroutine of a fiber has come. -/
inductive GoPc where
  | absent
  /-- `f.Run`, up to the fiber function. -/
  | run
  /-- Inside the fiber function. -/
  | body
  /-- The sections of `complete`: the metrics, the scheduler (and, for work stealing, the queue
  of each worker), the removal from `rt.fibers`, the `-1`. -/
  | recordCompleted
  | markCompleted
  | sweep (w : Nat)
  | remove
  | undo
  /-- The send on `resultChan`. -/
  | send
  | ended
  deriving DecidableEq, Repr

/-- A `Spawn` call, its fiber, and the fiber's goroutine with the run that launched it. -/
structure Thread where
  pc : SpawnPc := .uncalled
  fiber : Fiber := {}
  stackSize : Int := 0
  go : GoPc := .absent
  run : Nat := 0

/-- Where `runExecutionLoop` is. -/
inductive LoopPc where
  | exited
  | select
  /-- The run context is done: the results left in the channel are drained. -/
  | drain
  /-- The head of `for active < rt.numWorkers`. -/
  | inner
  /-- Inside `Next`, past its look at `stopped`. -/
  | looking
  /-- `Next` has handed out a fiber: it is tested, marked and launched. -/
  | holding (f : FiberID)
  | marking (f : FiberID)
  | launching (f : FiberID)
  deriving DecidableEq, Repr

structure Loop where
  pc : LoopPc
  active : Nat

/-- The errors of `Start`, `Stop` and `Reset`. -/
inductive LifecycleError where
  | alreadyRunning
  | startScheduler (cause : String)
  | stopScheduler (cause : String)
  | stopDeadline
  deriving DecidableEq, Repr

/-- Who calls `scheduler.Clear`: the reap of a `Stop`, which still has an error of
`scheduler.Stop` to return, or a `Reset`. -/
inductive Clearing where
  | stop (err : Option String)
  | reset
  deriving DecidableEq, Repr

/-- Where the holder of `lifecycleMu` is. -/
inductive Lifecycle where
  /-- Nobody holds the lock; what the last call returned. -/
  | idle (last : Option (Except LifecycleError Unit))
  /-- `StartWithContext`, from here on under `rt.mu` too. -/
  | startSched
  | startFibers
  | startRun
  /-- `Stop`. -/
  | stopCancel
  | stopSched
  | stopJoin (err : Option String)
  /-- `scheduler.Clear`, at worker `w`. -/
  | clear (why : Clearing) (w : Nat)
  /-- `reapPending`: the scan, then for each fiber reaped the `-1` and the metrics. -/
  | reapScan (err : Option String)
  | reapUndo (err : Option String) (reaped : List FiberID)
  | reapRecord (err : Option String) (f : FiberID) (reaped : List FiberID)
  /-- The wait for the fibers in flight, until they are done or the deadline has come. -/
  | join (err : Option String)
  /-- `Reset`. -/
  | resetMain
  | resetFibers
  | resetMetrics
  deriving DecidableEq, Repr

/-! ## The runtime -/

/-- A key of `rt.fibers`. -/
inductive Key where
  | main (k : Nat)
  | spawned (f : FiberID)
  deriving DecidableEq, Repr

/-- A runtime and the threads at work on it. Run `k` is the `k`-th successful `Start`;
`cancelled` has the runs whose context is done, `results` the results waiting in the channel
of each run. `reaped` lists the fibers `reapPending` has removed, and nothing reads it. -/
structure State where
  threads : FiberID → Thread
  calls : Nat
  fibers : Finset Key
  admitted : Finset FiberID
  draining : Bool
  mainFiber : Option Nat
  mains : Nat
  stackSize : Int
  activeFiberCount : Int
  epoch : Nat
  cancelled : Finset Nat
  stopped : Bool
  sched : Sched
  loop : Loop
  results : Nat → Nat
  lifecycle : Lifecycle
  metrics : Metrics
  reaped : List FiberID

namespace State

/-- What `NewRuntimeWithOptions` returns: no main fiber yet. -/
def newWithOptions (c : Config) : State where
  threads := fun _ => {}
  calls := 0
  fibers := ∅
  admitted := ∅
  draining := false
  mainFiber := none
  mains := 0
  stackSize := c.stackSize
  activeFiberCount := 0
  epoch := 0
  cancelled := ∅
  stopped := true
  sched := .new
  loop := ⟨.exited, 0⟩
  results := fun _ => 0
  lifecycle := .idle none
  metrics := .new
  reaped := []

/-- What `NewRuntime` returns: the main fiber is there from the start. -/
def new (c : Config) : State :=
  { newWithOptions c with fibers := {.main 0}, mainFiber := some 0, mains := 1 }

variable (s : State)

/-- `IsRunning`, and the checks of `Spawn`, `Start`, `Stop` and `Reset`. -/
def isRunning : Bool := 0 < s.epoch && !s.stopped

/-- `rt.runCtx`: the context of the current run, nil before the first `Start`. -/
def runCtx : Option Nat := if s.epoch = 0 then none else some s.epoch

/-- Whether the run's context is done. -/
def done (run : Nat) : Bool := decide (run ∈ s.cancelled)

/-- `StartWithContext` holds `rt.mu` from its check to the end of the run's setup. -/
def muHeld : Bool :=
  match s.lifecycle with
  | .startSched | .startFibers | .startRun => true
  | _ => false

/-- `f.IsFinished()`. -/
def finished (f : FiberID) : Bool := (s.threads f).fiber.isFinished

/-- The counter of the `fiberWG` of run `run`: its dispatch goroutines that have not ended. -/
def fiberWG (run : Nat) : Nat :=
  ((Finset.range s.calls).filter fun f =>
    (s.threads f).run = run ∧ (s.threads f).go ≠ .absent ∧ (s.threads f).go ≠ .ended).card

def setThread (f : FiberID) (t : Thread) : State :=
  { s with threads := Function.update s.threads f t }

def setPc (f : FiberID) (pc : SpawnPc) : State := s.setThread f { s.threads f with pc := pc }

def setGo (f : FiberID) (go : GoPc) : State := s.setThread f { s.threads f with go := go }

def setFiber (f : FiberID) (fiber : Fiber) (go : GoPc) : State :=
  s.setThread f { s.threads f with fiber := fiber, go := go }

def setLoop (pc : LoopPc) : State := { s with loop := { s.loop with pc := pc } }

/-- `atomic.AddInt64(&rt.activeFiberCount, d)`. -/
def addCount (d : Int) : State := { s with activeFiberCount := s.activeFiberCount + d }

end State

end GreenThreads.Runtime
