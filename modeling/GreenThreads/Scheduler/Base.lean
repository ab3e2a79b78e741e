import GreenThreads.Fiber
import Mathlib.Data.Finset.Card
import Mathlib.Data.Finset.Insert

/-!
# GreenThreads — what the schedulers share (`internal/scheduler/scheduler.go`)

`BaseScheduler` is embedded in every scheduler: the stopped flag, the completion record and the
statistics, with the operations none of the schedulers overrides.
-/

namespace GreenThreads.Scheduler

/-- `type SchedulerType int`. -/
inductive SchedulerType where
  | fifo
  | roundRobin
  | priority
  | workStealing
  deriving DecidableEq, Repr

/-- The fields of `BaseScheduler` but for the run queue, which each scheduler keeps in its own
shape. -/
structure BaseScheduler where
  blockedQueue : List FiberID
  running : Bool
  stopped : Bool
  completed : Finset FiberID
  totalScheduled : Nat
  totalCompleted : Nat
  totalBlocked : Nat
  contextSwitches : Nat
  deriving DecidableEq

namespace BaseScheduler

/-- `NewBaseScheduler`. -/
def new : BaseScheduler := ⟨[], false, false, ∅, 0, 0, 0, 0⟩

/-- `Start`. -/
def start (b : BaseScheduler) : BaseScheduler × Option String :=
  if b.running then (b, some "scheduler already running")
  else ({ b with running := true, stopped := false }, none)

/-- `Stop`. -/
def stop (b : BaseScheduler) : BaseScheduler × Option String :=
  if !b.running then (b, some "scheduler not running")
  else ({ b with running := false, stopped := true }, none)

/-- `Clear`; `running` is left as it is. -/
def clear (b : BaseScheduler) : BaseScheduler := { new with running := b.running }

/-- The entries `MarkCompleted` may drop from `completed` once it has more than 4096: any 2048,
since Go iterates over a map in no particular order. -/
def Prunes (completed drop : Finset FiberID) : Prop :=
  drop ⊆ completed ∧ drop.card = if 4096 < completed.card then 2048 else 0

instance (completed drop : Finset FiberID) : Decidable (Prunes completed drop) :=
  inferInstanceAs (Decidable (_ ∧ _))

/-- `MarkCompleted` of an ID not yet recorded; `drop` is what it prunes. -/
def record (b : BaseScheduler) (f : FiberID) (drop : Finset FiberID) : BaseScheduler :=
  { b with completed := insert f b.completed \ drop, totalCompleted := b.totalCompleted + 1 }

/-- `recordSwitch`. -/
def recordSwitch (b : BaseScheduler) : BaseScheduler :=
  { b with contextSwitches := b.contextSwitches + 1 }

end BaseScheduler

/-- `filterFinishedInPlace`. -/
def filterFinishedInPlace (fibers : FiberID → Fiber) (queue : List FiberID) : List FiberID :=
  queue.filter fun f => !(fibers f).isFinished

end GreenThreads.Scheduler
