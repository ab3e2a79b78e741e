import GreenThreads.Scheduler.Base
import Mathlib.Logic.Function.Basic

/-!
# GreenThreads — `FIFOScheduler` and `RoundRobinScheduler`

Both are `BaseScheduler` with its run queue and a `Next` of their own (`fifo.go`,
`roundrobin.go`). The two `Next` differ in that the second also notes the time, which only
`ShouldPreempt` reads; what is here is common to both, and `QueueOrder` adds the clock.
-/

namespace GreenThreads.Scheduler

/-- A scheduler on the base's run queue, and the fibers it is used with. -/
structure QueueScheduler where
  base : BaseScheduler
  runQueue : List FiberID
  fibers : FiberID → Fiber

namespace QueueScheduler

/-- `NewFIFOScheduler` and `NewRoundRobinScheduler`, over any fibers. -/
def new (fibers : FiberID → Fiber) : QueueScheduler := ⟨.new, [], fibers⟩

variable (s : QueueScheduler)

/-- `Schedule`. -/
def schedule (f : FiberID) : QueueScheduler × Option String :=
  if s.base.stopped then (s, some "scheduler stopped")
  else
    ({ s with
        runQueue := s.runQueue ++ [f]
        base := { s.base with totalScheduled := s.base.totalScheduled + 1 } }, none)

/-- `Next`. -/
def next : QueueScheduler × Except String FiberID :=
  if s.base.stopped then (s, .error "scheduler stopped")
  else match filterFinishedInPlace s.fibers s.runQueue with
    | [] => ({ s with runQueue := [] }, .error "no fibers in run queue")
    | f :: queue => ({ s with runQueue := queue, base := s.base.recordSwitch }, .ok f)

/-- `BlockFiber`. -/
def blockFiber (f : FiberID) : QueueScheduler :=
  { s with
    runQueue := s.runQueue.erase f
    base := { s.base with
      blockedQueue := s.base.blockedQueue ++ [f]
      totalBlocked := s.base.totalBlocked + 1 } }

/-- `UnblockFiber`. -/
def unblockFiber (f : FiberID) : QueueScheduler × Option String :=
  if f ∈ s.base.blockedQueue then
    ({ s with
        runQueue := s.runQueue ++ [f]
        base := { s.base with blockedQueue := s.base.blockedQueue.erase f }
        fibers := Function.update s.fibers f (s.fibers f).unblock }, none)
  else (s, some ("fiber " ++ toString f ++ " not found in blocked queue"))

/-- `removeLocked`, which is `Remove`: the run queue first, and the blocked queue if it is not
there. -/
def remove (f : FiberID) : QueueScheduler × Option String :=
  if f ∈ s.runQueue then ({ s with runQueue := s.runQueue.erase f }, none)
  else if f ∈ s.base.blockedQueue then
    ({ s with base := { s.base with blockedQueue := s.base.blockedQueue.erase f } }, none)
  else (s, some ("fiber " ++ toString f ++ " not found"))

/-- `MarkCompleted`; `drop` is what it prunes from `completed`. -/
def markCompleted (f : FiberID) (drop : Finset FiberID) : QueueScheduler :=
  if f ∈ s.base.completed then s
  else ({ s with base := s.base.record f drop }.remove f).1

/-- `Clear`. -/
def clear : QueueScheduler := { s with runQueue := [], base := s.base.clear }

end QueueScheduler

end GreenThreads.Scheduler
