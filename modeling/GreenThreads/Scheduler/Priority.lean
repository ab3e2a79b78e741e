import GreenThreads.Lib.Heap
import GreenThreads.Lib.Trans
import GreenThreads.Scheduler.Base
import Mathlib.Logic.Function.Basic

/-!
# GreenThreads — `PriorityScheduler` (`internal/scheduler/priority.go`)

The operations of the priority scheduler over a store of fibers, then the system of any
sequence of them, interleaved with fibers that finish or change their priority. The heap
operations are those of `container/heap`; a panic is `none`.
-/

namespace GreenThreads.Scheduler

/-- `type PriorityItem struct`. -/
structure PriorityItem where
  fiber : FiberID
  priorityVal : Int
  createdAtVal : Int
  index : Nat
  deriving DecidableEq, Repr

namespace PriorityItem

/-- `PriorityQueue.Less` on two entries. -/
def less (a b : PriorityItem) : Bool :=
  if a.priorityVal = b.priorityVal then a.createdAtVal < b.createdAtVal
  else a.priorityVal > b.priorityVal

/-- What `PriorityQueue.Swap` and `PriorityQueue.Push` write into an entry. `PriorityQueue.Pop`
marks the entry that leaves with -1, which nothing reads. -/
def place (i : Nat) (a : PriorityItem) : PriorityItem := { a with index := i }

/-- An entry but for its position. -/
def key (a : PriorityItem) : FiberID × Int × Int := (a.fiber, a.priorityVal, a.createdAtVal)

/-- `1<<30`, from which on priorities are no longer aged. -/
def agingLimit : Int := 1073741824

/-- One step of the loop of `ageAllLocked`. -/
def age (a : PriorityItem) : PriorityItem :=
  if a.priorityVal < agingLimit then { a with priorityVal := a.priorityVal + 1 } else a

end PriorityItem

/-- `PriorityQueue` as a `heap.Interface`. -/
def pqOps : SliceHeap.Ops PriorityItem := ⟨PriorityItem.less, PriorityItem.place⟩

/-- A `PriorityScheduler` and the fibers it is used with. -/
structure PriorityScheduler where
  base : BaseScheduler
  pqueue : List PriorityItem
  popCount : Nat
  fibers : FiberID → Fiber

namespace PriorityScheduler

variable (s : PriorityScheduler)

/-- `NewPriorityScheduler`, over any fibers. -/
def new (fibers : FiberID → Fiber) : PriorityScheduler := ⟨.new, [], 0, fibers⟩

/-- `item.IsFinished()`. -/
def finished (item : PriorityItem) : Bool := (s.fibers item.fiber).isFinished

/-- `f.SetPriority(p)`. -/
def setPriority (f : FiberID) (p : Int) : PriorityScheduler :=
  { s with fibers := Function.update s.fibers f ((s.fibers f).setPriority p) }

/-- `heap.Push` of a fiber with its priority and creation time. -/
def pushFiber (f : FiberID) : Option PriorityScheduler :=
  (SliceHeap.push pqOps s.pqueue ⟨f, (s.fibers f).priority, (s.fibers f).createdAt, 0⟩).map
    fun pq => { s with pqueue := pq }

/-- `Schedule`. -/
def schedule (f : FiberID) : Option (PriorityScheduler × Option String) :=
  if s.base.stopped then some (s, some "scheduler stopped")
  else (s.pushFiber f).map fun s' =>
    ({ s' with base := { s'.base with totalScheduled := s'.base.totalScheduled + 1 } }, none)

/-- `PriorityQueue.RemoveFinished`: the compaction copies entries as they are; `heap.Init`
follows if any are left. -/
def removeFinished : Option (List PriorityItem) :=
  let kept := s.pqueue.filter fun item => !s.finished item
  if 0 < kept.length then SliceHeap.init pqOps kept else some kept

/-- `ageAllLocked`. -/
def ageAllLocked : Option PriorityScheduler :=
  (SliceHeap.init pqOps (s.pqueue.map PriorityItem.age)).map fun pq =>
    { s with
      pqueue := pq
      -- the loop runs before `heap.Init`, so over the entries in their old order
      fibers := s.pqueue.foldl (fun fibers item =>
        if item.priorityVal < PriorityItem.agingLimit then
          Function.update fibers item.fiber
            ((fibers item.fiber).setPriority (item.priorityVal + 1))
        else fibers) s.fibers }

/-- `heap.Pop` and `recordSwitch` at the end of `Next`. -/
def popNext : Option (PriorityScheduler × Except String FiberID) :=
  (SliceHeap.pop pqOps s.pqueue).map fun (pq, item) =>
    ({ s with
        pqueue := pq
        base := { s.base with contextSwitches := s.base.contextSwitches + 1 } },
      .ok item.fiber)

/-- `Next`. -/
def next : Option (PriorityScheduler × Except String FiberID) :=
  if s.base.stopped then some (s, .error "scheduler stopped")
  else match s.removeFinished with
    | none => none
    | some [] => some ({ s with pqueue := [] }, .error "no fibers in run queue")
    | some (item :: pq) =>
      -- a call that finds the queue empty does not count towards the next aging
      let s := { s with pqueue := item :: pq, popCount := s.popCount + 1 }
      if s.popCount % 100 = 0 then s.ageAllLocked.bind popNext else s.popNext

/-- The position `for i, item := range *s.pqueue` stops at: the first entry of the fiber. -/
def find (f : FiberID) : Option Nat := s.pqueue.findIdx? fun item => item.fiber == f

/-- `heap.Remove(s.pqueue, i)`. -/
def removeAt (i : Nat) : Option PriorityScheduler :=
  (SliceHeap.remove pqOps s.pqueue i).map fun (pq, _) => { s with pqueue := pq }

/-- `heap.Fix(s.pqueue, i)`. -/
def fixAt (i : Nat) : Option PriorityScheduler :=
  (SliceHeap.fix pqOps s.pqueue i).map fun pq => { s with pqueue := pq }

/-- `(*s.pqueue)[i].PriorityVal = p`. -/
def setVal (i : Nat) (p : Int) : PriorityScheduler :=
  { s with pqueue := s.pqueue.modify i fun item => { item with priorityVal := p } }

/-- `BlockFiber`, which removes the entry at `item.index`. -/
def blockFiber (f : FiberID) : Option PriorityScheduler :=
  let removed := match (s.find f).bind (s.pqueue[·]?) with
    | some item => s.removeAt item.index
    | none => some s
  removed.map fun s' =>
    { s' with base := { s'.base with blockedQueue := s'.base.blockedQueue ++ [f] } }

/-- `UnblockFiber`. -/
def unblockFiber (f : FiberID) : Option (PriorityScheduler × Option String) :=
  if f ∈ s.base.blockedQueue then
    let s := { s with
      base := { s.base with blockedQueue := s.base.blockedQueue.erase f }
      fibers := Function.update s.fibers f (s.fibers f).unblock }
    (s.pushFiber f).map (·, none)
  else some (s, some ("fiber " ++ toString f ++ " not found in blocked queue"))

/-- `UpdatePriority`, which fixes the heap at `item.index`. -/
def updatePriority (f : FiberID) (p : Int) : Option (PriorityScheduler × Option String) :=
  match s.find f with
  | none => some (s, some ("fiber " ++ toString f ++ " not in priority queue"))
  | some i =>
    match s.pqueue[i]? with
    | none => none
    | some item => (((s.setPriority f p).setVal i p).fixAt item.index).map (·, none)

/-- `Reheapify`, which fixes the heap at the entry's `index`. -/
def reheapify (f : FiberID) : Option (PriorityScheduler × Bool) :=
  match s.find f with
  | none => some (s, false)
  | some i =>
    match s.pqueue[i]? with
    | none => none
    | some item => ((s.setVal i (s.fibers f).priority).fixAt item.index).map (·, true)

/-- `Remove`, which removes the entry at its position. -/
def remove (f : FiberID) : Option (PriorityScheduler × Option String) :=
  match s.find f with
  | none => some (s, some ("fiber " ++ toString f ++ " not found in priority queue"))
  | some i => (s.removeAt i).map (·, none)

/-- `MarkCompleted`; `drop` is what it prunes from `completed`. -/
def markCompleted (f : FiberID) (drop : Finset FiberID) : Option PriorityScheduler :=
  if f ∈ s.base.completed then some s
  else
    let s := { s with base := { s.base with
      completed := insert f s.base.completed \ drop
      totalCompleted := s.base.totalCompleted + 1 } }
    match s.find f with
    | none => some s
    | some i => s.removeAt i

/-- `Clear`; `popCount` is left as it is. -/
def clear : PriorityScheduler := { s with pqueue := [], base := s.base.clear }

/-! ## Sequences of operations -/

/-- An operation, or something a fiber does in the meantime. -/
inductive Label where
  | schedule (f : FiberID)
  | next
  | blockFiber (f : FiberID)
  | unblockFiber (f : FiberID)
  | updatePriority (f : FiberID) (p : Int)
  | reheapify (f : FiberID)
  | remove (f : FiberID)
  | markCompleted (f : FiberID) (drop : Finset FiberID)
  | clear
  | start
  | stop
  /-- The fiber function ends. -/
  | finish (f : FiberID)
  /-- Somebody calls the fiber's own `SetPriority`. -/
  | setPriority (f : FiberID) (p : Int)

/-- One operation; `none` if it panics, and for a choice of entries to prune that
`MarkCompleted` cannot make. -/
def step : Label → Option PriorityScheduler
  | .schedule f => (s.schedule f).map Prod.fst
  | .next => s.next.map Prod.fst
  | .blockFiber f => s.blockFiber f
  | .unblockFiber f => (s.unblockFiber f).map Prod.fst
  | .updatePriority f p => (s.updatePriority f p).map Prod.fst
  | .reheapify f => (s.reheapify f).map Prod.fst
  | .remove f => (s.remove f).map Prod.fst
  | .markCompleted f drop =>
    if BaseScheduler.Prunes (insert f s.base.completed) drop then s.markCompleted f drop
    else none
  | .clear => some s.clear
  | .start => some { s with base := s.base.start.1 }
  | .stop => some { s with base := s.base.stop.1 }
  | .finish f => some { s with fibers := Function.update s.fibers f (s.fibers f).runEnd }
  | .setPriority f p => some (s.setPriority f p)

end PriorityScheduler

end GreenThreads.Scheduler
