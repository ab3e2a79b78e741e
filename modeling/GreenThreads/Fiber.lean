import Mathlib.Data.Nat.Notation

/-!
# GreenThreads — fibers (`internal/fiber/fiber.go`)

The observable lifecycle state of one fiber and the locked sections of its methods. Each
method of `Fiber` takes `f.mu` for the whole of its effect, so it is one function here; `Run`
releases the lock around the fiber function and is the two sections `runBegin` and `runEnd`.

Left out: names, colours, parents, stacks, timestamps other than `CreatedAt`, and the panic
record. No property below reads them.
-/

namespace GreenThreads

/-- `type FiberID uint64`. `NewFiber` numbers fibers from 1 by an atomic counter; 0 is the
"nobody" value of the lock owners. -/
abbrev FiberID := Nat

/-- A fiber as the synchronisation primitives receive it: a pointer made by `NewFiber`, whose
ID is therefore not 0. -/
structure FiberRef where
  id : FiberID
  id_ne_zero : id ≠ 0
  deriving DecidableEq, Repr

/-! ## Stack sizes (`internal/fiber/stack.go`) -/

def defaultStackSize : Int := 65536
def minStackSize : Int := 4096
def maxStackSize : Int := 8388608

/-- `ValidateStackSize`. -/
def validateStackSize (size : Int) : Int :=
  if size < minStackSize then minStackSize
  else if maxStackSize < size then maxStackSize
  else size

theorem validateStackSize_nonneg (size : Int) : 0 ≤ validateStackSize size := by
  unfold validateStackSize minStackSize maxStackSize
  omega

/-! ## Fibers -/

/-- `type FiberState int32`. -/
inductive FiberState where
  | ready
  | running
  | blocked
  | finished
  | dead
  deriving DecidableEq, Repr

/-- The mutable part of `type Fiber struct` that schedulers and the runtime look at. Times are
counted in nanoseconds. -/
structure Fiber where
  state : FiberState := .ready
  priority : Int := 0
  createdAt : Int := 0
  runStarted : Bool := false
  completion : Bool := false
  deriving DecidableEq, Repr

namespace Fiber

/-- First locked section of `Run`: `none` when the function was already started or the fiber
has completed, and `Run` returns at once. -/
def runBegin (f : Fiber) : Option Fiber :=
  if f.runStarted || f.completion then none
  else some { f with runStarted := true, state := .running }

/-- The deferred section of `Run`, which runs after a return and after a panic alike. -/
def runEnd (f : Fiber) : Fiber := { f with state := .finished, completion := true }

/-- `Block`: nothing happens to a completed fiber. -/
def block (f : Fiber) : Fiber :=
  if f.completion then f else { f with state := .blocked }

/-- `Unblock`: back to running once the function has started, to ready before that. -/
def unblock (f : Fiber) : Fiber :=
  if f.completion then f
  else if f.runStarted then { f with state := .running }
  else { f with state := .ready }

/-- `MarkScheduled`: nothing happens to a completed fiber. -/
def markScheduled (f : Fiber) : Fiber :=
  if f.completion then f else { f with state := .running }

/-- `SetPriority`. -/
def setPriority (f : Fiber) (priority : Int) : Fiber := { f with priority := priority }

/-- `IsFinished`. -/
def isFinished (f : Fiber) : Bool := f.state == .finished || f.state == .dead

/-- `IsRunnable`. -/
def isRunnable (f : Fiber) : Bool := f.state == .ready

end Fiber

end GreenThreads
