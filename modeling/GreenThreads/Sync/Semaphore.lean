import GreenThreads.Sync.Calls
import GreenThreads.Lib.Trans

/-!
# GreenThreads — `FiberSemaphore` (`internal/sync/waitgroup.go`)

The critical sections of the counting semaphore, then the system of any number of calls on one
of them. Each critical section is one step.

A semaphore created with no permits has `maxPermits = 0`, which `Release` reads as "no upper
limit"; with permits, the initial count is also the limit.
-/

namespace GreenThreads.Sync

/-- `type FiberSemaphore struct`. The counts are not taken modulo the size of an `int`, unlike the
counter of a `FiberWaitGroup`, to which one `Add` adds any number: `permits` stays within
`maxPermits` or, where there is no limit, goes up by one with a `Release`, and no run makes as many
calls as an `int` can count. -/
structure FiberSemaphore where
  permits : Int
  maxPermits : Int
  waitQueue : List Waiter
  deriving DecidableEq, Repr

/-- What a `Release` does with its permit. -/
inductive Released where
  /-- It goes to the oldest waiter; the count is not touched. -/
  | handed (w : Waiter)
  /-- It is added to the count. -/
  | kept
  /-- The count is at its maximum and stays there. -/
  | dropped
  deriving DecidableEq, Repr

namespace FiberSemaphore

/-- `NewFiberSemaphore`: a negative count counts as zero. -/
def new (permits : Int) : FiberSemaphore :=
  let permits := if permits < 0 then 0 else permits
  { permits := permits, maxPermits := permits, waitQueue := [] }

/-- The section `Acquire` and `AcquireCtx` open with: take a permit (`true`), or join the back
of `waitQueue` with the waiter `w`. -/
def acquireSection (fs : FiberSemaphore) (w : Waiter) : FiberSemaphore × Bool :=
  if fs.permits > 0 then ({ fs with permits := fs.permits - 1 }, true)
  else ({ fs with waitQueue := fs.waitQueue ++ [w] }, false)

/-- `TryAcquire`. -/
def tryAcquire (fs : FiberSemaphore) : FiberSemaphore × Bool :=
  if fs.permits = 0 then (fs, false) else ({ fs with permits := fs.permits - 1 }, true)

/-- `Release`. -/
def release (fs : FiberSemaphore) : FiberSemaphore × Released :=
  match fs.waitQueue with
  | waiter :: rest => ({ fs with waitQueue := rest }, .handed waiter)
  | [] =>
    if fs.maxPermits = 0 ∨ fs.permits < fs.maxPermits then
      ({ fs with permits := fs.permits + 1 }, .kept)
    else (fs, .dropped)

/-- `removeWaiterLocked`. -/
def removeWaiterLocked (fs : FiberSemaphore) (c : Nat) : FiberSemaphore :=
  { fs with waitQueue := removeWaiter Waiter.call fs.waitQueue c }

/-! ### The sections, case by case -/

theorem new_eq (n : Int) : new n = ⟨max n 0, max n 0, []⟩ := by
  have hclamp : (if n < 0 then 0 else n) = max n 0 := by
    split <;> omega
  unfold new
  rw [hclamp]

theorem acquireSection_free {fs : FiberSemaphore} (w : Waiter) (h : 0 < fs.permits) :
    fs.acquireSection w = ({ fs with permits := fs.permits - 1 }, true) :=
  if_pos h

theorem acquireSection_taken {fs : FiberSemaphore} (w : Waiter) (h : fs.permits = 0) :
    fs.acquireSection w = ({ fs with waitQueue := fs.waitQueue ++ [w] }, false) :=
  if_neg (by omega)

theorem tryAcquire_free {fs : FiberSemaphore} (h : 0 < fs.permits) :
    fs.tryAcquire = ({ fs with permits := fs.permits - 1 }, true) :=
  if_neg (by omega)

theorem tryAcquire_taken {fs : FiberSemaphore} (h : fs.permits = 0) :
    fs.tryAcquire = (fs, false) :=
  if_pos h

theorem release_handed {fs : FiberSemaphore} {w : Waiter} {rest : List Waiter}
    (hq : fs.waitQueue = w :: rest) :
    fs.release = ({ fs with waitQueue := rest }, .handed w) := by
  simp [release, hq]

theorem release_kept {fs : FiberSemaphore} (hq : fs.waitQueue = [])
    (h : fs.maxPermits = 0 ∨ fs.permits < fs.maxPermits) :
    fs.release = ({ fs with permits := fs.permits + 1 }, .kept) := by
  simp only [release, hq, if_pos h]

theorem release_dropped {fs : FiberSemaphore} (hq : fs.waitQueue = [])
    (h : ¬ (fs.maxPermits = 0 ∨ fs.permits < fs.maxPermits)) :
    fs.release = (fs, .dropped) := by
  simp only [release, hq, if_neg h]

end FiberSemaphore

namespace Semaphore

/-! ## Calls on one semaphore -/

/-- The operations that ask for a permit, with the fiber they are called for (`none`: nil). -/
inductive Op where
  | acquire (f : Option FiberRef)
  | acquireCtx (f : Option FiberRef)
  | tryAcquire
  deriving DecidableEq, Repr

/-- How a call ends. `ok` is `Acquire` returning, `AcquireCtx` returning nil and `TryAcquire`
returning true; `refused` is `TryAcquire` returning false. -/
inductive Result where
  | ok
  | refused
  | ctxErr
  | err (msg : String)
  | panic (msg : String)
  deriving DecidableEq, Repr

/-- One semaphore and the history of its use: the calls that were granted a permit, oldest
grant first, and the number of `Release` calls that were not dropped. -/
structure Sys where
  fs : FiberSemaphore
  calls : Calls Op Result
  grants : List Nat
  releases : Nat
  deriving DecidableEq, Repr

/-- A new semaphore nobody has called yet. -/
def init (n : Int) : Sys := ⟨.new n, [], [], 0⟩

/-- A step: a call's first section, a `Release`, or a parked call leaving its wait. -/
inductive Label where
  | call (op : Op)
  | release
  | resume (c : Nat)
  | cancel (c : Nat)
  deriving DecidableEq, Repr

/-- Record a call that returns from its first section without a permit. -/
def Sys.ret (s : Sys) (op : Op) (r : Result) : Sys :=
  { s with calls := s.calls ++ [⟨op, .returned r⟩] }

/-- Record a call that is granted a permit in its first section. -/
def Sys.take (s : Sys) (op : Op) (fs : FiberSemaphore) : Sys :=
  { s with
    fs := fs
    calls := s.calls ++ [⟨op, .returned .ok⟩]
    grants := s.grants ++ [s.calls.length] }

/-- Record a call that parks. -/
def Sys.park (s : Sys) (op : Op) (fs : FiberSemaphore) : Sys :=
  { s with fs := fs, calls := s.calls ++ [⟨op, .parked⟩] }

/-- The first section of `Acquire` and `AcquireCtx` for a non-nil fiber. -/
def Sys.acquireFor (s : Sys) (op : Op) (f : FiberRef) : Sys :=
  match s.fs.acquireSection ⟨s.calls.length, f⟩ with
  | (fs, true) => s.take op fs
  | (fs, false) => s.park op fs

/-- The first section of a call. -/
def Sys.enter (s : Sys) : Op → Sys
  | .acquire none =>
    s.ret (.acquire none) (.panic "fiber semaphore acquire requires a non-nil fiber")
  | .acquire (some f) => s.acquireFor (.acquire (some f)) f
  | .acquireCtx none => s.ret (.acquireCtx none) (.err "acquire requires a current fiber")
  | .acquireCtx (some f) => s.acquireFor (.acquireCtx (some f)) f
  | .tryAcquire =>
    match s.fs.tryAcquire with
    | (fs, true) => s.take .tryAcquire fs
    | (_, false) => s.ret .tryAcquire .refused

/-- `Release`. -/
def Sys.release (s : Sys) : Sys :=
  match s.fs.release with
  | (fs, .handed w) =>
    { s with
      fs := fs
      calls := s.calls.setPhase w.call (.woken .ok)
      grants := s.grants ++ [w.call]
      releases := s.releases + 1 }
  | (fs, .kept) => { s with fs := fs, releases := s.releases + 1 }
  | (fs, .dropped) => { s with fs := fs }

/-- `<-waiter.ready` in `Acquire`, and the `ready` arm of the `select` in `AcquireCtx`. -/
def Sys.resume (s : Sys) (c : Nat) : Option Sys :=
  match s.calls.phaseOf c with
  | some (.woken r) => some { s with calls := s.calls.setPhase c (.returned r) }
  | _ => none

/-- The `ctx.Done()` arm of the `select` in `AcquireCtx`: re-check `ready` under the lock, and
leave the queue only if it is still open. -/
def Sys.cancel (s : Sys) (c : Nat) : Option Sys :=
  match s.calls.opOf c, s.calls.phaseOf c with
  | some (.acquireCtx _), some (.woken r) =>
    some { s with calls := s.calls.setPhase c (.returned r) }
  | some (.acquireCtx _), some .parked =>
    some { s with
      fs := s.fs.removeWaiterLocked c
      calls := s.calls.setPhase c (.returned .ctxErr) }
  | _, _ => none

/-- One critical section. -/
def step (s : Sys) : Label → Option Sys
  | .call op => some (s.enter op)
  | .release => some s.release
  | .resume c => s.resume c
  | .cancel c => s.cancel c

/-- The states some run on a semaphore created with count `n` ends in. -/
def Reachable (n : Int) : Sys → Prop := Trans.Reach step Trans.anyStep (init n)

end Semaphore

end GreenThreads.Sync
