import GreenThreads.Sync.Calls
import GreenThreads.Lib.Trans

/-!
# GreenThreads — `FiberMutex` (`internal/sync/mutex.go`)

The critical sections of `FiberMutex`, then the system of any number of calls on one mutex.
Each critical section is one step. A parked call leaves its wait in one of two steps:
`resume`, once `ready` is closed, and for `LockCtx` also `cancel`, the section taken when the
context is done.
-/

namespace GreenThreads.Sync

/-- `type FiberMutex struct`. -/
structure FiberMutex where
  locked : Bool
  owner : FiberID
  waitQueue : List Waiter
  deriving DecidableEq, Repr

namespace FiberMutex

/-- `NewFiberMutex`. -/
def new : FiberMutex := ⟨false, 0, []⟩

/-- The section `Lock` and `LockCtx` open with: take a free mutex (`true`), or join the back
of `waitQueue` with the waiter `w`. -/
def lockSection (fm : FiberMutex) (w : Waiter) : FiberMutex × Bool :=
  if !fm.locked then ({ fm with locked := true, owner := w.fiber.id }, true)
  else ({ fm with waitQueue := fm.waitQueue ++ [w] }, false)

/-- `TryLock`. -/
def tryLock (fm : FiberMutex) (currentFiber : Option FiberRef) : FiberMutex × Bool :=
  match currentFiber with
  | none => (fm, false)
  | some f => if fm.locked then (fm, false) else ({ fm with locked := true, owner := f.id }, true)

/-- `Unlock`: panics, or releases the mutex to the oldest waiter, which is returned. -/
def unlock (fm : FiberMutex) (currentFiber : Option FiberRef) :
    Except String (FiberMutex × Option Waiter) :=
  match currentFiber with
  | none => .error "unlock with nil fiber mutex owner"
  | some f =>
    if !fm.locked then .error "unlock of unlocked mutex"
    else if fm.owner ≠ f.id then .error "unlock by non-owner"
    else match fm.waitQueue with
      | [] => .ok ({ fm with locked := false, owner := 0 }, none)
      -- the mutex stays locked on its way to the next owner
      | next :: rest => .ok ({ fm with waitQueue := rest, owner := next.fiber.id }, some next)

/-- `removeWaiterLocked`. -/
def removeWaiterLocked (fm : FiberMutex) (c : Nat) : FiberMutex :=
  { fm with waitQueue := removeWaiter Waiter.call fm.waitQueue c }

/-! ### The sections, case by case -/

theorem lockSection_free {fm : FiberMutex} (w : Waiter) (h : fm.locked = false) :
    fm.lockSection w = ({ fm with locked := true, owner := w.fiber.id }, true) := by
  simp [lockSection, h]

theorem lockSection_held {fm : FiberMutex} (w : Waiter) (h : fm.locked = true) :
    fm.lockSection w = ({ fm with waitQueue := fm.waitQueue ++ [w] }, false) := by
  simp [lockSection, h]

theorem tryLock_free {fm : FiberMutex} (f : FiberRef) (h : fm.locked = false) :
    fm.tryLock (some f) = ({ fm with locked := true, owner := f.id }, true) := by
  simp [tryLock, h]

theorem tryLock_held {fm : FiberMutex} (f : Option FiberRef) (h : fm.locked = true) :
    fm.tryLock f = (fm, false) := by
  cases f <;> simp [tryLock, h]

theorem unlock_empty {fm : FiberMutex} {f : FiberRef} (h : fm.locked = true)
    (ho : fm.owner = f.id) (hq : fm.waitQueue = []) :
    fm.unlock (some f) = .ok ({ fm with locked := false, owner := 0 }, none) := by
  simp [unlock, h, ho, hq]

theorem unlock_handoff {fm : FiberMutex} {f : FiberRef} {w : Waiter} {rest : List Waiter}
    (h : fm.locked = true) (ho : fm.owner = f.id) (hq : fm.waitQueue = w :: rest) :
    fm.unlock (some f) = .ok ({ fm with waitQueue := rest, owner := w.fiber.id }, some w) := by
  simp [unlock, h, ho, hq]

/-- `Unlock` of a free mutex, by a fiber that does not own it or by nil panics. -/
theorem unlock_panics {fm : FiberMutex} {f : Option FiberRef}
    (h : fm.locked = false ∨ ∀ g, f = some g → fm.owner ≠ g.id) :
    ∃ msg, fm.unlock f = .error msg := by
  cases f with
  | none => exact ⟨_, rfl⟩
  | some g =>
    cases hl : fm.locked with
    | false => exact ⟨"unlock of unlocked mutex", by simp [unlock, hl]⟩
    | true =>
      have ho : fm.owner ≠ g.id := by
        rcases h with h | h
        · rw [hl] at h; cases h
        · exact h g rfl
      exact ⟨"unlock by non-owner", by simp [unlock, hl, ho]⟩

end FiberMutex

namespace Mutex

/-! ## Calls on one mutex -/

/-- The operations that ask for the mutex, with the fiber they are called for (`none`: nil). -/
inductive Op where
  | lock (f : Option FiberRef)
  | lockCtx (f : Option FiberRef)
  | tryLock (f : Option FiberRef)
  deriving DecidableEq, Repr

/-- How a call ends. `ok` is `Lock` returning, `LockCtx` returning nil and `TryLock` returning
true; `refused` is `TryLock` returning false. -/
inductive Result where
  | ok
  | refused
  | ctxErr
  | err (msg : String)
  | panic (msg : String)
  deriving DecidableEq, Repr

/-- One mutex and the history of its use. `grants` and `releases` log who was given ownership
and whose `Unlock` gave it up. -/
structure Sys where
  fm : FiberMutex
  calls : Calls Op Result
  grants : List (Nat × FiberID)
  releases : List FiberID
  deriving DecidableEq, Repr

/-- A new mutex nobody has called yet. -/
def init : Sys := ⟨FiberMutex.new, [], [], []⟩

/-- A step: a call's first section, an `Unlock`, or a parked call leaving its wait. -/
inductive Label where
  | call (op : Op)
  | unlock (f : Option FiberRef)
  | resume (c : Nat)
  | cancel (c : Nat)
  deriving DecidableEq, Repr

/-- Record a call that returns from its first section without touching the mutex. -/
def Sys.ret (s : Sys) (op : Op) (r : Result) : Sys :=
  { s with calls := s.calls ++ [⟨op, .returned r⟩] }

/-- Record a call that is given the mutex in its first section. -/
def Sys.acquire (s : Sys) (op : Op) (fm : FiberMutex) (f : FiberRef) : Sys :=
  { s with
    fm := fm
    calls := s.calls ++ [⟨op, .returned .ok⟩]
    grants := s.grants ++ [(s.calls.length, f.id)] }

/-- Record a call that parks. -/
def Sys.park (s : Sys) (op : Op) (fm : FiberMutex) : Sys :=
  { s with fm := fm, calls := s.calls ++ [⟨op, .parked⟩] }

/-- The first section of `Lock` and `LockCtx` for a non-nil fiber. -/
def Sys.lockFor (s : Sys) (op : Op) (f : FiberRef) : Sys :=
  match s.fm.lockSection ⟨s.calls.length, f⟩ with
  | (fm, true) => s.acquire op fm f
  | (fm, false) => s.park op fm

/-- The first section of a call. -/
def Sys.enter (s : Sys) : Op → Sys
  | .lock none => s.ret (.lock none) (.panic "fiber mutex lock requires a non-nil fiber")
  | .lock (some f) => s.lockFor (.lock (some f)) f
  | .lockCtx none => s.ret (.lockCtx none) (.err "lock requires a current fiber")
  | .lockCtx (some f) => s.lockFor (.lockCtx (some f)) f
  | .tryLock none => s.ret (.tryLock none) .refused
  | .tryLock (some f) =>
    match s.fm.tryLock (some f) with
    | (fm, true) => s.acquire (.tryLock (some f)) fm f
    | (_, false) => s.ret (.tryLock (some f)) .refused

/-- `Unlock`. A panic leaves the mutex and every call as they were. -/
def Sys.unlock (s : Sys) (currentFiber : Option FiberRef) : Sys :=
  match currentFiber, s.fm.unlock currentFiber with
  | some f, .ok (fm, none) => { s with fm := fm, releases := s.releases ++ [f.id] }
  | some f, .ok (fm, some w) =>
    { s with
      fm := fm
      calls := s.calls.setPhase w.call (.woken .ok)
      grants := s.grants ++ [(w.call, w.fiber.id)]
      releases := s.releases ++ [f.id] }
  | _, _ => s

/-- `<-waiter.ready` in `Lock`, and the `ready` arm of the `select` in `LockCtx`. -/
def Sys.resume (s : Sys) (c : Nat) : Option Sys :=
  match s.calls.phaseOf c with
  | some (.woken r) => some { s with calls := s.calls.setPhase c (.returned r) }
  | _ => none

/-- The `ctx.Done()` arm of the `select` in `LockCtx`: re-check `ready` under the lock, and
leave the queue only if it is still open. -/
def Sys.cancel (s : Sys) (c : Nat) : Option Sys :=
  match s.calls.opOf c, s.calls.phaseOf c with
  | some (.lockCtx _), some (.woken r) =>
    some { s with calls := s.calls.setPhase c (.returned r) }
  | some (.lockCtx _), some .parked =>
    some { s with
      fm := s.fm.removeWaiterLocked c
      calls := s.calls.setPhase c (.returned .ctxErr) }
  | _, _ => none

/-- One critical section. -/
def step (s : Sys) : Label → Option Sys
  | .call op => some (s.enter op)
  | .unlock f => some (s.unlock f)
  | .resume c => s.resume c
  | .cancel c => s.cancel c

/-- The states some run of calls, unlocks, resumptions and cancellations ends in. -/
def Reachable : Sys → Prop := Trans.Reach step Trans.anyStep init

end Mutex

end GreenThreads.Sync
