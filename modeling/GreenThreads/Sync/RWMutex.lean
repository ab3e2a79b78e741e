import GreenThreads.Sync.Calls
import GreenThreads.Lib.Trans

/-!
# GreenThreads — `FiberRWMutex` (`internal/sync/mutex.go`)

The critical sections of the writer-preferred reader/writer mutex, then the system of any
number of calls on one of them. As for `FiberMutex`, each critical section is one step.
-/

namespace GreenThreads.Sync

/-- `type FiberRWMutex struct`. -/
structure FiberRWMutex where
  readers : Nat
  writer : FiberID
  readerQueue : List Waiter
  writerQueue : List Waiter
  deriving DecidableEq, Repr

/-- Whom a releasing section lets in: the oldest writer, or a round of readers. -/
inductive Admitted where
  | writer (w : Waiter)
  | readers (ws : List Waiter)
  deriving DecidableEq, Repr

namespace FiberRWMutex

/-- `NewFiberRWMutex`. -/
def new : FiberRWMutex := ⟨0, 0, [], []⟩

/-- The section `RLock` and `RLockCtx` open with: read at once (`true`) unless a writer is
active or pending, or join the back of `readerQueue` with the waiter `w`. -/
def rLockSection (frw : FiberRWMutex) (w : Waiter) : FiberRWMutex × Bool :=
  if frw.writer = 0 ∧ frw.writerQueue = [] then ({ frw with readers := frw.readers + 1 }, true)
  else ({ frw with readerQueue := frw.readerQueue ++ [w] }, false)

/-- The section `Lock` and `LockCtx` open with. -/
def lockSection (frw : FiberRWMutex) (w : Waiter) : FiberRWMutex × Bool :=
  if frw.readers = 0 ∧ frw.writer = 0 ∧ frw.writerQueue = [] then
    ({ frw with writer := w.fiber.id }, true)
  else ({ frw with writerQueue := frw.writerQueue ++ [w] }, false)

/-- `removeReaderLocked`. -/
def removeReaderLocked (frw : FiberRWMutex) (c : Nat) : FiberRWMutex :=
  { frw with readerQueue := removeWaiter Waiter.call frw.readerQueue c }

/-- `removeWriterLocked`. -/
def removeWriterLocked (frw : FiberRWMutex) (c : Nat) : FiberRWMutex :=
  { frw with writerQueue := removeWaiter Waiter.call frw.writerQueue c }

/-- `grantWriterLocked`; `none` where it returns false. -/
def grantWriterLocked (frw : FiberRWMutex) : Option (FiberRWMutex × Waiter) :=
  match frw.writerQueue with
  | [] => none
  | waiter :: rest =>
    if frw.readers ≠ 0 ∨ frw.writer ≠ 0 then none
    else some ({ frw with writerQueue := rest, writer := waiter.fiber.id }, waiter)

/-- The loop both releasing sections end with: every parked reader is let in. -/
def admitReaders (frw : FiberRWMutex) : FiberRWMutex :=
  { frw with
    readers := frw.readerQueue.foldl (fun readers _ => readers + 1) frw.readers
    readerQueue := [] }

/-- How `RUnlock` by the last reader and `Unlock` go on: a writer before the readers. -/
def admitNext (frw : FiberRWMutex) : FiberRWMutex × Admitted :=
  match frw.grantWriterLocked with
  | some (frw', waiter) => (frw', .writer waiter)
  | none => (frw.admitReaders, .readers frw.readerQueue)

/-- `RUnlock`. -/
def rUnlock (frw : FiberRWMutex) : Except String (FiberRWMutex × Admitted) :=
  if frw.readers = 0 then .error "runlock of unlocked rwmutex"
  else
    let frw := { frw with readers := frw.readers - 1 }
    -- while other readers hold the lock nobody is let in, parked readers included
    if frw.readers = 0 then .ok frw.admitNext else .ok (frw, .readers [])

/-- `Unlock`. -/
def unlock (frw : FiberRWMutex) (currentFiber : Option FiberRef) :
    Except String (FiberRWMutex × Admitted) :=
  match currentFiber with
  | none => .error "unlock with nil rwmutex owner"
  | some f =>
    if frw.writer ≠ f.id then .error "unlock by non-owner"
    else .ok (admitNext { frw with writer := 0 })

/-! ### The sections, case by case -/

theorem rLockSection_open {frw : FiberRWMutex} (w : Waiter) (hw : frw.writer = 0)
    (hq : frw.writerQueue = []) :
    frw.rLockSection w = ({ frw with readers := frw.readers + 1 }, true) :=
  if_pos ⟨hw, hq⟩

theorem rLockSection_shut {frw : FiberRWMutex} (w : Waiter)
    (h : ¬ (frw.writer = 0 ∧ frw.writerQueue = [])) :
    frw.rLockSection w = ({ frw with readerQueue := frw.readerQueue ++ [w] }, false) :=
  if_neg h

theorem lockSection_open {frw : FiberRWMutex} (w : Waiter) (hr : frw.readers = 0)
    (hw : frw.writer = 0) (hq : frw.writerQueue = []) :
    frw.lockSection w = ({ frw with writer := w.fiber.id }, true) :=
  if_pos ⟨hr, hw, hq⟩

theorem lockSection_shut {frw : FiberRWMutex} (w : Waiter)
    (h : ¬ (frw.readers = 0 ∧ frw.writer = 0 ∧ frw.writerQueue = [])) :
    frw.lockSection w = ({ frw with writerQueue := frw.writerQueue ++ [w] }, false) :=
  if_neg h

/-- The admission loop counts one reader a waiter. -/
theorem admitReaders_eq (frw : FiberRWMutex) :
    frw.admitReaders = { frw with
      readers := frw.readers + frw.readerQueue.length, readerQueue := [] } := by
  unfold admitReaders
  congr 1
  generalize frw.readers = n
  induction frw.readerQueue generalizing n with
  | nil => rfl
  | cons w ws ih =>
    rw [List.foldl_cons, ih, List.length_cons]
    omega

theorem admitNext_writer {frw : FiberRWMutex} {w : Waiter} {rest : List Waiter}
    (hr : frw.readers = 0) (hw : frw.writer = 0) (hq : frw.writerQueue = w :: rest) :
    frw.admitNext = ({ frw with writerQueue := rest, writer := w.fiber.id }, .writer w) := by
  simp [admitNext, grantWriterLocked, hr, hw, hq]

theorem admitNext_readers {frw : FiberRWMutex} (hq : frw.writerQueue = []) :
    frw.admitNext = ({ frw with
      readers := frw.readers + frw.readerQueue.length, readerQueue := [] },
      .readers frw.readerQueue) := by
  simp [admitNext, grantWriterLocked, hq, admitReaders_eq]

/-- `Unlock` by nil or by a fiber that does not hold the write lock panics. -/
theorem unlock_panics {frw : FiberRWMutex} {f : Option FiberRef}
    (h : ∀ g, f = some g → frw.writer ≠ g.id) : ∃ msg, frw.unlock f = .error msg := by
  cases f with
  | none => exact ⟨_, rfl⟩
  | some g => exact ⟨_, if_pos (h g rfl)⟩

end FiberRWMutex

namespace RWMutex

/-! ## Calls on one mutex -/

/-- The blocking operations, with the fiber they are called for (`none`: nil). -/
inductive Op where
  | rLock (f : Option FiberRef)
  | rLockCtx (f : Option FiberRef)
  | lock (f : Option FiberRef)
  | lockCtx (f : Option FiberRef)
  deriving DecidableEq, Repr

/-- The operations that ask for the read lock. -/
def Op.reads : Op → Bool
  | .rLock _ | .rLockCtx _ => true
  | _ => false

/-- The operations that ask for the write lock. -/
def Op.writes (op : Op) : Bool := !op.reads

/-- How a call ends; `ok` is returning, for the `Ctx` variants with a nil error. -/
inductive Result where
  | ok
  | ctxErr
  | err (msg : String)
  | panic (msg : String)
  deriving DecidableEq, Repr

/-- One mutex and the history of its use. `readGrants` are the calls that were given the read
lock and `runlocks` counts the `RUnlock` calls that did not panic; `writeGrants` and
`releases` log who was given the write lock and whose `Unlock` gave it up. -/
structure Sys where
  frw : FiberRWMutex
  calls : Calls Op Result
  readGrants : List Nat
  runlocks : Nat
  writeGrants : List (Nat × FiberID)
  releases : List FiberID
  deriving DecidableEq, Repr

/-- A new mutex nobody has called yet. -/
def init : Sys := ⟨FiberRWMutex.new, [], [], 0, [], []⟩

/-- A step: a call's first section, a release, or a parked call leaving its wait. -/
inductive Label where
  | call (op : Op)
  | rUnlock
  | unlock (f : Option FiberRef)
  | resume (c : Nat)
  | cancel (c : Nat)
  deriving DecidableEq, Repr

/-- Record a call that returns without the lock. -/
def Sys.ret (s : Sys) (op : Op) (r : Result) : Sys :=
  { s with calls := s.calls ++ [⟨op, .returned r⟩] }

/-- The first section of `RLock` and `RLockCtx` for a non-nil fiber. -/
def Sys.rLockFor (s : Sys) (op : Op) (f : FiberRef) : Sys :=
  match s.frw.rLockSection ⟨s.calls.length, f⟩ with
  | (frw, true) =>
    { s with
      frw := frw
      calls := s.calls ++ [⟨op, .returned .ok⟩]
      readGrants := s.readGrants ++ [s.calls.length] }
  | (frw, false) =>
    { s with frw := frw, calls := s.calls ++ [⟨op, .parked⟩] }

/-- The first section of `Lock` and `LockCtx` for a non-nil fiber. -/
def Sys.lockFor (s : Sys) (op : Op) (f : FiberRef) : Sys :=
  match s.frw.lockSection ⟨s.calls.length, f⟩ with
  | (frw, true) =>
    { s with
      frw := frw
      calls := s.calls ++ [⟨op, .returned .ok⟩]
      writeGrants := s.writeGrants ++ [(s.calls.length, f.id)] }
  | (frw, false) =>
    { s with frw := frw, calls := s.calls ++ [⟨op, .parked⟩] }

/-- The first section of a call. -/
def Sys.enter (s : Sys) : Op → Sys
  | .rLock none => s.ret (.rLock none) (.panic "fiber rwmutex rlock requires a non-nil fiber")
  | .rLock (some f) => s.rLockFor (.rLock (some f)) f
  | .rLockCtx none => s.ret (.rLockCtx none) (.err "rlock requires a current fiber")
  | .rLockCtx (some f) => s.rLockFor (.rLockCtx (some f)) f
  | .lock none => s.ret (.lock none) (.panic "fiber rwmutex lock requires a non-nil fiber")
  | .lock (some f) => s.lockFor (.lock (some f)) f
  | .lockCtx none => s.ret (.lockCtx none) (.err "lock requires a current fiber")
  | .lockCtx (some f) => s.lockFor (.lockCtx (some f)) f

/-- Record whom a releasing section let in. -/
def Sys.letIn (s : Sys) (frw : FiberRWMutex) : Admitted → Sys
  | .writer w =>
    { s with
      frw := frw
      calls := s.calls.setPhase w.call (.woken .ok)
      writeGrants := s.writeGrants ++ [(w.call, w.fiber.id)] }
  | .readers ws =>
    { s with
      frw := frw
      calls := s.calls.wakeAll (ws.map Waiter.call) .ok
      readGrants := s.readGrants ++ ws.map Waiter.call }

/-- `RUnlock`. A panic leaves everything as it was. -/
def Sys.rUnlock (s : Sys) : Sys :=
  match s.frw.rUnlock with
  | .ok (frw, adm) => { s with runlocks := s.runlocks + 1 }.letIn frw adm
  | .error _ => s

/-- `Unlock`. A panic leaves everything as it was. -/
def Sys.unlock (s : Sys) (currentFiber : Option FiberRef) : Sys :=
  match currentFiber, s.frw.unlock currentFiber with
  | some f, .ok (frw, adm) => { s with releases := s.releases ++ [f.id] }.letIn frw adm
  | _, _ => s

/-- `<-waiter.ready`, alone or as an arm of the `select` in `RLockCtx` and `LockCtx`. -/
def Sys.resume (s : Sys) (c : Nat) : Option Sys :=
  match s.calls.phaseOf c with
  | some (.woken r) => some { s with calls := s.calls.setPhase c (.returned r) }
  | _ => none

/-- The `ctx.Done()` arm of the `select`: re-check `ready` under the lock, and leave the queue
only if it is still open. -/
def Sys.cancel (s : Sys) (c : Nat) : Option Sys :=
  match s.calls.opOf c, s.calls.phaseOf c with
  | some (.rLockCtx _), some (.woken r) | some (.lockCtx _), some (.woken r) =>
    some { s with calls := s.calls.setPhase c (.returned r) }
  | some (.rLockCtx _), some .parked =>
    some { s with
      frw := s.frw.removeReaderLocked c
      calls := s.calls.setPhase c (.returned .ctxErr) }
  | some (.lockCtx _), some .parked =>
    some { s with
      frw := s.frw.removeWriterLocked c
      calls := s.calls.setPhase c (.returned .ctxErr) }
  | _, _ => none

/-- One critical section. -/
def step (s : Sys) : Label → Option Sys
  | .call op => some (s.enter op)
  | .rUnlock => some s.rUnlock
  | .unlock f => some (s.unlock f)
  | .resume c => s.resume c
  | .cancel c => s.cancel c

/-- The states some run of calls, releases, resumptions and cancellations ends in. -/
def Reachable : Sys → Prop := Trans.Reach step Trans.anyStep init

end RWMutex

end GreenThreads.Sync
