import GreenThreads.Sync.Mutex
import GreenThreads.Sync.RWMutex
import GreenThreads.Sync.Channel
import GreenThreads.Sync.WaitGroup
import GreenThreads.Sync.Semaphore
import Mathlib.Logic.Function.Basic

/-!
# GreenThreads — fibers on many primitives (`internal/sync`, `Fiber.Block` and `Unblock`)

Any number of fibers, any number of channels, mutexes, reader/writer mutexes, wait groups and
semaphores. The critical sections are those of the five primitives' own modules; added here is
what they do to the fibers: `Block` of the caller where a section parks it, `Unblock` of the
fiber of every waiter record a section takes out, and the `Unblock` of the cancel path, which
comes after the lock has been released and is a step of its own.

What the calls return is left out: it is the subject of the primitives' own modules, and
neither the queues nor the fibers depend on it.
-/

namespace GreenThreads.Sync

/-- Which primitive: the pointer that `Block` stores. -/
abbrev ObjId := Nat

/-! ## Fibers -/

/-- A fiber with the two fields that say what it waits for. -/
structure BlockedFiber extends Fiber where
  blockReason : String
  blockedOn : Option ObjId
  deriving DecidableEq, Repr

namespace BlockedFiber

/-- `Block`. -/
def block (f : BlockedFiber) (reason : String) (on : ObjId) : BlockedFiber :=
  if f.completion then f
  else { toFiber := f.toFiber.block, blockReason := reason, blockedOn := some on }

/-- `Unblock`. The last two fields are cleared even on a completed fiber. -/
def unblock (f : BlockedFiber) : BlockedFiber :=
  { toFiber := f.toFiber.unblock, blockReason := "", blockedOn := none }

/-- The fiber function has started and has not ended. -/
def Live (f : BlockedFiber) : Prop := f.runStarted = true ∧ f.completion = false

/-- Running and waiting for nothing. -/
def Free (f : BlockedFiber) : Prop :=
  f.Live ∧ f.state = .running ∧ f.blockReason = "" ∧ f.blockedOn = none

/-- Blocked on `i`. -/
def On (f : BlockedFiber) (i : ObjId) : Prop :=
  f.Live ∧ f.state = .blocked ∧ f.blockedOn = some i

theorem Live.unblock {f : BlockedFiber} (h : f.Live) : f.unblock.Free := by
  obtain ⟨hs, hc⟩ := h
  refine ⟨⟨?_, ?_⟩, ?_, rfl, rfl⟩ <;> simp [BlockedFiber.unblock, Fiber.unblock, hs, hc]

theorem Live.block {f : BlockedFiber} (h : f.Live) (reason : String) (i : ObjId) :
    (f.block reason i).On i := by
  obtain ⟨hs, hc⟩ := h
  refine ⟨⟨?_, ?_⟩, ?_, ?_⟩ <;> simp [BlockedFiber.block, Fiber.block, hs, hc]

end BlockedFiber

/-! ## Primitives -/

/-- One primitive. -/
inductive Obj (V : Type*) (p : IntSize) where
  | channel (fc : FiberChannel V)
  | mutex (fm : FiberMutex)
  | rwMutex (frw : FiberRWMutex)
  | waitGroup (fwg : FiberWaitGroup p)
  | semaphore (fs : FiberSemaphore)

/-- The queues of the primitives; `waiting` is the only queue of those that have one. -/
inductive Queue where
  | receivers
  | senders
  | readers
  | writers
  | waiting
  deriving DecidableEq, Repr

/-- The waiter records of a channel, each with the queue it is in. -/
def FiberChannel.records {V : Type*} (fc : FiberChannel V) : List (Queue × Waiter) :=
  fc.receivers.map (Queue.receivers, ·) ++
    fc.senders.map fun sender => (Queue.senders, ⟨sender.call, sender.fiber⟩)

/-- The operations. `Lock`, `LockCtx` and `Unlock` are those of both mutexes. -/
inductive Op (V : Type*) (p : IntSize) where
  | send (value : V)
  | sendCtx (value : V)
  | trySend (value : V)
  | receive
  | receiveCtx
  | tryReceive
  | close
  | lock
  | lockCtx
  | tryLock
  | unlock
  | rLock
  | rLockCtx
  | rUnlock
  | wait
  | waitCtx
  | add (delta : GoInt p)
  | done
  | acquire
  | acquireCtx
  | tryAcquire
  | release

/-- The operations that end their wait when a context is done. -/
def Op.isCtx {V : Type*} {p : IntSize} : Op V p → Bool
  | .sendCtx _ | .receiveCtx | .lockCtx | .rLockCtx | .waitCtx | .acquireCtx => true
  | _ => false

/-- What a first section does: the primitive after it, the queue and the block reason if the
caller parks, and the waiter records it takes out and wakes. -/
structure Section (V : Type*) (p : IntSize) where
  obj : Obj V p
  parks : Option (Queue × String)
  woken : List Waiter

namespace Obj

variable {V : Type*} {p : IntSize}

/-- A primitive as its constructor makes it. -/
inductive Fresh : Obj V p → Prop where
  | channel (capacity : Int) : Fresh (.channel (.new capacity))
  | mutex : Fresh (.mutex .new)
  | rwMutex : Fresh (.rwMutex .new)
  | waitGroup : Fresh (.waitGroup .new)
  | semaphore (permits : Int) : Fresh (.semaphore (.new permits))

/-- All waiter records of a primitive, each with the queue it is in. -/
def records : Obj V p → List (Queue × Waiter)
  | .channel fc => fc.records
  | .mutex fm => fm.waitQueue.map (Queue.waiting, ·)
  | .rwMutex frw => frw.readerQueue.map (Queue.readers, ·) ++ frw.writerQueue.map (Queue.writers, ·)
  | .waitGroup fwg => fwg.waitQueue.map (Queue.waiting, ·)
  | .semaphore fs => fs.waitQueue.map (Queue.waiting, ·)

/-- A section that returns and wakes nobody. -/
def returns (o : Obj V p) : Section V p := ⟨o, none, []⟩

/-- The first section of a blocking call that either finishes (`true`) or parks. -/
def parksUnless (o : Obj V p) (q : Queue) (reason : String) (done : Bool) : Section V p :=
  ⟨o, if done then none else some (q, reason), []⟩

/-- The waiter records of the channel `fc` that a section takes out, given the calls it wakes. -/
def wokenBy (fc : FiberChannel V) (woken : List (Nat × Channel.Result V)) : List Waiter :=
  (fc.records.filter fun r => r.2.call ∈ woken.map Prod.fst).map Prod.snd

/-- The first section of `Send` and `Receive` and their `Ctx` variants. -/
def ofOutcome (fc : FiberChannel V) (q : Queue) (reason : String)
    (res : FiberChannel V × Channel.Outcome V) : Section V p :=
  ⟨.channel res.1, if res.2.own.isNone then some (q, reason) else none, wokenBy fc res.2.woken⟩

/-- The waiters a releasing section of a reader/writer mutex lets in. -/
def admitted : Admitted → List Waiter
  | .writer w => [w]
  | .readers ws => ws

/-- The first section of operation `op` as call number `c` for the fiber `f` (`none`: nil);
`none` where the primitive has no such operation. A call that panics or is refused changes
nothing. -/
def enter (o : Obj V p) (c : Nat) (f : Option FiberRef) (op : Op V p) : Option (Section V p) :=
  match o, op with
  | .channel fc, .send v | .channel fc, .sendCtx v =>
    some (ofOutcome fc .senders "waiting to send on channel" (fc.send c v f))
  | .channel fc, .trySend v =>
    some ⟨.channel (fc.trySend v).1, none, wokenBy fc (fc.trySend v).2.woken⟩
  | .channel fc, .receive | .channel fc, .receiveCtx =>
    some (ofOutcome fc .receivers "waiting to receive from channel" (fc.receive c f))
  | .channel fc, .tryReceive =>
    some ⟨.channel fc.tryReceive.1, none, wokenBy fc fc.tryReceive.2.woken⟩
  | .channel fc, .close => some ⟨.channel fc.close.1, none, wokenBy fc fc.close.2⟩
  | .mutex fm, .lock | .mutex fm, .lockCtx =>
    match f with
    | none => some (returns (.mutex fm))
    | some g =>
      let res := fm.lockSection ⟨c, g⟩
      some (parksUnless (.mutex res.1) .waiting "waiting for mutex" res.2)
  | .mutex fm, .tryLock => some (returns (.mutex (fm.tryLock f).1))
  | .mutex fm, .unlock =>
    match fm.unlock f with
    | .ok (fm', next) => some ⟨.mutex fm', none, next.toList⟩
    | .error _ => some (returns (.mutex fm))
  | .rwMutex frw, .rLock | .rwMutex frw, .rLockCtx =>
    match f with
    | none => some (returns (.rwMutex frw))
    | some g =>
      let res := frw.rLockSection ⟨c, g⟩
      some (parksUnless (.rwMutex res.1) .readers "waiting for read lock" res.2)
  | .rwMutex frw, .lock | .rwMutex frw, .lockCtx =>
    match f with
    | none => some (returns (.rwMutex frw))
    | some g =>
      let res := frw.lockSection ⟨c, g⟩
      some (parksUnless (.rwMutex res.1) .writers "waiting for write lock" res.2)
  | .rwMutex frw, .rUnlock =>
    match frw.rUnlock with
    | .ok (frw', adm) => some ⟨.rwMutex frw', none, admitted adm⟩
    | .error _ => some (returns (.rwMutex frw))
  | .rwMutex frw, .unlock =>
    match frw.unlock f with
    | .ok (frw', adm) => some ⟨.rwMutex frw', none, admitted adm⟩
    | .error _ => some (returns (.rwMutex frw))
  | .waitGroup fwg, .wait | .waitGroup fwg, .waitCtx =>
    match f with
    | none => some (returns (.waitGroup fwg))
    | some g =>
      let res := fwg.waitSection ⟨c, g⟩
      some (parksUnless (.waitGroup res.1) .waiting "waiting on waitgroup" res.2)
  | .waitGroup fwg, .add delta =>
    match fwg.add delta with
    | .ok (fwg', woken) => some ⟨.waitGroup fwg', none, woken⟩
    | .error _ => some (returns (.waitGroup fwg))
  | .waitGroup fwg, .done =>
    match fwg.done with
    | .ok (fwg', woken) => some ⟨.waitGroup fwg', none, woken⟩
    | .error _ => some (returns (.waitGroup fwg))
  | .semaphore fs, .acquire | .semaphore fs, .acquireCtx =>
    match f with
    | none => some (returns (.semaphore fs))
    | some g =>
      let res := fs.acquireSection ⟨c, g⟩
      some (parksUnless (.semaphore res.1) .waiting "waiting for semaphore" res.2)
  | .semaphore fs, .tryAcquire => some (returns (.semaphore fs.tryAcquire.1))
  | .semaphore fs, .release =>
    match fs.release with
    | (fs', .handed w) => some ⟨.semaphore fs', none, [w]⟩
    | (fs', _) => some (returns (.semaphore fs'))
  | _, _ => none

/-- The section of the cancel path: the record of call `c` leaves the queue it is in. -/
def withdraw (o : Obj V p) (q : Queue) (c : Nat) : Obj V p :=
  match o, q with
  | .channel fc, .senders => .channel (fc.removeSenderLocked c)
  | .channel fc, .receivers => .channel (fc.removeReceiverLocked c)
  | .mutex fm, .waiting => .mutex (fm.removeWaiterLocked c)
  | .rwMutex frw, .readers => .rwMutex (frw.removeReaderLocked c)
  | .rwMutex frw, .writers => .rwMutex (frw.removeWriterLocked c)
  | .waitGroup fwg, .waiting => .waitGroup (fwg.removeWaiterLocked c)
  | .semaphore fs, .waiting => .semaphore (fs.removeWaiterLocked c)
  | o, _ => o

end Obj

/-! ## The system -/

namespace Blocking

variable {V : Type*} {p : IntSize}

/-- Where a fiber is in its code. -/
inductive Pc where
  /-- In no blocking call: each of its calls so far has returned. -/
  | idle
  /-- In the wait of call `c` on primitive `i`, with its record in queue `q` until somebody
  takes it out; `ctx` says whether the wait also ends with a context. -/
  | waiting (c : Nat) (i : ObjId) (q : Queue) (ctx : Bool)
  /-- In the cancel path of call `c`, after the lock has been released and before `Unblock`. -/
  | leaving (c : Nat)
  deriving DecidableEq, Repr

/-- The call a fiber is in. -/
def Pc.call? : Pc → Option Nat
  | .idle => none
  | .waiting c _ _ _ => some c
  | .leaving c => some c

/-- All primitives and all fibers. `calls` counts the calls made so far and numbers the next
one; `closed` are the calls whose `ready` channel has been closed. -/
structure World (V : Type*) (p : IntSize) where
  objs : ObjId → Obj V p
  fibers : FiberRef → BlockedFiber
  pc : FiberRef → Pc
  calls : Nat
  closed : List Nat

/-- Fresh primitives, and fibers that run and wait for nothing. -/
structure Initial (w : World V p) : Prop where
  objs : ∀ i, (w.objs i).Fresh
  fibers : ∀ f, (w.fibers f).Free
  pc : ∀ f, w.pc f = .idle
  closed : w.closed = []

/-- `Unblock` of the fibers of some waiter records, in order. -/
def unblockAll (fibers : FiberRef → BlockedFiber) (ws : List Waiter) : FiberRef → BlockedFiber :=
  ws.foldl (fun fibers w => Function.update fibers w.fiber (fibers w.fiber).unblock) fibers

/-- A step of the system. -/
inductive Label (V : Type*) (p : IntSize) where
  /-- The fiber `f`, or for `none` some goroutine that is no fiber, calls an operation. -/
  | call (f : Option FiberRef) (i : ObjId) (op : Op V p)
  /-- `<-waiter.ready`. -/
  | resume (f : FiberRef)
  /-- The `ctx.Done()` arm, up to the release of the lock. -/
  | cancel (f : FiberRef)
  /-- `currentFiber.Unblock(); return ctx.Err()`. -/
  | leave (f : FiberRef)

/-- A fiber calls an operation only when it is in no other call. -/
def World.mayCall (w : World V p) : Option FiberRef → Bool
  | none => true
  | some f => w.pc f = .idle

/-- What the first section of a call on `i` does to the system. -/
def World.apply (w : World V p) (f : Option FiberRef) (i : ObjId) (ctx : Bool)
    (r : Section V p) : World V p :=
  let fibers := unblockAll w.fibers r.woken
  { objs := Function.update w.objs i r.obj
    fibers :=
      match f, r.parks with
      | some g, some (_, reason) => Function.update fibers g ((fibers g).block reason i)
      | _, _ => fibers
    pc :=
      match f, r.parks with
      | some g, some (q, _) => Function.update w.pc g (.waiting w.calls i q ctx)
      | _, _ => w.pc
    calls := w.calls + 1
    closed := w.closed ++ r.woken.map Waiter.call }

/-- One critical section, or the `Unblock` at the end of a cancel path. -/
def step (w : World V p) : Label V p → Option (World V p)
  | .call f i op =>
    if w.mayCall f then ((w.objs i).enter w.calls f op).map (w.apply f i op.isCtx) else none
  | .resume f =>
    match w.pc f with
    | .waiting c _ _ _ =>
      if c ∈ w.closed then some { w with pc := Function.update w.pc f .idle } else none
    | _ => none
  | .cancel f =>
    match w.pc f with
    | .waiting c i q true =>
      if c ∈ w.closed then some { w with pc := Function.update w.pc f .idle }
      else some { w with
        objs := Function.update w.objs i ((w.objs i).withdraw q c)
        pc := Function.update w.pc f (.leaving c) }
    | _ => none
  | .leave f =>
    match w.pc f with
    | .leaving _ => some { w with
        fibers := Function.update w.fibers f (w.fibers f).unblock
        pc := Function.update w.pc f .idle }
    | _ => none

end Blocking

end GreenThreads.Sync
