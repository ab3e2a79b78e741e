import GreenThreads.Lib.Trans
import GreenThreads.Runtime.State

/-!
# GreenThreads — the steps of a runtime

One function for each kind of thread, which takes the step its place stands for. A step that
has to wait (for `rt.mu`, for the execution loop to return, for an entry of a queue) is `none`.
What the code leaves open is in the label: which worker `Schedule` picks, which ready case
`select` takes, which fiber `Next` finds, which entries a full completion map drops, how a fiber
function ends, when a context is cancelled.
-/

namespace GreenThreads.Runtime

open Scheduler (SchedulerType BaseScheduler)

/-- The cases of the execution loop's `select`s, and what `Next` finds. -/
inductive LoopChoice where
  | done
  | result
  | tick
  /-- `Next` looks at the queue of worker `w` and finds a fiber there, or none. -/
  | look (w : Nat) (found : Option FiberID)
  /-- `Next` returns `ErrNoFibers`. -/
  | noFibers
  /-- The only step there is. -/
  | next
  deriving DecidableEq, Repr

inductive Label where
  /-- A new `Spawn` call, with or without a function, and the length of the name. -/
  | call (nilFn : Bool) (nameLen : Nat)
  /-- `Spawn` call `f` takes its next step; `Schedule` picks worker `w`. -/
  | spawn (f : FiberID) (w : Nat)
  | loop (c : LoopChoice)
  /-- The goroutine of fiber `f` takes its next step; `drop` is what a full map loses. -/
  | go (f : FiberID) (drop : Finset FiberID)
  /-- The goroutine sees the run context done and drops its result. -/
  | discard (f : FiberID)
  /-- The fiber function ends in `runtime.Goexit`. -/
  | goexit (f : FiberID)
  /-- The fiber function blocks on a synchronisation object; somebody unblocks it. -/
  | block (f : FiberID)
  | unblock (f : FiberID)
  | start
  | stop
  | reset
  /-- The holder of `lifecycleMu` takes its next step. -/
  | lifecycle
  /-- The deadline of `Stop` comes before the fibers in flight are done. -/
  | deadline
  /-- The context given to `StartWithContext` is cancelled. -/
  | cancelCtx
  | setStackSize (size : Int)
  deriving DecidableEq

variable (c : Config) (s : State)

namespace State

/-- The validation at the start of `Spawn`. -/
def spawnCall (nilFn : Bool) (nameLen : Nat) : State :=
  { s with calls := s.calls + 1 }.setPc s.calls
    (if nilFn then .returned (.error .nilFunction)
    else if 128 < nameLen then .returned (.error .nameTooLong)
    else .check)

/-- What `Spawn` does after its rollback has been through the scheduler. -/
def rolledBack (present : Bool) : SpawnPc :=
  if present then .rollbackUndo else .returned (.error .stoppedDuringSpawn)

/-- The next step of `Spawn` call `f`. -/
def spawnStep (f : FiberID) (w : Nat) : Option State :=
  match (s.threads f).pc with
  | .uncalled | .returned _ => none
  | .check =>
    if s.muHeld then none
    else if s.isRunning then
      -- `NewFiber` will clamp the stack size read here
      some (s.setThread f { s.threads f with
        pc := .reserve
        stackSize := validateStackSize s.stackSize })
    else some (s.setPc f (.returned (.error .notStarted)))
  | .reserve =>
    some ((s.addCount 1).setPc f
      (if 0 < c.maxFibers ∧ c.maxFibers < s.activeFiberCount + 1 then .unreserve else .insert))
  | .unreserve =>
    some ((s.addCount (-1)).setPc f (.returned (.error (.maxFibersReached c.maxFibers))))
  | .insert => some ({ s with fibers := insert (Key.spawned f) s.fibers }.setPc f .schedule)
  | .schedule => some (s.setPc f (if s.sched.base.stopped then .unschedule else .enqueue))
  | .enqueue =>
    if w < c.numQueues then
      some ({ s with sched := s.sched.enqueue c.kind w f }.setPc f
        (if c.kind = SchedulerType.workStealing then .countScheduled else .readCtx))
    else none
  | .countScheduled => some ({ s with sched := s.sched.countScheduled }.setPc f .readCtx)
  | .unschedule =>
    some ({ s with fibers := s.fibers.erase (.spawned f) }.setPc f .unscheduleUndo)
  | .unscheduleUndo =>
    some ((s.addCount (-1)).setPc f (.returned (.error (.schedule "scheduler stopped"))))
  | .readCtx => if s.muHeld then none else some (s.setPc f (.recheck s.runCtx))
  | .recheck runCtx => some (s.setPc f (.commit (runCtx.any s.done)))
  | .commit stopping =>
    if stopping || s.draining then
      some ({ s with
          fibers := s.fibers.erase (.spawned f)
          admitted := s.admitted.erase f }.setPc f
        (.remove 0 (decide (Key.spawned f ∈ s.fibers))))
    else some ({ s with admitted := insert f s.admitted }.setPc f .recordCreated)
  | .remove w present =>
    -- the scan stops at the first queue that has the fiber
    if ⟨w, f⟩ ∈ s.sched.queue then
      some ({ s with sched := s.sched.remove ⟨w, f⟩ }.setPc f (rolledBack present))
    else if w + 1 < c.numQueues then some (s.setPc f (.remove (w + 1) present))
    else some (s.setPc f (rolledBack present))
  | .rollbackUndo =>
    some ((s.addCount (-1)).setPc f (.returned (.error .stoppedDuringSpawn)))
  | .recordCreated =>
    some ({ s with metrics := s.metrics.recordFiberCreated (s.threads f).stackSize }.setPc f
      (.returned (.ok ())))

/-! ## The execution loop -/

/-- `Next` looks at the queue of worker `w`: finished fibers are dropped, then a fiber is taken
or the queue is empty. -/
def lookStep (w : Nat) (found : Option FiberID) : Option State :=
  let sched := s.sched.filterFinished s.finished w
  match found with
  | none => if sched.localQueue w = [] then some { s with sched := sched } else none
  | some f =>
    if Sched.mayTake c.kind (sched.localQueue w) f then
      some ({ s with sched := sched.take ⟨w, f⟩ }.setLoop (.holding f))
    else none

/-- A result is received; `active` does not go below zero. -/
def receive : Option State :=
  if 0 < s.results s.epoch then
    some { s with
      results := Function.update s.results s.epoch (s.results s.epoch - 1)
      loop := { s.loop with active := s.loop.active - 1 } }
  else none

/-- `fiberWG.Add(1)`, the `go` statement and `active++`. -/
def launch (f : FiberID) : State :=
  { s.setThread f { s.threads f with go := .run, run := s.epoch } with
    loop := ⟨.inner, s.loop.active + 1⟩ }

/-- The next step of the execution loop. -/
def loopStep (choice : LoopChoice) : Option State :=
  match s.loop.pc, choice with
  | .select, .done => if s.done s.epoch then some (s.setLoop .drain) else none
  | .select, .result => s.receive
  | .select, .tick => some (s.setLoop .inner)
  | .drain, .result => s.receive
  | .drain, .next => if s.results s.epoch = 0 then some (s.setLoop .exited) else none
  | .inner, .next =>
    -- the inner loop ends when all workers are busy and when `Next` fails
    some (s.setLoop
      (if s.loop.active < c.numWorkers ∧ s.sched.base.stopped = false then .looking else .select))
  | .looking, .look w found => s.lookStep c w found
  | .looking, .noFibers =>
    if c.kind = .workStealing ∨ s.sched.localQueue 0 = [] then some (s.setLoop .select) else none
  | .holding f, .next =>
    some (s.setLoop (if (s.threads f).fiber.isRunnable then .marking f else .inner))
  | .marking f, .next =>
    some ((s.setThread f { s.threads f with fiber := (s.threads f).fiber.markScheduled }).setLoop
      (.launching f))
  | .launching f, .next => if s.muHeld then none else some (s.launch f)
  | _, _ => none

/-! ## The dispatch goroutine of a fiber -/

/-- A result goes into the channel of run `run`. -/
def deliver (run : Nat) : State :=
  { s with results := Function.update s.results run (s.results run + 1) }

/-- The next step of the goroutine of fiber `f`. -/
def goStep (f : FiberID) (drop : Finset FiberID) : Option State :=
  match (s.threads f).go with
  | .absent | .ended => none
  | .run =>
    match (s.threads f).fiber.runBegin with
    | some fiber => some (s.setFiber f fiber .body)
    | none => some (s.setGo f .recordCompleted)
  | .body => some (s.setFiber f (s.threads f).fiber.runEnd .recordCompleted)
  | .recordCompleted =>
    if Metrics.Trims (insert f s.metrics.completed) drop then
      some ({ s with
          metrics := s.metrics.recordFiberCompleted f (s.threads f).stackSize drop }.setGo f
        .markCompleted)
    else none
  | .markCompleted =>
    if f ∈ s.sched.base.completed then some (s.setGo f .remove)
    else if BaseScheduler.Prunes (insert f s.sched.base.completed) drop then
      let sched := s.sched.countCompleted f drop
      -- the other schedulers take the fiber out of the queue in the same section
      if c.kind = .workStealing then some ({ s with sched := sched }.setGo f (.sweep 0))
      else some ({ s with sched := sched.remove ⟨0, f⟩ }.setGo f .remove)
    else none
  | .sweep w =>
    some ({ s with sched := s.sched.sweep ⟨w, f⟩ }.setGo f
      (if w + 1 < c.numQueues then .sweep (w + 1) else .remove))
  | .remove =>
    some ({ s with
        fibers := s.fibers.erase (.spawned f)
        admitted := s.admitted.erase f }.setGo f
      (if Key.spawned f ∈ s.fibers then .undo else .send))
  | .undo => some ((s.addCount (-1)).setGo f .send)
  | .send =>
    -- `resultChan` holds 1024 results
    if s.results (s.threads f).run < 1024 then
      some ((s.deliver (s.threads f).run).setGo f .ended)
    else none

/-- The other case of the goroutine's `select`. -/
def discardStep (f : FiberID) : Option State :=
  if (s.threads f).go = .send ∧ s.done (s.threads f).run then some (s.setGo f .ended) else none

/-- `runtime.Goexit` runs the deferred calls of `Run` and of the goroutine and nothing else:
`complete` and the send are skipped. -/
def goexitStep (f : FiberID) : Option State :=
  if (s.threads f).go = .body then some (s.setFiber f (s.threads f).fiber.runEnd .ended) else none

/-- The fiber function is blocked or unblocked. -/
def bodyStep (f : FiberID) (change : Fiber → Fiber) : Option State :=
  if (s.threads f).go = .body then some (s.setFiber f (change (s.threads f).fiber) .body) else none

/-! ## `Start`, `Stop` and `Reset` -/

/-- A call takes `lifecycleMu` and makes its first check. -/
def begin (enters : Bool) (first : Lifecycle) (otherwise : Except LifecycleError Unit) :
    Option State :=
  match s.lifecycle with
  | .idle _ =>
    some { s with lifecycle := if enters then first else .idle (some otherwise) }
  | _ => none

/-- The fibers `reapPending` takes: committed and still ready. The main fiber is never one. -/
def reapable : List FiberID :=
  (List.range s.calls).filter fun f =>
    decide (Key.spawned f ∈ s.fibers) && decide (f ∈ s.admitted) && (s.threads f).fiber.isRunnable

/-- Where `scheduler.Clear` returns to. -/
def afterClear : Clearing → Lifecycle
  | .stop err => .reapScan err
  | .reset => .resetMetrics

/-- `scheduler.Clear` at worker `w`. `BaseScheduler.Clear` is one section, and all there is for a
FIFO or round-robin scheduler; the priority scheduler empties its heap first, and the work-stealing
scheduler the queue of one worker after the other. -/
def clearStep (why : Clearing) (w : Nat) : State :=
  if c.clearsAtOnce then
    { s with sched := (s.sched.clearWorker 0).clearBase, lifecycle := afterClear why }
  else if w < c.numQueues then
    { s with sched := s.sched.clearWorker w, lifecycle := .clear why (w + 1) }
  else { s with sched := s.sched.clearBase, lifecycle := afterClear why }

/-- The section of `reapPending` under `fibersMu`. -/
def reapStep (err : Option String) : State :=
  { s with
    draining := true
    fibers := s.fibers \ (s.reapable.toFinset.image .spawned)
    admitted := s.admitted \ s.reapable.toFinset
    reaped := s.reaped ++ s.reapable
    lifecycle := .reapUndo err s.reapable }

/-- What `Stop` returns on its normal path. -/
def stopResult (err : Option String) : Except LifecycleError Unit :=
  match err with
  | none => .ok ()
  | some e => .error (.stopScheduler e)

/-- The next step of the holder of `lifecycleMu`. `stopJoin` is `lifecycleWG.Wait`, of which this
model has the wait for the execution loop; the wait for the goroutine of the deadlock detector is
added by `Watched.step`. -/
def lifecycleStep : Option State :=
  match s.lifecycle with
  | .idle _ => none
  | .startSched =>
    match s.sched.base.start with
    | (base, none) =>
      some { s with sched := { s.sched with base := base }, lifecycle := .startFibers }
    | (_, some e) => some { s with lifecycle := .idle (some (.error (.startScheduler e))) }
  | .startFibers =>
    let main := s.mainFiber.getD s.mains
    some { s with
      mainFiber := some main
      mains := if s.mainFiber.isNone then s.mains + 1 else s.mains
      fibers := insert (.main main) s.fibers
      draining := false
      lifecycle := .startRun }
  | .startRun =>
    some { s with
      epoch := s.epoch + 1
      stopped := false
      loop := ⟨.select, 0⟩
      lifecycle := .idle (some (.ok ())) }
  | .stopCancel =>
    some { s with cancelled := insert s.epoch s.cancelled, lifecycle := .stopSched }
  | .stopSched =>
    some { s with
      sched := { s.sched with base := s.sched.base.stop.1 }
      lifecycle := .stopJoin s.sched.base.stop.2 }
  | .stopJoin err =>
    if s.loop.pc = .exited then some { s with lifecycle := .clear (.stop err) 0 } else none
  | .clear why w => some (s.clearStep c why w)
  | .reapScan err => some (s.reapStep err)
  | .reapUndo err [] => some { s with lifecycle := .join err }
  | .reapUndo err (f :: reaped) =>
    some { s.addCount (-1) with lifecycle := .reapRecord err f reaped }
  | .reapRecord err f reaped =>
    some { s with
      metrics := s.metrics.release (s.threads f).stackSize
      lifecycle := .reapUndo err reaped }
  | .join err =>
    if s.fiberWG s.epoch = 0 then
      some { s with stopped := true, lifecycle := .idle (some (stopResult err)) }
    else none
  | .resetMain => some { s with mainFiber := none, lifecycle := .resetFibers }
  | .resetFibers =>
    some { s with
      fibers := ∅
      admitted := ∅
      draining := false
      lifecycle := .clear .reset 0 }
  | .resetMetrics => some { s with metrics := .new, lifecycle := .idle (some (.ok ())) }

/-- `Stop` gives up waiting for the fibers in flight. -/
def deadlineStep : Option State :=
  match s.lifecycle with
  | .join _ => some { s with stopped := true, lifecycle := .idle (some (.error .stopDeadline)) }
  | _ => none

end State

/-- One step of the system. -/
def step : Label → Option State
  | .call nilFn nameLen => some (s.spawnCall nilFn nameLen)
  | .spawn f w => s.spawnStep c f w
  | .loop choice => s.loopStep c choice
  | .go f drop => s.goStep c f drop
  | .discard f => s.discardStep f
  | .goexit f => s.goexitStep f
  | .block f => s.bodyStep f Fiber.block
  | .unblock f => s.bodyStep f Fiber.unblock
  | .start => s.begin (!s.isRunning) .startSched (.error .alreadyRunning)
  | .stop => s.begin s.isRunning .stopCancel (.ok ())
  | .reset => s.begin (!s.isRunning) .resetMain (.error .alreadyRunning)
  | .lifecycle => s.lifecycleStep c
  | .deadline => s.deadlineStep
  | .cancelCtx =>
    if 0 < s.epoch then some { s with cancelled := insert s.epoch s.cancelled } else none
  | .setStackSize size =>
    if s.muHeld then none else some { s with stackSize := validateStackSize size }

/-- The states a new runtime starts in. -/
def Initial (s : State) : Prop := s = .new c ∨ s = .newWithOptions c

/-! ## Pieces of traces -/

namespace Label

/-- A `Start` from its first step to its last. -/
def startTrace : List Label := .start :: List.replicate 3 .lifecycle

/-- The next `n` steps of `Spawn` call `f`. -/
def spawnTrace (f : FiberID) (n : Nat) : List Label := List.replicate n (.spawn f 0)

/-- A `Stop` that finds the loop asleep: it waits for the loop to return and takes `n` more
steps. -/
def stopTrace (n : Nat) : List Label :=
  [.stop, .lifecycle, .lifecycle, .loop .done, .loop .next] ++ List.replicate n .lifecycle

/-- The loop wakes up, takes fiber `f` and launches it; the fiber function begins. -/
def dispatchTrace (f : FiberID) : List Label :=
  [.loop .tick, .loop .next, .loop (.look 0 (some f)), .loop .next, .loop .next, .loop .next,
    .go f ∅]

end Label

end GreenThreads.Runtime
