import GreenThreads.Runtime.Accounting
import GreenThreads.Web.Control
import GreenThreads.Web.Exposition

/-!
# GreenThreads — the state updates of `broadcastLoop`

At each tick the loop reads the metrics of the current runtime. When four of the counters are
those of the last message it built, it sends that message again, and does not look at the fibers.

* `Displayed` — a runtime with everything that an update shows of it: `Observed` has the metrics,
  and `FiberFields` what the runtime's own model leaves out of a fiber;
* `Broadcaster` — the server's runtime pointer, the runtimes it can point to, and the loop;
* `cached_update_current` — what is sent again is what would be built, in every run in which the
  counters notice every step that changes what an update shows.
-/

namespace GreenThreads.Web

open Trans
open GreenThreads.Runtime (Config Key)

/-! ## What an update shows of a fiber -/

/-- `generateColor`. -/
def generateColor (id : FiberID) : String :=
  let colors := ["#FF6B6B", "#4ECDC4", "#45B7D1", "#FFA07A", "#98D8C8", "#F7DC6F", "#BB8FCE",
    "#85C1E2", "#F8B739", "#52B788", "#E56B6F", "#6C5CE7", "#00B894", "#FD79A8", "#FDCB6E"]
  colors.getD (id % colors.length) ""

/-- The fields of a fiber that an update shows beside its state. `YieldCount` is not among them:
nothing writes it. -/
structure FiberFields where
  id : FiberID
  name : String
  priority : Int := 0
  scheduleCount : Int := 0
  cpuTime : Int := 0
  blockReason : String := ""

/-- A runtime and everything an update shows of it. -/
structure Displayed where
  config : Config
  observed : Observed
  /-- The fibers that `NewFiber` has made for this runtime. -/
  fields : Key → FiberFields

namespace Displayed

variable (d : Displayed)

/-- The fiber that the step makes by `NewFiber`: a `Spawn` call makes its own, and `Start` a main
fiber if there is none. -/
def newFiber (s : Runtime.State) : Runtime.Label → Option Key
  | .spawn f _ => if (s.threads f).pc = .insert then some (.spawned f) else none
  | .lifecycle =>
    if s.lifecycle = .startFibers ∧ s.mainFiber = none then some (.main s.mains) else none
  | _ => none

/-- What a step of the runtime does to the fields: a new fiber gets the ID `id`, and the name
`name` unless it is a main fiber; `Run` counts its call; `Block` is given `reason`. -/
def fieldsAfter (id : FiberID) (name reason : String) (l : Runtime.Label) : Key → FiberFields :=
  match newFiber d.observed.rt l with
  | some (.main k) => Function.update d.fields (.main k) { id := id, name := "main" }
  | some (.spawned f) => Function.update d.fields (.spawned f) { id := id, name := name }
  | none =>
    match l with
    | .go f _ =>
      if (d.observed.rt.threads f).go = .run ∧ (d.observed.rt.threads f).fiber.runBegin.isSome then
        Function.update d.fields (.spawned f)
          { d.fields (.spawned f) with
            scheduleCount := (d.fields (.spawned f)).scheduleCount + 1 }
      else d.fields
    | .block f =>
      if (d.observed.rt.threads f).fiber.completion then d.fields
      else Function.update d.fields (.spawned f)
        { d.fields (.spawned f) with blockReason := reason }
    | .unblock f =>
      Function.update d.fields (.spawned f) { d.fields (.spawned f) with blockReason := "" }
    | _ => d.fields

/-- A step of the runtime and its observers. -/
def step (id : FiberID) (name reason : String) (l : Observed.Label) : Option Displayed :=
  (Observed.step d.config d.observed l).map fun o =>
    { d with
      observed := o
      fields :=
        match l with
        | .run rl _ _ => d.fieldsAfter id name reason rl
        | _ => d.fields }

/-- The fibers in `rt.fibers`. -/
def keys : List Key :=
  ((List.range d.observed.rt.mains).map Key.main
    ++ (List.range d.observed.rt.calls).map Key.spawned).filter (· ∈ d.observed.rt.fibers)

/-- The state of a fiber. The main fiber is never run. -/
def fiberState : Key → FiberState
  | .main _ => .ready
  | .spawned f => (d.observed.rt.threads f).fiber.state

/-- `Clone`, as far as updates show it. -/
def clone (k : Key) : FiberRecord where
  id := (d.fields k).id
  name := (d.fields k).name
  state := d.fiberState k
  priority := (d.fields k).priority
  scheduleCount := (d.fields k).scheduleCount
  yieldCount := 0
  cpuTime := (d.fields k).cpuTime
  blockReason := (d.fields k).blockReason
  color := generateColor (d.fields k).id

/-- The runtime, as the getters read it. -/
def object (tracker : EventTracker) : RuntimeObject Unit where
  epoch := d.observed.rt.epoch
  stopped := d.observed.rt.stopped
  schedulerType := d.config.kind
  stealStats := (d.observed.stealAttempts, d.observed.stealSuccess)
  fibers := d.keys.map d.clone
  metrics := d.observed.metrics
  eventTracker := tracker
  activeFiberCount := d.observed.rt.activeFiberCount
  rest := ()

/-- `injectStealStats`. -/
def injectStealStats (snap : MetricsSnapshot) : MetricsSnapshot :=
  if d.config.kind = .workStealing then
    { snap with
      totalStealAttempts := d.observed.stealAttempts
      totalStealSuccesses := d.observed.stealSuccess }
  else snap

/-- `injectActiveCount`. -/
def injectActiveCount (snap : MetricsSnapshot) : MetricsSnapshot :=
  { snap with activeFibers := max d.observed.rt.activeFiberCount 0 }

/-- `GetMetrics`. -/
def getMetrics : MetricsSnapshot :=
  d.injectActiveCount (d.injectStealStats (d.observed.metrics.snapshotLocked false))

/-- The update that the loop builds from the clones `fibers` and the metrics `snap`. -/
def updateOf (fibers : List FiberRecord) (snap : MetricsSnapshot) (tracker : EventTracker)
    (now : Int) : RuntimeUpdateJSON :=
  convertRuntimeUpdate ({ d.object tracker with fibers := fibers }).getAllFibers snap
    ((d.object tracker).getEvents 100) (schedulerName (d.object tracker).schedulerType) now

/-- The update that the loop builds from the metrics `snap` if no fiber changes meanwhile. -/
def update (snap : MetricsSnapshot) (tracker : EventTracker) (now : Int) : RuntimeUpdateJSON :=
  convertRuntimeUpdate (d.object tracker).getAllFibers snap ((d.object tracker).getEvents 100)
    (schedulerName (d.object tracker).schedulerType) now

theorem updateOf_clones (snap : MetricsSnapshot) (tracker : EventTracker) (now : Int) :
    d.updateOf (d.keys.map d.clone) snap tracker now = d.update snap tracker now := rfl

end Displayed

/-- An update apart from its time and its events. -/
def RuntimeUpdateJSON.core (u : RuntimeUpdateJSON) : RuntimeUpdateJSON :=
  { u with events := [], timestamp := 0 }

/-- The comparison of the loop. -/
def SameCounters (a b : MetricsSnapshot) : Prop :=
  a.totalFibersCreated = b.totalFibersCreated ∧ a.totalFibersCompleted = b.totalFibersCompleted
    ∧ a.activeFibers = b.activeFibers ∧ a.blockedFibers = b.blockedFibers

instance (a b : MetricsSnapshot) : Decidable (SameCounters a b) :=
  inferInstanceAs (Decidable (_ ∧ _))

/-! ## The loop -/

/-- Where the loop is. -/
inductive BroadcastPc where
  /-- It waits for the ticker. -/
  | waiting
  /-- It has read `s.runtime`, and `GetMetrics` comes next. -/
  | looked (p : Nat)
  /-- `GetMetrics` has its snapshot, the steal counters come next. -/
  | snapped (p : Nat) (snap : MetricsSnapshot)
  /-- The active count and the comparison come next. -/
  | injected (p : Nat) (snap : MetricsSnapshot)
  /-- The counters are not those of the last message, and `GetAllFibers` comes next. -/
  | building (p : Nat)
  /-- `GetAllFibers` has cloned `fibers`, and `keys` are left. -/
  | cloning (p : Nat) (keys : List Key) (fibers : List FiberRecord)

structure Broadcaster where
  runtime : Option Nat
  /-- The runtimes by their addresses, of which those from `fresh` on are not used yet. -/
  heap : Nat → Displayed
  fresh : Nat
  nextFiberID : FiberID
  pc : BroadcastPc
  lastSnap : MetricsSnapshot
  lastMsg : Option RuntimeUpdateJSON

namespace Broadcaster

inductive Label where
  /-- A step of the runtime at `p`; `name` is what `NewFiber` is given and `reason` what `Block`
  is given, if the step calls them. -/
  | run (p : Nat) (l : Observed.Label) (name reason : String)
  /-- `complete` calls `AddCPUTime`. -/
  | addCPUTime (p : Nat) (f : FiberID) (duration : Int)
  /-- `SetPriority`, which the priority scheduler calls as well. -/
  | setPriority (p : Nat) (k : Key) (priority : Int)
  /-- A new runtime is made. -/
  | create (config : Config)
  /-- `handleInit` swaps the pointer. -/
  | swap (p : Nat)
  /-- The next step of the loop. -/
  | broadcast (tracker : EventTracker) (now : Int)

variable (s : Broadcaster)

/-- The runtime at `p` becomes `d`. -/
def set (p : Nat) (d : Displayed) : Broadcaster :=
  { s with heap := Function.update s.heap p d }

/-- A field of a fiber of the runtime at `p` changes. -/
def edit (p : Nat) (k : Key) (change : FiberFields → FiberFields) : Broadcaster :=
  s.set p { s.heap p with
    fields := Function.update (s.heap p).fields k (change ((s.heap p).fields k)) }

/-- A step of the runtime at `p`. -/
def runStep (p : Nat) (l : Observed.Label) (name reason : String) : Option Broadcaster :=
  ((s.heap p).step (s.nextFiberID + 1) name reason l).map fun d =>
    { s.set p d with
      nextFiberID :=
        match l with
        | .run rl _ _ => s.nextFiberID
            + (Displayed.newFiber (s.heap p).observed.rt rl).isSome.toNat
        | _ => s.nextFiberID }

/-- The next step of `broadcastLoop`. `GetAllFibers` clones one fiber after the other, each under
its own lock; that `fibersMu` keeps `rt.fibers` as it is meanwhile is not modelled, so there are
more runs here than the program has. -/
def broadcastStep (tracker : EventTracker) (now : Int) : Broadcaster :=
  match s.pc with
  | .waiting =>
    match s.runtime with
    | none => s
    | some p => { s with pc := .looked p }
  | .looked p => { s with pc := .snapped p ((s.heap p).observed.metrics.snapshotLocked false) }
  | .snapped p snap => { s with pc := .injected p ((s.heap p).injectStealStats snap) }
  | .injected p snap =>
    let snap := (s.heap p).injectActiveCount snap
    -- the cached branch sends `lastMsg` again
    if s.lastMsg.isSome ∧ SameCounters snap s.lastSnap then { s with pc := .waiting }
    else { s with lastSnap := snap, pc := .building p }
  | .building p => { s with pc := .cloning p (s.heap p).keys [] }
  | .cloning p (k :: keys) fibers =>
    { s with pc := .cloning p keys (fibers ++ [(s.heap p).clone k]) }
  | .cloning p [] fibers =>
    { s with
      lastMsg := some ((s.heap p).updateOf fibers s.lastSnap tracker now)
      pc := .waiting }

/-- One step. -/
def step : Label → Option Broadcaster
  | .run p l name reason => if p < s.fresh then s.runStep p l name reason else none
  | .addCPUTime p f duration =>
    if p < s.fresh ∧ ((s.heap p).observed.rt.threads f).go = .recordCompleted then
      some (s.edit p (.spawned f) fun x => { x with cpuTime := x.cpuTime + duration })
    else none
  | .setPriority p k priority =>
    if p < s.fresh then some (s.edit p k fun x => { x with priority := priority }) else none
  | .create config =>
    some { s.set s.fresh ⟨config, .new (.newWithOptions config), fun _ => { id := 0, name := "" }⟩
      with fresh := s.fresh + 1 }
  | .swap p => if p < s.fresh then some { s with runtime := some p } else none
  | .broadcast tracker now => some (s.broadcastStep tracker now)

/-- A server whose loop has not sent anything. -/
structure Initial : Prop where
  runtime : ∀ p ∈ s.runtime, p < s.fresh
  heap : ∀ p < s.fresh, Runtime.Initial (s.heap p).config (s.heap p).observed.rt
  pc : s.pc = .waiting
  lastMsg : s.lastMsg = none

/-- The loop takes the cached branch: it sends `u` again for the runtime at `p`. -/
def Resends (p : Nat) (u : RuntimeUpdateJSON) : Prop :=
  ∃ snap, s.pc = .injected p snap ∧ s.lastMsg = some u
    ∧ SameCounters ((s.heap p).injectActiveCount snap) s.lastSnap

end Broadcaster

/-! ## Steps that change what an update shows -/

/-- `Spawn` puts its fiber into `rt.fibers`, or takes it out again. -/
def showsSpawn (draining : Bool) : Runtime.SpawnPc → Bool
  | .insert | .unschedule => true
  | .commit stopping => stopping || draining
  | _ => false

/-- The loop is in `MarkScheduled` and `RecordContextSwitch`. -/
def showsLoop : Runtime.LoopPc → Bool
  | .marking _ => true
  | _ => false

/-- The goroutine is at one of the two sections of `Run`, or takes the fiber out of `rt.fibers`. -/
def showsGo : Runtime.GoPc → Bool
  | .run | .body | .remove => true
  | _ => false

/-- `Start` puts the main fiber into `rt.fibers`, `Stop` takes the reaped ones out, `Reset` all of
them, and resets the metrics. -/
def showsLifecycle : Runtime.Lifecycle → Bool
  | .startFibers | .reapScan _ | .resetFibers | .resetMetrics => true
  | _ => false

/-- The step changes `rt.fibers` or a fiber, or it sets counters back. -/
def showsRun (c : Config) (s : Runtime.State) : Runtime.Label → Bool
  | .spawn f _ => showsSpawn s.draining (s.threads f).pc
  | .loop .next => showsLoop s.loop.pc
  | .go f _ => showsGo (s.threads f).go
  | .goexit _ | .block _ | .unblock _ => true
  | .lifecycle => showsLifecycle s.lifecycle || Observed.clearsSteals c s .lifecycle
  | _ => false

/-- The step changes something that an update shows and that the four counters do not count. -/
def Displayed.shows (d : Displayed) : Observed.Label → Bool
  | .run l _ _ => showsRun d.config d.observed.rt l
  | .stealAttempt | .stealSuccess => true
  | .scan _ _ | .spawnError | .broadcastDropped => false

section

variable {c : Config} {s s' : Runtime.State} {l : Runtime.Label}

/-- The fibers as an update shows them. -/
def SameFibers (s s' : Runtime.State) : Prop :=
  s'.fibers = s.fibers ∧ s'.mains = s.mains
    ∧ ∀ f, (s'.threads f).fiber.state = (s.threads f).fiber.state

/-- A step that only moves the threads keeps the fibers in their states. -/
theorem SameFibers.of_threads {f : FiberID} {t : Runtime.Thread}
    (hfibers : s'.fibers = s.fibers) (hmains : s'.mains = s.mains)
    (hthreads : s'.threads = Function.update s.threads f t)
    (ht : t.fiber.state = (s.threads f).fiber.state) : SameFibers s s' := by
  refine ⟨hfibers, hmains, fun g => ?_⟩
  rw [hthreads]
  by_cases hg : g = f
  · subst hg
    rw [Function.update_self, ht]
  · rw [Function.update_of_ne hg]

theorem SameFibers.spawnStep {f : FiberID} {w : Nat} (h : s.spawnStep c f w = some s')
    (hno : showsSpawn s.draining (s.threads f).pc = false) : SameFibers s s' := by
  cases Runtime.State.spawnStep_effect h with
  | insert hpc | unschedule hpc =>
    rw [hpc] at hno
    cases hno
  | rollback hpc hback =>
    rw [hpc, showsSpawn, hback] at hno
    cases hno
  | _ => exact .of_threads rfl rfl rfl rfl

theorem SameFibers.loopStep {choice : Runtime.LoopChoice} (h : s.loopStep c choice = some s')
    (hno : showsRun c s (.loop choice) = false) : SameFibers s s' := by
  have hmoves := Runtime.State.loopStep_moves h
  obtain ⟨threads, loop, results, switches, queue, rfl⟩ := Runtime.State.loopStep_writes h
  refine ⟨rfl, rfl, fun f => ?_⟩
  -- the loop marks a fiber, which shows, or launches it, which leaves its state alone
  cases hmoves f with
  | rest ht | launch _ ht => rw [ht]
  | mark hpc _ =>
    rw [showsRun, hpc] at hno
    cases hno
  | body hl _ _ => rcases hl with hl | hl <;> cases hl
  | go hl _ => obtain ⟨drop, hl⟩ | hl | hl := hl <;> cases hl

theorem SameFibers.goStep {f : FiberID} {drop : Finset FiberID} (h : s.goStep c f drop = some s')
    (hno : showsGo (s.threads f).go = false) : SameFibers s s' := by
  cases Runtime.State.goStep_effect h with
  | run hgo | skip hgo | body hgo | remove hgo =>
    rw [hgo] at hno
    cases hno
  | _ =>
    exact .of_threads rfl rfl rfl rfl

theorem SameFibers.lifecycleStep (h : s.lifecycleStep c = some s')
    (hno : showsLifecycle s.lifecycle = false) : SameFibers s s' := by
  cases Runtime.State.lifecycleStep_effect h with
  | startFibers hl | reapScan hl | resetFibers hl | resetMetrics hl =>
    rw [hl] at hno
    cases hno
  | _ =>
    exact ⟨rfl, rfl, fun _ => rfl⟩

/-- A step that shows nothing leaves the fibers as they are. -/
theorem SameFibers.step (h : Runtime.step c s l = some s') (hno : showsRun c s l = false) :
    SameFibers s s' := by
  cases Runtime.State.step_effect h with
  | spawn => exact .spawnStep h hno
  | loop => exact .loopStep h hno
  | go => exact .goStep h hno
  | lifecycle => exact .lifecycleStep h (Bool.or_eq_false_iff.mp hno).1
  | goexit | block | unblock => cases hno
  | call | discard => exact .of_threads rfl rfl rfl rfl
  | _ => exact ⟨rfl, rfl, fun _ => rfl⟩

/-- The metrics that an update shows and the comparison does not look at. -/
structure SameMetrics (m m' : Metrics) : Prop where
  contextSwitches : m'.totalContextSwitches = m.totalContextSwitches
  yields : m'.totalYields = m.totalYields
  stealAttempts : m'.totalStealAttempts = m.totalStealAttempts
  stealSuccesses : m'.totalStealSuccesses = m.totalStealSuccesses

theorem SameMetrics.refl (m : Metrics) : SameMetrics m m := ⟨rfl, rfl, rfl, rfl⟩

theorem SameMetrics.record (hno : showsRun c s l = false) (cpuTime : Int) (panicked : Bool)
    (m : Metrics) : SameMetrics m (Observed.record s cpuTime panicked m l) := by
  unfold Observed.record
  split
  · split <;> exact ⟨rfl, rfl, rfl, rfl⟩
  · split
    · unfold Metrics.recordFiberCompleted
      split <;> exact ⟨rfl, rfl, rfl, rfl⟩
    · split <;> exact ⟨rfl, rfl, rfl, rfl⟩
    · exact .refl m
  · split
    · next hpc =>
      rw [showsRun, hpc] at hno
      cases hno
    · exact .refl m
  · split
    · exact ⟨rfl, rfl, rfl, rfl⟩
    · next hl =>
      rw [showsRun, hl] at hno
      cases hno
    · exact .refl m
  · exact .refl m

end

namespace Displayed

variable {d d' : Displayed} {id : FiberID} {name reason : String} {l : Observed.Label}

/-- `d'` shows what `d` shows, but for the four counters. -/
structure Keeps (d d' : Displayed) : Prop where
  config : d'.config = d.config
  keys : d'.keys = d.keys
  clone : d'.clone = d.clone
  metrics : SameMetrics d.observed.metrics d'.observed.metrics
  stealAttempts : d'.observed.stealAttempts = d.observed.stealAttempts
  stealSuccess : d'.observed.stealSuccess = d.observed.stealSuccess

theorem Keeps.refl (d : Displayed) : Keeps d d := ⟨rfl, rfl, rfl, .refl _, rfl, rfl⟩

/-- A new call has no fiber yet. -/
theorem keys_of_sameFibers {rl : Runtime.Label}
    (hs : d.observed.rt.Sound d.config)
    (hst : Runtime.step d.config d.observed.rt rl = some d'.observed.rt)
    (hsame : SameFibers d.observed.rt d'.observed.rt) : d'.keys = d.keys := by
  obtain ⟨hfibers, hmains, -⟩ := hsame
  unfold keys
  rw [hfibers, hmains]
  rcases Runtime.State.step_calls hst with hcalls | ⟨hcalls, -⟩
  · rw [hcalls]
  · have hnew : Key.spawned d.observed.rt.calls ∉ d.observed.rt.fibers :=
      fun hmem => Nat.lt_irrefl _ (hs.lt_of_mem hmem)
    rw [hcalls, List.range_succ]
    simp [hnew]

theorem fieldsAfter_of_not_shows {rl : Runtime.Label}
    (hno : showsRun d.config d.observed.rt rl = false) :
    d.fieldsAfter id name reason rl = d.fields := by
  have hnew : newFiber d.observed.rt rl = none := by
    cases rl with
    | spawn f w =>
      refine if_neg fun hpc => ?_
      rw [showsRun, hpc] at hno
      cases hno
    | lifecycle =>
      refine if_neg fun hl => ?_
      rw [showsRun, hl.1] at hno
      cases hno
    | _ => rfl
  simp only [fieldsAfter, hnew]
  cases rl with
  | go f drop =>
    refine if_neg fun hrun => ?_
    rw [showsRun, hrun.1] at hno
    cases hno
  | block | unblock => cases hno
  | _ => rfl

theorem Keeps.step (hs : d.observed.rt.Sound d.config)
    (h : d.step id name reason l = some d') (hno : d.shows l = false) : d.Keeps d' := by
  obtain ⟨o, ho, rfl⟩ := Option.map_eq_some_iff.mp h
  cases l with
  | run rl cpuTime panicked =>
    obtain ⟨rt, hrt, rfl⟩ := Option.map_eq_some_iff.mp ho
    have hsame : SameFibers d.observed.rt rt := .step hrt hno
    have hclear : Observed.clearsSteals d.config d.observed.rt rl = false := by
      cases rl with
      | lifecycle => exact (Bool.or_eq_false_iff.mp hno).2
      | _ => rfl
    have hfields : d.fieldsAfter id name reason rl = d.fields := fieldsAfter_of_not_shows hno
    refine ⟨rfl, keys_of_sameFibers hs hrt hsame, funext fun k => ?_, .record hno _ _ _, ?_, ?_⟩
    · simp only [Displayed.clone, hfields]
      cases k with
      | main => rfl
      | spawned f => simp only [fiberState, hsame.2.2 f]
    · simp [hclear]
    · simp [hclear]
  | stealAttempt | stealSuccess => cases hno
  | scan blocked detected =>
    cases ho
    refine ⟨rfl, rfl, rfl, ?_, rfl, rfl⟩
    dsimp only
    split <;> exact ⟨rfl, rfl, rfl, rfl⟩
  | spawnError | broadcastDropped =>
    cases ho
    exact ⟨rfl, rfl, rfl, .refl _, rfl, rfl⟩

theorem getMetrics_totalContextSwitches :
    d.getMetrics.totalContextSwitches = d.observed.metrics.totalContextSwitches := by
  unfold getMetrics injectActiveCount injectStealStats
  split_ifs <;> rfl

theorem getMetrics_totalYields : d.getMetrics.totalYields = d.observed.metrics.totalYields := by
  unfold getMetrics injectActiveCount injectStealStats
  split_ifs <;> rfl

theorem getMetrics_totalStealAttempts : d.getMetrics.totalStealAttempts
    = if d.config.kind = .workStealing then d.observed.stealAttempts
      else d.observed.metrics.totalStealAttempts := by
  unfold getMetrics injectActiveCount injectStealStats
  split_ifs <;> rfl

theorem getMetrics_totalStealSuccesses : d.getMetrics.totalStealSuccesses
    = if d.config.kind = .workStealing then d.observed.stealSuccess
      else d.observed.metrics.totalStealSuccesses := by
  unfold getMetrics injectActiveCount injectStealStats
  split_ifs <;> rfl

/-- The metrics `snap` are shown as those of the runtime are. -/
structure Alike (snap : MetricsSnapshot) (d : Displayed) : Prop where
  counters : SameCounters d.getMetrics snap
  contextSwitches : snap.totalContextSwitches = d.getMetrics.totalContextSwitches
  yields : snap.totalYields = d.getMetrics.totalYields
  steals : stealSuccessRate snap = stealSuccessRate d.getMetrics

theorem Alike.refl (d : Displayed) : Alike d.getMetrics d := ⟨⟨rfl, rfl, rfl, rfl⟩, rfl, rfl, rfl⟩

/-- What the comparison does not look at is kept, and the comparison looks at the rest. -/
theorem Alike.keeps {snap : MetricsSnapshot} (h : Alike snap d) (hk : d.Keeps d')
    (hcounters : SameCounters d'.getMetrics snap) : Alike snap d' := by
  have hsteals : stealSuccessRate d'.getMetrics = stealSuccessRate d.getMetrics := by
    simp only [stealSuccessRate, getMetrics_totalStealAttempts, getMetrics_totalStealSuccesses,
      hk.config, hk.stealAttempts, hk.stealSuccess, hk.metrics.stealAttempts,
      hk.metrics.stealSuccesses]
  have hswitches : d'.getMetrics.totalContextSwitches = d.getMetrics.totalContextSwitches := by
    simp only [getMetrics_totalContextSwitches, hk.metrics.contextSwitches]
  have hyields : d'.getMetrics.totalYields = d.getMetrics.totalYields := by
    simp only [getMetrics_totalYields, hk.metrics.yields]
  exact ⟨hcounters, h.contextSwitches.trans hswitches.symm, h.yields.trans hyields.symm,
    h.steals.trans hsteals.symm⟩

theorem Keeps.getAllFibers (hk : d.Keeps d') (tracker tracker' : EventTracker) :
    (d'.object tracker').getAllFibers = (d.object tracker).getAllFibers := by
  simp only [RuntimeObject.getAllFibers, object, hk.keys, hk.clone]

/-- An update whose metrics are shown alike shows the runtime as it is. -/
theorem Alike.core_update {snap : MetricsSnapshot} (h : Alike snap d)
    (tracker tracker' : EventTracker) (now now' : Int) :
    (d.update snap tracker now).core = (d.update d.getMetrics tracker' now').core := by
  obtain ⟨hcreated, hcompleted, hactive, hblocked⟩ := h.counters
  simp only [update, convertRuntimeUpdate, RuntimeUpdateJSON.core, hcreated, hcompleted, hactive,
    hblocked, h.contextSwitches, h.yields, h.steals]
  rfl

theorem Keeps.core_update (hk : d.Keeps d') (snap : MetricsSnapshot)
    (tracker tracker' : EventTracker) (now now' : Int) :
    (d'.update snap tracker' now').core = (d.update snap tracker now).core := by
  have htype : (d'.object tracker').schedulerType = (d.object tracker).schedulerType :=
    congrArg Config.kind hk.config
  simp only [update, convertRuntimeUpdate, RuntimeUpdateJSON.core, htype,
    hk.getAllFibers tracker tracker']

end Displayed

/-! ## Runs in which the counters notice what changes -/

/-- The loop is between its read of the pointer and its comparison. -/
def BroadcastPc.reading : BroadcastPc → Bool
  | looked _ | snapped _ _ | injected _ _ => true
  | waiting | building _ | cloning _ _ _ => false

/-- The runtime of the message that is being built. -/
def BroadcastPc.builds : BroadcastPc → Option Nat
  | building p | cloning p _ _ => some p
  | waiting | looked _ | snapped _ _ | injected _ _ => none

namespace Broadcaster

def Label.isBroadcast : Label → Bool
  | broadcast _ _ => true
  | _ => false

/-- The metrics of the cached message, or of the one that is being built. -/
def cached (s : Broadcaster) : Option MetricsSnapshot :=
  match s.pc.builds with
  | some _ => some s.lastSnap
  | none => s.lastMsg.map fun _ => s.lastSnap

/-- The counters of the current runtime are those of the message. -/
def Matches (s : Broadcaster) : Prop :=
  ∃ p ∈ s.runtime, ∃ snap ∈ s.cached, SameCounters (s.heap p).getMetrics snap

instance (s : Broadcaster) : Decidable s.Matches := inferInstanceAs (Decidable (∃ _ ∈ _, _))

/-- The step changes something that an update of the current runtime shows and that the four
counters do not count. -/
def shows (s : Broadcaster) : Label → Bool
  | .run p l _ _ => s.runtime = some p && (s.heap p).shows l
  | .addCPUTime p _ _ | .setPriority p _ _ => s.runtime = some p
  | .swap _ => true
  | .create _ | .broadcast _ _ => false

/-- The step is one of the current runtime, or makes another one current. -/
def touches (s : Broadcaster) : Label → Bool
  | .run p _ _ _ | .addCPUTime p _ _ | .setPriority p _ _ => s.runtime = some p
  | .swap _ => true
  | .create _ | .broadcast _ _ => false

/-- Nothing gets between the loop's read of the pointer and its comparison; and a step that leaves
the counters equal to those of the message has found them equal, and changes nothing else that an
update shows. -/
def Noticed (s : Broadcaster) (l : Label) : Prop :=
  l.isBroadcast = true ∨ (s.pc.reading = true → s.touches l = false)
    ∧ ∀ s' ∈ s.step l, s'.Matches → s.Matches ∧ s.shows l = false

instance (s : Broadcaster) (l : Label) : Decidable (Noticed s l) :=
  inferInstanceAs (Decidable (_ ∨ _))

variable {s s' : Broadcaster} {l : Label} {p : Nat}

/-- What a step makes of the server. -/
inductive Turn (s : Broadcaster) : Label → Broadcaster → Prop where
  | run {p : Nat} {ol : Observed.Label} {name reason : String} {d : Displayed} {next : FiberID}
      (hp : p < s.fresh) (hd : (s.heap p).step (s.nextFiberID + 1) name reason ol = some d) :
      Turn s (.run p ol name reason) { s.set p d with nextFiberID := next }
  | addCPUTime {p : Nat} {f : FiberID} {duration : Int} {change : FiberFields → FiberFields}
      (hp : p < s.fresh) : Turn s (.addCPUTime p f duration) (s.edit p (.spawned f) change)
  | setPriority {p : Nat} {k : Key} {priority : Int} {change : FiberFields → FiberFields}
      (hp : p < s.fresh) : Turn s (.setPriority p k priority) (s.edit p k change)
  | create {config : Config} {fields : Key → FiberFields} :
      Turn s (.create config) { s.set s.fresh ⟨config, .new (.newWithOptions config), fields⟩ with
        fresh := s.fresh + 1 }
  | swap {p : Nat} (hp : p < s.fresh) : Turn s (.swap p) { s with runtime := some p }
  | broadcast {tracker : EventTracker} {now : Int} :
      Turn s (.broadcast tracker now) (s.broadcastStep tracker now)

theorem step_turn (h : s.step l = some s') : s.Turn l s' := by
  cases l with
  | run =>
    simp only [step] at h
    split_ifs at h with hp
    obtain ⟨d, hd, rfl⟩ := Option.map_eq_some_iff.mp h
    exact .run hp hd
  | addCPUTime =>
    simp only [step] at h
    split_ifs at h with hp
    cases h
    exact .addCPUTime hp.1
  | setPriority =>
    simp only [step] at h
    split_ifs at h with hp
    cases h
    exact .setPriority hp
  | create =>
    cases h
    exact .create
  | swap =>
    simp only [step] at h
    split_ifs at h with hp
    cases h
    exact .swap hp
  | broadcast =>
    cases h
    exact .broadcast

/-- The others leave the loop alone. -/
theorem step_loop (h : s.step l = some s') (hl : l.isBroadcast = false) :
    s'.pc = s.pc ∧ s'.lastSnap = s.lastSnap ∧ s'.lastMsg = s.lastMsg := by
  cases step_turn h with
  | broadcast => cases hl
  | run | addCPUTime | setPriority | create | swap => exact ⟨rfl, rfl, rfl⟩

theorem heap_set_ne {q : Nat} (hne : p ≠ q) (d : Displayed) : (s.set q d).heap p = s.heap p :=
  Function.update_of_ne hne ..

/-- The current runtime, in a step of another one. -/
theorem step_apart (h : s.step l = some s') (hl : l.isBroadcast = false)
    (hno : s.touches l = false) (hp : s.runtime = some p) (hfresh : p < s.fresh) :
    s'.runtime = some p ∧ s'.heap p = s.heap p := by
  cases step_turn h with
  | broadcast => cases hl
  | swap => cases hno
  | @run q | @addCPUTime q | @setPriority q =>
    have hq : p ≠ q := fun heq => of_decide_eq_false hno (heq ▸ hp)
    exact ⟨hp, heap_set_ne hq _⟩
  | create => exact ⟨hp, heap_set_ne hfresh.ne _⟩

/-- The current runtime, in a step that changes nothing that only the fibers would tell. -/
theorem step_keeps (hs : (s.heap p).observed.rt.Sound (s.heap p).config)
    (h : s.step l = some s') (hl : l.isBroadcast = false) (hno : s.shows l = false)
    (hp : s.runtime = some p) (hfresh : p < s.fresh) :
    s'.runtime = some p ∧ (s.heap p).Keeps (s'.heap p) := by
  cases htouch : s.touches l with
  | false =>
    obtain ⟨hruntime, hheap⟩ := step_apart h hl htouch hp hfresh
    exact ⟨hruntime, hheap.symm ▸ .refl _⟩
  | true =>
    cases step_turn h with
    | @run q ol name reason d next _ hd =>
      have hq : s.runtime = some q := of_decide_eq_true htouch
      rw [hp] at hq
      cases hq
      have hkeeps : (s.heap p).Keeps d := .step hs hd (by simpa [shows, hp] using hno)
      exact ⟨hp, by simpa [set] using hkeeps⟩
    | addCPUTime | setPriority => cases htouch.symm.trans hno
    | swap => cases hno
    | create | broadcast => cases htouch

/-! ## What holds in every such run -/

/-- Nobody holds an address that is not used yet, and every runtime got where it is by steps of its
own. -/
structure Valid (s : Broadcaster) : Prop where
  runtime : ∀ p ∈ s.runtime, p < s.fresh
  sound : ∀ p < s.fresh, (s.heap p).observed.rt.Sound (s.heap p).config

/-- What is sent or built shows the current runtime as it is while its counters are those of the
message. -/
structure Inv (s : Broadcaster) : Prop extends Valid s where
  looked : ∀ p, s.pc = .looked p → s.runtime = some p
  snapped : ∀ p snap, s.pc = .snapped p snap →
    s.runtime = some p ∧ snap = (s.heap p).observed.metrics.snapshotLocked false
  injected : ∀ p snap, s.pc = .injected p snap → s.runtime = some p
    ∧ snap = (s.heap p).injectStealStats ((s.heap p).observed.metrics.snapshotLocked false)
  building : ∀ p, s.pc.builds = some p → s.Matches →
    s.runtime = some p ∧ Displayed.Alike s.lastSnap (s.heap p)
  cloning : ∀ p keys fibers, s.pc = .cloning p keys fibers → s.Matches →
    fibers ++ keys.map (s.heap p).clone = (s.heap p).keys.map (s.heap p).clone
  message : s.pc.builds = none → s.Matches → ∀ u ∈ s.lastMsg,
    ∃ p, s.runtime = some p ∧ Displayed.Alike s.lastSnap (s.heap p)
      ∧ ∀ tracker now, u.core = ((s.heap p).update s.lastSnap tracker now).core

theorem Initial.inv (h : s.Initial) : s.Inv where
  runtime := h.runtime
  sound p hp := (h.heap p hp).sound
  looked := by simp [h.pc]
  snapped := by simp [h.pc]
  injected := by simp [h.pc]
  building := by simp [h.pc, BroadcastPc.builds]
  cloning := by simp [h.pc]
  message := by simp [h.lastMsg]

theorem cached_eq {snap : MetricsSnapshot} (h : snap ∈ s.cached) : snap = s.lastSnap := by
  unfold cached at h
  split at h
  · exact (Option.some.inj h).symm
  · obtain ⟨-, -, rfl⟩ := Option.map_eq_some_iff.mp h
    rfl

theorem Matches.counters (hm : s.Matches) (hp : s.runtime = some p) :
    SameCounters (s.heap p).getMetrics s.lastSnap := by
  obtain ⟨q, hq, snap, hsnap, hsame⟩ := hm
  rw [hp] at hq
  cases hq
  exact cached_eq hsnap ▸ hsame

theorem sound_displayed {d d' : Displayed} {id : FiberID} {name reason : String}
    {ol : Observed.Label} (h : d.step id name reason ol = some d')
    (hs : d.observed.rt.Sound d.config) : d'.observed.rt.Sound d'.config := by
  obtain ⟨o, ho, rfl⟩ := Option.map_eq_some_iff.mp h
  rcases Observed.step_effect ho with ⟨rl, cpuTime, panicked, hrt, -⟩ | ⟨hrt, -⟩
  · exact hs.step hrt
  · exact hrt ▸ hs

theorem Valid.sound_set (hv : s.Valid) {q : Nat} {d : Displayed}
    (hd : d.observed.rt.Sound d.config) (hp : p ≠ q → p < s.fresh) :
    ((s.set q d).heap p).observed.rt.Sound ((s.set q d).heap p).config := by
  by_cases hq : p = q
  · subst hq
    simpa [Broadcaster.set] using hd
  · rw [heap_set_ne hq]
    exact hv.sound p (hp hq)

theorem broadcastStep_frame (tracker : EventTracker) (now : Int) :
    (s.broadcastStep tracker now).runtime = s.runtime
      ∧ (s.broadcastStep tracker now).heap = s.heap
      ∧ (s.broadcastStep tracker now).fresh = s.fresh := by
  unfold broadcastStep
  split
  · split <;> exact ⟨rfl, rfl, rfl⟩
  · exact ⟨rfl, rfl, rfl⟩
  · exact ⟨rfl, rfl, rfl⟩
  · dsimp only
    split_ifs <;> exact ⟨rfl, rfl, rfl⟩
  · exact ⟨rfl, rfl, rfl⟩
  · exact ⟨rfl, rfl, rfl⟩
  · exact ⟨rfl, rfl, rfl⟩

theorem Valid.step (hv : s.Valid) (h : s.step l = some s') : s'.Valid := by
  cases step_turn h with
  | @run q _ _ _ _ _ hq hd =>
    exact ⟨hv.runtime, fun p hp => hv.sound_set (sound_displayed hd (hv.sound q hq)) fun _ => hp⟩
  | @addCPUTime q _ _ _ hq | @setPriority q _ _ _ hq =>
    exact ⟨hv.runtime, fun p hp => hv.sound_set (hv.sound q hq) fun _ => hp⟩
  | @create config =>
    refine ⟨fun p hp => Nat.lt_succ_of_lt (hv.runtime p hp), fun p hp => ?_⟩
    have hnew : (Runtime.State.newWithOptions config).Sound config :=
      Runtime.Initial.sound (.inr rfl)
    exact hv.sound_set hnew fun hne => Nat.lt_of_le_of_ne (Nat.lt_succ_iff.mp hp) hne
  | swap hq => exact ⟨fun p hp => Option.some.inj hp ▸ hq, hv.sound⟩
  | @broadcast tracker now =>
    obtain ⟨hruntime, hheap, hfresh⟩ := broadcastStep_frame (s := s) tracker now
    exact ⟨by rw [hruntime, hfresh]; exact hv.runtime, by rw [hheap, hfresh]; exact hv.sound⟩

/-- A step of the others: where the counters are still those of the message, the current runtime
is the same and shows the same. -/
theorem Inv.still (hi : s.Inv) (h : s.step l = some s') (hl : l.isBroadcast = false)
    (hok : Noticed s l) (hm : s'.Matches) :
    s.Matches ∧ ∀ p, s.runtime = some p →
      s'.runtime = some p ∧ (s.heap p).Keeps (s'.heap p)
        ∧ SameCounters (s'.heap p).getMetrics s.lastSnap := by
  rcases hok with hb | ⟨-, hnoticed⟩
  · rw [hl] at hb
    cases hb
  · obtain ⟨hbefore, hno⟩ := hnoticed s' h hm
    refine ⟨hbefore, fun p hp => ?_⟩
    have hfresh := hi.runtime p hp
    obtain ⟨hruntime, hkeeps⟩ := step_keeps (hi.sound p hfresh) h hl hno hp hfresh
    exact ⟨hruntime, hkeeps, (step_loop h hl).2.1 ▸ hm.counters hruntime⟩

theorem Inv.step_other (hi : s.Inv) (h : s.step l = some s') (hl : l.isBroadcast = false)
    (hok : Noticed s l) : s'.Inv := by
  obtain ⟨hpc, hsnap, hmsg⟩ := step_loop h hl
  -- while the loop reads, nobody else moves the runtime
  have hapart : s.pc.reading = true → ∀ p, s.runtime = some p →
      s'.runtime = some p ∧ s'.heap p = s.heap p := by
    intro hreading p hp
    rcases hok with hb | ⟨htouch, -⟩
    · rw [hl] at hb
      cases hb
    · exact step_apart h hl (htouch hreading) hp (hi.runtime p hp)
  refine ⟨hi.toValid.step h, ?_, ?_, ?_, ?_, ?_, ?_⟩
  · intro p hp
    rw [hpc] at hp
    exact (hapart (by rw [hp]; rfl) p (hi.looked p hp)).1
  · intro p snap hp
    rw [hpc] at hp
    obtain ⟨hruntime, hsnap⟩ := hi.snapped p snap hp
    obtain ⟨hruntime', hheap⟩ := hapart (by rw [hp]; rfl) p hruntime
    exact ⟨hruntime', by rw [hheap]; exact hsnap⟩
  · intro p snap hp
    rw [hpc] at hp
    obtain ⟨hruntime, hsnap⟩ := hi.injected p snap hp
    obtain ⟨hruntime', hheap⟩ := hapart (by rw [hp]; rfl) p hruntime
    exact ⟨hruntime', by rw [hheap]; exact hsnap⟩
  · intro p hp hm
    obtain ⟨hbefore, hstill⟩ := hi.still h hl hok hm
    obtain ⟨hruntime, halike⟩ := hi.building p (hpc ▸ hp) hbefore
    obtain ⟨hruntime', hkeeps, hsame⟩ := hstill p hruntime
    rw [hsnap]
    exact ⟨hruntime', halike.keeps hkeeps hsame⟩
  · intro p keys fibers hp hm
    rw [hpc] at hp
    obtain ⟨hbefore, hstill⟩ := hi.still h hl hok hm
    obtain ⟨hruntime, -⟩ := hi.building p (by rw [hp]; rfl) hbefore
    obtain ⟨-, hkeeps, -⟩ := hstill p hruntime
    rw [hkeeps.keys, hkeeps.clone]
    exact hi.cloning p keys fibers hp hbefore
  · intro hp hm u hu
    obtain ⟨hbefore, hstill⟩ := hi.still h hl hok hm
    obtain ⟨p, hruntime, halike, hcore⟩ := hi.message (hpc ▸ hp) hbefore u (hmsg ▸ hu)
    obtain ⟨hruntime', hkeeps, hsame⟩ := hstill p hruntime
    rw [hsnap]
    refine ⟨p, hruntime', halike.keeps hkeeps hsame, fun tracker now => ?_⟩
    rw [hcore tracker now, hkeeps.core_update]

/-- A step of the loop outside of the building of a message leaves the cached message and its
metrics alone. -/
theorem Inv.setPc (hi : s.Inv) {pc : BroadcastPc} (hnot : s.pc.builds = none)
    (hnot' : pc.builds = none) (hlooked : ∀ p, pc = .looked p → s.runtime = some p)
    (hsnapped : ∀ p snap, pc = .snapped p snap →
      s.runtime = some p ∧ snap = (s.heap p).observed.metrics.snapshotLocked false)
    (hinjected : ∀ p snap, pc = .injected p snap → s.runtime = some p
      ∧ snap = (s.heap p).injectStealStats ((s.heap p).observed.metrics.snapshotLocked false)) :
    Inv { s with pc := pc } where
  toValid := ⟨hi.runtime, hi.sound⟩
  looked := hlooked
  snapped := hsnapped
  injected := hinjected
  building p hp := by cases hnot'.symm.trans hp
  cloning p keys fibers hp := by
    have hpc : pc = .cloning p keys fibers := hp
    rw [hpc] at hnot'
    cases hnot'
  message := by
    intro _ hm u hu
    refine hi.message hnot ?_ u hu
    obtain ⟨p, hp, snap, hsnap, hsame⟩ := hm
    have hcached : snap = s.lastSnap := cached_eq (s := { s with pc := pc }) hsnap
    refine ⟨p, hp, snap, ?_, hsame⟩
    have hu' : s.lastMsg = some u := hu
    simp [cached, hnot, hu', hcached]

/-- While a message is built, its metrics are compared with already. -/
theorem Matches.setPc {pc : BroadcastPc} (hbuilds : s.pc.builds = some p)
    {msg : Option RuntimeUpdateJSON} (hm : Matches { s with pc := pc, lastMsg := msg }) :
    s.Matches := by
  obtain ⟨q, hq, snap, hsnap, hsame⟩ := hm
  refine ⟨q, hq, snap, ?_, hsame⟩
  rw [cached_eq hsnap]
  simp [cached, hbuilds]

theorem Inv.broadcast (hi : s.Inv) (tracker : EventTracker) (now : Int) :
    (s.broadcastStep tracker now).Inv := by
  unfold broadcastStep
  cases hpc : s.pc with
  | waiting =>
    dsimp only
    split
    · exact hi
    · next p hp =>
      refine hi.setPc (by rw [hpc]; rfl) rfl ?_ (by simp) (by simp)
      rintro q ⟨rfl⟩
      exact hp
  | looked p =>
    refine hi.setPc (by rw [hpc]; rfl) rfl (by simp) ?_ (by simp)
    rintro q snap ⟨rfl, rfl⟩
    exact ⟨hi.looked p hpc, rfl⟩
  | snapped p snap =>
    refine hi.setPc (by rw [hpc]; rfl) rfl (by simp) (by simp) ?_
    rintro q snap' ⟨rfl, rfl⟩
    obtain ⟨hruntime, rfl⟩ := hi.snapped p snap hpc
    exact ⟨hruntime, rfl⟩
  | injected p snap =>
    dsimp only
    split_ifs
    · exact hi.setPc (by rw [hpc]; rfl) rfl (by simp) (by simp) (by simp)
    · -- the metrics that the new message will have are those of this moment
      obtain ⟨hruntime, rfl⟩ := hi.injected p snap hpc
      refine ⟨⟨hi.runtime, hi.sound⟩, by simp, by simp, by simp, ?_, by simp, ?_⟩
      · rintro q ⟨rfl⟩ -
        exact ⟨hruntime, .refl _⟩
      · intro hnot
        cases hnot
  | building p =>
    have hbuilds : s.pc.builds = some p := by rw [hpc]; rfl
    refine ⟨⟨hi.runtime, hi.sound⟩, by simp, by simp, by simp, ?_, ?_, ?_⟩
    · rintro q ⟨rfl⟩ hm
      exact hi.building p hbuilds (hm.setPc hbuilds)
    · rintro q keys fibers ⟨rfl, rfl, rfl⟩ -
      rfl
    · intro hnot
      cases hnot
  | cloning p keys fibers =>
    have hbuilds : s.pc.builds = some p := by rw [hpc]; rfl
    cases keys with
    | cons k keys =>
      refine ⟨⟨hi.runtime, hi.sound⟩, by simp, by simp, by simp, ?_, ?_, ?_⟩
      · rintro q ⟨rfl⟩ hm
        exact hi.building p hbuilds (hm.setPc hbuilds)
      · rintro q keys' fibers' ⟨rfl, rfl, rfl⟩ hm
        rw [List.append_assoc]
        exact hi.cloning p (k :: keys) fibers hpc (hm.setPc hbuilds)
      · intro hnot
        cases hnot
    | nil =>
      refine ⟨⟨hi.runtime, hi.sound⟩, by simp, by simp, by simp, ?_, by simp, ?_⟩
      · rintro q ⟨⟩
      · -- all clones are those of this moment, unless the counters tell that something has changed
        intro _ hm u hu
        have hbefore := hm.setPc hbuilds
        obtain ⟨hruntime, halike⟩ := hi.building p hbuilds hbefore
        have hclones : fibers = (s.heap p).keys.map (s.heap p).clone := by
          simpa using hi.cloning p [] fibers hpc hbefore
        cases hu
        refine ⟨p, hruntime, halike, fun tracker' now' => ?_⟩
        rw [hclones, Displayed.updateOf_clones]
        rfl

theorem inv_of_reach {s₀ : Broadcaster} (h₀ : s₀.Initial) (h : Reach step Noticed s₀ s) :
    s.Inv := by
  refine h.invariant h₀.inv fun s l s' hi hok hst => ?_
  cases hl : l.isBroadcast with
  | false => exact hi.step_other hst hl hok
  | true =>
    cases l with
    | broadcast tracker now =>
      cases hst
      exact hi.broadcast tracker now
    | _ => cases hl

/-- What the cached branch sends is the update that the loop would build at that moment from
`GetAllFibers`, `GetMetrics` and the scheduler's type, but for its time and its events. -/
theorem cached_update_current {s₀ : Broadcaster} (h₀ : s₀.Initial)
    (h : Reach step Noticed s₀ s) {u : RuntimeUpdateJSON} (hsends : s.Resends p u)
    (tracker : EventTracker) (now : Int) :
    u.core = ((s.heap p).update (s.heap p).getMetrics tracker now).core := by
  have hi := inv_of_reach h₀ h
  obtain ⟨snap, hpc, hmsg, hsame⟩ := hsends
  obtain ⟨hruntime, rfl⟩ := hi.injected p snap hpc
  have hnot : s.pc.builds = none := by rw [hpc]; rfl
  have hmatches : s.Matches := ⟨p, hruntime, s.lastSnap, by simp [cached, hnot, hmsg], hsame⟩
  obtain ⟨q, hq, halike, hcore⟩ := hi.message hnot hmatches u hmsg
  rw [hruntime] at hq
  cases hq
  rw [hcore tracker now]
  exact halike.core_update ..

/-! ## A dispatch between two ticks -/

/-- A server with a new runtime. -/
def new (config : Config) : Broadcaster where
  runtime := some 0
  heap _ := ⟨config, .new (.newWithOptions config), fun _ => { id := 0, name := "" }⟩
  fresh := 1
  nextFiberID := 0
  pc := .waiting
  lastSnap := Metrics.snapshotLocked {} false
  lastMsg := none

theorem initial_new (config : Config) : (new config).Initial where
  runtime _ hp := Option.some.inj hp ▸ Nat.one_pos
  heap _ _ := .inr rfl
  pc := rfl
  lastMsg := rfl

/-- Steps of the first runtime. -/
def runTrace (ls : List Runtime.Label) : List Label :=
  ls.map fun l => .run 0 (.run l 0 false) "worker" ""

/-- The next `n` steps of the loop. -/
def broadcastTrace (n : Nat) : List Label := List.replicate n (.broadcast (.new 1) 0)

/-- The runtime is started, a fiber is spawned, and a message is built that shows it. -/
def buildTrace : List Label :=
  runTrace (Runtime.Label.startTrace ++ .call false 6 :: Runtime.Label.spawnTrace 0 9)
    ++ broadcastTrace 8

end Broadcaster

/-- What the comparison is about to look at. -/
def BroadcastPc.comparing : BroadcastPc → Option (Nat × MetricsSnapshot)
  | injected p snap => some (p, snap)
  | _ => none

theorem BroadcastPc.eq_injected {pc : BroadcastPc} {p : Nat} {snap : MetricsSnapshot}
    (h : pc.comparing = some (p, snap)) : pc = .injected p snap := by
  cases pc with
  | injected => cases h; rfl
  | _ => cases h

namespace Broadcaster

/-- The cached branch is taken for the runtime at `p`, with a message that `test` accepts. -/
def sends (s : Broadcaster) (p : Nat) (test : RuntimeUpdateJSON → Bool) : Bool :=
  s.pc.comparing.any (fun x => decide (x.1 = p
    ∧ SameCounters ((s.heap p).injectActiveCount x.2) s.lastSnap)) && s.lastMsg.any test

theorem exists_resends {s : Broadcaster} {p : Nat} {test : RuntimeUpdateJSON → Bool}
    (h : s.sends p test = true) : ∃ u, s.Resends p u ∧ test u = true := by
  simp only [sends, Bool.and_eq_true, Option.any_eq_true, decide_eq_true_eq] at h
  obtain ⟨⟨⟨q, snap⟩, hpc, rfl, hsame⟩, u, hu, htest⟩ := h
  exact ⟨u, ⟨snap, BroadcastPc.eq_injected hpc, hu, hsame⟩, htest⟩

/-- The loop of the runtime takes the fiber out of the queue, which no update shows, and the
message is sent again. -/
theorem cached_update_current_queued :
    ∃ s u, Reach step Noticed (new (.ofOptions 2 [])) s ∧ s.Resends 0 u
      ∧ ∀ tracker now,
        u.core = ((s.heap 0).update (s.heap 0).getMetrics tracker now).core := by
  obtain ⟨s, hs, htest⟩ := exists_reach_of_exec_guarded step Noticed (new (.ofOptions 2 []))
    (buildTrace ++ runTrace ((Runtime.Label.dispatchTrace 0).take 4) ++ broadcastTrace 3)
    (fun s => s.sends 0 fun _ => true)
    (by decide +kernel)
  obtain ⟨u, hsends, -⟩ := exists_resends htest
  exact ⟨s, u, hs, hsends, cached_update_current (initial_new _) hs hsends⟩

/-- The fiber is dispatched, and the message that still shows it as ready is sent again: it shows
no context switch where there has been one. -/
theorem cached_update_stale :
    ∃ s u, Reach step anyStep (new (.ofOptions 2 [])) s ∧ s.Resends 0 u
      ∧ ∀ tracker now,
        u.core ≠ ((s.heap 0).update (s.heap 0).getMetrics tracker now).core := by
  obtain ⟨s, hs, htest⟩ := exists_reach_of_exec step (new (.ofOptions 2 []))
    (buildTrace ++ runTrace ((Runtime.Label.dispatchTrace 0).take 5) ++ broadcastTrace 3)
    (fun s => s.sends 0 (fun u => decide (u.metrics.totalContextSwitches = 0))
      && decide ((s.heap 0).getMetrics.totalContextSwitches = 1))
    (by decide +kernel)
  obtain ⟨hsends, hnow⟩ := Bool.and_eq_true_iff.mp htest
  obtain ⟨u, hsends, hthen⟩ := exists_resends hsends
  refine ⟨s, u, hs, hsends, fun tracker now heq => ?_⟩
  have hswitches := congrArg (fun x => x.metrics.totalContextSwitches) heq
  simp only [RuntimeUpdateJSON.core, Displayed.update, convertRuntimeUpdate,
    of_decide_eq_true hthen, of_decide_eq_true hnow] at hswitches
  cases hswitches

end Broadcaster

end GreenThreads.Web
