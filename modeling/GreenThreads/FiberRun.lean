import GreenThreads.Fiber
import GreenThreads.Lib.Trans
import Mathlib.Logic.Function.Basic

/-!
# GreenThreads — one fiber under concurrent calls (`internal/fiber/fiber.go`)

The methods of a fiber with all the fields they write, and the system of any number of callers. A
step is one section under `f.mu`: `Run` has two, with the fiber function between them, every other
method has one. `FiberRecord` extends `Fiber`, and its sections do to that part what the sections
of `Fiber` do.

* `RunSys` — a fiber and its `Run` calls;
* `RunSys.Coherent` — the two flags and the state tell how far the `Run` calls are;
* `RunSys.Advances` — what no step changes once the fiber has completed;
* `fiber_runs_once` — the function runs once, and completion is final.

Left out: the panic stack, parents and children, the simulated stack and the colour.
-/

namespace GreenThreads

/-- What `recover` returns after a panic, as a text: of an error, or of any other value.
`panic(nil)` panics with an error of the language's own. -/
inductive PanicValue where
  | error (text : String)
  | other (text : String)
  deriving DecidableEq, Repr

/-- How a fiber function ends. `runtime.Goexit` runs the deferred calls, and `recover` finds no
panic in them. -/
inductive Ending where
  | returned
  | panicked (v : PanicValue)
  | goexit
  deriving DecidableEq, Repr

/-- `type Fiber struct`. A zero time is `none`. -/
structure FiberRecord extends Fiber where
  id : FiberID
  name : String
  /-- Whether `fn` is not nil. -/
  hasFn : Bool
  startedAt : Option Int := none
  finishedAt : Option Int := none
  runTime : Int := 0
  lastScheduled : Option Int := none
  scheduleCount : Nat := 0
  switchCount : Nat := 0
  cpuTime : Int := 0
  blockReason : String := ""
  /-- The object waited on, by a number of its own. -/
  blockedOn : Option Nat := none
  failure : Option String := none
  deriving DecidableEq

namespace FiberRecord

/-- `NewFiber`. -/
def new (id : FiberID) (name : String) (hasFn : Bool) (now : Int) : FiberRecord :=
  { id := id, name := name, hasFn := hasFn, createdAt := now }

variable (f : FiberRecord)

/-- The first section of `Run`; `none` if `Run` returns at once. -/
def runBegin (now : Int) : Option FiberRecord :=
  if f.runStarted || f.completion then none
  else some { f with
    runStarted := true
    state := .running
    startedAt := some now
    scheduleCount := f.scheduleCount + 1 }

/-- The error made of a panic. -/
def panicError : PanicValue → String
  | .error text => "fiber " ++ toString f.id ++ " (" ++ f.name ++ ") panicked: " ++ text
  | .other text => "fiber " ++ toString f.id ++ " (" ++ f.name ++ ") panicked with value: " ++ text

/-- What the deferred section does with what it recovers. -/
def recovered : Ending → Option String
  | .panicked v => some (f.panicError v)
  | .returned | .goexit => f.failure

/-- The deferred section of `Run`. -/
def runEnd (e : Ending) (now : Int) : FiberRecord :=
  { f with
    failure := f.recovered e
    state := .finished
    finishedAt := some now
    runTime := now - f.startedAt.getD 0
    completion := true }

/-- `Block`. -/
def block (reason : String) (on : Option Nat) : FiberRecord :=
  if f.completion then f
  else { f with state := .blocked, blockReason := reason, blockedOn := on }

/-- `Unblock`; the reason is dropped from a completed fiber, too. -/
def unblock : FiberRecord :=
  { f with
    state := if f.completion then f.state else if f.runStarted then .running else .ready
    blockReason := ""
    blockedOn := none }

/-- `SetPriority`. -/
def setPriority (priority : Int) : FiberRecord := { f with priority := priority }

/-- `MarkScheduled`. -/
def markScheduled (now : Int) : FiberRecord :=
  if f.completion then f
  else { f with
    state := .running
    lastScheduled := some now
    switchCount := f.switchCount + 1 }

/-- `AddCPUTime`. -/
def addCPUTime (duration : Int) : FiberRecord := { f with cpuTime := f.cpuTime + duration }

end FiberRecord

/-- The methods with a single section. -/
inductive Mutator where
  | block (reason : String) (on : Option Nat)
  | unblock
  | setPriority (priority : Int)
  | markScheduled (now : Int)
  | addCPUTime (duration : Int)

namespace Mutator

def apply (f : FiberRecord) : Mutator → FiberRecord
  | block reason on => f.block reason on
  | unblock => f.unblock
  | setPriority priority => f.setPriority priority
  | markScheduled now => f.markScheduled now
  | addCPUTime duration => f.addCPUTime duration

/-- The same method on what schedulers and the runtime see of a fiber. -/
def applyFiber (f : Fiber) : Mutator → Fiber
  | block _ _ => f.block
  | unblock => f.unblock
  | setPriority priority => f.setPriority priority
  | markScheduled _ => f.markScheduled
  | addCPUTime _ => f

end Mutator

/-! ## The sections of `Fiber` -/

namespace FiberRecord

variable (f : FiberRecord)

theorem toFiber_runBegin (now : Int) :
    (f.runBegin now).map toFiber = f.toFiber.runBegin := by
  unfold runBegin Fiber.runBegin
  split <;> rfl

theorem toFiber_runEnd (e : Ending) (now : Int) : (f.runEnd e now).toFiber = f.toFiber.runEnd := rfl

theorem toFiber_apply (m : Mutator) : (m.apply f).toFiber = m.applyFiber f.toFiber := by
  cases m with
  | block reason on =>
    simp only [Mutator.apply, Mutator.applyFiber, block, Fiber.block]
    split <;> rfl
  | unblock =>
    simp only [Mutator.apply, Mutator.applyFiber, unblock, Fiber.unblock]
    split
    · rfl
    · split <;> rfl
  | markScheduled now =>
    simp only [Mutator.apply, Mutator.applyFiber, markScheduled, Fiber.markScheduled]
    split <;> rfl
  | setPriority | addCPUTime => rfl

end FiberRecord

/-! ## The system -/

/-- Where a `Run` call is. -/
inductive RunPc where
  | uncalled
  /-- Inside the fiber function. -/
  | body
  /-- About to enter the deferred section. -/
  | ending (e : Ending)
  /-- Back at the caller, without having run the function or after it. -/
  | returned (e : Option Ending)
  deriving DecidableEq

/-- The call has passed the first section, so that it is the one to start the function. -/
def RunPc.entered : RunPc → Bool
  | body | ending _ | returned (some _) => true
  | uncalled | returned none => false

/-- A fiber, and where each `Run` call is. -/
structure RunSys where
  fiber : FiberRecord
  runs : Nat → RunPc

inductive RunLabel where
  /-- Call `k` of `Run` takes the first section. -/
  | run (k : Nat) (now : Int)
  /-- The function that call `k` has started ends. -/
  | ends (k : Nat) (e : Ending)
  /-- Call `k` takes the deferred section. -/
  | record (k : Nat) (now : Int)
  /-- Somebody calls another method. -/
  | mutate (m : Mutator)

namespace RunSys

def new (id : FiberID) (name : String) (hasFn : Bool) (now : Int) : RunSys :=
  ⟨.new id name hasFn now, fun _ => .uncalled⟩

def setRun (s : RunSys) (k : Nat) (pc : RunPc) : RunSys :=
  { s with runs := Function.update s.runs k pc }

/-- One step; `none` if it is not call `k`'s turn for it. -/
def step (s : RunSys) : RunLabel → Option RunSys
  | .run k now =>
    match s.runs k, s.fiber.runBegin now with
    | .uncalled, none => some (s.setRun k (.returned none))
    -- a nil function is not called
    | .uncalled, some f =>
      some ({ s with fiber := f }.setRun k (if f.hasFn then .body else .ending .returned))
    | _, _ => none
  | .ends k e =>
    match s.runs k with
    | .body => some (s.setRun k (.ending e))
    | _ => none
  | .record k now =>
    match s.runs k with
    | .ending e => some ({ s with fiber := s.fiber.runEnd e now }.setRun k (.returned (some e)))
    | _ => none
  | .mutate m => some { s with fiber := m.apply s.fiber }

variable {s s' : RunSys} {l : RunLabel}

/-! ## One step -/

/-- What a step can do. -/
inductive Turn (s s' : RunSys) : RunLabel → Prop where
  | skip {k : Nat} {now : Int} (hpc : s.runs k = .uncalled)
      (hstarted : s.fiber.runStarted = true ∨ s.fiber.completion = true)
      (hs : s' = s.setRun k (.returned none)) : Turn s s' (.run k now)
  | enter {k : Nat} {now : Int} {pc : RunPc} (hpc : s.runs k = .uncalled)
      (hnot : s.fiber.runStarted = false ∧ s.fiber.completion = false)
      (hnext : pc = .body ∨ pc = .ending .returned)
      (hs : s' = { s with fiber := { s.fiber with
          runStarted := true
          state := .running
          startedAt := some now
          scheduleCount := s.fiber.scheduleCount + 1 } }.setRun k pc) : Turn s s' (.run k now)
  | ends {k : Nat} {e : Ending} (hpc : s.runs k = .body) (hs : s' = s.setRun k (.ending e)) :
      Turn s s' (.ends k e)
  | record {k : Nat} {now : Int} {e : Ending} (hpc : s.runs k = .ending e)
      (hs : s' = { s with fiber := s.fiber.runEnd e now }.setRun k (.returned (some e))) :
      Turn s s' (.record k now)
  | mutate {m : Mutator} (hs : s' = { s with fiber := m.apply s.fiber }) : Turn s s' (.mutate m)

theorem step_turn (h : s.step l = some s') : Turn s s' l := by
  cases l with
  | run k now =>
    simp only [step] at h
    split at h
    · next hpc hbegin =>
      cases h
      refine .skip hpc ?_ rfl
      simp only [FiberRecord.runBegin] at hbegin
      split at hbegin
      · next hstarted => simpa using hstarted
      · cases hbegin
    · next f hpc hbegin =>
      cases h
      simp only [FiberRecord.runBegin] at hbegin
      split at hbegin
      · cases hbegin
      · next hnot =>
        cases hbegin
        refine .enter hpc (by simpa using hnot) ?_ rfl
        split
        · exact .inl rfl
        · exact .inr rfl
    · cases h
  | ends k e =>
    simp only [step] at h
    split at h
    · next hpc =>
      cases h
      exact .ends hpc rfl
    · cases h
  | record k now =>
    simp only [step] at h
    split at h
    · next e hpc =>
      cases h
      exact .record hpc rfl
    · cases h
  | mutate m =>
    cases h
    exact .mutate rfl

@[simp] theorem runs_setRun (s : RunSys) (k i : Nat) (pc : RunPc) :
    (s.setRun k pc).runs i = if i = k then pc else s.runs i := by
  simp [setRun, Function.update_apply]

@[simp] theorem fiber_setRun (s : RunSys) (k : Nat) (pc : RunPc) :
    (s.setRun k pc).fiber = s.fiber := rfl

/-! ## The flags -/

/-- What the flags and the state of the fiber tell about its `Run` calls. -/
structure Coherent (s : RunSys) : Prop where
  once : ∀ i j, (s.runs i).entered = true → (s.runs j).entered = true → i = j
  started : s.fiber.runStarted = true ↔ ∃ i, (s.runs i).entered = true
  completed : s.fiber.completion = true ↔ ∃ i e, s.runs i = .returned (some e)
  finished : s.fiber.state = .finished ↔ s.fiber.completion = true
  failed : s.fiber.failure ≠ none ↔ ∃ i v, s.runs i = .returned (some (.panicked v))

theorem Coherent.not_entered (hi : s.Coherent) (h : s.fiber.runStarted = false) (i : Nat) :
    (s.runs i).entered = false := by
  by_contra hentered
  have := hi.started.mpr ⟨i, by simpa using hentered⟩
  simp [h] at this

/-- As long as the one `Run` call that has entered is not back, nothing has been recorded. -/
theorem Coherent.not_returned (hi : s.Coherent) {k : Nat} (hk : (s.runs k).entered = true)
    (hnot : ∀ e, s.runs k ≠ .returned (some e)) (i : Nat) (e : Ending) :
    s.runs i ≠ .returned (some e) := by
  intro hret
  have hik : i = k := hi.once i k (by rw [hret]; rfl) hk
  exact hnot e (hik ▸ hret)

/-- A step of the `Run` calls that leaves the fiber alone, between two places that agree on having
entered and are no record. -/
theorem Coherent.setRun (hi : s.Coherent) {k : Nat} {pc : RunPc}
    (hentered : pc.entered = (s.runs k).entered) (hold : ∀ e, s.runs k ≠ .returned (some e))
    (hnew : ∀ e, pc ≠ .returned (some e)) : (s.setRun k pc).Coherent := by
  have hent : ∀ i, ((s.setRun k pc).runs i).entered = (s.runs i).entered := by
    intro i
    rw [runs_setRun]
    split
    · next hik => rw [hik, hentered]
    · rfl
  have hret : ∀ i e,
      (s.setRun k pc).runs i = .returned (some e) ↔ s.runs i = .returned (some e) := by
    intro i e
    rw [runs_setRun]
    split
    · next hik => simp [hik, hold, hnew]
    · rfl
  constructor
  · simpa only [hent] using hi.once
  · simpa only [hent, fiber_setRun] using hi.started
  · simpa only [hret, fiber_setRun] using hi.completed
  · exact hi.finished
  · simpa only [hret, fiber_setRun] using hi.failed

/-- The methods with one section touch neither flag nor the failure, and say "finished" of a
completed fiber only. -/
theorem apply_flags (f : FiberRecord) (m : Mutator) :
    (m.apply f).runStarted = f.runStarted ∧ (m.apply f).completion = f.completion ∧
      (m.apply f).failure = f.failure ∧
      ((m.apply f).state = f.state ∨ f.completion = false ∧ (m.apply f).state ≠ .finished) := by
  cases m with
  | block reason on =>
    simp only [Mutator.apply, FiberRecord.block]
    split <;> simp_all
  | unblock =>
    simp only [Mutator.apply, FiberRecord.unblock]
    cases f.completion <;> cases f.runStarted <;> simp
  | markScheduled now =>
    simp only [Mutator.apply, FiberRecord.markScheduled]
    split <;> simp_all
  | setPriority | addCPUTime => exact ⟨rfl, rfl, rfl, .inl rfl⟩

theorem Coherent.mutate (hi : s.Coherent) (m : Mutator) :
    Coherent { s with fiber := m.apply s.fiber } := by
  obtain ⟨hstarted, hcompletion, hfailure, hstate⟩ := apply_flags s.fiber m
  refine ⟨hi.once, by simpa only [hstarted] using hi.started,
    by simpa only [hcompletion] using hi.completed, ?_, by simpa only [hfailure] using hi.failed⟩
  simp only [hcompletion]
  obtain hsame | ⟨hopen, hne⟩ := hstate
  · rw [hsame, hi.finished]
  · simp [hopen, hne]

/-- As long as nothing has been recorded there is no failure. -/
theorem Coherent.failure_none (hi : s.Coherent)
    (hnone : ∀ i e, s.runs i ≠ .returned (some e)) : s.fiber.failure = none := by
  by_contra hne
  obtain ⟨i, v, hret⟩ := hi.failed.mp hne
  exact hnone i _ hret

/-- A `Run` call is the first to get past the check. -/
theorem Coherent.enter (hi : s.Coherent) {k : Nat} {pc : RunPc} {f : FiberRecord}
    (hnot : s.fiber.runStarted = false ∧ s.fiber.completion = false)
    (hnext : pc = .body ∨ pc = .ending .returned) (hstarted : f.runStarted = true)
    (hcompletion : f.completion = s.fiber.completion) (hstate : f.state = .running)
    (hfailure : f.failure = s.fiber.failure) :
    ({ s with fiber := f }.setRun k pc).Coherent := by
  -- nobody has entered before, so nothing has been recorded
  have hother := hi.not_entered hnot.1
  have hrecord : ∀ i e, s.runs i ≠ .returned (some e) := by
    intro i e hret
    simpa [hret, RunPc.entered] using hother i
  have hnone : ∀ i e, ¬(if i = k then pc else s.runs i) = .returned (some e) := by
    intro i e
    split
    · rcases hnext with rfl | rfl <;> simp
    · exact hrecord i e
  have honly : ∀ i, (if i = k then pc else s.runs i).entered = true ↔ i = k := by
    intro i
    split
    · next hik => rcases hnext with rfl | rfl <;> simp [RunPc.entered, hik]
    · next hik => simp [hother, hik]
  constructor
  · intro i j hi' hj'
    simp only [runs_setRun, honly] at hi' hj'
    rw [hi', hj']
  · simp [honly, hstarted]
  · simp [hnone, hcompletion, hnot.2]
  · simp [hcompletion, hstate, hnot.2]
  · simp [hnone, hfailure, hi.failure_none hrecord]

/-- The deferred section of the `Run` call that has entered. -/
theorem Coherent.record (hi : s.Coherent) {k : Nat} {now : Int} {e : Ending}
    (hpc : s.runs k = .ending e) :
    ({ s with fiber := s.fiber.runEnd e now }.setRun k (.returned (some e))).Coherent := by
  have hk : (s.runs k).entered = true := by rw [hpc]; rfl
  have hnone := hi.not_returned hk (by simp [hpc])
  have honly : ∀ i e', (if i = k then RunPc.returned (some e) else s.runs i) =
      .returned (some e') ↔ i = k ∧ e = e' := by
    intro i e'
    split
    · next hik => simp [hik]
    · next hik => simp [hik, hnone]
  have hent : ∀ i, (if i = k then RunPc.returned (some e) else s.runs i).entered =
      (s.runs i).entered := by
    intro i
    split
    · next hik => rw [hik, hk]; rfl
    · rfl
  constructor
  · simpa only [runs_setRun, hent] using hi.once
  · simpa only [runs_setRun, fiber_setRun, hent, FiberRecord.runEnd] using hi.started
  · simp [honly, FiberRecord.runEnd]
  · simp [FiberRecord.runEnd]
  · cases e <;>
      simp [honly, FiberRecord.runEnd, FiberRecord.recovered, hi.failure_none hnone]

theorem Coherent.step (hi : s.Coherent) (h : s.step l = some s') : s'.Coherent := by
  cases step_turn h with
  | skip hpc hstarted hs =>
    subst hs
    exact hi.setRun (by rw [hpc]; rfl) (by simp [hpc]) (by simp)
  | enter hpc hnot hnext hs =>
    subst hs
    exact hi.enter hnot hnext rfl rfl rfl rfl
  | ends hpc hs =>
    subst hs
    exact hi.setRun (by rw [hpc]; rfl) (by simp [hpc]) (by simp)
  | record hpc hs =>
    subst hs
    exact hi.record hpc
  | mutate hs =>
    subst hs
    exact hi.mutate _

theorem coherent_new (id : FiberID) (name : String) (hasFn : Bool) (now : Int) :
    (new id name hasFn now).Coherent := by
  constructor <;> simp [new, FiberRecord.new, RunPc.entered]

/-! ## Completion -/

/-- What stays of a completed fiber. -/
structure Advances (s s' : RunSys) : Prop where
  completion : s.fiber.completion = true → s'.fiber.completion = true
  record : s.fiber.completion = true →
    s'.fiber.scheduleCount = s.fiber.scheduleCount ∧ s'.fiber.finishedAt = s.fiber.finishedAt ∧
      s'.fiber.runTime = s.fiber.runTime ∧ s'.fiber.failure = s.fiber.failure

theorem Advances.refl (s : RunSys) : s.Advances s := ⟨id, fun _ => ⟨rfl, rfl, rfl, rfl⟩⟩

theorem Advances.trans {s'' : RunSys} (h : s.Advances s') (h' : s'.Advances s'') :
    s.Advances s'' := by
  refine ⟨fun hc => h'.completion (h.completion hc), fun hc => ?_⟩
  obtain ⟨hcount, hat, htime, hfail⟩ := h.record hc
  obtain ⟨hcount', hat', htime', hfail'⟩ := h'.record (h.completion hc)
  exact ⟨hcount'.trans hcount, hat'.trans hat, htime'.trans htime, hfail'.trans hfail⟩

theorem Advances.of_fiber_eq (h : s'.fiber = s.fiber) : s.Advances s' := by
  constructor
  · rw [h]
    exact id
  · intro _
    rw [h]
    exact ⟨rfl, rfl, rfl, rfl⟩

theorem apply_record (f : FiberRecord) (m : Mutator) :
    (m.apply f).scheduleCount = f.scheduleCount ∧ (m.apply f).finishedAt = f.finishedAt ∧
      (m.apply f).runTime = f.runTime := by
  cases m with
  | block reason on =>
    simp only [Mutator.apply, FiberRecord.block]
    split <;> exact ⟨rfl, rfl, rfl⟩
  | markScheduled now =>
    simp only [Mutator.apply, FiberRecord.markScheduled]
    split <;> exact ⟨rfl, rfl, rfl⟩
  | unblock | setPriority | addCPUTime => exact ⟨rfl, rfl, rfl⟩

theorem Advances.step (hi : s.Coherent) (h : s.step l = some s') : s.Advances s' := by
  cases step_turn h with
  | skip hpc hstarted hs =>
    subst hs
    exact .of_fiber_eq rfl
  | enter hpc hnot hnext hs =>
    -- no call enters a completed fiber
    exact ⟨fun hc => by simp [hnot.2] at hc, fun hc => by simp [hnot.2] at hc⟩
  | ends hpc hs =>
    subst hs
    exact .of_fiber_eq rfl
  | @record k now e hpc hs =>
    -- the call that is about to record is the only one that has entered
    have hopen : ¬ s.fiber.completion = true := by
      intro hc
      obtain ⟨i, e', hret⟩ := hi.completed.mp hc
      exact hi.not_returned (by rw [hpc]; rfl) (by simp [hpc]) i e' hret
    exact ⟨fun hc => absurd hc hopen, fun hc => absurd hc hopen⟩
  | @mutate m hs =>
    subst hs
    obtain ⟨-, hcompletion, hfailure, -⟩ := apply_flags s.fiber m
    obtain ⟨hcount, hat, htime⟩ := apply_record s.fiber m
    exact ⟨fun hc => hcompletion.trans hc, fun _ => ⟨hcount, hat, htime, hfailure⟩⟩

/-! ## Runs -/

/-- Some `Run` call has recorded the end of the function. -/
def Recorded (s : RunSys) : Prop := ∃ i e, s.runs i = .returned (some e)

/-- What a fiber promises its callers: at most one call of `Run` starts the function; "finished" is
what the recording of its end writes, and nothing written there changes again; a failure is a
panic; an unblocked fiber that has not completed is running or ready by whether `Run` has
started. -/
structure RunsOnce (s : RunSys) : Prop where
  once : ∀ i j, (s.runs i).entered = true → (s.runs j).entered = true → i = j
  unfinished : ¬ s.Recorded → s.fiber.state ≠ .finished
  absorbing : s.Recorded → ∀ s', Trans.Reach step Trans.anyStep s s' →
    s'.fiber.state = .finished ∧ s'.fiber.scheduleCount = s.fiber.scheduleCount ∧
      s'.fiber.finishedAt = s.fiber.finishedAt ∧ s'.fiber.runTime = s.fiber.runTime ∧
      s'.fiber.failure = s.fiber.failure
  failure : ∀ i e, s.runs i = .returned (some e) →
    (s.fiber.failure ≠ none ↔ ∃ v, e = .panicked v)
  unblock_running : ¬ s.Recorded → (∃ i, (s.runs i).entered = true) →
    s.fiber.unblock.state = .running
  unblock_ready : ¬ s.Recorded → (¬ ∃ i, (s.runs i).entered = true) →
    s.fiber.unblock.state = .ready

section

variable {id : FiberID} {name : String} {hasFn : Bool} {now : Int}

theorem coherent_invariant (h : Trans.Reach step Trans.anyStep (new id name hasFn now) s) :
    s.Coherent :=
  Trans.Reach.invariant (coherent_new id name hasFn now) (fun _ _ _ hi _ hs => hi.step hs) h

theorem advances_reach (h : Trans.Reach step Trans.anyStep (new id name hasFn now) s)
    (hrun : Trans.Reach step Trans.anyStep s s') : s.Advances s' :=
  h.rel Advances.refl Advances.trans (fun ht hs => .step (coherent_invariant ht) hs) hrun

/-- **A fiber runs once and completion is final**, whatever calls of `Run`, `Block`, `Unblock`,
`MarkScheduled`, `SetPriority` and `AddCPUTime` interleave on it, and however its function ends. -/
theorem fiber_runs_once (h : Trans.Reach step Trans.anyStep (new id name hasFn now) s) :
    s.RunsOnce := by
  have hi := coherent_invariant h
  have hopen : ¬ s.Recorded → s.fiber.completion = false := by
    intro hnot
    rw [← Bool.not_eq_true, hi.completed]
    exact hnot
  constructor
  · exact hi.once
  · intro hnot hfin
    exact hnot (hi.completed.mp (hi.finished.mp hfin))
  · intro hrec s' hrun
    have hadv := advances_reach h hrun
    have hcompletion := hi.completed.mpr hrec
    exact ⟨(coherent_invariant (h.trans hrun)).finished.mpr (hadv.completion hcompletion),
      hadv.record hcompletion⟩
  · intro i e hret
    rw [hi.failed]
    constructor
    · rintro ⟨j, v, hpanic⟩
      -- both calls have entered, so that they are one call
      have hij : i = j := hi.once i j (by rw [hret]; rfl) (by rw [hpanic]; rfl)
      rw [hij, hpanic] at hret
      cases hret
      exact ⟨v, rfl⟩
    · rintro ⟨v, rfl⟩
      exact ⟨i, v, hret⟩
  · intro hnot hentered
    simp [FiberRecord.unblock, hopen hnot, hi.started.mpr hentered]
  · intro hnot hentered
    have hstarted : s.fiber.runStarted = false := by
      rw [← Bool.not_eq_true, hi.started]
      exact hentered
    simp [FiberRecord.unblock, hopen hnot, hstarted]

end

/-- Two calls of `Run`, the second while the function of the first is running, a `Block` between
them, and a panic. -/
theorem fiber_runs_once_panicked : ∃ s, Trans.Reach step Trans.anyStep (new 7 "worker" true 0) s ∧
    (s.fiber.failure.isSome && s.fiber.runTime == 4) = true ∧ s.RunsOnce := by
  obtain ⟨s, h, hp⟩ := Trans.exists_reach_of_exec step (new 7 "worker" true 0)
    [.run 0 1, .mutate (.block "mutex" none), .run 1 2, .ends 0 (.panicked (.other "boom")),
      .record 0 5] (fun s => s.fiber.failure.isSome && s.fiber.runTime == 4) (by decide)
  exact ⟨s, h, hp, fiber_runs_once h⟩

end RunSys

end GreenThreads
