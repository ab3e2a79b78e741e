import GreenThreads.Runtime.Runs
import GreenThreads.Web.Control

/-!
# GreenThreads — requests that overlap (`handleInit` and `handleSpawn`)

`Control` handles a message as one step. Here the two handlers take the steps that others can come
between: `handleSpawn` reads the server's runtime pointer under `runtimeMu`, and calls `Spawn` of
what it has read after releasing the lock; `handleInit` starts a new runtime, swaps the pointer
under the lock, and stops the old runtime after releasing it.

* `ControlPlane` — the pointer, the runtimes it can point to, each with the state that
  `Runtime.step` moves, and the requests with the place each of them has reached;
* `acknowledged_spawn_current` — where no swap falls between the read of a `handleSpawn` and the
  commit of its fiber, a fiber that is acknowledged was committed to the current runtime.

Whatever else happens to a runtime (its loop and its fibers, calls of other goroutines, the
handlers of `stop` and `reset`) is a step of that runtime at any time.
-/

namespace GreenThreads.Runtime.SpawnPc

/-- It is settled whether the fiber of the call is committed. -/
def settled : SpawnPc → Bool
  | unreserve | unschedule | unscheduleUndo | remove _ _ | rollbackUndo | recordCreated
  | returned _ => true
  | commit stopping => stopping
  | _ => false

variable {pc pc' : SpawnPc}

theorem Next.settled (h : Next pc pc') (hpc : pc.settled = true) : pc'.settled = true := by
  cases h with
  | @removed _ present => cases present <;> rfl
  | unreserve | unschedule | unscheduleUndo | rollback | removeNext | rollbackUndo
  | recordCreated => rfl
  | _ => cases hpc

theorem Next.committed (h : Next pc pc') (hpc : pc.committed = true) : pc'.committed = true := by
  cases h with
  | recordCreated => rfl
  | _ => cases hpc

/-- There is one step that commits. -/
theorem Next.commit_of_committed (h : Next pc pc') (hpc : pc.committed = false)
    (hpc' : pc'.committed = true) : pc = .commit false ∧ pc' = .recordCreated := by
  cases h with
  | commit => exact ⟨rfl, rfl⟩
  | check h | reserve h | schedule h | enqueue h => rcases h with rfl | rfl <;> cases hpc'
  | @removed _ present => cases present <;> cases hpc'
  | recordCreated => cases hpc
  | _ => cases hpc'

end GreenThreads.Runtime.SpawnPc

namespace GreenThreads.Web

open Trans
open Scheduler (SchedulerType)
open GreenThreads.Runtime (SpawnPc SpawnError)

/-! ## What the handlers take from a message -/

/-- The name and the priority, after the checks of `handleSpawn` on the payload. -/
def spawnArgs (msg : Message) : Except String (String × Int) :=
  match Control.spawnName msg.payload with
  | .error e => .error e
  | .ok name =>
    match payloadInt msg.payload "priority" (-100) 100 with
    | .error _ => .error "priority must be an integer from -100 to 100"
    | .ok priority =>
      match payloadInt msg.payload "duration" 1 60000 with
      | .error _ => .error "duration must be an integer from 1 to 60000 milliseconds"
      | .ok _ => .ok (name, priority)

/-- The scheduler's type and name and the number of workers, after the checks of `handleInit` on
the payload. -/
def initArgs (msg : Message) : Except String (SchedulerType × String × Int) :=
  match payloadString msg.payload "schedulerType" 32 with
  | .error _ => .error "schedulerType is required"
  | .ok name =>
    match payloadInt msg.payload "numWorkers" 1 64 with
    | .error _ => .error "numWorkers must be an integer from 1 to 64"
    | .ok numWorkers =>
      match parseScheduler name with
      | none => .error "unsupported scheduler type"
      | some sType => .ok (sType, name, numWorkers)

/-- What `handleSpawn` sends for an error of `Spawn`. -/
def spawnErrorMessage : SpawnError → String
  | .maxFibersReached _ => "fiber limit reached"
  | _ => "failed to spawn fiber"

/-! ## Requests -/

/-- Where a `handleSpawn` is. -/
inductive SpawnHandler where
  /-- It has read `s.runtime`. -/
  | looked (args : Except String (String × Int)) (rt : Option Nat)
  /-- The checks are passed, and `Spawn` of the runtime at `p` comes next. -/
  | checked (p : Nat) (name : String) (priority : Int)
  /-- It is in `Spawn` call `f` of the runtime at `p`. -/
  | spawning (p : Nat) (f : FiberID) (name : String) (priority : Int)
  /-- It has sent an error. -/
  | failed (message : String)
  /-- It has sent the success. -/
  | acknowledged (p : Nat) (f : FiberID) (name : String) (priorityApplied : Bool)
  deriving DecidableEq

/-- Where a `handleInit` is; `reply` is what it sends at its end. -/
inductive InitHandler where
  /-- The new runtime is at `q`, and its `Start` comes next. -/
  | created (q : Nat) (reply : Outgoing)
  | starting (q : Nat) (reply : Outgoing)
  /-- The swap comes next. -/
  | started (q : Nat) (reply : Outgoing)
  /-- The `Stop` of the old runtime comes next. -/
  | swapped (old : Option Nat) (reply : Outgoing)
  | stopping (old : Nat) (reply : Outgoing)
  | answered (sent : Outgoing)
  deriving DecidableEq

/-- A runtime and the options it was made with. -/
structure RuntimeInstance where
  config : Runtime.Config
  state : Runtime.State

structure ControlPlane where
  runtime : Option Nat
  /-- The runtimes by their addresses, of which those from `fresh` on are not used yet. -/
  heap : Nat → RuntimeInstance
  fresh : Nat
  spawns : List SpawnHandler
  inits : List InitHandler
  spawnErrors : Nat

namespace ControlPlane

/-- A server that has had no request. -/
structure Initial (s : ControlPlane) : Prop where
  runtime : ∀ p ∈ s.runtime, p < s.fresh
  spawns : s.spawns = []
  inits : s.inits = []

/-! ## Steps -/

inductive Label where
  /-- A step of the runtime at `p`. -/
  | run (p : Nat) (l : Runtime.Label)
  /-- A new `handleSpawn` reads the pointer. -/
  | spawnRequest (msg : Message)
  /-- The next step of `handleSpawn` number `i`; `applied` is whether `UpdatePriority` finds the
  fiber. -/
  | spawn (i : Nat) (applied : Bool)
  /-- A new `handleInit` checks the payload and makes the new runtime. -/
  | initRequest (msg : Message)
  /-- The next step of `handleInit` number `i`. -/
  | init (i : Nat)

variable (s : ControlPlane)

/-- The runtime at `p` takes a step. -/
def runStep (p : Nat) (l : Runtime.Label) : Option ControlPlane :=
  (Runtime.step (s.heap p).config (s.heap p).state l).map fun rt =>
    { s with heap := Function.update s.heap p { s.heap p with state := rt } }

/-- The next step of `handleSpawn` number `i`. -/
def spawnStep (i : Nat) (applied : Bool) : Option ControlPlane :=
  match s.spawns[i]? with
  | none | some (.failed _) | some (.acknowledged ..) => none
  | some (.looked _ none) =>
    some { s with spawns := s.spawns.set i (.failed "runtime not initialized") }
  | some (.looked args (some p)) =>
    if (s.heap p).state.muHeld then none
    else if (s.heap p).state.isRunning then
      match args with
      | .error e => some { s with spawns := s.spawns.set i (.failed e) }
      | .ok (name, priority) => some { s with spawns := s.spawns.set i (.checked p name priority) }
    else some { s with spawns := s.spawns.set i (.failed "runtime not initialized") }
  | some (.checked p name priority) =>
    (s.runStep p (.call false name.utf8ByteSize)).map fun s' =>
      { s' with spawns := s.spawns.set i (.spawning p (s.heap p).state.calls name priority) }
  | some (.spawning p f name priority) =>
    match ((s.heap p).state.threads f).pc with
    | .returned (.ok _) =>
      -- `UpdatePriority` is called for a priority scheduler only
      let applied := if priority ≠ 0 ∧ (s.heap p).config.kind = .priority then applied else true
      some { s with spawns := s.spawns.set i (.acknowledged p f name applied) }
    | .returned (.error e) =>
      some { s with
        spawns := s.spawns.set i (.failed (spawnErrorMessage e))
        spawnErrors := s.spawnErrors + 1 }
    | _ => none

/-- The start of a `handleInit`, on a machine with `numCPU` processors. -/
def initBegin (numCPU : Nat) (cfg : ServerConfig) (msg : Message) : ControlPlane :=
  match initArgs msg with
  | .error e => { s with inits := s.inits ++ [.answered (.error e)] }
  | .ok (sType, name, numWorkers) =>
    let config := Runtime.Config.ofOptions numCPU [.withSchedulerType sType,
      .withNumWorkers numWorkers, .withMaxFibers cfg.maxFibersPerRuntime]
    { s with
      heap := Function.update s.heap s.fresh ⟨config, .newWithOptions config⟩
      fresh := s.fresh + 1
      inits := s.inits ++ [.created s.fresh (.initSuccess (toLower name) numWorkers)] }

/-- The next step of `handleInit` number `i`. -/
def initStep (i : Nat) : Option ControlPlane :=
  match s.inits[i]? with
  | none | some (.answered _) => none
  | some (.created q reply) =>
    (s.runStep q .start).map fun s' => { s' with inits := s.inits.set i (.starting q reply) }
  | some (.starting q reply) =>
    match (s.heap q).state.lifecycle with
    | .idle (some (.ok _)) => some { s with inits := s.inits.set i (.started q reply) }
    | .idle (some (.error _)) =>
      some { s with inits := s.inits.set i (.answered (.error "failed to start runtime")) }
    | _ => none
  | some (.started q reply) =>
    some { s with runtime := some q, inits := s.inits.set i (.swapped s.runtime reply) }
  | some (.swapped none reply) => some { s with inits := s.inits.set i (.answered reply) }
  | some (.swapped (some old) reply) =>
    (s.runStep old .stop).map fun s' => { s' with inits := s.inits.set i (.stopping old reply) }
  | some (.stopping old reply) =>
    match (s.heap old).state.lifecycle with
    | .idle _ => some { s with inits := s.inits.set i (.answered reply) }
    | _ => none

/-- What the next step of `handleSpawn` number `i` does, by the place it is at. -/
inductive SpawnEffect (i : Nat) (applied : Bool) : ControlPlane → Prop where
  | noRuntime {args} (hi : s.spawns[i]? = some (.looked args none)) :
      SpawnEffect i applied
        { s with spawns := s.spawns.set i (.failed "runtime not initialized") }
  | notRunning {args p}
      (hi : s.spawns[i]? = some (.looked args (some p)))
      (hrun : (s.heap p).state.isRunning = false) :
      SpawnEffect i applied
        { s with spawns := s.spawns.set i (.failed "runtime not initialized") }
  | invalid {e p} (hi : s.spawns[i]? = some (.looked (.error e) (some p))) :
      SpawnEffect i applied { s with spawns := s.spawns.set i (.failed e) }
  | check {name priority p}
      (hi : s.spawns[i]? = some (.looked (.ok (name, priority)) (some p)))
      (hrun : (s.heap p).state.isRunning = true) :
      SpawnEffect i applied { s with spawns := s.spawns.set i (.checked p name priority) }
  | call {p name priority}
      (hi : s.spawns[i]? = some (.checked p name priority)) :
      SpawnEffect i applied { s with
        heap := Function.update s.heap p { s.heap p with
          state := (s.heap p).state.spawnCall false name.utf8ByteSize }
        spawns := s.spawns.set i (.spawning p (s.heap p).state.calls name priority) }
  | acknowledge {p f name priority}
      (hi : s.spawns[i]? = some (.spawning p f name priority))
      (hpc : ((s.heap p).state.threads f).pc = .returned (.ok ())) :
      SpawnEffect i applied { s with
        spawns := s.spawns.set i (.acknowledged p f name
          (if priority ≠ 0 ∧ (s.heap p).config.kind = .priority then applied else true)) }
  | refuse {p f name priority e}
      (hi : s.spawns[i]? = some (.spawning p f name priority))
      (hpc : ((s.heap p).state.threads f).pc = .returned (.error e)) :
      SpawnEffect i applied { s with
        spawns := s.spawns.set i (.failed (spawnErrorMessage e))
        spawnErrors := s.spawnErrors + 1 }

/-- What the next step of `handleInit` number `i` does, by the place it is at. -/
inductive InitEffect (i : Nat) : ControlPlane → Prop where
  | start {q reply rt}
      (hi : s.inits[i]? = some (.created q reply))
      (hrt : Runtime.step (s.heap q).config (s.heap q).state .start = some rt) :
      InitEffect i { s with
        heap := Function.update s.heap q { s.heap q with state := rt }
        inits := s.inits.set i (.starting q reply) }
  | startOk {q reply} (hi : s.inits[i]? = some (.starting q reply))
      (hl : (s.heap q).state.lifecycle = .idle (some (.ok ()))) :
      InitEffect i { s with inits := s.inits.set i (.started q reply) }
  | startFailed {q reply e}
      (hi : s.inits[i]? = some (.starting q reply))
      (hl : (s.heap q).state.lifecycle = .idle (some (.error e))) :
      InitEffect i
        { s with inits := s.inits.set i (.answered (.error "failed to start runtime")) }
  | swap {q reply} (hi : s.inits[i]? = some (.started q reply)) :
      InitEffect i
        { s with runtime := some q, inits := s.inits.set i (.swapped s.runtime reply) }
  | noOld {reply} (hi : s.inits[i]? = some (.swapped none reply)) :
      InitEffect i { s with inits := s.inits.set i (.answered reply) }
  | stop {old reply rt}
      (hi : s.inits[i]? = some (.swapped (some old) reply))
      (hrt : Runtime.step (s.heap old).config (s.heap old).state .stop = some rt) :
      InitEffect i { s with
        heap := Function.update s.heap old { s.heap old with state := rt }
        inits := s.inits.set i (.stopping old reply) }
  | stopped {old reply} (hi : s.inits[i]? = some (.stopping old reply)) :
      InitEffect i { s with inits := s.inits.set i (.answered reply) }

variable {s} {s' : ControlPlane} {i : Nat}

theorem spawnStep_effect {applied : Bool} (h : s.spawnStep i applied = some s') :
    s.SpawnEffect i applied s' := by
  unfold spawnStep at h
  cases hi : s.spawns[i]? with
  | none => simp [hi] at h
  | some hd =>
    cases hd with
    | failed | acknowledged => simp [hi] at h
    | looked args rt =>
      cases rt with
      | none =>
        simp only [hi, Option.some.injEq] at h
        exact h ▸ .noRuntime hi
      | some p =>
        simp only [hi] at h
        split_ifs at h with hmu hrun
        · cases args with
          | error e =>
            cases h
            exact .invalid hi
          | ok args =>
            cases h
            exact .check hi hrun
        · cases h
          exact .notRunning hi (Bool.eq_false_iff.mpr hrun)
    | checked p name priority =>
      simp only [hi] at h
      cases h
      exact .call hi
    | spawning p f name priority =>
      simp only [hi] at h
      split at h
      · next hpc =>
        cases h
        exact .acknowledge hi hpc
      · next hpc =>
        cases h
        exact .refuse hi hpc
      · cases h

theorem initStep_effect (h : s.initStep i = some s') : s.InitEffect i s' := by
  unfold initStep at h
  cases hi : s.inits[i]? with
  | none => simp [hi] at h
  | some hd =>
    cases hd with
    | answered => simp [hi] at h
    | created q reply =>
      simp only [hi, runStep, Option.map_map] at h
      obtain ⟨rt, hrt, rfl⟩ := Option.map_eq_some_iff.mp h
      exact .start hi hrt
    | starting q reply =>
      simp only [hi] at h
      split at h
      · next hl =>
        cases h
        exact .startOk hi hl
      · next hl =>
        cases h
        exact .startFailed hi hl
      · cases h
    | started q reply =>
      simp only [hi, Option.some.injEq] at h
      exact h ▸ .swap hi
    | swapped old reply =>
      cases old with
      | none =>
        simp only [hi, Option.some.injEq] at h
        exact h ▸ .noOld hi
      | some old =>
        simp only [hi, runStep, Option.map_map] at h
        obtain ⟨rt, hrt, rfl⟩ := Option.map_eq_some_iff.mp h
        exact .stop hi hrt
    | stopping old reply =>
      simp only [hi] at h
      split at h <;> cases h
      exact .stopped hi

end ControlPlane

/-- One step. -/
def ControlPlane.step (numCPU : Nat) (cfg : ServerConfig) (s : ControlPlane) :
    ControlPlane.Label → Option ControlPlane
  | .run p l => if p < s.fresh then s.runStep p l else none
  | .spawnRequest msg =>
    some { s with spawns := s.spawns ++ [.looked (spawnArgs msg) s.runtime] }
  | .spawn i applied => s.spawnStep i applied
  | .initRequest msg => some (s.initBegin numCPU cfg msg)
  | .init i => s.initStep i

/-! ## What the handlers hold -/

/-- The runtime that the handler has read. -/
def SpawnHandler.address : SpawnHandler → Option Nat
  | looked _ rt => rt
  | checked p _ _ | spawning p _ _ _ | acknowledged p _ _ _ => some p
  | failed _ => none

/-- The `Spawn` call that the handler has made. -/
def SpawnHandler.call : SpawnHandler → Option (Nat × FiberID)
  | spawning p f _ _ | acknowledged p f _ _ => some (p, f)
  | looked _ _ | checked _ _ _ | failed _ => none

/-- The runtime that the handler has made and not published. -/
def InitHandler.address : InitHandler → Option Nat
  | created q _ | starting q _ | started q _ => some q
  | swapped _ _ | stopping _ _ | answered _ => none

/-- The swap comes next. -/
def InitHandler.swaps : InitHandler → Bool
  | started _ _ => true
  | _ => false

/-- Where call `f` of the runtime at `p` is. -/
def ControlPlane.pc (s : ControlPlane) (p : Nat) (f : FiberID) : SpawnPc :=
  ((s.heap p).state.threads f).pc

namespace ControlPlane

/-- A step of a runtime. -/
def Ran (s s' : ControlPlane) (p : Nat) : Prop :=
  ∃ l rt, Runtime.step (s.heap p).config (s.heap p).state l = some rt
    ∧ s'.heap p = { s.heap p with state := rt }

/-- What a step of `handleSpawn` makes of it. -/
inductive Moves (s s' : ControlPlane) : SpawnHandler → SpawnHandler → Prop where
  | fail {h : SpawnHandler} {message : String} : Moves s s' h (.failed message)
  | check {args : Except String (String × Int)} {p : Nat} {name : String} {priority : Int} :
      Moves s s' (.looked args (some p)) (.checked p name priority)
  | call {p : Nat} {name : String} {priority : Int}
      (hrt : (s'.heap p).state = (s.heap p).state.spawnCall false name.utf8ByteSize) :
      Moves s s' (.checked p name priority)
        (.spawning p (s.heap p).state.calls name priority)
  | acknowledge {p : Nat} {f : FiberID} {name : String} {priority : Int} {applied : Bool}
      (hpc : (s.pc p f).committed = true) (hheap : s'.heap = s.heap) :
      Moves s s' (.spawning p f name priority) (.acknowledged p f name applied)

section

variable {numCPU : Nat} {cfg : ServerConfig} {s s' : ControlPlane} {l : Label} {i p : Nat}
  {f : FiberID}

theorem runStep_eq {l : Runtime.Label} (h : s.runStep p l = some s') :
    ∃ rt, Runtime.step (s.heap p).config (s.heap p).state l = some rt
      ∧ s' = { s with heap := Function.update s.heap p { s.heap p with state := rt } } := by
  obtain ⟨rt, hrt, rfl⟩ := Option.map_eq_some_iff.mp h
  exact ⟨rt, hrt, rfl⟩

/-- One runtime takes a step, and the others stay as they are. -/
theorem ran_update {l : Runtime.Label} {rt : Runtime.State}
    (hrt : Runtime.step (s.heap p).config (s.heap p).state l = some rt)
    (hheap : s'.heap = Function.update s.heap p { s.heap p with state := rt }) (q : Nat) :
    s'.heap q = s.heap q ∨ s.Ran s' q := by
  rw [hheap]
  by_cases hq : q = p
  · subst hq
    exact .inr ⟨l, rt, hrt, by rw [hheap, Function.update_self]⟩
  · exact .inl (Function.update_of_ne hq ..)

theorem runStep_heap {l : Runtime.Label} (h : s.runStep p l = some s') (q : Nat) :
    s'.heap q = s.heap q ∨ s.Ran s' q := by
  obtain ⟨rt, hrt, rfl⟩ := runStep_eq h
  exact ran_update hrt rfl q

/-- What a step of a `handleSpawn` does. -/
theorem spawnStep_cases {applied : Bool} (h : s.spawnStep i applied = some s') :
    (∃ hd hd', hd ∈ s.spawns ∧ s.Moves s' hd hd' ∧ s'.spawns = s.spawns.set i hd')
      ∧ (∀ q, s'.heap q = s.heap q ∨ s.Ran s' q)
      ∧ s'.runtime = s.runtime ∧ s'.fresh = s.fresh ∧ s'.inits = s.inits := by
  cases spawnStep_effect h with
  | noRuntime hi | notRunning hi | invalid hi | refuse hi =>
    exact ⟨⟨_, _, List.mem_of_getElem? hi, .fail, rfl⟩, fun _ => .inl rfl, rfl, rfl, rfl⟩
  | check hi =>
    exact ⟨⟨_, _, List.mem_of_getElem? hi, .check, rfl⟩, fun _ => .inl rfl, rfl, rfl, rfl⟩
  | @call p name _ hi =>
    refine ⟨⟨_, _, List.mem_of_getElem? hi, .call ?_, rfl⟩,
      ran_update (l := .call false name.utf8ByteSize) rfl rfl, rfl, rfl, rfl⟩
    simp
  | acknowledge hi hpc =>
    exact ⟨⟨_, _, List.mem_of_getElem? hi, .acknowledge (by rw [pc, hpc]; rfl) rfl, rfl⟩,
      fun _ => .inl rfl, rfl, rfl, rfl⟩

/-- A handler that takes a step holds no runtime that it did not hold before. -/
theorem address_of_mem_set {inits : List InitHandler} {hd hd' : InitHandler}
    (hi : inits[i]? = some hd) (haddr : ∀ q ∈ hd'.address, q ∈ hd.address) :
    ∀ hd₁ ∈ inits.set i hd', ∀ q ∈ hd₁.address, ∃ hd₀ ∈ inits, q ∈ hd₀.address := by
  intro hd₁ hmem q hq
  rcases List.mem_or_eq_of_mem_set hmem with hold | rfl
  · exact ⟨hd₁, hold, hq⟩
  · exact ⟨hd, List.mem_of_getElem? hi, haddr q hq⟩

/-- What a step of a `handleInit` does. -/
theorem initStep_cases (h : s.initStep i = some s') :
    (∀ hd' ∈ s'.inits, ∀ q ∈ hd'.address, ∃ hd ∈ s.inits, q ∈ hd.address)
      ∧ (∀ q, s'.heap q = s.heap q ∨ s.Ran s' q)
      ∧ s'.spawns = s.spawns ∧ s'.fresh = s.fresh
      ∧ (s'.runtime = s.runtime ∨ s'.heap = s.heap
        ∧ ∃ hd ∈ s.inits[i]?, hd.swaps = true ∧ s'.runtime = hd.address) := by
  cases initStep_effect h with
  | start hi hrt =>
    exact ⟨address_of_mem_set hi fun _ => id, ran_update hrt rfl, rfl, rfl, .inl rfl⟩
  | startOk hi =>
    exact ⟨address_of_mem_set hi fun _ => id, fun _ => .inl rfl, rfl, rfl, .inl rfl⟩
  | startFailed hi | noOld hi | stopped hi =>
    exact ⟨address_of_mem_set hi nofun, fun _ => .inl rfl, rfl, rfl, .inl rfl⟩
  | swap hi =>
    exact ⟨address_of_mem_set hi nofun, fun _ => .inl rfl, rfl, rfl, .inr ⟨rfl, _, hi, rfl, rfl⟩⟩
  | stop hi hrt =>
    exact ⟨address_of_mem_set hi nofun, ran_update hrt rfl, rfl, rfl, .inl rfl⟩

end

/-- What a step can do. -/
structure Turn (s s' : ControlPlane) (l : Label) : Prop where
  fresh : s.fresh ≤ s'.fresh
  /-- A runtime in use stays as it is or takes a step of its own. -/
  heap : ∀ p < s.fresh, s'.heap p = s.heap p ∨ s.Ran s' p
  spawns : ∀ hd' ∈ s'.spawns, hd' ∈ s.spawns
    ∨ (∃ args, hd' = .looked args s.runtime ∧ s'.runtime = s.runtime)
    ∨ ∃ hd ∈ s.spawns, s.Moves s' hd hd' ∧ s'.runtime = s.runtime
  inits : ∀ hd' ∈ s'.inits, ∀ q ∈ hd'.address,
    (∃ hd ∈ s.inits, q ∈ hd.address) ∨ s.fresh ≤ q ∧ q < s'.fresh
  /-- Only the swap of a `handleInit` changes the pointer. -/
  runtime : s'.runtime = s.runtime ∨ s'.heap = s.heap ∧ s'.spawns = s.spawns
    ∧ ∃ i, l = .init i ∧ ∃ hd ∈ s.inits[i]?, hd.swaps = true ∧ s'.runtime = hd.address

section

variable {numCPU : Nat} {cfg : ServerConfig} {s s' : ControlPlane} {l : Label}

theorem initBegin_turn (msg : Message) :
    s.Turn (s.initBegin numCPU cfg msg) (.initRequest msg) := by
  unfold initBegin
  split
  · refine ⟨le_rfl, fun _ _ => .inl rfl, fun _ => .inl, fun hd' hmem q hq => .inl ?_, .inl rfl⟩
    rcases List.mem_append.mp hmem with hold | hnew
    · exact ⟨hd', hold, hq⟩
    · rw [List.mem_singleton.mp hnew] at hq
      cases hq
  · refine ⟨Nat.le_succ _, fun p hp => .inl (Function.update_of_ne hp.ne ..), fun _ => .inl,
      fun hd' hmem q hq => ?_, .inl rfl⟩
    rcases List.mem_append.mp hmem with hold | hnew
    · exact .inl ⟨hd', hold, hq⟩
    · -- the new runtime is at the first free address
      rw [List.mem_singleton.mp hnew] at hq
      cases hq
      exact .inr ⟨le_rfl, Nat.lt_succ_self _⟩

theorem step_turn (h : step numCPU cfg s l = some s') : s.Turn s' l := by
  cases l with
  | run p l =>
    simp only [step] at h
    split_ifs at h
    have hheap := runStep_heap h
    obtain ⟨rt, -, rfl⟩ := runStep_eq h
    exact ⟨le_rfl, fun q _ => hheap q, fun _ => .inl, fun hd' hmem q hq => .inl ⟨hd', hmem, hq⟩,
      .inl rfl⟩
  | spawnRequest msg =>
    cases h
    refine ⟨le_rfl, fun _ _ => .inl rfl, fun hd' hmem => ?_,
      fun hd' hmem q hq => .inl ⟨hd', hmem, hq⟩, .inl rfl⟩
    rcases List.mem_append.mp hmem with hold | hnew
    · exact .inl hold
    · exact .inr (.inl ⟨_, List.mem_singleton.mp hnew, rfl⟩)
  | spawn i applied =>
    obtain ⟨⟨hd, hd₁, hhd, hmoves, hset⟩, hheap, hruntime, hfresh, hinits⟩ := spawnStep_cases h
    refine ⟨hfresh.ge, fun q _ => hheap q, fun hd' hmem => ?_,
      fun hd' hmem q hq => .inl ⟨hd', hinits ▸ hmem, hq⟩, .inl hruntime⟩
    rw [hset] at hmem
    rcases List.mem_or_eq_of_mem_set hmem with hold | rfl
    · exact .inl hold
    · exact .inr (.inr ⟨hd, hhd, hmoves, hruntime⟩)
  | initRequest msg =>
    cases h
    exact initBegin_turn msg
  | init i =>
    obtain ⟨hinits, hheap, hspawns, hfresh, hruntime⟩ := initStep_cases h
    refine ⟨hfresh.ge, fun q _ => hheap q, fun hd' hmem => .inl (hspawns ▸ hmem),
      fun hd' hmem q hq => .inl (hinits hd' hmem q hq), ?_⟩
    rcases hruntime with hsame | ⟨hheap, hswap⟩
    · exact .inl hsame
    · exact .inr ⟨hheap, hspawns, i, rfl, hswap⟩

/-! ## The calls of a runtime in a step -/

theorem Ran.calls {p : Nat} (h : s.Ran s' p) :
    (s.heap p).state.calls ≤ (s'.heap p).state.calls := by
  obtain ⟨l, rt, hrt, hheap⟩ := h
  rw [hheap]
  rcases Runtime.State.step_calls hrt with heq | ⟨heq, -⟩
  · exact heq.ge
  · exact heq ▸ Nat.le_succ _

theorem Ran.next {p : Nat} {f : FiberID} (h : s.Ran s' p) (hf : f < (s.heap p).state.calls) :
    s'.pc p f = s.pc p f ∨ SpawnPc.Next (s.pc p f) (s'.pc p f) := by
  obtain ⟨l, rt, hrt, hheap⟩ := h
  rw [pc, pc, hheap]
  exact Runtime.State.step_next hrt hf

end

/-! ## Addresses and calls stay valid -/

/-- Nobody holds an address that is not used yet, and what is acknowledged is committed. -/
structure Valid (s : ControlPlane) : Prop where
  runtime : ∀ p ∈ s.runtime, p < s.fresh
  inits : ∀ hd ∈ s.inits, ∀ q ∈ hd.address, q < s.fresh
  spawns : ∀ hd ∈ s.spawns, ∀ p ∈ hd.address, p < s.fresh
  called : ∀ hd ∈ s.spawns, ∀ p f, hd.call = some (p, f) → f < (s.heap p).state.calls
  acknowledged : ∀ p f name applied, .acknowledged p f name applied ∈ s.spawns →
    (s.pc p f).committed = true

theorem Initial.valid {s : ControlPlane} (h : s.Initial) : s.Valid where
  runtime := h.runtime
  inits := by rw [h.inits]; exact nofun
  spawns := by rw [h.spawns]; exact nofun
  called := by rw [h.spawns]; exact nofun
  acknowledged := by rw [h.spawns]; exact nofun

section

variable {numCPU : Nat} {cfg : ServerConfig} {s s' : ControlPlane} {l : Label} {p : Nat}
  {f : FiberID} {hd hd' : SpawnHandler}

theorem SpawnHandler.address_of_call (h : hd.call = some (p, f)) : hd.address = some p := by
  cases hd with
  | spawning | acknowledged => cases h; rfl
  | _ => cases h

/-- A call of a handler stays where it is or takes its own next step. -/
theorem Valid.next (hv : s.Valid) (ht : s.Turn s' l) (hmem : hd ∈ s.spawns)
    (hcall : hd.call = some (p, f)) :
    s'.pc p f = s.pc p f ∨ SpawnPc.Next (s.pc p f) (s'.pc p f) := by
  have hp := hv.spawns hd hmem p (SpawnHandler.address_of_call hcall)
  rcases ht.heap p hp with hsame | hran
  · exact .inl (by rw [pc, pc, hsame])
  · exact hran.next (hv.called hd hmem p f hcall)

theorem Valid.called_step (hv : s.Valid) (ht : s.Turn s' l) (hmem : hd ∈ s.spawns)
    (hcall : hd.call = some (p, f)) : f < (s'.heap p).state.calls := by
  have hf := hv.called hd hmem p f hcall
  rcases ht.heap p (hv.spawns hd hmem p (SpawnHandler.address_of_call hcall)) with hsame | hran
  · rwa [hsame]
  · exact hf.trans_le hran.calls

theorem Valid.step (hv : s.Valid) (ht : s.Turn s' l) : s'.Valid where
  runtime := by
    intro p hp
    rcases ht.runtime with hsame | ⟨-, -, i, -, hd, hi, -, hswap⟩
    · exact (hv.runtime p (hsame ▸ hp)).trans_le ht.fresh
    · exact (hv.inits hd (List.mem_of_getElem? hi) p (hswap ▸ hp)).trans_le ht.fresh
  inits := by
    intro hd hmem q hq
    rcases ht.inits hd hmem q hq with ⟨hd₀, hmem₀, hq₀⟩ | ⟨-, hlt⟩
    · exact (hv.inits hd₀ hmem₀ q hq₀).trans_le ht.fresh
    · exact hlt
  spawns := by
    intro hd hmem p hp
    refine lt_of_lt_of_le ?_ ht.fresh
    rcases ht.spawns hd hmem with hold | ⟨args, rfl, -⟩ | ⟨hd₀, hmem₀, hmoves, -⟩
    · exact hv.spawns hd hold p hp
    · exact hv.runtime p hp
    · cases hmoves with
      | fail => cases hp
      | check | call | acknowledge => exact hv.spawns _ hmem₀ p hp
  called := by
    intro hd hmem p f hcall
    rcases ht.spawns hd hmem with hold | ⟨args, rfl, -⟩ | ⟨hd₀, hmem₀, hmoves, -⟩
    · exact hv.called_step ht hold hcall
    · cases hcall
    · cases hmoves with
      | fail | check => cases hcall
      | call hrt =>
        cases hcall
        rw [hrt]
        exact Nat.lt_succ_self _
      | acknowledge => exact hv.called_step ht hmem₀ hcall
  acknowledged := by
    intro p f name applied hmem
    rcases ht.spawns _ hmem with hold | ⟨args, heq, -⟩ | ⟨hd₀, hmem₀, hmoves, -⟩
    · have hpc := hv.acknowledged p f name applied hold
      rcases hv.next ht hold rfl with hsame | hnext
      · rwa [hsame]
      · exact hnext.committed hpc
    · cases heq
    · cases hmoves with
      | acknowledge hpc hheap => rwa [pc, hheap]

theorem valid_of_reach {ok : ControlPlane → Label → Prop} {s₀ : ControlPlane} (h₀ : s₀.Initial)
    (h : Reach (step numCPU cfg) ok s₀ s) : s.Valid :=
  h.invariant h₀.valid fun _ _ _ hv _ hst => hv.step (step_turn hst)

end

/-! ## The commit of an acknowledged fiber -/

/-- In the step from `s` to `s'` the fiber of call `f` of the runtime at `p` is committed. -/
structure Commits (s s' : ControlPlane) (p : Nat) (f : FiberID) : Prop where
  before : s.pc p f = .commit false
  after : s'.pc p f = .recordCreated

section

variable {numCPU : Nat} {cfg : ServerConfig} {ok : ControlPlane → Label → Prop}
  {s₀ s s' : ControlPlane} {l : Label} {p : Nat} {f : FiberID} {hd hd' : SpawnHandler}

/-- The handler of a committed fiber was in its call before the step, and the fiber is committed
already or in this step. -/
theorem Valid.committed_step (hv : s.Valid) (ht : s.Turn s' l) (hmem : hd' ∈ s'.spawns)
    (hcall : hd'.call = some (p, f)) (hpc : (s'.pc p f).committed = true) :
    ∃ hd ∈ s.spawns, hd.call = some (p, f)
      ∧ ((s.pc p f).committed = true ∨ s.Commits s' p f) := by
  have hfrom : ∃ hd ∈ s.spawns, hd.call = some (p, f) := by
    rcases ht.spawns hd' hmem with hold | ⟨args, rfl, -⟩ | ⟨hd₀, hmem₀, hmoves, -⟩
    · exact ⟨hd', hold, hcall⟩
    · cases hcall
    · cases hmoves with
      | fail | check => cases hcall
      | call hrt =>
        -- a call that has just been made has committed nothing
        cases hcall
        rw [pc, hrt] at hpc
        simp only [Runtime.State.spawnCall, Runtime.State.setPc, Runtime.State.setThread,
          Function.update_self, Bool.false_eq_true, if_false] at hpc
        split_ifs at hpc <;> cases hpc
      | acknowledge => exact ⟨_, hmem₀, hcall⟩
  obtain ⟨hd, hhd, hcall'⟩ := hfrom
  refine ⟨hd, hhd, hcall', ?_⟩
  cases hbefore : (s.pc p f).committed with
  | true => exact .inl rfl
  | false =>
    rcases hv.next ht hhd hcall' with hsame | hnext
    · rw [hsame, hbefore] at hpc
      cases hpc
    · obtain ⟨hcommit, hcreated⟩ := hnext.commit_of_committed hbefore hpc
      exact .inr ⟨hcommit, hcreated⟩

/-- Every committed fiber of a handler was committed in one of the steps of the run, while its
handler waited for `Spawn`. Induction on the run, back to that step. -/
theorem exists_commit (h₀ : s₀.Initial) (h : Reach (step numCPU cfg) ok s₀ s)
    (hmem : hd ∈ s.spawns) (hcall : hd.call = some (p, f)) (hpc : (s.pc p f).committed = true) :
    ∃ s₁ l s₂, Reach (step numCPU cfg) ok s₀ s₁ ∧ step numCPU cfg s₁ l = some s₂
      ∧ Reach (step numCPU cfg) ok s₂ s ∧ s₁.Commits s₂ p f
      ∧ ∃ hd₁ ∈ s₁.spawns, hd₁.call = some (p, f) := by
  induction h generalizing hd with
  | refl =>
    rw [h₀.spawns] at hmem
    cases hmem
  | @tail t t' l hrun hok hst ih =>
    obtain ⟨hd₁, hmem₁, hcall₁, hbefore | hcommits⟩ :=
      (valid_of_reach h₀ hrun).committed_step (step_turn hst) hmem hcall hpc
    · obtain ⟨s₁, l₁, s₂, hto, hst₁, hfrom, hrest⟩ := ih hmem₁ hcall₁ hbefore
      exact ⟨s₁, l₁, s₂, hto, hst₁, .tail hfrom hok hst, hrest⟩
    · exact ⟨t, l, t', hrun, hst, .refl, hcommits, hd₁, hmem₁, hcall₁⟩

end

/-! ## Runs in which no swap gets between -/

/-- The runtime that the handler has read, while it is open whether its fiber is committed
there. -/
def pending (s : ControlPlane) : SpawnHandler → Option Nat
  | .looked _ rt => rt
  | .checked p _ _ => some p
  | .spawning p f _ _ => if (s.pc p f).settled then none else some p
  | .failed _ | .acknowledged .. => none

/-- `handleInit` swaps the pointer while no `handleSpawn` is between its read of the pointer and
the commit of its fiber. -/
def SwapsAlone (s : ControlPlane) : Label → Prop
  | .init i => (∃ hd ∈ s.inits[i]?, hd.swaps = true) → ∀ hd ∈ s.spawns, s.pending hd = none
  | _ => True

instance (s : ControlPlane) : (l : Label) → Decidable (SwapsAlone s l)
  | .init _ => inferInstanceAs (Decidable (_ → _))
  | .run _ _ | .spawnRequest _ | .spawn _ _ | .initRequest _ => isTrue trivial

/-- What the handlers have read is the current runtime. -/
def Current (s : ControlPlane) : Prop := ∀ hd ∈ s.spawns, ∀ p ∈ s.pending hd, s.runtime = some p

section

variable {numCPU : Nat} {cfg : ServerConfig} {s₀ s s' : ControlPlane} {l : Label} {p : Nat}
  {f : FiberID} {hd : SpawnHandler}

theorem Valid.pending_of_step (hv : s.Valid) (ht : s.Turn s' l) (hmem : hd ∈ s.spawns)
    (hp : p ∈ s'.pending hd) : p ∈ s.pending hd := by
  cases hd with
  | looked | checked => exact hp
  | failed | acknowledged => cases hp
  | spawning q f =>
    simp only [pending, Option.mem_ite_none_left] at hp ⊢
    refine ⟨fun hsettled => hp.1 ?_, hp.2⟩
    rcases hv.next ht hmem rfl with hsame | hnext
    · rw [hsame]
      exact hsettled
    · exact hnext.settled hsettled

theorem Current.step (hv : s.Valid) (ht : s.Turn s' l) (halone : SwapsAlone s l)
    (hc : s.Current) : s'.Current := by
  intro hd hmem p hp
  rcases ht.runtime with hsame | ⟨hheap, hspawns, i, rfl, hinit, hi, hswaps, -⟩
  · rw [hsame]
    rcases ht.spawns hd hmem with hold | ⟨args, rfl, -⟩ | ⟨hd₀, hmem₀, hmoves, -⟩
    · exact hc hd hold p (hv.pending_of_step ht hold hp)
    · exact hp
    · cases hmoves with
      | fail | acknowledge => cases hp
      | check => exact hc _ hmem₀ p hp
      | call => exact hc _ hmem₀ p (Option.mem_ite_none_left.mp hp).2
  · -- at a swap there is nothing pending
    have hold : hd ∈ s.spawns := hspawns ▸ hmem
    have hnone := halone ⟨hinit, hi, hswaps⟩ hd hold
    rw [Option.mem_def.mp (hv.pending_of_step ht hold hp)] at hnone
    cases hnone

/-- A fiber that is acknowledged was committed to the runtime that was the server's at that
moment, in every run in which no swap falls between the read of a `handleSpawn` and the commit. -/
theorem acknowledged_spawn_current (h₀ : s₀.Initial)
    (h : Reach (step numCPU cfg) SwapsAlone s₀ s) {name : String} {applied : Bool}
    (hack : .acknowledged p f name applied ∈ s.spawns) :
    ∃ s₁ l s₂, Reach (step numCPU cfg) SwapsAlone s₀ s₁ ∧ step numCPU cfg s₁ l = some s₂
      ∧ Reach (step numCPU cfg) SwapsAlone s₂ s ∧ s₁.Commits s₂ p f ∧ s₁.runtime = some p := by
  have hpc := (valid_of_reach h₀ h).acknowledged p f name applied hack
  obtain ⟨s₁, l, s₂, hto, hst, hfrom, hcommits, hd, hmem, hcall⟩ :=
    exists_commit h₀ h hack rfl hpc
  refine ⟨s₁, l, s₂, hto, hst, hfrom, hcommits, ?_⟩
  have hall : s₁.Valid ∧ s₁.Current := by
    refine hto.invariant (P := fun s => s.Valid ∧ s.Current) ⟨h₀.valid, ?_⟩ ?_
    · intro hd hmem
      rw [h₀.spawns] at hmem
      cases hmem
    · rintro s l s' ⟨hv, hc⟩ halone hst
      exact ⟨hv.step (step_turn hst), hc.step hv (step_turn hst) halone⟩
  refine hall.2 hd hmem p ?_
  cases hd with
  | spawning =>
    cases hcall
    simp [pending, hcommits.before, SpawnPc.settled]
  | acknowledged =>
    cases hcall
    have := hall.1.acknowledged _ _ _ _ hmem
    rw [hcommits.before] at this
    cases this
  | _ => cases hcall

end

/-! ## A swap between the read and the commit -/

/-- A request for a runtime with a FIFO scheduler and one worker. -/
def initMessage : Message where
  type := "init"
  payload key :=
    if key = "schedulerType" then some (.string "fifo")
    else if key = "numWorkers" then some (.number 1)
    else none

/-- A request for a fiber of ten milliseconds. -/
def spawnMessage : Message where
  type := "spawn"
  payload key :=
    if key = "priority" then some (.number 0)
    else if key = "duration" then some (.number 10)
    else none

/-- A server without a runtime. -/
def new : ControlPlane where
  runtime := none
  heap _ := ⟨.ofOptions 2 [], .newWithOptions (.ofOptions 2 [])⟩
  fresh := 0
  spawns := []
  inits := []
  spawnErrors := 0

theorem initial_new : Initial new := ⟨nofun, rfl, rfl⟩

/-- `handleInit` number `i` makes its runtime at `q`, starts it and swaps the pointer. -/
def initTrace (i q : Nat) : List Label :=
  [.initRequest initMessage, .init i, .run q .lifecycle, .run q .lifecycle, .run q .lifecycle,
    .init i, .init i]

/-- A spawn request after an `init`. -/
theorem acknowledged_spawn_current_after_init :
    ∃ s s₁ s₂ l, Reach (step 2 ⟨100, 0, ""⟩) anyStep new s
      ∧ .acknowledged 0 0 "Worker" true ∈ s.spawns
      ∧ step 2 ⟨100, 0, ""⟩ s₁ l = some s₂ ∧ s₁.Commits s₂ 0 0 ∧ s₁.runtime = some 0 := by
  obtain ⟨s, hs, htest⟩ := exists_reach_of_exec_guarded (step 2 ⟨100, 0, ""⟩) SwapsAlone new
    (List.flatten [initTrace 0 0, [.init 0, .spawnRequest spawnMessage, .spawn 0 true,
      .spawn 0 true], List.replicate 9 (.run 0 (.spawn 0 0)), [.spawn 0 true]])
    (fun s => decide (.acknowledged 0 0 "Worker" true ∈ s.spawns))
    (by decide +kernel)
  have hack := of_decide_eq_true htest
  obtain ⟨s₁, l, s₂, -, hst, -, hcommits, hcurrent⟩ :=
    acknowledged_spawn_current initial_new hs hack
  exact ⟨s, s₁, s₂, l, hs.mono fun _ _ _ => trivial, hack, hst, hcommits, hcurrent⟩

/-- A `handleSpawn` reads the pointer; an `init` swaps it, and is not as far as to stop the old
runtime; `Spawn` commits the fiber to the old runtime, and the client gets a success. -/
theorem acknowledged_spawn_stale :
    ∃ s₁ s₂ s, Reach (step 2 ⟨100, 0, ""⟩) anyStep new s₁
      ∧ step 2 ⟨100, 0, ""⟩ s₁ (.run 0 (.spawn 0 0)) = some s₂
      ∧ Reach (step 2 ⟨100, 0, ""⟩) anyStep s₂ s
      ∧ .acknowledged 0 0 "Worker" true ∈ s.spawns
      ∧ s₁.Commits s₂ 0 0 ∧ s₁.runtime = some 1 := by
  obtain ⟨s₁, hs₁, htest⟩ := exists_reach_of_exec (step 2 ⟨100, 0, ""⟩) new
    (List.flatten [initTrace 0 0, [.init 0, .spawnRequest spawnMessage], initTrace 1 1,
      [.spawn 0 true, .spawn 0 true], List.replicate 7 (.run 0 (.spawn 0 0))])
    (fun s₁ => decide (s₁.runtime = some 1 ∧ s₁.pc 0 0 = .commit false)
      && (step 2 ⟨100, 0, ""⟩ s₁ (.run 0 (.spawn 0 0))).any fun s₂ : ControlPlane =>
        decide (s₂.pc 0 0 = .recordCreated)
          && (exec (step 2 ⟨100, 0, ""⟩) s₂ [.run 0 (.spawn 0 0), .spawn 0 true]).any
            fun s : ControlPlane => decide (.acknowledged 0 0 "Worker" true ∈ s.spawns))
    (by decide +kernel)
  simp only [Bool.and_eq_true, decide_eq_true_eq, Option.any_eq_true] at htest
  obtain ⟨⟨hcurrent, hbefore⟩, s₂, hst, hafter, s, hs, hack⟩ := htest
  exact ⟨s₁, s₂, s, hs₁, hst, .of_exec hs, hack, ⟨hbefore, hafter⟩, hcurrent⟩

end ControlPlane

end GreenThreads.Web
