import GreenThreads.EventTracker
import GreenThreads.Lib.Purge
import GreenThreads.Metrics
import GreenThreads.Runtime.State
import GreenThreads.Web.Clients

/-!
# GreenThreads — the control messages (`Server.handleMessage`)

A message of a connection is handled as one step. `handleMessage` first looks the type up in a
deny list, if the connection is read-only, and then in its dispatch table; the two tables are
independent of each other.

* `RuntimeObject` — a runtime: the fields that the handlers' getters read, and everything else;
* `RuntimeMethods` — the methods that change a runtime, as functions of its whole state. What
  they do is not looked at here, so they are a parameter;
* `Control` — the runtime pointer and the runtimes it can point to. Every path of a handler ends
  in one send to the connection, so a handler takes a `Control` to the next one and what it sends;
* `read_only_cannot_influence` — messages of read-only connections can be left out.

JSON decoding replaces invalid UTF-8, so the strings of a message are valid, and it refuses
numbers that are not finite, so a number is a rational. Left out: tracing, logging and the
recovery from a panic.
-/

namespace GreenThreads.Web

open Scheduler (SchedulerType)

/-! ## Messages -/

/-- A value as `json.Unmarshal` puts it into an `interface{}`. -/
inductive JsonValue where
  | null
  | bool (b : Bool)
  | number (x : Rat)
  | string (s : String)
  | array (xs : List JsonValue)
  | object (fields : List (String × JsonValue))

/-- `type Message struct`; a key that is not in the payload is `none`. -/
structure Message where
  type : String
  payload : String → Option JsonValue

/-- `unicode.IsSpace`. -/
def isSpace (r : Char) : Bool :=
  r.toNat ∈ [0x09, 0x0a, 0x0b, 0x0c, 0x0d, 0x20, 0x85, 0xa0, 0x1680, 0x2028, 0x2029, 0x202f,
    0x205f, 0x3000] || (0x2000 ≤ r.toNat && r.toNat ≤ 0x200a)

/-- `strings.TrimSpace`. -/
def trimSpace (s : String) : String :=
  String.ofList ((s.toList.dropWhile isSpace).reverse.dropWhile isSpace).reverse

/-- `unicode.ToLower` as far as it leads to the letters a to z: the capital letters, the Kelvin
sign and the dotted capital I. Other characters are left alone; no scheduler's name has one. -/
def toLowerRune (r : Char) : Char :=
  if 'A' ≤ r ∧ r ≤ 'Z' then Char.ofNat (r.toNat + 32)
  else if r.toNat = 0x212a then 'k'
  else if r.toNat = 0x130 then 'i'
  else r

/-- `strings.ToLower`. -/
def toLower (s : String) : String := String.ofList (s.toList.map toLowerRune)

/-- `payloadString`. -/
def payloadString (payload : String → Option JsonValue) (key : String) (max : Nat) :
    Except String String :=
  match payload key with
  | some (.string value) =>
    let value := trimSpace value
    if value = "" ∨ max < value.utf8ByteSize then .error (key ++ " has invalid length")
    else .ok value
  | _ => .error (key ++ " must be a string")

/-- `payloadInt`. -/
def payloadInt (payload : String → Option JsonValue) (key : String) (min max : Int) :
    Except String Int :=
  match payload key with
  | some (.number value) =>
    if value.den = 1 ∧ min ≤ value.num ∧ value.num ≤ max then .ok value.num
    else .error (key ++ " must be an integer in range")
  | _ => .error (key ++ " must be an integer in range")

/-- `parseScheduler`. -/
def parseScheduler (value : String) : Option SchedulerType :=
  match toLower value with
  | "fifo" => some .fifo
  | "roundrobin" => some .roundRobin
  | "priority" => some .priority
  | "workstealing" => some .workStealing
  | _ => none

/-! ## Runtimes -/

/-- `SchedulerType.String`. -/
def schedulerName : SchedulerType → String
  | .fifo => "FIFO"
  | .roundRobin => "RoundRobin"
  | .priority => "Priority"
  | .workStealing => "WorkStealing"

/-- `FiberState.String`. -/
def stateName : FiberState → String
  | .ready => "Ready"
  | .running => "Running"
  | .blocked => "Blocked"
  | .finished => "Finished"
  | .dead => "Dead"

/-- The fields of a fiber that a state update shows. Times are in nanoseconds. -/
structure FiberRecord where
  id : FiberID
  name : String
  state : FiberState
  priority : Int
  scheduleCount : Int
  yieldCount : Int
  cpuTime : Int
  blockReason : String
  color : String
  deriving DecidableEq, Repr

/-- A runtime; `rest` is what no getter of this module reads. -/
structure RuntimeObject (κ : Type*) where
  epoch : Nat
  /-- `rt.stopped` is closed. -/
  stopped : Bool
  schedulerType : SchedulerType
  /-- `stealAttempts` and `stealSuccess` of a work-stealing scheduler. -/
  stealStats : Nat × Nat
  /-- The values of `rt.fibers`. -/
  fibers : List FiberRecord
  metrics : Metrics
  eventTracker : EventTracker
  activeFiberCount : Int
  rest : κ

namespace RuntimeObject

variable {κ : Type*} (rt : RuntimeObject κ)

/-- `IsRunning`. -/
def isRunning : Bool := 0 < rt.epoch && !rt.stopped

/-- `GetAllFibers`. -/
def getAllFibers : List FiberRecord := rt.fibers.mergeSort fun a b => a.id ≤ b.id

/-- `GetMetrics`: the snapshot with the steal counters and the admission counter injected. -/
def getMetrics : MetricsSnapshot :=
  let snap := rt.metrics.snapshotLocked false
  let snap := if rt.schedulerType = .workStealing then
      { snap with
        totalStealAttempts := rt.stealStats.1
        totalStealSuccesses := rt.stealStats.2 }
    else snap
  { snap with activeFibers := max rt.activeFiberCount 0 }

/-- `GetEvents`. -/
def getEvents (n : Int) : List FiberEvent := rt.eventTracker.getRecentEvents n

end RuntimeObject

/-- What bounds a `Stop`: whether the server's context is cancelled, and the timeout in
nanoseconds. -/
structure StopContext where
  cancelled : Bool
  timeout : Int

/-- The methods by which handlers change a runtime. The function that `Spawn` is given sleeps for
`duration` milliseconds. -/
structure RuntimeMethods (κ : Type*) where
  newRuntimeWithOptions (sType : SchedulerType) (numWorkers maxFibers : Int) : RuntimeObject κ
  start : RuntimeObject κ → RuntimeObject κ × Option String
  stop (ctx : StopContext) : RuntimeObject κ → RuntimeObject κ × Option String
  reset : RuntimeObject κ → RuntimeObject κ × Option String
  spawn (duration : Int) (name : String) :
    RuntimeObject κ → RuntimeObject κ × Except Runtime.SpawnError FiberID
  updatePriority (f : FiberID) (priority : Int) : RuntimeObject κ → RuntimeObject κ × Option String

/-! ## What is sent -/

/-- `type FiberJSON struct`. -/
structure FiberJSON where
  id : FiberID
  name : String
  state : String
  priority : Int
  scheduleCount : Int
  yieldCount : Int
  cpuTime : Int
  blockReason : String
  color : String
  deriving DecidableEq, Repr

/-- `type MetricsJSON struct`. -/
structure MetricsJSON where
  totalFibersCreated : Nat
  totalFibersCompleted : Nat
  activeFibers : Int
  blockedFibers : Nat
  totalContextSwitches : Nat
  totalYields : Nat
  stealSuccessRate : Rat
  deriving DecidableEq, Repr

/-- `type EventJSON struct`. -/
structure EventJSON where
  fiberID : FiberID
  eventType : String
  timestamp : Int
  details : String
  deriving DecidableEq, Repr

/-- `type RuntimeUpdateJSON struct`. -/
structure RuntimeUpdateJSON where
  fibers : List FiberJSON
  metrics : MetricsJSON
  events : List EventJSON
  schedulerType : String
  timestamp : Int
  deriving DecidableEq, Repr

/-- `StealSuccessRate`, which goes with the two counters. -/
def stealSuccessRate (m : MetricsSnapshot) : Rat :=
  if 0 < m.totalStealAttempts then m.totalStealSuccesses / m.totalStealAttempts else 0

/-- `convertRuntimeUpdate` of the getters' results. -/
def convertRuntimeUpdate (fibers : List FiberRecord) (m : MetricsSnapshot)
    (events : List FiberEvent) (schedulerType : String) (now : Int) : RuntimeUpdateJSON where
  fibers := fibers.map fun f =>
    { id := f.id, name := f.name, state := stateName f.state, priority := f.priority,
      scheduleCount := f.scheduleCount, yieldCount := f.yieldCount,
      cpuTime := f.cpuTime.tdiv 1000000, blockReason := f.blockReason, color := f.color }
  metrics :=
    { totalFibersCreated := m.totalFibersCreated, totalFibersCompleted := m.totalFibersCompleted,
      activeFibers := m.activeFibers, blockedFibers := m.blockedFibers,
      totalContextSwitches := m.totalContextSwitches, totalYields := m.totalYields,
      stealSuccessRate := stealSuccessRate m }
  events := events.map fun e =>
    { fiberID := e.fiberID, eventType := e.eventType.toString, timestamp := e.timestamp,
      details := e.details }
  schedulerType := schedulerType
  timestamp := now

/-- What a handler sends to its connection. -/
inductive Outgoing where
  | error (message : String)
  | success
  | spawned (fiberID : FiberID) (name : String) (priorityApplied : Bool)
  | initSuccess (schedulerType : String) (numWorkers : Int)
  | stateUpdate (update : RuntimeUpdateJSON)
  deriving DecidableEq, Repr

/-! ## Handlers -/

/-- The fields of `ServerConfig` that the handlers read. -/
structure ServerConfig where
  maxFibersPerRuntime : Int
  stopTimeout : Int
  readOnlyToken : String

/-- The role that `handleWebSocket` gives a connection. -/
def ServerConfig.readOnly (cfg : ServerConfig) (presentedToken : String) : Bool :=
  cfg.readOnlyToken ≠ "" && presentedToken = cfg.readOnlyToken

/-- The runtime pointer of the server, and the runtimes by their addresses, of which those from
`fresh` on are not used yet. -/
structure Control (κ : Type*) where
  runtime : Option Nat
  heap : Nat → RuntimeObject κ
  fresh : Nat
  /-- The server's context is cancelled. -/
  cancelled : Bool
  spawnErrors : Nat

section

variable {κ : Type*} (M : RuntimeMethods κ) (cfg : ServerConfig)

namespace Control

variable (c : Control κ)

/-- The runtime at address `p` becomes `rt`. -/
def set (p : Nat) (rt : RuntimeObject κ) : Control κ :=
  { c with heap := fun q => if q = p then rt else c.heap q }

/-- The server's runtime pointer becomes a new object. -/
def swap (rt : RuntimeObject κ) : Control κ :=
  { c.set c.fresh rt with runtime := some c.fresh, fresh := c.fresh + 1 }

/-- `stopContext`. -/
def stopContext : StopContext :=
  ⟨c.cancelled, if cfg.stopTimeout ≤ 0 then 5000000000 else cfg.stopTimeout⟩

/-- `handleInit`. -/
def handleInit (msg : Message) : Control κ × Outgoing :=
  match payloadString msg.payload "schedulerType" 32 with
  | .error _ => (c, .error "schedulerType is required")
  | .ok name =>
    match payloadInt msg.payload "numWorkers" 1 64 with
    | .error _ => (c, .error "numWorkers must be an integer from 1 to 64")
    | .ok numWorkers =>
      match parseScheduler name with
      | none => (c, .error "unsupported scheduler type")
      | some sType =>
        match M.start (M.newRuntimeWithOptions sType numWorkers cfg.maxFibersPerRuntime) with
        | (_, some _) => (c, .error "failed to start runtime")
        | (newRuntime, none) =>
          let swapped := c.swap newRuntime
          let stopped := match c.runtime with
            | none => swapped
            -- an error of `Stop` is only logged
            | some old => swapped.set old (M.stop (c.stopContext cfg) (swapped.heap old)).1
          (stopped, .initSuccess (toLower name) numWorkers)

/-- The checks of `handleSpawn` on the name. -/
def spawnName (payload : String → Option JsonValue) : Except String String :=
  let rawName := match payload "name" with
    | some (.string s) => s
    | _ => ""
  let name := trimSpace rawName
  if name = "" then .ok "Worker"
  else if 128 < name.utf8ByteSize then .error "name must be 1-128 characters"
  else if name.toList.any fun r =>
      (r.toNat < 0x20 && r ≠ '\t') || r.toNat = 0x7f || 0xfffd < r.toNat then
    .error "fiber name contains invalid characters"
  else if name.toList.contains '\x1b' then .error "fiber name contains invalid characters"
  else .ok name

/-- `handleSpawn`. -/
def handleSpawn (msg : Message) : Control κ × Outgoing :=
  match c.runtime with
  | none => (c, .error "runtime not initialized")
  | some p =>
    let rt := c.heap p
    if !rt.isRunning then (c, .error "runtime not initialized")
    else
      match spawnName msg.payload with
      | .error e => (c, .error e)
      | .ok name =>
        match payloadInt msg.payload "priority" (-100) 100 with
        | .error _ => (c, .error "priority must be an integer from -100 to 100")
        | .ok priority =>
          match payloadInt msg.payload "duration" 1 60000 with
          | .error _ => (c, .error "duration must be an integer from 1 to 60000 milliseconds")
          | .ok duration =>
            match M.spawn duration name rt with
            | (rt, .error e) =>
              ({ c.set p rt with spawnErrors := c.spawnErrors + 1 },
                match e with
                | .maxFibersReached _ => .error "fiber limit reached"
                | _ => .error "failed to spawn fiber")
            | (rt, .ok fiberID) =>
              if priority ≠ 0 ∧ rt.schedulerType = .priority then
                let updated := M.updatePriority fiberID priority rt
                (c.set p updated.1, .spawned fiberID name updated.2.isNone)
              else (c.set p rt, .spawned fiberID name true)

/-- `handleStop`. -/
def handleStop : Control κ × Outgoing :=
  match c.runtime with
  | none => (c, .success)
  | some p =>
    match M.stop (c.stopContext cfg) (c.heap p) with
    | (rt, some _) => (c.set p rt, .error "failed to stop runtime")
    | (rt, none) => (c.set p rt, .success)

/-- `handleReset`; an error of `Reset` is only logged. -/
def handleReset : Control κ × Outgoing :=
  match c.runtime with
  | none => (c, .success)
  | some p =>
    match M.stop (c.stopContext cfg) (c.heap p) with
    | (rt, some _) => (c.set p rt, .error "failed to stop runtime")
    | (rt, none) => (c.set p (M.reset rt).1, .success)

/-- `handleGetState` at time `now`. -/
def handleGetState (now : Int) : Control κ × Outgoing :=
  match c.runtime with
  | none => (c, .error "runtime not initialized")
  | some p =>
    let rt := c.heap p
    (c, .stateUpdate (convertRuntimeUpdate rt.getAllFibers rt.getMetrics (rt.getEvents 100)
      (schedulerName rt.schedulerType) now))

/-- The dispatch of `handleMessage`. -/
def dispatch (msg : Message) (now : Int) : Control κ × Outgoing :=
  match msg.type with
  | "init" => c.handleInit M cfg msg
  | "spawn" => c.handleSpawn M msg
  | "stop" => c.handleStop M cfg
  | "reset" => c.handleReset M cfg
  | "getState" => c.handleGetState now
  | _ => (c, .error "unknown message type")

end Control

/-- `clientSendBuffer`. -/
def clientSendBuffer : Nat := 16

/-- The server as far as control messages go: `sendQueues` holds what is in the send channel of
each registered client. -/
structure Server (κ : Type*) where
  control : Control κ
  sendQueues : ConnID → Option (List Outgoing)
  broadcastDropped : Nat

namespace Server

variable (s : Server κ)

/-- `sendJSON` and `enqueue`: nothing is sent to a connection that is not registered, and a
message for a full queue is dropped. -/
def sendJSON (conn : ConnID) (value : Outgoing) : Server κ :=
  match s.sendQueues conn with
  | none => s
  | some queue =>
    if queue.length < clientSendBuffer then
      { s with sendQueues := fun i => if i = conn then some (queue ++ [value]) else s.sendQueues i }
    else { s with broadcastDropped := s.broadcastDropped + 1 }

/-- The deny list of `handleMessage`. -/
def destructive : List String :=
  ["init", "stop", "reset", "spawn", "setConfig", "kill", "pause", "resume"]

/-- `handleMessage`. -/
def handleMessage (conn : ConnID) (msg : Message) (readOnly : Bool) (now : Int) : Server κ :=
  if readOnly && destructive.contains msg.type then
    s.sendJSON conn (.error ("read-only client cannot execute: " ++ msg.type))
  else
    let handled := s.control.dispatch M cfg msg now
    { s with control := handled.1 }.sendJSON conn handled.2

end Server

/-- A message as it gets to `handleMessage`: the connection, the token it presented at its
handshake, and the time. -/
structure Request where
  conn : ConnID
  presentedToken : String
  msg : Message
  now : Int

/-- One request. -/
def Server.handle (s : Server κ) (r : Request) : Server κ :=
  s.handleMessage M cfg r.conn r.msg (cfg.readOnly r.presentedToken) r.now

/-! ## Read-only connections -/

/-- Every type that the dispatch gives to a handler that may change something is on the deny
list. -/
theorem Control.dispatch_of_not_destructive (c : Control κ) {msg : Message}
    (h : msg.type ∉ Server.destructive) (now : Int) : (c.dispatch M cfg msg now).1 = c := by
  have hne : ∀ type ∈ Server.destructive, msg.type ≠ type := by
    rintro type hmem rfl
    exact h hmem
  unfold Control.dispatch
  split
  · next htype => exact absurd htype (hne "init" (by decide))
  · next htype => exact absurd htype (hne "spawn" (by decide))
  · next htype => exact absurd htype (hne "stop" (by decide))
  · next htype => exact absurd htype (hne "reset" (by decide))
  · unfold Control.handleGetState
    split <;> rfl
  · rfl

@[simp] theorem Server.sendJSON_control (s : Server κ) (conn : ConnID) (value : Outgoing) :
    (s.sendJSON conn value).control = s.control := by
  unfold Server.sendJSON
  split
  · rfl
  · split <;> rfl

/-- What a message does to the runtimes. -/
theorem Server.handleMessage_control (s : Server κ) (conn : ConnID) (msg : Message)
    (readOnly : Bool) (now : Int) :
    (s.handleMessage M cfg conn msg readOnly now).control
      = if readOnly then s.control else (s.control.dispatch M cfg msg now).1 := by
  unfold Server.handleMessage
  cases readOnly with
  | false => simp
  | true =>
    by_cases hdeny : msg.type ∈ Server.destructive
    · rw [if_pos (by simpa using hdeny), Server.sendJSON_control, if_pos rfl]
    · rw [if_neg (by simpa using hdeny), Server.sendJSON_control, if_pos rfl]
      exact s.control.dispatch_of_not_destructive M cfg hdeny now

theorem Server.unwinding :
    Purge.Unwinding (Server.handle M cfg) Server.control
      (fun r => cfg.readOnly r.presentedToken) where
  respects s r hrole := by
    unfold Server.handle
    rw [Server.handleMessage_control, if_pos hrole]
  consistent s s' r hsame := by
    unfold Server.handle
    rw [Server.handleMessage_control, Server.handleMessage_control, hsame]

/-- Whatever the methods of the runtime do: after any sequence of messages the runtime pointer
and the state of every runtime are what they are after the messages of the full-access
connections alone. -/
theorem Server.read_only_cannot_influence (s : Server κ) (rs : List Request) :
    let after := rs.foldl (Server.handle M cfg) s
    let purged := (rs.filter fun r => !cfg.readOnly r.presentedToken).foldl (Server.handle M cfg) s
    after.control.runtime = purged.control.runtime
      ∧ after.control.heap = purged.control.heap := by
  have hcontrol := (Server.unwinding M cfg).view_run (s := s) rfl rs
  exact ⟨congrArg Control.runtime hcontrol, congrArg Control.heap hcontrol⟩

end

end GreenThreads.Web
