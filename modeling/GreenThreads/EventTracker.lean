import GreenThreads.Fiber

/-!
# GreenThreads — lifecycle events (`EventTracker` of `internal/metrics/metrics.go`)

The ring buffer of lifecycle events. Its indices are numbers below the capacity, which is not
zero, and it never counts more events than it has places, so these facts are part of the type.
-/

namespace GreenThreads

/-- `type EventType int`. -/
inductive EventType where
  | created
  | scheduled
  | running
  | yielded
  | blocked
  | unblocked
  | completed
  | contextSwitch
  deriving DecidableEq, Repr

/-- `EventType.String`. -/
def EventType.toString : EventType → String
  | created => "Created"
  | scheduled => "Scheduled"
  | running => "Running"
  | yielded => "Yielded"
  | blocked => "Blocked"
  | unblocked => "Unblocked"
  | completed => "Completed"
  | contextSwitch => "ContextSwitch"

/-- `type FiberEvent struct`; the defaults are Go's zero values. -/
structure FiberEvent where
  fiberID : FiberID := 0
  eventType : EventType := .created
  timestamp : Int := 0
  details : String := ""
  deriving DecidableEq, Repr

/-- `type EventTracker struct`. -/
structure EventTracker where
  capacity : Nat
  capacity_pos : 0 < capacity
  events : Fin capacity → FiberEvent
  /-- The index of the oldest event. -/
  head : Fin capacity
  /-- The index where the next event is written. -/
  tail : Fin capacity
  count : Nat
  count_le : count ≤ capacity

namespace EventTracker

variable (et : EventTracker)

/-- The index `n % et.capacity`. -/
def index (n : Nat) : Fin et.capacity := ⟨n % et.capacity, Nat.mod_lt n et.capacity_pos⟩

/-- `NewEventTracker`. -/
def new (capacity : Int) : EventTracker :=
  let size := if capacity ≤ 0 then 1000 else capacity.toNat
  have hsize : 0 < size := by
    dsimp only [size]
    split <;> omega
  ⟨size, hsize, fun _ => {}, ⟨0, hsize⟩, ⟨0, hsize⟩, 0, Nat.zero_le _⟩

/-- `RecordEvent`. -/
def recordEvent (event : FiberEvent) : EventTracker :=
  { et with
    events := fun i => if i = et.tail then event else et.events i
    tail := et.index (et.tail + 1)
    count := if et.count < et.capacity then et.count + 1 else et.count
    count_le := by
      have := et.count_le
      split <;> omega
    head := if et.count < et.capacity then et.head else et.index (et.head + 1) }

/-- `GetEvents`. -/
def getEvents : List FiberEvent :=
  (List.range et.count).map fun i => et.events (et.index (et.head + i))

/-- `((tail-1-i) % capacity + capacity) % capacity`, with Go's remainder. -/
def recentIndex (i : Nat) : Nat :=
  ((((et.tail : Int) - 1 - i).tmod et.capacity + et.capacity).tmod et.capacity).toNat

/-- `GetRecentEvents`; the loop fills the result from its end. -/
def getRecentEvents (n : Int) : List FiberEvent :=
  if n ≤ 0 ∨ et.count = 0 then []
  else
    let n := if (et.count : Int) < n then et.count else n.toNat
    (List.range n).map fun j => et.events (et.index (et.recentIndex (n - 1 - j)))

/-- `GetCount`. -/
def getCount : Nat := et.count

/-- `Clear`. -/
def clear : EventTracker :=
  { et with
    events := fun _ => {}
    head := ⟨0, et.capacity_pos⟩
    tail := ⟨0, et.capacity_pos⟩
    count := 0
    count_le := Nat.zero_le _ }

end EventTracker

end GreenThreads
