import GreenThreads.Fiber
import GreenThreads.Lib.GoInt
import Mathlib.Data.Finset.Insert
import Mathlib.Data.Finset.SDiff
import Mathlib.Data.List.Forall2

/-!
# GreenThreads — metrics (`internal/metrics/metrics.go`)

`Metrics` with the counters and gauges that are exposed, its histogram of run times, and the two
snapshots. Every method takes `m.mu` for the whole of its effect, so it is one function here.
Counts stay far below 2^63 and are numbers without a bound; durations are in nanoseconds, and
their sum is an `int64` that wraps.

`Metrics.Le` compares two states by what the lifetime snapshot shows of them: each method raises
it, and `Reset` does where it throws away an empty histogram.

Left out: the time stamps, the averages and the CPU total, which no series is made of.
-/

namespace GreenThreads

/-! ## The histogram -/

/-- `type LatencyBucket struct`. -/
structure LatencyBucket where
  le : Int
  count : Nat := 0
  deriving DecidableEq, Repr

/-- `type LatencyHistogram struct`. -/
structure LatencyHistogram where
  buckets : List LatencyBucket
  sum : GoInt .w64
  count : Nat
  deriving DecidableEq, Repr

namespace LatencyHistogram

/-- `histogramBounds`: 1ms, 10ms, 100ms, 1s, 10s and 60s. -/
def histogramBounds : List Int :=
  [1000000, 10000000, 100000000, 1000000000, 10000000000, 60000000000]

/-- `time.Duration(1<<63 - 1)`, the bound of the last bucket. -/
def infinite : Int := 9223372036854775807

/-- `NewLatencyHistogram`. -/
def new : LatencyHistogram :=
  ⟨(histogramBounds ++ [infinite]).map fun le => { le := le }, 0, 0⟩

/-- The loop of `Record`: the first bucket that takes `d`, and all above it, count it. -/
def bump (d : Int) : List LatencyBucket → List LatencyBucket
  | [] => []
  | b :: rest =>
    if d ≤ b.le then (b :: rest).map fun b => { b with count := b.count + 1 }
    else b :: bump d rest

/-- `Record`. -/
def record (h : LatencyHistogram) (d : Int) : LatencyHistogram :=
  ⟨bump d h.buckets, .wrap .w64 (h.sum.val + d), h.count + 1⟩

/-- The sum takes `d` without a wrap. -/
def Fits (h : LatencyHistogram) (d : Int) : Prop := h.sum.val + d ≤ IntSize.w64.maxVal

instance (h : LatencyHistogram) (d : Int) : Decidable (h.Fits d) :=
  inferInstanceAs (Decidable (_ ≤ _))

/-- A bucket at a later time. -/
def BucketLe (b b' : LatencyBucket) : Prop := b.le = b'.le ∧ b.count ≤ b'.count

/-- The same buckets, with nothing lost. -/
structure Le (h h' : LatencyHistogram) : Prop where
  buckets : List.Forall₂ BucketLe h.buckets h'.buckets
  sum : h.sum.val ≤ h'.sum.val
  count : h.count ≤ h'.count

theorem BucketLe.refl (b : LatencyBucket) : BucketLe b b := ⟨rfl, Nat.le_refl _⟩

theorem Le.refl (h : LatencyHistogram) : Le h h where
  buckets := List.forall₂_same.mpr fun b _ => .refl b
  sum := le_rfl
  count := le_rfl

theorem buckets_trans {bs bs' bs'' : List LatencyBucket} (h : List.Forall₂ BucketLe bs bs')
    (h' : List.Forall₂ BucketLe bs' bs'') : List.Forall₂ BucketLe bs bs'' := by
  induction h generalizing bs'' with
  | nil => exact h'
  | cons hb _ ih =>
    cases h' with
    | cons hb' hbs' => exact .cons ⟨hb.1.trans hb'.1, hb.2.trans hb'.2⟩ (ih hbs')

theorem Le.trans {h h' h'' : LatencyHistogram} (h₁ : Le h h') (h₂ : Le h' h'') : Le h h'' where
  buckets := buckets_trans h₁.buckets h₂.buckets
  sum := h₁.sum.trans h₂.sum
  count := h₁.count.trans h₂.count

theorem bump_le (d : Int) (bs : List LatencyBucket) : List.Forall₂ BucketLe bs (bump d bs) := by
  induction bs with
  | nil => exact .nil
  | cons b bs ih =>
    unfold bump
    split
    · rw [List.forall₂_map_right_iff]
      exact List.forall₂_same.mpr fun b _ => ⟨rfl, Nat.le_succ _⟩
    · exact .cons (.refl b) ih

/-- A positive observation adds to everything, if the sum can take it. -/
theorem record_le (h : LatencyHistogram) {d : Int} (hd : 0 < d) (hfits : h.Fits d) :
    Le h (h.record d) where
  buckets := bump_le d h.buckets
  sum := by
    have hlow : IntSize.w64.minVal ≤ h.sum.val + d := h.sum.min_le.trans (by omega)
    change h.sum.val ≤ (GoInt.wrap .w64 (h.sum.val + d)).val
    rw [GoInt.wrap_val hlow hfits]
    omega
  count := Nat.le_succ _

end LatencyHistogram

/-! ## Metrics -/

/-- `type counterOffset struct`. -/
structure CounterOffset where
  fibersCreated : Nat := 0
  fibersCompleted : Nat := 0
  contextSwitches : Nat := 0
  yields : Nat := 0
  scheduleCalls : Nat := 0
  deriving DecidableEq, Repr

/-- `type Metrics struct`. -/
structure Metrics where
  totalFibersCreated : Nat := 0
  totalFibersCompleted : Nat := 0
  activeFibers : Nat := 0
  blockedFibers : Nat := 0
  totalContextSwitches : Nat := 0
  totalScheduleCalls : Nat := 0
  totalYields : Nat := 0
  totalFiberPanics : Nat := 0
  totalDeadlocksDetected : Nat := 0
  totalStealAttempts : Nat := 0
  totalStealSuccesses : Nat := 0
  peakFiberCount : Nat := 0
  totalStackMemory : Int := 0
  fiberRunHistogram : LatencyHistogram := .new
  completed : Finset FiberID := ∅
  resetOffset : CounterOffset := {}

/-- `type MetricsSnapshot struct`. -/
structure MetricsSnapshot where
  totalFibersCreated : Nat
  totalFibersCompleted : Nat
  activeFibers : Int
  blockedFibers : Nat
  totalContextSwitches : Nat
  totalScheduleCalls : Nat
  totalYields : Nat
  totalFiberPanics : Nat
  totalDeadlocksDetected : Nat
  totalStealAttempts : Nat
  totalStealSuccesses : Nat
  peakFiberCount : Nat
  totalStackMemory : Int
  fiberRunHistogram : LatencyHistogram

namespace Metrics

variable (m : Metrics)

/-- `RecordFiberCreated`. -/
def recordFiberCreated (stackSize : Int) : Metrics :=
  { m with
    totalFibersCreated := m.totalFibersCreated + 1
    activeFibers := m.activeFibers + 1
    totalStackMemory := m.totalStackMemory + stackSize
    peakFiberCount := max m.peakFiberCount (m.activeFibers + 1) }

/-- `RecordFiberCancelled`; a gauge that is too small is left alone. -/
def recordFiberCancelled (stackSize : Int) : Metrics :=
  { m with
    activeFibers := m.activeFibers - 1
    totalStackMemory :=
      if stackSize ≤ m.totalStackMemory then m.totalStackMemory - stackSize
      else m.totalStackMemory }

/-- `RecordFiberCompleted` of a fiber with CPU time `cpuTime`; `drop` is what it trims from
`completed`. -/
def recordFiberCompleted (f : FiberID) (stackSize cpuTime : Int) (drop : Finset FiberID) :
    Metrics :=
  if f ∈ m.completed then m
  else
    { m.recordFiberCancelled stackSize with
      completed := insert f m.completed \ drop
      totalFibersCompleted := m.totalFibersCompleted + 1
      fiberRunHistogram :=
        if 0 < cpuTime then m.fiberRunHistogram.record cpuTime else m.fiberRunHistogram }

/-- `RecordFiberBlocked`. -/
def recordFiberBlocked : Metrics := { m with blockedFibers := m.blockedFibers + 1 }

/-- `RecordFiberUnblocked`. -/
def recordFiberUnblocked : Metrics := { m with blockedFibers := m.blockedFibers - 1 }

/-- `SetBlockedFibers`. -/
def setBlockedFibers (n : Nat) : Metrics := { m with blockedFibers := n }

/-- `RecordContextSwitch`. -/
def recordContextSwitch : Metrics :=
  { m with totalContextSwitches := m.totalContextSwitches + 1 }

/-- `RecordScheduleCall`. -/
def recordScheduleCall : Metrics := { m with totalScheduleCalls := m.totalScheduleCalls + 1 }

/-- `RecordFiberPanic`. -/
def recordFiberPanic : Metrics := { m with totalFiberPanics := m.totalFiberPanics + 1 }

/-- `RecordDeadlockDetected`. -/
def recordDeadlockDetected : Metrics :=
  { m with totalDeadlocksDetected := m.totalDeadlocksDetected + 1 }

/-- `RecordYield`. -/
def recordYield : Metrics := { m with totalYields := m.totalYields + 1 }

/-- `RecordStealAttempt`. -/
def recordStealAttempt (success : Bool) : Metrics :=
  { m with
    totalStealAttempts := m.totalStealAttempts + 1
    totalStealSuccesses := m.totalStealSuccesses + success.toNat }

/-- `Reset`: the counters go into the offset; panics and deadlocks are never reset. -/
def reset : Metrics :=
  { totalFiberPanics := m.totalFiberPanics
    totalDeadlocksDetected := m.totalDeadlocksDetected
    resetOffset :=
      { fibersCreated := m.resetOffset.fibersCreated + m.totalFibersCreated
        fibersCompleted := m.resetOffset.fibersCompleted + m.totalFibersCompleted
        contextSwitches := m.resetOffset.contextSwitches + m.totalContextSwitches
        yields := m.resetOffset.yields + m.totalYields
        scheduleCalls := m.resetOffset.scheduleCalls + m.totalScheduleCalls } }

/-- `snapshotLocked`. -/
def snapshotLocked (lifetime : Bool) : MetricsSnapshot :=
  let offset := if lifetime then m.resetOffset else {}
  { totalFibersCreated := m.totalFibersCreated + offset.fibersCreated
    totalFibersCompleted := m.totalFibersCompleted + offset.fibersCompleted
    activeFibers := m.activeFibers
    blockedFibers := m.blockedFibers
    totalContextSwitches := m.totalContextSwitches + offset.contextSwitches
    totalScheduleCalls := m.totalScheduleCalls + offset.scheduleCalls
    totalYields := m.totalYields + offset.yields
    totalFiberPanics := m.totalFiberPanics
    totalDeadlocksDetected := m.totalDeadlocksDetected
    totalStealAttempts := m.totalStealAttempts
    totalStealSuccesses := m.totalStealSuccesses
    peakFiberCount := m.peakFiberCount
    totalStackMemory := m.totalStackMemory
    fiberRunHistogram := m.fiberRunHistogram }

/-- `GetSnapshot`. -/
def getSnapshot : MetricsSnapshot := m.snapshotLocked false

/-- `GetLifetimeSnapshot`. -/
def getLifetimeSnapshot : MetricsSnapshot := m.snapshotLocked true

/-! ## Growth -/

/-- Nothing that the lifetime snapshot counts has become less. The steal counters are left out:
the runtime overwrites them with the scheduler's. -/
structure Le (m m' : Metrics) : Prop where
  created : m.totalFibersCreated + m.resetOffset.fibersCreated
    ≤ m'.totalFibersCreated + m'.resetOffset.fibersCreated
  completed : m.totalFibersCompleted + m.resetOffset.fibersCompleted
    ≤ m'.totalFibersCompleted + m'.resetOffset.fibersCompleted
  switches : m.totalContextSwitches + m.resetOffset.contextSwitches
    ≤ m'.totalContextSwitches + m'.resetOffset.contextSwitches
  yields : m.totalYields + m.resetOffset.yields ≤ m'.totalYields + m'.resetOffset.yields
  panics : m.totalFiberPanics ≤ m'.totalFiberPanics
  deadlocks : m.totalDeadlocksDetected ≤ m'.totalDeadlocksDetected
  histogram : m.fiberRunHistogram.Le m'.fiberRunHistogram

variable {m}

theorem Le.refl (m : Metrics) : Le m m :=
  ⟨le_rfl, le_rfl, le_rfl, le_rfl, le_rfl, le_rfl, .refl _⟩

theorem Le.trans {m m' m'' : Metrics} (h : Le m m') (h' : Le m' m'') : Le m m'' where
  created := h.created.trans h'.created
  completed := h.completed.trans h'.completed
  switches := h.switches.trans h'.switches
  yields := h.yields.trans h'.yields
  panics := h.panics.trans h'.panics
  deadlocks := h.deadlocks.trans h'.deadlocks
  histogram := h.histogram.trans h'.histogram

theorem le_recordFiberCreated (stackSize : Int) : Le m (m.recordFiberCreated stackSize) :=
  { Le.refl m with created := by simp only [recordFiberCreated]; omega }

theorem le_recordFiberCancelled (stackSize : Int) : Le m (m.recordFiberCancelled stackSize) :=
  { Le.refl m with }

theorem le_recordFiberCompleted {f : FiberID} {cpuTime : Int}
    (hfits : f ∉ m.completed → m.fiberRunHistogram.Fits cpuTime) (stackSize : Int)
    (drop : Finset FiberID) : Le m (m.recordFiberCompleted f stackSize cpuTime drop) := by
  unfold recordFiberCompleted
  split
  · exact .refl m
  next hnew =>
  refine { Le.refl m with completed := ?_, histogram := ?_ }
  · dsimp only [recordFiberCancelled]
    omega
  · dsimp only
    split
    · next hcpu => exact m.fiberRunHistogram.record_le hcpu (hfits hnew)
    · exact .refl _

theorem le_setBlockedFibers (n : Nat) : Le m (m.setBlockedFibers n) := { Le.refl m with }

theorem le_recordContextSwitch : Le m m.recordContextSwitch :=
  { Le.refl m with switches := by simp only [recordContextSwitch]; omega }

theorem le_recordScheduleCall : Le m m.recordScheduleCall := { Le.refl m with }

theorem le_recordFiberPanic : Le m m.recordFiberPanic :=
  { Le.refl m with panics := Nat.le_succ _ }

theorem le_recordDeadlockDetected : Le m m.recordDeadlockDetected :=
  { Le.refl m with deadlocks := Nat.le_succ _ }

/-- `Reset` keeps the lifetime counters, and what it does to the histogram does not show if the
histogram is empty. -/
theorem le_reset (h : m.fiberRunHistogram = .new) : Le m m.reset where
  created := by simp only [reset]; omega
  completed := by simp only [reset]; omega
  switches := by simp only [reset]; omega
  yields := by simp only [reset]; omega
  panics := le_rfl
  deadlocks := le_rfl
  histogram := by
    rw [h]
    exact .refl _

end Metrics

end GreenThreads
