import GreenThreads.Metrics
import GreenThreads.Runtime.Deadlock
import GreenThreads.Runtime.Gauge

/-!
# GreenThreads — the counters a scrape sees (`Server.handleMetrics`)

The values of a scrape come from three places: the runtime's `Metrics`, the steal counters that
the work-stealing scheduler keeps itself, and two counters of the server. `Observed` is a
runtime with all three, and a step of it is a step of the runtime together with what that step
records, or an event the runtime's own model does not follow (steals, scans of the deadlock
detector, the server's counters).

`Reset` carries the counters of `Metrics` over in its offset, but makes a new histogram, and
`WorkStealingScheduler.Clear`, which both `Stop` and `Reset` call, sets the steal counters to
zero. Where neither throws anything away and the sum of the histogram does not wrap, no series
ever decreases.
-/

namespace GreenThreads.Web

open GreenThreads.Runtime (Config)

/-- A runtime and everything `handleMetrics` reads. -/
structure Observed where
  rt : Runtime.State
  metrics : Metrics
  /-- `stealAttempts` and `stealSuccess` of the work-stealing scheduler. -/
  stealAttempts : Nat
  stealSuccess : Nat
  /-- `spawnErrors` and `broadcastDropped` of the server. -/
  spawnErrors : Nat
  broadcastDropped : Nat

namespace Observed

/-- A server with a new runtime. -/
def new (rt : Runtime.State) : Observed := ⟨rt, {}, 0, 0, 0, 0⟩

/-! ## Steps -/

inductive Label where
  /-- A step of the runtime. The fiber whose completion it records, if any, has used `cpuTime`,
  and has panicked or not. -/
  | run (l : Runtime.Label) (cpuTime : Int) (panicked : Bool)
  /-- `Next` has found the queue it drew empty and counts the attempt. -/
  | stealAttempt
  /-- `Next` counts that it has stolen. -/
  | stealSuccess
  /-- A scan of the deadlock detector. -/
  | scan (blocked : Nat) (detected : Bool)
  /-- `handleSpawn` gets an error from `Spawn`. -/
  | spawnError
  /-- A client's send buffer is full. -/
  | broadcastDropped

/-- What a step of the runtime records. `complete` records a panic between `MarkCompleted` and
the removal of the fiber. -/
def record (s : Runtime.State) (cpuTime : Int) (panicked : Bool) (m : Metrics) :
    Runtime.Label → Metrics
  | .spawn f _ =>
    if (s.threads f).pc = .recordCreated then
      (m.recordFiberCreated (s.threads f).stackSize).recordScheduleCall
    else m
  | .go f drop =>
    match (s.threads f).go with
    | .recordCompleted => m.recordFiberCompleted f (s.threads f).stackSize cpuTime drop
    | .remove => if panicked then m.recordFiberPanic else m
    | _ => m
  | .loop .next =>
    match s.loop.pc with
    | .marking _ => m.recordContextSwitch
    | _ => m
  | .lifecycle =>
    match s.lifecycle with
    | .reapRecord _ f _ => m.recordFiberCancelled (s.threads f).stackSize
    | .resetMetrics => m.reset
    | _ => m
  | _ => m

/-- The step is the last section of `WorkStealingScheduler.Clear`. -/
def clearsSteals (c : Config) (s : Runtime.State) (l : Runtime.Label) : Bool :=
  match l, s.lifecycle with
  | .lifecycle, .clear _ w => c.kind = .workStealing ∧ c.numQueues ≤ w
  | _, _ => false

/-- The step is a `RecordFiberCompleted` that is not a repetition. -/
def recordsRun (o : Observed) : Runtime.Label → Bool
  | .go f _ => (o.rt.threads f).go = .recordCompleted ∧ f ∉ o.metrics.completed
  | _ => false

/-- One step. -/
def step (c : Config) (o : Observed) : Label → Option Observed
  | .run l cpuTime panicked =>
    (Runtime.step c o.rt l).map fun rt =>
      { o with
        rt := rt
        metrics := record o.rt cpuTime panicked o.metrics l
        stealAttempts := if clearsSteals c o.rt l then 0 else o.stealAttempts
        stealSuccess := if clearsSteals c o.rt l then 0 else o.stealSuccess }
  | .stealAttempt =>
    if c.kind = .workStealing ∧ o.rt.loop.pc = .looking then
      some { o with stealAttempts := o.stealAttempts + 1 }
    else none
  | .stealSuccess =>
    match c.kind, o.rt.loop.pc with
    | .workStealing, .holding _ => some { o with stealSuccess := o.stealSuccess + 1 }
    | _, _ => none
  | .scan blocked detected =>
    let m := o.metrics.setBlockedFibers blocked
    some { o with metrics := if detected then m.recordDeadlockDetected else m }
  | .spawnError => some { o with spawnErrors := o.spawnErrors + 1 }
  | .broadcastDropped => some { o with broadcastDropped := o.broadcastDropped + 1 }

/-! ## What a scrape shows -/

/-- `GetLifetimeMetrics`, with the steal counters and the admission counter injected. -/
def getLifetimeMetrics (c : Config) (o : Observed) : MetricsSnapshot :=
  let snap := o.metrics.getLifetimeSnapshot
  let snap := if c.kind = .workStealing then
      { snap with
        totalStealAttempts := o.stealAttempts
        totalStealSuccesses := o.stealSuccess }
    else snap
  { snap with activeFibers := max o.rt.activeFiberCount 0 }

end Observed

/-- The `# TYPE` of a metric. -/
inductive MetricType where
  | counter
  | gauge
  | histogram
  deriving DecidableEq, Repr

/-- One line of a scrape. A bucket carries its bound; the sum is in nanoseconds. -/
structure Series where
  name : String
  le : Option Int := none
  type : MetricType
  value : Int
  deriving DecidableEq, Repr

/-- `handleMetrics`, but for the gauges that are not numbers of this state: the steal success
rate, the uptime and those of the Go runtime. -/
def handleMetrics (c : Config) (o : Observed) : List Series :=
  let m := o.getLifetimeMetrics c
  let h := m.fiberRunHistogram
  [{ name := "greenthreads_runtime_running", type := .gauge, value := o.rt.isRunning.toNat },
   { name := "greenthreads_fibers_created", type := .counter, value := m.totalFibersCreated },
   { name := "greenthreads_fibers_completed", type := .counter, value := m.totalFibersCompleted },
   { name := "greenthreads_fibers_active", type := .gauge, value := m.activeFibers },
   { name := "greenthreads_fibers_blocked", type := .gauge, value := m.blockedFibers },
   { name := "greenthreads_context_switches", type := .counter, value := m.totalContextSwitches },
   { name := "greenthreads_fiber_yields", type := .counter, value := m.totalYields },
   { name := "greenthreads_steal_attempts", type := .counter, value := m.totalStealAttempts },
   { name := "greenthreads_steal_successes", type := .counter, value := m.totalStealSuccesses },
   { name := "greenthreads_peak_fiber_count", type := .gauge, value := m.peakFiberCount },
   { name := "greenthreads_total_stack_memory_bytes", type := .gauge, value := m.totalStackMemory },
   { name := "greenthreads_fiber_panics_total", type := .counter, value := m.totalFiberPanics },
   { name := "greenthreads_deadlocks_total", type := .counter, value := m.totalDeadlocksDetected },
   { name := "greenthreads_spawn_errors_total", type := .counter, value := o.spawnErrors },
   { name := "greenthreads_broadcast_messages_dropped_total", type := .counter,
     value := o.broadcastDropped }]
  ++ h.buckets.map (fun b =>
    { name := "greenthreads_fiber_run_seconds_bucket", le := some b.le, type := .histogram,
      value := b.count })
  ++ [{ name := "greenthreads_fiber_run_seconds_sum", type := .histogram, value := h.sum.val },
      { name := "greenthreads_fiber_run_seconds_count", type := .histogram, value := h.count }]

namespace Observed

/-! ## The runtime's own counts are these -/

/-- The part of `Metrics` that the runtime's model follows. -/
def ofMetrics (m : Metrics) : Runtime.Metrics :=
  ⟨m.totalFibersCreated, m.totalFibersCompleted, m.activeFibers, m.totalStackMemory, m.completed⟩

theorem ofMetrics_recordFiberCompleted (m : Metrics) (f : FiberID) (stackSize cpuTime : Int)
    (drop : Finset FiberID) :
    ofMetrics (m.recordFiberCompleted f stackSize cpuTime drop)
      = (ofMetrics m).recordFiberCompleted f stackSize drop := by
  unfold Metrics.recordFiberCompleted Runtime.Metrics.recordFiberCompleted
  by_cases hmem : f ∈ m.completed
  · rw [if_pos hmem, if_pos (show f ∈ (ofMetrics m).completed from hmem)]
  · rw [if_neg hmem, if_neg (show f ∉ (ofMetrics m).completed from hmem)]
    rfl

/-- Where the step records nothing of a fiber and is not the reset, the counts stay. -/
theorem ofMetrics_record_of_not_books {s : Runtime.State} {l : Runtime.Label}
    (hno : ∀ f, ¬ s.Books f l) (hreset : l = .lifecycle → s.lifecycle ≠ .resetMetrics)
    (cpuTime : Int) (panicked : Bool) (m : Metrics) :
    ofMetrics (record s cpuTime panicked m l) = ofMetrics m := by
  unfold record
  split
  · next f _ => rw [if_neg fun hpc => hno f (.created hpc)]
  · next f _ =>
    split
    · next hgo => exact absurd (.completed hgo) (hno f)
    · split <;> rfl
    · rfl
  · split <;> rfl
  · split
    · next f _ hl => exact absurd (.cancelled hl) (hno f)
    · next hl => exact absurd hl (hreset rfl)
    · rfl
  · rfl

/-- A step of the runtime records in `Metrics` what the runtime's model says it does. -/
theorem ofMetrics_record {c : Config} {s s' : Runtime.State} {l : Runtime.Label}
    (h : Runtime.step c s l = some s') (cpuTime : Int) (panicked : Bool) {m : Metrics}
    (hm : s.metrics = ofMetrics m) :
    s'.metrics = ofMetrics (record s cpuTime panicked m l) := by
  -- `Books` lists the steps that count a fiber; beside them only `Reset` writes the counts
  by_cases hno : ∀ f, ¬ s.Books f l
  · by_cases hreset : l = .lifecycle ∧ s.lifecycle = .resetMetrics
    · obtain ⟨rfl, hl⟩ := hreset
      simp only [Runtime.step, Runtime.State.lifecycleStep, hl, Option.some.injEq] at h
      simp only [record, hl, ← h]
      rfl
    · have hkeep : l = .lifecycle → s.lifecycle ≠ .resetMetrics :=
        fun hl hlife => hreset ⟨hl, hlife⟩
      rw [Runtime.State.step_metrics h hno hkeep, ofMetrics_record_of_not_books hno hkeep, hm]
  · push Not at hno
    obtain ⟨f, hf⟩ := hno
    cases hf with
    | created hpc =>
      simp only [Runtime.step, Runtime.State.spawnStep, hpc, Option.some.injEq] at h
      simp only [record, hpc, if_true, ← h]
      exact congrArg (Runtime.Metrics.recordFiberCreated · _) hm
    | completed hgo =>
      simp only [Runtime.step, Runtime.State.goStep, hgo] at h
      split_ifs at h
      simp only [Option.some.injEq] at h
      simp only [record, hgo, ← h, ofMetrics_recordFiberCompleted]
      exact congrArg (Runtime.Metrics.recordFiberCompleted · _ _ _) hm
    | cancelled hl =>
      simp only [Runtime.step, Runtime.State.lifecycleStep, hl, Option.some.injEq] at h
      simp only [record, hl, ← h]
      exact congrArg (Runtime.Metrics.release · _) hm

/-- What a step does to the runtime and to its metrics: a step of the runtime records, a scan of
the deadlock detector sets the gauge and may count an episode, and the others do neither. -/
theorem step_effect {c : Config} {o o' : Observed} {l : Label} (h : step c o l = some o') :
    (∃ rl cpuTime panicked, Runtime.step c o.rt rl = some o'.rt
        ∧ o'.metrics = record o.rt cpuTime panicked o.metrics rl)
      ∨ o'.rt = o.rt ∧ (o'.metrics = o.metrics
        ∨ ∃ n, o'.metrics = o.metrics.setBlockedFibers n
          ∨ o'.metrics = (o.metrics.setBlockedFibers n).recordDeadlockDetected) := by
  cases l with
  | run rl cpuTime panicked =>
    obtain ⟨rt, hrt, rfl⟩ := Option.map_eq_some_iff.mp h
    exact .inl ⟨rl, cpuTime, panicked, hrt, rfl⟩
  | stealAttempt | stealSuccess =>
    simp only [step] at h
    split at h <;> cases h
    exact .inr ⟨rfl, .inl rfl⟩
  | scan blocked detected =>
    cases h
    refine .inr ⟨rfl, .inr ⟨blocked, ?_⟩⟩
    cases detected with
    | false => exact .inl rfl
    | true => exact .inr rfl
  | spawnError | broadcastDropped =>
    cases h
    exact .inr ⟨rfl, .inl rfl⟩

/-- The counts of the runtime's model are those of `Metrics`. -/
def Agrees (o : Observed) : Prop := o.rt.metrics = ofMetrics o.metrics

theorem Agrees.step {c : Config} {o o' : Observed} {l : Label} (ha : o.Agrees)
    (h : step c o l = some o') : o'.Agrees := by
  unfold Agrees
  rcases step_effect h with ⟨rl, cpuTime, panicked, hrt, hm⟩ | ⟨hrt, hm | ⟨n, hm | hm⟩⟩
  · rw [hm]
    exact ofMetrics_record hrt cpuTime panicked ha
  all_goals
    rw [hrt, hm]
    exact ha

theorem agrees_of_reach {c : Config} {rt₀ : Runtime.State} {o : Observed}
    (h₀ : Runtime.Initial c rt₀) (h : Trans.Reach (step c) Trans.anyStep (new rt₀) o) :
    o.Agrees := by
  refine h.invariant ?_ fun _ _ _ ha _ hstep => ha.step hstep
  rcases h₀ with rfl | rfl <;> rfl

/-- A scan of the deadlock detector is a step. -/
theorem step_scan (c : Config) (o : Observed) (dd : Runtime.DeadlockDetector) (x : Runtime.Scan) :
    step c o (.scan x.blocked.length (dd.reports x))
      = some { o with metrics := (dd.checkForDeadlock o.metrics (some x)).2 } := rfl

/-! ## Growth -/

/-- Nothing a scrape shows as a counter or in the histogram has become less. -/
structure Le (o o' : Observed) : Prop where
  metrics : o.metrics.Le o'.metrics
  stealAttempts : o.stealAttempts ≤ o'.stealAttempts
  stealSuccess : o.stealSuccess ≤ o'.stealSuccess
  spawnErrors : o.spawnErrors ≤ o'.spawnErrors
  broadcastDropped : o.broadcastDropped ≤ o'.broadcastDropped

theorem Le.refl (o : Observed) : Le o o := ⟨.refl _, le_rfl, le_rfl, le_rfl, le_rfl⟩

/-- The step throws away no count: `Clear` finds the steal counters at zero and `Reset` the
histogram empty, and the sum of the histogram takes the run time that is recorded. -/
def KeepsCounts (c : Config) (o : Observed) : Label → Prop
  | .run l cpuTime _ =>
    (clearsSteals c o.rt l = true → o.stealAttempts = 0 ∧ o.stealSuccess = 0) ∧
      (l = .lifecycle → o.rt.lifecycle = .resetMetrics → o.metrics.fiberRunHistogram = .new) ∧
      (recordsRun o l = true → o.metrics.fiberRunHistogram.Fits cpuTime)
  | _ => True

instance (c : Config) (o : Observed) : (l : Label) → Decidable (KeepsCounts c o l)
  | .run _ _ _ => inferInstanceAs (Decidable (_ ∧ _))
  | .stealAttempt | .stealSuccess | .scan _ _ | .spawnError | .broadcastDropped => isTrue trivial

variable {c : Config} {o o' : Observed}

theorem le_record {l : Runtime.Label} {cpuTime : Int} (panicked : Bool)
    (hreset : l = .lifecycle → o.rt.lifecycle = .resetMetrics →
      o.metrics.fiberRunHistogram = .new)
    (hfits : recordsRun o l = true → o.metrics.fiberRunHistogram.Fits cpuTime) :
    o.metrics.Le (record o.rt cpuTime panicked o.metrics l) := by
  unfold record
  split
  · split
    · exact Metrics.le_recordFiberCreated _ |>.trans Metrics.le_recordScheduleCall
    · exact .refl _
  · split
    · next hgo =>
      exact Metrics.le_recordFiberCompleted (fun hnew => hfits (decide_eq_true ⟨hgo, hnew⟩)) _ _
    · split
      · exact Metrics.le_recordFiberPanic
      · exact .refl _
    · exact .refl _
  · split
    · exact Metrics.le_recordContextSwitch
    · exact .refl _
  · split
    · exact Metrics.le_recordFiberCancelled _
    · -- `Reset` moves the counts into the offsets, but has no offset for the histogram
      next hlife => exact Metrics.le_reset (hreset rfl hlife)
    · exact .refl _
  · exact .refl _

theorem step_le {l : Label} (hok : KeepsCounts c o l) (h : step c o l = some o') : o.Le o' := by
  cases l with
  | run l cpuTime panicked =>
    obtain ⟨rt, -, rfl⟩ := Option.map_eq_some_iff.mp h
    refine { Le.refl o with metrics := ?_, stealAttempts := ?_, stealSuccess := ?_ }
    · exact le_record panicked hok.2.1 hok.2.2
    · dsimp only
      split
      · next hclear => exact (hok.1 hclear).1.le
      · exact le_rfl
    · dsimp only
      split
      · next hclear => exact (hok.1 hclear).2.le
      · exact le_rfl
  | stealAttempt =>
    simp only [step] at h
    split at h
    · cases h
      exact { Le.refl o with stealAttempts := Nat.le_succ _ }
    · cases h
  | stealSuccess =>
    simp only [step] at h
    split at h
    · cases h
      exact { Le.refl o with stealSuccess := Nat.le_succ _ }
    · cases h
  | scan blocked detected =>
    cases h
    refine { Le.refl o with metrics := ?_ }
    dsimp only
    split
    · exact (Metrics.le_setBlockedFibers blocked).trans Metrics.le_recordDeadlockDetected
    · exact Metrics.le_setBlockedFibers blocked
  | spawnError =>
    cases h
    exact { Le.refl o with spawnErrors := Nat.le_succ _ }
  | broadcastDropped =>
    cases h
    exact { Le.refl o with broadcastDropped := Nat.le_succ _ }

theorem Le.trans {o o' o'' : Observed} (h : o.Le o') (h' : o'.Le o'') : o.Le o'' where
  metrics := h.metrics.trans h'.metrics
  stealAttempts := h.stealAttempts.trans h'.stealAttempts
  stealSuccess := h.stealSuccess.trans h'.stealSuccess
  spawnErrors := h.spawnErrors.trans h'.spawnErrors
  broadcastDropped := h.broadcastDropped.trans h'.broadcastDropped

theorem le_of_reach (h : Trans.Reach (step c) (KeepsCounts c) o o') : o.Le o' :=
  h.invariant (.refl o) fun _ _ _ hle hok hstep => hle.trans (step_le hok hstep)

/-- Nothing calls `RecordStealAttempt`: only the scheduler counts steals. -/
def NoSteals (o : Observed) : Prop :=
  o.metrics.totalStealAttempts = 0 ∧ o.metrics.totalStealSuccesses = 0

theorem noSteals_record {s : Runtime.State} {m : Metrics}
    (hm : m.totalStealAttempts = 0 ∧ m.totalStealSuccesses = 0) (cpuTime : Int) (panicked : Bool)
    (l : Runtime.Label) :
    (record s cpuTime panicked m l).totalStealAttempts = 0
      ∧ (record s cpuTime panicked m l).totalStealSuccesses = 0 := by
  unfold record
  split
  · split <;> exact hm
  · split
    · unfold Metrics.recordFiberCompleted
      split <;> exact hm
    · split <;> exact hm
    · exact hm
  · split <;> exact hm
  · split
    · exact hm
    · exact ⟨rfl, rfl⟩
    · exact hm
  · exact hm

theorem NoSteals.step {l : Label} (hn : o.NoSteals) (h : step c o l = some o') :
    o'.NoSteals := by
  unfold NoSteals
  rcases step_effect h with ⟨rl, cpuTime, panicked, -, hm⟩ | ⟨-, hm | ⟨n, hm | hm⟩⟩
  · rw [hm]
    exact noSteals_record hn cpuTime panicked rl
  all_goals
    rw [hm]
    exact hn

end Observed

/-! ## Two scrapes -/

/-- The same series in two scrapes: unless it is a gauge, its value has not decreased. -/
structure Series.Le (a b : Series) : Prop where
  name : a.name = b.name
  le : a.le = b.le
  type : a.type = b.type
  value : a.type ≠ .gauge → a.value ≤ b.value

theorem Series.le_gauge {n : String} (v v' : Int) :
    Le { name := n, type := .gauge, value := v } { name := n, type := .gauge, value := v' } :=
  ⟨rfl, rfl, rfl, fun h => absurd rfl h⟩

theorem Series.le_value {n : String} {le : Option Int} {t : MetricType} {v v' : Int}
    (h : v ≤ v') : Le ⟨n, le, t, v⟩ ⟨n, le, t, v'⟩ :=
  ⟨rfl, rfl, rfl, fun _ => h⟩

namespace Observed

variable {c : Config} {o o' : Observed}

theorem Le.steals (h : o.Le o') (hn : o.NoSteals) :
    (o.getLifetimeMetrics c).totalStealAttempts ≤ (o'.getLifetimeMetrics c).totalStealAttempts
      ∧ (o.getLifetimeMetrics c).totalStealSuccesses
        ≤ (o'.getLifetimeMetrics c).totalStealSuccesses := by
  unfold getLifetimeMetrics
  split
  · exact ⟨h.stealAttempts, h.stealSuccess⟩
  · -- the other schedulers inject nothing, so the scrape shows the zeros of `Metrics`
    exact ⟨hn.1.le.trans (Nat.zero_le _), hn.2.le.trans (Nat.zero_le _)⟩

/-- The values that do not depend on the kind of the scheduler. -/
theorem getLifetimeMetrics_counts (o : Observed) :
    (o.getLifetimeMetrics c).totalFibersCreated
        = o.metrics.totalFibersCreated + o.metrics.resetOffset.fibersCreated
      ∧ (o.getLifetimeMetrics c).totalFibersCompleted
        = o.metrics.totalFibersCompleted + o.metrics.resetOffset.fibersCompleted
      ∧ (o.getLifetimeMetrics c).totalContextSwitches
        = o.metrics.totalContextSwitches + o.metrics.resetOffset.contextSwitches
      ∧ (o.getLifetimeMetrics c).totalYields
        = o.metrics.totalYields + o.metrics.resetOffset.yields
      ∧ (o.getLifetimeMetrics c).totalFiberPanics = o.metrics.totalFiberPanics
      ∧ (o.getLifetimeMetrics c).totalDeadlocksDetected = o.metrics.totalDeadlocksDetected
      ∧ (o.getLifetimeMetrics c).fiberRunHistogram = o.metrics.fiberRunHistogram := by
  unfold getLifetimeMetrics
  split <;> exact ⟨rfl, rfl, rfl, rfl, rfl, rfl, rfl⟩

theorem Le.handleMetrics (h : o.Le o') (hn : o.NoSteals) :
    List.Forall₂ Series.Le (handleMetrics c o) (handleMetrics c o') := by
  obtain ⟨hattempts, hsuccesses⟩ := h.steals (c := c) hn
  obtain ⟨hcr, hco, hsw, hyi, hpa, hde, hhi⟩ := getLifetimeMetrics_counts (c := c) o
  obtain ⟨hcr', hco', hsw', hyi', hpa', hde', hhi'⟩ := getLifetimeMetrics_counts (c := c) o'
  unfold Web.handleMetrics
  dsimp only
  rw [hcr, hco, hsw, hyi, hpa, hde, hhi, hcr', hco', hsw', hyi', hpa', hde', hhi']
  -- the single values, the buckets, and the sum and count of the histogram
  refine List.rel_append (List.rel_append ?_ ?_) ?_
  · refine .cons (Series.le_gauge _ _) (.cons (Series.le_value ?_) (.cons (Series.le_value ?_)
      (.cons (Series.le_gauge _ _) (.cons (Series.le_gauge _ _) (.cons (Series.le_value ?_)
      (.cons (Series.le_value ?_) (.cons (Series.le_value ?_) (.cons (Series.le_value ?_)
      (.cons (Series.le_gauge _ _) (.cons (Series.le_gauge _ _) (.cons (Series.le_value ?_)
      (.cons (Series.le_value ?_) (.cons (Series.le_value ?_) (.cons (Series.le_value ?_)
      .nil))))))))))))))
    · exact Int.ofNat_le.mpr h.metrics.created
    · exact Int.ofNat_le.mpr h.metrics.completed
    · exact Int.ofNat_le.mpr h.metrics.switches
    · exact Int.ofNat_le.mpr h.metrics.yields
    · exact Int.ofNat_le.mpr hattempts
    · exact Int.ofNat_le.mpr hsuccesses
    · exact Int.ofNat_le.mpr h.metrics.panics
    · exact Int.ofNat_le.mpr h.metrics.deadlocks
    · exact Int.ofNat_le.mpr h.spawnErrors
    · exact Int.ofNat_le.mpr h.broadcastDropped
  · rw [List.forall₂_map_left_iff, List.forall₂_map_right_iff]
    refine h.metrics.histogram.buckets.imp fun b b' hb => ?_
    rw [hb.1]
    exact Series.le_value (Int.ofNat_le.mpr hb.2)
  · refine .cons (Series.le_value h.metrics.histogram.sum)
      (.cons (Series.le_value (Int.ofNat_le.mpr h.metrics.histogram.count)) .nil)

/-- Between two scrapes of a reachable state no counter and no value of the histogram decreases,
if no step between them throws a count away. -/
theorem counters_never_decrease {rt₀ : Runtime.State} {o₁ o₂ : Observed}
    (h₁ : Trans.Reach (step c) Trans.anyStep (new rt₀) o₁)
    (h₂ : Trans.Reach (step c) (KeepsCounts c) o₁ o₂) :
    List.Forall₂ Series.Le (handleMetrics c o₁) (handleMetrics c o₂) := by
  have hn : o₁.NoSteals := h₁.invariant ⟨rfl, rfl⟩ fun _ _ _ hn _ hstep => hn.step hstep
  exact (le_of_reach h₂).handleMetrics hn

/-- The value of a series without a bound. -/
def value (c : Config) (o : Observed) (name : String) : Option Int :=
  ((handleMetrics c o).find? fun x => x.name = name).map (·.value)

/-- Steps of the runtime in which fibers use 5 ns and do not panic. -/
def runs (ls : List Runtime.Label) : List Label := ls.map fun l => .run l 5 false

/-- A fiber completes before the first scrape; the runtime is stopped and started again, and a
second fiber completes before the second. -/
theorem counters_never_decrease_restart :
    ∃ o₁ o₂,
      Trans.Reach (step (.ofNewRuntime .fifo 1)) Trans.anyStep
        (new (.new (.ofNewRuntime .fifo 1))) o₁
      ∧ Trans.Reach (step (.ofNewRuntime .fifo 1)) (KeepsCounts (.ofNewRuntime .fifo 1)) o₁ o₂
      ∧ value (.ofNewRuntime .fifo 1) o₁ "greenthreads_fiber_run_seconds_count" = some 1
      ∧ value (.ofNewRuntime .fifo 1) o₂ "greenthreads_fiber_run_seconds_count" = some 2
      ∧ List.Forall₂ Series.Le (handleMetrics (.ofNewRuntime .fifo 1) o₁)
        (handleMetrics (.ofNewRuntime .fifo 1) o₂) := by
  obtain ⟨o₁, o₂, h₁, h₂, htest⟩ := Trans.exists_reach_pair_of_exec
    (step (.ofNewRuntime .fifo 1)) (KeepsCounts (.ofNewRuntime .fifo 1))
    (new (.new (.ofNewRuntime .fifo 1)))
    (runs (List.flatten [Runtime.Label.startTrace, [.call false 0],
      Runtime.Label.spawnTrace 0 9, Runtime.Label.dispatchTrace 0,
      List.replicate 6 (.go 0 ∅), [.loop .next, .loop .result]]))
    (runs (List.flatten [Runtime.Label.stopTrace 5, Runtime.Label.startTrace, [.call false 0],
      Runtime.Label.spawnTrace 1 9, Runtime.Label.dispatchTrace 1, List.replicate 6 (.go 1 ∅)]))
    (fun o₁ o₂ => decide
      (value (.ofNewRuntime .fifo 1) o₁ "greenthreads_fiber_run_seconds_count" = some 1
        ∧ value (.ofNewRuntime .fifo 1) o₂ "greenthreads_fiber_run_seconds_count" = some 2))
    (by decide +kernel)
  obtain ⟨hone, htwo⟩ := of_decide_eq_true htest
  exact ⟨o₁, o₂, h₁, h₂, hone, htwo, counters_never_decrease h₁ h₂⟩

/-- `Reset` empties the histogram, and a `Stop` clears the steal counters. -/
theorem counters_decrease :
    (∃ o₁ o₂,
      Trans.Reach (step (.ofNewRuntime .fifo 1)) Trans.anyStep
        (new (.new (.ofNewRuntime .fifo 1))) o₁
      ∧ Trans.Reach (step (.ofNewRuntime .fifo 1)) Trans.anyStep o₁ o₂
      ∧ value (.ofNewRuntime .fifo 1) o₁ "greenthreads_fiber_run_seconds_count" = some 1
      ∧ value (.ofNewRuntime .fifo 1) o₂ "greenthreads_fiber_run_seconds_count" = some 0)
    ∧ ∃ o₁ o₂,
      Trans.Reach (step (.ofNewRuntime .workStealing 1)) Trans.anyStep
        (new (.new (.ofNewRuntime .workStealing 1))) o₁
      ∧ Trans.Reach (step (.ofNewRuntime .workStealing 1)) Trans.anyStep o₁ o₂
      ∧ value (.ofNewRuntime .workStealing 1) o₁ "greenthreads_steal_attempts" = some 1
      ∧ value (.ofNewRuntime .workStealing 1) o₂ "greenthreads_steal_attempts" = some 0 := by
  constructor
  · obtain ⟨o₁, o₂, h₁, h₂, htest⟩ := Trans.exists_reach_pair_of_exec
      (step (.ofNewRuntime .fifo 1)) Trans.anyStep (new (.new (.ofNewRuntime .fifo 1)))
      (runs (List.flatten [Runtime.Label.startTrace, [.call false 0],
        Runtime.Label.spawnTrace 0 9, Runtime.Label.dispatchTrace 0,
        List.replicate 6 (.go 0 ∅), [.loop .next, .loop .result]]))
      (runs (List.flatten [Runtime.Label.stopTrace 5, [.reset], List.replicate 4 .lifecycle]))
      (fun o₁ o₂ => decide
        (value (.ofNewRuntime .fifo 1) o₁ "greenthreads_fiber_run_seconds_count" = some 1
          ∧ value (.ofNewRuntime .fifo 1) o₂ "greenthreads_fiber_run_seconds_count" = some 0))
      (by decide +kernel)
    obtain ⟨hone, hzero⟩ := of_decide_eq_true htest
    exact ⟨o₁, o₂, h₁, h₂, hone, hzero⟩
  · obtain ⟨o₁, o₂, h₁, h₂, htest⟩ := Trans.exists_reach_pair_of_exec
      (step (.ofNewRuntime .workStealing 1)) Trans.anyStep
      (new (.new (.ofNewRuntime .workStealing 1)))
      (List.flatten [runs Runtime.Label.startTrace,
        runs [.loop .tick, .loop .next, .loop (.look 0 none)], [.stealAttempt]])
      (runs (.loop .noFibers :: Runtime.Label.stopTrace 3))
      (fun o₁ o₂ => decide
        (value (.ofNewRuntime .workStealing 1) o₁ "greenthreads_steal_attempts" = some 1
          ∧ value (.ofNewRuntime .workStealing 1) o₂ "greenthreads_steal_attempts" = some 0))
      (by decide +kernel)
    obtain ⟨hone, hzero⟩ := of_decide_eq_true htest
    exact ⟨o₁, o₂, h₁, h₂, hone, hzero⟩

end Observed

end GreenThreads.Web
