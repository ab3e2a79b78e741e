import GreenThreads.Histogram
import GreenThreads.Lib.Trans
import Mathlib.Data.Finset.Card

/-!
# GreenThreads — counters of a run and of a lifetime (`internal/metrics/metrics.go`)

`Reset` moves five counters into `resetOffset` and starts them again at zero. `GetSnapshot` shows
the counters as they are, `GetLifetimeSnapshot` adds the offset. The module says what both have to
do with the calls that were made, over any sequence of calls on one `Metrics`.

`RecordFiberCompleted` counts a fiber once, as long as `completed` remembers it. The map is trimmed
when it holds more than `maxCompletedTracked` IDs, in the order in which Go goes over it, and
`Reset` replaces it.

* `Metrics.Call`, `Metrics.call` — the methods that write, as steps;
* `Recorder` — a `Metrics` with the calls that were made on it;
* `Recorder.Booked` — what the counters, the map and the histogram hold, told from the calls;
* `Recorder.lifetime_counts` — the two snapshots in every run.

Every method takes `m.mu`, so calls come one after the other.
-/

namespace GreenThreads

open Trans (Reach anyStep exists_reach_of_exec)

/-! ## The five counters -/

/-- The counters that `resetOffset` carries on. -/
inductive Metrics.Counter where
  | fibersCreated
  | fibersCompleted
  | contextSwitches
  | scheduleCalls
  | yields
  deriving DecidableEq, Repr

def CounterOffset.read (o : CounterOffset) : Metrics.Counter → Nat
  | .fibersCreated => o.fibersCreated
  | .fibersCompleted => o.fibersCompleted
  | .contextSwitches => o.contextSwitches
  | .scheduleCalls => o.scheduleCalls
  | .yields => o.yields

def MetricsSnapshot.read (s : MetricsSnapshot) : Metrics.Counter → Nat
  | .fibersCreated => s.totalFibersCreated
  | .fibersCompleted => s.totalFibersCompleted
  | .contextSwitches => s.totalContextSwitches
  | .scheduleCalls => s.totalScheduleCalls
  | .yields => s.totalYields

namespace Metrics

/-! ## Calls -/

/-- What `RecordFiberCompleted` reads of a fiber. -/
structure FiberReading where
  id : FiberID
  stackSize : Int
  cpuTime : Int
  deriving DecidableEq, Repr

/-- `const maxCompletedTracked`. -/
def maxCompletedTracked : Nat := 16384

/-- What `RecordFiberCompleted` may drop: `trimCompletedMap` cuts the map down to half of
`maxCompletedTracked` once it is larger than that. -/
def Trims (completed drop : Finset FiberID) : Prop :=
  drop ⊆ completed ∧ drop.card =
    if maxCompletedTracked < completed.card then completed.card - maxCompletedTracked / 2 else 0

instance (completed drop : Finset FiberID) : Decidable (Trims completed drop) :=
  inferInstanceAs (Decidable (_ ∧ _))

/-- A call of a method that writes. -/
inductive Call where
  | fiberCreated (stackSize : Int)
  /-- `none` is a nil fiber; `drop` is what is trimmed. -/
  | fiberCompleted (fiber : Option FiberReading) (drop : Finset FiberID)
  | fiberCancelled (stackSize : Int)
  | fiberBlocked
  | fiberUnblocked
  | setBlockedFibers (n : Nat)
  | contextSwitch
  | scheduleCall
  | fiberPanic
  | deadlockDetected
  | yield
  | stealAttempt (success : Bool)
  | reset

def Call.isReset : Call → Bool
  | .reset => true
  | _ => false

section

variable (m : Metrics)

/-- The fiber that the call counts as completed: `RecordFiberCompleted` has not returned early. -/
def accepts : Call → Option FiberReading
  | .fiberCompleted (some f) _ => if f.id ∈ m.completed then none else some f
  | _ => none

def call : Call → Option Metrics
  | .fiberCreated stackSize => some (m.recordFiberCreated stackSize)
  | .fiberCompleted none _ => some m
  | .fiberCompleted (some f) drop =>
    -- a fiber that is in the map is passed over before anything is trimmed
    if f.id ∈ m.completed ∨ Trims (insert f.id m.completed) drop then
      some (m.recordFiberCompleted f.id f.stackSize f.cpuTime drop)
    else none
  | .fiberCancelled stackSize => some (m.recordFiberCancelled stackSize)
  | .fiberBlocked => some m.recordFiberBlocked
  | .fiberUnblocked => some m.recordFiberUnblocked
  | .setBlockedFibers n => some (m.setBlockedFibers n)
  | .contextSwitch => some m.recordContextSwitch
  | .scheduleCall => some m.recordScheduleCall
  | .fiberPanic => some m.recordFiberPanic
  | .deadlockDetected => some m.recordDeadlockDetected
  | .yield => some m.recordYield
  | .stealAttempt success => some (m.recordStealAttempt success)
  | .reset => some m.reset

end

/-- A call that was made, with the fiber it counted as completed. -/
structure Entry where
  call : Call
  accepted : Option FiberReading

/-- The counter that the call is one more for. -/
def Entry.counter (e : Entry) : Option Counter :=
  match e.call with
  | .fiberCreated _ => some .fibersCreated
  | .fiberCompleted _ _ => if e.accepted.isSome then some .fibersCompleted else none
  | .contextSwitch => some .contextSwitches
  | .scheduleCall => some .scheduleCalls
  | .yield => some .yields
  | .fiberCancelled _ | .fiberBlocked | .fiberUnblocked | .setBlockedFibers _ | .fiberPanic
  | .deadlockDetected | .stealAttempt _ | .reset => none

/-! ## What one call does -/

variable {m m' : Metrics} {c : Call} {f : FiberReading}

theorem read_lifetime (m : Metrics) (k : Counter) :
    m.getLifetimeSnapshot.read k = m.getSnapshot.read k + m.resetOffset.read k := by
  cases k <;> rfl

theorem read_reset (m : Metrics) (k : Counter) :
    m.reset.getSnapshot.read k = 0
      ∧ m.reset.getLifetimeSnapshot.read k = m.getLifetimeSnapshot.read k := by
  rw [read_lifetime, read_lifetime]
  cases k <;> exact ⟨rfl, by simp [reset, CounterOffset.read, getSnapshot, snapshotLocked,
    MetricsSnapshot.read, Nat.add_comm]⟩

/-- A fiber that is in the map is passed over, another one is recorded. -/
theorem call_fiberCompleted {drop : Finset FiberID}
    (h : m.call (.fiberCompleted (some f) drop) = some m') :
    f.id ∈ m.completed ∧ m' = m
    ∨ f.id ∉ m.completed ∧ Trims (insert f.id m.completed) drop
      ∧ m' = m.recordFiberCompleted f.id f.stackSize f.cpuTime drop := by
  simp only [call] at h
  split at h
  · next hor =>
    cases h
    by_cases hin : f.id ∈ m.completed
    · exact .inl ⟨hin, if_pos hin⟩
    · exact .inr ⟨hin, hor.resolve_left hin, rfl⟩
  · cases h

/-- A call that is no `Reset` leaves the offset alone and raises its own counter. -/
theorem call_read (h : m.call c = some m') (hc : c.isReset = false) (k : Counter) :
    m'.resetOffset = m.resetOffset ∧ m'.getSnapshot.read k
      = m.getSnapshot.read k + if Entry.counter ⟨c, m.accepts c⟩ = some k then 1 else 0 := by
  cases c with
  | reset => cases hc
  | fiberCompleted fiber drop =>
    cases fiber with
    | none =>
      cases h
      exact ⟨rfl, by simp [Entry.counter, accepts]⟩
    | some f =>
      obtain ⟨hin, rfl⟩ | ⟨hnot, -, rfl⟩ := call_fiberCompleted h
      · simp [Entry.counter, accepts, hin]
      · simp only [recordFiberCompleted, Entry.counter, accepts, if_neg hnot]
        cases k <;> exact ⟨rfl, rfl⟩
  | _ =>
    cases h
    cases k <;> exact ⟨rfl, rfl⟩

/-- A call that accepts no fiber leaves the map and the histogram alone. -/
theorem call_of_accepts_none (h : m.call c = some m') (hc : c.isReset = false)
    (haccepts : m.accepts c = none) :
    m'.completed = m.completed ∧ m'.fiberRunHistogram = m.fiberRunHistogram := by
  cases c with
  | reset => cases hc
  | fiberCompleted fiber drop =>
    cases fiber with
    | none =>
      cases h
      exact ⟨rfl, rfl⟩
    | some f =>
      obtain ⟨-, rfl⟩ | ⟨hnot, -, -⟩ := call_fiberCompleted h
      · exact ⟨rfl, rfl⟩
      · rw [accepts, if_neg hnot] at haccepts
        cases haccepts
  | _ =>
    cases h
    exact ⟨rfl, rfl⟩

/-- A call that accepts a fiber puts it into the map, which may then be trimmed, and records its
CPU time. -/
theorem call_of_accepts_some (h : m.call c = some m') (haccepts : m.accepts c = some f) :
    ∃ drop, Trims (insert f.id m.completed) drop ∧ m'.completed = insert f.id m.completed \ drop
      ∧ m'.fiberRunHistogram = if 0 < f.cpuTime then m.fiberRunHistogram.record f.cpuTime
        else m.fiberRunHistogram := by
  unfold accepts at haccepts
  split at haccepts
  · next f' drop =>
    obtain ⟨hin, -⟩ | ⟨hnot, htrims, rfl⟩ := call_fiberCompleted h
    · rw [if_pos hin] at haccepts
      cases haccepts
    · rw [if_neg hnot] at haccepts
      cases haccepts
      rw [recordFiberCompleted, if_neg hnot]
      exact ⟨drop, htrims, rfl, rfl⟩
  · cases haccepts

end Metrics

/-! ## Runs -/

open Metrics

/-- A `Metrics` and the calls that were made on it, the latest first. -/
structure Recorder where
  metrics : Metrics := {}
  log : List Entry := []

namespace Recorder

/-- One call, which is entered into the log. -/
def step (r : Recorder) (c : Call) : Option Recorder :=
  (r.metrics.call c).map fun m => ⟨m, ⟨c, r.metrics.accepts c⟩ :: r.log⟩

/-- The calls after the last `Reset`. -/
def sinceReset (log : List Entry) : List Entry := log.takeWhile fun e => !e.call.isReset

/-- How often a counter was to be raised. -/
def calls (k : Counter) (log : List Entry) : Nat := log.countP fun e => e.counter = some k

def accepted (log : List Entry) : List FiberReading := log.filterMap Entry.accepted

def acceptedIDs (log : List Entry) : Finset FiberID := ((accepted log).map FiberReading.id).toFinset

/-- The CPU times that the histogram takes. -/
def cpuTimes (log : List Entry) : List Int :=
  ((accepted log).map FiberReading.cpuTime).filter (0 < ·)

/-- Everything that is kept can be told from the calls. The map is the set of the accepted IDs as
long as there are not too many for it. -/
structure Booked (r : Recorder) : Prop where
  run : ∀ k, r.metrics.getSnapshot.read k = calls k (sinceReset r.log)
  lifetime : ∀ k, r.metrics.getLifetimeSnapshot.read k = calls k r.log
  completed : (acceptedIDs (sinceReset r.log)).card ≤ maxCompletedTracked →
    r.metrics.completed = acceptedIDs (sinceReset r.log)
  histogram : r.metrics.fiberRunHistogram = .ofObservations (cpuTimes (sinceReset r.log))

section

variable {r r' : Recorder} {c : Call} {e : Entry} {log : List Entry} {f : FiberReading}

theorem sinceReset_cons_reset (h : e.call.isReset = true) : sinceReset (e :: log) = [] := by
  simp [sinceReset, h]

theorem sinceReset_cons (h : e.call.isReset = false) :
    sinceReset (e :: log) = e :: sinceReset log := by
  simp [sinceReset, h]

theorem calls_cons (k : Counter) :
    calls k (e :: log) = calls k log + if e.counter = some k then 1 else 0 := by
  simp [calls, List.countP_cons]

theorem accepted_cons_none (h : e.accepted = none) : accepted (e :: log) = accepted log :=
  List.filterMap_cons_none h

theorem accepted_cons_some (h : e.accepted = some f) : accepted (e :: log) = f :: accepted log :=
  List.filterMap_cons_some h

/-- A map that is not larger than `maxCompletedTracked` is not trimmed. -/
theorem eq_empty_of_trims {completed drop : Finset FiberID} (h : Trims completed drop)
    (hcard : completed.card ≤ maxCompletedTracked) : drop = ∅ := by
  obtain ⟨-, hdrop⟩ := h
  rw [if_neg (Nat.not_lt.mpr hcard)] at hdrop
  exact Finset.card_eq_zero.mp hdrop

/-- The calls that `Reset` leaves of the run are none. -/
theorem Booked.reset (h : r.Booked) (e : Entry) (he : e.call = .reset) :
    Booked ⟨r.metrics.reset, e :: r.log⟩ := by
  have hsince : sinceReset (e :: r.log) = [] := sinceReset_cons_reset (by rw [he]; rfl)
  have hcounter : e.counter = none := by rw [Entry.counter, he]
  refine ⟨fun k => ?_, fun k => ?_, fun _ => ?_, ?_⟩
  · rw [hsince]
    exact (read_reset r.metrics k).1
  · rw [(read_reset r.metrics k).2, h.lifetime k, calls_cons, hcounter]
    simp
  · rw [hsince]
    rfl
  · rw [hsince]
    rfl

/-- The map and the histogram after a call that accepts a fiber. -/
theorem Booked.accept (h : r.Booked) {drop : Finset FiberID}
    (htrims : Trims (insert f.id r.metrics.completed) drop)
    (hlog : accepted log = f :: accepted (sinceReset r.log)) :
    ((acceptedIDs log).card ≤ maxCompletedTracked →
      insert f.id r.metrics.completed \ drop = acceptedIDs log)
    ∧ (if 0 < f.cpuTime then r.metrics.fiberRunHistogram.record f.cpuTime
        else r.metrics.fiberRunHistogram) = .ofObservations (cpuTimes log) := by
  have hids : acceptedIDs log = insert f.id (acceptedIDs (sinceReset r.log)) := by
    simp [acceptedIDs, hlog]
  constructor
  · -- before the call there were no more IDs than after it, so the map still was exact
    intro hcard
    rw [hids] at hcard
    have hbefore := h.completed ((Finset.card_le_card (Finset.subset_insert ..)).trans hcard)
    rw [hbefore] at htrims ⊢
    rw [eq_empty_of_trims htrims hcard, Finset.sdiff_empty, hids]
  · rw [h.histogram]
    split
    · next hpos =>
      rw [LatencyHistogram.record_ofObservations]
      simp [cpuTimes, hlog, hpos]
    · next hpos => simp [cpuTimes, hlog, hpos]

theorem Booked.read (h : r.Booked) {m : Metrics} (hcall : r.metrics.call c = some m)
    (hc : c.isReset = false) (k : Counter) :
    m.getSnapshot.read k = calls k (⟨c, r.metrics.accepts c⟩ :: sinceReset r.log)
      ∧ m.getLifetimeSnapshot.read k = calls k (⟨c, r.metrics.accepts c⟩ :: r.log) := by
  obtain ⟨hoffset, hread⟩ := call_read hcall hc k
  have hrun := h.run k
  have hlifetime := h.lifetime k
  -- both snapshots show one more, as the offset stays
  rw [read_lifetime] at hlifetime ⊢
  rw [calls_cons, calls_cons, hoffset, hread]
  omega

theorem Booked.keep (h : r.Booked) {m : Metrics} (hcall : r.metrics.call c = some m)
    (hc : c.isReset = false) {log : List Entry}
    (hlog : log = ⟨c, r.metrics.accepts c⟩ :: sinceReset r.log) :
    ((acceptedIDs log).card ≤ maxCompletedTracked → m.completed = acceptedIDs log)
      ∧ m.fiberRunHistogram = .ofObservations (cpuTimes log) := by
  cases haccepts : r.metrics.accepts c with
  | none =>
    obtain ⟨hcompleted, hhistogram⟩ := call_of_accepts_none hcall hc haccepts
    have hsame : accepted log = accepted (sinceReset r.log) := by
      rw [hlog, haccepts]
      exact accepted_cons_none rfl
    simp only [acceptedIDs, cpuTimes, hsame, hcompleted, hhistogram]
    exact ⟨h.completed, h.histogram⟩
  | some f =>
    obtain ⟨drop, htrims, hcompleted, hhistogram⟩ := call_of_accepts_some hcall haccepts
    have hmore : accepted log = f :: accepted (sinceReset r.log) := by
      rw [hlog, haccepts]
      exact accepted_cons_some rfl
    rw [hcompleted, hhistogram]
    exact h.accept htrims hmore

theorem Booked.step (h : r.Booked) (hstep : r.step c = some r') : r'.Booked := by
  obtain ⟨m, hcall, rfl⟩ := Option.map_eq_some_iff.mp hstep
  cases hc : c.isReset with
  | true =>
    cases c with
    | reset =>
      cases hcall
      exact h.reset _ rfl
    | _ => cases hc
  | false =>
    have hread := h.read hcall hc
    have hsince : sinceReset (⟨c, r.metrics.accepts c⟩ :: r.log)
        = ⟨c, r.metrics.accepts c⟩ :: sinceReset r.log := sinceReset_cons hc
    obtain ⟨hcompleted, hhistogram⟩ := h.keep hcall hc hsince
    rw [← hsince] at hread
    exact ⟨fun k => (hread k).1, fun k => (hread k).2, hcompleted, hhistogram⟩

theorem Booked.new : Booked {} where
  run k := by cases k <;> rfl
  lifetime k := by cases k <;> rfl
  completed _ := rfl
  histogram := rfl

theorem Booked.reach (hr : Reach Recorder.step anyStep {} r) : r.Booked :=
  hr.invariant .new fun _ _ _ h _ hstep => h.step hstep

end

/-- The histogram of run times is that of the fibers accepted since the last `Reset`. -/
theorem fiberRunHistogram_of_reach {r : Recorder} (hr : Reach step anyStep {} r) :
    r.metrics.fiberRunHistogram = .ofObservations (cpuTimes (sinceReset r.log)) :=
  (Booked.reach hr).histogram

/-- In every run the lifetime snapshot shows all calls and the other one those since the last
`Reset`; only `Reset` changes their difference; and a fiber is accepted once between two calls of
`Reset`, as long as the map could keep all that were accepted. -/
theorem lifetime_counts {r : Recorder} (hr : Reach step anyStep {} r) :
    (∀ k, r.metrics.getLifetimeSnapshot.read k = calls k r.log)
    ∧ (∀ k, r.metrics.getSnapshot.read k = calls k (sinceReset r.log))
    ∧ (∀ k c r', c ≠ Call.reset → r.step c = some r' →
      (r'.metrics.getLifetimeSnapshot.read k : Int) - r'.metrics.getSnapshot.read k
        = r.metrics.getLifetimeSnapshot.read k - r.metrics.getSnapshot.read k)
    ∧ ((acceptedIDs (sinceReset r.log)).card ≤ maxCompletedTracked → ∀ f drop,
      (r.metrics.accepts (.fiberCompleted (some f) drop) = some f
        ↔ f.id ∉ acceptedIDs (sinceReset r.log))) := by
  have hbooked := Booked.reach hr
  refine ⟨hbooked.lifetime, hbooked.run, fun k c r' hc hstep => ?_, fun hcard f drop => ?_⟩
  · obtain ⟨m, hcall, rfl⟩ := Option.map_eq_some_iff.mp hstep
    have hreset : c.isReset = false := by
      cases c with
      | reset => exact absurd rfl hc
      | _ => rfl
    have hoffset := (call_read hcall hreset k).1
    rw [read_lifetime, read_lifetime, hoffset]
    omega
  · simp only [accepts, hbooked.completed hcard, ite_eq_right_iff, reduceCtorEq, imp_false]

/-- A fiber that completes twice, and again after a `Reset`: it is accepted twice in all and once
since the `Reset`. -/
theorem lifetime_counts_again :
    ∃ r : Recorder, Reach step anyStep {} r
      ∧ r.metrics.getLifetimeSnapshot.read .fibersCompleted = 2
      ∧ r.metrics.getSnapshot.read .fibersCompleted = 1
      ∧ calls .fibersCompleted r.log = 2 ∧ calls .fibersCompleted (sinceReset r.log) = 1
      ∧ r.metrics.accepts (.fiberCompleted (some ⟨1, 64, 5⟩) ∅) ≠ some ⟨1, 64, 5⟩
      ∧ 1 ∈ acceptedIDs (sinceReset r.log) := by
  let completed : Call := .fiberCompleted (some ⟨1, 64, 5⟩) ∅
  obtain ⟨r, hr, hp⟩ := exists_reach_of_exec step {}
    [.fiberCreated 64, completed, completed, .reset, completed, .yield]
    (fun r => decide (r.metrics.getLifetimeSnapshot.read .fibersCompleted = 2
      ∧ r.metrics.getSnapshot.read .fibersCompleted = 1
      ∧ (acceptedIDs (sinceReset r.log)).card ≤ maxCompletedTracked
      ∧ r.metrics.accepts completed ≠ some ⟨1, 64, 5⟩)) (by decide)
  obtain ⟨hlifetime, hrun, hcard, hrefused⟩ := of_decide_eq_true hp
  obtain ⟨hever, hsince, -, haccepts⟩ := lifetime_counts hr
  refine ⟨r, hr, hlifetime, hrun, (hever _).symm.trans hlifetime, (hsince _).symm.trans hrun,
    hrefused, ?_⟩
  exact Decidable.of_not_not (mt (haccepts hcard ⟨1, 64, 5⟩ ∅).mpr hrefused)

end Recorder

end GreenThreads
