import GreenThreads.Lib.BoundedLog
import GreenThreads.Runtime.Deadlock

/-!
# GreenThreads — the deadlock history (`internal/runtime/deadlock.go`)

The entries that scans append to the history, over any calls of `checkForDeadlock`, `SetTimeout`
and `ClearDeadlocks` on one detector.

* `DetectorCall.effects` — what a sequence of calls does to the history, as a log;
* `Logged` — how detector and metrics stand to that log;
* `deadlock_history` — episodes are counted once, alternate with their resolutions, and the last
  hundred entries are kept.
-/

namespace GreenThreads.Runtime

open BoundedLog (Op since retain)

namespace DeadlockDetector

variable (dd : DeadlockDetector) (x : Scan)

theorem noteProgress_deadlocks : (dd.noteProgress x).deadlocks = dd.deadlocks := by
  unfold noteProgress
  split <;> rfl

theorem noteProgress_deadlockActive : (dd.noteProgress x).deadlockActive = dd.deadlockActive := by
  unfold noteProgress
  split <;> rfl

/-- A scan does to the history what its entry does to a log of a hundred entries. -/
theorem scan_deadlocks :
    (dd.scan x).deadlocks
      = ((dd.entry x).toList.map Op.record).foldl (retain maxDeadlockHistory) dd.deadlocks := by
  unfold scan
  cases dd.entry x with
  | none => exact noteProgress_deadlocks dd x
  | some info =>
    simp only [append, noteProgress_deadlocks]
    rfl

/-- A scan appends an entry exactly if it changes `deadlockActive`, and the entry says to what. -/
theorem scan_deadlockActive :
    dd.entry x = none ∧ (dd.scan x).deadlockActive = dd.deadlockActive ∨
      ∃ e, dd.entry x = some e ∧ e.resolved = dd.deadlockActive ∧
        (dd.scan x).deadlockActive = !dd.deadlockActive := by
  unfold scan entry
  split_ifs with hreports hresolved
  · have hidle : dd.deadlockActive = false := by
      simp only [reports, Bool.and_eq_true, Bool.not_eq_true'] at hreports
      exact hreports.2
    exact .inr ⟨_, rfl, hidle.symm, by simp [hidle, append]⟩
  · have hactive : dd.deadlockActive = true := by
      simp only [Bool.and_eq_true] at hresolved
      exact hresolved.2
    exact .inr ⟨_, rfl, hactive.symm, by simp [hactive, append]⟩
  · exact .inl ⟨rfl, noteProgress_deadlockActive dd x⟩

/-- The entry of a report, and no other, is not a resolution. -/
theorem reports_eq : dd.reports x = (dd.entry x).any fun e => !e.resolved := by
  unfold entry
  split
  · next h => simp [h]
  · next h =>
    split <;> simpa using h

end DeadlockDetector

/-! ## Calls -/

/-- A call on the detector. -/
inductive DetectorCall where
  | checkForDeadlock (x : Option Scan)
  | setTimeout (timeout : Int)
  | clearDeadlocks

namespace DetectorCall

/-- What a call does to the detector and the metrics of its runtime. -/
def apply (s : DeadlockDetector × Metrics) : DetectorCall → DeadlockDetector × Metrics
  | checkForDeadlock x => s.1.checkForDeadlock s.2 x
  | setTimeout timeout => (s.1.setTimeout timeout, s.2)
  | clearDeadlocks => (s.1.clearDeadlocks, s.2)

/-- What a call does to the history: a scan appends its entry, if it has one. -/
def effect (dd : DeadlockDetector) : DetectorCall → List (Op DeadlockInfo)
  | checkForDeadlock (some x) => (dd.entry x).toList.map .record
  | checkForDeadlock none => []
  | setTimeout _ => []
  | clearDeadlocks => [.clear]

/-- What a sequence of calls does to the history. -/
def effects (s : DeadlockDetector × Metrics) : List DetectorCall → List (Op DeadlockInfo)
  | [] => []
  | c :: cs => c.effect s.1 ++ effects (c.apply s) cs

end DetectorCall

/-- A new episode is appended. -/
def isEpisode : Op DeadlockInfo → Bool
  | .record e => !e.resolved
  | .clear => false

/-- Episodes and resolutions take turns, and an episode comes first. -/
def Alternates (l : List DeadlockInfo) : Prop :=
  ∀ i e, l[i]? = some e → e.resolved = decide (i % 2 = 1)

theorem Alternates.append {l : List DeadlockInfo} (h : Alternates l) {e : DeadlockInfo}
    (he : e.resolved = decide (l.length % 2 = 1)) : Alternates (l ++ [e]) := by
  intro i e' hget
  rcases Nat.lt_trichotomy i l.length with hlt | rfl | hgt
  · rw [List.getElem?_append_left hlt] at hget
    exact h i e' hget
  · simp only [List.getElem?_concat_length, Option.some.injEq] at hget
    rw [← hget, he]
  · rw [List.getElem?_eq_none (by simp; omega)] at hget
    cases hget

/-! ## One call -/

/-- How a detector and the metrics of its runtime stand to the log of what has happened to the
history, when the metrics were `m` at first. -/
structure Logged (m : Metrics) (log : List (Op DeadlockInfo)) (s : DeadlockDetector × Metrics) :
    Prop where
  counted : s.2.totalDeadlocksDetected = m.totalDeadlocksDetected + log.countP isEpisode
  active : s.1.deadlockActive = decide ((since log).length % 2 = 1)
  alternates : Alternates (since log)
  kept : s.1.deadlocks = (since log).rtake DeadlockDetector.maxDeadlockHistory

theorem logged_new (made : Int) (m : Metrics) : Logged m [] (.new made, m) :=
  ⟨rfl, rfl, fun i e h => by simp [since] at h, rfl⟩

section

variable {m : Metrics} {log : List (Op DeadlockInfo)} {s : DeadlockDetector × Metrics}

theorem since_append (log ops : List (Op DeadlockInfo)) :
    since (log ++ ops) = ops.foldl BoundedLog.append (since log) := List.foldl_append

/-- The counter goes up by the episodes among what is appended. -/
theorem totalDeadlocksDetected_checkForDeadlock (dd : DeadlockDetector) (m : Metrics) (x : Scan) :
    (dd.checkForDeadlock m (some x)).2.totalDeadlocksDetected
      = m.totalDeadlocksDetected + ((dd.entry x).toList.map Op.record).countP isEpisode := by
  simp only [DeadlockDetector.checkForDeadlock, dd.reports_eq]
  cases dd.entry x with
  | none => rfl
  | some e =>
    cases he : e.resolved <;>
      simp [he, isEpisode, Metrics.recordDeadlockDetected, Metrics.setBlockedFibers]

theorem Logged.checkForDeadlock (h : Logged m log s) (x : Scan) :
    Logged m (log ++ (s.1.entry x).toList.map .record) (s.1.checkForDeadlock s.2 (some x)) := by
  have hcounted : (s.1.checkForDeadlock s.2 (some x)).2.totalDeadlocksDetected
      = m.totalDeadlocksDetected
        + (log ++ (s.1.entry x).toList.map Op.record).countP isEpisode := by
    rw [totalDeadlocksDetected_checkForDeadlock, h.counted, List.countP_append, Nat.add_assoc]
  have hkept : (s.1.scan x).deadlocks = (since (log ++ (s.1.entry x).toList.map .record)).rtake
      DeadlockDetector.maxDeadlockHistory := by
    rw [s.1.scan_deadlocks, h.kept, since_append, BoundedLog.foldl_retain]
  obtain ⟨hnone, hsame⟩ | ⟨e, hsome, hresolved, hflip⟩ := s.1.scan_deadlockActive x
  · -- the log stays, and so does the flag
    rw [hnone] at hcounted hkept ⊢
    simp only [Option.toList_none, List.map_nil, List.append_nil] at hcounted hkept ⊢
    exact ⟨hcounted, hsame.trans h.active, h.alternates, hkept⟩
  · -- the entry says what the flag was, and the flag says how many entries there are
    rw [hsome] at hcounted hkept ⊢
    have hsince : since (log ++ [.record e]) = since log ++ [e] := since_append log _
    refine ⟨hcounted, ?_, ?_, hkept⟩
    · refine hflip.trans ?_
      simp only [Option.toList_some, List.map_cons, List.map_nil, hsince, h.active,
        List.length_append, List.length_singleton, ← decide_not, decide_eq_decide]
      omega
    · simp only [Option.toList_some, List.map_cons, List.map_nil, hsince]
      exact h.alternates.append (hresolved.trans h.active)

theorem Logged.apply (h : Logged m log s) (c : DetectorCall) :
    Logged m (log ++ c.effect s.1) (c.apply s) := by
  cases c with
  | checkForDeadlock x =>
    cases x with
    | none =>
      rw [DetectorCall.effect, List.append_nil]
      exact h
    | some x => exact h.checkForDeadlock x
  | setTimeout timeout =>
    rw [DetectorCall.effect, List.append_nil]
    exact ⟨h.counted, h.active, h.alternates, h.kept⟩
  | clearDeadlocks =>
    have hsince : since (log ++ [.clear]) = [] := since_append log _
    refine ⟨?_, ?_, ?_, ?_⟩
    · simpa [DetectorCall.effect, DetectorCall.apply, isEpisode] using h.counted
    · simp only [DetectorCall.effect, hsince]
      rfl
    · simp only [DetectorCall.effect, hsince]
      intro i e hget
      simp at hget
    · simp only [DetectorCall.effect, hsince]
      rfl

/-- Induction on the calls. -/
theorem Logged.foldl (h : Logged m log s) (calls : List DetectorCall) :
    Logged m (log ++ DetectorCall.effects s calls) (calls.foldl DetectorCall.apply s) := by
  induction calls generalizing log s with
  | nil =>
    rw [DetectorCall.effects, List.append_nil]
    exact h
  | cons c calls ih =>
    rw [DetectorCall.effects, ← List.append_assoc]
    exact ih (h.apply c)

end

/-- **Deadlock episodes are counted and logged once.** After any calls on a detector made at time
`made`, for a runtime with metrics `m`: the counter has grown by the number of episodes ever
appended; since the last `ClearDeadlocks` episodes and resolutions take turns, an episode first;
and the history is the last hundred of those entries. -/
theorem deadlock_history (made : Int) (m : Metrics) (calls : List DetectorCall) :
    let s := calls.foldl DetectorCall.apply (.new made, m)
    let log := DetectorCall.effects (.new made, m) calls
    s.2.totalDeadlocksDetected = m.totalDeadlocksDetected + log.countP isEpisode ∧
      Alternates (since log) ∧ s.1.deadlocks = (since log).rtake (min 100 (since log).length) := by
  intro s log
  have h : Logged m log s := (logged_new made m).foldl calls
  refine ⟨h.counted, h.alternates, h.kept.trans ?_⟩
  simp only [List.rtake, DeadlockDetector.maxDeadlockHistory]
  congr 1
  omega

end GreenThreads.Runtime
