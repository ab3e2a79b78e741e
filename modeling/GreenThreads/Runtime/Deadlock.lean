import GreenThreads.Metrics
import Mathlib.Data.List.Induction

/-!
# GreenThreads — the deadlock detector (`internal/runtime/deadlock.go`)

A scan counts the blocked, running and ready fibers and compares the time since `lastProgress`
with the timeout. `lastProgress` is the time of the last scan that saw progress (at first the
time the detector was made), and not of the first scan that saw none: what was before that first
scan counts as blocked time.

* `Scan` — what a scan sees; `Scan.noRunnable` — the no-progress condition;
* `DeadlockDetector.checkForDeadlock` — one scan;
* `Stretch` — scans without progress, back to the last progress;
* `ObservedFor` — the no-progress condition has been observed for the timeout;
* `reports_observed_iff` — when no report comes too early.

Times and durations are in nanoseconds.
-/

namespace GreenThreads.Runtime

/-! ## Scans -/

/-- What a scan of a running runtime sees: the result of `GetAllFibers`, the ID of the main
fiber, if there is one, the number of workers and the time. -/
structure Scan where
  now : Int
  fibers : List (FiberID × Fiber)
  mainFiber : Option FiberID := none
  numWorkers : Int := 1

namespace Scan

variable (x : Scan)

/-- The fibers that are looked at: all but the main fiber. -/
def observed : List (FiberID × Fiber) := x.fibers.filter fun f => f.1 ≠ x.mainFiber.getD 0

/-- The fibers in one state. -/
def inState (st : FiberState) : List (FiberID × Fiber) := x.observed.filter fun f => f.2.state = st

def blocked : List (FiberID × Fiber) := x.inState .blocked

def running : Nat := (x.inState .running).length

def ready : Nat := (x.inState .ready).length

/-- Every worker slot is held by a blocked fiber. -/
def slotsAllBlocked : Bool := 0 < x.numWorkers && x.numWorkers ≤ x.blocked.length

/-- The no-progress condition. -/
def noRunnable : Bool :=
  x.running = 0 && 0 < x.blocked.length && (x.ready = 0 || x.slotsAllBlocked)

end Scan

/-! ## The detector -/

/-- `type DeadlockInfo struct`. -/
structure DeadlockInfo where
  detectedAt : Int
  blockedFibers : List (FiberID × Fiber) := []
  description : String
  resolved : Bool := false
  deriving DecidableEq

/-- `type DeadlockDetector struct`, but for what starts and stops its loop. -/
structure DeadlockDetector where
  enabled : Bool
  checkInterval : Int
  timeout : Int
  lastProgress : Int
  deadlockActive : Bool
  deadlocks : List DeadlockInfo
  deriving DecidableEq

/-- `Duration.String` of whole seconds. -/
def secondsString (s : Nat) : String :=
  if s < 60 then toString s ++ "s"
  else if s < 3600 then toString (s / 60) ++ "m" ++ toString (s % 60) ++ "s"
  else toString (s / 3600) ++ "h" ++ toString (s % 3600 / 60) ++ "m" ++ toString (s % 60) ++ "s"

/-- `d.Round(time.Second).String()`; half a second is rounded away from zero. -/
def roundedString (d : Int) : String :=
  let s := (d.natAbs + 500000000) / 1000000000
  if d < 0 ∧ 0 < s then "-" ++ secondsString s else secondsString s

namespace DeadlockDetector

/-- `NewDeadlockDetector` at time `now`. -/
def new (now : Int) : DeadlockDetector :=
  ⟨true, 1000000000, 5000000000, now, false, []⟩

variable (dd : DeadlockDetector) (x : Scan)

/-- `SetTimeout`. -/
def setTimeout (timeout : Int) : DeadlockDetector :=
  { dd with timeout := if timeout ≤ 0 then 5000000000 else timeout }

/-- `ClearDeadlocks`. -/
def clearDeadlocks : DeadlockDetector := { dd with deadlocks := [], deadlockActive := false }

def maxDeadlockHistory : Nat := 100

/-- `append` to the history, which keeps the last hundred entries. -/
def append (info : DeadlockInfo) : DeadlockDetector :=
  let all := dd.deadlocks ++ [info]
  { dd with deadlocks := all.drop (all.length - maxDeadlockHistory) }

/-- The first assignment of `checkForDeadlock`. -/
def noteProgress : DeadlockDetector :=
  if x.noRunnable then dd else { dd with lastProgress := x.now }

/-- The scan finds a deadlock. -/
def deadlocked : Bool := x.noRunnable && dd.timeout ≤ x.now - (dd.noteProgress x).lastProgress

/-- The scan appends a `DeadlockInfo` that is not a resolution. -/
def reports : Bool := dd.deadlocked x && !dd.deadlockActive

/-- The entry that the scan appends to the history: a report, or that the deadlock reported last is
resolved. -/
def entry : Option DeadlockInfo :=
  if dd.reports x then
    some
      { detectedAt := x.now
        blockedFibers := x.blocked
        description := "all " ++ toString x.blocked.length ++ " fibers blocked for "
          ++ roundedString (x.now - (dd.noteProgress x).lastProgress) }
  else if !x.noRunnable && dd.deadlockActive then
    some { detectedAt := x.now, description := "previous blocked state resolved", resolved := true }
  else none

/-- What the scan does to the detector. A resolution sets `lastProgress` once more to the time it
has already. -/
def scan : DeadlockDetector :=
  match dd.entry x with
  | some info => { dd.noteProgress x with deadlockActive := !info.resolved }.append info
  | none => dd.noteProgress x

/-- `checkForDeadlock`; there is no scan if the runtime is nil or not running. -/
def checkForDeadlock (m : Metrics) : Option Scan → DeadlockDetector × Metrics
  | none => (dd, m)
  | some x =>
    let m := m.setBlockedFibers x.blocked.length
    (dd.scan x, if dd.reports x then m.recordDeadlockDetected else m)

/-- A sequence of scans. -/
def run (xs : List Scan) : DeadlockDetector := xs.foldl scan dd

/-! ## One scan -/

section

variable {x : Scan}

theorem scan_timeout (dd : DeadlockDetector) (x : Scan) : (dd.scan x).timeout = dd.timeout := by
  have hnote : (dd.noteProgress x).timeout = dd.timeout := by
    unfold noteProgress
    split <;> rfl
  unfold scan
  split <;> exact hnote

/-- A scan that sees progress. -/
theorem scan_progress (dd : DeadlockDetector) (h : x.noRunnable = false) :
    (dd.scan x).lastProgress = x.now ∧ (dd.scan x).deadlockActive = false := by
  have hno : dd.reports x = false := by simp [reports, deadlocked, h]
  have hnote : dd.noteProgress x = { dd with lastProgress := x.now } := by simp [noteProgress, h]
  unfold scan entry
  rw [hno, hnote, h]
  cases dd.deadlockActive <;> exact ⟨rfl, rfl⟩

/-- A scan that sees none: once the timeout has passed, the deadlock is active. -/
theorem scan_quiet (dd : DeadlockDetector) (h : x.noRunnable = true) :
    (dd.scan x).lastProgress = dd.lastProgress
      ∧ (dd.scan x).deadlockActive
        = (dd.deadlockActive || decide (dd.timeout ≤ x.now - dd.lastProgress)) := by
  have hnote : dd.noteProgress x = dd := by simp [noteProgress, h]
  have hreports : dd.reports x
      = (decide (dd.timeout ≤ x.now - dd.lastProgress) && !dd.deadlockActive) := by
    simp [reports, deadlocked, h, hnote]
  unfold scan entry
  rw [hreports, hnote, h]
  cases hactive : dd.deadlockActive <;>
    cases hlate : decide (dd.timeout ≤ x.now - dd.lastProgress) <;>
    exact ⟨rfl, by simp [append, hactive]⟩

end

/-! ## Stretches without progress -/

/-- After the scans `before` come scans that all see no progress, and `before` ends with one that
does, if it is not empty. -/
structure Stretch (before stretch : List Scan) : Prop where
  ended : ∀ y ∈ before.getLast?, y.noRunnable = false
  quiet : ∀ y ∈ stretch, y.noRunnable = true

/-- The time of the last progress before a stretch, for a detector made at time `made`. -/
def progressTime (made : Int) (before : List Scan) : Int := (before.getLast?.map Scan.now).getD made

/-- Every sequence of scans ends in a stretch. -/
theorem exists_stretch (xs : List Scan) : ∃ before stretch, xs = before ++ stretch
    ∧ Stretch before stretch := by
  induction xs using List.reverseRecOn with
  | nil => exact ⟨[], [], rfl, nofun, nofun⟩
  | append_singleton xs x ih =>
    obtain ⟨before, stretch, rfl, hs⟩ := ih
    cases hx : x.noRunnable with
    | true =>
      refine ⟨before, stretch ++ [x], by simp, hs.ended, fun y hy => ?_⟩
      rcases List.mem_append.mp hy with hy | hy
      · exact hs.quiet y hy
      · rwa [List.mem_singleton.mp hy]
    | false =>
      refine ⟨before ++ stretch ++ [x], [], by simp, fun y hy => ?_, nofun⟩
      rw [List.getLast?_concat, Option.mem_some_iff] at hy
      rwa [← hy]

section

variable {dd : DeadlockDetector} {before stretch : List Scan}

theorem run_append (dd : DeadlockDetector) (xs ys : List Scan) :
    dd.run (xs ++ ys) = (dd.run xs).run ys := List.foldl_append

theorem run_timeout (dd : DeadlockDetector) (xs : List Scan) :
    (dd.run xs).timeout = dd.timeout := by
  induction xs using List.reverseRecOn with
  | nil => rfl
  | append_singleton xs x ih =>
    rw [run_append]
    exact (scan_timeout _ x).trans ih

/-- Before a stretch no deadlock is active. -/
theorem run_before (hs : Stretch before stretch) (hdd : dd.deadlockActive = false) :
    (dd.run before).lastProgress = progressTime dd.lastProgress before
      ∧ (dd.run before).deadlockActive = false := by
  cases before using List.reverseRecOn with
  | nil => exact ⟨rfl, hdd⟩
  | append_singleton xs x =>
    have hx : x.noRunnable = false := hs.ended x (by simp)
    have hp := scan_progress (dd.run xs) hx
    rw [run_append]
    refine ⟨hp.1.trans ?_, hp.2⟩
    simp [progressTime]

/-- Through a stretch `lastProgress` stays, and a deadlock is active once a scan has come after
the timeout. Induction on the stretch. -/
theorem run_stretch (dd : DeadlockDetector) (hquiet : ∀ y ∈ stretch, y.noRunnable = true) :
    (dd.run stretch).lastProgress = dd.lastProgress
      ∧ (dd.run stretch).deadlockActive = (dd.deadlockActive
        || stretch.any fun y => decide (dd.timeout ≤ y.now - dd.lastProgress)) := by
  induction stretch generalizing dd with
  | nil => exact ⟨rfl, by simp [run]⟩
  | cons y ys ih =>
    obtain ⟨hprogress, hactive⟩ := scan_quiet dd (hquiet y (List.mem_cons_self ..))
    obtain ⟨hlast, hrest⟩ := ih (dd.scan y) fun z hz => hquiet z (List.mem_cons_of_mem _ hz)
    refine ⟨hlast.trans hprogress, ?_⟩
    rw [hprogress, scan_timeout, hactive] at hrest
    rw [List.any_cons, ← Bool.or_assoc]
    exact hrest

/-- When a scan in a stretch reports. -/
theorem reports_in_stretch (hs : Stretch before stretch) (hdd : dd.deadlockActive = false)
    {x : Scan} (hx : x.noRunnable = true) :
    (dd.run (before ++ stretch)).reports x = true
      ↔ dd.timeout ≤ x.now - progressTime dd.lastProgress before
        ∧ ∀ y ∈ stretch, y.now - progressTime dd.lastProgress before < dd.timeout := by
  obtain ⟨hprogress, hinactive⟩ := run_before hs hdd
  obtain ⟨hlast, hactive⟩ := run_stretch (dd.run before) hs.quiet
  rw [hprogress] at hlast
  rw [hinactive, run_timeout, hprogress, Bool.false_or] at hactive
  simp only [reports, deadlocked, noteProgress, hx, if_true, run_append, run_timeout, hlast,
    hactive]
  simp

end

/-! ## Reports -/

/-- At scan `x`, which comes after the scans `before`, the no-progress condition has been observed
for the whole timeout: some scan made that long ago found it, and so did all scans since. -/
def ObservedFor (timeout : Int) (before : List Scan) (x : Scan) : Prop :=
  ∃ earlier first rest, before ++ [x] = earlier ++ first :: rest
    ∧ first.now ≤ x.now - timeout ∧ ∀ y ∈ first :: rest, y.noRunnable = true

/-- In every stretch, a scan that comes the timeout after the last progress comes the timeout
after the first scan of the stretch. -/
def SeenInTime (timeout made : Int) (xs : List Scan) : Prop :=
  ∀ before first stretch after, xs = before ++ first :: stretch ++ after →
    Stretch before (first :: stretch) →
      ∀ x ∈ first :: stretch, progressTime made before ≤ x.now - timeout →
        first.now ≤ x.now - timeout

/-- Every report of a run comes after the no-progress condition has been observed for the
timeout. -/
def ReportsObserved (dd : DeadlockDetector) (xs : List Scan) : Prop :=
  ∀ before x after, xs = before ++ x :: after → (dd.run before).reports x = true →
    ObservedFor dd.timeout before x

/-- Scans that all see no progress lie within the last stretch. -/
theorem Stretch.suffix {before stretch earlier later : List Scan} (hs : Stretch before stretch)
    (hsplit : before ++ stretch = earlier ++ later)
    (hquiet : ∀ y ∈ later, y.noRunnable = true) : later <:+ stretch := by
  rcases List.append_eq_append_iff.mp hsplit with ⟨between, -, rfl⟩ | ⟨extra, rfl, rfl⟩
  · exact List.suffix_append between later
  · -- what reaches over the beginning of the stretch would have a scan with progress in it
    cases extra using List.reverseRecOn with
    | nil => exact List.suffix_refl stretch
    | append_singleton extra y =>
      have hprogress := hs.ended y (by simp [← List.append_assoc])
      have hnone := hquiet y (by simp)
      rw [hnone] at hprogress
      cases hprogress

section

variable {dd : DeadlockDetector} {xs : List Scan}

/-- If the condition has been observed for the timeout, the first scan of the stretch is that
old. -/
theorem ObservedFor.first_le {timeout : Int} {before stretch rest : List Scan} {first x : Scan}
    (ho : ObservedFor timeout (before ++ stretch) x) (hs : Stretch before (stretch ++ [x]))
    (hfirst : stretch ++ [x] = first :: rest)
    (hsorted : (first :: rest).Pairwise fun y z => y.now ≤ z.now) :
    first.now ≤ x.now - timeout := by
  obtain ⟨earlier, y, later, hsplit, hy, hquiet⟩ := ho
  have hmem : y ∈ first :: rest := by
    rw [← hfirst]
    rw [List.append_assoc] at hsplit
    exact (hs.suffix hsplit hquiet).subset (List.mem_cons_self ..)
  rcases List.mem_cons.mp hmem with rfl | hmem
  · exact hy
  · exact (List.rel_of_pairwise_cons hsorted hmem).trans hy

theorem SeenInTime.reportsObserved (hdd : dd.deadlockActive = false)
    (hseen : SeenInTime dd.timeout dd.lastProgress xs) : dd.ReportsObserved xs := by
  intro pre x after hxs hreports
  obtain ⟨before, stretch, rfl, hs⟩ := exists_stretch pre
  have hx : x.noRunnable = true := by
    simp only [reports, deadlocked, Bool.and_eq_true] at hreports
    exact hreports.1.1
  have hlate := ((reports_in_stretch hs hdd hx).mp hreports).1
  -- the stretch that ends with `x`
  obtain ⟨first, rest, hfirst⟩ := List.exists_cons_of_ne_nil (List.concat_ne_nil x stretch)
  have hquiet : ∀ y ∈ first :: rest, y.noRunnable = true := by
    intro y hy
    rw [← hfirst] at hy
    rcases List.mem_append.mp hy with hy | hy
    · exact hs.quiet y hy
    · rwa [List.mem_singleton.mp hy]
  have hold : first.now ≤ x.now - dd.timeout := by
    refine hseen before first rest after ?_ ⟨hs.ended, hquiet⟩ x ?_ (by omega)
    · rw [hxs, ← hfirst]
      simp
    · rw [← hfirst]
      simp
  refine ⟨before, first, rest, ?_, hold, hquiet⟩
  rw [← hfirst, List.append_assoc]

/-- If a scan of a stretch comes the timeout after the last progress, then it or one before it
reports. -/
theorem exists_report {before stretch : List Scan} (hs : Stretch before stretch)
    (hdd : dd.deadlockActive = false) (hsorted : stretch.Pairwise fun y z => y.now ≤ z.now)
    {x : Scan} (hx : x ∈ stretch)
    (hlate : dd.timeout ≤ x.now - progressTime dd.lastProgress before) :
    ∃ early y rest, stretch = early ++ y :: rest
      ∧ (dd.run (before ++ early)).reports y = true ∧ y.now ≤ x.now := by
  let late (y : Scan) : Bool := decide (dd.timeout ≤ y.now - progressTime dd.lastProgress before)
  -- the first late scan
  obtain ⟨y, hfind⟩ := Option.isSome_iff_exists.mp
    (List.find?_isSome.mpr ⟨x, hx, show late x = true from decide_eq_true hlate⟩)
  obtain ⟨hy, early, rest, rfl, hearly⟩ := List.find?_eq_some_iff_append.mp hfind
  have hnot : ∀ z ∈ early, z.now - progressTime dd.lastProgress before < dd.timeout := by
    intro z hz
    have := hearly z hz
    simp only [late, Bool.not_eq_true', decide_eq_false_iff_not] at this
    omega
  refine ⟨early, y, rest, rfl, ?_, ?_⟩
  · have hquiet : ∀ z ∈ early, z.noRunnable = true := fun z hz => hs.quiet z (by simp [hz])
    exact (reports_in_stretch ⟨hs.ended, hquiet⟩ hdd (hs.quiet y (by simp))).mpr
      ⟨of_decide_eq_true hy, hnot⟩
  · rcases List.mem_append.mp hx with hx | hx
    · exact absurd hlate (not_le.mpr (hnot x hx))
    · rcases List.mem_cons.mp hx with rfl | hx
      · exact le_rfl
      · exact List.rel_of_pairwise_cons (List.pairwise_append.mp hsorted).2.1 hx

theorem ReportsObserved.seenInTime (hdd : dd.deadlockActive = false)
    (hsorted : xs.Pairwise fun y z => y.now ≤ z.now) (hobs : dd.ReportsObserved xs) :
    SeenInTime dd.timeout dd.lastProgress xs := by
  intro before first stretch after hxs hs x hx hlate
  have hsorted' : (first :: stretch).Pairwise fun y z => y.now ≤ z.now := by
    rw [hxs, List.append_assoc] at hsorted
    exact (List.pairwise_append.mp (List.pairwise_append.mp hsorted).2.1).1
  obtain ⟨early, y, rest, hsplit, hreports, hle⟩ :=
    exists_report hs hdd hsorted' hx (by omega)
  have ho := hobs (before ++ early) y (rest ++ after) (by rw [hxs, hsplit]; simp) hreports
  -- the stretch up to the report begins with the same scan
  obtain ⟨between, hbetween⟩ : ∃ between, early ++ [y] = first :: between := by
    cases early with
    | nil =>
      rw [List.nil_append, List.cons.injEq] at hsplit
      exact ⟨[], by rw [hsplit.1, List.nil_append]⟩
    | cons z early =>
      rw [List.cons_append, List.cons.injEq] at hsplit
      exact ⟨early ++ [y], by rw [hsplit.1, List.cons_append]⟩
  have hupto : first :: stretch = first :: between ++ rest := by
    rw [← hbetween, hsplit]
    simp
  have hquiet : ∀ z ∈ early ++ [y], z.noRunnable = true := by
    intro z hz
    refine hs.quiet z ?_
    rw [hupto, ← hbetween]
    exact List.mem_append_left rest hz
  rw [hupto] at hsorted'
  have hfirst := ho.first_le ⟨hs.ended, hquiet⟩ hbetween (List.pairwise_append.mp hsorted').1
  omega

/-- For scans at non-decreasing times: no report comes before the no-progress condition has been
observed for the whole timeout exactly if in no stretch a scan falls between the timeout after
the last progress and the timeout after the first scan of the stretch. -/
theorem reports_observed_iff (made timeout : Int) (xs : List Scan)
    (hsorted : xs.Pairwise fun y z => y.now ≤ z.now) :
    ReportsObserved { new made with timeout := timeout } xs ↔ SeenInTime timeout made xs :=
  ⟨fun h => h.seenInTime rfl hsorted, fun h => SeenInTime.reportsObserved rfl h⟩

end

/-- A scan at second `n`: fiber 1 is blocked, or running. -/
def scanAt (n : Int) (isBlocked : Bool) : Scan :=
  { now := n * 1000000000, fibers := [(1, { state := if isBlocked then .blocked else .running })] }

/-- Progress in second 0 and none in seconds 4 and 9: the report of second 9 comes five seconds
after the first scan without progress. -/
theorem reports_observed_iff_nine :
    [scanAt 0 false, scanAt 4 true, scanAt 9 true].Pairwise (fun y z => y.now ≤ z.now)
      ∧ ((new 0).run [scanAt 0 false, scanAt 4 true]).reports (scanAt 9 true) = true
      ∧ (ReportsObserved { new 0 with timeout := 5000000000 }
          [scanAt 0 false, scanAt 4 true, scanAt 9 true]
        ↔ SeenInTime 5000000000 0 [scanAt 0 false, scanAt 4 true, scanAt 9 true]) := by
  have hsorted : [scanAt 0 false, scanAt 4 true, scanAt 9 true].Pairwise
      (fun y z => y.now ≤ z.now) := by simp [scanAt]
  exact ⟨hsorted, by decide, reports_observed_iff 0 5000000000 _ hsorted⟩

/-- The defaults, with progress in second 1 and a scan every second: second 6 reports, four
seconds after the first scan without progress. -/
theorem report_before_observed :
    ¬ ReportsObserved (new 0)
      [scanAt 1 false, scanAt 2 true, scanAt 3 true, scanAt 4 true, scanAt 5 true,
        scanAt 6 true] := by
  intro h
  obtain ⟨earlier, first, rest, hsplit, hold, hquiet⟩ :=
    h [scanAt 1 false, scanAt 2 true, scanAt 3 true, scanAt 4 true, scanAt 5 true]
      (scanAt 6 true) [] rfl (by decide)
  -- the only scan that is old enough is the one that saw progress
  have hyoung : ∀ y ∈ [scanAt 1 false, scanAt 2 true, scanAt 3 true, scanAt 4 true,
      scanAt 5 true] ++ [scanAt 6 true], y.now ≤ (scanAt 6 true).now - (new 0).timeout →
        y.noRunnable = false := by decide
  have hprogress := hyoung first (by rw [hsplit]; simp) hold
  rw [hquiet first (List.mem_cons_self ..)] at hprogress
  cases hprogress

end DeadlockDetector

end GreenThreads.Runtime
