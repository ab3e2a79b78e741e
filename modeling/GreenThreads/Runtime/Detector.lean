import GreenThreads.Runtime.Deadlock
import GreenThreads.Runtime.Step

/-!
# GreenThreads — the detector's goroutine (`internal/runtime/deadlock.go`)

Beside the execution loop, `StartWithContext` launches a goroutine for the detector it has made.
It waits for the ticker and scans at each tick, until `Stop` closes `stopChan`; and `Stop` waits
for both goroutines. `Watched` is a runtime with its detector, that goroutine and a clock.

A scan is not one step. `GetAllFibers` clones one fiber after the other, each under the fiber's own
lock, and the time is taken when all are cloned: fibers, loop and `Spawn` calls move in between.
What a scan enters into the metrics (`checkForDeadlock`) is left out here.
-/

namespace GreenThreads.Runtime

/-- The ID of a fiber. `NewFiber` takes all IDs from one counter, which begins at 1; what matters is
that no two fibers have the same one and none has ID 0. -/
def Key.id : Key → FiberID
  | .main k => 2 * k + 1
  | .spawned f => 2 * f + 2

theorem Key.id_ne_zero (k : Key) : k.id ≠ 0 := by
  cases k <;> simp [Key.id]

theorem Key.id_injective : Function.Injective Key.id := by
  intro k k' h
  cases k with
  | main a =>
    cases k' with
    | main b =>
      have heq : 2 * a + 1 = 2 * b + 1 := h
      exact congrArg Key.main (Nat.eq_of_mul_eq_mul_left Nat.two_pos (Nat.add_right_cancel heq))
    | spawned g =>
      have heq : 2 * a + 1 = (2 * g + 2 : Nat) := h
      omega
  | spawned f =>
    cases k' with
    | main b =>
      have heq : (2 * f + 2 : Nat) = 2 * b + 1 := h
      omega
    | spawned g =>
      have heq : (2 * f + 2 : Nat) = 2 * g + 2 := h
      exact congrArg Key.spawned (Nat.eq_of_mul_eq_mul_left Nat.two_pos (Nat.add_right_cancel heq))

/-- `Clone` of a fiber. The main fiber is never run. -/
def State.clone (s : State) : Key → Fiber
  | .main _ => {}
  | .spawned f => (s.threads f).fiber

/-- `Stop` is at `lifecycleWG.Wait`. -/
def Lifecycle.joins : Lifecycle → Bool
  | .stopJoin _ => true
  | _ => false

/-- The detector that `StartWithContext` makes at time `now`. -/
def DeadlockDetector.restart (dd : DeadlockDetector) (now : Int) : DeadlockDetector :=
  { DeadlockDetector.new now with
    enabled := dd.enabled
    checkInterval := dd.checkInterval
    timeout := dd.timeout }

/-! ## The system -/

/-- Where the detector's goroutine is. -/
inductive WatchPc where
  /-- It has returned, or there is none yet. -/
  | exited
  /-- The look of `dd.Start` at `enabled`. -/
  | starting
  | select
  /-- `checkForDeadlock`: the look at `IsRunning`, then at the main fiber. -/
  | check
  | readMain
  /-- `GetAllFibers`, which has cloned `fibers` and has `keys` left. -/
  | readFibers (main : Option Nat)
  | cloning (main : Option Nat) (keys : List Key) (fibers : List (Key × Fiber))
  /-- The time is taken, and the section under `dd.mu` comes next. -/
  | judging (x : Scan)

namespace WatchPc

def hasExited : WatchPc → Bool
  | exited => true
  | _ => false

/-- A scan has begun to clone fibers and has not been judged. -/
def scanning : WatchPc → Bool
  | cloning _ _ _ | judging _ => true
  | _ => false

end WatchPc

structure Watched where
  rt : State
  detector : DeadlockDetector
  /-- `detector.stopChan` is closed. -/
  stopChan : Bool
  pc : WatchPc
  clock : Int

/-- The cases of the detector's `select`, and what the code leaves open. -/
inductive WatchChoice where
  | stop
  | tick
  /-- `GetAllFibers` ranges over `rt.fibers` in this order. -/
  | keys (keys : List Key)
  /-- `time.Now`. -/
  | now (now : Int)
  /-- The only step there is. -/
  | next

inductive WatchLabel where
  | runtime (l : Label)
  /-- The detector's goroutine takes its next step. -/
  | detector (choice : WatchChoice)
  | setEnabled (enabled : Bool)
  | setTimeout (timeout : Int)
  | clearDeadlocks

namespace Watched

variable (c : Config)

/-- A new runtime; `NewRuntime` makes a first detector, which is never started. -/
def new (rt : State) (now : Int) : Watched := ⟨rt, .new now, false, .exited, now⟩

/-- What a scan has read. -/
def scanOf (main : Option Nat) (fibers : List (Key × Fiber)) (now : Int) : Scan where
  now := now
  fibers := (fibers.map fun x => (x.1.id, x.2)).mergeSort fun a b => a.1 ≤ b.1
  mainFiber := main.map fun k => Key.id (.main k)
  numWorkers := c.numWorkers

variable (w : Watched)

/-- The next step of the detector's goroutine. That `fibersMu` keeps `rt.fibers` as it is while
they are cloned is not modelled, so there are more runs here than the program has. -/
def detectorStep (choice : WatchChoice) : Option Watched :=
  match w.pc, choice with
  | .starting, .next => some { w with pc := if w.detector.enabled then .select else .exited }
  | .select, .stop => if w.stopChan then some { w with pc := .exited } else none
  | .select, .tick => some { w with pc := .check }
  | .check, .next =>
    if w.rt.muHeld then none
    else some { w with pc := if w.rt.isRunning then .readMain else .select }
  | .readMain, .next => some { w with pc := .readFibers w.rt.mainFiber }
  | .readFibers main, .keys keys =>
    if keys.Nodup ∧ keys.toFinset = w.rt.fibers then some { w with pc := .cloning main keys [] }
    else none
  | .cloning main (k :: keys) fibers, .next =>
    some { w with pc := .cloning main keys (fibers ++ [(k, w.rt.clone k)]) }
  | .cloning main [] fibers, .now now =>
    if w.clock ≤ now then
      some { w with clock := now, pc := .judging (scanOf c main fibers now) }
    else none
  | .judging x, .next => some { w with detector := w.detector.scan x, pc := .select }
  | _, _ => none

/-- What a step of the runtime to `rt` is for the detector: a new run has a new detector with a
goroutine of its own, and a `Stop` closes `stopChan` when it stops the scheduler. -/
def moved (l : Label) (rt : State) : Watched :=
  if rt.epoch ≠ w.rt.epoch then
    { w with
      rt := rt
      detector := w.detector.restart w.clock
      stopChan := false
      pc := .starting }
  else if l = .lifecycle ∧ w.rt.lifecycle = .stopSched then { w with rt := rt, stopChan := true }
  else { w with rt := rt }

/-- One step. `Stop` does not get past `lifecycleWG.Wait` before the detector's goroutine has
returned. -/
def step : WatchLabel → Option Watched
  | .runtime l =>
    if l = .lifecycle ∧ w.rt.lifecycle.joins = true ∧ w.pc.hasExited = false then none
    else (Runtime.step c w.rt l).map (w.moved l)
  | .detector choice => w.detectorStep c choice
  | .setEnabled enabled => some { w with detector := { w.detector with enabled := enabled } }
  | .setTimeout timeout => some { w with detector := w.detector.setTimeout timeout }
  | .clearDeadlocks => some { w with detector := w.detector.clearDeadlocks }

end Watched

namespace Watched

variable {c : Config} {w w' : Watched} {l : Label}

@[simp] theorem moved_rt (w : Watched) (l : Label) (rt : State) : (w.moved l rt).rt = rt := by
  unfold moved
  split_ifs <;> rfl

@[simp] theorem moved_clock (w : Watched) (l : Label) (rt : State) :
    (w.moved l rt).clock = w.clock := by
  unfold moved
  split_ifs <;> rfl

/-- Inside a run the detector and its goroutine are left alone. -/
theorem moved_of_epoch {rt : State} (h : rt.epoch = w.rt.epoch) :
    (w.moved l rt).detector = w.detector ∧ (w.moved l rt).pc = w.pc := by
  unfold moved
  rw [if_neg (by simp [h])]
  split_ifs <;> exact ⟨rfl, rfl⟩

/-- A step of the runtime is one of the whole, unless it is `Stop`'s past the wait for the two
goroutines. -/
theorem step_runtime_of {rt : State} (h : Runtime.step c w.rt l = some rt)
    (hwait : l = .lifecycle → w.rt.lifecycle.joins = true → w.pc.hasExited = true) :
    w.step c (.runtime l) = some (w.moved l rt) := by
  have hfree : ¬(l = .lifecycle ∧ w.rt.lifecycle.joins = true ∧ w.pc.hasExited = false) := by
    rintro ⟨hl, hjoins, hin⟩
    rw [hwait hl hjoins] at hin
    cases hin
  simp only [step, if_neg hfree, h, Option.map_some]

theorem step_runtime (h : w.step c (.runtime l) = some w') :
    ∃ rt, Runtime.step c w.rt l = some rt ∧ w' = w.moved l rt := by
  simp only [step] at h
  split_ifs at h
  obtain ⟨rt, hrt, rfl⟩ := Option.map_eq_some_iff.mp h
  exact ⟨rt, hrt, rfl⟩

/-- What the detector's goroutine does in a step: it moves on, it takes the time, or it judges what
it has read. The runtime is left alone. -/
inductive Goes (c : Config) (w : Watched) : WatchChoice → Watched → Prop where
  | started (hpc : w.pc = .starting) :
      Goes c w .next { w with pc := if w.detector.enabled then .select else .exited }
  | stopped (hpc : w.pc = .select) (hstop : w.stopChan = true) :
      Goes c w .stop { w with pc := .exited }
  | ticked (hpc : w.pc = .select) : Goes c w .tick { w with pc := .check }
  | checked (hpc : w.pc = .check) (hmu : w.rt.muHeld = false) :
      Goes c w .next { w with pc := if w.rt.isRunning then .readMain else .select }
  | gotMain (hpc : w.pc = .readMain) : Goes c w .next { w with pc := .readFibers w.rt.mainFiber }
  | gotKeys {main : Option Nat} {keys : List Key} (hpc : w.pc = .readFibers main)
      (hnodup : keys.Nodup) (hkeys : keys.toFinset = w.rt.fibers) :
      Goes c w (.keys keys) { w with pc := .cloning main keys [] }
  | cloned {main : Option Nat} {k : Key} {keys : List Key} {fibers : List (Key × Fiber)}
      (hpc : w.pc = .cloning main (k :: keys) fibers) :
      Goes c w .next { w with pc := .cloning main keys (fibers ++ [(k, w.rt.clone k)]) }
  | timed {main : Option Nat} {fibers : List (Key × Fiber)} {now : Int}
      (hpc : w.pc = .cloning main [] fibers) (hnow : w.clock ≤ now) :
      Goes c w (.now now)
        { w with clock := now, pc := .judging (scanOf c main fibers now) }
  | judged {x : Scan} (hpc : w.pc = .judging x) :
      Goes c w .next { w with detector := w.detector.scan x, pc := .select }

theorem detectorStep_goes {choice : WatchChoice} (h : w.detectorStep c choice = some w') :
    w.Goes c choice w' := by
  unfold detectorStep at h
  cases hpc : w.pc with
  | exited => cases choice <;> simp [hpc] at h
  | starting =>
    cases choice <;> simp only [hpc, reduceCtorEq, Option.some.injEq] at h
    subst h
    exact .started hpc
  | select =>
    cases choice <;> simp only [hpc, reduceCtorEq, Option.some.injEq] at h
    · split_ifs at h with hstop
      cases h
      exact .stopped hpc hstop
    · subst h
      exact .ticked hpc
  | check =>
    cases choice <;> simp only [hpc, reduceCtorEq] at h
    cases hmu : w.rt.muHeld with
    | true => simp [hmu] at h
    | false =>
      rw [hmu, if_neg Bool.false_ne_true, Option.some.injEq] at h
      subst h
      exact .checked hpc hmu
  | readMain =>
    cases choice <;> simp only [hpc, reduceCtorEq, Option.some.injEq] at h
    subst h
    exact .gotMain hpc
  | readFibers main =>
    cases choice <;> simp only [hpc, reduceCtorEq] at h
    split_ifs at h with hkeys
    cases h
    exact .gotKeys hpc hkeys.1 hkeys.2
  | cloning main keys fibers =>
    cases keys with
    | nil =>
      cases choice <;> simp only [hpc, reduceCtorEq] at h
      split_ifs at h with hnow
      cases h
      exact .timed hpc hnow
    | cons k keys =>
      cases choice <;> simp only [hpc, reduceCtorEq, Option.some.injEq] at h
      subst h
      exact .cloned hpc
  | judging x =>
    cases choice <;> simp only [hpc, reduceCtorEq, Option.some.injEq] at h
    subst h
    exact .judged hpc

theorem Goes.rt {choice : WatchChoice} (h : w.Goes c choice w') : w'.rt = w.rt := by
  cases h <;> rfl

end Watched

end GreenThreads.Runtime
