import GreenThreads.Scheduler.Base
import Mathlib.Algebra.GroupWithZero.Nat
import Mathlib.Data.List.FinRange
import Mathlib.Data.List.Perm.Basic
import Mathlib.Logic.Function.Basic

/-!
# GreenThreads — `WorkStealingScheduler` (`internal/scheduler/workstealing.go`)

Each operation on the queues is a sequence of sections under one worker's lock. The sections
come first, as functions on a worker; the operations are then written for a call that runs
alone. What concurrent calls do with the same sections is `WorkStealingRun`.
-/

namespace GreenThreads.Scheduler

/-- `type Worker struct`. -/
structure Worker where
  localQueue : List FiberID := []
  stealsFrom : Nat := 0
  stealsTo : Nat := 0
  deriving DecidableEq, Repr

namespace Worker

variable (fibers : FiberID → Fiber) (w : Worker)

/-- `w.localQueue = append(w.localQueue, f)`. -/
def append (f : FiberID) : Worker := { w with localQueue := w.localQueue ++ [f] }

/-- The section of `Next` on the worker the call has drawn: filter, then pop the front. -/
def popFirst : Worker × Option FiberID :=
  match filterFinishedInPlace fibers w.localQueue with
  | [] => ({ w with localQueue := [] }, none)
  | f :: q => ({ w with localQueue := q }, some f)

/-- The section of `steal` on a victim: filter, then pop the back. -/
def popLast : Worker × Option FiberID :=
  let q := filterFinishedInPlace fibers w.localQueue
  match q.getLast? with
  | none => ({ w with localQueue := q }, none)
  | some f => ({ w with localQueue := q.dropLast, stealsTo := w.stealsTo + 1 }, some f)

/-- The section of `Remove` and `BlockFiber`: the first entry of the fiber, if there is one. -/
def remove (f : FiberID) : Option Worker :=
  if f ∈ w.localQueue then some { w with localQueue := w.localQueue.erase f } else none

/-- The section of `MarkCompleted`. -/
def sweep (f : FiberID) : Worker := { w with localQueue := w.localQueue.filter (· != f) }

end Worker

/-- A `WorkStealingScheduler` with `n` workers and the fibers it is used with. `blocked` is used
instead of the base's blocked queue. -/
structure WorkStealingScheduler (n : Nat) where
  base : BaseScheduler
  workers : Fin n → Worker
  blocked : List FiberID
  stealAttempts : Nat
  stealSuccess : Nat
  nextWorker : UInt64
  fibers : FiberID → Fiber

namespace WorkStealingScheduler

/-- The number of workers `NewWorkStealingScheduler` makes when asked for `k`. -/
def numWorkers (k : Int) : Nat := if k ≤ 0 then 4 else k.toNat

instance (k : Int) : NeZero (numWorkers k) where
  out := by
    unfold numWorkers
    split <;> omega

variable {n : Nat}

/-- `NewWorkStealingScheduler`, over any fibers. -/
def new (n : Nat) (fibers : FiberID → Fiber) : WorkStealingScheduler n :=
  ⟨.new, fun _ => {}, [], 0, 0, 0, fibers⟩

variable (s : WorkStealingScheduler n)

/-- `s.workers[i]` after a section under its lock. -/
def setWorker (i : Fin n) (w : Worker) : WorkStealingScheduler n :=
  { s with workers := Function.update s.workers i w }

/-- `int(^uint(0) >> 1)`, the size `Schedule` starts its comparison from. -/
def maxInt : Nat := 9223372036854775807

/-- One round of the loop of `Schedule`: a smaller queue is preferred to the best so far. -/
def prefer (best : Fin n × Nat) (i : Fin n) (size : Nat) : Fin n × Nat :=
  if size < best.2 then (i, size) else best

/-- The shuffles of `steal`: the other workers in any order. -/
def Shuffle (i : Fin n) (victims : List (Fin n)) : Prop :=
  victims.Perm ((List.finRange n).filter (· ≠ i))

instance (i : Fin n) (victims : List (Fin n)) : Decidable (Shuffle i victims) :=
  inferInstanceAs (Decidable (List.Perm _ _))

/-- The victims in turn, until one has something to steal. -/
def steal (s : WorkStealingScheduler n) :
    List (Fin n) → WorkStealingScheduler n × Option FiberID
  | [] => (s, none)
  | v :: victims =>
    match (s.workers v).popLast s.fibers with
    | (w, some f) => (s.setWorker v w, some f)
    | (w, none) => (s.setWorker v w).steal victims

/-- The workers in turn, until one has the fiber; `none` if no one has. -/
def removeScan (f : FiberID) : List (Fin n) → Option (WorkStealingScheduler n)
  | [] => none
  | i :: rest =>
    match (s.workers i).remove f with
    | some w => some (s.setWorker i w)
    | none => removeScan f rest

/-- `Remove`. -/
def remove (f : FiberID) : WorkStealingScheduler n × Option String :=
  match s.removeScan f (List.finRange n) with
  | some s' => (s', none)
  | none => (s, some ("fiber " ++ toString f ++ " not found in work-stealing queues"))

/-- `BlockFiber`. -/
def blockFiber (f : FiberID) : WorkStealingScheduler n :=
  let s := (s.removeScan f (List.finRange n)).getD s
  { s with
    blocked := s.blocked ++ [f]
    base := { s.base with totalBlocked := s.base.totalBlocked + 1 } }

/-- `MarkCompleted`; `drop` is what it prunes from `completed`. -/
def markCompleted (f : FiberID) (drop : Finset FiberID) : WorkStealingScheduler n :=
  if f ∈ s.base.completed then s
  else { s with base := s.base.record f drop, workers := fun i => (s.workers i).sweep f }

/-- `Clear`; `nextWorker` and the workers' own counters are left as they are. -/
def clear : WorkStealingScheduler n :=
  { s with
    base := s.base.clear
    workers := fun i => { s.workers i with localQueue := [] }
    blocked := []
    stealAttempts := 0
    stealSuccess := 0 }

variable [NeZero n]

/-- The worker `Next` draws: `(atomic.AddUint64(&s.nextWorker, 1) - 1) % uint64(s.numWorkers)`. -/
def drawn : Fin n := Fin.ofNat n (s.nextWorker + 1 - 1).toNat

/-- `Schedule`. -/
def schedule (f : FiberID) : WorkStealingScheduler n × Option String :=
  if s.base.stopped then (s, some "scheduler stopped")
  else
    let best := (List.finRange n).foldl
      (fun best i => prefer best i (s.workers i).localQueue.length) (0, maxInt)
    let s := s.setWorker best.1 ((s.workers best.1).append f)
    ({ s with base := { s.base with totalScheduled := s.base.totalScheduled + 1 } }, none)

/-- `Next`, with the order of the victims as the shuffle gives it. -/
def next (victims : List (Fin n)) : WorkStealingScheduler n × Except String FiberID :=
  if s.base.stopped then (s, .error "scheduler stopped")
  else
    let i := s.drawn
    let s := { s with nextWorker := s.nextWorker + 1 }
    match (s.workers i).popFirst s.fibers with
    | (w, some f) => ({ s.setWorker i w with base := s.base.recordSwitch }, .ok f)
    | (w, none) =>
      match { s.setWorker i w with stealAttempts := s.stealAttempts + 1 }.steal victims with
      | (s, some f) =>
        let s := s.setWorker i { s.workers i with stealsFrom := (s.workers i).stealsFrom + 1 }
        ({ s with stealSuccess := s.stealSuccess + 1, base := s.base.recordSwitch }, .ok f)
      | (s, none) => (s, .error "no fibers in run queue")

/-- `UnblockFiber`, which looks for the shortest queue with a comparison of its own. -/
def unblockFiber (f : FiberID) : WorkStealingScheduler n × Option String :=
  if f ∈ s.blocked then
    let s := { s with
      blocked := s.blocked.erase f
      fibers := Function.update s.fibers f (s.fibers f).unblock }
    let best : Option Nat × Fin n := (List.finRange n).foldl (fun (minLen, minIdx) i =>
      let l := (s.workers i).localQueue.length
      if minLen.all (l < ·) then (some l, i) else (minLen, minIdx)) (none, 0)
    (s.setWorker best.2 ((s.workers best.2).append f), none)
  else (s, some ("fiber " ++ toString f ++ " not found in blocked queue"))

end WorkStealingScheduler

/-! ## A call of `Next` that runs alone -/

namespace WorkStealingScheduler

variable {n : Nat}

/-- The unfinished fibers of a worker's queue. -/
def live (s : WorkStealingScheduler n) (i : Fin n) : List FiberID :=
  filterFinishedInPlace s.fibers (s.workers i).localQueue

/-- A queue that is as it was, or without its finished fibers. -/
def Tidied (s s' : WorkStealingScheduler n) (i : Fin n) : Prop :=
  (s'.workers i).localQueue = (s.workers i).localQueue ∨ (s'.workers i).localQueue = s.live i

variable {s s' : WorkStealingScheduler n}

theorem live_eq_nil_iff {i : Fin n} :
    s.live i = [] ↔ ∀ f ∈ (s.workers i).localQueue, (s.fibers f).isFinished = true := by
  simp [live, filterFinishedInPlace, List.filter_eq_nil_iff]

theorem unfinished_of_mem_live {i : Fin n} {f : FiberID} (h : f ∈ s.live i) :
    (s.fibers f).isFinished = false := by
  simpa using (List.mem_filter.mp h).2

theorem popFirst_of_nil {i : Fin n} (h : s.live i = []) :
    (s.workers i).popFirst s.fibers = ({ s.workers i with localQueue := [] }, none) := by
  rw [live] at h
  rw [Worker.popFirst, h]

theorem popFirst_of_cons {i : Fin n} {f : FiberID} {q : List FiberID} (h : s.live i = f :: q) :
    (s.workers i).popFirst s.fibers = ({ s.workers i with localQueue := q }, some f) := by
  rw [live] at h
  rw [Worker.popFirst, h]

theorem popLast_of_none {v : Fin n} (h : (s.live v).getLast? = none) :
    (s.workers v).popLast s.fibers = ({ s.workers v with localQueue := s.live v }, none) := by
  rw [live] at h ⊢
  simp only [Worker.popLast, h]

theorem popLast_of_some {v : Fin n} {f : FiberID} (h : (s.live v).getLast? = some f) :
    (s.workers v).popLast s.fibers = ({ s.workers v with
      localQueue := (s.live v).dropLast, stealsTo := (s.workers v).stealsTo + 1 }, some f) := by
  rw [live] at h ⊢
  simp only [Worker.popLast, h]

/-- A worker that has been looked at in vain has nothing left. -/
theorem setWorker_live {v : Fin n} {w : Worker} (hw : w.localQueue = s.live v) (j : Fin n) :
    (s.setWorker v w).live j = s.live j ∧ Tidied s (s.setWorker v w) j := by
  by_cases hj : j = v
  · subst hj
    have hq : ((s.setWorker j w).workers j).localQueue = s.live j := by
      rw [← hw]
      simp [setWorker]
    refine ⟨?_, .inr hq⟩
    rw [live, hq]
    simp [setWorker, live, filterFinishedInPlace]
  · have hq : (s.setWorker v w).workers j = s.workers j := by simp [setWorker, hj]
    exact ⟨by rw [live, hq]; rfl, .inl (by rw [hq])⟩

/-- What was tidied, then tidied again, has been tidied. -/
theorem Tidied.trans {s₁ : WorkStealingScheduler n} {j : Fin n} (h : Tidied s s₁ j)
    (hlive : s₁.live j = s.live j) (h' : Tidied s₁ s' j) : Tidied s s' j := by
  rcases h' with hsame | htidy
  · rcases h with hsame₁ | htidy₁
    · exact .inl (hsame.trans hsame₁)
    · exact .inr (hsame.trans htidy₁)
  · exact .inr (htidy.trans hlive)

/-- `steal` fails if no victim has an unfinished fiber, and otherwise takes the last one of a
victim. Induction on the victims. -/
theorem steal_spec (s : WorkStealingScheduler n) (victims : List (Fin n)) :
    ((s.steal victims).2 = none ∧ (∀ v ∈ victims, s.live v = []) ∧
        ∀ j, Tidied s (s.steal victims).1 j)
      ∨ ∃ f, (s.steal victims).2 = some f ∧ ∃ v ∈ victims,
        s.live v = ((s.steal victims).1.workers v).localQueue ++ [f] ∧
        ∀ j, j ≠ v → Tidied s (s.steal victims).1 j := by
  induction victims generalizing s with
  | nil => exact .inl ⟨rfl, nofun, fun _ => .inl rfl⟩
  | cons v victims ih =>
    cases hlast : (s.live v).getLast? with
    | none =>
      have hsteal : s.steal (v :: victims)
          = (s.setWorker v { s.workers v with localQueue := s.live v }).steal victims := by
        rw [steal, popLast_of_none hlast]
      have hset := setWorker_live (s := s) (v := v)
        (w := { s.workers v with localQueue := s.live v }) rfl
      rw [hsteal]
      rcases ih (s.setWorker v { s.workers v with localQueue := s.live v }) with
        ⟨hnone, hempty, htidy⟩ | ⟨f, hsome, u, hu, hlive, htidy⟩
      · refine .inl ⟨hnone, fun u hu => ?_, fun j => (hset j).2.trans (hset j).1 (htidy j)⟩
        rcases List.mem_cons.mp hu with rfl | hu
        · exact List.getLast?_eq_none_iff.mp hlast
        · rw [← (hset u).1]
          exact hempty u hu
      · refine .inr ⟨f, hsome, u, List.mem_cons_of_mem _ hu, ?_, fun j hj =>
          (hset j).2.trans (hset j).1 (htidy j hj)⟩
        rw [← (hset u).1]
        exact hlive
    | some f =>
      rw [steal, popLast_of_some hlast]
      refine .inr ⟨f, rfl, v, List.mem_cons_self, ?_, fun j hj => .inl ?_⟩
      · simp only [setWorker, Function.update_self]
        exact (List.dropLast_append_getLast? f hlast).symm
      · simp [setWorker, hj]

/-- What `Next` takes from which worker. -/
def TakenFrom [NeZero n] (s : WorkStealingScheduler n) (i : Fin n) (f : FiberID)
    (rest : List FiberID) : Prop :=
  (i = s.drawn ∧ s.live i = f :: rest) ∨ (i ≠ s.drawn ∧ s.live i = rest ++ [f])

theorem mem_live_of_takenFrom [NeZero n] {i : Fin n} {f : FiberID} {rest : List FiberID}
    (h : TakenFrom s i f rest) : f ∈ s.live i := by
  rcases h with ⟨-, heq⟩ | ⟨-, heq⟩ <;> simp [heq]

/-- The two outcomes of `Next`. -/
theorem next_outcome [NeZero n] (hrun : s.base.stopped = false) {victims : List (Fin n)}
    (hv : Shuffle s.drawn victims) :
    ((s.next victims).2 = .error "no fibers in run queue" ∧ (∀ i, s.live i = []) ∧
        ∀ j, Tidied s (s.next victims).1 j)
      ∨ ∃ f i, (s.next victims).2 = .ok f ∧
        TakenFrom s i f ((s.next victims).1.workers i).localQueue ∧
        ∀ j, j ≠ i → Tidied s (s.next victims).1 j := by
  unfold next
  rw [if_neg (by simp [hrun])]
  dsimp only
  cases hlive : s.live s.drawn with
  | cons f q =>
    rw [popFirst_of_cons hlive]
    refine .inr ⟨f, s.drawn, rfl, .inl ⟨rfl, ?_⟩, fun j hj => .inl ?_⟩
    · simp [setWorker, hlive]
    · simp [setWorker, hj]
  | nil =>
    rw [popFirst_of_nil hlive]
    dsimp only
    -- the state `steal` starts from: the queue of the worker drawn is empty now
    generalize hs₁ : ({ WorkStealingScheduler.setWorker { s with nextWorker := s.nextWorker + 1 }
      s.drawn { s.workers s.drawn with localQueue := [] } with
      stealAttempts := s.stealAttempts + 1 } : WorkStealingScheduler n) = s₁
    have hset : ∀ j, s₁.live j = s.live j ∧ Tidied s s₁ j := by
      subst hs₁
      exact setWorker_live (v := s.drawn) (w := { s.workers s.drawn with localQueue := [] })
        hlive.symm
    have hspec := steal_spec s₁ victims
    rcases hsteal : s₁.steal victims with ⟨s₂, r⟩
    rw [hsteal] at hspec
    rcases hspec with ⟨hnone, hempty, htidy⟩ | ⟨f, hsome, v, hv', hstolen, htidy⟩
    · cases hnone
      refine .inl ⟨rfl, fun i => ?_, fun j => (hset j).2.trans (hset j).1 (htidy j)⟩
      by_cases hi : i = s.drawn
      · rw [hi, hlive]
      · rw [← (hset i).1]
        exact hempty i (hv.mem_iff.mpr (by simp [hi]))
    · cases hsome
      have hne : v ≠ s.drawn := by simpa using hv.mem_iff.mp hv'
      have hqueue : ∀ j, ((s₂.setWorker s.drawn { s₂.workers s.drawn with
          stealsFrom := (s₂.workers s.drawn).stealsFrom + 1 }).workers j).localQueue
          = (s₂.workers j).localQueue := by
        intro j
        by_cases hj : j = s.drawn
        · subst hj
          simp [setWorker]
        · simp [setWorker, hj]
      refine .inr ⟨f, v, rfl, .inr ⟨hne, ?_⟩, fun j hj => ?_⟩
      · dsimp only
        rw [hqueue, ← (hset v).1]
        exact hstolen
      · have htidied := (hset j).2.trans (hset j).1 (htidy j hj)
        unfold Tidied at htidied ⊢
        dsimp only
        rwa [hqueue]

/-- A `Next` that runs alone: whatever the queues, the counter and the shuffle, it fails exactly if
no queue holds an unfinished fiber; otherwise it returns the first one of the worker it has drawn
or the last one of another worker. It takes out that entry; the other entries it drops are finished
ones. -/
theorem next_work_conserving [NeZero n] (s : WorkStealingScheduler n)
    (hrun : s.base.stopped = false) {victims : List (Fin n)} (hv : Shuffle s.drawn victims) :
    ((s.next victims).2 = .error "no fibers in run queue"
        ↔ ∀ i, ∀ f ∈ (s.workers i).localQueue, (s.fibers f).isFinished = true)
      ∧ ((∀ i, ∀ f ∈ (s.workers i).localQueue, (s.fibers f).isFinished = true) →
        ∀ j, Tidied s (s.next victims).1 j)
      ∧ ((∃ i, ∃ f ∈ (s.workers i).localQueue, (s.fibers f).isFinished = false) →
        ∃ f i, (s.next victims).2 = .ok f ∧ (s.fibers f).isFinished = false
          ∧ TakenFrom s i f ((s.next victims).1.workers i).localQueue
          ∧ ∀ j, j ≠ i → Tidied s (s.next victims).1 j) := by
  simp only [← live_eq_nil_iff]
  rcases next_outcome hrun hv with ⟨herr, hempty, htidy⟩ | ⟨f, i, hok, htaken, htidy⟩
  · refine ⟨⟨fun _ => hempty, fun _ => herr⟩, fun _ => htidy, fun ⟨i, f, hf, hlive⟩ => ?_⟩
    have hfin := live_eq_nil_iff.mp (hempty i) f hf
    rw [hlive] at hfin
    cases hfin
  · have hmem := mem_live_of_takenFrom htaken
    have hsome : ¬ ∀ i, s.live i = [] := fun hnil => List.ne_nil_of_mem hmem (hnil i)
    refine ⟨⟨fun herr => ?_, fun hnil => absurd hnil hsome⟩, fun hnil => absurd hnil hsome,
      fun _ => ⟨f, i, hok, unfinished_of_mem_live hmem, htaken, htidy⟩⟩
    rw [hok] at herr
    cases herr

/-- 300 workers, and the counter is about to wrap: worker 15 is drawn. It has nothing unfinished,
and fiber 3 is stolen from the end of what is unfinished at worker 299. -/
theorem next_work_conserving_wrap :
    let s : WorkStealingScheduler 300 :=
      { new 300 fun f => { state := if f = 1 then .finished else .ready } with
        workers := fun i => { localQueue := if i = 299 then [2, 3, 1] else [1] }
        nextWorker := 18446744073709551615 }
    let victims := (List.finRange 300).filter (· ≠ s.drawn)
    s.drawn = 15 ∧ (s.next victims).2 = .ok 3
      ∧ ((s.next victims).1.workers 299).localQueue = [2] := by
  intro s victims
  obtain ⟨-, -, htaken⟩ := next_work_conserving s rfl (List.Perm.refl victims)
  obtain ⟨f, i, hok, -, hfrom, -⟩ := htaken ⟨299, 2, by decide, by decide⟩
  have hi : i = 299 := by
    by_contra hne
    have hnil : s.live i = [] := by
      simp [s, live, filterFinishedInPlace, new, hne, Fiber.isFinished]
    exact List.ne_nil_of_mem (mem_live_of_takenFrom hfrom) hnil
  subst hi
  rcases hfrom with ⟨hdrawn, -⟩ | ⟨-, hlive⟩
  · exact absurd hdrawn (by decide)
  · have hsplit : [2] ++ [3] = ((s.next victims).1.workers 299).localQueue ++ [f] := hlive
    obtain ⟨hrest, hf⟩ := List.append_inj' hsplit rfl
    cases hf
    exact ⟨by decide, hok, hrest.symm⟩

end WorkStealingScheduler

end GreenThreads.Scheduler
