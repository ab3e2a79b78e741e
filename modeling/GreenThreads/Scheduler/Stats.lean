import GreenThreads.Scheduler.Contract
import GreenThreads.Scheduler.PriorityOrder

/-!
# GreenThreads — the statistics of the four schedulers

`GetStats` with what it is compared to: `Size`, `GetRunQueue`, `GetBlockedQueue` and the number of
calls since the last `Clear`. The counters are those of the embedded `BaseScheduler`; the priority
scheduler's `BlockFiber` does not count, and the work-stealing scheduler's `GetStats` has no
`CurrentBlocked`.

* `Tally` — the calls, counted beside the scheduler by what they return;
* `Truthful` — the statistics say what the queues and the tally say;
* `getStats_truthful_iff` — in which states they do.

Left out: the average times, which nobody sets, and `LastScheduleTime`.
-/

namespace GreenThreads.Scheduler

open WorkStealingScheduler (numWorkers)

/-- `type SchedulerStats struct`. -/
structure SchedulerStats where
  totalScheduled : Nat := 0
  totalCompleted : Nat := 0
  totalBlocked : Nat := 0
  currentRunQueue : Nat := 0
  currentBlocked : Nat := 0
  contextSwitches : Nat := 0
  deriving DecidableEq, Repr

/-! ## The readers -/

namespace QueueScheduler

variable (s : QueueScheduler)

/-- `GetRunQueue`. -/
def getRunQueue : List (FiberID × Fiber) := s.runQueue.map fun f => (f, s.fibers f)

/-- `GetBlockedQueue`. -/
def getBlockedQueue : List (FiberID × Fiber) := s.base.blockedQueue.map fun f => (f, s.fibers f)

/-- `Size`. -/
def size : Nat := s.runQueue.length

/-- `GetStats`. -/
def getStats : SchedulerStats :=
  { totalScheduled := s.base.totalScheduled
    totalCompleted := s.base.totalCompleted
    totalBlocked := s.base.totalBlocked
    currentRunQueue := s.runQueue.length
    currentBlocked := s.base.blockedQueue.length
    contextSwitches := s.base.contextSwitches }

end QueueScheduler

namespace PriorityScheduler

variable (s : PriorityScheduler)

/-- `GetBlockedQueue`, which is the base's. -/
def getBlockedQueue : List (FiberID × Fiber) := s.base.blockedQueue.map fun f => (f, s.fibers f)

/-- `Size`. -/
def size : Nat := s.pqueue.length

/-- `GetStats`. -/
def getStats : SchedulerStats :=
  { totalScheduled := s.base.totalScheduled
    totalCompleted := s.base.totalCompleted
    totalBlocked := s.base.totalBlocked
    currentRunQueue := s.pqueue.length
    currentBlocked := s.base.blockedQueue.length
    contextSwitches := s.base.contextSwitches }

end PriorityScheduler

namespace WorkStealingScheduler

variable {n : Nat} (s : WorkStealingScheduler n)

/-- `GetRunQueue`. -/
def getRunQueue : List (FiberID × Fiber) :=
  (List.finRange n).flatMap fun i => (s.workers i).localQueue.map fun f => (f, s.fibers f)

/-- `GetBlockedQueue`. -/
def getBlockedQueue : List (FiberID × Fiber) := s.blocked.map fun f => (f, s.fibers f)

/-- `Size`. -/
def size : Nat :=
  (List.finRange n).foldl (fun total i => total + (s.workers i).localQueue.length) 0

/-- `GetStats`, which leaves `CurrentBlocked` at zero. -/
def getStats : SchedulerStats :=
  { totalScheduled := s.base.totalScheduled
    totalCompleted := s.base.totalCompleted
    totalBlocked := s.base.totalBlocked
    currentRunQueue := s.size
    contextSwitches := s.base.contextSwitches }

end WorkStealingScheduler

namespace AnyScheduler

/-- The embedded `BaseScheduler`. -/
def base : AnyScheduler → BaseScheduler
  | .fifo s | .roundRobin s => s.base
  | .priority s => s.base
  | .workStealing _ s => s.base

def getRunQueue : AnyScheduler → List (FiberID × Fiber)
  | .fifo s | .roundRobin s => s.getRunQueue
  | .priority s => s.getRunQueue
  | .workStealing _ s => s.getRunQueue

def getBlockedQueue : AnyScheduler → List (FiberID × Fiber)
  | .fifo s | .roundRobin s => s.getBlockedQueue
  | .priority s => s.getBlockedQueue
  | .workStealing _ s => s.getBlockedQueue

def size : AnyScheduler → Nat
  | .fifo s | .roundRobin s => s.size
  | .priority s => s.size
  | .workStealing _ s => s.size

def getStats : AnyScheduler → SchedulerStats
  | .fifo s | .roundRobin s => s.getStats
  | .priority s => s.getStats
  | .workStealing _ s => s.getStats

def clear : AnyScheduler → AnyScheduler
  | .fifo s => .fifo s.clear
  | .roundRobin s => .roundRobin s.clear
  | .priority s => .priority s.clear
  | .workStealing k s => .workStealing k s.clear

/-- A method of the embedded `BaseScheduler` that nobody overrides. -/
def onBase (g : BaseScheduler → BaseScheduler) : AnyScheduler → AnyScheduler
  | .fifo s => .fifo { s with base := g s.base }
  | .roundRobin s => .roundRobin { s with base := g s.base }
  | .priority s => .priority { s with base := g s.base }
  | .workStealing k s => .workStealing k { s with base := g s.base }

/-- `Start`. -/
def start : AnyScheduler → AnyScheduler := onBase fun b => b.start.1

/-- `Stop`. -/
def stop : AnyScheduler → AnyScheduler := onBase fun b => b.stop.1

end AnyScheduler

/-! ## Calls since the last `Clear` -/

/-- How often fibers were scheduled, blocked and taken. -/
structure Tally where
  scheduled : Nat := 0
  blocked : Nat := 0
  switches : Nat := 0
  deriving DecidableEq, Repr

/-- The tally after one more operation on `s`, by what it returns. -/
def Tally.count (t : Tally) (s : AnyScheduler) : AnyScheduler.Label → Tally
  | .schedule f =>
    match s.schedule f with
    | some (_, none) => { t with scheduled := t.scheduled + 1 }
    | _ => t
  | .next victims =>
    match s.next victims with
    | some (_, .ok _) => { t with switches := t.switches + 1 }
    | _ => t
  | .blockFiber _ => { t with blocked := t.blocked + 1 }
  | .unblockFiber _ | .remove _ | .markCompleted _ _ | .finish _ => t

/-- A scheduler and the tally of its calls. -/
structure Tallied where
  sched : AnyScheduler
  tally : Tally

namespace Tallied

inductive Label where
  | op (l : AnyScheduler.Label)
  | clear
  | start
  | stop

def new (t : SchedulerType) (k : Int) (fibers : FiberID → Fiber) : Tallied := ⟨.new t k fibers, {}⟩

/-- One call. -/
def step (x : Tallied) : Label → Option Tallied
  | .op l => (x.sched.step l).map fun s => ⟨s, x.tally.count x.sched l⟩
  | .clear => some ⟨x.sched.clear, {}⟩
  | .start => some ⟨x.sched.start, x.tally⟩
  | .stop => some ⟨x.sched.stop, x.tally⟩

/-- `GetStats` tells the truth. -/
structure Truthful (x : Tallied) : Prop where
  runQueue : x.sched.getStats.currentRunQueue = x.sched.size
  size : x.sched.size = x.sched.getRunQueue.length
  blocked : x.sched.getStats.currentBlocked = x.sched.getBlockedQueue.length
  totalBlocked : x.sched.getStats.totalBlocked = x.tally.blocked
  totalScheduled : x.sched.getStats.totalScheduled = x.tally.scheduled
  contextSwitches : x.sched.getStats.contextSwitches = x.tally.switches

end Tallied

/-! ## What an operation does to the counters -/

/-- The counters of the base that the tally is about. -/
def BaseScheduler.counters (b : BaseScheduler) : Tally :=
  ⟨b.totalScheduled, b.totalBlocked, b.contextSwitches⟩

namespace QueueScheduler

variable (s : QueueScheduler) (f : FiberID)

theorem counters_unblockFiber : (s.unblockFiber f).1.base.counters = s.base.counters := by
  unfold unblockFiber
  split <;> rfl

theorem counters_remove : (s.remove f).1.base.counters = s.base.counters := by
  unfold remove
  split
  · rfl
  · split <;> rfl

theorem counters_markCompleted (drop : Finset FiberID) :
    (s.markCompleted f drop).base.counters = s.base.counters := by
  unfold markCompleted
  split
  · rfl
  · rw [counters_remove]
    rfl

theorem base_next : (s.next.1.base = s.base ∧ ∃ err, s.next.2 = .error err) ∨
    s.next.1.base = s.base.recordSwitch ∧ ∃ f, s.next.2 = .ok f := by
  unfold next
  split
  · exact .inl ⟨rfl, _, rfl⟩
  · split
    · exact .inl ⟨rfl, _, rfl⟩
    · exact .inr ⟨rfl, _, rfl⟩

end QueueScheduler

namespace PriorityScheduler

variable {s s' : PriorityScheduler}

theorem base_pushFiber {f : FiberID} (h : s.pushFiber f = some s') : s'.base = s.base := by
  obtain ⟨pq, -, rfl⟩ := Option.map_eq_some_iff.mp h
  rfl

theorem base_removeAt {i : Nat} (h : s.removeAt i = some s') : s'.base = s.base := by
  obtain ⟨pq, -, rfl⟩ := Option.map_eq_some_iff.mp h
  rfl

theorem base_ageAllLocked (h : s.ageAllLocked = some s') : s'.base = s.base := by
  obtain ⟨pq, -, rfl⟩ := Option.map_eq_some_iff.mp h
  rfl

theorem base_blockFiber {f : FiberID} (h : s.blockFiber f = some s') :
    s'.base = { s.base with blockedQueue := s.base.blockedQueue ++ [f] } := by
  unfold blockFiber at h
  obtain ⟨s₁, hs₁, rfl⟩ := Option.map_eq_some_iff.mp h
  have hbase : s₁.base = s.base := by
    split at hs₁
    · exact base_removeAt hs₁
    · cases hs₁
      rfl
  simp [hbase]

theorem counters_unblockFiber {f : FiberID} {err : Option String}
    (h : s.unblockFiber f = some (s', err)) : s'.base.counters = s.base.counters := by
  unfold unblockFiber at h
  split at h
  · obtain ⟨s₁, hs₁, heq⟩ := Option.map_eq_some_iff.mp h
    cases heq
    rw [base_pushFiber hs₁]
    rfl
  · cases h
    rfl

theorem counters_remove {f : FiberID} {err : Option String} (h : s.remove f = some (s', err)) :
    s'.base.counters = s.base.counters := by
  unfold remove at h
  split at h
  · cases h
    rfl
  · obtain ⟨s₁, hs₁, heq⟩ := Option.map_eq_some_iff.mp h
    cases heq
    rw [base_removeAt hs₁]

theorem counters_markCompleted {f : FiberID} {drop : Finset FiberID}
    (h : s.markCompleted f drop = some s') : s'.base.counters = s.base.counters := by
  unfold markCompleted at h
  dsimp only at h
  split at h
  · cases h
    rfl
  · split at h
    · cases h
      rfl
    · rw [base_removeAt h]
      rfl

theorem base_popNext {r : Except String FiberID} (h : s.popNext = some (s', r)) :
    s'.base = s.base.recordSwitch ∧ ∃ f, r = .ok f := by
  obtain ⟨⟨pq, item⟩, -, heq⟩ := Option.map_eq_some_iff.mp h
  cases heq
  exact ⟨rfl, item.fiber, rfl⟩

theorem base_next {r : Except String FiberID} (h : s.next = some (s', r)) :
    (s'.base = s.base ∧ ∃ err, r = .error err) ∨
      s'.base = s.base.recordSwitch ∧ ∃ f, r = .ok f := by
  unfold next at h
  split at h
  · cases h
    exact .inl ⟨rfl, _, rfl⟩
  · split at h
    · cases h
    · cases h
      exact .inl ⟨rfl, _, rfl⟩
    · -- when the interval is over the queue is aged before the pop
      dsimp only at h
      split at h
      · obtain ⟨s₁, hage, hpop⟩ := Option.bind_eq_some_iff.mp h
        have := base_popNext hpop
        rw [base_ageAllLocked hage] at this
        exact .inr this
      · have := base_popNext h
        exact .inr this

end PriorityScheduler

namespace WorkStealingScheduler

variable {n : Nat} (s : WorkStealingScheduler n)

theorem base_steal {s' : WorkStealingScheduler n} {r : Option FiberID} {victims : List (Fin n)}
    (h : s.steal victims = (s', r)) : s'.base = s.base := by
  induction victims generalizing s with
  | nil =>
    cases h
    rfl
  | cons v victims ih =>
    unfold steal at h
    split at h
    · cases h
      rfl
    · next w hpop =>
      have := ih _ h
      exact this

theorem base_removeScan {s' : WorkStealingScheduler n} {f : FiberID} {rest : List (Fin n)}
    (h : s.removeScan f rest = some s') : s'.base = s.base := by
  induction rest with
  | nil => cases h
  | cons i rest ih =>
    unfold removeScan at h
    split at h
    · cases h
      rfl
    · exact ih h

theorem counters_remove (f : FiberID) : (s.remove f).1.base.counters = s.base.counters := by
  unfold remove
  split
  · next s' hs' => rw [s.base_removeScan hs']
  · rfl

theorem counters_markCompleted (f : FiberID) (drop : Finset FiberID) :
    (s.markCompleted f drop).base.counters = s.base.counters := by
  unfold markCompleted
  split <;> rfl

theorem counters_blockFiber (f : FiberID) : (s.blockFiber f).base.counters
    = { s.base.counters with blocked := s.base.counters.blocked + 1 } := by
  have hbase : ((s.removeScan f (List.finRange n)).getD s).base = s.base := by
    cases hscan : s.removeScan f (List.finRange n) with
    | none => rfl
    | some s' => exact s.base_removeScan hscan
  simp [blockFiber, BaseScheduler.counters, hbase]

theorem counters_unblockFiber [NeZero n] (f : FiberID) :
    (s.unblockFiber f).1.base.counters = s.base.counters := by
  unfold unblockFiber
  split <;> rfl

theorem base_next [NeZero n] (victims : List (Fin n)) :
    ((s.next victims).1.base = s.base ∧ ∃ err, (s.next victims).2 = .error err) ∨
      (s.next victims).1.base = s.base.recordSwitch ∧ ∃ f, (s.next victims).2 = .ok f := by
  unfold next
  split
  · exact .inl ⟨rfl, _, rfl⟩
  · -- the own queue, then the victims
    dsimp only
    split
    · exact .inr ⟨rfl, _, rfl⟩
    · next w hpop =>
      split
      · next s' f hsteal =>
        have hbase := base_steal _ hsteal
        exact .inr ⟨congrArg BaseScheduler.recordSwitch hbase, f, rfl⟩
      · next s' hsteal =>
        have hbase := base_steal _ hsteal
        exact .inl ⟨hbase, _, rfl⟩

end WorkStealingScheduler

namespace AnyScheduler

variable {s s' : AnyScheduler} {l : AnyScheduler.Label}

/-- What an operation does to the counters: what it does to the tally, but for `BlockFiber` of the
priority scheduler. -/
def counted (s : AnyScheduler) (l : AnyScheduler.Label) (t : Tally) : Tally :=
  if s.type = .priority then { t.count s l with blocked := t.blocked } else t.count s l

theorem queue_step {s : QueueScheduler} {g : QueueScheduler → AnyScheduler}
    (hg : g = fifo ∨ g = roundRobin) (h : (g s).step l = some s') :
    ∃ q, s' = g q ∧ q.base.counters = s.base.counters.count (g s) l := by
  rcases hg with rfl | rfl <;>
  · cases l with
    | schedule f =>
      cases h
      refine ⟨(s.schedule f).1, rfl, ?_⟩
      by_cases hstop : s.base.stopped <;>
        simp [Tally.count, schedule, QueueScheduler.schedule, hstop, BaseScheduler.counters]
    | next victims =>
      cases h
      refine ⟨s.next.1, rfl, ?_⟩
      obtain ⟨hbase, err, hr⟩ | ⟨hbase, f, hr⟩ := s.base_next
      · simp [Tally.count, next, hbase, hr, Prod.map]
      · simp [Tally.count, next, hbase, hr, Prod.map, BaseScheduler.counters,
          BaseScheduler.recordSwitch]
    | blockFiber f =>
      cases h
      exact ⟨_, rfl, rfl⟩
    | unblockFiber f =>
      cases h
      exact ⟨_, rfl, s.counters_unblockFiber f⟩
    | remove f =>
      cases h
      exact ⟨_, rfl, s.counters_remove f⟩
    | markCompleted f drop =>
      simp only [step] at h
      split at h
      · cases h
        exact ⟨_, rfl, s.counters_markCompleted f drop⟩
      · cases h
    | finish f =>
      cases h
      exact ⟨_, rfl, rfl⟩

theorem priority_step {s : PriorityScheduler} (h : (priority s).step l = some s') :
    ∃ q, s' = priority q ∧ q.base.counters
      = { s.base.counters.count (priority s) l with blocked := s.base.counters.blocked } := by
  cases l with
  | schedule f =>
    obtain ⟨⟨s₁, err⟩, hs₁, rfl⟩ := Option.map_eq_some_iff.mp h
    obtain ⟨⟨q, err'⟩, hq, heq⟩ := Option.map_eq_some_iff.mp hs₁
    cases heq
    refine ⟨q, rfl, ?_⟩
    simp only [Tally.count, hs₁]
    unfold PriorityScheduler.schedule at hq
    split at hq
    · cases hq
      rfl
    · obtain ⟨q₁, hpush, heq⟩ := Option.map_eq_some_iff.mp hq
      cases heq
      simp [BaseScheduler.counters, PriorityScheduler.base_pushFiber hpush]
  | next victims =>
    obtain ⟨⟨s₁, r⟩, hs₁, rfl⟩ := Option.map_eq_some_iff.mp h
    obtain ⟨⟨q, r'⟩, hq, heq⟩ := Option.map_eq_some_iff.mp hs₁
    cases heq
    refine ⟨q, rfl, ?_⟩
    simp only [Tally.count, hs₁]
    obtain ⟨hbase, err, rfl⟩ | ⟨hbase, f, rfl⟩ := PriorityScheduler.base_next hq
    · rw [hbase]
      rfl
    · rw [hbase]
      rfl
  | blockFiber f =>
    obtain ⟨q, hq, rfl⟩ := Option.map_eq_some_iff.mp h
    exact ⟨q, rfl, by rw [PriorityScheduler.base_blockFiber hq]; rfl⟩
  | unblockFiber f =>
    obtain ⟨⟨s₁, err⟩, hs₁, rfl⟩ := Option.map_eq_some_iff.mp h
    obtain ⟨⟨q, err'⟩, hq, heq⟩ := Option.map_eq_some_iff.mp hs₁
    cases heq
    exact ⟨q, rfl, PriorityScheduler.counters_unblockFiber hq⟩
  | remove f =>
    obtain ⟨⟨s₁, err⟩, hs₁, rfl⟩ := Option.map_eq_some_iff.mp h
    obtain ⟨⟨q, err'⟩, hq, heq⟩ := Option.map_eq_some_iff.mp hs₁
    cases heq
    exact ⟨q, rfl, PriorityScheduler.counters_remove hq⟩
  | markCompleted f drop =>
    simp only [step] at h
    split at h
    · obtain ⟨q, hq, rfl⟩ := Option.map_eq_some_iff.mp h
      exact ⟨q, rfl, PriorityScheduler.counters_markCompleted hq⟩
    · cases h
  | finish f =>
    cases h
    exact ⟨_, rfl, rfl⟩

theorem workStealing_step {k : Int} {s : WorkStealingScheduler (numWorkers k)}
    (h : (workStealing k s).step l = some s') : ∃ q, s' = workStealing k q ∧
      q.base.counters = s.base.counters.count (workStealing k s) l := by
  cases l with
  | schedule f =>
    cases h
    refine ⟨(s.schedule f).1, rfl, ?_⟩
    by_cases hstop : s.base.stopped <;>
      simp [Tally.count, schedule, WorkStealingScheduler.schedule, hstop, BaseScheduler.counters,
        WorkStealingScheduler.setWorker]
  | next victims =>
    obtain ⟨⟨s₁, r⟩, hs₁, rfl⟩ := Option.map_eq_some_iff.mp h
    simp only [Tally.count, hs₁]
    simp only [next] at hs₁
    split at hs₁
    · have hbase := s.base_next (victims.map (Fin.ofNat _))
      rcases hnext : s.next (victims.map (Fin.ofNat _)) with ⟨q, r'⟩
      rw [hnext] at hs₁ hbase
      cases hs₁
      refine ⟨q, rfl, ?_⟩
      obtain ⟨hbase, err, rfl⟩ | ⟨hbase, f, rfl⟩ := hbase
      · exact congrArg BaseScheduler.counters hbase
      · exact congrArg BaseScheduler.counters hbase
    · cases hs₁
  | blockFiber f =>
    cases h
    exact ⟨_, rfl, s.counters_blockFiber f⟩
  | unblockFiber f =>
    cases h
    exact ⟨_, rfl, s.counters_unblockFiber f⟩
  | remove f =>
    cases h
    exact ⟨_, rfl, s.counters_remove f⟩
  | markCompleted f drop =>
    simp only [step] at h
    split at h
    · cases h
      exact ⟨_, rfl, s.counters_markCompleted f drop⟩
    · cases h
  | finish f =>
    cases h
    exact ⟨_, rfl, rfl⟩

theorem step_counters (h : s.step l = some s') :
    s'.type = s.type ∧ s'.base.counters = s.counted l s.base.counters := by
  cases s with
  | fifo s =>
    obtain ⟨q, rfl, hq⟩ := queue_step (.inl rfl) h
    exact ⟨rfl, hq⟩
  | roundRobin s =>
    obtain ⟨q, rfl, hq⟩ := queue_step (.inr rfl) h
    exact ⟨rfl, hq⟩
  | priority s =>
    obtain ⟨q, rfl, hq⟩ := priority_step h
    exact ⟨rfl, hq⟩
  | workStealing k s =>
    obtain ⟨q, rfl, hq⟩ := workStealing_step h
    exact ⟨rfl, hq⟩

end AnyScheduler

/-! ## Sequences of calls -/

namespace Tallied

variable {x x' : Tallied}

/-- What is recorded of a tally: the priority scheduler does not record who is blocked. -/
def recorded (t : SchedulerType) (y : Tally) : Tally :=
  if t = .priority then { y with blocked := 0 } else y

/-- The counters are what is recorded of the tally. -/
def Counted (x : Tallied) : Prop := x.sched.base.counters = recorded x.sched.type x.tally

/-- The tally counts no otherwise for what is recorded of it. -/
theorem count_recorded (y : Tally) (s : AnyScheduler) (l : AnyScheduler.Label) :
    s.counted l (recorded s.type y) = recorded s.type (y.count s l) := by
  unfold AnyScheduler.counted recorded
  split
  · -- `blocked` is the one figure that the two sides leave out
    cases l with
    | schedule f =>
      simp only [Tally.count]
      split <;> rfl
    | next victims =>
      simp only [Tally.count]
      split <;> rfl
    | blockFiber | unblockFiber | remove | markCompleted | finish => rfl
  · rfl

theorem onBase_counters {g : BaseScheduler → BaseScheduler}
    (hg : ∀ b, (g b).counters = b.counters) (s : AnyScheduler) :
    (s.onBase g).type = s.type ∧ (s.onBase g).base.counters = s.base.counters := by
  cases s with
  | fifo | roundRobin | priority | workStealing => exact ⟨rfl, hg _⟩

theorem clear_counters (s : AnyScheduler) : s.clear.base.counters = {} := by
  cases s <;> rfl

theorem Counted.step {l : Label} (hi : x.Counted) (h : x.step l = some x') : x'.Counted := by
  cases l with
  | op l =>
    obtain ⟨s', hs', rfl⟩ := Option.map_eq_some_iff.mp h
    obtain ⟨htype, hcounters⟩ := AnyScheduler.step_counters hs'
    unfold Counted at hi ⊢
    rw [hcounters, hi, htype]
    exact count_recorded x.tally x.sched l
  | clear =>
    cases h
    unfold Counted recorded
    rw [clear_counters]
    split <;> rfl
  | start =>
    cases h
    obtain ⟨htype, hcounters⟩ := onBase_counters (g := fun b => b.start.1)
      (fun b => by unfold BaseScheduler.start; split <;> rfl) x.sched
    exact hcounters.trans (hi.trans (congrArg (recorded · x.tally) htype.symm))
  | stop =>
    cases h
    obtain ⟨htype, hcounters⟩ := onBase_counters (g := fun b => b.stop.1)
      (fun b => by unfold BaseScheduler.stop; split <;> rfl) x.sched
    exact hcounters.trans (hi.trans (congrArg (recorded · x.tally) htype.symm))

theorem counted_new (t : SchedulerType) (k : Int) (fibers : FiberID → Fiber) :
    (new t k fibers).Counted := by
  cases t <;> rfl

/-! ## The truth -/

theorem size_eq (s : AnyScheduler) :
    s.getStats.currentRunQueue = s.size ∧ s.size = s.getRunQueue.length := by
  cases s with
  | fifo s | roundRobin s =>
    exact ⟨rfl, by simp [AnyScheduler.size, AnyScheduler.getRunQueue, QueueScheduler.size,
      QueueScheduler.getRunQueue]⟩
  | priority s =>
    exact ⟨rfl, by simp [AnyScheduler.size, AnyScheduler.getRunQueue, PriorityScheduler.size,
      PriorityScheduler.getRunQueue]⟩
  | workStealing k s =>
    refine ⟨rfl, ?_⟩
    simp only [AnyScheduler.size, AnyScheduler.getRunQueue, WorkStealingScheduler.size,
      WorkStealingScheduler.getRunQueue, List.length_flatMap, List.length_map]
    rw [← List.foldl_map, List.sum_eq_foldl]

theorem blocked_iff (s : AnyScheduler) :
    s.getStats.currentBlocked = s.getBlockedQueue.length ↔
      (s.type = .workStealing → s.blockedQueue = []) := by
  cases s with
  | fifo s | roundRobin s =>
    exact iff_of_true (by simp [AnyScheduler.getStats, AnyScheduler.getBlockedQueue,
      QueueScheduler.getStats, QueueScheduler.getBlockedQueue]) nofun
  | priority s =>
    exact iff_of_true (by simp [AnyScheduler.getStats, AnyScheduler.getBlockedQueue,
      PriorityScheduler.getStats, PriorityScheduler.getBlockedQueue]) nofun
  | workStealing k s =>
    simp [AnyScheduler.getStats, AnyScheduler.getBlockedQueue, AnyScheduler.type,
      AnyScheduler.blockedQueue, WorkStealingScheduler.getStats,
      WorkStealingScheduler.getBlockedQueue, eq_comm]

theorem totals_eq (s : AnyScheduler) : s.getStats.totalScheduled = s.base.totalScheduled ∧
    s.getStats.totalBlocked = s.base.totalBlocked ∧
    s.getStats.contextSwitches = s.base.contextSwitches := by
  cases s <;> exact ⟨rfl, rfl, rfl⟩

/-- **When `GetStats` tells the truth.** After any sequence of operations on a scheduler of any
type, all its figures are right, but that the priority scheduler counts no fiber as blocked, and
the work-stealing scheduler says that none is. -/
theorem getStats_truthful_iff {t : SchedulerType} {k : Int} {fibers : FiberID → Fiber}
    (h : Trans.Reach step Trans.anyStep (new t k fibers) x) :
    x.Truthful ↔ (x.sched.type = .priority → x.tally.blocked = 0) ∧
      (x.sched.type = .workStealing → x.sched.blockedQueue = []) := by
  have hcounted : x.Counted :=
    Trans.Reach.invariant (counted_new t k fibers) (fun _ _ _ hi _ hs => Counted.step hi hs) h
  obtain ⟨hscheduled, hblocked, hswitches⟩ := totals_eq x.sched
  unfold Counted recorded BaseScheduler.counters at hcounted
  constructor
  · -- the priority scheduler has recorded 0
    intro htrue
    refine ⟨fun hp => ?_, (blocked_iff x.sched).mp htrue.blocked⟩
    rw [if_pos hp, Tally.mk.injEq] at hcounted
    rw [← htrue.totalBlocked, hblocked, hcounted.2.1]
  · rintro ⟨hpriority, hsteal⟩
    have hrecorded : (⟨x.sched.base.totalScheduled, x.sched.base.totalBlocked,
        x.sched.base.contextSwitches⟩ : Tally) = x.tally := by
      rw [hcounted]
      split
      · next hp => rw [← hpriority hp]
      · rfl
    obtain ⟨hrun, hsize⟩ := size_eq x.sched
    refine ⟨hrun, hsize, (blocked_iff x.sched).mpr hsteal, ?_, ?_, ?_⟩
    · rw [hblocked, ← hrecorded]
    · rw [hscheduled, ← hrecorded]
    · rw [hswitches, ← hrecorded]

/-- A work-stealing scheduler after a fiber has been blocked and unblocked, and one taken. -/
theorem getStats_truthful_iff_unblocked :
    ∃ x, Trans.Reach step Trans.anyStep (new .workStealing 2 fun _ => {}) x ∧
      x.tally = ⟨2, 1, 1⟩ ∧ x.Truthful := by
  obtain ⟨x, hx, hp⟩ := Trans.exists_reach_of_exec step (new .workStealing 2 fun _ => {})
    [.op (.schedule 1), .op (.schedule 2), .op (.blockFiber 1), .op (.unblockFiber 1),
      .op (.next [1])]
    (fun x => decide (x.tally = ⟨2, 1, 1⟩) && decide (x.sched.type = .workStealing)
      && decide (x.sched.blockedQueue = [])) (by decide +kernel)
  simp only [Bool.and_eq_true, decide_eq_true_eq] at hp
  obtain ⟨⟨htally, htype⟩, hblocked⟩ := hp
  refine ⟨x, hx, htally, (getStats_truthful_iff hx).mpr ⟨fun hp => ?_, fun _ => hblocked⟩⟩
  rw [htype] at hp
  cases hp

/-- One fiber is scheduled and blocked. The priority scheduler has blocked none, and of the
work-stealing scheduler none is blocked. -/
theorem getStats_untruthful :
    (∃ x, Trans.Reach step Trans.anyStep (new .priority 2 fun _ => {}) x ∧
      x.tally.blocked = 1 ∧ x.sched.getStats.totalBlocked = 0 ∧ ¬ x.Truthful) ∧
    ∃ x, Trans.Reach step Trans.anyStep (new .workStealing 2 fun _ => {}) x ∧
      x.sched.getBlockedQueue.length = 1 ∧ x.sched.getStats.currentBlocked = 0 ∧
      ¬ x.Truthful := by
  constructor
  · obtain ⟨x, hx, hp⟩ := Trans.exists_reach_of_exec step (new .priority 2 fun _ => {})
      [.op (.schedule 1), .op (.blockFiber 1)]
      (fun x => decide (x.tally.blocked = 1) && decide (x.sched.getStats.totalBlocked = 0))
      (by decide +kernel)
    simp only [Bool.and_eq_true, decide_eq_true_eq] at hp
    refine ⟨x, hx, hp.1, hp.2, fun htrue => ?_⟩
    have := htrue.totalBlocked
    omega
  · obtain ⟨x, hx, hp⟩ := Trans.exists_reach_of_exec step (new .workStealing 2 fun _ => {})
      [.op (.schedule 1), .op (.blockFiber 1)]
      (fun x => decide (x.sched.getBlockedQueue.length = 1)
        && decide (x.sched.getStats.currentBlocked = 0)) (by decide +kernel)
    simp only [Bool.and_eq_true, decide_eq_true_eq] at hp
    refine ⟨x, hx, hp.1, hp.2, fun htrue => ?_⟩
    have := htrue.blocked
    omega

end Tallied

end GreenThreads.Scheduler
