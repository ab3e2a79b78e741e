import GreenThreads.Scheduler.Stats

/-!
# GreenThreads — `Schedule` against `Stop`, `Start` and `Clear`

In all four schedulers `Schedule` reads `stopped` in one section and enqueues in a later one. The
sections of concurrent calls interleave; a step is one section of one call.

* `SchedulePc`, `ClearPc` — the sections of `Schedule` and of `Clear`, which differ by scheduler;
* `schedule_alone`, `clear_alone` — in a row, they are the operations of `Queue`, `Priority` and
  `WorkStealing`;
* `ClosingSys` — any number of calls;
* `enqueues_while_open` — nothing is enqueued while the scheduler is stopped if `Stop` does not come
  between the two sections.
-/

namespace GreenThreads.Scheduler

open WorkStealingScheduler (numWorkers maxInt)

/-! ## Sections -/

/-- Where a call of `Schedule` is after its check: the section it is about to enter. -/
inductive SchedulePc where
  /-- It puts the fiber into the one queue there is. -/
  | enqueue (f : FiberID)
  /-- Work stealing: it reads the size of the next queue, or appends once all have been read. -/
  | sizing (f : FiberID) (rest : List Nat) (best : Nat × Nat)
  /-- Work stealing: it updates the statistics. -/
  | counting
  | done (err : Option String)
  deriving DecidableEq

/-- The call has passed the check and is still to enqueue. -/
def SchedulePc.pending : SchedulePc → Bool
  | enqueue _ | sizing _ _ _ => true
  | counting | done _ => false

/-- Where a call of `Clear` is: the section it is about to enter. -/
inductive ClearPc where
  /-- Priority: a new heap. -/
  | pqueue
  /-- Work stealing: the queue of worker `i`. -/
  | worker (i : Nat)
  /-- Work stealing: the blocked fibers. -/
  | blocked
  /-- Work stealing: the steal counters. -/
  | steals
  /-- `BaseScheduler.Clear`. -/
  | base
  | done
  deriving DecidableEq

/-- `s.totalScheduled++`. -/
def BaseScheduler.countScheduled (b : BaseScheduler) : BaseScheduler :=
  { b with totalScheduled := b.totalScheduled + 1 }

namespace AnyScheduler

/-- The first section of `Schedule`. -/
def check (s : AnyScheduler) : Option FiberID → SchedulePc
  | none => .done (some "cannot schedule nil fiber")
  | some f =>
    if s.base.stopped then .done (some "scheduler stopped")
    else match s with
      | .fifo _ | .roundRobin _ | .priority _ => .enqueue f
      | .workStealing k _ => .sizing f (List.range (numWorkers k)) (0, maxInt)

/-- The second section of `Schedule` where there is one queue. -/
def enqueue (f : FiberID) : AnyScheduler → Option AnyScheduler
  | .fifo s =>
    some (.fifo { s with runQueue := s.runQueue ++ [f], base := s.base.countScheduled })
  | .roundRobin s =>
    some (.roundRobin { s with runQueue := s.runQueue ++ [f], base := s.base.countScheduled })
  | .priority s =>
    (s.pushFiber f).map fun s => .priority { s with base := s.base.countScheduled }
  | .workStealing _ _ => none

/-- The size of the queue of worker `i`. -/
def queueSize (i : Nat) : AnyScheduler → Option Nat
  | .workStealing k s => some (s.workers (Fin.ofNat (numWorkers k) i)).localQueue.length
  | .fifo _ | .roundRobin _ | .priority _ => none

/-- The fiber is appended to the queue of worker `i`. -/
def append (i : Nat) (f : FiberID) : AnyScheduler → Option AnyScheduler
  | .workStealing k s =>
    let i := Fin.ofNat (numWorkers k) i
    some (.workStealing k (s.setWorker i ((s.workers i).append f)))
  | .fifo _ | .roundRobin _ | .priority _ => none

/-- One section of `Schedule` after the check. -/
def scheduleAct (s : AnyScheduler) : SchedulePc → Option (AnyScheduler × SchedulePc)
  | .enqueue f => (s.enqueue f).map (·, .done none)
  | .sizing f (i :: rest) best =>
    (s.queueSize i).map fun size =>
      (s, .sizing f rest (if size < best.2 then (i, size) else best))
  | .sizing f [] best => (s.append best.1 f).map (·, .counting)
  | .counting => some (s.onBase BaseScheduler.countScheduled, .done none)
  | .done _ => none

/-- The first section of `Clear`. -/
def clearEntry : AnyScheduler → ClearPc
  | .fifo _ | .roundRobin _ => .base
  | .priority _ => .pqueue
  | .workStealing _ _ => .worker 0

/-- One section of `Clear`. -/
def clearAct : AnyScheduler → ClearPc → Option (AnyScheduler × ClearPc)
  | .priority s, .pqueue => some (.priority { s with pqueue := [] }, .base)
  | .workStealing k s, .worker i =>
    let j := Fin.ofNat (numWorkers k) i
    some (.workStealing k (s.setWorker j { s.workers j with localQueue := [] }),
      if i + 1 < numWorkers k then .worker (i + 1) else .blocked)
  | .workStealing k s, .blocked => some (.workStealing k { s with blocked := [] }, .steals)
  | .workStealing k s, .steals =>
    some (.workStealing k { s with stealAttempts := 0, stealSuccess := 0 }, .base)
  | .fifo s, .base => some (.fifo s.clear, .done)
  | .roundRobin s, .base => some (.roundRobin s.clear, .done)
  | .priority s, .base => some (.priority { s with base := s.base.clear }, .done)
  | .workStealing k s, .base => some (.workStealing k { s with base := s.base.clear }, .done)
  | _, _ => none

end AnyScheduler

/-! ## The system -/

/-- A scheduler and the calls made so far. -/
structure ClosingSys where
  sched : AnyScheduler
  schedules : List SchedulePc
  clears : List ClearPc

namespace ClosingSys

inductive Label where
  /-- Somebody calls `Schedule`, and the check is made. -/
  | schedule (f : Option FiberID)
  /-- `Schedule` call `k` takes its next section. -/
  | act (k : Nat)
  /-- Somebody calls `Clear`. -/
  | clear
  /-- `Clear` call `k` takes its next section. -/
  | clearAct (k : Nat)
  | start
  | stop

def new (t : SchedulerType) (k : Int) (fibers : FiberID → Fiber) : ClosingSys :=
  ⟨.new t k fibers, [], []⟩

/-- One step; `none` if the call has no section left. -/
def step (s : ClosingSys) : Label → Option ClosingSys
  | .schedule f => some { s with schedules := s.schedules ++ [s.sched.check f] }
  | .act k =>
    (s.schedules[k]?).bind fun pc => (s.sched.scheduleAct pc).map fun (sched, pc') =>
      { s with sched := sched, schedules := s.schedules.set k pc' }
  | .clear => some { s with clears := s.clears ++ [s.sched.clearEntry] }
  | .clearAct k =>
    (s.clears[k]?).bind fun pc => (s.sched.clearAct pc).map fun (sched, pc') =>
      { s with sched := sched, clears := s.clears.set k pc' }
  | .start => some { s with sched := s.sched.start }
  | .stop => some { s with sched := s.sched.stop }

/-! ## Calls alone -/

section Alone

open Trans (exec)

/-- One round of the loop over the queues. -/
def pick {k : Int} (s : WorkStealingScheduler (numWorkers k)) (best : Nat × Nat) (i : Nat) :
    Nat × Nat :=
  let size := (s.workers (Fin.ofNat _ i)).localQueue.length
  if size < best.2 then (i, size) else best

/-- The rounds in a row. Induction on the queues that are left to read. -/
theorem exec_sizing {k : Int} (s : WorkStealingScheduler (numWorkers k)) (f : FiberID)
    (rest : List Nat) (best : Nat × Nat) (clears : List ClearPc) :
    exec step ⟨.workStealing k s, [.sizing f rest best], clears⟩
        (List.replicate rest.length (.act 0))
      = some ⟨.workStealing k s, [.sizing f [] (rest.foldl (pick s) best)], clears⟩ := by
  induction rest generalizing best with
  | nil => rfl
  | cons i rest ih => exact ih (pick s best i)

/-- They find the queue that `schedule` finds. -/
theorem foldl_pick {k : Int} (s : WorkStealingScheduler (numWorkers k)) :
    (List.range (numWorkers k)).foldl (pick s) (0, maxInt)
      = Prod.map Fin.val id ((List.finRange (numWorkers k)).foldl
        (fun best i => WorkStealingScheduler.prefer best i (s.workers i).localQueue.length)
        (0, maxInt)) := by
  have hinit : ((0, maxInt) : Nat × Nat)
      = Prod.map Fin.val id ((0, maxInt) : Fin (numWorkers k) × Nat) := by
    simp
  rw [← List.map_coe_finRange_eq_range, List.foldl_map, hinit]
  refine List.foldl_hom (Prod.map Fin.val id) (fun best i => ?_)
  obtain ⟨j, size⟩ := best
  simp only [pick, WorkStealingScheduler.prefer, Fin.ofNat_val_eq_self, Prod.map_apply, id_eq]
  split <;> rfl

theorem schedule_of_stopped {s : AnyScheduler} (f : FiberID) (h : s.base.stopped = true) :
    s.schedule f = some (s, some "scheduler stopped") := by
  cases s with
  | fifo s | roundRobin s =>
    simp only [AnyScheduler.base] at h
    simp [AnyScheduler.schedule, QueueScheduler.schedule, h]
  | priority s =>
    simp only [AnyScheduler.base] at h
    simp [AnyScheduler.schedule, PriorityScheduler.schedule, h]
  | workStealing k s =>
    simp only [AnyScheduler.base] at h
    simp [AnyScheduler.schedule, WorkStealingScheduler.schedule, h]

/-- A call of `Schedule` that nobody interrupts. -/
theorem schedule_alone {s s' : AnyScheduler} {f : FiberID} {err : Option String}
    (h : s.schedule f = some (s', err)) (clears : List ClearPc) :
    ∃ n, exec step ⟨s, [], clears⟩ (.schedule (some f) :: List.replicate n (.act 0))
      = some ⟨s', [.done err], clears⟩ := by
  by_cases hstopped : s.base.stopped = true
  · -- the check is all there is to it
    have hcheck : s.check (some f) = .done (some "scheduler stopped") := by
      simp [AnyScheduler.check, hstopped]
    rw [schedule_of_stopped f hstopped] at h
    cases h
    exact ⟨0, by simp [exec, step, hcheck]⟩
  · cases s with
    | fifo s | roundRobin s =>
      simp only [AnyScheduler.base] at hstopped
      simp only [AnyScheduler.schedule, QueueScheduler.schedule, if_neg hstopped] at h
      cases h
      exact ⟨1, by simp [exec, step, AnyScheduler.check, AnyScheduler.base, hstopped,
        AnyScheduler.scheduleAct, AnyScheduler.enqueue, BaseScheduler.countScheduled]⟩
    | priority s =>
      simp only [AnyScheduler.base] at hstopped
      simp only [AnyScheduler.schedule, PriorityScheduler.schedule, if_neg hstopped,
        Option.map_map] at h
      obtain ⟨q, hpush, heq⟩ := Option.map_eq_some_iff.mp h
      cases heq
      exact ⟨1, by simp [exec, step, AnyScheduler.check, AnyScheduler.base, hstopped, hpush,
        AnyScheduler.scheduleAct, AnyScheduler.enqueue, BaseScheduler.countScheduled]⟩
    | workStealing k s =>
      simp only [AnyScheduler.base] at hstopped
      simp only [AnyScheduler.schedule, WorkStealingScheduler.schedule, if_neg hstopped] at h
      cases h
      refine ⟨numWorkers k + 2, ?_⟩
      have hsizing := exec_sizing s f (List.range (numWorkers k)) (0, maxInt) clears
      rw [List.length_range, foldl_pick] at hsizing
      have hcheck : AnyScheduler.check (.workStealing k s) (some f)
          = .sizing f (List.range (numWorkers k)) (0, maxInt) := by
        simp [AnyScheduler.check, AnyScheduler.base, hstopped]
      rw [exec, step, hcheck, List.replicate_add, Option.bind_some]
      refine (Trans.exec_append _ _ _).trans ?_
      rw [List.nil_append, hsizing]
      simp [exec, step, AnyScheduler.scheduleAct, AnyScheduler.append, AnyScheduler.onBase,
        BaseScheduler.countScheduled, WorkStealingScheduler.setWorker, List.replicate]

/-- All queues from that of worker `i` on are empty. -/
def emptyFrom {n : Nat} (s : WorkStealingScheduler n) (i : Nat) : WorkStealingScheduler n :=
  { s with workers := fun j =>
      if i ≤ j.val then { s.workers j with localQueue := [] } else s.workers j }

theorem emptyFrom_setWorker {n : Nat} (s : WorkStealingScheduler n) (i : Fin n) :
    emptyFrom (s.setWorker i { s.workers i with localQueue := [] }) (i + 1) = emptyFrom s i := by
  simp only [emptyFrom, WorkStealingScheduler.setWorker]
  congr 1
  funext j
  by_cases hj : j = i
  · subst hj
    simp
  · have hne : j.val ≠ i.val := fun h => hj (Fin.ext h)
    have hiff : i.val + 1 ≤ j.val ↔ i.val ≤ j.val := by omega
    simp [hj, hiff]

theorem emptyFrom_length {n : Nat} (s : WorkStealingScheduler n) : emptyFrom s n = s := by
  have hnot : ∀ j : Fin n, ¬ n ≤ j.val := fun j => by omega
  simp [emptyFrom, hnot]

theorem emptyFrom_zero {n : Nat} (s : WorkStealingScheduler n) :
    emptyFrom s 0 = { s with workers := fun j => { s.workers j with localQueue := [] } } := by
  simp [emptyFrom]

/-- The sections on the workers' queues in a row. Induction on the workers that are left. -/
theorem exec_clearAct_worker {k : Int} (s : WorkStealingScheduler (numWorkers k))
    (schedules : List SchedulePc) (m i : Nat) (hi : i + m + 1 = numWorkers k) :
    exec step ⟨.workStealing k s, schedules, [.worker i]⟩ (List.replicate (m + 1) (.clearAct 0))
      = some ⟨.workStealing k (emptyFrom s i), schedules, [.blocked]⟩ := by
  have hlt : i < numWorkers k := by omega
  have hval : Fin.ofNat (numWorkers k) i = ⟨i, hlt⟩ := Fin.ext (Nat.mod_eq_of_lt hlt)
  have hempty := emptyFrom_setWorker s ⟨i, hlt⟩
  have hone : step ⟨.workStealing k s, schedules, [.worker i]⟩ (.clearAct 0)
      = some ⟨.workStealing k (s.setWorker ⟨i, hlt⟩
          { s.workers ⟨i, hlt⟩ with localQueue := [] }), schedules,
          [if i + 1 < numWorkers k then .worker (i + 1) else .blocked]⟩ := by
    rw [← hval]
    rfl
  rw [List.replicate_succ, exec, hone, Option.bind_some, ← hempty]
  cases m with
  | zero =>
    have hlast : i + 1 = numWorkers k := by omega
    rw [if_neg (by omega), hlast, emptyFrom_length]
    rfl
  | succ m =>
    rw [if_pos (by omega)]
    exact exec_clearAct_worker _ schedules m (i + 1) (by omega)

/-- A call of `Clear` that nobody interrupts. -/
theorem clear_alone (s : AnyScheduler) (schedules : List SchedulePc) :
    ∃ n, exec step ⟨s, schedules, []⟩ (.clear :: List.replicate n (.clearAct 0))
      = some ⟨s.clear, schedules, [.done]⟩ := by
  cases s with
  | fifo s | roundRobin s => exact ⟨1, rfl⟩
  | priority s => exact ⟨2, rfl⟩
  | workStealing k s =>
    obtain ⟨m, hm⟩ : ∃ m, m + 1 = numWorkers k :=
      ⟨numWorkers k - 1, Nat.succ_pred (NeZero.ne (numWorkers k))⟩
    have hworkers := exec_clearAct_worker s schedules m 0 (by omega)
    refine ⟨m + 1 + 3, ?_⟩
    rw [exec, step, List.replicate_add, Option.bind_some]
    refine (Trans.exec_append _ _ _).trans ?_
    rw [List.nil_append, AnyScheduler.clearEntry, hworkers, emptyFrom_zero]
    -- the blocked fibers, the steal counters and `BaseScheduler.Clear` are left
    rfl

end Alone

/-! ## One step -/

/-- A fiber is enqueued. -/
def Enqueues (s s' : AnyScheduler) : Prop := ∃ f, s.runQueue.count f < s'.runQueue.count f

variable {s s' : AnyScheduler}

theorem not_enqueues_of_eq (h : s'.runQueue = s.runQueue) : ¬ Enqueues s s' := by
  rintro ⟨f, hf⟩
  rw [h] at hf
  exact lt_irrefl _ hf

theorem not_enqueues_of_nil (h : s'.runQueue = []) : ¬ Enqueues s s' := by
  rintro ⟨f, hf⟩
  simp [h] at hf

theorem runQueue_onBase (s : AnyScheduler) (g : BaseScheduler → BaseScheduler) :
    (s.onBase g).runQueue = s.runQueue := by
  cases s <;> rfl

theorem base_onBase (s : AnyScheduler) (g : BaseScheduler → BaseScheduler) :
    (s.onBase g).base = g s.base := by
  cases s <;> rfl

/-- A worker's queue is emptied. -/
theorem not_enqueues_setWorker {k : Int} (s : WorkStealingScheduler (numWorkers k))
    (i : Fin (numWorkers k)) {w : Worker} (hw : w.localQueue = []) :
    ¬ Enqueues (.workStealing k s) (.workStealing k (s.setWorker i w)) := by
  rintro ⟨f, hf⟩
  have hsum := WorkStealing.queued_setWorker s i w
  rw [hw, Multiset.coe_nil, add_zero, AnyScheduler.queued_eq_flatMap,
    AnyScheduler.queued_eq_flatMap, Multiset.coe_add] at hsum
  have hcount := (Multiset.coe_eq_coe.mp hsum).count_eq f
  rw [List.count_append] at hcount
  simp only [AnyScheduler.runQueue] at hf
  omega

/-- A section of `Clear` enqueues nothing, and stops nothing. -/
theorem clearAct_spec {pc pc' : ClearPc} (h : s.clearAct pc = some (s', pc')) :
    ¬ Enqueues s s' ∧ (s'.base.stopped = true → s.base.stopped = true) := by
  unfold AnyScheduler.clearAct at h
  split at h <;> cases h
  · exact ⟨not_enqueues_of_nil rfl, id⟩
  · exact ⟨not_enqueues_setWorker _ _ rfl, id⟩
  · exact ⟨not_enqueues_of_eq rfl, id⟩
  · exact ⟨not_enqueues_of_eq rfl, id⟩
  · exact ⟨not_enqueues_of_nil rfl, nofun⟩
  · exact ⟨not_enqueues_of_nil rfl, nofun⟩
  · exact ⟨not_enqueues_of_eq rfl, nofun⟩
  · exact ⟨not_enqueues_of_eq rfl, nofun⟩

/-- A section of `Schedule` leaves `stopped` alone; it enqueues only if it is still to do so, and it
does not end in an error. -/
theorem scheduleAct_spec {pc pc' : SchedulePc} (h : s.scheduleAct pc = some (s', pc')) :
    s'.base.stopped = s.base.stopped ∧ (Enqueues s s' → pc.pending = true) ∧
      (pc'.pending = true → pc.pending = true) ∧ ∀ err, pc' ≠ .done (some err) := by
  cases pc with
  | enqueue f =>
    obtain ⟨s₁, hs₁, heq⟩ := Option.map_eq_some_iff.mp h
    cases heq
    refine ⟨?_, fun _ => rfl, nofun, by simp⟩
    cases s with
    | fifo s | roundRobin s =>
      cases hs₁
      rfl
    | priority s =>
      obtain ⟨q, hpush, rfl⟩ := Option.map_eq_some_iff.mp hs₁
      simp [AnyScheduler.base, BaseScheduler.countScheduled, PriorityScheduler.base_pushFiber hpush]
    | workStealing k s => cases hs₁
  | sizing f rest best =>
    cases rest with
    | cons i rest =>
      obtain ⟨size, -, heq⟩ := Option.map_eq_some_iff.mp h
      cases heq
      exact ⟨rfl, fun _ => rfl, fun _ => rfl, by simp⟩
    | nil =>
      obtain ⟨s₁, hs₁, heq⟩ := Option.map_eq_some_iff.mp h
      cases heq
      refine ⟨?_, fun _ => rfl, nofun, by simp⟩
      cases s with
      | fifo s | roundRobin s | priority s => cases hs₁
      | workStealing k s =>
        cases hs₁
        rfl
  | counting =>
    cases h
    refine ⟨?_, fun hq => ?_, nofun, by simp⟩
    · rw [base_onBase]
      rfl
    · exact absurd hq (not_enqueues_of_eq (runQueue_onBase s _))
  | done err => cases h

theorem check_spec (s : AnyScheduler) (f : Option FiberID) :
    (s.check f).pending = true → s.base.stopped = false := by
  intro h
  cases f with
  | none => cases h
  | some f =>
    unfold AnyScheduler.check at h
    dsimp only at h
    split at h
    · cases h
    · next hopen => simpa using hopen

/-! ## Runs -/

/-- `Stop` takes effect only if no call of `Schedule` is between its check and the section that
enqueues. -/
def NotBetween (s : ClosingSys) : Label → Prop
  | .stop => s.sched.base.running = true → ∀ pc ∈ s.schedules, pc.pending = false
  | .schedule _ | .act _ | .clear | .clearAct _ | .start => True

instance (s : ClosingSys) (l : Label) : Decidable (NotBetween s l) :=
  match l with
  | .stop => inferInstanceAs (Decidable (_ → _))
  | .schedule _ | .act _ | .clear | .clearAct _ | .start => isTrue trivial

/-- While the scheduler is stopped, no call is still to enqueue. -/
def Quiet (s : ClosingSys) : Prop :=
  s.sched.base.stopped = true → ∀ pc ∈ s.schedules, pc.pending = false

/-- What one more step can do. -/
structure Admits (s : ClosingSys) : Prop where
  /-- A step that enqueues finds the scheduler open. -/
  accepted : ∀ (l : Label) (s' : ClosingSys), s.step l = some s' → Enqueues s.sched s'.sched →
    s.sched.base.stopped = false
  /-- A call that a step makes return an error has taken that one section, and the section has
  left the scheduler as it was. -/
  rejected : ∀ (l : Label) (s' : ClosingSys), s.step l = some s' →
    ∀ (k : Nat) (err : String), s'.schedules[k]? = some (.done (some err)) →
      s.schedules[k]? = some (.done (some err)) ∨ s.schedules[k]? = none ∧ s'.sched = s.sched
  /-- A call that has returned does no more. -/
  final : ∀ (k : Nat) (err : Option String), s.schedules[k]? = some (.done err) →
    s.step (.act k) = none

variable {x x' : ClosingSys} {l : Label}

theorem step_act {k : Nat} (h : x.step (.act k) = some x') :
    ∃ pc s₁ pc', x.schedules[k]? = some pc ∧ x.sched.scheduleAct pc = some (s₁, pc')
      ∧ x' = { x with sched := s₁, schedules := x.schedules.set k pc' } := by
  obtain ⟨pc, hpc, hmap⟩ := Option.bind_eq_some_iff.mp h
  obtain ⟨⟨s₁, pc'⟩, hact, rfl⟩ := Option.map_eq_some_iff.mp hmap
  exact ⟨pc, s₁, pc', hpc, hact, rfl⟩

theorem step_clearAct {k : Nat} (h : x.step (.clearAct k) = some x') :
    ∃ pc s₁ pc', x.sched.clearAct pc = some (s₁, pc')
      ∧ x' = { x with sched := s₁, clears := x.clears.set k pc' } := by
  obtain ⟨pc, -, hmap⟩ := Option.bind_eq_some_iff.mp h
  obtain ⟨⟨s₁, pc'⟩, hact, rfl⟩ := Option.map_eq_some_iff.mp hmap
  exact ⟨pc, s₁, pc', hact, rfl⟩

theorem Quiet.step (hq : x.Quiet) (hok : NotBetween x l) (h : x.step l = some x') : x'.Quiet := by
  cases l with
  | schedule f =>
    cases h
    intro hstopped pc hpc
    rcases List.mem_append.mp hpc with hpc | hpc
    · exact hq hstopped pc hpc
    · -- the check has found the scheduler stopped
      rw [List.mem_singleton] at hpc
      subst hpc
      by_contra hpending
      have := check_spec x.sched f (by simpa using hpending)
      rw [show x.sched.base.stopped = true from hstopped] at this
      cases this
  | act k =>
    obtain ⟨pc, s₁, pc', hpc, hact, rfl⟩ := step_act h
    obtain ⟨hstopped, -, hpending, -⟩ := scheduleAct_spec hact
    intro hstop pc₁ hpc₁
    dsimp only at hstop hpc₁
    rw [hstopped] at hstop
    rcases List.mem_or_eq_of_mem_set hpc₁ with hmem | rfl
    · exact hq hstop pc₁ hmem
    · -- a call that is still to enqueue was so before
      have hold := hq hstop pc (List.mem_of_getElem? hpc)
      by_contra hne
      rw [hpending (by simpa using hne)] at hold
      cases hold
  | clear =>
    cases h
    exact hq
  | clearAct k =>
    obtain ⟨pc, s₁, pc', hact, rfl⟩ := step_clearAct h
    exact fun hstop => hq ((clearAct_spec hact).2 hstop)
  | start =>
    cases h
    intro hstop
    simp only [AnyScheduler.start, base_onBase, BaseScheduler.start] at hstop
    split at hstop
    · exact hq hstop
    · cases hstop
  | stop =>
    cases h
    intro hstop
    by_cases hrun : x.sched.base.running = true
    · exact hok hrun
    · -- `Stop` of a scheduler that is not running changes nothing
      simp only [AnyScheduler.stop, base_onBase, BaseScheduler.stop, Bool.not_eq_true] at hstop hrun
      simp only [hrun] at hstop
      exact hq hstop

/-- In a quiet state. -/
theorem Quiet.accepted (hq : x.Quiet) (h : x.step l = some x')
    (henq : Enqueues x.sched x'.sched) : x.sched.base.stopped = false := by
  cases l with
  | act k =>
    obtain ⟨pc, s₁, pc', hpc, hact, rfl⟩ := step_act h
    -- the section is one that a quiet state excludes while the scheduler is stopped
    have hpending := (scheduleAct_spec hact).2.1 henq
    by_contra hstop
    have hold := hq (by simpa using hstop) pc (List.mem_of_getElem? hpc)
    rw [hpending] at hold
    cases hold
  | clearAct k =>
    obtain ⟨pc, s₁, pc', hact, rfl⟩ := step_clearAct h
    exact absurd henq (clearAct_spec hact).1
  | schedule f | clear =>
    cases h
    exact absurd henq (not_enqueues_of_eq rfl)
  | start =>
    cases h
    exact absurd henq (not_enqueues_of_eq (runQueue_onBase x.sched fun b => b.start.1))
  | stop =>
    cases h
    exact absurd henq (not_enqueues_of_eq (runQueue_onBase x.sched fun b => b.stop.1))

theorem rejected_step (h : x.step l = some x') {k : Nat} {err : String}
    (hk : x'.schedules[k]? = some (.done (some err))) :
    x.schedules[k]? = some (.done (some err)) ∨ x.schedules[k]? = none ∧ x'.sched = x.sched := by
  cases l with
  | schedule f =>
    cases h
    rcases Nat.lt_or_ge k x.schedules.length with hlt | hge
    · rw [List.getElem?_append_left hlt] at hk
      exact .inl hk
    · exact .inr ⟨List.getElem?_eq_none hge, rfl⟩
  | act j =>
    obtain ⟨pc, s₁, pc', hpc, hact, rfl⟩ := step_act h
    dsimp only at hk
    by_cases hjk : j = k
    · subst hjk
      have hlt : j < x.schedules.length := (List.getElem?_eq_some_iff.mp hpc).1
      rw [List.getElem?_set_self hlt, Option.some.injEq] at hk
      exact absurd hk ((scheduleAct_spec hact).2.2.2 err)
    · rw [List.getElem?_set_ne hjk] at hk
      exact .inl hk
  | clearAct j =>
    obtain ⟨pc, s₁, pc', hact, rfl⟩ := step_clearAct h
    exact .inl hk
  | clear | start | stop =>
    cases h
    exact .inl hk

/-- **`Schedule` takes effect while the scheduler is open**, in all four schedulers, as long as
`Stop` does not come between the check of a call and its enqueueing; and a call that returns an
error has changed nothing. -/
theorem enqueues_while_open {t : SchedulerType} {k : Int} {fibers : FiberID → Fiber}
    (h : Trans.Reach step NotBetween (new t k fibers) x) : x.Admits := by
  have hq : x.Quiet := by
    refine Trans.Reach.invariant (fun _ => ?_) (fun _ _ _ hq hok hs => Quiet.step hq hok hs) h
    simp [new]
  refine ⟨fun l x' hs henq => hq.accepted hs henq, fun l x' hs k err hk => rejected_step hs hk, ?_⟩
  intro k err hk
  simp [step, hk, AnyScheduler.scheduleAct]

/-- A call before `Stop`, and one after it. -/
theorem enqueues_while_open_stopped :
    ∃ x, Trans.Reach step NotBetween (new .workStealing 2 fun _ => {}) x ∧
      x.schedules = [.done none, .done (some "scheduler stopped")] ∧ x.Admits := by
  obtain ⟨x, hx, hp⟩ := Trans.exists_reach_of_exec_guarded step NotBetween
    (new .workStealing 2 fun _ => {})
    [.start, .schedule (some 1), .act 0, .act 0, .act 0, .stop, .act 0, .schedule (some 2)]
    (fun x => decide (x.schedules = [.done none, .done (some "scheduler stopped")]))
    (by decide +kernel)
  exact ⟨x, hx, of_decide_eq_true hp, enqueues_while_open hx⟩

/-- A run of a scheduler of type `t` to a state in which it is stopped and a call of `Schedule`
enqueues its fiber all the same. -/
def EnqueuesStopped (t : SchedulerType) : Prop :=
  ∃ x x', Trans.Reach step Trans.anyStep (new t 2 fun _ => {}) x ∧
    x.sched.base.stopped = true ∧ x.step (.act 0) = some x' ∧ Enqueues x.sched x'.sched

theorem enqueuesStopped_of_exec (t : SchedulerType) (ls : List Label)
    (h : (Trans.exec step (new t 2 fun _ => {}) ls).map (fun x =>
      x.sched.base.stopped && (x.step (.act 0)).any fun x' =>
        decide (x.sched.runQueue.count 1 < x'.sched.runQueue.count 1)) = some true) :
    EnqueuesStopped t := by
  obtain ⟨x, hx, hp⟩ := Trans.exists_reach_of_exec step _ ls _ h
  rw [Bool.and_eq_true, Option.any_eq_true] at hp
  obtain ⟨hstopped, x', hstep, hcount⟩ := hp
  exact ⟨x, x', hx, hstopped, hstep, 1, of_decide_eq_true hcount⟩

/-- `Stop` comes between the check and the enqueueing. -/
theorem enqueues_while_stopped : EnqueuesStopped .fifo ∧ EnqueuesStopped .roundRobin ∧
    EnqueuesStopped .priority ∧ EnqueuesStopped .workStealing :=
  ⟨enqueuesStopped_of_exec .fifo [.start, .schedule (some 1), .stop] (by decide +kernel),
    enqueuesStopped_of_exec .roundRobin [.start, .schedule (some 1), .stop] (by decide +kernel),
    enqueuesStopped_of_exec .priority [.start, .schedule (some 1), .stop] (by decide +kernel),
    enqueuesStopped_of_exec .workStealing [.start, .schedule (some 1), .act 0, .act 0, .stop]
      (by decide +kernel)⟩

end ClosingSys

end GreenThreads.Scheduler
