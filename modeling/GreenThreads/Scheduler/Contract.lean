import GreenThreads.Scheduler.PriorityIndex
import GreenThreads.Scheduler.Queue
import GreenThreads.Scheduler.WorkStealingRun

/-!
# GreenThreads — completion and removal in the four schedulers

The `Scheduler` interface says of `Remove` that it removes a fiber from the scheduler and of
`MarkCompleted` that it removes it from the scheduler's queues. `BaseScheduler`, on which FIFO
and round robin run, looks into the run queue and the blocked queue for that; the priority and
the work-stealing scheduler have their own versions, which look into the run queue alone.
-/

namespace GreenThreads.Scheduler

open WorkStealingScheduler (numWorkers Shuffle)

/-- The interface `Scheduler`, by its implementations. -/
inductive AnyScheduler where
  | fifo (s : QueueScheduler)
  | roundRobin (s : QueueScheduler)
  | priority (s : PriorityScheduler)
  /-- Made by `NewWorkStealingScheduler(k)`. -/
  | workStealing (k : Int) (s : WorkStealingScheduler (numWorkers k))

namespace AnyScheduler

/-- A new scheduler of each type; `k` is the number of workers asked for. -/
def new (t : SchedulerType) (k : Int) (fibers : FiberID → Fiber) : AnyScheduler :=
  match t with
  | .fifo => .fifo (.new fibers)
  | .roundRobin => .roundRobin (.new fibers)
  | .priority => .priority (.new fibers)
  | .workStealing => .workStealing k (.new _ fibers)

/-- `Type`. -/
def type : AnyScheduler → SchedulerType
  | .fifo _ => .fifo
  | .roundRobin _ => .roundRobin
  | .priority _ => .priority
  | .workStealing _ _ => .workStealing

/-- The IDs in the run queue, in whatever order the scheduler keeps them. -/
def runQueue : AnyScheduler → List FiberID
  | .fifo s | .roundRobin s => s.runQueue
  | .priority s => s.pqueue.map PriorityItem.fiber
  | .workStealing k s => (List.finRange (numWorkers k)).flatMap fun i => (s.workers i).localQueue

/-- The IDs in the blocked queue. -/
def blockedQueue : AnyScheduler → List FiberID
  | .fifo s | .roundRobin s => s.base.blockedQueue
  | .priority s => s.base.blockedQueue
  | .workStealing _ s => s.blocked

/-- The IDs recorded as completed. -/
def completed : AnyScheduler → Finset FiberID
  | .fifo s | .roundRobin s => s.base.completed
  | .priority s => s.base.completed
  | .workStealing _ s => s.base.completed

/-! ## The operations; `none` is a panic -/

def schedule (f : FiberID) : AnyScheduler → Option (AnyScheduler × Option String)
  | .fifo s => some ((s.schedule f).map .fifo id)
  | .roundRobin s => some ((s.schedule f).map .roundRobin id)
  | .priority s => (s.schedule f).map (Prod.map .priority id)
  | .workStealing k s => some ((s.schedule f).map (.workStealing k) id)

/-- `Next`; only the work-stealing scheduler has victims, and `none` for an order of them that
no shuffle gives. -/
def next (victims : List Nat) : AnyScheduler → Option (AnyScheduler × Except String FiberID)
  | .fifo s => some (s.next.map .fifo id)
  | .roundRobin s => some (s.next.map .roundRobin id)
  | .priority s => s.next.map (Prod.map .priority id)
  | .workStealing k s =>
    let order := victims.map (Fin.ofNat (numWorkers k))
    if Shuffle s.drawn order then
      some ((s.next order).map (.workStealing k) id)
    else none

def blockFiber (f : FiberID) : AnyScheduler → Option AnyScheduler
  | .fifo s => some (.fifo (s.blockFiber f))
  | .roundRobin s => some (.roundRobin (s.blockFiber f))
  | .priority s => (s.blockFiber f).map .priority
  | .workStealing k s => some (.workStealing k (s.blockFiber f))

def unblockFiber (f : FiberID) : AnyScheduler → Option (AnyScheduler × Option String)
  | .fifo s => some ((s.unblockFiber f).map .fifo id)
  | .roundRobin s => some ((s.unblockFiber f).map .roundRobin id)
  | .priority s => (s.unblockFiber f).map (Prod.map .priority id)
  | .workStealing k s => some ((s.unblockFiber f).map (.workStealing k) id)

def remove (f : FiberID) : AnyScheduler → Option (AnyScheduler × Option String)
  | .fifo s => some ((s.remove f).map .fifo id)
  | .roundRobin s => some ((s.remove f).map .roundRobin id)
  | .priority s => (s.remove f).map (Prod.map .priority id)
  | .workStealing k s => some ((s.remove f).map (.workStealing k) id)

def markCompleted (f : FiberID) (drop : Finset FiberID) : AnyScheduler → Option AnyScheduler
  | .fifo s => some (.fifo (s.markCompleted f drop))
  | .roundRobin s => some (.roundRobin (s.markCompleted f drop))
  | .priority s => (s.markCompleted f drop).map .priority
  | .workStealing k s => some (.workStealing k (s.markCompleted f drop))

/-- A fiber function ends. -/
def finish (f : FiberID) : AnyScheduler → AnyScheduler
  | .fifo s => .fifo { s with fibers := Function.update s.fibers f (s.fibers f).runEnd }
  | .roundRobin s =>
    .roundRobin { s with fibers := Function.update s.fibers f (s.fibers f).runEnd }
  | .priority s => .priority { s with fibers := Function.update s.fibers f (s.fibers f).runEnd }
  | .workStealing k s =>
    .workStealing k { s with fibers := Function.update s.fibers f (s.fibers f).runEnd }

/-! ## Sequences of operations -/

inductive Label where
  | schedule (f : FiberID)
  | next (victims : List Nat)
  | blockFiber (f : FiberID)
  | unblockFiber (f : FiberID)
  | remove (f : FiberID)
  | markCompleted (f : FiberID) (drop : Finset FiberID)
  | finish (f : FiberID)

/-- One operation. -/
def step (s : AnyScheduler) : Label → Option AnyScheduler
  | .schedule f => (s.schedule f).map Prod.fst
  | .next victims => (s.next victims).map Prod.fst
  | .blockFiber f => s.blockFiber f
  | .unblockFiber f => (s.unblockFiber f).map Prod.fst
  | .remove f => (s.remove f).map Prod.fst
  | .markCompleted f drop =>
    if BaseScheduler.Prunes (insert f s.completed) drop then s.markCompleted f drop else none
  | .finish f => some (s.finish f)

/-! ## The contract -/

/-- The ID is in no queue. -/
def Absent (s : AnyScheduler) (f : FiberID) : Prop := f ∉ s.runQueue ∧ f ∉ s.blockedQueue

/-- What the interface promises of an ID in a state. -/
structure Keeps (s : AnyScheduler) (f : FiberID) : Prop where
  /-- The first `MarkCompleted` takes the ID out of the queues, and it cannot be unblocked. -/
  completes : f ∉ s.completed → ∀ drop, BaseScheduler.Prunes (insert f s.completed) drop →
    ∃ s', s.markCompleted f drop = some s' ∧ s'.Absent f ∧
      ∃ s'' err, s'.unblockFiber f = some (s'', some err)
  /-- `Remove` succeeds exactly if the ID is in a queue, and takes it out. -/
  removes : ∃ s' err, s.remove f = some (s', err) ∧
    (err = none ↔ f ∈ s.runQueue ∨ f ∈ s.blockedQueue) ∧ (err = none → s'.Absent f)

/-- An ID that is not blocked cannot be unblocked. -/
theorem unblockFiber_absent {s : AnyScheduler} {f : FiberID} (h : f ∉ s.blockedQueue) :
    s.unblockFiber f
      = some (s, some ("fiber " ++ toString f ++ " not found in blocked queue")) := by
  cases s with
  | fifo s | roundRobin s =>
    simp only [blockedQueue] at h
    simp [unblockFiber, QueueScheduler.unblockFiber, h]
  | priority s =>
    simp only [blockedQueue] at h
    simp [unblockFiber, PriorityScheduler.unblockFiber, h]
  | workStealing k s =>
    simp only [blockedQueue] at h
    simp [unblockFiber, WorkStealingScheduler.unblockFiber, h]

/-- Both operations leave the ID absent, so it cannot be unblocked either. -/
theorem keeps_of {s : AnyScheduler} {f : FiberID}
    (hremove : ∃ s' err, s.remove f = some (s', err) ∧
      (err = none ↔ f ∈ s.runQueue ∨ f ∈ s.blockedQueue) ∧ s'.Absent f)
    (hcomplete : f ∉ s.completed → ∀ drop, BaseScheduler.Prunes (insert f s.completed) drop →
      ∃ s', s.markCompleted f drop = some s' ∧ s'.Absent f) : s.Keeps f where
  completes hf drop hd := by
    obtain ⟨s', hs', habsent⟩ := hcomplete hf drop hd
    exact ⟨s', hs', habsent, s', _, unblockFiber_absent habsent.2⟩
  removes := by
    obtain ⟨s', err, hs', herr, habsent⟩ := hremove
    exact ⟨s', err, hs', herr, fun _ => habsent⟩

/-- Where both operations see to the run queue and leave the blocked queue as it is, the contract
holds of the IDs that are not blocked. -/
theorem keeps_iff_of_runQueue {s : AnyScheduler} {f : FiberID}
    (hremove : ∃ s' err, s.remove f = some (s', err) ∧ (err = none ↔ f ∈ s.runQueue) ∧
      s'.blockedQueue = s.blockedQueue ∧ f ∉ s'.runQueue)
    (hcomplete : f ∉ s.completed → ∀ drop, BaseScheduler.Prunes (insert f s.completed) drop →
      ∃ s', s.markCompleted f drop = some s' ∧ s'.blockedQueue = s.blockedQueue ∧
        f ∉ s'.runQueue) : s.Keeps f ↔ f ∉ s.blockedQueue := by
  obtain ⟨s', err, hs', herr, hblocked, hrun⟩ := hremove
  constructor
  · intro hk hf
    obtain ⟨s₁, err₁, hs₁, herr₁, habsent⟩ := hk.removes
    cases hs'.symm.trans hs₁
    -- `Remove` would have to succeed, and then the ID is still blocked
    have hnone := herr₁.mpr (.inr hf)
    exact (habsent hnone).2 (by rw [hblocked]; exact hf)
  · intro hf
    refine keeps_of ⟨s', err, hs', by simp [herr, hf], hrun, by rw [hblocked]; exact hf⟩ ?_
    intro hc drop hd
    obtain ⟨s₁, hs₁, hblocked₁, hrun₁⟩ := hcomplete hc drop hd
    exact ⟨s₁, hs₁, hrun₁, by rw [hblocked₁]; exact hf⟩

/-! ## FIFO and round robin -/

section Queue

variable {s : QueueScheduler} {f : FiberID}

/-- `removeLocked` takes out an ID that is in the queues once, whichever it is in. -/
theorem queue_remove_spec (hone : (s.runQueue ++ s.base.blockedQueue).count f ≤ 1) :
    ((s.remove f).2 = none ↔ f ∈ s.runQueue ∨ f ∈ s.base.blockedQueue) ∧
      f ∉ (s.remove f).1.runQueue ∧ f ∉ (s.remove f).1.base.blockedQueue := by
  rw [List.count_append] at hone
  by_cases hr : f ∈ s.runQueue
  · have hcount := List.count_pos_iff.mpr hr
    rw [QueueScheduler.remove, if_pos hr]
    refine ⟨by simp [hr], List.count_eq_zero.mp ?_, List.count_eq_zero.mp ?_⟩
    · simp only [List.count_erase_self]
      omega
    · dsimp only
      omega
  · rw [QueueScheduler.remove, if_neg hr]
    by_cases hb : f ∈ s.base.blockedQueue
    · have hcount := List.count_pos_iff.mpr hb
      rw [if_pos hb]
      refine ⟨by simp [hb], hr, List.count_eq_zero.mp ?_⟩
      simp only [List.count_erase_self]
      omega
    · rw [if_neg hb]
      exact ⟨by simp [hr, hb], hr, hb⟩

theorem queue_markCompleted_spec (hone : (s.runQueue ++ s.base.blockedQueue).count f ≤ 1)
    (hf : f ∉ s.base.completed) (drop : Finset FiberID) :
    f ∉ (s.markCompleted f drop).runQueue ∧ f ∉ (s.markCompleted f drop).base.blockedQueue := by
  rw [QueueScheduler.markCompleted, if_neg hf]
  exact (queue_remove_spec (s := { s with base := s.base.record f drop }) hone).2

end Queue

/-! ## Priority -/

section Priority

variable {s : PriorityScheduler} {f : FiberID}

/-- The entry found is taken out, and it was the only one of the fiber. -/
theorem priority_removeAt_spec (hone : (s.pqueue.map PriorityItem.fiber).count f ≤ 1) {i : Nat}
    (hf : s.find f = some i) :
    ∃ pq, s.removeAt i = some { s with pqueue := pq } ∧ f ∉ pq.map PriorityItem.fiber := by
  obtain ⟨hi, hfi⟩ := PriorityScheduler.find_spec hf
  obtain ⟨pq, hpq, hperm, -⟩ := PriorityScheduler.removeAt_spec hi
  refine ⟨pq, hpq, ?_⟩
  have hfibers := hperm.map Prod.fst
  have hcons := ((List.getElem_cons_eraseIdx_perm hi).map PriorityItem.fiber).count_eq f
  simp only [List.map_map, Function.comp_def, PriorityItem.key] at hfibers
  simp only [List.map_cons, hfi, List.count_cons_self] at hcons
  have hzero := hfibers.count_eq f
  rw [← List.count_eq_zero]
  have heta : (fun x : PriorityItem => x.fiber) = PriorityItem.fiber := rfl
  rw [heta] at hzero
  omega

theorem mem_fibers_iff_find : f ∈ s.pqueue.map PriorityItem.fiber ↔ (s.find f).isSome := by
  simp [PriorityScheduler.find, List.findIdx?_isSome]

theorem priority_remove_spec (hone : (s.pqueue.map PriorityItem.fiber).count f ≤ 1) :
    ∃ s' err, s.remove f = some (s', err) ∧ (err = none ↔ f ∈ s.pqueue.map PriorityItem.fiber) ∧
      s'.base.blockedQueue = s.base.blockedQueue ∧ f ∉ s'.pqueue.map PriorityItem.fiber := by
  have hmem := mem_fibers_iff_find (s := s) (f := f)
  unfold PriorityScheduler.remove
  cases hf : s.find f with
  | none =>
    have hrun : f ∉ s.pqueue.map PriorityItem.fiber := by simp [hmem, hf]
    exact ⟨s, _, rfl, iff_of_false (by simp) hrun, rfl, hrun⟩
  | some i =>
    obtain ⟨pq, hpq, hgone⟩ := priority_removeAt_spec hone hf
    refine ⟨{ s with pqueue := pq }, none, ?_, iff_of_true rfl (by simp [hmem, hf]), rfl, hgone⟩
    simp only [hpq]
    rfl

theorem priority_markCompleted_spec (hone : (s.pqueue.map PriorityItem.fiber).count f ≤ 1)
    (hc : f ∉ s.base.completed) (drop : Finset FiberID) :
    ∃ s', s.markCompleted f drop = some s' ∧ s'.base.blockedQueue = s.base.blockedQueue ∧
      f ∉ s'.pqueue.map PriorityItem.fiber := by
  rw [PriorityScheduler.markCompleted, if_neg hc]
  dsimp only
  split
  · next hf =>
    have hnone : s.find f = none := hf
    exact ⟨_, rfl, rfl, by simp [mem_fibers_iff_find, hnone]⟩
  · next i hf =>
    obtain ⟨pq, hpq, hgone⟩ :=
      priority_removeAt_spec (s := { s with base := s.base.record f drop }) hone (i := i) hf
    exact ⟨_, hpq, rfl, hgone⟩

theorem priority_keeps_iff (hone : (s.pqueue.map PriorityItem.fiber).count f ≤ 1) :
    (priority s).Keeps f ↔ f ∉ (priority s).blockedQueue := by
  refine keeps_iff_of_runQueue ?_ ?_
  · obtain ⟨s', err, hs', hspec⟩ := priority_remove_spec hone
    exact ⟨.priority s', err, by rw [remove, hs']; rfl, hspec⟩
  · intro hc drop _
    obtain ⟨s', hs', hspec⟩ := priority_markCompleted_spec hone hc drop
    exact ⟨.priority s', by rw [markCompleted, hs']; rfl, hspec⟩

end Priority

/-! ## Work stealing -/

section WorkStealing

open WorkStealing

theorem queued_eq_flatMap {n : Nat} (s : WorkStealingScheduler n) :
    queued s = ((List.finRange n).flatMap fun i => (s.workers i).localQueue : List FiberID) := by
  rw [queued, Fin.sum_univ_def, List.flatMap, ← Multiset.coe_join, List.map_map]
  rfl

variable {n : Nat} {s : WorkStealingScheduler n} {f : FiberID}

theorem mem_queued_iff : f ∈ queued s ↔ ∃ i, f ∈ (s.workers i).localQueue := by
  simp [queued, Multiset.mem_sum]

/-- The scan takes the ID from the first queue it finds it in. -/
theorem removeScan_spec (s : WorkStealingScheduler n) (f : FiberID) (rest : List (Fin n)) :
    (s.removeScan f rest = none ∧ ∀ i ∈ rest, f ∉ (s.workers i).localQueue) ∨
      ∃ s', s.removeScan f rest = some s' ∧ queued s = queued s' + [f] ∧
        s'.blocked = s.blocked := by
  induction rest with
  | nil => exact .inl ⟨rfl, by simp⟩
  | cons i rest ih =>
    unfold WorkStealingScheduler.removeScan
    cases hr : (s.workers i).remove f with
    | some w => exact .inr ⟨_, rfl, queued_of_split (remove_split _ hr), rfl⟩
    | none =>
      have hi : f ∉ (s.workers i).localQueue := by
        unfold Worker.remove at hr
        split at hr
        · cases hr
        · assumption
      rcases ih with ⟨hnone, hrest⟩ | hsome
      · exact .inl ⟨hnone, List.forall_mem_cons.mpr ⟨hi, hrest⟩⟩
      · exact .inr hsome

theorem workStealing_remove_spec (hone : (queued s).count f ≤ 1) :
    ((s.remove f).2 = none ↔ f ∈ queued s) ∧ (s.remove f).1.blocked = s.blocked ∧
      f ∉ queued (s.remove f).1 := by
  unfold WorkStealingScheduler.remove
  rcases removeScan_spec s f (List.finRange n) with ⟨hnone, hall⟩ | ⟨s', hsome, hq, hblocked⟩
  · have habsent : f ∉ queued s := by simpa [mem_queued_iff] using hall
    rw [hnone]
    exact ⟨iff_of_false (by simp) habsent, rfl, habsent⟩
  · rw [hsome]
    refine ⟨iff_of_true rfl (by simp [hq]), hblocked, ?_⟩
    rw [hq, Multiset.count_add, Multiset.coe_count, List.count_singleton_self] at hone
    rw [← Multiset.count_eq_zero]
    dsimp only
    omega

theorem workStealing_markCompleted_spec (hc : f ∉ s.base.completed) (drop : Finset FiberID) :
    (s.markCompleted f drop).blocked = s.blocked ∧ f ∉ queued (s.markCompleted f drop) := by
  rw [WorkStealingScheduler.markCompleted, if_neg hc]
  exact ⟨rfl, by simp [mem_queued_iff, Worker.sweep]⟩

theorem workStealing_keeps_iff {k : Int} {s : WorkStealingScheduler (numWorkers k)}
    (hone : (workStealing k s).runQueue.count f ≤ 1) :
    (workStealing k s).Keeps f ↔ f ∉ (workStealing k s).blockedQueue := by
  have hrun : ∀ s : WorkStealingScheduler (numWorkers k),
      ((workStealing k s).runQueue : Multiset FiberID) = queued s :=
    fun s => (queued_eq_flatMap s).symm
  rw [← Multiset.coe_count, hrun] at hone
  refine keeps_iff_of_runQueue ?_ ?_
  · obtain ⟨herr, hblocked, hgone⟩ := workStealing_remove_spec hone
    refine ⟨_, _, rfl, ?_, hblocked, ?_⟩
    · rwa [← Multiset.mem_coe, hrun]
    · rwa [← Multiset.mem_coe, hrun]
  · intro hc drop _
    obtain ⟨hblocked, hgone⟩ := workStealing_markCompleted_spec hc drop
    exact ⟨_, rfl, hblocked, by rwa [← Multiset.mem_coe, hrun]⟩

end WorkStealing

/-! ## The four schedulers -/

/-- Whatever its state, a scheduler keeps the contract for an ID that is in the queues at most
once if it is FIFO or round robin, or if the ID is not blocked; and in no other case. -/
theorem keeps_iff {s : AnyScheduler} {f : FiberID}
    (hone : (s.runQueue ++ s.blockedQueue).count f ≤ 1) :
    s.Keeps f ↔ s.type = .fifo ∨ s.type = .roundRobin ∨ f ∉ s.blockedQueue := by
  have hrun : s.runQueue.count f ≤ 1 := by
    rw [List.count_append] at hone
    omega
  cases s with
  | fifo s =>
    refine iff_of_true (keeps_of ⟨_, _, rfl, ?_⟩ ?_) (.inl rfl)
    · exact queue_remove_spec hone
    · exact fun hf drop _ => ⟨_, rfl, queue_markCompleted_spec hone hf drop⟩
  | roundRobin s =>
    refine iff_of_true (keeps_of ⟨_, _, rfl, ?_⟩ ?_) (.inr (.inl rfl))
    · exact queue_remove_spec hone
    · exact fun hf drop _ => ⟨_, rfl, queue_markCompleted_spec hone hf drop⟩
  | priority s => simpa [type] using priority_keeps_iff hrun
  | workStealing k s => simpa [type] using workStealing_keeps_iff hrun

/-- A FIFO scheduler lets go of a blocked fiber. -/
theorem keeps_iff_blocked_fifo :
    ∃ s, Trans.Reach step Trans.anyStep (new .fifo 2 fun _ => {}) s ∧ s.blockedQueue = [1] ∧
      s.Keeps 1 := by
  obtain ⟨s, hs, hp⟩ := Trans.exists_reach_of_exec step (new .fifo 2 fun _ => {})
    [.schedule 1, .schedule 2, .blockFiber 1]
    (fun s => s.blockedQueue == [1] && s.runQueue == [2] && s.type == .fifo) (by decide +kernel)
  simp only [Bool.and_eq_true, beq_iff_eq] at hp
  obtain ⟨⟨hblocked, hrun⟩, htype⟩ := hp
  exact ⟨s, hs, hblocked, (keeps_iff (by rw [hblocked, hrun]; decide)).mpr (.inl htype)⟩

/-- A scheduler of type `t` with fiber 1 in its blocked queue keeps it there: `Remove` does not
find it, and after `MarkCompleted` it can still be unblocked and is then queued to run. -/
def KeepsBlocked (t : SchedulerType) : Prop :=
  ∃ s, Trans.Reach step Trans.anyStep (new t 2 fun _ => {}) s ∧
    (s.runQueue ++ s.blockedQueue).count 1 ≤ 1 ∧ 1 ∉ s.completed ∧
    (∃ s' err, s.remove 1 = some (s', some err) ∧ 1 ∈ s.blockedQueue) ∧
    ∃ s' s'', s.markCompleted 1 ∅ = some s' ∧ 1 ∈ s'.blockedQueue ∧
      s'.unblockFiber 1 = some (s'', none) ∧ 1 ∈ s''.runQueue

/-- The run of `KeepsBlocked` as a test. -/
def keepsBlockedTest (s : AnyScheduler) : Bool :=
  s.runQueue == [] && s.blockedQueue == [1] && decide (1 ∉ s.completed)
    && (s.remove 1).any (fun r : AnyScheduler × Option String => r.2.isSome)
    && (s.markCompleted 1 ∅).any fun s' : AnyScheduler => decide (1 ∈ s'.blockedQueue)
      && (s'.unblockFiber 1).any fun r : AnyScheduler × Option String =>
        r.2.isNone && decide (1 ∈ r.1.runQueue)

theorem keepsBlocked_of_test {t : SchedulerType}
    (h : (Trans.exec step (new t 2 fun _ => {}) [.schedule 1, .blockFiber 1]).map keepsBlockedTest
      = some true) : KeepsBlocked t := by
  obtain ⟨s, hs, hp⟩ := Trans.exists_reach_of_exec step (new t 2 fun _ => {})
    [.schedule 1, .blockFiber 1] keepsBlockedTest h
  simp only [keepsBlockedTest, Bool.and_eq_true, beq_iff_eq, decide_eq_true_eq,
    Option.any_eq_true, Prod.exists, Option.isSome_iff_exists, Option.isNone_iff_eq_none] at hp
  obtain ⟨⟨⟨⟨hrun, hblocked⟩, hc⟩, s₁, err, hr, e, rfl⟩, s₂, hm, hb, s₃, e', hu, rfl, hq⟩ := hp
  exact ⟨s, hs, by rw [hrun, hblocked]; decide, hc, ⟨s₁, e, hr, by simp [hblocked]⟩,
    s₂, s₃, hm, hb, hu, hq⟩

/-- The priority and the work-stealing scheduler keep it. -/
theorem blocked_fiber_stays : KeepsBlocked .priority ∧ KeepsBlocked .workStealing :=
  ⟨keepsBlocked_of_test (by decide +kernel), keepsBlocked_of_test (by decide +kernel)⟩

end AnyScheduler

end GreenThreads.Scheduler
