import GreenThreads.Scheduler.Closing

/-!
# GreenThreads — the sections of the schedulers with one queue

What a runtime does with a FIFO, a round-robin or a priority scheduler, one locked section at a
time. `Closing` has those of `Schedule` and `Clear`; here are `Next` past its look at `stopped` and
what `Remove`, `MarkCompleted` and `UpdatePriority` leave in the queue.

* `AnyScheduler.nextLocked` — `Next` past its look at `stopped`;
* `AnyScheduler.Positioned` — the entries of the heap note the positions they have, which every
  section keeps as long as no finished fiber is in the queue.
-/

namespace GreenThreads.Scheduler

/-! ## `Next` past its look at `stopped` -/

/-- The scheduler accepts work. -/
def BaseScheduler.reopen (b : BaseScheduler) : BaseScheduler := { b with stopped := false }

/-- What `Next` returns. -/
def nextResult : Option FiberID → Except String FiberID
  | none => .error "no fibers in run queue"
  | some f => .ok f

namespace QueueScheduler

variable (s : QueueScheduler)

def nextLocked : QueueScheduler × Option FiberID :=
  match filterFinishedInPlace s.fibers s.runQueue with
  | [] => ({ s with runQueue := [] }, none)
  | f :: queue => ({ s with runQueue := queue, base := s.base.recordSwitch }, some f)

/-- A call that nobody interrupts. -/
theorem next_alone (h : s.base.stopped = false) :
    s.next = (s.nextLocked.1, nextResult s.nextLocked.2) := by
  unfold next nextLocked
  rw [if_neg (by simp [h])]
  cases filterFinishedInPlace s.fibers s.runQueue <;> rfl

variable {s} {f : FiberID}

/-- Where nothing is blocked, the run queue is all there is to remove from. -/
theorem remove_of_blocked_nil (h : s.base.blockedQueue = []) :
    (s.remove f).1 = { s with runQueue := s.runQueue.erase f } := by
  unfold remove
  split
  · rfl
  · next hnot => simp [h, List.erase_of_not_mem hnot]

theorem markCompleted_of_blocked_nil (h : s.base.blockedQueue = []) (hf : f ∉ s.base.completed)
    (drop : Finset FiberID) :
    s.markCompleted f drop
      = { s with base := s.base.record f drop, runQueue := s.runQueue.erase f } := by
  rw [markCompleted, if_neg hf]
  exact remove_of_blocked_nil (s := { s with base := s.base.record f drop }) h

end QueueScheduler

namespace PriorityScheduler

def nextLocked (s : PriorityScheduler) : Option (PriorityScheduler × Option FiberID) :=
  match s.removeFinished with
  | none => none
  | some [] => some ({ s with pqueue := [] }, none)
  | some (item :: pq) =>
    let s := { s with pqueue := item :: pq, popCount := s.popCount + 1 }
    (if s.popCount % 100 = 0 then s.ageAllLocked.bind popNext else s.popNext).map fun r =>
      (r.1, r.2.toOption)

variable {s s' : PriorityScheduler}

/-- The scheduler with `stopped` cleared. -/
def reopen (s : PriorityScheduler) : PriorityScheduler := { s with base := s.base.reopen }

theorem popNext_reopen (s : PriorityScheduler) :
    s.reopen.popNext = s.popNext.map fun r => (r.1.reopen, nextResult r.2.toOption) := by
  unfold popNext
  rw [Option.map_map]
  rfl

theorem ageAllLocked_reopen (s : PriorityScheduler) :
    s.reopen.ageAllLocked = s.ageAllLocked.map reopen := by
  unfold ageAllLocked
  rw [Option.map_map]
  rfl

/-- The section does not look at `stopped` again. -/
theorem next_reopen (s : PriorityScheduler) :
    s.reopen.next = s.nextLocked.map fun r => (r.1.reopen, nextResult r.2) := by
  unfold next nextLocked
  rw [if_neg (by simp [reopen, BaseScheduler.reopen])]
  have hcompact : s.reopen.removeFinished = s.removeFinished := rfl
  rw [hcompact]
  cases s.removeFinished with
  | none => rfl
  | some pq =>
    cases pq with
    | nil => rfl
    | cons item pq =>
      let t : PriorityScheduler := { s with pqueue := item :: pq, popCount := s.popCount + 1 }
      change (if t.popCount % 100 = 0 then t.reopen.ageAllLocked.bind popNext
          else t.reopen.popNext)
        = ((if t.popCount % 100 = 0 then t.ageAllLocked.bind popNext else t.popNext).map _).map _
      split
      · rw [ageAllLocked_reopen]
        cases t.ageAllLocked with
        | none => rfl
        | some t' =>
          change t'.reopen.popNext = (t'.popNext.map _).map _
          rw [popNext_reopen, Option.map_map]
          rfl
      · rw [popNext_reopen, Option.map_map]
        rfl

/-- A call that nobody interrupts. -/
theorem next_alone (h : s.base.stopped = false) :
    s.next = s.nextLocked.map fun r => (r.1.reopen, nextResult r.2) := by
  have hsame : s.reopen = s := by
    obtain ⟨⟨blockedQueue, running, stopped, _⟩, _⟩ := s
    cases h
    rfl
  rw [← next_reopen, hsame]

theorem nextLocked_base {r : Option FiberID} (h : s.nextLocked = some (s', r)) :
    r = none ∧ s' = { s with pqueue := [] } ∨ ∃ g, r = some g ∧ s'.base = s.base.recordSwitch := by
  unfold nextLocked at h
  split at h
  · cases h
  · cases h
    exact .inl ⟨rfl, rfl⟩
  · obtain ⟨⟨s₁, r₁⟩, hpop, heq⟩ := Option.map_eq_some_iff.mp h
    cases heq
    right
    split at hpop
    · obtain ⟨s₂, hage, hpop⟩ := Option.bind_eq_some_iff.mp hpop
      obtain ⟨pq, -, rfl⟩ := Option.map_eq_some_iff.mp hage
      obtain ⟨hbase, g, rfl⟩ := base_popNext hpop
      exact ⟨g, rfl, hbase⟩
    · obtain ⟨hbase, g, rfl⟩ := base_popNext hpop
      exact ⟨g, rfl, hbase⟩

theorem next_of_nextLocked {r : Option FiberID} (h : s.nextLocked = some (s', r)) :
    s.reopen.next = some (s'.reopen, nextResult r) := by
  rw [next_reopen, h]
  rfl

theorem nextLocked_pops {g : FiberID} (h : s.nextLocked = some (s', some g)) : s.Pops g s' := by
  have hpops := next_pops (next_of_nextLocked h)
  exact ⟨hpops.least, hpops.count⟩

/-- Whose the entries are that `Next` chooses from, an aging pass does not change. -/
theorem candidates_fiber (s : PriorityScheduler) :
    s.candidates.map PriorityItem.fiber = s.unfinished.map PriorityItem.fiber := by
  unfold candidates
  split
  · rw [List.map_map]
    exact List.map_congr_left fun item _ => congrArg Prod.fst (PriorityItem.key_age item)
  · rfl

theorem nextLocked_fiber {g : FiberID} (h : s.nextLocked = some (s', some g)) :
    (g :: s'.pqueue.map PriorityItem.fiber).Perm (s.unfinished.map PriorityItem.fiber) := by
  obtain ⟨x, -, rfl, -, hperm⟩ := (nextLocked_pops h).least
  have hfibers := hperm.map Prod.fst
  rw [List.map_cons, List.map_map, List.map_map] at hfibers
  exact hfibers.trans (.of_eq s.candidates_fiber)

theorem nextLocked_none (h : s.nextLocked = some (s', none)) : s.unfinished = [] := by
  obtain ⟨-, hnil, -⟩ := next_error_of_running rfl (next_of_nextLocked h)
  exact hnil

/-! ## Whose the entries of the heap are -/

/-- The fibers of the heap. -/
def queued (s : PriorityScheduler) : List FiberID := s.pqueue.map PriorityItem.fiber

theorem queued_eq_keys (pq : List PriorityItem) :
    pq.map PriorityItem.fiber = (pq.map PriorityItem.key).map Prod.fst := by
  rw [List.map_map]
  rfl

theorem pushFiber_queued (s : PriorityScheduler) (f : FiberID) :
    ∃ pq, s.pushFiber f = some { s with pqueue := pq }
      ∧ (pq.map PriorityItem.fiber).Perm (s.queued ++ [f]) := by
  obtain ⟨pq, hpush, hswaps⟩ := SliceHeap.push_swaps (o := pqOps) s.pqueue
    ⟨f, (s.fibers f).priority, (s.fibers f).createdAt, 0⟩
  refine ⟨pq, by rw [pushFiber, hpush]; rfl, ?_⟩
  have hfibers := (hswaps.perm pqOps_keeps).map Prod.fst
  rw [List.map_append, List.map_append, ← queued_eq_keys, ← queued_eq_keys] at hfibers
  exact hfibers

theorem removeAt_queued {f : FiberID} {i : Nat} (h : s.find f = some i) :
    ∃ pq, s.removeAt i = some { s with pqueue := pq }
      ∧ (pq.map PriorityItem.fiber).Perm (s.queued.erase f) := by
  obtain ⟨hi, hfi⟩ := find_spec h
  obtain ⟨pq, hpq, hperm, -⟩ := removeAt_spec hi
  refine ⟨pq, hpq, ?_⟩
  have hfibers := hperm.map Prod.fst
  rw [← queued_eq_keys, ← queued_eq_keys] at hfibers
  -- the entry at `i` and the others are the whole heap
  have hsplit := (List.getElem_cons_eraseIdx_perm hi).map PriorityItem.fiber
  rw [List.map_cons, hfi] at hsplit
  have herase := hsplit.erase f
  rw [List.erase_cons_head] at herase
  exact hfibers.trans herase

theorem find_eq_none_iff {f : FiberID} : s.find f = none ↔ f ∉ s.queued := by
  simp [find, queued, List.findIdx?_eq_none_iff]

theorem remove_queued (s : PriorityScheduler) (f : FiberID) :
    ∃ pq err, s.remove f = some ({ s with pqueue := pq }, err)
      ∧ (pq.map PriorityItem.fiber).Perm (s.queued.erase f) := by
  unfold remove
  cases hf : s.find f with
  | none => exact ⟨s.pqueue, _, rfl, .of_eq (List.erase_of_not_mem (find_eq_none_iff.mp hf)).symm⟩
  | some i =>
    obtain ⟨pq, hpq, hperm⟩ := removeAt_queued hf
    exact ⟨pq, none, by simp only [hpq]; rfl, hperm⟩

theorem markCompleted_queued (s : PriorityScheduler) {f : FiberID} (hf : f ∉ s.base.completed)
    (drop : Finset FiberID) :
    ∃ pq, s.markCompleted f drop = some { s with base := s.base.record f drop, pqueue := pq }
      ∧ (pq.map PriorityItem.fiber).Perm (s.queued.erase f) := by
  rw [markCompleted, if_neg hf]
  dsimp only
  split
  · next hfind =>
    have hnone : s.find f = none := hfind
    exact ⟨s.pqueue, rfl, .of_eq (List.erase_of_not_mem (find_eq_none_iff.mp hnone)).symm⟩
  · next i hfind =>
    obtain ⟨pq, hpq, hperm⟩ := removeAt_queued (s := { s with base := s.base.record f drop }) hfind
    exact ⟨pq, hpq, hperm⟩

theorem setFirst_queued (f : FiberID) (p : Int) (pq : List PriorityItem) :
    (setFirst f p pq).map PriorityItem.fiber = pq.map PriorityItem.fiber := by
  unfold setFirst
  split
  · rfl
  · next i _ =>
    refine List.ext_getElem? fun j => ?_
    rw [List.getElem?_map, List.getElem?_map, List.getElem?_modify]
    cases pq[j]? with
    | none => rfl
    | some item =>
      refine congrArg some ?_
      dsimp only
      split <;> rfl

/-- `UpdatePriority` changes whose turn it is, and nothing else. -/
theorem updatePriority_queued (hix : Indexed s.pqueue) (f : FiberID) (p : Int) :
    ∃ s' err, s.updatePriority f p = some (s', err) ∧ Indexed s'.pqueue ∧ s'.base = s.base
      ∧ s'.queued.Perm s.queued ∧ ∀ g, (s'.fibers g).isFinished = (s.fibers g).isFinished := by
  obtain ⟨s', err, hupdate, hix', hperm⟩ := updatePriority_spec hix f p
  refine ⟨s', err, hupdate, hix', ?_⟩
  have hqueued : s'.queued.Perm s.queued := by
    have hfibers := hperm.map Prod.fst
    rw [← queued_eq_keys, ← queued_eq_keys, setFirst_queued] at hfibers
    exact hfibers
  rcases updatePriority_cases hupdate with rfl | ⟨i, item, -, -, hfix⟩
  · exact ⟨rfl, hqueued, fun _ => rfl⟩
  · obtain ⟨pq, -, rfl⟩ := Option.map_eq_some_iff.mp hfix
    refine ⟨rfl, hqueued, fun g => ?_⟩
    by_cases hg : g = f
    · subst hg
      simp [setVal, setPriority, Fiber.setPriority, Fiber.isFinished]
    · simp [setVal, setPriority, hg]

theorem exists_nextLocked (s : PriorityScheduler) : ∃ s' r, s.nextLocked = some (s', r) := by
  obtain ⟨s', r, hnext, -⟩ := s.reopen.next_spec
  rw [next_reopen] at hnext
  obtain ⟨⟨s₁, r₁⟩, h₁, -⟩ := Option.map_eq_some_iff.mp hnext
  exact ⟨s₁, r₁, h₁⟩

end PriorityScheduler

namespace AnyScheduler

/-- `Next` past its look at `stopped`, where there is one queue. -/
def nextLocked : AnyScheduler → Option (AnyScheduler × Option FiberID)
  | .fifo s => some (s.nextLocked.map .fifo id)
  | .roundRobin s => some (s.nextLocked.map .roundRobin id)
  | .priority s => s.nextLocked.map (Prod.map .priority id)
  | .workStealing _ _ => none

/-- `UpdatePriority`, which the priority scheduler has and the others have not. -/
def updatePriority (f : FiberID) (p : Int) : AnyScheduler → Option AnyScheduler
  | .priority s => (s.updatePriority f p).map fun r => .priority r.1
  | .fifo _ | .roundRobin _ | .workStealing _ _ => none

theorem markCompleted_of_completed {σ : AnyScheduler} {f : FiberID} (h : f ∈ σ.base.completed)
    (drop : Finset FiberID) : σ.markCompleted f drop = some σ := by
  cases σ with
  | fifo s => exact congrArg (fun s => some (fifo s)) (if_pos h)
  | roundRobin s => exact congrArg (fun s => some (roundRobin s)) (if_pos h)
  | priority s => exact congrArg (Option.map priority) (if_pos h)
  | workStealing k s => exact congrArg (fun s => some (workStealing k s)) (if_pos h)

/-- The section of `Clear` at worker `w`, or the last one. -/
def clearSection (w : Nat) (σ : AnyScheduler) : Option AnyScheduler :=
  (σ.clearAct (if w = 0 then σ.clearEntry else .base)).map Prod.fst

theorem clearSection_of_queue {σ : AnyScheduler} (h : σ.type = .fifo ∨ σ.type = .roundRobin)
    (w : Nat) : σ.clearSection w = some σ.clear := by
  cases σ with
  | fifo s | roundRobin s =>
    unfold clearSection
    split <;> rfl
  | priority s | workStealing k s => rcases h with h | h <;> cases h

/-- The entries of the heap note the positions they have. -/
def Positioned : AnyScheduler → Prop
  | .priority s => PriorityScheduler.Indexed s.pqueue
  | .fifo _ | .roundRobin _ | .workStealing _ _ => True

def fibers : AnyScheduler → FiberID → Fiber
  | .fifo s | .roundRobin s => s.fibers
  | .priority s => s.fibers
  | .workStealing _ s => s.fibers

def withFibers (fibers : FiberID → Fiber) : AnyScheduler → AnyScheduler
  | .fifo s => .fifo { s with fibers := fibers }
  | .roundRobin s => .roundRobin { s with fibers := fibers }
  | .priority s => .priority { s with fibers := fibers }
  | .workStealing k s => .workStealing k { s with fibers := fibers }

section Positioned

variable {σ σ' : AnyScheduler} {f : FiberID}

theorem Positioned.withFibers (hp : σ.Positioned) (fibers : FiberID → Fiber) :
    (σ.withFibers fibers).Positioned := by
  cases σ <;> exact hp

theorem Positioned.onBase (hp : σ.Positioned) (g : BaseScheduler → BaseScheduler) :
    (σ.onBase g).Positioned := by
  cases σ <;> exact hp

theorem Positioned.enqueue (hp : σ.Positioned) (h : σ.enqueue f = some σ') : σ'.Positioned := by
  cases σ with
  | fifo s | roundRobin s =>
    cases h
    trivial
  | priority s =>
    obtain ⟨pq, hpush, hix⟩ := PriorityScheduler.pushFiber_spec s f
    rw [AnyScheduler.enqueue, hpush] at h
    cases h
    exact hix hp
  | workStealing k s => cases h

theorem Positioned.remove {err : Option String} (hp : σ.Positioned)
    (h : σ.remove f = some (σ', err)) : σ'.Positioned := by
  cases σ with
  | fifo s | roundRobin s | workStealing k s =>
    cases h
    trivial
  | priority s =>
    obtain ⟨⟨s', err'⟩, hremove, heq⟩ := Option.map_eq_some_iff.mp h
    cases heq
    rcases PriorityScheduler.remove_cases hremove with rfl | ⟨i, hf, hr⟩
    · exact hp
    · exact PriorityScheduler.indexed_of_removeAt hp hf hr

theorem Positioned.markCompleted {drop : Finset FiberID} (hp : σ.Positioned)
    (h : σ.markCompleted f drop = some σ') : σ'.Positioned := by
  cases σ with
  | fifo s | roundRobin s | workStealing k s =>
    cases h
    trivial
  | priority s =>
    obtain ⟨s', hmark, rfl⟩ := Option.map_eq_some_iff.mp h
    rcases PriorityScheduler.markCompleted_cases hmark with rfl | rfl | ⟨i, hf, hr⟩
    · exact hp
    · exact hp
    · exact PriorityScheduler.indexed_of_removeAt
        (s := { s with base := s.base.record f drop }) hp hf hr

theorem Positioned.clearSection {w : Nat} (hp : σ.Positioned) (h : σ.clearSection w = some σ') :
    σ'.Positioned := by
  cases σ with
  | fifo s | roundRobin s =>
    rw [clearSection_of_queue (by simp [type])] at h
    cases h
    trivial
  | priority s =>
    unfold AnyScheduler.clearSection at h
    split at h
    · cases h
      intro i item hi
      cases hi
    · cases h
      exact hp
  | workStealing k s =>
    unfold AnyScheduler.clearSection at h
    split at h
    · cases h
      trivial
    · cases h
      trivial

theorem Positioned.nextLocked {found : Option FiberID} (hp : σ.Positioned)
    (hfin : ∀ f ∈ σ.runQueue, (σ.fibers f).isFinished = false)
    (h : σ.nextLocked = some (σ', found)) : σ'.Positioned := by
  cases σ with
  | fifo s | roundRobin s =>
    cases h
    trivial
  | priority s =>
    obtain ⟨⟨s', r⟩, hnext, heq⟩ := Option.map_eq_some_iff.mp h
    cases heq
    obtain ⟨s₁, r₁, hs₁, hix⟩ := s.reopen.next_spec
    cases (PriorityScheduler.next_of_nextLocked hnext).symm.trans hs₁
    refine hix (List.pairwise_of_forall_mem_list fun item hitem _ _ hdone => ?_) hp
    -- nothing in the queue is finished
    have hno := hfin item.fiber (List.mem_map.mpr ⟨item, hitem, rfl⟩)
    exact absurd (hdone.symm.trans hno) nofun
  | workStealing k s => cases h

end Positioned

end AnyScheduler

end GreenThreads.Scheduler
