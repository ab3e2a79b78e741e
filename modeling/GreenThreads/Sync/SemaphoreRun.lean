import GreenThreads.Sync.Semaphore
import GreenThreads.Sync.WaitQueue

/-!
# GreenThreads — runs of `FiberSemaphore`

What a step can do is said once (`step_effect`). The invariant `Inv` has two halves, the count
of permits and the wait queue; the queue half is `Queued`, so each case below only says which
of its lemmas applies and what happens to the count.
-/

namespace GreenThreads.Sync.Semaphore

open FiberSemaphore

/-! ## What a step can do -/

/-- The things a step can do. -/
inductive Effect (s : Sys) : Sys → Prop where
  /-- A call returns without a permit: a nil fiber, or a refused `TryAcquire`. -/
  | ret (op : Op) (r : Result) (hok : r ≠ .ok) : Effect s (s.ret op r)
  /-- A call finds a permit. -/
  | take (op : Op) (hfree : 0 < s.fs.permits) :
      Effect s (s.take op { s.fs with permits := s.fs.permits - 1 })
  /-- An `Acquire` or `AcquireCtx` call finds none. -/
  | park (op : Op) (f : FiberRef) (hnone : s.fs.permits = 0) :
      Effect s (s.park op
        { s.fs with waitQueue := s.fs.waitQueue ++ [⟨s.calls.length, f⟩] })
  /-- `Release` hands its permit to the oldest waiter. -/
  | handoff (w : Waiter) (rest : List Waiter) (hq : s.fs.waitQueue = w :: rest) :
      Effect s { s with fs := { s.fs with waitQueue := rest },
                        calls := s.calls.setPhase w.call (.woken .ok),
                        grants := s.grants ++ [w.call],
                        releases := s.releases + 1 }
  /-- `Release` with nobody waiting adds a permit. -/
  | keep (hq : s.fs.waitQueue = [])
      (hroom : s.fs.maxPermits = 0 ∨ s.fs.permits < s.fs.maxPermits) :
      Effect s { s with fs := { s.fs with permits := s.fs.permits + 1 },
                        releases := s.releases + 1 }
  /-- A woken call returns what its waiter record says. -/
  | resume (c : Nat) (r : Result) (hc : s.calls.phaseOf c = some (.woken r)) :
      Effect s { s with calls := s.calls.setPhase c (.returned r) }
  /-- A parked `AcquireCtx` leaves the queue because its context is done. -/
  | withdraw (c : Nat) (hc : s.calls.phaseOf c = some .parked) :
      Effect s { s with fs := s.fs.removeWaiterLocked c,
                        calls := s.calls.setPhase c (.returned .ctxErr) }
  /-- A dropped `Release`. -/
  | drop : Effect s s

theorem acquireFor_effect (s : Sys) (op : Op) (f : FiberRef) (hpos : 0 ≤ s.fs.permits) :
    Effect s (s.acquireFor op f) := by
  unfold Sys.acquireFor
  rcases Int.lt_or_eq_of_le hpos with hfree | hnone
  · rw [acquireSection_free _ hfree]
    exact .take op hfree
  · rw [acquireSection_taken _ hnone.symm]
    exact .park op f hnone.symm

theorem enter_effect (s : Sys) (op : Op) (hpos : 0 ≤ s.fs.permits) : Effect s (s.enter op) := by
  cases op with
  | acquire f =>
    cases f with
    | none => exact .ret _ _ (by decide)
    | some f => exact acquireFor_effect s _ f hpos
  | acquireCtx f =>
    cases f with
    | none => exact .ret _ _ (by decide)
    | some f => exact acquireFor_effect s _ f hpos
  | tryAcquire =>
    simp only [Sys.enter]
    rcases Int.lt_or_eq_of_le hpos with hfree | hnone
    · rw [tryAcquire_free hfree]
      exact .take _ hfree
    · rw [tryAcquire_taken hnone.symm]
      exact .ret _ _ (by decide)

theorem release_effect (s : Sys) : Effect s s.release := by
  unfold Sys.release
  cases hq : s.fs.waitQueue with
  | cons w rest =>
    rw [release_handed hq]
    exact .handoff w rest hq
  | nil =>
    by_cases hroom : s.fs.maxPermits = 0 ∨ s.fs.permits < s.fs.maxPermits
    · rw [release_kept hq hroom]
      exact .keep hq hroom
    · rw [release_dropped hq hroom]
      exact .drop

theorem resume_effect {s s' : Sys} {c : Nat} (h : s.resume c = some s') : Effect s s' := by
  unfold Sys.resume at h
  split at h
  · next r hr =>
    cases h
    exact .resume c r hr
  · cases h

theorem cancel_effect {s s' : Sys} {c : Nat} (h : s.cancel c = some s') : Effect s s' := by
  unfold Sys.cancel at h
  split at h
  · next r _ hr =>
    cases h
    exact .resume c r hr
  · next _ hp =>
    cases h
    exact .withdraw c hp
  · cases h

theorem step_effect {s s' : Sys} {l : Label} (hpos : 0 ≤ s.fs.permits)
    (h : step s l = some s') : Effect s s' := by
  cases l with
  | call op =>
    cases h
    exact enter_effect s op hpos
  | release =>
    cases h
    exact release_effect s
  | resume c => exact resume_effect h
  | cancel c => exact cancel_effect h

/-! ## The invariant -/

/-- The law of the count: what was there at the start and what was released, less what was
granted. The clamp of `Release` keeps it within the initial count when there is one. -/
structure Conserved (n : Int) (s : Sys) : Prop where
  permits_eq : s.fs.permits = max n 0 + s.releases - s.grants.length
  nonneg : 0 ≤ s.fs.permits
  queue_waits : s.fs.waitQueue ≠ [] → s.fs.permits = 0
  le_initial : 0 < n → s.fs.permits ≤ n
  max_eq : s.fs.maxPermits = max n 0

/-- The invariant of every run, for some history `log` of the wait queue. -/
structure Inv (n : Int) (s : Sys) (log : Ledger Nat) : Prop extends Conserved n s where
  queued : Queued s.calls s.fs.waitQueue s.grants (· == .ok) (· == .ctxErr) log

theorem inv_init (n : Int) : Inv n (init n) .empty where
  permits_eq := by simp [init, new_eq]
  nonneg := by
    simp only [init, new_eq]
    omega
  queue_waits := fun h => absurd (by simp [init, new_eq]) h
  le_initial := by
    simp only [init, new_eq]
    omega
  max_eq := by simp [init, new_eq]
  queued := by
    have hq : (init n).fs.waitQueue = [] := by simp [init, new_eq]
    rw [hq]
    exact Queued.empty

namespace Inv

variable {n : Int} {s : Sys} {log : Ledger Nat}

/-- A semaphore with a permit to give has no waiters. -/
theorem queue_nil (hi : Inv n s log) (hfree : 0 < s.fs.permits) : s.fs.waitQueue = [] := by
  by_contra hne
  have hzero := hi.queue_waits hne
  omega

theorem ret (hi : Inv n s log) (op : Op) {r : Result} (hok : r ≠ .ok) :
    Inv n (s.ret op r) log :=
  { hi with queued := hi.queued.ret op (by simpa using hok) }

theorem take (hi : Inv n s log) (op : Op) (hfree : 0 < s.fs.permits) :
    Inv n (s.take op { s.fs with permits := s.fs.permits - 1 })
      ((log.arrive s.calls.length).serve 1) := by
  have hq := hi.queue_nil hfree
  have heq := hi.permits_eq
  have hle := hi.le_initial
  constructor
  case queued => exact hi.queued.immediate op rfl rfl hq
  constructor
  case permits_eq =>
    simp only [Sys.take, List.length_append, List.length_singleton]
    omega
  case nonneg =>
    simp only [Sys.take]
    omega
  case queue_waits => exact fun hne => absurd hq hne
  case le_initial =>
    simp only [Sys.take]
    omega
  case max_eq => exact hi.max_eq

theorem park (hi : Inv n s log) (op : Op) (f : FiberRef) (hnone : s.fs.permits = 0) :
    Inv n (s.park op { s.fs with waitQueue := s.fs.waitQueue ++ [⟨s.calls.length, f⟩] })
      (log.arrive s.calls.length) where
  permits_eq := hi.permits_eq
  nonneg := hi.nonneg
  queue_waits := fun _ => hnone
  le_initial := hi.le_initial
  max_eq := hi.max_eq
  queued := hi.queued.park op f

/-- A handoff is a release and a grant: the count stays. -/
theorem handoff (hi : Inv n s log) {w : Waiter} {rest : List Waiter}
    (hq : s.fs.waitQueue = w :: rest) :
    Inv n { s with fs := { s.fs with waitQueue := rest },
                   calls := s.calls.setPhase w.call (.woken .ok),
                   grants := s.grants ++ [w.call],
                   releases := s.releases + 1 } (log.serve 1) := by
  have hzero : s.fs.permits = 0 := hi.queue_waits (by simp [hq])
  have heq := hi.permits_eq
  have hqueued := hi.queued
  rw [hq] at hqueued
  constructor
  case queued => exact hqueued.handoff rfl rfl
  constructor
  case permits_eq =>
    simp only [List.length_append, List.length_singleton]
    omega
  case nonneg => exact hi.nonneg
  case queue_waits => exact fun _ => hzero
  case le_initial => exact hi.le_initial
  case max_eq => exact hi.max_eq

theorem keep (hi : Inv n s log) (hq : s.fs.waitQueue = [])
    (hroom : s.fs.maxPermits = 0 ∨ s.fs.permits < s.fs.maxPermits) :
    Inv n { s with fs := { s.fs with permits := s.fs.permits + 1 },
                   releases := s.releases + 1 } log := by
  have heq := hi.permits_eq
  have hnonneg := hi.nonneg
  have hmax := hi.max_eq
  constructor
  case queued => exact hi.queued
  constructor
  case permits_eq =>
    simp only
    omega
  case nonneg =>
    simp only
    omega
  case queue_waits => exact fun hne => absurd hq hne
  case le_initial =>
    -- with a positive initial count the limit is that count, and there was room below it
    simp only
    omega
  case max_eq => exact hmax

theorem resume (hi : Inv n s log) {c : Nat} {r : Result}
    (hc : s.calls.phaseOf c = some (.woken r)) :
    Inv n { s with calls := s.calls.setPhase c (.returned r) } log :=
  { hi with queued := hi.queued.resume hc }

theorem withdraw (hi : Inv n s log) {c : Nat} (hc : s.calls.phaseOf c = some .parked) :
    Inv n { s with fs := s.fs.removeWaiterLocked c,
                   calls := s.calls.setPhase c (.returned .ctxErr) } (log.drop (· == c)) where
  permits_eq := hi.permits_eq
  nonneg := hi.nonneg
  queue_waits hne := by
    refine hi.queue_waits fun hempty => hne ?_
    simp [removeWaiterLocked, removeWaiter, hempty]
  le_initial := hi.le_initial
  max_eq := hi.max_eq
  queued := hi.queued.withdraw hc rfl rfl

theorem effect {s' : Sys} (hi : Inv n s log) (h : Effect s s') : ∃ log', Inv n s' log' := by
  cases h with
  | ret op r hok => exact ⟨_, hi.ret op hok⟩
  | take op hfree => exact ⟨_, hi.take op hfree⟩
  | park op f hnone => exact ⟨_, hi.park op f hnone⟩
  | handoff w rest hq => exact ⟨_, hi.handoff hq⟩
  | keep hq hroom => exact ⟨_, hi.keep hq hroom⟩
  | resume c r hc => exact ⟨_, hi.resume hc⟩
  | withdraw c hc => exact ⟨_, hi.withdraw hc⟩
  | drop => exact ⟨_, hi⟩

end Inv

/-- The invariant holds in every run. -/
theorem Reachable.inv {n : Int} {s : Sys} (h : Reachable n s) : ∃ log, Inv n s log :=
  Trans.Reach.invariant (P := fun s => ∃ log, Inv n s log) ⟨_, inv_init n⟩
    (fun _ _ _ ⟨_, hi⟩ _ hs => hi.effect (step_effect hi.nonneg hs)) h

/-! ## Settled calls -/

/-- No step changes the result of a settled call. -/
theorem Effect.later {n : Int} {s s' : Sys} {log : Ledger Nat} (hi : Inv n s log)
    (h : Effect s s') : s.calls.Later s'.calls := by
  cases h with
  | ret op r => exact Calls.later_append _ _
  | take op => exact Calls.later_append _ _
  | park op f => exact Calls.later_append _ _
  | handoff w rest hq =>
    have hmem : w.call ∈ s.fs.waitQueue.map Waiter.call := by simp [hq]
    exact Calls.later_setPhase _ ((hi.queued.mem_queue_iff _).mp hmem)
  | keep => exact Calls.Later.refl _
  | resume c r hc => exact Calls.later_resume hc
  | withdraw c hc => exact Calls.later_setPhase _ hc
  | drop => exact Calls.Later.refl _

/-- Nor does a run. -/
theorem Reachable.later {n : Int} {s s' : Sys} (h : Reachable n s)
    (hrun : Trans.Reach step Trans.anyStep s s') : s.calls.Later s'.calls := by
  refine h.rel (R := fun s s' => s.calls.Later s'.calls) (fun s => .refl s.calls) .trans
    (fun ht hs => ?_) hrun
  obtain ⟨_, hi⟩ := Reachable.inv ht
  exact (step_effect hi.nonneg hs).later hi

/-! ## Properties of every run -/

/-- Nobody overtakes a parked waiter. -/
theorem Inv.no_overtaking {n : Int} {s : Sys} {log : Ledger Nat} (hi : Inv n s log)
    (hq : s.fs.waitQueue ≠ []) :
    (∀ w, (s.fs.acquireSection w).2 = false) ∧ s.fs.tryAcquire.2 = false := by
  have hzero := hi.queue_waits hq
  refine ⟨fun w => ?_, ?_⟩
  · rw [acquireSection_taken w hzero]
  · rw [tryAcquire_taken hzero]

/-- What `Release` drops, in terms of the count. -/
theorem release_dropped_iff (fs : FiberSemaphore) :
    fs.release.2 = .dropped ↔
      fs.waitQueue = [] ∧ fs.maxPermits ≠ 0 ∧ fs.maxPermits ≤ fs.permits := by
  cases hq : fs.waitQueue with
  | cons w rest => simp [release_handed hq]
  | nil =>
    by_cases hroom : fs.maxPermits = 0 ∨ fs.permits < fs.maxPermits
    · rw [release_kept hq hroom]
      simp only [reduceCtorEq, true_and, false_iff]
      omega
    · rw [release_dropped hq hroom]
      simp only [true_and, true_iff]
      omega

/-- With a positive initial count exactly the releases that answer no grant are dropped. -/
theorem Inv.dropped_iff {n : Int} {s : Sys} {log : Ledger Nat} (hi : Inv n s log) (hn : 0 < n) :
    s.fs.release.2 = .dropped ↔ s.grants.length = s.releases := by
  have heq := hi.permits_eq
  have hmax := hi.max_eq
  have hle := hi.le_initial hn
  rw [release_dropped_iff]
  constructor
  · rintro ⟨-, -, hfull⟩
    omega
  · intro hbalance
    -- every permit is back, so there is one to give and nobody can be waiting
    refine ⟨hi.queue_nil ?_, ?_, ?_⟩ <;> omega

end GreenThreads.Sync.Semaphore
