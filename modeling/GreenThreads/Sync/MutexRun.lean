import GreenThreads.Sync.Mutex
import GreenThreads.Sync.WaitQueue

/-!
# GreenThreads — runs of `FiberMutex`

What a step can do to the mutex is said once (`step_effect`); the invariant `Inv` is carried
through each of these shapes, and the properties of every run are read off it.
-/

namespace GreenThreads.Sync.Mutex

open FiberMutex

/-! ## What a step can do -/

/-- The things a step can do. -/
inductive Effect (s : Sys) : Sys → Prop where
  /-- A call returns without the mutex: a nil fiber, or a refused `TryLock`. -/
  | ret (op : Op) (r : Result) (hok : r ≠ .ok) : Effect s (s.ret op r)
  /-- A call finds the mutex free. -/
  | acquire (op : Op) (f : FiberRef) (hfree : s.fm.locked = false) :
      Effect s (s.acquire op { s.fm with locked := true, owner := f.id } f)
  /-- A `Lock` or `LockCtx` call finds it taken. -/
  | park (op : Op) (f : FiberRef) (hheld : s.fm.locked = true) :
      Effect s (s.park op
        { s.fm with waitQueue := s.fm.waitQueue ++ [⟨s.calls.length, f⟩] })
  /-- `Unlock` by the owner with nobody waiting. -/
  | release (f : FiberRef) (hheld : s.fm.locked = true) (howner : s.fm.owner = f.id)
      (hq : s.fm.waitQueue = []) :
      Effect s { s with fm := { s.fm with locked := false, owner := 0 },
                        releases := s.releases ++ [f.id] }
  /-- `Unlock` by the owner hands the mutex to the oldest waiter. -/
  | handoff (f : FiberRef) (w : Waiter) (rest : List Waiter) (hheld : s.fm.locked = true)
      (howner : s.fm.owner = f.id) (hq : s.fm.waitQueue = w :: rest) :
      Effect s { s with fm := { s.fm with waitQueue := rest, owner := w.fiber.id },
                        calls := s.calls.setPhase w.call (.woken .ok),
                        grants := s.grants ++ [(w.call, w.fiber.id)],
                        releases := s.releases ++ [f.id] }
  /-- A woken call returns what its waiter record says. -/
  | resume (c : Nat) (r : Result) (hc : s.calls.phaseOf c = some (.woken r)) :
      Effect s { s with calls := s.calls.setPhase c (.returned r) }
  /-- A parked `LockCtx` leaves the queue because its context is done. -/
  | withdraw (c : Nat) (hc : s.calls.phaseOf c = some .parked) :
      Effect s { s with fm := s.fm.removeWaiterLocked c,
                        calls := s.calls.setPhase c (.returned .ctxErr) }
  /-- A panicking `Unlock`. -/
  | panic : Effect s s

theorem lockFor_effect (s : Sys) (op : Op) (f : FiberRef) :
    Effect s (s.lockFor op f) := by
  unfold Sys.lockFor
  cases hl : s.fm.locked with
  | false =>
    rw [lockSection_free _ hl]
    exact .acquire op f hl
  | true =>
    rw [lockSection_held _ hl]
    exact .park op f hl

theorem enter_effect (s : Sys) (op : Op) : Effect s (s.enter op) := by
  cases op with
  | lock f =>
    cases f with
    | none => exact .ret _ _ (by decide)
    | some f => exact lockFor_effect s _ f
  | lockCtx f =>
    cases f with
    | none => exact .ret _ _ (by decide)
    | some f => exact lockFor_effect s _ f
  | tryLock f =>
    cases f with
    | none => exact .ret _ _ (by decide)
    | some f =>
      simp only [Sys.enter]
      cases hl : s.fm.locked with
      | false =>
        rw [tryLock_free f hl]
        exact .acquire _ f hl
      | true =>
        rw [tryLock_held _ hl]
        exact .ret _ _ (by decide)

/-- An `Unlock` that panics changes nothing. -/
theorem unlock_of_panic {s : Sys} {f : Option FiberRef}
    (h : s.fm.locked = false ∨ ∀ g, f = some g → s.fm.owner ≠ g.id) : s.unlock f = s := by
  obtain ⟨msg, hmsg⟩ := unlock_panics h
  unfold Sys.unlock
  rw [hmsg]
  cases f <;> rfl

theorem unlock_effect (s : Sys) (f : Option FiberRef) : Effect s (s.unlock f) := by
  by_cases hp : s.fm.locked = false ∨ ∀ g, f = some g → s.fm.owner ≠ g.id
  · rw [unlock_of_panic hp]
    exact .panic
  · push Not at hp
    obtain ⟨hl, g, rfl, ho⟩ := hp
    have hheld : s.fm.locked = true := by simpa using hl
    unfold Sys.unlock
    cases hq : s.fm.waitQueue with
    | nil =>
      rw [unlock_empty hheld ho hq]
      exact .release g hheld ho hq
    | cons w rest =>
      rw [unlock_handoff hheld ho hq]
      exact .handoff g w rest hheld ho hq

theorem resume_effect {s s' : Sys} {c : Nat} (h : s.resume c = some s') : Effect s s' := by
  unfold Sys.resume at h
  split at h
  · next r hr =>
    cases h
    exact .resume c r hr
  · cases h

theorem cancel_effect {s s' : Sys} {c : Nat} (h : s.cancel c = some s') : Effect s s' := by
  unfold Sys.cancel at h
  split at h
  · next r _ hr =>
    cases h
    exact .resume c r hr
  · next _ hp =>
    cases h
    exact .withdraw c hp
  · cases h

theorem step_effect {s s' : Sys} {l : Label} (h : step s l = some s') : Effect s s' := by
  cases l with
  | call op =>
    cases h
    exact enter_effect s op
  | unlock f =>
    cases h
    exact unlock_effect s f
  | resume c => exact resume_effect h
  | cancel c => exact cancel_effect h

/-! ## The invariant -/

/-- The invariant of every run: the mutex agrees with the logs of grants and releases, and for
some history `log` of the wait queue, mutex and calls agree with it. A call that finds the
mutex free arrives and is served in one step. -/
structure Inv (s : Sys) (log : Ledger Nat) : Prop where
  owner_iff : s.fm.locked = true ↔ s.fm.owner ≠ 0
  queue_locked : s.fm.waitQueue ≠ [] → s.fm.locked = true
  fibers : s.grants.map Prod.snd = s.releases ++ (if s.fm.locked then [s.fm.owner] else [])
  grants_log : s.grants.map Prod.fst = log.served
  queue_log : s.fm.waitQueue.map Waiter.call = log.waiting
  tracks : Tracks s.calls (fun _ => true) (· == .ok) (· == .ctxErr) log log.served

theorem inv_init : Inv init .empty where
  owner_iff := by simp [init, FiberMutex.new]
  queue_locked := fun h => absurd rfl h
  fibers := rfl
  grants_log := rfl
  queue_log := rfl
  tracks := Tracks.empty

namespace Inv

variable {s : Sys} {log : Ledger Nat}

/-- Queue, grants and calls are those of a queue served from the front. -/
theorem queued (hi : Inv s log) :
    Queued s.calls s.fm.waitQueue (s.grants.map Prod.fst) (· == .ok) (· == .ctxErr) log :=
  ⟨hi.grants_log, hi.queue_log, hi.tracks⟩

theorem of_queued (howner : s.fm.locked = true ↔ s.fm.owner ≠ 0)
    (hlocked : s.fm.waitQueue ≠ [] → s.fm.locked = true)
    (hfibers : s.grants.map Prod.snd = s.releases ++ (if s.fm.locked then [s.fm.owner] else []))
    (hq : Queued s.calls s.fm.waitQueue (s.grants.map Prod.fst) (· == .ok) (· == .ctxErr) log) :
    Inv s log :=
  ⟨howner, hlocked, hfibers, hq.grants_log, hq.queue_log, hq.tracks⟩

theorem ret (hi : Inv s log) (op : Op) {r : Result} (hok : r ≠ .ok) : Inv (s.ret op r) log :=
  of_queued hi.owner_iff hi.queue_locked hi.fibers (hi.queued.ret op (beq_false_of_ne hok))

theorem acquire (hi : Inv s log) (op : Op) (f : FiberRef) (hfree : s.fm.locked = false) :
    Inv (s.acquire op { s.fm with locked := true, owner := f.id } f)
      ((log.arrive s.calls.length).serve 1) := by
  -- a free mutex has no waiters, so the call is served in its turn
  have hq : s.fm.waitQueue = [] := by
    by_contra hne
    rw [hi.queue_locked hne] at hfree
    cases hfree
  refine of_queued ?_ (fun _ => rfl) ?_ ?_
  · simp [Sys.acquire, f.id_ne_zero]
  · have hf := hi.fibers
    rw [hfree] at hf
    simpa [Sys.acquire] using hf
  · simpa [Sys.acquire] using hi.queued.immediate op rfl rfl hq

theorem park (hi : Inv s log) {op : Op} (f : FiberRef) (hheld : s.fm.locked = true) :
    Inv (s.park op { s.fm with waitQueue := s.fm.waitQueue ++ [⟨s.calls.length, f⟩] })
      (log.arrive s.calls.length) :=
  of_queued hi.owner_iff (fun _ => hheld) hi.fibers (hi.queued.park op f)

theorem release (hi : Inv s log) (f : FiberRef) (hheld : s.fm.locked = true)
    (howner : s.fm.owner = f.id) (hq : s.fm.waitQueue = []) :
    Inv { s with fm := { s.fm with locked := false, owner := 0 },
                 releases := s.releases ++ [f.id] } log := by
  refine of_queued (by simp) (fun h => absurd hq h) ?_ hi.queued
  have hf := hi.fibers
  rw [hheld, howner] at hf
  simpa using hf

theorem handoff (hi : Inv s log) (f : FiberRef) {w : Waiter} {rest : List Waiter}
    (hheld : s.fm.locked = true) (howner : s.fm.owner = f.id)
    (hq : s.fm.waitQueue = w :: rest) :
    Inv { s with fm := { s.fm with waitQueue := rest, owner := w.fiber.id },
                 calls := s.calls.setPhase w.call (.woken .ok),
                 grants := s.grants ++ [(w.call, w.fiber.id)],
                 releases := s.releases ++ [f.id] } (log.serve 1) := by
  refine of_queued ?_ (fun _ => hheld) ?_ ?_
  · simp [hheld, w.fiber.id_ne_zero]
  · have hf := hi.fibers
    rw [hheld, howner] at hf
    simp [hf, hheld]
  · have hfront := hi.queued
    rw [hq] at hfront
    simpa using hfront.handoff (r := .ok) rfl rfl

theorem resume (hi : Inv s log) {c : Nat} {r : Result}
    (hc : s.calls.phaseOf c = some (.woken r)) :
    Inv { s with calls := s.calls.setPhase c (.returned r) } log :=
  of_queued hi.owner_iff hi.queue_locked hi.fibers (hi.queued.resume hc)

theorem withdraw (hi : Inv s log) {c : Nat} (hc : s.calls.phaseOf c = some .parked) :
    Inv { s with fm := s.fm.removeWaiterLocked c,
                 calls := s.calls.setPhase c (.returned .ctxErr) } (log.drop (· == c)) := by
  refine of_queued hi.owner_iff (fun h => ?_) hi.fibers (hi.queued.withdraw hc rfl rfl)
  refine hi.queue_locked fun hempty => h ?_
  simp [removeWaiterLocked, removeWaiter, hempty]

theorem effect {s' : Sys} (hi : Inv s log) (h : Effect s s') : ∃ log', Inv s' log' := by
  cases h with
  | ret op r hok => exact ⟨_, hi.ret op hok⟩
  | acquire op f hfree => exact ⟨_, hi.acquire op f hfree⟩
  | park op f hheld => exact ⟨_, hi.park f hheld⟩
  | release f hheld howner hq => exact ⟨_, hi.release f hheld howner hq⟩
  | handoff f w rest hheld howner hq => exact ⟨_, hi.handoff f hheld howner hq⟩
  | resume c r hc => exact ⟨_, hi.resume hc⟩
  | withdraw c hc => exact ⟨_, hi.withdraw hc⟩
  | panic => exact ⟨_, hi⟩

end Inv

/-- The invariant holds in every run. -/
theorem Reachable.inv {s : Sys} (h : Reachable s) : ∃ log, Inv s log :=
  Trans.Reach.invariant (P := fun s => ∃ log, Inv s log) ⟨_, inv_init⟩
    (fun _ _ _ ⟨_, hi⟩ _ hs => hi.effect (step_effect hs)) h

/-! ## Settled calls -/

/-- No step changes the result of a settled call. -/
theorem Effect.later {s s' : Sys} {log : Ledger Nat} (hi : Inv s log) (h : Effect s s') :
    s.calls.Later s'.calls := by
  cases h with
  | ret op r => exact Calls.later_append _ _
  | acquire op f => exact Calls.later_append _ _
  | park op f => exact Calls.later_append _ _
  | release f => exact Calls.Later.refl _
  | handoff f w rest _ _ hq =>
    have hmem : w.call ∈ log.waiting := by rw [← hi.queue_log, hq]; simp
    exact Calls.later_setPhase _ (hi.tracks.phaseOf_waiting hmem)
  | resume c r hc => exact Calls.later_resume hc
  | withdraw c hc => exact Calls.later_setPhase _ hc
  | panic => exact Calls.Later.refl _

/-- Nor does a run. -/
theorem Reachable.later {s s' : Sys} (h : Reachable s)
    (hrun : Trans.Reach step Trans.anyStep s s') : s.calls.Later s'.calls := by
  refine h.rel (R := fun s s' => s.calls.Later s'.calls) (fun s => .refl s.calls) .trans
    (fun ht hs => ?_) hrun
  obtain ⟨_, hi⟩ := Reachable.inv ht
  exact (step_effect hs).later hi

/-! ## Properties of every run -/

/-- Ownership is exclusive and exact: what was granted and not yet released is one
acquisition by the owner while the mutex is locked, and nothing while it is not. -/
structure Exclusive (s : Sys) : Prop where
  locked_iff : s.fm.locked = true ↔ s.fm.owner ≠ 0
  held : s.fm.locked = true → ∃ c, outstanding s.grants s.releases = [(c, s.fm.owner)]
  free : s.fm.locked = false → outstanding s.grants s.releases = []
  released : s.releases = (s.grants.take s.releases.length).map Prod.snd

theorem Inv.exclusive {s : Sys} {log : Ledger Nat} (hi : Inv s log) : Exclusive s where
  locked_iff := hi.owner_iff
  held hl := outstanding_eq_singleton (by rw [hi.fibers, hl, if_pos rfl])
  free hl := outstanding_eq_nil (by rw [hi.fibers, hl]; simp)
  released := by rw [List.map_take, hi.fibers, List.take_left]

/-- Nobody overtakes a parked waiter. -/
theorem Inv.no_overtaking {s : Sys} {log : Ledger Nat} (hi : Inv s log) (hq : s.fm.waitQueue ≠ []) :
    s.fm.locked = true ∧ (∀ w, (s.fm.lockSection w).2 = false) ∧
      ∀ f, (s.fm.tryLock f).2 = false := by
  have hl := hi.queue_locked hq
  refine ⟨hl, fun w => ?_, fun f => ?_⟩
  · rw [lockSection_held w hl]
  · rw [tryLock_held f hl]

/-- A call has the result `ok` exactly if it was granted the mutex. -/
theorem Inv.ok_iff_granted {s : Sys} {log : Ledger Nat} (hi : Inv s log) {c : Nat} {r : Result}
    (hc : s.calls.resultOf c = some r) : r = .ok ↔ c ∈ s.grants.map Prod.fst := by
  rw [← hi.queued.ok_iff_granted hc, beq_iff_eq]

/-- `FiberMutex` is a FIFO mutex without ghost owners, in every state of every run. -/
theorem fiberMutex_exclusive_fifo {s : Sys} (h : Reachable s) :
    Exclusive s ∧
    (s.fm.waitQueue ≠ [] → s.fm.locked = true ∧ (∀ w, (s.fm.lockSection w).2 = false) ∧
      ∀ f, (s.fm.tryLock f).2 = false) ∧
    (s.grants.map Prod.fst ++ s.fm.waitQueue.map Waiter.call
      = (List.range s.calls.length).filter (s.calls.live (fun _ => true) (· == .ok))) ∧
    (∀ c r, s.calls.phaseOf c = some (.returned r) →
      (r = .ok ↔ c ∈ s.grants.map Prod.fst)) ∧
    (∀ c s', s.calls.phaseOf c = some (.returned .ctxErr) →
      Trans.Reach step Trans.anyStep s s' → c ∉ s'.grants.map Prod.fst) ∧
    ∀ f, s.fm.locked = false ∨ (∀ g, f = some g → s.fm.owner ≠ g.id) →
      (∃ msg, s.fm.unlock f = .error msg) ∧ step s (.unlock f) = some s := by
  obtain ⟨log, hi⟩ := h.inv
  refine ⟨hi.exclusive, hi.no_overtaking, hi.queued.fifo, ?_, ?_, ?_⟩
  · intro c r hc
    exact hi.ok_iff_granted (Calls.resultOf_of_returned hc)
  · intro c s' hc hrun hg
    obtain ⟨_, hi'⟩ := Reachable.inv (h.trans hrun)
    have hc' := h.later hrun c _ (Calls.resultOf_of_returned hc)
    cases (hi'.ok_iff_granted hc').mpr hg
  · intro f hf
    exact ⟨unlock_panics hf, by rw [step, unlock_of_panic hf]⟩

/-- Fiber 1 holds the mutex, fiber 2 is cancelled in the queue, fiber 3 is handed the mutex. -/
theorem fiberMutex_exclusive_fifo_handoff :
    ∃ s, Reachable s ∧ s.fm.owner = 3 ∧ s.grants.map Prod.fst = [0, 2] ∧ Exclusive s := by
  obtain ⟨s, hs, hp⟩ := Trans.exists_reach_of_exec step init
    [.call (.lock (some ⟨1, by decide⟩)), .call (.lockCtx (some ⟨2, by decide⟩)),
      .call (.lock (some ⟨3, by decide⟩)), .cancel 1, .unlock (some ⟨1, by decide⟩), .resume 2]
    (fun s => s.fm.owner == 3 && s.grants.map Prod.fst == [0, 2]) (by decide)
  simp only [Bool.and_eq_true, beq_iff_eq] at hp
  exact ⟨s, hs, hp.1, hp.2, (fiberMutex_exclusive_fifo hs).1⟩

end GreenThreads.Sync.Mutex
