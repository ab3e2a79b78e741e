import GreenThreads.Sync.WaitGroup
import GreenThreads.Sync.WaitQueue

/-!
# GreenThreads — runs of `FiberWaitGroup`

The layout is that of the runs of `FiberSemaphore`. The last section follows one call through
a run: between its first section and its return there is a step that leaves the counter at
zero.
-/

namespace GreenThreads.Sync.WaitGroup

open FiberWaitGroup

variable {p : IntSize}

/-! ## What a step can do -/

/-- The things a step can do. -/
inductive Effect (s : Sys p) : Sys p → Prop where
  /-- A waiting call for a nil fiber. -/
  | ret (op : Op) (r : Result) (hok : r ≠ .ok) : Effect s (s.ret op r)
  /-- A waiting call finds the counter at zero. -/
  | pass (op : Op) (hzero : s.fwg.counter.val = 0) : Effect s (s.ret op .ok)
  /-- A waiting call parks. -/
  | park (op : Op) (f : FiberRef) (hbusy : s.fwg.counter.val ≠ 0) :
      Effect s { s with
        fwg := { s.fwg with waitQueue := s.fwg.waitQueue ++ [⟨s.calls.length, f⟩] },
        calls := s.calls ++ [⟨op, .parked⟩] }
  /-- `Add` or `Done` moves the counter, but not to zero. -/
  | count (delta : GoInt p) (hfits : s.fwg.Fits delta)
      (hbusy : s.fwg.counter.val + delta.val ≠ 0) :
      Effect s { s with
        fwg := { s.fwg with counter := s.fwg.counter + delta },
        accepted := s.accepted ++ [delta] }
  /-- `Add` or `Done` leaves the counter at zero and wakes everybody. -/
  | finish (delta : GoInt p) (hfits : s.fwg.Fits delta)
      (hzero : s.fwg.counter.val + delta.val = 0) :
      Effect s { s with
        fwg := ⟨s.fwg.counter + delta, []⟩,
        calls := s.calls.wakeAll (s.fwg.waitQueue.map Waiter.call) .ok,
        accepted := s.accepted ++ [delta],
        closes := s.closes ++ s.fwg.waitQueue.map Waiter.call }
  /-- A woken call returns what its waiter record says. -/
  | resume (c : Nat) (r : Result) (hc : s.calls.phaseOf c = some (.woken r)) :
      Effect s { s with calls := s.calls.setPhase c (.returned r) }
  /-- A parked `WaitCtx` leaves the queue because its context is done. -/
  | withdraw (c : Nat) (hc : s.calls.phaseOf c = some .parked) :
      Effect s { s with fwg := s.fwg.removeWaiterLocked c,
                        calls := s.calls.setPhase c (.returned .ctxErr) }
  /-- A rejected `Add` or `Done`. -/
  | reject : Effect s s

theorem waitFor_effect (s : Sys p) (op : Op) (f : FiberRef) : Effect s (s.waitFor op f) := by
  unfold Sys.waitFor
  by_cases h : s.fwg.counter = 0
  · rw [waitSection_zero _ h]
    exact .pass op (GoInt.eq_zero_iff.mp h)
  · rw [waitSection_busy _ h]
    exact .park op f (mt GoInt.eq_zero_iff.mpr h)

theorem enter_effect (s : Sys p) (op : Op) : Effect s (s.enter op) := by
  cases op with
  | wait f =>
    cases f with
    | none => exact .ret _ _ (by decide)
    | some f => exact waitFor_effect s _ f
  | waitCtx f =>
    cases f with
    | none => exact .ret _ _ (by decide)
    | some f => exact waitFor_effect s _ f

theorem change_effect (s : Sys p) (delta : GoInt p) (h0 : 0 ≤ s.fwg.counter.val) :
    Effect s (s.change delta (s.fwg.add delta)) := by
  by_cases hfits : s.fwg.Fits delta
  · rw [add_of_fits h0 hfits]
    by_cases hzero : s.fwg.counter.val + delta.val = 0
    · rw [if_pos hzero]
      exact .finish delta hfits hzero
    · rw [if_neg hzero]
      have hcount := Effect.count delta hfits hzero
      simpa [Sys.change, Calls.wakeAll] using hcount
  · obtain ⟨msg, hmsg⟩ := add_of_not_fits h0 hfits
    rw [hmsg]
    exact .reject

theorem resume_effect {s s' : Sys p} {c : Nat} (h : s.resume c = some s') : Effect s s' := by
  unfold Sys.resume at h
  split at h
  · next r hr =>
    cases h
    exact .resume c r hr
  · cases h

theorem cancel_effect {s s' : Sys p} {c : Nat} (h : s.cancel c = some s') : Effect s s' := by
  unfold Sys.cancel at h
  split at h
  · next r _ hr =>
    cases h
    exact .resume c r hr
  · next _ hp =>
    cases h
    exact .withdraw c hp
  · cases h

theorem step_effect {s s' : Sys p} {l : Label p} (h0 : 0 ≤ s.fwg.counter.val)
    (h : step s l = some s') : Effect s s' := by
  cases l with
  | call op =>
    cases h
    exact enter_effect s op
  | add delta =>
    cases h
    exact change_effect s delta h0
  | done =>
    cases h
    exact change_effect s (-1) h0
  | resume c => exact resume_effect h
  | cancel c => exact cancel_effect h

/-! ## The invariant -/

/-- The invariant of every run, for some history `log` of the wait queue. A call that finds the
counter at zero arrives and is served in one step. -/
structure Inv (s : Sys p) (log : Ledger Nat) : Prop where
  counter_eq : s.fwg.counter.val = (s.accepted.map GoInt.val).sum
  nonneg : 0 ≤ s.fwg.counter.val
  queue_busy : s.fwg.waitQueue ≠ [] → s.fwg.counter.val ≠ 0
  queued : Queued s.calls s.fwg.waitQueue log.served (· == .ok) (· == .ctxErr) log
  closes_nodup : s.closes.Nodup
  closes_served : ∀ c ∈ s.closes, c ∈ log.served

theorem inv_init : Inv (init : Sys p) .empty where
  counter_eq := GoInt.zero_val
  nonneg := by simp [init, FiberWaitGroup.new]
  queue_busy := fun h => absurd rfl h
  queued := Queued.empty
  closes_nodup := List.nodup_nil
  closes_served := by simp [init]

namespace Inv

variable {s : Sys p} {log : Ledger Nat}

theorem ret (hi : Inv s log) (op : Op) {r : Result} (hok : r ≠ .ok) : Inv (s.ret op r) log :=
  { hi with queued := hi.queued.ret op (by simpa using hok) }

theorem pass (hi : Inv s log) (op : Op) (hzero : s.fwg.counter.val = 0) :
    Inv (s.ret op .ok) ((log.arrive s.calls.length).serve 1) := by
  have hq : s.fwg.waitQueue = [] := by
    by_contra hne
    exact hi.queue_busy hne hzero
  have hqueued := hi.queued.immediate op (r := Result.ok) rfl rfl hq
  refine { hi with queued := ?_, closes_served := ?_ }
  · rw [← hqueued.grants_log]
    exact hqueued
  · intro c hc
    rw [← hqueued.grants_log]
    exact List.mem_append_left _ (hi.closes_served c hc)

theorem park (hi : Inv s log) (op : Op) (f : FiberRef) (hbusy : s.fwg.counter.val ≠ 0) :
    Inv { s with
      fwg := { s.fwg with waitQueue := s.fwg.waitQueue ++ [⟨s.calls.length, f⟩] },
      calls := s.calls ++ [⟨op, .parked⟩] } (log.arrive s.calls.length) := by
  have hqueued := hi.queued.park op f
  refine { hi with queue_busy := fun _ => hbusy, queued := ?_, closes_served := ?_ }
  · rw [log.arrive_served]
    exact hqueued
  · rw [log.arrive_served]
    exact hi.closes_served

/-- The accepted deltas still add up to the counter. -/
theorem counter_eq_add (hi : Inv s log) {delta : GoInt p} (hfits : s.fwg.Fits delta) :
    (s.fwg.counter + delta).val = ((s.accepted ++ [delta]).map GoInt.val).sum := by
  have heq := hi.counter_eq
  rw [counter_add_val hfits]
  simp [heq]

theorem count (hi : Inv s log) {delta : GoInt p} (hfits : s.fwg.Fits delta)
    (hbusy : s.fwg.counter.val + delta.val ≠ 0) :
    Inv { s with
      fwg := { s.fwg with counter := s.fwg.counter + delta },
      accepted := s.accepted ++ [delta] } log where
  counter_eq := hi.counter_eq_add hfits
  nonneg := by
    rw [counter_add_val hfits]
    exact hfits.2.1
  queue_busy := fun _ => by
    rw [counter_add_val hfits]
    exact hbusy
  queued := hi.queued
  closes_nodup := hi.closes_nodup
  closes_served := hi.closes_served

theorem finish (hi : Inv s log) {delta : GoInt p} (hfits : s.fwg.Fits delta) :
    Inv { s with
      fwg := ⟨s.fwg.counter + delta, []⟩,
      calls := s.calls.wakeAll (s.fwg.waitQueue.map Waiter.call) .ok,
      accepted := s.accepted ++ [delta],
      closes := s.closes ++ s.fwg.waitQueue.map Waiter.call }
      (log.serve s.fwg.waitQueue.length) := by
  have hqueued := hi.queued.serveAll (r := Result.ok) rfl rfl
  have hserved := hqueued.grants_log
  constructor
  case counter_eq => exact hi.counter_eq_add hfits
  case nonneg =>
    rw [counter_add_val hfits]
    exact hfits.2.1
  case queue_busy => exact fun hne => absurd rfl hne
  case queued =>
    rw [← hserved]
    exact hqueued
  case closes_nodup =>
    -- whoever is queued was not served before, so its `ready` is still open
    refine List.nodup_append'.mpr ⟨hi.closes_nodup, hi.queued.queue_nodup, ?_⟩
    intro c hclosed hqueue
    rw [hi.queued.queue_log] at hqueue
    exact log.not_served_of_waiting hqueue (hi.closes_served c hclosed)
  case closes_served =>
    intro c hc
    rw [← hserved]
    rcases List.mem_append.mp hc with hc | hc
    · exact List.mem_append_left _ (hi.closes_served c hc)
    · exact List.mem_append_right _ hc

theorem resume (hi : Inv s log) {c : Nat} {r : Result}
    (hc : s.calls.phaseOf c = some (.woken r)) :
    Inv { s with calls := s.calls.setPhase c (.returned r) } log :=
  { hi with queued := hi.queued.resume hc }

theorem withdraw (hi : Inv s log) {c : Nat} (hc : s.calls.phaseOf c = some .parked) :
    Inv { s with fwg := s.fwg.removeWaiterLocked c,
                 calls := s.calls.setPhase c (.returned .ctxErr) } (log.drop (· == c)) where
  counter_eq := hi.counter_eq
  nonneg := hi.nonneg
  queue_busy hne := by
    refine hi.queue_busy fun hempty => hne ?_
    simp [removeWaiterLocked, removeWaiter, hempty]
  queued := hi.queued.withdraw hc rfl rfl
  closes_nodup := hi.closes_nodup
  closes_served := hi.closes_served

theorem effect {s' : Sys p} (hi : Inv s log) (h : Effect s s') : ∃ log', Inv s' log' := by
  cases h with
  | ret op r hok => exact ⟨_, hi.ret op hok⟩
  | pass op hzero => exact ⟨_, hi.pass op hzero⟩
  | park op f hbusy => exact ⟨_, hi.park op f hbusy⟩
  | count delta hfits hbusy => exact ⟨_, hi.count hfits hbusy⟩
  | finish delta hfits hzero => exact ⟨_, hi.finish hfits⟩
  | resume c r hc => exact ⟨_, hi.resume hc⟩
  | withdraw c hc => exact ⟨_, hi.withdraw hc⟩
  | reject => exact ⟨_, hi⟩

end Inv

/-- The invariant holds in every run. -/
theorem Reachable.inv {s : Sys p} (h : Reachable s) : ∃ log, Inv s log :=
  Trans.Reach.invariant (P := fun s => ∃ log, Inv s log) ⟨_, inv_init⟩
    (fun _ _ _ ⟨_, hi⟩ _ hs => hi.effect (step_effect hi.nonneg hs)) h

/-! ## The counter, the guards and the wake-up -/

/-- The counter is exact and bounded, parked calls and waiter records correspond, and no `ready`
channel was closed twice. -/
structure Exact (s : Sys p) : Prop where
  counter_eq : s.fwg.counter.val = (s.accepted.map GoInt.val).sum
  nonneg : 0 ≤ s.fwg.counter.val
  le_max : s.fwg.counter.val ≤ p.maxVal
  queue_busy : s.fwg.waitQueue ≠ [] → 0 < s.fwg.counter.val
  parked_iff : ∀ c, c ∈ s.fwg.waitQueue.map Waiter.call ↔ s.calls.phaseOf c = some .parked
  closes_nodup : s.closes.Nodup

theorem Inv.exact {s : Sys p} {log : Ledger Nat} (hi : Inv s log) : Exact s where
  counter_eq := hi.counter_eq
  nonneg := hi.nonneg
  le_max := s.fwg.counter.le_max
  queue_busy hq := by
    have hne := hi.queue_busy hq
    have hnonneg := hi.nonneg
    omega
  parked_iff := hi.queued.mem_queue_iff
  closes_nodup := hi.closes_nodup

/-- `Add` succeeds exactly on what fits. -/
theorem Inv.add_ok_iff {s : Sys p} {log : Ledger Nat} (hi : Inv s log) (delta : GoInt p) :
    (∃ res, s.fwg.add delta = .ok res) ↔ s.fwg.Fits delta := by
  constructor
  · rintro ⟨res, hres⟩
    by_contra hnot
    obtain ⟨msg, hmsg⟩ := add_of_not_fits hi.nonneg hnot
    rw [hmsg] at hres
    cases hres
  · intro hfits
    rw [add_of_fits hi.nonneg hfits]
    split <;> exact ⟨_, rfl⟩

/-- The step that brings the counter to zero closes the `ready` channel of every parked call. -/
theorem Effect.wakes {s s' : Sys p} {log : Ledger Nat} (hi : Inv s log) (h : Effect s s')
    (hbusy : s.fwg.counter.val ≠ 0) (hzero : s'.fwg.counter.val = 0) :
    s'.closes = s.closes ++ s.fwg.waitQueue.map Waiter.call ∧ s'.fwg.waitQueue = [] ∧
      ∀ c, s.calls.phaseOf c = some .parked → s'.calls.phaseOf c = some (.woken .ok) := by
  cases h with
  | finish delta hfits hsum =>
    refine ⟨rfl, rfl, fun c hc => ?_⟩
    have hmem := (hi.queued.mem_queue_iff c).mpr hc
    simp only [Calls.phaseOf_wakeAll, if_pos hmem, hc, Option.map_some]
  | count delta hfits hsum =>
    rw [counter_add_val hfits] at hzero
    exact absurd hzero hsum
  | _ => exact absurd hzero hbusy

/-! ## One call through a run -/

/-- A step gives a call the result `ok` only by leaving the counter at zero, and before that
step the call had not returned. -/
theorem Effect.zero_of_ok {s s' : Sys p} {log : Ledger Nat} (hi : Inv s log) (h : Effect s s')
    {c : Nat} (hnot : s.calls.resultOf c ≠ some .ok) (hok : s'.calls.resultOf c = some .ok) :
    s'.fwg.counter.val = 0 ∧ c < s'.calls.length ∧
      ∀ r, s.calls.phaseOf c ≠ some (.returned r) := by
  cases h with
  | ret op r hr =>
    simp only [Sys.ret, Calls.resultOf_append] at hok
    split at hok
    · exact absurd (Option.some.inj hok) hr
    · exact absurd hok hnot
  | pass op hzero =>
    simp only [Sys.ret, Calls.resultOf_append] at hok
    split at hok
    · next hc =>
      subst hc
      refine ⟨hzero, by simp [Sys.ret], fun r => ?_⟩
      rw [Calls.phaseOf_length]
      simp
    · exact absurd hok hnot
  | park op f =>
    simp only [Calls.resultOf_append] at hok
    split at hok
    · cases hok
    · exact absurd hok hnot
  | finish delta hfits hzero =>
    have hparked : ∀ d ∈ s.fwg.waitQueue.map Waiter.call, s.calls.phaseOf d = some .parked :=
      fun d hd => (hi.queued.mem_queue_iff d).mp hd
    simp only [Calls.resultOf_wakeAll _ _ _ _ hparked] at hok
    split at hok
    · next hc =>
      refine ⟨?_, ?_, fun r => ?_⟩
      · simp only [counter_add_val hfits, hzero]
      · simpa using Calls.lt_length_of_phaseOf (hparked c hc)
      · rw [hparked c hc]
        simp
    · exact absurd hok hnot
  | resume d r hd =>
    simp only [Calls.resultOf_resume hd] at hok
    exact absurd hok hnot
  | withdraw d hd =>
    by_cases hcd : d = c
    · subst hcd
      simp [Calls.resultOf, Calls.phaseOf_setPhase_self _ hd] at hok
    · simp only [Calls.resultOf_setPhase_ne _ _ hcd] at hok
      exact absurd hok hnot
  | count | reject => exact absurd hok hnot

/-- A run that gives a call the result `ok` has a step that does so. Induction on the run. -/
theorem zero_during {ls : List (Label p)} {s₀ s : Sys p} (h₀ : Reachable s₀)
    (hrun : Trans.exec step s₀ ls = some s) {c : Nat} (hnot : s₀.calls.resultOf c ≠ some .ok)
    (hok : s.calls.resultOf c = some .ok) :
    ∃ ls₁ l ls₂ s₁ s₂, ls = ls₁ ++ l :: ls₂ ∧ Trans.exec step s₀ ls₁ = some s₁ ∧
      step s₁ l = some s₂ ∧ s₂.fwg.counter.val = 0 ∧ c < s₂.calls.length ∧
      ∀ r, s₁.calls.phaseOf c ≠ some (.returned r) := by
  induction ls generalizing s₀ with
  | nil =>
    cases hrun
    exact absurd hok hnot
  | cons l ls ih =>
    obtain ⟨s₁, hs₁, hrest⟩ := Option.bind_eq_some_iff.mp hrun
    by_cases hnow : s₁.calls.resultOf c = some .ok
    · obtain ⟨_, hi⟩ := h₀.inv
      have hzero := (step_effect hi.nonneg hs₁).zero_of_ok hi hnot hnow
      exact ⟨[], l, ls, s₀, s₁, rfl, rfl, hs₁, hzero⟩
    · obtain ⟨ls₁, l', ls₂, t₁, t₂, hls, hexec, hrest⟩ := ih (.tail h₀ trivial hs₁) hrest hnow
      refine ⟨l :: ls₁, l', ls₂, t₁, t₂, by rw [hls, List.cons_append], ?_, hrest⟩
      rw [Trans.exec, hs₁]
      exact hexec

/-- `FiberWaitGroup` counts exactly and wakes its waiters at zero, at the end of every run. -/
theorem fiberWaitGroup_exact {ls : List (Label p)} {s : Sys p}
    (h : Trans.exec step init ls = some s) :
    Exact s ∧
    (∀ delta, (∃ res, s.fwg.add delta = .ok res) ↔ s.fwg.Fits delta) ∧
    (∀ delta msg, s.fwg.add delta = .error msg → step s (.add delta) = some s) ∧
    (∀ msg, s.fwg.done = .error msg → step s .done = some s) ∧
    (∀ l s', step s l = some s' → s.fwg.counter.val ≠ 0 → s'.fwg.counter.val = 0 →
      s'.closes = s.closes ++ s.fwg.waitQueue.map Waiter.call ∧ s'.fwg.waitQueue = [] ∧
      ∀ c, s.calls.phaseOf c = some .parked → s'.calls.phaseOf c = some (.woken .ok)) ∧
    ∀ c, s.calls.phaseOf c = some (.returned .ok) →
      ∃ ls₁ l ls₂ s₁ s₂, ls = ls₁ ++ l :: ls₂ ∧ Trans.exec step init ls₁ = some s₁ ∧
        step s₁ l = some s₂ ∧ s₂.fwg.counter.val = 0 ∧ c < s₂.calls.length ∧
        ∀ r, s₁.calls.phaseOf c ≠ some (.returned r) := by
  have hreach : Reachable s := Trans.Reach.of_exec h
  obtain ⟨_, hi⟩ := hreach.inv
  refine ⟨hi.exact, hi.add_ok_iff, ?_, ?_, ?_, ?_⟩
  · intro delta msg hmsg
    rw [step, hmsg, Sys.change]
  · intro msg hmsg
    rw [step, hmsg, Sys.change]
  · intro l s' hs hbusy hzero
    exact (step_effect hi.nonneg hs).wakes hi hbusy hzero
  · intro c hc
    have hnot : (init : Sys p).calls.resultOf c ≠ some .ok := by simp [init, Calls.resultOf,
      Calls.phaseOf]
    exact zero_during .refl h hnot (Calls.resultOf_of_returned hc)

/-- `Add(1)`, a `Wait` that parks, an `Add` of the least `int` that is rejected, and the `Done`
that wakes the waiter. -/
theorem fiberWaitGroup_exact_wakes :
    ∃ (ls : List (Label .w64)) (s : Sys .w64), Trans.exec step init ls = some s ∧
      .add ⟨IntSize.w64.minVal, by decide, by decide⟩ ∈ ls ∧ s.accepted.map GoInt.val = [1, -1] ∧
      s.calls.phaseOf 0 = some (.returned .ok) ∧ Exact s := by
  let ls : List (Label .w64) := [.add 1, .call (.wait (some ⟨1, by decide⟩)),
    .add ⟨IntSize.w64.minVal, by decide, by decide⟩, .done, .resume 0]
  have hrun : ∃ s, Trans.exec step init ls = some s ∧ s.accepted.map GoInt.val = [1, -1] ∧
      s.calls.phaseOf 0 = some (.returned .ok) := by
    refine ⟨_, rfl, ?_, ?_⟩ <;> decide
  obtain ⟨s, hs, hacc, hret⟩ := hrun
  exact ⟨ls, s, hs, by simp [ls], hacc, hret, (fiberWaitGroup_exact hs).1⟩

end GreenThreads.Sync.WaitGroup
