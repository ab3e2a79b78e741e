import GreenThreads.Runtime.Accounting
import Mathlib.Algebra.Order.BigOperators.Group.Finset

/-!
# GreenThreads — `rt.fibers` and `rt.admitted` under `Reset`

What can be said of the two maps when `Reset` may replace them at any time.

* The cap: `activeFiberCount` is no longer exact, since a `Reset` forgets fibers that are still
  counted, but it is never too low. Every fiber in `rt.fibers` and every call about to insert
  one is counted, and that is enough for the cap.
* `rt.admitted`: the commit of `Spawn` does not look whether its fiber is still in `rt.fibers`.
  Where the fiber has not been taken out before its call has decided, `rt.admitted` is a part
  of `rt.fibers`.
-/

namespace GreenThreads.Runtime

open Trans

/-! ## What is counted at least -/

/-- The `+1` is done, and whatever becomes of `rt.fibers` the call will take it back itself or
publish its fiber. -/
def SpawnPc.pledged : SpawnPc → Bool
  | unreserve | insert | schedule | enqueue | unschedule | unscheduleUndo => true
  | _ => false

namespace Life

variable {n : Nat} {v v' : Life} {e : Event}

/-- What `activeFiberCount` has at least on behalf of the fiber. -/
def counted (v : Life) : Nat := if v.pc.pledged then 1 else v.weight

theorem counted_pledged (h : v.pc.pledged = true) : v.counted = 1 := if_pos h

theorem counted_le_one (h : v.pc.pledged = true) : (v.counted : Int) ≤ 1 + 0 := by
  rw [counted_pledged h]
  rfl

theorem counted_eq_weight (h : v.pc.pledged = false) : v.counted = v.weight := if_neg (by simp [h])

theorem inFibers_le_counted (v : Life) : v.inFibers.toNat ≤ v.counted := by
  unfold counted
  split_ifs
  · exact Bool.toNat_le _
  · unfold weight
    omega

/-- The steps of a call that holds its pledge. -/
theorem Step.counted_of_pledged (h : v.Step n e v') (hs : v.Sound n)
    (hp : v.pc.pledged = true) : (v'.counted : Int) ≤ 1 + e.delta := by
  have hpub : v.pc.published = false := by
    cases hpc : v.pc with
    | unreserve | insert | schedule | enqueue | unschedule | unscheduleUndo => rfl
    | _ => rw [hpc] at hp; cases hp
  have hgo := hs.placed.go_absent_of_not_published hpub
  have hreaping : v.reaping = 0 := hs.not_reaping (by simp_all [SpawnPc.published])
  cases h with
  | unreserve h | unscheduleUndo h =>
    have hin := hs.not_inFibers (by rw [h]; rfl)
    simp [Life.counted, Life.weight, SpawnPc.pledged, SpawnPc.reserved, SpawnPc.owes, GoPc.owes,
      hin, hgo, hreaping, Event.delta]
  | schedule _ hpc => rcases hpc with rfl | rfl <;> exact le_rfl
  | enqueue _ _ hpc =>
    -- the pledge goes over to the entry of the fiber in `rt.fibers`, if that is still there
    have hle := Bool.toNat_le v.inFibers
    rcases hpc with rfl | rfl <;>
      simp [Life.counted, Life.weight, SpawnPc.pledged, SpawnPc.reserved, SpawnPc.owes, GoPc.owes,
        hgo, hreaping, Event.delta] <;> omega
  | insert | unschedule => exact le_rfl
  | undo h => rw [hgo] at h; cases h
  | reapUndo _ h0 => omega
  | call h | checked h | notStarted h | reserve h | countScheduled h | readCtx h | recheck h
  | commit h | rollback h | removeFound h | removeNext h | removeMissing h | rollbackUndo h
  | recordCreated h =>
    rw [h] at hp
    cases hp
  | _ => exact counted_le_one hp

/-- A call makes its pledge with its `+1`. -/
theorem Step.reserved_of_pledged (h : v.Step n e v') (hp : v.pc.pledged = false)
    (hp' : v'.pc.pledged = true) : v'.pc.reserved = true := by
  cases h with
  | reserve _ hpc => rcases hpc with rfl | rfl <;> rfl
  | call _ hpc => rcases hpc with rfl | rfl | rfl <;> cases hp'
  | enqueue _ _ hpc => rcases hpc with rfl | rfl <;> cases hp'
  | insert h | schedule h | unschedule h => rw [h] at hp; cases hp
  | @removeFound _ present | @removeMissing _ present => cases present <;> cases hp'
  | checked | notStarted | unreserve | unscheduleUndo | countScheduled | readCtx | recheck | commit
  | rollback | removeNext | rollbackUndo | recordCreated => cases hp'
  | _ => rw [hp] at hp'; cases hp'

/-- No step takes more off the counter than the fiber has there. A `Reset` takes off less. -/
theorem Step.counted (h : v.Step n e v') (hs : v.Sound n) :
    (v'.counted : Int) ≤ v.counted + e.delta := by
  by_cases hp : v.pc.pledged = true
  · rw [counted_pledged hp]
    exact h.counted_of_pledged hs hp
  · have hunpledged : v.pc.pledged = false := by simpa using hp
    rw [counted_eq_weight hunpledged]
    by_cases he : e = .resetFibers
    · subst he
      cases h
      simp [Life.counted, hunpledged, Life.weight, Event.delta]
    · have hle : v'.counted ≤ v'.weight := by
        unfold Life.counted
        split_ifs with hp'
        · simp only [Life.weight, h.reserved_of_pledged hunpledged hp', Bool.toNat_true]
          omega
        · exact le_rfl
      have hweight := h.weight hs (fun hpc => by rw [hpc] at hp; exact absurd rfl hp)
        (fun h => absurd h he)
      omega

/-! ## Room under the cap -/

/-- A fiber in `rt.fibers`, or a call that is about to insert one. -/
def room (v : Life) : Nat := (decide (v.pc = .insert)).toNat + v.inFibers.toNat

theorem Sound.room_le_counted (hs : v.Sound n) : v.room ≤ v.counted := by
  by_cases hpc : v.pc = .insert
  · have hin := hs.not_inFibers (by rw [hpc]; rfl)
    rw [counted_pledged (by rw [hpc]; rfl)]
    simp [room, hpc, hin]
  · have := v.inFibers_le_counted
    simpa [room, hpc] using this

/-- Only a call that gets past the cap takes room. -/
theorem Step.room_le (h : v.Step n e v') (hpc' : v'.pc = .insert → v.pc = .insert) :
    v'.room ≤ v.room := by
  have hle : v'.inFibers.toNat ≤ v.inFibers.toNat ∨ v.pc = .insert ∧ v'.pc = .schedule := by
    cases h with
    | insert h => exact .inr ⟨h, rfl⟩
    | unschedule | rollback | remove | reapTake | resetFibers => exact .inl (Nat.zero_le _)
    | _ => exact .inl le_rfl
  unfold room
  rcases hle with hle | ⟨hpc, hsched⟩
  · by_cases hins : v'.pc = .insert
    · simpa [hins, hpc' hins] using hle
    · simp only [hins, decide_false, Bool.toNat_false]
      omega
  · have := Bool.toNat_le v'.inFibers
    simp only [hpc, hsched, reduceCtorEq, decide_false, decide_true, Bool.toNat_false,
      Bool.toNat_true]
    omega

/-- It does so with the `+1` that it compares with the cap. -/
theorem Step.eq_reserve (h : v.Step n e v') (hpc : v.pc ≠ .insert) (hpc' : v'.pc = .insert) :
    e = .add 1 := by
  cases h with
  | reserve => rfl
  | call _ h => rcases h with rfl | rfl | rfl <;> cases hpc'
  | schedule _ h => rcases h with rfl | rfl <;> cases hpc'
  | enqueue _ _ h => rcases h with rfl | rfl <;> cases hpc'
  | @removeFound _ present | @removeMissing _ present => cases present <;> cases hpc'
  | checked | notStarted | unreserve | insert | unschedule | unscheduleUndo | countScheduled
  | readCtx | recheck | commit | rollback | removeNext | rollbackUndo | recordCreated => cases hpc'
  | _ => exact absurd hpc' hpc

end Life

section

variable {c : Config} {ok : State → Label → Prop} {s₀ s s' : State} {l : Label}

/-- The counter is not too low. -/
def State.Covered (s : State) : Prop :=
  ∑ f ∈ Finset.range s.calls, ((s.life f).counted : Int) ≤ s.activeFiberCount

theorem State.Sound.counted_uncalled {f : FiberID} (hs : s.Sound c) (hf : s.calls ≤ f) :
    (s.life f).counted = 0 := by
  have hpc := hs.uncalled f hf
  rw [Life.counted_eq_weight (by rw [hpc]; rfl)]
  exact (hs.life f).weight_before (.inl hpc)

theorem State.Covered.step (hs : s.Sound c) (h : step c s l = some s') (hb : s.Covered) :
    s'.Covered := by
  have hle : s.calls ≤ s'.calls := by
    rcases State.step_calls h with heq | ⟨heq, -⟩ <;> omega
  have hzero : ∀ f, s.calls ≤ f → ((s.life f).counted : Int) = 0 := fun f hf =>
    congrArg Nat.cast (hs.counted_uncalled hf)
  calc ∑ f ∈ Finset.range s'.calls, ((s'.life f).counted : Int)
      ≤ ∑ f ∈ Finset.range s'.calls, (((s.life f).counted : Int) + (s.event f l).delta) :=
        Finset.sum_le_sum fun f _ => (hs.step_life h f).counted (hs.life f)
    _ = ∑ f ∈ Finset.range s.calls, ((s.life f).counted : Int)
          + ∑ f ∈ Finset.range s'.calls, (s.event f l).delta := by
        rw [Finset.sum_add_distrib, sum_range_extend hzero hle]
    _ ≤ s'.activeFiberCount := by
        rw [hs.count_step h]
        exact Int.add_le_add_right hb _

/-- The room taken by all fibers. -/
def State.taken (s : State) : Int := ∑ f ∈ Finset.range s.calls, ((s.life f).room : Int)

/-- A call that gets past the cap has seen a counter that allows for it. -/
theorem State.Sound.reserve_fits {f : FiberID} (hs : s.Sound c) (h : Runtime.step c s l = some s')
    (hmax : 0 < c.maxFibers) (hpc : (s.life f).pc ≠ .insert) (hpc' : (s'.life f).pc = .insert) :
    s'.activeFiberCount ≤ c.maxFibers := by
  obtain ⟨⟨w, rfl⟩, hres⟩ := State.event_eq_reserve ((hs.step_life h f).eq_reserve hpc hpc')
  simp only [Runtime.step, spawnStep, hres] at h
  cases h
  by_contra hlt
  have hover : 0 < c.maxFibers ∧ c.maxFibers < s.activeFiberCount + 1 := by
    simp only [setPc, setThread, addCount] at hlt
    omega
  simp [State.life, setPc, setThread, hover] at hpc'

theorem State.Sound.taken_step (hs : s.Sound c) (h : Runtime.step c s l = some s')
    (hmax : 0 < c.maxFibers) (hcov : s.Covered) (htaken : s.taken ≤ c.maxFibers) :
    s'.taken ≤ c.maxFibers := by
  have hs' := hs.step h
  by_cases hnew : ∃ f, (s.life f).pc ≠ .insert ∧ (s'.life f).pc = .insert
  · -- the counter has just been found low enough, and it is not too low
    obtain ⟨f, hpc, hpc'⟩ := hnew
    have hroom : s'.taken ≤ ∑ f ∈ Finset.range s'.calls, ((s'.life f).counted : Int) :=
      Finset.sum_le_sum fun f _ => Int.ofNat_le.mpr (hs'.life f).room_le_counted
    exact hroom.trans ((hcov.step hs h).trans (hs.reserve_fits h hmax hpc hpc'))
  · push Not at hnew
    have hle : s.calls ≤ s'.calls := by
      rcases State.step_calls h with heq | ⟨heq, -⟩ <;> omega
    have hzero : ∀ f, s.calls ≤ f → ((s.life f).room : Int) = 0 := fun f hf =>
      congrArg Nat.cast (Nat.le_zero.mp
        ((hs.life f).room_le_counted.trans (hs.counted_uncalled hf).le))
    calc s'.taken
        ≤ ∑ f ∈ Finset.range s'.calls, ((s.life f).room : Int) := by
          refine Finset.sum_le_sum fun f _ => Int.ofNat_le.mpr ?_
          refine (hs.step_life h f).room_le fun hpc' => ?_
          by_contra hpc
          exact hnew f hpc hpc'
      _ = s.taken := (sum_range_extend hzero hle).symm
      _ ≤ c.maxFibers := htaken

/-- The cap holds in every state of every run: whatever calls are made at the same time, and
whenever `Reset` throws the fibers away, `rt.fibers` never has more spawned fibers than the
cap. -/
theorem fiber_cap_never_exceeded (h₀ : Initial c s₀) (h : Reach (step c) anyStep s₀ s)
    (hmax : 0 < c.maxFibers) : (s.spawnedFibers.card : Int) ≤ c.maxFibers := by
  have hall : s.Sound c ∧ s.Covered ∧ s.taken ≤ c.maxFibers := by
    refine h.invariant
      (P := fun s => s.Sound c ∧ s.Covered ∧ s.taken ≤ c.maxFibers) ?_ ?_
    · refine ⟨h₀.sound, ?_, ?_⟩
      · rcases h₀ with rfl | rfl <;> exact le_rfl
      · rcases h₀ with rfl | rfl <;> exact hmax.le
    · rintro s l s' ⟨hs, hcov, htaken⟩ - hst
      exact ⟨hs.step hst, hcov.step hs hst, hs.taken_step hst hmax hcov htaken⟩
  obtain ⟨hs, -, htaken⟩ := hall
  refine le_trans ?_ htaken
  rw [← hs.sum_inFibers, Nat.cast_sum]
  exact Finset.sum_le_sum fun f _ => Int.ofNat_le.mpr (Nat.le_add_left _ _)

end

/-- With a cap of 1: fiber 0 is in `rt.fibers` and another call has done its `+1`, so that the
counter is over the cap. -/
theorem fiber_cap_never_exceeded_overshoot :
    ∃ s, Reach (step (.ofOptions 1 [.withMaxFibers 1])) anyStep
        (.newWithOptions (.ofOptions 1 [.withMaxFibers 1])) s
      ∧ s.activeFiberCount = 2 ∧ Key.spawned 0 ∈ s.fibers
      ∧ (s.spawnedFibers.card : Int) ≤ 1 := by
  obtain ⟨s, hs, htest⟩ := exists_reach_of_exec (step (.ofOptions 1 [.withMaxFibers 1]))
    (.newWithOptions (.ofOptions 1 [.withMaxFibers 1]))
    (List.flatten [Label.startTrace, [.call false 0, .call false 0], Label.spawnTrace 0 3,
      Label.spawnTrace 1 2])
    (fun s => decide (s.activeFiberCount = 2 ∧ Key.spawned 0 ∈ s.fibers))
    (by decide)
  obtain ⟨hcount, hmem⟩ := of_decide_eq_true htest
  exact ⟨s, hs, hcount, hmem, fiber_cap_never_exceeded (.inr rfl) hs (by decide)⟩

/-! ## Admitted fibers -/

namespace Life

variable {n : Nat} {v v' : Life} {e : Event}

/-- The fiber is in `rt.fibers` as long as its call is to decide about it, and as long as it is
in `rt.admitted`. -/
structure Backed (v : Life) : Prop where
  deciding : v.pc.inserted = true ∨ v.pc.undecided = true → v.inFibers = true
  admitted : v.admitted = true → v.inFibers = true

theorem Backed.of_not_deciding (hins : v.pc.inserted = false) (hund : v.pc.undecided = false)
    (hadm : v.admitted = true → v.inFibers = true) : v.Backed :=
  ⟨fun h => by simp [hins, hund] at h, hadm⟩

theorem Step.backed (h : v.Step n e v') (hs : v.Sound n)
    (hremove : v.go = .remove → v'.go ≠ v.go → v.pc.undecided = false)
    (hreset : e = .resetFibers → v.pc.inserted = false ∧ v.pc.undecided = false)
    (hv : v.Backed) : v'.Backed := by
  obtain ⟨hdec, hadm⟩ := hv
  cases h with
  | insert => exact ⟨fun _ => rfl, fun _ => rfl⟩
  | schedule h | enqueue h => exact ⟨fun _ => hdec (by rw [h]; exact .inl rfl), hadm⟩
  | countScheduled h | readCtx h | recheck h =>
    exact ⟨fun _ => hdec (by rw [h]; exact .inr rfl), hadm⟩
  | commit h => exact ⟨nofun, fun _ => hdec (by rw [h]; exact .inr rfl)⟩
  | call _ hpc => rcases hpc with rfl | rfl | rfl <;> exact .of_not_deciding rfl rfl hadm
  | reserve _ hpc => rcases hpc with rfl | rfl <;> exact .of_not_deciding rfl rfl hadm
  | @removeFound _ present | @removeMissing _ present =>
    cases present <;> exact .of_not_deciding rfl rfl hadm
  | checked | notStarted | unreserve | unscheduleUndo | removeNext | rollbackUndo
  | recordCreated => exact .of_not_deciding rfl rfl hadm
  | rollback => exact .of_not_deciding rfl rfl nofun
  | unschedule h =>
    -- what has not been queued has not been committed
    refine .of_not_deciding rfl rfl fun ha => ?_
    have hcommitted := hs.listed.admitted ha
    rw [h] at hcommitted
    cases hcommitted
  | remove h =>
    have hund := hremove h (by rw [h]; dsimp only; split_ifs <;> simp)
    refine .of_not_deciding (Bool.eq_false_iff.mpr fun hins => ?_) hund nofun
    -- and what has not been queued has no goroutine
    rw [hs.placed.go_absent_of_not_published (SpawnPc.not_published hins)] at h
    cases h
  | reapTake _ _ _ ha =>
    have hcommitted := hs.listed.admitted ha
    exact .of_not_deciding (SpawnPc.not_inserted hcommitted) (SpawnPc.not_undecided hcommitted)
      nofun
  | resetFibers => exact .of_not_deciding (hreset rfl).1 (hreset rfl).2 nofun
  | _ => exact ⟨hdec, hadm⟩

end Life

/-- No fiber is taken out of `rt.fibers` while its `Spawn` call is still to decide about it:
`complete` removes none whose call is between `Schedule` and its commit, and `Reset` finds no
call between its insertion and its commit. -/
def DecidedFirst (s : State) : Label → Prop
  | .go f _ => (s.threads f).go = .remove → (s.threads f).pc.undecided = false
  | .lifecycle => s.lifecycle = .resetFibers → ∀ f ∈ Finset.range s.calls,
      (s.threads f).pc.inserted = false ∧ (s.threads f).pc.undecided = false
  | _ => True

instance (s : State) : (l : Label) → Decidable (DecidedFirst s l)
  | .go _ _ | .lifecycle => inferInstanceAs (Decidable (_ → _))
  | .call _ _ | .spawn _ _ | .loop _ | .discard _ | .goexit _ | .block _ | .unblock _ | .start
  | .stop | .reset | .deadline | .cancelCtx | .setStackSize _ => isTrue trivial

section

variable {c : Config} {s₀ s s' : State} {l : Label} {f : FiberID}

/-- Only its own goroutine takes a fiber past the removal of `complete`. -/
theorem DecidedFirst.remove (hok : DecidedFirst s l) (hs : s.Sound c) (h : step c s l = some s')
    (hgo : (s.life f).go = .remove) (hne : (s'.life f).go ≠ (s.life f).go) :
    (s.life f).pc.undecided = false := by
  have hgo' : (s.threads f).go = .remove := hgo
  obtain ⟨drop, rfl⟩ := hs.turn_of_go h hne (by simp [hgo']) (by simp [hgo']) (by simp [hgo'])
  exact hok hgo'

theorem DecidedFirst.reset (hok : DecidedFirst s l) (hs : s.Sound c)
    (he : s.event f l = .resetFibers) :
    (s.life f).pc.inserted = false ∧ (s.life f).pc.undecided = false := by
  obtain ⟨rfl, hreset⟩ := State.event_eq_resetFibers he
  by_cases hf : f < s.calls
  · exact hok hreset f (Finset.mem_range.mpr hf)
  · rw [hs.uncalled f (Nat.le_of_not_lt hf)]
    exact ⟨rfl, rfl⟩

theorem backed_of_reach (h₀ : Initial c s₀) (h : Reach (step c) DecidedFirst s₀ s)
    (f : FiberID) : (s.life f).Backed :=
  lives_invariant (P := fun _ => Life.Backed) h₀ (fun _ => ⟨nofun, nofun⟩)
    (fun _ _ _ f hok hs hst hv => (hs.step_life hst f).backed (hs.life f) (hok.remove hs hst)
      (hok.reset hs) hv) h f

/-- In runs in which no fiber is taken out of `rt.fibers` before its call has decided, every
admitted fiber is in `rt.fibers`; so there are no more of them than live fibers, and none when
there is no live fiber. -/
theorem admitted_subset_fibers (h₀ : Initial c s₀) (h : Reach (step c) DecidedFirst s₀ s) :
    (∀ f ∈ s.admitted, Key.spawned f ∈ s.fibers)
      ∧ s.admitted.card ≤ s.spawnedFibers.card
      ∧ (s.spawnedFibers = ∅ → s.admitted = ∅) := by
  have hmem : ∀ f ∈ s.admitted, Key.spawned f ∈ s.fibers := fun f hf =>
    of_decide_eq_true ((backed_of_reach h₀ h f).admitted (decide_eq_true hf))
  have hsub : s.admitted.image Key.spawned ⊆ s.spawnedFibers := by
    intro k hk
    obtain ⟨f, hf, rfl⟩ := Finset.mem_image.mp hk
    exact Finset.mem_filter.mpr ⟨hmem f hf, rfl⟩
  refine ⟨hmem, ?_, fun hnone => ?_⟩
  · rw [← Finset.card_image_of_injective s.admitted fun _ _ h => Key.spawned.inj h]
    exact Finset.card_le_card hsub
  · rw [hnone] at hsub
    exact Finset.image_eq_empty.mp (Finset.subset_empty.mp hsub)

end

/-- Fiber 0 is admitted, runs and completes; fiber 1 is admitted and `rt.admitted` has it alone. -/
theorem admitted_subset_fibers_completed :
    ∃ s, Reach (step (.ofNewRuntime .fifo 1)) DecidedFirst (.new (.ofNewRuntime .fifo 1)) s
      ∧ (s.threads 0).go = .ended ∧ s.admitted = {1}
      ∧ (∀ f ∈ s.admitted, Key.spawned f ∈ s.fibers) := by
  obtain ⟨s, hs, htest⟩ := exists_reach_of_exec_guarded (step (.ofNewRuntime .fifo 1))
    DecidedFirst (.new (.ofNewRuntime .fifo 1))
    (List.flatten [Label.startTrace, [.call false 0, .call false 0], Label.spawnTrace 0 9,
      Label.spawnTrace 1 9, Label.dispatchTrace 0, List.replicate 6 (.go 0 ∅)])
    (fun s => decide ((s.threads 0).go = .ended ∧ s.admitted = {1}))
    (by decide +kernel)
  obtain ⟨hgo, hadm⟩ := of_decide_eq_true htest
  exact ⟨s, hs, hgo, hadm, (admitted_subset_fibers (.inl rfl) hs).1⟩

/-- The loop is faster than `Spawn`: the fiber has completed when the call commits it, and it
stays in `rt.admitted` for good. -/
theorem commit_outlives_fiber :
    ∃ s, Reach (step (.ofNewRuntime .fifo 1)) anyStep (.new (.ofNewRuntime .fifo 1)) s
      ∧ (s.threads 0).pc = .returned (.ok ()) ∧ (s.threads 0).go = .ended
      ∧ 0 ∈ s.admitted ∧ Key.spawned 0 ∉ s.fibers := by
  obtain ⟨s, hs, htest⟩ := exists_reach_of_exec (step (.ofNewRuntime .fifo 1))
    (.new (.ofNewRuntime .fifo 1))
    (List.flatten [Label.startTrace, [.call false 0], Label.spawnTrace 0 5, Label.dispatchTrace 0,
      List.replicate 6 (.go 0 ∅), Label.spawnTrace 0 4])
    (fun s => decide ((s.threads 0).pc = .returned (.ok ()) ∧ (s.threads 0).go = .ended
      ∧ 0 ∈ s.admitted ∧ Key.spawned 0 ∉ s.fibers))
    (by decide +kernel)
  exact ⟨s, hs, of_decide_eq_true htest⟩

end GreenThreads.Runtime
