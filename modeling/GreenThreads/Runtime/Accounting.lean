import GreenThreads.Runtime.Runs
import Mathlib.Algebra.BigOperators.Ring.Finset

/-!
# GreenThreads — the accounting of `activeFiberCount`

`activeFiberCount` is a sum over fibers. The share of one fiber, `Life.weight`, is one while
its `Spawn` call holds a reservation, one while it is in `rt.fibers`, and one for every
decrement that its removal from there still owes; each atomic addition changes it by what is
added.
-/

namespace GreenThreads.Runtime

open Trans

/-! ## Sums over the calls -/

/-- What is zero from `n` on may be summed over a longer range. -/
theorem sum_range_extend {n k : Nat} {a : Nat → Int} (hzero : ∀ f, n ≤ f → a f = 0)
    (hle : n ≤ k) : ∑ f ∈ Finset.range n, a f = ∑ f ∈ Finset.range k, a f :=
  Finset.sum_subset (Finset.range_subset_range.mpr hle) fun f _ hf => hzero f (by simpa using hf)

/-- A sum of which one term changes. -/
theorem sum_range_change {k f : Nat} {a b : Nat → Int} (hf : f < k)
    (hothers : ∀ g, g ≠ f → b g = a g) :
    ∑ g ∈ Finset.range k, b g = ∑ g ∈ Finset.range k, a g + (b f - a f) := by
  have hmem := Finset.mem_range.mpr hf
  have hrest : ∑ g ∈ (Finset.range k).erase f, b g = ∑ g ∈ (Finset.range k).erase f, a g :=
    Finset.sum_congr rfl fun g hg => hothers g (Finset.ne_of_mem_erase hg)
  have hsum := Finset.add_sum_erase _ a hmem
  have hsum' := Finset.add_sum_erase _ b hmem
  omega

/-! ## What a step adds to the counter -/

namespace State

variable {c : Config} {s s' : State} {l : Label}

theorem spawnStep_count {f : FiberID} {w : Nat} (h : s.spawnStep c f w = some s') :
    s'.activeFiberCount = s.activeFiberCount + (s.event f (.spawn f w)).delta := by
  rw [event_spawn]
  cases spawnStep_effect h with
  | reserve hpc | overCap hpc | unreserve hpc | unscheduleUndo hpc | rollbackUndo hpc =>
    rw [hpc]
    rfl
  | commit hpc hdrain =>
    rw [hpc]
    dsimp only
    rw [hdrain]
    exact (Int.add_zero _).symm
  | rollback hpc hback =>
    rw [hpc]
    dsimp only
    rw [if_pos hback]
    exact (Int.add_zero _).symm
  | check hpc | notStarted hpc | insert hpc | schedule hpc | refused hpc | enqueue hpc
  | countScheduled hpc | unschedule hpc | readCtx hpc | recheck hpc | removeFound hpc
  | removeNext hpc | removeLast hpc | recordCreated hpc =>
    rw [hpc]
    exact (Int.add_zero _).symm

theorem goStep_count {f : FiberID} {drop : Finset FiberID} (h : s.goStep c f drop = some s') :
    s'.activeFiberCount = s.activeFiberCount + (s.event f (.go f drop)).delta := by
  rw [event_go]
  cases goStep_effect h with
  | undo hgo =>
    rw [if_pos hgo]
    rfl
  | run hgo | skip hgo | body hgo | recordCompleted hgo | marked hgo | markCompleted hgo
  | markCompletedFirst hgo | sweep hgo | remove hgo | send hgo =>
    have hundo : (s.threads f).go ≠ .undo := hgo ▸ nofun
    rw [if_neg hundo]
    exact (Int.add_zero _).symm

theorem lifecycleStep_count (h : s.lifecycleStep c = some s') :
    ∃ f, s'.activeFiberCount = s.activeFiberCount + (s.event f .lifecycle).delta ∧
      ∀ g, g ≠ f → (s.event g .lifecycle).delta = 0 := by
  unfold event
  cases lifecycleStep_effect h with
  | @reapUndo _ f _ hl =>
    rw [hl]
    refine ⟨f, by simp [addCount, Event.delta], fun g hg => ?_⟩
    simp [Ne.symm hg, Event.delta]
  | startSched hl | startFailed hl | startFibers hl | startRun hl | stopCancel hl | stopSched hl
  | stopJoin hl | clearAtOnce hl | clearWorker hl | clearBase hl | reapScan hl | reaped hl
  | reapRecord hl | join hl | resetMain hl | resetFibers hl | resetMetrics hl =>
    rw [hl]
    exact ⟨0, (Int.add_zero _).symm, fun _ _ => rfl⟩

/-- Every step changes the counter by what it is for one fiber, and it is nothing for the
others. -/
theorem step_count (h : step c s l = some s') :
    ∃ f, s'.activeFiberCount = s.activeFiberCount + (s.event f l).delta ∧
      ∀ g, g ≠ f → (s.event g l).delta = 0 := by
  have htau : s'.activeFiberCount = s.activeFiberCount →
      (∀ f, (s.event f l).delta = 0) → ∃ f,
        s'.activeFiberCount = s.activeFiberCount + (s.event f l).delta ∧
          ∀ g, g ≠ f → (s.event g l).delta = 0 :=
    fun hcount hevent => ⟨0, by rw [hcount, hevent, Int.add_zero], fun g _ => hevent g⟩
  cases step_effect h with
  | call | goexit =>
    refine htau rfl fun f => ?_
    unfold event
    dsimp only
    split_ifs <;> rfl
  | @spawn f w =>
    refine ⟨f, spawnStep_count h, fun g hg => ?_⟩
    rw [show s.event g (.spawn f w) = .tau from if_neg (Ne.symm hg)]
    rfl
  | loop hloop =>
    refine htau (loopStep_frame h).2 fun f => ?_
    cases hloop with
    | take =>
      unfold event
      dsimp only
      split_ifs <;> rfl
    | _ => rfl
  | @go f drop =>
    refine ⟨f, goStep_count h, fun g hg => ?_⟩
    rw [show s.event g (.go f drop) = .tau from if_neg fun hand => hg hand.1.symm]
    rfl
  | lifecycle => exact lifecycleStep_count h
  | _ => exact htau rfl fun _ => rfl

end State

/-- Nothing is counted for a call that has not been made. -/
theorem Life.Step.delta_uncalled {n : Nat} {v v' : Life} {e : Event} (h : v.Step n e v')
    (hs : v.Sound n) (hpc : v.pc = .uncalled) : e.delta = 0 := by
  cases h with
  | reserve h | unreserve h | unscheduleUndo h | rollbackUndo h => rw [hpc] at h; cases h
  | undo h =>
    rw [hs.placed.go_absent_of_not_published (by rw [hpc]; rfl)] at h
    cases h
  | reapUndo _ h0 =>
    have hcommitted := (hs.reaped.gone (hs.reaped.owed h0)).committed
    rw [hpc] at hcommitted
    cases hcommitted
  | _ => rfl

/-- The counter changes by the sum of what the step is for each call made so far. -/
theorem State.Sound.count_step {c : Config} {s s' : State} {l : Label} (hs : s.Sound c)
    (h : Runtime.step c s l = some s') :
    s'.activeFiberCount
      = s.activeFiberCount + ∑ g ∈ Finset.range s'.calls, (s.event g l).delta := by
  have hle : s.calls ≤ s'.calls := by
    rcases State.step_calls h with heq | ⟨heq, -⟩ <;> omega
  obtain ⟨f, hcount, hothers⟩ := State.step_count h
  rw [hcount]
  congr 1
  by_cases hf : f < s'.calls
  · exact (Finset.sum_eq_single_of_mem f (Finset.mem_range.mpr hf) fun g _ hg => hothers g hg).symm
  · -- then the step adds nothing for `f` either
    have hge : s.calls ≤ f := hle.trans (Nat.le_of_not_lt hf)
    rw [(hs.step_life h f).delta_uncalled (hs.life f) (hs.uncalled f hge)]
    refine (Finset.sum_eq_zero fun g hg => hothers g ?_).symm
    rintro rfl
    exact hf (Finset.mem_range.mp hg)

/-! ## A fiber stays listed until it is removed -/

namespace SpawnPc

theorem not_published {pc : SpawnPc} (h : pc.inserted = true) : pc.published = false := by
  cases pc with
  | schedule | enqueue | unschedule => rfl
  | _ => cases h

theorem not_inserted {pc : SpawnPc} (h : pc.committed = true) : pc.inserted = false := by
  cases pc with
  | schedule | enqueue | unschedule => cases h
  | _ => rfl

theorem not_undecided {pc : SpawnPc} (h : pc.committed = true) : pc.undecided = false := by
  cases pc with
  | countScheduled | readCtx | recheck | commit => cases h
  | _ => rfl

end SpawnPc

namespace GoPc

/-- `complete` has not yet removed the fiber from `rt.fibers`. -/
def holds : GoPc → Bool
  | undo | send | ended => false
  | _ => true

end GoPc

namespace Life

variable {n : Nat} {v v' : Life} {e : Event}

/-- A fiber is in `rt.fibers` from its insertion until its removal, and in `rt.admitted` from
its commit on. -/
structure Kept (v : Life) : Prop where
  inserted : v.pc.inserted = true → v.inFibers = true
  undecided : v.pc.undecided = true → v.go.holds = true → v.inFibers = true
  committed : v.pc.committed = true → v.go.holds = true → v.reaped = false →
    v.inFibers = true ∧ v.admitted = true

/-- Nothing but a `Reset` with fibers in the map can take a fiber out behind its back. -/
theorem Step.kept (h : v.Step n e v') (hs : v.Sound n)
    (hreset : e = .resetFibers → v.inFibers = false) (hv : v.Kept) : v'.Kept := by
  obtain ⟨hins, hund, hcom⟩ := hv
  cases h with
  | insert => exact ⟨fun _ => rfl, nofun, nofun⟩
  | call _ hpc => rcases hpc with rfl | rfl | rfl <;> exact ⟨nofun, nofun, nofun⟩
  | reserve _ hpc => rcases hpc with rfl | rfl <;> exact ⟨nofun, nofun, nofun⟩
  | checked | notStarted | unreserve | unscheduleUndo | rollbackUndo | unschedule | rollback
  | removeNext => exact ⟨nofun, nofun, nofun⟩
  | @removeFound _ present | @removeMissing _ present =>
    cases present <;> exact ⟨nofun, nofun, nofun⟩
  | schedule h hpc =>
    have hin := hins (by rw [h]; rfl)
    rcases hpc with rfl | rfl <;> exact ⟨fun _ => hin, nofun, nofun⟩
  | enqueue h _ hpc =>
    have hin := hins (by rw [h]; rfl)
    rcases hpc with rfl | rfl <;> exact ⟨nofun, fun _ _ => hin, nofun⟩
  | countScheduled h | readCtx h | recheck h =>
    exact ⟨nofun, fun _ hgo => hund (by rw [h]; rfl) hgo, nofun⟩
  | commit h => exact ⟨nofun, nofun, fun _ hgo _ => ⟨hund (by rw [h]; rfl) hgo, rfl⟩⟩
  | recordCreated h => exact ⟨nofun, nofun, fun _ => hcom (by rw [h]; rfl)⟩
  | launch h =>
    have hgo : v.go.holds = true := by
      rw [hs.placed.go_absent (.inl (by simp [h]))]
      rfl
    exact ⟨hins, fun hpc _ => hund hpc hgo, fun hpc _ => hcom hpc hgo⟩
  | runBegin h | runSkip h | runEnd h | recordCompleted h | markRemove h =>
    have hgo : v.go.holds = true := by rw [h]; rfl
    exact ⟨hins, fun hpc _ => hund hpc hgo, fun hpc _ => hcom hpc hgo⟩
  | markCompleted h | sweep h =>
    have hgo : v.go.holds = true := by rw [h]; rfl
    exact ⟨hins, fun hpc _ => hund hpc hgo, fun hpc _ => hcom hpc hgo⟩
  | goexit | undo | send => exact ⟨hins, nofun, nofun⟩
  | remove h =>
    have hgo : (if v.inFibers then GoPc.undo else .send).holds = false := by
      split_ifs <;> rfl
    refine ⟨fun hpc => ?_, fun _ h' => ?_, fun _ h' => ?_⟩
    · -- a fiber with a goroutine has been published
      have habsent := hs.placed.go_absent_of_not_published (SpawnPc.not_published hpc)
      rw [h] at habsent
      cases habsent
    · rw [hgo] at h'
      cases h'
    · rw [hgo] at h'
      cases h'
  | reapTake _ _ _ hadm =>
    have hpc := hs.listed.admitted hadm
    refine ⟨fun h' => ?_, fun h' => ?_, nofun⟩
    · simp [SpawnPc.not_inserted hpc] at h'
    · simp [SpawnPc.not_undecided hpc] at h'
  | resetFibers =>
    -- there was nothing to lose
    have hnot := hreset rfl
    refine ⟨fun hpc => ?_, fun hpc hgo => ?_, fun hpc hgo hr => ?_⟩
    · rw [hins hpc] at hnot
      cases hnot
    · rw [hund hpc hgo] at hnot
      cases hnot
    · rw [(hcom hpc hgo hr).1] at hnot
      cases hnot
  | _ => exact ⟨hins, hund, hcom⟩

end Life

/-! ## The share of one fiber -/

/-- The `+1` is done; the fiber is not inserted and the `+1` is not undone. -/
def SpawnPc.reserved : SpawnPc → Bool
  | unreserve | insert => true
  | _ => false

/-- A `Spawn` call has removed its fiber from `rt.fibers` and not yet done the `-1`. -/
def SpawnPc.owes : SpawnPc → Bool
  | unscheduleUndo | rollbackUndo | remove _ true => true
  | _ => false

/-- `complete` has removed the fiber from `rt.fibers` and not yet done the `-1`. -/
def GoPc.owes : GoPc → Bool
  | undo => true
  | _ => false

namespace Life

variable {n : Nat} {v v' : Life} {e : Event}

/-- What the fiber adds to `activeFiberCount`. -/
def weight (v : Life) : Nat :=
  v.pc.reserved.toNat + v.inFibers.toNat
    + (v.pc.owes.toNat + v.go.owes.toNat + v.reaping)

theorem owes_rolledBack (present : Bool) : (State.rolledBack present).owes = present := by
  cases present <;> rfl

theorem reserved_rolledBack (present : Bool) : (State.rolledBack present).reserved = false := by
  cases present <;> rfl

theorem reserved_remove (w : Nat) (present : Bool) :
    (SpawnPc.remove w present).reserved = false := rfl

theorem owes_remove (w : Nat) (present : Bool) : (SpawnPc.remove w present).owes = present := by
  cases present <;> rfl

theorem Sound.not_inFibers (hs : v.Sound n) (hpc : v.pc.listed = false) : v.inFibers = false := by
  by_contra hin
  have := hs.listed.inFibers (by simpa using hin)
  rw [hpc] at this
  cases this

/-- Every step changes the share of a fiber by what it adds to the counter for that fiber, unless
a `Reset` has taken the fiber out of `rt.fibers`. -/
theorem Step.weight (h : v.Step n e v') (hs : v.Sound n)
    (hun : v.pc = .unschedule → v.inFibers = true)
    (hreset : e = .resetFibers → v.inFibers = false) : (v'.weight : Int) = v.weight + e.delta := by
  cases h with
  | insert h =>
    have hin := hs.not_inFibers (by rw [h]; rfl)
    simp [Life.weight, h, hin, SpawnPc.reserved, SpawnPc.owes, Event.delta]
  | unschedule h =>
    simp [Life.weight, h, hun h, SpawnPc.reserved, SpawnPc.owes, Event.delta]
    omega
  | rollback h =>
    -- the call owes the decrement exactly if it was the one to remove the fiber
    cases hin : v.inFibers <;>
      simp [Life.weight, h, hin, SpawnPc.reserved, SpawnPc.owes, Event.delta]
    omega
  | removeFound h | removeMissing h | removeNext h =>
    simp [Life.weight, h, owes_remove, owes_rolledBack, reserved_rolledBack, reserved_remove,
      Event.delta]
  | call h hpc =>
    rcases hpc with rfl | rfl | rfl <;>
      simp [Life.weight, h, SpawnPc.reserved, SpawnPc.owes, Event.delta]
  | reserve h hpc =>
    rcases hpc with rfl | rfl <;>
      simp [Life.weight, h, SpawnPc.reserved, SpawnPc.owes, Event.delta] <;> omega
  | schedule h hpc | enqueue h _ hpc =>
    rcases hpc with rfl | rfl <;>
      simp [Life.weight, h, SpawnPc.reserved, SpawnPc.owes, Event.delta]
  | unreserve h | unscheduleUndo h | rollbackUndo h =>
    simp [Life.weight, h, SpawnPc.reserved, SpawnPc.owes, Event.delta]
    omega
  | checked h | notStarted h | countScheduled h | readCtx h | recheck h | commit h
  | recordCreated h => simp [Life.weight, h, SpawnPc.reserved, SpawnPc.owes, Event.delta]
  | launch h =>
    have hgo := hs.placed.go_absent (.inl (by simp [h]))
    simp [Life.weight, hgo, GoPc.owes, Event.delta]
  | runBegin h | runSkip h | runEnd h | goexit h | recordCompleted h | markRemove h | send h =>
    simp [Life.weight, h, GoPc.owes, Event.delta]
  | markCompleted h hgo | sweep h hgo =>
    rcases hgo with rfl | rfl <;> simp [Life.weight, h, GoPc.owes, Event.delta]
  | remove h =>
    -- and so does `complete`
    cases hin : v.inFibers <;> simp [Life.weight, h, hin, GoPc.owes, Event.delta]
    omega
  | undo h =>
    simp [Life.weight, h, GoPc.owes, Event.delta]
    omega
  | reapTake _ _ hin _ _ h0 =>
    simp [Life.weight, hin, h0, Event.delta]
    omega
  | reapUndo _ h0 =>
    simp [Life.weight, Event.delta]
    omega
  | resetFibers =>
    simp [Life.weight, hreset rfl, Event.delta]
  | _ => exact (Int.add_zero _).symm

theorem Sound.not_reaping (hs : v.Sound n) (hpc : v.pc.committed = false) : v.reaping = 0 := by
  by_contra hpos
  have := (hs.reaped.gone (hs.reaped.owed (Nat.pos_of_ne_zero hpos))).committed
  rw [hpc] at this
  cases this

/-- A call that is before its reservation adds nothing. -/
theorem Sound.weight_before (hs : v.Sound n)
    (h : v.pc = .uncalled ∨ v.pc = .check ∨ v.pc = .reserve) : v.weight = 0 := by
  have hin := hs.not_inFibers (by rcases h with h | h | h <;> rw [h] <;> rfl)
  have hgo := hs.placed.go_absent_of_not_published (by rcases h with h | h | h <;> rw [h] <;> rfl)
  have hreaping := hs.not_reaping (by rcases h with h | h | h <;> rw [h] <;> rfl)
  rcases h with h | h | h <;>
    simp [Life.weight, h, hin, hgo, hreaping, SpawnPc.reserved, SpawnPc.owes, GoPc.owes]

end Life

/-! ## The sum -/

section

variable {c : Config} {ok : State → Label → Prop} {s₀ s s' : State} {l : Label}

/-- The counter as the sum of the fibers' shares. -/
def State.Balanced (s : State) : Prop :=
  s.activeFiberCount = ∑ f ∈ Finset.range s.calls, ((s.life f).weight : Int)

theorem State.Balanced.step (hs : s.Sound c) (hk : ∀ f, (s.life f).Kept)
    (hreset : ResetsEmpty s l) (h : step c s l = some s') (hb : s.Balanced) : s'.Balanced := by
  have hweight : ∀ f, ((s'.life f).weight : Int) = (s.life f).weight + (s.event f l).delta :=
    fun f => (hs.step_life h f).weight (hs.life f) (fun hpc => (hk f).inserted (by rw [hpc]; rfl))
      hreset.inFibers
  have hzero : ∀ f, s.calls ≤ f → ((s.life f).weight : Int) = 0 := fun f hf =>
    congrArg Nat.cast ((hs.life f).weight_before (.inl (hs.uncalled f hf)))
  have hle : s.calls ≤ s'.calls := by
    rcases State.step_calls h with heq | ⟨heq, -⟩ <;> omega
  calc s'.activeFiberCount
      = s.activeFiberCount + ∑ g ∈ Finset.range s'.calls, (s.event g l).delta := hs.count_step h
    _ = ∑ g ∈ Finset.range s'.calls, (((s.life g).weight : Int) + (s.event g l).delta) := by
        rw [hb, sum_range_extend hzero hle, ← Finset.sum_add_distrib]
    _ = ∑ g ∈ Finset.range s'.calls, ((s'.life g).weight : Int) :=
        Finset.sum_congr rfl fun g _ => (hweight g).symm

theorem balanced_of_reach (hok : ∀ s l, ok s l → ResetsEmpty s l) (h₀ : Initial c s₀)
    (h : Reach (step c) ok s₀ s) : s.Balanced := by
  have hinit : (∀ f, (s₀.life f).Kept) ∧ s₀.Balanced := by
    refine ⟨fun f => h₀.life f ▸ ⟨nofun, nofun, nofun⟩, ?_⟩
    rcases h₀ with rfl | rfl <;> rfl
  have hall : (∀ f, (s.life f).Kept) ∧ s.Balanced := by
    refine sound_invariant (P := fun s => (∀ f, (s.life f).Kept) ∧ s.Balanced) h₀.sound hinit ?_ h
    rintro s l s' hs ⟨hk, hb⟩ h hst
    have hreset := hok s l h
    exact ⟨fun f => (hs.step_life hst f).kept (hs.life f) hreset.inFibers (hk f),
      hb.step hs hk hreset hst⟩
  exact hall.2

end

/-! ## The counter, told in the terms of the code -/

/-- The decrements a reap still owes. -/
def Lifecycle.pendingReaps : Lifecycle → Nat
  | .reapUndo _ reaped => reaped.length
  | .reapRecord _ _ reaped => reaped.length
  | _ => 0

namespace State

variable (s : State)

/-- `Spawn` calls that have done their `+1` and have neither inserted their fiber nor undone
the `+1`. -/
def reservations : Nat :=
  ((Finset.range s.calls).filter fun f => (s.threads f).pc.reserved = true).card

/-- Removals from `rt.fibers` whose `-1` has not been executed yet: by a `Spawn` call, by
`complete`, by a reap. -/
def pendingDecrements : Nat :=
  ((Finset.range s.calls).filter fun f => (s.threads f).pc.owes = true).card
    + ((Finset.range s.calls).filter fun f => (s.threads f).go.owes = true).card
    + s.lifecycle.pendingReaps

/-- The fibers in `rt.fibers` other than main fibers. -/
def spawnedFibers : Finset Key := s.fibers.filter fun k => k.isSpawned = true

/-- The fibers in `rt.fibers` other than `rt.mainFiber`. -/
def liveFibers : Finset Key := s.fibers.filter fun k => s.mainFiber.map Key.main ≠ some k

end State

section

variable {c : Config} {s : State}

theorem sum_toNat_eq_card (n : Nat) (p : Nat → Bool) :
    ∑ f ∈ Finset.range n, (p f).toNat = ((Finset.range n).filter fun f => p f = true).card := by
  rw [Finset.card_filter]
  refine Finset.sum_congr rfl fun f _ => ?_
  cases p f <;> rfl

/-- Every spawned key belongs to a call that has been made. -/
theorem State.Sound.lt_of_mem (hs : s.Sound c) {f : FiberID} (h : Key.spawned f ∈ s.fibers) :
    f < s.calls := by
  refine hs.lt_calls fun hpc => ?_
  have := (hs.life f).listed.inFibers (decide_eq_true h)
  rw [hpc] at this
  cases this

theorem State.Sound.sum_inFibers (hs : s.Sound c) :
    ∑ f ∈ Finset.range s.calls, (s.life f).inFibers.toNat = s.spawnedFibers.card := by
  rw [sum_toNat_eq_card s.calls fun f => (s.life f).inFibers]
  have himage : s.spawnedFibers
      = ((Finset.range s.calls).filter fun f => (s.life f).inFibers = true).image Key.spawned := by
    ext k
    simp only [spawnedFibers, Finset.mem_filter, Finset.mem_image, Finset.mem_range]
    constructor
    · rintro ⟨hmem, hk⟩
      cases k with
      | main k => cases hk
      | spawned f => exact ⟨f, ⟨hs.lt_of_mem hmem, decide_eq_true hmem⟩, rfl⟩
    · rintro ⟨f, ⟨-, hf⟩, rfl⟩
      exact ⟨of_decide_eq_true hf, rfl⟩
  rw [himage, Finset.card_image_of_injective _ fun _ _ h => Key.spawned.inj h]

theorem State.Sound.sum_reaping (hs : s.Sound c) :
    ∑ f ∈ Finset.range s.calls, (s.life f).reaping = s.lifecycle.pendingReaps := by
  have hlt : ∀ f, 0 < s.lifecycle.reaping f → f < s.calls := by
    intro f hf
    refine hs.lt_calls fun hpc => ?_
    have hr := (hs.life f).reaped
    have := (hr.gone (hr.owed hf)).committed
    rw [hpc] at this
    cases this
  have hlist : ∀ reaped : List FiberID, (∀ f, 0 < reaped.count f → f < s.calls) →
      ∑ f ∈ Finset.range s.calls, reaped.count f = reaped.length := by
    intro reaped h
    have hmem : ∀ f ∈ (reaped : Multiset Nat), f ∈ Finset.range s.calls := fun f hf =>
      Finset.mem_range.mpr (h f (List.count_pos_iff.mpr hf))
    simpa only [Multiset.coe_count, Multiset.coe_card] using Multiset.sum_count_eq_card hmem
  show ∑ f ∈ Finset.range s.calls, s.lifecycle.reaping f = _
  generalize s.lifecycle = l at hlt
  cases l with
  | reapUndo err reaped => exact hlist reaped hlt
  | reapRecord err f reaped => exact hlist reaped hlt
  | _ => exact Finset.sum_const_zero

/-- The sum of the shares, term by term. -/
theorem State.Sound.sum_weight (hs : s.Sound c) :
    ∑ f ∈ Finset.range s.calls, (s.life f).weight
      = s.reservations + s.spawnedFibers.card + s.pendingDecrements := by
  unfold Life.weight
  rw [Finset.sum_add_distrib, Finset.sum_add_distrib, Finset.sum_add_distrib,
    Finset.sum_add_distrib, hs.sum_inFibers, hs.sum_reaping,
    sum_toNat_eq_card s.calls fun f => (s.life f).pc.reserved,
    sum_toNat_eq_card s.calls fun f => (s.life f).pc.owes,
    sum_toNat_eq_card s.calls fun f => (s.life f).go.owes]
  rfl

end

/-! ## The accounting is exact -/

section

variable {c : Config} {s₀ s : State}

theorem State.Steady.liveFibers (hs : s.Steady) : s.liveFibers = s.spawnedFibers := by
  unfold State.liveFibers State.spawnedFibers
  refine Finset.filter_congr fun k hk => ?_
  cases k with
  | main k => simp [Key.isSpawned, hs.mains k hk]
  | spawned f => simp [Key.isSpawned]

/-- No `Spawn` call is in progress. -/
def State.NoSpawn (s : State) : Prop :=
  ∀ f ∈ Finset.range s.calls, (s.threads f).pc.atRest = true

instance (s : State) : Decidable s.NoSpawn := inferInstanceAs (Decidable (∀ _ ∈ _, _))

theorem SpawnPc.not_reserved_of_atRest {pc : SpawnPc} (h : pc.atRest = true) :
    pc.reserved = false := by
  cases pc with
  | uncalled | returned => rfl
  | _ => cases h

theorem State.NoSpawn.reservations (h : s.NoSpawn) : s.reservations = 0 := by
  unfold State.reservations
  rw [Finset.card_eq_zero, Finset.filter_eq_empty_iff]
  intro f hf
  simp [SpawnPc.not_reserved_of_atRest (h f hf)]

/-- The accounting is exact in every state of every run without a `Reset`, whatever `Spawn`
calls, the execution loop, the dispatch goroutines, `Start` and `Stop` do. -/
theorem activeFiberCount_exact (h₀ : Initial c s₀)
    (h : Reach (step c) (fun _ l => l ≠ .reset) s₀ s) :
    s.activeFiberCount = s.reservations + s.liveFibers.card + s.pendingDecrements
      ∧ 0 ≤ s.activeFiberCount
      ∧ (s.NoSpawn → s.liveFibers = ∅ → s.pendingDecrements = 0 → s.activeFiberCount = 0) := by
  have hguard : Reach (step c) (fun s l => l ≠ .reset ∧ anyStep s l) s₀ s :=
    h.mono fun _ _ hl => ⟨hl, trivial⟩
  obtain ⟨hsteady, hreach⟩ := steady_of_noReset h₀ hguard
  have hsum := (sound_of_reach h₀ h).sum_weight
  have hcount : s.activeFiberCount
      = s.reservations + s.liveFibers.card + s.pendingDecrements := by
    rw [balanced_of_reach (fun _ _ hok => hok.1) h₀ hreach, hsteady.liveFibers]
    exact_mod_cast hsum
  refine ⟨hcount, by omega, fun hspawn hlive hpending => ?_⟩
  rw [hcount, hspawn.reservations, hlive, hpending]
  rfl

end

/-- A `Stop` in the middle of its reap: fiber 0 is running, fiber 1 has been taken out of
`rt.fibers` and is still counted. -/
theorem activeFiberCount_exact_reaping :
    ∃ s, Reach (step (.ofNewRuntime .fifo 1)) (fun _ l => l ≠ .reset)
        (.new (.ofNewRuntime .fifo 1)) s
      ∧ s.lifecycle = .reapUndo none [1]
      ∧ s.activeFiberCount = 2
      ∧ s.activeFiberCount = s.reservations + s.liveFibers.card + s.pendingDecrements := by
  obtain ⟨s, hs, htest⟩ := exists_reach_of_exec_guarded (step (.ofNewRuntime .fifo 1))
    (fun _ l => l ≠ .reset) (.new (.ofNewRuntime .fifo 1))
    (List.flatten [Label.startTrace, [.call false 0, .call false 0], Label.spawnTrace 0 9,
      Label.spawnTrace 1 9, Label.dispatchTrace 0,
      [.stop, .lifecycle, .lifecycle, .loop .next, .loop .done, .loop .next, .lifecycle, .lifecycle,
        .lifecycle]])
    (fun s => decide (s.lifecycle = .reapUndo none [1] ∧ s.activeFiberCount = 2))
    (by decide)
  obtain ⟨hreap, hcount⟩ := of_decide_eq_true htest
  exact ⟨s, hs, hreap, hcount, (activeFiberCount_exact (.inl rfl) hs).1⟩

end GreenThreads.Runtime
