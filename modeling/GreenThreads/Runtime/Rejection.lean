import GreenThreads.Runtime.Accounting

/-!
# GreenThreads — when `Spawn` turns a fiber away

`Spawn` adds one to `activeFiberCount` before it looks at the cap, and takes it back when the sum
is over. In between, the reservation of a call that will be turned away counts as a fiber does, and
another call can be turned away because of it. If no such reservation is outstanding, the counter
stands for fibers: every share of it is a fiber in `rt.fibers`, one whose removal still owes its
decrement, or one that has passed the cap and is about to be inserted.
-/

namespace GreenThreads.Runtime

open Trans

/-! ## The share of one fiber is at most one -/

namespace Life

variable {n : Nat} {v v' : Life} {e : Event}

/-- Only the reservation adds to the counter. -/
theorem Step.delta_le (h : v.Step n e v') : e.delta ≤ 0 ∨ v.pc = .reserve ∧ e.delta = 1 := by
  cases h with
  | reserve h => exact .inr ⟨h, rfl⟩
  | unreserve | unscheduleUndo | rollbackUndo | undo | reapUndo => exact .inl (by decide)
  | _ => exact .inl (Int.le_refl 0)

theorem Step.weight_le_one (h : v.Step n e v') (hs : v.Sound n)
    (hun : v.pc = .unschedule → v.inFibers = true)
    (hreset : e = .resetFibers → v.inFibers = false) (hv : v.weight ≤ 1) : v'.weight ≤ 1 := by
  have hweight := h.weight hs hun hreset
  rcases h.delta_le with hle | ⟨hpc, hone⟩
  · omega
  · rw [hs.weight_before (.inr (.inr hpc))] at hweight
    omega

end Life

/-! ## Calls that are turned away and calls that are not -/

/-- The call is over the cap: it will undo its reservation, or has done so and returned. -/
def SpawnPc.rejected : SpawnPc → Bool
  | unreserve | returned (.error (.maxFibersReached _)) => true
  | _ => false

/-- The call has passed the cap. -/
def SpawnPc.passed : SpawnPc → Bool
  | insert | schedule | enqueue | countScheduled | unschedule | unscheduleUndo | readCtx
  | recheck _ | commit _ | remove _ _ | rollbackUndo | recordCreated => true
  | returned (.error (.maxFibersReached _)) => false
  | returned _ => true
  | uncalled | check | reserve | unreserve => false

namespace Life

variable {n : Nat} {v v' : Life} {e : Event}

/-- A call is turned away at its reservation and at no other point. -/
theorem Step.rejected (h : v.Step n e v') (hpc : v'.pc.rejected = true) :
    v.pc.rejected = true ∨ e = .add 1 := by
  cases h with
  | reserve => exact .inr rfl
  | unreserve h => exact .inl (by rw [h]; rfl)
  | call _ hpc' => rcases hpc' with rfl | rfl | rfl <;> cases hpc
  | schedule _ hpc' => rcases hpc' with rfl | rfl <;> cases hpc
  | enqueue _ _ hpc' => rcases hpc' with rfl | rfl <;> cases hpc
  | @removeFound _ present | @removeMissing _ present => cases present <;> cases hpc
  | checked | notStarted | insert | countScheduled | unschedule | unscheduleUndo | readCtx | recheck
  | commit | rollback | removeNext | rollbackUndo | recordCreated => cases hpc
  | _ => exact .inl hpc

/-- A call that has passed the cap is not turned away later. -/
theorem Step.passed (h : v.Step n e v') (hpc : v.pc.passed = true) : v'.pc.passed = true := by
  cases h with
  | call h | checked h | notStarted h | reserve h | unreserve h => rw [h] at hpc; cases hpc
  | schedule _ hpc' => rcases hpc' with rfl | rfl <;> rfl
  | enqueue _ _ hpc' => rcases hpc' with rfl | rfl <;> rfl
  | @removeFound _ present | @removeMissing _ present => cases present <;> rfl
  | insert | countScheduled | unschedule | unscheduleUndo | readCtx | recheck | commit | rollback
  | removeNext | rollbackUndo | recordCreated => rfl
  | _ => exact hpc

end Life

/-! ## What justifies turning a fiber away -/

/-- Fiber `g` is in `rt.fibers`, or was removed from there and the decrement is pending. -/
def State.Live (s : State) (g : FiberID) : Prop :=
  Key.spawned g ∈ s.fibers ∨ (s.threads g).pc.owes = true ∨ (s.threads g).go.owes = true
    ∨ 0 < s.lifecycle.reaping g

instance (s : State) (g : FiberID) : Decidable (s.Live g) :=
  inferInstanceAs (Decidable (_ ∨ _))

/-- `Spawn` call `g` is under way, and does not end in `ErrMaxFibersReached` however the run goes
on. -/
def State.Admitting (c : Config) (s : State) (g : FiberID) : Prop :=
  (s.threads g).pc.atRest = false ∧ ∀ s' limit, Reach (step c) anyStep s s' →
    (s'.threads g).pc ≠ .returned (.error (.maxFibersReached limit))

/-- The capacity is taken: as many fibers other than `f` as the cap allows are live or being
admitted. -/
def State.CapTaken (c : Config) (s : State) (f : FiberID) : Prop :=
  ∃ others : Finset FiberID, c.maxFibers ≤ others.card ∧ f ∉ others ∧
    ∀ g ∈ others, s.Live g ∨ s.Admitting c g

section

variable {c : Config} {ok : State → Label → Prop} {s₀ s : State} {f g : FiberID}

/-- The fibers that add to the counter. -/
theorem State.weight_pos_iff :
    0 < (s.life g).weight ↔ s.Live g ∨ (s.threads g).pc.reserved = true := by
  have htoNat : ∀ b : Bool, 0 < b.toNat ↔ b = true := by decide
  simp only [Life.weight, State.life, State.Live, Nat.add_pos_iff_pos_or_pos, htoNat,
    decide_eq_true_eq]
  tauto

theorem passed_of_reach (hs : s.Sound c) {s' : State} (h : Reach (step c) ok s s')
    (hpc : (s.threads g).pc.passed = true) : (s'.threads g).pc.passed = true :=
  sound_invariant (P := fun s => (s.threads g).pc.passed = true) hs hpc
    (fun _ _ _ hs hpc _ hst => (hs.step_life hst g).passed hpc) h

theorem State.Sound.admitting (hs : s.Sound c) (hpc : (s.threads g).pc = .insert) :
    s.Admitting c g := by
  refine ⟨by rw [hpc]; rfl, fun s' limit hrun hret => ?_⟩
  have hpassed := passed_of_reach hs hrun (g := g) (by rw [hpc]; rfl)
  rw [hret] at hpassed
  cases hpassed

/-- With no reservation of a call that is turned away outstanding, a counter that has reached the
cap says that the capacity is taken. -/
theorem State.Balanced.capTaken (hb : s.Balanced) (hs : s.Sound c)
    (hle : ∀ g, (s.life g).weight ≤ 1)
    (hstray : ∀ g ∈ Finset.range s.calls, (s.threads g).pc ≠ .unreserve)
    (hpc : (s.threads f).pc = .reserve) (hcount : c.maxFibers ≤ s.activeFiberCount) :
    s.CapTaken c f := by
  refine ⟨(Finset.range s.calls).filter fun g => 0 < (s.life g).weight, ?_, ?_, ?_⟩
  · -- no fiber counts twice, so there are as many of them as the counter says
    have hcard : ((Finset.range s.calls).filter fun g => 0 < (s.life g).weight).card
        = ∑ g ∈ Finset.range s.calls, (s.life g).weight := by
      rw [Finset.card_filter]
      refine Finset.sum_congr rfl fun g _ => ?_
      have := hle g
      split_ifs <;> omega
    rw [State.Balanced] at hb
    rw [hcard]
    push_cast
    omega
  · intro hmem
    have hpos := (Finset.mem_filter.mp hmem).2
    rw [(hs.life f).weight_before (.inr (.inr hpc))] at hpos
    cases hpos
  · intro g hg
    obtain ⟨hg, hpos⟩ := Finset.mem_filter.mp hg
    rcases State.weight_pos_iff.mp hpos with hlive | hreserved
    · exact .inl hlive
    · cases hpc' : (s.threads g).pc with
      | insert => exact .inr (hs.admitting hpc')
      | unreserve => exact absurd hpc' (hstray g hg)
      | _ => rw [hpc'] at hreserved; cases hreserved

/-- A call that is turned away found the counter over the cap at its reservation. Induction on the
run, back to that step. -/
theorem exists_reservation (h₀ : Initial c s₀) (h : Reach (step c) ok s₀ s)
    (hpc : (s.threads f).pc.rejected = true) :
    ∃ s₁ w, Reach (step c) ok s₀ s₁ ∧ Reach (step c) ok s₁ s ∧ ok s₁ (.spawn f w)
      ∧ (s₁.threads f).pc = .reserve ∧ 0 < c.maxFibers
      ∧ c.maxFibers < s₁.activeFiberCount + 1 := by
  induction h with
  | refl =>
    have hfresh := congrArg Life.pc (h₀.life f)
    rw [show (s₀.threads f).pc = .uncalled from hfresh] at hpc
    cases hpc
  | @tail t t' l hrun hok hst ih =>
    rcases ((sound_of_reach h₀ hrun).step_life hst f).rejected hpc with hbefore | hadd
    · obtain ⟨s₁, w, hto, hfrom, hrest⟩ := ih hbefore
      exact ⟨s₁, w, hto, .tail hfrom hok hst, hrest⟩
    · obtain ⟨⟨w, rfl⟩, hreserve⟩ := State.event_eq_reserve hadd
      have hcap : 0 < c.maxFibers ∧ c.maxFibers < t.activeFiberCount + 1 := by
        by_contra hfree
        simp only [step, State.spawnStep, hreserve, if_neg hfree, Option.some.injEq] at hst
        subst hst
        simp [State.setPc, State.setThread, SpawnPc.rejected] at hpc
      exact ⟨t, w, hrun, .tail .refl hok hst, hok, hreserve, hcap⟩

theorem weight_le_one_of_reach (hok : ∀ s l, ok s l → ResetsEmpty s l) (h₀ : Initial c s₀)
    (h : Reach (step c) ok s₀ s) (g : FiberID) : (s.life g).weight ≤ 1 := by
  refine (life_invariant (P := fun v => v.Kept ∧ v.weight ≤ 1) h₀ ⟨⟨nofun, nofun, nofun⟩, ?_⟩
    ?_ h g).2
  · decide
  · rintro s l f v' hl hs ⟨hk, hle⟩ hstep
    have hreset := (hok s l hl).inFibers (f := f)
    exact ⟨hstep.kept (hs.life f) hreset hk,
      hstep.weight_le_one (hs.life f) (fun hpc => hk.inserted (by rw [hpc]; rfl)) hreset hle⟩

end

/-! ## Runs in which rejections do not overlap -/

/-- A reservation that goes over the cap is made while no other such reservation waits to be taken
back. -/
def RejectsAlone (c : Config) (s : State) : Label → Prop
  | .spawn f _ => (s.threads f).pc = .reserve → 0 < c.maxFibers →
      c.maxFibers < s.activeFiberCount + 1 →
        ∀ g ∈ Finset.range s.calls, (s.threads g).pc ≠ .unreserve
  | _ => True

instance (c : Config) (s : State) : (l : Label) → Decidable (RejectsAlone c s l)
  | .spawn _ _ => inferInstanceAs (Decidable (_ → _))
  | .call _ _ | .loop _ | .go _ _ | .discard _ | .goexit _ | .block _ | .unblock _ | .start | .stop
  | .reset | .lifecycle | .deadline | .cancelCtx | .setStackSize _ => isTrue trivial

/-- A call that is turned away found the capacity taken at its own reservation, in every run in
which rejections do not overlap and no `Reset` throws fibers away. -/
theorem rejection_justified {c : Config} {s₀ s : State} {f : FiberID} {limit : Int}
    (h₀ : Initial c s₀)
    (h : Reach (step c) (fun s l => ResetsEmpty s l ∧ RejectsAlone c s l) s₀ s)
    (hret : (s.threads f).pc = .returned (.error (.maxFibersReached limit))) :
    ∃ s₁, Reach (step c) (fun s l => ResetsEmpty s l ∧ RejectsAlone c s l) s₀ s₁
      ∧ Reach (step c) (fun s l => ResetsEmpty s l ∧ RejectsAlone c s l) s₁ s
      ∧ (s₁.threads f).pc = .reserve
      ∧ s₁.CapTaken c f := by
  obtain ⟨s₁, w, hto, hfrom, ⟨-, halone⟩, hpc, hpos, hcap⟩ :=
    exists_reservation h₀ h (f := f) (by rw [hret]; rfl)
  have hb := balanced_of_reach (fun _ _ hok => hok.1) h₀ hto
  have hle := weight_le_one_of_reach (fun _ _ hok => hok.1) h₀ hto
  exact ⟨s₁, hto, hfrom, hpc, hb.capTaken (sound_of_reach h₀ hto) hle (halone hpc hpos hcap) hpc
    (by omega)⟩

/-- A cap of one, a fiber that runs, and a second call that is turned away. -/
theorem rejection_justified_one :
    ∃ s s₁, (s.threads 1).pc = .returned (.error (.maxFibersReached 1))
      ∧ Reach (step (.ofOptions 2 [.withMaxFibers 1])) anyStep s₁ s
      ∧ (s₁.threads 1).pc = .reserve
      ∧ s₁.CapTaken (.ofOptions 2 [.withMaxFibers 1]) 1 := by
  obtain ⟨s, hs, htest⟩ := exists_reach_of_exec_guarded (step (.ofOptions 2 [.withMaxFibers 1]))
    (fun s l => ResetsEmpty s l ∧ RejectsAlone (.ofOptions 2 [.withMaxFibers 1]) s l)
    (.newWithOptions (.ofOptions 2 [.withMaxFibers 1]))
    (List.flatten [Label.startTrace, [.call false 0], Label.spawnTrace 0 9, Label.dispatchTrace 0,
      [.call false 0], Label.spawnTrace 1 3])
    (fun s => decide ((s.threads 1).pc = .returned (.error (.maxFibersReached 1))))
    (by decide)
  have hret := of_decide_eq_true htest
  obtain ⟨s₁, -, hfrom, hpc, htaken⟩ := rejection_justified (.inr rfl) hs hret
  exact ⟨s, s₁, hret, hfrom.mono fun _ _ _ => trivial, hpc, htaken⟩

/-- Where no other fiber is live and the other calls are over, or about to be turned away, the
capacity is free. -/
theorem State.Sound.not_capTaken {c : Config} {s : State} {f : FiberID} (hs : s.Sound c)
    (hpos : 0 < c.maxFibers)
    (hothers : ∀ g ∈ Finset.range s.calls, g ≠ f → ¬ s.Live g
      ∧ ((s.threads g).pc.atRest = true ∨ (s.threads g).pc = .unreserve)) :
    ¬ s.CapTaken c f := by
  rintro ⟨others, hcard, hf, hall⟩
  have hempty : others = ∅ := by
    refine Finset.eq_empty_of_forall_notMem fun g hg => ?_
    by_cases hcalled : g < s.calls
    · obtain ⟨hlive, hpc⟩ := hothers g (Finset.mem_range.mpr hcalled) fun heq => hf (heq ▸ hg)
      rcases hall g hg with hlive' | ⟨hrest, hnever⟩
      · exact hlive hlive'
      · rcases hpc with hrest' | hpc
        · rw [hrest] at hrest'
          cases hrest'
        · -- its next step returns the error
          have hst : Runtime.step c s (.spawn g 0) = some ((s.addCount (-1)).setPc g
              (.returned (.error (.maxFibersReached c.maxFibers)))) := by
            simp [Runtime.step, State.spawnStep, hpc]
          exact hnever _ c.maxFibers (.tail .refl trivial hst) (by simp [State.setPc,
            State.setThread])
    · have huncalled := hs.uncalled g (Nat.le_of_not_lt hcalled)
      rcases hall g hg with hlive | ⟨hrest, -⟩
      · have hweight := State.weight_pos_iff.mpr (.inl hlive)
        rw [(hs.life g).weight_before (.inl huncalled)] at hweight
        cases hweight
      · rw [show (s.threads g).pc = .uncalled from huncalled] at hrest
        cases hrest
  rw [hempty] at hcard
  simp at hcard
  omega

/-- A call that is turned away with the whole capacity free. The cap is two; while fibers 0 and 1
run, calls 2 and 3 go over it, and stop before they take their reservations back; then both fibers
complete, decrements included. Call 4 meets nothing but the two reservations at any point. -/
theorem rejection_spurious :
    ∃ s s', Reach (step (.ofOptions 2 [.withMaxFibers 2])) anyStep
        (.newWithOptions (.ofOptions 2 [.withMaxFibers 2])) s
      ∧ s.calls = 4
      ∧ exec (step (.ofOptions 2 [.withMaxFibers 2])) s (.call false 0 :: Label.spawnTrace 4 3)
        = some s'
      ∧ (s'.threads 4).pc = .returned (.error (.maxFibersReached 2))
      ∧ ∀ k ≤ 4, ∀ s₁, exec (step (.ofOptions 2 [.withMaxFibers 2])) s
          ((.call false 0 :: Label.spawnTrace 4 3).take k) = some s₁ →
        s₁.fibers.card < 2 ∧ ¬ s₁.CapTaken (.ofOptions 2 [.withMaxFibers 2]) 4 := by
  obtain ⟨s, hs, htest⟩ := exists_reach_of_exec (step (.ofOptions 2 [.withMaxFibers 2]))
    (.newWithOptions (.ofOptions 2 [.withMaxFibers 2]))
    (List.flatten [Label.startTrace, [.call false 0, .call false 0, .call false 0, .call false 0],
      Label.spawnTrace 0 9, Label.spawnTrace 1 9, Label.dispatchTrace 0,
      (Label.dispatchTrace 1).tail, Label.spawnTrace 2 2, Label.spawnTrace 3 2,
      List.replicate 6 (.go 0 ∅), List.replicate 6 (.go 1 ∅)])
    (fun s => decide (s.calls = 4
      ∧ (exec (step (.ofOptions 2 [.withMaxFibers 2])) s
          (.call false 0 :: Label.spawnTrace 4 3)).map (fun s' => (s'.threads 4).pc)
        = some (.returned (.error (.maxFibersReached 2)))
      ∧ ∀ k ∈ Finset.range 5, (exec (step (.ofOptions 2 [.withMaxFibers 2])) s
          ((.call false 0 :: Label.spawnTrace 4 3).take k)).all (fun s₁ => s₁.fibers.card < 2
            ∧ ∀ g ∈ Finset.range s₁.calls, g ≠ 4 → ¬ s₁.Live g
              ∧ ((s₁.threads g).pc.atRest = true ∨ (s₁.threads g).pc = .unreserve)) = true))
    (by decide)
  obtain ⟨hcalls, hret, hall⟩ := of_decide_eq_true htest
  obtain ⟨s', hexec, hpc⟩ := Option.map_eq_some_iff.mp hret
  refine ⟨s, s', hs, hcalls, hexec, hpc, fun k hk s₁ hs₁ => ?_⟩
  have hfree := hall k (Finset.mem_range.mpr (Nat.lt_succ_of_le hk))
  rw [hs₁, Option.all_some] at hfree
  obtain ⟨hcard, hothers⟩ := of_decide_eq_true hfree
  exact ⟨hcard, (sound_of_reach (.inr rfl) (hs.trans (.of_exec hs₁))).not_capTaken (by decide)
    hothers⟩

end GreenThreads.Runtime
