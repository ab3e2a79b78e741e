import GreenThreads.Runtime.Isolation

/-!
# GreenThreads — calls that spawn a closure

`SpawnGroup.Spawn`, `SpawnWithResult` and `SpawnWithTimeout` have one shape: a call hands
`rt.Spawn` a closure of its own, which works for the call inside the fiber. A `Callers κ σ` is a
runtime with the calls of one such function, `κ` what there is to a call and its closure, and `σ`
what the calls share.

* `Callers.runtimeStep` — every step of the runtime, of whatever origin, but that a goroutine leaves
  its fiber function only when it has left the closure;
* `Callers.Ok` — each call has a fiber of its own, and a fiber that is through its function has left
  the closure;
* `SpawnCall` — the place of a call that only waits for what `rt.Spawn` returns.
-/

namespace GreenThreads.Runtime

open Trans

/-! ## Past the fiber function -/

/-- Past the fiber function. -/
def GoPc.past : GoPc → Bool
  | absent | run | body => false
  | _ => true

/-- A function is called before it is over: `Run` never finds its fiber started. -/
theorem Life.Step.past {n : Nat} {v v' : Life} {e : Event} (h : v.Step n e v') (hs : v.Sound n)
    (hpast : v'.go.past = true) : v.go.past = true ∨ v.go = .body := by
  cases h with
  | launch | runBegin => cases hpast
  | runSkip h hf =>
    have hok := hs.fiber
    simp only [FiberOk, h] at hok
    simp [Fiber.runBegin, hok.2] at hf
  | runEnd h | goexit h => exact .inr h
  | recordCompleted h | markCompleted h | markRemove h | sweep h | remove h | undo h | send h =>
    exact .inl (by rw [h]; rfl)
  | _ => exact .inl hpast

/-- A fiber that has completed is past its function. -/
theorem Life.FiberOk.past {v : Life} (h : v.FiberOk) (hdone : v.fiber.completion = true) :
    v.go.past = true := by
  unfold FiberOk at h
  cases hgo : v.go with
  | absent =>
    simp only [hgo] at h
    split_ifs at h <;> simp [hdone] at h
  | run | body => simp [hgo, hdone] at h
  | _ => rfl

namespace State.Sound

variable {c : Config} {s s' : State} {l : Label} {f : FiberID}

/-- A goroutine leaves the function by a step of its own, or by `Goexit`. -/
theorem past_step (hs : s.Sound c) (h : Runtime.step c s l = some s')
    (hpast : (s'.threads f).go.past = true) :
    (s.threads f).go.past = true
      ∨ (s.threads f).go = .body ∧ ((∃ drop, l = .go f drop) ∨ l = .goexit f) := by
  refine ((hs.step_life h f).past (hs.life f) hpast).imp_right fun hgo => ?_
  have hbody : (s.threads f).go = .body := hgo
  refine ⟨hbody, ?_⟩
  have hne : (s'.threads f).go ≠ (s.threads f).go := by
    intro heq
    rw [heq, hbody] at hpast
    cases hpast
  rcases State.step_go h hne with ⟨-, hlaunch⟩ | hturn | rfl | hexit
  · -- what the loop holds has no goroutine
    have habsent := (hs.life f).placed.go_absent
      (.inl (by simp [State.life, LoopPc.hand, hlaunch]))
    rw [hgo] at habsent
    cases habsent
  · exact .inl hturn
  · simp [Runtime.step, State.discardStep, hbody] at h
  · exact .inr hexit

/-- A fiber that has just been spawned is not past its function. -/
theorem not_past_spawnCall (hs : s.Sound c) (nameLen : Nat) :
    ((s.spawnCall false nameLen).threads s.calls).go.past = false := by
  have hpc : (s.life s.calls).pc = .uncalled := hs.uncalled s.calls le_rfl
  have hgo : (s.threads s.calls).go = .absent :=
    (hs.life s.calls).placed.go_absent_of_not_published (by rw [hpc]; rfl)
  have hstep : Runtime.step c s (.call false nameLen) = some (s.spawnCall false nameLen) := rfl
  refine Bool.eq_false_iff.mpr fun hpast => ?_
  rcases hs.past_step hstep hpast with hpast | ⟨hbody, -⟩
  · rw [hgo] at hpast
    cases hpast
  · rw [hgo] at hbody
    cases hbody

end State.Sound

/-! ## The calls -/

/-- What the runtime has to know of a call and of its closure. -/
class Caller (κ : Type) where
  /-- A call that has not been made. -/
  init : κ
  /-- `rt.Spawn` has been called. -/
  entered : κ → Bool
  fiber : κ → FiberID
  /-- The closure has been left by a return or a panic. -/
  returned : κ → Bool
  /-- The closure has been left by `runtime.Goexit`. -/
  exited : κ → Bool
  entered_init : entered init = false

def Caller.left {κ : Type} [Caller κ] (k : κ) : Bool := returned k || exited k

/-- A runtime, and the calls of a function that spawns a closure. -/
structure Callers (κ σ : Type) where
  rt : State
  calls : Nat
  call : Nat → κ
  env : σ

namespace Callers

open Caller

section

variable {κ σ : Type} {g : Callers κ σ} {i j : Nat} {k : κ}

def setCall (g : Callers κ σ) (j : Nat) (k : κ) : Callers κ σ :=
  { g with call := Function.update g.call j k }

theorem setCall_self : (g.setCall j k).call j = k := Function.update_self ..

theorem setCall_ne (hne : i ≠ j) : (g.setCall j k).call i = g.call i :=
  Function.update_of_ne hne ..

end

variable {κ σ : Type} [Caller κ] (c : Config) (g : Callers κ σ)

def new (rt : State) (env : σ) : Callers κ σ := ⟨rt, 0, fun _ => init, env⟩

/-- Call `j` becomes `k` and calls `rt.Spawn`; the function that it hands over, the closure, is
never nil. -/
def enter (j nameLen : Nat) (k : κ) : Callers κ σ :=
  { g with rt := g.rt.spawnCall false nameLen }.setCall j k

/-- The fiber of call `j` is inside the closure. -/
def InClosure (j : Nat) : Prop :=
  entered (g.call j) = true ∧ (g.rt.threads (fiber (g.call j))).go = .body

instance (j : Nat) : Decidable (g.InClosure j) := inferInstanceAs (Decidable (_ ∧ _))

/-- A goroutine is done with its fiber function when it has left the closure. -/
def Allows : Label → Prop
  | .go f _ =>
    ∀ j ∈ Finset.range g.calls, fiber (g.call j) = f → g.InClosure j → returned (g.call j) = true
  | .goexit f =>
    ∀ j ∈ Finset.range g.calls, fiber (g.call j) = f → g.InClosure j → exited (g.call j) = true
  | _ => True

instance : (l : Label) → Decidable (g.Allows l)
  | .go f _ => inferInstanceAs (Decidable (∀ j ∈ Finset.range g.calls, fiber (g.call j) = f → _))
  | .goexit f => inferInstanceAs (Decidable (∀ j ∈ Finset.range g.calls, fiber (g.call j) = f → _))
  | .call .. | .spawn .. | .loop _ | .discard _ | .block _ | .unblock _ | .start | .stop | .reset
  | .lifecycle | .deadline | .cancelCtx | .setStackSize _ => isTrue trivial

def runtimeStep (l : Label) : Option (Callers κ σ) :=
  if g.Allows l then (Runtime.step c g.rt l).map fun rt => { g with rt := rt } else none

/-! ## The invariant -/

/-- Each call has a fiber of its own, and a fiber that is through its function has left the
closure. -/
structure Ok (c : Config) (g : Callers κ σ) : Prop where
  sound : g.rt.Sound c
  uncalled : ∀ j, g.calls ≤ j → g.call j = init
  fresh : ∀ j, entered (g.call j) = true → fiber (g.call j) < g.rt.calls
  inj : ∀ i j, entered (g.call i) = true → entered (g.call j) = true →
    fiber (g.call i) = fiber (g.call j) → i = j
  left : ∀ j, entered (g.call j) = true → (g.rt.threads (fiber (g.call j))).go.past = true →
    Caller.left (g.call j) = true

variable {c g} {g' : Callers κ σ} {j : Nat} {k : κ}

/-- What holds of every call that has called `rt.Spawn` holds when one of them moves. -/
theorem forall_setCall {P : κ → Prop} (h : ∀ i, entered (g.call i) = true → P (g.call i))
    (hk : P k) (i : Nat) (hi : entered ((g.setCall j k).call i) = true) :
    P ((g.setCall j k).call i) := by
  by_cases hne : i = j
  · subst hne
    rwa [setCall_self]
  · rw [setCall_ne hne] at hi ⊢
    exact h i hi

theorem runtimeStep_eq {l : Label} (h : g.runtimeStep c l = some g') :
    g.Allows l ∧ ∃ rt, Runtime.step c g.rt l = some rt ∧ g' = { g with rt := rt } := by
  unfold runtimeStep at h
  split_ifs at h with hallow
  obtain ⟨rt, hrt, rfl⟩ := Option.map_eq_some_iff.mp h
  exact ⟨hallow, rt, hrt, rfl⟩

namespace Ok

theorem new {s : State} (hs : s.Sound c) (env : σ) : (Callers.new s env : Callers κ σ).Ok c where
  sound := hs
  uncalled _ _ := rfl
  fresh _ h := absurd h (Bool.eq_false_iff.mp entered_init)
  inj _ _ h := absurd h (Bool.eq_false_iff.mp entered_init)
  left _ h := absurd h (Bool.eq_false_iff.mp entered_init)

theorem not_entered (hg : g.Ok c) (hj : g.calls ≤ j) : entered (g.call j) = false := by
  rw [hg.uncalled j hj]
  exact entered_init

theorem lt_calls (hg : g.Ok c) (hj : entered (g.call j) = true) : j < g.calls := by
  by_contra hle
  rw [hg.not_entered (Nat.le_of_not_lt hle)] at hj
  cases hj

theorem withEnv (hg : g.Ok c) (env : σ) : ({ g with env := env } : Callers κ σ).Ok c :=
  ⟨hg.sound, hg.uncalled, hg.fresh, hg.inj, hg.left⟩

theorem moreCalls (hg : g.Ok c) : ({ g with calls := g.calls + 1 } : Callers κ σ).Ok c :=
  ⟨hg.sound, fun j hj => hg.uncalled j (Nat.le_of_succ_le hj), hg.fresh, hg.inj, hg.left⟩

/-- Call `j` moves, with the fiber it has. -/
theorem setCall (hg : g.Ok c) (hj : j < g.calls)
    (hfiber : entered k = true → entered (g.call j) = true ∧ fiber k = fiber (g.call j))
    (hleft : Caller.left (g.call j) = true → Caller.left k = true) : (g.setCall j k).Ok c := by
  -- as far as their fibers go the calls are those from before
  have hcall : ∀ i, entered ((g.setCall j k).call i) = true → entered (g.call i) = true
      ∧ fiber ((g.setCall j k).call i) = fiber (g.call i) := by
    intro i hi
    by_cases hne : i = j
    · subst hne
      rw [setCall_self] at hi ⊢
      exact hfiber hi
    · rw [setCall_ne hne] at hi ⊢
      exact ⟨hi, rfl⟩
  refine ⟨hg.sound, fun i hi => ?_, fun i hi => ?_, fun i i' hi hi' heq => ?_,
    fun i hi hpast => ?_⟩
  · rw [setCall_ne (Nat.ne_of_gt (Nat.lt_of_lt_of_le hj hi))]
    exact hg.uncalled i hi
  · rw [(hcall i hi).2]
    exact hg.fresh i (hcall i hi).1
  · rw [(hcall i hi).2, (hcall i' hi').2] at heq
    exact hg.inj i i' (hcall i hi).1 (hcall i' hi').1 heq
  · rw [(hcall i hi).2] at hpast
    have hold := hg.left i (hcall i hi).1 hpast
    by_cases hne : i = j
    · subst hne
      rw [setCall_self]
      exact hleft hold
    · rwa [setCall_ne hne]

/-- A step of the runtime that leaves no closure too early. -/
theorem runtime {l : Label} {rt : State} (hg : g.Ok c) (h : Runtime.step c g.rt l = some rt)
    (hallow : g.Allows l) : ({ g with rt := rt } : Callers κ σ).Ok c where
  sound := hg.sound.step h
  uncalled := hg.uncalled
  fresh j hj := by
    have hfresh := hg.fresh j hj
    rcases State.step_calls h with heq | ⟨heq, -⟩
    · exact hfresh.trans_eq heq.symm
    · exact (Nat.lt_succ_of_lt hfresh).trans_eq heq.symm
  inj := hg.inj
  left j hj hpast := by
    have hlt := Finset.mem_range.mpr (hg.lt_calls hj)
    -- the goroutine was past its function, or leaves it now
    rcases hg.sound.past_step h hpast with hpast | ⟨hgo, ⟨drop, rfl⟩ | rfl⟩
    · exact hg.left j hj hpast
    · exact Bool.or_eq_true_iff.mpr (.inl (hallow j hlt rfl ⟨hj, hgo⟩))
    · exact Bool.or_eq_true_iff.mpr (.inr (hallow j hlt rfl ⟨hj, hgo⟩))

/-- Call `j` calls `rt.Spawn`, and its fiber is above those of all others. -/
theorem enter (hg : g.Ok c) (hj : j < g.calls) (hold : entered (g.call j) = false)
    (nameLen : Nat) (hfiber : fiber k = g.rt.calls) : (g.enter j nameLen k).Ok c := by
  have hstep : Runtime.step c g.rt (.call false nameLen) = some (g.rt.spawnCall false nameLen) :=
    rfl
  have hrt := hg.runtime hstep trivial
  have hcalls : (g.rt.spawnCall false nameLen).calls = g.rt.calls + 1 := rfl
  have hother : ∀ i, i ≠ j → (g.enter j nameLen k).call i = g.call i := fun _ => setCall_ne
  have hself : (g.enter j nameLen k).call j = k := setCall_self
  refine ⟨hrt.sound, fun i hi => ?_, fun i hi => ?_, fun i i' hi hi' heq => ?_,
    fun i hi hpast => ?_⟩
  · rw [hother i (Nat.ne_of_gt (Nat.lt_of_lt_of_le hj hi))]
    exact hg.uncalled i hi
  · change fiber ((g.enter j nameLen k).call i) < (g.rt.spawnCall false nameLen).calls
    rw [hcalls]
    by_cases hne : i = j
    · subst hne
      rw [hself, hfiber]
      exact Nat.lt_succ_self _
    · rw [hother i hne] at hi ⊢
      exact Nat.lt_succ_of_lt (hg.fresh i hi)
  · by_cases hne : i = j <;> by_cases hne' : i' = j
    · rw [hne, hne']
    · subst hne
      rw [hother i' hne'] at hi' heq
      rw [hself, hfiber] at heq
      exact absurd heq (Nat.ne_of_gt (hg.fresh i' hi'))
    · subst hne'
      rw [hother i hne] at hi heq
      rw [hself, hfiber] at heq
      exact absurd heq (Nat.ne_of_lt (hg.fresh i hi))
    · rw [hother i hne] at hi heq
      rw [hother i' hne'] at hi' heq
      exact hg.inj i i' hi hi' heq
  · by_cases hne : i = j
    · subst hne
      rw [hself, hfiber] at hpast
      cases (hg.sound.not_past_spawnCall nameLen).symm.trans hpast
    · rw [hother i hne] at hi hpast ⊢
      exact hrt.left i hi hpast

/-- When the closure of a call has been left by a return, its goroutine can end the fiber
function. -/
theorem allows_go (hg : g.Ok c) (hj : entered (g.call j) = true)
    (hret : returned (g.call j) = true) (drop : Finset FiberID) :
    g.Allows (.go (fiber (g.call j)) drop) := by
  intro i _ hfiber hin
  obtain rfl := hg.inj i j hin.1 hj hfiber
  exact hret

end Ok

end Callers

/-! ## A call that waits for `rt.Spawn` -/

/-- How far such a call has come: inside `rt.Spawn`, or its result. -/
inductive ResultPc where
  | uncalled
  | inside
  | returned (r : Except SpawnError FiberID)
  deriving DecidableEq, Repr

/-- The call, and the number of its `rt.Spawn` call. -/
structure SpawnCall where
  pc : ResultPc := .uncalled
  fiber : FiberID := 0
  deriving DecidableEq, Repr

namespace SpawnCall

def entered (k : SpawnCall) : Bool := decide (k.pc ≠ .uncalled)

/-- `rt.Spawn` returns to the call, and the call returns. -/
def ret (s : State) (k : SpawnCall) : Option SpawnCall :=
  match k.pc, (s.threads k.fiber).pc with
  | .inside, .returned r => some { k with pc := .returned (r.map fun _ => k.fiber) }
  | _, _ => none

/-- What the call returns is the ID of its fiber. -/
def Names (k : SpawnCall) : Prop := ∀ f, k.pc = .returned (.ok f) → f = k.fiber

theorem ret_eq {s : State} {k k' : SpawnCall} (h : k.ret s = some k') :
    k.entered = true ∧ k'.entered = true ∧ k'.fiber = k.fiber ∧ k'.Names := by
  unfold ret at h
  split at h
  · next r hpc hret =>
    cases h
    refine ⟨by simp [entered, hpc], by simp [entered], rfl, fun f hf => ?_⟩
    cases r <;> cases hf
    rfl
  · cases h

end SpawnCall

end GreenThreads.Runtime
