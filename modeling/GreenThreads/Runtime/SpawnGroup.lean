import GreenThreads.Runtime.Callers
import Mathlib.Algebra.Order.BigOperators.Group.Finset

/-!
# GreenThreads — spawn groups (`internal/runtime/spawn_group.go`)

`SpawnGroup.Spawn` adds one to a `sync.WaitGroup` and hands the runtime a function that calls
`Done` when it is left. If `rt.Spawn` fails, the call itself calls `Done`. So the one is paid
back by the call or by the fiber, and which of them it is depends on what `rt.Spawn` returned
and on whether the runtime ever calls the function.

The system below is a runtime and one group on it: the `SpawnGroup.Spawn` calls, the deferred
`Done`s of the group's fibers, and every step of the runtime, of whatever origin. Two things
the runtime does leave the counter wrong:

* a `Spawn` that fails after its fiber was handed to the loop: both pay, and the counter goes
  below zero;
* a reap: `rt.Spawn` has returned no error and the function is never called, so that nobody
  pays, and `Wait` blocks for good.

Where neither happens to a fiber of the group, the counter is the number of calls that have not
been paid back.
-/

namespace GreenThreads.Runtime

open Trans

/-! ## The group -/

/-- `type SpawnGroup struct`. A counter below zero stands for the panic of `sync.WaitGroup`. -/
structure SpawnGroup where
  ids : List FiberID
  errs : List SpawnError
  wg : Int

namespace SpawnGroup

/-- `NewSpawnGroup`. -/
def new : SpawnGroup := ⟨[], [], 0⟩

/-- `Wait`: nothing as long as it blocks, then the errors of the calls that failed. -/
def wait (sg : SpawnGroup) : Option (List SpawnError) :=
  if sg.wg = 0 then some sg.errs else none

end SpawnGroup

/-- How far a `SpawnGroup.Spawn` call has come: the step it takes next, or its result. -/
inductive GroupPc where
  | uncalled
  /-- The call of `rt.Spawn`, with a name of this length. -/
  | call (nameLen : Nat)
  /-- Inside `rt.Spawn`. -/
  | inside
  /-- `rt.Spawn` failed: the append to `errs`, then `wg.Done`. -/
  | noteErr (err : SpawnError)
  | done (err : SpawnError)
  /-- The append to `ids`. -/
  | noteId
  | returned (r : Except SpawnError Unit)
  deriving DecidableEq, Repr

/-- A `SpawnGroup.Spawn` call, the number of its `rt.Spawn` call, and whether the deferred
`Done` of its function has run. -/
structure GroupCall where
  pc : GroupPc := .uncalled
  fiber : FiberID := 0
  paid : Bool := false

inductive GroupLabel where
  /-- A new `SpawnGroup.Spawn` call, with a name of this length: `wg.Add(1)`. -/
  | call (nameLen : Nat)
  /-- Call `j` takes its next step. -/
  | spawn (j : Nat)
  /-- The function of call `j` is left, by a return, a panic or `Goexit`: `wg.Done`. -/
  | bodyDone (j : Nat)
  | runtime (l : Label)
  deriving DecidableEq

/-- `rt.Spawn` has been called. -/
def GroupPc.entered : GroupPc → Bool
  | uncalled | call _ => false
  | _ => true

/-- The closure has been left when the `Done` that it has deferred has run. -/
instance : Caller GroupCall where
  init := {}
  entered k := k.pc.entered
  fiber := GroupCall.fiber
  returned := GroupCall.paid
  exited := GroupCall.paid
  entered_init := rfl

theorem GroupCall.left_eq (k : GroupCall) : Caller.left k = k.paid := Bool.or_self k.paid

/-- A runtime and a group on it. -/
abbrev GroupState := Callers GroupCall SpawnGroup

namespace GroupState

variable (c : Config) (g : GroupState)

abbrev sg : SpawnGroup := g.env

/-- `rt.NewSpawnGroup()`. -/
def new (rt : State) : GroupState := Callers.new rt .new

/-- `wg.Add(1)`. -/
def newCall (nameLen : Nat) : GroupState :=
  { g with
    env := { g.sg with wg := g.sg.wg + 1 }
    calls := g.calls + 1 }.setCall g.calls { pc := .call nameLen }

/-- Call `j` goes on to `pc` and leaves the group as `sg`. -/
def move (j : Nat) (pc : GroupPc) (sg : SpawnGroup) : GroupState :=
  { g with env := sg }.setCall j { g.call j with pc := pc }

/-- The next step of call `j`. -/
def spawnStep (j : Nat) : Option GroupState :=
  match (g.call j).pc with
  | .uncalled | .returned _ => none
  | .call nameLen => some (g.enter j nameLen { pc := .inside, fiber := g.rt.calls })
  | .inside =>
    match (g.rt.threads (g.call j).fiber).pc with
    | .returned (.error err) => some (g.move j (.noteErr err) g.sg)
    | .returned (.ok _) => some (g.move j .noteId g.sg)
    | _ => none
  | .noteErr err => some (g.move j (.done err) { g.sg with errs := g.sg.errs ++ [err] })
  | .done err => some (g.move j (.returned (.error err)) { g.sg with wg := g.sg.wg - 1 })
  | .noteId =>
    some (g.move j (.returned (.ok ())) { g.sg with ids := g.sg.ids ++ [(g.call j).fiber] })

/-- The `Done` that the function of call `j` has deferred. -/
def bodyDoneStep (j : Nat) : Option GroupState :=
  if g.InClosure j ∧ (g.call j).paid = false then
    some ({ g with env := { g.sg with wg := g.sg.wg - 1 } }.setCall j
      { g.call j with paid := true })
  else none

/-- One step of the system. -/
def step : GroupLabel → Option GroupState
  | .call nameLen => some (g.newCall nameLen)
  | .spawn j => g.spawnStep j
  | .bodyDone j => g.bodyDoneStep j
  | .runtime l => g.runtimeStep c l

end GroupState

/-! ## What is still to be paid -/

/-- What `rt.Spawn` returned. -/
def GroupPc.result : GroupPc → Option (Except SpawnError Unit)
  | noteErr err | done err => some (.error err)
  | noteId => some (.ok ())
  | returned r => some r
  | _ => none

/-- What a call has added to the counter and has not been paid back. -/
def GroupCall.owed (k : GroupCall) : Int :=
  match k.pc with
  | .uncalled | .returned (.error _) => 0
  | .call _ | .noteErr _ | .done _ => 1
  | .inside | .noteId | .returned (.ok _) => if k.paid then 0 else 1

theorem GroupCall.owed_nonneg (k : GroupCall) : 0 ≤ k.owed := by
  unfold owed
  split <;> (try split_ifs) <;> decide

/-- As long as `rt.Spawn` has not failed, it is the fiber that pays. -/
theorem GroupCall.owed_of_not_failed {k : GroupCall} (hent : k.pc.entered = true)
    (hok : ∀ err, k.pc.result ≠ some (.error err)) : k.owed = if k.paid then 0 else 1 := by
  cases hpc : k.pc with
  | uncalled | call =>
    rw [hpc] at hent
    cases hent
  | inside | noteId => simp [owed, hpc]
  | noteErr err | done err => exact absurd (by rw [hpc]; rfl) (hok err)
  | returned r =>
    cases r with
    | error err => exact absurd (by rw [hpc]; rfl) (hok err)
    | ok => simp [owed, hpc]

/-- The fiber function has been called. -/
def GoPc.begun : GoPc → Bool
  | absent | run => false
  | _ => true

theorem GoPc.Next.begun {go go' : GoPc} (h : GoPc.Next go go') : go'.begun = true := by
  cases h with
  | mark h | sweep h | remove h => rcases h with rfl | rfl <;> rfl
  | _ => rfl

theorem Life.Step.begun {n : Nat} {v v' : Life} {e : Event} (h : v.Step n e v') (hs : v.Sound n)
    (hgo : v.go.begun = true) : v'.go.begun = true := by
  rcases h.go_next with heq | ⟨hhand, -⟩ | hnext | ⟨-, hexit⟩
  · rw [heq]
    exact hgo
  · -- what the loop is about to launch has no goroutine
    rw [hs.placed.go_absent (.inl (by simp [hhand]))] at hgo
    cases hgo
  · exact hnext.begun
  · rw [hexit]
    rfl

/-! ## The invariant -/

/-- What holds of a call that has called `rt.Spawn`: a fiber that was refused has not run, and only
a fiber that runs has paid. -/
structure GroupCall.Ok (s : State) (k : GroupCall) : Prop where
  result : ∀ r, k.pc.result = some r → (s.threads k.fiber).pc = .returned r
  clean : (s.life k.fiber).Clean
  begun : k.paid = true → (s.threads k.fiber).go.begun = true
  kept : k.fiber ∉ s.reaped

/-- The step does not roll back fiber `f` after it has left its queue for the loop, does not take
it from its queue while it is being rolled back, and does not reap it. -/
def State.Spares (s : State) (f : FiberID) (l : Label) : Prop :=
  (s.event f l = .rollback → s.loop.pc.hand f = .empty ∧ (s.threads f).go = .absent)
    ∧ (s.event f l = .pop → (s.threads f).pc.rolledBack = false)
    ∧ (l = .lifecycle → s.lifecycle.scans = true → f ∉ s.reapable)

instance (s : State) (f : FiberID) (l : Label) : Decidable (s.Spares f l) :=
  inferInstanceAs (Decidable (_ ∧ _))

theorem State.spares_call (s : State) (f : FiberID) (nilFn : Bool) (nameLen : Nat) :
    s.Spares f (.call nilFn nameLen) := by
  refine ⟨fun he => ?_, fun he => ?_, nofun⟩ <;>
    · simp only [State.event] at he
      split_ifs at he

namespace GroupCall.Ok

variable {c : Config} {s s' : State} {l : Label} {k : GroupCall}

/-- The function of a call that failed has not been called, so it has not paid. -/
theorem unpaid {err : SpawnError} (hk : k.Ok s) (hs : s.Sound c)
    (hpc : (s.threads k.fiber).pc = .returned (.error err)) : k.paid = false := by
  by_contra hpaid
  have hbegun := hk.begun (by simpa using hpaid)
  have habsent := hk.clean.go_absent (hs.life k.fiber) hpc
  rw [show (s.threads k.fiber).go = .absent from habsent] at hbegun
  cases hbegun

/-- A step of the runtime. -/
theorem step (hk : k.Ok s) (hs : s.Sound c) (h : Runtime.step c s l = some s')
    (hspare : s.Spares k.fiber l) : k.Ok s' := by
  have hlife := hs.step_life h k.fiber
  obtain ⟨hroll, hpop, hreap⟩ := hspare
  refine ⟨fun r hr => ?result, ?clean, fun hpaid => ?begun, ?kept⟩
  case result =>
    have hpc : (s.life k.fiber).pc = .returned r := hk.result r hr
    exact (hlife.pc_of_atRest (fun _ => by simp [hpc]) (by rw [hpc]; rfl)).trans hpc
  case clean => exact hlife.clean hroll hpop hk.clean
  case begun => exact hlife.begun (hs.life k.fiber) (hk.begun hpaid)
  case kept =>
    rcases State.step_reaped h with heq | ⟨hl, hscan, heq⟩ <;> rw [heq]
    · exact hk.kept
    · exact fun hmem => (List.mem_append.mp hmem).elim hk.kept (hreap hl hscan)

/-- A call that has just called `rt.Spawn`. -/
theorem enter (hs : s.Sound c) (nameLen : Nat) :
    ({ pc := .inside, fiber := s.calls } : GroupCall).Ok (s.spawnCall false nameLen) := by
  have hpc : (s.life s.calls).pc = .uncalled := hs.uncalled s.calls le_rfl
  have hlife : (s.life s.calls).Step c.numQueues .call
      ((s.spawnCall false nameLen).life s.calls) := State.spawnCall_life hpc
  refine ⟨nofun, ?clean, nofun, fun hmem => ?kept⟩
  case clean => exact hlife.clean nofun nofun fun hroll => by rw [hpc] at hroll; cases hroll
  case kept =>
    have hcom := ((hs.life s.calls).reaped.gone (decide_eq_true hmem)).committed
    rw [hpc] at hcom
    cases hcom

/-- The call takes a step of its own, and what it knows of `rt.Spawn` is what that returned. -/
theorem setPc (hk : k.Ok s) {pc : GroupPc}
    (hresult : ∀ r, pc.result = some r → (s.threads k.fiber).pc = .returned r) :
    ({ k with pc := pc } : GroupCall).Ok s :=
  ⟨hresult, hk.clean, hk.begun, hk.kept⟩

end GroupCall.Ok

/-- The counter is what the calls owe, and every call that has called `rt.Spawn` is in order. -/
structure GroupState.Ok (c : Config) (g : GroupState) : Prop where
  callers : Callers.Ok c g
  wg : g.sg.wg = ∑ j ∈ Finset.range g.calls, (g.call j).owed
  call : ∀ j, (g.call j).pc.entered = true → (g.call j).Ok g.rt

/-- No step of the runtime disturbs a fiber of the group. -/
def GroupState.Undisturbed (g : GroupState) : GroupLabel → Prop
  | .runtime l =>
    ∀ j ∈ Finset.range g.calls, (g.call j).pc.entered = true → g.rt.Spares (g.call j).fiber l
  | _ => True

instance (g : GroupState) : (l : GroupLabel) → Decidable (g.Undisturbed l)
  | .runtime _ => inferInstanceAs (Decidable (∀ j ∈ Finset.range g.calls, _ → _))
  | .call _ | .spawn _ | .bodyDone _ => isTrue trivial

namespace GroupState.Ok

variable {c : Config} {g g' : GroupState} {j : Nat} {k : GroupCall}

theorem lt_calls (hg : g.Ok c) (h : (g.call j).pc ≠ .uncalled) : j < g.calls :=
  Nat.lt_of_not_le fun hle => h (by rw [hg.callers.uncalled j hle]; rfl)

theorem sum_owed (hj : j < g.calls) :
    ∑ i ∈ Finset.range g.calls, ((g.setCall j k).call i).owed
      = ∑ i ∈ Finset.range g.calls, (g.call i).owed + (k.owed - (g.call j).owed) := by
  have hsum := sum_range_change (a := fun i => (g.call i).owed)
    (b := fun i => ((g.setCall j k).call i).owed) hj
    (fun i hi => congrArg GroupCall.owed (Callers.setCall_ne hi))
  rwa [Callers.setCall_self] at hsum

/-- A call that has called `rt.Spawn` moves, and the counter with what it owes. -/
theorem setCall {sg : SpawnGroup} (hg : g.Ok c) (hj : (g.call j).pc.entered = true)
    (hfiber : k.fiber = (g.call j).fiber) (hpaid : (g.call j).paid = true → k.paid = true)
    (hk : k.Ok g.rt) (hwg : sg.wg = g.sg.wg + (k.owed - (g.call j).owed)) :
    Ok c ({ g with env := sg }.setCall j k) where
  callers := by
    refine (hg.callers.withEnv sg).setCall (hg.callers.lt_calls hj) (fun _ => ⟨hj, hfiber⟩) ?_
    simpa only [GroupCall.left_eq] using hpaid
  wg := by
    have hsum := sum_owed (k := k) (hg.callers.lt_calls hj)
    exact hwg.trans (by rw [hg.wg]; exact hsum.symm)
  call := Callers.forall_setCall (P := GroupCall.Ok g.rt) hg.call hk

/-- A step of the runtime that spares the group's fibers. -/
theorem runtime {l : Label} {rt : State} (hg : g.Ok c) (h : Runtime.step c g.rt l = some rt)
    (hspare : g.Undisturbed (.runtime l)) (hallow : g.Allows l) : Ok c { g with rt := rt } where
  callers := hg.callers.runtime h hallow
  wg := hg.wg
  call j hj :=
    (hg.call j hj).step hg.callers.sound h
      (hspare j (Finset.mem_range.mpr (hg.callers.lt_calls hj)) hj)

theorem newCall (hg : g.Ok c) (nameLen : Nat) : (g.newCall nameLen).Ok c where
  callers := by
    refine (hg.callers.moreCalls.withEnv _).setCall (Nat.lt_succ_self _) nofun fun hleft => ?_
    rw [show g.call g.calls = Caller.init from hg.callers.uncalled g.calls le_rfl] at hleft
    cases hleft
  wg := by
    -- the sum has one more term, which is one
    have hrest : ∀ i ∈ Finset.range g.calls,
        ((g.setCall g.calls { pc := .call nameLen }).call i).owed = (g.call i).owed :=
      fun i hi => congrArg GroupCall.owed (Callers.setCall_ne (Finset.mem_range.mp hi).ne)
    show g.sg.wg + 1 = ∑ i ∈ Finset.range (g.calls + 1),
      ((g.setCall g.calls { pc := .call nameLen }).call i).owed
    rw [Finset.sum_range_succ, Finset.sum_congr rfl hrest, Callers.setCall_self, hg.wg]
    rfl
  call i hi := by
    by_cases hne : i = g.calls
    · subst hne
      rw [GroupState.newCall, Callers.setCall_self] at hi
      cases hi
    · rw [GroupState.newCall, Callers.setCall_ne hne] at hi ⊢
      exact hg.call i hi

/-- The call calls `rt.Spawn`. -/
theorem enter {nameLen : Nat} (hg : g.Ok c) (hpc : (g.call j).pc = .call nameLen) :
    Ok c (g.enter j nameLen { pc := .inside, fiber := g.rt.calls }) := by
  have hj := hg.lt_calls (j := j) (by simp [hpc])
  have hold : Caller.entered (g.call j) = false := by
    show (g.call j).pc.entered = false
    rw [hpc]
    rfl
  -- for the other calls it is a step of the runtime
  have hstep : Runtime.step c g.rt (.call false nameLen) = some (g.rt.spawnCall false nameLen) :=
    rfl
  have hrt := hg.runtime hstep (fun i _ _ => g.rt.spares_call _ false nameLen) trivial
  refine ⟨hg.callers.enter hj hold nameLen rfl, ?_,
    Callers.forall_setCall (P := GroupCall.Ok _) hrt.call (.enter hg.callers.sound nameLen)⟩
  have hsum := sum_owed (k := { pc := .inside, fiber := g.rt.calls }) hj
  rw [show (g.call j).owed = 1 by simp [GroupCall.owed, hpc], ← hg.wg] at hsum
  exact (hsum.trans (Int.add_zero _)).symm

/-- The call takes a step after `rt.Spawn` has been called. -/
theorem move {pc : GroupPc} {sg : SpawnGroup} (hg : g.Ok c) (hj : (g.call j).pc.entered = true)
    (hresult : ∀ r, pc.result = some r → (g.rt.threads (g.call j).fiber).pc = .returned r)
    (hwg : sg.wg = g.sg.wg + (({ g.call j with pc := pc } : GroupCall).owed - (g.call j).owed)) :
    (g.move j pc sg).Ok c :=
  hg.setCall hj rfl id ((hg.call j hj).setPc hresult) hwg

/-- The next step of a call. In the one that calls `rt.Spawn` the runtime moves first. -/
theorem spawnStep (hg : g.Ok c) (h : g.spawnStep j = some g') : g'.Ok c := by
  unfold GroupState.spawnStep at h
  cases hpc : (g.call j).pc with
  | uncalled | returned => simp [hpc] at h
  | call nameLen =>
    simp only [hpc, Option.some.injEq] at h
    exact h ▸ hg.enter hpc
  | inside =>
    simp only [hpc] at h
    have hj : (g.call j).pc.entered = true := by rw [hpc]; rfl
    split at h <;> rename_i hret
    · -- the call is going to pay, so its fiber must not have
      cases h
      have hunpaid := (hg.call j hj).unpaid hg.callers.sound hret
      refine hg.move hj ?_ (by simp [GroupCall.owed, hpc, hunpaid])
      rintro r ⟨rfl⟩
      exact hret
    · cases h
      refine hg.move hj ?_ (by simp [GroupCall.owed, hpc])
      rintro r ⟨rfl⟩
      exact hret
    · cases h
  | noteErr err | done err | noteId =>
    simp only [hpc, Option.some.injEq] at h
    have hj : (g.call j).pc.entered = true := by rw [hpc]; rfl
    refine h ▸ hg.move hj (fun r hr => (hg.call j hj).result r ?_) ?_
    · rw [hpc]
      exact hr
    · simp [GroupCall.owed, hpc, Int.sub_eq_add_neg]

theorem bodyDoneStep (hg : g.Ok c) (h : g.bodyDoneStep j = some g') : g'.Ok c := by
  unfold GroupState.bodyDoneStep at h
  split_ifs at h with hbody
  obtain ⟨⟨hent, hgo⟩, hunpaid⟩ := hbody
  cases h
  have hk := hg.call j hent
  have hbegun : (g.rt.threads (g.call j).fiber).go.begun = true := by
    rw [show (g.rt.threads (g.call j).fiber).go = .body from hgo]
    rfl
  -- a fiber that was refused is not in its function
  have hok : ∀ err, (g.call j).pc.result ≠ some (.error err) := by
    intro err hr
    have habsent := hk.clean.go_absent (hg.callers.sound.life _) (hk.result _ hr)
    rw [show (g.rt.life (g.call j).fiber).go = .body from hgo] at habsent
    cases habsent
  refine hg.setCall hent rfl (fun _ => rfl) ⟨hk.result, hk.clean, fun _ => hbegun, hk.kept⟩ ?_
  have hnew : ({ g.call j with paid := true } : GroupCall).owed = 0 :=
    GroupCall.owed_of_not_failed hent hok
  have hold : (g.call j).owed = 1 := by
    rw [GroupCall.owed_of_not_failed hent hok, hunpaid]
    rfl
  rw [hnew, hold]
  rfl

theorem step {l : GroupLabel} (hg : g.Ok c) (hok : g.Undisturbed l)
    (h : GroupState.step c g l = some g') : g'.Ok c := by
  cases l with
  | call nameLen =>
    cases h
    exact hg.newCall nameLen
  | spawn j => exact hg.spawnStep h
  | bodyDone j => exact hg.bodyDoneStep h
  | runtime l =>
    obtain ⟨hallow, rt, hrt, rfl⟩ := Callers.runtimeStep_eq h
    exact hg.runtime hrt hok hallow

theorem new {s : State} (hs : s.Sound c) : (GroupState.new s).Ok c where
  callers := .new hs _
  wg := rfl
  call _ := nofun

theorem wg_nonneg (hg : g.Ok c) : 0 ≤ g.sg.wg := by
  rw [hg.wg]
  exact Finset.sum_nonneg fun j _ => (g.call j).owed_nonneg

/-- A fiber that is through its function has paid. -/
theorem paid (hg : g.Ok c) (hj : (g.call j).pc.entered = true)
    (hpast : (g.rt.threads (g.call j).fiber).go.past = true) : (g.call j).paid = true := by
  rw [← GroupCall.left_eq]
  exact hg.callers.left j hj hpast

end GroupState.Ok

/-! ## The counter at the end -/

def GroupPc.isReturned : GroupPc → Bool
  | returned _ => true
  | _ => false

/-- `rt.Spawn` has returned an error. -/
def SpawnPc.isRejected : SpawnPc → Bool
  | returned (.error _) => true
  | _ => false

namespace GroupState

variable (g : GroupState)

/-- Every `SpawnGroup.Spawn` call has returned. -/
def AllReturned : Prop := ∀ j ∈ Finset.range g.calls, (g.call j).pc.isReturned = true

instance : Decidable g.AllReturned := inferInstanceAs (Decidable (∀ _ ∈ _, _))

/-- The fiber of call `j` was rejected, is through its function, or was reaped. -/
def Over (j : Nat) : Prop :=
  (g.rt.threads (g.call j).fiber).pc.isRejected = true
    ∨ (g.rt.threads (g.call j).fiber).go.past = true ∨ (g.call j).fiber ∈ g.rt.reaped

def AllOver : Prop := ∀ j ∈ Finset.range g.calls, g.Over j

instance (j : Nat) : Decidable (g.Over j) := inferInstanceAs (Decidable (_ ∨ _))

instance : Decidable g.AllOver := inferInstanceAs (Decidable (∀ _ ∈ _, _))

variable {g}

/-- A call that has returned owes nothing once its fiber is over. -/
theorem Ok.owed_at_rest {c : Config} (hg : g.Ok c) {j : Nat}
    (hret : (g.call j).pc.isReturned = true) (hover : g.Over j) : (g.call j).owed = 0 := by
  cases hpc : (g.call j).pc with
  | returned r =>
    cases r with
    | error err => simp [GroupCall.owed, hpc]
    | ok _ =>
      have hj : (g.call j).pc.entered = true := by rw [hpc]; rfl
      have hk := hg.call j hj
      have hok := hk.result (.ok ()) (by rw [hpc]; rfl)
      rcases hover with hrej | hdone | hreaped
      · rw [hok] at hrej
        cases hrej
      · simp [GroupCall.owed, hpc, hg.paid hj hdone]
      · exact absurd hreaped hk.kept
  | _ =>
    rw [hpc] at hret
    cases hret

end GroupState

/-- In runs in which no fiber of the group is reaped, and none is both rolled back and handed to
the loop, the counter is never below zero, and when every call has returned and every fiber is
over it is zero and `Wait` returns the errors. The group may be made at any time. -/
theorem spawnGroup_balanced {c : Config} {s₀ s : State} {g : GroupState} (h₀ : Initial c s₀)
    (hs : Reach (step c) anyStep s₀ s)
    (h : Reach (GroupState.step c) GroupState.Undisturbed (.new s) g) :
    0 ≤ g.sg.wg
      ∧ (g.AllReturned → g.AllOver → g.sg.wg = 0 ∧ g.sg.wait = some g.sg.errs) := by
  have hg : g.Ok c := h.invariant (.new (sound_of_reach h₀ hs)) fun _ _ _ hg hok hst =>
    hg.step hok hst
  refine ⟨hg.wg_nonneg, fun hret hover => ?_⟩
  have hzero : g.sg.wg = 0 := by
    rw [hg.wg]
    exact Finset.sum_eq_zero fun j hj => hg.owed_at_rest (hret j hj) (hover j hj)
  exact ⟨hzero, if_pos hzero⟩

/-- One fiber of the group returns from its function. The `Spawn` of another sees the run
cancelled by a `Stop`, and takes the fiber back in time. -/
theorem spawnGroup_balanced_pair :
    ∃ g, Reach (GroupState.step (.ofNewRuntime .fifo 1)) GroupState.Undisturbed
        (.new (.new (.ofNewRuntime .fifo 1))) g
      ∧ g.calls = 2 ∧ g.AllReturned ∧ g.AllOver
      ∧ g.sg.wg = 0 ∧ g.sg.wait = some [.stoppedDuringSpawn] := by
  obtain ⟨g, hg, htest⟩ := exists_reach_of_exec_guarded
    (GroupState.step (.ofNewRuntime .fifo 1)) GroupState.Undisturbed
    (.new (.new (.ofNewRuntime .fifo 1)))
    (List.flatten [Label.startTrace.map .runtime, [.call 0, .spawn 0],
      (Label.spawnTrace 0 9).map .runtime, [.spawn 0, .spawn 0],
      (Label.dispatchTrace 0).map .runtime, [.bodyDone 0, .runtime (.go 0 ∅)],
      [.call 0, .spawn 1], (Label.spawnTrace 1 5).map .runtime,
      [.runtime .stop, .runtime .lifecycle], (Label.spawnTrace 1 5).map .runtime,
      [.spawn 1, .spawn 1, .spawn 1]])
    (fun g => decide (g.calls = 2 ∧ g.AllReturned ∧ g.AllOver
      ∧ g.sg.errs = [.stoppedDuringSpawn]))
    (by decide +kernel)
  obtain ⟨hcalls, hret, hover, herrs⟩ := of_decide_eq_true htest
  obtain ⟨hwg, hwait⟩ := (spawnGroup_balanced (.inl rfl) .refl hg).2 hret hover
  exact ⟨g, hg, hcalls, hret, hover, hwg, herrs ▸ hwait⟩

/-- Without the condition. A fiber whose `Spawn` has returned no error is reaped by a `Stop`
before the loop has taken it: the call has returned, the fiber is over, and `Wait` blocks. And a
fiber is through its function when its `Spawn` sees the run cancelled: it is paid for twice. -/
theorem spawnGroup_unbalanced :
    (∃ g, Reach (GroupState.step (.ofNewRuntime .fifo 1)) anyStep
        (.new (.new (.ofNewRuntime .fifo 1))) g
      ∧ g.AllReturned ∧ g.AllOver ∧ g.rt.sched.queue = [] ∧ g.rt.lifecycle = .idle (some (.ok ()))
      ∧ g.sg.wg = 1 ∧ g.sg.wait = none)
    ∧ ∃ g, Reach (GroupState.step (.ofNewRuntime .fifo 1)) anyStep
        (.new (.new (.ofNewRuntime .fifo 1))) g
      ∧ g.sg.wg = -1 := by
  constructor
  · obtain ⟨g, hg, htest⟩ := exists_reach_of_exec (GroupState.step (.ofNewRuntime .fifo 1))
      (.new (.new (.ofNewRuntime .fifo 1)))
      (List.flatten [Label.startTrace.map .runtime, [.call 0, .spawn 0],
        (Label.spawnTrace 0 9).map .runtime, [.spawn 0, .spawn 0],
        (Label.stopTrace 7).map .runtime])
      (fun g => decide (g.AllReturned ∧ g.AllOver ∧ g.rt.sched.queue = []
        ∧ g.rt.lifecycle = .idle (some (.ok ())) ∧ g.sg.wg = 1 ∧ g.sg.wait = none))
      (by decide +kernel)
    exact ⟨g, hg, of_decide_eq_true htest⟩
  · obtain ⟨g, hg, htest⟩ := exists_reach_of_exec (GroupState.step (.ofNewRuntime .fifo 1))
      (.new (.new (.ofNewRuntime .fifo 1)))
      (List.flatten [Label.startTrace.map .runtime, [.call 0, .spawn 0],
        (Label.spawnTrace 0 5).map .runtime, (Label.dispatchTrace 0).map .runtime,
        [.bodyDone 0, .runtime .stop, .runtime .lifecycle], (Label.spawnTrace 0 5).map .runtime,
        [.spawn 0, .spawn 0, .spawn 0]])
      (fun g => decide (g.sg.wg = -1))
      (by decide +kernel)
    exact ⟨g, hg, of_decide_eq_true htest⟩

end GreenThreads.Runtime
