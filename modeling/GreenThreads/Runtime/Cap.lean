import GreenThreads.Runtime.Admission

/-!
# GreenThreads — the fiber cap over `Stop` and `Reset`

`activeFiberCount` is compared with the cap, so it has to say how many accepted fibers there
are. When nothing is in progress it does, in runs in which nothing is taken off the books
without a decrement. `Reset` can do that: it replaces `rt.fibers` and leaves the counter alone,
and a fiber that outlived the deadline of `Stop` then finds nothing to remove when it completes.
-/

namespace GreenThreads.Runtime

open Trans

/-! ## Goroutines that are done with their fiber -/

namespace Life

variable {n : Nat} {v v' : Life} {e : Event}

/-- What `complete` has removed stays removed. -/
def Closed (v : Life) : Prop := v.go.holds = false → v.inFibers = false

theorem Step.closed (h : v.Step n e v') (hs : v.Sound n) (hexit : e ≠ .goexit) (hv : v.Closed) :
    v'.Closed := by
  cases h with
  | insert h =>
    intro hgo
    rw [hs.placed.go_absent_of_not_published (by rw [h]; rfl)] at hgo
    cases hgo
  | unschedule | rollback | remove | reapTake | resetFibers => exact fun _ => rfl
  | goexit => exact absurd rfl hexit
  | undo h | send h => exact fun _ => hv (by rw [h]; rfl)
  | launch | runBegin | runSkip | runEnd | recordCompleted | markRemove => exact nofun
  | markCompleted _ hgo | sweep _ hgo => rcases hgo with rfl | rfl <;> exact nofun
  | _ => exact hv

end Life

/-! ## States in which nothing is in progress -/

/-- `complete` is in progress. -/
def GoPc.completing : GoPc → Bool
  | recordCompleted | markCompleted | sweep _ | remove | undo => true
  | _ => false

/-- `reapPending` is in progress. -/
def Lifecycle.reaps : Lifecycle → Bool
  | clear (.stop _) _ | reapScan _ | reapUndo _ _ | reapRecord _ _ _ => true
  | _ => false

namespace Lifecycle

variable {l : Lifecycle}

theorem inReap_of_not_reaps (h : l.reaps = false) : l.inReap = false := by
  unfold inReap
  split <;> first | rfl | cases h

theorem reaping_of_not_reaps (h : l.reaps = false) (f : FiberID) : l.reaping f = 0 := by
  unfold reaping
  split <;> first | rfl | cases h

end Lifecycle

/-- No `Spawn`, no `complete` and no reap is in progress. -/
structure State.Quiet (s : State) : Prop where
  noSpawn : s.NoSpawn
  noComplete : ∀ f ∈ Finset.range s.calls, (s.threads f).go.completing = false
  noReap : s.lifecycle.reaps = false

instance (s : State) : Decidable s.Quiet :=
  decidable_of_iff (s.NoSpawn ∧ (∀ f ∈ Finset.range s.calls, (s.threads f).go.completing = false)
    ∧ s.lifecycle.reaps = false) ⟨fun h => ⟨h.1, h.2.1, h.2.2⟩, fun h => ⟨h.1, h.2, h.3⟩⟩

/-- The accepted fibers that are queued, on their way from the queue to their goroutine, or
running. -/
def State.alive (s : State) : Finset FiberID :=
  (Finset.range s.calls).filter fun f => (s.threads f).pc = .returned (.ok ())
    ∧ (s.Queued f ∨ s.loop.pc.hand f ≠ .empty ∨ (s.threads f).go = .run
      ∨ (s.threads f).go = .body)

namespace Life

variable {n : Nat} {v : Life}

/-- Accepted, and queued, on the way or running. -/
def Alive (v : Life) : Prop :=
  v.pc = .returned (.ok ())
    ∧ (v.queuedAt ≠ [] ∨ v.hand ≠ .empty ∨ v.go = .run ∨ v.go = .body)

/-- With no `Spawn` call in progress the fibers in `rt.fibers` are accepted ones. -/
theorem Sound.returned_of_inFibers (hs : v.Sound n) (hin : v.inFibers = true)
    (hrest : v.pc.atRest = true) : v.pc = .returned (.ok ()) := by
  have hlisted := hs.listed.inFibers hin
  cases hpc : v.pc with
  | returned r =>
    rw [hpc] at hlisted
    cases r with
    | ok => rfl
    | error => cases hlisted
  | uncalled => rw [hpc] at hlisted; cases hlisted
  | _ => rw [hpc] at hrest; cases hrest

/-- With nothing in progress the fibers in `rt.fibers` are the living ones. -/
theorem inFibers_iff_alive (hs : v.Sound n) (ht : v.Tracked) (hc : v.Closed)
    (hrest : v.pc.atRest = true) (hgo : v.go.completing = false)
    (hreap : v.shared.lifecycle.inReap = false) : v.inFibers = true ↔ v.Alive := by
  constructor
  · intro hin
    have hpc := hs.returned_of_inFibers hin hrest
    refine ⟨hpc, ?_⟩
    rcases ht.found.place (by rw [hpc]; rfl) hreap with hq | hh | hg | hr
    · exact .inl hq
    · exact .inr (.inl hh)
    · -- past its function the goroutine would be completing, or done with the fiber
      have hholds : v.go.holds = true := by
        by_contra hnot
        rw [hc (by simpa using hnot)] at hin
        cases hin
      cases hgo' : v.go with
      | run => exact .inr (.inr (.inl rfl))
      | body => exact .inr (.inr (.inr rfl))
      | absent => exact absurd hgo' hg
      | undo | send | ended => rw [hgo'] at hholds; cases hholds
      | _ => rw [hgo'] at hgo; cases hgo
    · rw [(hs.reaped.gone hr).inFibers] at hin
      cases hin
  · rintro ⟨hpc, hplace⟩
    have hholds : v.go.holds = true := by
      rcases hplace with hq | hh | hg | hg
      · rw [hs.placed.go_absent (.inr hq)]; rfl
      · rw [hs.placed.go_absent (.inl hh)]; rfl
      · rw [hg]; rfl
      · rw [hg]; rfl
    refine (ht.kept.committed (by rw [hpc]; rfl) hholds ?_).1
    -- nothing is left of a reaped fiber
    by_contra hr
    have hgone := hs.reaped.gone (by simpa using hr)
    rcases hplace with hq | hh | hg | hg
    · exact hq hgone.queuedAt
    · exact hh hgone.hand
    · rw [hgone.go] at hg; cases hg
    · rw [hgone.go] at hg; cases hg

/-- With nothing in progress a fiber counts once if it is in `rt.fibers`. -/
theorem weight_at_rest (hrest : v.pc.atRest = true) (hgo : v.go.completing = false)
    (hreaping : v.reaping = 0) : v.weight = v.inFibers.toNat := by
  have hpc : v.pc.reserved = false ∧ v.pc.owes = false := by
    cases hpc : v.pc with
    | uncalled | returned => exact ⟨rfl, rfl⟩
    | _ => rw [hpc] at hrest; cases hrest
  have howes : v.go.owes = false := by
    cases hgo' : v.go with
    | undo => rw [hgo'] at hgo; cases hgo
    | _ => rfl
  simp [weight, hpc, howes, hreaping]

end Life

/-! ## The counter -/

/-- Nothing is taken off the books without a decrement: `Reset` finds no fiber in the map it
replaces, `Start` opens the gate to no stranded fiber, and no fiber function ends in
`runtime.Goexit`. -/
def OnTheBooks (s : State) (l : Label) : Prop :=
  ResetsEmpty s l ∧ StartsClean s l ∧ l.isGoexit = false

instance (s : State) (l : Label) : Decidable (OnTheBooks s l) :=
  inferInstanceAs (Decidable (_ ∧ _))

section

variable {c : Config} {s₀ s : State}

theorem OnTheBooks.not_goexit {l : Label} {f : FiberID} (h : OnTheBooks s l) :
    s.event f l ≠ .goexit := by
  intro he
  have hl := h.2.2
  rw [State.event_eq_goexit he] at hl
  cases hl

theorem closed_of_reach (h₀ : Initial c s₀) (h : Reach (step c) OnTheBooks s₀ s) (f : FiberID) :
    (s.life f).Closed :=
  life_invariant h₀ nofun
    (fun _ _ f _ hok hs hv hstep => hstep.closed (hs.life f) hok.not_goexit hv) h f

theorem State.queued_iff (s : State) (f : FiberID) : s.Queued f ↔ (s.life f).queuedAt ≠ [] := by
  refine ⟨?_, State.queued_of_ne_nil⟩
  rintro ⟨⟨w, g⟩, he, rfl⟩
  exact List.ne_nil_of_mem ((Sched.mem_workersOf _ g w).mpr he)

theorem State.mem_alive (s : State) (f : FiberID) :
    f ∈ s.alive ↔ f < s.calls ∧ (s.life f).Alive := by
  simp only [State.alive, Finset.mem_filter, Finset.mem_range, State.queued_iff]
  rfl

theorem activeFiberCount_eq_card_alive (h₀ : Initial c s₀)
    (h : Reach (step c) OnTheBooks s₀ s) (hq : s.Quiet) : s.activeFiberCount = s.alive.card := by
  have hs := sound_of_reach h₀ h
  have hweight : ∀ f ∈ Finset.range s.calls,
      (s.life f).weight = if f ∈ s.alive then 1 else 0 := by
    intro f hf
    have hrest := hq.noSpawn f hf
    have hgo := hq.noComplete f hf
    have htracked := tracked_of_reach (fun _ _ hok => ⟨hok.1, hok.2.1⟩) h₀ h f
    have hiff := Life.inFibers_iff_alive (hs.life f) htracked (closed_of_reach h₀ h f) hrest hgo
      (Lifecycle.inReap_of_not_reaps hq.noReap)
    rw [Life.weight_at_rest hrest hgo (Lifecycle.reaping_of_not_reaps hq.noReap f)]
    by_cases hin : (s.life f).inFibers = true
    · rw [if_pos ((s.mem_alive f).mpr ⟨Finset.mem_range.mp hf, hiff.mp hin⟩), hin]
      rfl
    · rw [if_neg fun hmem => hin (hiff.mpr ((s.mem_alive f).mp hmem).2), Bool.eq_false_iff.mpr hin]
      rfl
  have hsub : (Finset.range s.calls).filter (· ∈ s.alive) = s.alive :=
    Finset.filter_mem_eq_inter.trans
      (Finset.inter_eq_right.mpr (Finset.filter_subset _ _))
  rw [balanced_of_reach (fun _ _ hok => hok.1) h₀ h, ← Nat.cast_sum, Finset.sum_congr rfl hweight,
    ← Finset.card_filter, hsub]

end

/-! ## A running runtime admits as many fibers as the counter leaves room for -/

/-- The scheduler takes fibers while there is a run. -/
def State.SchedUp (s : State) : Prop :=
  match s.lifecycle with
  | .idle _ | .stopCancel | .stopSched => s.stopped = false → s.sched.base.stopped = false
  | .startFibers | .startRun => s.sched.base.stopped = false
  | _ => True

namespace State.SchedUp

variable {c : Config} {s s' : State} {l : Label}

theorem of_frame (hs : s.SchedUp) (h : s.Frame s') : s'.SchedUp := by
  unfold SchedUp at hs ⊢
  rw [h.lifecycle, h.run.2.2.2, h.schedStopped]
  exact hs

/-- Between two runs there is nothing to show. -/
theorem of_stopped (h : s.stopped = true) (last : Option (Except LifecycleError Unit)) :
    { s with lifecycle := .idle last }.SchedUp := by
  intro hstop
  rw [show s.stopped = false from hstop] at h
  cases h

theorem start_stopped {b b' : Scheduler.BaseScheduler} (h : b.start = (b', none)) :
    b'.stopped = false := by
  unfold Scheduler.BaseScheduler.start at h
  split_ifs at h <;> cases h
  rfl

theorem lifecycleStep (hok : s.shared.Ok) (hs : s.SchedUp) (h : s.lifecycleStep c = some s') :
    s'.SchedUp := by
  cases lifecycleStep_effect h with
  | startSched _ hstart => exact start_stopped hstart
  | startFailed hl =>
    simp only [Shared.Ok, State.shared, hl] at hok
    exact of_stopped hok.1 _
  | startFibers hl | stopCancel hl =>
    simp only [SchedUp, hl] at hs
    exact hs
  | startRun hl =>
    simp only [SchedUp, hl] at hs
    exact fun _ => hs
  | join =>
    intro hstop
    cases hstop
  | resetMetrics hl =>
    -- `Reset` returns to a runtime that was stopped before it
    simp only [Shared.Ok, State.shared, hl] at hok
    exact fun hstop => of_stopped (s := s) hok.1 none hstop
  | @clearAtOnce why | @clearBase why => cases why <;> trivial
  | _ => trivial

theorem step (hok : s.shared.Ok) (hs : s.SchedUp) (h : step c s l = some s') : s'.SchedUp := by
  cases step_turn h with
  | call ht | cancelCtx ht =>
    subst ht
    exact hs
  | work hl => exact hs.of_frame (step_frame h hl)
  | begin hidle hnext ht =>
    subst ht
    simp only [SchedUp, hidle] at hs
    rcases hnext with ⟨-, rfl⟩ | ⟨-, rfl⟩ | ⟨-, rfl⟩ | ⟨r, rfl⟩
    · trivial
    · exact hs
    · trivial
    · exact hs
  | lifecycle h => exact lifecycleStep hok hs h
  | deadline _ ht =>
    subst ht
    intro hstop
    cases hstop

end State.SchedUp

/-- `Spawn` will find the run going and the scheduler taking fibers. -/
structure State.Open (s : State) : Prop where
  running : s.isRunning = true
  muHeld : s.muHeld = false
  done : s.done s.epoch = false
  sched : s.sched.base.stopped = false
  draining : s.draining = false

section

variable {c : Config} {ok : State → Label → Prop} {s₀ s : State}

theorem schedUp_of_reach (h₀ : Initial c s₀) (h : Reach (step c) ok s₀ s) : s.SchedUp := by
  have hinit : s₀.SchedUp := by rcases h₀ with rfl | rfl <;> exact nofun
  exact sound_invariant h₀.sound hinit
    (fun _ _ _ hs hup _ hst => hup.step (hs.life 0).shared hst) h

/-- A run that is going, with nobody at `Start`, `Stop` or `Reset`, takes fibers. -/
theorem open_of_reach (h₀ : Initial c s₀) (h : Reach (step c) ok s₀ s)
    {last : Option (Except LifecycleError Unit)} (hidle : s.lifecycle = .idle last)
    (hrun : s.isRunning = true) (hdone : s.done s.epoch = false) : s.Open := by
  obtain ⟨-, hstopped⟩ := (State.isRunning_iff s).mp hrun
  have hok := ((sound_of_reach h₀ h).life 0).shared
  have hup := schedUp_of_reach h₀ h
  simp only [State.SchedUp, hidle] at hup
  simp only [Shared.Ok, show (s.life 0).shared.lifecycle = s.lifecycle from rfl, hidle] at hok
  refine ⟨hrun, by simp [State.muHeld, hidle], hdone, hup hstopped, ?_⟩
  rcases hok with hUp | hDown
  · exact hUp.2.2
  · have hcontra : s.stopped = true := hDown.1
    rw [hstopped] at hcontra
    cases hcontra

end

namespace SpawnPc

/-- The steps a `Spawn` call that meets no obstacle has left. -/
def stepsLeft : SpawnPc → Nat
  | check => 10
  | reserve => 9
  | insert => 8
  | schedule => 7
  | enqueue => 6
  | countScheduled => 5
  | readCtx => 4
  | recheck _ => 3
  | commit _ => 2
  | recordCreated => 1
  | _ => 0

/-- The places such a call goes through in run `epoch`. -/
def OnTrack (epoch : Nat) : SpawnPc → Prop
  | recheck runCtx => runCtx = some epoch
  | commit stopping => stopping = false
  | check | reserve | insert | schedule | enqueue | countScheduled | readCtx | recordCreated
  | returned (.ok _) => True
  | _ => False

/-- What the call will still add to the counter. -/
def toAdd : SpawnPc → Int
  | check | reserve => 1
  | _ => 0

end SpawnPc

/-- `Spawn` call `f` is on its way in a runtime that takes fibers; `k` is what the counter will
be once it is in. -/
structure State.Admits (s : State) (f : FiberID) (k : Int) : Prop where
  isOpen : s.Open
  onTrack : (s.threads f).pc.OnTrack s.epoch
  count : s.activeFiberCount + (s.threads f).pc.toAdd = k

/-- The call goes one step further, and nothing else moves. -/
structure State.Advanced (c : Config) (s : State) (f : FiberID) (k : Int) (s' : State) : Prop where
  step : step c s (.spawn f 0) = some s'
  admits : s'.Admits f k
  left : (s'.threads f).pc.stepsLeft < (s.threads f).pc.stepsLeft
  calls : s'.calls = s.calls
  others : ∀ g, g ≠ f → s'.threads g = s.threads g

section

variable {c : Config} {s s' : State} {f : FiberID} {k : Int}

theorem State.Open.of_frame (h : s.Open) (hf : s.Frame s') : s'.Open := by
  obtain ⟨hepoch, hcancel, hdrain, hstopped⟩ := hf.run
  refine ⟨?_, ?_, ?_, hf.schedStopped.trans h.sched, hdrain.trans h.draining⟩
  · rw [isRunning, hepoch, hstopped]
    exact h.running
  · have hmu := h.muHeld
    unfold State.muHeld at hmu ⊢
    rw [hf.lifecycle]
    exact hmu
  · rw [State.done, hepoch, hcancel]
    exact h.done

theorem State.spawnStep_threads_ne {w : Nat} (h : s.spawnStep c f w = some s') (g : FiberID)
    (hg : g ≠ f) : s'.threads g = s.threads g := by
  cases spawnStep_effect h with
  | _ => exact Function.update_of_ne hg ..

/-- The step a call that meets no obstacle takes next. -/
theorem State.spawnStep_onTrack (ho : s.Open) (htrack : (s.threads f).pc.OnTrack s.epoch)
    (hroom : (s.threads f).pc = .reserve → 0 < c.maxFibers →
      s.activeFiberCount + 1 ≤ c.maxFibers)
    (hleft : 0 < (s.threads f).pc.stepsLeft) :
    ∃ s', s.spawnStep c f 0 = some s' ∧ (s'.threads f).pc.OnTrack s.epoch
      ∧ s'.activeFiberCount + (s'.threads f).pc.toAdd
        = s.activeFiberCount + (s.threads f).pc.toAdd
      ∧ (s'.threads f).pc.stepsLeft < (s.threads f).pc.stepsLeft := by
  obtain ⟨hrun, hmu, hdone, hsched, hdrain⟩ := ho
  cases hpc : (s.threads f).pc with
  | check => simp [spawnStep, hpc, hmu, hrun, setThread, SpawnPc.OnTrack, SpawnPc.toAdd,
      SpawnPc.stepsLeft]
  | reserve =>
    have hfits : ¬ (0 < c.maxFibers ∧ c.maxFibers < s.activeFiberCount + 1) := by
      rintro ⟨hpos, hlt⟩
      have := hroom hpc hpos
      omega
    simp only [spawnStep, hpc, if_neg hfits]
    simp [setPc, setThread, addCount, SpawnPc.OnTrack, SpawnPc.toAdd, SpawnPc.stepsLeft]
  | enqueue =>
    by_cases hk : c.kind = .workStealing <;>
      simp [spawnStep, hpc, c.numQueues_pos, hk, setPc, setThread, SpawnPc.OnTrack,
        SpawnPc.toAdd, SpawnPc.stepsLeft]
  | readCtx =>
    obtain ⟨hepoch, -⟩ := (isRunning_iff s).mp hrun
    simp [spawnStep, hpc, hmu, runCtx, hepoch.ne', setPc, setThread, SpawnPc.OnTrack,
      SpawnPc.toAdd, SpawnPc.stepsLeft]
  | recheck runCtx =>
    rw [hpc] at htrack
    simp [spawnStep, hpc, show runCtx = some s.epoch from htrack, hdone, setPc, setThread,
      SpawnPc.OnTrack, SpawnPc.toAdd, SpawnPc.stepsLeft]
  | commit stopping =>
    rw [hpc] at htrack
    simp [spawnStep, hpc, show stopping = false from htrack, hdrain, setPc, setThread,
      SpawnPc.OnTrack, SpawnPc.toAdd, SpawnPc.stepsLeft]
  | insert | schedule | countScheduled | recordCreated =>
    simp [spawnStep, hpc, hsched, setPc, setThread, SpawnPc.OnTrack, SpawnPc.toAdd,
      SpawnPc.stepsLeft]
  | _ =>
    rw [hpc] at hleft
    cases hleft

/-- A `Spawn` call in a runtime that takes fibers and has room for one more meets no obstacle. -/
theorem State.Admits.progress (h : s.Admits f k) (hcap : 0 < c.maxFibers → k ≤ c.maxFibers)
    (hleft : 0 < (s.threads f).pc.stepsLeft) : ∃ s', s.Advanced c f k s' := by
  obtain ⟨ho, htrack, hcount⟩ := h
  have hroom : (s.threads f).pc = .reserve → 0 < c.maxFibers →
      s.activeFiberCount + 1 ≤ c.maxFibers := by
    intro hpc hpos
    rw [hpc] at hcount
    exact hcount ▸ hcap hpos
  obtain ⟨s', hstep, htrack', hcount', hlt⟩ := spawnStep_onTrack ho htrack hroom hleft
  have hframe := spawnStep_frame hstep
  refine ⟨s', hstep, ⟨ho.of_frame hframe, ?_, hcount'.trans hcount⟩, hlt, hframe.calls,
    spawnStep_threads_ne hstep⟩
  rw [hframe.run.1]
  exact htrack'

end

def Label.isSpawn : Label → Bool
  | call _ _ | spawn _ _ => true
  | _ => false

section

variable {c : Config} {s : State} {f : FiberID} {k : Int}

/-- Such a call returns no error. Induction on the steps it has left. -/
theorem State.Admits.returns (h : s.Admits f k) (hcap : 0 < c.maxFibers → k ≤ c.maxFibers) :
    ∃ s', Reach (step c) (fun _ l => l.isSpawn = true) s s' ∧ s'.Open
      ∧ (s'.threads f).pc = .returned (.ok ()) ∧ s'.activeFiberCount = k ∧ s'.calls = s.calls
      ∧ ∀ g, g ≠ f → s'.threads g = s.threads g := by
  induction hn : (s.threads f).pc.stepsLeft using Nat.strong_induction_on generalizing s with
  | _ n ih =>
    by_cases hleft : 0 < (s.threads f).pc.stepsLeft
    · obtain ⟨s₁, hadv⟩ := h.progress hcap hleft
      obtain ⟨s', hreach, ho, hpc, hcount, hcalls, hothers⟩ :=
        ih _ (hn ▸ hadv.left) hadv.admits rfl
      exact ⟨s', Reach.trans (.tail .refl rfl hadv.step) hreach, ho, hpc, hcount,
        hcalls.trans hadv.calls, fun g hg => (hothers g hg).trans (hadv.others g hg)⟩
    · obtain ⟨ho, htrack, hcount⟩ := h
      have hpc : (s.threads f).pc = .returned (.ok ()) := by
        cases hpc : (s.threads f).pc with
        | returned r =>
          rw [hpc] at htrack
          cases r with
          | ok => rfl
          | error => cases htrack
        | uncalled | unreserve | unschedule | unscheduleUndo | remove | rollbackUndo =>
          rw [hpc] at htrack
          cases htrack
        | _ =>
          rw [hpc] at hleft
          exact absurd (Nat.succ_pos _) hleft
      rw [hpc] at hcount
      exact ⟨s, .refl, ho, hpc, (Int.add_zero _).symm.trans hcount, rfl, fun _ _ => rfl⟩

/-- One more call, from its first step to its last. -/
theorem State.Open.spawn (ho : s.Open)
    (hcap : 0 < c.maxFibers → s.activeFiberCount + 1 ≤ c.maxFibers) :
    ∃ s', Reach (step c) (fun _ l => l.isSpawn = true) s s' ∧ s'.Open
      ∧ (s'.threads s.calls).pc = .returned (.ok ())
      ∧ s'.activeFiberCount = s.activeFiberCount + 1 ∧ s'.calls = s.calls + 1
      ∧ ∀ g, g ≠ s.calls → s'.threads g = s.threads g := by
  have hadmits : (s.spawnCall false 0).Admits s.calls (s.activeFiberCount + 1) := by
    refine ⟨⟨ho.running, ho.muHeld, ho.done, ho.sched, ho.draining⟩, ?_, ?_⟩
    · simp [spawnCall, setPc, setThread, SpawnPc.OnTrack]
    · simp [spawnCall, setPc, setThread, SpawnPc.toAdd]
  obtain ⟨s', hreach, ho', hpc, hcount, hcalls, hothers⟩ := hadmits.returns hcap
  refine ⟨s', Reach.trans (.tail .refl rfl (l := .call false 0) rfl) hreach, ho', hpc, hcount,
    hcalls, fun g hg => (hothers g hg).trans ?_⟩
  exact Function.update_of_ne hg ..

/-- A runtime that takes fibers and has room for `n` admits `n`. Induction on `n`. -/
theorem State.Open.spawns (ho : s.Open) (n : Nat)
    (hcap : 0 < c.maxFibers → s.activeFiberCount + n ≤ c.maxFibers) :
    ∃ s', Reach (step c) (fun _ l => l.isSpawn = true) s s' ∧ s'.Open
      ∧ s'.calls = s.calls + n ∧ s'.activeFiberCount = s.activeFiberCount + n
      ∧ ∀ f, s.calls ≤ f → f < s.calls + n → (s'.threads f).pc = .returned (.ok ()) := by
  induction n with
  | zero => exact ⟨s, .refl, ho, rfl, (Int.add_zero _).symm, fun f hle hlt => by omega⟩
  | succ n ih =>
    obtain ⟨s₁, hreach₁, ho₁, hcalls₁, hcount₁, hpc₁⟩ := ih fun hpos => by
      have := hcap hpos
      omega
    obtain ⟨s', hreach, ho', hpc, hcount, hcalls, hothers⟩ := ho₁.spawn (c := c) fun hpos => by
      have := hcap hpos
      omega
    refine ⟨s', hreach₁.trans hreach, ho', by omega, by omega, fun f hle hlt => ?_⟩
    by_cases hf : f = s₁.calls
    · rw [hf]
      exact hpc
    · rw [hothers f hf]
      exact hpc₁ f hle (by omega)

end

section

variable {c : Config} {s₀ s : State}

/-- In runs that keep the books, when nothing is in progress the counter is the number of accepted
fibers that are queued or running. When there are none it is 0, and a runtime with a cap of `n`
that is running admits `n` fibers. -/
theorem fiber_cap_exact (h₀ : Initial c s₀) (h : Reach (step c) OnTheBooks s₀ s) (hq : s.Quiet) :
    s.activeFiberCount = s.alive.card
      ∧ (s.alive = ∅ → s.activeFiberCount = 0
        ∧ ∀ (n : Nat) (last : Option (Except LifecycleError Unit)), c.maxFibers = n →
          s.lifecycle = .idle last → s.isRunning = true → s.done s.epoch = false →
          ∃ s', Reach (step c) (fun _ l => l.isSpawn = true) s s' ∧ s'.calls = s.calls + n
            ∧ s'.activeFiberCount = n
            ∧ ∀ f, s.calls ≤ f → f < s.calls + n → (s'.threads f).pc = .returned (.ok ())) := by
  have hcount := activeFiberCount_eq_card_alive h₀ h hq
  refine ⟨hcount, fun hnone => ?_⟩
  have hzero : s.activeFiberCount = 0 := by rw [hcount, hnone]; rfl
  refine ⟨hzero, fun n last hmax hidle hrun hdone => ?_⟩
  have ho := open_of_reach h₀ h hidle hrun hdone
  obtain ⟨s', hreach, -, hcalls, hcount', hpc⟩ := ho.spawns (c := c) n fun _ => by
    rw [hzero, hmax]
    omega
  exact ⟨s', hreach, hcalls, by omega, hpc⟩

end

/-- With a cap of 1: a fiber runs and completes, the runtime is stopped, reset and started again,
and takes another. -/
theorem fiber_cap_exact_after_reset :
    ∃ s, Reach (step (.ofOptions 1 [.withMaxFibers 1])) OnTheBooks
        (.newWithOptions (.ofOptions 1 [.withMaxFibers 1])) s
      ∧ s.epoch = 2 ∧ s.calls = 1 ∧ s.activeFiberCount = 0
      ∧ ∃ s', Reach (step (.ofOptions 1 [.withMaxFibers 1])) (fun _ l => l.isSpawn = true) s s'
        ∧ (s'.threads 1).pc = .returned (.ok ()) := by
  obtain ⟨s, hs, htest⟩ := exists_reach_of_exec_guarded (step (.ofOptions 1 [.withMaxFibers 1]))
    OnTheBooks (.newWithOptions (.ofOptions 1 [.withMaxFibers 1]))
    (List.flatten [Label.startTrace, [.call false 0], Label.spawnTrace 0 9, Label.dispatchTrace 0,
      List.replicate 6 (.go 0 ∅),
      [.stop, .lifecycle, .lifecycle, .loop .next, .loop .done, .loop .result, .loop .next],
      List.replicate 5 .lifecycle, [.reset], List.replicate 4 .lifecycle, Label.startTrace])
    (fun s => decide (s.epoch = 2 ∧ s.calls = 1 ∧ s.Quiet ∧ s.alive = ∅
      ∧ s.lifecycle = .idle (some (.ok ())) ∧ s.isRunning = true ∧ s.done s.epoch = false))
    (by decide +kernel)
  obtain ⟨hepoch, hcalls, hquiet, hnone, hidle, hrun, hdone⟩ := of_decide_eq_true htest
  obtain ⟨hzero, hadmits⟩ := (fiber_cap_exact (.inr rfl) hs hquiet).2 hnone
  obtain ⟨s', hreach, -, -, hpc⟩ := hadmits 1 _ rfl hidle hrun hdone
  exact ⟨s, hs, hepoch, hcalls, hzero, s', hreach, hpc 1 (by omega) (by omega)⟩

/-- The deadline of `Stop` passes while fiber 0 is running, and `Reset` replaces `rt.fibers`. When
the fiber has completed nothing is alive, the counter is still 1, and a runtime with a cap of 1
refuses the next fiber. -/
theorem reset_leaks_cap :
    ∃ s, Reach (step (.ofOptions 1 [.withMaxFibers 1])) anyStep
        (.newWithOptions (.ofOptions 1 [.withMaxFibers 1])) s
      ∧ s.Quiet ∧ s.alive = ∅ ∧ (s.threads 0).go = .ended ∧ s.isRunning = true
      ∧ s.activeFiberCount = 1
      ∧ (s.threads 1).pc = .returned (.error (.maxFibersReached 1)) := by
  obtain ⟨s, hs, htest⟩ := exists_reach_of_exec (step (.ofOptions 1 [.withMaxFibers 1]))
    (.newWithOptions (.ofOptions 1 [.withMaxFibers 1]))
    (List.flatten [Label.startTrace, [.call false 0], Label.spawnTrace 0 9, Label.dispatchTrace 0,
      [.stop, .lifecycle, .lifecycle, .loop .next, .loop .done, .loop .next],
      List.replicate 4 .lifecycle, [.deadline, .reset], List.replicate 4 .lifecycle,
      List.replicate 4 (.go 0 ∅), [.discard 0], Label.startTrace, [.call false 0],
      Label.spawnTrace 1 3])
    (fun s => decide (s.Quiet ∧ s.alive = ∅ ∧ (s.threads 0).go = .ended ∧ s.isRunning = true
      ∧ s.activeFiberCount = 1
      ∧ (s.threads 1).pc = .returned (.error (.maxFibersReached 1))))
    (by decide +kernel)
  exact ⟨s, hs, of_decide_eq_true htest⟩

end GreenThreads.Runtime
