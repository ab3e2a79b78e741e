import GreenThreads.Runtime.Cap
import Mathlib.Algebra.Order.BigOperators.Group.Finset

/-!
# GreenThreads — the stack-memory gauge

`Spawn` adds the stack size of a fiber to `TotalStackMemory` after it has committed the fiber;
`complete` takes it off again when the fiber is done, and a reap when the fiber is thrown away.
Both leave a gauge that is too small alone. Since the fiber is in a queue before its call has
committed it, its end may be recorded before its creation, and what is then not taken off stays
in the gauge for good.

In runs in which the creation of a fiber is recorded before its end the gauge is the sum over
the fibers that are booked: created, and neither completed nor cancelled on the books.
-/

namespace GreenThreads.Runtime

open Trans

/-! ## Fibers on the books -/

/-- The cancellations a reap has still to record for fiber `f`. -/
def Lifecycle.recording (l : Lifecycle) (f : FiberID) : Nat :=
  match l with
  | .reapUndo _ reaped => reaped.count f
  | .reapRecord _ g reaped => (g :: reaped).count f
  | _ => 0

/-- `complete` has recorded the end of the fiber, or never will. -/
def GoPc.recorded : GoPc → Bool
  | absent | run | body | recordCompleted => false
  | _ => true

/-- Only the step that records `f` changes what is left to record for it, once the scan is over. -/
theorem Shared.Step.recording {n : Nat} {r r' : Shared} {f : FiberID} (h : r.Step n r')
    (hne : ∀ err reaped, r.lifecycle = .reapRecord err f reaped → r'.lifecycle = r.lifecycle) :
    r'.lifecycle.recording f = r.lifecycle.recording f := by
  cases h with
  | cancelCtx => rfl
  | @reapRecord err g reaped h =>
    have hg : g ≠ f := by
      rintro rfl
      have := hne err reaped h
      rw [h] at this
      cases this
    rw [h]
    exact (List.count_cons_of_ne hg).symm
  | @clearBase why _ h => rw [h]; cases why <;> rfl
  | idle _ h | startBegin h | startFail _ h | startSched h | startRun _ h | stopBegin h
  | stopCancel h | stopSched _ h | stopJoin h | reapDone h | joined _ h | resetBegin h
  | resetMain h | resetMetrics _ h => rw [h]; rfl

theorem Shared.Step.recording_le {n : Nat} {r r' : Shared} {f : FiberID} (h : r.Step n r') :
    r'.lifecycle.recording f ≤ r.lifecycle.recording f := by
  cases h with
  | cancelCtx => exact le_rfl
  | reapRecord h => rw [h]; exact List.count_le_count_cons
  | @clearBase why => cases why <;> exact Nat.zero_le _
  | _ => exact Nat.zero_le _

namespace Life

variable {n : Nat} {v v' : Life} {e : Event} {f : FiberID}

/-- Neither the completion of fiber `f` nor its cancellation has been recorded. A fiber whose
function has ended in `runtime.Goexit` never completes and stays in `rt.fibers`. -/
def unreleased (f : FiberID) (v : Life) : Bool :=
  match v.go with
  | .absent => !v.reaped || decide (0 < v.shared.lifecycle.recording f)
  | .run | .body | .recordCompleted => true
  | .ended => v.inFibers
  | _ => false

/-- The creation of fiber `f` has been recorded and its end has not. -/
def booked (f : FiberID) (v : Life) : Bool :=
  decide (v.pc = .returned (.ok ())) && v.unreleased f

/-- Between its removal by `complete` and its end the fiber is not in `rt.fibers`. -/
def Removed (v : Life) : Prop := v.go = .undo ∨ v.go = .send → v.inFibers = false

theorem Step.removed (h : v.Step n e v') (hs : v.Sound n) (hv : v.Removed) : v'.Removed := by
  cases h with
  | insert h =>
    intro hgo
    rw [hs.placed.go_absent_of_not_published (by rw [h]; rfl)] at hgo
    rcases hgo with hgo | hgo <;> cases hgo
  | unschedule | rollback | remove | reapTake | resetFibers => exact fun _ => rfl
  | undo h => exact fun _ => hv (.inl h)
  | launch | runBegin | runSkip | runEnd | goexit | recordCompleted | markRemove | send =>
    rintro (hgo | hgo) <;> cases hgo
  | markCompleted _ hgo | sweep _ hgo =>
    rcases hgo with rfl | rfl <;> rintro (hgo | hgo) <;> cases hgo
  | _ => exact hv

/-- A fiber that is queued, handed out or in its function has not been reaped. -/
theorem Sound.not_reaped (hs : v.Sound n)
    (h : v.inFibers = true ∨ v.hand ≠ .empty ∨ v.go ≠ .absent ∨ v.pc.committed = false) :
    v.reaped = false := by
  by_contra hr
  have hgone := hs.reaped.gone (by simpa using hr)
  rcases h with h | h | h | h
  · rw [hgone.inFibers] at h
    cases h
  · exact h hgone.hand
  · exact h hgone.go
  · rw [hgone.committed] at h
    cases h

/-- While a fiber is wanted, only the steps that record its end take it off the books. -/
theorem Step.unreleased (h : v.Step n e v') (hs : v.Sound n) (hk : v.Kept) (hrem : v.Removed)
    (hreset : e = .resetFibers → v.inFibers = false)
    (hreap : v'.reaping = v'.shared.lifecycle.reaping f)
    (hpc : v.pc.undecided = true ∨ v.pc.committed = true)
    (hpc' : v'.pc.undecided = true ∨ v'.pc.committed = true)
    (hgo : v.go = .recordCompleted → v'.go = v.go)
    (hlife : ∀ err reaped, v.shared.lifecycle = .reapRecord err f reaped →
      v'.shared.lifecycle = v.shared.lifecycle) :
    v'.unreleased f = v.unreleased f := by
  cases h with
  | shared h => simp only [Life.unreleased, h.recording hlife]
  | rollback | removeNext | rollbackUndo => rcases hpc' with hpc' | hpc' <;> cases hpc'
  | @removeFound _ present | @removeMissing _ present =>
    cases present <;> rcases hpc' with hpc' | hpc' <;> cases hpc'
  | call h | checked h | notStarted h | reserve h | unreserve h | insert h | schedule h | enqueue h
  | unschedule h | unscheduleUndo h =>
    rw [h] at hpc
    rcases hpc with hpc | hpc <;> cases hpc
  | launch h =>
    -- a fiber in the hand of the loop is out of reach of a reap
    have habsent := hs.placed.go_absent (.inl (by simp [h]))
    have hnot := hs.not_reaped (.inr (.inl (by simp [h])))
    simp [Life.unreleased, habsent, hnot]
  | runBegin h | runSkip h | runEnd h => simp only [Life.unreleased, h]
  | goexit h =>
    -- `Goexit` skips `complete`: the fiber stays in the map, and so on the books
    have hin : v.inFibers = true := by
      rcases hpc with hpc | hpc
      · exact hk.undecided hpc (by rw [h]; rfl)
      · exact (hk.committed hpc (by rw [h]; rfl)
          (hs.not_reaped (.inr (.inr (.inl (by simp [h])))))).1
    simp only [Life.unreleased, h, hin]
  | recordCompleted h =>
    have := hgo h
    rw [h] at this
    cases this
  | markCompleted h hnext | sweep h hnext =>
    rcases hnext with rfl | rfl <;> simp only [Life.unreleased, h]
  | markRemove h | undo h => simp only [Life.unreleased, h]
  | remove h => cases v.inFibers <;> simp [Life.unreleased, h]
  | send h => simp only [Life.unreleased, h, hrem (.inr h)]
  | @clearWorker why w h | @clearOnly why w h =>
    simp only [Life.unreleased, h]
    cases why <;> rfl
  | startFibers h => simp only [Life.unreleased, h]; rfl
  | @reapTake err reaped h hin _ hrun =>
    -- the scan notes down what it takes
    have habsent := (hs.fiber.runnable hrun).1
    have hnot := hs.not_reaped (.inl hin)
    have hcount : (Lifecycle.reapUndo err reaped).recording f = 1 := hreap.symm
    simp [Life.unreleased, habsent, hnot, hcount]
  | @reapLeave err reaped h _ h0 =>
    have hcount : (Lifecycle.reapUndo err reaped).recording f = 0 := hreap.symm.trans h0
    simp only [Life.unreleased, h, hcount]
    rfl
  | reapUndo h | reapUndoOther h => simp only [Life.unreleased, h]; rfl
  | resetFibers h =>
    simp only [Life.unreleased, h, hreset rfl]
    rfl
  | _ => rfl

/-- Published and not yet created on the books. -/
def Pending (v : Life) : Prop := v.pc.undecided = true ∨ v.pc = .recordCreated

theorem Pending.wanted (h : v.Pending) : v.pc.undecided = true ∨ v.pc.committed = true :=
  h.imp_right fun hpc => by rw [hpc]; rfl

/-- A fiber becomes pending when `Schedule` has put it into a queue. -/
theorem Step.pending (h : v.Step n e v') (hp : v'.Pending) :
    v.Pending ∨ v.pc = .enqueue ∧ v'.go = v.go ∧ v'.reaped = v.reaped := by
  cases h with
  | enqueue h => exact .inr ⟨h, rfl, rfl⟩
  | countScheduled h | readCtx h | recheck h | commit h => exact .inl (.inl (by rw [h]; rfl))
  | call _ hpc => rcases hpc with rfl | rfl | rfl <;> rcases hp with hp | hp <;> cases hp
  | reserve _ hpc | schedule _ hpc =>
    rcases hpc with rfl | rfl <;> rcases hp with hp | hp <;> cases hp
  | @removeFound _ present | @removeMissing _ present =>
    cases present <;> rcases hp with hp | hp <;> cases hp
  | checked | notStarted | unreserve | insert | unschedule | unscheduleUndo | rollback | removeNext
  | rollbackUndo | recordCreated => rcases hp with hp | hp <;> cases hp
  | _ => exact .inl hp

/-- Only `recordCreated` is followed by a return without an error. -/
theorem Step.created (h : v.Step n e v') (hpc' : v'.pc = .returned (.ok ())) :
    v.pc = .returned (.ok ()) ∨ v.pc = .recordCreated := by
  cases h with
  | recordCreated h => exact .inr h
  | call _ hpc => rcases hpc with rfl | rfl | rfl <;> cases hpc'
  | reserve _ hpc | schedule _ hpc => rcases hpc with rfl | rfl <;> cases hpc'
  | enqueue _ _ hpc => rcases hpc with rfl | rfl <;> cases hpc'
  | @removeFound _ present | @removeMissing _ present => cases present <;> cases hpc'
  | checked | notStarted | unreserve | insert | unschedule | unscheduleUndo | countScheduled
  | readCtx | recheck | commit | rollback | removeNext | rollbackUndo => cases hpc'
  | _ => exact .inl hpc'

/-- What is left to record is of fibers that have been reaped, and each of them is recorded
once. -/
structure Noted (f : FiberID) (v : Life) : Prop where
  reaped : 0 < v.shared.lifecycle.recording f → v.reaped = true
  once : v.shared.lifecycle.recording f ≤ 1

theorem Step.noted (h : v.Step n e v')
    (hreap : v'.reaping = v'.shared.lifecycle.reaping f) (hv : v.Noted f) : v'.Noted f := by
  obtain ⟨hr, h1⟩ := hv
  cases h with
  | shared h =>
    have hle := h.recording_le (f := f)
    exact ⟨fun h0 => hr (h0.trans_le hle), hle.trans h1⟩
  | startFibers | clearWorker | resetFibers => exact ⟨nofun, Nat.zero_le _⟩
  | @clearOnly why => cases why <;> exact ⟨nofun, Nat.zero_le _⟩
  | @reapTake err reaped =>
    have hcount : (Lifecycle.reapUndo err reaped).recording f = 1 := hreap.symm
    exact ⟨fun _ => rfl, hcount.le⟩
  | @reapLeave err reaped _ _ h0 =>
    have hcount : (Lifecycle.reapUndo err reaped).recording f = 0 := hreap.symm.trans h0
    exact ⟨fun hpos => absurd hpos (by simp [hcount]), by simp [hcount]⟩
  | reapUndo h | reapUndoOther h =>
    rw [h] at hr h1
    exact ⟨hr, h1⟩
  | _ => exact ⟨hr, h1⟩

/-- What the books need of one fiber. -/
structure Accounted (f : FiberID) (v : Life) : Prop where
  kept : v.Kept
  removed : v.Removed
  noted : v.Noted f
  pending : v.Pending → v.unreleased f = true

/-- The end of a fiber is recorded when it has been created on the books. -/
structure EndsCreated (f : FiberID) (v v' : Life) : Prop where
  completed : v.go = .recordCompleted → v'.go ≠ v.go → v.pc = .returned (.ok ())
  cancelled : ∀ err reaped, v.shared.lifecycle = .reapRecord err f reaped →
    v'.shared.lifecycle ≠ v.shared.lifecycle → v.pc = .returned (.ok ())

theorem Step.accounted (h : v.Step n e v') (hs : v.Sound n)
    (hreset : e = .resetFibers → v.inFibers = false)
    (hreap : v'.reaping = v'.shared.lifecycle.reaping f) (hends : EndsCreated f v v')
    (hv : v.Accounted f) : v'.Accounted f where
  kept := h.kept hs hreset hv.kept
  removed := h.removed hs hv.removed
  noted := h.noted hreap hv.noted
  pending := by
    intro hp'
    rcases h.pending hp' with hp | ⟨hpc, hgo, hr⟩
    · have hnot : v.pc ≠ .returned (.ok ()) := by
        rintro hpc
        rcases hp with hp | hp <;> rw [hpc] at hp <;> cases hp
      rw [h.unreleased hs hv.kept hv.removed hreset hreap hp.wanted hp'.wanted
        (fun hgo => not_not.mp fun hne => hnot (hends.completed hgo hne))
        (fun err reaped hl => not_not.mp fun hne => hnot (hends.cancelled err reaped hl hne))]
      exact hv.pending hp
    · -- fresh from `Schedule`: no goroutine yet, and nothing to reap
      have habsent := hs.placed.go_absent_of_not_published (by rw [hpc]; rfl)
      have hnot := hs.not_reaped (.inr (.inr (.inr (by rw [hpc]; rfl))))
      simp [Life.unreleased, hgo, hr, habsent, hnot]

theorem accounted_fresh (f : FiberID) : Life.fresh.Accounted f where
  kept := ⟨nofun, nofun, nofun⟩
  removed := by rintro (h | h) <;> cases h
  noted := ⟨nofun, Nat.zero_le _⟩
  pending := by rintro (h | h) <;> cases h

/-- A step that records nothing of a fiber leaves it on the books, or off them. -/
theorem Step.booked_eq (h : v.Step n e v') (hs : v.Sound n) (hv : v.Accounted f)
    (hreset : e = .resetFibers → v.inFibers = false)
    (hreap : v'.reaping = v'.shared.lifecycle.reaping f)
    (hcreate : v.pc = .recordCreated → v'.pc = v.pc)
    (hgo : v.go = .recordCompleted → v'.go = v.go)
    (hlife : ∀ err reaped, v.shared.lifecycle = .reapRecord err f reaped →
      v'.shared.lifecycle = v.shared.lifecycle) : v'.booked f = v.booked f := by
  unfold booked
  by_cases hpc : v.pc = .returned (.ok ())
  · have hpc' : v'.pc = v.pc :=
      h.pc_of_atRest (fun _ => by rw [hpc]; exact nofun) (by rw [hpc]; rfl)
    have hwant : v.pc.undecided = true ∨ v.pc.committed = true := .inr (by rw [hpc]; rfl)
    rw [hpc', h.unreleased hs hv.kept hv.removed hreset hreap hwant (by rw [hpc']; exact hwant) hgo
      hlife]
  · have hpc' : v'.pc ≠ .returned (.ok ()) := by
      intro hret
      rcases h.created hret with hret' | hrec
      · exact hpc hret'
      · rw [hcreate hrec, hrec] at hret
        cases hret
    simp [hpc, hpc']

end Life

/-! ## The steps that record something -/

/-- The fiber whose cancellation is recorded next. -/
def Lifecycle.toRecord : Lifecycle → Option FiberID
  | .reapRecord _ f _ => some f
  | _ => none

/-- The end of a fiber is recorded after its creation: when `complete` or the reap of a `Stop`
records it, the `Spawn` call of the fiber has returned. -/
def CreatedFirst (s : State) : Label → Prop
  | .go f _ => (s.threads f).go = .recordCompleted → (s.threads f).pc = .returned (.ok ())
  | .lifecycle => ∀ f ∈ s.lifecycle.toRecord, (s.threads f).pc = .returned (.ok ())
  | _ => True

instance (s : State) : (l : Label) → Decidable (CreatedFirst s l)
  | .go _ _ => inferInstanceAs (Decidable (_ → _))
  | .lifecycle => inferInstanceAs (Decidable (∀ _ ∈ _, _))
  | .call _ _ | .spawn _ _ | .loop _ | .discard _ | .goexit _ | .block _ | .unblock _ | .start
  | .stop | .reset | .deadline | .cancelCtx | .setStackSize _ => isTrue trivial

namespace State

variable {c : Config} {s s' : State} {l : Label} {f g : FiberID}

/-- The step records the creation of fiber `f`, its completion or its cancellation. -/
inductive Books (s : State) (f : FiberID) : Label → Prop where
  | created {w : Nat} (hpc : (s.threads f).pc = .recordCreated) : Books s f (.spawn f w)
  | completed {drop : Finset FiberID} (hgo : (s.threads f).go = .recordCompleted) :
      Books s f (.go f drop)
  | cancelled {err : Option String} {reaped : List FiberID}
      (hl : s.lifecycle = .reapRecord err f reaped) : Books s f .lifecycle

theorem Books.unique (hf : s.Books f l) (hg : s.Books g l) : f = g := by
  cases hf with
  | created | completed => cases hg; rfl
  | cancelled hl =>
    cases hg with
    | cancelled hl' =>
      rw [hl] at hl'
      cases hl'
      rfl

/-- Only its holder takes the lifecycle out of the reap. -/
theorem step_lifecycle (h : step c s l = some s') {err : Option String} {reaped : List FiberID}
    (hl : s.lifecycle = .reapRecord err f reaped) (hne : s'.lifecycle ≠ s.lifecycle) :
    l = .lifecycle := by
  cases step_turn h with
  | lifecycle => rfl
  | call ht | cancelCtx ht =>
    subst ht
    exact absurd rfl hne
  | begin hl' | deadline hl' =>
    rw [hl] at hl'
    cases hl'
  | work hwork => exact absurd (step_frame h hwork).lifecycle hne

/-- The other steps leave the metrics alone. -/
theorem step_metrics (h : step c s l = some s') (hno : ∀ f, ¬ s.Books f l)
    (hreset : l = .lifecycle → s.lifecycle ≠ .resetMetrics) : s'.metrics = s.metrics := by
  -- the three places that record are excluded by `hno`, `Reset` by `hreset`
  cases step_effect h with
  | spawn hspawn =>
    cases hspawn with
    | recordCreated hpc => exact absurd (.created hpc) (hno _)
    | _ => rfl
  | loop =>
    obtain ⟨threads, loop, results, switches, queue, rfl⟩ := loopStep_writes h
    rfl
  | go hgo =>
    cases hgo with
    | recordCompleted hgo => exact absurd (.completed hgo) (hno _)
    | _ => rfl
  | lifecycle hlife =>
    cases hlife with
    | reapRecord hl => exact absurd (.cancelled hl) (hno _)
    | resetMetrics hl => exact absurd hl (hreset rfl)
    | _ => rfl
  | _ => rfl

end State

section

variable {c : Config} {s s' : State} {l : Label} {f : FiberID}

theorem CreatedFirst.ends (hok : CreatedFirst s l) (hs : s.Sound c) (h : step c s l = some s') :
    Life.EndsCreated f (s.life f) (s'.life f) where
  completed hgo hne := by
    have hgo' : (s.threads f).go = .recordCompleted := hgo
    obtain ⟨drop, rfl⟩ := hs.turn_of_go h hne (by simp [hgo']) (by simp [hgo']) (by simp [hgo'])
    exact hok hgo'
  cancelled err reaped hl hne := by
    obtain rfl := State.step_lifecycle h hl hne
    exact hok f (by rw [show s.lifecycle = _ from hl]; rfl)

theorem State.Sound.booked_eq (hs : s.Sound c) (hv : (s.life f).Accounted f)
    (hreset : ResetsEmpty s l) (h : Runtime.step c s l = some s') (hno : ¬ s.Books f l) :
    (s'.life f).booked f = (s.life f).booked f := by
  refine (hs.step_life h f).booked_eq (hs.life f) hv hreset.inFibers rfl (fun hpc => ?_)
    (fun hgo => ?_) (fun err reaped hl => ?_) <;> by_contra hne
  · rcases State.step_pc h hne with rfl | ⟨w, rfl⟩
    · rw [hs.uncalled _ le_rfl] at hpc
      cases hpc
    · exact hno (.created hpc)
  · have hgo' : (s.threads f).go = .recordCompleted := hgo
    obtain ⟨drop, rfl⟩ := hs.turn_of_go h hne (by simp [hgo']) (by simp [hgo']) (by simp [hgo'])
    exact hno (.completed hgo')
  · obtain rfl := State.step_lifecycle h hl hne
    exact hno (.cancelled hl)

/-! ## The gauge -/

/-- What fiber `f` adds to the gauge. -/
def State.share (s : State) (f : FiberID) : Int :=
  if (s.life f).booked f then (s.threads f).stackSize else 0

theorem State.share_booked (h : (s.life f).booked f = true) :
    s.share f = (s.threads f).stackSize :=
  if_pos h

theorem State.share_not_booked (h : (s.life f).booked f = false) : s.share f = 0 :=
  if_neg (by simp [h])

theorem State.stackSize_eq (h : step c s l = some s') (hpc : (s.threads f).pc ≠ .check) :
    (s'.threads f).stackSize = (s.threads f).stackSize := by
  cases State.step_moves h f with
  | spawn hsize _ ht => rw [ht]; exact hsize hpc
  | rest ht | call _ ht | mark _ ht | launch _ ht | body _ _ ht | go _ ht => rw [ht]

theorem Life.pc_of_booked {v : Life} (h : v.booked f = true) : v.pc = .returned (.ok ()) :=
  of_decide_eq_true (Bool.and_eq_true_iff.mp h).1

theorem State.Sound.share_eq (hs : s.Sound c) (hv : (s.life f).Accounted f)
    (hreset : ResetsEmpty s l) (h : Runtime.step c s l = some s') (hno : ¬ s.Books f l) :
    s'.share f = s.share f := by
  unfold State.share
  rw [hs.booked_eq hv hreset h hno]
  split_ifs with hb
  · refine State.stackSize_eq h ?_
    rw [show (s.threads f).pc = _ from Life.pc_of_booked hb]
    exact nofun
  · rfl

/-- The books are right: the two gauges are the sums of what the fibers add to them, and the
completions noted down are of goroutines that have recorded theirs. -/
structure State.Audited (s : State) : Prop where
  memory : s.metrics.totalStackMemory = ∑ f ∈ Finset.range s.calls, s.share f
  active : (s.metrics.activeFibers : Int)
    = ∑ f ∈ Finset.range s.calls, (((s.life f).booked f).toNat : Int)
  recorded : ∀ f ∈ s.metrics.completed, (s.threads f).go.recorded = true
  sizes : ∀ f, 0 ≤ (s.threads f).stackSize

theorem State.Audited.share_nonneg (ha : s.Audited) (f : FiberID) : 0 ≤ s.share f := by
  unfold State.share
  split_ifs
  · exact ha.sizes f
  · exact le_rfl

/-- What a step that records something of fiber `f` does: it books the fiber, or takes it off the
books. -/
theorem State.Audited.effect (ha : s.Audited) (hs : s.Sound c) (hv : (s.life f).Accounted f)
    (hok : CreatedFirst s l) (h : step c s l = some s') (hf : s.Books f l) :
    ((s.life f).booked f = false ∧ (s'.life f).booked f = true
        ∧ s'.metrics = s.metrics.recordFiberCreated (s.threads f).stackSize)
      ∨ ((s.life f).booked f = true ∧ (s'.life f).booked f = false
        ∧ s'.metrics.totalStackMemory
          = (s.metrics.release (s.threads f).stackSize).totalStackMemory
        ∧ s'.metrics.activeFibers = (s.metrics.release (s.threads f).stackSize).activeFibers) := by
  cases hf with
  | created hpc =>
    simp only [Runtime.step, spawnStep, hpc] at h
    have hlife : s'.life f = { s.life f with pc := .returned (.ok ()) } := by
      cases h
      exact life_setPc ..
    refine .inl ⟨?_, ?_, ?_⟩
    · simp [Life.booked, show (s.life f).pc = _ from hpc]
    · rw [hlife]
      exact hv.pending (.inr hpc)
    · cases h
      rfl
  | completed hgo =>
    have hpc : (s.life f).pc = .returned (.ok ()) := hok hgo
    -- a second completion of the same fiber would not be counted
    have hnew : f ∉ s.metrics.completed := fun hmem => by
      have := ha.recorded f hmem
      rw [hgo] at this
      cases this
    simp only [Runtime.step, goStep, hgo] at h
    split_ifs at h
    have hlife : s'.life f = { s.life f with go := .markCompleted } := by
      cases h
      exact life_setGo ..
    refine .inr ⟨?_, ?_, ?_, ?_⟩
    · simp [Life.booked, Life.unreleased, show (s.life f).go = _ from hgo, hpc]
    · rw [hlife]
      exact Bool.and_false _
    · cases h
      simp only [setGo, setThread, Metrics.recordFiberCompleted, if_neg hnew]
    · cases h
      simp only [setGo, setThread, Metrics.recordFiberCompleted, if_neg hnew]
  | @cancelled err reaped hl =>
    have hlife : (s.life f).shared.lifecycle = .reapRecord err f reaped := hl
    have hpc : (s.life f).pc = .returned (.ok ()) := hok f (by rw [hl]; rfl)
    have hpos : 0 < (s.life f).shared.lifecycle.recording f := by
      rw [hlife]
      exact List.count_pos_iff.mpr (List.mem_cons_self ..)
    have hreaped := hv.noted.reaped hpos
    have habsent := ((hs.life f).reaped.gone hreaped).go
    -- it was noted down once
    have hzero : reaped.count f = 0 := by
      have honce := hv.noted.once
      rw [hlife, Lifecycle.recording, List.count_cons_self] at honce
      omega
    simp only [Runtime.step, lifecycleStep, hl, Option.some.injEq] at h
    refine .inr ⟨?_, ?_, by rw [← h], by rw [← h]⟩
    · simp [Life.booked, Life.unreleased, habsent, hpc, hpos]
    · have hgo' : (s'.life f).go = .absent := by rw [← h]; exact habsent
      have hreaped' : (s'.life f).reaped = true := by rw [← h]; exact hreaped
      have hzero' : (s'.life f).shared.lifecycle.recording f = 0 := by rw [← h]; exact hzero
      simp [Life.booked, Life.unreleased, hgo', hreaped', hzero']

/-- The change of the memory gauge: what is on the books can be taken off it. -/
theorem State.Audited.memory_step (ha : s.Audited) (hs : s.Sound c)
    (hv : (s.life f).Accounted f) (hok : CreatedFirst s l) (h : step c s l = some s')
    (hf : s.Books f l) (hlt : f < s.calls) :
    s'.metrics.totalStackMemory = s.metrics.totalStackMemory + (s'.share f - s.share f) := by
  rcases ha.effect hs hv hok h hf with ⟨hnot, hb, hm⟩ | ⟨hb, hnot, hm, -⟩
  · have hsize : (s'.threads f).stackSize = (s.threads f).stackSize := by
      refine State.stackSize_eq h fun hpc => ?_
      cases hf with
      | created hpc' => rw [hpc'] at hpc; cases hpc
      | completed hgo => rw [hok hgo] at hpc; cases hpc
      | cancelled hl => rw [hok f (by rw [hl]; rfl)] at hpc; cases hpc
    rw [share_not_booked hnot, share_booked hb, hm, hsize]
    simp [Metrics.recordFiberCreated]
  · have hle : (s.threads f).stackSize ≤ s.metrics.totalStackMemory :=
      calc (s.threads f).stackSize = s.share f := (share_booked hb).symm
        _ ≤ ∑ g ∈ Finset.range s.calls, s.share g :=
          Finset.single_le_sum (fun g _ => ha.share_nonneg g) (Finset.mem_range.mpr hlt)
        _ = s.metrics.totalStackMemory := ha.memory.symm
    rw [share_booked hb, share_not_booked hnot, hm]
    simp only [Metrics.release, if_pos hle]
    omega

/-- The change of the gauge of active fibers. -/
theorem State.Audited.active_step (ha : s.Audited) (hs : s.Sound c)
    (hv : (s.life f).Accounted f) (hok : CreatedFirst s l) (h : step c s l = some s')
    (hf : s.Books f l) (hlt : f < s.calls) :
    (s'.metrics.activeFibers : Int) = s.metrics.activeFibers
      + ((((s'.life f).booked f).toNat : Int) - (((s.life f).booked f).toNat : Int)) := by
  rcases ha.effect hs hv hok h hf with ⟨hnot, hb, hm⟩ | ⟨hb, hnot, -, hm⟩
  · simp [hnot, hb, hm, Metrics.recordFiberCreated]
  · have hpos : (1 : Int) ≤ s.metrics.activeFibers :=
      calc (1 : Int) = (((s.life f).booked f).toNat : Int) := by rw [hb]; rfl
        _ ≤ ∑ g ∈ Finset.range s.calls, (((s.life g).booked g).toNat : Int) :=
          Finset.single_le_sum (f := fun g => (((s.life g).booked g).toNat : Int))
            (fun g _ => Int.natCast_nonneg _) (Finset.mem_range.mpr hlt)
        _ = s.metrics.activeFibers := ha.active.symm
    simp only [hb, hnot, hm, Metrics.release, Bool.toNat_true, Bool.toNat_false]
    omega

theorem State.Books.lt_calls (hf : s.Books f l) (hs : s.Sound c) (hv : (s.life f).Accounted f) :
    f < s.calls := by
  refine hs.lt_calls fun hpc => ?_
  cases hf with
  | created hrec =>
    rw [show (s.threads f).pc = _ from hpc] at hrec
    cases hrec
  | completed hgo =>
    have habsent := (hs.life f).placed.go_absent_of_not_published (by rw [hpc]; rfl)
    rw [show (s.threads f).go = _ from habsent] at hgo
    cases hgo
  | @cancelled err reaped hl =>
    have hreaped := hv.noted.reaped (by
      rw [show (s.life f).shared.lifecycle = _ from hl]
      exact List.count_pos_iff.mpr (List.mem_cons_self ..))
    have hcommitted := ((hs.life f).reaped.gone hreaped).committed
    rw [hpc] at hcommitted
    cases hcommitted

/-- Every fiber noted down as completed was so before, or has just been. -/
theorem State.mem_completed (h : step c s l = some s') (hreset : s.lifecycle ≠ .resetMetrics)
    (hmem : f ∈ s'.metrics.completed) :
    f ∈ s.metrics.completed ∨ (s'.threads f).go = .markCompleted := by
  by_cases hno : ∀ g, ¬ s.Books g l
  · rw [State.step_metrics h hno fun _ => hreset] at hmem
    exact .inl hmem
  · push Not at hno
    obtain ⟨g, hg⟩ := hno
    cases hg with
    | created hpc =>
      simp only [Runtime.step, spawnStep, hpc] at h
      cases h
      exact .inl hmem
    | @completed drop hgo =>
      simp only [Runtime.step, goStep, hgo] at h
      split_ifs at h
      cases h
      by_cases hfg : f = g
      · subst hfg
        exact .inr (by simp [setGo, setThread])
      · left
        simp only [setGo, setThread, Metrics.recordFiberCompleted] at hmem
        split_ifs at hmem
        · exact hmem
        · exact (Finset.mem_insert.mp (Finset.mem_sdiff.mp hmem).1).resolve_left hfg
    | cancelled hl =>
      simp only [Runtime.step, lifecycleStep, hl] at h
      cases h
      exact .inl hmem

theorem Life.Step.recorded {n : Nat} {v v' : Life} {e : Event} (h : v.Step n e v')
    (hs : v.Sound n) (hgo : v.go.recorded = true) : v'.go.recorded = true := by
  cases h with
  | launch h =>
    rw [hs.placed.go_absent (.inl (by simp [h]))] at hgo
    cases hgo
  | runBegin h | runSkip h | runEnd h | block h | unblock h => rw [h] at hgo; cases hgo
  | goexit | recordCompleted | markRemove | undo | send => rfl
  | markCompleted _ hnext | sweep _ hnext => rcases hnext with rfl | rfl <;> rfl
  | remove => dsimp only; split_ifs <;> rfl
  | _ => exact hgo

theorem State.Audited.step (ha : s.Audited) (hs : s.Sound c) (hv : ∀ f, (s.life f).Accounted f)
    (hreset : ResetsEmpty s l) (hsteady : s.lifecycle ≠ .resetMetrics) (hok : CreatedFirst s l)
    (h : step c s l = some s') : s'.Audited where
  memory := by
    have hle : s.calls ≤ s'.calls := by
      rcases State.step_calls h with heq | ⟨heq, -⟩ <;> omega
    have hext : ∑ g ∈ Finset.range s.calls, s.share g = ∑ g ∈ Finset.range s'.calls, s.share g :=
      sum_range_extend (fun g hg => share_not_booked (by simp [Life.booked, hs.uncalled g hg])) hle
    by_cases hno : ∀ g, ¬ s.Books g l
    · rw [State.step_metrics h hno fun _ => hsteady, ha.memory, hext]
      exact Finset.sum_congr rfl fun g _ => (hs.share_eq (hv g) hreset h (hno g)).symm
    · push Not at hno
      obtain ⟨f, hf⟩ := hno
      have hlt := hf.lt_calls hs (hv f)
      -- the other fibers keep their shares
      have hothers : ∀ g, g ≠ f → s'.share g = s.share g := fun g hg =>
        hs.share_eq (hv g) hreset h fun hbooks => hg (hbooks.unique hf)
      rw [sum_range_change (hlt.trans_le hle) hothers, ← hext, ← ha.memory]
      exact ha.memory_step hs (hv f) hok h hf hlt
  active := by
    have hle : s.calls ≤ s'.calls := by
      rcases State.step_calls h with heq | ⟨heq, -⟩ <;> omega
    have hext := sum_range_extend (a := fun g => (((s.life g).booked g).toNat : Int))
      (fun g hg => by simp [Life.booked, hs.uncalled g hg]) hle
    by_cases hno : ∀ g, ¬ s.Books g l
    · rw [State.step_metrics h hno fun _ => hsteady, ha.active, hext]
      exact Finset.sum_congr rfl fun g _ => by rw [hs.booked_eq (hv g) hreset h (hno g)]
    · push Not at hno
      obtain ⟨f, hf⟩ := hno
      have hlt := hf.lt_calls hs (hv f)
      rw [sum_range_change (a := fun g => (((s.life g).booked g).toNat : Int))
        (b := fun g => (((s'.life g).booked g).toNat : Int)) (hlt.trans_le hle) fun g hg => ?_,
        ← hext, ← ha.active]
      · exact ha.active_step hs (hv f) hok h hf hlt
      · rw [hs.booked_eq (hv g) hreset h fun hbooks => hg (hbooks.unique hf)]
  recorded f hmem := by
    rcases State.mem_completed h hsteady hmem with hold | hnew
    · exact (hs.step_life h f).recorded (hs.life f) (ha.recorded f hold)
    · rw [hnew]
      rfl
  sizes f := by
    have hsize := ha.sizes f
    cases State.step_moves h f with
    | spawn hsame hclamp ht =>
      rw [ht]
      by_cases hpc : (s.threads f).pc = .check
      · rcases hclamp hpc with heq | heq
        · exact heq ▸ hsize
        · exact heq ▸ validateStackSize_nonneg _
      · exact hsame hpc ▸ hsize
    | rest ht | call _ ht | mark _ ht | launch _ ht | body _ _ ht | go _ ht => rw [ht]; exact hsize

theorem audited_of_reach {s₀ : State} (h₀ : Initial c s₀)
    (h : Reach (step c) (fun s l => l ≠ .reset ∧ CreatedFirst s l) s₀ s) :
    s.Sound c ∧ (∀ f, (s.life f).Accounted f) ∧ s.Audited := by
  have hall : s.Sound c ∧ s.Steady ∧ (∀ f, (s.life f).Accounted f) ∧ s.Audited := by
    refine h.invariant
      (P := fun s => s.Sound c ∧ s.Steady ∧ (∀ f, (s.life f).Accounted f) ∧ s.Audited) ?_ ?_
    · refine ⟨h₀.sound, h₀.steady, fun f => ?_, ?_⟩
      · rw [h₀.life f]
        exact Life.accounted_fresh f
      · rcases h₀ with rfl | rfl <;>
          exact ⟨rfl, rfl, fun f hf => absurd hf (Finset.notMem_empty f), fun _ => le_rfl⟩
    · rintro s l s' ⟨hs, hsteady, hv, ha⟩ ⟨hl, hok⟩ hst
      have hreset := hsteady.resetsEmpty l
      have hne : s.lifecycle ≠ .resetMetrics := hsteady.ne_of_resetting rfl
      exact ⟨hs.step hst, hsteady.step hl hst,
        fun f => (hs.step_life hst f).accounted (hs.life f) hreset.inFibers rfl (hok.ends hs hst)
          (hv f),
        ha.step hs hv hreset hne hok hst⟩
  exact ⟨hall.1, hall.2.2⟩

/-- With nothing in progress the fibers on the books are those in `rt.fibers`. -/
theorem Life.booked_at_rest {n : Nat} {v : Life} (hs : v.Sound n) (hv : v.Accounted f)
    (hrest : v.pc.atRest = true) (hgo : v.go.completing = false)
    (hrec : v.shared.lifecycle.recording f = 0) : v.booked f = v.inFibers := by
  by_cases hpc : v.pc = .returned (.ok ())
  · have hcommitted : v.pc.committed = true := by rw [hpc]; rfl
    have hkept : v.go.holds = true → v.reaped = false → v.inFibers = true := fun hh hr =>
      (hv.kept.committed hcommitted hh hr).1
    simp only [booked, hpc, decide_true, Bool.true_and, unreleased, hrec, lt_irrefl, decide_false,
      Bool.or_false]
    cases hgo' : v.go with
    | absent =>
      cases hr : v.reaped with
      | false => simp [hkept (by rw [hgo']; rfl) hr]
      | true => simp [(hs.reaped.gone hr).inFibers]
    | run | body =>
      exact (hkept (by rw [hgo']; rfl) (hs.not_reaped (.inr (.inr (.inl (by simp [hgo'])))))).symm
    | send => exact (hv.removed (.inr hgo')).symm
    | ended => rfl
    | _ => rw [hgo'] at hgo; cases hgo
  · have hout : v.inFibers = false :=
      Bool.eq_false_iff.mpr fun hin => hpc (hs.returned_of_inFibers hin hrest)
    simp [booked, hpc, hout]

theorem Lifecycle.recording_of_not_reaps {l : Lifecycle} (h : l.reaps = false) (f : FiberID) :
    l.recording f = 0 := by
  cases l with
  | reapUndo | reapRecord => cases h
  | _ => rfl

theorem State.Sound.booked_of_quiet (hs : s.Sound c) (hv : (s.life f).Accounted f) (hq : s.Quiet)
    (hf : f ∈ Finset.range s.calls) :
    (s.life f).booked f = decide (Key.spawned f ∈ s.fibers) :=
  Life.booked_at_rest (hs.life f) hv (hq.noSpawn f hf) (hq.noComplete f hf)
    (Lifecycle.recording_of_not_reaps hq.noReap f)

theorem State.Audited.memory_at_rest (ha : s.Audited) (hs : s.Sound c)
    (hv : ∀ f, (s.life f).Accounted f) (hq : s.Quiet) :
    s.metrics.totalStackMemory
      = ∑ f ∈ Finset.range s.calls with Key.spawned f ∈ s.fibers, (s.threads f).stackSize := by
  rw [ha.memory, Finset.sum_filter]
  refine Finset.sum_congr rfl fun f hf => ?_
  simp [State.share, hs.booked_of_quiet (hv f) hq hf]

theorem State.Audited.active_at_rest (ha : s.Audited) (hs : s.Sound c)
    (hv : ∀ f, (s.life f).Accounted f) (hq : s.Quiet) :
    s.metrics.activeFibers = s.spawnedFibers.card := by
  have hactive := ha.active
  rw [← Nat.cast_sum] at hactive
  rw [Int.ofNat_inj.mp hactive, ← hs.sum_inFibers]
  exact Finset.sum_congr rfl fun f hf => congrArg _ (hs.booked_of_quiet (hv f) hq hf)

/-- In runs without a `Reset` in which the end of every fiber is recorded after its creation, the
gauge is the stack memory of the live fibers whenever no `Spawn`, no `complete` and no reap is in
progress; and it is 0 when there is no live fiber. -/
theorem totalStackMemory_exact {s₀ : State} (h₀ : Initial c s₀)
    (h : Reach (step c) (fun s l => l ≠ .reset ∧ CreatedFirst s l) s₀ s) (hq : s.Quiet) :
    s.metrics.totalStackMemory
        = ∑ f ∈ Finset.range s.calls with Key.spawned f ∈ s.fibers, (s.threads f).stackSize
      ∧ (s.spawnedFibers = ∅ → s.metrics.totalStackMemory = 0) := by
  obtain ⟨hs, hv, ha⟩ := audited_of_reach h₀ h
  have hmemory := ha.memory_at_rest hs hv hq
  refine ⟨hmemory, fun hnone => ?_⟩
  rw [hmemory]
  refine Finset.sum_eq_zero fun f hf => ?_
  have hmem : Key.spawned f ∈ s.spawnedFibers :=
    Finset.mem_filter.mpr ⟨(Finset.mem_filter.mp hf).2, rfl⟩
  rw [hnone] at hmem
  exact absurd hmem (Finset.notMem_empty _)

end

/-- Two fibers, one of which runs and completes: the gauge has the stack of the other. -/
theorem totalStackMemory_exact_completed :
    ∃ s, Reach (step (.ofNewRuntime .fifo 1)) (fun s l => l ≠ .reset ∧ CreatedFirst s l)
        (.new (.ofNewRuntime .fifo 1)) s
      ∧ (s.threads 0).go = .ended ∧ s.metrics.totalStackMemory = 65536
      ∧ s.metrics.totalStackMemory
        = ∑ f ∈ Finset.range s.calls with Key.spawned f ∈ s.fibers, (s.threads f).stackSize := by
  obtain ⟨s, hs, htest⟩ := exists_reach_of_exec_guarded (step (.ofNewRuntime .fifo 1))
    (fun s l => l ≠ .reset ∧ CreatedFirst s l) (.new (.ofNewRuntime .fifo 1))
    (List.flatten [Label.startTrace, [.call false 0, .call false 0], Label.spawnTrace 0 9,
      Label.spawnTrace 1 9, Label.dispatchTrace 0, List.replicate 6 (.go 0 ∅)])
    (fun s => decide ((s.threads 0).go = .ended ∧ s.metrics.totalStackMemory = 65536 ∧ s.Quiet))
    (by decide +kernel)
  obtain ⟨hgo, hgauge, hquiet⟩ := of_decide_eq_true htest
  exact ⟨s, hs, hgo, hgauge, (totalStackMemory_exact (.inl rfl) hs hquiet).1⟩

/-- The loop is faster than `Spawn`: the completion of the fiber is recorded while the gauge is 0,
and its creation afterwards. Nothing is live, and the gauge stays at the size of one stack. -/
theorem late_creation_drifts :
    ∃ s, Reach (step (.ofNewRuntime .fifo 1)) (fun _ l => l ≠ .reset)
        (.new (.ofNewRuntime .fifo 1)) s
      ∧ s.Quiet ∧ s.spawnedFibers = ∅ ∧ (s.threads 0).go = .ended
      ∧ s.metrics.totalStackMemory = 65536 := by
  obtain ⟨s, hs, htest⟩ := exists_reach_of_exec_guarded (step (.ofNewRuntime .fifo 1))
    (fun _ l => l ≠ .reset) (.new (.ofNewRuntime .fifo 1))
    (List.flatten [Label.startTrace, [.call false 0], Label.spawnTrace 0 5, Label.dispatchTrace 0,
      List.replicate 6 (.go 0 ∅), Label.spawnTrace 0 4])
    (fun s => decide (s.Quiet ∧ s.spawnedFibers = ∅ ∧ (s.threads 0).go = .ended
      ∧ s.metrics.totalStackMemory = 65536))
    (by decide +kernel)
  exact ⟨s, hs, of_decide_eq_true htest⟩

end GreenThreads.Runtime
