import GreenThreads.Runtime.InFlight

/-!
# GreenThreads — the completion of dispatched fibers (`dispatch` and `complete` of `runtime.go`)

What a dispatch goroutine has to do once the fiber function has ended stands in three places: a
deferred call in `Run`, the deferred `fiberWG.Done`, and plain statements after `Run`. A return and
a panic get to all of them, since `Run` recovers; `runtime.Goexit` gets to the deferred calls only.

* `Completions` — a runtime, and what its goroutines have done of `complete` and of the send;
* `Completions.Kept` — what a goroutine has done, by where it is;
* `completed_once_iff` — the fibers whose function does not end in `runtime.Goexit` are completed
  once, and each of the others takes a worker slot with it.
-/

namespace GreenThreads.Runtime

open Trans

/-- What the goroutine of a fiber has done: entered `complete`, returned from it, put the result
into the channel. -/
structure Marks where
  entered : Nat := 0
  returned : Nat := 0
  delivered : Nat := 0
  deriving DecidableEq, Repr

/-- What a move of the goroutine from one place to another adds. -/
def Marks.move (m : Marks) : GoPc → GoPc → Marks
  | .run, .recordCompleted | .body, .recordCompleted => { m with entered := m.entered + 1 }
  | .remove, .send | .undo, .send => { m with returned := m.returned + 1 }
  | .send, .ended => { m with delivered := m.delivered + 1 }
  | _, _ => m

/-- A runtime, the marks of its fibers, and the fibers whose function has ended in
`runtime.Goexit`. Nothing reads the books. -/
structure Completions where
  rt : State
  marks : FiberID → Marks
  goexits : Finset FiberID

namespace Completions

def init (s : State) : Completions := ⟨s, fun _ => {}, ∅⟩

/-- What a step enters into the books. -/
def record (t : Completions) (s' : State) : Label → Completions
  | .go f _ =>
    { t with
      rt := s'
      marks := Function.update t.marks f
        ((t.marks f).move (t.rt.threads f).go (s'.threads f).go) }
  | .goexit f => { t with rt := s', goexits := insert f t.goexits }
  | _ => { t with rt := s' }

/-- One step of the runtime. -/
def step (c : Config) (t : Completions) (l : Label) : Option Completions :=
  (Runtime.step c t.rt l).map fun s' => t.record s' l

/-- The slots of the current run that nobody will give back. -/
def leaked (t : Completions) : Nat :=
  (t.goexits.filter fun f => (t.rt.threads f).run = t.rt.epoch).card

/-- The fiber has been completed: once, it is out of `rt.fibers`, and its result has gone to the
loop unless the run has been cancelled. -/
structure Settled (t : Completions) (f : FiberID) : Prop where
  entered : (t.marks f).entered = 1
  returned : (t.marks f).returned = 1
  removed : Key.spawned f ∉ t.rt.fibers
  delivered : (t.rt.threads f).run ∉ t.rt.cancelled → (t.marks f).delivered = 1

end Completions

/-! ## The maps of a dispatched fiber -/

namespace Life

variable {n : Nat} {v v' : Life} {e : Event}

theorem Step.cancelled_subset (h : v.Step n e v') : v.shared.cancelled ⊆ v'.shared.cancelled := by
  cases h with
  | shared h => exact h.cancelled_subset
  | _ => exact subset_rfl

/-- A fiber enters `rt.fibers` by its own `Spawn` call. -/
theorem Step.inFibers (h : v.Step n e v') (hin : v'.inFibers = true) :
    v.inFibers = true ∨ v.pc = .insert := by
  cases h with
  | insert h => exact .inr h
  | unschedule | rollback | remove | reapTake | resetFibers => cases hin
  | _ => exact .inl hin

end Life

namespace State

variable {c : Config} {s s' : State} {l : Label} {f : FiberID}

theorem step_epoch (h : step c s l = some s') (hstart : l = .lifecycle → s.lifecycle ≠ .startRun) :
    s'.epoch = s.epoch := by
  cases step_turn h with
  | work hl => exact (step_frame h hl).run.1
  | lifecycle h => exact (lifecycleStep_same h (hstart rfl)).1
  | call hs | begin _ _ hs | deadline _ hs | cancelCtx hs =>
    subst hs
    rfl

/-- `complete` takes the fiber out of `rt.fibers`. -/
theorem goStep_removed {drop : Finset FiberID} (h : s.goStep c f drop = some s')
    (hgo : (s.threads f).go = .remove) : Key.spawned f ∉ s'.fibers := by
  simp only [goStep, hgo] at h
  cases h
  simp [setGo, setThread]

theorem Sound.cancelled_subset (hs : s.Sound c) (h : Runtime.step c s l = some s') :
    s.cancelled ⊆ s'.cancelled :=
  (hs.step_life h 0).cancelled_subset

/-- Once it has been dispatched a fiber does not get back into `rt.fibers`. -/
theorem Sound.not_mem_fibers (hs : s.Sound c) (h : Runtime.step c s l = some s')
    (hgo : (s.threads f).go ≠ .absent) (hf : Key.spawned f ∉ s.fibers) :
    Key.spawned f ∉ s'.fibers := by
  intro hin
  rcases (hs.step_life h f).inFibers (decide_eq_true hin) with hold | hpc
  · exact hf (of_decide_eq_true hold)
  · exact hgo ((hs.life f).placed.go_absent_of_not_published (by rw [hpc]; rfl))

end State

/-! ## The books -/

namespace Completions

variable {c : Config} {t t' : Completions} {l : Label} {f : FiberID}

theorem record_rt (t : Completions) (s' : State) (l : Label) : (t.record s' l).rt = s' := by
  cases l <;> rfl

theorem step_rt (h : t.step c l = some t') :
    Runtime.step c t.rt l = some t'.rt ∧ t' = t.record t'.rt l := by
  obtain ⟨s', hs', rfl⟩ := Option.map_eq_some_iff.mp h
  rw [record_rt]
  exact ⟨hs', rfl⟩

/-- A step that is not of the goroutine of `f` enters nothing about it. -/
theorem record_of_ne (s' : State) (hgo : ∀ drop, l ≠ .go f drop) (hexit : l ≠ .goexit f) :
    (t.record s' l).marks f = t.marks f ∧ (f ∈ (t.record s' l).goexits ↔ f ∈ t.goexits) := by
  cases l with
  | go g drop =>
    have hne : f ≠ g := fun heq => hgo drop (by rw [heq])
    exact ⟨Function.update_of_ne hne .., Iff.rfl⟩
  | goexit g =>
    have hne : f ≠ g := fun heq => hexit (by rw [heq])
    exact ⟨rfl, by simp [record, hne]⟩
  | _ => exact ⟨rfl, Iff.rfl⟩

/-- What the goroutine of a fiber has done, by where it is. -/
def Kept (t : Completions) (f : FiberID) : Prop :=
  match (t.rt.threads f).go with
  | .absent | .run | .body => t.marks f = ⟨0, 0, 0⟩ ∧ f ∉ t.goexits
  | .recordCompleted | .markCompleted | .sweep _ | .remove =>
    t.marks f = ⟨1, 0, 0⟩ ∧ f ∉ t.goexits
  | .undo => t.marks f = ⟨1, 0, 0⟩ ∧ f ∉ t.goexits ∧ Key.spawned f ∉ t.rt.fibers
  | .send => t.marks f = ⟨1, 1, 0⟩ ∧ f ∉ t.goexits ∧ Key.spawned f ∉ t.rt.fibers
  | .ended =>
    t.marks f = ⟨0, 0, 0⟩ ∧ f ∈ t.goexits ∨
      (t.marks f = ⟨1, 1, 1⟩ ∨ t.marks f = ⟨1, 1, 0⟩ ∧ (t.rt.threads f).run ∈ t.rt.cancelled) ∧
        f ∉ t.goexits ∧ Key.spawned f ∉ t.rt.fibers

/-- The goroutine stays where it is. -/
theorem Kept.of_same (hk : t.Kept f) (hgo : (t'.rt.threads f).go = (t.rt.threads f).go)
    (hrun : (t'.rt.threads f).run = (t.rt.threads f).run) (hmarks : t'.marks f = t.marks f)
    (hexits : f ∈ t'.goexits ↔ f ∈ t.goexits) (hcancel : t.rt.cancelled ⊆ t'.rt.cancelled)
    (hfibers : (t.rt.threads f).go ≠ .absent → Key.spawned f ∉ t.rt.fibers →
      Key.spawned f ∉ t'.rt.fibers) : t'.Kept f := by
  unfold Kept at hk ⊢
  rw [hgo, hrun, hmarks, hexits]
  -- from `undo` on the fiber is out of `rt.fibers`, and has to stay out
  cases hpc : (t.rt.threads f).go with
  | absent | run | body | recordCompleted | markCompleted | sweep | remove =>
    simp only [hpc] at hk ⊢
    exact hk
  | undo | send =>
    simp only [hpc] at hk ⊢
    exact ⟨hk.1, hk.2.1, hfibers (by simp [hpc]) hk.2.2⟩
  | ended =>
    simp only [hpc] at hk ⊢
    refine hk.imp id fun ⟨hdone, hexit, hout⟩ => ⟨?_, hexit, hfibers (by simp [hpc]) hout⟩
    exact hdone.imp id fun ⟨hm, hc⟩ => ⟨hm, hcancel hc⟩

/-- It is its turn. -/
theorem Kept.go {drop : Finset FiberID} (hk : t.Kept f)
    (h : t.rt.goStep c f drop = some t'.rt) (hfibers : Key.spawned f ∉ t.rt.fibers →
      (t.rt.threads f).go ≠ .absent → Key.spawned f ∉ t'.rt.fibers)
    (hrec : t' = t.record t'.rt (.go f drop)) : t'.Kept f := by
  have hmarks : t'.marks f = (t.marks f).move (t.rt.threads f).go (t'.rt.threads f).go := by
    rw [hrec]
    exact Function.update_self ..
  have hexits : t'.goexits = t.goexits := by
    rw [hrec]
    rfl
  have hremoved := State.goStep_removed h
  have hnext := State.goStep_next h
  unfold Kept at hk ⊢
  generalize hgo : (t.rt.threads f).go = go at *
  generalize hgo' : (t'.rt.threads f).go = go' at *
  rw [hmarks, hexits]
  -- one mark for each of the three moves that `Marks.move` looks at
  cases hnext with
  | begin => exact hk
  | skip | ends => exact ⟨by rw [hk.1]; rfl, hk.2⟩
  | record => exact hk
  | mark hnext => rcases hnext with rfl | rfl <;> exact hk
  | sweep hnext => rcases hnext with rfl | rfl <;> exact hk
  | remove hnext =>
    rcases hnext with rfl | rfl
    · exact ⟨hk.1, hk.2, hremoved rfl⟩
    · exact ⟨by rw [hk.1]; rfl, hk.2, hremoved rfl⟩
  | undo => exact ⟨by rw [hk.1]; rfl, hk.2.1, hfibers hk.2.2 nofun⟩
  | send => exact .inr ⟨.inl (by rw [hk.1]; rfl), hk.2.1, hfibers hk.2.2 nofun⟩

/-- It sees its run cancelled and drops the result. -/
theorem Kept.discard (hk : t.Kept f) (h : t.rt.discardStep f = some t'.rt)
    (hrec : t' = t.record t'.rt (.discard f)) : t'.Kept f := by
  unfold State.discardStep at h
  split_ifs at h with hsend
  have hrt : t'.rt = t.rt.setGo f .ended := (Option.some.inj h).symm
  have hdone : (t.rt.threads f).run ∈ t.rt.cancelled := of_decide_eq_true hsend.2
  unfold Kept at hk ⊢
  simp only [hsend.1] at hk
  have hended : t'.rt.threads f = { t.rt.threads f with go := .ended } := by
    rw [hrt]
    exact Function.update_self ..
  have hbooks : t'.marks = t.marks ∧ t'.goexits = t.goexits := by
    rw [hrec]
    exact ⟨rfl, rfl⟩
  rw [hended, hbooks.1, hbooks.2, hrt]
  exact .inr ⟨.inr ⟨hk.1, hdone⟩, hk.2⟩

/-- It ends in `runtime.Goexit`. -/
theorem Kept.goexit (hk : t.Kept f) (h : t.rt.goexitStep f = some t'.rt)
    (hrec : t' = t.record t'.rt (.goexit f)) : t'.Kept f := by
  unfold State.goexitStep at h
  split_ifs at h with hbody
  have hrt : t'.rt = t.rt.setFiber f (t.rt.threads f).fiber.runEnd .ended :=
    (Option.some.inj h).symm
  unfold Kept at hk ⊢
  simp only [hbody] at hk
  have hended : (t'.rt.threads f).go = .ended := by
    rw [hrt]
    simp [State.setFiber, State.setThread]
  have hbooks : t'.marks = t.marks ∧ t'.goexits = insert f t.goexits := by
    rw [hrec]
    exact ⟨rfl, rfl⟩
  rw [hended, hbooks.1, hbooks.2]
  exact .inl ⟨hk.1, Finset.mem_insert_self ..⟩

theorem Kept.step (hk : t.Kept f) (hs : t.rt.Sound c) (h : t.step c l = some t') : t'.Kept f := by
  obtain ⟨hstep, hrec⟩ := step_rt h
  have hfibers := fun hgo hf => hs.not_mem_fibers (f := f) hstep hgo hf
  by_cases hturn : (∃ drop, l = .go f drop) ∨ l = .discard f ∨ l = .goexit f
  · rcases hturn with ⟨drop, rfl⟩ | rfl | rfl
    · exact hk.go hstep (fun hf hgo => hfibers hgo hf) hrec
    · exact hk.discard hstep hrec
    · exact hk.goexit hstep hrec
  · obtain ⟨hgo, -, hexit⟩ : (∀ drop, l ≠ .go f drop) ∧ l ≠ .discard f ∧ l ≠ .goexit f := by
      simpa using hturn
    obtain ⟨hmarks, hexits⟩ := record_of_ne (t := t) t'.rt hgo hexit
    rw [← hrec] at hmarks hexits
    -- another thread moves, or the loop launches the goroutine
    have hsame : ∀ {th : Thread}, t'.rt.threads f = th → th.go = (t.rt.threads f).go →
        th.run = (t.rt.threads f).run → t'.Kept f := by
      rintro th rfl hgo' hrun
      exact hk.of_same hgo' hrun hmarks hexits (hs.cancelled_subset hstep) hfibers
    cases State.step_moves hstep f with
    | rest ht | call _ ht | spawn _ _ ht | mark _ ht => exact hsame ht rfl rfl
    | body hl hbody ht => exact hsame ht hbody.symm rfl
    | launch hpc ht =>
      unfold Kept at hk ⊢
      rw [hs.go_absent_of_launching hpc] at hk
      rw [ht, hmarks, hexits]
      exact hk
    | go hl ht => exact absurd hl hturn

/-! ## Slots -/

theorem Kept.not_mem_goexits (hk : t.Kept f) (hgo : (t.rt.threads f).go ≠ .ended) :
    f ∉ t.goexits := by
  unfold Kept at hk
  cases hpc : (t.rt.threads f).go with
  | ended => exact absurd hpc hgo
  | undo | send =>
    simp only [hpc] at hk
    exact hk.2.1
  | _ =>
    simp only [hpc] at hk
    exact hk.2

/-- The run of a goroutine that has ended in `runtime.Goexit` stays. -/
theorem run_of_goexit (hk : t.Kept f) (hs : t.rt.Sound c) (hf : f ∈ t.goexits)
    (h : Runtime.step c t.rt l = some t'.rt) :
    (t'.rt.threads f).run = (t.rt.threads f).run := by
  cases State.step_moves h f with
  | rest ht | call _ ht | spawn _ _ ht | mark _ ht | body _ _ ht | go _ ht => rw [ht]
  | launch hpc =>
    exact absurd hf (hk.not_mem_goexits (by simp [hs.go_absent_of_launching hpc]))

/-- The books have the slots that the loop misses. -/
theorem leaked_step (hk : ∀ f, t.Kept f) (hs : t.rt.Sound c)
    (hruns : ∀ f, (t.rt.threads f).run ≤ t.rt.epoch) (h : t.step c l = some t') :
    t'.leaked = t.rt.leaked t.leaked l := by
  obtain ⟨hstep, hrec⟩ := step_rt h
  -- within a run the books grow by the `Goexit`s only
  have hfilter : t'.rt.epoch = t.rt.epoch →
      t.goexits.filter (fun f => (t'.rt.threads f).run = t'.rt.epoch)
        = t.goexits.filter (fun f => (t.rt.threads f).run = t.rt.epoch) := by
    intro hepoch
    refine Finset.filter_congr fun f hf => ?_
    rw [run_of_goexit (hk f) hs hf hstep, hepoch]
  have hsame : t'.goexits = t.goexits → t'.rt.epoch = t.rt.epoch → t'.leaked = t.leaked := by
    intro hexits hepoch
    rw [leaked, hexits, hfilter hepoch, leaked]
  cases l with
  | goexit f =>
    -- the goroutine was in its function, so it is new in the books
    have hexits : t'.goexits = insert f t.goexits := by
      rw [hrec]
      rfl
    have hepoch := State.step_epoch hstep (by simp)
    have hbody : (t.rt.threads f).go = .body := by
      generalize t'.rt = s' at hstep
      cases State.step_effect hstep with | goexit hbody => exact hbody
    have hnew : f ∉ t.goexits := (hk f).not_mem_goexits (by simp [hbody])
    have hrun : (t'.rt.threads f).run = (t.rt.threads f).run := by
      cases State.step_moves hstep f with
      | rest ht | body _ _ ht | go _ ht => rw [ht]
    rw [leaked, hexits, Finset.filter_insert, hfilter hepoch, hrun, hepoch, State.leaked]
    split_ifs
    · rw [Finset.card_insert_of_notMem (by simp [hnew])]
      rfl
    · rfl
  | lifecycle =>
    have hexits : t'.goexits = t.goexits := by
      rw [hrec]
      rfl
    rw [State.leaked]
    split_ifs with hstart
    · -- no goroutine belongs to the run that begins
      simp only [Runtime.step, State.lifecycleStep, hstart, Option.some.injEq] at hstep
      rw [leaked, Finset.card_eq_zero, Finset.filter_eq_empty_iff, ← hstep]
      intro f _ hrun
      have := hruns f
      dsimp only at hrun
      omega
    · exact hsame hexits (State.step_epoch hstep fun _ => hstart)
  | _ =>
    refine hsame ?_ (State.step_epoch hstep (by simp))
    rw [hrec]
    rfl

end Completions

/-! ## Runs -/

section

variable {c : Config} {s₀ : State} {t : Completions}

theorem completions_invariant (h₀ : Initial c s₀)
    (h : Reach (Completions.step c) anyStep (.init s₀) t) :
    (∀ f, t.Kept f) ∧ t.rt.Leaks c t.leaked := by
  have hall : t.rt.Sound c ∧ (∀ f, t.Kept f) ∧ t.rt.Leaks c t.leaked := by
    refine h.invariant (P := fun t => t.rt.Sound c ∧ (∀ f, t.Kept f) ∧ t.rt.Leaks c t.leaked)
      ⟨h₀.sound, fun f => ?_, h₀.leaks⟩ ?_
    · have habsent : (s₀.threads f).go = .absent := by
        rcases h₀ with rfl | rfl <;> rfl
      unfold Completions.Kept
      simp [Completions.init, habsent]
    · rintro t l t' ⟨hs, hk, hw⟩ - hst
      have hstep := (Completions.step_rt hst).1
      refine ⟨hs.step hstep, fun f => (hk f).step hs hst, ?_⟩
      rw [Completions.leaked_step hk hs hw.runs hst]
      exact hw.step hs hstep
  exact hall.2

/-- **Dispatched fibers are completed once, but for `runtime.Goexit`.** In every run, of the fibers
whose goroutine has ended those are completed, removed and reported to the loop whose function
did not end in `runtime.Goexit`; and while the current run is not cancelled the loop misses one
worker slot for each of the others. -/
theorem completed_once_iff (h₀ : Initial c s₀)
    (h : Reach (Completions.step c) anyStep (.init s₀) t) :
    (∀ f, (t.rt.threads f).go = .ended → (t.Settled f ↔ f ∉ t.goexits)) ∧
      (t.rt.done t.rt.epoch = false →
        t.rt.loop.active = t.rt.fiberWG t.rt.epoch + t.rt.results t.rt.epoch + t.leaked) := by
  obtain ⟨hk, hw⟩ := completions_invariant h₀ h
  refine ⟨fun f hended => ?_, hw.active⟩
  have hkept := hk f
  simp only [Completions.Kept, hended] at hkept
  rcases hkept with ⟨hmarks, hexit⟩ | ⟨hmarks, hexit, hout⟩
  · -- `Goexit`: `complete` was not entered
    refine iff_of_false (fun hs => ?_) (fun hnot => hnot hexit)
    have := hs.entered
    rw [hmarks] at this
    cases this
  · refine iff_of_true ?_ hexit
    rcases hmarks with hmarks | ⟨hmarks, hcancel⟩
    · exact ⟨by rw [hmarks], by rw [hmarks], hout, fun _ => by rw [hmarks]⟩
    · exact ⟨by rw [hmarks], by rw [hmarks], hout, fun hnot => absurd hcancel hnot⟩

end

/-- Fibers 0 and 1 have been dispatched; the function of fiber 0 has returned, that of fiber 1 has
ended in `runtime.Goexit`. -/
theorem completed_once_iff_goexit :
    ∃ t, Reach (Completions.step (.ofNewRuntime .fifo 2)) anyStep
        (.init (.new (.ofNewRuntime .fifo 2))) t
      ∧ t.Settled 0 ∧ ¬ t.Settled 1 ∧ t.leaked = 1
      ∧ t.rt.loop.active = t.rt.fiberWG t.rt.epoch + t.rt.results t.rt.epoch + t.leaked := by
  obtain ⟨t, ht, htest⟩ := exists_reach_of_exec (Completions.step (.ofNewRuntime .fifo 2))
    (.init (.new (.ofNewRuntime .fifo 2)))
    (List.flatten [Label.startTrace, [.call false 0, .call false 0], Label.spawnTrace 0 9,
      Label.spawnTrace 1 9, Label.dispatchTrace 0,
      [.loop .next, .loop (.look 0 (some 1)), .loop .next, .loop .next, .loop .next, .go 1 ∅],
      List.replicate 6 (.go 0 ∅), [.goexit 1]])
    (fun t => decide ((t.rt.threads 0).go = .ended ∧ (t.rt.threads 1).go = .ended
      ∧ 0 ∉ t.goexits ∧ 1 ∈ t.goexits ∧ t.rt.done t.rt.epoch = false ∧ t.leaked = 1))
    (by decide +kernel)
  obtain ⟨hended, hended', hnot, hexit, hctx, hleaked⟩ := of_decide_eq_true htest
  obtain ⟨hsettled, hslots⟩ := completed_once_iff (.inl rfl) ht
  exact ⟨t, ht, (hsettled 0 hended).mpr hnot, fun h => (hsettled 1 hended').mp h hexit, hleaked,
    hslots hctx⟩

/-- The function of the only fiber ends in `runtime.Goexit`: its goroutine is gone in a run that is
not cancelled, `complete` was never called, the fiber is still in `rt.fibers`, and its worker is
still taken although no result is on its way. -/
theorem goexit_never_completed :
    ∃ t, Reach (Completions.step (.ofNewRuntime .fifo 2)) anyStep
        (.init (.new (.ofNewRuntime .fifo 2))) t
      ∧ (t.rt.threads 0).go = .ended ∧ (t.rt.threads 0).run ∉ t.rt.cancelled
      ∧ (t.marks 0).entered = 0 ∧ Key.spawned 0 ∈ t.rt.fibers
      ∧ t.rt.loop.active = 1 ∧ t.rt.fiberWG t.rt.epoch = 0 ∧ t.rt.results t.rt.epoch = 0 := by
  obtain ⟨t, ht, htest⟩ := exists_reach_of_exec (Completions.step (.ofNewRuntime .fifo 2))
    (.init (.new (.ofNewRuntime .fifo 2)))
    (List.flatten [Label.startTrace, [.call false 0], Label.spawnTrace 0 9,
      Label.dispatchTrace 0, [.goexit 0]])
    (fun t => decide ((t.rt.threads 0).go = .ended ∧ (t.rt.threads 0).run ∉ t.rt.cancelled
      ∧ (t.marks 0).entered = 0 ∧ Key.spawned 0 ∈ t.rt.fibers
      ∧ t.rt.loop.active = 1 ∧ t.rt.fiberWG t.rt.epoch = 0 ∧ t.rt.results t.rt.epoch = 0))
    (by decide +kernel)
  exact ⟨t, ht, of_decide_eq_true htest⟩

end GreenThreads.Runtime
