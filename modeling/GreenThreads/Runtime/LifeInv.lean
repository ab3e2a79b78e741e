import GreenThreads.Runtime.Life

/-!
# GreenThreads — invariants of a fiber's life

Every statement here is about one `Life` and one `Life.Step`, and holds whatever the runtime
does: `Life.Sound` collects them. That a fiber is found in `rt.fibers`, or in a queue, is not
among them, since `Reset` and late commits can break it.
-/

namespace GreenThreads.Runtime

/-! ## The state of the run -/

namespace Shared

/-- No run: the last one, if there was one, is cancelled and its loop has returned. -/
def Down (r : Shared) : Prop :=
  r.stopped = true ∧ r.looping = false ∧ (0 < r.epoch → r.epoch ∈ r.cancelled)

/-- A run that admits fibers, unless its context is cancelled. -/
def Up (r : Shared) : Prop := r.stopped = false ∧ 0 < r.epoch ∧ r.draining = false

/-- What holds of the run at each place of the holder of `lifecycleMu`. -/
def Ok (r : Shared) : Prop :=
  match r.lifecycle with
  | .idle _ => r.Up ∨ r.Down
  | .startSched | .startFibers | .resetMain | .resetFibers | .clear .reset _
  | .resetMetrics => r.Down
  | .startRun => r.Down ∧ r.draining = false
  | .stopCancel => r.Up
  | .stopSched | .stopJoin _ => r.Up ∧ r.epoch ∈ r.cancelled
  | .clear (.stop _) _ | .reapScan _ => r.Up ∧ r.epoch ∈ r.cancelled ∧ r.looping = false
  | .reapUndo _ _ | .reapRecord _ _ _ | .join _ =>
    r.stopped = false ∧ 0 < r.epoch ∧ r.epoch ∈ r.cancelled ∧ r.looping = false

theorem Up.not_down {r : Shared} (h : r.Up) (hs : r.epoch = 0 ∨ r.stopped = true) : False := by
  obtain ⟨hrun, hepoch, -⟩ := h
  rcases hs with hs | hs
  · omega
  · rw [hrun] at hs
    cases hs

/-- That the loop is over, or that the run is cancelled, breaks nothing. -/
theorem Ok.weaken {r r' : Shared} (hr : r.Ok) (hlife : r'.lifecycle = r.lifecycle)
    (hepoch : r'.epoch = r.epoch) (hcancel : r.cancelled ⊆ r'.cancelled)
    (hdrain : r'.draining = r.draining) (hstop : r'.stopped = r.stopped)
    (hloop : r.looping = false → r'.looping = false) : r'.Ok := by
  have hin : r.epoch ∈ r.cancelled → r'.epoch ∈ r'.cancelled := fun h => hepoch ▸ hcancel h
  have hup : r.Up → r'.Up := by
    unfold Up
    rw [hstop, hepoch, hdrain]
    exact id
  have hdown : r.Down → r'.Down := by
    rintro ⟨hs, hl, hc⟩
    exact ⟨hstop.trans hs, hloop hl, fun h => hin (hc (hepoch ▸ h))⟩
  unfold Ok at hr ⊢
  rw [hlife]
  split at hr <;> grind

theorem Step.ok {n : Nat} {r r' : Shared} (h : r.Step n r') (hr : r.Ok) : r'.Ok := by
  cases h with
  | idle _ h => simp only [Ok, h] at hr ⊢; exact hr
  | startBegin h hs | resetBegin h hs =>
    -- the call has seen no run going
    simp only [Ok, h] at hr ⊢
    exact hr.resolve_left fun hup => hup.not_down hs
  | startFail _ h | resetMetrics _ h => simp only [Ok, h] at hr ⊢; exact .inr hr
  | startSched h | stopSched _ h | resetMain h | reapDone h | reapRecord h =>
    simp only [Ok, h] at hr ⊢
    exact hr
  | startRun _ h => simp only [Ok, h] at hr ⊢; exact .inl ⟨rfl, Nat.succ_pos _, hr.2⟩
  | stopBegin h he hs =>
    simp only [Ok, h] at hr ⊢
    refine hr.resolve_right fun hdown => ?_
    rw [hdown.1] at hs
    cases hs
  | stopCancel h => simp only [Ok, h] at hr ⊢; exact ⟨hr, Finset.mem_insert_self ..⟩
  | stopJoin h hl => simp only [Ok, h] at hr ⊢; exact ⟨hr.1, hr.2, hl⟩
  | @clearBase why w h hw =>
    cases why with
    | stop err | reset => simp only [Ok, h, State.afterClear] at hr ⊢; exact hr
  | joined _ h =>
    simp only [Ok, h] at hr ⊢
    exact .inr ⟨rfl, hr.2.2.2, fun _ => hr.2.2.1⟩
  | cancelCtx he => exact hr.weaken rfl rfl (Finset.subset_insert ..) rfl rfl id

end Shared

/-! ## Where a fiber is -/

namespace SpawnPc

/-- In `rt.fibers` and in no queue yet. -/
def inserted : SpawnPc → Bool
  | schedule | enqueue | unschedule => true
  | _ => false

/-- In a queue, and neither committed nor rolled back yet. -/
def undecided : SpawnPc → Bool
  | countScheduled | readCtx | recheck _ | commit _ => true
  | _ => false

def committed : SpawnPc → Bool
  | recordCreated | returned (.ok _) => true
  | _ => false

def rolledBack : SpawnPc → Bool
  | remove _ _ | rollbackUndo | returned (.error .stoppedDuringSpawn) => true
  | _ => false

/-- Inserted, and neither unscheduled nor rolled back. -/
def listed : SpawnPc → Bool
  | schedule | enqueue | unschedule | countScheduled | readCtx | recheck _ | commit _
  | recordCreated | returned (.ok _) => true
  | _ => false

/-- Past the first check. -/
def entered : SpawnPc → Bool
  | uncalled | check | returned _ => false
  | _ => true

/-- Not made yet, or returned. -/
def atRest : SpawnPc → Bool
  | uncalled | returned _ => true
  | _ => false

/-- Past the locked section of `Schedule`. -/
def published (pc : SpawnPc) : Bool := pc.undecided || pc.committed || pc.rolledBack

end SpawnPc

def Hand.count : Hand → Nat
  | .empty => 0
  | _ => 1

def GoPc.count : GoPc → Nat
  | .absent => 0
  | _ => 1

namespace Life

variable {n : Nat} {v v' : Life} {e : Event}

/-- The number of places the fiber is in: run queues, the hand of the loop, its goroutine. -/
def places (v : Life) : Nat := v.queuedAt.length + v.hand.count + v.go.count

/-- A step of a life takes the fiber into a new place only when `Schedule` puts it into a
queue. -/
theorem Step.places_le (h : v.Step n e v') :
    v'.places ≤ v.places
      ∨ v.pc = .enqueue ∧ v'.pc.published = true ∧ v'.places = v.places + 1 := by
  cases h with
  | enqueue h _ hpc =>
    refine .inr ⟨h, ?_, by simp [places]; omega⟩
    rcases hpc with rfl | rfl <;> rfl
  -- the queue shrinks
  | removeFound | markRemove =>
    left
    simp only [places, GoPc.count]
    grind [List.length_erase_le]
  | drop | clearWorker | clearOnly | sweep =>
    left
    simp only [places, GoPc.count]
    grind [List.length_filter_le]
  -- from the queue to the hand, from the hand to the goroutine
  | pop hl hh hw =>
    left
    have := List.length_pos_of_mem hw
    simp only [places, hh, Hand.count, List.length_erase_of_mem hw]
    omega
  | held h | mark h | notRunnable h | launch h =>
    left
    simp only [places, h, Hand.count, GoPc.count]
    omega
  | runBegin h | runSkip h | runEnd h | goexit h | recordCompleted h | undo h | send h =>
    left
    simp only [places, h, GoPc.count, le_refl]
  | markCompleted h hgo =>
    left
    rcases hgo with rfl | rfl <;> simp only [places, h, GoPc.count, le_refl]
  | remove h =>
    left
    cases v.inFibers <;> simp [places, h, GoPc.count]
  | _ => exact .inl le_rfl

/-- Once published, always published. -/
theorem Step.published (h : v.Step n e v') (hp : v.pc.published = true) :
    v'.pc.published = true := by
  cases h with
  | call h | checked h | notStarted h | reserve h | unreserve h | insert h | schedule h
  | enqueue h | unschedule h | unscheduleUndo h =>
    rw [h] at hp
    cases hp
  | countScheduled | readCtx | recheck | commit | rollback | removeNext | rollbackUndo
  | recordCreated => rfl
  | @removeFound _ present | @removeMissing _ present => cases present <;> rfl
  | _ => exact hp

/-- How far a rollback has got with the run queues: it has left no entry behind in those it has
passed. -/
def Scanned (pc : SpawnPc) (queuedAt : List Nat) : Prop :=
  match pc with
  | .remove w _ => ∀ w' ∈ queuedAt, w ≤ w'
  | .rollbackUndo | .returned (.error .stoppedDuringSpawn) => queuedAt = []
  | _ => True

theorem Scanned.mono {pc : SpawnPc} {q q' : List Nat} (h : Scanned pc q) (hsub : q' ⊆ q) :
    Scanned pc q' := by
  unfold Scanned at h ⊢
  split at h
  · exact fun w' hw' => h w' (hsub hw')
  · exact List.subset_nil.mp (h ▸ hsub)
  · exact List.subset_nil.mp (h ▸ hsub)
  · trivial

theorem scanned_rolledBack {present : Bool} {q : List Nat} (h : q = []) :
    Scanned (State.rolledBack present) q := by
  cases present <;> exact h

theorem nil_of_scanned {present : Bool} {q : List Nat}
    (h : Scanned (State.rolledBack present) q) : q = [] := by
  cases present <;> exact h

/-- The fiber is in at most one place, in none before it is published, and only in queues that
exist. -/
structure Placed (n : Nat) (v : Life) : Prop where
  one : v.places ≤ 1
  published : v.pc.published = false → v.places = 0
  queues : ∀ w ∈ v.queuedAt, w < n
  scanned : Scanned v.pc v.queuedAt
  looping : v.hand ≠ .empty → v.shared.looping = true

theorem Placed.length_le (h : v.Placed n) : v.queuedAt.length ≤ 1 := by
  have := h.one
  unfold places at this
  omega

theorem Step.queues (h : v.Step n e v') (hv : ∀ w ∈ v.queuedAt, w < n) :
    ∀ w ∈ v'.queuedAt, w < n := by
  cases h with
  | enqueue h hw =>
    intro w hmem
    rcases List.mem_append.mp hmem with hmem | hmem
    · exact hv w hmem
    · rwa [List.mem_singleton.mp hmem]
  | removeFound | markRemove | pop => exact fun w hmem => hv w (List.mem_of_mem_erase hmem)
  | drop | clearWorker | clearOnly | sweep =>
    exact fun w hmem => hv w (List.mem_of_mem_filter hmem)
  | _ => exact hv

theorem Step.scanned (h : v.Step n e v') (hv : v.Placed n) : Scanned v'.pc v'.queuedAt := by
  have hs := hv.scanned
  cases h with
  | rollback => exact fun _ _ => Nat.zero_le _
  | removeFound h hw =>
    refine scanned_rolledBack (List.eq_nil_of_length_eq_zero ?_)
    have := hv.length_le
    rw [List.length_erase_of_mem hw]
    omega
  | @removeNext w _ h hw =>
    rw [h] at hs
    intro w' hw'
    have := hs w' hw'
    have hne : w' ≠ w := fun heq => hw (heq ▸ hw')
    omega
  | @removeMissing w _ h hw hn =>
    -- the entry would be in a queue past the last one
    rw [h] at hs
    refine scanned_rolledBack (List.eq_nil_iff_forall_not_mem.mpr fun w' hw' => ?_)
    have := hs w' hw'
    have := hv.queues w' hw'
    have hne : w' ≠ w := fun heq => hw (heq ▸ hw')
    omega
  | rollbackUndo h => rw [h] at hs; exact hs
  | call _ hpc => rcases hpc with rfl | rfl | rfl <;> trivial
  | reserve _ hpc | schedule _ hpc => rcases hpc with rfl | rfl <;> trivial
  | enqueue _ _ hpc => rcases hpc with rfl | rfl <;> trivial
  | markRemove | pop => exact hs.mono (List.erase_subset ..)
  | drop | clearWorker | clearOnly | sweep => exact hs.mono List.filter_sublist.subset
  | checked | notStarted | unreserve | insert | countScheduled | unschedule | unscheduleUndo
  | readCtx | recheck | commit | recordCreated => trivial
  | _ => exact hs

theorem Step.looping (h : v.Step n e v') (hv : v.hand ≠ .empty → v.shared.looping = true) :
    v'.hand ≠ .empty → v'.shared.looping = true := by
  cases h with
  | shared h =>
    intro hh
    have := hv hh
    cases h <;> first | exact this | rfl
  | pop hl => exact fun _ => hl
  | held h | mark h => exact fun _ => hv (by simp [h])
  | notRunnable | launch => exact fun hh => absurd rfl hh
  | loopExit h => exact fun hh => absurd h hh
  | _ => exact hv

theorem Step.placed (h : v.Step n e v') (hv : v.Placed n) : v'.Placed n where
  one := by
    rcases h.places_le with hle | ⟨hpc, -, hsucc⟩
    · exact hle.trans hv.one
    · rw [hsucc, hv.published (by rw [hpc]; rfl)]
  published := by
    intro hpub
    rcases h.places_le with hle | ⟨-, htrue, -⟩
    · have h0 := hv.published (Bool.eq_false_iff.mpr fun hp => by simp [h.published hp] at hpub)
      omega
    · rw [hpub] at htrue
      cases htrue
  queues := h.queues hv.queues
  scanned := h.scanned hv
  looping := h.looping hv.looping

theorem Placed.queue_nil (h : v.Placed n) (hpub : v.pc.published = false) : v.queuedAt = [] := by
  have := h.published hpub
  unfold places at this
  exact List.eq_nil_of_length_eq_zero (by omega)

theorem Placed.go_absent_of_not_published (h : v.Placed n) (hpub : v.pc.published = false) :
    v.go = .absent := by
  have := h.published hpub
  unfold places GoPc.count at this
  split at this <;> simp_all

/-- A fiber in the hand of the loop, or in a queue, has no goroutine yet. -/
theorem Placed.go_absent (h : v.Placed n) (hh : v.hand ≠ .empty ∨ v.queuedAt ≠ []) :
    v.go = .absent := by
  have hone := h.one
  unfold places Hand.count GoPc.count at hone
  split at hone <;> split at hone <;> simp_all

/-! ## The state of the fiber -/

/-- The fiber's own state, told from where it is. -/
def FiberOk (v : Life) : Prop :=
  match v.go with
  | .absent =>
    if v.hand = .launching then
      v.fiber.state = .running ∧ v.fiber.runStarted = false ∧ v.fiber.completion = false
    else v.fiber.state = .ready ∧ v.fiber.runStarted = false ∧ v.fiber.completion = false
  | .run => v.fiber.state = .running ∧ v.fiber.runStarted = false ∧ v.fiber.completion = false
  | .body =>
    (v.fiber.state = .running ∨ v.fiber.state = .blocked) ∧ v.fiber.runStarted = true
      ∧ v.fiber.completion = false
  | _ => v.fiber.state = .finished

theorem Step.fiberOk (h : v.Step n e v') (hv : v.Placed n) (hf : v.FiberOk) : v'.FiberOk := by
  cases h with
  | pop hl hh => simpa [FiberOk, hh] using hf
  | held h => simpa [FiberOk, h] using hf
  | notRunnable h => simpa [FiberOk, h] using hf
  | mark h =>
    -- a fiber in the hand has not completed, so `MarkScheduled` takes effect
    have hgo := hv.go_absent (.inl (by simp [h]))
    simp only [FiberOk, hgo, h, reduceCtorEq, if_false, if_true] at hf ⊢
    simp [Fiber.markScheduled, hf]
  | launch h =>
    have hgo := hv.go_absent (.inl (by simp [h]))
    simpa [FiberOk, hgo, h] using hf
  | runBegin h hb =>
    simp only [FiberOk, h] at hf
    simp only [Fiber.runBegin, hf.2.1, hf.2.2, Bool.or_self, Bool.false_eq_true, if_false,
      Option.some.injEq] at hb
    subst hb
    exact ⟨.inl rfl, rfl, rfl⟩
  | runSkip h hb =>
    -- the function of a fiber in this place has not been started
    simp only [FiberOk, h] at hf
    simp [Fiber.runBegin, hf] at hb
  | runEnd | goexit => rfl
  | block h =>
    simp only [FiberOk, h] at hf ⊢
    simp [Fiber.block, hf]
  | unblock h =>
    simp only [FiberOk, h] at hf ⊢
    simp [Fiber.unblock, hf]
  | recordCompleted h | undo h | send h => simpa [FiberOk, h] using hf
  | markCompleted h hgo => rcases hgo with rfl | rfl <;> simpa [FiberOk, h] using hf
  | markRemove h => simpa [FiberOk, h] using hf
  | sweep h hgo => rcases hgo with rfl | rfl <;> simpa [FiberOk, h] using hf
  | remove h => cases hin : v.inFibers <;> simpa [FiberOk, h, hin] using hf
  | _ => exact hf

/-- A fiber is ready until the loop marks it. -/
theorem FiberOk.runnable (h : v.FiberOk) (hr : v.fiber.isRunnable = true) :
    v.go = .absent ∧ v.hand ≠ .launching := by
  simp only [Fiber.isRunnable, beq_iff_eq] at hr
  unfold FiberOk at h
  split at h <;> simp_all

theorem FiberOk.isRunnable (h : v.FiberOk) (hgo : v.go = .absent) (hh : v.hand ≠ .launching) :
    v.fiber.isRunnable = true := by
  simp only [FiberOk, hgo, hh, if_false] at h
  simp [Fiber.isRunnable, h.1]

theorem FiberOk.not_finished (h : v.FiberOk) (hgo : v.go = .absent) :
    v.fiber.isFinished = false := by
  simp only [FiberOk, hgo] at h
  split_ifs at h <;> simp [Fiber.isFinished, h.1]

/-- Before its goroutine is there, the fiber function has not been called. -/
theorem FiberOk.not_started (h : v.FiberOk) (hgo : v.go = .absent) :
    v.fiber.runStarted = false := by
  simp only [FiberOk, hgo] at h
  split_ifs at h <;> exact h.2.1

/-! ## The maps of the runtime -/

/-- What is in `rt.fibers` has been inserted and not rolled back; what is in `rt.admitted` has
been committed; and past its first check a `Spawn` call has seen a run. -/
structure Listed (v : Life) : Prop where
  inFibers : v.inFibers = true → v.pc.listed = true
  admitted : v.admitted = true → v.pc.committed = true
  epoch : v.pc.entered = true → 0 < v.shared.epoch

theorem Step.epoch_le (h : v.Step n e v') : v.shared.epoch ≤ v'.shared.epoch := by
  cases h with
  | shared h => cases h <;> simp
  | _ => exact le_rfl

theorem Step.listed_inFibers (h : v.Step n e v')
    (hin : v.inFibers = true → v.pc.listed = true) :
    v'.inFibers = true → v'.pc.listed = true := by
  cases h with
  | insert | countScheduled | readCtx | recheck | commit | recordCreated => exact fun _ => rfl
  | schedule _ hpc | enqueue _ _ hpc => rcases hpc with rfl | rfl <;> exact fun _ => rfl
  | unschedule | rollback | remove | reapTake | resetFibers => exact nofun
  | call h | checked h | notStarted h | reserve h | unreserve h | unscheduleUndo h
  | removeFound h | removeNext h | removeMissing h | rollbackUndo h =>
    intro hf
    have := hin hf
    rw [h] at this
    cases this
  | _ => exact hin

theorem Step.listed_admitted (h : v.Step n e v')
    (hadm : v.admitted = true → v.pc.committed = true) :
    v'.admitted = true → v'.pc.committed = true := by
  cases h with
  | commit | recordCreated => exact fun _ => rfl
  | rollback | remove | reapTake | resetFibers => exact nofun
  | call h | checked h | notStarted h | reserve h | unreserve h | insert h | schedule h
  | enqueue h | countScheduled h | unschedule h | unscheduleUndo h | readCtx h | recheck h
  | removeFound h | removeNext h | removeMissing h | rollbackUndo h =>
    intro ha
    have := hadm ha
    rw [h] at this
    cases this
  | _ => exact hadm

theorem Step.listed_epoch (h : v.Step n e v') (hepoch : v.pc.entered = true → 0 < v.shared.epoch)
    (hent : v'.pc.entered = true) : 0 < v'.shared.epoch := by
  refine (?_ : 0 < v.shared.epoch).trans_le h.epoch_le
  cases h with
  | checked _ he => exact he
  | call _ hpc => rcases hpc with rfl | rfl | rfl <;> cases hent
  | notStarted | unreserve | unscheduleUndo | rollbackUndo | recordCreated => cases hent
  | reserve h | insert h | schedule h | enqueue h | countScheduled h | unschedule h | readCtx h
  | recheck h | commit h | rollback h | removeFound h | removeNext h | removeMissing h =>
    exact hepoch (by rw [h]; rfl)
  | _ => exact hepoch hent

theorem Step.listed (h : v.Step n e v') (hv : v.Listed) : v'.Listed :=
  ⟨h.listed_inFibers hv.inFibers, h.listed_admitted hv.admitted, h.listed_epoch hv.epoch⟩

end Life

/-! ## Entries that outlast a `Clear`

A `Spawn` call may put its fiber into a queue that a `Stop` has already cleared. Its second
look at the run then finds the context cancelled, as long as no new run has begun: the entry
is bound to be rolled back. -/

/-- A `Stop` has cleared the queue of worker `w`, and no run has begun since. -/
def Shared.Swept (r : Shared) (w : Nat) : Prop :=
  r.stopped = true ∨
    match r.lifecycle with
    | .clear (.stop _) w' => w < w'
    | .reapScan _ | .reapUndo _ _ | .reapRecord _ _ _ | .join _ => True
    | _ => False

/-- The call rolls back unless a new run begins; `cancelled` are the runs whose context is
done. -/
def SpawnPc.Doomed (cancelled : Finset Nat) : SpawnPc → Prop
  | .countScheduled | .readCtx | .remove _ _ => True
  | .recheck runCtx => runCtx.any (fun k => decide (k ∈ cancelled)) = true
  | .commit stopping => stopping = true
  | _ => False

theorem SpawnPc.Doomed.mono {pc : SpawnPc} {cancelled cancelled' : Finset Nat}
    (h : pc.Doomed cancelled) (hsub : cancelled ⊆ cancelled') : pc.Doomed cancelled' := by
  cases pc with
  | recheck runCtx =>
    cases runCtx with
    | none => cases h
    | some k =>
      simp only [Doomed, Option.any_some, decide_eq_true_eq] at h ⊢
      exact hsub h
  | _ => exact h

theorem SpawnPc.Doomed.not_committed {pc : SpawnPc} {cancelled : Finset Nat}
    (h : pc.Doomed cancelled) : pc.committed = false := by
  cases pc with
  | recordCreated | returned => cases h
  | _ => rfl

namespace Shared

variable {n w : Nat} {r r' : Shared}

theorem Step.cancelled_subset (h : r.Step n r') : r.cancelled ⊆ r'.cancelled := by
  cases h with
  | stopCancel | cancelCtx => exact Finset.subset_insert ..
  | _ => exact subset_rfl

/-- Where a queue has been swept the run is cancelled. -/
theorem Ok.cancelled_of_swept (hr : r.Ok) (hs : r.Swept w) (he : 0 < r.epoch) :
    r.epoch ∈ r.cancelled := by
  unfold Ok at hr
  unfold Swept at hs
  split at hr <;> simp_all [Up, Down]

/-- Where a queue has been swept no loop is running. -/
theorem Ok.not_looping (hr : r.Ok) (hs : r.Swept w) : r.looping = false := by
  unfold Ok at hr
  unfold Swept at hs
  split at hr <;> simp_all [Up, Down]

/-- Only `Stop` sweeps, and it sweeps queue by queue. -/
theorem Step.swept_of (h : r.Step n r') (hw : w < n) (hs : r'.Swept w) : r.Swept w := by
  cases h with
  | cancelCtx => exact hs
  | @clearBase why w' h hn =>
    cases why with
    | stop err => exact .inr (by rw [h]; exact Nat.lt_of_lt_of_le hw hn)
    | reset => simpa only [Swept, h, State.afterClear] using hs
  | joined _ h => exact .inr (by rw [h]; trivial)
  | startRun _ h => simp [Swept] at hs
  | stopJoin h =>
    refine .inl (hs.resolve_right fun hlt => ?_)
    exact Nat.not_lt_zero _ hlt
  | idle _ h | startBegin h | startFail _ h | startSched h | stopBegin h
  | stopCancel h | stopSched _ h | reapDone h | reapRecord h | resetBegin h | resetMain h
  | resetMetrics _ h => simpa only [Swept, h] using hs

end Shared

namespace Life

variable {n : Nat} {v v' : Life} {e : Event}

/-- An entry in a swept queue is of a call that rolls back unless a new run begins. -/
def Swept (v : Life) : Prop :=
  ∀ w ∈ v.queuedAt, v.shared.Swept w → v.pc.Doomed v.shared.cancelled

theorem Step.shared_ok (h : v.Step n e v') (hr : v.shared.Ok) : v'.shared.Ok := by
  cases h with
  | shared h => exact h.ok hr
  | loopExit => exact hr.weaken rfl rfl subset_rfl rfl rfl fun _ => rfl
  | startFibers h => simp only [Shared.Ok, h] at hr ⊢; exact ⟨hr, trivial⟩
  | @clearWorker why w h => cases why <;> simp only [Shared.Ok, h] at hr ⊢ <;> exact hr
  | @clearOnly why w h =>
    cases why <;> simp only [Shared.Ok, h, State.afterClear] at hr ⊢ <;> exact hr
  | reapTake _ h | reapLeave _ h =>
    simp only [Shared.Ok, h] at hr ⊢
    exact ⟨hr.1.1, hr.1.2.1, hr.2⟩
  | reapUndo h | reapUndoOther h | resetFibers h => simp only [Shared.Ok, h] at hr ⊢; exact hr
  | _ => exact hr

theorem Step.swept (h : v.Step n e v') (hr : v.shared.Ok) (hp : v.Placed n) (hl : v.Listed)
    (hv : v.Swept) : v'.Swept := by
  have hp' := h.placed hp
  cases h with
  | shared h =>
    intro w hw hs
    exact (hv w hw (h.swept_of (hp.queues w hw) hs)).mono h.cancelled_subset
  | enqueue _ _ hpc => rcases hpc with rfl | rfl <;> exact fun _ _ _ => trivial
  | countScheduled | rollback | removeNext => exact fun _ _ _ => trivial
  | readCtx h =>
    -- no run has begun since the sweep, so the context read is that of the run stopped
    intro w hw hs
    have hepoch := hl.epoch (by rw [h]; rfl)
    have hmem := hr.cancelled_of_swept hs hepoch
    simp [SpawnPc.Doomed, hepoch.ne', hmem]
  | recheck h =>
    intro w hw hs
    have hdoom := hv w hw hs
    rw [h] at hdoom
    exact hdoom
  | commit h | recordCreated h =>
    -- such a call would not have seen the run cancelled
    intro w hw hs
    have hdoom := hv w hw hs
    rw [h] at hdoom
    cases hdoom
  | removeFound | removeMissing =>
    intro w hw
    rw [nil_of_scanned hp'.scanned] at hw
    cases hw
  | rollbackUndo =>
    intro w hw
    rw [show v.queuedAt = [] from hp'.scanned] at hw
    cases hw
  | call h | checked h | notStarted h | reserve h | unreserve h | insert h | schedule h
  | unschedule h | unscheduleUndo h =>
    intro w hw
    rw [hp.queue_nil (by rw [h]; rfl)] at hw
    cases hw
  | pop | markRemove => exact fun w hw => hv w (List.mem_of_mem_erase hw)
  | drop | sweep => exact fun w hw => hv w (List.mem_of_mem_filter hw)
  | @clearWorker why w₀ h =>
    intro w hw hs
    obtain ⟨hmem, hne⟩ := List.mem_filter.mp hw
    refine hv w hmem ?_
    unfold Shared.Swept at hs ⊢
    rw [h]
    cases why with
    | stop err =>
      refine hs.imp_right fun hlt => ?_
      have hne : w ≠ w₀ := by simpa using hne
      exact Nat.lt_of_le_of_ne (Nat.lt_succ_iff.mp hlt) hne
    | reset => exact hs
  | clearOnly _ hn =>
    intro w hw
    obtain ⟨hmem, hne⟩ := List.mem_filter.mp hw
    have hlt := hp.queues w hmem
    have hne : w ≠ 0 := by simpa using hne
    omega
  | reapTake _ h | reapLeave _ h => exact fun w hw _ => hv w hw (.inr (by rw [h]; trivial))
  | reapUndo h | reapUndoOther h => exact fun w hw _ => hv w hw (.inr (by rw [h]; trivial))
  | startFibers h | resetFibers h =>
    simp only [Shared.Ok, h] at hr
    exact fun w hw _ => hv w hw (.inl hr.1)
  | _ => exact hv

/-! ## Fibers that have been reaped -/

/-- A fiber nothing is left of but the answer to its `Spawn` call. -/
structure Gone (v : Life) : Prop where
  committed : v.pc.committed = true
  inFibers : v.inFibers = false
  queuedAt : v.queuedAt = []
  hand : v.hand = .empty
  go : v.go = .absent

/-- What is gone stays gone. -/
theorem Step.gone (h : v.Step n e v') (hv : v.Gone) : v'.Gone := by
  obtain ⟨hc, hf, hq, hh, hg⟩ := hv
  cases h with
  | call h | checked h | notStarted h | reserve h | unreserve h | insert h | schedule h
  | enqueue h | countScheduled h | unschedule h | unscheduleUndo h | readCtx h | recheck h
  | commit h | rollback h | removeFound h | removeNext h | removeMissing h | rollbackUndo h =>
    rw [h] at hc
    cases hc
  | pop _ _ hw => rw [hq] at hw; cases hw
  | held h | notRunnable h | mark h | launch h => rw [hh] at h; cases h
  | runBegin h | runSkip h | runEnd h | goexit h | block h | unblock h | recordCompleted h
  | markCompleted h | markRemove h | sweep h | remove h | undo h | send h =>
    rw [hg] at h
    cases h
  | recordCreated => exact ⟨rfl, hf, hq, hh, hg⟩
  | drop | clearWorker | clearOnly => exact ⟨hc, hf, by rw [hq]; rfl, hh, hg⟩
  | reapTake _ _ h => rw [hf] at h; cases h
  | resetFibers => exact ⟨hc, rfl, hq, hh, hg⟩
  | _ => exact ⟨hc, hf, hq, hh, hg⟩

/-- A reaped fiber is gone, and at most one decrement is owed for it. -/
structure Reaped (v : Life) : Prop where
  gone : v.reaped = true → v.Gone
  owed : 0 < v.reaping → v.reaped = true
  once : v.reaping ≤ 1

theorem Step.reaped (h : v.Step n e v') (hr : v.shared.Ok) (hp : v.Placed n) (hf : v.FiberOk)
    (hl : v.Listed) (hs : v.Swept) (hv : v.Reaped) : v'.Reaped := by
  have hgone := h.gone
  obtain ⟨hreaped, howed, honce⟩ := hv
  cases h with
  | reapTake _ h hin hadm hrun =>
    refine ⟨fun _ => ?_, fun _ => rfl, le_rfl⟩
    have hswept : ∀ w, v.shared.Swept w := fun w => .inr (by rw [h]; trivial)
    have hcommitted := hl.admitted hadm
    obtain ⟨hgo, -⟩ := hf.runnable hrun
    refine ⟨hcommitted, rfl, ?_, ?_, hgo⟩
    · -- an entry would be of a call bound to roll back
      refine List.eq_nil_iff_forall_not_mem.mpr fun w hw => ?_
      have := (hs w hw (hswept w)).not_committed
      rw [hcommitted] at this
      cases this
    · -- and the loop has returned
      by_contra hhand
      have hlooping := hp.looping hhand
      rw [hr.not_looping (hswept 0)] at hlooping
      cases hlooping
  | reapUndo =>
    exact ⟨fun hr => hgone (hreaped hr), fun h0 => howed (by dsimp only at h0; omega),
      (Nat.sub_le ..).trans honce⟩
  | _ => exact ⟨fun hr => hgone (hreaped hr), howed, honce⟩

/-! ## All of it -/

/-- What holds of every life. -/
structure Sound (n : Nat) (v : Life) : Prop where
  shared : v.shared.Ok
  placed : v.Placed n
  fiber : v.FiberOk
  listed : v.Listed
  swept : v.Swept
  reaped : v.Reaped

theorem Step.sound (h : v.Step n e v') (hv : v.Sound n) : v'.Sound n where
  shared := h.shared_ok hv.shared
  placed := h.placed hv.placed
  fiber := h.fiberOk hv.placed hv.fiber
  listed := h.listed hv.listed
  swept := h.swept hv.shared hv.placed hv.listed hv.swept
  reaped := h.reaped hv.shared hv.placed hv.fiber hv.listed hv.swept hv.reaped

/-- A call not yet made stays where it is until it is made, a call that has returned for good. -/
theorem Step.pc_of_atRest (h : v.Step n e v') (he : e = .call → v.pc ≠ .uncalled)
    (hv : v.pc.atRest = true) : v'.pc = v.pc := by
  cases h with
  | call h => exact absurd h (he rfl)
  | checked h | notStarted h | reserve h | unreserve h | insert h | schedule h | enqueue h
  | countScheduled h | unschedule h | unscheduleUndo h | readCtx h | recheck h | commit h
  | rollback h | removeFound h | removeNext h | removeMissing h | rollbackUndo h
  | recordCreated h =>
    rw [h] at hv
    cases hv
  | _ => rfl

end Life

end GreenThreads.Runtime
