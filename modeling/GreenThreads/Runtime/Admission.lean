import GreenThreads.Runtime.Accounting

/-!
# GreenThreads — what becomes of a fiber whose `Spawn` call has returned

`Spawn` publishes its fiber to the scheduler first and decides about it afterwards, under
`fibersMu`: it commits, or it rolls back because a `Stop` has come in between. The decision
looks at the run that is current when it is made. So two things can go wrong:

* a `Stop` clears the queue while the call is undecided, and the next `Start` opens the drain
  gate again: the call commits a fiber that is in no queue;
* the loop takes the fiber out of the queue while the call is undecided, or while its rollback
  is between `rt.fibers` and the queue: the function of a fiber runs whose `Spawn` call returns
  an error.

Where neither happens a fiber that is committed is never lost, and one that is rolled back
never runs.
-/

namespace GreenThreads.Runtime

open Trans

/-! ## Fibers that have lost their place -/

/-- `reapPending` has not made its scan yet. -/
def Lifecycle.inReap : Lifecycle → Bool
  | clear (.stop _) _ | reapScan _ => true
  | _ => false

theorem State.afterClear_ne_startRun (why : Clearing) : State.afterClear why ≠ .startRun := by
  cases why <;> simp [State.afterClear]

theorem SpawnPc.not_rolledBack {pc : SpawnPc} (h : pc.undecided = true) :
    pc.rolledBack = false := by
  cases pc with
  | countScheduled | readCtx | recheck | commit => rfl
  | _ => cases h

theorem SpawnPc.not_rolledBack_of_committed {pc : SpawnPc} (h : pc.committed = true) :
    pc.rolledBack = false := by
  unfold committed at h
  split at h <;> first | rfl | cases h

namespace Life

variable {n : Nat} {v v' : Life} {e : Event}

theorem places_eq_zero :
    v.places = 0 ↔ v.queuedAt = [] ∧ v.hand = .empty ∧ v.go = .absent := by
  have hhand : v.hand.count = 0 ↔ v.hand = .empty := by cases v.hand <;> simp [Hand.count]
  have hgo : v.go.count = 0 ↔ v.go = .absent := by cases v.go <;> simp [GoPc.count]
  unfold places
  rw [← hhand, ← hgo, ← List.length_eq_zero_iff]
  omega

/-- A `Spawn` call is still to decide about the fiber, and a `Clear` has thrown the fiber out of
its queue. -/
def Stranded (v : Life) : Prop := v.pc.undecided = true ∧ v.places = 0

instance (v : Life) : Decidable v.Stranded := inferInstanceAs (Decidable (_ ∧ _))

/-- A fiber that is not rolled back loses its place to a `Clear` and to nothing else. -/
theorem Step.emptied (h : v.Step n e v') (hs : v.Sound n) (hpc : v'.pc.rolledBack = false)
    (h0 : v'.places = 0) :
    v.places = 0 ∨ v'.pc = v.pc ∧ v.queuedAt ≠ [] ∧ v'.shared.cancelled = v.shared.cancelled
      ∧ v'.shared.stopped = v.shared.stopped ∧ ∃ why w, v.shared.lifecycle = .clear why w
        ∧ (v'.shared.lifecycle = .clear why (w + 1)
          ∨ v'.shared.lifecycle = State.afterClear why) := by
  obtain ⟨hq, hh, hg⟩ := places_eq_zero.mp h0
  cases h with
  | enqueue => simp at hq
  | @removeFound w present => cases present <;> cases hpc
  | @clearWorker why w h hw =>
    by_cases hnil : v.queuedAt = []
    · exact .inl (places_eq_zero.mpr ⟨hnil, hh, hg⟩)
    · exact .inr ⟨rfl, hnil, rfl, rfl, why, w, h, .inl rfl⟩
  | @clearOnly why w h hn =>
    by_cases hnil : v.queuedAt = []
    · exact .inl (places_eq_zero.mpr ⟨hnil, hh, hg⟩)
    · exact .inr ⟨rfl, hnil, rfl, rfl, why, w, h, .inr rfl⟩
  -- the loop drops what is finished and passes over what is not ready
  | drop h =>
    rw [hs.fiber.not_finished hg] at h
    cases h
  | notRunnable h hr =>
    rw [hs.fiber.isRunnable hg (by simp [h])] at hr
    cases hr
  | pop => cases hh
  | held | mark => cases hh
  | launch | runBegin | runSkip | runEnd | goexit | recordCompleted | markRemove | undo | send =>
    cases hg
  | markCompleted _ hgo | sweep _ hgo => rcases hgo with rfl | rfl <;> cases hg
  | remove => cases hin : v.inFibers <;> simp [hin] at hg
  | _ => exact .inl h0

end Life

/-- A call at `pc` will not commit a stranded fiber, except where the reap will find it: the
drain gate is closed, or the call is bound to see the run cancelled. -/
def Shared.Gate (r : Shared) (pc : SpawnPc) : Prop :=
  r.lifecycle.inReap = true ∨ r.draining = true ∨
    r.stopped = true ∧ r.lifecycle ≠ .startRun ∧ pc.Doomed r.cancelled

namespace Shared

variable {n : Nat} {r r' : Shared} {pc : SpawnPc}

theorem Step.inReap (h : r.Step n r') (hr : r.lifecycle.inReap = true) :
    r'.lifecycle.inReap = true := by
  cases h with
  | cancelCtx => exact hr
  | @clearBase why w h =>
    cases why with
    | stop err => rfl
    | reset => rw [h] at hr; cases hr
  | idle _ h | startBegin h | startFail _ h | startSched h | startRun _ h | stopBegin h
  | stopCancel h | stopSched _ h | stopJoin h | reapDone h | reapRecord h | joined _ h
  | resetBegin h | resetMain h | resetMetrics _ h =>
    rw [h] at hr
    cases hr

/-- Of the steps of the run only those that open the drain gate open it. -/
theorem Step.gate (h : r.Step n r') (hr : r.Gate pc) : r'.Gate pc := by
  rcases hr with hreap | hdrain | ⟨hstop, hne, hdoom⟩
  · exact .inl (h.inReap hreap)
  · refine .inr (.inl ?_)
    cases h <;> exact hdrain
  · refine .inr (.inr ⟨?_, ?_, hdoom.mono h.cancelled_subset⟩)
    · cases h with
      | startRun _ h => exact absurd h hne
      | joined => rfl
      | _ => exact hstop
    · cases h with
      | cancelCtx => exact hne
      | @clearBase why => exact State.afterClear_ne_startRun why
      | _ => simp

/-- The gate while the call goes on to its decision. -/
theorem Gate.advance {pc' : SpawnPc} (hr : r.Gate pc)
    (hdoom : r.stopped = true → pc.Doomed r.cancelled → pc'.Doomed r.cancelled) : r.Gate pc' :=
  hr.imp_right fun h => h.imp_right fun ⟨hstop, hne, hd⟩ => ⟨hstop, hne, hdoom hstop hd⟩

/-- The gate while the reap or a `Reset` goes on. -/
theorem Gate.of_lifecycle {l : Lifecycle} (hr : r.Gate pc)
    (hreap : r.lifecycle.inReap = true → l.inReap = true) (hne : l ≠ .startRun) :
    Gate { r with lifecycle := l } pc :=
  hr.imp hreap fun h => h.imp_right fun ⟨hstop, _, hdoom⟩ => ⟨hstop, hne, hdoom⟩

end Shared

namespace Life

variable {n : Nat} {v v' : Life} {e : Event}

def Gated (v : Life) : Prop := v.Stranded → v.shared.Gate v.pc

/-- A `Clear` of `Stop` belongs to the reap; at a `Clear` of `Reset` the run is over, and what
is in a queue is of calls that will see it cancelled. -/
theorem Gated.of_cleared (hs : v.Sound n) (hpc : v'.pc = v.pc) (hq : v.queuedAt ≠ [])
    (hcancel : v'.shared.cancelled = v.shared.cancelled)
    (hstop : v'.shared.stopped = v.shared.stopped) {why : Clearing} {w : Nat}
    (h : v.shared.lifecycle = .clear why w)
    (h' : v'.shared.lifecycle = .clear why (w + 1)
      ∨ v'.shared.lifecycle = State.afterClear why) :
    v'.shared.lifecycle.inReap = true ∨ v'.pc.Doomed v'.shared.cancelled
      ∧ v'.shared.stopped = true ∧ v'.shared.lifecycle ≠ .startRun := by
  cases why with
  | stop err =>
    left
    rcases h' with h' | h' <;> rw [h'] <;> rfl
  | reset =>
    right
    have hok := hs.shared
    simp only [Shared.Ok, h] at hok
    obtain ⟨w', hw'⟩ := List.exists_mem_of_ne_nil _ hq
    refine ⟨?_, hstop.trans hok.1, ?_⟩
    · rw [hpc, hcancel]
      exact hs.swept w' hw' (.inl hok.1)
    · rcases h' with h' | h' <;> rw [h']
      · simp
      · exact State.afterClear_ne_startRun _

theorem inReap_clear {why : Clearing} {w : Nat} {l : Lifecycle} (h : l = .clear why w)
    (hreap : l.inReap = true) :
    (Lifecycle.clear why (w + 1)).inReap = true ∧ (State.afterClear why).inReap = true := by
  rw [h] at hreap
  cases why with
  | stop err => exact ⟨rfl, rfl⟩
  | reset => cases hreap

/-- Induction step for a fiber that was stranded before. -/
theorem Step.gate (h : v.Step n e v') (hs : v.Sound n) (hk : v.Kept)
    (hreset : e = .resetFibers → v.inFibers = false) (hstart : e = .startFibers → ¬ v.Stranded)
    (hv : v.Gated) (h0 : v.places = 0) (hund' : v'.pc.undecided = true) (h0' : v'.places = 0) :
    v'.shared.Gate v'.pc := by
  obtain ⟨-, -, hgo⟩ := places_eq_zero.mp h0
  cases h with
  | shared h => exact h.gate (hv ⟨hund', h0⟩)
  -- the call goes on to its decision
  | countScheduled h => exact (hv ⟨by rw [h]; rfl, h0⟩).advance fun _ _ => trivial
  | readCtx h =>
    refine (hv ⟨by rw [h]; rfl, h0⟩).advance fun hstop _ => ?_
    have hepoch := hs.listed.epoch (by rw [h]; rfl)
    have hmem := hs.shared.cancelled_of_swept (w := 0) (.inl hstop) hepoch
    simp [SpawnPc.Doomed, hepoch.ne', hmem]
  | recheck h =>
    refine (hv ⟨by rw [h]; rfl, h0⟩).advance fun _ hdoom => ?_
    rw [h] at hdoom
    exact hdoom
  | call _ hpc => rcases hpc with rfl | rfl | rfl <;> cases hund'
  | reserve _ hpc | schedule _ hpc => rcases hpc with rfl | rfl <;> cases hund'
  | enqueue => simp [places] at h0'
  | @removeFound _ present | @removeMissing _ present => cases present <;> cases hund'
  | checked | notStarted | unreserve | insert | unschedule | unscheduleUndo | commit | rollback
  | removeNext | rollbackUndo | recordCreated => cases hund'
  -- the gate is opened
  | startFibers => exact absurd ⟨hund', h0⟩ (hstart rfl)
  | resetFibers =>
    have hin := hk.undecided hund' (by rw [hgo]; rfl)
    rw [hreset rfl] at hin
    cases hin
  | clearWorker h =>
    exact (hv ⟨hund', h0⟩).of_lifecycle (fun hreap => (inReap_clear h hreap).1) (by simp)
  | @clearOnly why _ h =>
    exact (hv ⟨hund', h0⟩).of_lifecycle (fun hreap => (inReap_clear h hreap).2)
      (State.afterClear_ne_startRun why)
  | reapTake | reapLeave => exact .inr (.inl rfl)
  | reapUndo h | reapUndoOther h =>
    refine (hv ⟨hund', h0⟩).of_lifecycle (fun hreap => ?_) (by simp)
    rw [h] at hreap
    cases hreap
  | _ => exact hv ⟨hund', h0⟩

theorem Step.gated (h : v.Step n e v') (hs : v.Sound n) (hk : v.Kept)
    (hreset : e = .resetFibers → v.inFibers = false) (hstart : e = .startFibers → ¬ v.Stranded)
    (hv : v.Gated) : v'.Gated := by
  rintro ⟨hund', h0'⟩
  rcases h.emptied hs (SpawnPc.not_rolledBack hund') h0' with
    h0 | ⟨hpc, hq, hcancel, hstop, why, w, hl, hl'⟩
  · exact h.gate hs hk hreset hstart hv h0 hund' h0'
  · rcases Gated.of_cleared hs hpc hq hcancel hstop hl hl' with hreap | ⟨hdoom, hstop', hne⟩
    · exact .inl hreap
    · exact .inr (.inr ⟨hstop', hne, hdoom⟩)

/-- A committed fiber that is in no place has been reaped, or will be. -/
def Found (v : Life) : Prop :=
  v.pc.committed = true → v.places = 0 → v.reaped = true ∨ v.shared.lifecycle.inReap = true

/-- Induction step for a fiber that had no place before. -/
theorem Step.found_of_no_place (h : v.Step n e v') (hs : v.Sound n) (hk : v.Kept) (hg : v.Gated)
    (hv : v.Found) (h0 : v.places = 0) (hcom' : v'.pc.committed = true) :
    v'.reaped = true ∨ v'.shared.lifecycle.inReap = true := by
  obtain ⟨-, hhand, hgo⟩ := places_eq_zero.mp h0
  cases h with
  | shared h => exact (hv hcom' h0).imp_right h.inReap
  | commit h hd =>
    -- a stranded call commits only before the scan of the reap
    rcases hg ⟨by rw [h]; rfl, h0⟩ with hreap | hdrain | ⟨-, -, hdoom⟩
    · exact .inr hreap
    · rw [hd] at hdrain
      cases hdrain
    · rw [h] at hdoom
      cases hdoom
  | recordCreated h => exact hv (by rw [h]; rfl) h0
  | call _ hpc => rcases hpc with rfl | rfl | rfl <;> cases hcom'
  | reserve _ hpc | schedule _ hpc => rcases hpc with rfl | rfl <;> cases hcom'
  | enqueue _ _ hpc => rcases hpc with rfl | rfl <;> cases hcom'
  | @removeFound _ present | @removeMissing _ present => cases present <;> cases hcom'
  | checked | notStarted | unreserve | insert | unschedule | unscheduleUndo | countScheduled
  | readCtx | recheck | rollback | removeNext | rollbackUndo => cases hcom'
  | reapTake => exact .inl rfl
  | reapLeave _ h hn =>
    -- the scan would have taken it
    left
    by_contra hnot
    obtain ⟨hin, hadm⟩ := hk.committed hcom' (by rw [hgo]; rfl) (by simpa using hnot)
    have hrun := hs.fiber.isRunnable hgo (by simp [hhand])
    simp [hin, hadm, hrun] at hn
  | clearWorker h => exact (hv hcom' h0).imp_right fun hreap => (inReap_clear h hreap).1
  | clearOnly h => exact (hv hcom' h0).imp_right fun hreap => (inReap_clear h hreap).2
  | startFibers h | reapUndo h | reapUndoOther h | resetFibers h =>
    refine (hv hcom' h0).imp_right fun hreap => ?_
    rw [h] at hreap
    cases hreap
  | _ => exact hv hcom' h0

theorem Step.found (h : v.Step n e v') (hs : v.Sound n) (hk : v.Kept) (hg : v.Gated)
    (hv : v.Found) : v'.Found := by
  intro hcom' h0'
  rcases h.emptied hs (SpawnPc.not_rolledBack_of_committed hcom') h0' with
    h0 | ⟨hpc, hq, hcancel, hstop, why, w, hl, hl'⟩
  · exact h.found_of_no_place hs hk hg hv h0 hcom'
  · rcases Gated.of_cleared hs hpc hq hcancel hstop hl hl' with hreap | ⟨hdoom, -, -⟩
    · exact .inr hreap
    · rw [hdoom.not_committed] at hcom'
      cases hcom'

/-- The three invariants that need each other. -/
structure Tracked (v : Life) : Prop where
  kept : v.Kept
  gated : v.Gated
  found : v.Found

theorem Step.tracked (h : v.Step n e v') (hs : v.Sound n)
    (hreset : e = .resetFibers → v.inFibers = false) (hstart : e = .startFibers → ¬ v.Stranded)
    (hv : v.Tracked) : v'.Tracked where
  kept := h.kept hs hreset hv.kept
  gated := h.gated hs hv.kept hreset hstart hv.gated
  found := h.found hs hv.kept hv.gated hv.found

theorem tracked_fresh : Life.fresh.Tracked where
  kept := ⟨nofun, nofun, nofun⟩
  gated h := by cases h.1
  found := nofun

end Life

/-! ## Committed fibers are not lost -/

/-- No `Start` opens the drain gate while a `Spawn` call is still undecided about a fiber that a
`Clear` has thrown out of its queue. -/
def StartsClean (s : State) (l : Label) : Prop :=
  l = .lifecycle → s.lifecycle = .startFibers → ∀ f ∈ Finset.range s.calls, ¬ (s.life f).Stranded

instance (s : State) (l : Label) : Decidable (StartsClean s l) :=
  inferInstanceAs (Decidable (_ → _))

theorem StartsClean.not_stranded {c : Config} {s : State} {l : Label} {f : FiberID}
    (h : StartsClean s l) (hs : s.Sound c) (he : s.event f l = .startFibers) :
    ¬ (s.life f).Stranded := by
  intro hstr
  have hlt : f < s.calls := hs.lt_calls fun hpc => by
    have := hstr.1
    rw [hpc] at this
    cases this
  obtain ⟨hl, hgate⟩ := State.event_eq_startFibers he
  exact h hl hgate f (Finset.mem_range.mpr hlt) hstr

section

variable {c : Config} {ok : State → Label → Prop} {s₀ s : State}

theorem tracked_of_reach (hok : ∀ s l, ok s l → ResetsEmpty s l ∧ StartsClean s l)
    (h₀ : Initial c s₀) (h : Reach (step c) ok s₀ s) (f : FiberID) : (s.life f).Tracked :=
  life_invariant h₀ Life.tracked_fresh
    (fun s l f _ h hs hv hstep => hstep.tracked (hs.life f) (hok s l h).1.inFibers
      ((hok s l h).2.not_stranded hs) hv) h f

/-- Fiber `f` stands in a run queue. -/
def State.Queued (s : State) (f : FiberID) : Prop := ∃ e ∈ s.sched.queue, e.fiber = f

instance (s : State) (f : FiberID) : Decidable (s.Queued f) :=
  inferInstanceAs (Decidable (∃ e ∈ _, _))

theorem State.queued_of_ne_nil {f : FiberID} (h : (s.life f).queuedAt ≠ []) : s.Queued f := by
  obtain ⟨w, hw⟩ := List.exists_mem_of_ne_nil _ h
  exact ⟨⟨w, f⟩, (Sched.mem_workersOf _ f w).mp hw, rfl⟩

theorem LoopPc.eq_of_hand {pc : LoopPc} {f : FiberID} (h : pc.hand f ≠ .empty)
    (hl : pc.hand f ≠ .launching) : pc = .holding f ∨ pc = .marking f := by
  cases pc with
  | holding g | marking g | launching g =>
    by_cases hg : g = f
    · simp_all [LoopPc.hand]
    · simp [LoopPc.hand, hg] at h
  | _ => exact absurd rfl h

/-- A committed fiber is somewhere, or the reap has had it. -/
theorem Life.Found.place {v : Life} (h : v.Found) (hcom : v.pc.committed = true)
    (hreap : v.shared.lifecycle.inReap = false) :
    v.queuedAt ≠ [] ∨ v.hand ≠ .empty ∨ v.go ≠ .absent ∨ v.reaped = true := by
  by_contra hnone
  push Not at hnone
  obtain ⟨hq, hh, hg, hr⟩ := hnone
  rcases h hcom (places_eq_zero.mpr ⟨hq, hh, hg⟩) with hr' | hin
  · exact hr hr'
  · rw [hreap] at hin
    cases hin

/-- In runs in which no `Start` opens the gate to a stranded fiber, a fiber that is admitted and
ready is in a queue or in the hand of the loop, and the fiber of a `Spawn` call that returned
no error is queued, handed out, dispatched or reaped. -/
theorem admitted_fiber_not_lost (h₀ : Initial c s₀)
    (h : Reach (step c) (fun s l => l ≠ .reset ∧ StartsClean s l) s₀ s)
    (hreap : s.lifecycle.inReap = false) (f : FiberID) :
    (Key.spawned f ∈ s.fibers → f ∈ s.admitted → (s.threads f).fiber.state = .ready →
        s.Queued f ∨ s.loop.pc = .holding f ∨ s.loop.pc = .marking f)
      ∧ ((s.threads f).pc = .returned (.ok ()) →
        s.Queued f ∨ s.loop.pc.hand f ≠ .empty ∨ (s.threads f).go ≠ .absent ∨ f ∈ s.reaped) := by
  have hs := (sound_of_reach h₀ h).life f
  have hfound := (tracked_of_reach (fun _ _ hok => hok) h₀ (steady_of_noReset h₀ h).2 f).found
  constructor
  · intro hin hadm hready
    have hrun : (s.life f).fiber.isRunnable = true := beq_iff_eq.mpr hready
    obtain ⟨hgo, hlaunch⟩ := hs.fiber.runnable hrun
    rcases hfound.place (hs.listed.admitted (decide_eq_true hadm)) hreap with hq | hh | hg | hr
    · exact .inl (State.queued_of_ne_nil hq)
    · exact .inr (LoopPc.eq_of_hand hh hlaunch)
    · exact absurd hgo hg
    · -- a reaped fiber is not in `rt.fibers`
      have hout := (hs.reaped.gone hr).inFibers
      exact absurd hin (of_decide_eq_false hout)
  · intro hpc
    have hcom : (s.life f).pc.committed = true := by
      rw [show (s.life f).pc = .returned (.ok ()) from hpc]
      rfl
    rcases hfound.place hcom hreap with hq | hh | hg | hr
    · exact .inl (State.queued_of_ne_nil hq)
    · exact .inr (.inl hh)
    · exact .inr (.inr (.inl hg))
    · exact .inr (.inr (.inr (of_decide_eq_true hr)))

end

/-- Two runs: the fiber of the first is reaped by the `Stop` between them, that of the second is
in the queue. -/
theorem admitted_fiber_not_lost_restart :
    ∃ s, Reach (step (.ofNewRuntime .fifo 1)) (fun s l => l ≠ .reset ∧ StartsClean s l)
        (.new (.ofNewRuntime .fifo 1)) s
      ∧ s.epoch = 2
      ∧ (s.Queued 0 ∨ s.loop.pc.hand 0 ≠ .empty ∨ (s.threads 0).go ≠ .absent ∨ 0 ∈ s.reaped)
      ∧ (s.Queued 1 ∨ s.loop.pc = .holding 1 ∨ s.loop.pc = .marking 1) := by
  obtain ⟨s, hs, htest⟩ := exists_reach_of_exec_guarded (step (.ofNewRuntime .fifo 1))
    (fun s l => l ≠ .reset ∧ StartsClean s l) (.new (.ofNewRuntime .fifo 1))
    (List.flatten [Label.startTrace, [.call false 0], Label.spawnTrace 0 9, Label.stopTrace 7,
      Label.startTrace, [.call false 0], Label.spawnTrace 1 9])
    (fun s => decide (s.epoch = 2 ∧ s.lifecycle.inReap = false
      ∧ (s.threads 0).pc = .returned (.ok ()) ∧ Key.spawned 1 ∈ s.fibers ∧ 1 ∈ s.admitted
      ∧ (s.threads 1).fiber.state = .ready))
    (by decide)
  obtain ⟨hepoch, hreap, hpc, hin, hadm, hready⟩ := of_decide_eq_true htest
  exact ⟨s, hs, hepoch, (admitted_fiber_not_lost (.inl rfl) hs hreap 0).2 hpc,
    (admitted_fiber_not_lost (.inl rfl) hs hreap 1).1 hin hadm hready⟩

/-- A `Spawn` call that spans two runs: it queues its fiber in the first, the `Stop` clears the
queue, and the call commits in the second. -/
theorem spawn_loses_fiber :
    ∃ s, Reach (step (.ofNewRuntime .fifo 1)) (fun _ l => l ≠ .reset)
        (.new (.ofNewRuntime .fifo 1)) s
      ∧ s.lifecycle = .idle (some (.ok ())) ∧ s.isRunning = true
      ∧ (s.threads 0).pc = .returned (.ok ())
      ∧ Key.spawned 0 ∈ s.fibers ∧ 0 ∈ s.admitted ∧ (s.threads 0).fiber.state = .ready
      ∧ s.sched.queue = [] ∧ s.loop.pc = .select ∧ (s.threads 0).go = .absent
      ∧ s.reaped = [] := by
  obtain ⟨s, hs, htest⟩ := exists_reach_of_exec_guarded (step (.ofNewRuntime .fifo 1))
    (fun _ l => l ≠ .reset) (.new (.ofNewRuntime .fifo 1))
    (List.flatten [Label.startTrace, [.call false 0], Label.spawnTrace 0 5, Label.stopTrace 5,
      Label.startTrace, Label.spawnTrace 0 4])
    (fun s => decide (s.lifecycle = .idle (some (.ok ())) ∧ s.isRunning = true
      ∧ (s.threads 0).pc = .returned (.ok ())
      ∧ Key.spawned 0 ∈ s.fibers ∧ 0 ∈ s.admitted ∧ (s.threads 0).fiber.state = .ready
      ∧ s.sched.queue = [] ∧ s.loop.pc = .select ∧ (s.threads 0).go = .absent
      ∧ s.reaped = []))
    (by decide)
  exact ⟨s, hs, of_decide_eq_true htest⟩

/-! ## Fibers rolled back do not run -/

namespace Life

variable {n : Nat} {v v' : Life} {e : Event}

/-- What is rolled back has never left its queue for the loop. -/
def Clean (v : Life) : Prop := v.pc.rolledBack = true → v.hand = .empty ∧ v.go = .absent

theorem Step.clean (h : v.Step n e v')
    (hroll : e = .rollback → v.hand = .empty ∧ v.go = .absent)
    (hpop : e = .pop → v.pc.rolledBack = false) (hv : v.Clean) : v'.Clean := by
  cases h with
  | rollback => exact fun _ => hroll rfl
  | removeFound h | removeNext h | removeMissing h | rollbackUndo h =>
    exact fun _ => hv (by rw [h]; rfl)
  | pop =>
    intro hpc
    rw [hpop rfl] at hpc
    cases hpc
  | call _ hpc => rcases hpc with rfl | rfl | rfl <;> exact nofun
  | reserve _ hpc | schedule _ hpc => rcases hpc with rfl | rfl <;> exact nofun
  | enqueue _ _ hpc => rcases hpc with rfl | rfl <;> exact nofun
  | checked | notStarted | unreserve | insert | unschedule | unscheduleUndo | countScheduled
  | readCtx | recheck | commit | recordCreated => exact nofun
  -- the loop and the goroutine have nothing in hand
  | held h | mark h | launch h =>
    intro hpc
    rw [(hv hpc).1] at h
    cases h
  | notRunnable => exact fun hpc => ⟨rfl, (hv hpc).2⟩
  | runBegin h | runSkip h | runEnd h | goexit h | recordCompleted h | markCompleted h
  | markRemove h | sweep h | remove h | undo h | send h =>
    intro hpc
    rw [(hv hpc).2] at h
    cases h
  | _ => exact hv

/-- A fiber whose call failed has no goroutine. -/
theorem Clean.go_absent {err : SpawnError} (hv : v.Clean) (hs : v.Sound n)
    (hpc : v.pc = .returned (.error err)) : v.go = .absent := by
  by_cases hstop : err = .stoppedDuringSpawn
  · exact (hv (by rw [hpc, hstop]; rfl)).2
  · -- the other errors come before `Schedule` has put the fiber into a queue
    refine hs.placed.go_absent_of_not_published ?_
    rw [hpc]
    cases err with
    | stoppedDuringSpawn => exact absurd rfl hstop
    | _ => rfl

/-- The function of a fiber whose call failed has not been called. -/
theorem Clean.not_started {err : SpawnError} (hv : v.Clean) (hs : v.Sound n)
    (hpc : v.pc = .returned (.error err)) : v.fiber.runStarted = false :=
  hs.fiber.not_started (hv.go_absent hs hpc)

end Life

/-- No `Spawn` call rolls back a fiber that `Next` has handed out, and `Next` hands out no fiber
that is being rolled back. -/
def RollbackUnseen (s : State) (l : Label) : Prop :=
  ∀ f ∈ Finset.range s.calls,
    (s.event f l = .rollback → s.loop.pc.hand f = .empty ∧ (s.threads f).go = .absent)
      ∧ (s.event f l = .pop → (s.threads f).pc.rolledBack = false)

instance (s : State) (l : Label) : Decidable (RollbackUnseen s l) :=
  inferInstanceAs (Decidable (∀ _ ∈ _, _))

section

variable {c : Config} {s₀ s s' : State} {l : Label}

theorem RollbackUnseen.life {f : FiberID} (h : RollbackUnseen s l) (hs : s.Sound c) :
    (s.event f l = .rollback → (s.life f).hand = .empty ∧ (s.life f).go = .absent)
      ∧ (s.event f l = .pop → (s.life f).pc.rolledBack = false) := by
  by_cases hf : f < s.calls
  · exact h f (Finset.mem_range.mpr hf)
  · -- a call not made yet is in no place
    have hpc := hs.uncalled f (Nat.le_of_not_lt hf)
    have hplaces := (hs.life f).placed.published (by rw [hpc]; rfl)
    exact ⟨fun _ => (Life.places_eq_zero.mp hplaces).2, fun _ => by rw [hpc]; rfl⟩

theorem clean_of_reach (h₀ : Initial c s₀) (h : Reach (step c) RollbackUnseen s₀ s)
    (f : FiberID) : (s.life f).Clean :=
  life_invariant h₀ nofun
    (fun _ _ _ _ hok hs hv hstep => hstep.clean (hok.life hs).1 (hok.life hs).2 hv) h f

theorem returned_of_reach {f : FiberID} {r : Except SpawnError Unit} (h₀ : Initial c s₀)
    (h : Reach (step c) RollbackUnseen s₀ s) (h' : Reach (step c) RollbackUnseen s s')
    (hpc : (s.threads f).pc = .returned r) : (s'.threads f).pc = .returned r := by
  refine sound_invariant (P := fun s => (s.life f).pc = .returned r) (sound_of_reach h₀ h) hpc
    ?_ h'
  intro s l s' hs hr _ hst
  exact ((hs.step_life hst f).pc_of_atRest (fun _ => by simp [hr]) (by rw [hr]; rfl)).trans hr

/-- In runs in which no fiber is both rolled back and handed out, the function of a fiber whose
`Spawn` call returned an error has not been called when the call returns and is not called
after it. -/
theorem failed_spawn_never_runs (h₀ : Initial c s₀) (h : Reach (step c) RollbackUnseen s₀ s)
    {f : FiberID} {err : SpawnError} (hpc : (s.threads f).pc = .returned (.error err)) :
    (s.threads f).fiber.runStarted = false
      ∧ ∀ s', Reach (step c) RollbackUnseen s s' → (s'.threads f).fiber.runStarted = false := by
  refine ⟨(clean_of_reach h₀ h f).not_started ((sound_of_reach h₀ h).life f) hpc,
    fun s' h' => ?_⟩
  have hreach := h.trans h'
  exact (clean_of_reach h₀ hreach f).not_started ((sound_of_reach h₀ hreach).life f)
    (returned_of_reach h₀ h h' hpc)

end

/-- A `Stop` comes between `Schedule` and the second look, and the call takes its fiber back in
time. -/
theorem failed_spawn_never_runs_in_time :
    ∃ s, Reach (step (.ofNewRuntime .fifo 1)) RollbackUnseen (.new (.ofNewRuntime .fifo 1)) s
      ∧ (s.threads 0).pc = .returned (.error .stoppedDuringSpawn)
      ∧ (s.threads 0).fiber.runStarted = false
      ∧ ∀ s', Reach (step (.ofNewRuntime .fifo 1)) RollbackUnseen s s' →
        (s'.threads 0).fiber.runStarted = false := by
  obtain ⟨s, hs, htest⟩ := exists_reach_of_exec_guarded (step (.ofNewRuntime .fifo 1))
    RollbackUnseen (.new (.ofNewRuntime .fifo 1))
    (List.flatten [Label.startTrace, [.call false 0], Label.spawnTrace 0 5, [.stop, .lifecycle],
      Label.spawnTrace 0 5])
    (fun s => decide ((s.threads 0).pc = .returned (.error .stoppedDuringSpawn)))
    (by decide)
  have hpc := of_decide_eq_true htest
  exact ⟨s, hs, hpc, failed_spawn_never_runs (.inl rfl) hs hpc⟩

/-- The loop is faster: it has called the function of the fiber when the call sees the run
cancelled and returns an error. -/
theorem failed_spawn_runs_fiber :
    ∃ s, Reach (step (.ofNewRuntime .fifo 1)) anyStep (.new (.ofNewRuntime .fifo 1)) s
      ∧ (s.threads 0).pc = .returned (.error .stoppedDuringSpawn)
      ∧ (s.threads 0).fiber.runStarted = true ∧ (s.threads 0).go = .body := by
  obtain ⟨s, hs, htest⟩ := exists_reach_of_exec (step (.ofNewRuntime .fifo 1))
    (.new (.ofNewRuntime .fifo 1))
    (List.flatten [Label.startTrace, [.call false 0], Label.spawnTrace 0 5, Label.dispatchTrace 0,
      [.stop, .lifecycle], Label.spawnTrace 0 5])
    (fun s => decide ((s.threads 0).pc = .returned (.error .stoppedDuringSpawn)
      ∧ (s.threads 0).fiber.runStarted = true ∧ (s.threads 0).go = .body))
    (by decide)
  exact ⟨s, hs, of_decide_eq_true htest⟩

end GreenThreads.Runtime
