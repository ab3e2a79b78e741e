import GreenThreads.Runtime.Detector
import GreenThreads.Runtime.Progress

/-!
# GreenThreads — `Start`, `Stop` and `Reset` return

`Stop` waits in two places: for the execution loop and the detector's goroutine, which it has told
to return, and then for the fibers in flight, unless its deadline comes. Neither wait is for a
`Spawn` call, and neither can last for good: the loop returns on its own, the detector's goroutine
does so after the scan it is in, and so do the goroutines of the fibers whose functions return
(`lifecycle_returns`).
-/

namespace GreenThreads.Runtime

open Trans

/-! ## The detector's goroutine -/

/-- The steps that the goroutine has before it, at most, once `stopChan` is closed; `n` is the
number of fibers there are to clone. -/
def WatchPc.rank (n : Nat) : WatchPc → Nat
  | exited => 0
  | select => 1
  | starting | judging _ => 2
  | cloning _ keys _ => keys.length + 3
  | readFibers _ => n + 4
  | readMain => n + 5
  | check => n + 6

namespace Watched

variable {c : Config} {w w' : Watched}

/-- It always has a step that brings it nearer to its return. -/
theorem exists_detectorStep (hstop : w.stopChan = true) (hmu : w.rt.muHeld = false)
    (hpc : w.pc.hasExited = false) :
    ∃ choice w', w.detectorStep c choice = some w' ∧ w'.rt = w.rt ∧ w'.stopChan = true
      ∧ w'.pc.rank w.rt.fibers.card < w.pc.rank w.rt.fibers.card := by
  cases h : w.pc with
  | exited => simp [h, WatchPc.hasExited] at hpc
  | starting =>
    refine ⟨.next, { w with pc := if w.detector.enabled then .select else .exited },
      by simp only [detectorStep, h], rfl, hstop, ?_⟩
    dsimp only
    split_ifs <;> simp [WatchPc.rank]
  | select =>
    refine ⟨.stop, { w with pc := .exited }, by simp [detectorStep, h, hstop], rfl, hstop, ?_⟩
    simp [WatchPc.rank]
  | check =>
    refine ⟨.next, { w with pc := if w.rt.isRunning then .readMain else .select },
      by simp [detectorStep, h, hmu], rfl, hstop, ?_⟩
    dsimp only
    split_ifs <;> simp [WatchPc.rank]
  | readMain =>
    refine ⟨.next, { w with pc := .readFibers w.rt.mainFiber }, by simp only [detectorStep, h], rfl,
      hstop, ?_⟩
    simp [WatchPc.rank]
  | readFibers main =>
    -- it ranges over `rt.fibers` in some order
    have hkeys : w.rt.fibers.toList.Nodup ∧ w.rt.fibers.toList.toFinset = w.rt.fibers :=
      ⟨w.rt.fibers.nodup_toList, Finset.toList_toFinset _⟩
    refine ⟨.keys w.rt.fibers.toList, { w with pc := .cloning main w.rt.fibers.toList [] },
      by simp only [detectorStep, h, if_pos hkeys], rfl, hstop, ?_⟩
    simp [WatchPc.rank]
  | cloning main keys fibers =>
    cases keys with
    | nil =>
      refine ⟨.now w.clock, { w with pc := .judging (scanOf c main fibers w.clock) },
        by simp [detectorStep, h], rfl, hstop, ?_⟩
      simp [WatchPc.rank]
    | cons k keys =>
      refine ⟨.next, { w with pc := .cloning main keys (fibers ++ [(k, w.rt.clone k)]) },
        by simp only [detectorStep, h], rfl, hstop, ?_⟩
      simp [WatchPc.rank]
  | judging x =>
    refine ⟨.next, { w with detector := w.detector.scan x, pc := .select },
      by simp only [detectorStep, h], rfl, hstop, ?_⟩
    simp [WatchPc.rank]

/-- Once `stopChan` is closed, the goroutine can return, with no help but its own. -/
theorem detector_exits (hstop : w.stopChan = true) (hmu : w.rt.muHeld = false) :
    ∃ w', Reach (step c) (fun _ l => ∃ choice, l = .detector choice) w w'
      ∧ w'.rt = w.rt ∧ w'.pc.hasExited = true := by
  obtain ⟨w', hrun, ⟨hrt, -⟩, hexit⟩ := exists_reach_of_rank (step c)
    (fun _ l => ∃ choice, l = .detector choice) (fun t => t.pc.rank w.rt.fibers.card)
    (P := fun t => t.rt = w.rt ∧ t.stopChan = true) (Q := fun t => t.pc.hasExited = true)
    (s := w) (fun t ⟨hrt, hstop⟩ hpc => by
      obtain ⟨choice, t', ht, hrt', hstop', hrank⟩ :=
        exists_detectorStep (c := c) hstop (hrt ▸ hmu) (Bool.eq_false_iff.mpr hpc)
      exact ⟨.detector choice, t', ⟨choice, rfl⟩, ht, ⟨hrt'.trans hrt, hstop'⟩, hrt ▸ hrank⟩)
    ⟨rfl, hstop⟩
  exact ⟨w', hrun, hrt, hexit⟩

/-! ## The runtime and its detector -/

/-- A run of the runtime in which no `Stop` gets past its wait for the two goroutines is one of the
whole system. -/
theorem exists_reach_of_runtime {P : Label → Prop} {s' : State}
    (h : Reach (Runtime.step c) (fun s l => P l ∧ (l = .lifecycle → s.lifecycle.joins = false))
      w.rt s') :
    ∃ w', Reach (step c) (fun _ l => ∃ rl, P rl ∧ l = .runtime rl) w w' ∧ w'.rt = s' := by
  induction h with
  | refl => exact ⟨w, .refl, rfl⟩
  | @tail s s' l _ hok hst ih =>
    obtain ⟨w₁, hrun, rfl⟩ := ih
    refine ⟨w₁.moved l s', .tail hrun ⟨l, hok.1, rfl⟩ (step_runtime_of hst ?_), moved_rt ..⟩
    intro hl hjoins
    rw [hok.2 hl] at hjoins
    cases hjoins

/-- A `Stop` that waits for the two goroutines has told them to return. -/
structure Told (c : Config) (w : Watched) : Prop where
  sound : w.rt.Sound c
  stopChan : w.rt.lifecycle.joins = true → w.stopChan = true

/-- Only the step that stops the scheduler leads to the wait. -/
theorem joins_of_step {s s' : State} {l : Label} (h : Runtime.step c s l = some s')
    (hjoins : s'.lifecycle.joins = true) :
    s'.epoch = s.epoch
      ∧ (s.lifecycle.joins = true ∨ l = .lifecycle ∧ s.lifecycle = .stopSched) := by
  cases State.step_turn h with
  | call hs | cancelCtx hs =>
    subst hs
    exact ⟨rfl, .inl hjoins⟩
  | work hl =>
    have hframe := State.step_frame h hl
    exact ⟨hframe.run.1, .inl (hframe.lifecycle ▸ hjoins)⟩
  | begin hidle hfirst hs =>
    subst hs
    rcases hfirst with ⟨-, rfl⟩ | ⟨-, rfl⟩ | ⟨-, rfl⟩ | ⟨r, rfl⟩ <;> cases hjoins
  | deadline _ hs =>
    subst hs
    cases hjoins
  | lifecycle hst =>
    cases State.lifecycleStep_effect hst with
    | stopSched hl => exact ⟨rfl, .inr ⟨rfl, hl⟩⟩
    | @clearAtOnce why _ _ | @clearBase why _ _ => cases why <;> cases hjoins
    | _ => cases hjoins

theorem Told.step {l : WatchLabel} (ht : w.Told c) (h : w.step c l = some w') : w'.Told c := by
  cases l with
  | runtime l =>
    obtain ⟨rt, hrt, rfl⟩ := step_runtime h
    refine ⟨by simpa using ht.sound.step hrt, fun hjoins => ?_⟩
    rw [moved_rt] at hjoins
    obtain ⟨hepoch, hbefore⟩ := joins_of_step hrt hjoins
    unfold moved
    rw [if_neg (by simp [hepoch])]
    rcases hbefore with hbefore | hstop
    · split_ifs
      · rfl
      · exact ht.stopChan hbefore
    · rw [if_pos hstop]
  | detector choice =>
    cases detectorStep_goes h <;> exact ⟨ht.sound, ht.stopChan⟩
  | setEnabled | setTimeout | clearDeadlocks =>
    cases h
    exact ⟨ht.sound, ht.stopChan⟩

theorem Told.reach {P : Watched → WatchLabel → Prop} (ht : w.Told c)
    (h : Reach (Watched.step c) P w w') : w'.Told c :=
  h.invariant (P := Told c) ht fun _ _ _ ht _ hst => ht.step hst

/-! ## The holder of `lifecycleMu` -/

/-- The holder of `lifecycleMu` has returned or waits for the fibers in flight. -/
def Settled (w : Watched) : Prop :=
  (∃ r, w.rt.lifecycle = .idle (some r) ∧ r ≠ .error .stopDeadline)
    ∨ ∃ err, w.rt.lifecycle = .join err

theorem settled_of_rests (hrests : w.rt.lifecycle.rests = true)
    (hjoins : w.rt.lifecycle.joins = false) (hreturns : w.rt.lifecycle.ReturnsInTime) :
    w.Settled := by
  cases h : w.rt.lifecycle with
  | idle last =>
    obtain ⟨r, rfl, hr⟩ := hreturns last h
    exact .inl ⟨r, h, hr⟩
  | join err => exact .inr ⟨err, h⟩
  | stopJoin err => simp [h, Lifecycle.joins] at hjoins
  | _ => simp [h, Lifecycle.rests] at hrests

/-- The steps of the holder of `lifecycleMu`, of the loop and of the detector's goroutine. -/
def isHelp (l : WatchLabel) : Prop :=
  l = .runtime .lifecycle ∨ (∃ choice, l = .runtime (.loop choice)) ∨ ∃ choice, l = .detector choice

theorem joins_eq_false_of_rests {k : Lifecycle} (h : k.rests = false) : k.joins = false := by
  cases k <;> first | rfl | cases h

/-- The holder comes to where it waits, or returns. -/
theorem rests (hbusy : w.rt.lifecycle.ReturnsInTime) :
    ∃ w', Reach (step c) (fun _ l => isHelp l) w w' ∧ w'.rt.lifecycle.rests = true
      ∧ w'.rt.lifecycle.beforeLoop = w.rt.lifecycle.beforeLoop
      ∧ w'.rt.lifecycle.ReturnsInTime := by
  obtain ⟨s', hrun, hrests, hside, hreturns⟩ := State.lifecycle_rests (c := c) hbusy
  obtain ⟨w', hrun', rfl⟩ := exists_reach_of_runtime (P := fun l => l = .lifecycle)
    (hrun.mono fun _ _ hl => ⟨hl.1, fun _ => joins_eq_false_of_rests hl.2⟩)
  refine ⟨w', hrun'.mono fun _ l hl => ?_, hrests, hside, hreturns⟩
  obtain ⟨rl, rfl, hl⟩ := hl
  exact .inl hl

/-- A `Stop` that waits for the loop and the detector's goroutine gets past them. -/
theorem passes_join (ht : w.Told c) {err : Option String} (hwait : w.rt.lifecycle = .stopJoin err) :
    ∃ w', Reach (step c) (fun _ l => isHelp l) w w'
      ∧ w'.rt.lifecycle = .clear (.stop err) 0 := by
  -- it has cancelled the run of the loop
  have hok : w.rt.shared.Ok := (ht.sound.life 0).shared
  have hcancelled : w.rt.epoch ∈ w.rt.cancelled := by
    simp only [Shared.Ok, State.shared, hwait] at hok
    exact hok.2
  obtain ⟨s₁, hrun₁, hlife₁, hexit⟩ := State.loop_exits (c := c) (s := w.rt)
    (by simpa [State.done]) (by simp [State.muHeld, hwait])
  obtain ⟨w₁, hrun₁', rfl⟩ := exists_reach_of_runtime (P := fun l => ∃ choice, l = .loop choice)
    (hrun₁.mono fun _ l hl => ⟨hl, fun heq => by obtain ⟨choice, rfl⟩ := hl; cases heq⟩)
  have hhelp₁ : Reach (step c) (fun _ l => isHelp l) w w₁ := hrun₁'.mono fun _ l hl => by
    obtain ⟨rl, ⟨choice, rfl⟩, rfl⟩ := hl
    exact .inr (.inl ⟨choice, rfl⟩)
  have hwait₁ : w₁.rt.lifecycle = .stopJoin err := hlife₁.trans hwait
  obtain ⟨w₂, hrun₂, hrt, hexited⟩ := detector_exits (c := c)
    ((ht.reach hhelp₁).stopChan (by rw [hwait₁]; rfl)) (by simp [State.muHeld, hwait₁])
  have hhelp₂ : Reach (step c) (fun _ l => isHelp l) w w₂ :=
    hhelp₁.trans (hrun₂.mono fun _ l hl => .inr (.inr hl))
  have hstep : Runtime.step c w₂.rt .lifecycle
      = some { w₂.rt with lifecycle := .clear (.stop err) 0 } := by
    simp only [Runtime.step, State.lifecycleStep, hrt, hwait₁, if_pos hexit]
  refine ⟨_, hhelp₂.tail (.inl rfl) (step_runtime_of hstep fun _ _ => hexited), ?_⟩
  rw [moved_rt]

/-- With the help of the loop and of the detector's goroutine, the holder gets as far as to wait
for the fibers in flight, or returns. -/
theorem settles (ht : w.Told c) (hbusy : w.rt.lifecycle.ReturnsInTime) :
    ∃ w', Reach (step c) (fun _ l => isHelp l) w w' ∧ w'.Settled := by
  obtain ⟨w₁, hrun₁, hrests₁, -, hreturns₁⟩ := rests (c := c) hbusy
  cases hjoins : w₁.rt.lifecycle.joins with
  | false => exact ⟨w₁, hrun₁, settled_of_rests hrests₁ hjoins hreturns₁⟩
  | true =>
    obtain ⟨err, hwait⟩ : ∃ err, w₁.rt.lifecycle = .stopJoin err := by
      cases h : w₁.rt.lifecycle with
      | stopJoin err => exact ⟨err, rfl⟩
      | _ => simp [h, Lifecycle.joins] at hjoins
    obtain ⟨w₂, hrun₂, hclear⟩ := passes_join (ht.reach hrun₁) hwait
    obtain ⟨w₃, hrun₃, hrests₃, hside₃, hreturns₃⟩ := rests (c := c) (w := w₂)
      (by simp [hclear, Lifecycle.ReturnsInTime])
    refine ⟨w₃, (hrun₁.trans hrun₂).trans hrun₃, settled_of_rests hrests₃ ?_ hreturns₃⟩
    -- it does not come back to that wait
    rw [hclear] at hside₃
    cases h : w₃.rt.lifecycle with
    | stopJoin err => simp [h, Lifecycle.beforeLoop] at hside₃
    | _ => rfl

/-- At its deadline a `Stop` gives up waiting. -/
theorem gives_up {err : Option String} (hjoin : w.rt.lifecycle = .join err) :
    ∃ w', w.step c (.runtime .deadline) = some w'
      ∧ w'.rt.lifecycle = .idle (some (.error .stopDeadline)) := by
  have hstep : Runtime.step c w.rt .deadline = some { w.rt with
      stopped := true, lifecycle := .idle (some (.error .stopDeadline)) } := by
    simp only [Runtime.step, State.deadlineStep, hjoin]
  exact ⟨_, step_runtime_of hstep (by simp), by rw [moved_rt]⟩

/-- Before that it returns when the functions of the fibers in flight do. -/
theorem passes_fibers (ht : w.Told c) {err : Option String} (hjoin : w.rt.lifecycle = .join err) :
    ∃ w', Reach (step c) (fun _ l => isHelp l ∨ (∃ f drop, l = .runtime (.go f drop))
        ∨ ∃ f, l = .runtime (.discard f)) w w'
      ∧ w'.rt.lifecycle = .idle (some (State.stopResult err)) := by
  have hok : w.rt.shared.Ok := (ht.sound.life 0).shared
  have hcancelled : w.rt.epoch ∈ w.rt.cancelled := by
    simp only [Shared.Ok, State.shared, hjoin] at hok
    exact hok.2.2.1
  obtain ⟨s₁, hrun, hlife, hzero⟩ := State.joins (c := c) hjoin (by simpa [State.done])
  obtain ⟨w₁, hrun₁, rfl⟩ := exists_reach_of_runtime
    (P := fun l => (∃ f drop, l = .go f drop) ∨ ∃ f, l = .discard f)
    (hrun.mono fun _ l hl => ⟨hl, fun heq => by
      subst heq
      rcases hl with ⟨f, drop, hl⟩ | ⟨f, hl⟩ <;> cases hl⟩)
  have hstep : Runtime.step c w₁.rt .lifecycle = some { w₁.rt with
      stopped := true, lifecycle := .idle (some (State.stopResult err)) } := by
    simp only [Runtime.step, State.lifecycleStep, hlife, if_pos hzero]
  refine ⟨_, (hrun₁.mono fun _ l hl => ?_).tail (.inl (.inl rfl)) (step_runtime_of hstep ?_),
    by rw [moved_rt]⟩
  · obtain ⟨rl, ⟨f, drop, rfl⟩ | ⟨f, rfl⟩, rfl⟩ := hl
    · exact .inr (.inl ⟨f, drop, rfl⟩)
    · exact .inr (.inr ⟨f, rfl⟩)
  · intro _ hjoins
    rw [hlife] at hjoins
    cases hjoins

end Watched

theorem Watched.Told.of_reach {c : Config} {s₀ : State} {made : Int} {w : Watched}
    (h₀ : Initial c s₀) (h : Reach (Watched.step c) anyStep (.new s₀ made) w) : w.Told c := by
  refine Watched.Told.reach ⟨h₀.sound, fun hjoins => ?_⟩ h
  rcases h₀ with rfl | rfl <;> cases hjoins

/-- From every reachable state, whoever holds `lifecycleMu` can return without any of the `Spawn`
calls under way: with the execution loop, the detector's goroutine and the deadline alone; and
before the deadline, if the functions of the fibers in flight return. -/
theorem lifecycle_returns {c : Config} {s₀ : State} {made : Int} {w : Watched}
    (h₀ : Initial c s₀) (h : Reach (Watched.step c) anyStep (.new s₀ made) w)
    (hbusy : ∀ last, w.rt.lifecycle ≠ .idle last) :
    (∃ w' r, Reach (Watched.step c) (fun _ l => Watched.isHelp l ∨ l = .runtime .deadline) w w'
        ∧ w'.rt.lifecycle = .idle (some r))
      ∧ ∃ w' r, Reach (Watched.step c)
        (fun _ l => Watched.isHelp l ∨ (∃ f drop, l = .runtime (.go f drop))
          ∨ ∃ f, l = .runtime (.discard f)) w w'
        ∧ w'.rt.lifecycle = .idle (some r) ∧ r ≠ .error .stopDeadline := by
  have ht := Watched.Told.of_reach h₀ h
  obtain ⟨w₁, hrun₁, hsettled⟩ := Watched.settles ht fun last hlast => absurd hlast (hbusy last)
  have hhelp : Reach (Watched.step c) (fun _ l => Watched.isHelp l ∨ l = .runtime .deadline) w w₁ :=
    hrun₁.mono fun _ _ => .inl
  rcases hsettled with ⟨r, hidle, hr⟩ | ⟨err, hjoin⟩
  · exact ⟨⟨w₁, r, hhelp, hidle⟩, w₁, r, hrun₁.mono fun _ _ => .inl, hidle, hr⟩
  · obtain ⟨w₂, hst, hidle₂⟩ := Watched.gives_up (c := c) hjoin
    obtain ⟨w₃, hrun₃, hidle₃⟩ := Watched.passes_fibers (ht.reach hrun₁) hjoin
    exact ⟨⟨w₂, _, hhelp.tail (.inr rfl) hst, hidle₂⟩, w₃, _,
      (hrun₁.mono fun _ _ => .inl).trans hrun₃, hidle₃, State.stopResult_ne_stopDeadline err⟩

/-- A `Stop` finds fiber 0 in its function, `Spawn` call 1 asleep between its look at the scheduler
and the queue, and the detector's goroutine inside a scan. -/
theorem lifecycle_returns_stalled :
    ∃ w, Reach (Watched.step (.ofNewRuntime .fifo 1)) anyStep
        (.new (.new (.ofNewRuntime .fifo 1)) 0) w
      ∧ w.rt.lifecycle = .stopCancel ∧ (w.rt.threads 0).go = .body
      ∧ (w.rt.threads 1).pc = .enqueue ∧ w.pc.scanning = true
      ∧ ∃ w' r, Reach (Watched.step (.ofNewRuntime .fifo 1))
        (fun _ l => Watched.isHelp l ∨ (∃ f drop, l = .runtime (.go f drop))
          ∨ ∃ f, l = .runtime (.discard f)) w w'
        ∧ w'.rt.lifecycle = .idle (some r) ∧ r ≠ .error .stopDeadline := by
  obtain ⟨w, hw, htest⟩ := exists_reach_of_exec (Watched.step (.ofNewRuntime .fifo 1))
    (.new (.new (.ofNewRuntime .fifo 1)) 0)
    ((List.flatten [Label.startTrace, [.call false 0], Label.spawnTrace 0 9,
        Label.dispatchTrace 0, [.call false 0], Label.spawnTrace 1 4]).map WatchLabel.runtime
      ++ [.detector .next, .detector .tick, .detector .next, .detector .next,
        .detector (.keys [.main 0, .spawned 0, .spawned 1]), .detector .next,
        .runtime .stop])
    (fun w => decide (w.rt.lifecycle = .stopCancel ∧ (w.rt.threads 0).go = .body
      ∧ (w.rt.threads 1).pc = .enqueue ∧ w.pc.scanning = true)) (by decide +kernel)
  obtain ⟨hlife, hgo, hpc, hscan⟩ := of_decide_eq_true htest
  exact ⟨w, hw, hlife, hgo, hpc, hscan, (lifecycle_returns (.inl rfl) hw (by simp [hlife])).2⟩

end GreenThreads.Runtime
