import GreenThreads.Runtime.Runs

/-!
# GreenThreads — the fibers in flight

The execution loop keeps the number of fibers it has dispatched and not heard back from in its
local `active`, and dispatches only while that is below `numWorkers`. The goroutines report back
through the result channel of their run, after `complete`, so between the loop and a running
function there are goroutines on their way to the channel and results waiting in it.

While the context of the run is not cancelled `active` is the number of both. Once it is
cancelled a goroutine may drop its result, and one whose function ends in `runtime.Goexit` never
sends one.
-/

namespace GreenThreads.Runtime

open Trans

/-- The steps of neither the loop, nor a goroutine, nor the holder of `lifecycleMu`. -/
def Label.isAside : Label → Bool
  | loop _ | go _ _ | discard _ | goexit _ | lifecycle => false
  | _ => true

namespace State

variable {c : Config} {s s' : State} {l : Label} {f : FiberID} {run : Nat}

/-- The dispatch goroutines of run `run` that have not delivered their result. -/
def inFlight (s : State) (run : Nat) : Finset FiberID :=
  (Finset.range s.calls).filter fun f =>
    (s.threads f).run = run ∧ (s.threads f).go ≠ .absent ∧ (s.threads f).go ≠ .ended

theorem fiberWG_eq_card (s : State) (run : Nat) : s.fiberWG run = (s.inFlight run).card := rfl

theorem Sound.mem_inFlight (hs : s.Sound c) : f ∈ s.inFlight run ↔
    (s.threads f).run = run ∧ (s.threads f).go ≠ .absent ∧ (s.threads f).go ≠ .ended := by
  simp only [inFlight, Finset.mem_filter, Finset.mem_range, and_iff_right_iff_imp]
  rintro ⟨-, hgo, -⟩
  refine hs.lt_calls fun hpc => hgo ?_
  exact (hs.life f).placed.go_absent_of_not_published (by rw [hpc]; rfl)

/-- The goroutines that are not moved stay in flight. -/
theorem Sound.inFlight_eq (hs : s.Sound c) (hs' : s'.Sound c)
    (hgo : ∀ f, (s'.threads f).go = (s.threads f).go)
    (hrun : ∀ f, (s'.threads f).run = (s.threads f).run) : s'.inFlight run = s.inFlight run := by
  ext f
  rw [hs.mem_inFlight, hs'.mem_inFlight, hgo, hrun]

/-- The worker bound at each place of the loop: from its head on there is room for one more. -/
def Within (n : Nat) (loop : Loop) : Prop :=
  match loop.pc with
  | .looking | .holding _ | .marking _ | .launching _ => loop.active < n
  | _ => loop.active ≤ n

theorem Within.le {n : Nat} {loop : Loop} (h : Within n loop) : loop.active ≤ n := by
  unfold Within at h
  split at h <;> omega

/-- What `active` counts: besides the goroutines and their results `k` slots that nobody will give
back, since `runtime.Goexit` skips the send. -/
structure Leaks (c : Config) (k : Nat) (s : State) : Prop where
  fresh : ∀ run, s.epoch < run → s.results run = 0
  runs : ∀ f, (s.threads f).run ≤ s.epoch
  within : Within c.numWorkers s.loop
  active : s.done s.epoch = false → s.loop.active = s.fiberWG s.epoch + s.results s.epoch + k

variable {k : Nat}

/-- A step that moves no goroutine, leaves `active` and the results alone, and does not begin a
run. -/
theorem Leaks.of_same (hw : s.Leaks c k) (hs : s.Sound c) (hs' : s'.Sound c)
    (hepoch : s'.epoch = s.epoch) (hcancel : s.cancelled ⊆ s'.cancelled)
    (hactive : s'.loop.active = s.loop.active) (hwithin : Within c.numWorkers s'.loop)
    (hres : s'.results = s.results) (hgo : ∀ f, (s'.threads f).go = (s.threads f).go)
    (hrun : ∀ f, (s'.threads f).run = (s.threads f).run) : s'.Leaks c k where
  fresh k hk := by rw [hres]; exact hw.fresh k (hepoch ▸ hk)
  runs f := by rw [hrun, hepoch]; exact hw.runs f
  within := hwithin
  active hctx := by
    rw [fiberWG_eq_card, hs.inFlight_eq hs' hgo hrun, hactive, hres, hepoch]
    refine hw.active (decide_eq_false fun hmem => ?_)
    rw [hepoch] at hctx
    exact of_decide_eq_false hctx (hcancel hmem)

/-! ## The loop -/

/-- A step of the loop: it receives a result, it launches a fiber, or it does neither. -/
inductive LoopFlow (c : Config) (s s' : State) : LoopChoice → Prop where
  | receive (hpc : s.loop.pc = .select ∨ s.loop.pc = .drain) (hres : 0 < s.results s.epoch)
      (hs : s' = { s with
        results := Function.update s.results s.epoch (s.results s.epoch - 1)
        loop := { s.loop with active := s.loop.active - 1 } }) : LoopFlow c s s' .result
  | launch (f : FiberID) (hpc : s.loop.pc = .launching f) (hs : s' = s.launch f) :
      LoopFlow c s s' .next
  | other {choice : LoopChoice} (hpc : ∀ f, choice = .next → s.loop.pc ≠ .launching f)
      (hchoice : choice ≠ .result) (hactive : s'.loop.active = s.loop.active)
      (hres : s'.results = s.results) (hgo : ∀ f, (s'.threads f).go = (s.threads f).go)
      (hrun : ∀ f, (s'.threads f).run = (s.threads f).run)
      (hwithin : Within c.numWorkers s.loop → Within c.numWorkers s'.loop) :
      LoopFlow c s s' choice

theorem within_setLoop {n : Nat} {loop : Loop} {pc pc' : LoopPc} (hpc : loop.pc = pc)
    (h : Within n ⟨pc, loop.active⟩ → Within n ⟨pc', loop.active⟩) (hw : Within n loop) :
    Within n { loop with pc := pc' } := by
  subst hpc
  exact h hw

theorem setLoop_flow {choice : LoopChoice} {pc pc' : LoopPc} (hpc : s.loop.pc = pc)
    (hne : ∀ f, pc ≠ .launching f) (hchoice : choice ≠ .result)
    (hwithin : Within c.numWorkers ⟨pc, s.loop.active⟩ → Within c.numWorkers ⟨pc', s.loop.active⟩) :
    LoopFlow c s (s.setLoop pc') choice :=
  .other (fun f _ => hpc ▸ hne f) hchoice rfl rfl (fun _ => rfl) (fun _ => rfl)
    (within_setLoop hpc hwithin)

theorem loopStep_flow {choice : LoopChoice} (h : s.loopStep c choice = some s') :
    LoopFlow c s s' choice := by
  cases loopStep_effect h with
  | done hpc | tick hpc | drained hpc | rest hpc => exact setLoop_flow hpc nofun nofun id
  | receive hpc hpos => exact .receive hpc hpos rfl
  | look hpc hfree => exact setLoop_flow hpc nofun nofun fun _ => hfree.1
  | lookEmpty hpc =>
    exact .other (fun f _ => by rw [hpc]; exact nofun) nofun rfl rfl (fun _ => rfl) (fun _ => rfl)
      id
  | take hpc =>
    exact .other (fun f _ => by rw [hpc]; exact nofun) nofun rfl rfl (fun _ => rfl) (fun _ => rfl)
      (within_setLoop hpc id)
  | noFibers hpc => exact setLoop_flow hpc nofun nofun Within.le
  | test hpc => exact setLoop_flow hpc nofun nofun id
  | drop hpc => exact setLoop_flow hpc nofun nofun Within.le
  | mark hpc =>
    refine .other (fun f _ => by rw [hpc]; exact nofun) nofun rfl rfl (fun f => ?_) (fun f => ?_)
      (within_setLoop hpc id) <;>
    · simp only [setLoop, setThread, Function.update_apply]
      split_ifs with hf <;> simp [hf]
  | launch hpc => exact .launch _ hpc rfl

theorem Leaks.loopStep {choice : LoopChoice} (hw : s.Leaks c k) (hs : s.Sound c) (hs' : s'.Sound c)
    (h : s.loopStep c choice = some s') : s'.Leaks c k := by
  obtain ⟨hepoch, hcancel, -⟩ := (loopStep_frame h).1.run
  cases loopStep_flow h with
  | receive hpc hres ht =>
    have hbound := hw.within.le
    have hflight : s'.inFlight s.epoch = s.inFlight s.epoch :=
      hs.inFlight_eq hs' (by subst ht; exact fun _ => rfl) (by subst ht; exact fun _ => rfl)
    subst ht
    refine ⟨fun k hk => ?_, hw.runs, ?_, fun hctx => ?_⟩
    · simpa [Function.update_of_ne (Nat.ne_of_gt hk)] using hw.fresh k hk
    · rcases hpc with hpc | hpc <;> simp only [Within, hpc] <;> omega
    · have hactive := hw.active hctx
      rw [fiberWG_eq_card] at hactive ⊢
      rw [hflight]
      simp only [Function.update_self]
      omega
  | launch f hpc ht =>
    have habsent := hs.go_absent_of_launching hpc
    have hflight : s'.inFlight s.epoch = insert f (s.inFlight s.epoch) := by
      ext g
      rw [Finset.mem_insert, hs.mem_inFlight, hs'.mem_inFlight]
      subst ht
      by_cases hg : g = f
      · subst hg
        simp [launch, setThread]
      · simp [launch, setThread, hg]
    have hnew : f ∉ s.inFlight s.epoch := by simp [hs.mem_inFlight, habsent]
    have hroom : s.loop.active < c.numWorkers := by
      have hwithin := hw.within
      simpa only [Within, hpc] using hwithin
    subst ht
    refine ⟨hw.fresh, fun g => ?_, hroom, fun hctx => ?_⟩
    · by_cases hg : g = f
      · subst hg
        simp [launch, setThread]
      · simpa [launch, setThread, hg] using hw.runs g
    · have hactive := hw.active hctx
      rw [fiberWG_eq_card] at hactive ⊢
      rw [show (s.launch f).epoch = s.epoch from rfl, hflight, Finset.card_insert_of_notMem hnew]
      simp only [launch, setThread]
      omega
  | other _ _ hactive hres hgo hrun hwithin =>
    exact hw.of_same hs hs' hepoch (hcancel ▸ subset_rfl) hactive (hwithin hw.within) hres hgo hrun

/-! ## The goroutines -/

/-- A step of the goroutine of fiber `f`: it delivers its result and ends, or it stays in
flight. -/
structure GoFlow (s s' : State) (f : FiberID) : Prop where
  loop : s'.loop = s.loop
  others : ∀ g, g ≠ f → s'.threads g = s.threads g
  run : (s'.threads f).run = (s.threads f).run
  before : (s.threads f).go ≠ .absent ∧ (s.threads f).go ≠ .ended
  after : (s'.threads f).go = .ended
      ∧ s'.results = Function.update s.results (s.threads f).run (s.results (s.threads f).run + 1)
    ∨ (s'.threads f).go ≠ .absent ∧ (s'.threads f).go ≠ .ended ∧ s'.results = s.results

theorem goStep_flow {drop : Finset FiberID} (h : s.goStep c f drop = some s') :
    s.GoFlow s' f := by
  cases goStep_effect h with
  | send hgo =>
    refine ⟨rfl, fun g hg => Function.update_of_ne hg .., ?_, by simp [hgo], .inl ⟨?_, rfl⟩⟩
    · simp [setGo, setThread, deliver]
    · exact go_setGo ..
  | run hgo | body hgo =>
    refine ⟨rfl, fun g hg => Function.update_of_ne hg .., ?_, by simp [hgo], .inr ?_⟩
    · simp [setFiber, setThread]
    · rw [go_setFiber]
      exact ⟨by simp, by simp, rfl⟩
  | skip hgo | recordCompleted hgo | marked hgo | markCompleted hgo | markCompletedFirst hgo
  | undo hgo =>
    refine ⟨rfl, fun g hg => Function.update_of_ne hg .., ?_, by simp [hgo], .inr ?_⟩
    · simp [setGo, setThread, addCount]
    · rw [go_setGo]
      exact ⟨by simp, by simp, rfl⟩
  | sweep hgo | remove hgo =>
    refine ⟨rfl, fun g hg => Function.update_of_ne hg .., ?_, by simp [hgo], .inr ?_⟩
    · simp [setGo, setThread]
    · rw [go_setGo]
      split_ifs <;> exact ⟨by simp, by simp, rfl⟩

/-- A goroutine that ends leaves the ones in flight. -/
theorem inFlight_of_ended (hs : s.Sound c) (hs' : s'.Sound c)
    (hothers : ∀ g, g ≠ f → s'.threads g = s.threads g) (hended : (s'.threads f).go = .ended)
    (run : Nat) : s'.inFlight run = (s.inFlight run).erase f := by
  ext g
  rw [Finset.mem_erase, hs.mem_inFlight, hs'.mem_inFlight]
  by_cases hg : g = f
  · subst hg
    simp [hended]
  · simp [hothers g hg, hg]

theorem Leaks.goStep {drop : Finset FiberID} (hw : s.Leaks c k) (hs : s.Sound c) (hs' : s'.Sound c)
    (h : s.goStep c f drop = some s') : s'.Leaks c k := by
  obtain ⟨hepoch, hcancel, -⟩ := (goStep_frame h).run
  obtain ⟨hloop, hothers, hrun, hbefore, hafter⟩ := goStep_flow h
  have hruns : ∀ g, (s'.threads g).run = (s.threads g).run := by
    intro g
    by_cases hg : g = f
    · exact hg ▸ hrun
    · rw [hothers g hg]
  have hwithin : Within c.numWorkers s'.loop := hloop ▸ hw.within
  rcases hafter with ⟨hended, hres⟩ | ⟨habsent, hended, hres⟩
  · -- the result goes to the run that launched the goroutine, which need not be the current one
    refine ⟨fun k hk => ?_, fun g => by rw [hruns, hepoch]; exact hw.runs g, hwithin,
      fun hctx => ?_⟩
    · rw [hepoch] at hk
      have hne : k ≠ (s.threads f).run := Nat.ne_of_gt ((hw.runs f).trans_lt hk)
      rw [hres, Function.update_of_ne hne]
      exact hw.fresh k hk
    · have hactive := hw.active (by simpa [done, hepoch, hcancel] using hctx)
      rw [fiberWG_eq_card] at hactive ⊢
      rw [hepoch, hloop, hres, inFlight_of_ended hs hs' hothers hended]
      by_cases hcur : (s.threads f).run = s.epoch
      · have hmem : f ∈ s.inFlight s.epoch := hs.mem_inFlight.mpr ⟨hcur, hbefore⟩
        have hpos := Finset.card_pos.mpr ⟨f, hmem⟩
        rw [Finset.card_erase_of_mem hmem, hcur, Function.update_self]
        omega
      · rw [Finset.erase_eq_of_notMem fun hmem => hcur (hs.mem_inFlight.mp hmem).1,
          Function.update_of_ne (Ne.symm hcur)]
        exact hactive
  · refine ⟨fun k hk => ?_, fun g => by rw [hruns, hepoch]; exact hw.runs g, hwithin,
      fun hctx => ?_⟩
    · rw [hres]
      exact hw.fresh k (hepoch ▸ hk)
    · have hactive := hw.active (by simpa [done, hepoch, hcancel] using hctx)
      have hflight : s'.inFlight s.epoch = s.inFlight s.epoch := by
        ext g
        rw [hs.mem_inFlight, hs'.mem_inFlight, hruns]
        by_cases hg : g = f
        · subst hg
          simp [hbefore, habsent, hended]
        · rw [hothers g hg]
      rw [fiberWG_eq_card] at hactive ⊢
      rw [hepoch, hloop, hres, hflight]
      exact hactive

/-- A goroutine that ends without sending a result leaves `active` as it is. -/
theorem Leaks.ended {t : Thread} (hw : s.Leaks c k) (hs : s.Sound c)
    (hs' : (s.setThread f t).Sound c) (hrun : t.run = (s.threads f).run) (hend : t.go = .ended)
    (hbefore : (s.threads f).go ≠ .absent ∧ (s.threads f).go ≠ .ended) :
    (s.setThread f t).Leaks c (if (s.threads f).run = s.epoch then k + 1 else k) := by
  have hself : (s.setThread f t).threads f = t := Function.update_self ..
  have hothers : ∀ g, g ≠ f → (s.setThread f t).threads g = s.threads g :=
    fun g hg => Function.update_of_ne hg ..
  have hruns : ∀ g, ((s.setThread f t).threads g).run = (s.threads g).run := by
    intro g
    by_cases hg : g = f
    · rw [hg, hself, hrun]
    · rw [hothers g hg]
  refine ⟨hw.fresh, fun g => (hruns g).trans_le (hw.runs g), hw.within, fun hctx => ?_⟩
  have hactive := hw.active hctx
  have hflight := inFlight_of_ended hs hs' hothers (by rw [hself, hend]) s.epoch
  rw [fiberWG_eq_card] at hactive ⊢
  show s.loop.active = ((s.setThread f t).inFlight s.epoch).card + s.results s.epoch + _
  rw [hflight]
  split_ifs with hcur
  · have hmem : f ∈ s.inFlight s.epoch := hs.mem_inFlight.mpr ⟨hcur, hbefore⟩
    have hpos := Finset.card_pos.mpr ⟨f, hmem⟩
    rw [Finset.card_erase_of_mem hmem]
    omega
  · rw [Finset.erase_eq_of_notMem fun hmem => hcur (hs.mem_inFlight.mp hmem).1]
    exact hactive

/-- A result is dropped only when the context of its run is done. -/
theorem Leaks.discardStep (hw : s.Leaks c k) (hs : s.Sound c) (hs' : s'.Sound c)
    (h : s.discardStep f = some s') : s'.Leaks c k := by
  unfold State.discardStep at h
  split_ifs at h with hdrop
  cases h
  have hended := hw.ended hs hs' rfl rfl (by simp [hdrop.1])
  by_cases hcur : (s.threads f).run = s.epoch
  · -- the current run is done, and nothing is said about its slots
    refine ⟨hended.fresh, hended.runs, hended.within, fun hctx => ?_⟩
    have hdone : s.done s.epoch = true := hcur ▸ hdrop.2
    cases hdone.symm.trans hctx
  · rwa [if_neg hcur] at hended

/-! ## `Start`, `Stop` and `Reset` -/

/-- But for the setup of a new run these leave the loop and the results alone. -/
theorem lifecycleStep_same (h : s.lifecycleStep c = some s') (hstart : s.lifecycle ≠ .startRun) :
    s'.epoch = s.epoch ∧ s.cancelled ⊆ s'.cancelled ∧ s'.loop = s.loop
      ∧ s'.results = s.results := by
  cases lifecycleStep_effect h with
  | startRun hl => exact absurd hl hstart
  | stopCancel => exact ⟨rfl, Finset.subset_insert .., rfl, rfl⟩
  | _ => exact ⟨rfl, subset_rfl, rfl, rfl⟩

/-- A new run: no goroutine of it yet, and nothing in its channel. -/
theorem Leaks.startRun (hw : s.Leaks c k) (hs' : s'.Sound c) (h : s.lifecycleStep c = some s')
    (hstart : s.lifecycle = .startRun) : s'.Leaks c 0 := by
  have hthreads := lifecycleStep_threads h
  simp only [State.lifecycleStep, hstart, Option.some.injEq] at h
  have hnone : s'.inFlight (s.epoch + 1) = ∅ := by
    refine Finset.eq_empty_of_forall_notMem fun f hf => ?_
    have hrun := (hs'.mem_inFlight.mp hf).1
    have hle := hw.runs f
    rw [hthreads] at hrun
    omega
  subst h
  refine ⟨fun k hk => hw.fresh k (Nat.lt_of_succ_lt hk),
    fun f => (hw.runs f).trans (Nat.le_succ _), Nat.zero_le _, fun _ => ?_⟩
  rw [fiberWG_eq_card, hnone]
  simp [hw.fresh (s.epoch + 1) (Nat.lt_succ_self _)]

theorem Leaks.lifecycleStep (hw : s.Leaks c k) (hs : s.Sound c) (hs' : s'.Sound c)
    (h : s.lifecycleStep c = some s') (hstart : s.lifecycle ≠ .startRun) : s'.Leaks c k := by
  have hthreads := lifecycleStep_threads h
  obtain ⟨hepoch, hcancel, hloop, hres⟩ := lifecycleStep_same h hstart
  exact hw.of_same hs hs' hepoch hcancel (by rw [hloop]) (hloop ▸ hw.within) hres
    (fun _ => by rw [hthreads]) (fun _ => by rw [hthreads])

/-- The steps aside leave the loop and the results alone. -/
theorem step_aside (h : step c s l = some s') (hl : l.isAside = true) :
    s'.epoch = s.epoch ∧ s.cancelled ⊆ s'.cancelled ∧ s'.loop = s.loop
      ∧ s'.results = s.results := by
  cases step_effect h with
  | spawn hspawn => cases hspawn <;> exact ⟨rfl, subset_rfl, rfl, rfl⟩
  | cancelCtx => exact ⟨rfl, Finset.subset_insert .., rfl, rfl⟩
  | loop | go | discard | goexit | lifecycle => cases hl
  | _ => exact ⟨rfl, subset_rfl, rfl, rfl⟩

/-- And they move no goroutine. -/
theorem step_aside_go (h : step c s l = some s') (hl : l.isAside = true) (f : FiberID) :
    (s'.threads f).go = (s.threads f).go ∧ (s'.threads f).run = (s.threads f).run := by
  cases step_moves h f with
  | rest ht | call _ ht | spawn _ _ ht => rw [ht]; exact ⟨rfl, rfl⟩
  | body _ hbody ht => rw [ht, hbody]; exact ⟨rfl, rfl⟩
  | mark | launch => cases hl
  | go hgo => rcases hgo with ⟨drop, rfl⟩ | rfl | rfl <;> cases hl

/-- The slots leaked by the current run after one more step. -/
def leaked (s : State) (k : Nat) : Label → Nat
  | .goexit f => if (s.threads f).run = s.epoch then k + 1 else k
  | .lifecycle => if s.lifecycle = .startRun then 0 else k
  | _ => k

theorem Leaks.step (hw : s.Leaks c k) (hs : s.Sound c) (h : step c s l = some s') :
    s'.Leaks c (s.leaked k l) := by
  have hs' := hs.step h
  by_cases haside : l.isAside = true
  · have hgo := step_aside_go h haside
    obtain ⟨hepoch, hcancel, hloop, hres⟩ := step_aside h haside
    have hsame : s.leaked k l = k := by
      cases l <;> first | rfl | cases haside
    rw [hsame]
    exact hw.of_same hs hs' hepoch hcancel (by rw [hloop]) (hloop ▸ hw.within) hres
      (fun f => (hgo f).1) (fun f => (hgo f).2)
  · cases l with
    | loop choice => exact hw.loopStep hs hs' h
    | go f drop => exact hw.goStep hs hs' h
    | discard f => exact hw.discardStep hs hs' h
    | goexit f =>
      cases step_effect h with | goexit hbody =>
      exact hw.ended hs hs' rfl rfl (by simp [hbody])
    | lifecycle =>
      by_cases hstart : s.lifecycle = .startRun
      · rw [leaked, if_pos hstart]
        exact hw.startRun hs' h hstart
      · rw [leaked, if_neg hstart]
        exact hw.lifecycleStep hs hs' h hstart
    | _ => exact absurd rfl haside

/-- Without `runtime.Goexit` no slot is lost. -/
theorem Leaks.step_zero (hw : s.Leaks c 0) (hs : s.Sound c) (hexit : l.isGoexit = false)
    (h : Runtime.step c s l = some s') : s'.Leaks c 0 := by
  have hnone : s.leaked 0 l = 0 := by
    cases l with
    | goexit f => cases hexit
    | lifecycle => exact ite_self 0
    | _ => rfl
  have hstep := hw.step hs h
  rwa [hnone] at hstep

end State

/-! ## Dispatches and results -/

/-- A runtime and the books of its current run: how many fibers its loop has dispatched and how
many results it has received. Nothing reads the books. -/
structure Tally where
  rt : State
  dispatches : Nat
  received : Nat

namespace Tally

def init (s : State) : Tally := ⟨s, 0, 0⟩

/-- What a step enters into the books. -/
def record (t : Tally) (l : Label) (s' : State) : Tally :=
  match l, t.rt.loop.pc with
  | .loop .next, .launching _ => ⟨s', t.dispatches + 1, t.received⟩
  | .loop .result, _ => ⟨s', t.dispatches, t.received + 1⟩
  | .lifecycle, _ => if t.rt.lifecycle = .startRun then init s' else { t with rt := s' }
  | _, _ => { t with rt := s' }

/-- One step of the runtime. -/
def step (c : Config) (t : Tally) (l : Label) : Option Tally :=
  (Runtime.step c t.rt l).map (t.record l)

variable {c : Config} {t t' : Tally} {l : Label}

theorem record_rt (t : Tally) (l : Label) (s' : State) : (t.record l s').rt = s' := by
  unfold record
  split <;> (try split_ifs) <;> rfl

theorem step_rt (h : t.step c l = some t') :
    Runtime.step c t.rt l = some t'.rt ∧ t' = t.record l t'.rt := by
  obtain ⟨s', hs', rfl⟩ := Option.map_eq_some_iff.mp h
  rw [record_rt]
  exact ⟨hs', rfl⟩

/-- The books are right. -/
def Exact (t : Tally) : Prop :=
  t.rt.done t.rt.epoch = false → t.rt.loop.active + t.received = t.dispatches

theorem Exact.of_same (he : t.Exact) (hepoch : t'.rt.epoch = t.rt.epoch)
    (hcancel : t.rt.cancelled ⊆ t'.rt.cancelled)
    (hactive : t'.rt.loop.active = t.rt.loop.active)
    (hbooks : t'.dispatches = t.dispatches ∧ t'.received = t.received) : t'.Exact := by
  intro hctx
  rw [hactive, hbooks.1, hbooks.2]
  refine he (decide_eq_false fun hmem => ?_)
  rw [hepoch] at hctx
  exact of_decide_eq_false hctx (hcancel hmem)

theorem Exact.loopStep {choice : LoopChoice} (he : t.Exact) (hw : t.rt.Leaks c 0)
    (h : t.step c (.loop choice) = some t') : t'.Exact := by
  obtain ⟨hs, hrec⟩ := step_rt h
  obtain ⟨hepoch, hcancel, -⟩ := (State.loopStep_frame hs).1.run
  have hctx : t'.rt.done t'.rt.epoch = t.rt.done t.rt.epoch := by
    rw [State.done, hepoch, hcancel]
    rfl
  cases State.loopStep_flow hs with
  | receive _ hres ht =>
    intro hdone
    rw [hctx] at hdone
    -- the result received is one of those `active` counts
    have hflow := hw.active hdone
    have hbooks := he hdone
    rw [hrec, ht]
    simp only [record]
    omega
  | launch f hpc ht =>
    intro hdone
    have hbooks := he (hctx ▸ hdone)
    rw [hrec, ht]
    simp only [record, hpc, State.launch]
    omega
  | other hpc hchoice hactive =>
    refine he.of_same hepoch (hcancel ▸ subset_rfl) hactive ?_
    rw [hrec]
    unfold record
    split
    · next g hl hg => exact absurd hg (hpc g (Label.loop.inj hl))
    · next hl => exact absurd (Label.loop.inj hl) hchoice
    · next hl => cases hl
    · exact ⟨rfl, rfl⟩

theorem Exact.step (he : t.Exact) (hw : t.rt.Leaks c 0) (h : t.step c l = some t') : t'.Exact := by
  obtain ⟨hs, hrec⟩ := step_rt h
  cases l with
  | loop choice => exact he.loopStep hw h
  | go f drop | discard f | goexit f =>
    obtain ⟨hepoch, hcancel, -⟩ := (State.step_frame hs rfl).run
    have hloop := ((State.step_work hs rfl).2.2).resolve_right nofun
    refine he.of_same hepoch (hcancel ▸ subset_rfl) (by rw [hloop]) ?_
    rw [hrec]
    exact ⟨rfl, rfl⟩
  | lifecycle =>
    by_cases hstart : t.rt.lifecycle = .startRun
    · intro _
      simp only [Runtime.step, State.lifecycleStep, hstart, Option.some.injEq] at hs
      rw [hrec, ← hs]
      simp only [record, hstart, if_true, init]
    · obtain ⟨hepoch, hcancel, hloop, -⟩ := State.lifecycleStep_same hs hstart
      refine he.of_same hepoch hcancel (by rw [hloop]) ?_
      rw [hrec]
      simp only [record, hstart, if_false, and_self]
  | _ =>
    obtain ⟨hepoch, hcancel, hloop, -⟩ := State.step_aside hs rfl
    refine he.of_same hepoch hcancel (by rw [hloop]) ?_
    rw [hrec]
    exact ⟨rfl, rfl⟩

end Tally

section

variable {c : Config} {s₀ : State} {t : Tally}

theorem Initial.leaks (h₀ : Initial c s₀) : s₀.Leaks c 0 := by
  rcases h₀ with rfl | rfl <;>
    exact ⟨fun _ _ => rfl, fun _ => Nat.le_refl 0, Nat.zero_le _, fun _ => rfl⟩

theorem leaks_of_reach {s : State} (h₀ : Initial c s₀)
    (h : Reach (step c) (fun _ l => l.isGoexit = false) s₀ s) : s.Leaks c 0 :=
  sound_invariant h₀.sound h₀.leaks (fun _ _ _ hs hw hok hst => hw.step_zero hs hok hst) h

theorem exact_of_reach (h₀ : Initial c s₀)
    (h : Reach (Tally.step c) (fun _ l => l.isGoexit = false) (.init s₀) t) :
    t.rt.Leaks c 0 ∧ t.Exact := by
  have hall : t.rt.Sound c ∧ t.rt.Leaks c 0 ∧ t.Exact := by
    refine h.invariant (P := fun t => t.rt.Sound c ∧ t.rt.Leaks c 0 ∧ t.Exact) ?_ ?_
    · refine ⟨h₀.sound, h₀.leaks, fun _ => ?_⟩
      rcases h₀ with rfl | rfl <;> rfl
    · rintro t l t' ⟨hs, hw, he⟩ hok hst
      have hstep := (Tally.step_rt hst).1
      exact ⟨hs.step hstep, hw.step_zero hs hok hstep, he.step hw hst⟩
  exact hall.2

/-- In every run whose fiber functions end by return or panic `active` is at most `numWorkers`;
and while the context of the current run is not cancelled `active` is the number of dispatches
minus the number of results received, every result received decrements it, and it bounds the
dispatched fibers whose goroutine has not delivered its result. -/
theorem active_bounds_inFlight (h₀ : Initial c s₀)
    (h : Reach (Tally.step c) (fun _ l => l.isGoexit = false) (.init s₀) t) :
    t.rt.loop.active ≤ c.numWorkers
      ∧ (t.rt.done t.rt.epoch = false →
        (t.rt.loop.active : Int) = t.dispatches - t.received
          ∧ (∀ t', t.step c (.loop .result) = some t' → t'.rt.loop.active + 1 = t.rt.loop.active)
          ∧ (t.rt.inFlight t.rt.epoch).card ≤ t.rt.loop.active) := by
  obtain ⟨hw, he⟩ := exact_of_reach h₀ h
  refine ⟨hw.within.le, fun hctx => ?_⟩
  have hactive := hw.active hctx
  have hbooks := he hctx
  refine ⟨by omega, fun t' hst => ?_, ?_⟩
  · cases State.loopStep_flow (Tally.step_rt hst).1 with
    | receive _ hres ht =>
      rw [ht]
      simp only
      omega
    | other _ hchoice => exact absurd rfl hchoice
  · rw [← State.fiberWG_eq_card]
    omega

end

/-- Two workers are busy with fibers 0 and 1; fiber 0 has finished, and its result is waiting. -/
theorem active_bounds_inFlight_waiting :
    ∃ t, Reach (Tally.step (.ofNewRuntime .fifo 2)) (fun _ l => l.isGoexit = false)
        (.init (.new (.ofNewRuntime .fifo 2))) t
      ∧ t.dispatches = 2 ∧ t.received = 0 ∧ t.rt.results 1 = 1 ∧ t.rt.done t.rt.epoch = false
      ∧ t.rt.loop.active ≤ 2 ∧ (t.rt.inFlight t.rt.epoch).card ≤ t.rt.loop.active := by
  obtain ⟨t, ht, htest⟩ := exists_reach_of_exec_guarded (Tally.step (.ofNewRuntime .fifo 2))
    (fun _ l => l.isGoexit = false) (.init (.new (.ofNewRuntime .fifo 2)))
    (List.flatten [Label.startTrace, [.call false 0, .call false 0], Label.spawnTrace 0 9,
      Label.spawnTrace 1 9, Label.dispatchTrace 0,
      [.loop .next, .loop (.look 0 (some 1)), .loop .next, .loop .next, .loop .next],
      List.replicate 6 (.go 0 ∅)])
    (fun t => decide (t.dispatches = 2 ∧ t.received = 0 ∧ t.rt.results 1 = 1
      ∧ t.rt.done t.rt.epoch = false))
    (by decide +kernel)
  obtain ⟨hdispatches, hreceived, hresult, hctx⟩ := of_decide_eq_true htest
  obtain ⟨hle, hrest⟩ := active_bounds_inFlight (.inl rfl) ht
  exact ⟨t, ht, hdispatches, hreceived, hresult, hctx, hle, (hrest hctx).2.2⟩

end GreenThreads.Runtime
