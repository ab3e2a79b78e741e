import GreenThreads.Runtime.Detector
import GreenThreads.Runtime.Exhaustion

/-!
# GreenThreads — the detector finds that all workers are held

When blocked fibers hold all workers, no step of anybody else hides it from the detector: whenever
it clones a fiber, that fiber is blocked if it holds a worker, and is not running in any case
(`State.Stuck`). So each scan that begins after that state was reached sees no progress, and the
first of them whose time is a timeout later finds the deadlock reported, or reports it
(`exhaustion_detected`).

A scan that was under way when the state was reached may have cloned its fibers before; it may
still see progress, and date it later.
-/

namespace GreenThreads.Runtime

open Trans

/-- The steps of the runtime and of the detector's goroutine, but not of the fiber functions that
hold a worker. -/
def WatchLabel.isBystander : WatchLabel → Bool
  | .runtime l => l.isBystander
  | .detector _ | .setEnabled _ => true
  | .setTimeout _ | .clearDeadlocks => false

/-- A run with neither `Goexit` nor a `Stop` that gives up. -/
def WatchLabel.isRegular : WatchLabel → Prop
  | .runtime l => l.isGoexit = false ∧ l ≠ .deadline
  | _ => True

instance : (l : WatchLabel) → Decidable l.isRegular
  | .runtime l => inferInstanceAs (Decidable (l.isGoexit = false ∧ l ≠ .deadline))
  | .detector _ | .setEnabled _ | .setTimeout _ | .clearDeadlocks => .isTrue trivial

/-! ## What stays as it is -/

/-- Nothing takes a fiber out of the map while it is inside its function, once its `Spawn` has
returned. -/
theorem Life.Step.keeps_inFibers {n : Nat} {v v' : Life} {e : Event} (h : v.Step n e v')
    {r : Except SpawnError Unit} (hpc : v.pc = .returned r) (hgo : v.go = .body)
    (hstate : v.fiber.state = .blocked) (hreset : v.shared.lifecycle ≠ .resetFibers)
    (hin : v.inFibers = true) : v'.pc = .returned r ∧ v'.inFibers = true := by
  have hrunnable : v.fiber.isRunnable = false := by simp [Fiber.isRunnable, hstate]
  cases h <;> simp_all

namespace State

variable {c : Config} {s s' : State} {l : Label} {f : FiberID}

/-- A blocked fiber stays blocked until somebody unblocks it. -/
theorem Exhausted.blocked_step (hx : s.Exhausted c) (hl : l.isBystander = true)
    (h : Runtime.step c s l = some s') (hstate : (s.threads f).fiber.state = .blocked) :
    (s'.threads f).fiber.state = .blocked := by
  have hgo := go_of_blocked hx.sound hstate
  cases step_moves h f with
  | rest ht | call _ ht | spawn _ _ ht =>
    rw [ht]
    exact hstate
  | mark hpc _ | launch hpc _ =>
    have hnot := hx.pc
    rw [hpc] at hnot
    simp at hnot
  | body hl' _ ht =>
    rcases hl' with rfl | rfl
    · cases step_effect h
      simp only [setFiber, setThread, Function.update_self, Fiber.block]
      split
      · exact hstate
      · rfl
    · cases hl
  | go hl' ht =>
    rcases hl' with ⟨drop, rfl⟩ | rfl | rfl
    · cases hl
    · cases step_effect h with | discard hsend => rw [hgo] at hsend; cases hsend
    · cases hl

/-- The fibers `held`, all blocked, hold all workers, and the detector can see them. -/
structure Stuck (c : Config) (held : Finset FiberID) (s : State) : Prop where
  exhausted : s.Exhausted c
  card : held.card = c.numWorkers
  nonempty : held.Nonempty
  live : ∀ f, s.live f → f ∈ held
  blocked : ∀ f ∈ held, (s.threads f).fiber.state = .blocked
  seen : ∀ f ∈ held, Key.spawned f ∈ s.fibers ∧ ∃ r, (s.threads f).pc = .returned r

namespace Stuck

variable {held : Finset FiberID}

/-- A fiber that has been marked for a worker holds it, and then it is blocked. -/
theorem not_running (hk : s.Stuck c held) (f : FiberID) :
    (s.threads f).fiber.state ≠ .running := by
  intro hstate
  by_cases hlive : s.live f
  · have hblocked := hk.blocked f (hk.live f hlive)
    rw [hstate] at hblocked
    cases hblocked
  · have hfiber : (s.life f).FiberOk := (hk.exhausted.sound.life f).fiber
    have hstate' : (s.life f).fiber.state = .running := hstate
    have hhand : (s.life f).hand ≠ .launching := by
      change s.loop.pc.hand f ≠ .launching
      rcases hk.exhausted.pc with hpc | hpc | hpc | hpc <;> rw [hpc] <;> nofun
    unfold Life.FiberOk at hfiber
    cases hgo : (s.threads f).go with
    | absent =>
      simp only [show (s.life f).go = .absent from hgo, if_neg hhand, hstate'] at hfiber
      cases hfiber.1
    | ended =>
      simp only [show (s.life f).go = .ended from hgo, hstate'] at hfiber
      cases hfiber
    | _ => exact hlive (by simp [State.live, hgo])

/-- What the detector clones is not running, and it is blocked exactly if it holds a worker. -/
theorem clone (hk : s.Stuck c held) (k : Key) :
    (s.clone k).state ≠ .running
      ∧ ((s.clone k).state = .blocked ↔ ∃ f ∈ held, k = .spawned f) := by
  cases k with
  | main k => exact ⟨by simp [State.clone], by simp [State.clone]⟩
  | spawned f =>
    refine ⟨hk.not_running f, fun hstate => ⟨f, hk.live f ?_, rfl⟩, ?_⟩
    · simp [State.live, go_of_blocked hk.exhausted.sound hstate]
    · rintro ⟨g, hg, heq⟩
      cases heq
      exact hk.blocked f hg

theorem step (hk : s.Stuck c held) (hl : l.isBystander = true)
    (h : Runtime.step c s l = some s') : s'.Stuck c held ∧ s'.epoch = s.epoch := by
  obtain ⟨hx', hq⟩ := hk.exhausted.step hl h
  refine ⟨⟨hx', hk.card, hk.nonempty, fun f hf => ?_, fun f hf => ?_, fun f hf => ?_⟩, hq.epoch⟩
  · rw [State.live, hq.go] at hf
    exact hk.live f hf
  · exact hk.exhausted.blocked_step hl h (hk.blocked f hf)
  · obtain ⟨hin, r, hpc⟩ := hk.seen f hf
    have hstate := hk.blocked f hf
    have hreset : s.lifecycle ≠ .resetFibers := by
      intro hreset
      have hok := (hk.exhausted.sound.life 0).shared
      simp only [Shared.Ok, State.life, State.shared, hreset] at hok
      rw [hk.exhausted.stopped] at hok
      cases hok.1
    obtain ⟨hpc', hin'⟩ := (hk.exhausted.sound.step_life h f).keeps_inFibers hpc
      (go_of_blocked hk.exhausted.sound hstate) hstate hreset (decide_eq_true hin)
    exact ⟨of_decide_eq_true hin', r, hpc'⟩

end Stuck

end State

/-! ## A scan -/

/-- The IDs of spawned fibers. -/
def Key.ids (held : Finset FiberID) : Finset FiberID := held.image fun f => Key.id (.spawned f)

theorem Key.mem_ids {held : Finset FiberID} {k : Key} :
    k.id ∈ Key.ids held ↔ ∃ f ∈ held, k = .spawned f := by
  simp only [Key.ids, Finset.mem_image]
  refine exists_congr fun f => and_congr_right fun _ => ⟨fun h => (Key.id_injective h).symm, ?_⟩
  rintro rfl
  rfl

theorem Key.card_ids (held : Finset FiberID) : (Key.ids held).card = held.card :=
  Finset.card_image_of_injective _ fun _ _ h => Key.spawned.inj (Key.id_injective h)

/-- The scan sees no progress, and that the fibers `held` are blocked, and no others. -/
structure Scan.Finds (held : Finset FiberID) (x : Scan) : Prop where
  noRunnable : x.noRunnable = true
  blocked : (x.blocked.map Prod.fst).toFinset = Key.ids held

/-- The fibers cloned so far are the ones of a state in which `held` are blocked and none runs. -/
def ClonedFrom (held : Finset FiberID) (fibers : List (Key × Fiber)) : Prop :=
  ∀ x ∈ fibers, x.2.state ≠ .running ∧ (x.2.state = .blocked ↔ ∃ f ∈ held, x.1 = .spawned f)

section

variable {c : Config} {held : Finset FiberID} {fibers : List (Key × Fiber)} {main : Option Nat}
  {now : Int}

theorem mem_observed_scanOf {p : FiberID × Fiber} :
    p ∈ (Watched.scanOf c main fibers now).observed
      ↔ (∃ x ∈ fibers, p = (x.1.id, x.2)) ∧ p.1 ≠ (main.map fun k => Key.id (.main k)).getD 0 := by
  rw [Scan.observed, List.mem_filter]
  refine and_congr ?_ decide_eq_true_iff
  simp only [Watched.scanOf, List.mem_mergeSort, List.mem_map, eq_comm (b := p)]

/-- Spawned fibers are not left out as the main fiber is. -/
theorem Key.id_spawned_ne (main : Option Nat) (f : FiberID) :
    Key.id (.spawned f) ≠ (main.map fun k => Key.id (.main k)).getD 0 := by
  cases main with
  | none => exact Key.id_ne_zero _
  | some k =>
    intro h
    cases Key.id_injective (show Key.id (.spawned f) = Key.id (.main k) from h)

/-- When all that hold a worker have been cloned. -/
theorem scanOf_finds (hcard : held.card = c.numWorkers) (hne : held.Nonempty)
    (hall : ∀ f ∈ held, Key.spawned f ∈ fibers.map Prod.fst) (hfrom : ClonedFrom held fibers) :
    (Watched.scanOf c main fibers now).Finds held := by
  have hblocked : ((Watched.scanOf c main fibers now).blocked.map Prod.fst).toFinset
      = Key.ids held := by
    ext i
    simp only [List.mem_toFinset, List.mem_map, Scan.blocked, Scan.inState, List.mem_filter,
      mem_observed_scanOf, decide_eq_true_eq]
    constructor
    · rintro ⟨p, ⟨⟨⟨x, hx, rfl⟩, -⟩, hstate⟩, rfl⟩
      exact Key.mem_ids.mpr ((hfrom x hx).2.mp hstate)
    · intro hi
      obtain ⟨f, hf, rfl⟩ := Finset.mem_image.mp hi
      obtain ⟨x, hx, hkey⟩ := List.mem_map.mp (hall f hf)
      refine ⟨(x.1.id, x.2), ⟨⟨⟨x, hx, rfl⟩, ?_⟩, (hfrom x hx).2.mpr ⟨f, hf, hkey⟩⟩, by rw [hkey]⟩
      rw [hkey]
      exact Key.id_spawned_ne main f
  refine ⟨?_, hblocked⟩
  have hlength : c.numWorkers ≤ (Watched.scanOf c main fibers now).blocked.length := by
    rw [← hcard, ← Key.card_ids, ← hblocked, ← List.length_map (f := Prod.fst)]
    exact List.toFinset_card_le _
  have hpos : 0 < c.numWorkers := hcard ▸ Finset.card_pos.mpr hne
  have hrunning : (Watched.scanOf c main fibers now).running = 0 := by
    rw [Scan.running, List.length_eq_zero_iff, Scan.inState, List.filter_eq_nil_iff]
    intro p hp
    obtain ⟨⟨x, hx, rfl⟩, -⟩ := mem_observed_scanOf.mp hp
    simpa using (hfrom x hx).1
  have hslots : (Watched.scanOf c main fibers now).slotsAllBlocked = true := by
    rw [Scan.slotsAllBlocked, Bool.and_eq_true]
    exact ⟨decide_eq_true (Int.natCast_pos.mpr hpos), decide_eq_true (Int.ofNat_le.mpr hlength)⟩
  simp only [Scan.noRunnable, hrunning, hslots, Bool.or_true, Bool.and_true, decide_true,
    Bool.true_and, decide_eq_true_eq]
  omega

end

/-! ## The detector -/

namespace DeadlockDetector

theorem append_getLast? (dd : DeadlockDetector) (info : DeadlockInfo) :
    (dd.append info).deadlocks.getLast? = some info := by
  have hlt : ¬ (dd.deadlocks ++ [info]).length
      ≤ (dd.deadlocks ++ [info]).length - maxDeadlockHistory := by
    rw [List.length_append, List.length_singleton, maxDeadlockHistory]
    omega
  simp only [append]
  rw [List.getLast?_drop, if_neg hlt, List.getLast?_concat]

/-- A scan without progress leaves the detector as it is, or its report is the last entry. -/
theorem scan_quiet_report {x : Scan} (dd : DeadlockDetector) (h : x.noRunnable = true) :
    dd.scan x = dd
      ∨ dd.deadlockActive = false ∧ (dd.scan x).deadlockActive = true
        ∧ ∃ info, (dd.scan x).deadlocks.getLast? = some info ∧ info.resolved = false
          ∧ info.detectedAt = x.now ∧ info.blockedFibers = x.blocked := by
  have hnote : dd.noteProgress x = dd := by simp [noteProgress, h]
  unfold scan entry
  rw [hnote, h]
  cases hreports : dd.reports x with
  | true =>
    have hidle : dd.deadlockActive = false := by
      simp only [reports, Bool.and_eq_true, Bool.not_eq_true'] at hreports
      exact hreports.2
    exact .inr ⟨hidle, rfl, _, append_getLast? .., rfl, rfl, rfl⟩
  | false => exact .inl rfl

/-- The last entry of the history reports that the fibers `held` are blocked; it is not from after
`now`. -/
def Reported (held : Finset FiberID) (now : Int) (dd : DeadlockDetector) : Prop :=
  ∃ info, dd.deadlocks.getLast? = some info ∧ info.resolved = false ∧ info.detectedAt ≤ now
    ∧ (info.blockedFibers.map Prod.fst).toFinset = Key.ids held

end DeadlockDetector

namespace Watched

variable {c : Config} {w w' : Watched} {l : WatchLabel} {held : Finset FiberID}

/-- The clock never stands before the last progress, nor before the time of a scan. -/
structure Timed (w : Watched) : Prop where
  lastProgress : w.detector.lastProgress ≤ w.clock
  scan : ∀ x, w.pc = .judging x → x.now ≤ w.clock

theorem Timed.detectorStep {choice : WatchChoice} (ht : w.Timed)
    (h : w.detectorStep c choice = some w') : w'.Timed := by
  cases detectorStep_goes h with
  | started | checked =>
    refine ⟨ht.lastProgress, fun x hx => ?_⟩
    dsimp only at hx
    split_ifs at hx
  | stopped | ticked | gotMain | gotKeys | cloned =>
    exact ⟨ht.lastProgress, fun x hx => by cases hx⟩
  | timed _ hnow =>
    refine ⟨ht.lastProgress.trans hnow, fun x hx => ?_⟩
    cases hx
    exact Int.le_refl _
  | @judged x hpc =>
    refine ⟨?_, fun x hx => by cases hx⟩
    dsimp only
    cases hq : x.noRunnable with
    | true =>
      rw [(w.detector.scan_quiet hq).1]
      exact ht.lastProgress
    | false =>
      rw [(w.detector.scan_progress hq).1]
      exact ht.scan x hpc

theorem Timed.step (ht : w.Timed) (h : w.step c l = some w') : w'.Timed := by
  cases l with
  | runtime l =>
    obtain ⟨rt, -, rfl⟩ := step_runtime h
    unfold moved
    split_ifs
    · exact ⟨Int.le_refl _, fun x hx => by cases hx⟩
    · exact ⟨ht.lastProgress, ht.scan⟩
    · exact ⟨ht.lastProgress, ht.scan⟩
  | detector choice => exact ht.detectorStep h
  | setEnabled | setTimeout | clearDeadlocks =>
    cases h
    exact ⟨ht.lastProgress, ht.scan⟩

/-- What a scan under way has seen, if it has begun while `held` hold all workers. -/
def Sees (held : Finset FiberID) : WatchPc → Prop
  | .cloning _ keys fibers =>
    (∀ f ∈ held, Key.spawned f ∈ fibers.map Prod.fst ++ keys) ∧ ClonedFrom held fibers
  | .judging x => x.Finds held
  | _ => True

/-- What holds on the way from `w₀`, where blocked fibers hold all workers: each scan sees it, and
what the detector adds to its history is one report. -/
structure Alarm (c : Config) (held : Finset FiberID) (w₀ w : Watched) : Prop where
  stuck : w.rt.Stuck c held
  sees : Sees held w.pc
  timed : w.Timed
  timeout : w.detector.timeout = w₀.detector.timeout
  lastProgress : w.detector.lastProgress = w₀.detector.lastProgress
  active : w₀.detector.deadlockActive = true → w.detector.deadlockActive = true
  report : w₀.detector.deadlockActive = false → w.detector.deadlockActive = true →
    w.detector.Reported held w.clock

/-- Nothing is judged in the step. -/
theorem Alarm.of_detector {w₀ : Watched} (ha : Alarm c held w₀ w) (hrt : w'.rt.Stuck c held)
    (hsees : Sees held w'.pc) (ht : w'.Timed) (hclock : w.clock ≤ w'.clock)
    (hdd : w'.detector.timeout = w.detector.timeout
      ∧ w'.detector.lastProgress = w.detector.lastProgress
      ∧ w'.detector.deadlockActive = w.detector.deadlockActive
      ∧ w'.detector.deadlocks = w.detector.deadlocks) :
    Alarm c held w₀ w' := by
  obtain ⟨htimeout, hprogress, hactive, hhistory⟩ := hdd
  refine ⟨hrt, hsees, ht, htimeout.trans ha.timeout, hprogress.trans ha.lastProgress,
    fun h₀ => hactive.trans (ha.active h₀), fun h₀ hact => ?_⟩
  obtain ⟨info, hlast, hres, hat, hids⟩ := ha.report h₀ (hactive ▸ hact)
  exact ⟨info, hhistory ▸ hlast, hres, hat.trans hclock, hids⟩

/-- A scan that sees no progress is judged. -/
theorem Alarm.judged {w₀ : Watched} {x : Scan} (ha : Alarm c held w₀ w) (hpc : w.pc = .judging x) :
    Alarm c held w₀ { w with detector := w.detector.scan x, pc := .select }
      ∧ (w.detector.deadlockActive = true → w.detector.scan x = w.detector) := by
  have hfinds : x.Finds held := by
    have hsees := ha.sees
    rwa [hpc] at hsees
  have hnow := ha.timed.scan x hpc
  have hprogress := (w.detector.scan_quiet hfinds.noRunnable).1
  have ht : ({ w with detector := w.detector.scan x, pc := .select } : Watched).Timed :=
    ⟨hprogress.le.trans ha.timed.lastProgress, fun y hy => by cases hy⟩
  rcases w.detector.scan_quiet_report hfinds.noRunnable with hsame | ⟨hidle, -, hinfo⟩
  · refine ⟨ha.of_detector ha.stuck trivial ht (Int.le_refl _) ?_, fun _ => hsame⟩
    dsimp only
    rw [hsame]
    exact ⟨rfl, rfl, rfl, rfl⟩
  · have hwas : w.detector.deadlockActive ≠ true := by simp [hidle]
    refine ⟨⟨ha.stuck, trivial, ht, (w.detector.scan_timeout x).trans ha.timeout,
      hprogress.trans ha.lastProgress, fun h₀ => absurd (ha.active h₀) hwas, fun _ _ => ?_⟩,
      fun hact => absurd hact hwas⟩
    obtain ⟨info, hlast, hres, hat, hblocked⟩ := hinfo
    exact ⟨info, hlast, hres, hat.le.trans hnow, hblocked ▸ hfinds.blocked⟩

theorem Alarm.detectorStep {w₀ : Watched} {choice : WatchChoice} (ha : Alarm c held w₀ w)
    (h : w.detectorStep c choice = some w') :
    Alarm c held w₀ w' ∧ (w.detector.deadlockActive = true → w'.detector = w.detector) := by
  have ht := ha.timed.detectorStep h
  have hsees := ha.sees
  cases detectorStep_goes h with
  | started | checked =>
    refine ⟨ha.of_detector ha.stuck ?_ ht (Int.le_refl _) ⟨rfl, rfl, rfl, rfl⟩, fun _ => rfl⟩
    dsimp only
    split_ifs <;> trivial
  | stopped | ticked | gotMain =>
    exact ⟨ha.of_detector ha.stuck trivial ht (Int.le_refl _) ⟨rfl, rfl, rfl, rfl⟩, fun _ => rfl⟩
  | gotKeys _ _ hkeys =>
    -- the fibers that hold a worker are in `rt.fibers`
    refine ⟨ha.of_detector ha.stuck ⟨fun f hf => ?_, ?_⟩ ht (Int.le_refl _) ⟨rfl, rfl, rfl, rfl⟩,
      fun _ => rfl⟩
    · rw [List.map_nil, List.nil_append, ← List.mem_toFinset, hkeys]
      exact (ha.stuck.seen f hf).1
    · intro x hx
      cases hx
  | @cloned main k keys fibers hpc =>
    rw [hpc] at hsees
    refine ⟨ha.of_detector ha.stuck ⟨fun f hf => ?_, fun x hx => ?_⟩ ht (Int.le_refl _)
      ⟨rfl, rfl, rfl, rfl⟩, fun _ => rfl⟩
    · have hmem := hsees.1 f hf
      rwa [List.map_append, List.append_assoc]
    · rcases List.mem_append.mp hx with hx | hx
      · exact hsees.2 x hx
      · rw [List.mem_singleton] at hx
        subst hx
        exact ha.stuck.clone k
  | timed hpc hnow =>
    rw [hpc] at hsees
    exact ⟨ha.of_detector ha.stuck (scanOf_finds ha.stuck.card ha.stuck.nonempty
      (fun f hf => by simpa using hsees.1 f hf) hsees.2) ht hnow ⟨rfl, rfl, rfl, rfl⟩, fun _ => rfl⟩
  | judged hpc => exact ha.judged hpc

theorem Alarm.step {w₀ : Watched} (ha : Alarm c held w₀ w) (hl : l.isBystander = true)
    (h : w.step c l = some w') :
    Alarm c held w₀ w' ∧ (w.detector.deadlockActive = true →
      w'.detector.deadlockActive = true ∧ w'.detector.deadlocks = w.detector.deadlocks) := by
  cases l with
  | runtime l =>
    have ht := ha.timed.step h
    obtain ⟨rt, hst, rfl⟩ := step_runtime h
    obtain ⟨hk', hepoch⟩ := ha.stuck.step hl hst
    obtain ⟨hdd, hpc⟩ := moved_of_epoch (w := w) (l := l) hepoch
    refine ⟨ha.of_detector (by rwa [moved_rt]) (hpc ▸ ha.sees) ht
      (moved_clock .. ▸ Int.le_refl _) ?_, fun hact => ?_⟩
    · rw [hdd]
      exact ⟨rfl, rfl, rfl, rfl⟩
    · rw [hdd]
      exact ⟨hact, rfl⟩
  | detector choice =>
    obtain ⟨ha', hkeep⟩ := ha.detectorStep h
    refine ⟨ha', fun hact => ?_⟩
    rw [hkeep hact]
    exact ⟨hact, rfl⟩
  | setEnabled enabled =>
    have ht := ha.timed.step h
    cases h
    exact ⟨ha.of_detector ha.stuck ha.sees ht (Int.le_refl _) ⟨rfl, rfl, rfl, rfl⟩,
      fun hact => ⟨hact, rfl⟩⟩
  | setTimeout timeout | clearDeadlocks => cases hl

/-- Induction on the run. -/
theorem Alarm.exec {w₀ : Watched} {ls : List WatchLabel} (ha : Alarm c held w₀ w)
    (hls : ∀ l ∈ ls, l.isBystander = true) (h : Trans.exec (Watched.step c) w ls = some w') :
    Alarm c held w₀ w' ∧ (w.detector.deadlockActive = true →
      w'.detector.deadlockActive = true ∧ w'.detector.deadlocks = w.detector.deadlocks) := by
  induction ls generalizing w with
  | nil =>
    cases h
    exact ⟨ha, fun hact => ⟨hact, rfl⟩⟩
  | cons l ls ih =>
    obtain ⟨w₁, hw₁, hrest⟩ := Option.bind_eq_some_iff.mp h
    obtain ⟨ha₁, hkeep⟩ := ha.step (hls l List.mem_cons_self) hw₁
    obtain ⟨ha', hkeep'⟩ := ih ha₁ (fun l' hl' => hls l' (List.mem_cons_of_mem _ hl')) hrest
    refine ⟨ha', fun hact => ?_⟩
    obtain ⟨hact₁, hsame₁⟩ := hkeep hact
    obtain ⟨hact', hsame'⟩ := hkeep' hact₁
    exact ⟨hact', hsame'.trans hsame₁⟩

end Watched

section

variable {c : Config} {s₀ : State} {made : Int} {w w' : Watched}

/-- The runtime of a watched run makes a run of its own. -/
theorem reach_runtime (h : Reach (Watched.step c) (fun _ l => l.isRegular) (.new s₀ made) w) :
    Reach (step c) (fun _ l => l.isGoexit = false ∧ l ≠ .deadline) s₀ w.rt ∧ w.Timed := by
  refine h.invariant (P := fun w => Reach (step c) (fun _ l => l.isGoexit = false ∧ l ≠ .deadline)
    s₀ w.rt ∧ w.Timed) ⟨.refl, Int.le_refl _, fun x hx => by cases hx⟩ ?_
  rintro t l t' ⟨hreach, ht⟩ hok hst
  refine ⟨?_, ht.step hst⟩
  cases l with
  | runtime l =>
    obtain ⟨rt, hrt, rfl⟩ := Watched.step_runtime hst
    rw [Watched.moved_rt]
    exact .tail hreach hok hrt
  | detector choice => rwa [(Watched.detectorStep_goes hst).rt]
  | setEnabled | setTimeout | clearDeadlocks =>
    cases hst
    exact hreach

end

end GreenThreads.Runtime
