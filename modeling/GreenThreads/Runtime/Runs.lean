import GreenThreads.Runtime.LifeInv

/-!
# GreenThreads — runs of the runtime

What the steps of a run leave alone, and the rule by which an invariant of one life becomes one
of the whole runtime: `life_invariant`. Runs without a `Reset` get a section of their own, since
`Reset` is the one operation that replaces `rt.fibers`.
-/

namespace GreenThreads.Runtime

open Trans

/-- The steps of `Spawn` calls, the loop and the goroutines: they leave the run and its lifecycle
alone. -/
def Label.isWork : Label → Bool
  | spawn _ _ | loop _ | go _ _ | discard _ | goexit _ | block _ | unblock _
  | setStackSize _ => true
  | _ => false

def Label.isGoexit : Label → Bool
  | goexit _ => true
  | _ => false

namespace State

variable {c : Config} {s s' : State} {l : Label}

/-! ## What a step leaves alone -/

/-- What only `Start`, `Stop`, `Reset` and new calls change. -/
structure Frame (s s' : State) : Prop where
  calls : s'.calls = s.calls
  lifecycle : s'.lifecycle = s.lifecycle
  mainFiber : s'.mainFiber = s.mainFiber
  mains : ∀ k, Key.main k ∈ s'.fibers ↔ Key.main k ∈ s.fibers
  run : s'.epoch = s.epoch ∧ s'.cancelled = s.cancelled ∧ s'.draining = s.draining
    ∧ s'.stopped = s.stopped
  schedStopped : s'.sched.base.stopped = s.sched.base.stopped

theorem Frame.of_fibers (hcalls : s'.calls = s.calls) (hlife : s'.lifecycle = s.lifecycle)
    (hmain : s'.mainFiber = s.mainFiber) (hfib : s'.fibers = s.fibers)
    (hrun : s'.epoch = s.epoch ∧ s'.cancelled = s.cancelled ∧ s'.draining = s.draining
      ∧ s'.stopped = s.stopped)
    (hsched : s'.sched.base.stopped = s.sched.base.stopped) : s.Frame s' :=
  ⟨hcalls, hlife, hmain, fun k => by rw [hfib], hrun, hsched⟩

theorem enqueue_stopped (s : Sched) (kind : Scheduler.SchedulerType) (w : Nat) (f : FiberID) :
    (s.enqueue kind w f).base.stopped = s.base.stopped := by
  unfold Sched.enqueue
  split_ifs <;> rfl

theorem spawnStep_frame {f : FiberID} {w : Nat} (h : s.spawnStep c f w = some s') : s.Frame s' := by
  cases spawnStep_effect h with
  | enqueue => exact .of_fibers rfl rfl rfl rfl ⟨rfl, rfl, rfl, rfl⟩ (enqueue_stopped ..)
  | insert | unschedule | rollback =>
    exact ⟨rfl, rfl, rfl, fun k => by simp [setPc, setThread], ⟨rfl, rfl, rfl, rfl⟩, rfl⟩
  | _ => exact .of_fibers rfl rfl rfl rfl ⟨rfl, rfl, rfl, rfl⟩ rfl

/-- What the execution loop writes: itself, the threads it marks and launches, the results it
receives, the queues and the number of context switches. -/
theorem loopStep_writes {choice : LoopChoice} (h : s.loopStep c choice = some s') :
    ∃ threads loop results switches queue, s' = { s with
      threads := threads
      loop := loop
      results := results
      sched := ⟨{ s.sched.base with contextSwitches := switches }, queue⟩ } := by
  cases loopStep_effect h <;> exact ⟨_, _, _, _, _, rfl⟩

/-- The execution loop changes neither the maps nor the counter. -/
theorem loopStep_frame {choice : LoopChoice} (h : s.loopStep c choice = some s') :
    s.Frame s' ∧ s'.activeFiberCount = s.activeFiberCount := by
  obtain ⟨threads, loop, results, switches, queue, rfl⟩ := loopStep_writes h
  exact ⟨.of_fibers rfl rfl rfl rfl ⟨rfl, rfl, rfl, rfl⟩ rfl, rfl⟩

theorem goStep_frame {f : FiberID} {drop : Finset FiberID} (h : s.goStep c f drop = some s') :
    s.Frame s' := by
  cases goStep_effect h with
  | remove => exact ⟨rfl, rfl, rfl, fun k => by simp [setGo, setThread], ⟨rfl, rfl, rfl, rfl⟩, rfl⟩
  | _ => exact .of_fibers rfl rfl rfl rfl ⟨rfl, rfl, rfl, rfl⟩ rfl

theorem lifecycleStep_calls (h : s.lifecycleStep c = some s') : s'.calls = s.calls := by
  cases lifecycleStep_effect h <;> rfl

theorem step_frame (h : step c s l = some s') (hl : l.isWork = true) : s.Frame s' := by
  cases step_effect h with
  | spawn => exact spawnStep_frame h
  | loop => exact (loopStep_frame h).1
  | go => exact goStep_frame h
  | discard | goexit | block | unblock | setStackSize =>
    exact .of_fibers rfl rfl rfl rfl ⟨rfl, rfl, rfl, rfl⟩ rfl
  | _ => cases hl

theorem enqueue_running (s : Sched) (kind : Scheduler.SchedulerType) (w : Nat) (f : FiberID) :
    (s.enqueue kind w f).base.running = s.base.running := by
  unfold Sched.enqueue
  split_ifs <;> rfl

/-- They also leave alone who has been reaped and whether the scheduler is running, and but for
the loop's own steps the loop. -/
theorem step_work (h : step c s l = some s') (hl : l.isWork = true) :
    s'.reaped = s.reaped ∧ s'.sched.base.running = s.sched.base.running
      ∧ (s'.loop = s.loop ∨ ∃ choice, l = .loop choice) := by
  cases step_effect h with
  | spawn hspawn =>
    cases hspawn with
    | enqueue => exact ⟨rfl, enqueue_running .., .inl rfl⟩
    | _ => exact ⟨rfl, rfl, .inl rfl⟩
  | @loop choice =>
    obtain ⟨threads, loop, results, switches, queue, rfl⟩ := loopStep_writes h
    exact ⟨rfl, rfl, .inr ⟨choice, rfl⟩⟩
  | go hgo => cases hgo <;> exact ⟨rfl, rfl, .inl rfl⟩
  | discard | goexit | block | unblock | setStackSize => exact ⟨rfl, rfl, .inl rfl⟩
  | _ => cases hl

/-- Whose turn a step is: a new call, the work on fibers, `Start`, `Stop` or `Reset` at the lock,
the holder of the lock, and the two steps that come from a context. -/
inductive Turn (c : Config) (s s' : State) : Label → Prop where
  | call {nilFn : Bool} {nameLen : Nat} (hs : s' = s.spawnCall nilFn nameLen) :
      Turn c s s' (.call nilFn nameLen)
  | work {l : Label} (hl : l.isWork = true) : Turn c s s' l
  | begin {l : Label} {last : Option (Except LifecycleError Unit)} {next : Lifecycle}
      (hidle : s.lifecycle = .idle last)
      (hnext : l = .start ∧ next = .startSched ∨ l = .stop ∧ next = .stopCancel
        ∨ l = .reset ∧ next = .resetMain ∨ ∃ r, next = .idle (some r))
      (hs : s' = { s with lifecycle := next }) : Turn c s s' l
  | lifecycle (h : s.lifecycleStep c = some s') : Turn c s s' .lifecycle
  | deadline {err : Option String} (hjoin : s.lifecycle = .join err)
      (hs : s' = { s with stopped := true, lifecycle := .idle (some (.error .stopDeadline)) }) :
      Turn c s s' .deadline
  | cancelCtx (hs : s' = { s with cancelled := insert s.epoch s.cancelled }) :
      Turn c s s' .cancelCtx

theorem step_turn (h : step c s l = some s') : s.Turn c s' l := by
  cases step_effect h with
  | call => exact .call rfl
  | start hidle =>
    refine .begin hidle ?_ rfl
    split_ifs
    · exact .inl ⟨rfl, rfl⟩
    · exact .inr (.inr (.inr ⟨_, rfl⟩))
  | stop hidle =>
    refine .begin hidle ?_ rfl
    split_ifs
    · exact .inr (.inl ⟨rfl, rfl⟩)
    · exact .inr (.inr (.inr ⟨_, rfl⟩))
  | reset hidle =>
    refine .begin hidle ?_ rfl
    split_ifs
    · exact .inr (.inr (.inl ⟨rfl, rfl⟩))
    · exact .inr (.inr (.inr ⟨_, rfl⟩))
  | lifecycle => exact .lifecycle h
  | deadline hjoin => exact .deadline hjoin rfl
  | cancelCtx => exact .cancelCtx rfl
  | _ => exact .work rfl

/-- The number of calls goes up by one with each new call. -/
theorem step_calls (h : step c s l = some s') :
    s'.calls = s.calls ∨ s'.calls = s.calls + 1 ∧ ∃ nilFn nameLen, l = .call nilFn nameLen := by
  cases step_turn h with
  | @call nilFn nameLen hs =>
    subst hs
    exact .inr ⟨rfl, nilFn, nameLen, rfl⟩
  | work hl => exact .inl (step_frame h hl).calls
  | begin _ _ hs | deadline _ hs | cancelCtx hs =>
    subst hs
    exact .inl rfl
  | lifecycle h => exact .inl (lifecycleStep_calls h)

/-! ## What a step does to one thread -/

/-- `t'` is what a step makes of thread `f`: its `Spawn` call and its goroutine move when it is
their turn, the loop marks and launches it, its own function blocks and unblocks it. -/
inductive Moves (s : State) (f : FiberID) (t' : Thread) : Label → Prop where
  | rest {l : Label} (ht : t' = s.threads f) : Moves s f t' l
  | call {nilFn : Bool} {nameLen : Nat} {pc : SpawnPc} (hf : f = s.calls)
      (ht : t' = { s.threads f with pc := pc }) : Moves s f t' (.call nilFn nameLen)
  | spawn {w : Nat} {pc : SpawnPc} {stackSize : Int}
      (hsize : (s.threads f).pc ≠ .check → stackSize = (s.threads f).stackSize)
      (hclamp : (s.threads f).pc = .check → stackSize = (s.threads f).stackSize
        ∨ stackSize = validateStackSize s.stackSize)
      (ht : t' = { s.threads f with pc := pc, stackSize := stackSize }) : Moves s f t' (.spawn f w)
  | mark {fiber : Fiber} (hpc : s.loop.pc = .marking f)
      (ht : t' = { s.threads f with fiber := fiber }) : Moves s f t' (.loop .next)
  | launch (hpc : s.loop.pc = .launching f)
      (ht : t' = { s.threads f with go := .run, run := s.epoch }) : Moves s f t' (.loop .next)
  | body {l : Label} {fiber : Fiber} (hl : l = .block f ∨ l = .unblock f)
      (hgo : (s.threads f).go = .body)
      (ht : t' = { s.threads f with fiber := fiber, go := .body }) : Moves s f t' l
  | go {l : Label} {fiber : Fiber} {go : GoPc}
      (hl : (∃ drop, l = .go f drop) ∨ l = .discard f ∨ l = .goexit f)
      (ht : t' = { s.threads f with fiber := fiber, go := go }) : Moves s f t' l

/-- What a step does to thread `g` says it of every thread. -/
theorem Moves.update {f g : FiberID} {t : Thread} (h : s.Moves g t l) :
    s.Moves f (Function.update s.threads g t f) l := by
  by_cases hne : f = g
  · subst hne
    rwa [Function.update_self]
  · exact .rest (Function.update_of_ne hne ..)

theorem spawnStep_moves {g : FiberID} {w : Nat} (h : s.spawnStep c g w = some s') (f : FiberID) :
    s.Moves f (s'.threads f) (.spawn g w) := by
  cases spawnStep_effect h with
  | check hpc => exact .update (.spawn (fun hne => absurd hpc hne) (fun _ => .inr rfl) rfl)
  | _ => exact .update (.spawn (fun _ => rfl) (fun _ => .inl rfl) rfl)

theorem loopStep_moves {choice : LoopChoice} (h : s.loopStep c choice = some s') (f : FiberID) :
    s.Moves f (s'.threads f) (.loop choice) := by
  cases loopStep_effect h with
  | mark hpc => exact .update (.mark hpc rfl)
  | launch hpc => exact .update (.launch hpc rfl)
  | _ => exact .rest rfl

theorem goStep_moves {g : FiberID} {drop : Finset FiberID} (h : s.goStep c g drop = some s')
    (f : FiberID) : s.Moves f (s'.threads f) (.go g drop) := by
  cases goStep_effect h <;> exact .update (.go (.inl ⟨drop, rfl⟩) rfl)

theorem lifecycleStep_threads (h : s.lifecycleStep c = some s') : s'.threads = s.threads := by
  cases lifecycleStep_effect h <;> rfl

theorem step_moves (h : step c s l = some s') (f : FiberID) : s.Moves f (s'.threads f) l := by
  cases step_effect h with
  | call => exact .update (.call rfl rfl)
  | spawn => exact spawnStep_moves h f
  | loop => exact loopStep_moves h f
  | go => exact goStep_moves h f
  | discard => exact .update (.go (.inr (.inl rfl)) rfl)
  | goexit => exact .update (.go (.inr (.inr rfl)) rfl)
  | block hgo => exact .update (.body (.inl rfl) hgo rfl)
  | unblock hgo => exact .update (.body (.inr rfl) hgo rfl)
  | lifecycle => exact .rest (congrFun (lifecycleStep_threads h) f)
  | start | stop | reset | deadline | cancelCtx | setStackSize => exact .rest rfl

theorem pc_setPc (s : State) (f : FiberID) (pc : SpawnPc) : ((s.setPc f pc).threads f).pc = pc := by
  simp only [setPc, setThread, Function.update_self]

theorem go_setGo (s : State) (f : FiberID) (go : GoPc) : ((s.setGo f go).threads f).go = go := by
  simp only [setGo, setThread, Function.update_self]

theorem go_setFiber (s : State) (f : FiberID) (fiber : Fiber) (go : GoPc) :
    ((s.setFiber f fiber go).threads f).go = go := by
  simp only [setFiber, setThread, Function.update_self]

theorem next_setGo {f : FiberID} {go go' : GoPc} (hgo : (s.threads f).go = go)
    (h : GoPc.Next go go') : GoPc.Next (s.threads f).go ((s'.setGo f go').threads f).go := by
  rw [hgo, go_setGo]
  exact h

/-- Where a goroutine goes when it is its turn. -/
theorem goStep_next {f : FiberID} {drop : Finset FiberID} (h : s.goStep c f drop = some s') :
    GoPc.Next (s.threads f).go (s'.threads f).go := by
  cases goStep_effect h with
  | run hgo =>
    rw [hgo, go_setFiber]
    exact .begin
  | body hgo =>
    rw [hgo, go_setFiber]
    exact .ends
  | skip hgo => exact next_setGo hgo .skip
  | recordCompleted hgo => exact next_setGo hgo .record
  | marked hgo | markCompleted hgo => exact next_setGo hgo (.mark (.inl rfl))
  | markCompletedFirst hgo => exact next_setGo hgo (.mark (.inr rfl))
  | sweep hgo =>
    refine next_setGo hgo (.sweep ?_)
    split_ifs <;> simp
  | remove hgo =>
    refine next_setGo hgo (.remove ?_)
    split_ifs <;> simp
  | undo hgo => exact next_setGo hgo .undo
  | send hgo => exact next_setGo hgo .send

/-- A goroutine moves when it is launched and when it is its turn. -/
theorem step_go (h : step c s l = some s') {f : FiberID}
    (hne : (s'.threads f).go ≠ (s.threads f).go) :
    (l = .loop .next ∧ s.loop.pc = .launching f)
      ∨ (∃ drop, l = .go f drop) ∨ l = .discard f ∨ l = .goexit f := by
  cases step_moves h f with
  | launch hpc => exact .inl ⟨rfl, hpc⟩
  | go hl => exact .inr hl
  | body _ hgo ht =>
    rw [ht] at hne
    exact absurd hgo.symm hne
  | rest ht | call _ ht | spawn _ _ ht | mark _ ht =>
    rw [ht] at hne
    exact absurd rfl hne

/-- A `Spawn` call moves when it is made and when it is its turn. -/
theorem step_pc (h : step c s l = some s') {f : FiberID}
    (hne : (s'.threads f).pc ≠ (s.threads f).pc) : f = s.calls ∨ ∃ w, l = .spawn f w := by
  cases step_moves h f with
  | call hf => exact .inl hf
  | spawn => exact .inr ⟨_, rfl⟩
  | rest ht | mark _ ht | launch _ ht | body _ _ ht | go _ ht =>
    rw [ht] at hne
    exact absurd rfl hne

/-! ## Which steps an event stands for -/

theorem event_eq_call {f : FiberID} (h : s.event f l = .call) :
    f = s.calls ∧ ∃ nilFn nameLen, l = .call nilFn nameLen := by
  unfold event at h
  split at h <;> (repeat' split at h) <;> first
    | exact ⟨‹_›, _, _, rfl⟩
    | cases h

theorem event_eq_startFibers {f : FiberID} (h : s.event f l = .startFibers) :
    l = .lifecycle ∧ s.lifecycle = .startFibers := by
  unfold event at h
  split at h <;> (repeat' split at h) <;> first
    | exact ⟨rfl, ‹_›⟩
    | cases h

theorem event_eq_resetFibers {f : FiberID} (h : s.event f l = .resetFibers) :
    l = .lifecycle ∧ s.lifecycle = .resetFibers := by
  unfold event at h
  split at h <;> (repeat' split at h) <;> first
    | exact ⟨rfl, ‹_›⟩
    | cases h

theorem event_eq_reserve {f : FiberID} (h : s.event f l = .add 1) :
    (∃ w, l = .spawn f w) ∧ (s.threads f).pc = .reserve := by
  unfold event at h
  split at h <;> (repeat' split at h) <;> first
    | rename_i hf _ hpc; exact hf ▸ ⟨⟨_, rfl⟩, hf ▸ hpc⟩
    | cases h

theorem event_eq_goexit {f : FiberID} (h : s.event f l = .goexit) : l = .goexit f := by
  unfold event at h
  split at h <;> (repeat' split at h) <;> first
    | rename_i heq; rw [heq]; done
    | cases h

end State

/-! ## The places of a `Spawn` call -/

namespace SpawnPc

/-- Where a step of `Spawn` leads. -/
inductive Next : SpawnPc → SpawnPc → Prop where
  | check {pc : SpawnPc} (h : pc = .reserve ∨ pc = .returned (.error .notStarted)) : Next .check pc
  | reserve {pc : SpawnPc} (h : pc = .unreserve ∨ pc = .insert) : Next .reserve pc
  | unreserve {limit : Int} : Next .unreserve (.returned (.error (.maxFibersReached limit)))
  | insert : Next .insert .schedule
  | schedule {pc : SpawnPc} (h : pc = .unschedule ∨ pc = .enqueue) : Next .schedule pc
  | enqueue {pc : SpawnPc} (h : pc = .countScheduled ∨ pc = .readCtx) : Next .enqueue pc
  | countScheduled : Next .countScheduled .readCtx
  | unschedule : Next .unschedule .unscheduleUndo
  | unscheduleUndo {e : SpawnError} : Next .unscheduleUndo (.returned (.error e))
  | readCtx {runCtx : Option Nat} : Next .readCtx (.recheck runCtx)
  | recheck {runCtx : Option Nat} {stopping : Bool} : Next (.recheck runCtx) (.commit stopping)
  | rollback {stopping present : Bool} {w : Nat} : Next (.commit stopping) (.remove w present)
  | commit : Next (.commit false) .recordCreated
  | removeNext {w w' : Nat} {present : Bool} : Next (.remove w present) (.remove w' present)
  | removed {w : Nat} {present : Bool} : Next (.remove w present) (State.rolledBack present)
  | rollbackUndo : Next .rollbackUndo (.returned (.error .stoppedDuringSpawn))
  | recordCreated : Next .recordCreated (.returned (.ok ()))

end SpawnPc

namespace State

variable {c : Config} {s s' : State} {l : Label} {f : FiberID}

theorem next_setPc {pc pc' : SpawnPc} (hpc : (s.threads f).pc = pc) (h : SpawnPc.Next pc pc') :
    SpawnPc.Next (s.threads f).pc ((s'.setPc f pc').threads f).pc := by
  rw [hpc, pc_setPc]
  exact h

theorem spawnStep_next {w : Nat} (h : s.spawnStep c f w = some s') :
    SpawnPc.Next (s.threads f).pc (s'.threads f).pc := by
  cases spawnStep_effect h with
  | check hpc =>
    rw [hpc]
    exact .check (.inl (by simp only [setThread, Function.update_self]))
  | notStarted hpc => exact next_setPc hpc (.check (.inr rfl))
  | reserve hpc => exact next_setPc hpc (.reserve (.inr rfl))
  | overCap hpc => exact next_setPc hpc (.reserve (.inl rfl))
  | unreserve hpc => exact next_setPc hpc .unreserve
  | insert hpc => exact next_setPc hpc .insert
  | schedule hpc => exact next_setPc hpc (.schedule (.inr rfl))
  | refused hpc => exact next_setPc hpc (.schedule (.inl rfl))
  | enqueue hpc =>
    refine next_setPc hpc (.enqueue ?_)
    split_ifs <;> simp
  | countScheduled hpc => exact next_setPc hpc .countScheduled
  | unschedule hpc => exact next_setPc hpc .unschedule
  | unscheduleUndo hpc => exact next_setPc hpc .unscheduleUndo
  | readCtx hpc => exact next_setPc hpc .readCtx
  | recheck hpc => exact next_setPc hpc .recheck
  | commit hpc => exact next_setPc hpc .commit
  | rollback hpc => exact next_setPc hpc .rollback
  | removeFound hpc | removeLast hpc => exact next_setPc hpc .removed
  | removeNext hpc => exact next_setPc hpc .removeNext
  | rollbackUndo hpc => exact next_setPc hpc .rollbackUndo
  | recordCreated hpc => exact next_setPc hpc .recordCreated

/-- A call that has been made stays where it is or takes its own next step. -/
theorem step_next (h : step c s l = some s') (hf : f < s.calls) :
    (s'.threads f).pc = (s.threads f).pc
      ∨ SpawnPc.Next (s.threads f).pc (s'.threads f).pc := by
  by_cases hpc : (s'.threads f).pc = (s.threads f).pc
  · exact .inl hpc
  · rcases step_pc h hpc with rfl | ⟨w, rfl⟩
    · exact absurd hf (Nat.lt_irrefl _)
    · exact .inr (spawnStep_next h)

end State

/-! ## The lives in a run -/

/-- The life of a fiber before anything has happened. -/
def Life.fresh : Life where
  pc := .uncalled
  fiber := {}
  go := .absent
  inFibers := false
  admitted := false
  queuedAt := []
  hand := .empty
  reaping := 0
  reaped := false
  shared := ⟨.idle none, 0, ∅, false, true, false⟩

theorem Initial.life {c : Config} {s : State} (h : Initial c s) (f : FiberID) :
    s.life f = .fresh := by
  rcases h with rfl | rfl <;> simp [State.life, State.new, State.newWithOptions, State.shared,
    Life.fresh, LoopPc.hand, Lifecycle.reaping, Sched.workersOf, Sched.new]

theorem Life.sound_fresh (n : Nat) : Life.fresh.Sound n where
  shared := .inr ⟨rfl, rfl, fun h => absurd h (lt_irrefl 0)⟩
  placed := ⟨Nat.zero_le _, fun _ => rfl, nofun, trivial, fun h => absurd rfl h⟩
  fiber := ⟨rfl, rfl, rfl⟩
  listed := ⟨nofun, nofun, nofun⟩
  swept := nofun
  reaped := ⟨nofun, fun h => absurd h (lt_irrefl 0), Nat.zero_le _⟩

/-- All lives are sound, and only calls that have been made have left their place. -/
structure State.Sound (c : Config) (s : State) : Prop where
  life : ∀ f, (s.life f).Sound c.numQueues
  uncalled : ∀ f, s.calls ≤ f → (s.life f).pc = .uncalled

namespace State.Sound

variable {c : Config} {s s' : State} {l : Label} {f : FiberID}

theorem lt_calls (hs : s.Sound c) (h : (s.life f).pc ≠ .uncalled) : f < s.calls :=
  Nat.lt_of_not_le fun hle => h (hs.uncalled f hle)

/-- In a sound state every step is a step of each life. -/
theorem step_life (hs : s.Sound c) (h : step c s l = some s') (f : FiberID) :
    (s.life f).Step c.numQueues (s.event f l) (s'.life f) := by
  refine Runtime.step_life f h (hs.uncalled _ le_rfl) (fun hadm => ?_) (fun hstart => ?_)
  · refine hs.lt_calls fun hpc => ?_
    have hcommitted := (hs.life f).listed.admitted (decide_eq_true hadm)
    rw [hpc] at hcommitted
    cases hcommitted
  · have hok := (hs.life f).shared
    simp only [Shared.Ok, State.life, State.shared, hstart] at hok
    simpa using hok.1.2.1

theorem step (hs : s.Sound c) (h : step c s l = some s') : s'.Sound c where
  life f := (hs.step_life h f).sound (hs.life f)
  uncalled f hf := by
    have hle : s.calls ≤ f := by
      rcases State.step_calls h with heq | ⟨heq, -⟩ <;> omega
    have hpc := hs.uncalled f hle
    refine ((hs.step_life h f).pc_of_atRest (fun hcall => ?_) (by rw [hpc]; rfl)).trans hpc
    -- the new call is not past the end of the calls any more
    obtain ⟨rfl, nilFn, nameLen, rfl⟩ := State.event_eq_call hcall
    cases h
    exact absurd hf (Nat.not_succ_le_self _)

/-- A fiber in the hand of the loop has no goroutine. -/
theorem go_absent_of_hand (hs : s.Sound c) (hhand : s.loop.pc.hand f ≠ .empty) :
    (s.threads f).go = .absent :=
  (hs.life f).placed.go_absent (.inl hhand)

theorem go_absent_of_launching (hs : s.Sound c) (hpc : s.loop.pc = .launching f) :
    (s.threads f).go = .absent :=
  hs.go_absent_of_hand (by simp [LoopPc.hand, hpc])

/-- Past its function and before its send, a goroutine moves only when it is its turn. -/
theorem turn_of_go (hs : s.Sound c) (h : Runtime.step c s l = some s')
    (hne : (s'.threads f).go ≠ (s.threads f).go) (habsent : (s.threads f).go ≠ .absent)
    (hbody : (s.threads f).go ≠ .body) (hsend : (s.threads f).go ≠ .send) :
    ∃ drop, l = .go f drop := by
  rcases State.step_go h hne with ⟨-, hlaunch⟩ | hturn | rfl | rfl
  · exact absurd (hs.go_absent_of_launching hlaunch) habsent
  · exact hturn
  · simp [Runtime.step, discardStep, hsend] at h
  · simp [Runtime.step, goexitStep, hbody] at h

/-- A queued fiber has no goroutine yet, and so it has not been run. -/
theorem go_absent_of_queued (hs : s.Sound c) {w : Nat} (hq : ⟨w, f⟩ ∈ s.sched.queue) :
    (s.threads f).go = .absent :=
  (hs.life f).placed.go_absent (.inr (List.ne_nil_of_mem ((Sched.mem_workersOf ..).mpr hq)))

theorem not_finished_of_queued (hs : s.Sound c) {w : Nat} (hq : ⟨w, f⟩ ∈ s.sched.queue) :
    s.finished f = false :=
  (hs.life f).fiber.not_finished (hs.go_absent_of_queued hq)

end State.Sound

theorem Initial.sound {c : Config} {s : State} (h : Initial c s) : s.Sound c where
  life f := h.life f ▸ Life.sound_fresh _
  uncalled f _ := by rw [h.life f]; rfl

section

variable {c : Config} {ok : State → Label → Prop} {s₀ s : State}

theorem sound_of_reach (h₀ : Initial c s₀) (h : Reach (step c) ok s₀ s) : s.Sound c :=
  h.invariant h₀.sound fun _ _ _ hs _ hstep => hs.step hstep

/-- The rule for what rests on the soundness of the state before each step. -/
theorem sound_invariant {P : State → Prop} (hs₀ : s₀.Sound c) (hinit : P s₀)
    (hstep : ∀ s l s', s.Sound c → P s → ok s l → step c s l = some s' → P s')
    (h : Reach (step c) ok s₀ s) : P s := by
  have hall : s.Sound c ∧ P s := by
    refine h.invariant (P := fun s => s.Sound c ∧ P s) ⟨hs₀, hinit⟩ ?_
    rintro s l s' ⟨hs, hP⟩ hok hst
    exact ⟨hs.step hst, hstep s l s' hs hP hok hst⟩
  exact hall.2

/-- What holds of a fresh life and survives every step that the runs in question can take holds
of every life in such a run. -/
theorem lives_invariant {P : FiberID → Life → Prop} (h₀ : Initial c s₀)
    (hfresh : ∀ f, P f .fresh)
    (hstep : ∀ s l s' f, ok s l → s.Sound c → step c s l = some s' → P f (s.life f) →
      P f (s'.life f))
    (h : Reach (step c) ok s₀ s) (f : FiberID) : P f (s.life f) :=
  sound_invariant (P := fun s => P f (s.life f)) h₀.sound (h₀.life f ▸ hfresh f)
    (fun s l s' hs hP hok hst => hstep s l s' f hok hs hst hP) h

/-- The rule for what can be told from the steps of a life alone. -/
theorem life_invariant {P : Life → Prop} (h₀ : Initial c s₀) (hfresh : P .fresh)
    (hstep : ∀ s l f v', ok s l → s.Sound c → P (s.life f) →
      (s.life f).Step c.numQueues (s.event f l) v' → P v')
    (h : Reach (step c) ok s₀ s) (f : FiberID) : P (s.life f) :=
  lives_invariant (P := fun _ => P) h₀ (fun _ => hfresh)
    (fun s l _ f hok hs hst hP => hstep s l f _ hok hs hP (hs.step_life hst f)) h f

end

/-! ## What `Reset` throws away -/

def Key.isSpawned : Key → Bool
  | main _ => false
  | spawned _ => true

/-- No `Reset` replaces `rt.fibers` while there is a fiber other than a main fiber in it. -/
def ResetsEmpty (s : State) (l : Label) : Prop :=
  l = .lifecycle → s.lifecycle = .resetFibers → ∀ k ∈ s.fibers, k.isSpawned = false

instance (s : State) (l : Label) : Decidable (ResetsEmpty s l) :=
  inferInstanceAs (Decidable (_ → _))

theorem ResetsEmpty.inFibers {s : State} {l : Label} {f : FiberID} (h : ResetsEmpty s l)
    (he : s.event f l = .resetFibers) : (s.life f).inFibers = false := by
  obtain ⟨hl, hreset⟩ := State.event_eq_resetFibers he
  refine decide_eq_false fun hmem => ?_
  cases h hl hreset _ hmem

/-! ## Runs without `Reset` -/

/-- A `Reset` is under way. -/
def Lifecycle.resetting : Lifecycle → Bool
  | resetMain | resetFibers | clear .reset _ | resetMetrics => true
  | _ => false

/-- No `Reset` is under way, and the only main fiber in `rt.fibers` is `rt.mainFiber`. -/
structure State.Steady (s : State) : Prop where
  lifecycle : s.lifecycle.resetting = false
  mains : ∀ k, Key.main k ∈ s.fibers → s.mainFiber = some k

namespace State.Steady

variable {c : Config} {s s' : State} {l : Label}

theorem ne_of_resetting (hs : s.Steady) {k : Lifecycle} (hk : k.resetting = true) :
    s.lifecycle ≠ k := by
  rintro rfl
  rw [hs.lifecycle] at hk
  cases hk

theorem resetsEmpty (hs : s.Steady) (l : Label) : ResetsEmpty s l :=
  fun _ hreset => absurd hreset (hs.ne_of_resetting rfl)

theorem of_frame (hs : s.Steady) (h : s.Frame s') : s'.Steady :=
  ⟨h.lifecycle ▸ hs.lifecycle, fun k hk => h.mainFiber.trans (hs.mains k ((h.mains k).mp hk))⟩

/-- A step that changes the lifecycle and leaves the maps alone. -/
theorem of_lifecycle (hs : s.Steady) (hlife : s'.lifecycle.resetting = false)
    (hmain : s'.mainFiber = s.mainFiber) (hfib : s'.fibers = s.fibers) : s'.Steady :=
  ⟨hlife, fun k hk => hmain.trans (hs.mains k (hfib ▸ hk))⟩

theorem lifecycleStep (hs : s.Steady) (h : s.lifecycleStep c = some s') : s'.Steady := by
  have hlife := hs.lifecycle
  cases lifecycleStep_effect h with
  | startFibers =>
    refine ⟨rfl, fun k hk => ?_⟩
    -- the main fiber that was there, or a new one if there was none
    rcases Finset.mem_insert.mp hk with heq | hmem
    · rw [Key.main.inj heq]
    · simp [hs.mains k hmem]
  | @clearAtOnce why _ hl | @clearWorker why _ hl | @clearBase why _ hl =>
    rw [hl] at hlife
    cases why with
    | reset => cases hlife
    | stop err => exact hs.of_lifecycle rfl rfl rfl
  | reapScan => exact ⟨rfl, fun k hk => hs.mains k (Finset.mem_sdiff.mp hk).1⟩
  | resetMain hl | resetFibers hl | resetMetrics hl =>
    rw [hl] at hlife
    cases hlife
  | startSched | startFailed | startRun | stopCancel | stopSched | stopJoin | reaped | reapUndo
  | reapRecord | join => exact hs.of_lifecycle rfl rfl rfl

theorem step (hs : s.Steady) (hl : l ≠ .reset) (h : step c s l = some s') : s'.Steady := by
  cases step_turn h with
  | call ht | cancelCtx ht =>
    subst ht
    exact hs.of_lifecycle hs.lifecycle rfl rfl
  | work hwork => exact hs.of_frame (step_frame h hwork)
  | begin _ hnext ht =>
    subst ht
    refine hs.of_lifecycle ?_ rfl rfl
    rcases hnext with ⟨-, rfl⟩ | ⟨-, rfl⟩ | ⟨rfl, -⟩ | ⟨r, rfl⟩
    · rfl
    · rfl
    · exact absurd rfl hl
    · rfl
  | lifecycle h => exact hs.lifecycleStep h
  | deadline _ ht =>
    subst ht
    exact hs.of_lifecycle rfl rfl rfl

end State.Steady

section

variable {c : Config} {ok : State → Label → Prop} {s₀ s : State}

theorem Initial.steady (h : Initial c s) : s.Steady := by
  rcases h with rfl | rfl
  · exact ⟨rfl, fun k hk => by rw [Key.main.inj (Finset.mem_singleton.mp hk)]; rfl⟩
  · exact ⟨rfl, fun k hk => absurd hk (Finset.notMem_empty _)⟩

/-- Without `Reset` the maps are never replaced. -/
theorem steady_of_noReset (h₀ : Initial c s₀)
    (h : Reach (step c) (fun s l => l ≠ .reset ∧ ok s l) s₀ s) :
    s.Steady ∧ Reach (step c) (fun s l => ResetsEmpty s l ∧ ok s l) s₀ s := by
  refine h.invariant (P := fun s => s.Steady ∧ Reach (step c) _ s₀ s) ⟨h₀.steady, .refl⟩ ?_
  rintro s l s' ⟨hs, hr⟩ ⟨hl, hok⟩ hst
  exact ⟨hs.step hl hst, hr.tail ⟨hs.resetsEmpty l, hok⟩ hst⟩

end

end GreenThreads.Runtime
