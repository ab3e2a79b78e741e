import GreenThreads.Runtime.Cap
import GreenThreads.Runtime.InFlight
import GreenThreads.Runtime.Progress

/-!
# GreenThreads — a queued fiber gets to run

The execution loop polls: it takes fibers from the scheduler at each tick, as long as it has
workers to spare, and hears of a worker that is free again through the result channel. So nothing
has to wake it up, and a fiber in the queue of a run that is going can always be dispatched.

* `free_worker_dispatches` — as long as the fiber functions do not hold all workers, the loop can
  dispatch the next fiber without waiting for any of them;
* `queued_fiber_dispatched` — if the functions of the fibers before it return, every queued fiber
  can be dispatched.

Both are about the FIFO and the round-robin scheduler, whose `Next` is told exactly by the model.
-/

namespace GreenThreads.Runtime

open Trans

/-- In the fiber function, or about to enter it. -/
def GoPc.inFunction : GoPc → Bool
  | run | body => true
  | _ => false

/-- Past its function a goroutine does not enter it again. -/
theorem GoPc.Next.over {a b : GoPc} (h : GoPc.Next a b) (ha : a.inFunction = false) :
    b.inFunction = false := by
  cases h with
  | begin | skip | ends => cases ha
  | record | undo | send => rfl
  | mark h | sweep h | remove h => rcases h with rfl | rfl <;> rfl

namespace State

variable {c : Config} {s s' : State} {l : Label} {f g : FiberID}

/-- The fibers of run `run` that hold a worker with their function. -/
def busy (s : State) (run : Nat) : Finset FiberID :=
  (s.inFlight run).filter fun f => (s.threads f).go.inFunction = true

/-- A run that is going, whose loop has not been told to leave. -/
structure Serves (c : Config) (s : State) : Prop where
  sound : s.Sound c
  flows : s.Leaks c 0
  isOpen : s.Open
  awake : s.loop.pc ≠ .drain ∧ s.loop.pc ≠ .exited

/-- The loop leaves only when the context is done. -/
theorem loopStep_awake {choice : LoopChoice} (hdone : s.done s.epoch = false)
    (hawake : s.loop.pc ≠ .drain ∧ s.loop.pc ≠ .exited) (h : s.loopStep c choice = some s') :
    s'.loop.pc ≠ .drain ∧ s'.loop.pc ≠ .exited := by
  cases loopStep_effect h with
  | done _ hctx => cases hctx.symm.trans hdone
  | receive | lookEmpty => exact hawake
  | drained hpc => exact absurd hpc hawake.1
  | tick | look | rest | take | noFibers | test | drop | mark | launch => simp [setLoop, launch]

theorem Serves.loopStep {choice : LoopChoice} (hs : s.Serves c)
    (h : s.loopStep c choice = some s') : s'.Serves c where
  sound := hs.sound.step (l := .loop choice) h
  flows := hs.flows.step_zero (l := .loop choice) hs.sound rfl h
  isOpen := hs.isOpen.of_frame (loopStep_frame h).1
  awake := loopStep_awake hs.isOpen.done hs.awake h

theorem Serves.goStep {drop : Finset FiberID} (hs : s.Serves c)
    (h : s.goStep c g drop = some s') : s'.Serves c where
  sound := hs.sound.step (l := .go g drop) h
  flows := hs.flows.step_zero (l := .go g drop) hs.sound rfl h
  isOpen := hs.isOpen.of_frame (goStep_frame h)
  awake := by
    rw [(goStep_flow h).loop]
    exact hs.awake

/-! ## The queue -/

/-- A goroutine takes nothing out of the queues but its own fiber. -/
theorem goStep_queue {drop : Finset FiberID} (h : s.goStep c g drop = some s') :
    s'.sched.queue.length ≤ s.sched.queue.length
      ∧ ∀ w, f ≠ g → ⟨w, f⟩ ∈ s.sched.queue → ⟨w, f⟩ ∈ s'.sched.queue := by
  cases goStep_effect h with
  | markCompleted =>
    exact ⟨List.length_erase_le, fun w hne hq => (List.mem_erase_of_ne (by simp [hne])).mpr hq⟩
  | sweep =>
    exact ⟨List.length_filter_le .., fun w hne hq => List.mem_filter.mpr ⟨hq, by simp [hne]⟩⟩
  | _ =>
    exact ⟨le_rfl, fun _ _ hq => hq⟩

/-- `Next` hands out the first fiber of a queue, and `f` is that fiber or stays in the queue. -/
theorem exists_look (hkind : c.kind = .fifo ∨ c.kind = .roundRobin) (hs : s.Sound c)
    (hpc : s.loop.pc = .looking) (hq : ⟨0, f⟩ ∈ s.sched.queue) :
    ∃ g s', s.loopStep c (.look 0 (some g)) = some s' ∧ s'.loop.pc = .holding g
      ∧ s'.threads = s.threads ∧ s'.sched.queue.length < s.sched.queue.length
      ∧ (g = f ∨ ⟨0, f⟩ ∈ s'.sched.queue) := by
  have hfinished := hs.not_finished_of_queued hq
  have hkept : ⟨0, f⟩ ∈ (s.sched.filterFinished s.finished 0).queue :=
    List.mem_filter.mpr ⟨hq, by simp [hfinished]⟩
  have hlocal : f ∈ (s.sched.filterFinished s.finished 0).localQueue 0 :=
    List.mem_map.mpr ⟨⟨0, f⟩, List.mem_filter.mpr ⟨hkept, by simp⟩, rfl⟩
  cases hqueue : (s.sched.filterFinished s.finished 0).localQueue 0 with
  | nil =>
    rw [hqueue] at hlocal
    cases hlocal
  | cons g rest =>
    have hg : ⟨0, g⟩ ∈ (s.sched.filterFinished s.finished 0).queue :=
      mem_localQueue (hqueue ▸ List.mem_cons_self)
    have htake : Sched.mayTake c.kind (g :: rest) g = true := by
      rcases hkind with hkind | hkind <;> simp [Sched.mayTake, hkind]
    refine ⟨g, { s with sched := (s.sched.filterFinished s.finished 0).take ⟨0, g⟩ }.setLoop
      (.holding g), by simp only [State.loopStep, hpc, lookStep, hqueue, if_pos htake], rfl, rfl,
      length_take_lt hg, ?_⟩
    by_cases hne : g = f
    · exact .inl hne
    · exact .inr ((List.mem_erase_of_ne (by simp [Ne.symm hne])).mpr hkept)

/-! ## The way to the next dispatch -/

/-- The steps that wait for no fiber function: those of the loop, and of the goroutines whose
function is over. -/
def Unaided (t : State) (l : Label) : Prop :=
  (∃ choice, l = .loop choice) ∨ ∃ g drop, l = .go g drop ∧ (t.threads g).go.inFunction = false

theorem busy_goStep {drop : Finset FiberID} {run : Nat} (hs : s.Sound c)
    (h : s.goStep c g drop = some s') (hover : (s.threads g).go.inFunction = false) :
    s'.busy run ⊆ s.busy run := by
  intro f hf
  obtain ⟨hflight, hin⟩ := Finset.mem_filter.mp hf
  have hs' : s'.Sound c := hs.step (l := .go g drop) h
  have hne : f ≠ g := by
    rintro rfl
    rw [(goStep_next h).over hover] at hin
    cases hin
  rw [hs'.mem_inFlight, (goStep_flow h).others f hne] at hflight
  rw [(goStep_flow h).others f hne] at hin
  exact Finset.mem_filter.mpr ⟨hs.mem_inFlight.mpr hflight, hin⟩

/-- The steps before the loop looks for a fiber, at most: it hears of a result, wakes up, and finds
a worker to spare. -/
def lookRank (c : Config) (s : State) : Nat :=
  match s.loop.pc with
  | .select => if s.loop.active < c.numWorkers then 2 else s.goRank c + 3
  | .inner => if s.loop.active < c.numWorkers then 1 else s.goRank c + 4
  | _ => 0

/-- The loop is between two dispatches, on its way from `s`. -/
structure Seeks (c : Config) (s t : State) (f : FiberID) : Prop where
  serves : t.Serves c
  pc : t.loop.pc = .select ∨ t.loop.pc = .inner ∨ t.loop.pc = .looking
  free : (t.busy t.epoch).card < c.numWorkers
  queued : ⟨0, f⟩ ∈ t.sched.queue
  length : t.sched.queue.length ≤ s.sched.queue.length
  epoch : t.epoch = s.epoch
  absent : ∀ g, (t.threads g).go = .absent → (s.threads g).go = .absent

/-- When all workers are taken and no result is there, one of them has finished its function. -/
theorem Seeks.exists_over {t : State} (h : s.Seeks c t f) (hfull : ¬t.loop.active < c.numWorkers)
    (hnone : t.results t.epoch = 0) :
    ∃ g ∈ t.inFlight t.epoch, (t.threads g).go.inFunction = false := by
  by_contra hall
  have hsub : t.inFlight t.epoch ⊆ t.busy t.epoch := fun g hg =>
    Finset.mem_filter.mpr ⟨hg, by
      cases hin : (t.threads g).go.inFunction with
      | true => rfl
      | false => exact absurd ⟨g, hg, hin⟩ hall⟩
  have hactive := h.serves.flows.active h.serves.isOpen.done
  rw [fiberWG_eq_card, hnone] at hactive
  have := Finset.card_le_card hsub
  have := h.free
  omega

theorem Seeks.goStep {t t' : State} {drop : Finset FiberID} (h : s.Seeks c t f)
    (hst : t.goStep c g drop = some t') (hover : (t.threads g).go.inFunction = false) :
    s.Seeks c t' f := by
  have hflow := goStep_flow hst
  have hframe := goStep_frame hst
  have hne : f ≠ g := by
    rintro rfl
    exact hflow.before.1 (h.serves.sound.go_absent_of_queued h.queued)
  obtain ⟨hlength, hqueued⟩ := goStep_queue (f := f) hst
  refine ⟨h.serves.goStep hst, hflow.loop ▸ h.pc, ?_, hqueued 0 hne h.queued,
    hlength.trans h.length, hframe.run.1.trans h.epoch, fun g' hg' => h.absent g' ?_⟩
  · rw [hframe.run.1]
    exact (Finset.card_le_card (busy_goStep h.serves.sound hst hover)).trans_lt h.free
  · have hne' : g' ≠ g := by
      rintro rfl
      rcases hflow.after with ⟨hended, -⟩ | ⟨habsent, -⟩
      · rw [hended] at hg'
        cases hg'
      · exact habsent hg'
    rwa [hflow.others g' hne'] at hg'

/-- Between two dispatches there is always a step that brings the next one nearer. -/
theorem Seeks.exists_step {t : State} (h : s.Seeks c t f) (hpc : t.loop.pc ≠ .looking) :
    ∃ l t', Unaided t l ∧ step c t l = some t' ∧ s.Seeks c t' f ∧ t'.lookRank c < t.lookRank c := by
  have hloop : ∀ {choice t'}, t.loopStep c choice = some t' → t'.threads = t.threads →
      t'.sched = t.sched → t'.calls = t.calls →
      (t'.loop.pc = .select ∨ t'.loop.pc = .inner ∨ t'.loop.pc = .looking) →
      s.Seeks c t' f := by
    intro choice t' hst hthreads hsched hcalls hpc'
    have hepoch := (loopStep_frame hst).1.run.1
    refine ⟨h.serves.loopStep hst, hpc', ?_, hsched ▸ h.queued, hsched ▸ h.length,
      hepoch.trans h.epoch, fun g hg => h.absent g (hthreads ▸ hg)⟩
    have hbusy : t'.busy t'.epoch = t.busy t.epoch := by
      rw [hepoch, busy, busy, inFlight, inFlight, hthreads, hcalls]
    rw [hbusy]
    exact h.free
  rcases h.pc with hsel | hinner | hlook
  · by_cases hactive : t.loop.active < c.numWorkers
    · have hst : t.loopStep c .tick = some (t.setLoop .inner) := by
        simp only [State.loopStep, hsel]
      refine ⟨.loop .tick, _, .inl ⟨_, rfl⟩, hst,
        hloop hst rfl rfl rfl (.inr (.inl rfl)), ?_⟩
      simp [lookRank, setLoop, hsel, hactive]
    · by_cases hnone : t.results t.epoch = 0
      · obtain ⟨g, hg, hover⟩ := h.exists_over hactive hnone
        obtain ⟨hrun, hlive⟩ := h.serves.sound.mem_inFlight.mp hg
        obtain ⟨drop, t', hst⟩ := exists_goStep (c := c) hlive fun _ => by
          rw [hrun, hnone]
          decide
        have hlt := goRank_lt (c := c) (l := .go g drop) hst (.inl ⟨drop, rfl⟩)
          (Finset.mem_range.mp (Finset.mem_filter.mp hg).1) hrun (goStep_rank hst)
        refine ⟨.go g drop, t', .inr ⟨g, drop, rfl, hover⟩, hst, h.goStep hst hover, ?_⟩
        simp only [lookRank, (goStep_flow hst).loop, hsel, if_neg hactive]
        omega
      · -- a result is waiting: with it comes a worker
        have hle := h.serves.flows.within.le
        have hactive' := h.serves.flows.active h.serves.isOpen.done
        have hst : t.loopStep c .result = t.receive := by simp only [State.loopStep, hsel]
        rw [receive, if_pos (Nat.pos_of_ne_zero hnone)] at hst
        refine ⟨.loop .result, _, .inl ⟨_, rfl⟩, hst, hloop hst rfl rfl rfl (.inl hsel), ?_⟩
        simp only [lookRank, hsel, if_neg hactive]
        rw [if_pos (by omega)]
        omega
  · have hst : t.loopStep c .next = some (t.setLoop
        (if t.loop.active < c.numWorkers ∧ t.sched.base.stopped = false then .looking
        else .select)) := by
      simp only [State.loopStep, hinner]
    refine ⟨.loop .next, _, .inl ⟨_, rfl⟩, hst, hloop hst rfl rfl rfl ?_, ?_⟩
    · simp only [setLoop]
      split_ifs
      · exact .inr (.inr rfl)
      · exact .inl rfl
    · by_cases hactive : t.loop.active < c.numWorkers
      · simp [lookRank, setLoop, hinner, hactive, h.serves.isOpen.sched]
      · have hsame : (t.setLoop .select).goRank c = t.goRank c := rfl
        simp only [hactive, false_and, if_false]
        simp only [lookRank, setLoop, hinner, hactive, if_false] at hsame ⊢
        omega
  · exact absurd hlook hpc

/-- With a worker to spare, the loop comes to look for a fiber. -/
theorem comes_to_look (hs : s.Serves c)
    (hpc : s.loop.pc = .select ∨ s.loop.pc = .inner ∨ s.loop.pc = .looking)
    (hfree : (s.busy s.epoch).card < c.numWorkers) (hq : ⟨0, f⟩ ∈ s.sched.queue) :
    ∃ t, Reach (step c) Unaided s t ∧ s.Seeks c t f ∧ t.loop.pc = .looking :=
  exists_reach_of_rank (step c) Unaided (lookRank c) (P := fun t => s.Seeks c t f)
    (Q := fun t => t.loop.pc = .looking) (fun _ h hpc => h.exists_step hpc)
    ⟨hs, hpc, hfree, hq, le_rfl, rfl, fun _ h => h⟩

/-- The loop has launched fiber `g` and is back at its head. -/
structure Launched (c : Config) (s t : State) (g : FiberID) : Prop where
  reach : Reach (step c) Unaided s t
  serves : t.Serves c
  pc : t.loop.pc = .inner
  queue : t.sched = s.sched
  epoch : t.epoch = s.epoch
  go : (t.threads g).go = .run
  run : (t.threads g).run = s.epoch

theorem Launched.cons {choice : LoopChoice} {t : State} (hst : s.loopStep c choice = some s')
    (hsched : s'.sched = s.sched) (h : s'.Launched c t g) : s.Launched c t g := by
  have hepoch := (loopStep_frame hst).1.run.1
  exact ⟨Reach.trans (.tail (l := .loop choice) .refl (.inl ⟨choice, rfl⟩) hst) h.reach, h.serves,
    h.pc, h.queue.trans hsched, h.epoch.trans hepoch, h.go, h.run.trans hepoch⟩

theorem launches_launching (hs : s.Serves c) (hpc : s.loop.pc = .launching g) :
    s.Launched c (s.launch g) g := by
  have hst : s.loopStep c .next = some (s.launch g) := by
    simp [State.loopStep, hpc, hs.isOpen.muHeld]
  refine ⟨.tail (l := .loop .next) .refl (.inl ⟨_, rfl⟩) hst, hs.loopStep hst, rfl, rfl, rfl, ?_,
    ?_⟩ <;> simp [launch, setThread]

theorem launches_marking (hs : s.Serves c) (hpc : s.loop.pc = .marking g) :
    ∃ t, s.Launched c t g := by
  have hst : s.loopStep c .next = some ((s.setThread g
      { s.threads g with fiber := (s.threads g).fiber.markScheduled }).setLoop (.launching g)) := by
    simp only [State.loopStep, hpc]
  exact ⟨_, .cons hst rfl (launches_launching (hs.loopStep hst) rfl)⟩

/-- What `Next` has handed out is ready, and is launched. -/
theorem launches_holding (hs : s.Serves c) (hpc : s.loop.pc = .holding g) :
    ∃ t, s.Launched c t g := by
  have hhand : (s.life g).hand = .holding := by simp [life, LoopPc.hand, hpc]
  have habsent := (hs.sound.life g).placed.go_absent (.inl (by simp [hhand]))
  have hrunnable : (s.threads g).fiber.isRunnable = true :=
    (hs.sound.life g).fiber.isRunnable habsent (by simp [hhand])
  have hst : s.loopStep c .next = some (s.setLoop (.marking g)) := by
    simp only [State.loopStep, hpc, hrunnable, if_true]
  obtain ⟨t, ht⟩ := launches_marking (hs.loopStep hst) rfl
  exact ⟨t, .cons hst rfl ht⟩

/-- Twice the number of queued fibers, and one more unless the loop is at its head. -/
def dispatchRank (s : State) : Nat :=
  2 * s.sched.queue.length + if s.loop.pc = .inner then 0 else 1

/-- Fiber `g` has been dispatched on the way from `s` to `t`: it is `f`, or `f` is still queued and
nearer to its turn. -/
structure Dispatched (c : Config) (s t : State) (f g : FiberID) : Prop where
  reach : Reach (step c) Unaided s t
  serves : t.Serves c
  epoch : t.epoch = s.epoch
  absent : (s.threads g).go = .absent
  go : (t.threads g).go = .run
  run : (t.threads g).run = s.epoch
  left : g = f ∨ ⟨0, f⟩ ∈ t.sched.queue ∧ t.dispatchRank < s.dispatchRank

/-- The loop has a fiber in hand. -/
theorem Launched.dispatched {t : State} (hs : s.Sound c) (hhand : s.loop.pc.hand g ≠ .empty)
    (hq : ⟨0, f⟩ ∈ s.sched.queue) (h : s.Launched c t g) : s.Dispatched c t f g := by
  have habsent := hs.go_absent_of_hand hhand
  refine ⟨h.reach, h.serves, h.epoch, habsent, h.go, h.run, .inr ⟨h.queue ▸ hq, ?_⟩⟩
  have hpc : s.loop.pc ≠ .inner := by
    intro hpc
    rw [hpc] at hhand
    exact hhand rfl
  simp only [dispatchRank, h.queue, h.pc, if_neg hpc, if_true]
  omega

/-- The loop is between two dispatches. -/
theorem Serves.seeks (hkind : c.kind = .fifo ∨ c.kind = .roundRobin) (hs : s.Serves c)
    (hpc : s.loop.pc = .select ∨ s.loop.pc = .inner ∨ s.loop.pc = .looking)
    (hfree : (s.busy s.epoch).card < c.numWorkers) (hq : ⟨0, f⟩ ∈ s.sched.queue) :
    ∃ g t, s.Dispatched c t f g := by
  obtain ⟨t, hrun, hseeks, hlook⟩ := comes_to_look hs hpc hfree hq
  obtain ⟨g, t₁, hst, hpc₁, hthreads, hlt, hleft⟩ :=
    exists_look hkind hseeks.serves.sound hlook hseeks.queued
  have hs₁ := hseeks.serves.loopStep hst
  have habsent := hs₁.sound.go_absent_of_hand (f := g) (by simp [LoopPc.hand, hpc₁])
  have hepoch : t₁.epoch = s.epoch := (loopStep_frame hst).1.run.1.trans hseeks.epoch
  obtain ⟨t₂, ht₂⟩ := launches_holding hs₁ hpc₁
  have hstep : step c t (.loop (.look 0 (some g))) = some t₁ := hst
  refine ⟨g, t₂, (hrun.tail (.inl ⟨_, rfl⟩) hstep).trans ht₂.reach, ht₂.serves,
    ht₂.epoch.trans hepoch, hseeks.absent g (hthreads ▸ habsent), ht₂.go, ht₂.run.trans hepoch,
    hleft.imp_right fun hmem => ⟨ht₂.queue ▸ hmem, ?_⟩⟩
  have hle := hseeks.length
  simp only [dispatchRank, ht₂.queue, ht₂.pc, if_true]
  omega

/-- With a worker to spare and a fiber in the queue, the loop dispatches a fiber. -/
theorem Serves.dispatches (hkind : c.kind = .fifo ∨ c.kind = .roundRobin) (hs : s.Serves c)
    (hfree : (s.busy s.epoch).card < c.numWorkers) (hq : ⟨0, f⟩ ∈ s.sched.queue) :
    ∃ g t, s.Dispatched c t f g := by
  cases hpc : s.loop.pc with
  | drain => exact absurd hpc hs.awake.1
  | exited => exact absurd hpc hs.awake.2
  | select => exact hs.seeks hkind (.inl hpc) hfree hq
  | inner => exact hs.seeks hkind (.inr (.inl hpc)) hfree hq
  | looking => exact hs.seeks hkind (.inr (.inr hpc)) hfree hq
  | holding g =>
    obtain ⟨t, ht⟩ := launches_holding hs hpc
    exact ⟨g, t, ht.dispatched hs.sound (by simp [LoopPc.hand, hpc]) hq⟩
  | marking g =>
    obtain ⟨t, ht⟩ := launches_marking hs hpc
    exact ⟨g, t, ht.dispatched hs.sound (by simp [LoopPc.hand, hpc]) hq⟩
  | launching g =>
    exact ⟨g, _, (launches_launching hs hpc).dispatched hs.sound (by simp [LoopPc.hand, hpc]) hq⟩

/-! ## Waiting for the functions -/

/-- The steps of the loop and of the goroutines: the fiber functions return. -/
def Returning (_ : State) (l : Label) : Prop :=
  (∃ choice, l = .loop choice) ∨ ∃ g drop, l = .go g drop

/-- If the fiber functions return, there is a worker to spare again. -/
theorem Serves.frees (hworkers : 0 < c.numWorkers) (hs : s.Serves c)
    (hq : ⟨0, f⟩ ∈ s.sched.queue) :
    ∃ t, Reach (step c) Returning s t ∧ t.Serves c ∧ ⟨0, f⟩ ∈ t.sched.queue
      ∧ t.epoch = s.epoch ∧ t.dispatchRank ≤ s.dispatchRank
      ∧ (t.busy t.epoch).card < c.numWorkers := by
  obtain ⟨t, hrun, ⟨hserves, hqueued, hepoch, hrank⟩, hfree⟩ := exists_reach_of_rank (step c)
    Returning (goRank c)
    (P := fun t => t.Serves c ∧ ⟨0, f⟩ ∈ t.sched.queue ∧ t.epoch = s.epoch
      ∧ t.dispatchRank ≤ s.dispatchRank)
    (Q := fun t => (t.busy t.epoch).card < c.numWorkers) (s := s)
    (fun t ⟨ht, hqueued, hepoch, hrank⟩ hbusy => by
      obtain ⟨g, hg⟩ : (t.busy t.epoch).Nonempty := Finset.card_pos.mp (by omega)
      obtain ⟨hflight, hin⟩ := Finset.mem_filter.mp hg
      obtain ⟨hg', hlive⟩ := ht.sound.mem_inFlight.mp hflight
      obtain ⟨drop, t', hst⟩ := exists_goStep (c := c) hlive fun hsend => by
        rw [hsend] at hin
        cases hin
      have hne : f ≠ g := by
        rintro rfl
        exact hlive.1 (ht.sound.go_absent_of_queued hqueued)
      obtain ⟨hlength, hkept⟩ := goStep_queue (f := f) hst
      refine ⟨.go g drop, t', .inr ⟨g, drop, rfl⟩, hst, ⟨ht.goStep hst, hkept 0 hne hqueued,
        (goStep_frame hst).run.1.trans hepoch, ?_⟩, goRank_lt (l := .go g drop) hst
          (.inl ⟨drop, rfl⟩) (Finset.mem_range.mp (Finset.mem_filter.mp hflight).1) hg'
          (goStep_rank hst)⟩
      refine le_trans ?_ hrank
      simp only [dispatchRank, (goStep_flow hst).loop]
      omega) ⟨hs, hq, rfl, le_rfl⟩
  exact ⟨t, hrun, hserves, hqueued, hepoch, hrank, hfree⟩

/-- Induction on the dispatches ahead. -/
theorem Serves.dispatches_queued (hkind : c.kind = .fifo ∨ c.kind = .roundRobin)
    (hworkers : 0 < c.numWorkers) (hs : s.Serves c) (hq : ⟨0, f⟩ ∈ s.sched.queue) :
    ∃ t, Reach (step c) Returning s t ∧ (t.threads f).go = .run
      ∧ (t.threads f).run = s.epoch := by
  induction hn : s.dispatchRank using Nat.strongRecOn generalizing s with
  | ind n ih =>
    obtain ⟨t, hrun, ht, hqueued, hepoch, hrank, hfree⟩ := hs.frees hworkers hq
    obtain ⟨g, t₁, hdisp⟩ := ht.dispatches hkind hfree hqueued
    have hrun₁ : Reach (step c) Returning s t₁ := hrun.trans <| hdisp.reach.mono fun _ _ hl =>
      hl.imp_right fun ⟨g, drop, hl, _⟩ => ⟨g, drop, hl⟩
    rcases hdisp.left with rfl | ⟨hleft, hlt⟩
    · exact ⟨t₁, hrun₁, hdisp.go, hdisp.run.trans hepoch⟩
    · obtain ⟨t₂, hrun₂, hgo, hrun'⟩ :=
        ih t₁.dispatchRank (by omega) hdisp.serves hleft rfl
      exact ⟨t₂, hrun₁.trans hrun₂, hgo, hrun'.trans (hdisp.epoch.trans hepoch)⟩

/-! ## The loop of a run that is going -/

/-- The loop is on its way out, or gone, only after the context is done. -/
def Heard (s : State) : Prop :=
  s.loop.pc = .drain ∨ s.loop.pc = .exited → 0 < s.epoch → s.epoch ∈ s.cancelled

theorem Heard.of_same (hs : s.Heard) (hepoch : s'.epoch = s.epoch)
    (hcancel : s.cancelled ⊆ s'.cancelled) (hloop : s'.loop = s.loop) : s'.Heard := by
  unfold Heard at hs ⊢
  rw [hloop, hepoch]
  exact fun hpc hpos => hcancel (hs hpc hpos)

theorem Heard.step (hs : s.Heard) (h : step c s l = some s') : s'.Heard := by
  by_cases haside : l.isAside = true
  · obtain ⟨hepoch, hcancel, hloop, -⟩ := step_aside h haside
    exact hs.of_same hepoch hcancel hloop
  · cases l with
    | loop choice =>
      have hrun := (loopStep_frame h).1.run
      intro hpc hpos
      rw [hrun.1] at hpos ⊢
      rw [hrun.2.1]
      by_contra hnot
      -- the loop would have had to be on its way out before
      have hdone : s.done s.epoch = false := decide_eq_false hnot
      have hawake := loopStep_awake hdone
        ⟨fun hd => hnot (hs (.inl hd) hpos), fun he => hnot (hs (.inr he) hpos)⟩ h
      exact hpc.elim hawake.1 hawake.2
    | go g drop =>
      have hrun := (goStep_frame h).run
      exact hs.of_same hrun.1 (subset_of_eq hrun.2.1.symm) (goStep_flow h).loop
    | discard g | goexit g =>
      cases step_effect h
      exact hs
    | lifecycle =>
      by_cases hstart : s.lifecycle = .startRun
      · simp only [Runtime.step, lifecycleStep, hstart, Option.some.injEq] at h
        subst h
        rintro (hpc | hpc) <;> cases hpc
      · obtain ⟨hepoch, hcancel, hloop, -⟩ := lifecycleStep_same h hstart
        exact hs.of_same hepoch hcancel hloop
    | _ => exact absurd rfl haside

end State

section

variable {c : Config} {s₀ s : State} {f : FiberID}

theorem serves_of_reach (h₀ : Initial c s₀)
    (h : Reach (step c) (fun _ l => l.isGoexit = false) s₀ s)
    {last : Option (Except LifecycleError Unit)} (hidle : s.lifecycle = .idle last)
    (hrun : s.isRunning = true) (hctx : s.done s.epoch = false) : s.Serves c := by
  have hs := sound_of_reach h₀ h
  have hheard : s.Heard := by
    refine h.invariant (P := State.Heard) ?_ fun _ _ _ hs _ hst => hs.step hst
    rcases h₀ with rfl | rfl <;> exact fun _ hpos => absurd hpos (lt_irrefl 0)
  obtain ⟨hpos, -⟩ := (State.isRunning_iff s).mp hrun
  have hnot : s.epoch ∉ s.cancelled := of_decide_eq_false hctx
  exact ⟨hs, leaks_of_reach h₀ h, open_of_reach h₀ h hidle hrun hctx,
    fun hpc => hnot (hheard (.inl hpc) hpos), fun hpc => hnot (hheard (.inr hpc) hpos)⟩

/-- In a run that is going, with a fiber in the queue: as long as the fiber functions hold fewer
than `numWorkers` workers, steps of the loop and of goroutines whose function is over dispatch a
fiber. No fiber function needs to return for that, and nobody needs to wake the loop up. -/
theorem free_worker_dispatches (hkind : c.kind = .fifo ∨ c.kind = .roundRobin)
    (h₀ : Initial c s₀) (h : Reach (step c) (fun _ l => l.isGoexit = false) s₀ s)
    {last : Option (Except LifecycleError Unit)} (hidle : s.lifecycle = .idle last)
    (hrun : s.isRunning = true) (hctx : s.done s.epoch = false) (hq : ⟨0, f⟩ ∈ s.sched.queue)
    (hfree : (s.busy s.epoch).card < c.numWorkers) :
    ∃ g t, Reach (step c) State.Unaided s t ∧ (s.threads g).go = .absent
      ∧ (t.threads g).go = .run ∧ (t.threads g).run = s.epoch := by
  obtain ⟨g, t, ht⟩ := (serves_of_reach h₀ h hidle hrun hctx).dispatches hkind hfree hq
  exact ⟨g, t, ht.reach, ht.absent, ht.go, ht.run⟩

/-- Two workers: fiber 0 is in its function, fiber 1 has just left its own, and fiber 2 waits. -/
theorem free_worker_dispatches_leaving :
    ∃ s, Reach (step (.ofNewRuntime .fifo 2)) (fun _ l => l.isGoexit = false)
        (.new (.ofNewRuntime .fifo 2)) s
      ∧ s.loop.active = 2 ∧ (s.threads 0).go = .body ∧ s.sched.queue = [⟨0, 2⟩]
      ∧ ∃ g t, Reach (step (.ofNewRuntime .fifo 2)) State.Unaided s t
        ∧ (s.threads g).go = .absent ∧ (t.threads g).go = .run
        ∧ (t.threads g).run = s.epoch := by
  obtain ⟨s, hs, htest⟩ := exists_reach_of_exec_guarded (step (.ofNewRuntime .fifo 2))
    (fun _ l => l.isGoexit = false) (.new (.ofNewRuntime .fifo 2))
    (List.flatten [Label.startTrace, List.replicate 3 (.call false 0), Label.spawnTrace 0 9,
      Label.spawnTrace 1 9, Label.spawnTrace 2 9, Label.dispatchTrace 0,
      [.loop .next, .loop (.look 0 (some 1)), .loop .next, .loop .next, .loop .next],
      List.replicate 2 (.go 1 ∅)])
    (fun s => decide (s.loop.active = 2 ∧ (s.threads 0).go = .body ∧ s.sched.queue = [⟨0, 2⟩]
      ∧ s.lifecycle = .idle (some (.ok ())) ∧ s.isRunning = true ∧ s.done s.epoch = false
      ∧ (s.busy s.epoch).card < 2))
    (by decide +kernel)
  obtain ⟨hactive, hbody, hqueue, hidle, hrun, hctx, hfree⟩ := of_decide_eq_true htest
  exact ⟨s, hs, hactive, hbody, hqueue, free_worker_dispatches (f := 2) (.inl rfl) (.inl rfl) hs
    hidle hrun hctx (by simp [hqueue]) hfree⟩

/-- In a run that is going, every queued fiber can be dispatched by this run, with no other steps
than those of the loop and of the goroutines in flight: it is not lost, and no signal that the
loop waits for can be missed. -/
theorem queued_fiber_dispatched (hkind : c.kind = .fifo ∨ c.kind = .roundRobin)
    (hworkers : 0 < c.numWorkers) (h₀ : Initial c s₀)
    (h : Reach (step c) (fun _ l => l.isGoexit = false) s₀ s)
    {last : Option (Except LifecycleError Unit)} (hidle : s.lifecycle = .idle last)
    (hrun : s.isRunning = true) (hctx : s.done s.epoch = false) (hq : ⟨0, f⟩ ∈ s.sched.queue) :
    ∃ t, Reach (step c) State.Returning s t ∧ (t.threads f).go = .run
      ∧ (t.threads f).run = s.epoch :=
  (serves_of_reach h₀ h hidle hrun hctx).dispatches_queued hkind hworkers hq

end

/-- One worker, which fiber 0 holds with its function: fiber 2 waits behind fiber 1. -/
theorem queued_fiber_dispatched_second :
    ∃ s, Reach (step (.ofNewRuntime .roundRobin 1)) (fun _ l => l.isGoexit = false)
        (.new (.ofNewRuntime .roundRobin 1)) s
      ∧ (s.threads 0).go = .body ∧ s.sched.queue = [⟨0, 1⟩, ⟨0, 2⟩]
      ∧ ∃ t, Reach (step (.ofNewRuntime .roundRobin 1)) State.Returning s t
        ∧ (t.threads 2).go = .run ∧ (t.threads 2).run = s.epoch := by
  obtain ⟨s, hs, htest⟩ := exists_reach_of_exec_guarded (step (.ofNewRuntime .roundRobin 1))
    (fun _ l => l.isGoexit = false) (.new (.ofNewRuntime .roundRobin 1))
    (List.flatten [Label.startTrace, List.replicate 3 (.call false 0), Label.spawnTrace 0 9,
      Label.spawnTrace 1 9, Label.spawnTrace 2 9, Label.dispatchTrace 0])
    (fun s => decide ((s.threads 0).go = .body ∧ s.sched.queue = [⟨0, 1⟩, ⟨0, 2⟩]
      ∧ s.lifecycle = .idle (some (.ok ())) ∧ s.isRunning = true ∧ s.done s.epoch = false))
    (by decide +kernel)
  obtain ⟨hbody, hqueue, hidle, hrun, hctx⟩ := of_decide_eq_true htest
  exact ⟨s, hs, hbody, hqueue, queued_fiber_dispatched (f := 2) (.inr rfl) (by decide) (.inl rfl)
    hs hidle hrun hctx (by simp [hqueue])⟩

end GreenThreads.Runtime
