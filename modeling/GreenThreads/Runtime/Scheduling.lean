import GreenThreads.Runtime.Runs
import GreenThreads.Scheduler.Sections

/-!
# GreenThreads — a runtime and its scheduler

`Runtime.step` has the scheduler as the runtime meets it: a list of entries, of which `Next` hands
out one that it may take. Here the runtime runs on the scheduler itself, FIFO, round robin or
priority, with its queue or its heap; a step of the runtime takes the section of the scheduler that
the source enters there.

* `Matches` — the entries are those of the scheduler: in the same order but for the heap;
* `scheduler_implements` — in every run the scheduler can take the section that the runtime comes
  to, and what `Next` finds is something that the runtime is ready for;
* `heap_reliable` — in a runtime the heap has no finished fiber, so that the positions its entries
  note are right.
-/

namespace GreenThreads.Runtime

open Scheduler (SchedulerType BaseScheduler AnyScheduler QueueScheduler PriorityItem
  PriorityScheduler)
open Trans

/-! ## The scheduler and its entries -/

/-- The entries of the one queue there is. -/
def entries (queue : List FiberID) : List Entry := queue.map (Entry.mk 0)

theorem entry_injective : Function.Injective (Entry.mk 0) := fun _ _ h => (Entry.mk.inj h).2

theorem entries_erase (queue : List FiberID) (f : FiberID) :
    entries (queue.erase f) = (entries queue).erase ⟨0, f⟩ :=
  List.map_erase entry_injective queue

/-- What the runtime model has of a scheduler of that kind is what the scheduler has; the runtime
blocks no fiber there. -/
structure Matches (kind : SchedulerType) (sched : Sched) (σ : AnyScheduler) : Prop where
  type : σ.type = kind
  base : σ.base = sched.base
  blocked : sched.base.blockedQueue = []
  perm : sched.queue.Perm (entries σ.runQueue)
  order : kind ≠ .priority → sched.queue = entries σ.runQueue

namespace Matches

variable {kind : SchedulerType} {sched : Sched} {σ : AnyScheduler} {f : FiberID}

theorem new (hkind : kind ≠ .workStealing) (k : Int) (fibers : FiberID → Fiber) :
    Matches kind .new (.new kind k fibers) := by
  cases kind with
  | fifo | roundRobin | priority => exact ⟨rfl, rfl, rfl, .refl _, fun _ => rfl⟩
  | workStealing => exact absurd rfl hkind

theorem withFibers (hm : Matches kind sched σ) (fibers : FiberID → Fiber) :
    Matches kind sched (σ.withFibers fibers) := by
  cases σ <;> exact ⟨hm.type, hm.base, hm.blocked, hm.perm, hm.order⟩

theorem onBase (hm : Matches kind sched σ) {g : BaseScheduler → BaseScheduler}
    (hg : ∀ b, (g b).blockedQueue = b.blockedQueue ∨ (g b).blockedQueue = []) :
    Matches kind { sched with base := g sched.base } (σ.onBase g) := by
  have hblocked : (g sched.base).blockedQueue = [] := by
    rcases hg sched.base with heq | hnil
    · exact heq.trans hm.blocked
    · exact hnil
  cases σ <;> exact ⟨hm.type, congrArg g hm.base, hblocked, hm.perm, hm.order⟩

theorem enqueue (hm : Matches kind sched σ) (hkind : kind ≠ .workStealing) (f : FiberID) :
    ∃ σ', σ.enqueue f = some σ' ∧ Matches kind (sched.enqueue kind 0 f) σ' := by
  have hbase : (sched.enqueue kind 0 f).base = sched.base.countScheduled := if_neg hkind
  cases σ with
  | fifo s | roundRobin s =>
    have hqueue : sched.queue ++ [⟨0, f⟩] = entries (s.runQueue ++ [f]) := by
      rw [entries, List.map_append, hm.order (by rw [← hm.type]; nofun)]
      rfl
    exact ⟨_, rfl, hm.type, (congrArg BaseScheduler.countScheduled hm.base).trans hbase.symm,
      by rw [hbase]; exact hm.blocked, .of_eq hqueue, fun _ => hqueue⟩
  | priority s =>
    obtain ⟨pq, hpush, hperm⟩ := s.pushFiber_queued f
    refine ⟨.priority { s with pqueue := pq, base := s.base.countScheduled },
      by rw [AnyScheduler.enqueue, hpush]; rfl, hm.type,
      (congrArg BaseScheduler.countScheduled hm.base).trans hbase.symm,
      by rw [hbase]; exact hm.blocked, ?_, fun hne => absurd hm.type.symm hne⟩
    have happend : entries s.queued ++ [⟨0, f⟩] = entries (s.queued ++ [f]) := by
      rw [entries, entries, List.map_append]
      rfl
    exact ((hm.perm.append_right _).trans (.of_eq happend)).trans (hperm.map _).symm
  | workStealing k s => exact absurd hm.type.symm hkind

/-- One entry less in both. -/
theorem erase (hm : Matches kind sched σ) {σ' : AnyScheduler} {b : BaseScheduler}
    (htype : σ'.type = σ.type) (hbase : σ'.base = b) (hblocked : b.blockedQueue = [])
    (hperm : σ'.runQueue.Perm (σ.runQueue.erase f))
    (horder : kind ≠ .priority → σ'.runQueue = σ.runQueue.erase f) :
    Matches kind { base := b, queue := sched.queue.erase ⟨0, f⟩ } σ' where
  type := htype.trans hm.type
  base := hbase
  blocked := hblocked
  perm := by
    have hboth := hm.perm.erase (⟨0, f⟩ : Entry)
    rw [← entries_erase] at hboth
    exact hboth.trans (hperm.map _).symm
  order hne := by
    rw [horder hne, entries_erase, ← hm.order hne]

theorem remove (hm : Matches kind sched σ) (hkind : kind ≠ .workStealing) (f : FiberID) :
    ∃ σ' err, σ.remove f = some (σ', err) ∧ Matches kind (sched.remove ⟨0, f⟩) σ' := by
  cases σ with
  | fifo s =>
    have hnone : s.base.blockedQueue = [] := (congrArg _ hm.base).trans hm.blocked
    refine ⟨.fifo (s.remove f).1, (s.remove f).2, rfl, ?_⟩
    rw [QueueScheduler.remove_of_blocked_nil hnone]
    exact hm.erase rfl hm.base hm.blocked (.refl _) fun _ => rfl
  | roundRobin s =>
    have hnone : s.base.blockedQueue = [] := (congrArg _ hm.base).trans hm.blocked
    refine ⟨.roundRobin (s.remove f).1, (s.remove f).2, rfl, ?_⟩
    rw [QueueScheduler.remove_of_blocked_nil hnone]
    exact hm.erase rfl hm.base hm.blocked (.refl _) fun _ => rfl
  | priority s =>
    obtain ⟨pq, err, hremove, hperm⟩ := s.remove_queued f
    refine ⟨.priority { s with pqueue := pq }, err, by rw [AnyScheduler.remove, hremove]; rfl,
      hm.erase rfl hm.base hm.blocked hperm fun hne => absurd hm.type.symm hne⟩
  | workStealing k s => exact absurd hm.type.symm hkind

theorem markCompleted (hm : Matches kind sched σ) (hkind : kind ≠ .workStealing)
    (hf : f ∉ sched.base.completed) (drop : Finset FiberID) :
    ∃ σ', σ.markCompleted f drop = some σ'
      ∧ Matches kind ((sched.countCompleted f drop).remove ⟨0, f⟩) σ' := by
  rw [← hm.base] at hf
  cases σ with
  | fifo s | roundRobin s =>
    have hnone : s.base.blockedQueue = [] := (congrArg _ hm.base).trans hm.blocked
    refine ⟨_, rfl, ?_⟩
    rw [QueueScheduler.markCompleted_of_blocked_nil hnone hf]
    exact hm.erase rfl (congrArg (BaseScheduler.record · f drop) hm.base) hm.blocked (.refl _)
      fun _ => rfl
  | priority s =>
    obtain ⟨pq, hmark, hperm⟩ := s.markCompleted_queued hf drop
    refine ⟨.priority { s with base := s.base.record f drop, pqueue := pq },
      by rw [AnyScheduler.markCompleted, hmark]; rfl, ?_⟩
    exact hm.erase rfl (congrArg (BaseScheduler.record · f drop) hm.base) hm.blocked hperm
      fun hne => absurd hm.type.symm hne
  | workStealing k s => exact absurd hm.type.symm hkind

theorem worker_eq_zero (hm : Matches kind sched σ) {e : Entry} (he : e ∈ sched.queue) :
    e.worker = 0 := by
  obtain ⟨f, -, rfl⟩ := List.mem_map.mp (hm.perm.mem_iff.mp he)
  rfl

/-- No entry is left where the queue of worker 0 has been emptied. -/
theorem clearWorker_queue (hm : Matches kind sched σ) : (sched.clearWorker 0).queue = [] := by
  rw [Sched.clearWorker, List.filter_eq_nil_iff]
  intro e he
  simp [hm.worker_eq_zero he]

theorem clear {c : Config} {s : State} (hm : Matches c.kind s.sched σ)
    (hkind : c.kind ≠ .workStealing) (why : Clearing) (w : Nat) :
    ∃ σ', σ.clearSection w = some σ' ∧ Matches c.kind (s.clearStep c why w).sched σ' := by
  have hnil := hm.clearWorker_queue
  have hqueues : c.numQueues = 1 := c.single hkind
  cases σ with
  | fifo s₁ | roundRobin s₁ =>
    have honce : c.clearsAtOnce = true := by rw [Config.clearsAtOnce, ← hm.type]; rfl
    have hsched : (s.clearStep c why w).sched = (s.sched.clearWorker 0).clearBase := by
      rw [State.clearStep, if_pos honce]
    rw [hsched]
    exact ⟨_, AnyScheduler.clearSection_of_queue (by simp [AnyScheduler.type]) w, hm.type,
      congrArg BaseScheduler.clear hm.base, rfl, .of_eq hnil, fun _ => hnil⟩
  | priority s₁ =>
    have honce : c.clearsAtOnce = false := by rw [Config.clearsAtOnce, ← hm.type]; rfl
    by_cases hw : w = 0
    · subst hw
      have hsched : (s.clearStep c why 0).sched = s.sched.clearWorker 0 := by
        rw [State.clearStep, honce, if_neg (by decide), if_pos (by omega)]
      rw [hsched]
      exact ⟨_, rfl, hm.type, hm.base, hm.blocked, .of_eq hnil, fun _ => hnil⟩
    · have hsched : (s.clearStep c why w).sched = s.sched.clearBase := by
        rw [State.clearStep, honce, if_neg (by decide), if_neg (by omega)]
      rw [hsched]
      exact ⟨.priority { s₁ with base := s₁.base.clear },
        by rw [AnyScheduler.clearSection, if_neg hw]; rfl, hm.type,
        congrArg BaseScheduler.clear hm.base, rfl, hm.perm, hm.order⟩
  | workStealing k s₁ => exact absurd hm.type.symm hkind

section Next

variable {finished : FiberID → Bool}

/-- The queue without its finished fibers. -/
theorem filterFinished (hm : Matches kind sched σ) (finished : FiberID → Bool) :
    (sched.filterFinished finished 0).queue.Perm
        (entries (σ.runQueue.filter fun f => !finished f))
      ∧ (kind ≠ .priority → (sched.filterFinished finished 0).queue
        = entries (σ.runQueue.filter fun f => !finished f)) := by
  have hfilter : ∀ queue, (entries queue).filter (fun e => !(e.worker == 0 && finished e.fiber))
      = entries (queue.filter fun f => !finished f) := by
    intro queue
    rw [entries, entries, List.filter_map]
    rfl
  refine ⟨?_, fun hne => ?_⟩
  · exact (hm.perm.filter _).trans (.of_eq (hfilter _))
  · rw [← hfilter, ← hm.order hne]
    rfl

theorem localQueue_entries (b : BaseScheduler) (queue : List FiberID) :
    Sched.localQueue ⟨b, entries queue⟩ 0 = queue := by
  simp [Sched.localQueue, entries, List.filter_map, Function.comp_def]

/-- What `Next` finds, against the entries. -/
structure Finds (kind : SchedulerType) (filtered : Sched) (σ' : AnyScheduler)
    (found : Option FiberID) : Prop where
  empty : found = none → filtered.localQueue 0 = [] ∧ Matches kind filtered σ'
  taken : ∀ f, found = some f → Sched.mayTake kind (filtered.localQueue 0) f = true
    ∧ Matches kind (filtered.take ⟨0, f⟩) σ'

section Queue

variable {wrap : QueueScheduler → AnyScheduler} {s : QueueScheduler}

theorem of_queue {t : QueueScheduler} {sched' : Sched} (hwrap : wrap = .fifo ∨ wrap = .roundRobin)
    (hm : Matches kind sched (wrap s)) (hbase : t.base = sched'.base)
    (hblocked : sched'.base.blockedQueue = []) (hqueue : sched'.queue = entries t.runQueue) :
    Matches kind sched' (wrap t) := by
  rcases hwrap with rfl | rfl <;>
    exact ⟨hm.type, hbase, hblocked, .of_eq hqueue, fun _ => hqueue⟩

theorem finds_of_queue (hwrap : wrap = .fifo ∨ wrap = .roundRobin)
    (hm : Matches kind sched (wrap s)) (hfin : ∀ f, (s.fibers f).isFinished = finished f) :
    Finds kind (sched.filterFinished finished 0) (wrap s.nextLocked.1) s.nextLocked.2 := by
  have hkind : kind = .fifo ∨ kind = .roundRobin := by
    rw [← hm.type]
    rcases hwrap with rfl | rfl
    · exact .inl rfl
    · exact .inr rfl
  have hbase : s.base = sched.base := by
    rw [← hm.base]
    rcases hwrap with rfl | rfl <;> rfl
  have hqueue : (sched.filterFinished finished 0).queue
      = entries (s.runQueue.filter fun f => !finished f) := by
    have horder := (hm.filterFinished finished).2 (by rcases hkind with rfl | rfl <;> nofun)
    rcases hwrap with rfl | rfl <;> exact horder
  have hlive : Scheduler.filterFinishedInPlace s.fibers s.runQueue
      = s.runQueue.filter fun f => !finished f :=
    List.filter_congr fun f _ => by rw [hfin]
  have hlocal : (sched.filterFinished finished 0).localQueue 0
      = s.runQueue.filter fun f => !finished f := by
    rw [Sched.localQueue, hqueue]
    exact localQueue_entries sched.base _
  unfold QueueScheduler.nextLocked
  rw [hlive]
  cases hcase : s.runQueue.filter fun f => !finished f with
  | nil =>
    rw [hcase] at hqueue hlocal
    exact ⟨fun _ => ⟨hlocal, of_queue hwrap hm hbase hm.blocked hqueue⟩, nofun⟩
  | cons g queue =>
    rw [hcase] at hqueue hlocal
    refine ⟨nofun, fun f hf => ?_⟩
    cases hf
    refine ⟨?_, of_queue hwrap hm (congrArg BaseScheduler.recordSwitch hbase) hm.blocked ?_⟩
    · rw [hlocal]
      rcases hkind with rfl | rfl <;> simp [Sched.mayTake]
    · rw [Sched.take, hqueue]
      exact List.erase_cons_head ..

end Queue

theorem finds_of_priority {s s' : PriorityScheduler} {found : Option FiberID}
    (hm : Matches .priority sched (.priority s))
    (hfin : ∀ f, (s.fibers f).isFinished = finished f) (h : s.nextLocked = some (s', found)) :
    Finds .priority (sched.filterFinished finished 0) (.priority s') found := by
  have hrest : s.unfinished.map PriorityItem.fiber = s.queued.filter fun f => !finished f := by
    rw [PriorityScheduler.queued, List.filter_map]
    refine congrArg _ (List.filter_congr fun item _ => ?_)
    exact congrArg not (hfin item.fiber)
  have hperm : (sched.filterFinished finished 0).queue.Perm
      (entries (s.unfinished.map PriorityItem.fiber)) := by
    rw [hrest]
    exact (hm.filterFinished finished).1
  refine ⟨fun hnone => ?_, fun f hf => ?_⟩
  · subst hnone
    rw [PriorityScheduler.nextLocked_none h] at hperm
    have hnil : (sched.filterFinished finished 0).queue = [] := hperm.eq_nil
    rcases PriorityScheduler.nextLocked_base h with ⟨-, rfl⟩ | ⟨g, hg, -⟩
    · exact ⟨by rw [Sched.localQueue, hnil]; rfl,
        hm.type, hm.base, hm.blocked, .of_eq hnil, fun _ => hnil⟩
    · cases hg
  · subst hf
    have hfibers := PriorityScheduler.nextLocked_fiber h
    have hall : (sched.filterFinished finished 0).queue.Perm
        (⟨0, f⟩ :: entries (s'.pqueue.map PriorityItem.fiber)) :=
      hperm.trans (hfibers.map _).symm
    rcases PriorityScheduler.nextLocked_base h with ⟨hg, -⟩ | ⟨g, hg, hbase⟩
    · cases hg
    · refine ⟨?_, hm.type, hbase.trans (congrArg BaseScheduler.recordSwitch hm.base), hm.blocked,
        ?_, fun hne => absurd rfl hne⟩
      · have hmem : (⟨0, f⟩ : Entry) ∈ (sched.filterFinished finished 0).queue :=
          hall.mem_iff.mpr List.mem_cons_self
        rw [Sched.mayTake, List.contains_iff_mem]
        exact List.mem_map.mpr ⟨_, List.mem_filter.mpr ⟨hmem, rfl⟩, rfl⟩
      · have herase := hall.erase (⟨0, f⟩ : Entry)
        rw [List.erase_cons_head] at herase
        exact herase

theorem nextLocked (hm : Matches kind sched σ) (hkind : kind ≠ .workStealing)
    (hfin : ∀ f, (σ.fibers f).isFinished = finished f) :
    ∃ σ' found, σ.nextLocked = some (σ', found)
      ∧ Finds kind (sched.filterFinished finished 0) σ' found := by
  cases σ with
  | fifo s => exact ⟨_, _, rfl, finds_of_queue (.inl rfl) hm hfin⟩
  | roundRobin s => exact ⟨_, _, rfl, finds_of_queue (.inr rfl) hm hfin⟩
  | priority s =>
    obtain rfl : SchedulerType.priority = kind := hm.type
    obtain ⟨s', found, hnext⟩ := s.exists_nextLocked
    exact ⟨.priority s', found, by rw [AnyScheduler.nextLocked, hnext]; rfl,
      finds_of_priority hm hfin hnext⟩
  | workStealing k s => exact absurd hm.type.symm hkind

end Next

end Matches

/-! ## The runtime on its scheduler -/

/-- A runtime and the scheduler it was made with. -/
structure Driven where
  rt : State
  sched : AnyScheduler

namespace Driven

inductive Label where
  /-- A step of the runtime; `now` is the time at which `NewFiber` makes a fiber. -/
  | runtime (l : Runtime.Label) (now : Int)
  /-- Somebody calls `UpdatePriority` of the scheduler. -/
  | updatePriority (f : FiberID) (p : Int)

/-- The section of the scheduler that the step of the runtime enters; `none` if it panics, or if
`Next` finds something else. -/
def act (d : Driven) (now : Int) : Runtime.Label → Option AnyScheduler
  | .spawn f _ =>
    match (d.rt.threads f).pc with
    | .insert => some (d.sched.withFibers (Function.update d.sched.fibers f { createdAt := now }))
    | .enqueue => d.sched.enqueue f
    | .countScheduled => some (d.sched.onBase BaseScheduler.countScheduled)
    | .remove w _ => if w = 0 then (d.sched.remove f).map Prod.fst else some d.sched
    | _ => some d.sched
  | .loop (.look w found) =>
    d.sched.nextLocked.bind fun r => if w = 0 ∧ r.2 = found then some r.1 else none
  | .go f drop =>
    match (d.rt.threads f).go with
    | .markCompleted => d.sched.markCompleted f drop
    | _ => some d.sched
  | .lifecycle =>
    match d.rt.lifecycle with
    | .startSched => some d.sched.start
    | .stopSched => some d.sched.stop
    | .clear _ w => d.sched.clearSection w
    | _ => some d.sched
  | _ => some d.sched

/-- The fibers are the same objects: the runtime writes their state, the scheduler their
priority. -/
def share (s : State) (σ : AnyScheduler) : AnyScheduler :=
  σ.withFibers fun f => { (s.threads f).fiber with
    priority := (σ.fibers f).priority
    createdAt := (σ.fibers f).createdAt }

def step (c : Config) (d : Driven) : Label → Option Driven
  | .runtime l now =>
    (Runtime.step c d.rt l).bind fun s => (d.act now l).map fun σ => ⟨s, share s σ⟩
  | .updatePriority f p => (d.sched.updatePriority f p).map fun σ => { d with sched := σ }

end Driven

/-- `Next` looks at a queue. -/
def Label.isLook : Label → Bool
  | .loop (.look _ _) => true
  | _ => false

/-! ## Steps that do not enter the scheduler -/

namespace Driven

variable {c : Config} {d d' : Driven} {l : Runtime.Label} {s' : State} {now : Int}

theorem act_spawn (hm : Matches c.kind d.rt.sched d.sched) (hkind : c.kind ≠ .workStealing)
    {f : FiberID} {w : Nat} (h : d.rt.spawnStep c f w = some s') (now : Int) :
    ∃ σ, d.act now (.spawn f w) = some σ ∧ Matches c.kind s'.sched σ := by
  have hqueues : c.numQueues = 1 := c.single hkind
  unfold act
  cases State.spawnStep_effect h with
  | insert hpc =>
    simp only [hpc]
    exact ⟨_, rfl, hm.withFibers _⟩
  | enqueue hpc hw =>
    simp only [hpc]
    obtain rfl : w = 0 := by omega
    exact hm.enqueue hkind f
  | countScheduled hpc =>
    simp only [hpc]
    exact ⟨_, rfl, hm.onBase (g := BaseScheduler.countScheduled) fun _ => .inl rfl⟩
  | removeFound hpc hmem =>
    simp only [hpc]
    obtain rfl := hm.worker_eq_zero hmem
    obtain ⟨σ, err, hremove, hm'⟩ := hm.remove hkind f
    exact ⟨σ, by rw [if_pos rfl, hremove]; rfl, hm'⟩
  | @removeNext v _ hpc hmem | @removeLast v _ hpc hmem =>
    simp only [hpc]
    by_cases hv : v = 0
    · -- the scheduler does not find the fiber either
      subst hv
      obtain ⟨σ, err, hremove, hm'⟩ := hm.remove hkind f
      rw [Sched.remove, List.erase_of_not_mem hmem] at hm'
      exact ⟨σ, by rw [if_pos rfl, hremove]; rfl, hm'⟩
    · exact ⟨d.sched, if_neg hv, hm⟩
  | check hpc | notStarted hpc | reserve hpc | overCap hpc | unreserve hpc | schedule hpc
  | refused hpc | unschedule hpc | unscheduleUndo hpc | readCtx hpc | recheck hpc | commit hpc
  | rollback hpc | rollbackUndo hpc | recordCreated hpc =>
    simp only [hpc]
    exact ⟨_, rfl, hm⟩

theorem act_go (hs : d.rt.Sound c) (hm : Matches c.kind d.rt.sched d.sched)
    (hkind : c.kind ≠ .workStealing) {f : FiberID} {drop : Finset FiberID}
    (h : d.rt.goStep c f drop = some s') (now : Int) :
    ∃ σ, d.act now (.go f drop) = some σ ∧ Matches c.kind s'.sched σ := by
  unfold act
  cases State.goStep_effect h with
  | marked hgo hdone =>
    simp only [hgo]
    exact ⟨d.sched, AnyScheduler.markCompleted_of_completed (hm.base ▸ hdone) drop, hm⟩
  | markCompleted hgo hdone =>
    simp only [hgo]
    exact hm.markCompleted hkind hdone drop
  | markCompletedFirst _ _ _ hws => exact absurd hws hkind
  | @sweep w hgo =>
    simp only [hgo]
    -- the fiber has been taken out of the queue before it was run
    have hsweep : d.rt.sched.sweep ⟨w, f⟩ = d.rt.sched := by
      rw [Sched.sweep, List.filter_eq_self.mpr]
      intro e he
      simp only [bne_iff_ne, ne_eq]
      rintro rfl
      cases (hs.go_absent_of_queued he).symm.trans hgo
    exact ⟨_, rfl, by rw [← hsweep] at hm; exact hm⟩
  | run hgo | skip hgo | body hgo | recordCompleted hgo | remove hgo | undo hgo | send hgo =>
    simp only [hgo]
    exact ⟨_, rfl, hm⟩

theorem act_lifecycle (hm : Matches c.kind d.rt.sched d.sched) (hkind : c.kind ≠ .workStealing)
    (h : d.rt.lifecycleStep c = some s') (now : Int) :
    ∃ σ, d.act now .lifecycle = some σ ∧ Matches c.kind s'.sched σ := by
  unfold act
  have hstart := hm.onBase (g := fun b => b.start.1) fun b => by
    unfold BaseScheduler.start
    split <;> exact .inl rfl
  cases State.lifecycleStep_effect h with
  | startSched hl hbase =>
    simp only [hl]
    rw [hbase] at hstart
    exact ⟨_, rfl, hstart⟩
  | startFailed hl hbase =>
    simp only [hl]
    -- the scheduler was running, and is left as it is
    have hsame : d.rt.sched.base.start.1 = d.rt.sched.base := by
      unfold BaseScheduler.start at hbase ⊢
      split_ifs at hbase ⊢ with hrun
      · rfl
      · cases hbase
    rw [hsame] at hstart
    exact ⟨_, rfl, hstart⟩
  | stopSched hl =>
    simp only [hl]
    refine ⟨_, rfl, hm.onBase (g := fun b => b.stop.1) fun b => ?_⟩
    unfold BaseScheduler.stop
    split <;> exact .inl rfl
  | @clearAtOnce why w hl hatOnce =>
    simp only [hl]
    have hclear := hm.clear hkind why w
    rwa [State.clearStep, if_pos hatOnce] at hclear
  | @clearWorker why w hl hatOnce hw =>
    simp only [hl]
    have hclear := hm.clear hkind why w
    rwa [State.clearStep, if_neg (by simp [hatOnce]), if_pos hw] at hclear
  | @clearBase why w hl hatOnce hw =>
    simp only [hl]
    have hclear := hm.clear hkind why w
    rwa [State.clearStep, if_neg (by simp [hatOnce]), if_neg (by omega)] at hclear
  | startFibers hl | startRun hl | stopCancel hl | stopJoin hl | reapScan hl | reaped hl
  | reapUndo hl | reapRecord hl | join hl | resetMain hl | resetFibers hl | resetMetrics hl =>
    simp only [hl]
    exact ⟨_, rfl, hm⟩

theorem loopStep_sched {s : State} {choice : LoopChoice}
    (hlook : (Runtime.Label.loop choice).isLook = false) (h : s.loopStep c choice = some s') :
    s'.sched = s.sched := by
  cases State.loopStep_effect h with
  | lookEmpty | take => cases hlook
  | _ => rfl

/-- No other step of the runtime enters the scheduler, but for `Next`. -/
theorem act_spec (hs : d.rt.Sound c) (hm : Matches c.kind d.rt.sched d.sched)
    (hkind : c.kind ≠ .workStealing) (hl : l.isLook = false) (h : Runtime.step c d.rt l = some s')
    (now : Int) : ∃ σ, d.act now l = some σ ∧ Matches c.kind s'.sched σ := by
  cases State.step_effect h with
  | spawn => exact act_spawn hm hkind h now
  | go => exact act_go hs hm hkind h now
  | lifecycle => exact act_lifecycle hm hkind h now
  | @loop choice =>
    cases choice with
    | look w found => cases hl
    | _ => exact ⟨_, rfl, loopStep_sched hl h ▸ hm⟩
  | _ => exact ⟨_, rfl, hm⟩

theorem act_positioned {σ : AnyScheduler} (hp : d.sched.Positioned)
    (hfin : ∀ f ∈ d.sched.runQueue, (d.sched.fibers f).isFinished = false)
    (h : d.act now l = some σ) : σ.Positioned := by
  unfold act at h
  split at h
  · split at h
    · cases h
      exact hp.withFibers _
    · exact hp.enqueue h
    · cases h
      exact hp.onBase _
    · split_ifs at h
      · obtain ⟨⟨σ', err⟩, hremove, rfl⟩ := Option.map_eq_some_iff.mp h
        exact hp.remove hremove
      · cases h
        exact hp
    · cases h
      exact hp
  · obtain ⟨⟨σ', found⟩, hnext, hfound⟩ := Option.bind_eq_some_iff.mp h
    split_ifs at hfound
    cases hfound
    exact hp.nextLocked hfin hnext
  · split at h
    · exact hp.markCompleted h
    · cases h
      exact hp
  · split at h
    · cases h
      exact hp.onBase _
    · cases h
      exact hp.onBase _
    · exact hp.clearSection h
    · cases h
      exact hp
  · cases h
    exact hp

/-! ## Runs -/

structure Coupled (c : Config) (d : Driven) : Prop where
  sound : d.rt.Sound c
  matched : Matches c.kind d.rt.sched d.sched
  finished : ∀ f, (d.sched.fibers f).isFinished = d.rt.finished f
  positioned : d.sched.Positioned

/-- What is queued is not finished. -/
theorem Coupled.unfinished (hd : Coupled c d) {f : FiberID} (hf : f ∈ d.sched.runQueue) :
    (d.sched.fibers f).isFinished = false := by
  rw [hd.finished]
  refine hd.sound.not_finished_of_queued (w := 0) (hd.matched.perm.mem_iff.mpr ?_)
  exact List.mem_map.mpr ⟨f, hf, rfl⟩

theorem fibers_share (s : State) (σ : AnyScheduler) (f : FiberID) :
    ((share s σ).fibers f).isFinished = s.finished f := by
  cases σ <;> rfl

theorem Coupled.of_act {σ : AnyScheduler} (hd : Coupled c d) (h : Runtime.step c d.rt l = some s')
    (hact : d.act now l = some σ) (hm : Matches c.kind s'.sched σ) :
    Coupled c ⟨s', share s' σ⟩ where
  sound := hd.sound.step h
  matched := hm.withFibers _
  finished := fibers_share s' σ
  positioned := (act_positioned hd.positioned (fun _ => hd.unfinished) hact).withFibers _

/-- `Next` finds what the runtime is ready for. -/
theorem Coupled.look (hd : Coupled c d) (hkind : c.kind ≠ .workStealing)
    (hpc : d.rt.loop.pc = .looking) (now : Int) :
    ∃ σ found s', d.sched.nextLocked = some (σ, found)
      ∧ Runtime.step c d.rt (.loop (.look 0 found)) = some s'
      ∧ d.act now (.loop (.look 0 found)) = some σ ∧ Matches c.kind s'.sched σ
      ∧ (found = none → ∃ s'', Runtime.step c s' (.loop .noFibers) = some s'') := by
  obtain ⟨σ, found, hnext, hfinds⟩ := hd.matched.nextLocked hkind hd.finished
  have hact : d.act now (.loop (.look 0 found)) = some σ := by
    simp only [act, hnext, Option.bind_some, and_self, if_true]
  cases found with
  | none =>
    obtain ⟨hnil, hm⟩ := hfinds.empty rfl
    refine ⟨σ, none, { d.rt with sched := d.rt.sched.filterFinished d.rt.finished 0 }, hnext, ?_,
      hact, hm, fun _ => ?_⟩
    · simp only [Runtime.step, State.loopStep, hpc, State.lookStep]
      rw [if_pos hnil]
    · simp only [Runtime.step, State.loopStep, hpc]
      exact ⟨_, if_pos (.inr hnil)⟩
  | some f =>
    obtain ⟨hmay, hm⟩ := hfinds.taken f rfl
    refine ⟨σ, some f, State.setLoop { d.rt with
      sched := (d.rt.sched.filterFinished d.rt.finished 0).take ⟨0, f⟩ } (.holding f), hnext, ?_,
      hact, hm, fun hnone => absurd hnone (Option.some_ne_none f)⟩
    simp only [Runtime.step, State.loopStep, hpc, State.lookStep]
    rw [if_pos hmay]

theorem Coupled.updatePriority (hd : Coupled c d) (hpriority : c.kind = .priority) (f : FiberID)
    (p : Int) :
    ∃ d', step c d (.updatePriority f p) = some d' ∧ d'.rt = d.rt ∧ Coupled c d' := by
  obtain ⟨rt, σ⟩ := d
  obtain ⟨hsound, hm, hfin, hpos⟩ := hd
  cases σ with
  | priority s =>
    obtain ⟨s', err, hupdate, hix, hbase, hqueued, hfin'⟩ :=
      PriorityScheduler.updatePriority_queued hpos f p
    refine ⟨⟨rt, .priority s'⟩, by rw [step, AnyScheduler.updatePriority, hupdate]; rfl, rfl,
      hsound, ⟨hm.type, hbase.trans hm.base, hm.blocked, hm.perm.trans (hqueued.map _).symm,
        fun hne => absurd hpriority hne⟩, fun g => (hfin' g).trans (hfin g), hix⟩
  | fifo s | roundRobin s | workStealing k s => exact absurd (hm.type.trans hpriority) nofun

theorem looking_of_look {s : State} {w : Nat} {found : Option FiberID}
    (h : s.loopStep c (.look w found) = some s') : s.loop.pc = .looking := by
  cases State.loopStep_effect h with
  | lookEmpty hpc | take hpc => exact hpc

theorem Coupled.step (hd : Coupled c d) (hkind : c.kind ≠ .workStealing) {l : Label}
    (h : step c d l = some d') : Coupled c d' := by
  cases l with
  | runtime l now =>
    obtain ⟨s', hst, hmap⟩ := Option.bind_eq_some_iff.mp h
    obtain ⟨σ, hact, rfl⟩ := Option.map_eq_some_iff.mp hmap
    refine hd.of_act hst hact ?_
    cases hlook : l.isLook with
    | false =>
      obtain ⟨σ', hact', hm⟩ := act_spec hd.sound hd.matched hkind hlook hst now
      cases hact.symm.trans hact'
      exact hm
    | true =>
      -- `Next` has taken what it takes in `Coupled.look`
      cases l with
      | loop choice =>
        cases choice with
        | look w found =>
          obtain ⟨σ', found', s'', hnext, hst', hact', hm, -⟩ :=
            hd.look hkind (looking_of_look hst) now
          have hw : w = 0 ∧ found' = found := by
            simp only [act, hnext, Option.bind_some] at hact
            split_ifs at hact with hcond
            exact hcond
          obtain ⟨rfl, rfl⟩ := hw
          cases hact.symm.trans hact'
          cases hst.symm.trans hst'
          exact hm
        | _ => cases hlook
      | _ => cases hlook
  | updatePriority f p =>
    have hpriority : c.kind = .priority := by
      obtain ⟨σ, hupdate, -⟩ := Option.map_eq_some_iff.mp h
      rw [← hd.matched.type]
      cases hσ : d.sched with
      | priority s => rfl
      | fifo s | roundRobin s | workStealing k s =>
        rw [hσ] at hupdate
        cases hupdate
    obtain ⟨d₁, hd₁, -, hcoupled⟩ := hd.updatePriority hpriority f p
    cases h.symm.trans hd₁
    exact hcoupled

theorem coupled_initial {s₀ : State} (h₀ : Initial c s₀) (hkind : c.kind ≠ .workStealing)
    (k : Int) : Coupled c ⟨s₀, .new c.kind k fun _ => {}⟩ where
  sound := h₀.sound
  matched := by
    have hnew : s₀.sched = .new := by rcases h₀ with rfl | rfl <;> rfl
    rw [hnew]
    exact .new hkind k _
  finished f := by
    have hfiber : (s₀.threads f).fiber = {} := by rcases h₀ with rfl | rfl <;> rfl
    rw [State.finished, hfiber]
    cases c.kind <;> rfl
  positioned := by
    cases hk : c.kind <;> first | trivial | exact nofun

theorem coupled_of_reach {s₀ : State} (h₀ : Initial c s₀) (hkind : c.kind ≠ .workStealing) {k : Int}
    (h : Reach (Driven.step c) anyStep ⟨s₀, .new c.kind k fun _ => {}⟩ d) : Coupled c d :=
  h.invariant (coupled_initial h₀ hkind k) fun _ _ _ hd _ hst => hd.step hkind hst

/-- The runtime alone. -/
theorem reach_runtime {d₀ : Driven} (h : Reach (Driven.step c) anyStep d₀ d) :
    Reach (Runtime.step c) anyStep d₀.rt d.rt := by
  induction h with
  | refl => exact .refl
  | @tail d d' l _ _ hst ih =>
    cases l with
    | runtime l now =>
      obtain ⟨s', hs', hmap⟩ := Option.bind_eq_some_iff.mp hst
      obtain ⟨σ, -, rfl⟩ := Option.map_eq_some_iff.mp hmap
      exact .tail ih trivial hs'
    | updatePriority f p =>
      obtain ⟨σ, -, rfl⟩ := Option.map_eq_some_iff.mp hst
      exact ih

end Driven

/-- A runtime on a FIFO, a round-robin or a priority scheduler is one of the runtimes of
`Runtime.step`: its runs are runs there, no step of the runtime finds the scheduler unable to take
its section, and whatever `Next` finds is among what the runtime is ready for. -/
theorem scheduler_implements {c : Config} {s₀ : State} {d : Driven} (h₀ : Initial c s₀)
    (hkind : c.kind ≠ .workStealing) {k : Int}
    (h : Reach (Driven.step c) anyStep ⟨s₀, .new c.kind k fun _ => {}⟩ d) :
    Reach (step c) anyStep s₀ d.rt ∧ Matches c.kind d.rt.sched d.sched
      ∧ (∀ l s' now, l.isLook = false → step c d.rt l = some s' →
        ∃ σ, Driven.step c d (.runtime l now) = some ⟨s', σ⟩)
      ∧ (d.rt.loop.pc = .looking → ∀ now, ∃ σ found d', d.sched.nextLocked = some (σ, found)
        ∧ Driven.step c d (.runtime (.loop (.look 0 found)) now) = some d'
        ∧ (found = none → ∃ s'', step c d'.rt (.loop .noFibers) = some s'')) := by
  have hd := Driven.coupled_of_reach h₀ hkind h
  refine ⟨Driven.reach_runtime h, hd.matched, fun l s' now hl hst => ?_, fun hpc now => ?_⟩
  · obtain ⟨σ, hact, -⟩ := Driven.act_spec hd.sound hd.matched hkind hl hst now
    exact ⟨Driven.share s' σ, by rw [Driven.step, hst, Option.bind_some, hact]; rfl⟩
  · obtain ⟨σ, found, s', hnext, hst, hact, -, hnone⟩ := hd.look hkind hpc now
    exact ⟨σ, found, ⟨s', Driven.share s' σ⟩, hnext,
      by rw [Driven.step, hst, Option.bind_some, hact]; rfl, hnone⟩

/-- Two fibers are spawned on a priority scheduler, and the second one is given the higher priority:
it is the one that the runtime gets. -/
theorem scheduler_implements_priority :
    ∃ d, Reach (Driven.step (.ofNewRuntime .priority 1)) anyStep
        ⟨.new (.ofNewRuntime .priority 1), .new .priority 1 fun _ => {}⟩ d
      ∧ d.rt.loop.pc = .looking
      ∧ ∃ d', Driven.step (.ofNewRuntime .priority 1) d (.runtime (.loop (.look 0 (some 1))) 0)
        = some d' := by
  obtain ⟨d, hd, htest⟩ := exists_reach_of_exec (Driven.step (.ofNewRuntime .priority 1))
    ⟨.new (.ofNewRuntime .priority 1), .new .priority 1 fun _ => {}⟩
    (List.flatten
      [(List.flatten [Label.startTrace, [.call false 0, .call false 0], Label.spawnTrace 0 9,
        Label.spawnTrace 1 9]).map (.runtime · 0), [.updatePriority 1 5],
        [.runtime (.loop .tick) 0, .runtime (.loop .next) 0]])
    (fun d => decide (d.rt.loop.pc = .looking)
      && d.sched.nextLocked.any fun r : AnyScheduler × Option FiberID => decide (r.2 = some 1))
    (by decide +kernel)
  rw [Bool.and_eq_true, Option.any_eq_true] at htest
  obtain ⟨hpc, ⟨σ, found⟩, hnext, hfound⟩ := htest
  have hlooking := of_decide_eq_true hpc
  obtain ⟨-, -, -, hlook⟩ := scheduler_implements (.inl rfl) (by decide) hd
  obtain ⟨σ', found', d', hnext', hstep, -⟩ := hlook hlooking 0
  cases hnext.symm.trans hnext'
  have hone : found = some 1 := of_decide_eq_true hfound
  subst hone
  exact ⟨d, hd, hlooking, d', hstep⟩

/-- In a runtime on a priority scheduler no queued fiber is finished. The compaction of `Next` has
nothing to move up then, so that every entry notes its own position, and `UpdatePriority` reaches
the entry it is meant for. -/
theorem heap_reliable {c : Config} {s₀ : State} {d : Driven} (h₀ : Initial c s₀)
    (hkind : c.kind = .priority) {k : Int}
    (h : Reach (Driven.step c) anyStep ⟨s₀, .new c.kind k fun _ => {}⟩ d) :
    ∃ s, d.sched = .priority s ∧ (∀ f ∈ s.queued, (s.fibers f).isFinished = false)
      ∧ s.Reliable := by
  have hd := Driven.coupled_of_reach h₀ (by rw [hkind]; nofun) h
  have htype := hd.matched.type.trans hkind
  have hpos := hd.positioned
  have hunfinished := fun f => hd.unfinished (f := f)
  cases hσ : d.sched with
  | priority s =>
    rw [hσ] at hpos hunfinished
    exact ⟨s, rfl, hunfinished, PriorityScheduler.Indexed.reliable hpos⟩
  | fifo s | roundRobin s | workStealing k s =>
    rw [hσ] at htype
    cases htype

/-- The fiber at the head of the heap is taken out before it finishes. -/
theorem heap_reliable_finished :
    ∃ d s, Reach (Driven.step (.ofNewRuntime .priority 1)) anyStep
        ⟨.new (.ofNewRuntime .priority 1), .new .priority 1 fun _ => {}⟩ d
      ∧ d.sched = .priority s ∧ s.queued = [1, 2] ∧ d.rt.finished 0 = true ∧ s.Reliable := by
  obtain ⟨d, hd, htest⟩ := exists_reach_of_exec (Driven.step (.ofNewRuntime .priority 1))
    ⟨.new (.ofNewRuntime .priority 1), .new .priority 1 fun _ => {}⟩
    (List.flatten
      [(Label.startTrace ++ List.replicate 3 (Label.call false 0)).map (.runtime · 0),
        (Label.spawnTrace 0 9).map (.runtime · 1), (Label.spawnTrace 1 9).map (.runtime · 2),
        (Label.spawnTrace 2 9).map (.runtime · 3),
        (Label.dispatchTrace 0 ++ [Label.go 0 ∅]).map (.runtime · 4)])
    (fun d => decide (d.sched.runQueue = [1, 2]) && d.rt.finished 0)
    (by decide +kernel)
  obtain ⟨hqueue, hfinished⟩ := Bool.and_eq_true_iff.mp htest
  obtain ⟨s, hs, -, hreliable⟩ := heap_reliable (.inl rfl) rfl hd
  have hqueued := of_decide_eq_true hqueue
  rw [hs] at hqueued
  exact ⟨d, s, hd, hs, hqueued, hfinished, hreliable⟩

end GreenThreads.Runtime
