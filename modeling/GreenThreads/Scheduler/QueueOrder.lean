import GreenThreads.Lib.Trans
import GreenThreads.Scheduler.Queue
import Mathlib.Data.List.Basic

/-!
# GreenThreads — the order in which FIFO and round robin dispatch

The round-robin scheduler with its clock, then sequences of operations on either scheduler. While
a fiber waits in the run queue, entries in front of it only become fewer: what enters goes to the
end, and everything else takes entries out and keeps the order of the rest (`Behind`).
-/

namespace GreenThreads.Scheduler

/-! ## The schedulers -/

/-- `type RoundRobinScheduler struct`; times are in nanoseconds, and `lastQuantum` is zero until
the first dispatch. -/
structure RoundRobinScheduler where
  queue : QueueScheduler
  quantum : Int
  lastQuantum : Option Int

namespace RoundRobinScheduler

/-- `NewRoundRobinScheduler`, over any fibers. -/
def new (quantum : Int) (fibers : FiberID → Fiber) : RoundRobinScheduler where
  queue := .new fibers
  quantum := if quantum ≤ 0 then 10000000 else quantum
  lastQuantum := none

/-- `RoundRobinScheduler.Next`; `now` is what `time.Now` returns. -/
def next (s : RoundRobinScheduler) (now : Int) : RoundRobinScheduler × Except String FiberID :=
  if s.queue.base.stopped then (s, .error "scheduler stopped")
  else match filterFinishedInPlace s.queue.fibers s.queue.runQueue with
    | [] => ({ s with queue := { s.queue with runQueue := [] } }, .error "no fibers in run queue")
    | f :: queue =>
      ({ s with
          queue := { s.queue with runQueue := queue, base := s.queue.base.recordSwitch }
          lastQuantum := some now }, .ok f)

end RoundRobinScheduler

namespace QueueScheduler

/-- An operation, or the end of a fiber function. -/
inductive Op where
  | schedule (f : FiberID)
  | next
  | blockFiber (f : FiberID)
  | unblockFiber (f : FiberID)
  | remove (f : FiberID)
  | markCompleted (f : FiberID) (drop : Finset FiberID)
  | clear
  | finish (f : FiberID)

/-- What an operation returns. -/
inductive Ret where
  | unit
  | error (err : Option String)
  | fiber (r : Except String FiberID)

/-- One operation. -/
def call (s : QueueScheduler) : Op → QueueScheduler × Ret
  | .schedule f => (s.schedule f).map id .error
  | .next => s.next.map id .fiber
  | .blockFiber f => (s.blockFiber f, .unit)
  | .unblockFiber f => (s.unblockFiber f).map id .error
  | .remove f => (s.remove f).map id .error
  | .markCompleted f drop => (s.markCompleted f drop, .unit)
  | .clear => (s.clear, .unit)
  | .finish f => ({ s with fibers := Function.update s.fibers f (s.fibers f).runEnd }, .unit)

variable {s : QueueScheduler} {f g : FiberID} {op : Op}

/-! ## One operation -/

/-- The operations of a well-behaved user: only a fiber that is in no queue is scheduled, and only
one that is not blocked is blocked. -/
def Allowed (s : QueueScheduler) : Op → Prop
  | .schedule f => f ∉ s.runQueue ∧ f ∉ s.base.blockedQueue
  | .blockFiber f => f ∉ s.base.blockedQueue
  | .markCompleted f drop => BaseScheduler.Prunes (insert f s.base.completed) drop
  | .next | .unblockFiber _ | .remove _ | .clear | .finish _ => True

/-- The operation puts `f` into the run queue. -/
def Enters (f : FiberID) (s : QueueScheduler) (op : Op) : Prop :=
  op = .schedule f ∨ op = .unblockFiber f ∧ f ∈ s.base.blockedQueue

/-- The operation is a `Next` that returns `f`. -/
def Returns (f : FiberID) (s : QueueScheduler) (op : Op) : Prop :=
  (s.call op).2 = .fiber (.ok f)

/-- The operation blocks, removes or completes `f`, or clears the scheduler. -/
def Leaves (f : FiberID) : Op → Prop
  | .blockFiber g | .remove g | .markCompleted g _ => g = f
  | .clear => True
  | .schedule _ | .next | .unblockFiber _ | .finish _ => False

/-- No fiber is queued twice, and the scheduler is not stopped. -/
structure Once (s : QueueScheduler) : Prop where
  running : s.base.stopped = false
  nodup : (s.runQueue ++ s.base.blockedQueue).Nodup

/-- What `Next` does with what is left after the compaction. -/
theorem next_eq (h : s.base.stopped = false) :
    (filterFinishedInPlace s.fibers s.runQueue = []
        ∧ s.next = ({ s with runQueue := [] }, .error "no fibers in run queue"))
      ∨ ∃ f queue, filterFinishedInPlace s.fibers s.runQueue = f :: queue
        ∧ s.next = ({ s with runQueue := queue, base := s.base.recordSwitch }, .ok f) := by
  unfold next
  rw [if_neg (by simp [h])]
  cases filterFinishedInPlace s.fibers s.runQueue with
  | nil => exact .inl ⟨rfl, rfl⟩
  | cons f queue => exact .inr ⟨f, queue, rfl, rfl⟩

theorem next_queues (h : s.base.stopped = false) :
    s.next.1.runQueue.Sublist s.runQueue ∧ s.next.1.base.blockedQueue = s.base.blockedQueue ∧
      s.next.1.base.stopped = s.base.stopped := by
  have hsub : (filterFinishedInPlace s.fibers s.runQueue).Sublist s.runQueue :=
    List.filter_sublist
  rcases next_eq h with ⟨-, heq⟩ | ⟨f, queue, hfilter, heq⟩
  · rw [heq]
    exact ⟨List.nil_sublist _, rfl, rfl⟩
  · rw [heq]
    rw [hfilter] at hsub
    exact ⟨(List.sublist_cons_self f queue).trans hsub, rfl, rfl⟩

theorem schedule_eq (h : s.base.stopped = false) (f : FiberID) :
    (s.schedule f).1 = { s with
      runQueue := s.runQueue ++ [f]
      base := { s.base with totalScheduled := s.base.totalScheduled + 1 } } := by
  simp [schedule, h]

/-- `Remove` erases from the run queue, where that does nothing to an ID that is not there. -/
theorem remove_queues (s : QueueScheduler) (f : FiberID) :
    (s.remove f).1.runQueue = s.runQueue.erase f ∧
      (s.remove f).1.base.blockedQueue.Sublist s.base.blockedQueue ∧
      (s.remove f).1.base.stopped = s.base.stopped ∧ (s.remove f).1.fibers = s.fibers := by
  unfold remove
  by_cases hr : f ∈ s.runQueue
  · rw [if_pos hr]
    exact ⟨rfl, .refl _, rfl, rfl⟩
  · rw [if_neg hr, List.erase_of_not_mem hr]
    split
    · exact ⟨rfl, List.erase_sublist, rfl, rfl⟩
    · exact ⟨rfl, .refl _, rfl, rfl⟩

theorem markCompleted_queues (s : QueueScheduler) (f : FiberID) (drop : Finset FiberID) :
    ((s.markCompleted f drop).runQueue = s.runQueue ∨
        (s.markCompleted f drop).runQueue = s.runQueue.erase f) ∧
      (s.markCompleted f drop).base.blockedQueue.Sublist s.base.blockedQueue ∧
      (s.markCompleted f drop).base.stopped = s.base.stopped ∧
      (s.markCompleted f drop).fibers = s.fibers := by
  unfold markCompleted
  split
  · exact ⟨.inl rfl, .refl _, rfl, rfl⟩
  · obtain ⟨hrun, hblocked, hstop, hfib⟩ := remove_queues { s with base := s.base.record f drop } f
    exact ⟨.inr hrun, hblocked, hstop, hfib⟩

/-- An operation that only takes out keeps every fiber queued once. -/
theorem Once.of_sublist {s' : QueueScheduler} (h : Once s)
    (hstop : s'.base.stopped = s.base.stopped) (hrun : s'.runQueue.Sublist s.runQueue)
    (hblocked : s'.base.blockedQueue.Sublist s.base.blockedQueue) : Once s' :=
  ⟨hstop.trans h.running, (hrun.append hblocked).nodup h.nodup⟩

theorem Once.schedule (h : Once s) (hrun : f ∉ s.runQueue) (hblocked : f ∉ s.base.blockedQueue) :
    Once (s.schedule f).1 := by
  rw [schedule_eq h.running]
  refine ⟨h.running, ?_⟩
  have hperm : ((s.runQueue ++ [f]) ++ s.base.blockedQueue).Perm
      (f :: (s.runQueue ++ s.base.blockedQueue)) := by
    rw [List.append_assoc]
    exact List.perm_middle
  refine hperm.nodup_iff.mpr (List.nodup_cons.mpr ⟨?_, h.nodup⟩)
  rw [List.mem_append, not_or]
  exact ⟨hrun, hblocked⟩

theorem Once.blockFiber (h : Once s) (hf : f ∉ s.base.blockedQueue) : Once (s.blockFiber f) := by
  refine ⟨h.running, ?_⟩
  change (s.runQueue.erase f ++ (s.base.blockedQueue ++ [f])).Nodup
  rw [← List.append_assoc]
  refine List.nodup_append.mpr ⟨(List.erase_sublist.append (.refl _)).nodup h.nodup,
    List.nodup_singleton f, fun a ha b hb hab => ?_⟩
  cases List.mem_singleton.mp hb
  subst hab
  rcases List.mem_append.mp ha with hr | hb'
  · exact (List.nodup_append.mp h.nodup).1.not_mem_erase hr
  · exact hf hb'

theorem Once.unblockFiber (h : Once s) (f : FiberID) : Once (s.unblockFiber f).1 := by
  unfold QueueScheduler.unblockFiber
  split
  · next hf =>
    refine ⟨h.running, ?_⟩
    -- the ID goes from one queue to the other
    have hperm : ((s.runQueue ++ [f]) ++ s.base.blockedQueue.erase f).Perm
        (s.runQueue ++ s.base.blockedQueue) := by
      rw [List.append_assoc]
      exact (List.perm_cons_erase hf).symm.append_left s.runQueue
    exact hperm.nodup_iff.mpr h.nodup
  · exact h

theorem call_once (h : Once s) (hok : Allowed s op) : Once (s.call op).1 := by
  cases op with
  | schedule f => exact h.schedule hok.1 hok.2
  | next =>
    obtain ⟨hq, hb, hstop⟩ := next_queues h.running
    exact h.of_sublist hstop hq (hb ▸ .refl _)
  | blockFiber f => exact h.blockFiber hok
  | unblockFiber f => exact h.unblockFiber f
  | remove f =>
    obtain ⟨hq, hb, hstop, -⟩ := remove_queues s f
    exact h.of_sublist hstop (hq ▸ List.erase_sublist) hb
  | markCompleted f drop =>
    obtain ⟨hq, hb, hstop, -⟩ := markCompleted_queues s f drop
    refine h.of_sublist hstop ?_ hb
    rcases hq with hq | hq
    · exact hq ▸ .refl _
    · exact hq ▸ List.erase_sublist
  | clear => exact ⟨rfl, List.nodup_nil⟩
  | finish f => exact ⟨h.running, h.nodup⟩

/-! ## While a fiber waits -/

/-- `f` is in the queue, and `g` is not in front of it. -/
def Behind (f g : FiberID) (queue : List FiberID) : Prop :=
  ∃ front back, queue = front ++ f :: back ∧ g ∉ front

theorem Behind.mem {queue : List FiberID} (h : Behind f g queue) : f ∈ queue := by
  obtain ⟨front, back, rfl, -⟩ := h
  simp

theorem behind_of_not_mem {queue : List FiberID} (hf : f ∈ queue) (hg : g ∉ queue) :
    Behind f g queue := by
  obtain ⟨front, back, rfl⟩ := List.append_of_mem hf
  exact ⟨front, back, rfl, fun hmem => hg (List.mem_append_left _ hmem)⟩

theorem Behind.append {queue : List FiberID} (h : Behind f g queue) (a : FiberID) :
    Behind f g (queue ++ [a]) := by
  obtain ⟨front, back, rfl, hg⟩ := h
  exact ⟨front, back ++ [a], by simp, hg⟩

theorem Behind.erase {queue : List FiberID} (h : Behind f g queue) {a : FiberID} (ha : a ≠ f) :
    Behind f g (queue.erase a) := by
  obtain ⟨front, back, rfl, hg⟩ := h
  by_cases hmem : a ∈ front
  · exact ⟨front.erase a, back, List.erase_append_left _ hmem, fun hmem =>
      hg (List.mem_of_mem_erase hmem)⟩
  · refine ⟨front, back.erase a, ?_, hg⟩
    rw [List.erase_append_right _ hmem, List.erase_cons_tail (by simpa using ha.symm)]

/-- `Next` returns another fiber from in front of `f`, or `f` itself. -/
theorem Behind.next {queue : List FiberID} {a : FiberID} (h : Behind f g s.runQueue)
    (hf : (s.fibers f).isFinished = false)
    (hfilter : filterFinishedInPlace s.fibers s.runQueue = a :: queue) :
    a = f ∨ a ≠ g ∧ Behind f g queue := by
  obtain ⟨front, back, hqueue, hg⟩ := h
  rw [hqueue, filterFinishedInPlace, List.filter_append, List.filter_cons_of_pos (by simp [hf])]
    at hfilter
  cases hfront : front.filter fun f => !(s.fibers f).isFinished with
  | nil =>
    rw [hfront, List.nil_append] at hfilter
    exact .inl (List.cons.inj hfilter).1.symm
  | cons b front' =>
    rw [hfront, List.cons_append] at hfilter
    obtain ⟨rfl, hrest⟩ := List.cons.inj hfilter
    have hsub : ∀ c ∈ b :: front', c ∈ front := fun c hc => by
      rw [← hfront] at hc
      exact List.mem_of_mem_filter hc
    refine .inr ⟨fun hbg => hg (hbg ▸ hsub b List.mem_cons_self), front', _, hrest.symm, fun hc =>
      hg (hsub g (List.mem_cons_of_mem _ hc))⟩

/-- `f` is waiting, with `g` not in front of it, unless it has finished. -/
structure Waits (f g : FiberID) (s : QueueScheduler) : Prop where
  notBlocked : f ∉ s.base.blockedQueue
  behind : (s.fibers f).isFinished = true ∨ Behind f g s.runQueue

/-- A `Next` that does not return `f` leaves it waiting, and returns `g` only if `f` has
finished. -/
theorem Waits.next (hw : Waits f g s) (h : Once s) (hne : s.next.2 ≠ .ok f) :
    Waits f g s.next.1 ∧ (s.next.2 = .ok g → (s.fibers f).isFinished = true) := by
  obtain ⟨hb, hbehind⟩ := hw
  rcases next_eq h.running with ⟨hnil, heq⟩ | ⟨a, queue, hfilter, heq⟩
  · rw [heq]
    have hfin : (s.fibers f).isFinished = true := by
      rcases hbehind with hfin | hq
      · exact hfin
      · have hall := List.filter_eq_nil_iff.mp hnil f hq.mem
        simpa using hall
    exact ⟨⟨hb, .inl hfin⟩, nofun⟩
  · rw [heq] at hne ⊢
    cases hfin : (s.fibers f).isFinished with
    | true => exact ⟨⟨hb, .inl hfin⟩, fun _ => rfl⟩
    | false =>
      rcases hbehind with hfin' | hq
      · rw [hfin] at hfin'
        cases hfin'
      · rcases hq.next hfin hfilter with rfl | ⟨hag, hq'⟩
        · exact absurd rfl hne
        · refine ⟨⟨hb, .inr hq'⟩, fun hret => ?_⟩
          injection hret with hret
          exact absurd hret hag

/-- `UnblockFiber` is about another fiber: `f` is not blocked. -/
theorem Waits.unblockFiber (hw : Waits f g s) (a : FiberID) : Waits f g (s.unblockFiber a).1 := by
  unfold QueueScheduler.unblockFiber
  split
  · next ha =>
    have hfa : f ≠ a := fun hfa => hw.notBlocked (hfa ▸ ha)
    refine ⟨fun hmem => hw.notBlocked (List.mem_of_mem_erase hmem), ?_⟩
    dsimp only
    rw [Function.update_of_ne hfa]
    exact hw.behind.imp_right fun hq => hq.append a
  · exact hw

/-- Steps that do not take `f` out keep it waiting, and return `g` only if it has finished. -/
theorem Waits.call (hw : Waits f g s) (h : Once s) (hleaves : ¬ Leaves f op)
    (hreturns : ¬ Returns f s op) :
    Waits f g (s.call op).1 ∧ (Returns g s op → (s.fibers f).isFinished = true) := by
  have hb := hw.notBlocked
  have hbehind := hw.behind
  cases op with
  | schedule a =>
    refine ⟨?_, nofun⟩
    change Waits f g (s.schedule a).1
    rw [schedule_eq h.running]
    exact ⟨hb, hbehind.imp_right fun hq => hq.append a⟩
  | next =>
    simp only [Returns, QueueScheduler.call, Prod.map_snd, Ret.fiber.injEq] at hreturns ⊢
    exact hw.next h hreturns
  | blockFiber a =>
    refine ⟨⟨fun hmem => ?_, hbehind.imp_right fun hq => hq.erase hleaves⟩, nofun⟩
    rcases List.mem_append.mp hmem with hold | hnew
    · exact hb hold
    · exact hleaves (List.mem_singleton.mp hnew).symm
  | unblockFiber a => exact ⟨hw.unblockFiber a, nofun⟩
  | remove a =>
    obtain ⟨hq, hblocked, -, hfib⟩ := remove_queues s a
    refine ⟨⟨fun hmem => hb (hblocked.subset hmem), ?_⟩, nofun⟩
    change ((s.remove a).1.fibers f).isFinished = true ∨ Behind f g (s.remove a).1.runQueue
    rw [hq, hfib]
    exact hbehind.imp_right fun hq => hq.erase hleaves
  | markCompleted a drop =>
    obtain ⟨hq, hblocked, -, hfib⟩ := markCompleted_queues s a drop
    refine ⟨⟨fun hmem => hb (hblocked.subset hmem), ?_⟩, nofun⟩
    change ((s.markCompleted a drop).fibers f).isFinished = true ∨
      Behind f g (s.markCompleted a drop).runQueue
    rw [hfib]
    rcases hq with hq | hq <;> rw [hq]
    · exact hbehind
    · exact hbehind.imp_right fun hq => hq.erase hleaves
  | clear => exact absurd trivial hleaves
  | finish a =>
    refine ⟨⟨hb, ?_⟩, nofun⟩
    by_cases hfa : f = a
    · subst hfa
      exact .inl (by simp [QueueScheduler.call, Fiber.runEnd, Fiber.isFinished])
    · change (Function.update s.fibers a (s.fibers a).runEnd f).isFinished = true ∨ _
      rw [Function.update_of_ne hfa]
      exact hbehind

/-- A fiber that enters goes to the end and is not blocked. -/
theorem Enters.call (h : Once s) (hok : Allowed s op) (he : Enters f s op) :
    f ∉ s.runQueue ∧ (s.call op).1.runQueue = s.runQueue ++ [f] ∧
      f ∉ (s.call op).1.base.blockedQueue := by
  rcases he with rfl | ⟨rfl, hf⟩
  · change f ∉ s.runQueue ∧ (s.schedule f).1.runQueue = s.runQueue ++ [f] ∧
      f ∉ (s.schedule f).1.base.blockedQueue
    rw [schedule_eq h.running]
    exact ⟨hok.1, rfl, hok.2⟩
  · simp only [QueueScheduler.call, unblockFiber, hf, if_true]
    obtain ⟨-, hblocked, hdisj⟩ := List.nodup_append.mp h.nodup
    exact ⟨fun hrun => hdisj f hrun f hf rfl, rfl, hblocked.not_mem_erase⟩

/-- A fiber that is not in the run queue gets there only by entering. -/
theorem call_not_mem (h : Once s) (hf : f ∉ s.runQueue) (he : ¬ Enters f s op) :
    f ∉ (s.call op).1.runQueue := by
  cases op with
  | schedule a =>
    change f ∉ (s.schedule a).1.runQueue
    rw [schedule_eq h.running]
    intro hmem
    rcases List.mem_append.mp hmem with hold | hnew
    · exact hf hold
    · exact he (.inl (by rw [List.mem_singleton.mp hnew]))
  | next => exact fun hmem => hf ((next_queues h.running).1.subset hmem)
  | blockFiber a => exact fun hmem => hf (List.mem_of_mem_erase hmem)
  | unblockFiber a =>
    change f ∉ (s.unblockFiber a).1.runQueue
    unfold unblockFiber
    split
    · next ha =>
      intro hmem
      rcases List.mem_append.mp hmem with hold | hnew
      · exact hf hold
      · cases List.mem_singleton.mp hnew
        exact he (.inr ⟨rfl, ha⟩)
    · exact hf
  | remove a =>
    change f ∉ (s.remove a).1.runQueue
    rw [(remove_queues s a).1]
    exact fun hmem => hf (List.mem_of_mem_erase hmem)
  | markCompleted a drop =>
    change f ∉ (s.markCompleted a drop).runQueue
    rcases (markCompleted_queues s a drop).1 with hq | hq <;> rw [hq]
    · exact hf
    · exact fun hmem => hf (List.mem_of_mem_erase hmem)
  | clear => exact List.not_mem_nil
  | finish a => exact hf

/-- A fiber that is returned was in the run queue, and is no longer. -/
theorem Returns.call (h : Once s) (hr : Returns f s op) :
    f ∈ s.runQueue ∧ f ∉ (s.call op).1.runQueue := by
  cases op with
  | next =>
    simp only [Returns, QueueScheduler.call, Prod.map_snd, Ret.fiber.injEq] at hr
    change f ∈ s.runQueue ∧ f ∉ s.next.1.runQueue
    rcases next_eq h.running with ⟨-, heq⟩ | ⟨a, queue, hfilter, heq⟩
    · rw [heq] at hr
      cases hr
    · rw [heq] at hr ⊢
      cases hr
      have hsub : (f :: queue).Sublist s.runQueue := hfilter ▸ List.filter_sublist
      have hnodup := hsub.nodup (List.nodup_append.mp h.nodup).1
      exact ⟨hsub.subset List.mem_cons_self, (List.nodup_cons.mp hnodup).1⟩
  | schedule | blockFiber | unblockFiber | remove | markCompleted | clear | finish => cases hr

end QueueScheduler

open QueueScheduler (Op Ret)

/-- All operations but `Next` are those of the embedded `BaseScheduler`. -/
def RoundRobinScheduler.call (s : RoundRobinScheduler) (now : Int) : Op → RoundRobinScheduler × Ret
  | .next => (s.next now).map id .fiber
  | op => (s.queue.call op).map (fun queue => { s with queue := queue }) id

/-- The two schedulers. -/
inductive Dispatcher where
  | fifo (s : QueueScheduler)
  | roundRobin (s : RoundRobinScheduler)

namespace Dispatcher

/-- An operation and the time it is made at. -/
structure Label where
  op : Op
  now : Int

/-- The base of the scheduler, with its run queue. -/
def queue : Dispatcher → QueueScheduler
  | .fifo s => s
  | .roundRobin s => s.queue

def call : Dispatcher → Label → Dispatcher × Ret
  | .fifo s, l => (s.call l.op).map .fifo id
  | .roundRobin s, l => (s.call l.now l.op).map .roundRobin id

def step (d : Dispatcher) (l : Label) : Option Dispatcher := some (d.call l).1

/-- What a sequence of operations returns. -/
def outputs : Dispatcher → List Label → List Ret
  | _, [] => []
  | d, l :: ls => (d.call l).2 :: outputs (d.call l).1 ls

/-! ## Either scheduler does what the base does -/

theorem roundRobin_next (s : RoundRobinScheduler) (now : Int) :
    (s.next now).1.queue = s.queue.next.1 ∧ (s.next now).2 = s.queue.next.2 := by
  unfold RoundRobinScheduler.next QueueScheduler.next
  split
  · exact ⟨rfl, rfl⟩
  · cases filterFinishedInPlace s.queue.fibers s.queue.runQueue with
    | nil => exact ⟨rfl, rfl⟩
    | cons f queue => exact ⟨rfl, rfl⟩

theorem call_queue (d : Dispatcher) (l : Label) :
    (d.call l).1.queue = (d.queue.call l.op).1 ∧ (d.call l).2 = (d.queue.call l.op).2 := by
  cases d with
  | fifo s => exact ⟨rfl, rfl⟩
  | roundRobin s =>
    obtain ⟨op, now⟩ := l
    cases op with
    | next =>
      obtain ⟨hqueue, hret⟩ := roundRobin_next s now
      exact ⟨hqueue, congrArg Ret.fiber hret⟩
    | schedule | blockFiber | unblockFiber | remove | markCompleted | clear | finish =>
      exact ⟨rfl, rfl⟩

theorem queue_of_step {d d' : Dispatcher} {l : Label} (h : d.step l = some d') :
    d'.queue = (d.queue.call l.op).1 := by
  cases h
  exact (d.call_queue l).1

/-- Two schedulers with the same base return the same, whatever the clocks show. Induction on the
operations. -/
theorem outputs_eq {d d' : Dispatcher} (h : d.queue = d'.queue) {ls ls' : List Label}
    (hops : ls.map Label.op = ls'.map Label.op) : d.outputs ls = d'.outputs ls' := by
  induction ls generalizing d d' ls' with
  | nil =>
    cases ls' with
    | nil => rfl
    | cons => cases hops
  | cons l ls ih =>
    cases ls' with
    | nil => cases hops
    | cons l' ls' =>
      obtain ⟨hop, hrest⟩ := List.cons.inj hops
      obtain ⟨hqueue, hret⟩ := d.call_queue l
      obtain ⟨hqueue', hret'⟩ := d'.call_queue l'
      rw [outputs, outputs, hret, hret', h, hop, ih ?_ hrest]
      rw [hqueue, hqueue', h, hop]

/-! ## Runs -/

/-- The steps of a well-behaved user. -/
def Allowed (d : Dispatcher) (l : Label) : Prop := d.queue.Allowed l.op

/-- The step puts `f` into the run queue. -/
def Enters (f : FiberID) (d : Dispatcher) (l : Label) : Prop := d.queue.Enters f l.op

/-- The step is a `Next` that returns `f`. -/
def Returns (f : FiberID) (d : Dispatcher) (l : Label) : Prop := (d.call l).2 = .fiber (.ok f)

/-- A step of a run through which `f` stays: it is not blocked, removed, completed or cleared, and
not returned. -/
def Stays (f : FiberID) (d : Dispatcher) (l : Label) : Prop :=
  d.Allowed l ∧ ¬ QueueScheduler.Leaves f l.op ∧ ¬ d.Returns f l

/-- A step by which `f` does not enter. -/
def KeepsOut (f : FiberID) (d : Dispatcher) (l : Label) : Prop := d.Allowed l ∧ ¬ d.Enters f l

variable {d d' d₀ : Dispatcher} {l : Label} {f g : FiberID}

theorem returns_iff : d.Returns f l ↔ d.queue.Returns f l.op := by
  rw [Returns, (d.call_queue l).2]
  rfl

theorem step_once (h : d.queue.Once) (hok : d.Allowed l) (hs : d.step l = some d') :
    d'.queue.Once := by
  rw [queue_of_step hs]
  exact QueueScheduler.call_once h hok

theorem reach_once (h : d₀.queue.Once) {ok : Dispatcher → Label → Prop}
    (hok : ∀ d l, ok d l → d.Allowed l) (hrun : Trans.Reach step ok d₀ d) : d.queue.Once :=
  Trans.Reach.invariant (P := fun d => d.queue.Once) h
    (fun _ _ _ hd hl hs => step_once hd (hok _ _ hl) hs) hrun

/-- Along a run through which `f` stays, it keeps waiting in front of `g`. -/
theorem reach_waits (h : d₀.queue.Once) (hw : d₀.queue.Waits f g)
    (hrun : Trans.Reach step (Stays f) d₀ d) : d.queue.Once ∧ d.queue.Waits f g := by
  refine Trans.Reach.invariant (P := fun d => d.queue.Once ∧ d.queue.Waits f g) ⟨h, hw⟩ ?_ hrun
  rintro d l d' ⟨hd, hwd⟩ ⟨hok, hleaves, hreturns⟩ hs
  refine ⟨step_once hd hok hs, ?_⟩
  rw [queue_of_step hs]
  exact (hwd.call hd hleaves (by rwa [← returns_iff])).1

/-- Dispatch in the order of entry and without loss, in all runs from `d₀`. -/
structure InEnqueueOrder (d₀ : Dispatcher) : Prop where
  /-- `f` enters in the first step named and `g` in the second; from the first on, `f` stays. A
  `Next` that then returns `g` finds `f` finished. -/
  order : ∀ {f g d₁ d₂ d₃ d₄ d₅ l₁ l₃ l₅}, f ≠ g → Trans.Reach step Allowed d₀ d₁ →
    Allowed d₁ l₁ → Enters f d₁ l₁ → step d₁ l₁ = some d₂ → Trans.Reach step (Stays f) d₂ d₃ →
    Allowed d₃ l₃ → Enters g d₃ l₃ → step d₃ l₃ = some d₄ → Trans.Reach step (Stays f) d₄ d₅ →
    Returns g d₅ l₅ → (d₅.queue.fibers f).isFinished = true
  /-- While it stays, `f` is in the run queue, unless it has finished. -/
  kept : ∀ {f d₁ d₂ d₃ l₁}, Trans.Reach step Allowed d₀ d₁ → Allowed d₁ l₁ → Enters f d₁ l₁ →
    step d₁ l₁ = some d₂ → Trans.Reach step (Stays f) d₂ d₃ →
    (d₃.queue.fibers f).isFinished = true ∨ f ∈ d₃.queue.runQueue
  /-- After `Next` has returned `f`, none returns it until it enters again. -/
  once : ∀ {f d₁ d₂ d₃ l₁ l₃}, Trans.Reach step Allowed d₀ d₁ → Returns f d₁ l₁ →
    step d₁ l₁ = some d₂ → Trans.Reach step (KeepsOut f) d₂ d₃ → ¬ Returns f d₃ l₃
  /-- `Next` has one error, and returns it only if no unfinished fiber is queued. -/
  noFibers : ∀ {d₁ l₁ err}, Trans.Reach step Allowed d₀ d₁ →
    (d₁.call l₁).2 = .fiber (.error err) →
    err = "no fibers in run queue" ∧ ∀ f ∈ d₁.queue.runQueue, (d₁.queue.fibers f).isFinished = true

/-- What returns a fiber is a `Next`. -/
theorem op_of_returns (h : d.Returns f l) : l.op = .next := by
  have hret := returns_iff.mp h
  obtain ⟨op, now⟩ := l
  cases op with
  | next => rfl
  | schedule | blockFiber | unblockFiber | remove | markCompleted | clear | finish => cases hret

/-- Where `f` is when it has entered. -/
theorem waits_of_enters (h : d.queue.Once) (hok : d.Allowed l) (he : d.Enters f l)
    (hs : d.step l = some d') (hg : g ∉ d.queue.runQueue) : d'.queue.Waits f g := by
  obtain ⟨-, hqueue, hblocked⟩ := he.call h hok
  rw [queue_of_step hs]
  exact ⟨hblocked, .inr ⟨d.queue.runQueue, [], hqueue, hg⟩⟩

/-- From when it enters on, `f` waits, in front of whatever is not queued. -/
theorem reach_waits_of_enters {d₁ d₂ : Dispatcher} (h : d.queue.Once) (hok : d.Allowed l)
    (he : d.Enters f l) (hs : d.step l = some d₁) (hrun : Trans.Reach step (Stays f) d₁ d₂) :
    d₂.queue.Once ∧ d₂.queue.Waits f f := by
  have hw : d₁.queue.Waits f f := waits_of_enters h hok he hs (he.call h hok).1
  exact reach_waits (step_once h hok hs) hw hrun

/-- A fiber that enters goes behind one that waits. -/
theorem waits_of_enters_behind (h : d.queue.Once) (hw : d.queue.Waits f f) (hok : d.Allowed l)
    (he : d.Enters g l) (hs : d.step l = some d') : d'.queue.Waits f g := by
  have hg := (he.call h hok).1
  have hwg : d.queue.Waits f g :=
    ⟨hw.notBlocked, hw.behind.imp_right fun hq => QueueScheduler.behind_of_not_mem hq.mem hg⟩
  rw [queue_of_step hs]
  refine (hwg.call h ?_ ?_).1
  · rcases he with hop | ⟨hop, -⟩ <;> rw [hop] <;> exact id
  · rcases he with hop | ⟨hop, -⟩ <;> rw [hop] <;> exact nofun

theorem inEnqueueOrder_of_once (h : d₀.queue.Once) : d₀.InEnqueueOrder where
  order {f g d₁ d₂ d₃ d₄ d₅ l₁ l₃ l₅} hne hrun₁ hok₁ he₁ hs₁ hrun₃ hok₃ he₃ hs₃ hrun₅ hret := by
    have h₁ := reach_once h (fun _ _ hok => hok) hrun₁
    obtain ⟨h₃, hw₃⟩ := reach_waits_of_enters h₁ hok₁ he₁ hs₁ hrun₃
    have hw₄ : d₄.queue.Waits f g := waits_of_enters_behind h₃ hw₃ hok₃ he₃ hs₃
    obtain ⟨h₅, hw₅⟩ := reach_waits (step_once h₃ hok₃ hs₃) hw₄ hrun₅
    have hret' : ¬ d₅.queue.Returns f l₅.op := by
      rw [← returns_iff]
      intro hf
      cases hf.symm.trans hret
      exact hne rfl
    have hleaves : ¬ QueueScheduler.Leaves f l₅.op := by
      rw [op_of_returns hret]
      exact id
    exact (hw₅.call h₅ hleaves hret').2 (returns_iff.mp hret)
  kept {f d₁ d₂ d₃ l₁} hrun₁ hok₁ he₁ hs₁ hrun₃ := by
    have h₁ := reach_once h (fun _ _ hok => hok) hrun₁
    obtain ⟨-, hw₃⟩ := reach_waits_of_enters h₁ hok₁ he₁ hs₁ hrun₃
    exact hw₃.behind.imp_right fun hq => hq.mem
  once {f d₁ d₂ d₃ l₁ l₃} hrun₁ hret hs₁ hrun₃ hret₃ := by
    have h₁ := reach_once h (fun _ _ hok => hok) hrun₁
    have hok₁ : d₁.Allowed l₁ := by
      rw [Allowed, op_of_returns hret]
      trivial
    have hgone : d₂.queue.Once ∧ f ∉ d₂.queue.runQueue :=
      ⟨step_once h₁ hok₁ hs₁, queue_of_step hs₁ ▸ ((returns_iff.mp hret).call h₁).2⟩
    have hout : d₃.queue.Once ∧ f ∉ d₃.queue.runQueue := by
      refine Trans.Reach.invariant (P := fun d => d.queue.Once ∧ f ∉ d.queue.runQueue) hgone ?_
        hrun₃
      rintro d l d' ⟨hd, hf⟩ ⟨hok, hout⟩ hs
      exact ⟨step_once hd hok hs, queue_of_step hs ▸ QueueScheduler.call_not_mem hd hf hout⟩
    exact hout.2 ((returns_iff.mp hret₃).call hout.1).1
  noFibers {d₁ l₁ err} hrun₁ herr := by
    have h₁ := reach_once h (fun _ _ hok => hok) hrun₁
    rw [(d₁.call_queue l₁).2] at herr
    obtain ⟨op, now⟩ := l₁
    cases op with
    | next =>
      simp only [QueueScheduler.call, Prod.map_snd, Ret.fiber.injEq] at herr
      rcases QueueScheduler.next_eq h₁.running with ⟨hnil, heq⟩ | ⟨a, queue, -, heq⟩
      · rw [heq] at herr
        cases herr
        refine ⟨rfl, fun f hf => ?_⟩
        simpa using List.filter_eq_nil_iff.mp hnil f hf
      · rw [heq] at herr
        cases herr
    | schedule | blockFiber | unblockFiber | remove | markCompleted | clear | finish => cases herr

/-- FIFO and round robin dispatch in the order of entry and without loss, and return the same on
the same operations. -/
theorem fifo_roundRobin_dispatch (fibers : FiberID → Fiber) (quantum : Int) :
    (fifo (.new fibers)).InEnqueueOrder ∧ (roundRobin (.new quantum fibers)).InEnqueueOrder
      ∧ ∀ ls ls' : List Label, ls.map Label.op = ls'.map Label.op →
        (fifo (.new fibers)).outputs ls = (roundRobin (.new quantum fibers)).outputs ls' := by
  refine ⟨inEnqueueOrder_of_once ⟨rfl, List.nodup_nil⟩,
    inEnqueueOrder_of_once ⟨rfl, List.nodup_nil⟩, fun ls ls' hops => ?_⟩
  refine outputs_eq ?_ hops
  rfl

end Dispatcher

end GreenThreads.Scheduler
