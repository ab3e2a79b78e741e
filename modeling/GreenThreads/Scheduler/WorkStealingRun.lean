import GreenThreads.Lib.Trans
import GreenThreads.Scheduler.WorkStealing
import Mathlib.Algebra.BigOperators.Group.Multiset.Basic
import Mathlib.Algebra.BigOperators.Fin
import Mathlib.Algebra.Order.BigOperators.Group.Finset
import Mathlib.Algebra.Order.Group.Multiset
import Mathlib.Tactic.Abel

/-!
# GreenThreads — concurrent calls of the work-stealing scheduler

There is no lock over all queues: a call is a sequence of sections, each under the lock of one
worker or of the base, and sections of different calls interleave in any order. A step of the
system is one section of one call.

Next to the scheduler the state keeps what became of the fibers that left the queues. One
lemma (`Pc.act_moves`) says what a section moves where; everything else follows from it.
-/

namespace GreenThreads.Scheduler.WorkStealing

open WorkStealingScheduler

/-! ## Calls -/

/-- What a call returns. -/
inductive Ret where
  | schedule (err : Option String)
  | next (r : Except String FiberID)
  | remove (f : FiberID) (err : Option String)
  | markCompleted (f : FiberID)

/-- Where a call is: the section it is about to enter. -/
inductive Pc (n : Nat) where
  /-- `Schedule` reads `stopped`. -/
  | schedule (f : FiberID)
  /-- It reads the size of the next queue, or appends once all have been read. -/
  | sizing (f : FiberID) (rest : List (Fin n)) (best : Fin n × Nat)
  /-- It updates the statistics. -/
  | counting
  /-- `Next` reads `stopped`. -/
  | next
  /-- It draws a worker. -/
  | drawing
  /-- It looks at the worker's own queue. -/
  | popping (i : Fin n)
  /-- It has a fiber from there and records the switch. -/
  | switching (f : FiberID)
  /-- It counts the attempt to steal. -/
  | missing (i : Fin n)
  /-- It shuffles the victims. -/
  | shuffling (i : Fin n)
  /-- It looks at the next victim. -/
  | stealing (i : Fin n) (victims : List (Fin n))
  /-- It has stolen a fiber and updates `stealsFrom`. -/
  | stolen (i : Fin n) (f : FiberID)
  /-- It updates the statistics. -/
  | crediting (f : FiberID)
  /-- `Remove` looks at the next worker. -/
  | remove (f : FiberID) (rest : List (Fin n))
  /-- `MarkCompleted` looks the ID up in `completed`. -/
  | markCompleted (f : FiberID)
  /-- It filters the next worker's queue. -/
  | sweeping (f : FiberID) (rest : List (Fin n))
  | done (r : Ret)

/-- The operations, as they are called. -/
inductive Op where
  | schedule (f : FiberID)
  | next
  | remove (f : FiberID)
  | markCompleted (f : FiberID)

/-- The first section of a call. -/
def Op.entry {n : Nat} : Op → Pc n
  | .schedule f => .schedule f
  | .next => .next
  | .remove f => .remove f (List.finRange n)
  | .markCompleted f => .markCompleted f

/-- What a section does not decide by itself: the order of the victims, and the IDs pruned from
`completed`. -/
inductive Choice (n : Nat) where
  | none
  | victims (victims : List (Fin n))
  | drop (drop : Finset FiberID)

/-- The outcome of a section: the scheduler, where the call goes on, the fibers it has put into
a queue, and those it has taken out without returning them. -/
structure Effect (n : Nat) where
  sched : WorkStealingScheduler n
  pc : Pc n
  appended : List FiberID := []
  taken : List FiberID := []
  dropped : List FiberID := []

namespace Pc

variable {n : Nat}

/-- The fiber a call of `Next` returns or is about to return. -/
def result : Pc n → Option FiberID
  | .switching f | .stolen _ f | .crediting f | .done (.next (.ok f)) => some f
  | _ => none

/-- The call is a `Remove` that has found the fiber, or a `MarkCompleted` of it. -/
def takesOut (f : FiberID) : Pc n → Bool
  | .sweeping g _ | .done (.remove g none) | .done (.markCompleted g) => g == f
  | _ => false

/-- The fiber a call of `Schedule` appends in this section. -/
def adds : Pc n → List FiberID
  | .sizing f [] _ => [f]
  | _ => []

theorem adds_nodup (pc : Pc n) : pc.adds.Nodup := by
  unfold adds
  split <;> simp

/-- What `filterFinishedInPlace` drops from a worker's queue. -/
def finishedOf (s : WorkStealingScheduler n) (i : Fin n) : List FiberID :=
  (s.workers i).localQueue.filter fun f => (s.fibers f).isFinished

variable [NeZero n]

/-- One section of a call. -/
def act (s : WorkStealingScheduler n) (c : Choice n) : Pc n → Option (Effect n)
  | .schedule f =>
    if s.base.stopped then some { sched := s, pc := .done (.schedule (some "scheduler stopped")) }
    else some { sched := s, pc := .sizing f (List.finRange n) (0, maxInt) }
  | .sizing f (i :: rest) best =>
    some { sched := s, pc := .sizing f rest (prefer best i (s.workers i).localQueue.length) }
  | .sizing f [] best =>
    some
      { sched := s.setWorker best.1 ((s.workers best.1).append f)
        pc := .counting
        appended := [f] }
  | .counting =>
    some
      { sched := { s with base := { s.base with totalScheduled := s.base.totalScheduled + 1 } }
        pc := .done (.schedule none) }
  | .next =>
    if s.base.stopped then
      some { sched := s, pc := .done (.next (.error "scheduler stopped")) }
    else some { sched := s, pc := .drawing }
  | .drawing =>
    some { sched := { s with nextWorker := s.nextWorker + 1 }, pc := .popping s.drawn }
  | .popping i =>
    let popped := (s.workers i).popFirst s.fibers
    some
      { sched := s.setWorker i popped.1
        pc := popped.2.elim (.missing i) .switching
        dropped := finishedOf s i }
  | .switching f =>
    some { sched := { s with base := s.base.recordSwitch }, pc := .done (.next (.ok f)) }
  | .missing i =>
    some { sched := { s with stealAttempts := s.stealAttempts + 1 }, pc := .shuffling i }
  | .shuffling i =>
    match c with
    | .victims victims =>
      if Shuffle i victims then some { sched := s, pc := .stealing i victims } else none
    | _ => none
  | .stealing _ [] => some { sched := s, pc := .done (.next (.error "no fibers in run queue")) }
  | .stealing i (v :: victims) =>
    let popped := (s.workers v).popLast s.fibers
    some
      { sched := s.setWorker v popped.1
        pc := popped.2.elim (.stealing i victims) (.stolen i)
        dropped := finishedOf s v }
  | .stolen i f =>
    some
      { sched := s.setWorker i { s.workers i with stealsFrom := (s.workers i).stealsFrom + 1 }
        pc := .crediting f }
  | .crediting f =>
    some
      { sched := { s with stealSuccess := s.stealSuccess + 1, base := s.base.recordSwitch }
        pc := .done (.next (.ok f)) }
  | .remove f [] =>
    some
      { sched := s
        pc := .done (.remove f
          (some ("fiber " ++ toString f ++ " not found in work-stealing queues"))) }
  | .remove f (i :: rest) =>
    match (s.workers i).remove f with
    | some w => some { sched := s.setWorker i w, pc := .done (.remove f none), taken := [f] }
    | none => some { sched := s, pc := .remove f rest }
  | .markCompleted f =>
    if f ∈ s.base.completed then some { sched := s, pc := .done (.markCompleted f) }
    else match c with
      | .drop drop =>
        if BaseScheduler.Prunes (insert f s.base.completed) drop then
          some
            { sched := { s with base := s.base.record f drop }
              pc := .sweeping f (List.finRange n) }
        else none
      | _ => none
  | .sweeping f [] => some { sched := s, pc := .done (.markCompleted f) }
  | .sweeping f (i :: rest) =>
    some
      { sched := s.setWorker i ((s.workers i).sweep f)
        pc := .sweeping f rest
        taken := (s.workers i).localQueue.filter (· == f) }
  | .done _ => none

end Pc

/-! ## The system -/

/-- The scheduler, the calls made so far, and the fate of the fibers. -/
structure Sys (n : Nat) where
  sched : WorkStealingScheduler n
  /-- Call `k` is where `calls[k]` says. -/
  calls : List (Pc n)
  /-- The fibers `Schedule` has appended to a queue. -/
  appended : List FiberID
  /-- Which call of `Remove` or `MarkCompleted` has taken which fiber out. -/
  taken : List (Nat × FiberID)
  /-- The fibers dropped by `filterFinishedInPlace`. -/
  dropped : List FiberID

inductive Label (n : Nat) where
  /-- Somebody calls an operation. -/
  | call (op : Op)
  /-- Call `k` enters its next section. -/
  | act (k : Nat) (c : Choice n)
  /-- A fiber function ends. -/
  | finish (f : FiberID)
  | start
  | stop

namespace Sys

variable {n : Nat}

/-- A new scheduler, nobody has called. -/
def new (n : Nat) (fibers : FiberID → Fiber) : Sys n := ⟨.new n fibers, [], [], [], []⟩

/-- The section's outcome becomes part of the state. -/
def apply (s : Sys n) (k : Nat) (e : Effect n) : Sys n where
  sched := e.sched
  calls := s.calls.set k e.pc
  appended := e.appended ++ s.appended
  taken := e.taken.map (k, ·) ++ s.taken
  dropped := e.dropped ++ s.dropped

variable [NeZero n]

/-- One step; `none` if it is not possible. -/
def step (s : Sys n) : Label n → Option (Sys n)
  | .call op => some { s with calls := s.calls ++ [op.entry] }
  | .act k c => (s.calls[k]?).bind fun pc => (pc.act s.sched c).map (s.apply k)
  | .finish f =>
    some { s with sched := { s.sched with
      fibers := Function.update s.sched.fibers f (s.sched.fibers f).runEnd } }
  | .start => some { s with sched := { s.sched with base := s.sched.base.start.1 } }
  | .stop => some { s with sched := { s.sched with base := s.sched.base.stop.1 } }

end Sys

/-! ## What a section takes from a queue -/

section Sections

variable (fibers : FiberID → Fiber) (w : Worker)

/-- What the filter keeps and what it drops. -/
theorem filterFinished_split (q : List FiberID) :
    (q : Multiset FiberID)
      = filterFinishedInPlace fibers q + q.filter fun f => (fibers f).isFinished := by
  have h := List.filter_append_perm (fun f => !(fibers f).isFinished) q
  simp only [Bool.not_not] at h
  exact (Multiset.coe_eq_coe.mpr h).symm

theorem popFirst_split :
    (w.localQueue : Multiset FiberID) = (w.popFirst fibers).1.localQueue
      + (w.popFirst fibers).2.toList + w.localQueue.filter fun f => (fibers f).isFinished := by
  have h := filterFinished_split fibers w.localQueue
  unfold Worker.popFirst
  cases hq : filterFinishedInPlace fibers w.localQueue with
  | nil =>
    rw [hq] at h
    simpa using h
  | cons f q =>
    rw [hq, ← Multiset.cons_coe, ← Multiset.singleton_add, add_comm ({f} : Multiset FiberID)] at h
    exact h

theorem popLast_split :
    (w.localQueue : Multiset FiberID) = (w.popLast fibers).1.localQueue
      + (w.popLast fibers).2.toList + w.localQueue.filter fun f => (fibers f).isFinished := by
  have h := filterFinished_split fibers w.localQueue
  unfold Worker.popLast
  cases hq : (filterFinishedInPlace fibers w.localQueue).getLast? with
  | none => simpa [hq] using h
  | some f =>
    rw [← List.dropLast_append_getLast? f hq, ← Multiset.coe_add] at h
    simpa [hq] using h

theorem remove_split {f : FiberID} {w' : Worker} (h : w.remove f = some w') :
    (w.localQueue : Multiset FiberID) = w'.localQueue + [f] := by
  unfold Worker.remove at h
  split at h
  · next hf =>
    cases h
    rw [Multiset.coe_add, Multiset.coe_eq_coe]
    exact (List.perm_cons_erase hf).trans (List.perm_append_singleton f _).symm
  · cases h

theorem sweep_split (f : FiberID) :
    (w.localQueue : Multiset FiberID) = (w.sweep f).localQueue + w.localQueue.filter (· == f) := by
  have h := List.filter_append_perm (· != f) w.localQueue
  have hneg : (fun g : FiberID => !(g != f)) = (· == f) := by
    funext g
    exact Bool.not_not _
  rw [hneg] at h
  exact (Multiset.coe_eq_coe.mpr h).symm

end Sections

variable {n : Nat}

/-- The contents of all queues. -/
def queued (s : WorkStealingScheduler n) : Multiset FiberID :=
  ∑ i, ((s.workers i).localQueue : Multiset FiberID)

/-- A section changes the sum in its own worker's queue. -/
theorem queued_setWorker (s : WorkStealingScheduler n) (i : Fin n) (w : Worker) :
    queued (s.setWorker i w) + (s.workers i).localQueue = queued s + w.localQueue := by
  have hothers : ∑ j ∈ Finset.univ.erase i, (((s.setWorker i w).workers j).localQueue :
      Multiset FiberID) = ∑ j ∈ Finset.univ.erase i, ((s.workers j).localQueue : Multiset _) := by
    refine Finset.sum_congr rfl fun j hj => ?_
    have hj' : (s.setWorker i w).workers j = s.workers j :=
      Function.update_of_ne (Finset.ne_of_mem_erase hj) ..
    rw [hj']
  have hself : (s.setWorker i w).workers i = w := Function.update_self ..
  have hsum : queued s = (s.workers i).localQueue
      + ∑ j ∈ Finset.univ.erase i, ((s.workers j).localQueue : Multiset FiberID) :=
    (Finset.add_sum_erase _ _ (Finset.mem_univ i)).symm
  rw [hsum, queued, ← Finset.add_sum_erase _ _ (Finset.mem_univ i), hothers, hself]
  abel

/-- What leaves a worker's queue leaves the sum. -/
theorem queued_of_split {s : WorkStealingScheduler n} {i : Fin n} {w : Worker}
    {out : Multiset FiberID}
    (h : ((s.workers i).localQueue : Multiset FiberID) = w.localQueue + out) :
    queued s = queued (s.setWorker i w) + out := by
  have hset := queued_setWorker s i w
  rw [h] at hset
  refine add_right_cancel (b := (w.localQueue : Multiset FiberID)) ?_
  rw [← hset]
  abel

namespace Pc

/-- What one section does to the fibers in the queues and to those already out. -/
structure Moves (s : WorkStealingScheduler n) (pc : Pc n) (e : Effect n) : Prop where
  /-- Whatever is in a queue or in the caller's hands stays there, or has a new place. -/
  conserves : queued s + pc.result.toList + e.appended
    = queued e.sched + e.pc.result.toList + e.taken + e.dropped
  fibers : e.sched.fibers = s.fibers
  appends : e.appended = pc.adds
  finished : ∀ f ∈ e.dropped, (s.fibers f).isFinished = true
  takes : ∀ f ∈ e.taken, e.pc.takesOut f = true
  keeps : ∀ f, pc.takesOut f = true → e.pc.takesOut f = true

/-- A section that leaves the queues alone. -/
theorem Moves.still {s s' : WorkStealingScheduler n} {pc pc' : Pc n}
    (hq : queued s' = queued s) (hf : s'.fibers = s.fibers) (hr : pc'.result = pc.result)
    (ha : pc.adds = []) (hk : ∀ f, pc.takesOut f = true → pc'.takesOut f = true) :
    Moves s pc { sched := s', pc := pc' } where
  conserves := by simp [hq, hr]
  fibers := hf
  appends := ha.symm
  finished := by simp
  takes := by simp
  keeps := hk

/-- A section that filters a worker's queue and pops from it, as `Next` and `steal` do. -/
theorem Moves.pop {s : WorkStealingScheduler n} {pc : Pc n} {i : Fin n} {w : Worker}
    {popped : Option FiberID} {miss : Pc n} {hit : FiberID → Pc n}
    (hsplit : ((s.workers i).localQueue : Multiset FiberID)
      = w.localQueue + popped.toList + (finishedOf s i : Multiset FiberID))
    (hpc : pc.result = none) (hmiss : miss.result = none) (hhit : ∀ f, (hit f).result = some f)
    (ha : pc.adds = []) (hk : ∀ f, pc.takesOut f = false) :
    Moves s pc
      { sched := s.setWorker i w, pc := popped.elim miss hit, dropped := finishedOf s i } where
  conserves := by
    rw [add_assoc] at hsplit
    have hq := queued_of_split hsplit
    cases popped with
    | none => simpa [hpc, hmiss, add_assoc] using hq
    | some f => simpa [hpc, hhit, add_assoc] using hq
  fibers := rfl
  appends := ha.symm
  finished := fun f hf => by simpa using List.of_mem_filter hf
  takes := by simp
  keeps := by simp [hk]

/-- A section that takes a fiber out of a worker's queue, as `Remove` and `MarkCompleted` do. -/
theorem Moves.take {s : WorkStealingScheduler n} {pc pc' : Pc n} {i : Fin n} {w : Worker}
    {f : FiberID} {out : List FiberID}
    (hsplit : ((s.workers i).localQueue : Multiset FiberID) = w.localQueue + out)
    (hout : ∀ g ∈ out, g = f) (hpc : pc.result = none) (hpc' : pc'.result = none)
    (ha : pc.adds = []) (hf : pc'.takesOut f = true)
    (hk : ∀ g, pc.takesOut g = true → pc'.takesOut g = true) :
    Moves s pc { sched := s.setWorker i w, pc := pc', taken := out } where
  conserves := by
    have hq := queued_of_split hsplit
    simpa [hpc, hpc'] using hq
  fibers := rfl
  appends := ha.symm
  finished := by simp
  takes g hg := by rw [hout g hg, hf]
  keeps := hk

/-- A section that appends to the queue chosen. -/
theorem Moves.append (s : WorkStealingScheduler n) (f : FiberID) (best : Fin n × Nat) :
    Moves s (.sizing f [] best)
      { sched := s.setWorker best.1 ((s.workers best.1).append f)
        pc := .counting
        appended := [f] } where
  conserves := by
    have hset := queued_setWorker s best.1 ((s.workers best.1).append f)
    rw [Worker.append, ← Multiset.coe_add, ← add_assoc] at hset
    have happ := add_right_cancel (hset.trans (add_right_comm _ _ _))
    simpa [result, Worker.append] using happ.symm
  fibers := rfl
  appends := rfl
  finished := by simp
  takes := by simp
  keeps := by simp [takesOut]

theorem act_moves [NeZero n] {s : WorkStealingScheduler n} {c : Choice n} {pc : Pc n} {e : Effect n}
    (h : pc.act s c = some e) : Moves s pc e := by
  cases pc with
  | schedule f | next =>
    simp only [act] at h
    split at h <;> cases h <;> exact .still rfl rfl rfl rfl (by simp [takesOut])
  | sizing f rest best =>
    cases rest with
    | cons i rest =>
      cases h
      exact .still rfl rfl rfl rfl (by simp [takesOut])
    | nil =>
      cases h
      exact .append s f best
  | counting | drawing | switching f | missing i | crediting f =>
    cases h
    exact .still rfl rfl rfl rfl (by simp [takesOut])
  | popping i =>
    simp only [act, Option.some.injEq] at h
    subst h
    exact .pop (popFirst_split s.fibers (s.workers i)) rfl rfl (fun _ => rfl) rfl (fun _ => rfl)
  | shuffling i =>
    simp only [act] at h
    split at h
    · split at h
      · cases h
        exact .still rfl rfl rfl rfl (by simp [takesOut])
      · cases h
    · cases h
  | stealing i victims =>
    cases victims with
    | nil =>
      cases h
      exact .still rfl rfl rfl rfl (by simp [takesOut])
    | cons v victims =>
      simp only [act, Option.some.injEq] at h
      subst h
      exact .pop (popLast_split s.fibers (s.workers v)) rfl rfl (fun _ => rfl) rfl (fun _ => rfl)
  | stolen i f =>
    -- a worker is written, but not its queue
    cases h
    refine .still ?_ rfl rfl rfl (by simp [takesOut])
    have hq : queued s = queued (s.setWorker i
        { s.workers i with stealsFrom := (s.workers i).stealsFrom + 1 }) + 0 :=
      queued_of_split (by simp)
    simpa using hq.symm
  | remove f rest =>
    cases rest with
    | nil =>
      cases h
      exact .still rfl rfl rfl rfl (by simp [takesOut])
    | cons i rest =>
      simp only [act] at h
      split at h
      · next w hw =>
        cases h
        exact .take (f := f) (remove_split _ hw) (by simp) rfl rfl rfl (by simp [takesOut])
          (by simp [takesOut])
      · cases h
        exact .still rfl rfl rfl rfl (by simp [takesOut])
  | markCompleted f =>
    simp only [act] at h
    split at h
    · cases h
      exact .still rfl rfl rfl rfl (by simp [takesOut])
    · split at h
      · split at h
        · cases h
          exact .still rfl rfl rfl rfl (by simp [takesOut])
        · cases h
      · cases h
  | sweeping f rest =>
    cases rest with
    | nil =>
      cases h
      exact .still rfl rfl rfl rfl (by simp [takesOut])
    | cons i rest =>
      cases h
      exact .take (f := f) (sweep_split (s.workers i) f) (by simp) rfl rfl rfl
        (by simp [takesOut]) (by simp [takesOut])
  | done r => cases h

end Pc

/-! ## A call that runs alone -/

/-- Left to itself, a call that is at `pc` ends with the scheduler `s'` and returns `r`. -/
inductive Alone [NeZero n] :
    WorkStealingScheduler n → Pc n → WorkStealingScheduler n → Ret → Prop where
  | done {s : WorkStealingScheduler n} {r : Ret} : Alone s (.done r) s r
  | act {s s' : WorkStealingScheduler n} {c : Choice n} {pc : Pc n} {e : Effect n} {r : Ret}
      (h : pc.act s c = some e) (rest : Alone e.sched e.pc s' r) : Alone s pc s' r

namespace Alone

variable [NeZero n] {s : WorkStealingScheduler n}

theorem sizing (f : FiberID) (rest : List (Fin n)) (best : Fin n × Nat) :
    let chosen := (rest.foldl (fun best i => prefer best i (s.workers i).localQueue.length)
      best).1
    let s' := s.setWorker chosen ((s.workers chosen).append f)
    Alone s (.sizing f rest best)
      { s' with base := { s'.base with totalScheduled := s'.base.totalScheduled + 1 } }
      (.schedule none) := by
  induction rest generalizing best with
  | nil => exact .act (c := .none) rfl (.act (c := .none) rfl .done)
  | cons i rest ih => exact .act (c := .none) rfl (ih _)

theorem schedule (s : WorkStealingScheduler n) (f : FiberID) :
    Alone s (.schedule f) (s.schedule f).1 (.schedule (s.schedule f).2) := by
  unfold WorkStealingScheduler.schedule
  cases hs : s.base.stopped with
  | true => exact .act (c := .none) (by rw [Pc.act, if_pos hs]) .done
  | false => exact .act (c := .none) (by rw [Pc.act, if_neg (by simp [hs])]) (sizing f _ _)

/-- What is left of a `Next` once the own queue was empty. -/
theorem stealing (i : Fin n) (victims : List (Fin n)) (s : WorkStealingScheduler n) :
    let res : WorkStealingScheduler n × Except String FiberID := match s.steal victims with
      | (s, some f) =>
        let s := s.setWorker i { s.workers i with stealsFrom := (s.workers i).stealsFrom + 1 }
        ({ s with stealSuccess := s.stealSuccess + 1, base := s.base.recordSwitch }, .ok f)
      | (s, none) => (s, .error "no fibers in run queue")
    Alone s (.stealing i victims) res.1 (.next res.2) := by
  induction victims generalizing s with
  | nil => exact .act (c := .none) rfl .done
  | cons v victims ih =>
    refine .act (c := .none) rfl ?_
    dsimp only
    unfold steal
    rcases hp : (s.workers v).popLast s.fibers with ⟨w, _ | f⟩
    · exact ih (s.setWorker v w)
    · exact .act (c := .none) rfl (.act (c := .none) rfl .done)

theorem next {victims : List (Fin n)} (hv : Shuffle s.drawn victims) :
    Alone s .next (s.next victims).1 (.next (s.next victims).2) := by
  unfold WorkStealingScheduler.next
  cases hs : s.base.stopped with
  | true => exact .act (c := .none) (by rw [Pc.act, if_pos hs]) .done
  | false =>
    refine .act (c := .none) (by rw [Pc.act, if_neg (by simp [hs])]) (.act (c := .none) rfl ?_)
    refine .act (c := .none) rfl ?_
    dsimp only
    rcases hp : (s.workers s.drawn).popFirst s.fibers with ⟨w, _ | f⟩
    · refine .act (c := .none) rfl (.act (c := .victims victims) (by rw [Pc.act, if_pos hv]) ?_)
      exact stealing s.drawn victims _
    · exact .act (c := .none) rfl .done

theorem removing (f : FiberID) (rest : List (Fin n)) :
    let res : WorkStealingScheduler n × Option String := match s.removeScan f rest with
      | some s' => (s', none)
      | none => (s, some ("fiber " ++ toString f ++ " not found in work-stealing queues"))
    Alone s (.remove f rest) res.1 (.remove f res.2) := by
  induction rest with
  | nil => exact .act (c := .none) rfl .done
  | cons i rest ih =>
    unfold removeScan
    cases hr : (s.workers i).remove f with
    | some w => exact .act (c := .none) (by rw [Pc.act, hr]) .done
    | none => exact .act (c := .none) (by rw [Pc.act, hr]) ih

theorem remove (s : WorkStealingScheduler n) (f : FiberID) :
    Alone s (Op.remove f).entry (s.remove f).1 (.remove f (s.remove f).2) :=
  removing f (List.finRange n)

theorem sweeping (f : FiberID) {rest : List (Fin n)} (hrest : rest.Nodup)
    (s : WorkStealingScheduler n) :
    Alone s (.sweeping f rest)
      { s with workers := fun i => if i ∈ rest then (s.workers i).sweep f else s.workers i }
      (.markCompleted f) := by
  induction rest generalizing s with
  | nil => exact .act (c := .none) rfl (by simpa using .done)
  | cons i rest ih =>
    refine .act (c := .none) rfl ?_
    obtain ⟨hi, hrest⟩ := List.nodup_cons.mp hrest
    -- `MarkCompleted` filters all queues at once; here worker `i` first, and not again later
    have hswept : (fun j => if j ∈ i :: rest then (s.workers j).sweep f else s.workers j)
        = fun j => if j ∈ rest then ((s.setWorker i ((s.workers i).sweep f)).workers j).sweep f
            else (s.setWorker i ((s.workers i).sweep f)).workers j := by
      funext j
      by_cases hj : j = i
      · subst hj
        simp [setWorker, hi]
      · simp [setWorker, hj]
    rw [hswept]
    exact ih hrest (s.setWorker i ((s.workers i).sweep f))

theorem markCompleted {f : FiberID} {drop : Finset FiberID}
    (hd : BaseScheduler.Prunes (insert f s.base.completed) drop) :
    Alone s (.markCompleted f) (s.markCompleted f drop) (.markCompleted f) := by
  unfold WorkStealingScheduler.markCompleted
  by_cases hf : f ∈ s.base.completed
  · rw [if_pos hf]
    exact .act (c := .drop drop) (by rw [Pc.act, if_pos hf]) .done
  · rw [if_neg hf]
    refine .act (c := .drop drop) (by rw [Pc.act, if_neg hf, if_pos hd]) ?_
    simpa using sweeping f (List.nodup_finRange n) { s with base := s.base.record f drop }

end Alone

/-! ## Conservation over a run -/

theorem coe_filterMap_cons {α β : Type*} (g : α → Option β) (a : α) (l : List α) :
    ((a :: l).filterMap g : Multiset β) = (g a).toList + (l.filterMap g : Multiset β) := by
  rw [List.filterMap_cons]
  cases g a <;> rfl

/-- Exchanging one element exchanges what it contributes. -/
theorem filterMap_set {α β : Type*} (g : α → Option β) {l : List α} {k : Nat} {a b : α}
    (h : l[k]? = some a) :
    ((l.set k b).filterMap g : Multiset β) + (g a).toList
      = (l.filterMap g : Multiset β) + (g b).toList := by
  induction l generalizing k with
  | nil => simp at h
  | cons x l ih =>
    cases k with
    | zero =>
      have hx : x = a := by simpa using h
      subst hx
      rw [List.set_cons_zero, coe_filterMap_cons, coe_filterMap_cons]
      abel
    | succ k =>
      have ih' := ih (k := k) (by simpa using h)
      rw [List.set_cons_succ, coe_filterMap_cons, coe_filterMap_cons, add_assoc, ih', add_assoc]

namespace Sys

/-- All fibers wherever they are: in the queues, with the calls of `Next`, taken out, dropped. -/
def held (s : Sys n) : Multiset FiberID :=
  queued s.sched + s.calls.filterMap Pc.result + s.taken.map Prod.snd + s.dropped

theorem held_apply {s : Sys n} {k : Nat} {pc : Pc n} {e : Effect n} (hk : s.calls[k]? = some pc)
    (hm : pc.Moves s.sched e) : (s.apply k e).held = s.held + e.appended := by
  have hset := filterMap_set Pc.result (b := e.pc) hk
  have htaken : (((s.apply k e).taken.map Prod.snd : List FiberID) : Multiset FiberID)
      = e.taken + s.taken.map Prod.snd := by
    simp [apply, Function.comp_def]
  have hdropped : ((s.apply k e).dropped : Multiset FiberID) = e.dropped + s.dropped := by
    simp [apply]
  have hcalls : (s.apply k e).calls = s.calls.set k e.pc := rfl
  have hsched : (s.apply k e).sched = e.sched := rfl
  -- with what call `k` had in its hands on both sides, its old and its new result are exchanged
  refine add_right_cancel (b := (pc.result.toList : Multiset FiberID)) ?_
  unfold held
  rw [htaken, hdropped, hcalls, hsched]
  calc queued e.sched + (s.calls.set k e.pc).filterMap Pc.result
        + (e.taken + s.taken.map Prod.snd) + (e.dropped + s.dropped) + pc.result.toList
      = queued e.sched + e.taken + e.dropped + s.taken.map Prod.snd + s.dropped
        + ((s.calls.set k e.pc).filterMap Pc.result + pc.result.toList) := by abel
    _ = queued e.sched + e.pc.result.toList + e.taken + e.dropped
        + s.calls.filterMap Pc.result + s.taken.map Prod.snd + s.dropped := by
      rw [hset]
      abel
    _ = _ := by
      rw [← hm.conserves]
      abel

/-- Each fiber is scheduled at most once: where a `Schedule` is about to append its fiber, no
`Schedule` has appended it before. -/
def SchedulesOnce (s : Sys n) : Label n → Prop
  | .act k _ => ∀ pc ∈ s.calls[k]?, ∀ f ∈ pc.adds, f ∉ s.appended
  | _ => True

instance (s : Sys n) : (l : Label n) → Decidable (s.SchedulesOnce l)
  | .act k _ => inferInstanceAs (Decidable (∀ pc ∈ s.calls[k]?, ∀ f ∈ pc.adds, f ∉ s.appended))
  | .call _ | .finish _ | .start | .stop => .isTrue trivial

/-- The books of the system balance. -/
structure Balanced (s : Sys n) : Prop where
  nodup : s.appended.Nodup
  held : s.held = s.appended
  finished : ∀ f ∈ s.dropped, (s.sched.fibers f).isFinished = true
  taken : ∀ k f, (k, f) ∈ s.taken → ∃ pc, s.calls[k]? = some pc ∧ pc.takesOut f = true

namespace Balanced

theorem new (n : Nat) (fibers : FiberID → Fiber) : (Sys.new n fibers).Balanced where
  nodup := .nil
  held := by simp [Sys.new, Sys.held, queued, WorkStealingScheduler.new]
  finished := by simp [Sys.new]
  taken := by simp [Sys.new]

variable {s s' : Sys n}

theorem apply (hb : s.Balanced) {k : Nat} {pc : Pc n} {e : Effect n}
    (hk : s.calls[k]? = some pc) (hm : pc.Moves s.sched e) (hnew : ∀ f ∈ pc.adds, f ∉ s.appended)
    (hone : pc.adds.Nodup) : (s.apply k e).Balanced where
  nodup := by
    change (e.appended ++ s.appended).Nodup
    rw [hm.appends]
    exact hone.append hb.nodup (fun f hf hs => hnew f hf hs)
  held := by
    rw [held_apply hk hm, hb.held, add_comm]
    rfl
  finished f hf := by
    change (e.sched.fibers f).isFinished = true
    rw [hm.fibers]
    rcases List.mem_append.mp hf with he | hs
    · exact hm.finished f he
    · exact hb.finished f hs
  taken j f hj := by
    have hlt : k < s.calls.length := (List.getElem?_eq_some_iff.mp hk).1
    rcases List.mem_append.mp hj with he | hs
    · obtain ⟨g, hg, hjg⟩ := List.mem_map.mp he
      cases hjg
      exact ⟨e.pc, by simp [Sys.apply, hlt], hm.takes f hg⟩
    · obtain ⟨pc', hpc', htakes⟩ := hb.taken j f hs
      by_cases hjk : k = j
      · -- the same call took it out earlier, and is still a call that takes it out
        subst hjk
        have heq : pc = pc' := Option.some.inj (hk.symm.trans hpc')
        subst heq
        exact ⟨e.pc, by simp [Sys.apply, hlt], hm.keeps f htakes⟩
      · exact ⟨pc', by simp [Sys.apply, hjk, hpc'], htakes⟩

theorem step [NeZero n] (hb : s.Balanced) {l : Label n} (hok : s.SchedulesOnce l)
    (h : s.step l = some s') : s'.Balanced := by
  cases l with
  | call op =>
    cases h
    refine ⟨hb.nodup, ?_, hb.finished, ?_⟩
    · have hop : op.entry.result (n := n) = none := by cases op <;> rfl
      have hheld := hb.held
      simp only [Sys.held] at hheld ⊢
      simpa [hop] using hheld
    · intro k f hkf
      obtain ⟨pc, hpc, htakes⟩ := hb.taken k f hkf
      exact ⟨pc, by rw [List.getElem?_append_left (List.getElem?_eq_some_iff.mp hpc).1, hpc],
        htakes⟩
  | act k c =>
    obtain ⟨pc, hk, h⟩ := Option.bind_eq_some_iff.mp h
    obtain ⟨e, he, rfl⟩ := Option.map_eq_some_iff.mp h
    exact hb.apply hk (Pc.act_moves he) (hok pc hk) pc.adds_nodup
  | finish g =>
    cases h
    refine ⟨hb.nodup, hb.held, fun f hf => ?_, hb.taken⟩
    by_cases hfg : f = g
    · subst hfg
      simp [Fiber.runEnd, Fiber.isFinished]
    · simpa [hfg] using hb.finished f hf
  | start | stop =>
    cases h
    exact ⟨hb.nodup, hb.held, hb.finished, hb.taken⟩

end Balanced

/-! ## Where a fiber is -/

/-- The places a fiber that `Schedule` has appended can be at. -/
inductive Place (n : Nat) where
  /-- Position `j` of worker `i`'s queue. -/
  | queued (i : Fin n) (j : Nat)
  /-- Call `k` of `Next` returns it. -/
  | returned (k : Nat)
  /-- Call `k` of `Remove` or `MarkCompleted` has taken it out. -/
  | takenOut (k : Nat)
  /-- The filter has dropped it. -/
  | dropped

/-- The fiber is at the place. -/
def At (s : Sys n) (f : FiberID) : Place n → Prop
  | .queued i j => (s.sched.workers i).localQueue[j]? = some f
  | .returned k => (s.calls[k]?).bind Pc.result = some f
  | .takenOut k => (k, f) ∈ s.taken ∧ ∃ pc, s.calls[k]? = some pc ∧ pc.takesOut f = true
  | .dropped => f ∈ s.dropped ∧ (s.sched.fibers f).isFinished = true

end Sys

/-! ## At most one place -/

section Unique

variable {α β : Type*} {l : List α}

theorem index_unique (h : l.Nodup) {i j : Nat} {a : α} (hi : l[i]? = some a)
    (hj : l[j]? = some a) : i = j := by
  obtain ⟨hi', rfl⟩ := List.getElem?_eq_some_iff.mp hi
  obtain ⟨hj', hji⟩ := List.getElem?_eq_some_iff.mp hj
  exact ((h.getElem_inj_iff).mp hji).symm

theorem source_unique {g : α → Option β} (h : (l.filterMap g).Nodup) {i j : Nat} {b : β}
    (hi : (l[i]?).bind g = some b) (hj : (l[j]?).bind g = some b) : i = j := by
  obtain ⟨x, hx, hgx⟩ := Option.bind_eq_some_iff.mp hi
  obtain ⟨y, hy, hgy⟩ := Option.bind_eq_some_iff.mp hj
  obtain ⟨hi', rfl⟩ := List.getElem?_eq_some_iff.mp hx
  obtain ⟨hj', rfl⟩ := List.getElem?_eq_some_iff.mp hy
  have hpair := List.pairwise_iff_getElem.mp (List.pairwise_filterMap.mp h)
  rcases lt_trichotomy i j with hlt | heq | hlt
  · exact absurd rfl (hpair i j hi' hj' hlt b hgx b hgy)
  · exact heq
  · exact absurd rfl (hpair j i hj' hi' hlt b hgy b hgx)

end Unique

/-- Two workers' queues are parts of the whole. -/
theorem queues_le (s : WorkStealingScheduler n) {i i' : Fin n} (h : i ≠ i') :
    ((s.workers i).localQueue : Multiset FiberID) + (s.workers i').localQueue ≤ queued s := by
  rw [← Finset.sum_pair (f := fun j => ((s.workers j).localQueue : Multiset FiberID)) h]
  exact Finset.sum_le_sum_of_subset (Finset.subset_univ _)

theorem queue_le (s : WorkStealingScheduler n) (i : Fin n) :
    ((s.workers i).localQueue : Multiset FiberID) ≤ queued s :=
  Finset.single_le_sum (f := fun j => ((s.workers j).localQueue : Multiset FiberID))
    (fun _ _ => Multiset.zero_le _) (Finset.mem_univ i)

/-- A fiber that is queued once is at one position of one queue. -/
theorem position_unique {s : WorkStealingScheduler n} (h : (queued s).Nodup) {f : FiberID}
    {i i' : Fin n} {j j' : Nat} (hj : (s.workers i).localQueue[j]? = some f)
    (hj' : (s.workers i').localQueue[j']? = some f) : i = i' ∧ j = j' := by
  have hi : i = i' := by
    by_contra hne
    have hboth := Multiset.nodup_of_le (queues_le s hne) h
    have hdisj := (Multiset.nodup_add.mp hboth).2.2
    exact Multiset.disjoint_left.mp hdisj (List.mem_of_getElem? hj) (List.mem_of_getElem? hj')
  subst hi
  exact ⟨rfl, index_unique (Multiset.coe_nodup.mp (Multiset.nodup_of_le (queue_le s i) h)) hj hj'⟩

namespace Sys

/-- The part of `held` that a place belongs to. -/
def part (s : Sys n) : Place n → Multiset FiberID
  | .queued _ _ => WorkStealing.queued s.sched
  | .returned _ => s.calls.filterMap Pc.result
  | .takenOut _ => s.taken.map Prod.snd
  | .dropped => s.dropped

theorem At.mem_part {s : Sys n} {f : FiberID} {p : Place n} (h : s.At f p) : f ∈ s.part p := by
  cases p with
  | queued i j => exact Multiset.mem_of_le (queue_le s.sched i) (List.mem_of_getElem? h)
  | returned k =>
    obtain ⟨pc, hpc, hf⟩ := Option.bind_eq_some_iff.mp h
    exact List.mem_filterMap.mpr ⟨pc, List.mem_of_getElem? hpc, hf⟩
  | takenOut k => exact List.mem_map.mpr ⟨(k, f), h.1, rfl⟩
  | dropped => exact h.1

theorem Balanced.exists_place {s : Sys n} (hb : s.Balanced) {f : FiberID} (hf : f ∈ s.appended) :
    ∃ p, s.At f p := by
  have hheld : f ∈ s.held := by
    rw [hb.held]
    exact hf
  simp only [Sys.held, Multiset.mem_add, Multiset.mem_coe] at hheld
  rcases hheld with ((hq | hc) | ht) | hd
  · obtain ⟨i, -, hi⟩ := Multiset.mem_sum.mp hq
    obtain ⟨j, hj⟩ := List.mem_iff_getElem?.mp hi
    exact ⟨.queued i j, hj⟩
  · obtain ⟨pc, hpc, hr⟩ := List.mem_filterMap.mp hc
    obtain ⟨k, hk⟩ := List.mem_iff_getElem?.mp hpc
    exact ⟨.returned k, by simp [At, hk, hr]⟩
  · obtain ⟨⟨k, g⟩, hkg, rfl⟩ := List.mem_map.mp ht
    exact ⟨.takenOut k, hkg, hb.taken k g hkg⟩
  · exact ⟨.dropped, hd, hb.finished f hd⟩

theorem Balanced.place_unique {s : Sys n} (hb : s.Balanced) {f : FiberID} {p p' : Place n}
    (h : s.At f p) (h' : s.At f p') : p = p' := by
  have hnodup : s.held.Nodup := by
    rw [hb.held]
    exact hb.nodup
  have hone := Multiset.nodup_iff_count_le_one.mp hnodup f
  simp only [Sys.held, Multiset.count_add] at hone
  have hp := Multiset.one_le_count_iff_mem.mpr h.mem_part
  have hp' := Multiset.one_le_count_iff_mem.mpr h'.mem_part
  obtain ⟨⟨⟨hq, hc, -⟩, ht, -⟩, -, -⟩ : ((_ ∧ _ ∧ _) ∧ _ ∧ _) ∧ _ ∧ _ := by
    simpa only [Sys.held, Multiset.nodup_add] using hnodup
  cases p <;> cases p'
  -- within a part the position is unique; two parts would hold the fiber twice
  case queued.queued =>
    obtain ⟨rfl, rfl⟩ := position_unique hq h h'
    rfl
  case returned.returned => rw [source_unique hc h h']
  case takenOut.takenOut =>
    cases List.inj_on_of_nodup_map ht h.1 h'.1 rfl
    rfl
  case dropped.dropped => rfl
  all_goals
    simp only [part] at hp hp'
    omega

/-- Work stealing neither loses nor duplicates fibers: with any number of workers, whatever the
interleaving of the calls, a fiber that `Schedule` has appended is at exactly one place. -/
theorem exactly_one_place (k : Int) (fibers : FiberID → Fiber) {s : Sys (numWorkers k)}
    (h : Trans.Reach Sys.step SchedulesOnce (Sys.new (numWorkers k) fibers) s) {f : FiberID}
    (hf : f ∈ s.appended) : ∃! p, s.At f p := by
  have hb : s.Balanced := by
    refine Trans.Reach.invariant (P := Balanced) (Balanced.new _ fibers) ?_ h
    exact fun s l s' hb hok hs => hb.step hok hs
  obtain ⟨p, hp⟩ := hb.exists_place hf
  exact ⟨p, hp, fun p' hp' => hb.place_unique hp' hp⟩

/-- The sections of call `k`, a `Schedule` with two workers. -/
def scheduleTrace (k : Nat) (f : FiberID) : List (Label 2) :=
  .call (.schedule f) :: List.replicate 5 (.act k .none)

/-- Fiber 1 is dropped, 2 taken out, 3 returned, and 4 still queued. -/
theorem exactly_one_place_each :
    ∃ s : Sys 2, Trans.Reach Sys.step SchedulesOnce (Sys.new 2 fun _ => {}) s ∧
      s.At 1 .dropped ∧ s.At 2 (.takenOut 5) ∧ s.At 3 (.returned 4) ∧ s.At 4 (.queued 1 0) ∧
      ∀ f ∈ [1, 2, 3, 4], ∃! p, s.At f p := by
  obtain ⟨s, hs, hp⟩ := Trans.exists_reach_of_exec_guarded Sys.step SchedulesOnce
    (Sys.new 2 fun _ => {})
    (List.flatten [scheduleTrace 0 1, scheduleTrace 1 2, scheduleTrace 2 3, scheduleTrace 3 4,
      [.finish 1, .call .next], List.replicate 4 (.act 4 .none),
      [.call (.remove 2), .act 5 .none, .act 5 .none]])
    (fun s => s.appended == [4, 3, 2, 1] && (s.dropped == [1] && (s.sched.fibers 1).isFinished)
      && (s.taken == [(5, 2)] && (s.calls[5]?).any (Pc.takesOut 2))
      && (s.calls[4]?).bind Pc.result == some 3 && (s.sched.workers 1).localQueue == [4])
    (by decide +kernel)
  simp only [Bool.and_eq_true, beq_iff_eq, Option.any_eq_true] at hp
  obtain ⟨⟨⟨⟨happ, hdrop, hfin⟩, htake, hpc⟩, hret⟩, hqueue⟩ := hp
  refine ⟨s, hs, ⟨by simp [hdrop], hfin⟩, ⟨by simp [htake], hpc⟩, hret, by simp [At, hqueue], ?_⟩
  intro f hf
  refine exactly_one_place 2 _ hs ?_
  rw [happ]
  exact List.mem_reverse.mpr hf

end Sys

end GreenThreads.Scheduler.WorkStealing
