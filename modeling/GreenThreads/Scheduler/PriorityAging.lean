import GreenThreads.Scheduler.PriorityNext

/-!
# GreenThreads — aging bounds overtaking

Every 100th successful `Next` raises the cached priority of all entries by one. A fiber that
waits through enough of these passes is then ahead of everything that is scheduled later with a
priority up to a bound, and stays ahead: the passes that follow raise both.

`Shift` says what one operation does to the entries while a fiber waits; the two invariants of
the argument (how far the waiting fiber has risen, how far the late one can be) follow from it.
-/

namespace GreenThreads.Scheduler.PriorityScheduler

open PriorityItem

/-- The aging passes made so far, one at every 100th successful `Next`. -/
def passes (s : PriorityScheduler) : Nat := s.popCount / 100

/-- The fiber is unfinished, and no cached priority has reached the limit of aging. -/
structure Waiting (f : FiberID) (s : PriorityScheduler) : Prop where
  unfinished : (s.fibers f).isFinished = false
  below : ∀ item ∈ s.pqueue, item.priorityVal < agingLimit

/-- The steps of a run of `Schedule` and `Next` through which `f` waits. Fibers may finish and
have their own priority set; the entries in the queue do not see that. -/
def WaitStep (f : FiberID) (s : PriorityScheduler) : Label → Prop
  | .schedule _ | .finish _ | .setPriority _ _ => Waiting f s
  | .next => Waiting f s ∧ ∀ s', s.next ≠ some (s', .ok f)
  | _ => False

/-- Whenever the step schedules `g`, it does so with a priority of at most `q`. -/
def AtMost (g : FiberID) (q : Int) (s : PriorityScheduler) (l : Label) : Prop :=
  l = .schedule g → (s.fibers g).priority ≤ q

/-! ## One operation -/

/-- A key raised by `d`. -/
def raise (d : Nat) (k : FiberID × Int × Int) : FiberID × Int × Int := (k.1, k.2.1 + d, k.2.2)

theorem raise_zero (k : FiberID × Int × Int) : raise 0 k = k := by simp [raise]

/-- Raised by the pass that is due, if one is. -/
def due (s : PriorityScheduler) : Nat := if (s.popCount + 1) % 100 = 0 then 1 else 0

theorem candidates_keys {s : PriorityScheduler}
    (hbelow : ∀ item ∈ s.pqueue, item.priorityVal < agingLimit) :
    s.candidates.map key = s.unfinished.map fun item => raise s.due item.key := by
  unfold candidates due
  split
  · rw [List.map_map]
    refine List.map_congr_left fun item hitem => ?_
    have hlt := hbelow item (List.mem_of_mem_filter hitem)
    simp [key, PriorityItem.age, raise, hlt]
  · simp [raise_zero]

/-- What a step does to the entries: all rise by the same amount, one may be new, and those of
`f` stay. -/
structure Shift (f : FiberID) (s : PriorityScheduler) (l : Label) (s' : PriorityScheduler)
    (d : Nat) : Prop where
  passes : s'.passes = s.passes + d
  origin : ∀ k ∈ s'.pqueue.map key, (∃ k₀ ∈ s.pqueue.map key, k = raise d k₀) ∨
    l = .schedule k.1 ∧ k.2.1 = (s.fibers k.1).priority
  stays : ∀ k ∈ s.pqueue.map key, k.1 = f → raise d k ∈ s'.pqueue.map key

section Step

variable {f : FiberID} {s s' : PriorityScheduler}

/-- The queue and the pop count are as before. -/
theorem Shift.same {l : Label} (hq : s'.pqueue = s.pqueue) (hc : s'.popCount = s.popCount) :
    Shift f s l s' 0 where
  passes := by simp [PriorityScheduler.passes, hc]
  origin k hk := by
    rw [hq] at hk
    exact .inl ⟨k, hk, (raise_zero k).symm⟩
  stays k hk _ := by
    rw [hq, raise_zero]
    exact hk

theorem Shift.schedule {g : FiberID} {err : Option String}
    (h : s.schedule g = some (s', err)) : Shift f s (.schedule g) s' 0 := by
  unfold PriorityScheduler.schedule at h
  split at h
  · cases h
    exact .same rfl rfl
  · obtain ⟨s₁, hpush, heq⟩ := Option.map_eq_some_iff.mp h
    cases heq
    obtain ⟨pq, hp, rfl⟩ := Option.map_eq_some_iff.mp hpush
    obtain ⟨pq', hp', hs⟩ := SliceHeap.push_swaps (o := pqOps) s.pqueue
      ⟨g, (s.fibers g).priority, (s.fibers g).createdAt, 0⟩
    cases hp'.symm.trans hp
    have hperm := hs.perm pqOps_keeps
    rw [List.map_append, List.map_singleton] at hperm
    refine ⟨rfl, fun k hk => ?_, fun k hk _ => ?_⟩
    · rcases List.mem_append.mp (hperm.mem_iff.mp hk) with hold | hnew
      · exact .inl ⟨k, hold, (raise_zero k).symm⟩
      · cases List.mem_singleton.mp hnew
        exact .inr ⟨rfl, rfl⟩
    · rw [raise_zero]
      exact hperm.mem_iff.mpr (List.mem_append_left _ hk)

/-- The entries of an unfinished fiber are among the candidates. -/
theorem mem_unfinished (hf : (s.fibers f).isFinished = false) {item : PriorityItem}
    (hitem : item ∈ s.pqueue) (hfib : item.fiber = f) : item ∈ s.unfinished :=
  List.mem_filter.mpr ⟨hitem, by simp [finished, hfib, hf]⟩

theorem Shift.pop {g : FiberID} {l : Label} (hw : Waiting f s) (hg : g ≠ f) (h : s.Pops g s') :
    Shift f s l s' s.due := by
  obtain ⟨⟨x, -, hxg, -, hperm⟩, hcount⟩ := h
  rw [candidates_keys hw.below] at hperm
  refine ⟨?_, fun k hk => ?_, fun k hk hkf => ?_⟩
  · unfold PriorityScheduler.passes due
    rw [hcount]
    split <;> omega
  · obtain ⟨item, hitem, rfl⟩ := List.mem_map.mp
      (hperm.mem_iff.mp (List.mem_cons_of_mem _ hk))
    exact .inl ⟨item.key, List.mem_map.mpr ⟨item, List.mem_of_mem_filter hitem, rfl⟩, rfl⟩
  · obtain ⟨item, hitem, rfl⟩ := List.mem_map.mp hk
    have hmem := hperm.mem_iff.mpr (List.mem_map.mpr ⟨item, mem_unfinished hw.unfinished hitem hkf,
      rfl⟩)
    -- the entry popped is of another fiber
    rcases List.mem_cons.mp hmem with heq | hrest
    · have hfib : f = x.fiber := hkf.symm.trans (congrArg Prod.fst heq)
      exact absurd (hxg.symm.trans hfib.symm) hg
    · exact hrest

theorem Shift.next {r : Except String FiberID} (hw : Waiting f s)
    (hne : ∀ s', s.next ≠ some (s', .ok f)) (h : s.next = some (s', r)) :
    ∃ d, Shift f s .next s' d := by
  cases r with
  | ok g =>
    refine ⟨s.due, .pop hw ?_ (next_pops h)⟩
    rintro rfl
    exact hne s' h
  | error err =>
    obtain ⟨hcount, rfl | ⟨hnone, hempty⟩⟩ := next_error h
    · exact ⟨0, .same rfl rfl⟩
    · refine ⟨0, by simp [PriorityScheduler.passes, hcount], by simp [hempty], fun k hk hkf => ?_⟩
      obtain ⟨item, hitem, rfl⟩ := List.mem_map.mp hk
      have hmem := mem_unfinished hw.unfinished hitem hkf
      rw [hnone] at hmem
      cases hmem

theorem step_shift {l : Label} (hok : WaitStep f s l) (h : s.step l = some s') :
    ∃ d, Shift f s l s' d := by
  cases l with
  | schedule g =>
    obtain ⟨⟨s₁, err⟩, hs, rfl⟩ := Option.map_eq_some_iff.mp h
    exact ⟨0, .schedule hs⟩
  | next =>
    obtain ⟨⟨s₁, r⟩, hs, rfl⟩ := Option.map_eq_some_iff.mp h
    exact Shift.next hok.1 hok.2 hs
  | finish g =>
    cases h
    exact ⟨0, .same rfl rfl⟩
  | setPriority g p =>
    cases h
    exact ⟨0, .same rfl rfl⟩
  | blockFiber | unblockFiber | updatePriority | reheapify | remove | markCompleted | clear |
    start | stop => exact hok.elim

end Step

/-! ## Runs -/

/-- `f` has an entry of at least priority `v`. -/
def HasEntry (f : FiberID) (v : Int) (s : PriorityScheduler) : Prop :=
  ∃ k ∈ s.pqueue.map key, k.1 = f ∧ v ≤ k.2.1

/-- Every entry of `g` has at most priority `v`. -/
def EntriesAtMost (g : FiberID) (v : Int) (s : PriorityScheduler) : Prop :=
  ∀ k ∈ s.pqueue.map key, k.1 = g → k.2.1 ≤ v

/-- While `f` waits, each pass raises its entry. -/
theorem hasEntry_of_reach {f : FiberID} {v : Int} {s₀ s : PriorityScheduler}
    (h : Trans.Reach step (WaitStep f) s₀ s) (hv : HasEntry f v s₀) :
    HasEntry f (v + s.passes - s₀.passes) s := by
  refine Trans.Reach.invariant (P := fun s => HasEntry f (v + s.passes - s₀.passes) s) ?_ ?_ h
  · simpa using hv
  · rintro s l s' ⟨k, hk, hkf, hle⟩ hok hs
    obtain ⟨d, hshift⟩ := step_shift hok hs
    refine ⟨raise d k, hshift.stays k hk hkf, hkf, ?_⟩
    have hpasses := hshift.passes
    simp only [raise]
    omega

/-- A fiber that enters the queue with at most `q` has risen by the passes since then. -/
theorem entriesAtMost_of_reach {f g : FiberID} {q : Int} {s₁ s : PriorityScheduler}
    (h : Trans.Reach step (fun s l => WaitStep f s l ∧ AtMost g q s l) s₁ s)
    (hg : ∀ item ∈ s₁.pqueue, item.fiber ≠ g) :
    s₁.passes ≤ s.passes ∧ EntriesAtMost g (q + s.passes - s₁.passes) s := by
  refine Trans.Reach.invariant
    (P := fun s => s₁.passes ≤ s.passes ∧ EntriesAtMost g (q + s.passes - s₁.passes) s) ?_ ?_ h
  · refine ⟨Nat.le_refl _, fun k hk hkg => ?_⟩
    obtain ⟨item, hitem, rfl⟩ := List.mem_map.mp hk
    exact absurd hkg (hg item hitem)
  · rintro s l s' ⟨hle, hmost⟩ ⟨hok, hq⟩ hs
    obtain ⟨d, hshift⟩ := step_shift hok hs
    have hpasses := hshift.passes
    refine ⟨by omega, fun k hk hkg => ?_⟩
    rcases hshift.origin k hk with ⟨k₀, hk₀, rfl⟩ | ⟨rfl, hprio⟩
    · have hle₀ := hmost k₀ hk₀ hkg
      simp only [raise]
      omega
    · subst hkg
      have hle₁ := hq rfl
      omega

/-- An entry that is strictly ahead keeps `Next` from returning the other fiber. -/
theorem next_ne_of_ahead {f g : FiberID} {v w : Int} {s s' : PriorityScheduler}
    (hw : Waiting f s) (hf : HasEntry f v s) (hg : EntriesAtMost g w s) (hlt : w < v) :
    s.next ≠ some (s', .ok g) := by
  intro hnext
  obtain ⟨⟨x, hx, hxg, hleast, -⟩, -⟩ := next_pops hnext
  have hkeys := candidates_keys hw.below
  -- the candidates that come from the two entries
  obtain ⟨k, hk, hkf, hvk⟩ := hf
  obtain ⟨item, hitem, rfl⟩ := List.mem_map.mp hk
  have hcand : raise s.due item.key ∈ s.candidates.map key := by
    rw [hkeys]
    exact List.mem_map.mpr ⟨item, mem_unfinished hw.unfinished hitem hkf, rfl⟩
  obtain ⟨y, hy, hykey⟩ := List.mem_map.mp hcand
  have hxkey : x.key ∈ s.candidates.map key := List.mem_map.mpr ⟨x, hx, rfl⟩
  rw [hkeys] at hxkey
  obtain ⟨z, hz, hzkey⟩ := List.mem_map.mp hxkey
  have hzg : z.fiber = g := (congrArg Prod.fst hzkey).trans hxg
  have hzle : z.priorityVal ≤ w :=
    hg z.key (List.mem_map.mpr ⟨z, List.mem_of_mem_filter hz, rfl⟩) hzg
  have hyval : y.priorityVal = item.priorityVal + s.due := congrArg (·.2.1) hykey
  have hxval : z.priorityVal + s.due = x.priorityVal := congrArg (·.2.1) hzkey
  have hvi : v ≤ item.priorityVal := hvk
  have hnot := (not_less_iff.mp (hleast y hy)).1
  omega

/-- Aging bounds overtaking. `f` is queued with priority `p` and waits through `q - p + 1` passes
or more; then no fiber `g` that is not queued at that point, and is scheduled from there on with
priorities of at most `q`, is returned by `Next` while `f` still waits. -/
theorem aging_bounds_overtaking {f g : FiberID} {p q : Int} {s₀ s₁ s₂ : PriorityScheduler}
    (hf : ∃ item ∈ s₀.pqueue, item.fiber = f ∧ item.priorityVal = p)
    (hwait : Trans.Reach step (WaitStep f) s₀ s₁)
    (haged : q - p + 1 ≤ (s₁.passes : Int) - s₀.passes)
    (hg : ∀ item ∈ s₁.pqueue, item.fiber ≠ g)
    (hlate : Trans.Reach step (fun s l => WaitStep f s l ∧ AtMost g q s l) s₁ s₂)
    (hstill : Waiting f s₂) (s' : PriorityScheduler) : s₂.next ≠ some (s', .ok g) := by
  obtain ⟨item, hitem, hfib, hprio⟩ := hf
  have hentry : HasEntry f p s₀ := ⟨item.key, List.mem_map.mpr ⟨item, hitem, rfl⟩, hfib, hprio.ge⟩
  have hentry₂ := hasEntry_of_reach (hwait.trans (hlate.mono fun _ _ h => h.1)) hentry
  obtain ⟨hle, hmost⟩ := entriesAtMost_of_reach hlate hg
  exact next_ne_of_ahead hstill hentry₂ hmost (by omega)

instance (f : FiberID) (s : PriorityScheduler) : Decidable (Waiting f s) :=
  decidable_of_iff
    ((s.fibers f).isFinished = false ∧ ∀ item ∈ s.pqueue, item.priorityVal < agingLimit)
    ⟨fun h => ⟨h.1, h.2⟩, fun h => ⟨h.unfinished, h.below⟩⟩

theorem next_ne_iff {f : FiberID} {s : PriorityScheduler} :
    (∀ s', s.next ≠ some (s', .ok f)) ↔ s.next.bind (fun r => r.2.toOption) ≠ some f := by
  cases s.next with
  | none => simp
  | some r =>
    obtain ⟨s', g | g⟩ := r <;> simp [Except.toOption]

instance (f : FiberID) (s : PriorityScheduler) : (l : Label) → Decidable (WaitStep f s l)
  | .schedule _ | .finish _ | .setPriority _ _ => inferInstanceAs (Decidable (Waiting f s))
  | .next => decidable_of_iff (Waiting f s ∧ _) (and_congr_right' next_ne_iff).symm
  | .blockFiber _ | .unblockFiber _ | .updatePriority _ _ | .reheapify _ | .remove _ |
    .markCompleted _ _ | .clear | .start | .stop => .isFalse id

/-- Fiber 1 has priority 0, fiber 2 priority 5, and fiber 3 priority 0 and is the oldest. -/
def threeFibers (f : FiberID) : Fiber :=
  { priority := if f = 2 then 5 else 0
    createdAt := if f = 3 then 0 else f }

/-- Fiber 1 waits while fiber 2 is scheduled and returned a hundred times; fiber 3, which would
have come before it, then does not. -/
theorem aging_bounds_overtaking_one_pass :
    ∃ s₁ s₂, Trans.Reach step (WaitStep 1)
        { new threeFibers with pqueue := [⟨1, 0, 1, 0⟩] } s₁ ∧ s₁.passes = 1 ∧
      s₁.step (.schedule 3) = some s₂ ∧ s₂.pqueue.map PriorityItem.fiber = [1, 3] ∧
      ∀ s', s₂.next ≠ some (s', .ok 3) := by
  obtain ⟨s₁, hs₁, hp⟩ := Trans.exists_reach_of_exec_guarded step (WaitStep 1)
    { new threeFibers with pqueue := [⟨1, 0, 1, 0⟩] }
    (List.flatten (List.replicate 100 [.schedule 2, .next]))
    (fun s => s.passes == 1 && s.pqueue.map PriorityItem.fiber == [1] && decide (Waiting 1 s)
      && decide ((s.fibers 3).priority ≤ 0) && (s.step (.schedule 3)).any fun s₂ =>
        s₂.pqueue.map PriorityItem.fiber == [1, 3] && decide (Waiting 1 s₂)) (by decide +kernel)
  simp only [Bool.and_eq_true, beq_iff_eq, decide_eq_true_eq, Option.any_eq_true] at hp
  obtain ⟨⟨⟨⟨hpasses, hqueue⟩, hwait⟩, hprio⟩, s₂, hs₂, hqueue₂, hwait₂⟩ := hp
  refine ⟨s₁, s₂, hs₁, hpasses, hs₂, hqueue₂, ?_⟩
  refine aging_bounds_overtaking (f := 1) (g := 3) (p := 0) (q := 0) ?_ hs₁ ?_ ?_ ?_ hwait₂
  · exact ⟨_, List.mem_singleton.mpr rfl, rfl, rfl⟩
  · rw [hpasses]
    decide
  · intro item hitem heq
    have hmem := List.mem_map_of_mem (f := PriorityItem.fiber) hitem
    rw [hqueue, heq] at hmem
    exact absurd hmem (by decide)
  · exact .tail (l := .schedule 3) .refl ⟨hwait, fun _ => hprio⟩ hs₂

end GreenThreads.Scheduler.PriorityScheduler
