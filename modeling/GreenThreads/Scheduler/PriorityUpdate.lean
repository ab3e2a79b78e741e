import GreenThreads.Scheduler.PriorityAging

/-!
# GreenThreads — a priority set on the fiber and not in the queue

`SetPriority` changes the fiber; the queue sees it when `Reheapify` copies the priority into the
entry. Aging goes the other way: it raises the entry and copies that into the fiber. A pass between
the two calls therefore puts back what the entry had cached, plus one.

`setPriority_reheapify` says when the change survives: the passes in between find the entry no
more than one below it.
-/

namespace GreenThreads.Scheduler.PriorityScheduler

open PriorityItem SliceHeap

variable {s s' : PriorityScheduler}

/-- The operations that are not about `f`. -/
def Spares (f : FiberID) : Label → Prop
  | .schedule g | .blockFiber g | .unblockFiber g | .updatePriority g _ | .reheapify g
  | .remove g | .markCompleted g _ | .setPriority g _ => g ≠ f
  | .next | .clear | .start | .stop | .finish _ => True

/-- An aging pass writes at least `p` to `f`: it finds every entry of `f` that it raises at
`p - 1` or more. A stopped scheduler makes no pass. -/
def AgesTo (f : FiberID) (p : Int) (s : PriorityScheduler) : Label → Prop
  | .next => s.base.stopped = false → (s.popCount + 1) % 100 = 0 → ∀ item ∈ s.unfinished,
      item.fiber = f → item.priorityVal < agingLimit → p ≤ item.priorityVal + 1
  | _ => True

/-- The condition on the steps between `SetPriority` and `Reheapify`. -/
def KeepsSet (f : FiberID) (p : Int) (s : PriorityScheduler) (l : Label) : Prop :=
  Spares f l ∧ AgesTo f p s l

instance (f : FiberID) : (l : Label) → Decidable (Spares f l)
  | .schedule g | .blockFiber g | .unblockFiber g | .updatePriority g _ | .reheapify g
  | .remove g | .markCompleted g _ | .setPriority g _ => inferInstanceAs (Decidable (g ≠ f))
  | .next | .clear | .start | .stop | .finish _ => .isTrue trivial

instance (f : FiberID) (p : Int) (s : PriorityScheduler) : (l : Label) → Decidable (AgesTo f p s l)
  | .next => inferInstanceAs (Decidable (_ → _ → ∀ item ∈ s.unfinished, _ → _ → _))
  | .schedule _ | .blockFiber _ | .unblockFiber _ | .updatePriority _ _ | .reheapify _
  | .remove _ | .markCompleted _ _ | .setPriority _ _ | .clear | .start | .stop
  | .finish _ => .isTrue trivial

instance (f : FiberID) (p : Int) (s : PriorityScheduler) (l : Label) :
    Decidable (KeepsSet f p s l) :=
  inferInstanceAs (Decidable (_ ∧ _))

/-! ## One operation -/

theorem pushFiber_fibers {f : FiberID} (h : s.pushFiber f = some s') : s'.fibers = s.fibers := by
  obtain ⟨pq, -, rfl⟩ := Option.map_eq_some_iff.mp h
  rfl

theorem removeAt_fibers {i : Nat} (h : s.removeAt i = some s') : s'.fibers = s.fibers := by
  obtain ⟨r, -, rfl⟩ := Option.map_eq_some_iff.mp h
  rfl

theorem fixAt_fibers {i : Nat} (h : s.fixAt i = some s') : s'.fibers = s.fibers := by
  obtain ⟨pq, -, rfl⟩ := Option.map_eq_some_iff.mp h
  rfl

theorem schedule_fibers {f : FiberID} {err : Option String}
    (h : s.schedule f = some (s', err)) : s'.fibers = s.fibers := by
  unfold schedule at h
  split at h
  · cases h
    rfl
  · obtain ⟨s₁, hpush, heq⟩ := Option.map_eq_some_iff.mp h
    cases heq
    rw [← pushFiber_fibers hpush]

theorem blockFiber_fibers {f : FiberID} (h : s.blockFiber f = some s') :
    s'.fibers = s.fibers := by
  obtain ⟨s₁, hremoved, rfl⟩ := Option.map_eq_some_iff.mp h
  dsimp only
  split at hremoved
  · exact removeAt_fibers hremoved
  · cases hremoved
    rfl

theorem reheapify_fibers {f : FiberID} {found : Bool} (h : s.reheapify f = some (s', found)) :
    s'.fibers = s.fibers := by
  rcases reheapify_cases h with ⟨-, rfl⟩ | ⟨-, i, item, -, -, hfix⟩
  · rfl
  · rw [fixAt_fibers hfix, setVal]

theorem remove_fibers {f : FiberID} {err : Option String} (h : s.remove f = some (s', err)) :
    s'.fibers = s.fibers := by
  rcases remove_cases h with rfl | ⟨i, -, hr⟩
  · rfl
  · exact removeAt_fibers hr

theorem markCompleted_fibers {f : FiberID} {drop : Finset FiberID}
    (h : s.markCompleted f drop = some s') : s'.fibers = s.fibers := by
  rcases markCompleted_cases h with rfl | rfl | ⟨i, -, hr⟩
  · rfl
  · rfl
  · rw [removeAt_fibers hr]

/-- `UnblockFiber` writes the state of its own fiber. -/
theorem unblockFiber_fibers_of_ne {f g : FiberID} {err : Option String}
    (h : s.unblockFiber g = some (s', err)) (hg : g ≠ f) : s'.fibers f = s.fibers f := by
  unfold unblockFiber at h
  split at h
  · obtain ⟨s₁, hpush, heq⟩ := Option.map_eq_some_iff.mp h
    cases heq
    rw [pushFiber_fibers hpush]
    exact Function.update_of_ne hg.symm _ _
  · cases h
    rfl

/-- `UpdatePriority` writes the priority of its own fiber. -/
theorem updatePriority_fibers_of_ne {f g : FiberID} {p : Int} {err : Option String}
    (h : s.updatePriority g p = some (s', err)) (hg : g ≠ f) : s'.fibers f = s.fibers f := by
  rcases updatePriority_cases h with rfl | ⟨i, item, -, -, hfix⟩
  · rfl
  · rw [fixAt_fibers hfix]
    exact Function.update_of_ne hg.symm _ _

/-- A pass writes at least `p` to the fiber, or nothing. -/
theorem next_priority {f : FiberID} {p : Int} {r : Except String FiberID}
    (hage : AgesTo f p s .next) (hp : p ≤ (s.fibers f).priority) (h : s.next = some (s', r)) :
    p ≤ (s'.fibers f).priority := by
  cases r with
  | error err =>
    have hsame : s'.fibers = s.fibers := by
      cases hrun : s.base.stopped with
      | true =>
        simp only [next, hrun, if_true] at h
        cases h
        rfl
      | false =>
        obtain ⟨-, -, rfl⟩ := next_error_of_running hrun h
        rfl
    rwa [hsame]
  | ok g =>
    have hrun : s.base.stopped = false := by
      cases hstopped : s.base.stopped with
      | false => rfl
      | true => simp [next, hstopped] at h
    obtain ⟨-, pq, hpq, hfibers⟩ := next_ok_fibers h
    rw [hfibers]
    split
    · next hdue =>
      rcases ageFibers_apply pq s.fibers f with ⟨item, hitem, hfib, hlt, heq⟩ | ⟨-, heq⟩
      · obtain ⟨item₀, hitem₀, hkey⟩ := List.mem_map.mp (hpq.mem_iff.mp (List.mem_map_of_mem hitem))
        simp only [key, Prod.mk.injEq] at hkey
        have hle := hage hrun hdue item₀ hitem₀ (hkey.1.trans hfib) (by omega)
        rw [heq]
        change p ≤ item.priorityVal + 1
        omega
      · rwa [heq]
    · exact hp

/-- No other operation on other fibers changes the priority of `f`. -/
theorem step_priority {f : FiberID} {p : Int} {l : Label} (hok : KeepsSet f p s l)
    (hp : p ≤ (s.fibers f).priority) (h : s.step l = some s') : p ≤ (s'.fibers f).priority := by
  obtain ⟨hspares, hage⟩ := hok
  cases l with
  | next =>
    obtain ⟨⟨s₁, r⟩, hs₁, rfl⟩ := Option.map_eq_some_iff.mp h
    exact next_priority hage hp hs₁
  | schedule g =>
    obtain ⟨⟨s₁, err⟩, hs₁, rfl⟩ := Option.map_eq_some_iff.mp h
    rwa [schedule_fibers hs₁]
  | blockFiber g => rwa [blockFiber_fibers h]
  | unblockFiber g =>
    obtain ⟨⟨s₁, err⟩, hs₁, rfl⟩ := Option.map_eq_some_iff.mp h
    rwa [unblockFiber_fibers_of_ne hs₁ hspares]
  | updatePriority g q =>
    obtain ⟨⟨s₁, err⟩, hs₁, rfl⟩ := Option.map_eq_some_iff.mp h
    rwa [updatePriority_fibers_of_ne hs₁ hspares]
  | reheapify g =>
    obtain ⟨⟨s₁, found⟩, hs₁, rfl⟩ := Option.map_eq_some_iff.mp h
    rwa [reheapify_fibers hs₁]
  | remove g =>
    obtain ⟨⟨s₁, err⟩, hs₁, rfl⟩ := Option.map_eq_some_iff.mp h
    rwa [remove_fibers hs₁]
  | markCompleted g drop =>
    simp only [step] at h
    split at h
    · rwa [markCompleted_fibers h]
    · cases h
  | finish g =>
    cases h
    by_cases hg : f = g
    · subst hg
      simpa [Fiber.runEnd] using hp
    · change p ≤ (Function.update s.fibers g _ f).priority
      rwa [Function.update_of_ne hg]
  | setPriority g q =>
    cases h
    change p ≤ (Function.update s.fibers g _ f).priority
    rwa [Function.update_of_ne (Ne.symm hspares)]
  | clear | start | stop =>
    cases h
    exact hp

/-! ## `Reheapify` -/

/-- What `Reheapify` writes: the fiber's priority into one of its entries. -/
theorem reheapify_true {f : FiberID} (h : s.reheapify f = some (s', true)) :
    ∃ i, s.find f = some i ∧ (s'.pqueue.map key).Perm
      ((s.setVal i (s.fibers f).priority).pqueue.map key) := by
  rcases reheapify_cases h with ⟨hfalse, -⟩ | ⟨-, i, item, hi, -, hfix⟩
  · cases hfalse
  · obtain ⟨pq, hpq, rfl⟩ := Option.map_eq_some_iff.mp hfix
    exact ⟨i, hi, (swaps_of_fix hpq).perm pqOps_keeps⟩

/-- Two entries of a fiber that is queued once are the same. -/
theorem eq_of_count_one {f : FiberID} {pq : List PriorityItem} {a b : PriorityItem}
    (hone : (pq.map PriorityItem.fiber).count f = 1) (ha : a ∈ pq) (hb : b ∈ pq)
    (haf : a.fiber = f) (hbf : b.fiber = f) : a = b := by
  have hlen : (pq.filter fun item => item.fiber == f).length = 1 := by
    rw [List.count, List.countP_map, List.countP_eq_length_filter] at hone
    exact hone
  obtain ⟨c, hc⟩ := List.length_eq_one_iff.mp hlen
  have hall : ∀ x ∈ pq, x.fiber = f → x = c := by
    intro x hx hxf
    have hmem : x ∈ pq.filter fun item => item.fiber == f :=
      List.mem_filter.mpr ⟨hx, by simp [hxf]⟩
    rw [hc] at hmem
    exact List.mem_singleton.mp hmem
  rw [hall a ha haf, hall b hb hbf]

/-- A priority set directly is not lost. After `f.SetPriority(p)` and any operations on other
fibers, with passes that find the entries of `f` at `p - 1` or more, or at the limit of aging, a
`Reheapify` that finds `f` leaves it an entry of at least priority `p`; if `f` is queued once, that
is its entry. -/
theorem setPriority_reheapify {f : FiberID} {p : Int} {s₀ : PriorityScheduler}
    (h : Trans.Reach step (KeepsSet f p) (s₀.setPriority f p) s)
    (hre : s.reheapify f = some (s', true)) :
    (∃ item ∈ s'.pqueue, item.fiber = f ∧ p ≤ item.priorityVal) ∧
      ((s'.pqueue.map PriorityItem.fiber).count f = 1 →
        ∀ item ∈ s'.pqueue, item.fiber = f → p ≤ item.priorityVal) := by
  have hprio : p ≤ (s.fibers f).priority := by
    refine Trans.Reach.invariant (P := fun s => p ≤ (s.fibers f).priority) ?_ ?_ h
    · simp [setPriority, Fiber.setPriority]
    · exact fun s l s' hp hok hs => step_priority hok hp hs
  obtain ⟨i, hi, hperm⟩ := reheapify_true hre
  obtain ⟨hlt, hfib⟩ := find_spec hi
  have hentry : ∃ item ∈ s'.pqueue, item.fiber = f ∧ p ≤ item.priorityVal := by
    have hmem : (f, (s.fibers f).priority, (s.pqueue[i]).createdAtVal) ∈ s'.pqueue.map key := by
      refine hperm.mem_iff.mpr (List.mem_map.mpr ⟨_, List.mem_of_getElem? (i := i)
        (by rw [setVal, List.getElem?_modify_eq, List.getElem?_eq_getElem hlt]; rfl), ?_⟩)
      simp [key, hfib]
    obtain ⟨item, hitem, hkey⟩ := List.mem_map.mp hmem
    simp only [key, Prod.mk.injEq] at hkey
    exact ⟨item, hitem, hkey.1, by omega⟩
  refine ⟨hentry, fun hone item hitem hf => ?_⟩
  obtain ⟨item', hitem', hf', hle⟩ := hentry
  rwa [eq_of_count_one hone hitem hitem' hf hf']

/-- Fiber 1 waits at priority 0 while fiber 2 is scheduled and returned 99 times. -/
def beforePass : List Label :=
  .schedule 1 :: List.flatten (List.replicate 99 [.schedule 2, .next])

/-- The hundredth `Next` makes a pass: fiber 1 is set to 10, the pass puts it back to 1, and that
is what `Reheapify` copies. -/
theorem setPriority_lost :
    ∃ s₀ s s', Trans.Reach step Trans.anyStep (new threeFibers) s₀
      ∧ s₀.pqueue.map key = [(1, 0, 1)]
      ∧ Trans.Reach step (fun _ l => Spares 1 l) (s₀.setPriority 1 10) s
      ∧ s.reheapify 1 = some (s', true) ∧ s'.pqueue.map key = [(1, 1, 1)] := by
  obtain ⟨s₀, hs₀, hp⟩ := Trans.exists_reach_of_exec step (new threeFibers) beforePass
    (fun s₀ => s₀.pqueue.map key == [(1, 0, 1)]
      && (Trans.exec (Trans.guarded step fun _ l => Spares 1 l) (s₀.setPriority 1 10)
        [.schedule 2, .next]).any fun s => (s.reheapify 1).any fun r =>
          r.2 && r.1.pqueue.map key == [(1, 1, 1)]) (by decide +kernel)
  simp only [Bool.and_eq_true, beq_iff_eq, Option.any_eq_true] at hp
  obtain ⟨hqueue, s, hs, ⟨s', r⟩, hre, rfl, hkeys⟩ := hp
  exact ⟨s₀, s, s', hs₀, hqueue, .of_exec_guarded hs, hre, hkeys⟩

/-- Set to 1 instead, it is what the pass writes too. -/
theorem setPriority_reheapify_one :
    ∃ s₀ s s', Trans.Reach step Trans.anyStep (new threeFibers) s₀
      ∧ Trans.Reach step (KeepsSet 1 1) (s₀.setPriority 1 1) s ∧ s.passes = s₀.passes + 1
      ∧ s.reheapify 1 = some (s', true)
      ∧ ∃ item ∈ s'.pqueue, item.fiber = 1 ∧ 1 ≤ item.priorityVal := by
  obtain ⟨s₀, hs₀, hp⟩ := Trans.exists_reach_of_exec step (new threeFibers) beforePass
    (fun s₀ => (Trans.exec (Trans.guarded step (KeepsSet 1 1)) (s₀.setPriority 1 1)
        [.schedule 2, .next]).any fun s => s.passes == s₀.passes + 1
          && (s.reheapify 1).any fun r => r.2) (by decide +kernel)
  simp only [Bool.and_eq_true, beq_iff_eq, Option.any_eq_true] at hp
  obtain ⟨s, hs, hpasses, ⟨s', r⟩, hre, rfl⟩ := hp
  have hrun := Trans.Reach.of_exec_guarded hs
  exact ⟨s₀, s, s', hs₀, hrun, hpasses, hre, (setPriority_reheapify hrun hre).1⟩

end GreenThreads.Scheduler.PriorityScheduler
