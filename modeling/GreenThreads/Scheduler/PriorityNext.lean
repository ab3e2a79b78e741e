import GreenThreads.Lib.HeapOrder
import GreenThreads.Scheduler.PriorityIndex

/-!
# GreenThreads — what `PriorityScheduler.Next` returns

`Next` rebuilds the heap twice at most before it pops: `RemoveFinished` calls `heap.Init` and so
does an aging pass. Whatever order the entries were in, the entry popped is then a least one of
the unfinished entries, aged if the pass was due.
-/

namespace GreenThreads.Scheduler

namespace PriorityItem

/-- An entry but for its position, aged. -/
def ageKey (k : FiberID × Int × Int) : FiberID × Int × Int :=
  (k.1, if k.2.1 < agingLimit then k.2.1 + 1 else k.2.1, k.2.2)

theorem key_age (a : PriorityItem) : a.age.key = ageKey a.key := by
  unfold age key ageKey
  split <;> simp_all

/-- `Less` sees the keys alone. -/
theorem less_congr {a a' b b' : PriorityItem} (ha : a.key = a'.key) (hb : b.key = b'.key) :
    less a b = less a' b' := by
  simp only [key, Prod.mk.injEq] at ha hb
  simp only [less, ha, hb]

theorem less_iff {a b : PriorityItem} : less a b = true ↔ b.priorityVal < a.priorityVal ∨
    a.priorityVal = b.priorityVal ∧ a.createdAtVal < b.createdAtVal := by
  unfold less
  split <;> simp <;> omega

theorem not_less_iff {a b : PriorityItem} : less a b = false ↔ a.priorityVal ≤ b.priorityVal ∧
    (a.priorityVal = b.priorityVal → b.createdAtVal ≤ a.createdAtVal) := by
  rw [← Bool.not_eq_true, less_iff]
  omega

end PriorityItem

namespace PriorityScheduler

open SliceHeap PriorityItem

theorem pqOps_lawful : pqOps.Lawful where
  asymm a b h := by
    have hab := less_iff.mp h
    exact not_less_iff.mpr (by omega)
  trans a b c hba hcb := by
    have hba' := not_less_iff.mp hba
    have hcb' := not_less_iff.mp hcb
    exact not_less_iff.mpr (by omega)
  place_left _ _ _ := rfl
  place_right _ _ _ := rfl

/-- The entries `RemoveFinished` keeps. -/
def unfinished (s : PriorityScheduler) : List PriorityItem :=
  s.pqueue.filter fun item => !s.finished item

/-- The entries `Next` chooses from, as they are when it pops. -/
def candidates (s : PriorityScheduler) : List PriorityItem :=
  if (s.popCount + 1) % 100 = 0 then s.unfinished.map age else s.unfinished

variable {s s' : PriorityScheduler}

/-- The pop takes a least entry of a queue in heap order. -/
theorem popNext_least {r : Except String FiberID}
    (hord : OrderedFrom pqOps s.pqueue s.pqueue.length 0) (h : s.popNext = some (s', r)) :
    ∃ x ∈ s.pqueue, r = .ok x.fiber ∧ (∀ y ∈ s.pqueue, less y x = false) ∧
      (x.key :: s'.pqueue.map key).Perm (s.pqueue.map key) ∧ s'.popCount = s.popCount := by
  obtain ⟨⟨pq, x⟩, hp, heq⟩ := Option.map_eq_some_iff.mp h
  cases heq
  have hpos : 0 < s.pqueue.length := by
    by_contra hzero
    have hnil : s.pqueue = [] := List.length_eq_zero_iff.mp (by omega)
    rw [hnil] at hp
    cases hp
  obtain ⟨l, x', hs, hp', hx, hx0⟩ := pop_swaps (o := pqOps) hpos
  cases hp'.symm.trans hp
  have hkey : x.key = s.pqueue[0].key := by
    rw [hx0]
    rfl
  refine ⟨s.pqueue[0], List.getElem_mem hpos, by rw [hx0]; rfl, fun y hy => ?_, ?_, rfl⟩
  · obtain ⟨j, hj, rfl⟩ := List.getElem_of_mem hy
    exact hord.root pqOps_lawful hj _ _ (by simp [hpos]) (by simp [hj])
  · rw [← hkey]
    exact keys_of_cut hs hx

/-- What is left after the compaction is in heap order. -/
theorem removeFinished_ordered {pq : List PriorityItem} (h : s.removeFinished = some pq) :
    OrderedFrom pqOps pq pq.length 0 ∧ (pq.map key).Perm (s.unfinished.map key) := by
  unfold removeFinished at h
  dsimp only at h
  split at h
  · obtain ⟨pq', hp, hs⟩ := init_swaps (o := pqOps) s.unfinished
    cases hp.symm.trans h
    exact ⟨init_ordered pqOps_lawful h, hs.perm pqOps_keeps⟩
  · next hzero =>
    cases h
    refine ⟨fun i j _ _ hj => ?_, .refl _⟩
    omega

theorem ageAllLocked_ordered (h : s.ageAllLocked = some s') :
    OrderedFrom pqOps s'.pqueue s'.pqueue.length 0 ∧
      (s'.pqueue.map key).Perm ((s.pqueue.map age).map key) ∧ s'.popCount = s.popCount := by
  obtain ⟨pq, hp, rfl⟩ := Option.map_eq_some_iff.mp h
  obtain ⟨pq', hp', hs⟩ := init_swaps (o := pqOps) (s.pqueue.map age)
  cases hp'.symm.trans hp
  exact ⟨init_ordered pqOps_lawful hp, hs.perm pqOps_keeps, rfl⟩

/-- What the loop of `ageAllLocked` does to the fibers. -/
def ageFibers (pq : List PriorityItem) (fibers : FiberID → Fiber) : FiberID → Fiber :=
  pq.foldl (fun fibers item =>
    if item.priorityVal < agingLimit then
      Function.update fibers item.fiber ((fibers item.fiber).setPriority (item.priorityVal + 1))
    else fibers) fibers

/-- The last entry of a fiber below the limit sets its priority. Induction from the end of the
queue, where the loop ends. -/
theorem ageFibers_apply (pq : List PriorityItem) (fibers : FiberID → Fiber) (f : FiberID) :
    (∃ item ∈ pq, item.fiber = f ∧ item.priorityVal < agingLimit
        ∧ ageFibers pq fibers f = (fibers f).setPriority (item.priorityVal + 1))
      ∨ (∀ item ∈ pq, item.fiber = f → agingLimit ≤ item.priorityVal)
        ∧ ageFibers pq fibers f = fibers f := by
  induction pq using List.reverseRecOn with
  | nil => exact .inr ⟨nofun, rfl⟩
  | append_singleton pq last ih =>
    have hlast : ageFibers (pq ++ [last]) fibers f
        = if last.priorityVal < agingLimit ∧ last.fiber = f then
            (ageFibers pq fibers f).setPriority (last.priorityVal + 1)
          else ageFibers pq fibers f := by
      unfold ageFibers
      rw [List.foldl_append, List.foldl_cons, List.foldl_nil]
      by_cases hlt : last.priorityVal < agingLimit
      · by_cases hf : last.fiber = f
        · subst hf
          simp [hlt]
        · simp [hlt, hf, Function.update_of_ne (Ne.symm hf)]
      · simp [hlt]
    rw [hlast]
    by_cases hsets : last.priorityVal < agingLimit ∧ last.fiber = f
    · rw [if_pos hsets]
      refine .inl ⟨last, by simp, hsets.2, hsets.1, ?_⟩
      -- whatever an earlier entry has set is overwritten
      rcases ih with ⟨item, -, -, -, heq⟩ | ⟨-, heq⟩
      · rw [heq]
        rfl
      · rw [heq]
    · rw [if_neg hsets]
      rcases ih with ⟨item, hitem, hrest⟩ | ⟨hall, heq⟩
      · exact .inl ⟨item, List.mem_append_left _ hitem, hrest⟩
      · refine .inr ⟨fun item hitem hf => ?_, heq⟩
        rcases List.mem_append.mp hitem with hold | hnew
        · exact hall item hold hf
        · cases List.mem_singleton.mp hnew
          by_contra hlt
          exact hsets ⟨by omega, hf⟩

/-- A least entry of a queue with the same keys is a least one here. -/
theorem least_of_perm {pq pq' : List PriorityItem} (hperm : (pq'.map key).Perm (pq.map key))
    {x : PriorityItem} (hx : x ∈ pq') (hleast : ∀ y ∈ pq', less y x = false) :
    ∃ z ∈ pq, z.key = x.key ∧ ∀ y ∈ pq, less y z = false := by
  obtain ⟨z, hz, hzx⟩ := List.mem_map.mp (hperm.mem_iff.mp (List.mem_map.mpr ⟨x, hx, rfl⟩))
  refine ⟨z, hz, hzx, fun y hy => ?_⟩
  obtain ⟨y', hy', hyy⟩ := List.mem_map.mp (hperm.mem_iff.mpr (List.mem_map.mpr ⟨y, hy, rfl⟩))
  rw [← less_congr hyy hzx.symm]
  exact hleast y' hy'

/-- What a successful `Next` returns, and what it leaves. -/
structure Pops (s : PriorityScheduler) (g : FiberID) (s' : PriorityScheduler) : Prop where
  least : ∃ x ∈ s.candidates, x.fiber = g ∧ (∀ y ∈ s.candidates, less y x = false) ∧
    (x.key :: s'.pqueue.map key).Perm (s.candidates.map key)
  count : s'.popCount = s.popCount + 1

/-- A successful `Next` pops from the compacted queue, aged if a pass is due. -/
theorem next_ok {g : FiberID} (h : s.next = some (s', .ok g)) :
    ∃ pq s₁, s.removeFinished = some pq ∧ s₁.popNext = some (s', .ok g) ∧
      if (s.popCount + 1) % 100 = 0 then
        { s with pqueue := pq, popCount := s.popCount + 1 }.ageAllLocked = some s₁
      else s₁ = { s with pqueue := pq, popCount := s.popCount + 1 } := by
  unfold next at h
  split at h
  · cases h
  · split at h
    · cases h
    · cases h
    · next item pq hr =>
      dsimp only at h
      split at h
      · next hdue =>
        obtain ⟨s₁, hage, hpop⟩ := Option.bind_eq_some_iff.mp h
        exact ⟨item :: pq, s₁, hr, hpop, by rw [if_pos hdue]; exact hage⟩
      · next hdue => exact ⟨item :: pq, _, hr, h, by rw [if_neg hdue]⟩

/-- The pop after the compaction, and after an aging pass where one is due. -/
theorem next_pops {g : FiberID} (h : s.next = some (s', .ok g)) : s.Pops g s' := by
  obtain ⟨pq, s₁, hr, hpop, hs₁⟩ := next_ok h
  obtain ⟨hord, hperm⟩ := removeFinished_ordered hr
  have hready : OrderedFrom pqOps s₁.pqueue s₁.pqueue.length 0 ∧
      (s₁.pqueue.map key).Perm (s.candidates.map key) ∧ s₁.popCount = s.popCount + 1 := by
    unfold candidates
    split at hs₁
    · next hdue =>
      obtain ⟨hord₁, hperm₁, hcount₁⟩ := ageAllLocked_ordered hs₁
      rw [if_pos hdue]
      refine ⟨hord₁, hperm₁.trans ?_, hcount₁⟩
      have haged := hperm.map ageKey
      simpa only [List.map_map, Function.comp_def, key_age] using haged
    · next hdue =>
      subst hs₁
      rw [if_neg hdue]
      exact ⟨hord, hperm, rfl⟩
  obtain ⟨hord₁, hperm₁, hcount₁⟩ := hready
  obtain ⟨x, hx, hg, hleast, hkeys, hcount⟩ := popNext_least hord₁ hpop
  obtain ⟨z, hz, hzx, hzleast⟩ := least_of_perm hperm₁ hx hleast
  cases hg
  refine ⟨⟨z, hz, congrArg Prod.fst hzx, hzleast, ?_⟩, hcount.trans hcount₁⟩
  rw [hzx]
  exact hkeys.trans hperm₁

/-- What a successful `Next` does to the fibers. -/
theorem next_ok_fibers {g : FiberID} (h : s.next = some (s', .ok g)) :
    s'.base.stopped = s.base.stopped ∧ ∃ pq, (pq.map key).Perm (s.unfinished.map key) ∧
      s'.fibers = if (s.popCount + 1) % 100 = 0 then ageFibers pq s.fibers else s.fibers := by
  obtain ⟨pq, s₁, hr, hpop, hs₁⟩ := next_ok h
  have hperm := (removeFinished_ordered hr).2
  obtain ⟨⟨pq', x⟩, -, heq⟩ := Option.map_eq_some_iff.mp hpop
  cases heq
  split at hs₁
  · next hdue =>
    obtain ⟨pq₁, -, rfl⟩ := Option.map_eq_some_iff.mp hs₁
    exact ⟨rfl, pq, hperm, (if_pos hdue).symm⟩
  · next hdue =>
    subst hs₁
    exact ⟨rfl, pq, hperm, (if_neg hdue).symm⟩

/-- Unless the scheduler is stopped, `Next` has one error. -/
theorem next_error_of_running {err : String} (hrun : s.base.stopped = false)
    (h : s.next = some (s', .error err)) :
    err = "no fibers in run queue" ∧ s.unfinished = [] ∧ s' = { s with pqueue := [] } := by
  unfold next at h
  rw [if_neg (by simp [hrun])] at h
  split at h
  · cases h
  · next hr =>
    cases h
    have hperm := (removeFinished_ordered hr).2
    exact ⟨rfl, by simpa using hperm, rfl⟩
  · dsimp only at h
    split at h
    · obtain ⟨s₁, -, hpop⟩ := Option.bind_eq_some_iff.mp h
      obtain ⟨r, -, heq⟩ := Option.map_eq_some_iff.mp hpop
      cases heq
    · obtain ⟨r, -, heq⟩ := Option.map_eq_some_iff.mp h
      cases heq

/-- A `Next` that returns an error has found the scheduler stopped or nothing to run. -/
theorem next_error {err : String} (h : s.next = some (s', .error err)) :
    s'.popCount = s.popCount ∧ (s' = s ∨ s.unfinished = [] ∧ s'.pqueue = []) := by
  cases hrun : s.base.stopped with
  | true =>
    simp only [next, hrun, if_true] at h
    cases h
    exact ⟨rfl, .inl rfl⟩
  | false =>
    obtain ⟨-, hnone, rfl⟩ := next_error_of_running hrun h
    exact ⟨rfl, .inr ⟨hnone, rfl⟩⟩

theorem candidates_eq_nil_iff : s.candidates = [] ↔ s.unfinished = [] := by
  unfold candidates
  split
  · exact List.map_eq_nil_iff
  · rfl

/-- Aging does not change whose the entries are. -/
theorem unfinished_of_mem_candidates {x : PriorityItem} (hx : x ∈ s.candidates) :
    (s.fibers x.fiber).isFinished = false := by
  have hfib : ∃ y ∈ s.unfinished, y.fiber = x.fiber := by
    unfold candidates at hx
    split at hx
    · obtain ⟨y, hy, rfl⟩ := List.mem_map.mp hx
      exact ⟨y, hy, (congrArg Prod.fst (key_age y)).symm⟩
    · exact ⟨x, hx, rfl⟩
  obtain ⟨y, hy, hyx⟩ := hfib
  have hlive := (List.mem_filter.mp hy).2
  rw [← hyx]
  simpa [finished] using hlive

theorem unfinished_eq_nil_iff :
    s.unfinished = [] ↔ ∀ item ∈ s.pqueue, (s.fibers item.fiber).isFinished = true := by
  simp [unfinished, finished, List.filter_eq_nil_iff]

/-- `Next` extracts a maximum, whatever is in the queue: it fails exactly when no queued fiber is
unfinished, and then the queue is empty; otherwise it returns an unfinished fiber that no other
one is ahead of, in priority or in age at the same priority, once the pass that is due has been
made, and leaves the others. -/
theorem next_extracts_max (s : PriorityScheduler) (hrun : s.base.stopped = false) :
    ∃ s' r, s.next = some (s', r)
      ∧ (r = .error "no fibers in run queue"
        ↔ ∀ item ∈ s.pqueue, (s.fibers item.fiber).isFinished = true)
      ∧ ((∀ item ∈ s.pqueue, (s.fibers item.fiber).isFinished = true) → s'.pqueue = [])
      ∧ ((∃ item ∈ s.pqueue, (s.fibers item.fiber).isFinished = false) →
        ∃ x ∈ s.candidates, r = .ok x.fiber ∧ (s.fibers x.fiber).isFinished = false
          ∧ (∀ y ∈ s.candidates, y.priorityVal ≤ x.priorityVal
            ∧ (y.priorityVal = x.priorityVal → x.createdAtVal ≤ y.createdAtVal))
          ∧ (x.key :: s'.pqueue.map key).Perm (s.candidates.map key)) := by
  obtain ⟨s', r, h, -⟩ := s.next_spec
  refine ⟨s', r, h, ?_⟩
  rw [← unfinished_eq_nil_iff]
  cases r with
  | ok g =>
    obtain ⟨⟨x, hx, rfl, hleast, hperm⟩, -⟩ := next_pops h
    have hsome : s.unfinished ≠ [] := fun hnil =>
      List.ne_nil_of_mem hx (candidates_eq_nil_iff.mpr hnil)
    refine ⟨⟨nofun, fun hnil => absurd hnil hsome⟩, fun hnil => absurd hnil hsome, fun _ => ?_⟩
    exact ⟨x, hx, rfl, unfinished_of_mem_candidates hx,
      fun y hy => not_less_iff.mp (hleast y hy), hperm⟩
  | error err =>
    obtain ⟨rfl, hnone, rfl⟩ := next_error_of_running hrun h
    refine ⟨⟨fun _ => hnone, fun _ => rfl⟩, fun _ => rfl, fun ⟨item, hitem, hlive⟩ => ?_⟩
    have hfin := unfinished_eq_nil_iff.mp hnone item hitem
    rw [hlive] at hfin
    cases hfin

/-- The hundredth `Next` finds three entries in no heap order, of which the first is finished: the
pass raises the other two, and the older of them, now both at 6, is returned. -/
theorem next_extracts_max_hundredth :
    let s : PriorityScheduler := {
      new fun f => { state := if f = 1 then .finished else .ready } with
      pqueue := [⟨1, 9, 0, 0⟩, ⟨2, 5, 8, 1⟩, ⟨3, 5, 7, 2⟩], popCount := 99 }
    ∃ s', s.next = some (s', .ok 3) ∧ s'.pqueue.map key = [(2, 6, 8)]
      ∧ ∀ y ∈ s.candidates, y.priorityVal ≤ 6 ∧ (y.priorityVal = 6 → 7 ≤ y.createdAtVal) := by
  intro s
  obtain ⟨s', r, h, -, -, hmax⟩ := next_extracts_max s rfl
  obtain ⟨x, hx, hr, -, hleast, hperm⟩ := hmax ⟨⟨2, 5, 8, 1⟩, by decide, rfl⟩
  have hcand : s.candidates = [⟨2, 6, 8, 1⟩, ⟨3, 6, 7, 2⟩] := by decide
  rw [hcand] at hx hleast hperm ⊢
  have hx3 : x = ⟨3, 6, 7, 2⟩ := by
    rcases List.mem_pair.mp hx with rfl | rfl
    · exact absurd (hleast ⟨3, 6, 7, 2⟩ (by decide)) (by decide)
    · rfl
  subst hx3
  refine ⟨s', by rw [h, hr], ?_, hleast⟩
  have hrest : (s'.pqueue.map key).Perm [(2, 6, 8)] :=
    (hperm.trans (List.Perm.swap _ _ _)).cons_inv
  exact List.perm_singleton.mp hrest

end PriorityScheduler

end GreenThreads.Scheduler
