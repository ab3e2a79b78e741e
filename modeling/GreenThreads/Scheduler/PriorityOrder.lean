import GreenThreads.Scheduler.PriorityAging

/-!
# GreenThreads — the order in which `PriorityScheduler` dispatches

* `Drains` — calls of `Next` with nothing in between, until one finds nothing to run;
* `exists_drains` — a drain returns the queue sorted by cached priority and creation time, also
  when aging passes fall into it, as long as a pass raises all entries alike;
* `getRunQueue_is_dispatch_order` — `GetRunQueue` sorts by the fibers' own fields. These are what
  the queue has cached (`Mirrored`), so both are the same order where there is only one.
-/

namespace GreenThreads.Scheduler

namespace PriorityItem

/-- `Less` on what it reads of two entries. -/
def keyLess (a b : FiberID × Int × Int) : Bool :=
  if a.2.1 = b.2.1 then a.2.2 < b.2.2 else a.2.1 > b.2.1

theorem not_keyLess_iff {a b : FiberID × Int × Int} : keyLess a b = false ↔ a.2.1 ≤ b.2.1 ∧
    (a.2.1 = b.2.1 → b.2.2 ≤ a.2.2) :=
  not_less_iff (a := ⟨a.1, a.2.1, a.2.2, 0⟩) (b := ⟨b.1, b.2.1, b.2.2, 0⟩)

end PriorityItem

namespace PriorityScheduler

open PriorityItem SliceHeap

/-! ## Draining -/

/-- Calls of `Next` until one finds nothing to run: the fibers they return, in order, and the
scheduler afterwards. -/
inductive Drains : PriorityScheduler → List FiberID → PriorityScheduler → Prop where
  | empty {s s' : PriorityScheduler} (h : s.next = some (s', .error "no fibers in run queue")) :
      Drains s [] s'
  | next {s s₁ s' : PriorityScheduler} {f : FiberID} {fs : List FiberID}
      (h : s.next = some (s₁, .ok f)) (rest : Drains s₁ fs s') : Drains s (f :: fs) s'

variable {s s' : PriorityScheduler}

/-- There is one drain. -/
theorem Drains.unique {s₁ s₂ : PriorityScheduler} {fs gs : List FiberID} (h : s.Drains fs s₁)
    (h' : s.Drains gs s₂) : fs = gs := by
  induction h generalizing gs with
  | empty hn =>
    cases h' with
    | empty _ => rfl
    | next hn' _ => cases hn.symm.trans hn'
  | next hn _ ih =>
    cases h' with
    | empty hn' => cases hn.symm.trans hn'
    | next hn' hrest' =>
      cases hn.symm.trans hn'
      rw [ih hrest']

/-- At most `n` calls of `Next`, with what they return if the last of them finds nothing to
run. -/
def drain : Nat → PriorityScheduler → Option (List FiberID)
  | 0, _ => none
  | n + 1, s => s.next.bind fun (s', r) =>
    match r with
    | .ok f => (drain n s').map (f :: ·)
    | .error err => if err = "no fibers in run queue" then some [] else none

theorem drains_of_drain {n : Nat} {fs : List FiberID} (h : drain n s = some fs) :
    ∃ s', s.Drains fs s' := by
  induction n generalizing s fs with
  | zero => cases h
  | succ n ih =>
    obtain ⟨⟨s₁, r⟩, hnext, hr⟩ := Option.bind_eq_some_iff.mp h
    cases r with
    | ok f =>
      obtain ⟨fs', hrest, rfl⟩ := Option.map_eq_some_iff.mp hr
      obtain ⟨s', hs'⟩ := ih hrest
      exact ⟨s', .next hnext hs'⟩
    | error err =>
      dsimp only at hr
      split at hr
      · next herr =>
        cases hr
        exact ⟨s₁, .empty (by rw [hnext, herr])⟩
      · cases hr

/-- A pass raises all entries alike: they are far enough from the limit, or all at one
priority. -/
def Level (ks : List (FiberID × Int × Int)) : Prop :=
  (∀ k ∈ ks, k.2.1 < agingLimit - ks.length) ∨ ∃ p, ∀ k ∈ ks, k.2.1 = p

theorem Level.perm {ks ks' : List (FiberID × Int × Int)} (h : Level ks) (hperm : ks'.Perm ks) :
    Level ks' := by
  rcases h with hbelow | ⟨p, hp⟩
  · refine .inl fun k hk => ?_
    rw [hperm.length_eq]
    exact hbelow k (hperm.mem_iff.mp hk)
  · exact .inr ⟨p, fun k hk => hp k (hperm.mem_iff.mp hk)⟩

/-- One entry less, and the others raised by a pass. -/
theorem Level.tail {k : FiberID × Int × Int} {ks : List (FiberID × Int × Int)} {d : Nat}
    (h : Level (k :: ks)) (hd : d ≤ 1) : Level (ks.map (raise d)) := by
  rcases h with hbelow | ⟨p, hp⟩
  · refine .inl fun k' hk' => ?_
    obtain ⟨k₀, hk₀, rfl⟩ := List.mem_map.mp hk'
    have hlt := hbelow k₀ (List.mem_cons_of_mem _ hk₀)
    simp only [List.length_map, List.length_cons, raise] at hlt ⊢
    omega
  · refine .inr ⟨p + d, fun k' hk' => ?_⟩
    obtain ⟨k₀, hk₀, rfl⟩ := List.mem_map.mp hk'
    simp only [raise, hp k₀ (List.mem_cons_of_mem _ hk₀)]

/-- The inverse of `raise`. -/
def lower (d : Nat) (k : FiberID × Int × Int) : FiberID × Int × Int := (k.1, k.2.1 - d, k.2.2)

theorem map_lower_raise (d : Nat) (ks : List (FiberID × Int × Int)) :
    (ks.map (raise d)).map (lower d) = ks := by
  rw [List.map_map]
  exact (List.map_congr_left fun k _ => by simp [raise, lower]).trans (List.map_id ks)

theorem map_raise_lower (d : Nat) (ks : List (FiberID × Int × Int)) :
    (ks.map (lower d)).map (raise d) = ks := by
  rw [List.map_map]
  exact (List.map_congr_left fun k _ => by simp [raise, lower]).trans (List.map_id ks)

theorem not_keyLess_lower {d : Nat} {a b : FiberID × Int × Int} :
    keyLess (lower d a) (lower d b) = false ↔ keyLess a b = false := by
  simp only [not_keyLess_iff, lower]
  omega

/-- With nothing finished in the queue, all of it is a candidate. -/
theorem unfinished_eq (hlive : ∀ item ∈ s.pqueue, (s.fibers item.fiber).isFinished = false) :
    s.unfinished = s.pqueue :=
  List.filter_eq_self.mpr fun item hitem => by simp [finished, hlive item hitem]

/-- Entries that are all at one priority are all aged or all left. -/
theorem map_age_of_level {pq : List PriorityItem} {p : Int}
    (hp : ∀ item ∈ pq, item.priorityVal = p) :
    pq.map age = pq.map fun item => { item with
      priorityVal := if p < agingLimit then p + 1 else p } := by
  refine List.map_congr_left fun item hitem => ?_
  have hval := hp item hitem
  unfold age
  split
  · next hlt => rw [if_pos (by omega), hval]
  · next hlt => rw [if_neg (by omega), ← hval]

theorem candidates_level (hlive : ∀ item ∈ s.pqueue, (s.fibers item.fiber).isFinished = false)
    (hlevel : Level (s.pqueue.map key)) :
    ∃ d ≤ 1, s.candidates.map key = (s.pqueue.map key).map (raise d) := by
  have hdue : s.due ≤ 1 := by
    unfold due
    split <;> omega
  by_cases hbelow : ∀ item ∈ s.pqueue, item.priorityVal < agingLimit
  · refine ⟨s.due, hdue, ?_⟩
    rw [candidates_keys hbelow, unfinished_eq hlive, List.map_map]
    rfl
  · -- one entry is at the limit, so all are at one priority, which no pass raises
    rcases hlevel with hlow | ⟨p, hp⟩
    · refine absurd (fun item hitem => ?_) hbelow
      have hlt : item.priorityVal < agingLimit - (s.pqueue.map key).length :=
        hlow item.key (List.mem_map_of_mem hitem)
      omega
    · have hval : ∀ item ∈ s.pqueue, item.priorityVal = p := fun item hitem =>
        hp item.key (List.mem_map_of_mem hitem)
      have hlimit : ¬ p < agingLimit := fun hlt =>
        hbelow fun item hitem => by rw [hval item hitem]; exact hlt
      refine ⟨0, Nat.zero_le 1, ?_⟩
      unfold candidates
      rw [unfinished_eq hlive, map_age_of_level hval, if_neg hlimit]
      have hzero : (s.pqueue.map key).map (raise 0) = s.pqueue.map key :=
        (List.map_congr_left fun k _ => raise_zero k).trans (List.map_id _)
      rw [hzero]
      split
      · rw [List.map_map]
        refine List.map_congr_left fun item hitem => ?_
        simp only [Function.comp_def, key, hval item hitem]
      · rfl

/-- Aging finishes no fiber. -/
theorem isFinished_ageFibers (pq : List PriorityItem) (fibers : FiberID → Fiber) (f : FiberID) :
    (ageFibers pq fibers f).isFinished = (fibers f).isFinished := by
  rcases ageFibers_apply pq fibers f with ⟨item, -, -, -, heq⟩ | ⟨-, heq⟩ <;> rw [heq]
  rfl

theorem next_isFinished {g : FiberID} (h : s.next = some (s', .ok g)) (f : FiberID) :
    (s'.fibers f).isFinished = (s.fibers f).isFinished := by
  obtain ⟨-, pq, -, heq⟩ := next_ok_fibers h
  rw [heq]
  split
  · exact isFinished_ageFibers pq s.fibers f
  · rfl

/-- A drain returns the entries sorted. Induction on the length of the queue: the first `Next`
returns a least entry and raises all others alike, which the order does not see. -/
theorem exists_drains (hrun : s.base.stopped = false)
    (hlive : ∀ item ∈ s.pqueue, (s.fibers item.fiber).isFinished = false)
    (hlevel : Level (s.pqueue.map key)) :
    ∃ (ks : List (FiberID × Int × Int)) (s' : PriorityScheduler),
      s.Drains (ks.map Prod.fst) s' ∧ s'.pqueue = [] ∧ ks.Perm (s.pqueue.map key) ∧
      ks.Pairwise fun a b => keyLess b a = false := by
  induction hn : s.pqueue.length using Nat.strongRecOn generalizing s with
  | ind n ih =>
    obtain ⟨s₁, r, hnext, -⟩ := s.next_spec
    cases r with
    | error err =>
      obtain ⟨rfl, hnone, rfl⟩ := next_error_of_running hrun hnext
      rw [unfinished_eq hlive] at hnone
      exact ⟨[], _, .empty hnext, rfl, by simp [hnone], .nil⟩
    | ok g =>
      obtain ⟨⟨x, hx, rfl, hleast, hperm⟩, -⟩ := next_pops hnext
      obtain ⟨d, hd, hcand⟩ := candidates_level hlive hlevel
      have hraised := hperm
      rw [hcand] at hraised
      have hlow : (lower d x.key :: (s₁.pqueue.map key).map (lower d)).Perm (s.pqueue.map key) := by
        have hmap := hraised.map (lower d)
        rwa [map_lower_raise, List.map_cons] at hmap
      have hkeys : ∀ k ∈ s₁.pqueue.map key, ∃ item ∈ s.pqueue, raise d item.key = k := by
        intro k hk
        obtain ⟨k₀, hk₀, rfl⟩ := List.mem_map.mp (hraised.mem_iff.mp (List.mem_cons_of_mem _ hk))
        obtain ⟨item, hitem, rfl⟩ := List.mem_map.mp hk₀
        exact ⟨item, hitem, rfl⟩
      have hlive₁ : ∀ item ∈ s₁.pqueue, (s₁.fibers item.fiber).isFinished = false := by
        intro item hitem
        obtain ⟨item₀, hitem₀, hkey⟩ := hkeys item.key (List.mem_map_of_mem hitem)
        have hfib : item₀.fiber = item.fiber := congrArg Prod.fst hkey
        rw [next_isFinished hnext, ← hfib]
        exact hlive item₀ hitem₀
      have hlevel₁ : Level (s₁.pqueue.map key) := by
        have htail := (hlevel.perm hlow).tail (d := d) hd
        rwa [map_raise_lower] at htail
      have hlen : s₁.pqueue.length < n := by
        have := hlow.length_eq
        simp only [List.length_cons, List.length_map] at this
        omega
      obtain ⟨ks, s', hdrain, hempty, hks, hsorted⟩ :=
        ih _ hlen ((next_ok_fibers hnext).1.trans hrun) hlive₁ hlevel₁ rfl
      refine ⟨lower d x.key :: ks.map (lower d), s', ?_, hempty,
        ((hks.map (lower d)).cons _).trans hlow, List.pairwise_cons.mpr ⟨fun k hk => ?_, ?_⟩⟩
      · have hfst : (ks.map (lower d)).map Prod.fst = ks.map Prod.fst := by
          rw [List.map_map]
          rfl
        rw [List.map_cons, hfst]
        exact .next hnext hdrain
      · obtain ⟨k', hk', rfl⟩ := List.mem_map.mp hk
        have hmem := hperm.mem_iff.mp (List.mem_cons_of_mem _ (hks.mem_iff.mp hk'))
        obtain ⟨y, hy, rfl⟩ := List.mem_map.mp hmem
        exact not_keyLess_lower.mpr (hleast y hy)
      · exact List.pairwise_map.mpr (hsorted.imp fun h => not_keyLess_lower.mpr h)

/-! ## `GetRunQueue` -/

/-- The comparison `GetAll` sorts with. -/
def cloneLess (a b : FiberID × Fiber) : Bool :=
  if a.2.priority = b.2.priority then a.2.createdAt < b.2.createdAt
  else a.2.priority > b.2.priority

/-- `GetRunQueue`: clones of the queued fibers in the order of `sort.SliceStable`. -/
def getRunQueue (s : PriorityScheduler) : List (FiberID × Fiber) :=
  (s.pqueue.map fun item => (item.fiber, s.fibers item.fiber)).mergeSort fun a b =>
    !cloneLess b a

/-- What the sort reads of a clone. -/
def cloneKey (c : FiberID × Fiber) : FiberID × Int × Int := (c.1, c.2.priority, c.2.createdAt)

theorem not_cloneLess_iff {a b : FiberID × Fiber} :
    cloneLess a b = false ↔ keyLess (cloneKey a) (cloneKey b) = false := Iff.rfl

theorem getRunQueue_sorted (s : PriorityScheduler) :
    s.getRunQueue.Pairwise fun a b => cloneLess b a = false := by
  have hsorted : s.getRunQueue.Pairwise fun a b => !cloneLess b a := by
    refine List.pairwise_mergeSort (fun a b c hab hbc => ?_) (fun a b => ?_) _
    · simp only [Bool.not_eq_true', not_cloneLess_iff, not_keyLess_iff] at hab hbc ⊢
      omega
    · rw [Bool.or_eq_true, Bool.not_eq_true', Bool.not_eq_true', not_cloneLess_iff,
        not_cloneLess_iff, not_keyLess_iff, not_keyLess_iff]
      omega
  exact hsorted.imp fun h => by simpa using h

/-- The queue holds each fiber once, with the priority and creation time the fiber itself has. -/
structure Mirrored (s : PriorityScheduler) : Prop where
  running : s.base.stopped = false
  nodup : ((s.pqueue.map key).map Prod.fst).Nodup
  cached : ∀ k ∈ s.pqueue.map key, k = cloneKey (k.1, s.fibers k.1)

/-- Where the cache is right, both orders are of the same keys. -/
theorem Mirrored.getRunQueue_keys (h : Mirrored s) :
    (s.getRunQueue.map cloneKey).Perm (s.pqueue.map key) := by
  refine ((List.mergeSort_perm _ _).map cloneKey).trans ?_
  rw [List.map_map]
  have hkeys : s.pqueue.map key
      = s.pqueue.map (cloneKey ∘ fun item => (item.fiber, s.fibers item.fiber)) :=
    List.map_congr_left fun item hitem => h.cached item.key (List.mem_map_of_mem hitem)
  rw [hkeys]

/-- The drain and `GetRunQueue` sort the same keys, and there is one way to do so. -/
theorem Mirrored.drains (h : Mirrored s)
    (hlive : ∀ item ∈ s.pqueue, (s.fibers item.fiber).isFinished = false)
    (hdistinct : (s.pqueue.map fun item =>
      ((s.fibers item.fiber).priority, (s.fibers item.fiber).createdAt)).Nodup)
    (hbelow : ∀ item ∈ s.pqueue, (s.fibers item.fiber).priority < agingLimit - s.pqueue.length) :
    ∃ s', s.Drains (s.getRunQueue.map Prod.fst) s' ∧ s'.pqueue = [] := by
  have hlevel : Level (s.pqueue.map key) := by
    refine .inl fun k hk => ?_
    obtain ⟨item, hitem, rfl⟩ := List.mem_map.mp hk
    rw [h.cached item.key hk, List.length_map]
    exact hbelow item hitem
  obtain ⟨ks, s', hdrain, hempty, hks, hsorted⟩ := exists_drains h.running hlive hlevel
  have hanti : ∀ a b : FiberID × Int × Int, a ∈ ks → b ∈ s.getRunQueue.map cloneKey →
      keyLess b a = false → keyLess a b = false → a = b := by
    intro a b ha hb hba hab
    obtain ⟨x, hx, rfl⟩ := List.mem_map.mp (hks.mem_iff.mp ha)
    obtain ⟨y, hy, rfl⟩ := List.mem_map.mp (h.getRunQueue_keys.mem_iff.mp hb)
    have hcx := h.cached x.key (List.mem_map_of_mem hx)
    have hcy := h.cached y.key (List.mem_map_of_mem hy)
    rw [hcx, hcy, not_keyLess_iff] at hab hba
    have hsame : x = y := List.inj_on_of_nodup_map hdistinct hx hy (by
      simp only [cloneKey, key] at hab hba
      simp only [Prod.mk.injEq]
      omega)
    rw [hsame]
  have heq : ks = s.getRunQueue.map cloneKey :=
    (hks.trans h.getRunQueue_keys.symm).eq_of_pairwise hanti hsorted
      (List.pairwise_map.mpr s.getRunQueue_sorted)
  refine ⟨s', ?_, hempty⟩
  rw [heq, List.map_map] at hdrain
  exact hdrain

/-! ### The cache over runs -/

/-- The steps of a run in which every fiber is queued once at most and priorities are changed
through the scheduler alone. Fibers may finish. -/
def OnceQueued (s : PriorityScheduler) : Label → Prop
  | .schedule f => ∀ item ∈ s.pqueue, item.fiber ≠ f
  | .next | .updatePriority _ _ | .remove _ | .markCompleted _ _ | .finish _ => True
  | .blockFiber _ | .unblockFiber _ | .reheapify _ | .clear | .start | .stop
  | .setPriority _ _ => False

instance (s : PriorityScheduler) : (l : Label) → Decidable (OnceQueued s l)
  | .schedule f => inferInstanceAs (Decidable (∀ item ∈ s.pqueue, item.fiber ≠ f))
  | .next | .updatePriority _ _ | .remove _ | .markCompleted _ _ | .finish _ => .isTrue trivial
  | .blockFiber _ | .unblockFiber _ | .reheapify _ | .clear | .start | .stop
  | .setPriority _ _ => .isFalse id

theorem nodup_map_of_subperm {α β : Type*} {f : α → β} {l l' : List α} (h : l'.Subperm l)
    (hl : (l.map f).Nodup) : (l'.map f).Nodup := by
  obtain ⟨l₁, hperm, hsub⟩ := h
  exact (hperm.map f).nodup_iff.mp ((hsub.map f).nodup hl)

/-- Fewer entries, and the fibers as they were in what is cached of them. -/
theorem Mirrored.of_subperm (h : Mirrored s) (hrun : s'.base.stopped = s.base.stopped)
    (hkeys : (s'.pqueue.map key).Subperm (s.pqueue.map key))
    (hfib : ∀ f, cloneKey (f, s'.fibers f) = cloneKey (f, s.fibers f)) : Mirrored s' where
  running := hrun.trans h.running
  nodup := nodup_map_of_subperm hkeys h.nodup
  cached k hk := by
    rw [hfib]
    exact h.cached k (hkeys.subset hk)

theorem Mirrored.removeAt {i : Nat} (h : Mirrored s) (hi : i < s.pqueue.length)
    (hr : s.removeAt i = some s') : Mirrored s' := by
  obtain ⟨pq, hpq, hperm, -⟩ := removeAt_spec hi
  cases hpq.symm.trans hr
  refine h.of_subperm rfl ?_ fun f => rfl
  exact hperm.subperm.trans ((List.eraseIdx_sublist s.pqueue i).map key).subperm

theorem Mirrored.schedule {f : FiberID} {err : Option String} (h : Mirrored s)
    (hf : ∀ item ∈ s.pqueue, item.fiber ≠ f) (hs : s.schedule f = some (s', err)) :
    Mirrored s' := by
  unfold PriorityScheduler.schedule at hs
  rw [if_neg (by simp [h.running])] at hs
  obtain ⟨s₁, hpush, heq⟩ := Option.map_eq_some_iff.mp hs
  cases heq
  obtain ⟨pq, hp, rfl⟩ := Option.map_eq_some_iff.mp hpush
  obtain ⟨pq', hp', hswaps⟩ := push_swaps (o := pqOps) s.pqueue
    ⟨f, (s.fibers f).priority, (s.fibers f).createdAt, 0⟩
  cases hp'.symm.trans hp
  have hperm : (pq.map key).Perm (s.pqueue.map key ++ [cloneKey (f, s.fibers f)]) := by
    have hkeys := hswaps.perm pqOps_keeps
    rwa [List.map_append, List.map_singleton] at hkeys
  refine ⟨h.running, ?_, fun k hk => ?_⟩
  · rw [(hperm.map Prod.fst).nodup_iff, List.map_append, List.map_singleton]
    refine List.nodup_append.mpr ⟨h.nodup, List.nodup_singleton _, fun a ha b hb hab => ?_⟩
    cases List.mem_singleton.mp hb
    obtain ⟨k, hk, rfl⟩ := List.mem_map.mp ha
    obtain ⟨item, hitem, rfl⟩ := List.mem_map.mp hk
    exact hf item hitem hab
  · rcases List.mem_append.mp (hperm.mem_iff.mp hk) with hold | hnew
    · exact h.cached k hold
    · rw [List.mem_singleton.mp hnew]
      rfl

/-- An aging pass writes the same priority to the entry and to the fiber. -/
theorem Mirrored.ageFibers (h : Mirrored s) {pq : List PriorityItem}
    (hpq : (pq.map key).Perm (s.unfinished.map key)) {y : PriorityItem} (hy : y ∈ s.unfinished) :
    ageKey y.key = cloneKey (y.fiber, ageFibers pq s.fibers y.fiber) := by
  have hcached := h.cached y.key (List.mem_map_of_mem (List.mem_of_mem_filter hy))
  simp only [key, cloneKey, Prod.mk.injEq, true_and] at hcached
  -- there is one entry of the fiber
  have hone : ∀ item ∈ pq, item.fiber = y.fiber → item.key = y.key := by
    intro item hitem hfib
    obtain ⟨z, hz, hkey⟩ := List.mem_map.mp (hpq.mem_iff.mp (List.mem_map_of_mem hitem))
    rw [← hkey]
    exact List.inj_on_of_nodup_map h.nodup
      (List.mem_map_of_mem (List.mem_of_mem_filter hz))
      (List.mem_map_of_mem (List.mem_of_mem_filter hy))
      ((congrArg Prod.fst hkey).trans hfib)
  rcases ageFibers_apply pq s.fibers y.fiber with ⟨item, hitem, hfib, hlt, heq⟩ | ⟨hall, heq⟩
  · have hkey := hone item hitem hfib
    simp only [key, Prod.mk.injEq] at hkey
    rw [heq, ageKey, if_pos (by simp only [key]; omega), hkey.2.1]
    simp only [cloneKey, Fiber.setPriority, key, hcached.2]
  · obtain ⟨item, hitem, hkey⟩ := List.mem_map.mp (hpq.mem_iff.mpr (List.mem_map_of_mem hy))
    have hle := hall item hitem (congrArg Prod.fst hkey)
    simp only [key, Prod.mk.injEq] at hkey
    rw [heq, ageKey, if_neg (by simp only [key]; omega)]
    simp only [cloneKey, key, hcached.1, hcached.2]

theorem Mirrored.next {r : Except String FiberID} (h : Mirrored s) (hn : s.next = some (s', r)) :
    Mirrored s' := by
  cases r with
  | error err =>
    obtain ⟨-, -, rfl⟩ := next_error_of_running h.running hn
    exact h.of_subperm rfl (List.nil_subperm) fun f => rfl
  | ok g =>
    obtain ⟨hstop, pq, hpq, hfibers⟩ := next_ok_fibers hn
    obtain ⟨⟨x, -, -, -, hperm⟩, -⟩ := next_pops hn
    have hsub : (s'.pqueue.map key).Subperm (s.candidates.map key) :=
      ((List.sublist_cons_self _ _).subperm).trans hperm.subperm
    have hunf : (s.unfinished.map key).Sublist (s.pqueue.map key) := List.filter_sublist.map key
    by_cases hdue : (s.popCount + 1) % 100 = 0
    · rw [candidates, if_pos hdue, List.map_map] at hsub
      rw [if_pos hdue] at hfibers
      refine ⟨hstop.trans h.running, nodup_map_of_subperm hsub ?_, fun k hk => ?_⟩
      · have hfst : (s.unfinished.map (key ∘ age)).map Prod.fst
            = (s.unfinished.map key).map Prod.fst := by
          simp only [List.map_map, Function.comp_def, key_age, ageKey]
        rw [hfst]
        exact (hunf.map Prod.fst).nodup h.nodup
      · obtain ⟨y, hy, rfl⟩ := List.mem_map.mp (hsub.subset hk)
        rw [hfibers, Function.comp_apply, key_age]
        exact h.ageFibers hpq hy
    · rw [candidates, if_neg hdue] at hsub
      rw [if_neg hdue] at hfibers
      exact h.of_subperm hstop (hsub.trans hunf.subperm) fun f => by rw [hfibers]

/-- Setting the priority of an entry leaves the fibers queued as they were. -/
theorem map_fst_modify (pq : List PriorityItem) (i : Nat) (p : Int) :
    ((pq.modify i fun item => { item with priorityVal := p }).map key).map Prod.fst
      = (pq.map key).map Prod.fst := by
  refine List.ext_getElem? fun j => ?_
  simp only [List.getElem?_map, List.getElem?_modify]
  cases pq[j]? with
  | none => rfl
  | some a => by_cases hij : i = j <;> simp [hij, key]

/-- `UpdatePriority` writes the same priority to the entry and to the fiber, wherever it fixes the
heap. -/
theorem Mirrored.updatePriority {f : FiberID} {p : Int} {err : Option String} (h : Mirrored s)
    (hu : s.updatePriority f p = some (s', err)) : Mirrored s' := by
  rcases updatePriority_cases hu with rfl | ⟨i, item, hi, hitem, hfix⟩
  · exact h
  · obtain ⟨pq, hpq, rfl⟩ := Option.map_eq_some_iff.mp hfix
    have hperm : (pq.map key).Perm
        ((s.pqueue.modify i fun item => { item with priorityVal := p }).map key) :=
      (swaps_of_fix hpq).perm pqOps_keeps
    obtain ⟨hlt, hfib⟩ := find_spec hi
    refine ⟨h.running, ?_, fun k hk => ?_⟩
    · rw [(hperm.map Prod.fst).nodup_iff, map_fst_modify]
      exact h.nodup
    · obtain ⟨y, hy, rfl⟩ := List.mem_map.mp (hperm.mem_iff.mp hk)
      obtain ⟨j, hj⟩ := List.getElem?_of_mem hy
      rw [List.getElem?_modify] at hj
      obtain ⟨a, ha, rfl⟩ := Option.map_eq_some_iff.mp hj
      have hcached := h.cached a.key (List.mem_map_of_mem (List.mem_of_getElem? ha))
      by_cases hij : i = j
      · -- the entry that was set
        subst hij
        have haf : a.fiber = f := by
          obtain ⟨_, rfl⟩ := List.getElem?_eq_some_iff.mp ha
          exact hfib
        simp only [key, cloneKey, Prod.mk.injEq, true_and] at hcached
        simp [key, cloneKey, setPriority, setVal, Fiber.setPriority, haf]
        rw [hcached.2, haf]
      · -- another entry is of another fiber
        have haf : a.fiber ≠ f := by
          intro haf
          obtain ⟨hj', rfl⟩ := List.getElem?_eq_some_iff.mp ha
          have hnodup := h.nodup
          rw [List.map_map] at hnodup
          refine hij ((@List.Nodup.getElem_inj_iff _ _ hnodup i (by simpa using hlt) j
            (by simpa using hj')).mp ?_)
          simp [key, hfib, haf]
        simpa [hij, key, cloneKey, setPriority, setVal, Function.update_of_ne haf] using hcached

theorem step_mirrored {l : Label} (h : Mirrored s) (hok : OnceQueued s l)
    (hs : s.step l = some s') : Mirrored s' := by
  cases l with
  | schedule f =>
    obtain ⟨⟨s₁, err⟩, hs₁, rfl⟩ := Option.map_eq_some_iff.mp hs
    exact h.schedule hok hs₁
  | next =>
    obtain ⟨⟨s₁, r⟩, hs₁, rfl⟩ := Option.map_eq_some_iff.mp hs
    exact h.next hs₁
  | updatePriority f p =>
    obtain ⟨⟨s₁, err⟩, hs₁, rfl⟩ := Option.map_eq_some_iff.mp hs
    exact h.updatePriority hs₁
  | remove f =>
    obtain ⟨⟨s₁, err⟩, hs₁, rfl⟩ := Option.map_eq_some_iff.mp hs
    rcases remove_cases hs₁ with rfl | ⟨i, hf, hr⟩
    · exact h
    · exact h.removeAt (find_spec hf).1 hr
  | markCompleted f drop =>
    have hrec : Mirrored { s with base := s.base.record f drop } :=
      h.of_subperm rfl (.refl _) fun _ => rfl
    simp only [step] at hs
    split at hs
    · rcases markCompleted_cases hs with rfl | rfl | ⟨i, hf, hr⟩
      · exact h
      · exact hrec
      · have hlt : i < s.pqueue.length := (find_spec hf).1
        exact hrec.removeAt hlt hr
    · cases hs
  | finish f =>
    cases hs
    refine h.of_subperm rfl (.refl _) fun g => ?_
    by_cases hg : g = f
    · subst hg
      simp [cloneKey, Fiber.runEnd]
    · simp [Function.update_of_ne hg]
  | blockFiber | unblockFiber | reheapify | clear | start | stop | setPriority => exact hok.elim

/-- `GetRunQueue` shows the order of dispatch: in every state that is reached with each fiber
queued once at most and priorities changed through the scheduler alone, calling `Next` until the
queue is empty returns the fibers of `GetRunQueue` in their order, if none of them is finished, no
two agree in priority and creation time, and none is within the queue's length of the limit of
aging. -/
theorem getRunQueue_is_dispatch_order (fibers : FiberID → Fiber) {s : PriorityScheduler}
    (h : Trans.Reach step OnceQueued (new fibers) s)
    (hlive : ∀ item ∈ s.pqueue, (s.fibers item.fiber).isFinished = false)
    (hdistinct : (s.pqueue.map fun item =>
      ((s.fibers item.fiber).priority, (s.fibers item.fiber).createdAt)).Nodup)
    (hbelow : ∀ item ∈ s.pqueue, (s.fibers item.fiber).priority < agingLimit - s.pqueue.length) :
    ∃ s', s.Drains (s.getRunQueue.map Prod.fst) s' ∧ s'.pqueue = [] := by
  have hmirror : Mirrored s := by
    refine Trans.Reach.invariant (P := Mirrored) ?_ (fun _ _ _ => step_mirrored) h
    exact ⟨rfl, List.nodup_nil, nofun⟩
  exact hmirror.drains hlive hdistinct hbelow

/-- Four fibers are scheduled and one is updated; the drain, and so `GetRunQueue`, has it first. -/
theorem getRunQueue_is_dispatch_order_four :
    ∃ s, Trans.Reach step OnceQueued (new fourFibers) s ∧ (∃ s', s.Drains [3, 1, 2, 4] s') ∧
      s.getRunQueue.map Prod.fst = [3, 1, 2, 4] := by
  obtain ⟨s, hs, hp⟩ := Trans.exists_reach_of_exec_guarded step OnceQueued (new fourFibers)
    [.schedule 1, .schedule 2, .schedule 3, .schedule 4, .updatePriority 3 20]
    (fun s => drain 5 s == some [3, 1, 2, 4]
      && decide (∀ item ∈ s.pqueue, (s.fibers item.fiber).isFinished = false)
      && decide (s.pqueue.map fun item =>
        ((s.fibers item.fiber).priority, (s.fibers item.fiber).createdAt)).Nodup
      && decide (∀ item ∈ s.pqueue,
        (s.fibers item.fiber).priority < agingLimit - s.pqueue.length)) (by decide +kernel)
  simp only [Bool.and_eq_true, beq_iff_eq, decide_eq_true_eq] at hp
  obtain ⟨⟨⟨hdrain, hlive⟩, hdistinct⟩, hbelow⟩ := hp
  obtain ⟨s', hs'⟩ := drains_of_drain hdrain
  obtain ⟨s'', hs'', -⟩ := getRunQueue_is_dispatch_order fourFibers hs hlive hdistinct hbelow
  exact ⟨s, hs, ⟨s', hs'⟩, hs''.unique hs'⟩

end PriorityScheduler

end GreenThreads.Scheduler
