import GreenThreads.Scheduler.Priority

/-!
# GreenThreads — the positions noted in the priority queue

`BlockFiber`, `UpdatePriority` and `Reheapify` go to the position an entry has noted. `Push`,
`Pop` and `Swap` keep the notes right, and so does every operation but one: `RemoveFinished`
moves the entries behind a finished one up without telling them, and `heap.Init` corrects only
those it happens to swap.
-/

namespace GreenThreads.Scheduler.PriorityScheduler

open SliceHeap

/-- Every entry of the queue notes the position it is stored at. -/
def Indexed (pq : List PriorityItem) : Prop :=
  ∀ (i : Nat) (item : PriorityItem), pq[i]? = some item → item.index = i

theorem placed_iff {pq : List PriorityItem} : Placed pqOps pq ↔ Indexed pq := by
  have hplace : ∀ i (a : PriorityItem), pqOps.place i a = a ↔ a.index = i := by
    intro i a
    obtain ⟨f, p, c, k⟩ := a
    simp [pqOps, PriorityItem.place, eq_comm]
  simp only [Placed, Indexed, hplace]

theorem pqOps_overwrites : pqOps.Overwrites := fun _ _ _ => rfl

theorem pqOps_keeps : pqOps.Keeps PriorityItem.key := fun _ _ => rfl

/-- Swaps keep the notes right. -/
theorem indexed_of_swaps {m : Nat} {pq pq' : List PriorityItem} (h : Swaps pqOps m pq pq')
    (hi : Indexed pq) : Indexed pq' :=
  placed_iff.mp (h.placed pqOps_overwrites (placed_iff.mpr hi))

theorem indexed_of_front {pq pq' : List PriorityItem} (h : pq' <+: pq) (hi : Indexed pq) :
    Indexed pq' := by
  intro i item hitem
  obtain ⟨rest, rfl⟩ := h
  have hlt : i < pq'.length := (List.getElem?_eq_some_iff.mp hitem).1
  exact hi i item (by rw [List.getElem?_append_left hlt, hitem])

/-- Changes that do not touch the notes. -/
theorem indexed_map {pq : List PriorityItem} {g : PriorityItem → PriorityItem}
    (hg : ∀ a, (g a).index = a.index) (hi : Indexed pq) : Indexed (pq.map g) := by
  intro i item hitem
  rw [List.getElem?_map] at hitem
  obtain ⟨a, ha, rfl⟩ := Option.map_eq_some_iff.mp hitem
  rw [hg, hi i a ha]

theorem indexed_modify {pq : List PriorityItem} {g : PriorityItem → PriorityItem}
    (hg : ∀ a, (g a).index = a.index) (k : Nat) (hi : Indexed pq) : Indexed (pq.modify k g) := by
  intro i item hitem
  rw [List.getElem?_modify] at hitem
  obtain ⟨a, ha, rfl⟩ := Option.map_eq_some_iff.mp hitem
  split
  · rw [hg, hi i a ha]
  · exact hi i a ha

theorem age_index (a : PriorityItem) : a.age.index = a.index := by
  unfold PriorityItem.age
  split <;> rfl

/-! ## The heap operations -/

variable {s : PriorityScheduler}

theorem pushFiber_spec (s : PriorityScheduler) (f : FiberID) :
    ∃ pq, s.pushFiber f = some { s with pqueue := pq } ∧ (Indexed s.pqueue → Indexed pq) := by
  obtain ⟨pq, hp, hs⟩ := push_swaps (o := pqOps) s.pqueue
    ⟨f, (s.fibers f).priority, (s.fibers f).createdAt, 0⟩
  refine ⟨pq, by simp [pushFiber, hp], fun hi => indexed_of_swaps hs ?_⟩
  intro i item hitem
  rw [List.getElem?_append] at hitem
  split at hitem
  · exact hi i item hitem
  · have hi0 : i - s.pqueue.length = 0 := by
      have hlt := (List.getElem?_eq_some_iff.mp hitem).1
      simp at hlt
      omega
    rw [hi0] at hitem
    cases hitem
    change s.pqueue.length = i
    omega

/-- Swaps and a cut of the end: the entry cut off and the rest are what was there. -/
theorem keys_of_cut {m : Nat} {pq l : List PriorityItem} {x : PriorityItem}
    (hs : Swaps pqOps m pq l) (hx : l[pq.length - 1]? = some x) :
    (x.key :: l.dropLast.map PriorityItem.key).Perm (pq.map PriorityItem.key) := by
  have hsplit : l = l.dropLast ++ [x] := by
    have hlast : l.getLast? = some x := by
      rw [List.getLast?_eq_getElem?, hs.length_eq]
      exact hx
    exact (List.dropLast_append_getLast? x hlast).symm
  have hperm : (l.map PriorityItem.key).Perm (pq.map PriorityItem.key) := hs.perm pqOps_keeps
  rw [hsplit, List.map_append, List.map_singleton] at hperm
  exact (List.perm_append_singleton _ _).symm.trans hperm

/-- A removal in range takes out that entry and no other. -/
theorem removeAt_spec {i : Nat} (hi : i < s.pqueue.length) :
    ∃ pq, s.removeAt i = some { s with pqueue := pq } ∧
      (pq.map PriorityItem.key).Perm ((s.pqueue.eraseIdx i).map PriorityItem.key) ∧
      (Indexed s.pqueue → Indexed pq) := by
  obtain ⟨l, x, hs, hr, hx, hkey⟩ := remove_swaps (o := pqOps) hi
  refine ⟨l.dropLast, by simp [removeAt, hr], ?_, fun hix =>
    indexed_of_front (List.dropLast_prefix _) (indexed_of_swaps hs hix)⟩
  have hxkey : x.key = s.pqueue[i].key := by
    rcases hkey with rfl | rfl
    · rfl
    · exact pqOps_keeps _ _
  have herase := (List.getElem_cons_eraseIdx_perm hi).map PriorityItem.key
  rw [List.map_cons, ← hxkey] at herase
  exact ((keys_of_cut hs hx).trans herase.symm).cons_inv

/-- Fixing in range rearranges the queue and changes no entry. -/
theorem fixAt_spec {i : Nat} (hi : i < s.pqueue.length) :
    ∃ pq, s.fixAt i = some { s with pqueue := pq } ∧
      (pq.map PriorityItem.key).Perm (s.pqueue.map PriorityItem.key) ∧
      (Indexed s.pqueue → Indexed pq) := by
  obtain ⟨pq, hf, hs⟩ := fix_swaps (o := pqOps) hi
  exact ⟨pq, by simp [fixAt, hf], hs.perm pqOps_keeps, indexed_of_swaps hs⟩

theorem init_spec (pq : List PriorityItem) :
    ∃ pq', SliceHeap.init pqOps pq = some pq' ∧ (Indexed pq → Indexed pq') := by
  obtain ⟨pq', hp, hs⟩ := init_swaps (o := pqOps) pq
  exact ⟨pq', hp, indexed_of_swaps hs⟩

theorem find_spec {f : FiberID} {i : Nat} (h : s.find f = some i) :
    ∃ hi : i < s.pqueue.length, s.pqueue[i].fiber = f := by
  obtain ⟨hi, hf, -⟩ := List.findIdx?_eq_some_iff_getElem.mp h
  exact ⟨hi, by simpa using hf⟩

/-! ## Compaction -/

/-- No unfinished entry stands behind a finished one. -/
def FinishedLast (s : PriorityScheduler) : Prop :=
  s.pqueue.Pairwise fun a b => s.finished a = true → s.finished b = true

instance (s : PriorityScheduler) : Decidable s.FinishedLast :=
  inferInstanceAs (Decidable (List.Pairwise _ _))

/-- Compacting a list whose rejects come last only cuts it off. -/
theorem filter_front {α : Type*} {p : α → Bool} {l : List α}
    (h : l.Pairwise fun a b => p a = false → p b = false) : l.filter p <+: l := by
  induction l with
  | nil => exact List.prefix_rfl
  | cons a l ih =>
    obtain ⟨ha, hl⟩ := List.pairwise_cons.mp h
    cases hp : p a with
    | true =>
      rw [List.filter_cons_of_pos hp]
      exact (List.prefix_cons_inj a).mpr (ih hl)
    | false =>
      have hnil : l.filter p = [] := by
        rw [List.filter_eq_nil_iff]
        intro b hb
        simp [ha b hb hp]
      rw [List.filter_cons_of_neg (by simp [hp]), hnil]
      exact List.nil_prefix

theorem removeFinished_spec (s : PriorityScheduler) :
    ∃ pq, s.removeFinished = some pq ∧ (s.FinishedLast → Indexed s.pqueue → Indexed pq) := by
  have hkept : s.FinishedLast → Indexed s.pqueue →
      Indexed (s.pqueue.filter fun item => !s.finished item) := by
    intro hlast hi
    refine indexed_of_front (filter_front ?_) hi
    simpa [FinishedLast] using hlast
  by_cases hpos : 0 < (s.pqueue.filter fun item => !s.finished item).length
  · obtain ⟨pq, hp, hix⟩ := init_spec (s.pqueue.filter fun item => !s.finished item)
    exact ⟨pq, by simp only [removeFinished, hpos, if_true, hp],
      fun hlast hi => hix (hkept hlast hi)⟩
  · exact ⟨_, by simp only [removeFinished, hpos, if_false], hkept⟩

theorem ageAllLocked_spec (s : PriorityScheduler) :
    ∃ s', s.ageAllLocked = some s' ∧ s'.pqueue.length = s.pqueue.length ∧
      (Indexed s.pqueue → Indexed s'.pqueue) := by
  obtain ⟨pq, hp, hs⟩ := init_swaps (o := pqOps) (s.pqueue.map PriorityItem.age)
  refine ⟨_, by rw [ageAllLocked, hp]; rfl, by simpa using hs.length_eq, fun hi => ?_⟩
  exact indexed_of_swaps hs (indexed_map age_index hi)

theorem popNext_spec (hpos : 0 < s.pqueue.length) :
    ∃ s' r, s.popNext = some (s', r) ∧ (Indexed s.pqueue → Indexed s'.pqueue) := by
  obtain ⟨l, x, hs, hp, -, -⟩ := pop_swaps (o := pqOps) hpos
  refine ⟨_, _, by rw [popNext, hp]; rfl, fun hi => ?_⟩
  exact indexed_of_front (List.dropLast_prefix _) (indexed_of_swaps hs hi)

theorem next_spec (s : PriorityScheduler) :
    ∃ s' r, s.next = some (s', r) ∧
      (s.FinishedLast → Indexed s.pqueue → Indexed s'.pqueue) := by
  unfold next
  split
  · exact ⟨_, _, rfl, fun _ hi => hi⟩
  · obtain ⟨pq, hp, hix⟩ := s.removeFinished_spec
    rw [hp]
    cases pq with
    | nil => exact ⟨_, _, rfl, fun _ _ i item h => by simp at h⟩
    | cons item pq =>
      simp only
      split
      · obtain ⟨s₁, h₁, hlen, hix₁⟩ := ageAllLocked_spec
          { s with pqueue := item :: pq, popCount := s.popCount + 1 }
        obtain ⟨s₂, r, h₂, hix₂⟩ := popNext_spec (s := s₁) (by simp [hlen])
        exact ⟨s₂, r, by rw [h₁, Option.bind_some, h₂],
          fun hlast hi => hix₂ (hix₁ (hix hlast hi))⟩
      · obtain ⟨s₂, r, h₂, hix₂⟩ := popNext_spec
          (s := { s with pqueue := item :: pq, popCount := s.popCount + 1 }) (by simp)
        exact ⟨s₂, r, h₂, fun hlast hi => hix₂ (hix hlast hi)⟩

/-! ## The operations that trust the noted position -/

/-- The queue with the first entry of the fiber set to a priority. -/
def setFirst (f : FiberID) (p : Int) (pq : List PriorityItem) : List PriorityItem :=
  match pq.findIdx? (fun item => item.fiber == f) with
  | none => pq
  | some i => pq.modify i fun item => { item with priorityVal := p }

/-- The entry found notes the position it was found at. -/
theorem getElem?_find {f : FiberID} {i : Nat} (h : s.find f = some i) (hix : Indexed s.pqueue) :
    ∃ item, s.pqueue[i]? = some item ∧ item.index = i ∧ i < s.pqueue.length := by
  obtain ⟨hi, -⟩ := find_spec h
  exact ⟨s.pqueue[i], by simp [hi], hix i _ (by simp [hi]), hi⟩

theorem blockFiber_spec (hix : Indexed s.pqueue) (f : FiberID) :
    ∃ s', s.blockFiber f = some s' ∧ Indexed s'.pqueue ∧
      s'.base.blockedQueue = s.base.blockedQueue ++ [f] ∧
      (s'.pqueue.map PriorityItem.key).Perm
        ((s.pqueue.eraseP fun item => item.fiber == f).map PriorityItem.key) := by
  unfold blockFiber
  rw [List.eraseP_eq_eraseIdx]
  cases hf : s.find f with
  | none =>
    have hf' : s.pqueue.findIdx? (fun item => item.fiber == f) = none := hf
    rw [hf']
    exact ⟨_, rfl, hix, rfl, .refl _⟩
  | some i =>
    have hf' : s.pqueue.findIdx? (fun item => item.fiber == f) = some i := hf
    rw [hf']
    obtain ⟨item, hitem, hidx, hi⟩ := getElem?_find hf hix
    obtain ⟨pq, hp, hperm, hix'⟩ := removeAt_spec hi
    exact ⟨_, by simp only [Option.bind_some, hitem, hidx, hp]; rfl, hix' hix, rfl, hperm⟩

/-- What `UpdatePriority` and `Reheapify` do once the entry is found. -/
theorem setVal_fixAt_spec (hix : Indexed s.pqueue) {f : FiberID} {i : Nat}
    (hf : s.find f = some i) (p : Int) :
    ∃ item, s.pqueue[i]? = some item ∧ ∃ pq,
      (s.setVal i p).fixAt item.index = some { s with pqueue := pq } ∧ Indexed pq ∧
      (pq.map PriorityItem.key).Perm ((setFirst f p s.pqueue).map PriorityItem.key) := by
  obtain ⟨item, hitem, hidx, hi⟩ := getElem?_find hf hix
  have hf' : s.pqueue.findIdx? (fun item => item.fiber == f) = some i := hf
  obtain ⟨pq, hp, hperm, hix'⟩ := fixAt_spec (s := s.setVal i p) (i := i)
    (by simpa [setVal] using hi)
  have hix₁ : Indexed (s.setVal i p).pqueue := indexed_modify (by exact fun _ => rfl) i hix
  refine ⟨item, hitem, pq, by rw [hidx, hp]; rfl, hix' hix₁, ?_⟩
  rw [setFirst, hf']
  exact hperm

theorem updatePriority_spec (hix : Indexed s.pqueue) (f : FiberID) (p : Int) :
    ∃ s' err, s.updatePriority f p = some (s', err) ∧ Indexed s'.pqueue ∧
      (s'.pqueue.map PriorityItem.key).Perm ((setFirst f p s.pqueue).map PriorityItem.key) := by
  unfold updatePriority
  cases hf : s.find f with
  | none =>
    have hf' : s.pqueue.findIdx? (fun item => item.fiber == f) = none := hf
    exact ⟨_, _, rfl, hix, by rw [setFirst, hf']⟩
  | some i =>
    obtain ⟨item, hitem, pq, hp, hix', hperm⟩ :=
      setVal_fixAt_spec (s := s.setPriority f p) hix (f := f) (i := i) hf p
    have hitem' : s.pqueue[i]? = some item := hitem
    exact ⟨_, _, by simp only [hitem', hp]; rfl, hix', hperm⟩

theorem reheapify_spec (hix : Indexed s.pqueue) (f : FiberID) :
    ∃ s' r, s.reheapify f = some (s', r) ∧ Indexed s'.pqueue ∧
      (s'.pqueue.map PriorityItem.key).Perm
        ((setFirst f (s.fibers f).priority s.pqueue).map PriorityItem.key) := by
  unfold reheapify
  cases hf : s.find f with
  | none =>
    have hf' : s.pqueue.findIdx? (fun item => item.fiber == f) = none := hf
    exact ⟨_, _, rfl, hix, by rw [setFirst, hf']⟩
  | some i =>
    obtain ⟨item, hitem, pq, hp, hix', hperm⟩ := setVal_fixAt_spec hix hf (s.fibers f).priority
    exact ⟨_, _, by simp only [hitem, hp]; rfl, hix', hperm⟩

/-! ## What an operation has done

One inversion for each operation that looks for an entry; the invariants below and in the modules
after this one go by its cases. -/

theorem remove_cases {s' : PriorityScheduler} {f : FiberID} {err : Option String}
    (h : s.remove f = some (s', err)) :
    s' = s ∨ ∃ i, s.find f = some i ∧ s.removeAt i = some s' := by
  unfold remove at h
  split at h
  · cases h
    exact .inl rfl
  · next i hi =>
    obtain ⟨s₁, hremoved, heq⟩ := Option.map_eq_some_iff.mp h
    cases heq
    exact .inr ⟨i, hi, hremoved⟩

theorem markCompleted_cases {s' : PriorityScheduler} {f : FiberID} {drop : Finset FiberID}
    (h : s.markCompleted f drop = some s') :
    s' = s ∨ s' = { s with base := s.base.record f drop } ∨
      ∃ i, s.find f = some i ∧
        removeAt { s with base := s.base.record f drop } i = some s' := by
  simp only [markCompleted] at h
  split at h
  · cases h
    exact .inl rfl
  · split at h
    · cases h
      exact .inr (.inl rfl)
    · next i hi => exact .inr (.inr ⟨i, hi, h⟩)

theorem updatePriority_cases {s' : PriorityScheduler} {f : FiberID} {p : Int}
    {err : Option String} (h : s.updatePriority f p = some (s', err)) :
    s' = s ∨ ∃ i item, s.find f = some i ∧ s.pqueue[i]? = some item ∧
      ((s.setPriority f p).setVal i p).fixAt item.index = some s' := by
  unfold updatePriority at h
  split at h
  · cases h
    exact .inl rfl
  · next i hi =>
    split at h
    · cases h
    · next item hitem =>
      obtain ⟨s₁, hfix, heq⟩ := Option.map_eq_some_iff.mp h
      cases heq
      exact .inr ⟨i, item, hi, hitem, hfix⟩

theorem reheapify_cases {s' : PriorityScheduler} {f : FiberID} {found : Bool}
    (h : s.reheapify f = some (s', found)) :
    found = false ∧ s' = s ∨ found = true ∧ ∃ i item, s.find f = some i ∧
      s.pqueue[i]? = some item ∧
      (s.setVal i (s.fibers f).priority).fixAt item.index = some s' := by
  unfold reheapify at h
  split at h
  · cases h
    exact .inl ⟨rfl, rfl⟩
  · next i hi =>
    split at h
    · cases h
    · next item hitem =>
      obtain ⟨s₁, hfix, heq⟩ := Option.map_eq_some_iff.mp h
      cases heq
      exact .inr ⟨rfl, i, item, hi, hitem, hfix⟩

/-! ## Every sequence of operations -/

/-- The condition on a step: at a `Next`, finished fibers stand last in the queue. -/
def CompactsInPlace (s : PriorityScheduler) : Label → Prop
  | .next => s.FinishedLast
  | _ => True

instance (s : PriorityScheduler) : (l : Label) → Decidable (CompactsInPlace s l)
  | .next => inferInstanceAs (Decidable s.FinishedLast)
  | .schedule _ | .blockFiber _ | .unblockFiber _ | .updatePriority _ _ | .reheapify _ |
    .remove _ | .markCompleted _ _ | .clear | .start | .stop | .finish _ | .setPriority _ _ =>
    .isTrue trivial

/-- Taking out the entry a search has found keeps the noted positions right. -/
theorem indexed_of_removeAt {s' : PriorityScheduler} {f : FiberID} {i : Nat}
    (hix : Indexed s.pqueue) (hf : s.find f = some i) (h : s.removeAt i = some s') :
    Indexed s'.pqueue := by
  obtain ⟨hi, -⟩ := find_spec hf
  obtain ⟨pq, hp, -, hix'⟩ := removeAt_spec hi
  rw [hp] at h
  cases h
  exact hix' hix

/-- Every step that compacts in place keeps the noted positions right. -/
theorem step_indexed {l : Label} {s' : PriorityScheduler} (hix : Indexed s.pqueue)
    (hok : CompactsInPlace s l) (h : s.step l = some s') : Indexed s'.pqueue := by
  cases l with
  | schedule f =>
    simp only [step, schedule] at h
    split at h
    · cases h
      exact hix
    · obtain ⟨pq, hp, hix'⟩ := pushFiber_spec s f
      rw [hp] at h
      cases h
      exact hix' hix
  | next =>
    obtain ⟨s₁, r, hn, hix'⟩ := s.next_spec
    simp only [step, hn] at h
    cases h
    exact hix' hok hix
  | blockFiber f =>
    obtain ⟨s₁, hb, hix', -⟩ := blockFiber_spec hix f
    simp only [step, hb] at h
    cases h
    exact hix'
  | unblockFiber f =>
    simp only [step, unblockFiber] at h
    split at h
    · obtain ⟨pq, hp, hix'⟩ := pushFiber_spec { s with
        base := { s.base with blockedQueue := s.base.blockedQueue.erase f }
        fibers := Function.update s.fibers f (s.fibers f).unblock } f
      rw [hp] at h
      cases h
      exact hix' hix
    · cases h
      exact hix
  | updatePriority f p =>
    obtain ⟨s₁, err, hu, hix', -⟩ := updatePriority_spec hix f p
    simp only [step, hu] at h
    cases h
    exact hix'
  | reheapify f =>
    obtain ⟨s₁, r, hu, hix', -⟩ := reheapify_spec hix f
    simp only [step, hu] at h
    cases h
    exact hix'
  | remove f =>
    obtain ⟨⟨s₁, err⟩, hs₁, rfl⟩ := Option.map_eq_some_iff.mp h
    rcases remove_cases hs₁ with rfl | ⟨i, hf, hr⟩
    · exact hix
    · exact indexed_of_removeAt hix hf hr
  | markCompleted f drop =>
    simp only [step] at h
    split at h
    · rcases markCompleted_cases h with rfl | rfl | ⟨i, hf, hr⟩
      · exact hix
      · exact hix
      · refine indexed_of_removeAt (f := f) ?_ ?_ hr
        · exact hix
        · exact hf
    · cases h
  | clear =>
    cases h
    exact fun i item hitem => by simp [clear] at hitem
  | start | stop | finish | setPriority =>
    cases h
    exact hix

/-- The operations that go by the noted position reach the entry they are meant for: none of
them panics, and the queue afterwards differs in that entry alone. -/
structure Reliable (s : PriorityScheduler) : Prop where
  indexed : Indexed s.pqueue
  inRange : ∀ (i : Nat) (item : PriorityItem), s.pqueue[i]? = some item →
    item.index < s.pqueue.length ∧ s.pqueue[item.index]? = some item
  block : ∀ f, ∃ s', s.blockFiber f = some s' ∧ (s'.pqueue.map PriorityItem.key).Perm
    ((s.pqueue.eraseP fun item => item.fiber == f).map PriorityItem.key)
  update : ∀ f p, ∃ s' err, s.updatePriority f p = some (s', err) ∧
    (s'.pqueue.map PriorityItem.key).Perm ((setFirst f p s.pqueue).map PriorityItem.key)
  reheapify : ∀ f, ∃ s' r, s.reheapify f = some (s', r) ∧
    (s'.pqueue.map PriorityItem.key).Perm
      ((setFirst f (s.fibers f).priority s.pqueue).map PriorityItem.key)

theorem Indexed.reliable (hix : Indexed s.pqueue) : Reliable s where
  indexed := hix
  inRange i item hitem := by
    have hlt := (List.getElem?_eq_some_iff.mp hitem).1
    rw [hix i item hitem]
    exact ⟨hlt, hitem⟩
  block f := by
    obtain ⟨s', hb, -, -, hperm⟩ := blockFiber_spec hix f
    exact ⟨s', hb, hperm⟩
  update f p := by
    obtain ⟨s', err, hu, -, hperm⟩ := updatePriority_spec hix f p
    exact ⟨s', err, hu, hperm⟩
  reheapify f := by
    obtain ⟨s', r, hu, -, hperm⟩ := reheapify_spec hix f
    exact ⟨s', r, hu, hperm⟩

/-- Four fibers with priorities 10, 9, 7 and 8. -/
def fourFibers (f : FiberID) : Fiber :=
  { priority := if f = 1 then 10 else if f = 2 then 9 else if f = 3 then 7 else 8
    createdAt := f }

/-- Fiber 1 finishes at the head of the queue. The next `Next` moves the others up and returns
fiber 2; fiber 3 is then second but still notes position 2, and going there panics. -/
theorem stale_index :
    ∃ s, Trans.Reach step Trans.anyStep (new fourFibers) s ∧
      (∃ item, s.pqueue[1]? = some item ∧ item.fiber = 3 ∧ item.index = 2) ∧
      s.blockFiber 3 = none ∧ s.updatePriority 3 20 = none ∧ s.reheapify 3 = none := by
  obtain ⟨s, hs, hp⟩ := Trans.exists_reach_of_exec step (new fourFibers)
    [.schedule 1, .schedule 2, .schedule 3, .schedule 4, .finish 1, .next]
    (fun s => s.pqueue[1]? == some ⟨3, 7, 3, 2⟩ && (s.blockFiber 3).isNone &&
      (s.updatePriority 3 20).isNone && (s.reheapify 3).isNone) (by decide +kernel)
  simp only [Bool.and_eq_true, beq_iff_eq, Option.isNone_iff_eq_none] at hp
  exact ⟨s, hs, ⟨_, hp.1.1.1, rfl, rfl⟩, hp.1.1.2, hp.1.2, hp.2⟩

/-- In every sequence of operations in which each `Next` finds the finished fibers last in the
queue, every state reached has the positions noted right, and the operations that trust them
reach the entry they are meant for. -/
theorem priorityScheduler_reliable (fibers : FiberID → Fiber) {s : PriorityScheduler}
    (h : Trans.Reach step CompactsInPlace (new fibers) s) : Reliable s := by
  have hix : Indexed s.pqueue := by
    refine Trans.Reach.invariant (P := fun s => Indexed s.pqueue) ?_ ?_ h
    · exact fun i item hitem => by simp [new] at hitem
    · exact fun s l s' hi hok hs => step_indexed hi hok hs
  exact hix.reliable

/-- Fiber 4 finishes at the end of the queue; the `Next` after that leaves fiber 3 reliable. -/
theorem priorityScheduler_reliable_finished_last :
    ∃ s, Trans.Reach step CompactsInPlace (new fourFibers) s ∧
      s.pqueue.map PriorityItem.fiber = [2, 3] ∧ Reliable s := by
  obtain ⟨s, hs, hp⟩ := Trans.exists_reach_of_exec_guarded step CompactsInPlace (new fourFibers)
    [.schedule 1, .schedule 2, .schedule 3, .schedule 4, .finish 4, .next]
    (fun s => s.pqueue.map PriorityItem.fiber == [2, 3]) (by decide +kernel)
  simp only [beq_iff_eq] at hp
  exact ⟨s, hs, hp, priorityScheduler_reliable fourFibers hs⟩

end GreenThreads.Scheduler.PriorityScheduler
