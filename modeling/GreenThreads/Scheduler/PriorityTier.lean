import GreenThreads.Scheduler.PriorityOrder

/-!
# GreenThreads — FIFO within a priority tier

`Less` breaks ties of priority by creation time, and fibers that are created within one tick of
the clock share that too. What is then first is decided by the sifting of the heap, which is not
stable: `Pop` moves the last entry to the front, and from there it does not go behind an entry that
it ties with. Only the first two fibers are safe from that.
-/

namespace GreenThreads.Scheduler.PriorityScheduler

open PriorityItem SliceHeap

variable {s s' : PriorityScheduler}

/-- Scheduled in list order and then drained, the fibers come back in that order. -/
def ReturnsInOrder (s : PriorityScheduler) (fs : List FiberID) : Prop :=
  ∃ s₁ s', Trans.exec step s (fs.map .schedule) = some s₁ ∧ s₁.Drains fs s'

/-- The fibers of a tier as they are created: unfinished, of one priority, and no later one with an
earlier creation time. -/
structure Tier (fibers : FiberID → Fiber) (p : Int) (created : List FiberID) : Prop where
  nodup : created.Nodup
  live : ∀ f ∈ created, (fibers f).isFinished = false
  priority : ∀ f ∈ created, (fibers f).priority = p
  clock : created.Pairwise fun f g => (fibers f).createdAt ≤ (fibers g).createdAt

theorem Tier.sublist {fibers : FiberID → Fiber} {p : Int} {fs created : List FiberID}
    (h : Tier fibers p created) (hsub : fs.Sublist created) : Tier fibers p fs where
  nodup := hsub.nodup h.nodup
  live f hf := h.live f (hsub.subset hf)
  priority f hf := h.priority f (hsub.subset hf)
  clock := h.clock.sublist hsub

/-! ## Scheduling a tier -/

/-- The queue holds the tier in the order of creation. -/
structure Lined (s : PriorityScheduler) (fs : List FiberID) : Prop where
  running : s.base.stopped = false
  keys : s.pqueue.map key = fs.map fun f => cloneKey (f, s.fibers f)

theorem Lined.sorted {fs : List FiberID} {p : Int} (h : Lined s fs) (ht : Tier s.fibers p fs) :
    s.pqueue.Pairwise fun a b => less b a = false := by
  have hkeys : (s.pqueue.map key).Pairwise fun a b => keyLess b a = false := by
    rw [h.keys, List.pairwise_map]
    refine ht.clock.imp_of_mem fun hf hg hle => ?_
    rw [not_keyLess_iff]
    simp only [cloneKey, ht.priority _ hf, ht.priority _ hg]
    omega
  exact List.pairwise_map.mp hkeys

/-- An entry is one of a fiber of the tier, at its priority. -/
theorem Lined.entry {fs : List FiberID} {p : Int} (h : Lined s fs) (ht : Tier s.fibers p fs)
    {item : PriorityItem} (hitem : item ∈ s.pqueue) :
    item.fiber ∈ fs ∧ item.priorityVal = p ∧ (s.fibers item.fiber).isFinished = false := by
  have hmem : item.key ∈ fs.map fun f => cloneKey (f, s.fibers f) := by
    rw [← h.keys]
    exact List.mem_map_of_mem hitem
  obtain ⟨f, hf, hkey⟩ := List.mem_map.mp hmem
  simp only [cloneKey, key, Prod.mk.injEq] at hkey
  obtain ⟨rfl, hprio, -⟩ := hkey
  exact ⟨hf, hprio.symm.trans (ht.priority _ hf), ht.live _ hf⟩

/-- A fiber that is not older than any queued one goes to the end. -/
theorem Lined.schedule {fs : List FiberID} {f : FiberID} {p : Int} (h : Lined s fs)
    (ht : Tier s.fibers p (fs ++ [f])) :
    ∃ s', s.step (.schedule f) = some s' ∧ Lined s' (fs ++ [f]) ∧ s'.fibers = s.fibers := by
  have hlast : ∀ a ∈ s.pqueue,
      pqOps.less ⟨f, (s.fibers f).priority, (s.fibers f).createdAt, 0⟩ a = false := by
    intro a ha
    have hmem : a.key ∈ fs.map fun f => cloneKey (f, s.fibers f) := by
      rw [← h.keys]
      exact List.mem_map_of_mem ha
    obtain ⟨g, hg, hkey⟩ := List.mem_map.mp hmem
    have hle := (List.pairwise_append.mp ht.clock).2.2 g hg f (List.mem_singleton.mpr rfl)
    have hpf := ht.priority f (by simp)
    have hpg := ht.priority g (List.mem_append_left _ hg)
    simp only [cloneKey, key, Prod.mk.injEq] at hkey
    exact not_less_iff.mpr (by dsimp only; omega)
  have hpush := push_of_last pqOps_lawful hlast
  have hstep : s.schedule f = some ({ s with
      base := { s.base with totalScheduled := s.base.totalScheduled + 1 }
      pqueue := s.pqueue ++ [⟨f, (s.fibers f).priority, (s.fibers f).createdAt, s.pqueue.length⟩] },
      none) := by
    unfold PriorityScheduler.schedule pushFiber
    rw [if_neg (by simp [h.running]), hpush]
    rfl
  refine ⟨_, congrArg (Option.map Prod.fst) hstep, ⟨h.running, ?_⟩, rfl⟩
  simp only [List.map_append, List.map_singleton, h.keys]
  rfl

/-- The rest of the tier. Induction on the list, in the order `exec` goes through it. -/
theorem Lined.scheduleAll {p : Int} {fs gs : List FiberID} (h : Lined s fs)
    (ht : Tier s.fibers p (fs ++ gs)) :
    ∃ s', Trans.exec step s (gs.map .schedule) = some s' ∧ Lined s' (fs ++ gs) ∧
      s'.fibers = s.fibers := by
  induction gs generalizing s fs with
  | nil => exact ⟨s, rfl, by rwa [List.append_nil], rfl⟩
  | cons g gs ih =>
    have hsplit : fs ++ g :: gs = (fs ++ [g]) ++ gs := by simp
    rw [hsplit] at ht ⊢
    obtain ⟨s₁, hs₁, hlined, hfib⟩ := h.schedule (ht.sublist (List.sublist_append_left _ gs))
    obtain ⟨s₂, hs₂, hlined₂, hfib₂⟩ := ih hlined (by rwa [hfib])
    exact ⟨s₂, by rw [List.map_cons, Trans.exec, hs₁, Option.bind_some, hs₂], hlined₂,
      hfib₂.trans hfib⟩

/-! ## The pops -/

/-- `Next` on a tier in order pops at once: the rebuilding of the heap moves nothing, and a pass
leaves the entries at one priority. -/
theorem next_of_sorted {p : Int} (hrun : s.base.stopped = false) (hne : s.pqueue ≠ [])
    (hlive : ∀ item ∈ s.pqueue, (s.fibers item.fiber).isFinished = false)
    (hp : ∀ item ∈ s.pqueue, item.priorityVal = p)
    (hsorted : s.pqueue.Pairwise fun a b => less b a = false) :
    ∃ (p' : Int) (fibers : FiberID → Fiber),
      (∀ f, (fibers f).isFinished = (s.fibers f).isFinished) ∧
      s.next = PriorityScheduler.popNext { s with
        pqueue := s.pqueue.map fun item => { item with priorityVal := p' }
        popCount := s.popCount + 1
        fibers := fibers } := by
  have hsame : s.pqueue.map (fun item => { item with priorityVal := p }) = s.pqueue := by
    refine (List.map_congr_left fun item hitem => ?_).trans (List.map_id _)
    rw [← hp item hitem]
    rfl
  have hkept : s.removeFinished = some s.pqueue := by
    have hlen : 0 < s.pqueue.length := List.length_pos_iff.mpr hne
    have hfilter : (s.pqueue.filter fun item => !s.finished item) = s.pqueue := unfinished_eq hlive
    unfold removeFinished
    rw [hfilter]
    dsimp only
    rw [if_pos hlen]
    exact init_of_ordered (orderedFrom_of_pairwise hsorted)
  obtain ⟨item, rest, hcons⟩ := List.exists_cons_of_ne_nil hne
  unfold next
  rw [if_neg (by simp [hrun]), hkept, hcons]
  dsimp only
  rw [← hcons]
  by_cases hdue : (s.popCount + 1) % 100 = 0
  · refine ⟨if p < agingLimit then p + 1 else p, ageFibers s.pqueue s.fibers,
      isFinished_ageFibers s.pqueue s.fibers, ?_⟩
    have haged : (s.pqueue.map age).Pairwise fun a b => less b a = false := by
      rw [map_age_of_level hp, List.pairwise_map]
      refine hsorted.imp_of_mem fun ha hb h => ?_
      have hpa := hp _ ha
      have hpb := hp _ hb
      rw [not_less_iff] at h ⊢
      dsimp only
      omega
    rw [if_pos hdue, ← map_age_of_level hp]
    unfold ageAllLocked
    dsimp only
    rw [init_of_ordered (orderedFrom_of_pairwise haged)]
    rfl
  · refine ⟨p, s.fibers, fun _ => rfl, ?_⟩
    rw [if_neg hdue, hsame]

/-- The first entry is popped, and the others stay. -/
theorem popNext_head {a : PriorityItem} {rest : List PriorityItem} (h : s.pqueue = a :: rest) :
    ∃ pq, s.popNext = some ({ s with pqueue := pq, base := s.base.recordSwitch }, .ok a.fiber) ∧
      (pq.map key).Perm (rest.map key) := by
  obtain ⟨l, x, hs, hpop, hx, hx0⟩ := pop_swaps (o := pqOps) (l := a :: rest) (by simp)
  subst hx0
  refine ⟨l.dropLast, ?_, (keys_of_cut hs hx).cons_inv⟩
  unfold popNext
  rw [h, hpop]
  rfl

/-- `Next` on a tier in order returns its first fiber and leaves the others, all at one
priority. -/
theorem Lined.next {f : FiberID} {gs : List FiberID} {p : Int} (h : Lined s (f :: gs))
    (ht : Tier s.fibers p (f :: gs)) :
    ∃ s₁ p', s.next = some (s₁, .ok f) ∧ s₁.base.stopped = false ∧
      (s₁.pqueue.map key).Perm (gs.map fun g => (g, p', (s.fibers g).createdAt)) ∧
      ∀ g, (s₁.fibers g).isFinished = (s.fibers g).isFinished := by
  obtain ⟨a, rest, hcons⟩ : ∃ a rest, s.pqueue = a :: rest := by
    refine List.exists_cons_of_ne_nil fun hnil => ?_
    have hkeys := h.keys
    rw [hnil] at hkeys
    cases hkeys
  have hkeys := h.keys
  rw [hcons, List.map_cons, List.map_cons, List.cons.injEq] at hkeys
  obtain ⟨p', fibers, hfin, hnext⟩ := next_of_sorted h.running (by simp [hcons])
    (fun item hitem => (h.entry ht hitem).2.2) (fun item hitem => (h.entry ht hitem).2.1)
    (h.sorted ht)
  obtain ⟨pq, hpop, hperm⟩ := popNext_head (s := { s with
    pqueue := s.pqueue.map fun item => { item with priorityVal := p' }
    popCount := s.popCount + 1
    fibers := fibers }) (by rw [hcons]; rfl)
  have haf : a.fiber = f := congrArg Prod.fst hkeys.1
  rw [haf] at hpop
  refine ⟨_, p', hnext.trans hpop, h.running, hperm.trans (.of_eq ?_), hfin⟩
  have hmap := congrArg (List.map fun k : FiberID × Int × Int => (k.1, p', k.2.2)) hkeys.2
  rw [List.map_map, List.map_map] at hmap
  rw [List.map_map]
  exact hmap

/-- If only the first two can tie, the tier is drained in order: the first `Next` returns the
first fiber, and the others can be sorted in one way. -/
theorem Lined.drains {fs : List FiberID} {p : Int} (h : Lined s fs) (ht : Tier s.fibers p fs)
    (hstrict : fs.tail.Pairwise fun f g => (s.fibers f).createdAt < (s.fibers g).createdAt) :
    ∃ s', s.Drains fs s' := by
  cases fs with
  | nil =>
    obtain ⟨ks, s', hdrain, -, hks, -⟩ := exists_drains h.running
      (fun item hitem => (h.entry ht hitem).2.2) (.inr ⟨p, by rw [h.keys]; nofun⟩)
    rw [h.keys] at hks
    rw [List.Perm.eq_nil hks] at hdrain
    exact ⟨s', hdrain⟩
  | cons f gs =>
    obtain ⟨s₁, p', hnext, hrun, hperm, hfin⟩ := h.next ht
    have hkey : ∀ k ∈ s₁.pqueue.map key, ∃ g ∈ gs, (g, p', (s.fibers g).createdAt) = k :=
      fun k hk => List.mem_map.mp (hperm.mem_iff.mp hk)
    have hlive : ∀ item ∈ s₁.pqueue, (s₁.fibers item.fiber).isFinished = false := by
      intro item hitem
      obtain ⟨g, hg, heq⟩ := hkey item.key (List.mem_map_of_mem hitem)
      have hfib : g = item.fiber := congrArg Prod.fst heq
      rw [hfin, ← hfib]
      exact ht.live g (List.mem_cons_of_mem _ hg)
    have hlevel : Level (s₁.pqueue.map key) := by
      refine .inr ⟨p', fun k hk => ?_⟩
      obtain ⟨g, -, rfl⟩ := hkey k hk
      rfl
    obtain ⟨ks, s', hdrain, -, hks, hsorted⟩ := exists_drains hrun hlive hlevel
    have hanti : ∀ a b : FiberID × Int × Int, a ∈ ks →
        b ∈ gs.map (fun g => (g, p', (s.fibers g).createdAt)) →
        keyLess b a = false → keyLess a b = false → a = b := by
      intro a b ha hb hba hab
      obtain ⟨g, hg, rfl⟩ := hkey a (hks.mem_iff.mp ha)
      obtain ⟨g', hg', rfl⟩ := List.mem_map.mp hb
      have hnodup : (gs.map fun g => (s.fibers g).createdAt).Nodup :=
        List.pairwise_map.mpr (hstrict.imp fun hlt => by omega)
      have hsame : g = g' := List.inj_on_of_nodup_map hnodup hg hg' (by
        rw [not_keyLess_iff] at hab hba
        dsimp only at hab hba
        omega)
      rw [hsame]
    have hclock : (gs.map fun g => (g, p', (s.fibers g).createdAt)).Pairwise fun a b =>
        keyLess b a = false := by
      refine List.pairwise_map.mpr (hstrict.imp fun hlt => ?_)
      rw [not_keyLess_iff]
      dsimp only
      omega
    have heq := (hks.trans hperm).eq_of_pairwise hanti hsorted hclock
    rw [heq, List.map_map] at hdrain
    have hfst : gs.map (Prod.fst ∘ fun g => (g, p', (s.fibers g).createdAt)) = gs := List.map_id gs
    rw [hfst] at hdrain
    exact ⟨s', .next hnext hdrain⟩

/-- The pop of the first of three fibers puts the last one to the front, where it stays if it
ties with the other. -/
theorem Lined.next_tie {f a b : FiberID} {p : Int} (h : Lined s [f, a, b])
    (ht : Tier s.fibers p [f, a, b])
    (htie : (s.fibers a).createdAt = (s.fibers b).createdAt) :
    ∃ s₁ y z, s.next = some (s₁, .ok f) ∧ s₁.base.stopped = false ∧ s₁.pqueue = [z, y] ∧
      z.fiber = b ∧ z.priorityVal = y.priorityVal ∧ z.createdAtVal = y.createdAtVal ∧
      ∀ item ∈ s₁.pqueue, (s₁.fibers item.fiber).isFinished = false := by
  obtain ⟨x, y, z, hpq⟩ : ∃ x y z, s.pqueue = [x, y, z] := by
    refine List.length_eq_three.mp ?_
    have hlen := congrArg List.length h.keys
    simpa using hlen
  have hkeys := h.keys
  simp only [hpq, List.map_cons, List.map_nil, List.cons.injEq, and_true, key, cloneKey,
    Prod.mk.injEq] at hkeys
  obtain ⟨⟨hxf, -⟩, ⟨-, -, hyc⟩, hzb, -, hzc⟩ := hkeys
  have hlive : ∀ item ∈ s.pqueue, (s.fibers item.fiber).isFinished = false :=
    fun item hitem => (h.entry ht hitem).2.2
  obtain ⟨p₁, fibers, hfin, hnext⟩ := next_of_sorted h.running (by simp [hpq]) hlive
    (fun item hitem => (h.entry ht hitem).2.1) (h.sorted ht)
  have hpop : pop pqOps (s.pqueue.map fun item => { item with priorityVal := p₁ })
      = some ([⟨z.fiber, p₁, z.createdAtVal, 0⟩, { y with priorityVal := p₁ }],
        ⟨x.fiber, p₁, x.createdAtVal, 2⟩) := by
    rw [hpq]
    refine pop_of_last_least pqOps_lawful (b := { z with priorityVal := p₁ })
      (l := [{ y with priorityVal := p₁ }]) fun c hc => ?_
    cases List.mem_singleton.mp hc
    exact not_less_iff.mpr (by dsimp only; omega)
  have hfirst : s.next = some ({ s with
      base := s.base.recordSwitch
      pqueue := [⟨z.fiber, p₁, z.createdAtVal, 0⟩, { y with priorityVal := p₁ }]
      popCount := s.popCount + 1
      fibers := fibers }, .ok f) := by
    rw [hnext, popNext, hpop, ← hxf]
    rfl
  refine ⟨_, _, _, hfirst, h.running, rfl, hzb, rfl, by dsimp only; omega, fun item hitem => ?_⟩
  rw [hfin]
  rw [hpq] at hlive
  rcases List.mem_pair.mp hitem with rfl | rfl
  · exact hlive z (by simp)
  · exact hlive y (by simp)

theorem Lined.not_drains {f a b : FiberID} {p : Int} (h : Lined s [f, a, b])
    (ht : Tier s.fibers p [f, a, b])
    (htie : (s.fibers a).createdAt = (s.fibers b).createdAt) : ¬ s.Drains [f, a, b] s' := by
  intro hdrain
  obtain ⟨s₁, y, z, hnext, hrun, hpq, hzb, hprio, hclock, hlive⟩ := h.next_tie ht htie
  cases hdrain with
  | next hfirst hrest =>
    cases hnext.symm.trans hfirst
    cases hrest with
    | next hsecond _ =>
      have hprio₁ : ∀ item ∈ s₁.pqueue, item.priorityVal = y.priorityVal := by
        rw [hpq]
        simp [hprio]
      have hsorted : s₁.pqueue.Pairwise fun a b => less b a = false := by
        rw [hpq]
        refine List.pairwise_pair.mpr (not_less_iff.mpr ?_)
        omega
      obtain ⟨p₂, fibers, -, hnext₂⟩ := next_of_sorted hrun (by simp [hpq]) hlive hprio₁ hsorted
      obtain ⟨pq, hpop, -⟩ := popNext_head (s := { s₁ with
        pqueue := s₁.pqueue.map fun item => { item with priorityVal := p₂ }
        popCount := s₁.popCount + 1
        fibers := fibers }) (by rw [hpq]; rfl)
      have hab : b = a := by
        rw [hnext₂, hpop, hzb] at hsecond
        injection hsecond with hsecond
        injection (Prod.mk.inj hsecond).2
      have hnodup := ht.nodup
      simp [hab] at hnodup

/-- Every list of fibers of a tier, scheduled in order on an empty scheduler, comes back in that
order if and only if no two fibers of the tier but the first two have the same creation time. -/
theorem tier_in_order_iff {p : Int} {created : List FiberID} (hrun : s.base.stopped = false)
    (hempty : s.pqueue = []) (ht : Tier s.fibers p created) :
    (∀ fs, fs.Sublist created → s.ReturnsInOrder fs)
      ↔ created.tail.Pairwise fun f g => (s.fibers f).createdAt < (s.fibers g).createdAt := by
  have hlined : Lined s [] := ⟨hrun, by rw [hempty]; rfl⟩
  constructor
  · intro hall
    refine List.pairwise_iff_forall_sublist.mpr fun {a b} hab => ?_
    cases created with
    | nil => cases hab
    | cons f created =>
      have hsub : [f, a, b].Sublist (f :: created) := hab.cons_cons f
      have ht₃ := ht.sublist hsub
      have hle := List.rel_of_pairwise_cons (List.pairwise_cons.mp ht₃.clock).2
        (List.mem_singleton.mpr rfl)
      by_contra hlt
      obtain ⟨s₁, s', hs₁, hdrain⟩ := hall _ hsub
      have hall₃ : Tier s.fibers p ([] ++ [f, a, b]) := ht₃
      obtain ⟨s₂, hs₂, hlined₂, hfib⟩ := hlined.scheduleAll hall₃
      cases hs₁.symm.trans hs₂
      rw [← hfib] at ht₃
      exact hlined₂.not_drains ht₃ (by rw [hfib]; omega) hdrain
  · intro hstrict fs hsub
    have hfs : Tier s.fibers p ([] ++ fs) := ht.sublist hsub
    obtain ⟨s₁, hs₁, hlined₁, hfib⟩ := hlined.scheduleAll hfs
    have ht₁ := ht.sublist hsub
    rw [← hfib] at ht₁ hstrict
    obtain ⟨s', hdrain⟩ := hlined₁.drains ht₁ (hstrict.sublist hsub.tail)
    exact ⟨s₁, s', hs₁, hdrain⟩

/-- Three fibers created within one tick are returned first, third, second. -/
theorem tier_of_one_tick :
    let s := new fun _ => { createdAt := 7 }
    Tier s.fibers 0 [1, 2, 3] ∧ ¬ s.ReturnsInOrder [1, 2, 3] ∧
      ∃ s₁ s', Trans.exec step s [.schedule 1, .schedule 2, .schedule 3] = some s₁ ∧
        s₁.Drains [1, 3, 2] s' := by
  intro s
  have hrun : ∃ s₁, Trans.exec step s [.schedule 1, .schedule 2, .schedule 3] = some s₁ ∧
      drain 4 s₁ = some [1, 3, 2] := by
    refine Option.bind_eq_some_iff.mp ?_
    decide +kernel
  obtain ⟨s₁, hs₁, hd⟩ := hrun
  obtain ⟨s', hdrain⟩ := drains_of_drain hd
  refine ⟨⟨by decide, by decide, by decide, by decide⟩, ?_, s₁, s', hs₁, hdrain⟩
  rintro ⟨s₂, s'', hs₂, hdrain'⟩
  cases hs₁.symm.trans hs₂
  exact absurd (hdrain.unique hdrain') (by decide)

/-- Of these four fibers the first two are created within one tick. -/
theorem tier_in_order_iff_first_two :
    let s := new fun f => { createdAt := if f = 1 then 2 else f }
    s.ReturnsInOrder [1, 2, 3, 4] := by
  intro s
  have htier : Tier s.fibers 0 [1, 2, 3, 4] := ⟨by decide, by decide, by decide, by decide⟩
  exact (tier_in_order_iff (s := s) rfl rfl htier).mpr (by decide) _ (List.Sublist.refl _)

end GreenThreads.Scheduler.PriorityScheduler
