import GreenThreads.Sync.Records

/-!
# GreenThreads — fiber state and wait queues agree

The invariant `Mirror` of the system of many fibers and many primitives: where a fiber is in
its code, which waiter records there are and what the fiber's state says are three views of
one thing. Of the primitives it only uses what their sections do to the records.
-/

namespace GreenThreads.Sync

variable {V : Type*} {p : IntSize}

/-! ## Fibers -/

namespace BlockedFiber

theorem unblock_unblock (f : BlockedFiber) : f.unblock.unblock = f.unblock := by
  have hfiber : f.toFiber.unblock.unblock = f.toFiber.unblock := by
    cases hc : f.completion <;> cases hs : f.runStarted <;> simp [Fiber.unblock, hc, hs]
  simp [unblock, hfiber]

end BlockedFiber

namespace Blocking

/-- A round of `Unblock`s reaches exactly the fibers of the round. -/
theorem unblockAll_apply (fibers : FiberRef → BlockedFiber) (ws : List Waiter) (f : FiberRef) :
    unblockAll fibers ws f
      = if f ∈ ws.map Waiter.fiber then (fibers f).unblock else fibers f := by
  induction ws generalizing fibers with
  | nil => simp [unblockAll]
  | cons w ws ih =>
    rw [show unblockAll fibers (w :: ws) f
      = unblockAll (Function.update fibers w.fiber (fibers w.fiber).unblock) ws f from rfl, ih]
    by_cases hf : f = w.fiber
    · subst hf
      simp [BlockedFiber.unblock_unblock]
    · simp [hf]

/-! ## The invariant -/

/-- A fiber has no open wait: it is in no blocking call, or its `ready` channel is closed and
it has only to resume. -/
def World.Released (w : World V p) (f : FiberRef) : Prop :=
  w.pc f = .idle ∨ ∃ c i q ctx, w.pc f = .waiting c i q ctx ∧ c ∈ w.closed

/-- Code, queues and fiber states agree. Records and open waits are the same thing (`record`,
`wait`); a fiber with an open wait is blocked on its primitive, and one without is free, except
between the two halves of a cancel path. -/
structure Mirror (w : World V p) : Prop where
  nodup : ∀ i, (callsOf (w.objs i).records).Nodup
  record : ∀ i q wt, (q, wt) ∈ (w.objs i).records →
    (∃ ctx, w.pc wt.fiber = .waiting wt.call i q ctx) ∧ wt.call ∉ w.closed
  wait : ∀ f c i q ctx, w.pc f = .waiting c i q ctx → c ∉ w.closed →
    (q, ⟨c, f⟩) ∈ (w.objs i).records ∧ (w.fibers f).On i
  free : ∀ f, w.Released f → (w.fibers f).Free
  live : ∀ f, (w.fibers f).Live
  call_lt : ∀ f c, (w.pc f).call? = some c → c < w.calls
  closed_lt : ∀ c ∈ w.closed, c < w.calls
  call_inj : ∀ f f' c, (w.pc f).call? = some c → (w.pc f').call? = some c → f = f'

theorem Fresh.records_eq {o : Obj V p} (h : o.Fresh) : o.records = [] := by
  cases h with
  | semaphore permits => simp [Obj.records, FiberSemaphore.new]
  | _ => rfl

theorem Initial.mirror {w : World V p} (h : Initial w) : Mirror w where
  nodup i := by simp [Fresh.records_eq (h.objs i), callsOf]
  record i q wt hr := by simp [Fresh.records_eq (h.objs i)] at hr
  wait f c i q ctx hpc := by simp [h.pc f] at hpc
  free f _ := h.fibers f
  live f := (h.fibers f).1
  call_lt f c hc := by simp [h.pc f, Pc.call?] at hc
  closed_lt c hc := by simp [h.closed] at hc
  call_inj f f' c hc := by simp [h.pc f, Pc.call?] at hc

namespace Mirror

variable {w : World V p}

/-- The call of a record is the call its fiber is in. -/
theorem record_call (hm : Mirror w) {i : ObjId} {q : Queue} {wt : Waiter}
    (hr : (q, wt) ∈ (w.objs i).records) : (w.pc wt.fiber).call? = some wt.call := by
  obtain ⟨⟨ctx, hpc⟩, -⟩ := hm.record i q wt hr
  rw [hpc, Pc.call?]

/-- Two records of one call are in one primitive, in one queue, and for one fiber. -/
theorem record_unique (hm : Mirror w) {i j : ObjId} {q q' : Queue} {wt wt' : Waiter}
    (hr : (q, wt) ∈ (w.objs i).records) (hr' : (q', wt') ∈ (w.objs j).records)
    (hcall : wt.call = wt'.call) : i = j ∧ q = q' ∧ wt = wt' := by
  have hfiber : wt.fiber = wt'.fiber :=
    hm.call_inj _ _ wt'.call (hcall ▸ hm.record_call hr) (hm.record_call hr')
  obtain ⟨⟨ctx, hpc⟩, -⟩ := hm.record i q wt hr
  obtain ⟨⟨ctx', hpc'⟩, -⟩ := hm.record j q' wt' hr'
  rw [hfiber, hpc'] at hpc
  injection hpc with _ hi hq _
  obtain ⟨c, f⟩ := wt
  obtain ⟨c', f'⟩ := wt'
  simp only at hcall hfiber
  exact ⟨hi.symm, hq.symm, by rw [hcall, hfiber]⟩

/-! ### Records that come and go -/

/-- A section has taken the records `out` out of the primitive `i`. -/
theorem mem_taken (hm : Mirror w) {i : ObjId} {o' : Obj V p} {out : List Record}
    (hperm : (w.objs i).records.Perm (out ++ o'.records)) {j : ObjId} {q : Queue} {wt : Waiter} :
    (q, wt) ∈ (Function.update w.objs i o' j).records
      ↔ (q, wt) ∈ (w.objs j).records ∧ wt.call ∉ callsOf out := by
  have hnd : (callsOf (out ++ o'.records)).Nodup :=
    (hperm.map fun r : Record => r.2.call).nodup_iff.mp (hm.nodup i)
  rw [callsOf, List.map_append] at hnd
  have hdisj := (List.nodup_append'.mp hnd).2.2
  by_cases hj : j = i
  · subst hj
    rw [Function.update_self, hperm.mem_iff, List.mem_append]
    constructor
    · exact fun hr => ⟨.inr hr, fun hc => hdisj hc (List.mem_map_of_mem hr)⟩
    · rintro ⟨hr | hr, hc⟩
      · exact absurd (List.mem_map_of_mem hr) hc
      · exact hr
  · rw [Function.update_of_ne hj]
    refine ⟨fun hr => ⟨hr, fun hc => hj ?_⟩, And.left⟩
    -- a record of a call that `out` has is in `i`
    obtain ⟨⟨q', wt'⟩, hr', hcall⟩ := List.mem_map.mp hc
    exact (hm.record_unique hr (hperm.mem_iff.mpr (List.mem_append_left _ hr')) hcall.symm).1

theorem nodup_taken (hm : Mirror w) {i : ObjId} {o' : Obj V p} {out : List Record}
    (hperm : (w.objs i).records.Perm (out ++ o'.records)) (j : ObjId) :
    (callsOf (Function.update w.objs i o' j).records).Nodup := by
  by_cases hj : j = i
  · subst hj
    rw [Function.update_self]
    have hnd := (hperm.map fun r : Record => r.2.call).nodup_iff.mp (hm.nodup j)
    rw [List.map_append] at hnd
    exact (List.nodup_append'.mp hnd).2.1
  · rw [Function.update_of_ne hj]
    exact hm.nodup j

/-- The fibers of some records are those in the calls of these records. -/
theorem mem_fibers_iff (hm : Mirror w) {i : ObjId} {out : List Record}
    (hout : ∀ r ∈ out, r ∈ (w.objs i).records) (f : FiberRef) :
    f ∈ (out.map Prod.snd).map Waiter.fiber ↔ ∃ c ∈ callsOf out, (w.pc f).call? = some c := by
  constructor
  · intro hf
    obtain ⟨wt, hwt, rfl⟩ := List.mem_map.mp hf
    obtain ⟨⟨q, wt⟩, hr, rfl⟩ := List.mem_map.mp hwt
    exact ⟨wt.call, List.mem_map_of_mem hr, hm.record_call (hout _ hr)⟩
  · rintro ⟨c, hc, hcall⟩
    obtain ⟨⟨q, wt⟩, hr, rfl⟩ := List.mem_map.mp hc
    have hfiber := hm.call_inj _ _ _ (hm.record_call (hout _ hr)) hcall
    exact hfiber ▸ List.mem_map_of_mem (List.mem_map_of_mem hr)

/-- A section has added the record `r` to the primitive `i`. -/
theorem mem_added {i : ObjId} {o' : Obj V p} {r : Record}
    (hperm : o'.records.Perm (r :: (w.objs i).records)) {j : ObjId} {q : Queue} {wt : Waiter} :
    (q, wt) ∈ (Function.update w.objs i o' j).records
      ↔ j = i ∧ (q, wt) = r ∨ (q, wt) ∈ (w.objs j).records := by
  by_cases hj : j = i
  · subst hj
    simp [hperm.mem_iff]
  · simp [hj]

/-! ### Leaving a wait -/

/-- Moving one fiber on within its call, or out of it, starts no call. -/
theorem call?_update (w : World V p) (f : FiberRef) (pc : Pc)
    (h : ∀ d, pc.call? = some d → (w.pc f).call? = some d) (g : FiberRef) (d : Nat)
    (hd : (Function.update w.pc f pc g).call? = some d) : (w.pc g).call? = some d := by
  by_cases hg : g = f
  · subst hg
    rw [Function.update_self] at hd
    exact h d hd
  · rwa [Function.update_of_ne hg] at hd

/-- A fiber gets out of its wait, to `pc`: its record is gone and nobody else's, and where its
call returns the fiber is free. -/
theorem release (hm : Mirror w) {f : FiberRef} {pc : Pc} {objs : ObjId → Obj V p}
    {fiber : BlockedFiber} (hpc : ∀ c i q ctx, pc ≠ .waiting c i q ctx)
    (hcall : ∀ d, pc.call? = some d → (w.pc f).call? = some d)
    (hnodup : ∀ j, (callsOf (objs j).records).Nodup)
    (hrecord : ∀ j q wt,
      (q, wt) ∈ (objs j).records ↔ (q, wt) ∈ (w.objs j).records ∧ wt.fiber ≠ f)
    (hlive : fiber.Live) (hfree : pc = .idle → fiber.Free) :
    Mirror { w with objs := objs
                    fibers := Function.update w.fibers f fiber
                    pc := Function.update w.pc f pc } := by
  have hcalls := call?_update w f pc hcall
  constructor
  case nodup => exact hnodup
  case record =>
    intro j q wt hr
    obtain ⟨hold, hne⟩ := (hrecord j q wt).mp hr
    simp only [Function.update_of_ne hne]
    exact hm.record j q wt hold
  case wait =>
    intro g d j q ctx hg hd
    by_cases hne : g = f
    · subst hne
      exact absurd (Function.update_self g pc w.pc ▸ hg) (hpc d j q ctx)
    · simp only [Function.update_of_ne hne] at hg ⊢
      obtain ⟨hr, hon⟩ := hm.wait g d j q ctx hg hd
      exact ⟨(hrecord j q _).mpr ⟨hr, hne⟩, hon⟩
  case free =>
    intro g hrel
    by_cases hne : g = f
    · subst hne
      simp only [World.Released, Function.update_self] at hrel ⊢
      rcases hrel with hidle | ⟨c, i, q, ctx, hwait, -⟩
      · exact hfree hidle
      · exact absurd hwait (hpc c i q ctx)
    · simp only [World.Released, Function.update_of_ne hne] at hrel ⊢
      exact hm.free g hrel
  case live =>
    exact (Function.forall_update_iff w.fibers fun _ b => b.Live).mpr
      ⟨hlive, fun g _ => hm.live g⟩
  case call_lt => exact fun g d hd => hm.call_lt g d (hcalls g d hd)
  case closed_lt => exact hm.closed_lt
  case call_inj => exact fun g g' d hd hd' => hm.call_inj g g' d (hcalls g d hd) (hcalls g' d hd')

/-- No record is of a fiber that has no open wait. -/
theorem no_record (hm : Mirror w) {f : FiberRef}
    (hf : ∀ c i q ctx, w.pc f = .waiting c i q ctx → c ∈ w.closed) (j : ObjId) (q : Queue)
    (wt : Waiter) : (q, wt) ∈ (w.objs j).records
      ↔ (q, wt) ∈ (w.objs j).records ∧ wt.fiber ≠ f := by
  refine ⟨fun hr => ⟨hr, ?_⟩, And.left⟩
  rintro rfl
  obtain ⟨⟨ctx, hpc⟩, hopen⟩ := hm.record j q wt hr
  exact hopen (hf _ _ _ _ hpc)

/-- A fiber whose `ready` channel is closed returns from its call. -/
theorem resume (hm : Mirror w) {f : FiberRef} {c : Nat} {i : ObjId} {q : Queue} {ctx : Bool}
    (hpc : w.pc f = .waiting c i q ctx) (hc : c ∈ w.closed) :
    Mirror { w with pc := Function.update w.pc f .idle } := by
  have hfree := hm.free f (.inr ⟨c, i, q, ctx, hpc, hc⟩)
  have hclosed : ∀ c' i q ctx, w.pc f = .waiting c' i q ctx → c' ∈ w.closed := by
    intro c' i' q' ctx' hpc'
    rw [hpc] at hpc'
    injection hpc' with hcall
    exact hcall ▸ hc
  have hw : Mirror { w with fibers := Function.update w.fibers f (w.fibers f)
                            pc := Function.update w.pc f .idle } :=
    hm.release nofun nofun hm.nodup (hm.no_record hclosed) hfree.1 fun _ => hfree
  rwa [Function.update_eq_self] at hw

/-- The first half of a cancel path takes the record of the call out. -/
theorem cancel (hm : Mirror w) {f : FiberRef} {c : Nat} {i : ObjId} {q : Queue} {ctx : Bool}
    (hpc : w.pc f = .waiting c i q ctx) (hc : c ∉ w.closed) :
    Mirror { w with objs := Function.update w.objs i ((w.objs i).withdraw q c)
                    pc := Function.update w.pc f (.leaving c) } := by
  have hcall : (w.pc f).call? = some c := by rw [hpc, Pc.call?]
  have hperm : (w.objs i).records.Perm ([(q, ⟨c, f⟩)] ++ ((w.objs i).withdraw q c).records) :=
    Obj.withdraw_perm (hm.nodup i) (hm.wait f c i q ctx hpc hc).1
  -- the record of the call is the record of the fiber
  have hrecord : ∀ j q' wt,
      (q', wt) ∈ (Function.update w.objs i ((w.objs i).withdraw q c) j).records
        ↔ (q', wt) ∈ (w.objs j).records ∧ wt.fiber ≠ f := by
    intro j q' wt
    rw [hm.mem_taken hperm]
    refine and_congr_right fun hr => not_congr ?_
    rw [show callsOf [(q, (⟨c, f⟩ : Waiter))] = [c] from rfl, List.mem_singleton]
    have hold := hm.record_call hr
    constructor
    · exact fun heq => hm.call_inj _ _ c (heq ▸ hold) hcall
    · rintro rfl
      exact Option.some.inj (hold.symm.trans hcall)
  have hw : Mirror { w with objs := Function.update w.objs i ((w.objs i).withdraw q c)
                            fibers := Function.update w.fibers f (w.fibers f)
                            pc := Function.update w.pc f (.leaving c) } :=
    hm.release nofun (fun _ hd => hcall.trans hd) (hm.nodup_taken hperm) hrecord (hm.live f) nofun
  rwa [Function.update_eq_self] at hw

/-- The second half of a cancel path. -/
theorem leave (hm : Mirror w) {f : FiberRef} {c : Nat} (hpc : w.pc f = .leaving c) :
    Mirror { w with fibers := Function.update w.fibers f (w.fibers f).unblock
                    pc := Function.update w.pc f .idle } := by
  have hfree := (hm.live f).unblock
  exact hm.release nofun nofun hm.nodup (hm.no_record (by simp [hpc])) hfree.1 fun _ => hfree

/-! ### First sections -/

/-- A section that returns and takes the records `out` out of the primitive `i`. -/
theorem returns (hm : Mirror w) {i : ObjId} {o' : Obj V p} {out : List Record}
    (hperm : (w.objs i).records.Perm (out ++ o'.records)) :
    Mirror { w with objs := Function.update w.objs i o'
                    fibers := unblockAll w.fibers (out.map Prod.snd)
                    calls := w.calls + 1
                    closed := w.closed ++ callsOf out } := by
  have hout : ∀ r ∈ out, r ∈ (w.objs i).records :=
    fun r hr => hperm.mem_iff.mpr (List.mem_append_left _ hr)
  constructor
  case nodup => exact hm.nodup_taken hperm
  case record =>
    intro j q wt hr
    obtain ⟨hold, hround⟩ := (hm.mem_taken hperm).mp hr
    obtain ⟨hpc, hopen⟩ := hm.record j q wt hold
    exact ⟨hpc, fun hc => (List.mem_append.mp hc).elim hopen hround⟩
  case wait =>
    intro f c j q ctx hpc hc
    have hround : c ∉ callsOf out := fun h => hc (List.mem_append_right _ h)
    obtain ⟨hr, hon⟩ := hm.wait f c j q ctx hpc fun h => hc (List.mem_append_left _ h)
    refine ⟨(hm.mem_taken hperm).mpr ⟨hr, hround⟩, ?_⟩
    -- a fiber that is unblocked is in a call of the round
    have hf : f ∉ (out.map Prod.snd).map Waiter.fiber := by
      rw [hm.mem_fibers_iff hout, hpc]
      rintro ⟨c', hc', hcall⟩
      exact hround (Option.some.inj hcall ▸ hc')
    simp only [unblockAll_apply, if_neg hf]
    exact hon
  case free =>
    intro f hrel
    simp only [unblockAll_apply]
    by_cases hf : f ∈ (out.map Prod.snd).map Waiter.fiber
    · rw [if_pos hf]
      exact (hm.live f).unblock
    · rw [if_neg hf]
      refine hm.free f (hrel.imp_right ?_)
      rintro ⟨c, j, q, ctx, hpc, hc⟩
      refine ⟨c, j, q, ctx, hpc, (List.mem_append.mp hc).resolve_right fun hc => hf ?_⟩
      exact (hm.mem_fibers_iff hout f).mpr ⟨c, hc, by rw [hpc, Pc.call?]⟩
  case live =>
    intro f
    simp only [unblockAll_apply]
    split
    · exact (hm.live f).unblock.1
    · exact hm.live f
  case call_lt => exact fun f c hc => Nat.lt_succ_of_lt (hm.call_lt f c hc)
  case closed_lt =>
    intro c hc
    rcases List.mem_append.mp hc with hc | hc
    · exact Nat.lt_succ_of_lt (hm.closed_lt c hc)
    · obtain ⟨⟨q, wt⟩, hr, rfl⟩ := List.mem_map.mp hc
      exact Nat.lt_succ_of_lt (hm.call_lt _ _ (hm.record_call (hout _ hr)))
  case call_inj => exact hm.call_inj

/-- A new call is in no record, and its `ready` channel is open. -/
theorem fresh_call (hm : Mirror w) :
    w.calls ∉ w.closed ∧ ∀ j, w.calls ∉ callsOf (w.objs j).records := by
  refine ⟨fun h => absurd (hm.closed_lt _ h) (Nat.lt_irrefl _), fun j hc => ?_⟩
  obtain ⟨⟨q, wt⟩, hr, hcall⟩ := List.mem_map.mp hc
  have hlt := hm.call_lt _ _ (hm.record_call hr)
  exact absurd hcall hlt.ne

/-- No two fibers are in one call after `f` has begun the call `w.calls`. -/
theorem call_inj_new (hm : Mirror w) {f : FiberRef} {pc : Pc} (hpc : pc.call? = some w.calls)
    (g g' : FiberRef) (d : Nat) (hd : (Function.update w.pc f pc g).call? = some d)
    (hd' : (Function.update w.pc f pc g').call? = some d) : g = g' := by
  -- the new call's number is above all others
  have hold : ∀ {g}, (w.pc g).call? = some d → w.calls ≠ d := fun h => (hm.call_lt _ d h).ne'
  by_cases hg : g = f <;> by_cases hg' : g' = f
  · rw [hg, hg']
  · subst hg
    rw [Function.update_self, hpc] at hd
    rw [Function.update_of_ne hg'] at hd'
    exact absurd (Option.some.inj hd) (hold hd')
  · subst hg'
    rw [Function.update_self, hpc] at hd'
    rw [Function.update_of_ne hg] at hd
    exact absurd (Option.some.inj hd') (hold hd)
  · rw [Function.update_of_ne hg] at hd
    rw [Function.update_of_ne hg'] at hd'
    exact hm.call_inj g g' d hd hd'

/-- A section that parks its caller. -/
theorem parks (hm : Mirror w) {f : FiberRef} {i : ObjId} {o' : Obj V p} {q : Queue}
    (reason : String) (ctx : Bool) (hidle : w.pc f = .idle)
    (hperm : o'.records.Perm ((q, ⟨w.calls, f⟩) :: (w.objs i).records)) :
    Mirror { w with objs := Function.update w.objs i o'
                    fibers := Function.update w.fibers f ((w.fibers f).block reason i)
                    pc := Function.update w.pc f (.waiting w.calls i q ctx)
                    calls := w.calls + 1 } := by
  obtain ⟨hnew, hfresh⟩ := hm.fresh_call
  have hother := hm.no_record (f := f) (by simp [hidle])
  constructor
  case nodup =>
    refine (Function.forall_update_iff w.objs fun _ o => (callsOf o.records).Nodup).mpr
      ⟨?_, fun j _ => hm.nodup j⟩
    refine (hperm.map fun r : Record => r.2.call).nodup_iff.mpr ?_
    exact List.nodup_cons.mpr ⟨hfresh i, hm.nodup i⟩
  case record =>
    intro j q' wt hr
    rcases (mem_added hperm).mp hr with ⟨rfl, heq⟩ | hr
    · cases heq
      exact ⟨⟨ctx, Function.update_self _ _ _⟩, hnew⟩
    · simp only [Function.update_of_ne ((hother j q' wt).mp hr).2]
      exact hm.record j q' wt hr
  case wait =>
    intro g d j q' ctx' hpc hd
    by_cases hg : g = f
    · subst hg
      simp only [Function.update_self] at hpc ⊢
      cases hpc
      exact ⟨(mem_added hperm).mpr (.inl ⟨rfl, rfl⟩), (hm.live g).block reason i⟩
    · simp only [Function.update_of_ne hg] at hpc ⊢
      obtain ⟨hr, hon⟩ := hm.wait g d j q' ctx' hpc hd
      exact ⟨(mem_added hperm).mpr (.inr hr), hon⟩
  case free =>
    intro g hrel
    by_cases hg : g = f
    · subst hg
      simp only [World.Released, Function.update_self] at hrel
      rcases hrel with hrel | ⟨c, j, q', ctx', hpc, hc⟩
      · cases hrel
      · cases hpc
        exact absurd hc hnew
    · simp only [World.Released, Function.update_of_ne hg] at hrel ⊢
      exact hm.free g hrel
  case live =>
    exact (Function.forall_update_iff w.fibers fun _ b => b.Live).mpr
      ⟨((hm.live f).block reason i).1, fun g _ => hm.live g⟩
  case call_lt =>
    intro g d hd
    by_cases hg : g = f
    · subst hg
      simp only [Function.update_self, Pc.call?, Option.some.injEq] at hd
      exact hd ▸ Nat.lt_succ_self _
    · simp only [Function.update_of_ne hg] at hd
      exact Nat.lt_succ_of_lt (hm.call_lt g d hd)
  case closed_lt => exact fun c hc => Nat.lt_succ_of_lt (hm.closed_lt c hc)
  case call_inj => exact hm.call_inj_new rfl

theorem apply (hm : Mirror w) {f : Option FiberRef} {i : ObjId} {ctx : Bool} {r : Section V p}
    (hmay : w.mayCall f = true) (hs : Section.Spec (w.objs i) w.calls f r) :
    Mirror (w.apply f i ctx r) := by
  cases hs with
  | returns o' out hperm =>
    have heq : w.apply f i ctx ⟨o', none, out.map Prod.snd⟩
        = { w with objs := Function.update w.objs i o'
                   fibers := unblockAll w.fibers (out.map Prod.snd)
                   calls := w.calls + 1
                   closed := w.closed ++ callsOf out } := by
      cases f <;> simp [World.apply, callsOf, Function.comp_def]
    rw [heq]
    exact hm.returns hperm
  | parks g hf o' q reason hperm =>
    subst hf
    have heq : w.apply (some g) i ctx ⟨o', some (q, reason), []⟩
        = { w with objs := Function.update w.objs i o'
                   fibers := Function.update w.fibers g ((w.fibers g).block reason i)
                   pc := Function.update w.pc g (.waiting w.calls i q ctx)
                   calls := w.calls + 1 } := by
      simp [World.apply, unblockAll]
    rw [heq]
    exact hm.parks reason ctx (by simpa [World.mayCall] using hmay) hperm

/-- Every step keeps code, queues and fiber states in agreement. -/
theorem step {w' : World V p} {l : Label V p} (hm : Mirror w) (h : step w l = some w') :
    Mirror w' := by
  cases l with
  | call f i op =>
    simp only [Blocking.step] at h
    split at h
    · next hmay =>
      obtain ⟨r, hr, rfl⟩ := Option.map_eq_some_iff.mp h
      exact hm.apply hmay (Obj.enter_spec (hm.nodup i) hr)
    · cases h
  | resume f =>
    simp only [Blocking.step] at h
    split at h
    · next c i q ctx hpc =>
      split at h
      · next hc =>
        cases h
        exact hm.resume hpc hc
      · cases h
    · cases h
  | cancel f =>
    simp only [Blocking.step] at h
    split at h
    · next c i q hpc =>
      split at h
      · next hc =>
        cases h
        exact hm.resume hpc hc
      · next hc =>
        cases h
        exact hm.cancel hpc hc
    · cases h
  | leave f =>
    simp only [Blocking.step] at h
    split at h
    · next c hpc =>
      cases h
      exact hm.leave hpc
    · cases h

end Mirror

/-- The invariant holds in every run. -/
theorem mirror_of_reach {w₀ w : World V p} (h₀ : Initial w₀)
    (h : Trans.Reach step Trans.anyStep w₀ w) : Mirror w :=
  Trans.Reach.invariant (P := Mirror) h₀.mirror (fun _ _ _ hm _ hs => hm.step hs) h

/-! ## The two views -/

/-- Fiber states mirror the wait queues, in every state of every run: a fiber has at most one
waiter record, a record means blocked on its primitive, a fiber whose blocking calls have all
returned is running with no reason to block and no record, and no record of a returned call is
left in any queue. -/
theorem fiber_state_mirrors_queues {w₀ w : World V p} (h₀ : Initial w₀)
    (h : Trans.Reach step Trans.anyStep w₀ w) :
    (∀ i, (w.objs i).records.Nodup) ∧
    (∀ i j q q' wt wt', (q, wt) ∈ (w.objs i).records → (q', wt') ∈ (w.objs j).records →
      wt.fiber = wt'.fiber → i = j ∧ q = q' ∧ wt = wt') ∧
    (∀ i q wt, (q, wt) ∈ (w.objs i).records →
      (w.fibers wt.fiber).state = .blocked ∧ (w.fibers wt.fiber).blockedOn = some i) ∧
    (∀ f, w.pc f = .idle →
      (w.fibers f).state = .running ∧ (w.fibers f).blockReason = "" ∧
      ∀ i q wt, (q, wt) ∈ (w.objs i).records → wt.fiber ≠ f) ∧
    ∀ c, (∀ f, (w.pc f).call? ≠ some c) →
      ∀ i q wt, (q, wt) ∈ (w.objs i).records → wt.call ≠ c := by
  have hm := mirror_of_reach h₀ h
  refine ⟨fun i => List.Nodup.of_map _ (hm.nodup i), ?_, ?_, ?_, ?_⟩
  · intro i j q q' wt wt' hr hr' hfiber
    have hcall := hm.record_call hr
    rw [hfiber, hm.record_call hr'] at hcall
    exact hm.record_unique hr hr' (Option.some.inj hcall).symm
  · intro i q wt hr
    obtain ⟨⟨ctx, hpc⟩, hopen⟩ := hm.record i q wt hr
    obtain ⟨-, -, hstate, hon⟩ := hm.wait _ _ _ _ _ hpc hopen
    exact ⟨hstate, hon⟩
  · intro f hidle
    obtain ⟨-, hstate, hreason, -⟩ := hm.free f (.inl hidle)
    refine ⟨hstate, hreason, fun i q wt hr heq => ?_⟩
    have hcall := hm.record_call hr
    simp [heq, hidle, Pc.call?] at hcall
  · intro c hreturned i q wt hr heq
    exact hreturned wt.fiber (heq ▸ hm.record_call hr)

/-- Primitive 0 is a mutex, all others are rendezvous channels. -/
def mutexAndChannels : World Unit .w64 where
  objs i := if i = 0 then .mutex .new else .channel (.new 0)
  fibers _ := { state := .running, runStarted := true, blockReason := "", blockedOn := none }
  pc _ := .idle
  calls := 0
  closed := []

theorem mutexAndChannels_initial : Initial mutexAndChannels where
  objs i := by
    by_cases hi : i = 0
    · simp only [mutexAndChannels, if_pos hi]
      exact .mutex
    · simp only [mutexAndChannels, if_neg hi]
      exact .channel 0
  fibers f := ⟨⟨rfl, rfl⟩, rfl, rfl, rfl⟩
  pc f := rfl
  closed := rfl

/-- Fiber 1 holds the mutex and fiber 2 waits for it; fiber 3 waited for it too and was
cancelled, fiber 4 waited on a channel that was closed. -/
theorem fiber_state_mirrors_queues_mixed :
    ∃ w, Trans.Reach step Trans.anyStep mutexAndChannels w ∧
      (w.objs 0).records = [(.waiting, ⟨1, ⟨2, by decide⟩⟩)] ∧
      (w.fibers ⟨2, by decide⟩).state = .blocked ∧
      (w.fibers ⟨2, by decide⟩).blockedOn = some 0 ∧
      (w.fibers ⟨3, by decide⟩).state = .running ∧
      (w.fibers ⟨4, by decide⟩).state = .running := by
  obtain ⟨w, hw, hp⟩ := Trans.exists_reach_of_exec step mutexAndChannels
    [.call (some ⟨1, by decide⟩) 0 .lock, .call (some ⟨2, by decide⟩) 0 .lock,
      .call (some ⟨3, by decide⟩) 0 .lockCtx, .call (some ⟨4, by decide⟩) 7 .receive,
      .cancel ⟨3, by decide⟩, .call none 7 .close, .leave ⟨3, by decide⟩,
      .resume ⟨4, by decide⟩]
    (fun w => (w.objs 0).records == [(.waiting, ⟨1, ⟨2, by decide⟩⟩)] &&
      w.pc ⟨3, by decide⟩ == .idle && w.pc ⟨4, by decide⟩ == .idle) (by decide)
  simp only [Bool.and_eq_true, beq_iff_eq] at hp
  obtain ⟨⟨hrec, h3⟩, h4⟩ := hp
  obtain ⟨-, -, hblocked, hidle, -⟩ := fiber_state_mirrors_queues mutexAndChannels_initial hw
  obtain ⟨hstate, hon⟩ := hblocked 0 .waiting ⟨1, ⟨2, by decide⟩⟩ (by simp [hrec])
  exact ⟨w, hw, hrec, hstate, hon, (hidle _ h3).1, (hidle _ h4).1⟩

end Blocking

end GreenThreads.Sync
