import GreenThreads.Sync.Blocking
import Mathlib.Data.List.Perm.Basic
import Mathlib.Data.List.Nodup

/-!
# GreenThreads — what a critical section does to the waiter records

The same for all five primitives (`enter_spec`, `withdraw_perm`): a section takes some records
out and wakes exactly their fibers, or it adds the caller's record and takes none, or it takes
out the one record of a cancelled call. Whoever reasons about several primitives at once needs
nothing else about them.
-/

namespace GreenThreads.Sync

variable {V : Type*} {p : IntSize}

/-- A waiter record with the queue it is in. -/
abbrev Record := Queue × Waiter

/-- The numbers of the calls that made some records. -/
def callsOf (rs : List Record) : List Nat := rs.map fun r => r.2.call

/-! ## What a section does to the records of its primitive -/

/-- What a first section does, for call number `c` of the fiber `f`. -/
inductive Section.Spec (o : Obj V p) (c : Nat) (f : Option FiberRef) : Section V p → Prop where
  /-- It returns, having taken the records `out` out of the queues. -/
  | returns (o' : Obj V p) (out : List Record) (hperm : o.records.Perm (out ++ o'.records)) :
      Spec o c f ⟨o', none, out.map Prod.snd⟩
  /-- It parks the caller. -/
  | parks (g : FiberRef) (hf : f = some g) (o' : Obj V p) (q : Queue) (reason : String)
      (hperm : o'.records.Perm ((q, ⟨c, g⟩) :: o.records)) :
      Spec o c f ⟨o', some (q, reason), []⟩

namespace Section.Spec

variable {o o' : Obj V p} {c : Nat} {f : Option FiberRef}

/-- A section that leaves the queues alone. -/
theorem same (h : o.records = o'.records) : Spec o c f (Obj.returns o') :=
  .returns o' [] (by rw [h, List.nil_append])

/-- Only the records of the primitive matter. -/
theorem congr {o₁ : Obj V p} {r : Section V p} (hs : Spec o₁ c f r)
    (h : o.records = o₁.records) : Spec o c f r := by
  cases hs with
  | returns o' out hperm => exact .returns o' out (h ▸ hperm)
  | parks g hf o' q reason hperm => exact .parks g hf o' q reason (h ▸ hperm)

/-- The first section of a blocking call. -/
theorem ofBool {done : Bool} {q : Queue} {reason : String} {g : FiberRef} (hf : f = some g)
    (hdone : done = true → o.records = o'.records)
    (hpark : done = false → o'.records.Perm ((q, ⟨c, g⟩) :: o.records)) :
    Spec o c f (Obj.parksUnless o' q reason done) := by
  cases done with
  | true => exact same (hdone rfl)
  | false => exact .parks g hf o' q reason (hpark rfl)

end Section.Spec

namespace Obj

/-! ### Mutexes -/

theorem mutex_lock_spec (fm : FiberMutex) (c : Nat) (g : FiberRef) :
    Section.Spec (p := p) (V := V) (.mutex fm) c (some g)
      (parksUnless (.mutex (fm.lockSection ⟨c, g⟩).1) .waiting "waiting for mutex"
        (fm.lockSection ⟨c, g⟩).2) := by
  cases hl : fm.locked with
  | false =>
    rw [FiberMutex.lockSection_free _ hl]
    exact .ofBool rfl (fun _ => rfl) (fun h => by cases h)
  | true =>
    rw [FiberMutex.lockSection_held _ hl]
    refine .ofBool rfl (fun h => by cases h) (fun _ => ?_)
    simp only [records, List.map_append, List.map_cons, List.map_nil]
    exact List.perm_append_singleton _ _

theorem mutex_tryLock_records (fm : FiberMutex) (f : Option FiberRef) :
    (fm.tryLock f).1.waitQueue = fm.waitQueue := by
  unfold FiberMutex.tryLock
  split
  · rfl
  · split <;> rfl

theorem mutex_unlock_spec {fm fm' : FiberMutex} {f : Option FiberRef} {next : Option Waiter}
    (c : Nat) (h : fm.unlock f = .ok (fm', next)) :
    Section.Spec (p := p) (V := V) (.mutex fm) c f ⟨.mutex fm', none, next.toList⟩ := by
  unfold FiberMutex.unlock at h
  split at h
  · cases h
  · split_ifs at h
    split at h
    · next hq =>
      cases h
      exact .same (by simp [records, hq])
    · next w rest hq =>
      cases h
      exact .returns _ [(.waiting, w)] (by simp [records, hq])

/-! ### Reader/writer mutexes -/

theorem rwMutex_rLock_spec (frw : FiberRWMutex) (c : Nat) (g : FiberRef) :
    Section.Spec (p := p) (V := V) (.rwMutex frw) c (some g)
      (parksUnless (.rwMutex (frw.rLockSection ⟨c, g⟩).1) .readers "waiting for read lock"
        (frw.rLockSection ⟨c, g⟩).2) := by
  by_cases h : frw.writer = 0 ∧ frw.writerQueue = []
  · rw [FiberRWMutex.rLockSection_open _ h.1 h.2]
    exact .ofBool rfl (fun _ => rfl) (fun h => by cases h)
  · rw [FiberRWMutex.rLockSection_shut _ h]
    refine .ofBool rfl (fun h => by cases h) (fun _ => ?_)
    simp only [records, List.map_append, List.map_cons, List.map_nil, List.append_assoc,
      List.singleton_append]
    exact List.perm_middle

theorem rwMutex_lock_spec (frw : FiberRWMutex) (c : Nat) (g : FiberRef) :
    Section.Spec (p := p) (V := V) (.rwMutex frw) c (some g)
      (parksUnless (.rwMutex (frw.lockSection ⟨c, g⟩).1) .writers "waiting for write lock"
        (frw.lockSection ⟨c, g⟩).2) := by
  by_cases h : frw.readers = 0 ∧ frw.writer = 0 ∧ frw.writerQueue = []
  · rw [FiberRWMutex.lockSection_open _ h.1 h.2.1 h.2.2]
    exact .ofBool rfl (fun _ => rfl) (fun h => by cases h)
  · rw [FiberRWMutex.lockSection_shut _ h]
    refine .ofBool rfl (fun h => by cases h) (fun _ => ?_)
    simp only [records, List.map_append, List.map_cons, List.map_nil, ← List.append_assoc]
    exact List.perm_append_singleton _ _

/-- The admission that both releases end with takes out the oldest writer or all readers. -/
theorem admitNext_spec (frw : FiberRWMutex) (c : Nat) (f : Option FiberRef) :
    Section.Spec (p := p) (V := V) (.rwMutex frw) c f
      ⟨.rwMutex frw.admitNext.1, none, admitted frw.admitNext.2⟩ := by
  unfold FiberRWMutex.admitNext
  split
  · next frw' w hgrant =>
    unfold FiberRWMutex.grantWriterLocked at hgrant
    split at hgrant
    · cases hgrant
    · next w' rest hq =>
      split_ifs at hgrant
      cases hgrant
      refine .returns _ [(.writers, w)] ?_
      simp only [records, hq, List.map_cons]
      exact List.perm_middle
  · have hout := Section.Spec.returns (p := p) (V := V) (o := .rwMutex frw) (c := c) (f := f)
      (.rwMutex frw.admitReaders) (frw.readerQueue.map (Queue.readers, ·))
      (by simp [records, FiberRWMutex.admitReaders])
    simpa [admitted, Function.comp_def] using hout

theorem rwMutex_rUnlock_spec {frw frw' : FiberRWMutex} {adm : Admitted} (c : Nat)
    (f : Option FiberRef) (h : frw.rUnlock = .ok (frw', adm)) :
    Section.Spec (p := p) (V := V) (.rwMutex frw) c f ⟨.rwMutex frw', none, admitted adm⟩ := by
  simp only [FiberRWMutex.rUnlock] at h
  split_ifs at h
  · -- the last reader: what follows is the admission, with the queues as they were
    have hadm := admitNext_spec (p := p) (V := V) { frw with readers := frw.readers - 1 } c f
    rw [Except.ok.inj h] at hadm
    exact hadm.congr rfl
  · cases h
    exact .same rfl

theorem rwMutex_unlock_spec {frw frw' : FiberRWMutex} {adm : Admitted} (c : Nat)
    {f : Option FiberRef} (h : frw.unlock f = .ok (frw', adm)) :
    Section.Spec (p := p) (V := V) (.rwMutex frw) c f ⟨.rwMutex frw', none, admitted adm⟩ := by
  unfold FiberRWMutex.unlock at h
  split at h
  · cases h
  · next g =>
    split_ifs at h
    have hadm := admitNext_spec (p := p) (V := V) { frw with writer := 0 } c (some g)
    rw [Except.ok.inj h] at hadm
    exact hadm.congr rfl

/-! ### Wait groups and semaphores -/

theorem waitGroup_wait_spec (fwg : FiberWaitGroup p) (c : Nat) (g : FiberRef) :
    Section.Spec (V := V) (.waitGroup fwg) c (some g)
      (parksUnless (.waitGroup (fwg.waitSection ⟨c, g⟩).1) .waiting "waiting on waitgroup"
        (fwg.waitSection ⟨c, g⟩).2) := by
  by_cases h : fwg.counter = 0
  · rw [FiberWaitGroup.waitSection_zero _ h]
    exact .ofBool rfl (fun _ => rfl) (fun h => by cases h)
  · rw [FiberWaitGroup.waitSection_busy _ h]
    refine .ofBool rfl (fun h => by cases h) (fun _ => ?_)
    simp only [records, List.map_append, List.map_cons, List.map_nil]
    exact List.perm_append_singleton _ _

theorem waitGroup_add_spec {fwg fwg' : FiberWaitGroup p} {delta : GoInt p} {woken : List Waiter}
    (c : Nat) (f : Option FiberRef) (h : fwg.add delta = .ok (fwg', woken)) :
    Section.Spec (V := V) (.waitGroup fwg) c f ⟨.waitGroup fwg', none, woken⟩ := by
  unfold FiberWaitGroup.add at h
  split_ifs at h
  · cases h
    have hout := Section.Spec.returns (V := V) (o := .waitGroup fwg) (c := c) (f := f)
      (.waitGroup ⟨fwg.counter + delta, []⟩) (fwg.waitQueue.map (Queue.waiting, ·))
      (by simp [records])
    simpa [Function.comp_def] using hout
  · cases h
    exact .same rfl

theorem semaphore_acquire_spec (fs : FiberSemaphore) (c : Nat) (g : FiberRef) :
    Section.Spec (p := p) (V := V) (.semaphore fs) c (some g)
      (parksUnless (.semaphore (fs.acquireSection ⟨c, g⟩).1) .waiting "waiting for semaphore"
        (fs.acquireSection ⟨c, g⟩).2) := by
  unfold FiberSemaphore.acquireSection
  split
  · exact .ofBool rfl (fun _ => rfl) (fun h => by cases h)
  · refine .ofBool rfl (fun h => by cases h) (fun _ => ?_)
    simp only [records, List.map_append, List.map_cons, List.map_nil]
    exact List.perm_append_singleton _ _

theorem semaphore_tryAcquire_records (fs : FiberSemaphore) :
    fs.tryAcquire.1.waitQueue = fs.waitQueue := by
  unfold FiberSemaphore.tryAcquire
  split <;> rfl

/-! ### Channels

The sections of a channel name the calls they wake, and the records are looked up by call. The
lookup is exact because no two records have the same call. -/

/-- Taking one record out by its call. -/
theorem filter_call_eq {l₁ l₂ : List Record} {r : Record}
    (hnd : (callsOf (l₁ ++ r :: l₂)).Nodup) :
    (l₁ ++ r :: l₂).filter (fun x => !decide (x.2.call ∈ [r.2.call])) = l₁ ++ l₂ := by
  have hperm : (callsOf (l₁ ++ r :: l₂)).Perm (r.2.call :: callsOf (l₁ ++ l₂)) := by
    simp [callsOf]
  have hnot := (List.nodup_cons.mp (hperm.nodup_iff.mp hnd)).1
  have hrest : (l₁ ++ l₂).filter (fun x => !decide (x.2.call ∈ [r.2.call])) = l₁ ++ l₂ := by
    rw [List.filter_eq_self]
    intro x hx
    have hne : x.2.call ≠ r.2.call := by
      intro heq
      exact hnot (heq ▸ List.mem_map_of_mem hx)
    simp [hne]
  rw [List.filter_append] at hrest ⊢
  simpa using hrest

/-- A section that returns and leaves the records of the other calls. -/
theorem channel_spec {fc fc' : FiberChannel V} {woken : List (Nat × Channel.Result V)} (c : Nat)
    (f : Option FiberRef)
    (h : fc'.records = fc.records.filter fun r => !decide (r.2.call ∈ woken.map Prod.fst)) :
    Section.Spec (p := p) (.channel fc) c f ⟨.channel fc', none, wokenBy fc woken⟩ := by
  refine .returns _ (fc.records.filter fun r => r.2.call ∈ woken.map Prod.fst) ?_
  simp only [records, h]
  exact (List.filter_append_perm _ _).symm

/-- Nobody is woken. -/
theorem filter_none (fc : FiberChannel V) :
    fc.records = fc.records.filter fun r =>
      !decide (r.2.call ∈ ([] : List (Nat × Channel.Result V)).map Prod.fst) := by
  simp

/-- The oldest receiver is taken out. -/
theorem filter_receiver {fc : FiberChannel V} {w : Waiter} {rest : List Waiter}
    (hnd : (callsOf fc.records).Nodup) (hq : fc.receivers = w :: rest)
    (res : Channel.Result V) :
    FiberChannel.records { fc with receivers := rest } = fc.records.filter fun r =>
      !decide (r.2.call ∈ [(w.call, res)].map Prod.fst) := by
  have hrec : fc.records
      = [] ++ (Queue.receivers, w) :: FiberChannel.records { fc with receivers := rest } := by
    simp [FiberChannel.records, hq]
  rw [hrec] at hnd ⊢
  exact (filter_call_eq hnd).symm

/-- The oldest sender is taken out. -/
theorem filter_sender {fc : FiberChannel V} {sender : ChannelSender V}
    {rest : List (ChannelSender V)} (hnd : (callsOf fc.records).Nodup)
    (hq : fc.senders = sender :: rest) (buffer : List V) (res : Channel.Result V) :
    FiberChannel.records { fc with senders := rest, buffer := buffer }
      = fc.records.filter fun r => !decide (r.2.call ∈ [(sender.call, res)].map Prod.fst) := by
  have hrec : fc.records = fc.receivers.map (Queue.receivers, ·) ++
      (Queue.senders, ⟨sender.call, sender.fiber⟩) ::
        rest.map fun sender => (Queue.senders, ⟨sender.call, sender.fiber⟩) := by
    simp [FiberChannel.records, hq]
  rw [hrec] at hnd ⊢
  exact (filter_call_eq hnd).symm

/-- `admitSenderLocked` takes out at most the oldest sender. -/
theorem admitSender_records (fc : FiberChannel V) (hnd : (callsOf fc.records).Nodup) :
    fc.admitSenderLocked.1.records = fc.records.filter fun r =>
      !decide (r.2.call ∈ fc.admitSenderLocked.2.map Prod.fst) := by
  unfold FiberChannel.admitSenderLocked
  split
  · exact filter_none fc
  · next sender rest hq =>
    split
    · exact filter_none fc
    · exact filter_sender hnd hq _ _

/-- A value that can be had at once costs at most the oldest sender its record. -/
theorem takeNow_records {fc : FiberChannel V} {res : FiberChannel V × Channel.Outcome V}
    (hnd : (callsOf fc.records).Nodup) (h : fc.takeNow = some res) :
    res.2.own.isNone = false ∧ res.1.records = fc.records.filter fun r =>
      !decide (r.2.call ∈ res.2.woken.map Prod.fst) := by
  unfold FiberChannel.takeNow at h
  split at h
  · next v rest hb =>
    cases h
    exact ⟨rfl, admitSender_records { fc with buffer := rest } hnd⟩
  · split at h
    · next sender rest hq =>
      cases h
      exact ⟨rfl, filter_sender hnd hq fc.buffer .sent⟩
    · cases h

theorem channel_send_spec (fc : FiberChannel V) (hnd : (callsOf fc.records).Nodup) (c : Nat)
    (v : V) (f : Option FiberRef) :
    Section.Spec (p := p) (.channel fc) c f
      (ofOutcome fc .senders "waiting to send on channel" (fc.send c v f)) := by
  unfold FiberChannel.send
  split
  · exact channel_spec c f (filter_none fc)
  · split
    · next w rest hq => exact channel_spec c f (filter_receiver hnd hq _)
    · split
      · exact channel_spec c f (filter_none fc)
      · split
        · exact channel_spec c _ (filter_none fc)
        · next g =>
          -- the only branch that parks; the lookup of no woken calls finds no record
          have hnone : wokenBy fc [] = [] := by simp [wokenBy]
          unfold ofOutcome
          rw [hnone]
          refine .parks g rfl _ _ _ ?_
          simp only [records, FiberChannel.records, List.map_append, List.map_cons, List.map_nil,
            ← List.append_assoc]
          exact List.perm_append_singleton _ _

theorem channel_trySend_spec (fc : FiberChannel V) (hnd : (callsOf fc.records).Nodup) (c : Nat)
    (v : V) (f : Option FiberRef) :
    Section.Spec (p := p) (.channel fc) c f
      ⟨.channel (fc.trySend v).1, none, wokenBy fc (fc.trySend v).2.woken⟩ := by
  unfold FiberChannel.trySend
  split
  · exact channel_spec c f (filter_none fc)
  · split
    · next w rest hq => exact channel_spec c f (filter_receiver hnd hq _)
    · split
      · exact channel_spec c f (filter_none fc)
      · exact channel_spec c f (filter_none fc)

theorem channel_receive_spec (fc : FiberChannel V) (hnd : (callsOf fc.records).Nodup) (c : Nat)
    (f : Option FiberRef) :
    Section.Spec (p := p) (.channel fc) c f
      (ofOutcome fc .receivers "waiting to receive from channel" (fc.receive c f)) := by
  unfold FiberChannel.receive
  split
  · next res htake =>
    obtain ⟨hown, hrec⟩ := takeNow_records hnd htake
    unfold ofOutcome
    rw [hown]
    exact channel_spec c f hrec
  · split
    · exact channel_spec c f (filter_none fc)
    · split
      · exact channel_spec c _ (filter_none fc)
      · next g =>
        have hnone : wokenBy fc [] = [] := by simp [wokenBy]
        unfold ofOutcome
        rw [hnone]
        refine .parks g rfl _ _ _ ?_
        simp only [records, FiberChannel.records, List.map_append, List.map_cons, List.map_nil,
          List.append_assoc, List.singleton_append]
        exact List.perm_middle

theorem channel_tryReceive_spec (fc : FiberChannel V) (hnd : (callsOf fc.records).Nodup)
    (c : Nat) (f : Option FiberRef) :
    Section.Spec (p := p) (.channel fc) c f
      ⟨.channel fc.tryReceive.1, none, wokenBy fc fc.tryReceive.2.woken⟩ := by
  unfold FiberChannel.tryReceive
  split
  · next res htake => exact channel_spec c f (takeNow_records hnd htake).2
  · exact channel_spec c f (filter_none fc)

/-- `Close` takes out every record. -/
theorem channel_close_spec (fc : FiberChannel V) (c : Nat) (f : Option FiberRef) :
    Section.Spec (p := p) (.channel fc) c f
      ⟨.channel fc.close.1, none, wokenBy fc fc.close.2⟩ := by
  unfold FiberChannel.close
  split
  · exact channel_spec c f (filter_none fc)
  · have hcalls : (fc.receivers.map (fun w => (w.call, .closed)) ++
        fc.senders.map (fun sender => (sender.call, .closed)) :
          List (Nat × Channel.Result V)).map Prod.fst = callsOf fc.records := by
      simp [callsOf, FiberChannel.records, Function.comp_def]
    refine channel_spec c f ?_
    rw [hcalls]
    refine (List.filter_eq_nil_iff.mpr fun r hr => ?_).symm
    have hmem : r.2.call ∈ callsOf fc.records := List.mem_map_of_mem hr
    simp [hmem]

/-! ### All primitives -/

section

variable {c : Nat} {f : Option FiberRef} {op : Op V p} {r : Section V p}

theorem channel_enter_spec {fc : FiberChannel V} (hnd : (callsOf fc.records).Nodup)
    (h : (Obj.channel fc).enter c f op = some r) : Section.Spec (.channel fc) c f r := by
  cases op with
  | send v | sendCtx v =>
    cases h
    exact channel_send_spec fc hnd c v f
  | trySend v =>
    cases h
    exact channel_trySend_spec fc hnd c v f
  | receive | receiveCtx =>
    cases h
    exact channel_receive_spec fc hnd c f
  | tryReceive =>
    cases h
    exact channel_tryReceive_spec fc hnd c f
  | close =>
    cases h
    exact channel_close_spec fc c f
  | _ => cases h

theorem mutex_enter_spec {fm : FiberMutex} (h : (Obj.mutex fm).enter c f op = some r) :
    Section.Spec (.mutex fm) c f r := by
  cases op with
  | lock | lockCtx =>
    cases f with
    | none =>
      cases h
      exact .same rfl
    | some g =>
      cases h
      exact mutex_lock_spec fm c g
  | tryLock =>
    cases h
    exact .same (by simp [records, mutex_tryLock_records])
  | unlock =>
    unfold enter at h
    dsimp only at h
    split at h
    · next hok =>
      cases h
      exact mutex_unlock_spec c hok
    · cases h
      exact .same rfl
  | _ => cases h

theorem rwMutex_enter_spec {frw : FiberRWMutex} (h : (Obj.rwMutex frw).enter c f op = some r) :
    Section.Spec (.rwMutex frw) c f r := by
  cases op with
  | rLock | rLockCtx =>
    cases f with
    | none =>
      cases h
      exact .same rfl
    | some g =>
      cases h
      exact rwMutex_rLock_spec frw c g
  | lock | lockCtx =>
    cases f with
    | none =>
      cases h
      exact .same rfl
    | some g =>
      cases h
      exact rwMutex_lock_spec frw c g
  | rUnlock =>
    unfold enter at h
    dsimp only at h
    split at h
    · next hok =>
      cases h
      exact rwMutex_rUnlock_spec c f hok
    · cases h
      exact .same rfl
  | unlock =>
    unfold enter at h
    dsimp only at h
    split at h
    · next hok =>
      cases h
      exact rwMutex_unlock_spec c hok
    · cases h
      exact .same rfl
  | _ => cases h

theorem waitGroup_enter_spec {fwg : FiberWaitGroup p}
    (h : (Obj.waitGroup fwg).enter c f op = some r) : Section.Spec (.waitGroup fwg) c f r := by
  cases op with
  | wait | waitCtx =>
    cases f with
    | none =>
      cases h
      exact .same rfl
    | some g =>
      cases h
      exact waitGroup_wait_spec fwg c g
  | add delta =>
    unfold enter at h
    dsimp only at h
    split at h
    · next hok =>
      cases h
      exact waitGroup_add_spec c f hok
    · cases h
      exact .same rfl
  | done =>
    unfold enter at h
    dsimp only [FiberWaitGroup.done] at h
    split at h
    · next hok =>
      cases h
      exact waitGroup_add_spec c f hok
    · cases h
      exact .same rfl
  | _ => cases h

theorem semaphore_enter_spec {fs : FiberSemaphore}
    (h : (Obj.semaphore fs).enter c f op = some r) : Section.Spec (.semaphore fs) c f r := by
  cases op with
  | acquire | acquireCtx =>
    cases f with
    | none =>
      cases h
      exact .same rfl
    | some g =>
      cases h
      exact semaphore_acquire_spec fs c g
  | tryAcquire =>
    cases h
    exact .same (by simp [records, semaphore_tryAcquire_records])
  | release =>
    unfold enter at h
    dsimp only [FiberSemaphore.release] at h
    cases hq : fs.waitQueue with
    | cons w rest =>
      simp only [hq] at h
      cases h
      exact .returns _ [(.waiting, w)] (by simp [records, hq])
    | nil =>
      simp only [hq] at h
      split_ifs at h
      · cases h
        exact .same (by simp [records, hq])
      · cases h
        exact .same rfl
  | _ => cases h

/-- What the first section of any call does to the records. -/
theorem enter_spec {o : Obj V p} (hnd : (callsOf o.records).Nodup)
    (h : o.enter c f op = some r) : Section.Spec o c f r := by
  cases o with
  | channel fc => exact channel_enter_spec hnd h
  | mutex fm => exact mutex_enter_spec h
  | rwMutex frw => exact rwMutex_enter_spec h
  | waitGroup fwg => exact waitGroup_enter_spec h
  | semaphore fs => exact semaphore_enter_spec h

end

/-! ### The cancel path -/

/-- The loop of `removeWaiterLocked` and its siblings takes out the one record of the call. -/
theorem removeWaiter_perm {α : Type*} {key : α → Nat} {queue : List α} {w : α} (hmem : w ∈ queue)
    (hnd : (queue.map key).Nodup) : queue.Perm (w :: removeWaiter key queue (key w)) := by
  obtain ⟨w', l₁, l₂, -, hkey, hsplit, herase⟩ :=
    List.exists_of_eraseP (p := fun a => key a == key w) hmem (beq_self_eq_true (key w))
  have hw' : w' ∈ queue := by simp [hsplit]
  have heq : w' = w := List.inj_on_of_nodup_map hnd hw' hmem (by simpa using hkey)
  rw [removeWaiter, herase, hsplit, heq]
  exact List.perm_middle

theorem nodup_of_append_left {l₁ l₂ : List Record} (h : (callsOf (l₁ ++ l₂)).Nodup) :
    (callsOf l₁).Nodup := by
  rw [callsOf, List.map_append] at h
  exact (List.nodup_append'.mp h).1

theorem nodup_of_append_right {l₁ l₂ : List Record} (h : (callsOf (l₁ ++ l₂)).Nodup) :
    (callsOf l₂).Nodup := by
  rw [callsOf, List.map_append] at h
  exact (List.nodup_append'.mp h).2.1

/-- A queue of plain waiters, as records. -/
theorem queue_perm {queue : List Waiter} {q : Queue} {w : Waiter}
    (hnd : (callsOf (queue.map (q, ·))).Nodup) (hmem : w ∈ queue) :
    (queue.map (q, ·)).Perm ((q, w) :: (removeWaiter Waiter.call queue w.call).map (q, ·)) := by
  have hcalls : (queue.map Waiter.call).Nodup := by
    simpa [callsOf, Function.comp_def] using hnd
  exact (removeWaiter_perm hmem hcalls).map (q, ·)

/-- The senders of a channel, as records. -/
theorem senders_perm {queue : List (ChannelSender V)} {sender : ChannelSender V}
    (hnd : (callsOf (queue.map fun s => (Queue.senders, ⟨s.call, s.fiber⟩))).Nodup)
    (hmem : sender ∈ queue) :
    (queue.map fun s => (Queue.senders, (⟨s.call, s.fiber⟩ : Waiter))).Perm
      ((Queue.senders, ⟨sender.call, sender.fiber⟩) ::
        (removeWaiter ChannelSender.call queue sender.call).map
          fun s => (Queue.senders, ⟨s.call, s.fiber⟩)) := by
  have hcalls : (queue.map ChannelSender.call).Nodup := by
    simpa [callsOf, Function.comp_def] using hnd
  exact (removeWaiter_perm hmem hcalls).map fun s => (Queue.senders, (⟨s.call, s.fiber⟩ : Waiter))

/-- A cancellation takes out the record of its call and nothing else. -/
theorem withdraw_perm {o : Obj V p} {q : Queue} {w : Waiter} (hnd : (callsOf o.records).Nodup)
    (hmem : (q, w) ∈ o.records) : o.records.Perm ((q, w) :: (o.withdraw q w.call).records) := by
  cases o with
  | channel fc =>
    simp only [records, FiberChannel.records] at hnd hmem
    rcases List.mem_append.mp hmem with hmem | hmem
    · obtain ⟨w, hw, heq⟩ := List.mem_map.mp hmem
      cases heq
      exact (queue_perm (nodup_of_append_left hnd) hw).append_right _
    · obtain ⟨sender, hs, heq⟩ := List.mem_map.mp hmem
      cases heq
      exact ((senders_perm (nodup_of_append_right hnd) hs).append_left _).trans List.perm_middle
  | mutex fm =>
    obtain ⟨w, hw, heq⟩ := List.mem_map.mp hmem
    cases heq
    exact queue_perm hnd hw
  | rwMutex frw =>
    rcases List.mem_append.mp hmem with hmem | hmem
    · obtain ⟨w, hw, heq⟩ := List.mem_map.mp hmem
      cases heq
      exact (queue_perm (nodup_of_append_left hnd) hw).append_right _
    · obtain ⟨w, hw, heq⟩ := List.mem_map.mp hmem
      cases heq
      exact ((queue_perm (nodup_of_append_right hnd) hw).append_left _).trans List.perm_middle
  | waitGroup fwg =>
    obtain ⟨w, hw, heq⟩ := List.mem_map.mp hmem
    cases heq
    exact queue_perm hnd hw
  | semaphore fs =>
    obtain ⟨w, hw, heq⟩ := List.mem_map.mp hmem
    cases heq
    exact queue_perm hnd hw

end Obj

end GreenThreads.Sync
