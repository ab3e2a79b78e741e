import GreenThreads.Sync.RWMutex
import GreenThreads.Sync.Tracking

/-!
# GreenThreads — runs of `FiberRWMutex`

The layout is that of the runs of `FiberMutex`: what a step can do, the invariant `Inv`
through each shape, and the properties of every run. A releasing section has two halves, the
holder leaving and the admission of whoever is next; between them the mutex can be free with
waiters parked, so the halves are treated as one shape.
-/

namespace GreenThreads.Sync.RWMutex

open FiberRWMutex

/-! ## What a step can do -/

/-- The last reader or the writer gives the lock up; nobody is admitted yet. -/
inductive Leaves (s : Sys) : Label → Sys → Prop where
  | reader (h : s.frw.readers = 1) :
      Leaves s .rUnlock { s with frw := { s.frw with readers := 0 }, runlocks := s.runlocks + 1 }
  | writer (f : FiberRef) (h : s.frw.writer = f.id) :
      Leaves s (.unlock (some f)) { s with frw := { s.frw with writer := 0 },
                                           releases := s.releases ++ [f.id] }

/-- The things a step can do. -/
inductive Effect (s : Sys) : Label → Sys → Prop where
  /-- A call for a nil fiber. -/
  | ret (op : Op) (r : Result) (hok : r ≠ .ok) : Effect s (.call op) (s.ret op r)
  /-- A reader is let in at once. -/
  | read (op : Op) (hop : op.reads = true) (hw : s.frw.writer = 0)
      (hq : s.frw.writerQueue = []) :
      Effect s (.call op) { s with frw := { s.frw with readers := s.frw.readers + 1 },
                                   calls := s.calls ++ [⟨op, .returned .ok⟩],
                                   readGrants := s.readGrants ++ [s.calls.length] }
  /-- A reader parks behind an active or pending writer. -/
  | parkReader (op : Op) (f : FiberRef) (hop : op.reads = true)
      (hshut : ¬ (s.frw.writer = 0 ∧ s.frw.writerQueue = [])) :
      Effect s (.call op) { s with
        frw := { s.frw with readerQueue := s.frw.readerQueue ++ [⟨s.calls.length, f⟩] },
        calls := s.calls ++ [⟨op, .parked⟩] }
  /-- A writer finds the mutex free. -/
  | write (op : Op) (f : FiberRef) (hop : op.writes = true) (hr : s.frw.readers = 0)
      (hw : s.frw.writer = 0) (hq : s.frw.writerQueue = []) :
      Effect s (.call op) { s with
        frw := { s.frw with writer := f.id },
        calls := s.calls ++ [⟨op, .returned .ok⟩],
        writeGrants := s.writeGrants ++ [(s.calls.length, f.id)] }
  /-- A writer parks. -/
  | parkWriter (op : Op) (f : FiberRef) (hop : op.writes = true)
      (hshut : ¬ (s.frw.readers = 0 ∧ s.frw.writer = 0 ∧ s.frw.writerQueue = [])) :
      Effect s (.call op) { s with
        frw := { s.frw with writerQueue := s.frw.writerQueue ++ [⟨s.calls.length, f⟩] },
        calls := s.calls ++ [⟨op, .parked⟩] }
  /-- A reader leaves and others stay. -/
  | readerLeaves (h : 1 < s.frw.readers) :
      Effect s .rUnlock { s with frw := { s.frw with readers := s.frw.readers - 1 },
                                 runlocks := s.runlocks + 1 }
  /-- The lock becomes free and goes to the oldest writer. -/
  | toWriter {l : Label} {s₁ : Sys} (hl : Leaves s l s₁) (w : Waiter) (rest : List Waiter)
      (hq : s₁.frw.writerQueue = w :: rest) :
      Effect s l (s₁.letIn { s₁.frw with writerQueue := rest, writer := w.fiber.id } (.writer w))
  /-- The lock becomes free and goes to all parked readers. -/
  | toReaders {l : Label} {s₁ : Sys} (hl : Leaves s l s₁) (hq : s₁.frw.writerQueue = []) :
      Effect s l (s₁.letIn
        { s₁.frw with readers := s₁.frw.readers + s₁.frw.readerQueue.length, readerQueue := [] }
        (.readers s₁.frw.readerQueue))
  /-- A woken call returns what its waiter record says. -/
  | resume (l : Label) (c : Nat) (r : Result) (hc : s.calls.phaseOf c = some (.woken r)) :
      Effect s l { s with calls := s.calls.setPhase c (.returned r) }
  /-- A parked `RLockCtx` leaves the queue because its context is done. -/
  | withdrawReader (c : Nat) (hop : s.calls.Is Op.reads c)
      (hc : s.calls.phaseOf c = some .parked) :
      Effect s (.cancel c) { s with frw := s.frw.removeReaderLocked c,
                                    calls := s.calls.setPhase c (.returned .ctxErr) }
  /-- A parked `LockCtx` leaves the queue because its context is done. -/
  | withdrawWriter (c : Nat) (hop : s.calls.Is Op.writes c)
      (hc : s.calls.phaseOf c = some .parked) :
      Effect s (.cancel c) { s with frw := s.frw.removeWriterLocked c,
                                    calls := s.calls.setPhase c (.returned .ctxErr) }
  /-- A panicking release. -/
  | panic (l : Label) : Effect s l s

theorem rLockFor_effect (s : Sys) (op : Op) (f : FiberRef) (hop : op.reads = true) :
    Effect s (.call op) (s.rLockFor op f) := by
  unfold Sys.rLockFor
  by_cases h : s.frw.writer = 0 ∧ s.frw.writerQueue = []
  · rw [rLockSection_open _ h.1 h.2]
    exact .read op hop h.1 h.2
  · rw [rLockSection_shut _ h]
    exact .parkReader op f hop h

theorem lockFor_effect (s : Sys) (op : Op) (f : FiberRef) (hop : op.writes = true) :
    Effect s (.call op) (s.lockFor op f) := by
  unfold Sys.lockFor
  by_cases h : s.frw.readers = 0 ∧ s.frw.writer = 0 ∧ s.frw.writerQueue = []
  · rw [lockSection_open _ h.1 h.2.1 h.2.2]
    exact .write op f hop h.1 h.2.1 h.2.2
  · rw [lockSection_shut _ h]
    exact .parkWriter op f hop h

theorem enter_effect (s : Sys) (op : Op) : Effect s (.call op) (s.enter op) := by
  cases op with
  | rLock f =>
    cases f with
    | none => exact .ret _ _ (by decide)
    | some f => exact rLockFor_effect s _ f rfl
  | rLockCtx f =>
    cases f with
    | none => exact .ret _ _ (by decide)
    | some f => exact rLockFor_effect s _ f rfl
  | lock f =>
    cases f with
    | none => exact .ret _ _ (by decide)
    | some f => exact lockFor_effect s _ f rfl
  | lockCtx f =>
    cases f with
    | none => exact .ret _ _ (by decide)
    | some f => exact lockFor_effect s _ f rfl

/-- The first half's mutex is overwritten by the second half's. -/
theorem letIn_overwrites (s : Sys) (frw₁ frw : FiberRWMutex) (adm : Admitted) :
    { s with frw := frw₁ }.letIn frw adm = s.letIn frw adm := by
  cases adm <;> rfl

/-- Once the mutex is free, the second half of a release admits a writer or the readers. -/
theorem letIn_effect {s s₁ : Sys} {l : Label} (hl : Leaves s l s₁) (hr : s₁.frw.readers = 0)
    (hw : s₁.frw.writer = 0) :
    Effect s l (s₁.letIn s₁.frw.admitNext.1 s₁.frw.admitNext.2) := by
  cases hq : s₁.frw.writerQueue with
  | nil =>
    rw [admitNext_readers hq]
    exact .toReaders hl hq
  | cons w rest =>
    rw [admitNext_writer hr hw hq]
    exact .toWriter hl w rest hq

theorem rUnlock_effect (s : Sys) (hexcl : 0 < s.frw.readers → s.frw.writer = 0) :
    Effect s .rUnlock s.rUnlock := by
  unfold Sys.rUnlock FiberRWMutex.rUnlock
  by_cases h0 : s.frw.readers = 0
  · rw [if_pos h0]
    exact .panic _
  · rw [if_neg h0]
    by_cases h1 : s.frw.readers = 1
    · have hleave := Leaves.reader h1
      have hw := hexcl (by omega)
      have hres := letIn_effect hleave rfl hw
      rw [show Sys.letIn _ _ _ = _ from letIn_overwrites { s with runlocks := s.runlocks + 1 }
        _ _ _] at hres
      simpa only [h1, Nat.sub_self, if_pos] using hres
    · have hlt : 1 < s.frw.readers := by omega
      have hne : s.frw.readers - 1 ≠ 0 := by omega
      simp only [hne, if_false]
      have hres := Effect.readerLeaves hlt
      simpa [Sys.letIn, Calls.wakeAll] using hres

/-- An `Unlock` that panics changes nothing. -/
theorem unlock_of_panic {s : Sys} {f : Option FiberRef}
    (h : ∀ g, f = some g → s.frw.writer ≠ g.id) : s.unlock f = s := by
  obtain ⟨msg, hmsg⟩ := unlock_panics h
  unfold Sys.unlock
  rw [hmsg]
  cases f <;> rfl

theorem unlock_effect (s : Sys) (f : Option FiberRef)
    (hexcl : 0 < s.frw.readers → s.frw.writer = 0) : Effect s (.unlock f) (s.unlock f) := by
  by_cases hp : ∀ g, f = some g → s.frw.writer ≠ g.id
  · rw [unlock_of_panic hp]
    exact .panic _
  · push Not at hp
    obtain ⟨g, rfl, hw⟩ := hp
    have hr : s.frw.readers = 0 := by
      by_contra h0
      exact g.id_ne_zero (hw ▸ hexcl (by omega))
    have hres := letIn_effect (Leaves.writer g hw) hr rfl
    rw [show Sys.letIn _ _ _ = _ from
      letIn_overwrites { s with releases := s.releases ++ [g.id] } _ _ _] at hres
    simpa only [Sys.unlock, FiberRWMutex.unlock, hw, ne_eq, not_true, if_false] using hres

theorem resume_effect {s s' : Sys} {c : Nat} (l : Label) (h : s.resume c = some s') :
    Effect s l s' := by
  unfold Sys.resume at h
  split at h
  · next r hr =>
    cases h
    exact .resume l c r hr
  · cases h

theorem cancel_effect {s s' : Sys} {c : Nat} (h : s.cancel c = some s') :
    Effect s (.cancel c) s' := by
  unfold Sys.cancel at h
  split at h
  · next r _ hr =>
    cases h
    exact .resume _ c r hr
  · next r _ hr =>
    cases h
    exact .resume _ c r hr
  · next hop hp =>
    cases h
    exact .withdrawReader c (by simp [Calls.Is, hop, Op.reads]) hp
  · next hop hp =>
    cases h
    exact .withdrawWriter c (by simp [Calls.Is, hop, Op.writes, Op.reads]) hp
  · cases h

theorem step_effect {s s' : Sys} {l : Label} (hexcl : 0 < s.frw.readers → s.frw.writer = 0)
    (h : step s l = some s') : Effect s l s' := by
  cases l with
  | call op =>
    cases h
    exact enter_effect s op
  | rUnlock =>
    cases h
    exact rUnlock_effect s hexcl
  | unlock f =>
    cases h
    exact unlock_effect s f hexcl
  | resume c => exact resume_effect _ h
  | cancel c => exact cancel_effect h

/-! ## The invariant -/

/-- Everything that also holds half-way through a release. `rl` and `wl` are
histories of the reader and the writer queue; a writer that is let in at once arrives and is
served in one step, a reader that is let in at once does not appear. -/
structure Core (s : Sys) (rl wl : Ledger Nat) : Prop where
  count : s.frw.readers + s.runlocks = s.readGrants.length
  fibers : s.writeGrants.map Prod.snd
    = s.releases ++ (if s.frw.writer = 0 then [] else [s.frw.writer])
  excl : 0 < s.frw.readers → s.frw.writer = 0
  write_grants : s.writeGrants.map Prod.fst = wl.served
  read_queue : s.frw.readerQueue.map Waiter.call = rl.waiting
  write_queue : s.frw.writerQueue.map Waiter.call = wl.waiting
  reads : Tracks s.calls Op.reads (· == .ok) (· == .ctxErr) rl s.readGrants
  writes : Tracks s.calls Op.writes (· == .ok) (· == .ctxErr) wl wl.served

/-- The invariant of every run: nobody is parked on a free mutex. -/
structure Inv (s : Sys) (rl wl : Ledger Nat) : Prop extends
    Core s rl wl where
  idle : s.frw.readers = 0 → s.frw.writer = 0 →
    s.frw.readerQueue = [] ∧ s.frw.writerQueue = []

theorem inv_init : Inv init .empty .empty where
  count := rfl
  fibers := rfl
  excl := fun h => absurd h (Nat.lt_irrefl 0)
  write_grants := rfl
  read_queue := rfl
  write_queue := rfl
  reads := Tracks.empty
  writes := Tracks.empty
  idle := fun _ _ => ⟨rfl, rfl⟩

/-- No call asks for both locks. -/
theorem not_writes_of_reads {calls : Calls Op Result} {c : Nat} (h : calls.Is Op.reads c) :
    ¬ calls.Is Op.writes c := by
  intro hw
  unfold Calls.Is at h hw
  cases hop : calls.opOf c with
  | none => simp [hop] at h
  | some op => simp [hop, Op.writes] at h hw; simp [h] at hw

namespace Inv

variable {s : Sys} {rl wl : Ledger Nat}

theorem ret (hi : Inv s rl wl) (op : Op) {r : Result} (hok : r ≠ .ok) :
    Inv (s.ret op r) rl wl where
  count := hi.count
  fibers := hi.fibers
  excl := hi.excl
  write_grants := hi.write_grants
  read_queue := hi.read_queue
  write_queue := hi.write_queue
  reads := by simpa [Sys.ret, hok] using hi.reads.append_returned op r
  writes := by simpa [Sys.ret, hok] using hi.writes.append_returned op r
  idle := hi.idle

theorem read (hi : Inv s rl wl) {op : Op} (hop : op.reads = true) (hw : s.frw.writer = 0) :
    Inv { s with frw := { s.frw with readers := s.frw.readers + 1 },
                 calls := s.calls ++ [⟨op, .returned .ok⟩],
                 readGrants := s.readGrants ++ [s.calls.length] } rl wl where
  count := by
    have hc := hi.count
    simp only [List.length_append, List.length_singleton]
    omega
  fibers := hi.fibers
  excl := fun _ => hw
  write_grants := hi.write_grants
  read_queue := hi.read_queue
  write_queue := hi.write_queue
  reads := by simpa [hop] using hi.reads.append_returned op .ok
  writes := by simpa [Op.writes, hop] using hi.writes.append_returned op .ok
  idle := fun h => absurd h (Nat.succ_ne_zero _)

theorem parkReader (hi : Inv s rl wl) {op : Op} (f : FiberRef) (hop : op.reads = true)
    (hshut : ¬ (s.frw.writer = 0 ∧ s.frw.writerQueue = [])) :
    Inv { s with
      frw := { s.frw with readerQueue := s.frw.readerQueue ++ [⟨s.calls.length, f⟩] },
      calls := s.calls ++ [⟨op, .parked⟩] } (rl.arrive s.calls.length) wl where
  count := hi.count
  fibers := hi.fibers
  excl := hi.excl
  write_grants := hi.write_grants
  read_queue := by
    simp [hi.read_queue, rl.arrive_waiting hi.reads.next_not_arrived]
  write_queue := hi.write_queue
  reads := hi.reads.append_parked op hop
  writes := hi.writes.append_other op (by simp [Op.writes, hop])
  idle hr hw := absurd ⟨hw, (hi.idle hr hw).2⟩ hshut

theorem write (hi : Inv s rl wl) {op : Op} (f : FiberRef) (hop : op.writes = true)
    (hr : s.frw.readers = 0) (hw : s.frw.writer = 0) (hq : s.frw.writerQueue = []) :
    Inv { s with
      frw := { s.frw with writer := f.id },
      calls := s.calls ++ [⟨op, .returned .ok⟩],
      writeGrants := s.writeGrants ++ [(s.calls.length, f.id)] }
      rl ((wl.arrive s.calls.length).serve 1) := by
  -- on an empty queue to arrive and to be served is one step of the history
  have hwait : wl.waiting = [] := by rw [← hi.write_queue, hq, List.map_nil]
  have hnew := hi.writes.next_not_arrived
  have hserved := wl.served_of_immediate hnew hwait
  constructor
  case idle => exact fun _ h => absurd h f.id_ne_zero
  constructor
  case count => exact hi.count
  case fibers =>
    have hf := hi.fibers
    rw [if_pos hw] at hf
    simp [hf, f.id_ne_zero]
  case excl => simp [hr]
  case write_grants =>
    simp only [List.map_append, List.map_cons, List.map_nil, hi.write_grants, hserved]
  case read_queue => exact hi.read_queue
  case write_queue =>
    rw [wl.waiting_of_immediate hnew hwait, hq, List.map_nil]
  case reads =>
    have hreads : op.reads = false := by simpa [Op.writes] using hop
    simpa [hreads] using hi.reads.append_returned op .ok
  case writes =>
    have ht := hi.writes.append_served op (r := .ok) hop rfl rfl hwait
    rw [← hserved] at ht
    exact ht

theorem parkWriter (hi : Inv s rl wl) {op : Op} (f : FiberRef) (hop : op.writes = true)
    (hshut : ¬ (s.frw.readers = 0 ∧ s.frw.writer = 0 ∧ s.frw.writerQueue = [])) :
    Inv { s with
      frw := { s.frw with writerQueue := s.frw.writerQueue ++ [⟨s.calls.length, f⟩] },
      calls := s.calls ++ [⟨op, .parked⟩] } rl (wl.arrive s.calls.length) where
  count := hi.count
  fibers := hi.fibers
  excl := hi.excl
  write_grants := by simpa using hi.write_grants
  read_queue := hi.read_queue
  write_queue := by
    simp [hi.write_queue, wl.arrive_waiting hi.writes.next_not_arrived]
  reads := hi.reads.append_other op (by simpa [Op.writes] using hop)
  writes := by simpa using hi.writes.append_parked op hop
  idle hr hw := absurd ⟨hr, hw, (hi.idle hr hw).2⟩ hshut

theorem readerLeaves (hi : Inv s rl wl) (h : 1 < s.frw.readers) :
    Inv { s with frw := { s.frw with readers := s.frw.readers - 1 },
                 runlocks := s.runlocks + 1 } rl wl where
  count := by
    have hc := hi.count
    simp only
    omega
  fibers := hi.fibers
  excl := fun _ => hi.excl (by omega)
  write_grants := hi.write_grants
  read_queue := hi.read_queue
  write_queue := hi.write_queue
  reads := hi.reads
  writes := hi.writes
  idle := fun h0 => by simp only at h0; omega

/-! ### Releases -/

/-- After the first half of a release the mutex is free. -/
theorem leaves {l : Label} {s₁ : Sys} (hi : Inv s rl wl) (hl : Leaves s l s₁) :
    Core s₁ rl wl ∧ s₁.frw.readers = 0 ∧ s₁.frw.writer = 0 := by
  cases hl with
  | reader h =>
    have hw := hi.excl (by omega)
    refine ⟨{ hi.toCore with count := ?_, excl := fun _ => hw }, rfl, hw⟩
    have hc := hi.count
    simp only
    omega
  | writer f h =>
    -- the caller holds the write lock, so nobody reads
    have hr : s.frw.readers = 0 := by
      by_contra h0
      exact f.id_ne_zero (h ▸ hi.excl (by omega))
    refine ⟨{ hi.toCore with fibers := ?_, excl := fun _ => rfl }, hr, rfl⟩
    have hf := hi.fibers
    rw [if_neg (h ▸ f.id_ne_zero), h] at hf
    simpa using hf

theorem toWriter {s₁ : Sys} (hc : Core s₁ rl wl) (hr : s₁.frw.readers = 0) (hw : s₁.frw.writer = 0)
    {w : Waiter} {rest : List Waiter} (hq : s₁.frw.writerQueue = w :: rest) :
    Inv (s₁.letIn { s₁.frw with writerQueue := rest, writer := w.fiber.id } (.writer w))
      rl (wl.serve 1) := by
  have hwait : wl.waiting = w.call :: rest.map Waiter.call := by
    rw [← hc.write_queue, hq, List.map_cons]
  have hmem : w.call ∈ wl.waiting := by simp [hwait]
  have hwrites := ((hc.writes.parked_iff _).mp hmem).1
  constructor
  case idle => exact fun _ h => absurd h w.fiber.id_ne_zero
  constructor
  case count => exact hc.count
  case fibers =>
    have hf := hc.fibers
    rw [if_pos hw] at hf
    simp [Sys.letIn, hf, w.fiber.id_ne_zero]
  case excl => simp [Sys.letIn, hr]
  case write_grants => simp [Sys.letIn, hc.write_grants, hwait]
  case read_queue => exact hc.read_queue
  case write_queue => simp [Sys.letIn, hwait]
  case reads =>
    -- the woken call is a writer's, which the history of the readers does not see
    refine hc.reads.wakeOther [w.call] .ok ?_ ?_
    · simp [hc.writes.phaseOf_waiting hmem]
    · simp only [List.mem_singleton, forall_eq]
      exact fun hreads => not_writes_of_reads hreads hwrites
  case writes =>
    have ht := hc.writes.serve 1 (r := .ok) rfl rfl
    rw [hwait] at ht
    simpa [Sys.letIn, hwait, Calls.wakeAll_singleton] using ht

theorem toReaders {s₁ : Sys} (hc : Core s₁ rl wl) (hr : s₁.frw.readers = 0)
    (hw : s₁.frw.writer = 0) (hq : s₁.frw.writerQueue = []) :
    Inv (s₁.letIn
      { s₁.frw with readers := s₁.frw.readers + s₁.frw.readerQueue.length, readerQueue := [] }
      (.readers s₁.frw.readerQueue)) (rl.serve s₁.frw.readerQueue.length) wl := by
  -- the round takes the whole reader queue
  have hall : rl.waiting.take s₁.frw.readerQueue.length = rl.waiting := by
    rw [← hc.read_queue, ← List.length_map (f := Waiter.call), List.take_length]
  constructor
  case idle => exact fun _ _ => ⟨rfl, hq⟩
  constructor
  case count =>
    have hcount := hc.count
    simp only [Sys.letIn, List.length_append, List.length_map]
    omega
  case fibers => exact hc.fibers
  case excl => exact fun _ => hw
  case write_grants => exact hc.write_grants
  case read_queue =>
    simp [Sys.letIn, ← hc.read_queue]
  case write_queue => exact hc.write_queue
  case reads =>
    have ht := hc.reads.serve s₁.frw.readerQueue.length (r := .ok) rfl rfl
    rw [hall, ← hc.read_queue] at ht
    exact ht
  case writes =>
    refine hc.writes.wakeOther _ .ok ?_ ?_
    · intro c hmem
      rw [hc.read_queue] at hmem
      exact hc.reads.phaseOf_waiting hmem
    · intro c hmem
      rw [hc.read_queue] at hmem
      exact not_writes_of_reads ((hc.reads.parked_iff c).mp hmem).1

/-! ### Leaving a wait -/

theorem resume (hi : Inv s rl wl) {c : Nat} {r : Result}
    (hc : s.calls.phaseOf c = some (.woken r)) :
    Inv { s with calls := s.calls.setPhase c (.returned r) } rl wl :=
  { hi with
    reads := hi.reads.resume hc
    writes := hi.writes.resume hc }

theorem withdrawReader (hi : Inv s rl wl) {c : Nat} (hop : s.calls.Is Op.reads c)
    (hc : s.calls.phaseOf c = some .parked) :
    Inv { s with frw := s.frw.removeReaderLocked c,
                 calls := s.calls.setPhase c (.returned .ctxErr) } (rl.drop (· == c)) wl where
  count := hi.count
  fibers := hi.fibers
  excl := hi.excl
  write_grants := hi.write_grants
  read_queue := by
    have hnd := rl.waiting_nodup
    rw [← hi.read_queue] at hnd
    simp only [removeReaderLocked, map_removeWaiter_eq_filter c hnd, hi.read_queue,
      Ledger.drop_waiting]
  write_queue := hi.write_queue
  reads := hi.reads.withdraw ((hi.reads.parked_iff c).mpr ⟨hop, hc⟩) rfl rfl
  writes := hi.writes.withdrawOther _ (not_writes_of_reads hop)
  idle hr hw := by
    obtain ⟨hrq, hwq⟩ := hi.idle hr hw
    exact ⟨by simp [removeReaderLocked, removeWaiter, hrq], hwq⟩

theorem withdrawWriter (hi : Inv s rl wl) {c : Nat} (hop : s.calls.Is Op.writes c)
    (hc : s.calls.phaseOf c = some .parked) :
    Inv { s with frw := s.frw.removeWriterLocked c,
                 calls := s.calls.setPhase c (.returned .ctxErr) } rl (wl.drop (· == c)) where
  count := hi.count
  fibers := hi.fibers
  excl := hi.excl
  write_grants := hi.write_grants
  read_queue := hi.read_queue
  write_queue := by
    have hnd := wl.waiting_nodup
    rw [← hi.write_queue] at hnd
    simp only [removeWriterLocked, map_removeWaiter_eq_filter c hnd, hi.write_queue,
      Ledger.drop_waiting]
  reads := hi.reads.withdrawOther _ (fun hreads => not_writes_of_reads hreads hop)
  writes := hi.writes.withdraw ((hi.writes.parked_iff c).mpr ⟨hop, hc⟩) rfl rfl
  idle hr hw := by
    obtain ⟨hrq, hwq⟩ := hi.idle hr hw
    exact ⟨hrq, by simp [removeWriterLocked, removeWaiter, hwq]⟩

theorem effect {l : Label} {s' : Sys} (hi : Inv s rl wl) (h : Effect s l s') :
    ∃ rl' wl', Inv s' rl' wl' := by
  cases h with
  | ret op r hok => exact ⟨_, _, hi.ret op hok⟩
  | read op hop hw hq => exact ⟨_, _, hi.read hop hw⟩
  | parkReader op f hop hshut => exact ⟨_, _, hi.parkReader f hop hshut⟩
  | write op f hop hr hw hq => exact ⟨_, _, hi.write f hop hr hw hq⟩
  | parkWriter op f hop hshut => exact ⟨_, _, hi.parkWriter f hop hshut⟩
  | readerLeaves h => exact ⟨_, _, hi.readerLeaves h⟩
  | toWriter hl w rest hq =>
    obtain ⟨hc, hr, hw⟩ := hi.leaves hl
    exact ⟨_, _, toWriter hc hr hw hq⟩
  | toReaders hl hq =>
    obtain ⟨hc, hr, hw⟩ := hi.leaves hl
    exact ⟨_, _, toReaders hc hr hw hq⟩
  | resume l c r hc => exact ⟨_, _, hi.resume hc⟩
  | withdrawReader c hop hc => exact ⟨_, _, hi.withdrawReader hop hc⟩
  | withdrawWriter c hop hc => exact ⟨_, _, hi.withdrawWriter hop hc⟩
  | panic l => exact ⟨_, _, hi⟩

end Inv

/-- The invariant holds in every run. -/
theorem Reachable.inv {s : Sys} (h : Reachable s) : ∃ rl wl, Inv s rl wl :=
  Trans.Reach.invariant (P := fun s => ∃ rl wl, Inv s rl wl) ⟨_, _, inv_init⟩
    (fun _ _ _ ⟨_, _, hi⟩ _ hs => hi.effect (step_effect hi.excl hs)) h

/-! ## Settled calls -/

/-- No step changes the result of a settled call. -/
theorem Effect.later {s s' : Sys} {l : Label} {rl wl : Ledger Nat} (hi : Inv s rl wl)
    (h : Effect s l s') : s.calls.Later s'.calls := by
  cases h with
  | ret op r => exact Calls.later_append _ _
  | read op => exact Calls.later_append _ _
  | parkReader op f => exact Calls.later_append _ _
  | write op f => exact Calls.later_append _ _
  | parkWriter op f => exact Calls.later_append _ _
  | readerLeaves h => exact Calls.Later.refl _
  | @toWriter l s₁ hl w rest hq =>
    have hcore := (hi.leaves hl).1
    have hmem : w.call ∈ wl.waiting := by rw [← hcore.write_queue, hq]; simp
    have hlater : s₁.calls.Later (s₁.calls.setPhase w.call (.woken .ok)) :=
      Calls.later_setPhase _ (hcore.writes.phaseOf_waiting hmem)
    cases hl <;> exact hlater
  | @toReaders l s₁ hl hq =>
    have hcore := (hi.leaves hl).1
    have hlater := Calls.later_wakeAll (s₁.frw.readerQueue.map Waiter.call) Result.ok
      (fun c hc => hcore.reads.phaseOf_waiting (hcore.read_queue ▸ hc))
    cases hl <;> exact hlater
  | resume l c r hc => exact Calls.later_resume hc
  | withdrawReader c _ hc => exact Calls.later_setPhase _ hc
  | withdrawWriter c _ hc => exact Calls.later_setPhase _ hc
  | panic l => exact Calls.Later.refl _

/-- Nor does a run. -/
theorem Reachable.later {s s' : Sys} (h : Reachable s)
    (hrun : Trans.Reach step Trans.anyStep s s') : s.calls.Later s'.calls := by
  refine h.rel (R := fun s s' => s.calls.Later s'.calls) (fun s => .refl s.calls) .trans
    (fun ht hs => ?_) hrun
  obtain ⟨_, _, hi⟩ := Reachable.inv ht
  exact (step_effect hi.excl hs).later hi

/-! ## Exclusion and counting -/

/-- Call `c` was given the lock it asked for. -/
def Sys.Granted (s : Sys) (c : Nat) : Prop :=
  c ∈ s.readGrants ∨ c ∈ s.writeGrants.map Prod.fst

/-- The lock state is exact and exclusive. -/
structure Exclusive (s : Sys) : Prop where
  readers_eq : (s.frw.readers : Int) = s.readGrants.length - s.runlocks
  held : s.frw.writer ≠ 0 → ∃ c, outstanding s.writeGrants s.releases = [(c, s.frw.writer)]
  free : s.frw.writer = 0 → outstanding s.writeGrants s.releases = []
  released : s.releases = (s.writeGrants.take s.releases.length).map Prod.snd
  excl : 0 < s.frw.readers → s.frw.writer = 0
  idle : s.frw.readers = 0 → s.frw.writer = 0 →
    s.frw.readerQueue = [] ∧ s.frw.writerQueue = []

theorem Inv.exclusive {s : Sys} {rl wl : Ledger Nat} (hi : Inv s rl wl) : Exclusive s where
  readers_eq := by
    have hc := hi.count
    omega
  held hw := outstanding_eq_singleton (by rw [hi.fibers, if_neg hw])
  free hw := outstanding_eq_nil (by rw [hi.fibers, if_pos hw, List.append_nil])
  released := by rw [List.map_take, hi.fibers, List.take_left]
  excl := hi.excl
  idle := hi.idle

/-- A call has the result `ok` exactly if it was given the lock it asked for. -/
theorem Inv.ok_iff_granted {s : Sys} {rl wl : Ledger Nat} (hi : Inv s rl wl) {c : Nat}
    {r : Result} (hc : s.calls.resultOf c = some r) : r = .ok ↔ s.Granted c := by
  have hmade : s.calls.Is (fun _ => true) c := Calls.is_true_of_resultOf hc
  unfold Sys.Granted
  rw [hi.write_grants, hi.reads.granted_iff, hi.writes.granted_iff, hc]
  unfold Calls.Is at hmade ⊢
  cases hop : s.calls.opOf c with
  | none => simp [hop] at hmade
  | some op => cases hr : op.reads <;> simp [Op.writes, hr]

/-- A parked reader has a writer to wait for. -/
def ReadersWaitForWriter (s : Sys) : Prop :=
  s.frw.readerQueue ≠ [] → s.frw.writer ≠ 0 ∨ s.frw.writerQueue ≠ []

/-- The step cancels the only queued writer while no writer holds the lock and readers are
parked. -/
def Strands (s : Sys) : Label → Prop
  | .cancel c => s.frw.writer = 0 ∧ s.frw.writerQueue.map Waiter.call = [c] ∧
      s.frw.readerQueue ≠ []
  | _ => False

instance (s : Sys) : (l : Label) → Decidable (Strands s l)
  | .cancel c => inferInstanceAs (Decidable (s.frw.writer = 0 ∧
      s.frw.writerQueue.map Waiter.call = [c] ∧ s.frw.readerQueue ≠ []))
  | .call _ | .rUnlock | .unlock _ | .resume _ => .isFalse id

/-- The queue is emptied by a cancellation only if it held that one waiter. -/
theorem removeWaiter_eq_nil {queue : List Waiter} {c : Nat} (hc : c ∈ queue.map Waiter.call) :
    removeWaiter Waiter.call queue c = [] ↔ queue.map Waiter.call = [c] := by
  rw [← List.map_eq_nil_iff (f := Waiter.call), map_removeWaiter]
  constructor
  · intro h
    have hperm := List.perm_cons_erase hc
    rw [h] at hperm
    exact List.perm_singleton.mp hperm
  · intro h
    rw [h]
    simp

/-- Every step that strands nobody keeps a writer in front of the parked readers. -/
theorem Effect.readersWait {s s' : Sys} {l : Label} {rl wl : Ledger Nat} (hi : Inv s rl wl)
    (h : Effect s l s') (hp : ReadersWaitForWriter s) (hkeep : ¬ Strands s l) :
    ReadersWaitForWriter s' := by
  cases h with
  | ret op r => exact hp
  | read op _ hw hq => exact hp
  | parkReader op f _ hshut =>
    intro _
    by_contra hno
    push Not at hno
    exact hshut hno
  | write op f => exact fun _ => .inl f.id_ne_zero
  | parkWriter op f => exact fun _ => .inr (by simp)
  | readerLeaves h => exact hp
  | toWriter hl w rest => exact fun _ => .inl w.fiber.id_ne_zero
  | toReaders hl => exact fun hne => absurd rfl hne
  | resume l c r => exact hp
  | withdrawReader c =>
    intro hne
    refine hp fun hempty => hne ?_
    simp [removeReaderLocked, removeWaiter, hempty]
  | withdrawWriter c hop hc =>
    -- the one way to lose the last writer; it is what `Strands` excludes
    intro hne
    by_contra hno
    push Not at hno
    have hmem : c ∈ s.frw.writerQueue.map Waiter.call := by
      rw [hi.write_queue]
      exact (hi.writes.parked_iff c).mpr ⟨hop, hc⟩
    exact hkeep ⟨hno.1, (removeWaiter_eq_nil hmem).mp hno.2, hne⟩
  | panic l => exact hp

/-- A step that strands a reader leaves it without a writer to wait for. -/
theorem strands_breaks {s s' : Sys} {l : Label} {rl wl : Ledger Nat} (hi : Inv s rl wl)
    (h : step s l = some s') (hst : Strands s l) : ¬ ReadersWaitForWriter s' := by
  cases l with
  | cancel c =>
    obtain ⟨hw, hq, hne⟩ := hst
    have hmem : c ∈ wl.waiting := by rw [← hi.write_queue, hq]; simp
    obtain ⟨hop, hparked⟩ := (hi.writes.parked_iff c).mp hmem
    have hafter : s'.frw = s.frw.removeWriterLocked c := by
      simp only [step, Sys.cancel, hparked] at h
      split at h
      · next hsome => cases hsome
      · next hsome => cases hsome
      · next hread _ => simp [Calls.Is, hread, Op.writes, Op.reads] at hop
      · cases h; rfl
      · cases h
    intro hp
    rw [ReadersWaitForWriter, hafter] at hp
    rcases hp hne with hno | hno
    · exact hno hw
    · exact hno ((removeWaiter_eq_nil (by simp [hq])).mpr hq)
  | _ => exact hst.elim

/-- Fiber 3 parks behind the writer 2, which is cancelled: it stays parked although no writer
is left, and fiber 4 is let in past it. -/
theorem reader_stranded :
    ∃ s, Reachable s ∧ s.frw.readerQueue.map Waiter.call = [2] ∧ s.frw.writer = 0 ∧
      s.frw.writerQueue = [] ∧ 3 ∈ s.readGrants := by
  obtain ⟨s, hs, hp⟩ := Trans.exists_reach_of_exec step init
    [.call (.rLock (some ⟨1, by decide⟩)), .call (.lockCtx (some ⟨2, by decide⟩)),
      .call (.rLock (some ⟨3, by decide⟩)), .cancel 1, .call (.rLock (some ⟨4, by decide⟩))]
    (fun s => s.frw.readerQueue.map Waiter.call == [2] && s.frw.writer == 0 &&
      s.frw.writerQueue == [] && s.readGrants.contains 3) (by decide)
  simp only [Bool.and_eq_true, beq_iff_eq, List.contains_iff_mem] at hp
  exact ⟨s, hs, hp.1.1.1, hp.1.1.2, hp.1.2, hp.2⟩

/-- Along a run without a stranding cancellation parked readers have a writer to wait for. -/
theorem readersWait_of_reach {s : Sys} (h : Trans.Reach step (fun s l => ¬ Strands s l) init s) :
    Reachable s ∧ ReadersWaitForWriter s := by
  induction h with
  | refl => exact ⟨.refl, fun hne => absurd rfl hne⟩
  | tail _ hkeep hs ih =>
    obtain ⟨hr, hp⟩ := ih
    obtain ⟨_, _, hi⟩ := hr.inv
    exact ⟨.tail hr trivial hs, (step_effect hi.excl hs).readersWait hi hp hkeep⟩

/-- In every run without a stranding cancellation parked readers always have a writer to wait
for; and the condition is exact, for a step that violates it breaks the property at once. -/
theorem readers_wait_for_writer {s : Sys}
    (h : Trans.Reach step (fun s l => ¬ Strands s l) init s) :
    ReadersWaitForWriter s ∧
    ∀ l s', step s l = some s' → (ReadersWaitForWriter s' ↔ ¬ Strands s l) := by
  obtain ⟨hr, hp⟩ := readersWait_of_reach h
  obtain ⟨_, _, hi⟩ := hr.inv
  refine ⟨hp, fun l s' hs => ⟨?_, ?_⟩⟩
  · intro hp' hst
    exact strands_breaks hi hs hst hp'
  · intro hkeep
    exact (step_effect hi.excl hs).readersWait hi hp hkeep

/-- The second of two queued writers may be cancelled: the first still stands before fiber 4. -/
theorem readers_wait_for_writer_two_writers :
    ∃ s, Trans.Reach step (fun s l => ¬ Strands s l) init s ∧
      s.frw.readerQueue.map Waiter.call = [3] ∧ ReadersWaitForWriter s := by
  obtain ⟨s, hs, hp⟩ := Trans.exists_reach_of_exec_guarded step (fun s l => ¬ Strands s l) init
    [.call (.rLock (some ⟨1, by decide⟩)), .call (.lock (some ⟨2, by decide⟩)),
      .call (.lockCtx (some ⟨3, by decide⟩)), .call (.rLock (some ⟨4, by decide⟩)), .cancel 2]
    (fun s => s.frw.readerQueue.map Waiter.call == [3]) (by decide)
  simp only [beq_iff_eq] at hp
  exact ⟨s, hs, hp, (readers_wait_for_writer hs).1⟩

/-! ## Writers first

While a writer is queued, the two places that let a reader in at once and the two that let
parked readers in are all shut: the first look at `writerQueue`, the others come after
`grantWriterLocked`. -/

/-- No step from a state with a queued writer grants a read lock. -/
theorem Effect.readGrants_eq {s s' : Sys} {l : Label} (h : Effect s l s')
    (hq : s.frw.writerQueue ≠ []) : s'.readGrants = s.readGrants := by
  cases h with
  | read op hop hw hempty => exact absurd hempty hq
  | toWriter hl w rest => cases hl <;> rfl
  | toReaders hl hempty =>
    cases hl with
    | reader => exact absurd hempty hq
    | writer => exact absurd hempty hq
  | _ => rfl

/-- Nor does a stretch of a run in which one writer stays queued. -/
theorem Reachable.readGrants_eq {s s' : Sys} {c : Nat} (h : Reachable s)
    (hrun : Trans.Reach step (fun t _ => c ∈ t.frw.writerQueue.map Waiter.call) s s') :
    s'.readGrants = s.readGrants := by
  induction hrun with
  | refl => rfl
  | @tail t t' l hrun hc hs ih =>
    obtain ⟨_, _, hi⟩ := Reachable.inv (h.trans (hrun.mono fun _ _ _ => trivial))
    have hq : t.frw.writerQueue ≠ [] := fun hempty => by simp [hempty] at hc
    rw [(step_effect hi.excl hs).readGrants_eq hq, ih]

/-- A queued writer leaves the queue with the lock or with the error of its context. -/
theorem Effect.writer_leaves {s s' : Sys} {l : Label} (h : Effect s l s') {c : Nat}
    (hc : c ∈ s.frw.writerQueue.map Waiter.call) (hgone : c ∉ s'.frw.writerQueue.map Waiter.call) :
    c ∈ s'.writeGrants.map Prod.fst ∨ s'.calls.phaseOf c = some (.returned .ctxErr) := by
  cases h with
  | parkWriter op f =>
    refine absurd ?_ hgone
    rw [List.map_append]
    exact List.mem_append_left _ hc
  | toWriter hl w rest hq =>
    have hqueue : s.frw.writerQueue = w :: rest := by cases hl <;> exact hq
    rw [hqueue, List.map_cons, List.mem_cons] at hc
    rcases hc with rfl | hc
    · left
      simp [Sys.letIn]
    · exact absurd hc hgone
  | toReaders hl hq =>
    have hqueue : s.frw.writerQueue = [] := by cases hl <;> exact hq
    rw [hqueue] at hc
    cases hc
  | withdrawWriter d hop hd =>
    right
    by_cases hcd : c = d
    · subst hcd
      exact Calls.phaseOf_setPhase_self _ hd
    · refine absurd ?_ hgone
      rw [removeWriterLocked, map_removeWaiter]
      exact (List.mem_erase_of_ne hcd).mpr hc
  | _ => exact absurd hc hgone

/-- A call that finds a writer queued is not granted the write lock at once. -/
theorem enter_writeGrants {s : Sys} (hq : s.frw.writerQueue ≠ []) (op : Op) :
    (s.enter op).writeGrants = s.writeGrants := by
  have heff := enter_effect s op
  generalize s.enter op = s' at heff
  cases heff with
  | write _ f _ hr hw hempty => exact absurd hempty hq
  | toWriter hl => cases hl
  | toReaders hl => cases hl
  | _ => rfl

/-- `FiberRWMutex` prefers writers, from every state of every run on. -/
theorem fiberRWMutex_writer_preferred {s : Sys} (h : Reachable s) :
    (∀ c s', Trans.Reach step (fun t _ => c ∈ t.frw.writerQueue.map Waiter.call) s s' →
      s'.readGrants = s.readGrants) ∧
    (∀ c l s', c ∈ s.frw.writerQueue.map Waiter.call → step s l = some s' →
      c ∉ s'.frw.writerQueue.map Waiter.call →
      c ∈ s'.writeGrants.map Prod.fst ∨ s'.calls.phaseOf c = some (.returned .ctxErr)) ∧
    (s.writeGrants.map Prod.fst ++ s.frw.writerQueue.map Waiter.call
      = (List.range s.calls.length).filter (s.calls.live Op.writes (· == .ok))) ∧
    (s.frw.writerQueue ≠ [] → (∀ w, (s.frw.lockSection w).2 = false) ∧
      ∀ op s', step s (.call op) = some s' → s'.writeGrants = s.writeGrants) := by
  obtain ⟨_, wl, hi⟩ := h.inv
  refine ⟨fun c s' hrun => h.readGrants_eq hrun, ?_, ?_, ?_⟩
  · intro c l s' hc hs hgone
    exact (step_effect hi.excl hs).writer_leaves hc hgone
  · rw [hi.write_grants, hi.write_queue, hi.writes.fifo]
  · intro hq
    refine ⟨fun w => ?_, fun op s' hs => ?_⟩
    · rw [lockSection_shut w fun hfree => hq hfree.2.2]
    · cases hs
      exact enter_writeGrants hq op

/-- Fiber 2 waits to write behind the reader 1; fiber 3 asks to read and fiber 4 to write
meanwhile, and the reader leaves. Only fiber 1 ever read. -/
theorem fiberRWMutex_writer_preferred_stretch :
    ∃ s s', Reachable s ∧ Trans.Reach step (fun t _ => 1 ∈ t.frw.writerQueue.map Waiter.call) s s' ∧
      s.readGrants = [0] ∧ s'.frw.writer = 2 ∧ s'.readGrants = s.readGrants := by
  obtain ⟨s, hs, hp⟩ := Trans.exists_reach_of_exec step init
    [.call (.rLock (some ⟨1, by decide⟩)), .call (.lock (some ⟨2, by decide⟩))]
    (fun s => s.readGrants == [0] && (Trans.exec (Trans.guarded step
      fun t _ => 1 ∈ t.frw.writerQueue.map Waiter.call) s
        [.call (.rLock (some ⟨3, by decide⟩)), .call (.lock (some ⟨4, by decide⟩)),
          .rUnlock]).any fun s' => s'.frw.writer == 2) (by decide)
  simp only [Bool.and_eq_true, beq_iff_eq] at hp
  obtain ⟨hread, hp⟩ := hp
  obtain ⟨s', hs', hw⟩ := (Option.any_eq_true _ _).mp hp
  have hrun := Trans.Reach.of_exec_guarded hs'
  exact ⟨s, s', hs, hrun, hread, by simpa using hw,
    (fiberRWMutex_writer_preferred hs).1 1 s' hrun⟩

end GreenThreads.Sync.RWMutex
