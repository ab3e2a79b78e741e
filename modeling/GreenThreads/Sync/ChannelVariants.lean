import GreenThreads.Sync.Channel

/-!
# GreenThreads — blocking, context and try variants of a channel operation

`channel.go` writes the transfer of a value out six times. `FiberChannel.AsWritten` has the six
critical sections branch by branch, each on its own. They are compared with each other, and with
the sections the system of calls is made of (`enter_asWritten`).

A `SendCtx` or `ReceiveCtx` differs from `Send` and `Receive` in the wait alone: one more way to
leave it. A run that never takes it for some calls is the run in which these are the plain
operations (`exec_plain`).
-/

namespace GreenThreads.Sync

namespace FiberChannel.AsWritten

open Channel

variable {V : Type*}

/-- `Send` up to the wait, for the call `c`. -/
def send (fc : FiberChannel V) (c : Nat) (value : V) (currentFiber : Option FiberRef) :
    FiberChannel V × Outcome V :=
  if fc.closed then (fc, ⟨some .closed, []⟩)
  else match fc.receivers with
    | receiver :: rest =>
      ({ fc with receivers := rest }, ⟨some .sent, [(receiver.call, .received value)]⟩)
    | [] =>
      if fc.buffer.length < fc.capacity then
        ({ fc with buffer := fc.buffer ++ [value] }, ⟨some .sent, []⟩)
      else match currentFiber with
        | none => (fc, ⟨some (.err "blocking send requires a current fiber"), []⟩)
        | some f => ({ fc with senders := fc.senders ++ [⟨c, f, value⟩] }, ⟨none, []⟩)

/-- `SendCtx` up to the wait. -/
def sendCtx (fc : FiberChannel V) (c : Nat) (value : V) (currentFiber : Option FiberRef) :
    FiberChannel V × Outcome V :=
  if fc.closed then (fc, ⟨some .closed, []⟩)
  else match fc.receivers with
    | receiver :: rest =>
      ({ fc with receivers := rest }, ⟨some .sent, [(receiver.call, .received value)]⟩)
    | [] =>
      if fc.buffer.length < fc.capacity then
        ({ fc with buffer := fc.buffer ++ [value] }, ⟨some .sent, []⟩)
      else match currentFiber with
        | none => (fc, ⟨some (.err "blocking send requires a current fiber"), []⟩)
        | some f => ({ fc with senders := fc.senders ++ [⟨c, f, value⟩] }, ⟨none, []⟩)

/-- `TrySend`. -/
def trySend (fc : FiberChannel V) (value : V) : FiberChannel V × Outcome V :=
  if fc.closed then (fc, ⟨some .closed, []⟩)
  else match fc.receivers with
    | receiver :: rest =>
      ({ fc with receivers := rest }, ⟨some .sent, [(receiver.call, .received value)]⟩)
    | [] =>
      if fc.buffer.length ≥ fc.capacity then (fc, ⟨some .notReady, []⟩)
      else ({ fc with buffer := fc.buffer ++ [value] }, ⟨some .sent, []⟩)

/-- `Receive` up to the wait, for the call `c`. -/
def receive (fc : FiberChannel V) (c : Nat) (currentFiber : Option FiberRef) :
    FiberChannel V × Outcome V :=
  match fc.buffer with
  | value :: rest =>
    let (fc', woken) := admitSenderLocked { fc with buffer := rest }
    (fc', ⟨some (.received value), woken⟩)
  | [] =>
    match fc.senders with
    | sender :: rest =>
      ({ fc with senders := rest }, ⟨some (.received sender.value), [(sender.call, .sent)]⟩)
    | [] =>
      if fc.closed then (fc, ⟨some .closed, []⟩)
      else match currentFiber with
        | none => (fc, ⟨some (.err "blocking receive requires a current fiber"), []⟩)
        | some f => ({ fc with receivers := fc.receivers ++ [⟨c, f⟩] }, ⟨none, []⟩)

/-- `ReceiveCtx` up to the wait. -/
def receiveCtx (fc : FiberChannel V) (c : Nat) (currentFiber : Option FiberRef) :
    FiberChannel V × Outcome V :=
  match fc.buffer with
  | value :: rest =>
    let (fc', woken) := admitSenderLocked { fc with buffer := rest }
    (fc', ⟨some (.received value), woken⟩)
  | [] =>
    match fc.senders with
    | sender :: rest =>
      ({ fc with senders := rest }, ⟨some (.received sender.value), [(sender.call, .sent)]⟩)
    | [] =>
      if fc.closed then (fc, ⟨some .closed, []⟩)
      else match currentFiber with
        | none => (fc, ⟨some (.err "blocking receive requires a current fiber"), []⟩)
        | some f => ({ fc with receivers := fc.receivers ++ [⟨c, f⟩] }, ⟨none, []⟩)

/-- `TryReceive`, which does not look at `closed`. -/
def tryReceive (fc : FiberChannel V) : FiberChannel V × Outcome V :=
  match fc.buffer with
  | value :: rest =>
    let (fc', woken) := admitSenderLocked { fc with buffer := rest }
    (fc', ⟨some (.received value), woken⟩)
  | [] =>
    match fc.senders with
    | sender :: rest =>
      ({ fc with senders := rest }, ⟨some (.received sender.value), [(sender.call, .sent)]⟩)
    | [] => (fc, ⟨some .notReady, []⟩)

/-- The first section of an operation, as written for it. -/
def first (fc : FiberChannel V) (c : Nat) : Op V → FiberChannel V × Outcome V
  | .send value f => send fc c value f
  | .sendCtx value f => sendCtx fc c value f
  | .trySend value => trySend fc value
  | .receive f => receive fc c f
  | .receiveCtx f => receiveCtx fc c f
  | .tryReceive => tryReceive fc

variable (fc : FiberChannel V) (c : Nat) (v : V) (f : Option FiberRef)

theorem receive_eq : receive fc c f = fc.receive c f := by
  unfold receive FiberChannel.receive takeNow
  cases fc.buffer with
  | cons value rest => rfl
  | nil => cases fc.senders <;> rfl

theorem tryReceive_eq : tryReceive fc = fc.tryReceive := by
  unfold tryReceive FiberChannel.tryReceive takeNow
  cases fc.buffer with
  | cons value rest => rfl
  | nil => cases fc.senders <;> rfl

/-! ## The variants compared -/

/-- `TrySend` does what `Send` does, or finds the channel full: then `Send` parks, or fails if it
has no fiber. -/
theorem trySend_cases :
    (trySend fc v = send fc c v f ∧ (trySend fc v).2.own ≠ some .notReady ∧
        (send fc c v f).2.own ≠ none ∧
        (send fc c v f).2.own ≠ some (.err "blocking send requires a current fiber"))
      ∨ trySend fc v = (fc, ⟨some .notReady, []⟩) ∧
        (send fc c v f).2.own = f.elim (some (.err "blocking send requires a current fiber"))
          fun _ => none := by
  unfold trySend send
  cases fc.closed with
  | true => exact .inl ⟨rfl, by simp, by simp, by simp⟩
  | false =>
    cases fc.receivers with
    | cons receiver rest => exact .inl ⟨rfl, by simp, by simp, by simp⟩
    | nil =>
      by_cases hfull : fc.buffer.length < fc.capacity
      · refine .inl ?_
        simp [hfull, Nat.not_le.mpr hfull]
      · refine .inr ?_
        cases f <;> simp [hfull, Nat.not_lt.mp hfull]

/-- `TryReceive` does what `Receive` does, or finds nothing: then `Receive` parks, fails or finds
the channel closed. -/
theorem tryReceive_cases :
    (tryReceive fc = receive fc c f ∧ ∃ w, (receive fc c f).2.own = some (.received w))
      ∨ tryReceive fc = (fc, ⟨some .notReady, []⟩) ∧
        ((receive fc c f).2.own = none ∨ (receive fc c f).2.own = some .closed ∨
          (receive fc c f).2.own = some (.err "blocking receive requires a current fiber")) := by
  unfold tryReceive receive
  cases fc.buffer with
  | cons value rest => exact .inl ⟨rfl, value, rfl⟩
  | nil =>
    cases fc.senders with
    | cons sender rest => exact .inl ⟨rfl, sender.value, rfl⟩
    | nil =>
      refine .inr ⟨rfl, ?_⟩
      cases fc.closed <;> cases f <;> simp

end FiberChannel.AsWritten

namespace Channel

variable {V : Type*}

/-- The sections of the system are those written for the operations. -/
theorem enter_asWritten (s : Sys V) (op : Op V) :
    s.enter op = s.record op (FiberChannel.AsWritten.first s.fc s.calls.length op) := by
  cases op with
  | send | sendCtx | trySend => rfl
  | receive f => exact congrArg (s.record _) (FiberChannel.AsWritten.receive_eq ..).symm
  | receiveCtx f => exact congrArg (s.record _) (FiberChannel.AsWritten.receive_eq ..).symm
  | tryReceive => exact congrArg (s.record _) (FiberChannel.AsWritten.tryReceive_eq ..).symm

/-! ## Runs without cancellation -/

/-- The operation without its context. -/
def Op.plain : Op V → Op V
  | .sendCtx value f => .send value f
  | .receiveCtx f => .receive f
  | op => op

/-- The operation as call `c`, without its context if `c` is one of the calls `p` selects. -/
def Op.plainAt (p : Nat → Bool) (c : Nat) (op : Op V) : Op V := if p c then op.plain else op

/-- The calls that `p` selects made without their contexts. -/
def plainCalls (p : Nat → Bool) (calls : Calls (Op V) (Result V)) : Calls (Op V) (Result V) :=
  calls.mapIdx fun c k => ⟨k.op.plainAt p c, k.phase⟩

def Sys.plain (p : Nat → Bool) (s : Sys V) : Sys V := { s with calls := plainCalls p s.calls }

/-- A step with these calls made without their contexts; `n` is the number of the next call. -/
def Label.plain (p : Nat → Bool) (n : Nat) : Label V → Label V
  | .call op => .call (op.plainAt p n)
  | l => l

/-- The number of the next call after a step. -/
def Label.nextCall (n : Nat) : Label V → Nat
  | .call _ => n + 1
  | .close | .resume _ | .cancel _ => n

/-- A run with these calls made without their contexts. -/
def plainRun (p : Nat → Bool) : Nat → List (Label V) → List (Label V)
  | _, [] => []
  | n, l :: ls => l.plain p n :: plainRun p (l.nextCall n) ls

section Plain

variable {p : Nat → Bool}

theorem plainCalls_setPhase (calls : Calls (Op V) (Result V)) (c : Nat) (ph : Phase (Result V)) :
    plainCalls p (calls.setPhase c ph) = (plainCalls p calls).setPhase c ph := by
  refine List.ext_getElem? fun i => ?_
  simp only [plainCalls, Calls.setPhase, List.getElem?_mapIdx, List.getElem?_modify]
  cases calls[i]? with
  | none => rfl
  | some k => by_cases hi : c = i <;> simp [hi]

theorem plainCalls_wakeEach (calls : Calls (Op V) (Result V)) (ws : List (Nat × Result V)) :
    plainCalls p (calls.wakeEach ws) = (plainCalls p calls).wakeEach ws := by
  induction ws generalizing calls with
  | nil => rfl
  | cons w ws ih => exact (ih _).trans (by rw [plainCalls_setPhase]; rfl)

theorem plainCalls_append (calls : Calls (Op V) (Result V)) (k : Call (Op V) (Result V)) :
    plainCalls p (calls ++ [k])
      = plainCalls p calls ++ [⟨k.op.plainAt p calls.length, k.phase⟩] := by
  simp [plainCalls, List.mapIdx_append]

theorem length_plainCalls (calls : Calls (Op V) (Result V)) :
    (plainCalls p calls).length = calls.length :=
  List.length_mapIdx

theorem phaseOf_plainCalls (calls : Calls (Op V) (Result V)) (c : Nat) :
    (plainCalls p calls).phaseOf c = calls.phaseOf c := by
  simp only [Calls.phaseOf, plainCalls, List.getElem?_mapIdx, Option.map_map]
  rfl

theorem opOf_plainCalls (calls : Calls (Op V) (Result V)) (c : Nat) :
    (plainCalls p calls).opOf c = (calls.opOf c).map (Op.plainAt p c) := by
  simp only [Calls.opOf, plainCalls, List.getElem?_mapIdx, Option.map_map]
  rfl

theorem sends_plainAt (op : Op V) (c : Nat) : (op.plainAt p c).sends = op.sends := by
  unfold Op.plainAt
  split
  · cases op <;> rfl
  · rfl

theorem record_plain (s : Sys V) (op : Op V) (res : FiberChannel V × Outcome V) :
    (s.plain p).record (op.plainAt p s.calls.length) res = (s.record op res).plain p := by
  simp only [Sys.record, Sys.plain, plainCalls_wakeEach, plainCalls_append, length_plainCalls,
    sends_plainAt]

/-- The first section is the same with and without the context. -/
theorem first_plainAt (fc : FiberChannel V) (c n : Nat) (op : Op V) :
    FiberChannel.AsWritten.first fc c (op.plainAt p n) = FiberChannel.AsWritten.first fc c op := by
  unfold Op.plainAt
  split
  · cases op <;> rfl
  · rfl

theorem enter_plain (s : Sys V) (op : Op V) :
    (s.plain p).enter (op.plainAt p s.calls.length) = (s.enter op).plain p := by
  have hlen : (s.plain p).calls.length = s.calls.length := length_plainCalls s.calls
  rw [enter_asWritten, enter_asWritten, ← record_plain, hlen, first_plainAt]
  rfl

theorem close_plain (s : Sys V) : (s.plain p).close = s.close.plain p := by
  simp only [Sys.close, Sys.plain, plainCalls_wakeEach]

theorem resume_plain (s : Sys V) (c : Nat) :
    (s.plain p).resume c = (s.resume c).map (Sys.plain p) := by
  unfold Sys.resume
  rw [show (s.plain p).calls = plainCalls p s.calls from rfl, phaseOf_plainCalls]
  cases s.calls.phaseOf c with
  | none => rfl
  | some ph =>
    cases ph with
    | woken r => simp only [Option.map_some, Sys.plain, plainCalls_setPhase]
    | parked | returned r => rfl

/-- A call that keeps its context is cancelled as before. -/
theorem cancel_plain (s : Sys V) {c : Nat} (hc : p c = false) :
    (s.plain p).cancel c = (s.cancel c).map (Sys.plain p) := by
  have hop : (s.plain p).calls.opOf c = s.calls.opOf c := by
    rw [show (s.plain p).calls = plainCalls p s.calls from rfl, opOf_plainCalls]
    cases s.calls.opOf c <;> simp [Op.plainAt, hc]
  have hphase : (s.plain p).calls.phaseOf c = s.calls.phaseOf c := phaseOf_plainCalls s.calls c
  unfold Sys.cancel
  rw [hop, hphase]
  cases s.calls.opOf c with
  | none => rfl
  | some op =>
    cases s.calls.phaseOf c with
    | none => cases op <;> rfl
    | some ph =>
      cases op <;> cases ph <;>
        simp only [Option.map_some, Option.map_none, Sys.plain, plainCalls_setPhase]

/-- A step that is not the cancellation of a selected call. -/
theorem step_plain (s : Sys V) {l : Label V} (hl : ∀ c, p c = true → l ≠ .cancel c) :
    step (s.plain p) (l.plain p s.calls.length) = (step s l).map (Sys.plain p) := by
  cases l with
  | call op => exact congrArg some (enter_plain s op)
  | close => exact congrArg some (close_plain s)
  | resume c => exact resume_plain s c
  | cancel c =>
    refine cancel_plain s ?_
    cases hc : p c with
    | true => exact absurd rfl (hl c hc)
    | false => rfl

theorem length_calls_of_step {s s' : Sys V} {l : Label V} (h : step s l = some s') :
    s'.calls.length = l.nextCall s.calls.length := by
  cases l with
  | call op =>
    cases h
    simp [Sys.enter, Sys.record, Label.nextCall]
  | close =>
    cases h
    simp [Sys.close, Label.nextCall]
  | resume c =>
    simp only [step, Sys.resume] at h
    split at h
    · cases h
      exact Calls.length_setPhase _ _ _
    · cases h
  | cancel c =>
    simp only [step, Sys.cancel] at h
    split at h
    · cases h
      exact Calls.length_setPhase _ _ _
    · cases h
      exact Calls.length_setPhase _ _ _
    · cases h
      exact Calls.length_setPhase _ _ _
    · cases h
      exact Calls.length_setPhase _ _ _
    · cases h

/-- A run in which none of the selected calls is cancelled, with and without their contexts: the
same steps are possible, and they lead to the same channel, the same results and the same
wake-ups. Induction on the run. -/
theorem exec_plain (s : Sys V) {ls : List (Label V)} (hls : ∀ c, p c = true → .cancel c ∉ ls) :
    Trans.exec step (s.plain p) (plainRun p s.calls.length ls)
      = (Trans.exec step s ls).map (Sys.plain p) := by
  induction ls generalizing s with
  | nil => rfl
  | cons l ls ih =>
    have hl : ∀ c, p c = true → l ≠ .cancel c := fun c hc heq =>
      hls c hc (heq ▸ List.mem_cons_self)
    have hrest : ∀ c, p c = true → .cancel c ∉ ls := fun c hc hmem =>
      hls c hc (List.mem_cons_of_mem _ hmem)
    rw [plainRun, Trans.exec, step_plain s hl, Trans.exec]
    cases hs : step s l with
    | none => rfl
    | some s' =>
      rw [← length_calls_of_step hs]
      exact ih s' hrest

end Plain

open FiberChannel.AsWritten in
/-- The variants of the channel operations agree. In every state of the channel, for every value
and every fiber or none: `Send`, `SendCtx` and a `TrySend` that completes do the same; `TrySend`
finds the channel full, and changes nothing, exactly if `Send` parks or fails for lack of a fiber;
a `TryReceive` that gets a value does what `Receive` and `ReceiveCtx` do; it gets none, and changes
nothing, exactly if `Receive` parks, fails for lack of a fiber or finds the channel closed. In
every run, calls whose contexts are never cancelled can be made without them. -/
theorem channel_variants_agree :
    (∀ (fc : FiberChannel V) (c : Nat) (v : V) (f : Option FiberRef),
      send fc c v f = sendCtx fc c v f
      ∧ ((trySend fc v).2.own ≠ some .notReady → trySend fc v = send fc c v f)
      ∧ ((send fc c v f).2.own ≠ none →
        (send fc c v f).2.own ≠ some (.err "blocking send requires a current fiber") →
        trySend fc v = send fc c v f)
      ∧ (trySend fc v = (fc, ⟨some .notReady, []⟩) ↔ (send fc c v f).2.own = none ∨
        (send fc c v f).2.own = some (.err "blocking send requires a current fiber"))
      ∧ receive fc c f = receiveCtx fc c f
      ∧ ((tryReceive fc).2.own ≠ some .notReady → tryReceive fc = receive fc c f)
      ∧ (tryReceive fc = (fc, ⟨some .notReady, []⟩) ↔ (receive fc c f).2.own = none ∨
        (receive fc c f).2.own = some .closed ∨
        (receive fc c f).2.own = some (.err "blocking receive requires a current fiber")))
      ∧ ∀ (capacity : Int) (p : Nat → Bool) (ls : List (Label V)),
        (∀ c, p c = true → .cancel c ∉ ls) →
        Trans.exec step (init capacity) (plainRun p 0 ls)
          = (Trans.exec step (init capacity) ls).map (Sys.plain p) := by
  refine ⟨fun fc c v f => ?_, fun capacity p ls hls => exec_plain (init capacity) hls⟩
  have hsend := FiberChannel.AsWritten.trySend_cases fc c v f
  have hrecv := FiberChannel.AsWritten.tryReceive_cases fc c f
  refine ⟨rfl, ?_, ?_, ?_, rfl, ?_, ?_⟩
  · intro hready
    rcases hsend with ⟨heq, -⟩ | ⟨heq, -⟩
    · exact heq
    · exact absurd (by rw [heq]) hready
  · intro hnone herr
    rcases hsend with ⟨heq, -⟩ | ⟨-, hown⟩
    · exact heq
    · cases f with
      | none => exact absurd hown herr
      | some f => exact absurd hown hnone
  · rcases hsend with ⟨heq, hready, hnone, herr⟩ | ⟨heq, hown⟩
    · exact iff_of_false (fun hfull => hready (by rw [hfull])) (by simp [hnone, herr])
    · refine iff_of_true heq ?_
      cases f with
      | none => exact .inr hown
      | some f => exact .inl hown
  · intro hready
    rcases hrecv with ⟨heq, -⟩ | ⟨heq, -⟩
    · exact heq
    · exact absurd (by rw [heq]) hready
  · rcases hrecv with ⟨heq, w, hown⟩ | ⟨heq, hown⟩
    · refine iff_of_false (fun hempty => ?_) (by simp [hown])
      rw [← heq, hempty] at hown
      cases hown
    · exact iff_of_true heq hown

end Channel

end GreenThreads.Sync
