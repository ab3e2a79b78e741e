import GreenThreads.Sync.Channel

/-!
# GreenThreads — channels do not look at their values

`FiberChannel` moves values around and never looks at them: a run over values `f v` is the image
of the run over the values `v`, whatever `f` is. Everything that holds a value gets its `map`,
each critical section commutes with it, and so does the system of calls (`step_map`).
-/

namespace GreenThreads.Sync

variable {V W : Type*} (f : V → W)

def ChannelSender.map (s : ChannelSender V) : ChannelSender W := ⟨s.call, s.fiber, f s.value⟩

def FiberChannel.map (fc : FiberChannel V) : FiberChannel W :=
  ⟨fc.buffer.map f, fc.capacity, fc.closed, fc.senders.map (ChannelSender.map f), fc.receivers⟩

def Phase.map {ρ ρ' : Type*} (g : ρ → ρ') : Phase ρ → Phase ρ'
  | .parked => .parked
  | .woken r => .woken (g r)
  | .returned r => .returned (g r)

def Call.map {κ κ' ρ ρ' : Type*} (k : κ → κ') (g : ρ → ρ') (c : Call κ ρ) : Call κ' ρ' :=
  ⟨k c.op, c.phase.map g⟩

namespace Calls

variable {κ κ' ρ ρ' : Type*} (k : κ → κ') (g : ρ → ρ')

/-- The same calls with other operations and results. -/
def mapBoth (calls : Calls κ ρ) : Calls κ' ρ' := List.map (Call.map k g) calls

theorem phaseOf_mapBoth (calls : Calls κ ρ) (c : Nat) :
    (calls.mapBoth k g).phaseOf c = (calls.phaseOf c).map (Phase.map g) := by
  simp only [phaseOf, mapBoth, List.getElem?_map, Option.map_map]
  rfl

theorem opOf_mapBoth (calls : Calls κ ρ) (c : Nat) :
    (calls.mapBoth k g).opOf c = (calls.opOf c).map k := by
  simp only [opOf, mapBoth, List.getElem?_map, Option.map_map]
  rfl

theorem setPhase_mapBoth (calls : Calls κ ρ) (c : Nat) (p : Phase ρ) :
    (calls.mapBoth k g).setPhase c (p.map g) = (calls.setPhase c p).mapBoth k g := by
  refine List.ext_getElem? fun i => ?_
  simp only [setPhase, mapBoth, List.getElem?_modify, List.getElem?_map]
  by_cases hi : c = i
  · simp only [hi, if_true]
    cases calls[i]? <;> rfl
  · simp [hi]

theorem wakeEach_mapBoth (calls : Calls κ ρ) (ws : List (Nat × ρ)) :
    (calls.mapBoth k g).wakeEach (ws.map fun w => (w.1, g w.2))
      = (calls.wakeEach ws).mapBoth k g := by
  induction ws generalizing calls with
  | nil => rfl
  | cons w ws ih =>
    have hone := setPhase_mapBoth k g calls w.1 (.woken w.2)
    simp only [wakeEach, List.map_cons, List.foldl_cons] at ih ⊢
    rw [← ih, ← hone]
    rfl

end Calls

namespace Channel

def Result.map : Result V → Result W
  | .sent => .sent
  | .received v => .received (f v)
  | .closed => .closed
  | .notReady => .notReady
  | .ctxErr => .ctxErr
  | .err msg => .err msg

def Outcome.map (o : Outcome V) : Outcome W :=
  ⟨o.own.map (Result.map f), o.woken.map fun w => (w.1, w.2.map f)⟩

def Op.map : Op V → Op W
  | .send value fiber => .send (f value) fiber
  | .sendCtx value fiber => .sendCtx (f value) fiber
  | .trySend value => .trySend (f value)
  | .receive fiber => .receive fiber
  | .receiveCtx fiber => .receiveCtx fiber
  | .tryReceive => .tryReceive

def Label.map : Label V → Label W
  | .call op => .call (op.map f)
  | .close => .close
  | .resume c => .resume c
  | .cancel c => .cancel c

def Sys.map (s : Sys V) : Sys W where
  fc := s.fc.map f
  calls := s.calls.mapBoth (Op.map f) (Result.map f)
  arrived := s.arrived
  handed := s.handed.map fun p => (p.1, f p.2)
  closes := s.closes

/-- A section's result with other values. -/
def mapSection (res : FiberChannel V × Outcome V) : FiberChannel W × Outcome W :=
  (res.1.map f, res.2.map f)

@[simp] theorem Op.sends_map (op : Op V) : (op.map f).sends = op.sends := by
  cases op <;> rfl

@[simp] theorem Result.isSent_map (r : Result V) : (r.map f).isSent = r.isSent := by
  cases r <;> rfl

end Channel

/-! ## The critical sections -/

namespace FiberChannel

open Channel

theorem send_map (fc : FiberChannel V) (c : Nat) (value : V) (currentFiber : Option FiberRef) :
    (fc.map f).send c (f value) currentFiber
      = mapSection f (fc.send c value currentFiber) := by
  obtain ⟨buffer, capacity, closed, senders, receivers⟩ := fc
  unfold send
  simp only [FiberChannel.map, List.length_map]
  cases closed with
  | true => rfl
  | false =>
    cases receivers with
    | cons receiver rest => rfl
    | nil =>
      by_cases hroom : buffer.length < capacity
      · simp [hroom, mapSection, FiberChannel.map, Outcome.map, Result.map]
      · cases currentFiber <;>
          simp [hroom, mapSection, FiberChannel.map, Outcome.map, Result.map, ChannelSender.map]

theorem trySend_map (fc : FiberChannel V) (value : V) :
    (fc.map f).trySend (f value) = mapSection f (fc.trySend value) := by
  obtain ⟨buffer, capacity, closed, senders, receivers⟩ := fc
  unfold trySend
  simp only [FiberChannel.map, List.length_map]
  cases closed with
  | true => rfl
  | false =>
    cases receivers with
    | cons receiver rest => rfl
    | nil =>
      by_cases hfull : buffer.length ≥ capacity
      · simp [hfull, mapSection, FiberChannel.map, Outcome.map, Result.map]
      · simp [hfull, mapSection, FiberChannel.map, Outcome.map, Result.map]

theorem admitSenderLocked_map (fc : FiberChannel V) :
    (fc.map f).admitSenderLocked
      = (fc.admitSenderLocked.1.map f, fc.admitSenderLocked.2.map fun w => (w.1, w.2.map f)) := by
  obtain ⟨buffer, capacity, closed, senders, receivers⟩ := fc
  unfold admitSenderLocked
  simp only [FiberChannel.map, List.length_map]
  cases senders with
  | nil => rfl
  | cons sender rest =>
    by_cases hno : closed = true ∨ buffer.length ≥ capacity
    · simp [hno]
    · simp [hno, ChannelSender.map, Result.map]

theorem takeNow_map (fc : FiberChannel V) :
    (fc.map f).takeNow = fc.takeNow.map (mapSection f) := by
  obtain ⟨buffer, capacity, closed, senders, receivers⟩ := fc
  cases buffer with
  | cons value rest =>
    have hadmit := admitSenderLocked_map f ⟨rest, capacity, closed, senders, receivers⟩
    simp only [FiberChannel.map] at hadmit
    simp only [takeNow, FiberChannel.map, List.map_cons, hadmit, Option.map_some, mapSection,
      Outcome.map, Result.map]
  | nil =>
    cases senders with
    | cons sender rest => rfl
    | nil => rfl

theorem receive_map (fc : FiberChannel V) (c : Nat) (currentFiber : Option FiberRef) :
    (fc.map f).receive c currentFiber = mapSection f (fc.receive c currentFiber) := by
  -- what can be had at once is the same for both; otherwise no value is involved
  unfold receive
  rw [takeNow_map]
  cases fc.takeNow with
  | some res => rfl
  | none =>
    obtain ⟨buffer, capacity, closed, senders, receivers⟩ := fc
    cases closed with
    | true => rfl
    | false => cases currentFiber <;> rfl

theorem tryReceive_map (fc : FiberChannel V) :
    (fc.map f).tryReceive = mapSection f fc.tryReceive := by
  unfold tryReceive
  rw [takeNow_map]
  cases fc.takeNow <;> rfl

theorem close_map (fc : FiberChannel V) :
    (fc.map f).close = (fc.close.1.map f, fc.close.2.map fun w => (w.1, w.2.map f)) := by
  obtain ⟨buffer, capacity, closed, senders, receivers⟩ := fc
  cases closed with
  | true => rfl
  | false => simp [close, FiberChannel.map, ChannelSender.map, Result.map, Function.comp_def]

theorem removeSenderLocked_map (fc : FiberChannel V) (c : Nat) :
    (fc.map f).removeSenderLocked c = (fc.removeSenderLocked c).map f := by
  simp only [removeSenderLocked, FiberChannel.map, removeWaiter, List.eraseP_map]
  rfl

end FiberChannel

/-! ## The system of calls -/

namespace Channel

theorem deliveries_map (rs : List (Nat × Result V)) :
    deliveries (rs.map fun w => (w.1, w.2.map f)) = (deliveries rs).map fun p => (p.1, f p.2) := by
  simp only [deliveries, List.filterMap_map, List.map_filterMap]
  refine List.filterMap_congr fun w _ => ?_
  obtain ⟨c, r⟩ := w
  cases r <;> rfl

theorem Sys.record_map (s : Sys V) (op : Op V) (res : FiberChannel V × Outcome V) :
    (s.map f).record (op.map f) (mapSection f res) = (s.record op res).map f := by
  obtain ⟨fc, own, woken⟩ := res
  have hlen : (s.map f).calls.length = s.calls.length := List.length_map _
  have hphase : (own.map (Result.map f)).elim Phase.parked Phase.returned
      = (own.elim Phase.parked Phase.returned).map (Result.map f) := by cases own <;> rfl
  have hsent : (own.map (Result.map f)).all Result.isSent = own.all Result.isSent := by
    cases own with
    | none => rfl
    | some r => exact Result.isSent_map f r
  have hcalls : (s.map f).calls ++ [⟨op.map f, (own.map (Result.map f)).elim .parked .returned⟩]
      = Calls.mapBoth (Op.map f) (Result.map f)
          (s.calls ++ [⟨op, own.elim .parked .returned⟩]) := by
    rw [hphase]
    unfold Calls.mapBoth
    rw [List.map_append]
    rfl
  have hdelivered := deliveries_map f (own.toList.map (s.calls.length, ·) ++ woken)
  rw [List.map_append] at hdelivered
  unfold Sys.record
  simp only [mapSection, Outcome.map, hlen, Op.sends_map, hsent, hcalls, Calls.wakeEach_mapBoth]
  simp only [Sys.map, List.map_append, ← hdelivered, List.map_map]
  congr 3
  cases own <;> rfl

theorem Sys.enter_map (s : Sys V) (op : Op V) :
    (s.map f).enter (op.map f) = (s.enter op).map f := by
  have hlen : (s.map f).calls.length = s.calls.length := List.length_map _
  have hfc : (s.map f).fc = s.fc.map f := rfl
  unfold Sys.enter
  rw [← Sys.record_map]
  congr 1
  cases op with
  | send | sendCtx => simp only [Op.map, hlen, hfc, FiberChannel.send_map]
  | trySend => simp only [Op.map, hfc, FiberChannel.trySend_map]
  | receive | receiveCtx => simp only [Op.map, hlen, hfc, FiberChannel.receive_map]
  | tryReceive => simp only [Op.map, hfc, FiberChannel.tryReceive_map]

theorem Sys.close_map (s : Sys V) : (s.map f).close = s.close.map f := by
  unfold Sys.close
  simp only [Sys.map, FiberChannel.close_map, Calls.wakeEach_mapBoth, List.map_map]
  rfl

theorem Sys.resume_map (s : Sys V) (c : Nat) :
    (s.map f).resume c = (s.resume c).map (Sys.map f) := by
  unfold Sys.resume
  simp only [Sys.map, Calls.phaseOf_mapBoth]
  cases s.calls.phaseOf c with
  | none => rfl
  | some p =>
    cases p with
    | parked => rfl
    | returned r => rfl
    | woken r =>
      have hset := Calls.setPhase_mapBoth (Op.map f) (Result.map f) s.calls c (.returned r)
      simp only [Phase.map] at hset
      simp only [Option.map_some, Phase.map, hset]
      rfl

theorem Sys.cancel_map (s : Sys V) (c : Nat) :
    (s.map f).cancel c = (s.cancel c).map (Sys.map f) := by
  have hset (r : Result V) :=
    Calls.setPhase_mapBoth (Op.map f) (Result.map f) s.calls c (.returned r)
  simp only [Phase.map] at hset
  unfold Sys.cancel
  simp only [Sys.map, Calls.phaseOf_mapBoth, Calls.opOf_mapBoth]
  cases s.calls.opOf c with
  | none => rfl
  | some op =>
    cases s.calls.phaseOf c with
    | none => cases op <;> rfl
    | some p =>
      cases p with
      | parked =>
        -- only the calls with a context can be cancelled
        cases op with
        | sendCtx =>
          simp only [Option.map_some, Op.map, Phase.map, FiberChannel.removeSenderLocked_map]
          rw [show (Result.ctxErr : Result W) = Result.map f .ctxErr from rfl, hset]
          rfl
        | receiveCtx =>
          simp only [Option.map_some, Op.map, Phase.map]
          rw [show (Result.ctxErr : Result W) = Result.map f .ctxErr from rfl, hset]
          rfl
        | send | trySend | receive | tryReceive => rfl
      | woken r =>
        cases op with
        | sendCtx | receiveCtx =>
          simp only [Option.map_some, Op.map, Phase.map, hset]
          rfl
        | send | trySend | receive | tryReceive => rfl
      | returned r => cases op <;> rfl

/-- One step over other values. -/
theorem step_map (s : Sys V) (l : Label V) :
    step (s.map f) (l.map f) = (step s l).map (Sys.map f) := by
  cases l with
  | call op => exact congrArg some (s.enter_map f op)
  | close => exact congrArg some (s.close_map f)
  | resume c => exact s.resume_map f c
  | cancel c => exact s.cancel_map f c

/-- A run over other values. -/
theorem exec_map (capacity : Int) (ls : List (Label V)) :
    Trans.exec step (init capacity) (ls.map (Label.map f))
      = (Trans.exec step (init capacity) ls).map (Sys.map f) :=
  Trans.exec_map (step_map f) (init capacity) ls

end Channel

end GreenThreads.Sync
