import GreenThreads.Sync.ChannelRun

/-!
# GreenThreads — what `FiberChannel` guarantees

The two properties of every run: values move in order, exactly once and as reported, and
nobody is parked who could go on. Both are read off the invariant of `ChannelRun`.
-/

namespace GreenThreads.Sync.Channel

open FiberChannel

variable {V : Type*}

/-! ## Settled calls -/

/-- No step changes the result of a settled call. -/
theorem Effect.later {s s' : Sys V} {l : Label V} {sl rl : Ledger Nat} (hi : Inv s sl rl)
    (h : Effect s l s') : s.calls.Later s'.calls := by
  have hh := hi.history
  -- a section that wakes one waiter appends its own call first
  have hwake : ∀ (k : Call (Op V) (Result V)) (c : Nat) (r : Result V),
      s.calls.phaseOf c = some .parked → s.calls.Later (Calls.wakeAll (s.calls ++ [k]) [c] r) := by
    intro k c r hc
    have hne : c ≠ s.calls.length := Nat.ne_of_lt (Calls.lt_length_of_phaseOf hc)
    refine (Calls.later_append _ k).trans (Calls.later_wakeAll [c] r ?_)
    simpa [Calls.phaseOf_append, hne] using hc
  have hrecv : ∀ w rest, s.fc.receivers = w :: rest → s.calls.phaseOf w.call = some .parked :=
    fun w rest hq => hh.recvs.phaseOf_waiting (by rw [← hh.recv_queue, hq]; simp)
  have hsend : ∀ w ws, s.fc.senders = w :: ws → s.calls.phaseOf w.call = some .parked :=
    fun w ws hq => hh.sends.phaseOf_waiting (by rw [← hh.send_queue, hq]; simp)
  cases h with
  | send op v res hop hc =>
    cases hc with
    | refuse r => exact Calls.later_append _ _
    | hand w rest hopen hq => exact hwake _ _ _ (hrecv w rest hq)
    | buffer => exact Calls.later_append _ _
    | park f => exact Calls.later_append _ _
  | receive op res hop hc =>
    cases hc with
    | refuse r => exact Calls.later_append _ _
    | buffer v rest => exact Calls.later_append _ _
    | refill v rest w ws hb hq => exact hwake _ _ _ (hsend w ws hq)
    | hand w ws hb hq => exact hwake _ _ _ (hsend w ws hq)
    | park f => exact Calls.later_append _ _
  | close hopen =>
    have hparked : ∀ c ∈ s.fc.receivers.map Waiter.call, s.calls.phaseOf c = some .parked :=
      fun c hc => hh.recvs.phaseOf_waiting (hh.recv_queue ▸ hc)
    refine (Calls.later_wakeAll _ _ hparked).trans (Calls.later_wakeAll _ _ fun c hc => ?_)
    have hmem : c ∈ sl.waiting := hh.send_queue ▸ hc
    have hother : c ∉ s.fc.receivers.map Waiter.call := by
      rw [hh.recv_queue]
      exact fun hr => not_receives_of_sends ((hh.sends.parked_iff c).mp hmem).1
        ((hh.recvs.parked_iff c).mp hr).1
    rw [Calls.phaseOf_wakeAll, if_neg hother]
    exact hh.sends.phaseOf_waiting hmem
  | closeAgain => exact Calls.Later.refl _
  | resume l c r hc => exact Calls.later_resume hc
  | withdrawSender c hop hc => exact Calls.later_setPhase _ hc
  | withdrawReceiver c hop hc => exact Calls.later_setPhase _ hc

/-- Nor does a run. -/
theorem Reachable.later {capacity : Int} {s s' : Sys V} (h : Reachable capacity s)
    (hrun : Trans.Reach step Trans.anyStep s s') : s.calls.Later s'.calls := by
  refine h.rel (R := fun s s' => s.calls.Later s'.calls) (fun s => .refl s.calls) .trans
    (fun ht hs => ?_) hrun
  obtain ⟨_, _, hi⟩ := Reachable.inv ht
  exact (step_effect hs).later hi

/-! ## Order and exactly-once transfer -/

/-- The sends that succeeded, in arrival order. -/
def Sys.sentCalls (s : Sys V) : List Nat :=
  (List.range s.calls.length).filter (s.calls.settled Op.sends Result.isSent)

/-- The sends that were accepted or parked and neither returned `ctx.Err()` nor were woken by
`Close`, in arrival order. -/
def Sys.keptSends (s : Sys V) : List Nat :=
  s.arrived.filter fun c => !(s.calls.resultOf c).any Result.isGone

/-- The receives that have a value or are parked, in the order of their first sections. -/
def Sys.liveReceives (s : Sys V) : List Nat :=
  (List.range s.calls.length).filter (s.calls.live Op.receives Result.isReceived)

/-- Reading off values loses nothing where every call sends one. -/
theorem map_valueOf {calls : Calls (Op V) (Result V)} {cs : List Nat}
    (h : ∀ c ∈ cs, calls.Is Op.sends c) :
    cs.map (valueOf calls) = (cs.filterMap (valueOf calls)).map some := by
  induction cs with
  | nil => rfl
  | cons c cs ih =>
    have hc : (valueOf calls c).isSome := by
      have hsend := h c (by simp)
      unfold Calls.Is at hsend
      unfold valueOf
      cases hop : calls.opOf c with
      | none => simp [hop] at hsend
      | some op => simpa [hop, Op.sends] using hsend
    obtain ⟨v, hv⟩ := Option.isSome_iff_exists.mp hc
    rw [List.map_cons, ih fun d hd => h d (by simp [hd]), List.filterMap_cons, hv]
    rfl

/-- Values move in order, exactly once, and calls report what happened to theirs. -/
structure Fifo (s : Sys V) : Prop where
  arrival_order : s.arrived.Pairwise (· < ·)
  /-- Handed out, buffered and parked values are those of the sends kept, in arrival order. -/
  order : s.keptSends.map (valueOf s.calls)
    = (s.handed.map Prod.snd ++ s.fc.buffer ++ s.fc.senders.map ChannelSender.value).map some
  /-- Handed out and buffered values are those of the sends that succeeded, one each. -/
  moved : s.sentCalls.map (valueOf s.calls)
    = (s.handed.map Prod.snd ++ s.fc.buffer).map some
  /-- Receives get values in the order they came. -/
  receivers : s.handed.map Prod.fst ++ s.fc.receivers.map Waiter.call = s.liveReceives
  received_iff : ∀ c v, s.calls.Is Op.receives c →
    (s.calls.resultOf c = some (.received v) ↔ (c, v) ∈ s.handed)
  sent_iff : ∀ c, s.calls.Is Op.sends c →
    (s.calls.resultOf c = some .sent ↔ c ∈ s.sentCalls)
  closes_nodup : s.closes.Nodup

theorem Result.isSent_iff {r : Result V} : r.isSent = true ↔ r = .sent := by
  cases r <;> simp [Result.isSent]

theorem History.keptSends_eq {s : Sys V} {sl rl : Ledger Nat} (hh : History s sl rl) :
    s.keptSends = sl.served ++ sl.waiting := by
  rw [sl.split, Sys.keptSends, hh.arrived]
  apply List.filter_congr
  intro c hc
  have hd := hh.sends.dropped_iff c
  rw [Bool.eq_iff_iff]
  simp only [Bool.not_eq_true', decide_eq_true_eq, hd, hc, true_and]
  cases s.calls.resultOf c <;> simp

theorem History.fifo {s : Sys V} {sl rl : Ledger Nat} (hh : History s sl rl) : Fifo s where
  arrival_order := hh.arrived ▸ hh.sends.sorted
  order := by
    have hsend : ∀ c ∈ s.keptSends, s.calls.Is Op.sends c := by
      intro c hc
      rw [hh.keptSends_eq] at hc
      exact hh.sends.arrived c (sl.mem_split.mp (List.mem_append.mp hc)).1
    have hparked : sl.waiting.filterMap (valueOf s.calls)
        = s.fc.senders.map ChannelSender.value := by
      rw [← hh.send_queue, List.filterMap_map, ← List.filterMap_eq_map]
      exact List.filterMap_congr fun w hw => hh.parked_values w hw
    rw [map_valueOf hsend, hh.keptSends_eq, List.filterMap_append, ← hh.moved, hparked]
  moved := by
    have hserved : s.sentCalls = sl.served := hh.sends.served_eq.symm
    rw [hserved, map_valueOf fun c hc => hh.sends.arrived c (sl.mem_arrivals_of_served hc),
      hh.moved]
  receivers := by
    rw [hh.taken, hh.recv_queue, hh.recvs.fifo]
    rfl
  received_iff c v hrecv := by
    constructor
    · intro hr
      have hmem : c ∈ rl.served := (hh.recvs.granted_iff c).mpr ⟨hrecv, _, hr, rfl⟩
      rw [← hh.taken] at hmem
      obtain ⟨p, hp, rfl⟩ := List.mem_map.mp hmem
      have hval := hh.honest p hp
      rw [hr] at hval
      cases hval
      exact hp
    · exact fun hp => hh.honest _ hp
  sent_iff c hsend := by
    unfold Sys.sentCalls
    rw [← hh.sends.served_eq, hh.sends.granted_iff]
    simp [hsend, Result.isSent_iff]
  closes_nodup := hh.closes_nodup

/-- `FiberChannel` is a FIFO with exactly-once, honestly reported transfer: in every state of
every run, for every capacity; and a call that returned an error stays without effect. -/
theorem fiberChannel_fifo {capacity : Int} {s : Sys V} (h : Reachable capacity s) :
    Fifo s ∧
    (∀ c r s', s.calls.phaseOf c = some (.returned r) → r ≠ .sent →
      Trans.Reach step Trans.anyStep s s' → c ∉ s'.sentCalls) ∧
    ∀ c s', s.calls.phaseOf c = some (.returned .ctxErr) →
      Trans.Reach step Trans.anyStep s s' → c ∉ s'.handed.map Prod.fst := by
  obtain ⟨_, _, hi⟩ := h.inv
  refine ⟨hi.history.fifo, ?_, ?_⟩
  · intro c r s' hc hr hrun hmem
    have hlater := h.later hrun c r (Calls.resultOf_of_returned hc)
    have hsettled := (List.mem_filter.mp hmem).2
    obtain ⟨-, r', hr', hsent⟩ := (Calls.settled_iff _ _ _ _).mp hsettled
    rw [hlater] at hr'
    cases hr'
    exact hr (Result.isSent_iff.mp hsent)
  · intro c s' hc hrun hmem
    obtain ⟨_, _, hi'⟩ := Reachable.inv (h.trans hrun)
    have hlater := h.later hrun c _ (Calls.resultOf_of_returned hc)
    obtain ⟨p, hp, rfl⟩ := List.mem_map.mp hmem
    rw [hi'.history.honest p hp] at hlater
    cases hlater

/-- On a channel of capacity 1: 10 is buffered, the cancelled 20 leaves the queue, and 30 is
admitted when the receive takes 10. -/
theorem fiberChannel_fifo_cancelled :
    ∃ s : Sys Nat, Reachable 1 s ∧ s.handed = [(3, 10)] ∧ s.fc.buffer = [30] ∧ Fifo s := by
  obtain ⟨s, hs, hp⟩ := Trans.exists_reach_of_exec step (init 1 : Sys Nat)
    [.call (.trySend 10), .call (.sendCtx 20 (some ⟨1, by decide⟩)),
      .call (.send 30 (some ⟨2, by decide⟩)), .cancel 1, .call (.receive none), .resume 2]
    (fun s => s.handed == [(3, 10)] && s.fc.buffer == [30]) (by decide)
  simp only [Bool.and_eq_true, beq_iff_eq] at hp
  exact ⟨s, hs, hp.1, hp.2, (fiberChannel_fifo hs).1⟩

/-! ## Nobody is stranded -/

/-- What a receive reports on a closed, drained channel. -/
def Op.closedReport : Op V → Result V
  | .tryReceive => .notReady
  | _ => .closed

/-- How a closed channel goes on: it stays closed with nobody parked, accepts nothing, and
hands out what it had buffered, in order. -/
structure Drains (s s' : Sys V) : Prop where
  closed : s'.fc.closed = true
  senders : s'.fc.senders = []
  receivers : s'.fc.receivers = []
  arrived : s'.arrived = s.arrived
  values : ∃ new, s'.handed = s.handed ++ new ∧ new.map Prod.snd ++ s'.fc.buffer = s.fc.buffer

theorem Drains.trans {s₁ s₂ s₃ : Sys V} (h : Drains s₁ s₂) (h' : Drains s₂ s₃) :
    Drains s₁ s₃ where
  closed := h'.closed
  senders := h'.senders
  receivers := h'.receivers
  arrived := h'.arrived.trans h.arrived
  values := by
    obtain ⟨new, hh, hv⟩ := h.values
    obtain ⟨new', hh', hv'⟩ := h'.values
    exact ⟨new ++ new', by rw [hh', hh, List.append_assoc],
      by rw [List.map_append, List.append_assoc, hv', hv]⟩

/-- A step that leaves channel, arrivals and hand-outs alone. -/
theorem Drains.of_eq {s s' : Sys V} (hs : Shape s.fc) (hcl : s.fc.closed = true)
    (hfc : s'.fc = s.fc) (harr : s'.arrived = s.arrived) (hhand : s'.handed = s.handed) :
    Drains s s' where
  closed := hfc ▸ hcl
  senders := hfc ▸ (hs.closed_empty hcl).1
  receivers := hfc ▸ (hs.closed_empty hcl).2
  arrived := harr
  values := ⟨[], by rw [hhand, List.append_nil], by rw [hfc]; rfl⟩

theorem Effect.drains {s s' : Sys V} {l : Label V} {sl rl : Ledger Nat} (hi : Inv s sl rl)
    (hcl : s.fc.closed = true) (h : Effect s l s') : Drains s s' := by
  obtain ⟨hsend, hrecv⟩ := hi.shape.closed_empty hcl
  have hnotopen : s.fc.closed ≠ false := by simp [hcl]
  cases h with
  | send op v res hop hc =>
    cases hc with
    | refuse r hr hv =>
      rw [record_refuse s op _ hr hv]
      exact .of_eq hi.shape hcl rfl rfl rfl
    | hand w rest hopen => exact absurd hopen hnotopen
    | buffer hopen => exact absurd hopen hnotopen
    | park f hopen => exact absurd hopen hnotopen
  | receive op res hop hc =>
    cases hc with
    | refuse r hr hv =>
      rw [record_refuse s op _ hr hv]
      exact .of_eq hi.shape hcl rfl rfl rfl
    | buffer v rest hb =>
      rw [record_take s op _ (Op.not_sends_of_value hop)]
      exact ⟨hcl, hsend, hrecv, rfl, [(s.calls.length, v)], rfl, by simp [hb]⟩
    | refill v rest w ws hb hq => simp [hsend] at hq
    | hand w ws hb hq => simp [hsend] at hq
    | park f hopen => exact absurd hopen hnotopen
  | close hopen => exact absurd hopen hnotopen
  | closeAgain => exact .of_eq hi.shape hcl rfl rfl rfl
  | resume l c r hc => exact .of_eq hi.shape hcl rfl rfl rfl
  | withdrawSender c hop hc =>
    have hmem := (hi.history.sends.parked_iff c).mpr ⟨hop, hc⟩
    simp [← hi.history.send_queue, hsend] at hmem
  | withdrawReceiver c hop hc =>
    have hmem := (hi.history.recvs.parked_iff c).mpr ⟨hop, hc⟩
    simp [← hi.history.recv_queue, hrecv] at hmem

theorem Reachable.drains {capacity : Int} {s s' : Sys V} (h : Reachable capacity s)
    (hcl : s.fc.closed = true) (hrun : Trans.Reach step Trans.anyStep s s') : Drains s s' := by
  induction hrun with
  | refl =>
    obtain ⟨_, _, hi⟩ := h.inv
    exact .of_eq hi.shape hcl rfl rfl rfl
  | tail hrun _ hs ih =>
    obtain ⟨_, _, hi⟩ := Reachable.inv (h.trans hrun)
    exact ih.trans ((step_effect hs).drains hi ih.closed)

/-- On a closed channel a send of any kind is turned away. -/
theorem send_on_closed (s : Sys V) {op : Op V} (hop : op.sends = true)
    (hcl : s.fc.closed = true) :
    (s.enter op).fc = s.fc ∧
      (s.enter op).calls.phaseOf s.calls.length = some (.returned .closed) := by
  have hphase : ∀ res, res = (s.fc, ⟨some .closed, []⟩) → (s.record op res).fc = s.fc ∧
      (s.record op res).calls.phaseOf s.calls.length = some (.returned .closed) := by
    rintro _ rfl
    rw [record_refuse s op s.fc rfl rfl]
    simp [Calls.phaseOf_append]
  cases op with
  | send v f => exact hphase _ (if_pos hcl)
  | sendCtx v f => exact hphase _ (if_pos hcl)
  | trySend v => exact hphase _ (if_pos hcl)
  | receive f => cases hop
  | receiveCtx f => cases hop
  | tryReceive => cases hop

/-- On a closed channel a receive of any kind takes the next buffered value. -/
theorem receive_on_closed (s : Sys V) (hs : Shape s.fc) {op : Op V} (hop : op.sends = false)
    (hcl : s.fc.closed = true) {v : V} {rest : List V} (hb : s.fc.buffer = v :: rest) :
    (s.enter op).fc = { s.fc with buffer := rest } ∧
      (s.enter op).calls.phaseOf s.calls.length = some (.returned (.received v)) := by
  have hnow : s.fc.takeNow
      = some ({ s.fc with buffer := rest }, ⟨some (.received v), []⟩) := by
    simp [takeNow, hb, admitSenderLocked, (hs.closed_empty hcl).1]
  have hphase : ∀ res, res = ({ s.fc with buffer := rest }, ⟨some (.received v), []⟩) →
      (s.record op res).fc = { s.fc with buffer := rest } ∧
      (s.record op res).calls.phaseOf s.calls.length = some (.returned (.received v)) := by
    rintro _ rfl
    rw [record_take s op _ hop]
    simp [Calls.phaseOf_append]
  cases op with
  | send v f => cases hop
  | sendCtx v f => cases hop
  | trySend v => cases hop
  | receive f => exact hphase _ (by simp [receive, hnow])
  | receiveCtx f => exact hphase _ (by simp [receive, hnow])
  | tryReceive => exact hphase _ (by simp [tryReceive, hnow])

/-- On a closed, drained channel a receive of any kind reports just that. -/
theorem receive_on_drained (s : Sys V) (hs : Shape s.fc) {op : Op V} (hop : op.sends = false)
    (hcl : s.fc.closed = true) (hb : s.fc.buffer = []) :
    (s.enter op).fc = s.fc ∧
      (s.enter op).calls.phaseOf s.calls.length = some (.returned op.closedReport) := by
  have hnow : s.fc.takeNow = none := by simp [takeNow, hb, (hs.closed_empty hcl).1]
  have hphase : ∀ res (r : Result V), r.isSent = false → r.value? = none →
      res = (s.fc, ⟨some r, []⟩) → (s.record op res).fc = s.fc ∧
      (s.record op res).calls.phaseOf s.calls.length = some (.returned r) := by
    rintro _ r hr hv rfl
    rw [record_refuse s op s.fc hr hv]
    simp [Calls.phaseOf_append]
  cases op with
  | send v f => cases hop
  | sendCtx v f => cases hop
  | trySend v => cases hop
  | receive f => exact hphase _ _ rfl rfl (by simp [receive, hnow, hcl, Op.closedReport])
  | receiveCtx f => exact hphase _ _ rfl rfl (by simp [receive, hnow, hcl, Op.closedReport])
  | tryReceive => exact hphase _ _ rfl rfl (by simp [tryReceive, hnow, Op.closedReport])

/-- `FiberChannel` never strands a waiter: in every state of every run the buffer is within
its capacity, nobody is parked who could go on, and a closed channel drains. -/
theorem fiberChannel_no_stranded {capacity : Int} {s : Sys V} (h : Reachable capacity s) :
    Shape s.fc ∧
    (s.fc.closed = true →
      (∀ s', Trans.Reach step Trans.anyStep s s' → Drains s s') ∧
      (∀ op, op.sends = true → (s.enter op).fc = s.fc ∧
        (s.enter op).calls.phaseOf s.calls.length = some (.returned .closed)) ∧
      (∀ op v rest, op.sends = false → s.fc.buffer = v :: rest →
        (s.enter op).fc = { s.fc with buffer := rest } ∧
        (s.enter op).calls.phaseOf s.calls.length = some (.returned (.received v))) ∧
      ∀ op, op.sends = false → s.fc.buffer = [] → (s.enter op).fc = s.fc ∧
        (s.enter op).calls.phaseOf s.calls.length = some (.returned op.closedReport)) := by
  obtain ⟨_, _, hi⟩ := h.inv
  refine ⟨hi.shape, fun hcl => ⟨fun s' hrun => h.drains hcl hrun, ?_, ?_, ?_⟩⟩
  · exact fun op hop => send_on_closed s hop hcl
  · exact fun op v rest hop hb => receive_on_closed s hi.shape hop hcl hb
  · exact fun op hop hb => receive_on_drained s hi.shape hop hcl hb

/-- A rendezvous channel with a parked sender, and one closed over a parked receiver. -/
theorem fiberChannel_no_stranded_rendezvous :
    (∃ s : Sys Nat, Reachable 0 s ∧ s.fc.senders.map ChannelSender.call = [0] ∧ Shape s.fc) ∧
    ∃ s : Sys Nat, Reachable (-1) s ∧ s.fc.closed = true ∧ s.closes = [0] ∧ Shape s.fc := by
  constructor
  · obtain ⟨s, hs, hp⟩ := Trans.exists_reach_of_exec step (init 0 : Sys Nat)
      [.call (.send 10 (some ⟨1, by decide⟩)), .call (.trySend 20)]
      (fun s => s.fc.senders.map ChannelSender.call == [0]) (by decide)
    simp only [beq_iff_eq] at hp
    exact ⟨s, hs, hp, (fiberChannel_no_stranded hs).1⟩
  · obtain ⟨s, hs, hp⟩ := Trans.exists_reach_of_exec step (init (-1) : Sys Nat)
      [.call (.receive (some ⟨1, by decide⟩)), .close, .close, .resume 0]
      (fun s => s.fc.closed && s.closes == [0]) (by decide)
    simp only [Bool.and_eq_true, beq_iff_eq] at hp
    exact ⟨s, hs, hp.1, hp.2, (fiberChannel_no_stranded hs).1⟩

end GreenThreads.Sync.Channel
