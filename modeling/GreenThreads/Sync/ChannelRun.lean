import GreenThreads.Sync.Channel
import GreenThreads.Sync.Tracking

/-!
# GreenThreads — runs of `FiberChannel`

What each section can do is said once, first for the channel (`SendCase`, `RecvCase`) and then
for the system (`Effect`). The invariant ties the channel to two queue histories: sends arrive
when they are accepted or park and are served when their value moves into the buffer or to a
receive; receives arrive when they get a value or park and are served when they get it.
-/

namespace GreenThreads.Sync.Channel

open FiberChannel

variable {V : Type*}

/-! ## What a section can do -/

/-- The outcomes of the first section of a send of `v` by the call `c`. -/
inductive SendCase (fc : FiberChannel V) (c : Nat) (v : V) :
    FiberChannel V × Outcome V → Prop where
  /-- The channel is closed, or full and the caller cannot wait. -/
  | refuse (r : Result V) (hr : r.isSent = false) (hv : r.value? = none) :
      SendCase fc c v (fc, ⟨some r, []⟩)
  /-- The oldest parked receiver gets the value. -/
  | hand (w : Waiter) (rest : List Waiter) (hopen : fc.closed = false)
      (hq : fc.receivers = w :: rest) :
      SendCase fc c v ({ fc with receivers := rest }, ⟨some .sent, [(w.call, .received v)]⟩)
  /-- The value is buffered. -/
  | buffer (hopen : fc.closed = false) (hq : fc.receivers = [])
      (hlt : fc.buffer.length < fc.capacity) :
      SendCase fc c v ({ fc with buffer := fc.buffer ++ [v] }, ⟨some .sent, []⟩)
  /-- The call parks. -/
  | park (f : FiberRef) (hopen : fc.closed = false) (hq : fc.receivers = [])
      (hfull : fc.capacity ≤ fc.buffer.length) :
      SendCase fc c v ({ fc with senders := fc.senders ++ [⟨c, f, v⟩] }, ⟨none, []⟩)

theorem send_cases (fc : FiberChannel V) (c : Nat) (v : V) (f : Option FiberRef) :
    SendCase fc c v (fc.send c v f) := by
  obtain ⟨buffer, capacity, closed, senders, receivers⟩ := fc
  cases closed with
  | true => exact .refuse _ rfl rfl
  | false =>
    cases receivers with
    | cons w rest => exact .hand w rest rfl rfl
    | nil =>
      by_cases hlt : buffer.length < capacity
      · simp only [FiberChannel.send, hlt]
        exact .buffer rfl rfl hlt
      · simp only [FiberChannel.send, hlt]
        cases f with
        | none => exact .refuse _ rfl rfl
        | some f => exact .park f rfl rfl (Nat.not_lt.mp hlt)

theorem trySend_cases (fc : FiberChannel V) (c : Nat) (v : V) :
    SendCase fc c v (fc.trySend v) := by
  obtain ⟨buffer, capacity, closed, senders, receivers⟩ := fc
  cases closed with
  | true => exact .refuse _ rfl rfl
  | false =>
    cases receivers with
    | cons w rest => exact .hand w rest rfl rfl
    | nil =>
      by_cases hge : buffer.length ≥ capacity
      · simp only [trySend, hge]
        exact .refuse _ rfl rfl
      · simp only [trySend, hge]
        exact .buffer rfl rfl (Nat.not_le.mp hge)

/-- The outcomes of the first section of a receive by the call `c`. -/
inductive RecvCase (fc : FiberChannel V) (c : Nat) : FiberChannel V × Outcome V → Prop where
  /-- There is no value, and the channel is closed or the caller cannot wait. -/
  | refuse (r : Result V) (hr : r.isSent = false) (hv : r.value? = none)
      (hb : fc.buffer = []) (hs : fc.senders = []) : RecvCase fc c (fc, ⟨some r, []⟩)
  /-- The oldest buffered value is taken and no parked sender refills its slot. -/
  | buffer (v : V) (rest : List V) (hb : fc.buffer = v :: rest)
      (hkeep : fc.senders = [] ∨ fc.closed = true ∨ fc.capacity ≤ rest.length) :
      RecvCase fc c ({ fc with buffer := rest }, ⟨some (.received v), []⟩)
  /-- The oldest buffered value is taken and the oldest parked sender refills the slot. -/
  | refill (v : V) (rest : List V) (w : ChannelSender V) (ws : List (ChannelSender V))
      (hb : fc.buffer = v :: rest) (hs : fc.senders = w :: ws)
      (hlt : rest.length < fc.capacity) :
      RecvCase fc c ({ fc with senders := ws, buffer := rest ++ [w.value] },
        ⟨some (.received v), [(w.call, .sent)]⟩)
  /-- The oldest parked sender hands its value over. -/
  | hand (w : ChannelSender V) (ws : List (ChannelSender V)) (hb : fc.buffer = [])
      (hs : fc.senders = w :: ws) :
      RecvCase fc c ({ fc with senders := ws }, ⟨some (.received w.value), [(w.call, .sent)]⟩)
  /-- The call parks. -/
  | park (f : FiberRef) (hopen : fc.closed = false) (hb : fc.buffer = []) (hs : fc.senders = []) :
      RecvCase fc c ({ fc with receivers := fc.receivers ++ [⟨c, f⟩] }, ⟨none, []⟩)

theorem takeNow_none {fc : FiberChannel V} (h : fc.takeNow = none) :
    fc.buffer = [] ∧ fc.senders = [] := by
  obtain ⟨buffer, capacity, closed, senders, receivers⟩ := fc
  cases buffer with
  | cons v rest => cases h
  | nil =>
    cases senders with
    | cons w ws => cases h
    | nil => exact ⟨rfl, rfl⟩

theorem takeNow_cases {fc : FiberChannel V} (c : Nat) {res : FiberChannel V × Outcome V}
    (h : fc.takeNow = some res) : RecvCase fc c res := by
  obtain ⟨buffer, capacity, closed, senders, receivers⟩ := fc
  cases buffer with
  | cons v rest =>
    cases senders with
    | nil =>
      cases h
      exact .buffer v rest rfl (.inl rfl)
    | cons w ws =>
      by_cases hkeep : closed = true ∨ rest.length ≥ capacity
      · simp only [takeNow, admitSenderLocked, hkeep, if_true, Option.some.injEq] at h
        subst h
        exact .buffer v rest rfl (.inr hkeep)
      · simp only [takeNow, admitSenderLocked, hkeep, if_false, Option.some.injEq] at h
        subst h
        push Not at hkeep
        exact .refill v rest w ws rfl rfl hkeep.2
  | nil =>
    cases senders with
    | nil => cases h
    | cons w ws =>
      cases h
      exact .hand w ws rfl rfl

theorem receive_cases (fc : FiberChannel V) (c : Nat) (f : Option FiberRef) :
    RecvCase fc c (fc.receive c f) := by
  unfold receive
  cases hnow : fc.takeNow with
  | some res => exact takeNow_cases c hnow
  | none =>
    obtain ⟨hb, hs⟩ := takeNow_none hnow
    change RecvCase fc c (if fc.closed then _ else _)
    by_cases hcl : fc.closed = true
    · rw [if_pos hcl]
      exact .refuse _ rfl rfl hb hs
    · rw [if_neg hcl]
      cases f with
      | none => exact .refuse _ rfl rfl hb hs
      | some f => exact .park f (by simpa using hcl) hb hs

theorem tryReceive_cases (fc : FiberChannel V) (c : Nat) : RecvCase fc c fc.tryReceive := by
  unfold tryReceive
  cases hnow : fc.takeNow with
  | some res => exact takeNow_cases c hnow
  | none =>
    obtain ⟨hb, hs⟩ := takeNow_none hnow
    exact .refuse _ rfl rfl hb hs

/-! ## What a step can do -/

/-- The things a step can do. -/
inductive Effect (s : Sys V) : Label V → Sys V → Prop where
  | send (op : Op V) (v : V) (res : FiberChannel V × Outcome V) (hop : op.value? = some v)
      (hc : SendCase s.fc s.calls.length v res) : Effect s (.call op) (s.record op res)
  | receive (op : Op V) (res : FiberChannel V × Outcome V) (hop : op.value? = none)
      (hc : RecvCase s.fc s.calls.length res) : Effect s (.call op) (s.record op res)
  /-- The first `Close` wakes everybody. -/
  | close (hopen : s.fc.closed = false) :
      Effect s .close { s with
        fc := { s.fc with closed := true, receivers := [], senders := [] }
        calls := (s.calls.wakeAll (s.fc.receivers.map Waiter.call) .closed).wakeAll
          (s.fc.senders.map ChannelSender.call) .closed
        closes := s.closes ++
          (s.fc.receivers.map Waiter.call ++ s.fc.senders.map ChannelSender.call) }
  /-- A later `Close`. -/
  | closeAgain (hclosed : s.fc.closed = true) : Effect s .close s
  /-- A woken call returns what its waiter record says. -/
  | resume (l : Label V) (c : Nat) (r : Result V) (hc : s.calls.phaseOf c = some (.woken r)) :
      Effect s l { s with calls := s.calls.setPhase c (.returned r) }
  /-- A parked `SendCtx` leaves the queue because its context is done. -/
  | withdrawSender (c : Nat) (hop : s.calls.Is Op.sends c)
      (hc : s.calls.phaseOf c = some .parked) :
      Effect s (.cancel c) { s with fc := s.fc.removeSenderLocked c,
                                    calls := s.calls.setPhase c (.returned .ctxErr) }
  /-- A parked `ReceiveCtx` leaves the queue because its context is done. -/
  | withdrawReceiver (c : Nat) (hop : s.calls.Is Op.receives c)
      (hc : s.calls.phaseOf c = some .parked) :
      Effect s (.cancel c) { s with fc := s.fc.removeReceiverLocked c,
                                    calls := s.calls.setPhase c (.returned .ctxErr) }

theorem enter_effect (s : Sys V) (op : Op V) : Effect s (.call op) (s.enter op) := by
  cases op with
  | send v f => exact .send _ v _ rfl (send_cases _ _ _ _)
  | sendCtx v f => exact .send _ v _ rfl (send_cases _ _ _ _)
  | trySend v => exact .send _ v _ rfl (trySend_cases _ _ _)
  | receive f => exact .receive _ _ rfl (receive_cases _ _ _)
  | receiveCtx f => exact .receive _ _ rfl (receive_cases _ _ _)
  | tryReceive => exact .receive _ _ rfl (tryReceive_cases _ _)

theorem close_effect (s : Sys V) : Effect s .close s.close := by
  by_cases hcl : s.fc.closed = true
  · have hsame : s.close = s := by
      simp [Sys.close, FiberChannel.close, hcl, Calls.wakeEach]
    rw [hsame]
    exact .closeAgain hcl
  · have hopen : s.fc.closed = false := by simpa using hcl
    have heff := Effect.close hopen
    rw [← Calls.wakeEach_map, ← Calls.wakeEach_map, ← Calls.wakeEach_append] at heff
    simpa [Sys.close, FiberChannel.close, hopen, Function.comp_def] using heff

theorem cancel_effect {s s' : Sys V} {c : Nat} (h : s.cancel c = some s') :
    Effect s (.cancel c) s' := by
  unfold Sys.cancel at h
  split at h
  · next r _ hr =>
    cases h
    exact .resume _ c r hr
  · next r _ hr =>
    cases h
    exact .resume _ c r hr
  · next hop hp =>
    cases h
    exact .withdrawSender c (by simp [Calls.Is, hop, Op.sends, Op.value?]) hp
  · next hop hp =>
    cases h
    exact .withdrawReceiver c (by simp [Calls.Is, hop, Op.receives, Op.sends, Op.value?]) hp
  · cases h

theorem step_effect {s s' : Sys V} {l : Label V} (h : step s l = some s') : Effect s l s' := by
  cases l with
  | call op =>
    cases h
    exact enter_effect s op
  | close =>
    cases h
    exact close_effect s
  | resume c =>
    simp only [step, Sys.resume] at h
    split at h
    · next r hr =>
      cases h
      exact .resume _ c r hr
    · cases h
  | cancel c => exact cancel_effect h

/-! ## The invariant -/

/-- The value call `c` sends. -/
def valueOf (calls : Calls (Op V) (Result V)) (c : Nat) : Option V :=
  (calls.opOf c).bind Op.value?

@[simp] theorem valueOf_setPhase (calls : Calls (Op V) (Result V)) (c : Nat)
    (p : Phase (Result V)) : valueOf (calls.setPhase c p) = valueOf calls := by
  funext d
  simp [valueOf]

@[simp] theorem valueOf_wakeAll (calls : Calls (Op V) (Result V)) (cs : List Nat)
    (r : Result V) : valueOf (calls.wakeAll cs r) = valueOf calls := by
  funext d
  simp [valueOf]

theorem valueOf_length (calls : Calls (Op V) (Result V)) (k : Call (Op V) (Result V)) :
    valueOf (calls ++ [k]) calls.length = k.op.value? := by
  simp [valueOf, Calls.opOf_append]

/-- A new call does not change what the others send. -/
theorem valueOf_append {calls : Calls (Op V) (Result V)} (k : Call (Op V) (Result V)) {c : Nat}
    (h : c < calls.length) : valueOf (calls ++ [k]) c = valueOf calls c := by
  simp [valueOf, Calls.opOf_append, Nat.ne_of_lt h]

theorem filterMap_valueOf_append {calls : Calls (Op V) (Result V)}
    (k : Call (Op V) (Result V)) {cs : List Nat} (h : ∀ c ∈ cs, c < calls.length) :
    cs.filterMap (valueOf (calls ++ [k])) = cs.filterMap (valueOf calls) :=
  List.filterMap_congr fun c hc => valueOf_append k (h c hc)

/-- The channel itself: no waiter is parked that could go on. -/
structure Shape (fc : FiberChannel V) : Prop where
  cap : fc.buffer.length ≤ fc.capacity
  recv_idle : fc.receivers ≠ [] → fc.buffer = [] ∧ fc.senders = []
  send_full : fc.senders ≠ [] → fc.buffer.length = fc.capacity
  closed_empty : fc.closed = true → fc.senders = [] ∧ fc.receivers = []

/-- The history: for queue histories `sl` of the sends and `rl` of the receives, the values
that moved are those of the sends served, in order, and each receive served has its value. -/
structure History (s : Sys V) (sl rl : Ledger Nat) : Prop where
  arrived : s.arrived = sl.arrivals
  send_queue : s.fc.senders.map ChannelSender.call = sl.waiting
  recv_queue : s.fc.receivers.map Waiter.call = rl.waiting
  parked_values : ∀ w ∈ s.fc.senders, valueOf s.calls w.call = some w.value
  moved : s.handed.map Prod.snd ++ s.fc.buffer = sl.served.filterMap (valueOf s.calls)
  taken : s.handed.map Prod.fst = rl.served
  honest : ∀ p ∈ s.handed, s.calls.resultOf p.1 = some (.received p.2)
  sends : Tracks s.calls Op.sends Result.isSent Result.isGone sl sl.served
  recvs : Tracks s.calls Op.receives Result.isReceived Result.isGone rl rl.served
  closes_settled : ∀ c ∈ s.closes, ∃ r, s.calls.resultOf c = some r
  closes_nodup : s.closes.Nodup

structure Inv (s : Sys V) (sl rl : Ledger Nat) : Prop where
  shape : Shape s.fc
  history : History s sl rl

theorem inv_init (capacity : Int) : Inv (init capacity : Sys V) .empty .empty where
  shape := {
    cap := Nat.zero_le _
    recv_idle := fun h => absurd rfl h
    send_full := fun h => absurd rfl h
    closed_empty := fun h => by cases h }
  history := {
    arrived := rfl
    send_queue := rfl
    recv_queue := rfl
    parked_values := fun _ h => by cases h
    moved := rfl
    taken := rfl
    honest := fun _ h => by cases h
    sends := Tracks.empty
    recvs := Tracks.empty
    closes_settled := fun _ h => by cases h
    closes_nodup := List.nodup_nil }

theorem Op.sends_of_value {op : Op V} {v : V} (h : op.value? = some v) : op.sends = true := by
  simp [Op.sends, h]

theorem Op.not_sends_of_value {op : Op V} (h : op.value? = none) : op.sends = false := by
  simp [Op.sends, h]

/-- No call both sends and receives. -/
theorem not_receives_of_sends {calls : Calls (Op V) (Result V)} {c : Nat}
    (h : calls.Is Op.sends c) : ¬ calls.Is Op.receives c := by
  intro hr
  unfold Calls.Is at h hr
  cases hop : calls.opOf c with
  | none => simp [hop] at h
  | some op => simp [hop, Op.receives] at h hr; simp [h] at hr

/-! ### The channel's shape -/

namespace Shape

variable {fc : FiberChannel V}

theorem send (hs : Shape fc) {c : Nat} {v : V} {res : FiberChannel V × Outcome V}
    (hc : SendCase fc c v res) : Shape res.1 := by
  cases hc with
  | refuse r => exact hs
  | hand w rest hopen hq =>
    have hidle := hs.recv_idle (by simp [hq])
    exact {
      cap := hs.cap
      recv_idle := fun _ => hidle
      send_full := hs.send_full
      closed_empty := fun hcl => by simp [hopen] at hcl }
  | buffer hopen hq hlt =>
    have hnone : fc.senders = [] := by
      by_contra hne
      exact absurd (hs.send_full hne) (Nat.ne_of_lt hlt)
    exact {
      cap := by simpa using Nat.succ_le_of_lt hlt
      recv_idle := fun h => absurd hq h
      send_full := fun h => absurd hnone h
      closed_empty := fun hcl => by simp [hopen] at hcl }
  | park f hopen hq hfull =>
    exact {
      cap := hs.cap
      recv_idle := fun h => absurd hq h
      send_full := fun _ => Nat.le_antisymm hs.cap hfull
      closed_empty := fun hcl => by simp [hopen] at hcl }

/-- Nobody waits to receive while a value is to be had. -/
theorem receivers_nil (hs : Shape fc) (h : fc.buffer ≠ [] ∨ fc.senders ≠ []) :
    fc.receivers = [] := by
  by_contra hne
  obtain ⟨hb, hse⟩ := hs.recv_idle hne
  rcases h with h | h
  · exact h hb
  · exact h hse

theorem receive (hs : Shape fc) {c : Nat} {res : FiberChannel V × Outcome V}
    (hc : RecvCase fc c res) : Shape res.1 := by
  cases hc with
  | refuse r => exact hs
  | buffer v rest hb hkeep =>
    have hcap := hs.cap
    rw [hb, List.length_cons] at hcap
    have hnone : fc.senders = [] := by
      rcases hkeep with h | h | h
      · exact h
      · exact (hs.closed_empty h).1
      · omega
    exact {
      cap := Nat.le_of_succ_le hcap
      recv_idle := fun h => absurd (hs.receivers_nil (.inl (by simp [hb]))) h
      send_full := fun h => absurd hnone h
      closed_empty := hs.closed_empty }
  | refill v rest w ws hb hq hlt =>
    have hfull := hs.send_full (by simp [hq])
    exact {
      cap := by simpa using Nat.succ_le_of_lt hlt
      recv_idle := fun h => absurd (hs.receivers_nil (.inl (by simp [hb]))) h
      send_full := fun _ => by simpa [hb] using hfull
      closed_empty := fun hcl => by simp [hs.closed_empty hcl] at hq }
  | hand w ws hb hq =>
    have hfull := hs.send_full (by simp [hq])
    exact {
      cap := hs.cap
      recv_idle := fun h => absurd (hs.receivers_nil (.inr (by simp [hq]))) h
      send_full := fun _ => hfull
      closed_empty := fun hcl => by simp [hs.closed_empty hcl] at hq }
  | park f hopen hb hq =>
    exact {
      cap := hs.cap
      recv_idle := fun _ => ⟨hb, hq⟩
      send_full := fun h => absurd hq h
      closed_empty := fun hcl => by simp [hopen] at hcl }

theorem withdrawSender (hs : Shape fc) (c : Nat) : Shape (fc.removeSenderLocked c) where
  cap := hs.cap
  recv_idle h := ⟨(hs.recv_idle h).1, by
    simp [removeSenderLocked, removeWaiter, (hs.recv_idle h).2]⟩
  send_full h := hs.send_full fun hempty => h (by
    simp [removeSenderLocked, removeWaiter, hempty])
  closed_empty h := ⟨by
    simp [removeSenderLocked, removeWaiter, (hs.closed_empty h).1], (hs.closed_empty h).2⟩

theorem withdrawReceiver (hs : Shape fc) (c : Nat) : Shape (fc.removeReceiverLocked c) where
  cap := hs.cap
  recv_idle h := hs.recv_idle fun hempty => h (by
    simp [removeReceiverLocked, removeWaiter, hempty])
  send_full := hs.send_full
  closed_empty h := ⟨(hs.closed_empty h).1, by
    simp [removeReceiverLocked, removeWaiter, (hs.closed_empty h).2]⟩

theorem effect {s s' : Sys V} {l : Label V} (hs : Shape s.fc) (h : Effect s l s') :
    Shape s'.fc := by
  cases h with
  | send op v res hop hc => exact hs.send hc
  | receive op res hop hc => exact hs.receive hc
  | close hopen =>
    exact {
      cap := hs.cap
      recv_idle := fun h => absurd rfl h
      send_full := fun h => absurd rfl h
      closed_empty := fun _ => ⟨rfl, rfl⟩ }
  | closeAgain hclosed => exact hs
  | resume l c r hc => exact hs
  | withdrawSender c hop hc => exact hs.withdrawSender c
  | withdrawReceiver c hop hc => exact hs.withdrawReceiver c

end Shape

/-! ### The history, section by section -/

section

variable (s : Sys V) (op : Op V) (fc : FiberChannel V)

theorem record_refuse {r : Result V} (hr : r.isSent = false) (hv : r.value? = none) :
    s.record op (fc, ⟨some r, []⟩)
      = { s with fc := fc, calls := s.calls ++ [⟨op, .returned r⟩] } := by
  simp [Sys.record, deliveries, hr, hv, Calls.wakeEach]

theorem record_buffer (hop : op.sends = true) :
    s.record op (fc, ⟨some .sent, []⟩)
      = { s with
          fc := fc
          calls := s.calls ++ [⟨op, .returned .sent⟩]
          arrived := s.arrived ++ [s.calls.length] } := by
  simp [Sys.record, deliveries, hop, Result.value?, Result.isSent, Calls.wakeEach]

theorem record_sendPark (hop : op.sends = true) :
    s.record op (fc, ⟨none, []⟩)
      = { s with
          fc := fc
          calls := s.calls ++ [⟨op, .parked⟩]
          arrived := s.arrived ++ [s.calls.length] } := by
  simp [Sys.record, deliveries, hop, Calls.wakeEach]

theorem record_recvPark (hop : op.sends = false) :
    s.record op (fc, ⟨none, []⟩) = { s with fc := fc, calls := s.calls ++ [⟨op, .parked⟩] } := by
  simp [Sys.record, deliveries, hop, Calls.wakeEach]

theorem record_hand (hop : op.sends = true) (c : Nat) (v : V) :
    s.record op (fc, ⟨some .sent, [(c, .received v)]⟩)
      = { fc := fc
          calls := Calls.wakeAll (s.calls ++ [⟨op, .returned .sent⟩]) [c] (.received v)
          arrived := s.arrived ++ [s.calls.length]
          handed := s.handed ++ [(c, v)]
          closes := s.closes ++ [c] } := by
  simp [Sys.record, deliveries, hop, Result.value?, Result.isSent, Calls.wakeEach, Calls.wakeAll]

theorem record_take (hop : op.sends = false) (v : V) :
    s.record op (fc, ⟨some (.received v), []⟩)
      = { s with
          fc := fc
          calls := s.calls ++ [⟨op, .returned (.received v)⟩]
          handed := s.handed ++ [(s.calls.length, v)] } := by
  simp [Sys.record, deliveries, hop, Result.value?, Calls.wakeEach]

theorem record_take_wake (hop : op.sends = false) (v : V) (c : Nat) :
    s.record op (fc, ⟨some (.received v), [(c, .sent)]⟩)
      = { fc := fc
          calls := Calls.wakeAll (s.calls ++ [⟨op, .returned (.received v)⟩]) [c] .sent
          arrived := s.arrived
          handed := s.handed ++ [(s.calls.length, v)]
          closes := s.closes ++ [c] } := by
  simp [Sys.record, deliveries, hop, Result.value?, Calls.wakeEach, Calls.wakeAll]

end

namespace History

variable {s : Sys V} {sl rl : Ledger Nat}

theorem served_lt (h : History s sl rl) {c : Nat} (hc : c ∈ sl.served) : c < s.calls.length :=
  h.sends.arrived_lt (sl.mem_arrivals_of_served hc)

theorem parked_lt (h : History s sl rl) {w : ChannelSender V} (hw : w ∈ s.fc.senders) :
    w.call < s.calls.length := by
  have hmem : w.call ∈ sl.waiting := h.send_queue ▸ List.mem_map_of_mem hw
  exact h.sends.arrived_lt (sl.mem_arrivals_of_waiting hmem)

/-- A `ready` channel that is still open has not been closed. -/
theorem not_closed_of_parked (h : History s sl rl) {c : Nat}
    (hc : s.calls.phaseOf c = some .parked) : c ∉ s.closes := by
  intro hmem
  obtain ⟨r, hr⟩ := h.closes_settled c hmem
  rw [Calls.resultOf_of_parked hc] at hr
  cases hr

/-- What survives any later table of calls. -/
theorem honest_later (h : History s sl rl) {calls : Calls (Op V) (Result V)}
    (hlater : s.calls.Later calls) : ∀ p ∈ s.handed, calls.resultOf p.1 = some (.received p.2) :=
  fun p hp => hlater _ _ (h.honest p hp)

theorem closes_later (h : History s sl rl) {calls : Calls (Op V) (Result V)}
    (hlater : s.calls.Later calls) : ∀ c ∈ s.closes, ∃ r, calls.resultOf c = some r := by
  intro c hc
  obtain ⟨r, hr⟩ := h.closes_settled c hc
  exact ⟨r, hlater _ _ hr⟩

/-- The values of the parked senders and of those served are not changed by a new call. -/
theorem parked_values_append (h : History s sl rl) (k : Call (Op V) (Result V)) :
    ∀ w ∈ s.fc.senders, valueOf (s.calls ++ [k]) w.call = some w.value := by
  intro w hw
  rw [valueOf_append k (h.parked_lt hw), h.parked_values w hw]

theorem served_values_append (h : History s sl rl) (k : Call (Op V) (Result V)) :
    sl.served.filterMap (valueOf (s.calls ++ [k])) = sl.served.filterMap (valueOf s.calls) :=
  filterMap_valueOf_append k fun _ hc => h.served_lt hc

/-- A call returns with neither a value moved nor a place in a queue. -/
theorem refuse (h : History s sl rl) (op : Op V) {r : Result V} (hr : r.isSent = false)
    (hv : r.value? = none) :
    History { s with calls := s.calls ++ [⟨op, .returned r⟩] } sl rl where
  arrived := h.arrived
  send_queue := h.send_queue
  recv_queue := h.recv_queue
  parked_values := h.parked_values_append _
  moved := by rw [h.served_values_append]; exact h.moved
  taken := h.taken
  honest := h.honest_later (Calls.later_append _ _)
  sends := by simpa [hr] using h.sends.append_returned op r
  recvs := by simpa [Result.isReceived, hv] using h.recvs.append_returned op r
  closes_settled := h.closes_later (Calls.later_append _ _)
  closes_nodup := h.closes_nodup

/-! ### Sends -/

/-- The send of `v` goes to the parked receiver `w`. -/
theorem sendHand (h : History s sl rl) (hs : Shape s.fc) {op : Op V} {v : V} {w : Waiter}
    {rest : List Waiter} (hop : op.value? = some v) (hq : s.fc.receivers = w :: rest) :
    History { fc := { s.fc with receivers := rest }
              calls := Calls.wakeAll (s.calls ++ [⟨op, .returned .sent⟩]) [w.call] (.received v)
              arrived := s.arrived ++ [s.calls.length]
              handed := s.handed ++ [(w.call, v)]
              closes := s.closes ++ [w.call] }
      ((sl.arrive s.calls.length).serve 1) (rl.serve 1) := by
  have hsends := Op.sends_of_value hop
  have hrecvs : op.receives = false := by simp [Op.receives, hsends]
  obtain ⟨hb, hnone⟩ := hs.recv_idle (by simp [hq])
  have hwait : sl.waiting = [] := by rw [← h.send_queue, hnone, List.map_nil]
  have hserved := sl.served_of_immediate h.sends.next_not_arrived hwait
  have hrwait : rl.waiting = w.call :: rest.map Waiter.call := by
    rw [← h.recv_queue, hq, List.map_cons]
  -- the call returns first, then the receiver is woken
  have hs₁ := h.sends.append_served op (r := .sent) hsends rfl rfl hwait
  have hr₁ : Tracks (s.calls ++ [⟨op, .returned .sent⟩]) Op.receives Result.isReceived
      Result.isGone rl rl.served := by
    simpa [hrecvs] using h.recvs.append_returned op .sent
  have hmem : w.call ∈ rl.waiting := by simp [hrwait]
  have hparked : ∀ c ∈ [w.call],
      (s.calls ++ [⟨op, .returned .sent⟩] : Calls _ _).phaseOf c = some .parked := by
    simpa using hr₁.phaseOf_waiting hmem
  have hlater₁ := Calls.later_append s.calls ⟨op, .returned .sent⟩
  have hlater := hlater₁.trans (Calls.later_wakeAll [w.call] (.received v) hparked)
  have hresult : (Calls.wakeAll (s.calls ++ [⟨op, .returned .sent⟩]) [w.call]
      (.received v)).resultOf w.call = some (.received v) := by
    rw [Calls.resultOf_wakeAll _ _ _ _ hparked]
    simp
  constructor
  case arrived =>
    rw [h.arrived, Ledger.serve_arrivals, sl.arrive_arrivals h.sends.next_not_arrived]
  case send_queue =>
    rw [sl.waiting_of_immediate h.sends.next_not_arrived hwait]
    simp [hnone]
  case recv_queue => simp [hrwait]
  case parked_values => simp [hnone]
  case moved =>
    have hm := h.moved
    rw [hb, List.append_nil] at hm
    rw [valueOf_wakeAll, hserved, List.filterMap_append, h.served_values_append, ← hm]
    simp [hb, valueOf_length, hop]
  case taken => simp [h.taken, hrwait]
  case honest =>
    intro p hp
    rcases List.mem_append.mp hp with hp | hp
    · exact h.honest_later hlater p hp
    · rw [List.mem_singleton.mp hp]
      exact hresult
  case sends =>
    rw [hserved]
    refine hs₁.wakeOther [w.call] _ hparked ?_
    simp only [List.mem_singleton, forall_eq]
    exact fun hsend => not_receives_of_sends hsend ((hr₁.parked_iff _).mp hmem).1
  case recvs =>
    have ht := hr₁.serve 1 (r := .received v) rfl rfl
    rw [hrwait] at ht
    simpa [hrwait] using ht
  case closes_settled =>
    intro c hc
    rcases List.mem_append.mp hc with hc | hc
    · exact h.closes_later hlater c hc
    · rw [List.mem_singleton.mp hc]
      exact ⟨_, hresult⟩
  case closes_nodup =>
    have hopen := h.not_closed_of_parked (h.recvs.phaseOf_waiting hmem)
    exact List.nodup_append_comm.mpr (List.nodup_cons.mpr ⟨hopen, h.closes_nodup⟩)

/-- The send of `v` finds a free slot. -/
theorem sendBuffer (h : History s sl rl) (hs : Shape s.fc) {op : Op V} {v : V}
    (hop : op.value? = some v) (hlt : s.fc.buffer.length < s.fc.capacity) :
    History { s with fc := { s.fc with buffer := s.fc.buffer ++ [v] }
                     calls := s.calls ++ [⟨op, .returned .sent⟩]
                     arrived := s.arrived ++ [s.calls.length] }
      ((sl.arrive s.calls.length).serve 1) rl := by
  have hsends := Op.sends_of_value hop
  have hrecvs : op.receives = false := by simp [Op.receives, hsends]
  have hnone : s.fc.senders = [] := by
    by_contra hne
    exact absurd (hs.send_full hne) (Nat.ne_of_lt hlt)
  have hwait : sl.waiting = [] := by rw [← h.send_queue, hnone, List.map_nil]
  have hserved := sl.served_of_immediate h.sends.next_not_arrived hwait
  constructor
  case arrived =>
    rw [h.arrived, Ledger.serve_arrivals, sl.arrive_arrivals h.sends.next_not_arrived]
  case send_queue =>
    rw [sl.waiting_of_immediate h.sends.next_not_arrived hwait]
    simp [hnone]
  case recv_queue => exact h.recv_queue
  case parked_values => simp [hnone]
  case moved =>
    rw [hserved, List.filterMap_append, h.served_values_append, ← h.moved]
    simp [valueOf_length, hop]
  case taken => exact h.taken
  case honest => exact h.honest_later (Calls.later_append _ _)
  case sends =>
    rw [hserved]
    exact h.sends.append_served op hsends rfl rfl hwait
  case recvs => simpa [hrecvs] using h.recvs.append_returned op .sent
  case closes_settled => exact h.closes_later (Calls.later_append _ _)
  case closes_nodup => exact h.closes_nodup

/-- The send of `v` parks. -/
theorem sendPark (h : History s sl rl) {op : Op V} {v : V} (f : FiberRef)
    (hop : op.value? = some v) :
    History { s with fc := { s.fc with senders := s.fc.senders ++ [⟨s.calls.length, f, v⟩] }
                     calls := s.calls ++ [⟨op, .parked⟩]
                     arrived := s.arrived ++ [s.calls.length] }
      (sl.arrive s.calls.length) rl := by
  have hsends := Op.sends_of_value hop
  constructor
  case arrived => rw [h.arrived, sl.arrive_arrivals h.sends.next_not_arrived]
  case send_queue =>
    simp [h.send_queue, sl.arrive_waiting h.sends.next_not_arrived]
  case recv_queue => exact h.recv_queue
  case parked_values =>
    intro w hw
    rcases List.mem_append.mp hw with hw | hw
    · exact h.parked_values_append _ w hw
    · rw [List.mem_singleton.mp hw, valueOf_length, hop]
  case moved => rw [Ledger.arrive_served, h.served_values_append]; exact h.moved
  case taken => exact h.taken
  case honest => exact h.honest_later (Calls.later_append _ _)
  case sends => rw [Ledger.arrive_served]; exact h.sends.append_parked op hsends
  case recvs => exact h.recvs.append_other op (by simp [Op.receives, hsends])
  case closes_settled => exact h.closes_later (Calls.later_append _ _)
  case closes_nodup => exact h.closes_nodup

/-! ### Receives -/

/-- A receive takes the oldest buffered value and wakes nobody. -/
theorem recvBuffer (h : History s sl rl) (hs : Shape s.fc) {op : Op V} {v : V} {rest : List V}
    (hop : op.value? = none) (hb : s.fc.buffer = v :: rest) :
    History { s with fc := { s.fc with buffer := rest }
                     calls := s.calls ++ [⟨op, .returned (.received v)⟩]
                     handed := s.handed ++ [(s.calls.length, v)] }
      sl ((rl.arrive s.calls.length).serve 1) := by
  have hsends := Op.not_sends_of_value hop
  have hrecvs : op.receives = true := by simp [Op.receives, hsends]
  have hnone : s.fc.receivers = [] := hs.receivers_nil (.inl (by simp [hb]))
  have hwait : rl.waiting = [] := by rw [← h.recv_queue, hnone, List.map_nil]
  have hserved := rl.served_of_immediate h.recvs.next_not_arrived hwait
  constructor
  case arrived => exact h.arrived
  case send_queue => exact h.send_queue
  case recv_queue =>
    rw [rl.waiting_of_immediate h.recvs.next_not_arrived hwait]
    simp [hnone]
  case parked_values => exact h.parked_values_append _
  case moved => rw [h.served_values_append, ← h.moved]; simp [hb]
  case taken => rw [hserved, ← h.taken]; simp
  case honest =>
    intro p hp
    rcases List.mem_append.mp hp with hp | hp
    · exact h.honest_later (Calls.later_append _ _) p hp
    · rw [List.mem_singleton.mp hp, Calls.resultOf_append]
      simp
  case sends => simpa [hsends] using h.sends.append_returned op (.received v)
  case recvs =>
    rw [hserved]
    exact h.recvs.append_served op hrecvs rfl rfl hwait
  case closes_settled => exact h.closes_later (Calls.later_append _ _)
  case closes_nodup => exact h.closes_nodup

/-- A receive gets `v` and the oldest parked sender's value moves up behind the buffer; with an
empty buffer, `v` is that value. -/
theorem recvWake (h : History s sl rl) (hs : Shape s.fc) {op : Op V} {v : V} {b : List V}
    {w : ChannelSender V} {ws : List (ChannelSender V)} (hop : op.value? = none)
    (hq : s.fc.senders = w :: ws) (hmove : v :: b = s.fc.buffer ++ [w.value]) :
    History { fc := { s.fc with senders := ws, buffer := b }
              calls := Calls.wakeAll (s.calls ++ [⟨op, .returned (.received v)⟩]) [w.call] .sent
              arrived := s.arrived
              handed := s.handed ++ [(s.calls.length, v)]
              closes := s.closes ++ [w.call] }
      (sl.serve 1) ((rl.arrive s.calls.length).serve 1) := by
  have hsends := Op.not_sends_of_value hop
  have hrecvs : op.receives = true := by simp [Op.receives, hsends]
  have hnone : s.fc.receivers = [] := hs.receivers_nil (.inr (by simp [hq]))
  have hwait : rl.waiting = [] := by rw [← h.recv_queue, hnone, List.map_nil]
  have hserved := rl.served_of_immediate h.recvs.next_not_arrived hwait
  have hswait : sl.waiting = w.call :: ws.map ChannelSender.call := by
    rw [← h.send_queue, hq, List.map_cons]
  have hmem : w.call ∈ sl.waiting := by simp [hswait]
  have hval : valueOf s.calls w.call = some w.value := h.parked_values w (by simp [hq])
  -- the call returns first, then the sender is woken
  have hr₁ := h.recvs.append_served op (r := .received v) hrecvs rfl rfl hwait
  have hs₁ : Tracks (s.calls ++ [⟨op, .returned (.received v)⟩]) Op.sends Result.isSent
      Result.isGone sl sl.served := by
    simpa [hsends] using h.sends.append_returned op (.received v)
  have hparked : ∀ c ∈ [w.call],
      (s.calls ++ [⟨op, .returned (.received v)⟩] : Calls _ _).phaseOf c = some .parked := by
    simpa using hs₁.phaseOf_waiting hmem
  have hlater₁ := Calls.later_append s.calls ⟨op, .returned (.received v)⟩
  have hlater₂ := Calls.later_wakeAll [w.call] Result.sent hparked
  have hlater := hlater₁.trans hlater₂
  constructor
  case arrived => exact h.arrived
  case send_queue => simp [hswait]
  case recv_queue =>
    rw [rl.waiting_of_immediate h.recvs.next_not_arrived hwait]
    simp [hnone]
  case parked_values =>
    intro w' hw'
    rw [valueOf_wakeAll]
    exact h.parked_values_append _ w' (by simp [hq, hw'])
  case moved =>
    have hlt := h.sends.arrived_lt (sl.mem_arrivals_of_waiting hmem)
    rw [valueOf_wakeAll, Ledger.serve_served, hswait, List.filterMap_append,
      h.served_values_append, ← h.moved]
    simp [valueOf_append _ hlt, hval, hmove]
  case taken => rw [hserved, ← h.taken]; simp
  case honest =>
    intro p hp
    rcases List.mem_append.mp hp with hp | hp
    · exact h.honest_later hlater p hp
    · rw [List.mem_singleton.mp hp]
      exact hlater₂ _ _ (by simp [Calls.resultOf_append])
  case sends =>
    have ht := hs₁.serve 1 (r := .sent) rfl rfl
    rw [hswait] at ht
    simpa [hswait] using ht
  case recvs =>
    rw [hserved]
    refine hr₁.wakeOther [w.call] _ hparked ?_
    simp only [List.mem_singleton, forall_eq]
    exact not_receives_of_sends ((hs₁.parked_iff _).mp hmem).1
  case closes_settled =>
    intro c hc
    rcases List.mem_append.mp hc with hc | hc
    · exact h.closes_later hlater c hc
    · rw [List.mem_singleton.mp hc, Calls.resultOf_wakeAll _ _ _ _ hparked]
      simp
  case closes_nodup =>
    have hopen := h.not_closed_of_parked (h.sends.phaseOf_waiting hmem)
    exact List.nodup_append_comm.mpr (List.nodup_cons.mpr ⟨hopen, h.closes_nodup⟩)

/-- A receive parks. -/
theorem recvPark (h : History s sl rl) {op : Op V} (f : FiberRef) (hop : op.value? = none) :
    History { s with fc := { s.fc with receivers := s.fc.receivers ++ [⟨s.calls.length, f⟩] }
                     calls := s.calls ++ [⟨op, .parked⟩] }
      sl (rl.arrive s.calls.length) := by
  have hsends := Op.not_sends_of_value hop
  constructor
  case arrived => exact h.arrived
  case send_queue => exact h.send_queue
  case recv_queue => simp [h.recv_queue, rl.arrive_waiting h.recvs.next_not_arrived]
  case parked_values => exact h.parked_values_append _
  case moved => rw [h.served_values_append]; exact h.moved
  case taken => rw [Ledger.arrive_served]; exact h.taken
  case honest => exact h.honest_later (Calls.later_append _ _)
  case sends => exact h.sends.append_other op hsends
  case recvs =>
    rw [Ledger.arrive_served]
    exact h.recvs.append_parked op (by simp [Op.receives, hsends])
  case closes_settled => exact h.closes_later (Calls.later_append _ _)
  case closes_nodup => exact h.closes_nodup

/-! ### Closing and leaving a wait -/

theorem close (h : History s sl rl) :
    History { s with
        fc := { s.fc with closed := true, receivers := [], senders := [] }
        calls := (s.calls.wakeAll (s.fc.receivers.map Waiter.call) .closed).wakeAll
          (s.fc.senders.map ChannelSender.call) .closed
        closes := s.closes ++
          (s.fc.receivers.map Waiter.call ++ s.fc.senders.map ChannelSender.call) }
      (sl.drop fun _ => true) (rl.drop fun _ => true) := by
  rw [h.send_queue, h.recv_queue]
  have hrparked : ∀ c ∈ rl.waiting, s.calls.phaseOf c = some .parked :=
    fun c hc => h.recvs.phaseOf_waiting hc
  have hsother : ∀ c ∈ sl.waiting, ¬ s.calls.Is Op.receives c :=
    fun c hc => not_receives_of_sends ((h.sends.parked_iff c).mp hc).1
  have hrother : ∀ c ∈ rl.waiting, ¬ s.calls.Is Op.sends c :=
    fun c hc hsend => not_receives_of_sends hsend ((h.recvs.parked_iff c).mp hc).1
  -- the receivers are woken first
  have hr₁ := h.recvs.dropAll (r := .closed) rfl rfl
  have hs₁ := h.sends.wakeOther rl.waiting .closed hrparked hrother
  have hsparked : ∀ c ∈ sl.waiting,
      (s.calls.wakeAll rl.waiting .closed).phaseOf c = some .parked :=
    fun c hc => hs₁.phaseOf_waiting hc
  have hlater₁ := Calls.later_wakeAll rl.waiting Result.closed hrparked
  have hlater₂ := Calls.later_wakeAll sl.waiting Result.closed hsparked
  have hlater := hlater₁.trans hlater₂
  constructor
  case arrived => exact h.arrived
  case send_queue => simp
  case recv_queue => simp
  case parked_values => simp
  case moved => simpa using h.moved
  case taken => exact h.taken
  case honest => exact h.honest_later hlater
  case sends => exact hs₁.dropAll rfl rfl
  case recvs =>
    refine hr₁.wakeOther sl.waiting .closed hsparked fun c hc => ?_
    rw [Calls.is_wakeAll]
    exact hsother c hc
  case closes_settled =>
    intro c hc
    rcases List.mem_append.mp hc with hc | hc
    · exact h.closes_later hlater c hc
    · rcases List.mem_append.mp hc with hc | hc
      · refine ⟨.closed, hlater₂ _ _ ?_⟩
        rw [Calls.resultOf_wakeAll _ _ _ _ hrparked, if_pos hc]
      · refine ⟨.closed, ?_⟩
        rw [Calls.resultOf_wakeAll _ _ _ _ hsparked, if_pos hc]
  case closes_nodup =>
    have hdisj : (rl.waiting ++ sl.waiting).Nodup := by
      refine List.nodup_append'.mpr ⟨rl.waiting_nodup, sl.waiting_nodup, ?_⟩
      intro c hr hs
      exact hsother c hs ((h.recvs.parked_iff c).mp hr).1
    refine List.nodup_append'.mpr ⟨h.closes_nodup, hdisj, ?_⟩
    intro c hcl hc
    rcases List.mem_append.mp hc with hc | hc
    · exact h.not_closed_of_parked (hrparked c hc) hcl
    · exact h.not_closed_of_parked (h.sends.phaseOf_waiting hc) hcl

theorem resume (h : History s sl rl) {c : Nat} {r : Result V}
    (hc : s.calls.phaseOf c = some (.woken r)) :
    History { s with calls := s.calls.setPhase c (.returned r) } sl rl where
  arrived := h.arrived
  send_queue := h.send_queue
  recv_queue := h.recv_queue
  parked_values := by rw [valueOf_setPhase]; exact h.parked_values
  moved := by rw [valueOf_setPhase]; exact h.moved
  taken := h.taken
  honest := h.honest_later (Calls.later_resume hc)
  sends := h.sends.resume hc
  recvs := h.recvs.resume hc
  closes_settled := h.closes_later (Calls.later_resume hc)
  closes_nodup := h.closes_nodup

theorem withdrawSender (h : History s sl rl) {c : Nat} (hop : s.calls.Is Op.sends c)
    (hc : s.calls.phaseOf c = some .parked) :
    History { s with fc := s.fc.removeSenderLocked c,
                     calls := s.calls.setPhase c (.returned .ctxErr) }
      (sl.drop (· == c)) rl where
  arrived := h.arrived
  send_queue := by
    have hnd := sl.waiting_nodup
    rw [← h.send_queue] at hnd
    simp only [removeSenderLocked, map_removeWaiter_eq_filter c hnd, h.send_queue,
      Ledger.drop_waiting]
  recv_queue := h.recv_queue
  parked_values w hw := by
    rw [valueOf_setPhase]
    exact h.parked_values w ((removeWaiter_sublist _ _ _).mem hw)
  moved := by rw [valueOf_setPhase]; exact h.moved
  taken := h.taken
  honest := h.honest_later (Calls.later_setPhase _ hc)
  sends := h.sends.withdraw ((h.sends.parked_iff c).mpr ⟨hop, hc⟩) rfl rfl
  recvs := h.recvs.withdrawOther _ (not_receives_of_sends hop)
  closes_settled := h.closes_later (Calls.later_setPhase _ hc)
  closes_nodup := h.closes_nodup

theorem withdrawReceiver (h : History s sl rl) {c : Nat} (hop : s.calls.Is Op.receives c)
    (hc : s.calls.phaseOf c = some .parked) :
    History { s with fc := s.fc.removeReceiverLocked c,
                     calls := s.calls.setPhase c (.returned .ctxErr) }
      sl (rl.drop (· == c)) where
  arrived := h.arrived
  send_queue := h.send_queue
  recv_queue := by
    have hnd := rl.waiting_nodup
    rw [← h.recv_queue] at hnd
    simp only [removeReceiverLocked, map_removeWaiter_eq_filter c hnd, h.recv_queue,
      Ledger.drop_waiting]
  parked_values := by rw [valueOf_setPhase]; exact h.parked_values
  moved := by rw [valueOf_setPhase]; exact h.moved
  taken := h.taken
  honest := h.honest_later (Calls.later_setPhase _ hc)
  sends := h.sends.withdrawOther _ (fun hsend => not_receives_of_sends hsend hop)
  recvs := h.recvs.withdraw ((h.recvs.parked_iff c).mpr ⟨hop, hc⟩) rfl rfl
  closes_settled := h.closes_later (Calls.later_setPhase _ hc)
  closes_nodup := h.closes_nodup

theorem send (h : History s sl rl) (hs : Shape s.fc) {op : Op V} {v : V}
    {res : FiberChannel V × Outcome V} (hop : op.value? = some v)
    (hc : SendCase s.fc s.calls.length v res) :
    ∃ sl' rl', History (s.record op res) sl' rl' := by
  have hsends := Op.sends_of_value hop
  cases hc with
  | refuse r hr hv => exact ⟨_, _, record_refuse s op _ hr hv ▸ h.refuse op hr hv⟩
  | hand w rest hopen hq =>
    exact ⟨_, _, record_hand s op _ hsends _ _ ▸ h.sendHand hs hop hq⟩
  | buffer hopen hq hlt => exact ⟨_, _, record_buffer s op _ hsends ▸ h.sendBuffer hs hop hlt⟩
  | park f hopen hq hfull => exact ⟨_, _, record_sendPark s op _ hsends ▸ h.sendPark f hop⟩

theorem receive (h : History s sl rl) (hs : Shape s.fc) {op : Op V}
    {res : FiberChannel V × Outcome V} (hop : op.value? = none)
    (hc : RecvCase s.fc s.calls.length res) :
    ∃ sl' rl', History (s.record op res) sl' rl' := by
  have hsends := Op.not_sends_of_value hop
  cases hc with
  | refuse r hr hv => exact ⟨_, _, record_refuse s op _ hr hv ▸ h.refuse op hr hv⟩
  | buffer v rest hb => exact ⟨_, _, record_take s op _ hsends v ▸ h.recvBuffer hs hop hb⟩
  | refill v rest w ws hb hq =>
    rw [record_take_wake s op _ hsends]
    exact ⟨_, _, h.recvWake hs hop hq (by simp [hb])⟩
  | hand w ws hb hq =>
    have hres := h.recvWake hs (v := w.value) (b := []) hop hq (by simp [hb])
    rw [← hb] at hres
    rw [record_take_wake s op _ hsends]
    exact ⟨_, _, hres⟩
  | park f hopen hb hq => exact ⟨_, _, record_recvPark s op _ hsends ▸ h.recvPark f hop⟩

theorem effect {s' : Sys V} {l : Label V} (h : History s sl rl) (hs : Shape s.fc)
    (heff : Effect s l s') : ∃ sl' rl', History s' sl' rl' := by
  cases heff with
  | send op v res hop hc => exact h.send hs hop hc
  | receive op res hop hc => exact h.receive hs hop hc
  | close hopen => exact ⟨_, _, h.close⟩
  | closeAgain hclosed => exact ⟨_, _, h⟩
  | resume l c r hc => exact ⟨_, _, h.resume hc⟩
  | withdrawSender c hop hc => exact ⟨_, _, h.withdrawSender hop hc⟩
  | withdrawReceiver c hop hc => exact ⟨_, _, h.withdrawReceiver hop hc⟩

end History

/-- The invariant holds in every run. -/
theorem Reachable.inv {capacity : Int} {s : Sys V} (h : Reachable capacity s) :
    ∃ sl rl, Inv s sl rl := by
  refine Trans.Reach.invariant (P := fun s => ∃ sl rl, Inv s sl rl)
    ⟨_, _, inv_init capacity⟩ ?_ h
  rintro s l s' ⟨sl, rl, hi⟩ - hs
  have heff := step_effect hs
  obtain ⟨sl', rl', hh⟩ := hi.history.effect hi.shape heff
  exact ⟨sl', rl', hi.shape.effect heff, hh⟩

end GreenThreads.Sync.Channel
