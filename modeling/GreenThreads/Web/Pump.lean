import GreenThreads.Web.Control

/-!
# GreenThreads — the write pumps of WebSocket clients (`web/server.go`)

Every client has a bounded queue `sendCh`, a goroutine `writePump` that alone writes to the
connection, and two channels that are only closed: `stop`, by which others ask the pump to
leave, and `done`, by which the pump says that it has left. Three kinds of goroutine use them.

* the handler of the connection registers the client, starts the pump, sends, and in the end
  closes the connection, unregisters the client and waits for `done`;
* a round of `broadcastLoop` takes the clients out of the map and sends to one after the other,
  by which time a client may have left;
* `closeClients` empties the map and, one client after the other, asks its pump to leave, closes
  the connection and waits for `done`.

A step is one critical section, one operation on a channel or one call on the connection. The
slots that are released on the way are those of `Web.Clients`, and the frame that the handler
writes itself when its token is no longer good is left out.

* `ClientConn` — one client with its handler and its pump;
* `ClientConn.Inv` — what its own steps keep, given what was put into its queue;
* `Pumps` — the server: all clients, the map, the broadcasts and the calls of `closeClients`.
-/

namespace GreenThreads.Web

/-! ## Channels -/

/-- A channel that is only closed. A second `close` would panic. -/
structure Signal where
  closes : Nat := 0
  deriving DecidableEq, Repr

namespace Signal

def close (c : Signal) : Signal := ⟨c.closes + 1⟩

def closed (c : Signal) : Bool := 0 < c.closes

theorem closed_eq_of_toNat {c : Signal} {b : Bool} (h : c.closes = b.toNat) : c.closed = b := by
  unfold closed
  rw [h]
  cases b <;> rfl

end Signal

/-- What is in `sendCh`. -/
structure SendQueue (α : Type*) where
  items : List α
  bounded : items.length ≤ clientSendBuffer

/-- `make(chan interface{}, clientSendBuffer)`. -/
def SendQueue.make {α : Type*} : SendQueue α := ⟨[], Nat.zero_le _⟩

/-- The send of `enqueue`; `none` is its default case. -/
def SendQueue.offer {α : Type*} (q : SendQueue α) (msg : α) : Option (SendQueue α) :=
  if h : q.items.length < clientSendBuffer then
    some ⟨q.items ++ [msg], (List.length_append ..).trans_le h⟩
  else none

/-- A receive. -/
def SendQueue.receive {α : Type*} (q : SendQueue α) : Option (α × SendQueue α) :=
  match q with
  | ⟨[], _⟩ => none
  | ⟨msg :: rest, h⟩ => some (msg, ⟨rest, Nat.le_of_succ_le h⟩)

theorem SendQueue.items_of_offer {α : Type*} {q q' : SendQueue α} {msg : α}
    (h : q.offer msg = some q') : q'.items = q.items ++ [msg] := by
  unfold offer at h
  split at h
  · cases h
    rfl
  · cases h

theorem SendQueue.items_of_receive {α : Type*} {q q' : SendQueue α} {msg : α}
    (h : q.receive = some (msg, q')) : q.items = msg :: q'.items := by
  obtain ⟨_ | ⟨m, rest⟩, hq⟩ := q
  · cases h
  · cases h
    rfl

/-! ## Clients -/

/-- Where the goroutine of `writePump` is. A pump that leaves because a write failed has taken
the message of that write with it. -/
inductive PumpPc (α : Type*) where
  /-- The handler has not started it yet. -/
  | unstarted
  | selecting
  | writing (msg : α)
  | pinging
  /-- Before the deferred `close(cl.done)`. -/
  | leaving (lost : Option α)
  | exited (lost : Option α)
  deriving DecidableEq, Repr

/-- The message that has left `sendCh` and is not written. -/
def PumpPc.inHand {α : Type*} : PumpPc α → List α
  | writing msg => [msg]
  | leaving lost | exited lost => lost.toList
  | unstarted | selecting | pinging => []

def PumpPc.isExited {α : Type*} : PumpPc α → Bool
  | exited _ => true
  | unstarted | selecting | writing _ | pinging | leaving _ => false

/-- The goroutine is there and has not closed `done`. -/
def PumpPc.running {α : Type*} : PumpPc α → Bool
  | selecting | writing _ | pinging | leaving _ => true
  | unstarted | exited _ => false

theorem PumpPc.isExited_of_running {α : Type*} {pc : PumpPc α} (h : pc.running = true) :
    pc.isExited = false := by
  cases pc with
  | unstarted | exited _ => cases h
  | selecting | writing _ | pinging | leaving _ => rfl

/-- Where a call of `handleWebSocket` is. -/
inductive HandlerPc (α : Type*) where
  /-- `Upgrade` has succeeded, the client is not registered yet. -/
  | upgraded
  /-- The client is in the map, its pump is not started yet. -/
  | registered
  | serving
  /-- `sendJSON` has looked the client up; `present` says whether it was in the map. -/
  | sending (msg : α) (present : Bool)
  /-- Before the deferred `conn.Close()`. -/
  | closing
  /-- Before the critical section of `unregister`. -/
  | unregistering
  | shuttingDown
  /-- At `<-cl.done`. -/
  | waiting
  | ended
  deriving DecidableEq, Repr

namespace HandlerPc

variable {α : Type*}

/-- The handler has not started the pump. -/
def beforePump : HandlerPc α → Bool
  | upgraded | registered => true
  | serving | sending _ _ | closing | unregistering | shuttingDown | waiting | ended => false

/-- The handler has registered its client and has not unregistered it. -/
def mayBeInMap : HandlerPc α → Bool
  | registered | serving | sending _ _ | closing | unregistering => true
  | upgraded | shuttingDown | waiting | ended => false

/-- The handler has called `cl.shutdown()`. -/
def afterShutdown : HandlerPc α → Bool
  | waiting | ended => true
  | upgraded | registered | serving | sending _ _ | closing | unregistering
  | shuttingDown => false

end HandlerPc

/-- One `client` with its connection and the goroutines that are its own; `written` is what
`WriteJSON` has sent. -/
structure ClientConn (α : Type*) where
  handler : HandlerPc α := .upgraded
  sendCh : SendQueue α := .make
  stop : Signal := {}
  /-- `stopOnce` has run. -/
  stopOnce : Bool := false
  done : Signal := {}
  connClosed : Bool := false
  pump : PumpPc α := .unstarted
  /-- The context that the pump was started with; 0 is nil. -/
  ctx : Nat := 0
  written : List α := []

namespace ClientConn

variable {α : Type*} (c : ClientConn α)

/-- `shutdown`. -/
def shutdown : ClientConn α :=
  if c.stopOnce then c else { c with stopOnce := true, stop := c.stop.close }

/-- What the pump does next. -/
inductive PumpEvent where
  | receive
  | tick
  | stop
  | ctxDone
  /-- The call on the connection returns. -/
  | returned (ok : Bool)
  /-- The deferred `close(cl.done)`. -/
  | finish
  deriving DecidableEq, Repr

/-- `writePump`. When several cases of the select are ready, Go takes any of them. A call on a
closed connection fails. -/
def pumpStep (cancelled : Finset Nat) : PumpEvent → Option (ClientConn α)
  | .receive =>
    match c.pump with
    | .selecting =>
      c.sendCh.receive.map fun (msg, q) => { c with sendCh := q, pump := .writing msg }
    | _ => none
  | .tick =>
    match c.pump with
    | .selecting => some { c with pump := .pinging }
    | _ => none
  | .stop =>
    match c.pump with
    | .selecting => if c.stop.closed then some { c with pump := .leaving none } else none
    | _ => none
  | .ctxDone =>
    match c.pump with
    | .selecting => if c.ctx ∈ cancelled then some { c with pump := .leaving none } else none
    | _ => none
  | .returned ok =>
    if ok && c.connClosed then none
    else
      match c.pump with
      | .writing msg =>
        if ok then some { c with written := c.written ++ [msg], pump := .selecting }
        else some { c with pump := .leaving (some msg) }
      | .pinging => some { c with pump := if ok then .selecting else .leaving none }
      | _ => none
  | .finish =>
    match c.pump with
    | .leaving lost => some { c with pump := .exited lost, done := c.done.close }
    | _ => none

/-! ### What holds of one client -/

/-- What holds of one client, given what went into its queue. -/
structure Inv (c : ClientConn α) (accepted : List α) : Prop where
  /-- Nothing is lost, doubled or moved between `enqueue` and the wire. -/
  delivery : accepted = c.written ++ c.pump.inHand ++ c.sendCh.items
  stop : c.stop.closes = c.stopOnce.toNat
  done : c.done.closes = c.pump.isExited.toNat
  unstarted : c.pump = .unstarted ↔ c.handler.beforePump = true
  /-- Nobody asks a pump to leave before its client is registered. -/
  stopOnce : c.stopOnce = true → c.handler ≠ .upgraded
  shut : c.handler.afterShutdown = true → c.stopOnce = true
  ended : c.handler = .ended → c.pump.isExited = true

/-- What a client can become: a registered one stays registered, a pump that was asked to leave
stays asked, and one that has left writes nothing more. -/
structure Later (c c' : ClientConn α) : Prop where
  registered : c.handler ≠ .upgraded → c'.handler ≠ .upgraded
  asked : c.stopOnce = true → c'.stopOnce = true
  frozen : c.pump.isExited = true → c'.pump = c.pump ∧ c'.written = c.written

variable {c : ClientConn α}

theorem Later.refl (c : ClientConn α) : c.Later c := ⟨id, id, fun _ => ⟨rfl, rfl⟩⟩

theorem Later.trans {c₁ c₂ c₃ : ClientConn α} (h : c₁.Later c₂) (h' : c₂.Later c₃) :
    c₁.Later c₃ where
  registered := h'.registered ∘ h.registered
  asked := h'.asked ∘ h.asked
  frozen hexited := by
    obtain ⟨hpump, hwritten⟩ := h.frozen hexited
    obtain ⟨hpump', hwritten'⟩ := h'.frozen (hpump ▸ hexited)
    exact ⟨hpump'.trans hpump, hwritten'.trans hwritten⟩

theorem inv_new : (({} : ClientConn α)).Inv [] where
  delivery := rfl
  stop := rfl
  done := rfl
  unstarted := iff_of_true rfl rfl
  stopOnce := nofun
  shut := nofun
  ended := nofun

/-- The handler moves on within the part of its code in which the pump runs. -/
theorem Inv.handler {accepted : List α} (h : c.Inv accepted) {pc : HandlerPc α}
    (hpump : pc.beforePump = c.handler.beforePump) (hpc : pc ≠ .upgraded)
    (hshut : pc.afterShutdown = true → c.stopOnce = true)
    (hended : pc = .ended → c.pump.isExited = true) : ({ c with handler := pc }).Inv accepted where
  delivery := h.delivery
  stop := h.stop
  done := h.done
  unstarted := by
    show c.pump = .unstarted ↔ pc.beforePump = true
    rw [hpump]
    exact h.unstarted
  stopOnce _ := hpc
  shut := hshut
  ended := hended

theorem Inv.shutdown {accepted : List α} (h : c.Inv accepted) (hpc : c.handler ≠ .upgraded) :
    c.shutdown.Inv accepted := by
  unfold ClientConn.shutdown
  split
  · exact h
  · next honce =>
    have hstop := h.stop
    rw [Bool.not_eq_true] at honce
    rw [honce] at hstop
    exact { h with
      stop := by
        show c.stop.closes + 1 = 1
        rw [hstop]
        rfl
      stopOnce := fun _ => hpc
      shut := fun _ => rfl }

theorem later_shutdown (c : ClientConn α) : c.Later c.shutdown := by
  unfold ClientConn.shutdown
  split
  · exact Later.refl c
  · exact ⟨id, fun _ => rfl, fun _ => ⟨rfl, rfl⟩⟩

@[simp] theorem shutdown_stopOnce (c : ClientConn α) : c.shutdown.stopOnce = true := by
  unfold ClientConn.shutdown
  split
  · assumption
  · rfl

@[simp] theorem shutdown_handler (c : ClientConn α) : c.shutdown.handler = c.handler := by
  unfold ClientConn.shutdown
  split <;> rfl

@[simp] theorem shutdown_pump (c : ClientConn α) : c.shutdown.pump = c.pump := by
  unfold ClientConn.shutdown
  split <;> rfl

theorem Inv.offer {accepted : List α} (h : c.Inv accepted) {msg : α} {q : SendQueue α}
    (hq : c.sendCh.offer msg = some q) : ({ c with sendCh := q }).Inv (accepted ++ [msg]) :=
  { h with
    delivery := by
      rw [h.delivery, SendQueue.items_of_offer hq]
      simp }

/-- What a step of the pump can be: it moves between its start and its end, or it ends. -/
inductive PumpMove (c : ClientConn α) : ClientConn α → Prop where
  | move (pc : PumpPc α) (q : SendQueue α) (written : List α) (hbefore : c.pump.running = true)
      (hafter : pc.running = true)
      (hdelivery : written ++ pc.inHand ++ q.items = c.written ++ c.pump.inHand ++ c.sendCh.items) :
      PumpMove c { c with pump := pc, sendCh := q, written := written }
  | finish (lost : Option α) (hpump : c.pump = .leaving lost) :
      PumpMove c { c with pump := .exited lost, done := c.done.close }

theorem pumpStep_moves {c' : ClientConn α} {cancelled : Finset Nat} {e : PumpEvent}
    (h : c.pumpStep cancelled e = some c') : c.PumpMove c' := by
  -- a move that leaves the queue and the wire alone
  have hstay : ∀ {pc : PumpPc α}, c.pump.running = true → pc.running = true →
      pc.inHand = c.pump.inHand → c.PumpMove { c with pump := pc } :=
    fun hbefore hafter hhand => .move _ c.sendCh c.written hbefore hafter (by rw [hhand])
  cases e with
  | receive =>
    simp only [pumpStep] at h
    split at h
    · next hpc =>
      obtain ⟨⟨msg, q⟩, hq, rfl⟩ := Option.map_eq_some_iff.mp h
      refine .move (.writing msg) q c.written (by rw [hpc]; rfl) rfl ?_
      rw [SendQueue.items_of_receive hq, hpc]
      simp [PumpPc.inHand]
    · cases h
  | tick =>
    simp only [pumpStep] at h
    split at h
    · next hpc =>
      cases h
      exact hstay (by rw [hpc]; rfl) rfl (by rw [hpc]; rfl)
    · cases h
  | stop | ctxDone =>
    simp only [pumpStep] at h
    split at h
    · next hpc =>
      split at h
      · cases h
        exact hstay (by rw [hpc]; rfl) rfl (by rw [hpc]; rfl)
      · cases h
    · cases h
  | returned ok =>
    simp only [pumpStep] at h
    split at h
    · cases h
    · split at h
      · next msg hpc =>
        cases ok with
        | true =>
          cases h
          refine .move .selecting c.sendCh (c.written ++ [msg]) (by rw [hpc]; rfl) rfl ?_
          simp [hpc, PumpPc.inHand]
        | false =>
          cases h
          exact hstay (by rw [hpc]; rfl) rfl (by rw [hpc]; rfl)
      · next hpc =>
        cases h
        cases ok <;> exact hstay (by rw [hpc]; rfl) rfl (by rw [hpc]; rfl)
      · cases h
  | finish =>
    simp only [pumpStep] at h
    split at h
    · next lost hpc =>
      cases h
      exact .finish lost hpc
    · cases h

theorem Inv.pump {accepted : List α} (h : c.Inv accepted) {c' : ClientConn α}
    (hmove : c.PumpMove c') : c'.Inv accepted := by
  cases hmove with
  | move pc q written hbefore hafter hdelivery =>
    have hexited := PumpPc.isExited_of_running hbefore
    have hstarted : ¬c.handler.beforePump = true := by
      intro hpc
      rw [h.unstarted.mpr hpc] at hbefore
      cases hbefore
    exact { h with
      delivery := h.delivery.trans hdelivery.symm
      done := by
        show c.done.closes = pc.isExited.toNat
        rw [h.done, hexited, PumpPc.isExited_of_running hafter]
      unstarted := by
        refine iff_of_false (fun hpc => ?_) hstarted
        rw [show pc = .unstarted from hpc] at hafter
        cases hafter
      ended := fun hpc => by
        have := h.ended hpc
        rw [hexited] at this
        cases this }
  | finish lost hpump =>
    have hdone := h.done
    have hstarted := h.unstarted
    rw [hpump] at hdone hstarted
    exact { h with
      delivery := by
        have := h.delivery
        rwa [hpump] at this
      done := by
        show c.done.closes + 1 = 1
        rw [hdone]
        rfl
      unstarted := iff_of_false (by simp) fun hpc => by simpa using hstarted.mpr hpc
      ended := fun _ => rfl }

theorem PumpMove.later {c' : ClientConn α} (hmove : c.PumpMove c') : c.Later c' := by
  cases hmove with
  | move _ _ _ hbefore _ _ =>
    refine ⟨id, id, fun hout => ?_⟩
    rw [PumpPc.isExited_of_running hbefore] at hout
    cases hout
  | finish lost hpump =>
    refine ⟨id, id, fun hout => ?_⟩
    rw [hpump] at hout
    cases hout

theorem PumpMove.handler_eq {c' : ClientConn α} (hmove : c.PumpMove c') :
    c'.handler = c.handler := by
  cases hmove <;> rfl

end ClientConn

/-! ## The server -/

/-- A call of `enqueue`, and whether the message went into the queue. -/
structure Offer (α : Type*) where
  conn : ConnID
  msg : α
  queued : Bool
  deriving DecidableEq, Repr

/-- The messages that went into the queue of client `i`, oldest first. -/
def acceptedBy {α : Type*} (i : ConnID) (log : List (Offer α)) : List α :=
  log.filterMap fun o => if o.conn = i ∧ o.queued then some o.msg else none

theorem acceptedBy_append {α : Type*} (i : ConnID) (log : List (Offer α)) (o : Offer α) :
    acceptedBy i (log ++ [o])
      = acceptedBy i log ++ if o.conn = i ∧ o.queued then [o.msg] else [] := by
  unfold acceptedBy
  rw [List.filterMap_append]
  congr 1
  split
  · next hi => simp [hi]
  · next hi => simpa using hi

/-- What `closeClients` does next to the client it is at. -/
inductive CloseStage where
  | shutdown
  | connClose
  | wait
  deriving DecidableEq, Repr

/-- The part of the server that is about sending. A connection that has not come yet is
`upgraded`. -/
structure Pumps (α : Type*) where
  conns : ConnID → ClientConn α := fun _ => {}
  /-- The keys of `clients`. -/
  clients : Finset ConnID := ∅
  /-- For each round of a broadcast its message and the clients it has not sent to yet. -/
  rounds : List (α × List ConnID) := []
  /-- For each call of `closeClients` the clients that it is not through with. -/
  closing : List (CloseStage × List ConnID) := []
  broadcastDropped : Nat := 0
  /-- `s.httpServer` is not nil. -/
  started : Bool := false
  /-- `s.ctx`; 0 is nil. -/
  ctx : Nat := 0
  cancelled : Finset Nat := ∅
  /-- The calls of `enqueue`; read by no step. -/
  log : List (Offer α) := []
  /-- The clients that some call of `closeClients` has waited for; read by no step. -/
  joined : List ConnID := []

namespace Pumps

variable {α : Type*}

inductive HandlerEvent (α : Type*) where
  /-- The only thing the handler can do. -/
  | next
  /-- The handler sends: the initial state, or the answer to a message. -/
  | send (msg : α)
  /-- The handler returns. -/
  | leave

inductive Label (α : Type*) where
  | handler (i : ConnID) (e : HandlerEvent α)
  | pump (i : ConnID) (e : ClientConn.PumpEvent)
  /-- `broadcastLoop` takes the clients out of the map, in the order `order`. -/
  | broadcast (msg : α) (order : List ConnID)
  /-- The `k`-th round sends to its next client. -/
  | enqueue (k : Nat)
  /-- `closeClients` empties the map, over which it goes in the order `order`. -/
  | closeClients (order : List ConnID)
  /-- The next step of the `k`-th call of `closeClients`. -/
  | closeNext (k : Nat)
  /-- `Start` makes a context. -/
  | start
  /-- `Shutdown` cancels it. -/
  | cancel

/-- The steps of the two goroutines of connection `i`. -/
def Label.ofConn (i : ConnID) : Label α → Prop
  | handler j _ | pump j _ => j = i
  | broadcast _ _ | enqueue _ | closeClients _ | closeNext _ | start | cancel => False

variable (s : Pumps α)

def setConn (i : ConnID) (c : ClientConn α) : Pumps α :=
  { s with conns := Function.update s.conns i c }

/-- `enqueue` to a client that is not nil. -/
def enqueue (i : ConnID) (msg : α) : Pumps α :=
  match (s.conns i).sendCh.offer msg with
  | some q =>
    { s.setConn i { s.conns i with sendCh := q } with log := s.log ++ [⟨i, msg, true⟩] }
  | none =>
    { s with broadcastDropped := s.broadcastDropped + 1, log := s.log ++ [⟨i, msg, false⟩] }

/-- The next step of handler `i`, which is at `pc`. -/
def handlerStep (i : ConnID) (e : HandlerEvent α) : HandlerPc α → Option (Pumps α)
  | .serving =>
    match e with
    | .send msg =>
      some (s.setConn i { s.conns i with handler := .sending msg (decide (i ∈ s.clients)) })
    | .leave => some (s.setConn i { s.conns i with handler := .closing })
    | .next => none
  | .upgraded =>
    some ({ s with clients := insert i s.clients }.setConn i
      { s.conns i with handler := .registered })
  | .registered =>
    some (s.setConn i { s.conns i with handler := .serving, pump := .selecting, ctx := s.ctx })
  | .sending msg present =>
    let back := s.setConn i { s.conns i with handler := .serving }
    some (if present then back.enqueue i msg else back)
  | .closing =>
    some (s.setConn i { s.conns i with handler := .unregistering, connClosed := true })
  | .unregistering =>
    some ({ s with clients := s.clients.erase i }.setConn i
      { s.conns i with handler := .shuttingDown })
  | .shuttingDown => some (s.setConn i { (s.conns i).shutdown with handler := .waiting })
  | .waiting =>
    if (s.conns i).done.closed then some (s.setConn i { s.conns i with handler := .ended })
    else none
  | .ended => none

/-- The next step of the `k`-th call of `closeClients`, which is at client `i`. -/
def closeStep (k : Nat) (i : ConnID) (rest : List ConnID) : CloseStage → Option (Pumps α)
  | .shutdown =>
    some ({ s with closing := s.closing.set k (.connClose, i :: rest) }.setConn i
      (s.conns i).shutdown)
  | .connClose =>
    some ({ s with closing := s.closing.set k (.wait, i :: rest) }.setConn i
      { s.conns i with connClosed := true })
  | .wait =>
    if (s.conns i).done.closed then
      some { s with closing := s.closing.set k (.shutdown, rest), joined := s.joined ++ [i] }
    else none

/-- One step. -/
def step : Label α → Option (Pumps α)
  | .handler i e => s.handlerStep i e (s.conns i).handler
  | .pump i e => ((s.conns i).pumpStep s.cancelled e).map (s.setConn i)
  | .broadcast msg order =>
    if order.Nodup ∧ order.toFinset = s.clients then
      some { s with rounds := s.rounds ++ [(msg, order)] }
    else none
  | .enqueue k =>
    match s.rounds[k]? with
    | some (msg, i :: rest) => some ({ s with rounds := s.rounds.set k (msg, rest) }.enqueue i msg)
    | _ => none
  | .closeClients order =>
    if order.Nodup ∧ order.toFinset = s.clients then
      some { s with clients := ∅, closing := s.closing ++ [(.shutdown, order)] }
    else none
  | .closeNext k =>
    match s.closing[k]? with
    | some (stage, i :: rest) => s.closeStep k i rest stage
    | _ => none
  | .start => if s.started then none else some { s with started := true, ctx := s.ctx + 1 }
  | .cancel =>
    if s.started then some { s with started := false, cancelled := insert s.ctx s.cancelled }
    else none

/-- `NewServerWithConfig`. -/
def new : Pumps α := {}

end Pumps

end GreenThreads.Web
