import GreenThreads.Sync.Calls
import GreenThreads.Lib.Trans

/-!
# GreenThreads — `FiberChannel` (`internal/sync/channel.go`)

The critical sections of `FiberChannel` over an arbitrary value type `V`, then the system of
any number of calls on one channel. A section says what the channel becomes, what the calling
operation gets (`own`, `none` when it parks) and whose `ready` channels it closes over which
results (`woken`).
-/

namespace GreenThreads.Sync

/-- `type channelSender struct`. -/
structure ChannelSender (V : Type*) where
  call : Nat
  fiber : FiberRef
  value : V
  deriving DecidableEq, Repr

/-- `type FiberChannel struct`. -/
structure FiberChannel (V : Type*) where
  buffer : List V
  capacity : Nat
  closed : Bool
  senders : List (ChannelSender V)
  receivers : List Waiter
  deriving DecidableEq, Repr

namespace Channel

/-- How an operation ends. `sent` is a nil error of `Send` and `SendCtx` and `(true, nil)` of
`TrySend`; `received` is a value with a nil error, or with `true` from `TryReceive`; `notReady`
is `(false, nil)` of `TrySend` and `(nil, false)` of `TryReceive`. -/
inductive Result (V : Type*) where
  | sent
  | received (v : V)
  | closed
  | notReady
  | ctxErr
  | err (msg : String)
  deriving DecidableEq, Repr

/-- What a critical section hands back. -/
structure Outcome (V : Type*) where
  own : Option (Result V)
  woken : List (Nat × Result V)
  deriving DecidableEq, Repr

end Channel

namespace FiberChannel

open Channel

variable {V : Type*}

/-- `NewFiberChannel`: a negative capacity counts as zero. -/
def new (capacity : Int) : FiberChannel V := ⟨[], capacity.toNat, false, [], []⟩

/-- The section `Send` and `SendCtx` open with, for the call `c`. -/
def send (fc : FiberChannel V) (c : Nat) (value : V) (currentFiber : Option FiberRef) :
    FiberChannel V × Outcome V :=
  if fc.closed then (fc, ⟨some .closed, []⟩)
  else match fc.receivers with
    | receiver :: rest =>
      -- handed over directly, past the buffer
      ({ fc with receivers := rest }, ⟨some .sent, [(receiver.call, .received value)]⟩)
    | [] =>
      if fc.buffer.length < fc.capacity then
        ({ fc with buffer := fc.buffer ++ [value] }, ⟨some .sent, []⟩)
      else match currentFiber with
        | none => (fc, ⟨some (.err "blocking send requires a current fiber"), []⟩)
        | some f => ({ fc with senders := fc.senders ++ [⟨c, f, value⟩] }, ⟨none, []⟩)

/-- `TrySend`. -/
def trySend (fc : FiberChannel V) (value : V) : FiberChannel V × Outcome V :=
  if fc.closed then (fc, ⟨some .closed, []⟩)
  else match fc.receivers with
    | receiver :: rest =>
      ({ fc with receivers := rest }, ⟨some .sent, [(receiver.call, .received value)]⟩)
    | [] =>
      if fc.buffer.length ≥ fc.capacity then (fc, ⟨some .notReady, []⟩)
      else ({ fc with buffer := fc.buffer ++ [value] }, ⟨some .sent, []⟩)

/-- `admitSenderLocked`: the oldest parked sender fills a free slot. -/
def admitSenderLocked (fc : FiberChannel V) : FiberChannel V × List (Nat × Result V) :=
  match fc.senders with
  | [] => (fc, [])
  | sender :: rest =>
    if fc.closed ∨ fc.buffer.length ≥ fc.capacity then (fc, [])
    else ({ fc with senders := rest, buffer := fc.buffer ++ [sender.value] },
      [(sender.call, .sent)])

/-- The value `Receive`, `ReceiveCtx` and `TryReceive` can have at once: the oldest buffered
one, whose slot is then refilled, or that of the oldest parked sender. -/
def takeNow (fc : FiberChannel V) : Option (FiberChannel V × Outcome V) :=
  match fc.buffer with
  | value :: rest =>
    let (fc', woken) := admitSenderLocked { fc with buffer := rest }
    some (fc', ⟨some (.received value), woken⟩)
  | [] =>
    match fc.senders with
    | sender :: rest =>
      some ({ fc with senders := rest }, ⟨some (.received sender.value), [(sender.call, .sent)]⟩)
    | [] => none

/-- The section `Receive` and `ReceiveCtx` open with, for the call `c`. -/
def receive (fc : FiberChannel V) (c : Nat) (currentFiber : Option FiberRef) :
    FiberChannel V × Outcome V :=
  match fc.takeNow with
  | some res => res
  | none =>
    -- only now: what was buffered before `Close` is still delivered
    if fc.closed then (fc, ⟨some .closed, []⟩)
    else match currentFiber with
      | none => (fc, ⟨some (.err "blocking receive requires a current fiber"), []⟩)
      | some f => ({ fc with receivers := fc.receivers ++ [⟨c, f⟩] }, ⟨none, []⟩)

/-- `TryReceive`. -/
def tryReceive (fc : FiberChannel V) : FiberChannel V × Outcome V :=
  match fc.takeNow with
  | some res => res
  | none => (fc, ⟨some .notReady, []⟩)

/-- `Close`; the second component lists the records it wakes. -/
def close (fc : FiberChannel V) : FiberChannel V × List (Nat × Result V) :=
  if fc.closed then (fc, [])
  else ({ fc with closed := true, receivers := [], senders := [] },
    fc.receivers.map (fun receiver => (receiver.call, .closed)) ++
      fc.senders.map (fun sender => (sender.call, .closed)))

/-- `removeSenderLocked`. -/
def removeSenderLocked (fc : FiberChannel V) (c : Nat) : FiberChannel V :=
  { fc with senders := removeWaiter ChannelSender.call fc.senders c }

/-- `removeReceiverLocked`. -/
def removeReceiverLocked (fc : FiberChannel V) (c : Nat) : FiberChannel V :=
  { fc with receivers := removeWaiter Waiter.call fc.receivers c }

end FiberChannel

namespace Channel

variable {V : Type*}

/-! ## Calls on one channel -/

/-- The operations, with the value sent and the fiber they are called for (`none`: nil). -/
inductive Op (V : Type*) where
  | send (value : V) (f : Option FiberRef)
  | sendCtx (value : V) (f : Option FiberRef)
  | trySend (value : V)
  | receive (f : Option FiberRef)
  | receiveCtx (f : Option FiberRef)
  | tryReceive
  deriving DecidableEq, Repr

/-- The value a send carries. -/
def Op.value? : Op V → Option V
  | .send v _ | .sendCtx v _ | .trySend v => some v
  | _ => none

def Op.sends (op : Op V) : Bool := op.value?.isSome

def Op.receives (op : Op V) : Bool := !op.sends

def Result.value? : Result V → Option V
  | .received v => some v
  | _ => none

def Result.isSent : Result V → Bool
  | .sent => true
  | _ => false

def Result.isReceived (r : Result V) : Bool := r.value?.isSome

/-- The results of a parked call that got nothing. -/
def Result.isGone : Result V → Bool
  | .ctxErr | .closed => true
  | _ => false

/-- One channel and the history of its use: the sends that were accepted or parked, in arrival
order; the values handed to receive operations, in hand-out order and with the call that got
each; and the calls whose `ready` channel was closed, once for each `close(ready)`. -/
structure Sys (V : Type*) where
  fc : FiberChannel V
  calls : Calls (Op V) (Result V)
  arrived : List Nat
  handed : List (Nat × V)
  closes : List Nat
  deriving DecidableEq, Repr

/-- A new channel nobody has called yet. -/
def init (capacity : Int) : Sys V := ⟨.new capacity, [], [], [], []⟩

/-- A step: a call's first section, a `Close`, or a parked call leaving its wait. -/
inductive Label (V : Type*) where
  | call (op : Op V)
  | close
  | resume (c : Nat)
  | cancel (c : Nat)
  deriving DecidableEq, Repr

/-- The values among some results, with the calls that got them. -/
def deliveries (rs : List (Nat × Result V)) : List (Nat × V) :=
  rs.filterMap fun p => p.2.value?.map (p.1, ·)

/-- Record the first section of a call. -/
def Sys.record (s : Sys V) (op : Op V) (res : FiberChannel V × Outcome V) : Sys V where
  fc := res.1
  calls := Calls.wakeEach (s.calls ++ [⟨op, res.2.own.elim .parked .returned⟩]) res.2.woken
  arrived := if op.sends && res.2.own.all Result.isSent then s.arrived ++ [s.calls.length]
    else s.arrived
  handed := s.handed ++
    deliveries (res.2.own.toList.map (s.calls.length, ·) ++ res.2.woken)
  closes := s.closes ++ res.2.woken.map Prod.fst

/-- The first section of a call. -/
def Sys.enter (s : Sys V) (op : Op V) : Sys V :=
  s.record op <| match op with
    | .send value f => s.fc.send s.calls.length value f
    | .sendCtx value f => s.fc.send s.calls.length value f
    | .trySend value => s.fc.trySend value
    | .receive f => s.fc.receive s.calls.length f
    | .receiveCtx f => s.fc.receive s.calls.length f
    | .tryReceive => s.fc.tryReceive

/-- `Close`. -/
def Sys.close (s : Sys V) : Sys V :=
  { s with
    fc := s.fc.close.1
    calls := s.calls.wakeEach s.fc.close.2
    closes := s.closes ++ s.fc.close.2.map Prod.fst }

/-- `<-waiter.ready`, alone or as an arm of the `select` in `SendCtx` and `ReceiveCtx`. -/
def Sys.resume (s : Sys V) (c : Nat) : Option (Sys V) :=
  match s.calls.phaseOf c with
  | some (.woken r) => some { s with calls := s.calls.setPhase c (.returned r) }
  | _ => none

/-- The `ctx.Done()` arm of the `select`: re-check `ready` under the lock, and leave the queue
only if it is still open. -/
def Sys.cancel (s : Sys V) (c : Nat) : Option (Sys V) :=
  match s.calls.opOf c, s.calls.phaseOf c with
  | some (.sendCtx _ _), some (.woken r) | some (.receiveCtx _), some (.woken r) =>
    some { s with calls := s.calls.setPhase c (.returned r) }
  | some (.sendCtx _ _), some .parked =>
    some { s with
      fc := s.fc.removeSenderLocked c
      calls := s.calls.setPhase c (.returned .ctxErr) }
  | some (.receiveCtx _), some .parked =>
    some { s with
      fc := s.fc.removeReceiverLocked c
      calls := s.calls.setPhase c (.returned .ctxErr) }
  | _, _ => none

/-- One critical section. -/
def step (s : Sys V) : Label V → Option (Sys V)
  | .call op => some (s.enter op)
  | .close => some s.close
  | .resume c => s.resume c
  | .cancel c => s.cancel c

/-- The states some run of operations and cancellations on a channel of that capacity ends
in. -/
def Reachable (capacity : Int) : Sys V → Prop := Trans.Reach step Trans.anyStep (init capacity)

end Channel

end GreenThreads.Sync
