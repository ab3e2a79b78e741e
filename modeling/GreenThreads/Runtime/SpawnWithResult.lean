import GreenThreads.Runtime.Callers

/-!
# GreenThreads — spawning for a result (`SpawnWithResult` of `internal/runtime/spawn_ext.go`)

`SpawnWithResult` makes a channel with room for one value and spawns `func() { ch <- fn() }`. The
send comes after the call of `fn`, so that a panic goes past it: it is recovered in `Run`, outside
the closure, where nobody knows of the channel.

* `ResultState` — a runtime, and the `SpawnWithResult` calls on it with their closures and channels;
* `ResultCall.Ok` — what the channel of a call has received, by where its closure is;
* `result_delivered_iff` — the channel of a completed fiber has received its one value exactly if
  `fn` has returned.
-/

namespace GreenThreads.Runtime

open Trans

/-! ## The calls -/

/-- How a call of `fn` ends. A value of type `interface{}` is nil or an `α`; a nil `fn` is one that
panics. -/
inductive FnEnding (α : Type) where
  | returned (v : Option α)
  | panicked
  | goexit
  deriving DecidableEq, Repr

/-- The value that the channel is to receive. -/
def FnEnding.value {α : Type} : FnEnding α → Option α
  | returned v => v
  | panicked | goexit => none

/-- Where the closure is: before or inside `fn`, at the send, or left. -/
inductive ClosurePc (α : Type) where
  | fn
  | send (v : Option α)
  | left (e : FnEnding α)
  deriving DecidableEq, Repr

/-- Where the closure goes when `fn` ends. -/
def FnEnding.next {α : Type} : FnEnding α → ClosurePc α
  | returned v => .send v
  | panicked => .left .panicked
  | goexit => .left .goexit

/-- `make(chan interface{}, 1)`: the values in its buffer, and those that have been taken out. -/
structure ResultChan (α : Type) where
  buf : List (Option α) := []
  taken : List (Option α) := []
  deriving DecidableEq, Repr

namespace ResultChan

variable {α : Type} (ch : ResultChan α)

/-- Everything that was ever sent. -/
def sent : List (Option α) := ch.taken ++ ch.buf

/-- `ch <- v`, which waits while the buffer is full. -/
def send (v : Option α) : Option (ResultChan α) :=
  if ch.buf.length < 1 then some { ch with buf := ch.buf ++ [v] } else none

/-- `<-ch`, which waits while the buffer is empty. -/
def receive : Option (ResultChan α) :=
  match ch.buf with
  | [] => none
  | v :: buf => some ⟨buf, ch.taken ++ [v]⟩

end ResultChan

/-- A `SpawnWithResult` call with its closure and its channel. -/
structure ResultCall (α : Type) extends SpawnCall where
  closure : ClosurePc α := .fn
  ch : ResultChan α := {}

inductive ResultLabel (α : Type) where
  /-- A new `SpawnWithResult` call, with a name of this length: `make`, and the call of
  `rt.Spawn`. -/
  | call (nameLen : Nat)
  /-- `rt.Spawn` returns to call `j`. -/
  | ret (j : Nat)
  /-- The function of call `j` ends. -/
  | ends (j : Nat) (e : FnEnding α)
  | send (j : Nat)
  /-- Somebody receives from the channel of call `j`. -/
  | receive (j : Nat)
  | runtime (l : Label)

/-- The closure has been left by a return or a panic. -/
def ClosurePc.finished {α : Type} : ClosurePc α → Bool
  | left (.returned _) | left .panicked => true
  | _ => false

/-- The closure has been left by `runtime.Goexit`. -/
def ClosurePc.exited {α : Type} : ClosurePc α → Bool
  | left .goexit => true
  | _ => false

instance {α : Type} : Caller (ResultCall α) where
  init := {}
  entered k := k.toSpawnCall.entered
  fiber k := k.fiber
  returned k := k.closure.finished
  exited k := k.closure.exited
  entered_init := rfl

/-- A runtime and the `SpawnWithResult` calls on it. -/
abbrev ResultState (α : Type) := Callers (ResultCall α) Unit

namespace ResultState

variable {α : Type} (c : Config) (g : ResultState α)

def new (rt : State) : ResultState α := Callers.new rt ()

def newCall (nameLen : Nat) : ResultState α :=
  { g with calls := g.calls + 1 }.enter g.calls nameLen { pc := .inside, fiber := g.rt.calls }

def retStep (j : Nat) : Option (ResultState α) :=
  ((g.call j).ret g.rt).map fun k => g.setCall j { g.call j with toSpawnCall := k }

def endsStep (j : Nat) (e : FnEnding α) : Option (ResultState α) :=
  match (g.call j).closure with
  | .fn => if g.InClosure j then some (g.setCall j { g.call j with closure := e.next }) else none
  | _ => none

def sendStep (j : Nat) : Option (ResultState α) :=
  match (g.call j).closure with
  | .send v =>
    if g.InClosure j then
      ((g.call j).ch.send v).map fun ch =>
        g.setCall j { g.call j with closure := .left (.returned v), ch := ch }
    else none
  | _ => none

/-- The channel is known to others once the call has returned it. -/
def receiveStep (j : Nat) : Option (ResultState α) :=
  match (g.call j).pc with
  | .returned (.ok _) =>
    (g.call j).ch.receive.map fun ch => g.setCall j { g.call j with ch := ch }
  | _ => none

/-- One step of the system. -/
def step : ResultLabel α → Option (ResultState α)
  | .call nameLen => some (g.newCall nameLen)
  | .ret j => g.retStep j
  | .ends j e => g.endsStep j e
  | .send j => g.sendStep j
  | .receive j => g.receiveStep j
  | .runtime l => g.runtimeStep c l

end ResultState

/-! ## What has been sent -/

/-- What the closure has sent. -/
def ClosurePc.sends {α : Type} : ClosurePc α → List (Option α)
  | left (.returned v) => [v]
  | _ => []

theorem FnEnding.sends_next {α : Type} (e : FnEnding α) : e.next.sends = [] := by
  cases e <;> rfl

theorem ResultCall.exists_left {α : Type} {k : ResultCall α} (h : Caller.left k = true) :
    ∃ e, k.closure = .left e := by
  have hleft : (k.closure.finished || k.closure.exited) = true := h
  cases hpc : k.closure with
  | fn | send =>
    rw [hpc] at hleft
    cases hleft
  | left e => exact ⟨e, rfl⟩

theorem ResultChan.sent_send {α : Type} {ch ch' : ResultChan α} {v : Option α}
    (h : ch.send v = some ch') : ch'.sent = ch.sent ++ [v] := by
  unfold send at h
  split_ifs at h
  cases h
  simp [sent]

theorem ResultChan.sent_receive {α : Type} {ch ch' : ResultChan α}
    (h : ch.receive = some ch') : ch'.sent = ch.sent := by
  unfold receive at h
  split at h <;> rename_i hbuf <;> cases h
  simp [sent, hbuf]

/-- What holds of a call: its channel has received what its closure has sent. -/
structure ResultCall.Ok {α : Type} (k : ResultCall α) : Prop where
  names : k.Names
  sent : k.ch.sent = k.closure.sends

/-- Every call is in order. -/
structure ResultState.Ok {α : Type} (c : Config) (g : ResultState α) : Prop where
  callers : Callers.Ok c g
  call : ∀ j, (g.call j).entered = true → (g.call j).Ok

namespace ResultState.Ok

variable {α : Type} {c : Config} {g g' : ResultState α} {j : Nat}

/-- Call `j` moves. -/
theorem setCall {k : ResultCall α} (hg : g.Ok c) (hj : (g.call j).entered = true)
    (hfiber : k.fiber = (g.call j).fiber)
    (hleft : Caller.left (g.call j) = true → Caller.left k = true) (hk : k.Ok) :
    Ok c (g.setCall j k) :=
  ⟨hg.callers.setCall (hg.callers.lt_calls hj) (fun _ => ⟨hj, hfiber⟩) hleft,
    Callers.forall_setCall (P := ResultCall.Ok) hg.call hk⟩

theorem newCall (hg : g.Ok c) (nameLen : Nat) : (g.newCall nameLen).Ok c where
  callers := hg.callers.moreCalls.enter (Nat.lt_succ_self _) (hg.callers.not_entered le_rfl)
    nameLen rfl
  call := Callers.forall_setCall (P := ResultCall.Ok) hg.call ⟨nofun, rfl⟩

theorem retStep (hg : g.Ok c) (h : g.retStep j = some g') : g'.Ok c := by
  obtain ⟨k, hk, rfl⟩ := Option.map_eq_some_iff.mp h
  obtain ⟨hj, -, hfiber, hnames⟩ := SpawnCall.ret_eq hk
  exact hg.setCall hj hfiber id ⟨hnames, (hg.call j hj).sent⟩

theorem endsStep {e : FnEnding α} (hg : g.Ok c) (h : g.endsStep j e = some g') : g'.Ok c := by
  unfold ResultState.endsStep at h
  cases hpc : (g.call j).closure with
  | send | left => simp [hpc] at h
  | fn =>
    simp only [hpc] at h
    split_ifs at h with hin
    cases h
    have hk := hg.call j hin.1
    refine hg.setCall hin.1 rfl (fun hleft => ?_) ⟨hk.names, ?_⟩
    · obtain ⟨e, hleft⟩ := ResultCall.exists_left hleft
      cases hpc.symm.trans hleft
    · rw [e.sends_next, hk.sent, hpc]
      rfl

theorem sendStep (hg : g.Ok c) (h : g.sendStep j = some g') : g'.Ok c := by
  unfold ResultState.sendStep at h
  cases hpc : (g.call j).closure with
  | fn | left => simp [hpc] at h
  | send v =>
    simp only [hpc] at h
    split_ifs at h with hin
    obtain ⟨ch, hch, rfl⟩ := Option.map_eq_some_iff.mp h
    have hk := hg.call j hin.1
    refine hg.setCall hin.1 rfl (fun _ => rfl) ⟨hk.names, ?_⟩
    rw [ResultChan.sent_send hch, hk.sent, hpc]
    rfl

theorem receiveStep (hg : g.Ok c) (h : g.receiveStep j = some g') : g'.Ok c := by
  unfold ResultState.receiveStep at h
  split at h
  · next f hpc =>
    obtain ⟨ch, hch, rfl⟩ := Option.map_eq_some_iff.mp h
    have hj : (g.call j).entered = true := by simp [SpawnCall.entered, hpc]
    have hk := hg.call j hj
    refine hg.setCall hj rfl id ⟨hk.names, ?_⟩
    rw [ResultChan.sent_receive hch, hk.sent]
  · cases h

theorem step {l : ResultLabel α} (hg : g.Ok c) (h : ResultState.step c g l = some g') :
    g'.Ok c := by
  cases l with
  | call nameLen =>
    cases h
    exact hg.newCall nameLen
  | ret j => exact hg.retStep h
  | ends j e => exact hg.endsStep h
  | send j => exact hg.sendStep h
  | receive j => exact hg.receiveStep h
  | runtime l =>
    obtain ⟨hallow, rt, hrt, rfl⟩ := Callers.runtimeStep_eq h
    exact ⟨hg.callers.runtime hrt hallow, hg.call⟩

theorem new {s : State} (hs : s.Sound c) : (ResultState.new s : ResultState α).Ok c where
  callers := .new hs _
  call _ := nofun

/-- The closure does not wait at the send: it is the only sender, and has sent nothing before. -/
theorem send_isSome {v : Option α} (hg : g.Ok c) (hin : g.InClosure j)
    (hpc : (g.call j).closure = .send v) : (g.sendStep j).isSome = true := by
  have hsent := (hg.call j hin.1).sent
  rw [hpc] at hsent
  have hbuf : (g.call j).ch.buf = [] := (List.append_eq_nil_iff.mp hsent).2
  simp [ResultState.sendStep, hpc, hin, ResultChan.send, hbuf]

end ResultState.Ok

/-! ## Delivery -/

/-- The channel has received exactly one value: what `fn` returned, or nil if it did not. -/
def ResultCall.Delivered {α : Type} (k : ResultCall α) : Prop :=
  ∃ e, k.closure = .left e ∧ k.ch.sent = [e.value]

theorem ResultCall.Ok.delivered_iff {α : Type} {k : ResultCall α} (hk : k.Ok) :
    k.Delivered ↔ ∃ v, k.closure = .left (.returned v) := by
  constructor
  · -- a closure left by a panic or `Goexit` has sent nothing
    rintro ⟨e, hpc, hsent⟩
    rw [hk.sent, hpc] at hsent
    cases e with
    | returned v => exact ⟨v, hpc⟩
    | panicked | goexit => cases hsent
  · rintro ⟨v, hpc⟩
    refine ⟨.returned v, hpc, ?_⟩
    rw [hk.sent, hpc]
    rfl

/-- **Results.** In every run, for every `SpawnWithResult` call that returned no error and whose
fiber has completed, the closure has been left; and the channel has received exactly the one
value promised if and only if `fn` returned. -/
theorem result_delivered_iff {α : Type} {c : Config} {s₀ : State} {g : ResultState α} {j : Nat}
    {f : FiberID} (h₀ : Initial c s₀) (h : Reach (ResultState.step c) anyStep (.new s₀) g)
    (hret : (g.call j).pc = .returned (.ok f))
    (hdone : (g.rt.threads f).fiber.completion = true) :
    (∃ e, (g.call j).closure = .left e)
      ∧ ((g.call j).Delivered ↔ ∃ v, (g.call j).closure = .left (.returned v)) := by
  have hg : g.Ok c := h.invariant (.new h₀.sound) fun _ _ _ hg _ hst => hg.step hst
  have hj : (g.call j).entered = true := by simp [SpawnCall.entered, hret]
  have hk := hg.call j hj
  refine ⟨ResultCall.exists_left (hg.callers.left j hj ?_), hk.delivered_iff⟩
  obtain rfl := hk.names f hret
  exact (hg.callers.sound.life (g.call j).fiber).fiber.past hdone

/-- The function of the call returns 7, and the caller receives it. -/
theorem result_delivered_iff_received :
    ∃ g : ResultState Nat, Reach (ResultState.step (.ofNewRuntime .fifo 1)) anyStep
        (.new (.new (.ofNewRuntime .fifo 1))) g
      ∧ (g.call 0).pc = .returned (.ok 0) ∧ (g.rt.threads 0).fiber.completion = true
      ∧ (g.call 0).ch.taken = [some 7] ∧ (g.call 0).Delivered := by
  obtain ⟨g, hg, htest⟩ := exists_reach_of_exec
    (ResultState.step (.ofNewRuntime .fifo 1)) (.new (.new (.ofNewRuntime .fifo 1)))
    (List.flatten [Label.startTrace.map .runtime, [.call 0],
      (Label.spawnTrace 0 9).map .runtime, [.ret 0], (Label.dispatchTrace 0).map .runtime,
      [.ends 0 (.returned (some 7)), .send 0, .runtime (.go 0 ∅), .receive 0]])
    (fun g : ResultState Nat => decide ((g.call 0).pc = .returned (.ok 0)
      ∧ (g.rt.threads 0).fiber.completion = true ∧ (g.call 0).ch.taken = [some 7]
      ∧ (g.call 0).closure = .left (.returned (some 7))))
    (by decide +kernel)
  obtain ⟨hret, hdone, htaken, hpc⟩ := of_decide_eq_true htest
  have hiff := (result_delivered_iff (.inl rfl) hg hret hdone).2
  exact ⟨g, hg, hret, hdone, htaken, hiff.mpr ⟨some 7, hpc⟩⟩

/-- The function of the call panics. The call returned no error and the fiber has completed, but
nothing was sent: who waits for the nil waits for good. -/
theorem panicked_not_delivered :
    ∃ g : ResultState Nat, Reach (ResultState.step (.ofNewRuntime .fifo 1)) anyStep
        (.new (.new (.ofNewRuntime .fifo 1))) g
      ∧ (g.call 0).pc = .returned (.ok 0) ∧ (g.rt.threads 0).fiber.completion = true
      ∧ (g.rt.threads 0).go = .ended ∧ (g.call 0).closure = .left .panicked
      ∧ (g.call 0).ch.sent = [] ∧ (g.call 0).ch.receive = none := by
  obtain ⟨g, hg, htest⟩ := exists_reach_of_exec
    (ResultState.step (.ofNewRuntime .fifo 1)) (.new (.new (.ofNewRuntime .fifo 1)))
    (List.flatten [Label.startTrace.map .runtime, [.call 0],
      (Label.spawnTrace 0 9).map .runtime, [.ret 0], (Label.dispatchTrace 0).map .runtime,
      [.ends 0 .panicked], List.replicate 6 (.runtime (.go 0 ∅))])
    (fun g : ResultState Nat => decide ((g.call 0).pc = .returned (.ok 0)
      ∧ (g.rt.threads 0).fiber.completion = true ∧ (g.rt.threads 0).go = .ended
      ∧ (g.call 0).closure = .left .panicked ∧ (g.call 0).ch.sent = []
      ∧ (g.call 0).ch.receive = none))
    (by decide +kernel)
  exact ⟨g, hg, of_decide_eq_true htest⟩

end GreenThreads.Runtime
