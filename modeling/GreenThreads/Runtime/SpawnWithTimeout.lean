import GreenThreads.Runtime.Callers

/-!
# GreenThreads — spawning with a timeout (`SpawnWithTimeout` of `internal/runtime/spawn_ext.go`)

The closure that `SpawnWithTimeout` spawns does not call `fn` itself. It starts an inner goroutine
for that, and waits until the goroutine has sent on `done` or the timer of `time.After` has fired.
A panic of `fn` is absorbed in the inner goroutine, which then does not get to its send.

* `TimedState` — a runtime, a clock, and the `SpawnWithTimeout` calls on the runtime, each with its
  closure, its inner goroutine and its channel;
* `TimedCall.Ok` — what was sent is in the channel or was received, and a timer fires in time;
* `timeout_completion` — when the fiber of a call is through;
* `timeout_never_stuck` — who of the two goroutines has to wait for the other.
-/

namespace GreenThreads.Runtime

open Trans

/-! ## The calls -/

/-- How the inner goroutine ends; a nil `fn` is one that panics. -/
inductive InnerEnding where
  | returned
  | panicked
  | goexit
  deriving DecidableEq, Repr

/-- Where the inner goroutine is: not started, before or inside `fn`, at its send, or at its end. -/
inductive InnerPc where
  | absent
  | fn
  | send
  | ended (e : InnerEnding)
  deriving DecidableEq, Repr

/-- Where the inner goroutine goes when `fn` ends. -/
def InnerEnding.next : InnerEnding → InnerPc
  | returned => .send
  | panicked => .ended .panicked
  | goexit => .ended .goexit

/-- Where the closure is; `start` is the time at which `time.After` was called. -/
inductive TimedPc where
  /-- Before `make` and the `go` statement. -/
  | launch
  /-- Before `time.After`. -/
  | arm
  | select (start : Nat)
  | left (start : Nat) (timedOut : Bool)
  deriving DecidableEq, Repr

def TimedPc.isLeft : TimedPc → Bool
  | left _ _ => true
  | launch | arm | select _ => false

/-- A `SpawnWithTimeout` call, its closure with the inner goroutine, and the number of values in
`done`. Times are in nanoseconds. -/
structure TimedCall extends SpawnCall where
  timeout : Int := 0
  closure : TimedPc := .launch
  inner : InnerPc := .absent
  done : Nat := 0
  deriving DecidableEq, Repr

/-- The closure does not call `runtime.Goexit`. -/
instance : Caller TimedCall where
  init := {}
  entered k := k.toSpawnCall.entered
  fiber k := k.fiber
  returned k := k.closure.isLeft
  exited _ := false
  entered_init := rfl

theorem TimedCall.left_eq (k : TimedCall) : Caller.left k = k.closure.isLeft :=
  Bool.or_false k.closure.isLeft

/-- A runtime, the `SpawnWithTimeout` calls on it, and the time. -/
abbrev TimedState := Callers TimedCall Nat

inductive TimedLabel where
  /-- A new call, with a name of this length. -/
  | call (nameLen : Nat) (timeout : Int)
  /-- `rt.Spawn` returns to call `j`. -/
  | ret (j : Nat)
  /-- The closure of call `j` starts the inner goroutine. -/
  | launch (j : Nat)
  /-- It calls `time.After` and gets to its select. -/
  | arm (j : Nat)
  /-- The first case of the select. -/
  | receive (j : Nat)
  /-- The second one. -/
  | timer (j : Nat)
  /-- The function of call `j` ends. -/
  | ends (j : Nat) (e : InnerEnding)
  /-- The inner goroutine sends. -/
  | send (j : Nat)
  /-- Time goes by. -/
  | tick (d : Nat)
  | runtime (l : Label)

namespace TimedState

variable (c : Config) (g : TimedState)

abbrev now : Nat := g.env

def new (rt : State) : TimedState := Callers.new rt 0

def newCall (nameLen : Nat) (timeout : Int) : TimedState :=
  { g with calls := g.calls + 1 }.enter g.calls nameLen
    { pc := .inside, fiber := g.rt.calls, timeout := timeout }

def retStep (j : Nat) : Option TimedState :=
  ((g.call j).ret g.rt).map fun k => g.setCall j { g.call j with toSpawnCall := k }

/-- The steps of the closure. -/
def closureStep (j : Nat) (l : TimedLabel) : Option TimedState :=
  if g.InClosure j then
    match l, (g.call j).closure with
    | .launch _, .launch => some (g.setCall j { g.call j with closure := .arm, inner := .fn })
    | .arm _, .arm => some (g.setCall j { g.call j with closure := .select g.now })
    | .receive _, .select start =>
      if 0 < (g.call j).done then
        some (g.setCall j
          { g.call j with closure := .left start false, done := (g.call j).done - 1 })
      else none
    | .timer _, .select start =>
      -- a timer of no or of negative length fires at once
      if (start : Int) + (g.call j).timeout ≤ g.now then
        some (g.setCall j { g.call j with closure := .left start true })
      else none
    | _, _ => none
  else none

/-- The steps of the inner goroutine, which does not care where the closure is. The channel has
room for one value. -/
def innerStep (j : Nat) (l : TimedLabel) : Option TimedState :=
  match l, (g.call j).inner with
  | .ends _ e, .fn => some (g.setCall j { g.call j with inner := e.next })
  | .send _, .send =>
    if (g.call j).done < 1 then
      some (g.setCall j
        { g.call j with inner := .ended .returned, done := (g.call j).done + 1 })
    else none
  | _, _ => none

/-- One step of the system. -/
def step (l : TimedLabel) : Option TimedState :=
  match l with
  | .call nameLen timeout => some (g.newCall nameLen timeout)
  | .ret j => g.retStep j
  | .launch j | .arm j | .receive j | .timer j => g.closureStep j l
  | .ends j _ | .send j => g.innerStep j l
  | .tick d => some { g with env := g.now + d }
  | .runtime l => g.runtimeStep c l

end TimedState

/-! ## What was sent, and when -/

/-- How many values the closure has received. -/
def TimedPc.received : TimedPc → Nat
  | left _ false => 1
  | launch | arm | select _ | left _ true => 0

/-- How many values the inner goroutine has sent. -/
def InnerPc.sent : InnerPc → Nat
  | ended .returned => 1
  | absent | fn | send | ended .panicked | ended .goexit => 0

/-- What holds of a call at time `now`. -/
structure TimedCall.Ok (now : Nat) (k : TimedCall) : Prop where
  names : k.Names
  launch : k.closure = .launch → k.inner = .absent
  /-- What was sent is in the channel or was received. -/
  sent : k.done + k.closure.received = k.inner.sent
  timed : ∀ start, k.closure = .left start true → (start : Int) + k.timeout ≤ now

namespace TimedCall.Ok

variable {now now' : Nat} {k : TimedCall}

theorem later (hk : k.Ok now) (hle : now ≤ now') : k.Ok now' :=
  { hk with timed := fun start hleft => (hk.timed start hleft).trans (by exact_mod_cast hle) }

/-- The closure moves to another place, or is left. -/
theorem closure {pc : TimedPc} {inner : InnerPc} {done : Nat} (hk : k.Ok now)
    (hlaunch : pc ≠ .launch) (hsent : done + pc.received = inner.sent)
    (htimed : ∀ start, pc = .left start true → (start : Int) + k.timeout ≤ now) :
    ({ k with closure := pc, inner := inner, done := done }).Ok now :=
  ⟨hk.names, fun h => absurd h hlaunch, hsent, htimed⟩

/-- The inner goroutine moves. -/
theorem innerMoves {inner : InnerPc} {done : Nat} (hk : k.Ok now) (hinner : k.inner ≠ .absent)
    (hsent : done + k.closure.received = inner.sent) :
    ({ k with inner := inner, done := done }).Ok now :=
  { hk with launch := fun h => absurd (hk.launch h) hinner, sent := hsent }

end TimedCall.Ok

/-- Every call is in order, and those that were not made have no inner goroutine. -/
structure TimedState.Ok (c : Config) (g : TimedState) : Prop where
  callers : Callers.Ok c g
  untouched : ∀ j, (g.call j).entered = false → (g.call j).inner = .absent
  call : ∀ j, (g.call j).entered = true → (g.call j).Ok g.now

namespace TimedState.Ok

variable {c : Config} {g g' : TimedState} {j : Nat}

theorem untouched_setCall {k : TimedCall} (hg : g.Ok c) (hk : k.entered = true) (i : Nat)
    (hi : ((g.setCall j k).call i).entered = false) :
    ((g.setCall j k).call i).inner = .absent := by
  by_cases hne : i = j
  · subst hne
    rw [Callers.setCall_self, hk] at hi
    cases hi
  · rw [Callers.setCall_ne hne] at hi ⊢
    exact hg.untouched i hi

/-- Call `j` moves. -/
theorem setCall {k : TimedCall} (hg : g.Ok c) (hj : (g.call j).entered = true)
    (hent : k.entered = true) (hfiber : k.fiber = (g.call j).fiber)
    (hleft : (g.call j).closure.isLeft = true → k.closure.isLeft = true) (hk : k.Ok g.now) :
    Ok c (g.setCall j k) where
  callers := hg.callers.setCall (hg.callers.lt_calls hj) (fun _ => ⟨hj, hfiber⟩)
    (by simpa only [TimedCall.left_eq] using hleft)
  untouched := hg.untouched_setCall hent
  call := Callers.forall_setCall (P := TimedCall.Ok g.now) hg.call hk

theorem newCall (hg : g.Ok c) (nameLen : Nat) (timeout : Int) :
    (g.newCall nameLen timeout).Ok c where
  callers := hg.callers.moreCalls.enter (Nat.lt_succ_self _) (hg.callers.not_entered le_rfl)
    nameLen rfl
  untouched := hg.untouched_setCall (j := g.calls) rfl
  call := Callers.forall_setCall (P := TimedCall.Ok g.now) hg.call
    ⟨nofun, fun _ => rfl, rfl, nofun⟩

theorem retStep (hg : g.Ok c) (h : g.retStep j = some g') : g'.Ok c := by
  obtain ⟨k, hk, rfl⟩ := Option.map_eq_some_iff.mp h
  obtain ⟨hj, hent, hfiber, hnames⟩ := SpawnCall.ret_eq hk
  exact hg.setCall hj hent hfiber id { hg.call j hj with names := hnames }

theorem closureStep {l : TimedLabel} (hg : g.Ok c) (h : g.closureStep j l = some g') :
    g'.Ok c := by
  unfold TimedState.closureStep at h
  rw [Option.ite_none_right_eq_some] at h
  obtain ⟨hin, h⟩ := h
  have hk := hg.call j hin.1
  have hsent := hk.sent
  split at h
  · next hpc =>
    cases h
    -- nothing has been sent before the inner goroutine is there
    rw [hpc, hk.launch hpc] at hsent
    exact hg.setCall hin.1 hin.1 rfl (by simp [hpc, TimedPc.isLeft])
      (hk.closure (by simp) hsent nofun)
  · next hpc =>
    cases h
    rw [hpc] at hsent
    exact hg.setCall hin.1 hin.1 rfl (by simp [hpc, TimedPc.isLeft])
      (hk.closure (by simp) hsent nofun)
  · next start hpc =>
    split_ifs at h with hdone
    cases h
    rw [hpc] at hsent
    refine hg.setCall hin.1 hin.1 rfl (fun _ => rfl) (hk.closure (by simp) ?_ nofun)
    simp only [TimedPc.received] at hsent ⊢
    omega
  · next start hpc =>
    split_ifs at h with htime
    cases h
    rw [hpc] at hsent
    refine hg.setCall hin.1 hin.1 rfl (fun _ => rfl) (hk.closure (by simp) hsent ?_)
    rintro start' hleft
    cases hleft
    exact htime
  · cases h

theorem innerStep {l : TimedLabel} (hg : g.Ok c) (h : g.innerStep j l = some g') : g'.Ok c := by
  -- an inner goroutine belongs to a call that was made
  have hj : (g.call j).inner ≠ .absent → (g.call j).entered = true := fun hinner =>
    (Bool.eq_false_or_eq_true _).resolve_right fun hent => hinner (hg.untouched j hent)
  unfold TimedState.innerStep at h
  split at h
  · next e hpc =>
    cases h
    have hcalled := hj (by simp [hpc])
    have hk := hg.call j hcalled
    have hsent := hk.sent
    rw [hpc] at hsent
    refine hg.setCall hcalled hcalled rfl id (hk.innerMoves (by simp [hpc]) ?_)
    cases e <;> exact hsent
  · next hpc =>
    split_ifs at h
    cases h
    have hcalled := hj (by simp [hpc])
    have hk := hg.call j hcalled
    have hsent := hk.sent
    rw [hpc] at hsent
    refine hg.setCall hcalled hcalled rfl id (hk.innerMoves (by simp [hpc]) ?_)
    simp only [InnerPc.sent] at hsent ⊢
    omega
  · cases h

theorem step {l : TimedLabel} (hg : g.Ok c) (h : TimedState.step c g l = some g') : g'.Ok c := by
  cases l with
  | call nameLen timeout =>
    cases h
    exact hg.newCall nameLen timeout
  | ret j => exact hg.retStep h
  | launch j | arm j | receive j | timer j => exact hg.closureStep h
  | ends j e | send j => exact hg.innerStep h
  | tick d =>
    cases h
    exact ⟨hg.callers.withEnv _, hg.untouched, fun j hj =>
      (hg.call j hj).later (Nat.le_add_right ..)⟩
  | runtime l =>
    obtain ⟨hallow, rt, hrt, rfl⟩ := Callers.runtimeStep_eq h
    exact ⟨hg.callers.runtime hrt hallow, hg.untouched, hg.call⟩

theorem new {s : State} (hs : s.Sound c) : (TimedState.new s).Ok c where
  callers := .new hs _
  untouched _ _ := rfl
  call _ := nofun

/-- When the closure has been left, the goroutine can end the fiber function. -/
theorem go_body (hg : g.Ok c) (hin : g.InClosure j) (hleft : (g.call j).closure.isLeft = true) :
    ∃ rt, TimedState.step c g (.runtime (.go (g.call j).fiber ∅)) = some { g with rt := rt }
      ∧ (rt.threads (g.call j).fiber).fiber.completion = true := by
  have hallow : g.Allows (.go (g.call j).fiber ∅) := hg.callers.allows_go hin.1 hleft ∅
  refine ⟨g.rt.setFiber (g.call j).fiber (g.rt.threads (g.call j).fiber).fiber.runEnd
    .recordCompleted, ?_, by simp [State.setFiber, State.setThread, Fiber.runEnd]⟩
  have hgo : Runtime.step c g.rt (.go (g.call j).fiber ∅) = some (g.rt.setFiber (g.call j).fiber
      (g.rt.threads (g.call j).fiber).fiber.runEnd .recordCompleted) := by
    simp [Runtime.step, State.goStep, show (g.rt.threads (g.call j).fiber).go = .body from hin.2]
  simp [TimedState.step, Callers.runtimeStep, hallow, hgo]

end TimedState.Ok

theorem TimedState.Ok.of_reach {c : Config} {s₀ : State} {g : TimedState} (h₀ : Initial c s₀)
    (h : Reach (TimedState.step c) anyStep (.new s₀) g) : g.Ok c :=
  h.invariant (.new h₀.sound) fun _ _ _ hg _ hst => hg.step hst

/-! ## Results -/

/-- **Timeouts.** In every run, for every `SpawnWithTimeout` call that returned no error and whose
fiber has completed: either `fn` has returned and the closure has received the signal, or the
timeout has passed since the closure began to wait. A function that panics, exits its goroutine
or goes on forever keeps the fiber until then. -/
theorem timeout_completion {c : Config} {s₀ : State} {g : TimedState} {j : Nat} {f : FiberID}
    (h₀ : Initial c s₀) (h : Reach (TimedState.step c) anyStep (.new s₀) g)
    (hret : (g.call j).pc = .returned (.ok f))
    (hdone : (g.rt.threads f).fiber.completion = true) :
    ∃ start timedOut, (g.call j).closure = .left start timedOut
      ∧ (timedOut = false → (g.call j).inner = .ended .returned)
      ∧ (timedOut = true → (start : Int) + (g.call j).timeout ≤ g.now) := by
  have hg := TimedState.Ok.of_reach h₀ h
  have hj : (g.call j).entered = true := by simp [SpawnCall.entered, hret]
  have hk := hg.call j hj
  obtain rfl := hk.names f hret
  have hleft := hg.callers.left j hj ((hg.callers.sound.life _).fiber.past hdone)
  rw [TimedCall.left_eq] at hleft
  cases hpc : (g.call j).closure with
  | launch | arm | select start =>
    rw [hpc] at hleft
    cases hleft
  | left start timedOut =>
    refine ⟨start, timedOut, rfl, ?_, ?_⟩
    · rintro rfl
      -- one value was received, so one was sent
      have hsent := hk.sent
      rw [hpc] at hsent
      cases hinner : (g.call j).inner with
      | ended e =>
        cases e with
        | returned => rfl
        | panicked | goexit => simp [hinner, InnerPc.sent, TimedPc.received] at hsent
      | absent | fn | send => simp [hinner, InnerPc.sent, TimedPc.received] at hsent
    · rintro rfl
      exact hk.timed start hpc

/-- **Nobody waits too long.** In every run: the inner goroutine never waits at its send, whether
the closure is still there to receive or not. And once the timeout has passed, or `fn` has
returned and the signal was sent, two steps of the fiber's goroutine end the fiber function,
whatever the inner goroutine is doing. -/
theorem timeout_never_stuck {c : Config} {s₀ : State} {g : TimedState} (h₀ : Initial c s₀)
    (h : Reach (TimedState.step c) anyStep (.new s₀) g) (j : Nat) :
    ((g.call j).inner = .send → (TimedState.step c g (.send j)).isSome = true)
      ∧ ∀ start, g.InClosure j → (g.call j).closure = .select start →
        (start : Int) + (g.call j).timeout ≤ g.now ∨ (g.call j).inner = .ended .returned →
        ∃ l ∈ [TimedLabel.timer j, .receive j], ∃ g',
          exec (TimedState.step c) g [l, .runtime (.go (g.call j).fiber ∅)] = some g'
            ∧ (g'.rt.threads (g.call j).fiber).fiber.completion = true
            ∧ (g'.call j).inner = (g.call j).inner := by
  have hg := TimedState.Ok.of_reach h₀ h
  constructor
  · intro hinner
    have hcalled : (g.call j).entered = true := by
      by_contra hent
      rw [hg.untouched j (by simpa using hent)] at hinner
      cases hinner
    -- it is the only sender, and has not sent before
    have hsent := (hg.call j hcalled).sent
    rw [hinner] at hsent
    have hempty : (g.call j).done = 0 := (Nat.add_eq_zero_iff.mp hsent).1
    simp [TimedState.step, TimedState.innerStep, hinner, hempty]
  · intro start hin hpc hready
    -- the select takes a case `l` that leaves the closure; then the fiber function is left
    have hleave : ∀ (l : TimedLabel) (k : TimedCall),
        TimedState.step c g l = some (g.setCall j k) → k.closure.isLeft = true →
        k.toSpawnCall = (g.call j).toSpawnCall → k.inner = (g.call j).inner →
        ∃ g', exec (TimedState.step c) g [l, .runtime (.go (g.call j).fiber ∅)] = some g'
          ∧ (g'.rt.threads (g.call j).fiber).fiber.completion = true
          ∧ (g'.call j).inner = (g.call j).inner := by
      intro l k hstep hleft hkcall hkinner
      have hself : (g.setCall j k).call j = k := Callers.setCall_self
      have hin' : (g.setCall j k).InClosure j := by
        unfold Callers.InClosure
        rw [hself]
        change k.toSpawnCall.entered = true ∧ (g.rt.threads k.toSpawnCall.fiber).go = .body
        rw [hkcall]
        exact hin
      obtain ⟨rt, hgo, hcompletion⟩ := (hg.step hstep).go_body hin' (by rwa [hself])
      rw [hself, show k.fiber = (g.call j).fiber by rw [hkcall]] at hgo hcompletion
      refine ⟨{ g.setCall j k with rt := rt }, ?_, hcompletion, ?_⟩
      · simp only [exec, hstep, hgo, Option.bind_some]
      · show ((g.setCall j k).call j).inner = _
        rw [hself, hkinner]
    rcases hready with htime | hreturned
    · refine ⟨.timer j, by simp, hleave _ { g.call j with closure := .left start true } ?_ rfl rfl
        rfl⟩
      simp [TimedState.step, TimedState.closureStep, hin, hpc, htime]
    · have hsent := (hg.call j hin.1).sent
      rw [hpc, hreturned] at hsent
      have hone : (g.call j).done = 1 := hsent
      refine ⟨.receive j, by simp, hleave _
        { g.call j with closure := .left start false, done := (g.call j).done - 1 } ?_ rfl rfl
        rfl⟩
      simp [TimedState.step, TimedState.closureStep, hin, hpc, hone]

/-- The function of the call panics at once. The fiber goes on for the whole timeout. -/
theorem timeout_completion_panicked :
    ∃ g : TimedState, Reach (TimedState.step (.ofNewRuntime .fifo 1)) anyStep
        (.new (.new (.ofNewRuntime .fifo 1))) g
      ∧ (g.call 0).inner = .ended .panicked ∧ (g.call 0).timeout = 50
      ∧ ∃ start timedOut, (g.call 0).closure = .left start timedOut
        ∧ (timedOut = false → (g.call 0).inner = .ended .returned)
        ∧ (timedOut = true → (start : Int) + (g.call 0).timeout ≤ g.now) := by
  obtain ⟨g, hg, htest⟩ := exists_reach_of_exec
    (TimedState.step (.ofNewRuntime .fifo 1)) (.new (.new (.ofNewRuntime .fifo 1)))
    (List.flatten [Label.startTrace.map .runtime, [.call 0 50],
      (Label.spawnTrace 0 9).map .runtime, [.ret 0], (Label.dispatchTrace 0).map .runtime,
      [.launch 0, .ends 0 .panicked, .arm 0, .tick 50, .timer 0, .runtime (.go 0 ∅)]])
    (fun g : TimedState => decide ((g.call 0).pc = .returned (.ok 0)
      ∧ (g.rt.threads 0).fiber.completion = true ∧ (g.call 0).inner = .ended .panicked
      ∧ (g.call 0).timeout = 50))
    (by decide +kernel)
  obtain ⟨hret, hdone, hinner, htimeout⟩ := of_decide_eq_true htest
  exact ⟨g, hg, hinner, htimeout, timeout_completion (.inl rfl) hg hret hdone⟩

/-- The timeout has passed, the function is still running, and the closure has not looked yet. -/
theorem timeout_never_stuck_abandoned :
    ∃ g : TimedState, Reach (TimedState.step (.ofNewRuntime .fifo 1)) anyStep
        (.new (.new (.ofNewRuntime .fifo 1))) g
      ∧ (g.call 0).inner = .fn
      ∧ ∃ l ∈ [TimedLabel.timer 0, .receive 0], ∃ g',
        exec (TimedState.step (.ofNewRuntime .fifo 1)) g
            [l, .runtime (.go (g.call 0).fiber ∅)] = some g'
          ∧ (g'.rt.threads (g.call 0).fiber).fiber.completion = true
          ∧ (g'.call 0).inner = (g.call 0).inner := by
  obtain ⟨g, hg, htest⟩ := exists_reach_of_exec
    (TimedState.step (.ofNewRuntime .fifo 1)) (.new (.new (.ofNewRuntime .fifo 1)))
    (List.flatten [Label.startTrace.map .runtime, [.call 0 50],
      (Label.spawnTrace 0 9).map .runtime, [.ret 0], (Label.dispatchTrace 0).map .runtime,
      [.launch 0, .arm 0, .tick 60]])
    (fun g : TimedState => decide ((g.call 0).inner = .fn ∧ g.InClosure 0
      ∧ (g.call 0).closure = .select 0 ∧ (g.call 0).timeout = 50 ∧ g.now = 60))
    (by decide +kernel)
  obtain ⟨hinner, hin, hpc, htimeout, hnow⟩ := of_decide_eq_true htest
  refine ⟨g, hg, hinner, (timeout_never_stuck (.inl rfl) hg 0).2 0 hin hpc (.inl ?_)⟩
  rw [htimeout, hnow]
  decide

end GreenThreads.Runtime
