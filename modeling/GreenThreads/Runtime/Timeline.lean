import GreenThreads.EventLog
import GreenThreads.Lib.Outbox
import GreenThreads.Runtime.Gauge

/-!
# GreenThreads — the events of a runtime

`Spawn`, `dispatch`, `complete` and `Reset` tell the event tracker what they have done after they
have done it, each in its own goroutine, so that the tracker sees the events of different fibers,
and those of the `Spawn` and of the dispatch of one fiber, in any order. The runtime is the
`Outbox.Source` of these calls.

`event_log_faithful` says what the events of a fiber tell, and what the tracker returns.
-/

namespace GreenThreads.Runtime

open Trans

/-! ## Who records what -/

/-- The goroutines that call the event tracker. -/
inductive Recorder where
  | spawn (f : FiberID)
  | loop
  | go (f : FiberID)
  /-- The holder of `lifecycleMu`. -/
  | lifecycle
  deriving DecidableEq, Repr

/-- Whose step a label is. -/
def Label.recorder : Label → Option Recorder
  | .spawn f _ => some (.spawn f)
  | .loop _ => some .loop
  | .go f _ | .discard f | .goexit f | .block f => some (.go f)
  | .start | .stop | .reset | .lifecycle | .deadline => some .lifecycle
  | .call _ _ | .unblock _ | .cancelCtx | .setStackSize _ => none

/-- What an event has besides the fiber and its type: the times at which it is recorded, the name
given to `Spawn`, and whether the fiber function has panicked. -/
structure Stamp where
  now : Int
  later : Int
  name : String
  failed : Bool

namespace State

/-- The calls of the event tracker that follow a step. -/
def records (s : State) (stamp : Stamp) (s' : State) : Label → List (BoundedLog.Op FiberEvent)
  | .spawn f _ =>
    if (s.threads f).pc = .recordCreated then
      [.record ⟨f, .created, stamp.now, "Created fiber: " ++ stamp.name⟩,
        .record ⟨f, .scheduled, stamp.later, "Fiber scheduled"⟩]
    else []
  | .loop _ =>
    match s.loop.pc with
    | .marking f => [.record ⟨f, .running, stamp.now, "Fiber running"⟩]
    | _ => []
  | .go f _ =>
    -- between `MarkCompleted` and the removal from `rt.fibers`
    if (s'.threads f).go = .remove then
      [.record ⟨f, .completed, stamp.now,
        if stamp.failed then "Fiber failed" else "Fiber completed"⟩]
    else []
  | .lifecycle => if s.lifecycle = .resetMetrics then [.clear] else []
  | _ => []

/-- The fiber that a step puts into a queue. -/
def enlists (s : State) : Label → List FiberID
  | .spawn f _ => if (s.threads f).pc = .enqueue then [f] else []
  | _ => []

end State

/-- A runtime, and the fibers in the order in which `Schedule` has put them into a queue. -/
structure Enlisted where
  rt : State
  order : List FiberID

structure Act where
  label : Label
  stamp : Stamp

def Enlisted.step (c : Config) (e : Enlisted) (a : Act) : Option Enlisted :=
  (Runtime.step c e.rt a.label).map fun s' => ⟨s', e.order ++ e.rt.enlists a.label⟩

/-- The runtime and the calls of its event tracker. -/
def timeline (c : Config) : Outbox.Source Enlisted Act Recorder (BoundedLog.Op FiberEvent) where
  step := Enlisted.step c
  owner a := a.label.recorder
  emits e a e' := e.rt.records a.stamp e'.rt a.label

/-- The event tracker after the calls made so far. -/
def tracker (capacity : Int) (ops : List (BoundedLog.Op FiberEvent)) : Option EventRing :=
  (EventRing.new capacity).bind (exec EventRing.step · ops)

theorem Enlisted.step_rt {c : Config} {e e' : Enlisted} {a : Act}
    (h : Enlisted.step c e a = some e') :
    Runtime.step c e.rt a.label = some e'.rt ∧ e'.order = e.order ++ e.rt.enlists a.label := by
  obtain ⟨s', hs', rfl⟩ := Option.map_eq_some_iff.mp h
  exact ⟨hs', rfl⟩

/-! ## The events of one fiber -/

/-- The events that `Spawn` records of fiber `f`. -/
def spawnSide (f : FiberID) : BoundedLog.Op FiberEvent → Bool
  | .record e => e.fiberID == f && (e.eventType == .created || e.eventType == .scheduled)
  | .clear => false

/-- The events that `dispatch` and `complete` record of fiber `f`. -/
def dispatchSide (f : FiberID) : BoundedLog.Op FiberEvent → Bool
  | .record e => e.fiberID == f && (e.eventType == .running || e.eventType == .completed)
  | .clear => false

def eventKind : BoundedLog.Op FiberEvent → Option EventType
  | .record e => some e.eventType
  | .clear => none

def kinds (ops : List (BoundedLog.Op FiberEvent)) : List EventType := ops.filterMap eventKind

theorem kinds_append (ops ops' : List (BoundedLog.Op FiberEvent)) :
    kinds (ops ++ ops') = kinds ops ++ kinds ops' := List.filterMap_append

/-- No event of a fiber goes with the step. -/
def State.Silent (s s' : State) : Label → Prop
  | .spawn f _ => (s.threads f).pc ≠ .recordCreated
  | .loop _ => ∀ f, s.loop.pc ≠ .marking f
  | .go f _ => (s'.threads f).go ≠ .remove
  | _ => True

/-- What a step has recorded. -/
inductive State.Recorded (s s' : State) : Label → List (BoundedLog.Op FiberEvent) → Prop where
  | nothing {l : Label} (h : s.Silent s' l) : Recorded s s' l []
  | spawned {f : FiberID} {w : Nat} {now later : Int} {details details' : String}
      (hpc : (s.threads f).pc = .recordCreated) :
      Recorded s s' (.spawn f w)
        [.record ⟨f, .created, now, details⟩, .record ⟨f, .scheduled, later, details'⟩]
  | marked {f : FiberID} {choice : LoopChoice} {now : Int} {details : String}
      (hpc : s.loop.pc = .marking f) :
      Recorded s s' (.loop choice) [.record ⟨f, .running, now, details⟩]
  | completed {f : FiberID} {drop : Finset FiberID} {now : Int} {details : String}
      (hgo : (s'.threads f).go = .remove) :
      Recorded s s' (.go f drop) [.record ⟨f, .completed, now, details⟩]
  | cleared (h : s.lifecycle = .resetMetrics) : Recorded s s' .lifecycle [.clear]

theorem State.recorded (s : State) (stamp : Stamp) (s' : State) (l : Label) :
    s.Recorded s' l (s.records stamp s' l) := by
  cases l with
  | spawn f w =>
    simp only [records]
    split_ifs with hpc
    · exact .spawned hpc
    · exact .nothing hpc
  | loop choice =>
    simp only [records]
    split
    · next f hpc => exact .marked hpc
    · next hpc => exact .nothing hpc
  | go f drop =>
    simp only [records]
    by_cases hgo : (s'.threads f).go = .remove
    · rw [if_pos hgo]
      exact .completed hgo
    · rw [if_neg hgo]
      exact .nothing hgo
  | lifecycle =>
    simp only [records]
    split_ifs with hl
    · exact .cleared hl
    · exact .nothing trivial
  | _ => exact .nothing trivial

section

variable {c : Config} {s s' : State} {l : Label} {f : FiberID}
  {ops : List (BoundedLog.Op FiberEvent)}

/-! ## The events of `Spawn` -/

theorem State.Recorded.owner_spawnSide (h : s.Recorded s' l ops) {op : BoundedLog.Op FiberEvent}
    (hop : op ∈ ops) (hside : spawnSide f op = true) : l.recorder = some (.spawn f) := by
  cases h with
  | nothing => cases hop
  | @spawned g =>
    have hg : g = f := by
      rcases List.mem_pair.mp hop with rfl | rfl <;> simpa [spawnSide] using hside
    rw [hg]
    rfl
  | marked | completed | cleared =>
    rw [List.mem_singleton.mp hop] at hside
    simp [spawnSide] at hside

/-- The events of a call that has committed its fiber, once it has recorded its metrics. -/
def SpawnPc.told (pc : SpawnPc) : List EventType :=
  if pc = .returned (.ok ()) then [.created, .scheduled] else []

/-- Only the step that records the metrics brings a call to its return. -/
theorem told_of_ne (hs : s.Sound c) (h : step c s l = some s')
    (hne : ∀ w, l = .spawn f w → (s.threads f).pc ≠ .recordCreated) :
    (s'.threads f).pc.told = (s.threads f).pc.told := by
  by_cases hpc : (s'.threads f).pc = (s.threads f).pc
  · rw [hpc]
  · have hmoved : (s.threads f).pc ≠ .returned (.ok ()) ∧ (s.threads f).pc ≠ .recordCreated := by
      rcases State.step_pc h hpc with hf | ⟨w, rfl⟩
      · have huncalled : (s.threads f).pc = .uncalled := hs.uncalled f hf.ge
        rw [huncalled]
        exact ⟨nofun, nofun⟩
      · refine ⟨fun hret => ?_, hne w rfl⟩
        have hnext := State.spawnStep_next h
        rw [hret] at hnext
        cases hnext
    have hmoved' : (s'.threads f).pc ≠ .returned (.ok ()) := fun hret =>
      ((hs.step_life h f).created hret).elim hmoved.1 hmoved.2
    rw [SpawnPc.told, SpawnPc.told, if_neg hmoved.1, if_neg hmoved']

theorem spawned_step (hs : s.Sound c) (h : step c s l = some s') (hrec : s.Recorded s' l ops) :
    (s'.threads f).pc.told = (s.threads f).pc.told ++ kinds (ops.filter (spawnSide f)) := by
  cases hrec with
  | nothing hsilent =>
    rw [told_of_ne hs h fun w hl => by rw [hl] at hsilent; exact hsilent]
    exact (List.append_nil _).symm
  | @spawned g w now later details details' hpc =>
    by_cases hf : g = f
    · subst hf
      have hret : (s'.threads g).pc = .returned (.ok ()) := by
        have hnext := State.spawnStep_next h
        rw [hpc] at hnext
        generalize (s'.threads g).pc = pc at hnext
        cases hnext
        rfl
      rw [hret, hpc]
      simp [SpawnPc.told, kinds, spawnSide, eventKind]
    · rw [told_of_ne hs h fun w hl => by cases hl; exact absurd rfl hf]
      simp [kinds, spawnSide, hf]
  | marked | completed | cleared =>
    rw [told_of_ne hs h fun w hl => by cases hl]
    simp [kinds, spawnSide]

/-! ## The events of `dispatch` and `complete` -/

/-- Who records the next event of the dispatch of fiber `f`. -/
def State.dispatcher (s : State) (f : FiberID) : Recorder :=
  if (s.threads f).go = .absent then .loop else .go f

/-- What the dispatch of a fiber has recorded, or is about to record. -/
def GoPc.Tells (go : GoPc) (hand : Hand) (told : List EventType) : Prop :=
  match go with
  | .absent => told = if hand = .launching then [.running] else []
  | .run | .body | .recordCompleted | .markCompleted | .sweep _ => told = [.running]
  | .remove | .undo | .send => told = [.running, .completed]
  -- without `complete` if the function has called `runtime.Goexit`
  | .ended => told = [.running] ∨ told = [.running, .completed]

variable {hand hand' : Hand} {told : List EventType}

theorem GoPc.Tells.of_launching {go : GoPc} (h : go.Tells hand told)
    (hhand : go = .absent → (hand' = .launching ↔ hand = .launching)) : go.Tells hand' told := by
  cases go with
  | absent =>
    simp only [Tells, hhand rfl] at h ⊢
    exact h
  | _ => exact h

theorem GoPc.Next.tells {a b : GoPc} (h : GoPc.Next a b) (hne : b ≠ .remove)
    (ht : a.Tells hand told) : b.Tells hand' told := by
  cases h with
  | mark h | sweep h =>
    rcases h with rfl | rfl
    · exact absurd rfl hne
    · exact ht
  | remove h => rcases h with rfl | rfl <;> exact ht
  | send => exact .inr ht
  | begin | skip | ends | record | undo => exact ht

theorem GoPc.Next.to_remove {a : GoPc} (h : GoPc.Next a .remove) :
    a = .markCompleted ∨ ∃ w, a = .sweep w := by
  cases h with
  | mark => exact .inl rfl
  | @sweep w => exact .inr ⟨w, rfl⟩
  | remove h => rcases h with h | h <;> cases h

theorem GoPc.Next.tells_remove {a : GoPc} (h : GoPc.Next a .remove) (ht : a.Tells hand told) :
    told = [.running] := by
  rcases h.to_remove with rfl | ⟨w, rfl⟩ <;> exact ht

theorem GoPc.Tells.told_prefix {go : GoPc} (h : go.Tells hand told) :
    told <+: [.running, .completed] := by
  cases go with
  | absent =>
    rw [show told = _ from h]
    split_ifs <;> decide
  | run | body | recordCompleted | markCompleted | sweep =>
    rw [show told = [.running] from h]
    decide
  | remove | undo | send =>
    rw [show told = [.running, .completed] from h]
  | ended => rcases h with rfl | rfl <;> decide

theorem GoPc.Tells.running_mem {go : GoPc} (h : go.Tells hand told) (hgo : go ≠ .absent) :
    .running ∈ told := by
  cases go with
  | absent => exact absurd rfl hgo
  | run | body | recordCompleted | markCompleted | sweep =>
    rw [show told = [.running] from h]
    decide
  | remove | undo | send =>
    rw [show told = [.running, .completed] from h]
    decide
  | ended => rcases h with rfl | rfl <;> decide

theorem GoPc.Tells.of_completed {go : GoPc} (h : go.Tells hand told) (hmem : .completed ∈ told) :
    go ∈ [.remove, .undo, .send, .ended] := by
  cases go with
  | absent =>
    rw [show told = _ from h] at hmem
    split_ifs at hmem <;> simp at hmem
  | run | body | recordCompleted | markCompleted | sweep =>
    rw [show told = [.running] from h] at hmem
    simp at hmem
  | remove | undo | send | ended => decide

/-- The loop moves in its own steps, and a `Start` begins a new one. -/
theorem step_loop (h : step c s l = some s') :
    s'.loop = s.loop ∨ (∃ choice, l = .loop choice) ∨ l = .lifecycle ∧ s'.loop.pc = .select := by
  cases State.step_effect h with
  | spawn hspawn => cases hspawn <;> exact .inl rfl
  | loop => exact .inr (.inl ⟨_, rfl⟩)
  | go hgo => cases hgo <;> exact .inl rfl
  | lifecycle hlife =>
    cases hlife with
    | startRun => exact .inr (.inr ⟨rfl, rfl⟩)
    | _ => exact .inl rfl
  | _ => exact .inl rfl

/-- The hand of the loop comes to launch a fiber by marking it. -/
theorem Life.Step.launching {n : Nat} {v v' : Life} {e : Event} (h : v.Step n e v')
    (hmark : v.hand = .marking → v'.hand ≠ .launching) (hgo : v'.go = .absent) :
    v'.hand = .launching ↔ v.hand = .launching := by
  cases h with
  | mark h => exact absurd rfl (hmark h)
  | launch => cases hgo
  | pop _ h | held h | notRunnable h => simp [h]
  | _ => exact Iff.rfl

theorem LoopPc.eq_marking {pc : LoopPc} (h : pc.hand f = .marking) : pc = .marking f := by
  cases pc with
  | marking g =>
    rw [hand] at h
    split_ifs at h with hf
    rw [hf]
  | holding g | launching g =>
    rw [hand] at h
    split_ifs at h
  | select | inner | looking | drain | exited => cases h

theorem LoopPc.eq_launching {pc : LoopPc} (h : pc.hand f = .launching) : pc = .launching f := by
  cases pc with
  | launching g =>
    rw [hand] at h
    split_ifs at h with hf
    rw [hf]
  | holding g | marking g =>
    rw [hand] at h
    split_ifs at h
  | select | inner | looking | drain | exited => cases h

/-- A step without an event of the fiber's dispatch leaves what there is to tell of it. -/
theorem tells_of_silent (hs : s.Sound c) (h : step c s l = some s')
    (hloop : ∀ choice, l = .loop choice → s.loop.pc ≠ .marking f)
    (hgo : ∀ drop, l = .go f drop → (s'.threads f).go ≠ .remove)
    (ht : (s.threads f).go.Tells (s.loop.pc.hand f) told) :
    (s'.threads f).go.Tells (s'.loop.pc.hand f) told := by
  have hlife := hs.step_life h f
  have hmark : (s.life f).hand = .marking → (s'.life f).hand ≠ .launching := by
    intro hmarking hlaunching
    change s.loop.pc.hand f = .marking at hmarking
    change s'.loop.pc.hand f = .launching at hlaunching
    rcases step_loop h with hsame | ⟨choice, hl⟩ | ⟨-, hselect⟩
    · rw [hsame, hmarking] at hlaunching
      cases hlaunching
    · exact hloop choice hl (LoopPc.eq_marking hmarking)
    · rw [hselect] at hlaunching
      cases hlaunching
  rcases hlife.go_next with hsame | ⟨hhand, hrun⟩ | hnext | ⟨hbody, hended⟩
  · rw [show (s'.threads f).go = (s.threads f).go from hsame]
    refine ht.of_launching fun habsent => ?_
    exact hlife.launching hmark (hsame.trans habsent)
  · have habsent : (s.threads f).go = .absent :=
      hs.go_absent_of_hand (hhand.trans_ne (by decide))
    rw [habsent] at ht
    rw [show (s'.threads f).go = .run from hrun]
    exact ht.trans (if_pos hhand)
  · refine hnext.tells (fun hremove => ?_) ht
    -- only the goroutine itself gets to the removal
    rw [show (s'.life f).go = .remove from hremove] at hnext
    have hturn : ∃ drop, l = .go f drop := by
      have hbefore : (s.threads f).go = .markCompleted ∨ ∃ w, (s.threads f).go = .sweep w :=
        hnext.to_remove
      refine hs.turn_of_go (f := f) h ?_ ?_ ?_ ?_
      · rw [show (s'.threads f).go = .remove from hremove]
        rcases hbefore with hb | ⟨w, hb⟩ <;> rw [hb] <;> nofun
      all_goals rcases hbefore with hb | ⟨w, hb⟩ <;> rw [hb] <;> nofun
    obtain ⟨drop, hl⟩ := hturn
    exact hgo drop hl hremove
  · rw [show (s.threads f).go = .body from hbody] at ht
    rw [show (s'.threads f).go = .ended from hended]
    exact .inl ht

/-- What the loop does after it has marked a fiber. -/
theorem loopStep_marking {choice : LoopChoice} (hpc : s.loop.pc = .marking f)
    (h : s.loopStep c choice = some s') :
    (s'.threads f).go = (s.threads f).go ∧ s'.loop.pc = .launching f
      ∧ s'.sched = s.sched := by
  cases State.loopStep_effect h with
  | mark hmark =>
    cases hpc.symm.trans hmark
    exact ⟨by simp [State.setLoop, State.setThread], rfl, rfl⟩
  | receive hboth =>
    rw [hpc] at hboth
    rcases hboth with hboth | hboth <;> cases hboth
  | done hother | tick hother | drained hother | look hother | rest hother | lookEmpty hother
  | take hother | noFibers hother | test hother | drop hother | launch hother =>
    cases hpc.symm.trans hother

theorem dispatched_step (hs : s.Sound c) (h : step c s l = some s') (hrec : s.Recorded s' l ops)
    (ht : (s.threads f).go.Tells (s.loop.pc.hand f) told) :
    (s'.threads f).go.Tells (s'.loop.pc.hand f)
      (told ++ kinds (ops.filter (dispatchSide f))) := by
  -- without an event of this fiber there is nothing to add
  have hsilent (hloop : ∀ choice, l = .loop choice → s.loop.pc ≠ .marking f)
      (hgo : ∀ drop, l = .go f drop → (s'.threads f).go ≠ .remove)
      (hnone : ops.filter (dispatchSide f) = []) :
      (s'.threads f).go.Tells (s'.loop.pc.hand f)
        (told ++ kinds (ops.filter (dispatchSide f))) := by
    rw [hnone, show kinds [] = [] from rfl, List.append_nil]
    exact tells_of_silent hs h hloop hgo ht
  cases hrec with
  | nothing hquiet =>
    refine hsilent (fun choice hl => ?_) (fun drop hl => ?_) rfl
    · rw [hl] at hquiet
      exact hquiet f
    · rw [hl] at hquiet
      exact hquiet
  | @marked g choice now details hpc =>
    by_cases hf : g = f
    · subst hf
      have habsent : (s.threads g).go = .absent :=
        hs.go_absent_of_hand (by simp [LoopPc.hand, hpc])
      obtain ⟨hgo, hpc', -⟩ := loopStep_marking hpc h
      rw [habsent, hpc] at ht
      rw [hgo, habsent, hpc']
      simp only [GoPc.Tells, LoopPc.hand, if_true] at ht ⊢
      rw [ht]
      simp [kinds, dispatchSide, eventKind]
    · refine hsilent (fun _ _ => ?_) (fun _ hl => by cases hl) (by simp [dispatchSide, hf])
      rw [hpc]
      exact fun heq => hf (LoopPc.marking.inj heq)
  | @completed g drop now details hgo =>
    by_cases hf : g = f
    · subst hf
      have hnext := State.goStep_next h
      rw [hgo] at hnext ⊢
      rw [hnext.tells_remove ht]
      simp [GoPc.Tells, kinds, dispatchSide, eventKind]
    · refine hsilent (fun _ hl => by cases hl) (fun drop hl => ?_) (by simp [dispatchSide, hf])
      cases hl
      exact absurd rfl hf
  | spawned | cleared =>
    exact hsilent (fun _ hl => by cases hl) (fun _ hl => by cases hl) (by simp [dispatchSide])

theorem State.Recorded.owner_dispatchSide (hs : s.Sound c) (h : step c s l = some s')
    (hrec : s.Recorded s' l ops) {op : BoundedLog.Op FiberEvent} (hop : op ∈ ops)
    (hside : dispatchSide f op = true) : l.recorder = some (s'.dispatcher f) := by
  cases hrec with
  | nothing => cases hop
  | @marked g choice now details hpc =>
    have hg : g = f := by
      rw [List.mem_singleton.mp hop] at hside
      simpa [dispatchSide] using hside
    subst hg
    have habsent : (s.threads g).go = .absent :=
      hs.go_absent_of_hand (by simp [LoopPc.hand, hpc])
    rw [State.dispatcher, (loopStep_marking hpc h).1, if_pos habsent]
    rfl
  | @completed g drop now details hgo =>
    have hg : g = f := by
      rw [List.mem_singleton.mp hop] at hside
      simpa [dispatchSide] using hside
    subst hg
    rw [State.dispatcher, hgo]
    rfl
  | spawned =>
    rcases List.mem_pair.mp hop with rfl | rfl <;> simp [dispatchSide] at hside
  | cleared =>
    rw [List.mem_singleton.mp hop] at hside
    cases hside

theorem GoPc.Next.present {a b : GoPc} (h : GoPc.Next a b) : a ≠ .absent ∧ b ≠ .absent := by
  cases h with
  | mark h | sweep h | remove h => rcases h with rfl | rfl <;> exact ⟨nofun, nofun⟩
  | _ => exact ⟨nofun, nofun⟩

/-- The loop hands a fiber over to its goroutine. -/
theorem dispatcher_pass (hs : s.Sound c) (h : step c s l = some s')
    (hne : s'.dispatcher f ≠ s.dispatcher f) : l.recorder = some (s.dispatcher f) := by
  have hsame (ha : (s.threads f).go ≠ .absent) (hb : (s'.threads f).go ≠ .absent) : False :=
    hne (by rw [State.dispatcher, State.dispatcher, if_neg ha, if_neg hb])
  rcases (hs.step_life h f).go_next with heq | ⟨hhand, hrun⟩ | hnext | ⟨hbody, hended⟩
  · have hgo : (s'.threads f).go = (s.threads f).go := heq
    exact absurd (by rw [State.dispatcher, State.dispatcher, hgo]) hne
  · have habsent : (s.threads f).go = .absent :=
      hs.go_absent_of_hand (hhand.trans_ne (by decide))
    have hmoved : (s'.threads f).go ≠ (s.threads f).go := by
      rw [habsent, show (s'.threads f).go = .run from hrun]
      decide
    rw [State.dispatcher, if_pos habsent]
    rcases State.step_go h hmoved with ⟨rfl, -⟩ | ⟨drop, rfl⟩ | rfl | rfl
    · rfl
    · exact absurd habsent (State.goStep_next h).present.1
    all_goals
      simp [step, State.discardStep, State.goexitStep, habsent] at h
  · exact (hsame hnext.present.1 hnext.present.2).elim
  · refine (hsame ?_ ?_).elim
    · rw [show (s.threads f).go = .body from hbody]
      decide
    · rw [show (s'.threads f).go = .ended from hended]
      decide

/-- A goroutine that owes an event has completed its fiber and not removed it yet. -/
def Awaits (op : BoundedLog.Op FiberEvent) (s : State) : Recorder → Prop
  | .go f => (s.threads f).go = .remove ∧ eventKind op = some .completed
  | _ => True

theorem State.Recorded.awaits (hrec : s.Recorded s' l ops) {r : Recorder}
    (howner : l.recorder = some r) {op : BoundedLog.Op FiberEvent} (hop : op ∈ ops) :
    Awaits op s' r := by
  cases hrec with
  | nothing => cases hop
  | completed hgo =>
    cases howner
    rw [List.mem_singleton.mp hop]
    exact ⟨hgo, rfl⟩
  | spawned | marked | cleared =>
    cases howner
    trivial

theorem Awaits.step {r : Recorder} {op : BoundedLog.Op FiberEvent} (hs : s.Sound c)
    (h : step c s l = some s') (howner : l.recorder ≠ some r) (ha : Awaits op s r) :
    Awaits op s' r := by
  cases r with
  | go f =>
    obtain ⟨hgo, hkind⟩ := ha
    refine ⟨?_, hkind⟩
    by_contra hne
    rcases State.step_go h (fun heq => hne (heq.trans hgo)) with ⟨-, hpc⟩ | ⟨drop, rfl⟩ | rfl | rfl
    · have habsent : (s.threads f).go = .absent :=
        hs.go_absent_of_hand (by simp [LoopPc.hand, hpc])
      rw [hgo] at habsent
      cases habsent
    all_goals exact howner rfl
  | _ => trivial

end

/-! ## What the tracker is told -/

section

variable {c : Config} {s₀ : State} {o : Outbox Enlisted Recorder (BoundedLog.Op FiberEvent)}

theorem sound_step (s : Enlisted) (a : Act) (s' : Enlisted) (hs : s.rt.Sound c)
    (h : (timeline c).step s a = some s') : s'.rt.Sound c :=
  hs.step (Enlisted.step_rt h).1

theorem watch_spawn (f : FiberID) :
    Outbox.Watch (timeline c) (fun e => e.rt.Sound c) (spawnSide f) fun _ => .spawn f where
  own := fun _ _ _ hop hside => (State.recorded ..).owner_spawnSide hop hside
  pass := fun _ _ hne => absurd rfl hne

theorem watch_dispatch (f : FiberID) :
    Outbox.Watch (timeline c) (fun e => e.rt.Sound c) (dispatchSide f)
      fun e => e.rt.dispatcher f where
  own := fun hs h _ hop hside =>
    (State.recorded ..).owner_dispatchSide hs (Enlisted.step_rt h).1 hop hside
  pass := fun hs h hne => dispatcher_pass hs (Enlisted.step_rt h).1 hne

/-- What the events recorded so far tell of fiber `f`. -/
structure Told (o : Outbox Enlisted Recorder (BoundedLog.Op FiberEvent)) (f : FiberID) : Prop where
  spawn : kinds (o.done.filter (spawnSide f)) <+: [.created, .scheduled]
  admitted : kinds (o.done.filter (spawnSide f)) ≠ [] →
    (o.base.rt.threads f).pc = .returned (.ok ())
  announced : (o.base.rt.threads f).pc = .returned (.ok ()) → o.free (.spawn f) = true →
    kinds (o.done.filter (spawnSide f)) = [.created, .scheduled]
  dispatch : kinds (o.done.filter (dispatchSide f)) <+: [.running, .completed]
  launched : kinds (o.done.filter (dispatchSide f)) ≠ [] →
    o.base.rt.loop.pc = .launching f ∨ (o.base.rt.threads f).go ≠ .absent
  running : (o.base.rt.threads f).go ≠ .absent →
    .running ∈ kinds (o.done.filter (dispatchSide f))
  completing : .completed ∈ kinds (o.done.filter (dispatchSide f)) →
    (o.base.rt.threads f).go ∈ [.remove, .undo, .send, .ended]
  completed : (o.base.rt.threads f).go = .undo ∨ (o.base.rt.threads f).go = .send →
    kinds (o.done.filter (dispatchSide f)) = [.running, .completed]

theorem kinds_spawn (h₀ : Initial c s₀)
    (h : Reach (Outbox.step (timeline c)) anyStep (.new ⟨s₀, []⟩) o) (f : FiberID) :
    kinds (o.seen (spawnSide f) fun _ => .spawn f) = (o.base.rt.threads f).pc.told := by
  refine ((watch_spawn f).invariant
    (Q := fun e ops => kinds ops = (e.rt.threads f).pc.told) h₀.sound sound_step ?_ ?_ h).1
  · have hpc : (s₀.threads f).pc = .uncalled := h₀.sound.uncalled f (by
      rcases h₀ with rfl | rfl <;> exact Nat.zero_le f)
    rw [hpc]
    rfl
  · intro e a e' ops hs hst hQ
    rw [kinds_append, hQ]
    exact (spawned_step hs (Enlisted.step_rt hst).1 (State.recorded ..)).symm

theorem kinds_dispatch (h₀ : Initial c s₀)
    (h : Reach (Outbox.step (timeline c)) anyStep (.new ⟨s₀, []⟩) o) (f : FiberID) :
    (o.base.rt.threads f).go.Tells (o.base.rt.loop.pc.hand f)
      (kinds (o.seen (dispatchSide f) fun e => e.rt.dispatcher f)) := by
  refine ((watch_dispatch f).invariant
    (Q := fun e ops => (e.rt.threads f).go.Tells (e.rt.loop.pc.hand f) (kinds ops))
    h₀.sound sound_step ?_ ?_ h).1
  · rcases h₀ with rfl | rfl <;> exact rfl
  · intro e a e' ops hs hst hQ
    rw [kinds_append]
    exact dispatched_step hs (Enlisted.step_rt hst).1 (State.recorded ..) hQ

theorem awaits_of_reach (h₀ : Initial c s₀)
    (h : Reach (Outbox.step (timeline c)) anyStep (.new ⟨s₀, []⟩) o) (r : Recorder) :
    ∀ op ∈ o.owed r, Awaits op o.base.rt r :=
  Outbox.owed_invariant (I := fun e : Enlisted => e.rt.Sound c)
    (K := fun r op e => Awaits op e.rt r) h₀.sound sound_step
    (fun _ _ _ _ _ _ howner _ hop => (State.recorded ..).awaits howner hop)
    (fun _ _ _ _ _ hs hst howner ha => ha.step hs (Enlisted.step_rt hst).1 howner) h r

theorem told_of_reach (h₀ : Initial c s₀)
    (h : Reach (Outbox.step (timeline c)) anyStep (.new ⟨s₀, []⟩) o) (f : FiberID) :
    Told o f := by
  have hspawn := kinds_spawn h₀ h f
  have hdispatch := kinds_dispatch h₀ h f
  have hawaits := awaits_of_reach h₀ h (.go f)
  have hspawnDone : kinds (o.done.filter (spawnSide f)) <+: (o.base.rt.threads f).pc.told := by
    rw [← hspawn]
    exact (Outbox.filter_done_prefix ..).filterMap _
  have hdone : kinds (o.done.filter (dispatchSide f))
      <+: kinds (o.seen (dispatchSide f) fun e => e.rt.dispatcher f) :=
    (Outbox.filter_done_prefix ..).filterMap _
  constructor
  case spawn =>
    refine hspawnDone.trans ?_
    rw [SpawnPc.told]
    split_ifs
    · exact List.prefix_refl _
    · exact List.nil_prefix
  case admitted =>
    intro hne
    by_contra hpc
    rw [SpawnPc.told, if_neg hpc] at hspawnDone
    exact hne (List.prefix_nil.mp hspawnDone)
  case announced =>
    intro hpc hfree
    rw [← Outbox.seen_of_free (fun _ => Recorder.spawn f) hfree, hspawn, hpc]
    rfl
  case dispatch => exact hdone.trans hdispatch.told_prefix
  case launched =>
    intro hne
    by_contra hnot
    rw [not_or, not_not] at hnot
    have hhand : o.base.rt.loop.pc.hand f ≠ .launching := fun hh => hnot.1 (LoopPc.eq_launching hh)
    rw [hnot.2] at hdispatch
    rw [hdispatch.trans (if_neg hhand)] at hdone
    exact hne (List.prefix_nil.mp hdone)
  case running =>
    intro hgo
    have hmem := hdispatch.running_mem hgo
    rw [Outbox.seen, List.filter_append, kinds_append, List.mem_append] at hmem
    refine hmem.resolve_right fun howed => ?_
    -- all that the goroutine owes is the end of the fiber
    rw [State.dispatcher, if_neg hgo] at howed
    obtain ⟨op, hop, hkind⟩ := List.mem_filterMap.mp howed
    rw [(hawaits op (List.mem_filter.mp hop).1).2] at hkind
    cases hkind
  case completing => exact fun hmem => hdispatch.of_completed (hdone.subset hmem)
  case completed =>
    intro hgo
    have hpresent : (o.base.rt.threads f).go ≠ .absent := by
      rcases hgo with hgo | hgo <;> rw [hgo] <;> decide
    have hturn : o.base.rt.dispatcher f = .go f := if_neg hpresent
    have hfree : o.free (o.base.rt.dispatcher f) = true := by
      rw [hturn, Outbox.free, List.isEmpty_iff]
      refine List.eq_nil_iff_forall_not_mem.mpr fun op hop => ?_
      have hremove := (hawaits op hop).1
      rcases hgo with hgo | hgo <;> rw [hgo] at hremove <;> cases hremove
    rw [Outbox.seen_of_free (fun e : Enlisted => e.rt.dispatcher f) hfree] at hdispatch
    rcases hgo with hgo | hgo <;> rw [hgo] at hdispatch <;> exact hdispatch

/-- The readers return the last events since `Clear`. -/
theorem tracker_getEvents (capacity : Int) (ops : List (BoundedLog.Op FiberEvent)) :
    ∃ et, tracker capacity ops = some et ∧ et.getEvents
      = some ((BoundedLog.since ops).rtake (EventTracker.new capacity).capacity) := by
  obtain ⟨et, hexec, -, hevents⟩ := (EventTracker.aligned_new capacity).exec ops
  refine ⟨et.ring, ?_, ?_⟩
  · rw [tracker, EventTracker.ring_new]
    exact hexec
  · rw [et.ring_getEvents, hevents]
    exact congrArg some (BoundedLog.foldl_retain_nil _ ops)

/-- **The event log is faithful.** In every run, whatever the goroutines interleave: a `Spawn` that
returns a fiber has recorded that it created and scheduled it, once and in this order, and one that
fails nothing; a dispatch records that the fiber runs before it launches it, and that it has
completed before it is removed, once each and in this order. The readers return the last of the
events since `Reset`. -/
theorem event_log_faithful (h₀ : Initial c s₀)
    (h : Reach (Outbox.step (timeline c)) anyStep (.new ⟨s₀, []⟩) o) (capacity : Int) :
    (∀ f, Told o f)
      ∧ ∃ et, tracker capacity o.done = some et ∧ et.getEvents
        = some ((BoundedLog.since o.done).rtake (EventTracker.new capacity).capacity) :=
  ⟨told_of_reach h₀ h, tracker_getEvents capacity o.done⟩

/-- A step of the runtime in a trace. -/
def Label.acted (l : Label) : Outbox.Label Act Recorder := .act ⟨l, ⟨0, 0, "fiber", false⟩⟩

/-- The loop is faster than `Spawn`: a fiber has run and completed before its creation is
recorded. -/
theorem event_log_faithful_early :
    ∃ o : Outbox Enlisted Recorder (BoundedLog.Op FiberEvent),
      Reach (Outbox.step (timeline (.ofNewRuntime .fifo 1))) anyStep
        (.new ⟨.new (.ofNewRuntime .fifo 1), []⟩) o
      ∧ kinds o.done = [.running, .completed, .created, .scheduled] ∧ ∀ f, Told o f := by
  obtain ⟨o, ho, htest⟩ := exists_reach_of_exec
    (Outbox.step (timeline (.ofNewRuntime .fifo 1))) (.new ⟨.new (.ofNewRuntime .fifo 1), []⟩)
    (List.flatten
      [(Label.startTrace ++ [Label.call false 5] ++ Label.spawnTrace 0 5
          ++ [Label.loop .tick, Label.loop .next, Label.loop (.look 0 (some 0)), Label.loop .next,
            Label.loop .next]).map Label.acted,
        [.perform .loop],
        (Label.loop .next :: List.replicate 4 (Label.go 0 ∅)).map Label.acted,
        [.perform (.go 0)],
        (Label.spawnTrace 0 4).map Label.acted,
        [.perform (.spawn 0), .perform (.spawn 0)]])
    (fun o => decide (kinds o.done = [.running, .completed, .created, .scheduled]))
    (by decide +kernel)
  exact ⟨o, ho, of_decide_eq_true htest, (event_log_faithful (.inl rfl) ho 10000).1⟩

end

end GreenThreads.Runtime
