import GreenThreads.Runtime.Maps
import GreenThreads.Web.Swap

/-!
# GreenThreads — the runtimes of a server

Every `handleInit` makes a runtime, starts it, swaps the pointer to it and stops the one that was
there before. Several of them can be at it at the same time, together with any number of
`handleSpawn`s. The server may begin with a runtime that it was given, as the one of `cmd/server`
does.

* `no_runtime_leaked` — a runtime that stays running is the one the pointer points to, or a
  `handleInit` is about to publish it or to stop it.
* `server_fibers_bounded` — the cap of the configuration is one for each runtime; for the server
  it is that cap times one more than the `handleInit`s that are under way.
-/

namespace GreenThreads.Runtime

/-! ## Runtimes that nobody will start -/

/-- Which call holds `lifecycleMu`. -/
inductive Holder where
  | nobody
  | start
  | stop
  | reset
  deriving DecidableEq

def Lifecycle.holder : Lifecycle → Holder
  | .idle _ => .nobody
  | .startSched | .startFibers | .startRun => .start
  | .stopCancel | .stopSched | .stopJoin _ | .clear (.stop _) _ | .reapScan _ | .reapUndo _ _
  | .reapRecord _ _ _ | .join _ => .stop
  | .clear .reset _ | .resetMain | .resetFibers | .resetMetrics => .reset

namespace State

variable {c : Config} {s s' : State} {l : Label}

/-- Not running, and no `Start` on its way. -/
structure Dormant (s : State) : Prop where
  running : s.isRunning = false
  starting : s.lifecycle.holder ≠ .start

/-- Not running, or a `Stop` is on its way. -/
def Retiring (s : State) : Prop := s.lifecycle.holder = .stop ∨ s.Dormant

/-- A `Start` is on its way, or has returned without an error; otherwise it is not running. -/
def StartMade (s : State) : Prop :=
  s.Dormant ∨ s.lifecycle.holder = .start ∧ s.isRunning = false
    ∨ s.lifecycle = .idle (some (.ok ()))

/-- A step of the holder of `lifecycleMu`: of a `Start`, of a `Stop`, or of a `Reset`. -/
inductive Phase (s s' : State) : Prop where
  | start (h : s.lifecycle.holder = .start) (h' : s'.lifecycle.holder = .start)
      (hrun : s'.isRunning = s.isRunning)
  | startOk (h : s.lifecycle.holder = .start) (h' : s'.lifecycle = .idle (some (.ok ())))
  | startFailed (h : s.lifecycle.holder = .start) {e : LifecycleError}
      (h' : s'.lifecycle = .idle (some (.error e))) (hrun : s'.isRunning = s.isRunning)
  | stop (h : s.lifecycle.holder = .stop) (h' : s'.lifecycle.holder = .stop)
      (hrun : s'.isRunning = s.isRunning)
  | stopped (h : s.lifecycle.holder = .stop) {r : Except LifecycleError Unit}
      (h' : s'.lifecycle = .idle (some r)) (hstop : s'.stopped = true)
  | reset (h : s.lifecycle.holder = .reset) (h' : s'.lifecycle.holder ≠ .start)
      (hrun : s'.isRunning = s.isRunning)

theorem lifecycleStep_phase (h : s.lifecycleStep c = some s') : s.Phase s' := by
  cases lifecycleStep_effect h with
  | startSched hl | startFibers hl => exact .start (by rw [hl]; rfl) rfl rfl
  | startFailed hl => exact .startFailed (by rw [hl]; rfl) rfl rfl
  | startRun hl => exact .startOk (by rw [hl]; rfl) rfl
  | @clearAtOnce why _ hl | @clearWorker why _ hl | @clearBase why _ hl =>
    cases why with
    | stop err => exact .stop (by rw [hl]; rfl) rfl rfl
    | reset => exact .reset (by rw [hl]; rfl) nofun rfl
  | stopCancel hl | stopSched hl | stopJoin hl | reapScan hl | reaped hl | reapUndo hl
  | reapRecord hl => exact .stop (by rw [hl]; rfl) rfl rfl
  | join hl => exact .stopped (by rw [hl]; rfl) rfl rfl
  | resetMain hl | resetFibers hl | resetMetrics hl => exact .reset (by rw [hl]; rfl) nofun rfl

theorem isRunning_eq_false_of_stopped (h : s.stopped = true) : s.isRunning = false := by
  simp [isRunning, h]

/-- A step that is neither a call of `Start`, `Stop` or `Reset` nor one of the holder of the lock
leaves the run as it is. -/
theorem step_unlocked (h : step c s l = some s') (hcall : l ≠ .start ∧ l ≠ .stop ∧ l ≠ .reset) :
    s'.lifecycle = s.lifecycle ∧ s'.isRunning = s.isRunning ∨ s.Phase s' := by
  cases step_effect h with
  | start => exact absurd rfl hcall.1
  | stop => exact absurd rfl hcall.2.1
  | reset => exact absurd rfl hcall.2.2
  | call | cancelCtx => exact .inl ⟨rfl, rfl⟩
  | lifecycle => exact .inr (lifecycleStep_phase h)
  | deadline hjoin => exact .inr (.stopped (by rw [hjoin]; rfl) rfl rfl)
  | _ =>
    have hf := step_frame h rfl
    exact .inl ⟨hf.lifecycle, by rw [isRunning, isRunning, hf.run.1, hf.run.2.2.2]⟩

theorem Dormant.step (hd : s.Dormant) (hl : l ≠ .start) (h : step c s l = some s') :
    s'.Dormant := by
  by_cases hcall : l = .stop ∨ l = .reset
  · rcases hcall with rfl | rfl <;>
    · obtain ⟨last, -, rfl⟩ := begin_effect h
      exact ⟨hd.running, by simp [hd.running, Lifecycle.holder]⟩
  rcases step_unlocked h ⟨hl, not_or.mp hcall⟩ with ⟨hlife, hrun⟩ | hphase
  · exact ⟨hrun.trans hd.running, hlife ▸ hd.starting⟩
  · cases hphase with
    | start hs | startOk hs | startFailed hs => exact absurd hs hd.starting
    | stop _ h' hrun => exact ⟨hrun.trans hd.running, by rw [h']; nofun⟩
    | stopped _ h' hstop => exact ⟨isRunning_eq_false_of_stopped hstop, by rw [h']; nofun⟩
    | reset _ h' hrun => exact ⟨hrun.trans hd.running, h'⟩

theorem Retiring.step (hr : s.Retiring) (hl : l ≠ .start) (h : step c s l = some s') :
    s'.Retiring := by
  rcases hr with hholder | hd
  · have hbusy : l ≠ .stop ∧ l ≠ .reset := by
      constructor <;> rintro rfl <;> obtain ⟨last, hidle, -⟩ := begin_effect h <;>
        · rw [hidle] at hholder
          cases hholder
    rcases step_unlocked h ⟨hl, hbusy⟩ with ⟨hlife, -⟩ | hphase
    · exact .inl (hlife ▸ hholder)
    · cases hphase with
      | start hs | startOk hs | startFailed hs | reset hs =>
        rw [hholder] at hs
        cases hs
      | stop _ h' => exact .inl h'
      | stopped _ h' hstop =>
        exact .inr ⟨isRunning_eq_false_of_stopped hstop, by rw [h']; nofun⟩
  · exact .inr (hd.step hl h)

/-- `Stop` sees to it that the runtime does not stay running. -/
theorem retiring_of_stop (h : step c s .stop = some s') : s'.Retiring := by
  obtain ⟨last, -, rfl⟩ := begin_effect h
  cases hs : s.isRunning with
  | true => exact .inl rfl
  | false => exact .inr ⟨hs, nofun⟩

theorem startMade_of_start (hd : s.Dormant) (h : step c s .start = some s') : s'.StartMade := by
  obtain ⟨last, -, rfl⟩ := begin_effect h
  exact .inr (.inl ⟨by simp [hd.running, Lifecycle.holder], hd.running⟩)

theorem StartMade.step (hm : s.StartMade) (hl : l ≠ .start ∧ l ≠ .stop ∧ l ≠ .reset)
    (h : step c s l = some s') : s'.StartMade := by
  rcases hm with hd | ⟨hholder, hrun⟩ | hidle
  · exact .inl (hd.step hl.1 h)
  · rcases step_unlocked h hl with ⟨hlife, hrun'⟩ | hphase
    · exact .inr (.inl ⟨hlife ▸ hholder, hrun'.trans hrun⟩)
    · cases hphase with
      | start _ h' hrun' => exact .inr (.inl ⟨h', hrun'.trans hrun⟩)
      | startOk _ h' => exact .inr (.inr h')
      | startFailed _ h' hrun' => exact .inl ⟨hrun'.trans hrun, by rw [h']; nofun⟩
      | stop hs | stopped hs | reset hs =>
        rw [hholder] at hs
        cases hs
  · rcases step_unlocked h hl with ⟨hlife, -⟩ | hphase
    · exact .inr (.inr (hlife.trans hidle))
    · cases hphase with
      | start hs | startOk hs | startFailed hs | stop hs | stopped hs | reset hs =>
        rw [hidle] at hs
        cases hs

end State

end GreenThreads.Runtime

namespace GreenThreads.Web

open Trans
open Scheduler (SchedulerType)

/-- The runtime that the handler is to publish or to stop. -/
def InitHandler.keeps : InitHandler → Option Nat
  | created q _ | starting q _ | started q _ => some q
  | swapped old _ => old
  | stopping _ _ | answered _ => none

/-- What the handler may rely on: before its `Start`, and during it. -/
def InitHandler.Sane (heap : Nat → RuntimeInstance) : InitHandler → Prop
  | created q _ => (heap q).state.Dormant
  | starting q _ => (heap q).state.StartMade
  | started _ _ | swapped _ _ | stopping _ _ | answered _ => True

namespace ControlPlane

/-- The runtime that `handleInit` number `i` has made and not published. -/
def made (s : ControlPlane) (i : Nat) : Option Nat := s.inits[i]?.bind InitHandler.address

/-- Nobody but `handleInit` calls `Start`, and nobody can stop or reset a runtime that is not
published. -/
def Sealed (s : ControlPlane) : Label → Prop
  | .run p l => l ≠ .start ∧ (l = .stop ∨ l = .reset → ∀ hd ∈ s.inits, hd.address ≠ some p)
  | .spawnRequest _ | .spawn _ _ | .initRequest _ | .init _ => True

instance (s : ControlPlane) : (l : Label) → Decidable (s.Sealed l)
  | .run _ _ => inferInstanceAs (Decidable (_ ∧ _))
  | .spawnRequest _ | .spawn _ _ | .initRequest _ | .init _ => .isTrue trivial

/-- The pointer points to the runtime, or has done so until a moment ago. -/
def Published (s : ControlPlane) (p : Nat) : Prop :=
  s.runtime = some p ∨ ∃ (i : Nat) (reply : Outgoing), s.inits[i]? = some (.swapped (some p) reply)

/-- Where the runtimes are. -/
structure Owned (s : ControlPlane) : Prop where
  unique : ∀ i j q, s.made i = some q → s.made j = some q → i = j
  fresh : ∀ i q, s.made i = some q → q < s.fresh
  published : ∀ p, s.Published p → p < s.fresh ∧ ∀ i, s.made i ≠ some p
  sane : ∀ (i : Nat) (hd : InitHandler), s.inits[i]? = some hd → hd.Sane s.heap
  /-- A runtime that may stay running is the current one, or a handler has it. -/
  accounted : ∀ p < s.fresh, (s.heap p).state.Retiring ∨ s.runtime = some p
    ∨ ∃ (i : Nat) (hd : InitHandler), s.inits[i]? = some hd ∧ hd.keeps = some p

namespace Owned

variable {numCPU : Nat} {cfg : ServerConfig} {s s' : ControlPlane} {l : Label} {i p : Nat}

/-- `handleSpawn`s own nothing. -/
theorem of_eq (ho : s.Owned) (hruntime : s'.runtime = s.runtime) (hheap : s'.heap = s.heap)
    (hfresh : s'.fresh = s.fresh) (hinits : s'.inits = s.inits) : s'.Owned := by
  obtain ⟨runtime, heap, fresh, spawns, inits, spawnErrors⟩ := s'
  subst hruntime hheap hfresh hinits
  exact ⟨ho.unique, ho.fresh, ho.published, ho.sane, ho.accounted⟩

/-- A step of a runtime that is no call of `Start`. -/
theorem runs {l : Runtime.Label} {rt : Runtime.State} (ho : s.Owned)
    (hrt : Runtime.step (s.heap p).config (s.heap p).state l = some rt)
    (hl : l ≠ .start) (hfree : l = .stop ∨ l = .reset → ∀ i, s.made i ≠ some p) :
    ControlPlane.Owned
      { s with heap := Function.update s.heap p { s.heap p with state := rt } } := by
  have hother : ∀ q, q ≠ p → Function.update s.heap p { s.heap p with state := rt } q = s.heap q :=
    fun q hq => Function.update_of_ne hq ..
  refine ⟨ho.unique, ho.fresh, ho.published, fun i hd hi => ?_, fun q hq => ?_⟩
  · have hsane := ho.sane i hd hi
    cases hd with
    | created q =>
      by_cases hq : q = p
      · subst hq
        simpa [InitHandler.Sane] using Runtime.State.Dormant.step hsane hl hrt
      · simpa [InitHandler.Sane, hother q hq] using hsane
    | starting q =>
      by_cases hq : q = p
      · subst hq
        have hmade : s.made i = some q := by rw [made, hi]; rfl
        have hcall : l ≠ .stop ∧ l ≠ .reset :=
          ⟨fun heq => hfree (.inl heq) i hmade, fun heq => hfree (.inr heq) i hmade⟩
        simpa [InitHandler.Sane] using Runtime.State.StartMade.step hsane ⟨hl, hcall⟩ hrt
      · simpa [InitHandler.Sane, hother q hq] using hsane
    | _ => trivial
  · rcases ho.accounted q hq with hret | hkept
    · left
      by_cases hqp : q = p
      · subst hqp
        simpa using hret.step hl hrt
      · simpa [hqp] using hret
    · exact .inr hkept

/-- After a step of one handler, the runtimes that the handlers have made are the ones they had. -/
theorem made_of_set {hd hd' : InitHandler} {j q : Nat} (hi : s.inits[i]? = some hd)
    (haddr : hd'.address = hd.address ∨ hd'.address = none)
    (hq : (s.inits.set i hd')[j]?.bind InitHandler.address = some q) : s.made j = some q := by
  by_cases hj : j = i
  · subst hj
    rw [List.getElem?_set_self (List.getElem?_eq_some_iff.mp hi).1, Option.bind_some] at hq
    rw [made, hi, Option.bind_some]
    rcases haddr with heq | hnone
    · exact heq ▸ hq
    · rw [hnone] at hq
      cases hq
  · rwa [List.getElem?_set_ne (Ne.symm hj)] at hq

/-- A handler takes a step of its own, in which it may publish the runtime it has made. -/
theorem move {hd hd' : InitHandler} {r : Option Nat} (ho : s.Owned) (hi : s.inits[i]? = some hd)
    (haddr : hd'.address = hd.address ∨ hd'.address = none) (hsane : hd'.Sane s.heap)
    (hruntime : r = s.runtime ∨ r = hd.address ∧ hd'.address = none)
    (hold : ∀ p reply, hd' = .swapped (some p) reply → s.runtime = some p)
    (hkeeps : ∀ p, s.runtime = some p ∨ hd.keeps = some p →
      (s.heap p).state.Retiring ∨ r = some p ∨ hd'.keeps = some p) :
    ControlPlane.Owned { s with runtime := r, inits := s.inits.set i hd' } := by
  have hlt : i < s.inits.length := (List.getElem?_eq_some_iff.mp hi).1
  have hself : (s.inits.set i hd')[i]? = some hd' := by simp [hlt]
  have hother : ∀ j, j ≠ i → (s.inits.set i hd')[j]? = s.inits[j]? :=
    fun j hj => List.getElem?_set_ne (Ne.symm hj)
  have hmade : ∀ j q, (s.inits.set i hd')[j]?.bind InitHandler.address = some q →
      s.made j = some q := fun j q => made_of_set hi haddr
  constructor
  case unique => exact fun j k q hj hk => ho.unique j k q (hmade j q hj) (hmade k q hk)
  case fresh => exact fun j q hj => ho.fresh j q (hmade j q hj)
  case published =>
    intro p hp
    have hbefore : s.Published p → p < s.fresh ∧
        ∀ j, (s.inits.set i hd')[j]?.bind InitHandler.address ≠ some p := fun hpub =>
      ⟨(ho.published p hpub).1, fun j hj => (ho.published p hpub).2 j (hmade j p hj)⟩
    rcases hp with hp | ⟨k, reply, hk⟩
    · rcases hruntime with heq | ⟨heq, hnone⟩
      · exact hbefore (.inl (heq ▸ hp))
      · -- the runtime published now was nobody else's
        have hmine : s.made i = some p := by
          rw [made, hi, Option.bind_some, ← heq]
          exact hp
        refine ⟨ho.fresh i p hmine, fun j hj => ?_⟩
        have hji : j = i := ho.unique j i p (hmade j p hj) hmine
        subst hji
        change (s.inits.set j hd')[j]?.bind InitHandler.address = some p at hj
        rw [hself, Option.bind_some, hnone] at hj
        cases hj
    · by_cases hki : k = i
      · subst hki
        change (s.inits.set k hd')[k]? = _ at hk
        rw [hself] at hk
        exact hbefore (.inl (hold p reply (Option.some.inj hk)))
      · exact hbefore (.inr ⟨k, reply, hother k hki ▸ hk⟩)
  case sane =>
    intro j hd₁ hj
    by_cases hji : j = i
    · subst hji
      change (s.inits.set j hd')[j]? = _ at hj
      rw [hself] at hj
      exact Option.some.inj hj ▸ hsane
    · exact ho.sane j hd₁ (hother j hji ▸ hj)
  case accounted =>
    intro p hp
    have hkept : s.runtime = some p ∨ hd.keeps = some p → (s.heap p).state.Retiring ∨ r = some p
        ∨ ∃ (j : Nat) (hd₁ : InitHandler), (s.inits.set i hd')[j]? = some hd₁
          ∧ hd₁.keeps = some p := fun hp =>
      (hkeeps p hp).imp_right (Or.imp_right fun hk => ⟨i, hd', hself, hk⟩)
    rcases ho.accounted p hp with hret | hrt | ⟨j, hd₁, hj, hk⟩
    · exact .inl hret
    · exact hkept (.inl hrt)
    · by_cases hji : j = i
      · subst hji
        rw [hi] at hj
        exact hkept (.inr (Option.some.inj hj ▸ hk))
      · exact .inr (.inr ⟨j, hd₁, (hother j hji).trans hj, hk⟩)

/-- `handleInit` calls `Start` of the runtime it has made. -/
theorem starts {q : Nat} {reply : Outgoing} {rt : Runtime.State} (ho : s.Owned)
    (hi : s.inits[i]? = some (.starting q reply)) (hdormant : (s.heap q).state.Dormant)
    (hrt : Runtime.step (s.heap q).config (s.heap q).state .start = some rt) :
    ControlPlane.Owned
      { s with heap := Function.update s.heap q { s.heap q with state := rt } } := by
  have hmine : s.made i = some q := by rw [made, hi]; rfl
  refine ⟨ho.unique, ho.fresh, ho.published, fun j hd hj => ?_, fun p hp => ?_⟩
  · have hsane := ho.sane j hd hj
    by_cases hji : j = i
    · subst hji
      cases hi.symm.trans hj
      simpa [InitHandler.Sane] using Runtime.State.startMade_of_start hdormant hrt
    · -- no other handler has this runtime
      have hne : hd.address ≠ some q := fun haddr =>
        hji (ho.unique j i q (by rw [made, hj]; exact haddr) hmine)
      cases hd with
      | created q' | starting q' =>
        have hq : q' ≠ q := fun heq => hne (congrArg some heq)
        simpa [InitHandler.Sane, hq] using hsane
      | _ => trivial
  · by_cases hpq : p = q
    · subst hpq
      exact .inr (.inr ⟨i, _, hi, rfl⟩)
    · rcases ho.accounted p hp with hret | hkept
      · exact .inl (by simpa [hpq] using hret)
      · exact .inr hkept

/-- A new handler comes, with a runtime at the first free address or without one. -/
theorem add {hd' : InitHandler} {heap' : Nat → RuntimeInstance} {fresh' : Nat} (ho : s.Owned)
    (hheap : ∀ p < s.fresh, heap' p = s.heap p) (hle : s.fresh ≤ fresh')
    (haddr : ∀ q, hd'.address = some q → q = s.fresh ∧ q < fresh') (hsane : hd'.Sane heap')
    (hnot : ∀ p reply, hd' ≠ .swapped (some p) reply)
    (hkeeps : ∀ p, s.fresh ≤ p → p < fresh' → hd'.keeps = some p) :
    ControlPlane.Owned { s with heap := heap', fresh := fresh', inits := s.inits ++ [hd'] } := by
  -- the handlers there were, and the new one
  have hget : ∀ (j : Nat) (hd : InitHandler), (s.inits ++ [hd'])[j]? = some hd →
      s.inits[j]? = some hd ∨ j = s.inits.length ∧ hd = hd' := by
    intro j hd hj
    rcases Nat.lt_or_ge j s.inits.length with hlt | hge
    · exact .inl (List.getElem?_append_left hlt ▸ hj)
    · rw [List.getElem?_append_right hge] at hj
      obtain ⟨hlt, heq⟩ := List.getElem?_eq_some_iff.mp hj
      rw [List.length_singleton] at hlt
      exact .inr ⟨by omega, by simpa using heq.symm⟩
  have hmade : ∀ j q, (s.inits ++ [hd'])[j]?.bind InitHandler.address = some q →
      s.made j = some q ∨ j = s.inits.length ∧ q = s.fresh ∧ q < fresh' := by
    intro j q hq
    obtain ⟨hd, hj, hd_q⟩ := Option.bind_eq_some_iff.mp hq
    rcases hget j hd hj with hold | ⟨hlen, heq⟩
    · exact .inl (by rw [made, hold]; exact hd_q)
    · exact .inr ⟨hlen, haddr q (heq ▸ hd_q)⟩
  have hkept : ∀ (j : Nat) (hd : InitHandler), s.inits[j]? = some hd →
      (s.inits ++ [hd'])[j]? = some hd := fun j hd hj =>
    (List.getElem?_append_left (List.getElem?_eq_some_iff.mp hj).1).trans hj
  constructor
  case unique =>
    intro j k q hj hk
    rcases hmade j q hj with hj | ⟨hj, hq, -⟩ <;> rcases hmade k q hk with hk | ⟨hk, hq', -⟩
    · exact ho.unique j k q hj hk
    · have := ho.fresh j q hj
      omega
    · have := ho.fresh k q hk
      omega
    · omega
  case fresh =>
    intro j q hj
    rcases hmade j q hj with hj | ⟨-, -, hlt⟩
    · exact (ho.fresh j q hj).trans_le hle
    · exact hlt
  case published =>
    intro p hp
    have hbefore : s.Published p := by
      rcases hp with hp | ⟨k, reply, hk⟩
      · exact .inl hp
      · rcases hget k _ hk with hold | ⟨-, heq⟩
        · exact .inr ⟨k, reply, hold⟩
        · exact absurd heq.symm (hnot p reply)
    obtain ⟨hlt, hfree⟩ := ho.published p hbefore
    refine ⟨hlt.trans_le hle, fun j hj => ?_⟩
    rcases hmade j p hj with hj | ⟨-, heq, -⟩
    · exact hfree j hj
    · omega
  case sane =>
    intro j hd hj
    rcases hget j hd hj with hold | ⟨-, rfl⟩
    · have hbefore := ho.sane j hd hold
      have hlt : ∀ q, hd.address = some q → heap' q = s.heap q := fun q hq =>
        hheap q (ho.fresh j q (by rw [made, hold]; exact hq))
      cases hd with
      | created q =>
        change (heap' q).state.Dormant
        rw [hlt q rfl]
        exact hbefore
      | starting q =>
        change (heap' q).state.StartMade
        rw [hlt q rfl]
        exact hbefore
      | _ => trivial
    · exact hsane
  case accounted =>
    intro p hp
    rcases Nat.lt_or_ge p s.fresh with hlt | hge
    · rcases ho.accounted p hlt with hret | hrt | ⟨j, hd, hj, hk⟩
      · refine .inl ?_
        change (heap' p).state.Retiring
        rw [hheap p hlt]
        exact hret
      · exact .inr (.inl hrt)
      · exact .inr (.inr ⟨j, hd, hkept j hd hj, hk⟩)
    · exact .inr (.inr ⟨s.inits.length, hd', by simp, hkeeps p hge hp⟩)

theorem initBegin (ho : s.Owned) (msg : Message) : (s.initBegin numCPU cfg msg).Owned := by
  unfold ControlPlane.initBegin
  split
  · exact ho.add (fun _ _ => rfl) le_rfl nofun trivial nofun fun p hge hlt => by omega
  · refine ho.add (fun p hp => Function.update_of_ne hp.ne ..) (Nat.le_succ _) ?_ ?_ nofun ?_
    · rintro q hq
      cases hq
      exact ⟨rfl, Nat.lt_succ_self _⟩
    · simp only [InitHandler.Sane, Function.update_self]
      exact ⟨rfl, nofun⟩
    · intro p hge hlt
      rw [InitHandler.keeps]
      congr 1
      omega

theorem initStep (ho : s.Owned) (h : s.initStep i = some s') : s'.Owned := by
  cases initStep_effect h with
  | @start q reply rt hi hrt =>
    have hdormant : (s.heap q).state.Dormant := ho.sane i _ hi
    have hmoved : ControlPlane.Owned { s with inits := s.inits.set i (.starting q reply) } :=
      ho.move (r := s.runtime) hi (.inl rfl) (.inl hdormant) (.inl rfl) nofun
        fun p hp => .inr hp
    have hlt : i < s.inits.length := (List.getElem?_eq_some_iff.mp hi).1
    have hget : (s.inits.set i (.starting q reply))[i]? = some (.starting q reply) := by simp [hlt]
    exact hmoved.starts hget hdormant hrt
  | startOk hi =>
    exact ho.move (r := s.runtime) hi (.inl rfl) trivial (.inl rfl) nofun fun p hp => .inr hp
  | @startFailed q _ _ hi hl =>
    have hmade : (s.heap q).state.StartMade := ho.sane i _ hi
    have hdormant : (s.heap q).state.Dormant := by
      rcases hmade with hd | ⟨hholder, -⟩ | hidle
      · exact hd
      · rw [hl] at hholder
        cases hholder
      · cases hidle.symm.trans hl
    refine ho.move (r := s.runtime) hi (.inr rfl) trivial (.inl rfl) nofun fun p hp => ?_
    rcases hp with hp | hp
    · exact .inr (.inl hp)
    · cases hp
      exact .inl (.inr hdormant)
  | swap hi =>
    refine ho.move hi (.inr rfl) trivial (.inr ⟨rfl, rfl⟩) ?_ fun p hp => ?_
    · rintro p _ heq
      exact (InitHandler.swapped.inj heq).1
    · rcases hp with hp | hp
      · exact .inr (.inr hp)
      · exact .inr (.inl hp)
  | noOld hi | stopped hi =>
    refine ho.move (r := s.runtime) hi (.inl rfl) trivial (.inl rfl) nofun fun p hp => ?_
    rcases hp with hp | hp
    · exact .inr (.inl hp)
    · cases hp
  | @stop old reply rt hi hrt =>
    have ho₁ := ho.runs hrt nofun fun _ => (ho.published old (.inr ⟨i, reply, hi⟩)).2
    refine ho₁.move (r := s.runtime) hi (.inl rfl) trivial (.inl rfl) nofun fun p hp => ?_
    rcases hp with hp | hp
    · exact .inr (.inl hp)
    · cases hp
      exact .inl (by simpa using Runtime.State.retiring_of_stop hrt)

/-- A `handleSpawn` calls `Spawn`, and nothing else of a runtime. -/
theorem spawnStep {applied : Bool} (ho : s.Owned) (h : s.spawnStep i applied = some s') :
    s'.Owned := by
  cases spawnStep_effect h with
  | @call p name _ hi =>
    have ho₁ := ho.runs (p := p) (l := .call false name.utf8ByteSize) rfl nofun
      (fun hcall => by rcases hcall with hc | hc <;> cases hc)
    exact ho₁.of_eq rfl rfl rfl rfl
  | noRuntime | notRunning | invalid | check | acknowledge | refuse =>
    exact ho.of_eq rfl rfl rfl rfl

theorem step (ho : s.Owned) (hok : s.Sealed l) (h : step numCPU cfg s l = some s') :
    s'.Owned := by
  cases l with
  | run p l =>
    simp only [ControlPlane.step] at h
    split_ifs at h
    obtain ⟨rt, hrt, rfl⟩ := runStep_eq h
    refine ho.runs hrt hok.1 fun hcall i hmade => ?_
    obtain ⟨hd, hi, haddr⟩ := Option.bind_eq_some_iff.mp hmade
    exact hok.2 hcall hd (List.mem_of_getElem? hi) haddr
  | spawnRequest msg =>
    cases h
    exact ho.of_eq rfl rfl rfl rfl
  | spawn i applied => exact ho.spawnStep h
  | initRequest msg =>
    cases h
    exact ho.initBegin msg
  | init i => exact ho.initStep h

end Owned

section

variable {numCPU : Nat} {cfg : ServerConfig} {s₀ s s' : ControlPlane} {l : Label} {p : Nat}

/-- Of the runtimes that are there only the server's own may be running or starting. -/
def OwnsRunning (s : ControlPlane) : Prop :=
  ∀ p < s.fresh, s.runtime = some p ∨ (s.heap p).state.Dormant

theorem Initial.owned (h₀ : s₀.Initial) (hown : s₀.OwnsRunning) : s₀.Owned where
  unique i j q hi := by
    rw [made, h₀.inits] at hi
    cases hi
  fresh i q hi := by
    rw [made, h₀.inits] at hi
    cases hi
  published p hp := by
    rcases hp with hp | ⟨i, reply, hi⟩
    · refine ⟨h₀.runtime p hp, fun i hi => ?_⟩
      rw [made, h₀.inits] at hi
      cases hi
    · rw [h₀.inits] at hi
      cases hi
  sane i hd hi := by
    rw [h₀.inits] at hi
    cases hi
  accounted p hp := by
    rcases hown p hp with hcurrent | hdormant
    · exact .inr (.inl hcurrent)
    · exact .inl (.inr hdormant)

theorem owned_of_reach (h₀ : s₀.Initial) (hown : s₀.OwnsRunning)
    (h : Reach (step numCPU cfg) Sealed s₀ s) : s.Owned :=
  h.invariant (h₀.owned hown) fun _ _ _ ho hok hst => ho.step hok hst

/-- The runtime is running, and nobody is stopping it. -/
def active (s : ControlPlane) (p : Nat) : Bool :=
  (s.heap p).state.isRunning && decide ((s.heap p).state.lifecycle.holder ≠ .stop)

theorem Owned.active (ho : s.Owned) (hp : p < s.fresh) (hactive : s.active p = true) :
    s.runtime = some p ∨ ∃ hd ∈ s.inits, hd.keeps = some p := by
  obtain ⟨hrun, hholder⟩ := Bool.and_eq_true_iff.mp hactive
  rcases ho.accounted p hp with hret | hcurrent | ⟨i, hd, hi, hkeeps⟩
  · rcases hret with hstop | hdormant
    · exact absurd hstop (of_decide_eq_true hholder)
    · rw [hdormant.running] at hrun
      cases hrun
  · exact .inl hcurrent
  · exact .inr ⟨hd, List.mem_of_getElem? hi, hkeeps⟩

/-- A server never leaks a runtime: what keeps running is the runtime that the next request finds,
or a `handleInit` is about to publish it or to stop it. -/
theorem no_runtime_leaked (h₀ : s₀.Initial) (hown : s₀.OwnsRunning)
    (h : Reach (step numCPU cfg) Sealed s₀ s) (hp : p < s.fresh) (hactive : s.active p = true) :
    s.runtime = some p ∨ ∃ hd ∈ s.inits, hd.keeps = some p :=
  (owned_of_reach h₀ hown h).active hp hactive

end

/-- The server of `cmd/server`: the runtime it is given has no cap and is not started. -/
def given : ControlPlane :=
  { new with
    runtime := some 0
    heap := fun _ => ⟨.ofNewRuntime .fifo 4, .new (.ofNewRuntime .fifo 4)⟩
    fresh := 1 }

theorem initial_given : Initial given := by
  refine ⟨fun p hp => ?_, rfl, rfl⟩
  cases hp
  exact Nat.lt_succ_self 0

theorem dormant_given (p : Nat) : (given.heap p).state.Dormant := by
  refine ⟨rfl, ?_⟩
  intro h
  cases h

theorem ownsRunning_given : given.OwnsRunning := fun p _ => .inr (dormant_given p)

/-- The second `init` has swapped the pointer, and the runtime of the first is still running. -/
theorem no_runtime_leaked_swapped :
    ∃ s, Reach (step 2 ⟨100, 0, ""⟩) Sealed given s ∧ s.runtime = some 2 ∧ s.active 1 = true
      ∧ ∃ hd ∈ s.inits, hd.keeps = some 1 := by
  obtain ⟨s, hs, htest⟩ := exists_reach_of_exec_guarded (step 2 ⟨100, 0, ""⟩) Sealed given
    (List.flatten [initTrace 0 1, initTrace 1 2])
    (fun s => decide (s.runtime = some 2 ∧ 1 < s.fresh ∧ s.active 1 = true))
    (by decide +kernel)
  obtain ⟨hruntime, hfresh, hactive⟩ := of_decide_eq_true htest
  refine ⟨s, hs, hruntime, hactive, ?_⟩
  rcases no_runtime_leaked initial_given ownsRunning_given hs hfresh hactive with hcurrent | hkeeps
  · cases hruntime.symm.trans hcurrent
  · exact hkeeps

/-! ## All fibers of a server -/

section

variable {numCPU : Nat} {cfg : ServerConfig} {s₀ s s' : ControlPlane} {l : Label} {p : Nat}

/-- The runtime that `handleInit` makes. -/
def instanceOf (numCPU : Nat) (cfg : ServerConfig) (sType : SchedulerType) (numWorkers : Int) :
    RuntimeInstance :=
  let config := Runtime.Config.ofOptions numCPU [.withSchedulerType sType,
    .withNumWorkers numWorkers, .withMaxFibers cfg.maxFibersPerRuntime]
  ⟨config, .newWithOptions config⟩

/-- A runtime in use was there before the step, and has taken a step of its own at most, or it
has been made in the step. -/
theorem step_instance (h : step numCPU cfg s l = some s') (hp : p < s'.fresh) :
    (p < s.fresh ∧ (s'.heap p = s.heap p ∨ s.Ran s' p))
      ∨ ∃ sType numWorkers, s'.heap p = instanceOf numCPU cfg sType numWorkers := by
  by_cases hlt : p < s.fresh
  · exact .inl ⟨hlt, (step_turn h).heap p hlt⟩
  · right
    cases l with
    | run q l =>
      simp only [step] at h
      split_ifs at h
      obtain ⟨rt, -, rfl⟩ := runStep_eq h
      exact absurd hp hlt
    | spawnRequest msg =>
      cases h
      exact absurd hp hlt
    | spawn i applied =>
      obtain ⟨-, -, -, hfresh, -⟩ := spawnStep_cases h
      exact absurd (hfresh ▸ hp) hlt
    | init i =>
      obtain ⟨-, -, -, hfresh, -⟩ := initStep_cases h
      exact absurd (hfresh ▸ hp) hlt
    | initRequest msg =>
      cases h
      unfold initBegin at hp ⊢
      split at hp
      · exact absurd hp hlt
      · next sType name numWorkers heq =>
        have hpeq : p = s.fresh := by
          change p < s.fresh + 1 at hp
          omega
        subst hpeq
        exact ⟨sType, numWorkers, by simp only [Function.update_self, instanceOf]⟩

/-- A runtime with a cap of at most the server's, and within it. -/
structure Capped (cfg : ServerConfig) (rt : RuntimeInstance) : Prop where
  pos : 0 < rt.config.maxFibers
  le : rt.config.maxFibers ≤ cfg.maxFibersPerRuntime
  sound : rt.state.Sound rt.config
  covered : rt.state.Covered
  taken : rt.state.taken ≤ rt.config.maxFibers

theorem Capped.initial {rt : RuntimeInstance} (h : Runtime.Initial rt.config rt.state)
    (hpos : 0 < rt.config.maxFibers) (hle : rt.config.maxFibers ≤ cfg.maxFibersPerRuntime) :
    Capped cfg rt := by
  refine ⟨hpos, hle, h.sound, ?_, ?_⟩
  · rcases h with h | h <;> rw [h] <;> exact le_rfl
  · rcases h with h | h <;> rw [h] <;> exact hpos.le

theorem Capped.step {rt : RuntimeInstance} {l : Runtime.Label} {st : Runtime.State}
    (hc : Capped cfg rt) (h : Runtime.step rt.config rt.state l = some st) :
    Capped cfg { rt with state := st } where
  pos := hc.pos
  le := hc.le
  sound := hc.sound.step h
  covered := hc.covered.step hc.sound h
  taken := hc.sound.taken_step h hc.pos hc.covered hc.taken

theorem Capped.card_le {rt : RuntimeInstance} (hc : Capped cfg rt) :
    (rt.state.spawnedFibers.card : Int) ≤ cfg.maxFibersPerRuntime := by
  refine le_trans ?_ (hc.taken.trans hc.le)
  rw [← hc.sound.sum_inFibers, Nat.cast_sum]
  exact Finset.sum_le_sum fun f _ => Int.ofNat_le.mpr (Nat.le_add_left _ _)

/-- A runtime that was made with a cap of at most the server's, and has run since. -/
structure MadeCapped (cfg : ServerConfig) (rt : RuntimeInstance) : Prop where
  made : ∃ st₀, Runtime.Initial rt.config st₀
    ∧ Reach (Runtime.step rt.config) anyStep st₀ rt.state
  pos : 0 < rt.config.maxFibers
  le : rt.config.maxFibers ≤ cfg.maxFibersPerRuntime

theorem MadeCapped.capped {rt : RuntimeInstance} (h : MadeCapped cfg rt) : Capped cfg rt := by
  obtain ⟨st₀, hinit, hreach⟩ := h.made
  have hcapped : Capped cfg { rt with state := st₀ } := .initial hinit h.pos h.le
  exact hreach.invariant (P := fun st => Capped cfg { rt with state := st }) hcapped
    fun _ _ _ hc _ hst => hc.step hst

/-- No handler is going to start the runtime. -/
def Unmade (s : ControlPlane) (p : Nat) : Prop := ∀ hd ∈ s.inits, hd.address ≠ some p

theorem Unmade.step (hp : p < s.fresh) (hu : s.Unmade p) (h : step numCPU cfg s l = some s') :
    s'.Unmade p := by
  intro hd hmem haddr
  rcases (step_turn h).inits hd hmem p haddr with ⟨hd₀, hmem₀, haddr₀⟩ | ⟨hle, -⟩
  · exact hu hd₀ hmem₀ haddr₀
  · omega

/-- The runtime at `q` takes a step, which is no call of `Start` if it is the dormant one. -/
theorem dormant_update {q : Nat} {l : Runtime.Label} {rt : Runtime.State}
    (hd : (s.heap p).state.Dormant)
    (hrt : Runtime.step (s.heap q).config (s.heap q).state l = some rt)
    (hne : q = p → l ≠ .start) :
    (Function.update s.heap q { s.heap q with state := rt } p).state.Dormant := by
  by_cases hq : q = p
  · subst hq
    rw [Function.update_self]
    exact hd.step (hne rfl) hrt
  · rwa [Function.update_of_ne (Ne.symm hq)]

/-- A dormant runtime stays so, if it is not the one that a `handleInit` has made. -/
theorem dormant_step (hp : p < s.fresh) (hu : s.Unmade p) (hd : (s.heap p).state.Dormant)
    (hok : s.Sealed l) (h : step numCPU cfg s l = some s') : (s'.heap p).state.Dormant := by
  cases l with
  | run q l =>
    simp only [step] at h
    split_ifs at h
    obtain ⟨rt, hrt, rfl⟩ := runStep_eq h
    exact dormant_update hd hrt fun _ => hok.1
  | spawnRequest msg =>
    cases h
    exact hd
  | spawn i applied =>
    cases spawnStep_effect h with
    | @call q name _ hi =>
      exact dormant_update (l := .call false name.utf8ByteSize) hd rfl fun _ => by simp
    | noRuntime | notRunning | invalid | check | acknowledge | refuse => exact hd
  | initRequest msg =>
    cases h
    unfold initBegin
    split
    · exact hd
    · simp only [Function.update_of_ne hp.ne]
      exact hd
  | init i =>
    cases initStep_effect h with
    | start hi hrt =>
      refine dormant_update hd hrt fun heq => absurd ?_ (hu _ (List.mem_of_getElem? hi))
      exact congrArg some heq
    | stop hi hrt => exact dormant_update hd hrt fun _ => by simp
    | startOk | startFailed | swap | noOld | stopped => exact hd

/-- Every runtime has a cap, or nobody is going to start it. -/
def Bounded (cfg : ServerConfig) (s : ControlPlane) : Prop :=
  ∀ p < s.fresh, Capped cfg (s.heap p) ∨ (s.heap p).state.Dormant ∧ s.Unmade p

theorem Bounded.step (hmax : 0 < cfg.maxFibersPerRuntime) (hb : s.Bounded cfg) (hok : s.Sealed l)
    (h : step numCPU cfg s l = some s') : s'.Bounded cfg := by
  intro p hp
  rcases step_instance h hp with ⟨hlt, hheap⟩ | ⟨sType, numWorkers, heq⟩
  · rcases hb p hlt with hc | ⟨hd, hu⟩
    · left
      rcases hheap with hsame | ⟨rl, st, hrt, hheap⟩
      · exact hsame ▸ hc
      · exact hheap ▸ hc.step hrt
    · exact .inr ⟨dormant_step hlt hu hd hok h, hu.step hlt h⟩
  · left
    rw [heq]
    exact .initial (.inr rfl) hmax le_rfl

/-- The runtimes that are running and that nobody is stopping. -/
def activeRuntimes (s : ControlPlane) : Finset Nat := {p ∈ Finset.range s.fresh | s.active p = true}

/-- The `handleInit`s that have a runtime to publish or to stop. -/
def underWay (s : ControlPlane) : Nat := s.inits.countP fun hd => hd.keeps.isSome

theorem Owned.card_activeRuntimes (ho : s.Owned) : s.activeRuntimes.card ≤ 1 + s.underWay := by
  have hsub : s.activeRuntimes
      ⊆ s.runtime.toFinset ∪ (s.inits.filterMap InitHandler.keeps).toFinset := by
    intro p hp
    obtain ⟨hlt, hactive⟩ := Finset.mem_filter.mp hp
    rcases ho.active (Finset.mem_range.mp hlt) hactive with hcurrent | ⟨hd, hmem, hkeeps⟩
    · exact Finset.mem_union_left _ (Option.mem_toFinset.mpr hcurrent)
    · exact Finset.mem_union_right _
        (List.mem_toFinset.mpr (List.mem_filterMap.mpr ⟨hd, hmem, hkeeps⟩))
  have hone : s.runtime.toFinset.card ≤ 1 := by
    rw [Option.card_toFinset]
    cases s.runtime <;> simp
  calc s.activeRuntimes.card
      ≤ s.runtime.toFinset.card + (s.inits.filterMap InitHandler.keeps).toFinset.card :=
        (Finset.card_le_card hsub).trans (Finset.card_union_le _ _)
    _ ≤ 1 + (s.inits.filterMap InitHandler.keeps).length :=
        Nat.add_le_add hone (List.toFinset_card_le _)
    _ = 1 + s.underWay := by rw [List.length_filterMap_eq_countP, underWay]

/-- All runtimes of the server together have at most the fibers of one cap, and one cap more for
each `handleInit` under way. Of the runtimes that the server begins with, those that have no such
cap are not started. -/
theorem server_fibers_bounded (h₀ : s₀.Initial) (hown : s₀.OwnsRunning)
    (hcap : ∀ p < s₀.fresh, MadeCapped cfg (s₀.heap p) ∨ (s₀.heap p).state.Dormant)
    (hmax : 0 < cfg.maxFibersPerRuntime) (h : Reach (step numCPU cfg) Sealed s₀ s) :
    ∑ p ∈ s.activeRuntimes, ((s.heap p).state.spawnedFibers.card : Int)
      ≤ (1 + s.underWay) * cfg.maxFibersPerRuntime := by
  have hbounded : s.Bounded cfg := by
    refine h.invariant (P := Bounded cfg) (fun p hp => ?_) fun _ _ _ hb hok hst =>
      hb.step hmax hok hst
    refine (hcap p hp).imp MadeCapped.capped fun hd => ⟨hd, ?_⟩
    intro hd' hmem
    rw [h₀.inits] at hmem
    cases hmem
  have hone : ∀ p ∈ s.activeRuntimes,
      ((s.heap p).state.spawnedFibers.card : Int) ≤ cfg.maxFibersPerRuntime := by
    intro p hp
    obtain ⟨hlt, hactive⟩ := Finset.mem_filter.mp hp
    rcases hbounded p (Finset.mem_range.mp hlt) with hc | ⟨hd, -⟩
    · exact hc.card_le
    · cases hd.running.symm.trans (Bool.and_eq_true_iff.mp hactive).1
  have hcard : (s.activeRuntimes.card : Int) ≤ 1 + s.underWay := by
    exact_mod_cast (owned_of_reach h₀ hown h).card_activeRuntimes
  calc ∑ p ∈ s.activeRuntimes, ((s.heap p).state.spawnedFibers.card : Int)
      ≤ s.activeRuntimes.card • cfg.maxFibersPerRuntime := Finset.sum_le_card_nsmul _ _ _ hone
    _ = s.activeRuntimes.card * cfg.maxFibersPerRuntime := nsmul_eq_mul _ _
    _ ≤ (1 + s.underWay) * cfg.maxFibersPerRuntime := Int.mul_le_mul_of_nonneg_right hcard hmax.le

end

/-- Two fibers under a cap of one, while the second `init` has not stopped the runtime of the
first. -/
theorem server_fibers_bounded_two :
    ∃ s, Reach (step 2 ⟨1, 0, ""⟩) Sealed given s
      ∧ ∑ p ∈ s.activeRuntimes, ((s.heap p).state.spawnedFibers.card : Int) = 2
      ∧ s.underWay = 1 ∧ (2 : Int) ≤ (1 + s.underWay) * 1 := by
  obtain ⟨s, hs, htest⟩ := exists_reach_of_exec_guarded (step 2 ⟨1, 0, ""⟩) Sealed given
    (List.flatten [initTrace 0 1, [.init 0, .init 0, .run 1 (.call false 0)],
      List.replicate 4 (.run 1 (.spawn 0 0)), initTrace 1 2, [.run 2 (.call false 0)],
      List.replicate 4 (.run 2 (.spawn 0 0))])
    (fun s => decide
      (∑ p ∈ s.activeRuntimes, ((s.heap p).state.spawnedFibers.card : Int) = 2 ∧ s.underWay = 1))
    (by decide +kernel)
  obtain ⟨htwo, hway⟩ := of_decide_eq_true htest
  exact ⟨s, hs, htwo, hway, htwo ▸ server_fibers_bounded initial_given ownsRunning_given
    (fun p _ => .inr (dormant_given p)) (by decide) hs⟩

end ControlPlane

end GreenThreads.Web
