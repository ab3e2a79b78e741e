import GreenThreads.Fiber
import Mathlib.Data.List.Basic

/-!
# GreenThreads — blocking calls and their waiter records

Every blocking operation of `internal/sync` has the same shape. Its first critical section
either finishes the call or parks it: a waiter record with a fresh `ready` channel joins a
queue. A later critical section of somebody else takes the record off the queue, writes its
result and closes `ready`. The parked goroutine then resumes; the `*Ctx` variants may instead
see their context done and take a second critical section of their own, in which they look
at `ready` once more.

A call is named by its position in the table of all calls made so far, and so is its waiter
record: Go compares waiter pointers, and every call makes at most one.
-/

namespace GreenThreads.Sync

/-- A waiter record (`mutexWaiter`, `rwWaiter`, `channelSender`, ...): the call that made it
and the fiber it parks. -/
structure Waiter where
  call : Nat
  fiber : FiberRef
  deriving DecidableEq, Repr

/-- Where a call stands. `ρ` is what it returns. -/
inductive Phase (ρ : Type*) where
  /-- Its waiter record is queued and `ready` is open. -/
  | parked
  /-- `ready` has been closed over the result `r`; the goroutine has not resumed yet. -/
  | woken (r : ρ)
  /-- The call has returned `r`. -/
  | returned (r : ρ)
  deriving DecidableEq, Repr

/-- The result of a call once it is settled: written in its waiter record, or returned. -/
@[simp] def Phase.result {ρ : Type*} : Phase ρ → Option ρ
  | .parked => none
  | .woken r => some r
  | .returned r => some r

/-- One call: which operation it is and where it stands. -/
structure Call (κ ρ : Type*) where
  op : κ
  phase : Phase ρ
  deriving DecidableEq, Repr

/-- All calls made so far, oldest first. -/
abbrev Calls (κ ρ : Type*) := List (Call κ ρ)

namespace Calls

variable {κ ρ : Type*}

/-- Where call `c` stands, if it has been made. -/
def phaseOf (calls : Calls κ ρ) (c : Nat) : Option (Phase ρ) := (calls[c]?).map Call.phase

/-- Which operation call `c` is, if it has been made. -/
def opOf (calls : Calls κ ρ) (c : Nat) : Option κ := (calls[c]?).map Call.op

/-- The settled result of call `c`, if it has one. -/
def resultOf (calls : Calls κ ρ) (c : Nat) : Option ρ := (calls.phaseOf c).bind Phase.result

/-- Call `c` has been made and is one of the operations `mine` selects. -/
def Is (calls : Calls κ ρ) (mine : κ → Bool) (c : Nat) : Prop :=
  (calls.opOf c).any mine = true

/-- Move call `c` to `p`. -/
def setPhase (calls : Calls κ ρ) (c : Nat) (p : Phase ρ) : Calls κ ρ :=
  calls.modify c fun k => { k with phase := p }

/-- Close the `ready` channels of the calls `cs`, in order, over one result. -/
def wakeAll (calls : Calls κ ρ) (cs : List Nat) (r : ρ) : Calls κ ρ :=
  cs.foldl (fun calls c => calls.setPhase c (.woken r)) calls

/-- Close the `ready` channels of some calls, each over its own result. -/
def wakeEach (calls : Calls κ ρ) (ws : List (Nat × ρ)) : Calls κ ρ :=
  ws.foldl (fun calls w => calls.setPhase w.1 (.woken w.2)) calls

theorem wakeEach_append (calls : Calls κ ρ) (ws ws' : List (Nat × ρ)) :
    calls.wakeEach (ws ++ ws') = (calls.wakeEach ws).wakeEach ws' :=
  List.foldl_append

/-- Waking several calls over one result is a round. -/
theorem wakeEach_map {α : Type*} (calls : Calls κ ρ) (key : α → Nat) (queue : List α) (r : ρ) :
    calls.wakeEach (queue.map fun w => (key w, r)) = calls.wakeAll (queue.map key) r := by
  simp [wakeEach, wakeAll, List.foldl_map]

/-! ## Lookups after an update -/

@[simp] theorem length_setPhase (calls : Calls κ ρ) (c : Nat) (p : Phase ρ) :
    (calls.setPhase c p).length = calls.length := by
  simp [setPhase]

@[simp] theorem opOf_setPhase (calls : Calls κ ρ) (c c' : Nat) (p : Phase ρ) :
    (calls.setPhase c p).opOf c' = calls.opOf c' := by
  unfold opOf setPhase
  rw [List.getElem?_modify]
  by_cases h : c = c'
  · cases calls[c']? <;> simp [h]
  · cases calls[c']? <;> simp [h]

theorem phaseOf_setPhase (calls : Calls κ ρ) (c c' : Nat) (p : Phase ρ) :
    (calls.setPhase c p).phaseOf c'
      = if c = c' then (calls.phaseOf c').map (fun _ => p) else calls.phaseOf c' := by
  unfold phaseOf setPhase
  rw [List.getElem?_modify]
  by_cases h : c = c'
  · cases calls[c']? <;> simp [h]
  · cases calls[c']? <;> simp [h]

/-- A call that exists is where it was just moved to. -/
theorem phaseOf_setPhase_self {calls : Calls κ ρ} {c : Nat} {q : Phase ρ} (p : Phase ρ)
    (h : calls.phaseOf c = some q) : (calls.setPhase c p).phaseOf c = some p := by
  simp [phaseOf_setPhase, h]

theorem phaseOf_setPhase_ne (calls : Calls κ ρ) {c c' : Nat} (p : Phase ρ) (h : c ≠ c') :
    (calls.setPhase c p).phaseOf c' = calls.phaseOf c' := by
  simp [phaseOf_setPhase, h]

@[simp] theorem length_wakeAll (calls : Calls κ ρ) (cs : List Nat) (r : ρ) :
    (calls.wakeAll cs r).length = calls.length := by
  induction cs generalizing calls with
  | nil => rfl
  | cons c cs ih => exact (ih _).trans (length_setPhase calls c _)

@[simp] theorem length_wakeEach (calls : Calls κ ρ) (ws : List (Nat × ρ)) :
    (calls.wakeEach ws).length = calls.length := by
  induction ws generalizing calls with
  | nil => rfl
  | cons w ws ih => exact (ih _).trans (length_setPhase calls w.1 _)

@[simp] theorem opOf_wakeAll (calls : Calls κ ρ) (cs : List Nat) (c' : Nat) (r : ρ) :
    (calls.wakeAll cs r).opOf c' = calls.opOf c' := by
  induction cs generalizing calls with
  | nil => rfl
  | cons c cs ih => exact (ih _).trans (opOf_setPhase calls c c' _)

/-- After a round of wake-ups exactly the calls of the round are woken. -/
theorem phaseOf_wakeAll (calls : Calls κ ρ) (cs : List Nat) (c' : Nat) (r : ρ) :
    (calls.wakeAll cs r).phaseOf c'
      = if c' ∈ cs then (calls.phaseOf c').map (fun _ => .woken r) else calls.phaseOf c' := by
  induction cs generalizing calls with
  | nil => simp [wakeAll]
  | cons c cs ih =>
    have hrec := ih (calls.setPhase c (.woken r))
    rw [show calls.wakeAll (c :: cs) r = (calls.setPhase c (.woken r)).wakeAll cs r from rfl,
      hrec, phaseOf_setPhase]
    by_cases hc : c = c'
    · subst hc
      cases calls.phaseOf c <;> simp
    · have hc' : c' ≠ c := fun h => hc h.symm
      simp [hc, hc']

/-! ## A new call -/

theorem getElem?_append_call (calls : Calls κ ρ) (k : Call κ ρ) (c : Nat) :
    (calls ++ [k])[c]? = if c = calls.length then some k else calls[c]? := by
  rcases Nat.lt_trichotomy c calls.length with hlt | rfl | hgt
  · rw [List.getElem?_append_left hlt, if_neg (Nat.ne_of_lt hlt)]
  · rw [List.getElem?_concat_length, if_pos rfl]
  · rw [if_neg (Nat.ne_of_gt hgt), List.getElem?_eq_none (Nat.le_of_lt hgt),
      List.getElem?_eq_none (by simpa using Nat.succ_le_of_lt hgt)]

/-- A new call stands where its first section left it; the others stand where they were. -/
theorem phaseOf_append (calls : Calls κ ρ) (k : Call κ ρ) (c : Nat) :
    phaseOf (calls ++ [k]) c = if c = calls.length then some k.phase else phaseOf calls c := by
  unfold phaseOf
  rw [getElem?_append_call]
  split <;> rfl

theorem opOf_append (calls : Calls κ ρ) (k : Call κ ρ) (c : Nat) :
    opOf (calls ++ [k]) c = if c = calls.length then some k.op else opOf calls c := by
  unfold opOf
  rw [getElem?_append_call]
  split <;> rfl

/-- Only calls that were made stand anywhere. -/
theorem lt_length_of_phaseOf {calls : Calls κ ρ} {c : Nat} {p : Phase ρ}
    (h : calls.phaseOf c = some p) : c < calls.length := by
  unfold phaseOf at h
  obtain ⟨k, hk, -⟩ := Option.map_eq_some_iff.mp h
  exact (List.getElem?_eq_some_iff.mp hk).1

theorem phaseOf_length (calls : Calls κ ρ) : calls.phaseOf calls.length = none := by
  simp [phaseOf]

/-! ## Results and classes of calls under the updates -/

theorem resultOf_append (calls : Calls κ ρ) (k : Call κ ρ) (c : Nat) :
    resultOf (calls ++ [k]) c = if c = calls.length then k.phase.result else calls.resultOf c := by
  unfold resultOf
  rw [phaseOf_append]
  by_cases h : c = calls.length <;> simp [h]

theorem resultOf_setPhase_ne (calls : Calls κ ρ) {c c' : Nat} (p : Phase ρ) (h : c ≠ c') :
    (calls.setPhase c p).resultOf c' = calls.resultOf c' := by
  unfold resultOf
  rw [phaseOf_setPhase_ne calls p h]

theorem resultOf_of_parked {calls : Calls κ ρ} {c : Nat} (h : calls.phaseOf c = some .parked) :
    calls.resultOf c = none := by
  simp [resultOf, h, Phase.result]

theorem resultOf_length (calls : Calls κ ρ) : calls.resultOf calls.length = none := by
  simp [resultOf, phaseOf_length]

theorem resultOf_of_returned {calls : Calls κ ρ} {c : Nat} {r : ρ}
    (h : calls.phaseOf c = some (.returned r)) : calls.resultOf c = some r := by
  simp [resultOf, h]

/-- A settled result stays the result when the call returns. -/
theorem resultOf_resume {calls : Calls κ ρ} {c : Nat} {r : ρ}
    (h : calls.phaseOf c = some (.woken r)) (c' : Nat) :
    (calls.setPhase c (.returned r)).resultOf c' = calls.resultOf c' := by
  by_cases hc : c = c'
  · subst hc
    simp [resultOf, phaseOf_setPhase_self _ h, h, Phase.result]
  · exact resultOf_setPhase_ne calls _ hc

theorem resultOf_wakeAll (calls : Calls κ ρ) (cs : List Nat) (c : Nat) (r : ρ)
    (h : ∀ c ∈ cs, calls.phaseOf c = some .parked) :
    (calls.wakeAll cs r).resultOf c = if c ∈ cs then some r else calls.resultOf c := by
  unfold resultOf
  rw [phaseOf_wakeAll]
  by_cases hc : c ∈ cs
  · simp [hc, h c hc, Phase.result]
  · simp [hc]

theorem is_append (calls : Calls κ ρ) (mine : κ → Bool) (k : Call κ ρ) (c : Nat) :
    Is (calls ++ [k]) mine c ↔ if c = calls.length then mine k.op = true else calls.Is mine c := by
  unfold Is
  rw [opOf_append]
  split <;> simp

@[simp] theorem is_setPhase (calls : Calls κ ρ) (mine : κ → Bool) (c c' : Nat) (p : Phase ρ) :
    (calls.setPhase c p).Is mine c' ↔ calls.Is mine c' := by
  simp [Is]

@[simp] theorem is_wakeAll (calls : Calls κ ρ) (mine : κ → Bool) (cs : List Nat) (c' : Nat)
    (r : ρ) : (calls.wakeAll cs r).Is mine c' ↔ calls.Is mine c' := by
  simp [Is]

/-- Only calls that were made are of any class. -/
theorem lt_length_of_is {calls : Calls κ ρ} {mine : κ → Bool} {c : Nat} (h : calls.Is mine c) :
    c < calls.length := by
  by_contra hge
  simp [Is, opOf, List.getElem?_eq_none (Nat.not_lt.mp hge)] at h

/-- Every call that was made is of the class of all operations. -/
theorem is_true_of_phaseOf {calls : Calls κ ρ} {c : Nat} {p : Phase ρ}
    (h : calls.phaseOf c = some p) : calls.Is (fun _ => true) c := by
  obtain ⟨k, hk, -⟩ := Option.map_eq_some_iff.mp h
  simp [Is, opOf, hk]

theorem is_true_of_resultOf {calls : Calls κ ρ} {c : Nat} {r : ρ}
    (h : calls.resultOf c = some r) : calls.Is (fun _ => true) c := by
  obtain ⟨p, hp, -⟩ := Option.bind_eq_some_iff.mp h
  exact is_true_of_phaseOf hp

/-- Call `c` is one of `mine`, and it is still parked or ended well. -/
def live (calls : Calls κ ρ) (mine : κ → Bool) (ok : ρ → Bool) (c : Nat) : Bool :=
  (calls[c]?).any fun k => mine k.op && k.phase.result.all ok

/-- Call `c` is one of `mine`, and it ended well. -/
def settled (calls : Calls κ ρ) (mine : κ → Bool) (ok : ρ → Bool) (c : Nat) : Bool :=
  (calls[c]?).any fun k => mine k.op && k.phase.result.any ok

theorem settled_iff (calls : Calls κ ρ) (mine : κ → Bool) (ok : ρ → Bool) (c : Nat) :
    calls.settled mine ok c = true ↔
      calls.Is mine c ∧ ∃ r, calls.resultOf c = some r ∧ ok r := by
  unfold settled Is opOf resultOf phaseOf
  cases calls[c]? with
  | none => simp
  | some k => cases hk : k.phase <;> simp [hk]

theorem live_iff (calls : Calls κ ρ) (mine : κ → Bool) (ok : ρ → Bool) (c : Nat) :
    calls.live mine ok c = true ↔ calls.Is mine c ∧
      (calls.phaseOf c = some .parked ∨ ∃ r, calls.resultOf c = some r ∧ ok r) := by
  unfold live Is opOf resultOf phaseOf
  cases calls[c]? with
  | none => simp
  | some k => cases hk : k.phase <;> simp [hk]

/-- Waking one call is a round of one. -/
theorem wakeAll_singleton (calls : Calls κ ρ) (c : Nat) (r : ρ) :
    calls.wakeAll [c] r = calls.setPhase c (.woken r) := rfl

/-! ## A settled result is final -/

/-- Every call that is settled in `calls` has the same result in `calls'`. -/
def Later (calls calls' : Calls κ ρ) : Prop :=
  ∀ c r, calls.resultOf c = some r → calls'.resultOf c = some r

theorem Later.refl (calls : Calls κ ρ) : calls.Later calls := fun _ _ h => h

theorem Later.trans {calls₁ calls₂ calls₃ : Calls κ ρ} (h : calls₁.Later calls₂)
    (h' : calls₂.Later calls₃) : calls₁.Later calls₃ :=
  fun c r hc => h' c r (h c r hc)

theorem later_append (calls : Calls κ ρ) (k : Call κ ρ) : calls.Later (calls ++ [k]) := by
  intro c r hc
  have hne : c ≠ calls.length := fun e => by simp [e, resultOf_length] at hc
  rw [resultOf_append, if_neg hne, hc]

theorem later_setPhase {calls : Calls κ ρ} {c : Nat} (p : Phase ρ)
    (h : calls.phaseOf c = some .parked) : calls.Later (calls.setPhase c p) := by
  intro d r hd
  have hne : c ≠ d := fun e => by simp [← e, resultOf_of_parked h] at hd
  rw [resultOf_setPhase_ne _ _ hne, hd]

theorem later_resume {calls : Calls κ ρ} {c : Nat} {r : ρ}
    (h : calls.phaseOf c = some (.woken r)) : calls.Later (calls.setPhase c (.returned r)) := by
  intro d r' hd
  rw [resultOf_resume h, hd]

theorem later_wakeAll {calls : Calls κ ρ} (cs : List Nat) (r : ρ)
    (h : ∀ c ∈ cs, calls.phaseOf c = some .parked) : calls.Later (calls.wakeAll cs r) := by
  intro d r' hd
  have hd' : d ∉ cs := fun hmem => by simp [resultOf_of_parked (h d hmem)] at hd
  rw [resultOf_wakeAll _ _ _ _ h, if_neg hd', hd]

end Calls

/-! ## Exclusive ownership -/

/-- The grants of an exclusive lock that were not given up yet: each release ends the oldest
grant that is still open. -/
def outstanding (grants : List (Nat × FiberID)) (releases : List FiberID) :
    List (Nat × FiberID) :=
  grants.drop releases.length

theorem outstanding_eq_singleton {grants : List (Nat × FiberID)} {releases : List FiberID}
    {owner : FiberID} (h : grants.map Prod.snd = releases ++ [owner]) :
    ∃ c, outstanding grants releases = [(c, owner)] := by
  have hout : (outstanding grants releases).map Prod.snd = [owner] := by
    rw [outstanding, List.map_drop, h, List.drop_left]
  obtain ⟨g, hg, howner⟩ := List.map_eq_singleton_iff.mp hout
  exact ⟨g.1, by rw [hg, ← howner]⟩

theorem outstanding_eq_nil {grants : List (Nat × FiberID)} {releases : List FiberID}
    (h : grants.map Prod.snd = releases) : outstanding grants releases = [] := by
  have hlen : grants.length = releases.length := by rw [← h, List.length_map]
  exact List.drop_eq_nil_of_le (Nat.le_of_eq hlen)

/-! ## Leaving a queue before being served -/

section

variable {α : Type*}

/-- The loop of `removeWaiterLocked`, `removeReaderLocked`, `removeWriterLocked`,
`removeSenderLocked` and `removeReceiverLocked`: the first record that is the given waiter is
cut out and the rest moves up. `key` reads off the record which call made it. -/
def removeWaiter (key : α → Nat) (queue : List α) (c : Nat) : List α :=
  queue.eraseP fun w => key w == c

theorem map_removeWaiter (key : α → Nat) (queue : List α) (c : Nat) :
    (removeWaiter key queue c).map key = (queue.map key).erase c := by
  unfold removeWaiter
  induction queue with
  | nil => rfl
  | cons w queue ih =>
    rw [List.map_cons, List.erase_cons, List.eraseP_cons]
    by_cases h : key w == c
    · simp [h]
    · simp [h, ih]

/-- In a queue without duplicates, leaving is withdrawing from a ledger. -/
theorem map_removeWaiter_eq_filter {key : α → Nat} {queue : List α} (c : Nat)
    (h : (queue.map key).Nodup) :
    (removeWaiter key queue c).map key = (queue.map key).filter (fun a => !(a == c)) := by
  rw [map_removeWaiter, h.erase_eq_filter]
  rfl

theorem removeWaiter_sublist (key : α → Nat) (queue : List α) (c : Nat) :
    (removeWaiter key queue c).Sublist queue :=
  List.eraseP_sublist

end

end GreenThreads.Sync
