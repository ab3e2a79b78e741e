import GreenThreads.Sync.Calls
import GreenThreads.Lib.Ledger
import Mathlib.Data.List.Sort
import Mathlib.Data.List.Range

/-!
# GreenThreads — keeping calls and queue histories in step

`Tracks` ties the table of calls to the ledger of one wait queue: a call is parked exactly if
the ledger has it waiting, ended well exactly if it was granted, and gave up exactly if the
ledger dropped it. The module has one lemma for each way a critical section moves calls, so
that a primitive's invariant proof only says which of them applies.

`mine` selects the operations that use the queue, `ok` the results of a granted call and
`gone` the results of a parked call that was not.
-/

namespace GreenThreads.Sync

variable {κ ρ : Type*}

structure Tracks (calls : Calls κ ρ) (mine : κ → Bool) (ok gone : ρ → Bool)
    (log : Ledger Nat) (granted : List Nat) : Prop where
  arrived : ∀ c ∈ log.arrivals, calls.Is mine c
  sorted : log.arrivals.Pairwise (· < ·)
  parked_iff : ∀ c, c ∈ log.waiting ↔ calls.Is mine c ∧ calls.phaseOf c = some .parked
  granted_iff : ∀ c, c ∈ granted ↔ calls.Is mine c ∧ ∃ r, calls.resultOf c = some r ∧ ok r
  granted_nodup : granted.Nodup
  dropped_iff : ∀ c, c ∈ log.dropped ↔
    c ∈ log.arrivals ∧ ∃ r, calls.resultOf c = some r ∧ gone r

namespace Tracks

variable {calls : Calls κ ρ} {mine : κ → Bool} {ok gone : ρ → Bool} {log : Ledger Nat}
  {granted : List Nat}

theorem empty : Tracks ([] : Calls κ ρ) mine ok gone .empty [] where
  arrived := by simp [Ledger.empty]
  sorted := List.Pairwise.nil
  parked_iff := by simp [Ledger.empty, Calls.Is, Calls.opOf]
  granted_iff := by simp [Calls.Is, Calls.opOf]
  granted_nodup := List.nodup_nil
  dropped_iff := by simp [Ledger.empty]

/-! ## Consequences -/

theorem arrived_lt (h : Tracks calls mine ok gone log granted) {c : Nat}
    (hc : c ∈ log.arrivals) : c < calls.length :=
  Calls.lt_length_of_is (h.arrived c hc)

/-- The number the next call gets is new to the queue's history. -/
theorem next_not_arrived (h : Tracks calls mine ok gone log granted) :
    calls.length ∉ log.arrivals :=
  fun hc => absurd (h.arrived_lt hc) (Nat.lt_irrefl _)

theorem next_not_granted (h : Tracks calls mine ok gone log granted) :
    calls.length ∉ granted := by
  rw [h.granted_iff, Calls.resultOf_length]
  simp

theorem phaseOf_waiting (h : Tracks calls mine ok gone log granted) {c : Nat}
    (hc : c ∈ log.waiting) : calls.phaseOf c = some .parked :=
  ((h.parked_iff c).mp hc).2

/-- A parked call has not been granted anything. -/
theorem not_granted_of_waiting (h : Tracks calls mine ok gone log granted) {c : Nat}
    (hc : c ∈ log.waiting) : c ∉ granted := by
  rw [h.granted_iff, Calls.resultOf_of_parked (h.phaseOf_waiting hc)]
  simp

/-- Where service is granted only from the front of the queue, the granted calls followed by
the waiting ones are the calls that were not turned away, in the order they were made. -/
theorem fifo (h : Tracks calls mine ok gone log log.served) :
    log.served ++ log.waiting = (List.range calls.length).filter (calls.live mine ok) := by
  have hsorted : (log.served ++ log.waiting).Pairwise (· < ·) := by
    rw [log.split]
    exact h.sorted.filter _
  have hrange : ((List.range calls.length).filter (calls.live mine ok)).Pairwise (· < ·) :=
    List.pairwise_lt_range.filter _
  -- two increasing lists with the same members are equal
  refine List.Pairwise.eq_of_mem_iff hsorted hrange fun c => ?_
  rw [List.mem_append, h.granted_iff, h.parked_iff, List.mem_filter, List.mem_range,
    Calls.live_iff]
  constructor
  · rintro (⟨hm, hr⟩ | ⟨hm, hp⟩)
    · exact ⟨Calls.lt_length_of_is hm, hm, .inr hr⟩
    · exact ⟨Calls.lt_length_of_is hm, hm, .inl hp⟩
  · rintro ⟨-, hm, hp | hr⟩
    · exact .inr ⟨hm, hp⟩
    · exact .inl ⟨hm, hr⟩

/-- And the granted calls are those that ended well. -/
theorem served_eq (h : Tracks calls mine ok gone log log.served) :
    log.served = (List.range calls.length).filter (calls.settled mine ok) := by
  have hall : (log.served ++ log.waiting).Pairwise (· < ·) := by
    rw [log.split]
    exact h.sorted.filter _
  have hsorted := hall.sublist (List.sublist_append_left _ _)
  have hrange : ((List.range calls.length).filter (calls.settled mine ok)).Pairwise (· < ·) :=
    List.pairwise_lt_range.filter _
  refine List.Pairwise.eq_of_mem_iff hsorted hrange fun c => ?_
  rw [h.granted_iff, List.mem_filter, List.mem_range, Calls.settled_iff]
  constructor
  · rintro ⟨hm, hr⟩
    exact ⟨Calls.lt_length_of_is hm, hm, hr⟩
  · rintro ⟨-, hm, hr⟩
    exact ⟨hm, hr⟩

/-! ## A new call -/

/-- What has arrived is still one of `mine` after a new call. -/
theorem is_append_of_arrived (h : Tracks calls mine ok gone log granted) (k : Call κ ρ) {c : Nat}
    (hc : c ∈ log.arrivals) : Calls.Is (calls ++ [k]) mine c := by
  have hlt := h.arrived_lt hc
  rw [Calls.is_append, if_neg (by omega)]
  exact h.arrived c hc

/-- The same where the new call itself arrives. -/
theorem is_append_of_arrive (h : Tracks calls mine ok gone log granted) {k : Call κ ρ} {c : Nat}
    (hmine : mine k.op = true) (hc : c ∈ (log.arrive calls.length).arrivals) :
    Calls.Is (calls ++ [k]) mine c := by
  rw [Ledger.mem_arrive_arrivals] at hc
  rcases hc with hc | rfl
  · exact h.is_append_of_arrived k hc
  · rw [Calls.is_append, if_pos rfl]
    exact hmine

/-- A new call has the largest number of all. -/
theorem sorted_arrive (h : Tracks calls mine ok gone log granted) :
    (log.arrive calls.length).arrivals.Pairwise (· < ·) := by
  rw [log.arrive_arrivals h.next_not_arrived]
  refine List.pairwise_append.mpr ⟨h.sorted, List.pairwise_singleton _ _, ?_⟩
  intro c hc d hd
  rw [List.mem_singleton.mp hd]
  exact h.arrived_lt hc

/-- A call returns from its first section. It is granted if it is one of `mine` and the result
is good; the queue is not involved. -/
theorem append_returned (h : Tracks calls mine ok gone log granted) (op : κ) (r : ρ) :
    Tracks (calls ++ [⟨op, .returned r⟩]) mine ok gone log
      (if mine op && ok r then granted ++ [calls.length] else granted) where
  arrived c hc := h.is_append_of_arrived _ hc
  sorted := h.sorted
  parked_iff c := by
    rw [h.parked_iff, Calls.is_append, Calls.phaseOf_append]
    split
    · next hc => subst hc; simp [Calls.phaseOf_length]
    · rfl
  granted_iff c := by
    rw [Calls.is_append, Calls.resultOf_append]
    by_cases hc : c = calls.length
    · subst hc
      have hnew := h.next_not_granted
      cases mine op <;> cases hr : ok r <;> simp [hnew, hr]
    · have hg := h.granted_iff c
      cases mine op <;> cases ok r <;> simp [hc, hg]
  granted_nodup := by
    split
    · exact List.nodup_append_comm.mpr
        (List.nodup_cons.mpr ⟨h.next_not_granted, h.granted_nodup⟩)
    · exact h.granted_nodup
  dropped_iff c := by
    rw [h.dropped_iff, Calls.resultOf_append]
    split
    · next hc => subst hc; simp [h.next_not_arrived]
    · rfl

/-- A call takes its turn at once because nobody is waiting: it arrives and is served in one
section. -/
theorem append_served (h : Tracks calls mine ok gone log granted) (op : κ) {r : ρ}
    (hmine : mine op = true) (hok : ok r = true) (hgone : gone r = false)
    (hempty : log.waiting = []) :
    Tracks (calls ++ [⟨op, .returned r⟩]) mine ok gone ((log.arrive calls.length).serve 1)
      (granted ++ [calls.length]) where
  arrived c hc := h.is_append_of_arrive hmine (by rwa [Ledger.serve_arrivals] at hc)
  sorted := by
    rw [Ledger.serve_arrivals]
    exact h.sorted_arrive
  parked_iff c := by
    have hp := h.parked_iff c
    rw [hempty] at hp
    simp only [Ledger.serve_waiting, log.arrive_waiting h.next_not_arrived, hempty,
      List.nil_append, List.drop_one, List.tail_cons, Calls.is_append, Calls.phaseOf_append]
    split
    · simp
    · exact hp
  granted_iff c := by
    rw [Calls.is_append, Calls.resultOf_append, List.mem_append, List.mem_singleton,
      h.granted_iff]
    split
    · next hc => simp [hc, hmine, hok]
    · next hc => simp [hc]
  granted_nodup :=
    List.nodup_append_comm.mpr (List.nodup_cons.mpr ⟨h.next_not_granted, h.granted_nodup⟩)
  dropped_iff c := by
    simp only [Ledger.serve_dropped, Ledger.arrive_dropped, Ledger.serve_arrivals,
      Ledger.mem_arrive_arrivals, Calls.resultOf_append]
    rw [h.dropped_iff]
    split
    · next hc => subst hc; simp [h.next_not_arrived, hgone]
    · next hc => simp [hc]

/-- A call that parks is granted nothing yet. -/
theorem granted_iff_append_parked (h : Tracks calls mine ok gone log granted) (op : κ) (c : Nat) :
    c ∈ granted ↔ (calls ++ [⟨op, .parked⟩] : Calls κ ρ).Is mine c
      ∧ ∃ r, (calls ++ [⟨op, .parked⟩] : Calls κ ρ).resultOf c = some r ∧ ok r := by
  rw [h.granted_iff, Calls.is_append, Calls.resultOf_append]
  split
  · next hc => subst hc; simp [Calls.resultOf_length]
  · rfl

/-- A call joins the back of the queue. -/
theorem append_parked (h : Tracks calls mine ok gone log granted) (op : κ)
    (hmine : mine op = true) :
    Tracks (calls ++ [⟨op, .parked⟩]) mine ok gone (log.arrive calls.length) granted where
  arrived c hc := h.is_append_of_arrive hmine hc
  sorted := h.sorted_arrive
  parked_iff c := by
    rw [log.arrive_waiting h.next_not_arrived, List.mem_append, List.mem_singleton,
      h.parked_iff, Calls.is_append, Calls.phaseOf_append]
    split
    · next hc => simp [hc, hmine]
    · next hc => simp [hc]
  granted_iff := h.granted_iff_append_parked op
  granted_nodup := h.granted_nodup
  dropped_iff c := by
    rw [Ledger.arrive_dropped, Ledger.mem_arrive_arrivals, Calls.resultOf_append, h.dropped_iff]
    split
    · next hc => subst hc; simp [h.next_not_arrived]
    · next hc => simp [hc]

/-- A call of another class parks elsewhere. -/
theorem append_other (h : Tracks calls mine ok gone log granted) (op : κ)
    (hmine : mine op = false) : Tracks (calls ++ [⟨op, .parked⟩]) mine ok gone log granted where
  arrived c hc := h.is_append_of_arrived _ hc
  sorted := h.sorted
  parked_iff c := by
    rw [h.parked_iff, Calls.is_append, Calls.phaseOf_append]
    split
    · next hc => subst hc; simp [Calls.phaseOf_length, hmine]
    · rfl
  granted_iff := h.granted_iff_append_parked op
  granted_nodup := h.granted_nodup
  dropped_iff c := by
    rw [h.dropped_iff, Calls.resultOf_append]
    split
    · next hc => subst hc; simp [h.next_not_arrived]
    · rfl

/-! ## Leaving the queue -/

/-- The first `n` waiters are granted and their `ready` channels closed over a good result. -/
theorem serve (h : Tracks calls mine ok gone log granted) (n : Nat) {r : ρ}
    (hok : ok r = true) (hgone : gone r = false) :
    Tracks (calls.wakeAll (log.waiting.take n) r) mine ok gone (log.serve n)
      (granted ++ log.waiting.take n) := by
  have hparked : ∀ c ∈ log.waiting.take n, calls.phaseOf c = some .parked :=
    fun c hc => h.phaseOf_waiting (List.mem_of_mem_take hc)
  constructor
  case arrived =>
    intro c hc
    rw [Calls.is_wakeAll]
    exact h.arrived c hc
  case sorted => exact h.sorted
  case parked_iff =>
    intro c
    have hnd := log.waiting_nodup
    rw [← List.take_append_drop n log.waiting] at hnd
    rw [Ledger.serve_waiting, Calls.is_wakeAll, Calls.phaseOf_wakeAll]
    by_cases hc : c ∈ log.waiting.take n
    · have hout : c ∉ log.waiting.drop n := (List.nodup_append'.mp hnd).2.2 hc
      simp [hc, hout, hparked c hc]
    · have hsplit : c ∈ log.waiting ↔ c ∈ log.waiting.drop n := by
        conv_lhs => rw [← List.take_append_drop n log.waiting, List.mem_append]
        simp [hc]
      rw [if_neg hc, ← hsplit, h.parked_iff]
  case granted_iff =>
    intro c
    rw [List.mem_append, h.granted_iff, Calls.is_wakeAll, Calls.resultOf_wakeAll _ _ _ _ hparked]
    by_cases hc : c ∈ log.waiting.take n
    · have hmine := ((h.parked_iff c).mp (List.mem_of_mem_take hc)).1
      simp [hc, hmine, hok]
    · simp [hc]
  case granted_nodup =>
    refine List.nodup_append'.mpr ⟨h.granted_nodup, log.waiting_nodup.sublist
      (List.take_sublist _ _), ?_⟩
    intro c hg hc
    exact h.not_granted_of_waiting (List.mem_of_mem_take hc) hg
  case dropped_iff =>
    intro c
    rw [Ledger.serve_dropped, Ledger.serve_arrivals, Calls.resultOf_wakeAll _ _ _ _ hparked]
    by_cases hc : c ∈ log.waiting.take n
    · have hnd := log.not_dropped_of_waiting (List.mem_of_mem_take hc)
      simp [hc, hnd, hgone]
    · rw [if_neg hc, h.dropped_iff]

/-- All waiters are woken over a bad result. -/
theorem dropAll (h : Tracks calls mine ok gone log granted) {r : ρ}
    (hok : ok r = false) (hgone : gone r = true) :
    Tracks (calls.wakeAll log.waiting r) mine ok gone (log.drop fun _ => true) granted := by
  have hparked : ∀ c ∈ log.waiting, calls.phaseOf c = some .parked :=
    fun c hc => h.phaseOf_waiting hc
  constructor
  case arrived =>
    intro c hc
    rw [Calls.is_wakeAll]
    exact h.arrived c hc
  case sorted => exact h.sorted
  case parked_iff =>
    intro c
    rw [Calls.is_wakeAll, Calls.phaseOf_wakeAll]
    by_cases hc : c ∈ log.waiting
    · simp [hc, hparked c hc]
    · have hp := h.parked_iff c
      simp only [hc, false_iff] at hp
      simpa [hc] using hp
  case granted_iff =>
    intro c
    rw [h.granted_iff, Calls.is_wakeAll, Calls.resultOf_wakeAll _ _ _ _ hparked]
    by_cases hc : c ∈ log.waiting
    · simp [hc, Calls.resultOf_of_parked (hparked c hc), hok]
    · simp [hc]
  case granted_nodup => exact h.granted_nodup
  case dropped_iff =>
    intro c
    simp only [Ledger.drop_dropped, Ledger.drop_arrivals, List.mem_append, List.mem_filter,
      and_true]
    rw [Calls.resultOf_wakeAll _ _ _ _ hparked, h.dropped_iff]
    by_cases hc : c ∈ log.waiting
    · simp [hc, hgone, log.mem_arrivals_of_waiting hc]
    · simp [hc]

/-- Calls of other classes are woken. -/
theorem wakeOther (h : Tracks calls mine ok gone log granted) (cs : List Nat) (r : ρ)
    (hparked : ∀ c ∈ cs, calls.phaseOf c = some .parked) (hother : ∀ c ∈ cs, ¬ calls.Is mine c) :
    Tracks (calls.wakeAll cs r) mine ok gone log granted where
  arrived c hc := by
    rw [Calls.is_wakeAll]
    exact h.arrived c hc
  sorted := h.sorted
  parked_iff c := by
    rw [h.parked_iff, Calls.is_wakeAll, Calls.phaseOf_wakeAll]
    by_cases hc : c ∈ cs
    · simp [hother c hc]
    · simp [hc]
  granted_iff c := by
    rw [h.granted_iff, Calls.is_wakeAll, Calls.resultOf_wakeAll _ _ _ _ hparked]
    by_cases hc : c ∈ cs
    · simp [hother c hc]
    · simp [hc]
  granted_nodup := h.granted_nodup
  dropped_iff c := by
    rw [h.dropped_iff, Calls.resultOf_wakeAll _ _ _ _ hparked]
    by_cases hc : c ∈ cs
    · have harr : c ∉ log.arrivals := fun ha => hother c hc (h.arrived c ha)
      simp [harr]
    · simp [hc]

/-- A parked call withdraws from the queue and returns a bad result. -/
theorem withdraw (h : Tracks calls mine ok gone log granted) {c : Nat} {r : ρ}
    (hc : c ∈ log.waiting) (hok : ok r = false) (hgone : gone r = true) :
    Tracks (calls.setPhase c (.returned r)) mine ok gone (log.drop (· == c)) granted := by
  have hparked := h.phaseOf_waiting hc
  have hself : (calls.setPhase c (.returned r)).resultOf c = some r := by
    simp [Calls.resultOf, Calls.phaseOf_setPhase_self _ hparked]
  constructor
  case arrived =>
    intro d hd
    rw [Calls.is_setPhase]
    exact h.arrived d hd
  case sorted => exact h.sorted
  case parked_iff =>
    intro d
    rw [Ledger.drop_waiting, List.mem_filter, h.parked_iff, Calls.is_setPhase,
      Calls.phaseOf_setPhase]
    by_cases hd : c = d
    · subst hd; simp [hparked]
    · have hne : d ≠ c := fun e => hd e.symm
      simp [hd, hne]
  case granted_iff =>
    intro d
    rw [h.granted_iff, Calls.is_setPhase]
    by_cases hd : c = d
    · subst hd; simp [hself, Calls.resultOf_of_parked hparked, hok]
    · rw [Calls.resultOf_setPhase_ne _ _ hd]
  case granted_nodup => exact h.granted_nodup
  case dropped_iff =>
    intro d
    rw [Ledger.drop_dropped, Ledger.drop_arrivals, List.mem_append, List.mem_filter, h.dropped_iff]
    by_cases hd : c = d
    · subst hd; simp [hself, hc, hgone, log.mem_arrivals_of_waiting hc]
    · have hne : d ≠ c := fun e => hd e.symm
      rw [Calls.resultOf_setPhase_ne _ _ hd]
      simp [hne]

/-- A parked call of another class returns from its wait. -/
theorem withdrawOther (h : Tracks calls mine ok gone log granted) {c : Nat} (r : ρ)
    (hother : ¬ calls.Is mine c) :
    Tracks (calls.setPhase c (.returned r)) mine ok gone log granted where
  arrived d hd := by
    rw [Calls.is_setPhase]
    exact h.arrived d hd
  sorted := h.sorted
  parked_iff d := by
    rw [h.parked_iff, Calls.is_setPhase]
    by_cases hd : c = d
    · subst hd; simp [hother]
    · rw [Calls.phaseOf_setPhase_ne _ _ hd]
  granted_iff d := by
    rw [h.granted_iff, Calls.is_setPhase]
    by_cases hd : c = d
    · subst hd; simp [hother]
    · rw [Calls.resultOf_setPhase_ne _ _ hd]
  granted_nodup := h.granted_nodup
  dropped_iff d := by
    rw [h.dropped_iff]
    by_cases hd : c = d
    · subst hd
      have harr : c ∉ log.arrivals := fun ha => hother (h.arrived c ha)
      simp [harr]
    · rw [Calls.resultOf_setPhase_ne _ _ hd]

/-- A woken call returns what was written in its waiter record. -/
theorem resume (h : Tracks calls mine ok gone log granted) {c : Nat} {r : ρ}
    (hc : calls.phaseOf c = some (.woken r)) :
    Tracks (calls.setPhase c (.returned r)) mine ok gone log granted where
  arrived d hd := by
    rw [Calls.is_setPhase]
    exact h.arrived d hd
  sorted := h.sorted
  parked_iff d := by
    rw [h.parked_iff, Calls.is_setPhase, Calls.phaseOf_setPhase]
    by_cases hd : c = d
    · subst hd; simp [hc]
    · simp [hd]
  granted_iff d := by
    rw [h.granted_iff, Calls.is_setPhase, Calls.resultOf_resume hc]
  granted_nodup := h.granted_nodup
  dropped_iff d := by
    rw [h.dropped_iff, Calls.resultOf_resume hc]

end Tracks

end GreenThreads.Sync
