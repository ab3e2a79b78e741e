import Mathlib.Data.Finset.Card

/-!
# Work taken on and work done

One counter goes up when a piece of work is taken on, another when one is done. That the second
does not overtake the first is not kept from step to step by itself: the pieces that are taken on
and not done yet must be counted too.
-/

/-- What has been done and what is still due is no more than what was taken on. -/
def Backlog {α : Type*} (taken done : Nat) (due : Finset α) : Prop := done + due.card ≤ taken

namespace Backlog

variable {α : Type*} {taken done done' : Nat} {due due' : Finset α} {a : α}

theorem le (h : Backlog taken done due) : done ≤ taken := (Nat.le_add_right ..).trans h

theorem mono (h : Backlog taken done due) (hsub : due' ⊆ due) : Backlog taken done due' :=
  (Nat.add_le_add_left (Finset.card_le_card hsub) done).trans h

/-- One more is taken on, and nothing but that becomes due. -/
theorem takeOn [DecidableEq α] (h : Backlog taken done due) (hsub : due' ⊆ insert a due) :
    Backlog (taken + 1) done due' := by
  have hcard := (Finset.card_le_card hsub).trans (Finset.card_insert_le ..)
  unfold Backlog at h ⊢
  omega

/-- What was due is done. -/
theorem settle (h : Backlog taken done due) (hsub : due' ⊆ due) (ha : a ∈ due) (ha' : a ∉ due')
    (hdone : done' ≤ done + 1) : Backlog taken done' due' := by
  have hcard : due'.card < due.card :=
    Finset.card_lt_card ⟨hsub, fun hback => ha' (hback ha)⟩
  unfold Backlog at h ⊢
  omega

/-- Both counters start again when nothing is due. -/
theorem restart (hdue : due = ∅) : Backlog 0 0 due := by
  simp [Backlog, hdue]

end Backlog
