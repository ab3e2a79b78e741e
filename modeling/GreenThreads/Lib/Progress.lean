import GreenThreads.Lib.Trans

/-!
# Progress by ranks

A rank is a number attached to the states of a transition system. It shows two things:

* if from every state that is not good some step leads on to a state of a smaller rank, then a
  good state can be reached (`exists_reach_of_rank`);
* if the steps of one kind lower the rank and the others do not raise it, then there are at most
  as many of that kind as the rank at the start (`countP_add_rank_le`).
-/

namespace Trans

variable {σ ℓ : Type*}

/-- Induction on the rank: a state that is good is reached by the empty run, from any other the
step that lowers the rank comes first. -/
theorem exists_reach_of_rank (step : σ → ℓ → Option σ) (ok : σ → ℓ → Prop) (rank : σ → Nat)
    {P Q : σ → Prop}
    (hstep : ∀ s, P s → ¬Q s → ∃ l s', ok s l ∧ step s l = some s' ∧ P s' ∧ rank s' < rank s)
    {s : σ} (hs : P s) : ∃ s', Reach step ok s s' ∧ P s' ∧ Q s' := by
  induction hn : rank s using Nat.strongRecOn generalizing s with
  | ind n ih =>
    by_cases hQ : Q s
    · exact ⟨s, .refl, hs, hQ⟩
    · obtain ⟨l, s₁, hok, hs₁, hP, hlt⟩ := hstep s hs hQ
      obtain ⟨s', hrun, hgood⟩ := ih (rank s₁) (hn ▸ hlt) hP rfl
      exact ⟨s', Reach.trans (.tail .refl hok hs₁) hrun, hgood⟩

/-- Induction on the run; `P` is an invariant that the two conditions may rest on. -/
theorem countP_add_rank_le (step : σ → ℓ → Option σ) (rank : σ → Nat) (own : ℓ → Bool)
    {P : σ → Prop}
    (hkeep : ∀ s l s', P s → step s l = some s' → P s')
    (hown : ∀ s l s', P s → step s l = some s' → own l = true → rank s' < rank s)
    (hother : ∀ s l s', P s → step s l = some s' → own l = false → rank s' ≤ rank s)
    {s s' : σ} {ls : List ℓ} (hs : P s) (h : exec step s ls = some s') :
    ls.countP own + rank s' ≤ rank s := by
  induction ls generalizing s with
  | nil =>
    cases h
    simp
  | cons l ls ih =>
    obtain ⟨s₁, hs₁, hrest⟩ := Option.bind_eq_some_iff.mp h
    have hle := ih (hkeep s l s₁ hs hs₁) hrest
    rw [List.countP_cons]
    cases hl : own l with
    | true =>
      have := hown s l s₁ hs hs₁ hl
      simp only [if_true]
      omega
    | false =>
      have := hother s l s₁ hs hs₁ hl
      simp only [Bool.false_eq_true, if_false]
      omega

end Trans
