import Mathlib.Data.List.Basic

/-!
# Labelled transition systems

A system is a partial step function `step : σ → ℓ → Option σ`: a label that is not enabled
has no successor. The module gives the two ways the development talks about runs:

* `exec` — run a concrete list of labels, so that a trace can be evaluated;
* `Reach` — the states some run ends in, every step of which meets a condition `ok`.

`Reach.invariant` is the one induction over runs; every invariant of the development is an
instance of it.
-/

namespace Trans

variable {σ ℓ : Type*}

/-- Take the steps `ls` in order from `s`; `none` as soon as one is not enabled. -/
def exec (step : σ → ℓ → Option σ) : σ → List ℓ → Option σ
  | s, [] => some s
  | s, l :: ls => (step s l).bind fun s' => exec step s' ls

/-- `Reach step ok s₀ s`: a run from `s₀`, all of whose steps meet `ok`, ends in `s`. -/
inductive Reach (step : σ → ℓ → Option σ) (ok : σ → ℓ → Prop) (s₀ : σ) : σ → Prop where
  | refl : Reach step ok s₀ s₀
  | tail {s s' : σ} {l : ℓ} :
      Reach step ok s₀ s → ok s l → step s l = some s' → Reach step ok s₀ s'

/-- The condition every step meets. -/
def anyStep : σ → ℓ → Prop := fun _ _ => True

instance (s : σ) (l : ℓ) : Decidable (anyStep s l) := isTrue trivial

/-- The steps of `step` that meet `ok`, as a step function of its own. -/
def guarded (step : σ → ℓ → Option σ) (ok : σ → ℓ → Prop) [∀ s l, Decidable (ok s l)] :
    σ → ℓ → Option σ :=
  fun s l => if ok s l then step s l else none

section

variable {step : σ → ℓ → Option σ} {ok : σ → ℓ → Prop}

/-- What holds at the start and survives every step that meets `ok` holds wherever such
steps lead. -/
theorem Reach.invariant {s₀ s : σ} {P : σ → Prop} (hinit : P s₀)
    (hstep : ∀ s l s', P s → ok s l → step s l = some s' → P s')
    (h : Reach step ok s₀ s) : P s := by
  induction h with
  | refl => exact hinit
  | tail _ hok hs ih => exact hstep _ _ _ ih hok hs

/-- Runs compose. -/
theorem Reach.trans {s₀ s s' : σ} (h : Reach step ok s₀ s) (h' : Reach step ok s s') :
    Reach step ok s₀ s' := by
  induction h' with
  | refl => exact h
  | tail _ hok hs ih => exact .tail ih hok hs

/-- A relation that is kept by the steps of all reachable states relates the two ends of a run
that goes on from one. Induction on that run. -/
theorem Reach.rel {R : σ → σ → Prop} (hrefl : ∀ s, R s s)
    (htrans : ∀ {s t u}, R s t → R t u → R s u) {s₀ s s' : σ} (h : Reach step ok s₀ s)
    (hstep : ∀ {t l t'}, Reach step ok s₀ t → step t l = some t' → R t t')
    (hrun : Reach step ok s s') : R s s' := by
  induction hrun with
  | refl => exact hrefl s
  | tail hrun _ hs ih => exact htrans ih (hstep (h.trans hrun) hs)

/-- A run under a condition is a run under every weaker one. -/
theorem Reach.mono {ok' : σ → ℓ → Prop} (himp : ∀ s l, ok s l → ok' s l) {s₀ s : σ}
    (h : Reach step ok s₀ s) : Reach step ok' s₀ s := by
  induction h with
  | refl => exact .refl
  | tail _ hok hs ih => exact .tail ih (himp _ _ hok) hs

/-- A trace that evaluates is a run. Induction on the trace, one `Reach.tail` a label. -/
theorem Reach.of_exec {s₀ s : σ} {ls : List ℓ} (h : exec step s₀ ls = some s) :
    Reach step anyStep s₀ s := by
  induction ls generalizing s₀ with
  | nil =>
    cases h
    exact .refl
  | cons l ls ih =>
    obtain ⟨s₁, hs₁, hrest⟩ := Option.bind_eq_some_iff.mp h
    exact Reach.trans (.tail .refl trivial hs₁) (ih hrest)

/-- A trace that evaluates under the guarded step function is a run that meets the guard. -/
theorem Reach.of_exec_guarded [∀ s l, Decidable (ok s l)] {s₀ s : σ} {ls : List ℓ}
    (h : exec (guarded step ok) s₀ ls = some s) : Reach step ok s₀ s := by
  induction ls generalizing s₀ with
  | nil =>
    cases h
    exact .refl
  | cons l ls ih =>
    obtain ⟨s₁, hs₁, hrest⟩ := Option.bind_eq_some_iff.mp h
    unfold guarded at hs₁
    split at hs₁
    · next hok => exact Reach.trans (.tail .refl hok hs₁) (ih hrest)
    · cases hs₁

/-- A Boolean test of the final state of a trace gives a reachable state that passes it. -/
theorem exists_reach_of_exec (step : σ → ℓ → Option σ) (s₀ : σ) (ls : List ℓ) (p : σ → Bool)
    (h : (exec step s₀ ls).map p = some true) :
    ∃ s, Reach step anyStep s₀ s ∧ p s = true := by
  obtain ⟨s, hs, hp⟩ := Option.map_eq_some_iff.mp h
  exact ⟨s, Reach.of_exec hs, hp⟩

/-- The guarded form of `exists_reach_of_exec`. -/
theorem exists_reach_of_exec_guarded (step : σ → ℓ → Option σ) (ok : σ → ℓ → Prop)
    [∀ s l, Decidable (ok s l)] (s₀ : σ) (ls : List ℓ) (p : σ → Bool)
    (h : (exec (guarded step ok) s₀ ls).map p = some true) :
    ∃ s, Reach step ok s₀ s ∧ p s = true := by
  obtain ⟨s, hs, hp⟩ := Option.map_eq_some_iff.mp h
  exact ⟨s, Reach.of_exec_guarded hs, hp⟩

/-- The same for two states of one run, of which the second comes later and only the steps
between them meet the guard. -/
theorem exists_reach_pair_of_exec (step : σ → ℓ → Option σ) (ok : σ → ℓ → Prop)
    [∀ s l, Decidable (ok s l)] (s₀ : σ) (ls ls' : List ℓ) (p : σ → σ → Bool)
    (h : (exec step s₀ ls).bind (fun s => (exec (guarded step ok) s ls').map (p s))
      = some true) :
    ∃ s s', Reach step anyStep s₀ s ∧ Reach step ok s s' ∧ p s s' = true := by
  obtain ⟨s, hs, hrest⟩ := Option.bind_eq_some_iff.mp h
  obtain ⟨s', hs', hp⟩ := Option.map_eq_some_iff.mp hrest
  exact ⟨s, s', Reach.of_exec hs, Reach.of_exec_guarded hs', hp⟩

/-- A trace in two parts. -/
theorem exec_append (s : σ) (ls ls' : List ℓ) :
    exec step s (ls ++ ls') = (exec step s ls).bind (exec step · ls') := by
  induction ls generalizing s with
  | nil => rfl
  | cons l ls ih =>
    simp only [List.cons_append, exec]
    cases step s l with
    | none => rfl
    | some s' => exact ih s'

/-- A function that commutes with every step commutes with every run. Induction on the labels. -/
theorem exec_map {σ' ℓ' : Type*} {step' : σ' → ℓ' → Option σ'} {F : σ → σ'} {G : ℓ → ℓ'}
    (hstep : ∀ s l, step' (F s) (G l) = (step s l).map F) (s : σ) (ls : List ℓ) :
    exec step' (F s) (ls.map G) = (exec step s ls).map F := by
  induction ls generalizing s with
  | nil => rfl
  | cons l ls ih =>
    simp only [List.map_cons, exec, hstep]
    cases step s l with
    | none => rfl
    | some s' => exact ih s'

end

end Trans
