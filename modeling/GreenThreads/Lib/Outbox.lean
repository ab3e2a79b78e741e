import GreenThreads.Lib.Trans
import Mathlib.Logic.Function.Basic

/-!
# Deferred operations

The threads of a system act, and then carry out, one at a time, the operations on a shared object
that the action calls for. A thread that owes operations takes no other step, while the rest of the
system goes on, so that the object sees the operations in another order than that of the actions.

`Watch.invariant` is the rule for what the object sees of some of the operations: it is as if they
were carried out together with the actions, if at any moment only one thread may owe them.
-/

namespace Outbox

variable {σ κ ρ ω : Type*}

/-- A system, the thread whose step a label is, and the operations a step calls for, told from the
states before and after it. -/
structure Source (σ κ ρ ω : Type*) where
  step : σ → κ → Option σ
  owner : κ → Option ρ
  emits : σ → κ → σ → List ω

inductive Label (κ ρ : Type*) where
  | act (l : κ)
  | perform (r : ρ)

end Outbox

/-- The system with what its threads owe and what they have carried out. -/
structure Outbox (σ ρ ω : Type*) where
  base : σ
  owed : ρ → List ω
  done : List ω

namespace Outbox

variable {σ κ ρ ω : Type*}

/-- Nothing has happened yet. -/
def new (s : σ) : Outbox σ ρ ω := ⟨s, fun _ => [], []⟩

/-- Whether a thread is free to act. -/
def free (o : Outbox σ ρ ω) (r : ρ) : Bool := (o.owed r).isEmpty

/-! ## Some of the operations -/

/-- In the states that meet `I`, the operations in `P` are called for by one thread at a time: by
`turn`, and it is for `turn` to pass the turn on. -/
structure Watch (S : Source σ κ ρ ω) (I : σ → Prop) (P : ω → Bool) (turn : σ → ρ) : Prop where
  own : ∀ {s l s'}, I s → S.step s l = some s' → ∀ op ∈ S.emits s l s', P op = true →
    S.owner l = some (turn s')
  pass : ∀ {s l s'}, I s → S.step s l = some s' → turn s' ≠ turn s → S.owner l = some (turn s)

/-- The operations in `P` that the object has seen, and then those that it will see next. -/
def seen (P : ω → Bool) (turn : σ → ρ) (o : Outbox σ ρ ω) : List ω :=
  (o.done ++ o.owed (turn o.base)).filter P

/-- Nobody but `turn` owes operations in `P`. -/
def Sole (P : ω → Bool) (turn : σ → ρ) (o : Outbox σ ρ ω) : Prop :=
  ∀ r, r ≠ turn o.base → (o.owed r).filter P = []

variable {S : Source σ κ ρ ω} {I : σ → Prop} {P : ω → Bool} {turn : σ → ρ} {o : Outbox σ ρ ω}

theorem Watch.emits_of_ne (hw : Watch S I P turn) {s s' : σ} {l : κ} (hs : I s)
    (h : S.step s l = some s') (hne : S.owner l ≠ some (turn s')) :
    (S.emits s l s').filter P = [] :=
  List.filter_eq_nil_iff.mpr fun op hop hP => hne (hw.own hs h op hop hP)

/-- What has been carried out comes first. -/
theorem filter_done_prefix (P : ω → Bool) (turn : σ → ρ) (o : Outbox σ ρ ω) :
    o.done.filter P <+: o.seen P turn := by
  rw [seen, List.filter_append]
  exact List.prefix_append ..

theorem seen_of_free (turn : σ → ρ) (h : o.free (turn o.base) = true) :
    o.seen P turn = o.done.filter P := by
  rw [seen, List.isEmpty_iff.mp h, List.append_nil]

/-! ## Steps -/

variable [DecidableEq ρ]

/-- What the threads owe after an action of one of them. -/
def charge (owed : ρ → List ω) (ops : List ω) : Option ρ → ρ → List ω
  | none => owed
  | some r => Function.update owed r ops

def step (S : Source σ κ ρ ω) (o : Outbox σ ρ ω) : Label κ ρ → Option (Outbox σ ρ ω)
  | .act l =>
    if (S.owner l).all o.free then
      (S.step o.base l).map fun s' =>
        { o with base := s', owed := charge o.owed (S.emits o.base l s') (S.owner l) }
    else none
  | .perform r =>
    match o.owed r with
    | [] => none
    | op :: ops => some { o with owed := Function.update o.owed r ops, done := o.done ++ [op] }

variable {o' : Outbox σ ρ ω}

theorem step_act {l : κ} (h : step S o (.act l) = some o') :
    ∃ s', S.step o.base l = some s' ∧ (∀ r, S.owner l = some r → o.owed r = [])
      ∧ o' = { o with base := s', owed := charge o.owed (S.emits o.base l s') (S.owner l) } := by
  simp only [step] at h
  split_ifs at h with hfree
  obtain ⟨s', hs', rfl⟩ := Option.map_eq_some_iff.mp h
  refine ⟨s', hs', fun r hr => ?_, rfl⟩
  rw [hr] at hfree
  exact List.isEmpty_iff.mp hfree

theorem step_perform {r : ρ} (h : step S o (.perform r) = some o') :
    ∃ op ops, o.owed r = op :: ops
      ∧ o' = { o with owed := Function.update o.owed r ops, done := o.done ++ [op] } := by
  simp only [step] at h
  split at h
  · cases h
  · next op ops howed =>
    cases h
    exact ⟨op, ops, howed, rfl⟩

theorem charge_of_ne {owed : ρ → List ω} {ops : List ω} {who : Option ρ} {r : ρ}
    (h : who ≠ some r) : charge owed ops who r = owed r := by
  cases who with
  | none => rfl
  | some r' => exact Function.update_of_ne (fun heq => h (congrArg some heq.symm)) ..

theorem charge_self {owed : ρ → List ω} {ops : List ω} (r : ρ) :
    charge owed ops (some r) r = ops := Function.update_self ..

/-- The runs of the system alone. -/
theorem reach_base {o₀ : Outbox σ ρ ω} (h : Trans.Reach (step S) Trans.anyStep o₀ o) :
    Trans.Reach S.step Trans.anyStep o₀.base o.base := by
  induction h with
  | refl => exact .refl
  | @tail o o' l _ _ hst ih =>
    cases l with
    | act l =>
      obtain ⟨s', hs', -, rfl⟩ := step_act hst
      exact .tail ih trivial hs'
    | perform r =>
      obtain ⟨op, ops, -, rfl⟩ := step_perform hst
      exact ih

/-- What holds of an operation and the state when the operation is called for, and what the other
threads keep, holds until the operation is carried out. Induction on the run. -/
theorem owed_invariant {K : ρ → ω → σ → Prop} {s₀ : σ} (hI₀ : I s₀)
    (hI : ∀ s l s', I s → S.step s l = some s' → I s')
    (hemit : ∀ s l s' r, I s → S.step s l = some s' → S.owner l = some r →
      ∀ op ∈ S.emits s l s', K r op s')
    (hkeep : ∀ s l s' r op, I s → S.step s l = some s' → S.owner l ≠ some r → K r op s → K r op s')
    (h : Trans.Reach (step S) Trans.anyStep (.new s₀) o) (r : ρ) :
    ∀ op ∈ o.owed r, K r op o.base := by
  have hall : I o.base ∧ ∀ op ∈ o.owed r, K r op o.base := by
    refine h.invariant (P := fun o => I o.base ∧ ∀ op ∈ o.owed r, K r op o.base)
      ⟨hI₀, fun op hop => absurd hop List.not_mem_nil⟩ ?_
    rintro o l o' ⟨hIo, hK⟩ - hst
    cases l with
    | act l =>
      obtain ⟨s', hs', -, rfl⟩ := step_act hst
      refine ⟨hI _ _ _ hIo hs', fun op hop => ?_⟩
      change op ∈ charge o.owed (S.emits o.base l s') (S.owner l) r at hop
      by_cases howner : S.owner l = some r
      · rw [howner, charge_self] at hop
        exact hemit _ _ _ _ hIo hs' howner op hop
      · rw [charge_of_ne howner] at hop
        exact hkeep _ _ _ _ _ hIo hs' howner (hK op hop)
    | perform r' =>
      obtain ⟨op', ops, howed, rfl⟩ := step_perform hst
      refine ⟨hIo, fun op hop => hK op ?_⟩
      change op ∈ Function.update o.owed r' ops r at hop
      by_cases hr : r = r'
      · subst hr
        rw [Function.update_self] at hop
        rw [howed]
        exact List.mem_cons_of_mem _ hop
      · rwa [Function.update_of_ne hr] at hop
  exact hall.2

/-- An action adds to what is seen the operations that it calls for. -/
theorem Watch.seen_act (hw : Watch S I P turn) {l : κ} (ho : I o.base) (hsole : o.Sole P turn)
    (h : step S o (.act l) = some o') :
    o'.seen P turn = o.seen P turn ++ (S.emits o.base l o'.base).filter P
      ∧ o'.Sole P turn := by
  obtain ⟨s', hs', hfree, rfl⟩ := step_act h
  unfold seen Sole
  simp only [List.filter_append]
  by_cases hturn : turn s' = turn o.base
  · rw [hturn]
    by_cases howner : S.owner l = some (turn o.base)
    · refine ⟨?_, fun r hr => ?_⟩
      · rw [howner, charge_self, hfree _ howner, List.filter_nil, List.append_nil]
      · rw [charge_of_ne (fun h => hr (Option.some.inj (h.symm.trans howner)))]
        exact hsole r hr
    · -- another thread's step calls for nothing in `P`
      have hnone := hw.emits_of_ne ho hs' (by rwa [hturn])
      refine ⟨?_, fun r hr => ?_⟩
      · rw [charge_of_ne howner, hnone, List.append_nil]
      · by_cases hr' : S.owner l = some r
        · rw [hr', charge_self, hnone]
        · rw [charge_of_ne hr']
          exact hsole r hr
  · -- the turn is passed on by a thread that owes nothing
    have howner := hw.pass ho hs' hturn
    have hnone := hw.emits_of_ne ho hs' fun h => hturn (Option.some.inj (h.symm.trans howner))
    refine ⟨?_, fun r hr => ?_⟩
    · rw [charge_of_ne fun h => hturn (Option.some.inj (h.symm.trans howner)),
        hsole _ hturn, hfree _ howner, hnone, List.filter_nil, List.append_nil, List.append_nil]
    · by_cases hr' : S.owner l = some r
      · rw [hr', charge_self, hnone]
      · refine (congrArg (List.filter P) (charge_of_ne hr')).trans (hsole r fun heq => hr' ?_)
        rw [heq]
        exact howner

/-- What is seen does not change when an operation is carried out. -/
theorem seen_perform {r : ρ} (hsole : o.Sole P turn) (h : step S o (.perform r) = some o') :
    o'.base = o.base ∧ o'.seen P turn = o.seen P turn ∧ o'.Sole P turn := by
  obtain ⟨op, ops, howed, rfl⟩ := step_perform h
  refine ⟨rfl, ?_, fun r' hr' => ?_⟩
  · unfold seen
    by_cases hr : turn o.base = r
    · simp only [hr, Function.update_self, howed, List.append_assoc, List.singleton_append]
    · have hop := hsole r (Ne.symm hr)
      rw [howed, List.filter_cons] at hop
      have hP : P op = false := by
        by_contra hP
        rw [if_pos (by simpa using hP)] at hop
        cases hop
      simp only [Function.update_of_ne hr, List.filter_append, List.filter_cons, hP,
        Bool.false_eq_true, if_false, List.filter_nil, List.append_nil]
  · change (Function.update o.owed r ops r').filter P = []
    by_cases hr : r' = r
    · subst hr
      have hall := hsole r' hr'
      rw [howed] at hall
      rw [Function.update_self]
      exact List.filter_eq_nil_iff.mpr fun x hx =>
        List.filter_eq_nil_iff.mp hall x (List.mem_cons_of_mem _ hx)
    · rw [Function.update_of_ne hr]
      exact hsole r' hr'

/-- What the actions and the operations that they call for keep, the system keeps with the
operations that are seen. Induction on the run. -/
theorem Watch.invariant (hw : Watch S I P turn) {Q : σ → List ω → Prop} {s₀ : σ}
    (hI₀ : I s₀) (hI : ∀ s l s', I s → S.step s l = some s' → I s')
    (hQ₀ : Q s₀ [])
    (hQ : ∀ s l s' ops, I s → S.step s l = some s' → Q s ops →
      Q s' (ops ++ (S.emits s l s').filter P))
    (h : Trans.Reach (step S) Trans.anyStep (.new s₀) o) :
    Q o.base (o.seen P turn) ∧ o.Sole P turn := by
  have hall : I o.base ∧ Q o.base (o.seen P turn) ∧ o.Sole P turn := by
    refine h.invariant (P := fun o => I o.base ∧ Q o.base (o.seen P turn) ∧ o.Sole P turn)
      ⟨hI₀, hQ₀, fun _ _ => rfl⟩ ?_
    rintro o l o' ⟨hIo, hQo, hsole⟩ - hst
    cases l with
    | act l =>
      obtain ⟨hseen, hsole'⟩ := hw.seen_act hIo hsole hst
      obtain ⟨s', hs', -, rfl⟩ := step_act hst
      exact ⟨hI _ _ _ hIo hs', hseen ▸ hQ _ _ _ _ hIo hs' hQo, hsole'⟩
    | perform r =>
      obtain ⟨hbase, hseen, hsole'⟩ := seen_perform hsole hst
      rw [hbase, hseen]
      exact ⟨hIo, hQo, hsole'⟩
  exact hall.2

end Outbox
