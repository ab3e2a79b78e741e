import Mathlib.Data.List.Nodup

/-!
# First-in first-out ledgers

A `Ledger` is the full history of a queue whose members either leave from the front
(*served*) or are withdrawn from any position (*dropped*). It carries the two facts a FIFO
queue is about:

* nothing arrives twice;
* the members served so far, followed by those still waiting, are the arrivals in arrival
  order with exactly the dropped ones left out.

Every operation rebuilds both fields, so a development that mirrors its concrete queue in a
ledger gets arrival order and exactly-once service from the type.
-/

/-- The history of a FIFO queue with withdrawals. -/
structure Ledger (α : Type*) [DecidableEq α] where
  /-- Everything that ever entered the queue, oldest first. -/
  arrivals : List α
  /-- Those that left from the front, in the order they left. -/
  served : List α
  /-- Those still in the queue, oldest first. -/
  waiting : List α
  /-- Those that were withdrawn. -/
  dropped : List α
  nodup : arrivals.Nodup
  dropped_subset : dropped ⊆ arrivals
  split : served ++ waiting = arrivals.filter (· ∉ dropped)

namespace Ledger

variable {α : Type*} [DecidableEq α]

/-- Nothing has arrived yet. -/
def empty : Ledger α where
  arrivals := []
  served := []
  waiting := []
  dropped := []
  nodup := List.nodup_nil
  dropped_subset := List.Subset.refl _
  split := rfl

instance : Inhabited (Ledger α) := ⟨empty⟩

/-! ## What the carried facts give -/

theorem nodup_split (l : Ledger α) : (l.served ++ l.waiting).Nodup := by
  rw [l.split]
  exact l.nodup.filter _

theorem waiting_nodup (l : Ledger α) : l.waiting.Nodup :=
  (List.nodup_append'.mp l.nodup_split).2.1

/-- A member is in the queue or served exactly if it arrived and was not dropped. -/
theorem mem_split (l : Ledger α) {a : α} :
    (a ∈ l.served ∨ a ∈ l.waiting) ↔ a ∈ l.arrivals ∧ a ∉ l.dropped := by
  rw [← List.mem_append, l.split]
  simp

theorem mem_arrivals_of_waiting (l : Ledger α) {a : α} (h : a ∈ l.waiting) : a ∈ l.arrivals :=
  (l.mem_split.mp (Or.inr h)).1

theorem mem_arrivals_of_served (l : Ledger α) {a : α} (h : a ∈ l.served) : a ∈ l.arrivals :=
  (l.mem_split.mp (Or.inl h)).1

theorem not_dropped_of_waiting (l : Ledger α) {a : α} (h : a ∈ l.waiting) : a ∉ l.dropped :=
  (l.mem_split.mp (Or.inr h)).2

theorem not_served_of_waiting (l : Ledger α) {a : α} (h : a ∈ l.waiting) : a ∉ l.served :=
  fun hs => (List.nodup_append'.mp l.nodup_split).2.2 hs h

/-! ## Arrival -/

/-- `a` joins the back of the queue. A second arrival of the same member is ignored, which is
what keeps `nodup`. -/
def arrive (l : Ledger α) (a : α) : Ledger α :=
  if h : a ∈ l.arrivals then l else
    { l with
      arrivals := l.arrivals ++ [a]
      waiting := l.waiting ++ [a]
      nodup := by
        rw [List.nodup_append_comm]
        exact List.nodup_cons.mpr ⟨h, l.nodup⟩
      dropped_subset := fun _ hx => List.mem_append_left _ (l.dropped_subset hx)
      split := by
        have hfresh : a ∉ l.dropped := fun hd => h (l.dropped_subset hd)
        rw [List.filter_append, ← l.split, List.append_assoc]
        simp [hfresh] }

theorem arrive_of_mem (l : Ledger α) {a : α} (h : a ∈ l.arrivals) : l.arrive a = l := by
  rw [arrive, dif_pos h]

@[simp] theorem arrive_served (l : Ledger α) (a : α) : (l.arrive a).served = l.served := by
  unfold arrive; split <;> rfl

@[simp] theorem arrive_dropped (l : Ledger α) (a : α) : (l.arrive a).dropped = l.dropped := by
  unfold arrive; split <;> rfl

theorem arrive_arrivals (l : Ledger α) {a : α} (h : a ∉ l.arrivals) :
    (l.arrive a).arrivals = l.arrivals ++ [a] := by
  rw [arrive, dif_neg h]

theorem arrive_waiting (l : Ledger α) {a : α} (h : a ∉ l.arrivals) :
    (l.arrive a).waiting = l.waiting ++ [a] := by
  rw [arrive, dif_neg h]

theorem mem_arrive_arrivals (l : Ledger α) {a b : α} :
    b ∈ (l.arrive a).arrivals ↔ b ∈ l.arrivals ∨ b = a := by
  by_cases h : a ∈ l.arrivals
  · rw [arrive_of_mem l h]
    constructor
    · exact Or.inl
    · rintro (hb | rfl)
      · exact hb
      · exact h
  · rw [arrive_arrivals l h]
    simp

/-! ## Service from the front -/

/-- The first `n` members leave the queue from the front. -/
def serve (l : Ledger α) (n : Nat) : Ledger α :=
  { l with
    served := l.served ++ l.waiting.take n
    waiting := l.waiting.drop n
    split := by rw [List.append_assoc, List.take_append_drop, l.split] }

@[simp] theorem serve_arrivals (l : Ledger α) (n : Nat) : (l.serve n).arrivals = l.arrivals := rfl

@[simp] theorem serve_dropped (l : Ledger α) (n : Nat) : (l.serve n).dropped = l.dropped := rfl

@[simp] theorem serve_served (l : Ledger α) (n : Nat) :
    (l.serve n).served = l.served ++ l.waiting.take n := rfl

@[simp] theorem serve_waiting (l : Ledger α) (n : Nat) :
    (l.serve n).waiting = l.waiting.drop n := rfl

/-- A member that arrives at an empty queue and is served at once. -/
theorem served_of_immediate (l : Ledger α) {a : α} (h : a ∉ l.arrivals) (he : l.waiting = []) :
    ((l.arrive a).serve 1).served = l.served ++ [a] := by
  simp [l.arrive_waiting h, he]

theorem waiting_of_immediate (l : Ledger α) {a : α} (h : a ∉ l.arrivals) (he : l.waiting = []) :
    ((l.arrive a).serve 1).waiting = [] := by
  simp [l.arrive_waiting h, he]

/-! ## Withdrawal -/

/-- Filtering a duplicate-free list by what it shares with a part of itself. -/
theorem filter_not_mem_filter (xs : List α) (p : α → Bool) :
    xs.filter (· ∉ xs.filter p) = xs.filter (fun a => !p a) := by
  apply List.filter_congr
  intro a ha
  simp [ha]

/-- The waiting members that satisfy `p` are withdrawn; the others keep their order. -/
def drop (l : Ledger α) (p : α → Bool) : Ledger α :=
  { l with
    waiting := l.waiting.filter (fun a => !p a)
    dropped := l.dropped ++ l.waiting.filter p
    dropped_subset := by
      intro a ha
      rcases List.mem_append.mp ha with hd | hw
      · exact l.dropped_subset hd
      · exact l.mem_arrivals_of_waiting (List.mem_of_mem_filter hw)
    split := by
      -- what is withdrawn now was waiting, so it was never served
      have hserved : l.served.filter (· ∉ l.waiting.filter p) = l.served := by
        rw [List.filter_eq_self]
        intro a ha
        simp only [decide_eq_true_eq]
        intro hw
        exact l.not_served_of_waiting (List.mem_of_mem_filter hw) ha
      have hboth : l.arrivals.filter (· ∉ l.dropped ++ l.waiting.filter p)
          = (l.arrivals.filter (· ∉ l.dropped)).filter (· ∉ l.waiting.filter p) := by
        rw [List.filter_filter]
        apply List.filter_congr
        intro a _
        simp only [List.mem_append, not_or, Bool.decide_and]
        exact Bool.and_comm _ _
      rw [hboth, ← l.split, List.filter_append, hserved, filter_not_mem_filter] }

@[simp] theorem drop_arrivals (l : Ledger α) (p : α → Bool) :
    (l.drop p).arrivals = l.arrivals := rfl

@[simp] theorem drop_served (l : Ledger α) (p : α → Bool) : (l.drop p).served = l.served := rfl

@[simp] theorem drop_waiting (l : Ledger α) (p : α → Bool) :
    (l.drop p).waiting = l.waiting.filter (fun a => !p a) := rfl

@[simp] theorem drop_dropped (l : Ledger α) (p : α → Bool) :
    (l.drop p).dropped = l.dropped ++ l.waiting.filter p := rfl

end Ledger
