import Mathlib.Data.List.DropRight

/-!
# Bounded logs

A log that is cleared now and then and keeps its last `n` entries only. Cutting after every entry
leaves what one cut of the whole log leaves.
-/

namespace BoundedLog

variable {α : Type*}

inductive Op (α : Type*) where
  | record (x : α)
  | clear

/-- All entries since the last `clear`, one operation later. -/
def append (l : List α) : Op α → List α
  | .record x => l ++ [x]
  | .clear => []

/-- The same for a log cut to its last `n` entries. -/
def retain (n : Nat) (l : List α) : Op α → List α
  | .record x => (l ++ [x]).rtake n
  | .clear => []

/-- The entries since the last `clear`. -/
def since (ops : List (Op α)) : List α := ops.foldl append []

/-- Entries that an earlier cut has dropped would be dropped now. -/
theorem rtake_append_rtake (l : List α) (x : α) (n : Nat) :
    (l.rtake n ++ [x]).rtake n = (l ++ [x]).rtake n := by
  cases n with
  | zero => simp
  | succ n =>
    rw [List.rtake_concat_succ, List.rtake_concat_succ]
    simp only [List.rtake, List.length_drop, List.drop_drop]
    congr 2
    omega

/-- Induction on the operations, for any log to start from. -/
theorem foldl_retain (n : Nat) (l : List α) (ops : List (Op α)) :
    ops.foldl (retain n) (l.rtake n) = (ops.foldl append l).rtake n := by
  induction ops generalizing l with
  | nil => rfl
  | cons op ops ih =>
    have hop : retain n (l.rtake n) op = (append l op).rtake n := by
      cases op with
      | record x => exact rtake_append_rtake l x n
      | clear => simp [retain, append]
    rw [List.foldl_cons, List.foldl_cons, hop, ih]

/-- A bounded log holds the last entries since it was cleared. -/
theorem foldl_retain_nil (n : Nat) (ops : List (Op α)) :
    ops.foldl (retain n) [] = (since ops).rtake n := by
  simpa [since] using foldl_retain n [] ops

end BoundedLog
