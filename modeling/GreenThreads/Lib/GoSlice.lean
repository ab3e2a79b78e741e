import Mathlib.Data.List.Basic

/-!
# Go's slices

A slice is the list of its elements, and its capacity is its length. What panics (an index out of
range, a negative size, a division by zero) is partial: `none` is the panic. An `int` is an
integer.
-/

namespace GoSlice

variable {α : Type*}

/-- `a % b`. -/
def rem (a b : Int) : Option Int := if b = 0 then none else some (a.tmod b)

/-- `make([]T, n)`; `zero` is the zero value of `T`. -/
def make (zero : α) (n : Int) : Option (List α) :=
  if 0 ≤ n then some (List.replicate n.toNat zero) else none

/-- `l[i]`. -/
def get (l : List α) (i : Int) : Option α := if 0 ≤ i then l[i.toNat]? else none

/-- `l[i] = x`. -/
def set (l : List α) (i : Int) (x : α) : Option (List α) :=
  if 0 ≤ i ∧ i < l.length then some (l.set i.toNat x) else none

/-- `l[lo:hi]`. -/
def sub (l : List α) (lo hi : Int) : Option (List α) :=
  if 0 ≤ lo ∧ lo ≤ hi ∧ hi ≤ l.length then some ((l.take hi.toNat).drop lo.toNat) else none

/-- What `copy(dst, src)` makes of `dst`. -/
def copy (dst src : List α) : List α := src.take dst.length ++ dst.drop src.length

/-- What `copy(l[lo:], src)` makes of `l`. -/
def copyFrom (l : List α) (lo : Int) (src : List α) : Option (List α) :=
  (sub l lo l.length).map fun rest => l.take lo.toNat ++ copy rest src

/-- `for i := 0; i < n; i++ { l[slot(i)] = val(i) }`. -/
def fill (slot : Nat → Int) (val : Nat → Option α) (n : Nat) (l : List α) : Option (List α) :=
  (List.range n).foldlM (fun l i => (val i).bind (set l (slot i))) l

section

variable {l src : List α} {lo : Int}

/-- A copy that fits replaces what it covers. -/
theorem copyFrom_eq (hlo : 0 ≤ lo) (hfit : lo + src.length ≤ l.length) :
    copyFrom l lo src
      = some (l.take lo.toNat ++ src ++ l.drop (lo.toNat + src.length)) := by
  have hle : lo ≤ l.length := by omega
  have htake : src.take (l.length - lo.toNat) = src := List.take_of_length_le (by omega)
  simp [copyFrom, sub, copy, hlo, hle, htake, List.drop_drop]

/-- All of the destination is overwritten. -/
theorem copy_eq_of_length_eq {dst : List α} (h : dst.length = src.length) : copy dst src = src := by
  simp [copy, h]

theorem rem_natCast (a : Nat) {b : Nat} (hb : 0 < b) : rem a b = some ((a % b : Nat) : Int) := by
  simp [rem, Int.tmod_eq_emod_of_nonneg, Nat.pos_iff_ne_zero.mp hb]

/-- Go's remainder has the sign of the dividend; this is how the index of a ring buffer is made of
it. -/
theorem tmod_add_tmod (a : Int) {b : Int} (hb : 0 < b) : (a.tmod b + b).tmod b = a % b := by
  have hlow : -b < a.tmod b := by
    have hle := Int.natAbs_tmod a b
    have hlt := Nat.mod_lt a.natAbs (show 0 < b.natAbs by omega)
    omega
  rw [Int.tmod_eq_emod_of_nonneg (by omega), Int.add_emod_right]
  rw [Int.tmod_def, Int.sub_mul_emod_self_left]

@[simp] theorem get_ofFn {n : Nat} (g : Fin n → α) (i : Fin n) :
    get (List.ofFn g) (i.val : Int) = some (g i) := by
  simp [get]

theorem set_ofFn {n : Nat} (g : Fin n → α) (i : Fin n) (x : α) :
    set (List.ofFn g) (i.val : Int) x = some (List.ofFn fun j => if j = i then x else g j) := by
  have hlt : i.val < n := i.isLt
  simp only [set, List.length_ofFn, Int.toNat_natCast]
  rw [if_pos (by omega)]
  congr 1
  apply List.ext_getElem
  · simp
  · intro j hj hj'
    simp [List.getElem_set, Fin.ext_iff, eq_comm]

/-- A loop that writes every place at most once leaves in each what it wrote. Induction on the
number of rounds. -/
theorem fill_spec (place : Nat → Nat) {slot : Nat → Int} {val : Nat → Option α} {g : Nat → α}
    {n : Nat} (hval : ∀ i < n, val i = some (g i)) (hslot : ∀ i < n, slot i = place i)
    (hplace : ∀ i < n, place i < l.length) (hinj : ∀ i < n, ∀ j < n, place i = place j → i = j) :
    ∃ r, fill slot val n l = some r ∧ r.length = l.length ∧
      ∀ i < n, r[place i]? = some (g i) := by
  induction n with
  | zero => exact ⟨l, rfl, rfl, by simp⟩
  | succ n ih =>
    obtain ⟨r, hr, hlen, hget⟩ :=
      ih (fun i hi => hval i (by omega)) (fun i hi => hslot i (by omega))
      (fun i hi => hplace i (by omega)) (fun i hi j hj => hinj i (by omega) j (by omega))
    have hn : place n < r.length := hlen ▸ hplace n (by omega)
    refine ⟨r.set (place n) (g n), ?_, by simp [hlen], ?_⟩
    · unfold fill at hr ⊢
      rw [List.range_succ, List.foldlM_append, hr]
      simp [hval n (by omega), hslot n (by omega), set, hn]
    · intro i hi
      obtain hlt | rfl := Nat.lt_or_eq_of_le (Nat.le_of_lt_succ hi)
      · have hne : place n ≠ place i := by
          intro h
          have := hinj n (by omega) i (by omega) h
          omega
        rw [List.getElem?_set_ne hne, hget i hlt]
      · rw [List.getElem?_set_self hn]

end

end GoSlice
