import Mathlib.Algebra.Order.Ring.Int

/-!
# Go's `int`

`int` is a signed integer of 32 or 64 bits, by platform. `GoInt p` is a value in that range:
the bounds are fields, so no operation can leave it. Arithmetic is the machine's, that is
`wrap` after the operation on integers; each operation comes with the lemma that it is exact
where the integer result fits.
-/

/-- The two sizes of `int`. -/
inductive IntSize where
  | w32
  | w64
  deriving DecidableEq, Repr

namespace IntSize

/-- Bits of an `int`. -/
def bits : IntSize → Nat
  | w32 => 32
  | w64 => 64

/-- The least `int`. -/
def minVal (p : IntSize) : Int := -2 ^ (p.bits - 1)

/-- The greatest `int`. -/
def maxVal (p : IntSize) : Int := 2 ^ (p.bits - 1) - 1

theorem minVal_eq (p : IntSize) : p.minVal = -p.maxVal - 1 := by
  cases p <;> decide

theorem one_le_maxVal (p : IntSize) : 1 ≤ p.maxVal := by
  cases p <;> decide

theorem two_pow_bits (p : IntSize) : ((2 ^ p.bits : Nat) : Int) = 2 * p.maxVal + 2 := by
  cases p <;> decide

end IntSize

/-- A value of type `int`. -/
@[ext]
structure GoInt (p : IntSize) where
  val : Int
  min_le : p.minVal ≤ val
  le_max : val ≤ p.maxVal
  deriving DecidableEq, Repr

namespace GoInt

variable {p : IntSize}

/-- The `int` an integer result is truncated to. -/
def wrap (p : IntSize) (x : Int) : GoInt p where
  val := x.bmod (2 ^ p.bits)
  min_le := by
    have hlow := Int.le_bmod (x := x) (Nat.two_pow_pos p.bits)
    rw [p.two_pow_bits] at hlow
    rw [p.minVal_eq]
    omega
  le_max := by
    have hhigh := Int.bmod_lt (x := x) (Nat.two_pow_pos p.bits)
    rw [p.two_pow_bits] at hhigh
    omega

/-- Nothing is lost of an integer in range. -/
theorem wrap_val {x : Int} (hlow : p.minVal ≤ x) (hhigh : x ≤ p.maxVal) :
    (wrap p x).val = x := by
  rw [p.minVal_eq] at hlow
  have hpow := p.two_pow_bits
  exact Int.bmod_eq_of_le_mul_two (by omega) (by omega)

/-- A sum that is truncated at each addition is the truncated sum. -/
theorem wrap_val_add (x y : Int) : wrap p ((wrap p x).val + y) = wrap p (x + y) :=
  GoInt.ext (Int.bmod_add_bmod ..)

instance : Add (GoInt p) := ⟨fun a b => wrap p (a.val + b.val)⟩
instance : Sub (GoInt p) := ⟨fun a b => wrap p (a.val - b.val)⟩
instance : Neg (GoInt p) := ⟨fun a => wrap p (-a.val)⟩
instance (n : Nat) : OfNat (GoInt p) n := ⟨wrap p n⟩
instance : LT (GoInt p) := ⟨fun a b => a.val < b.val⟩

instance (a b : GoInt p) : Decidable (a < b) := inferInstanceAs (Decidable (a.val < b.val))

theorem lt_iff {a b : GoInt p} : a < b ↔ a.val < b.val := Iff.rfl

@[simp] theorem zero_val : (0 : GoInt p).val = 0 := by
  cases p <;> decide

theorem eq_zero_iff {a : GoInt p} : a = 0 ↔ a.val = 0 := by
  rw [GoInt.ext_iff, zero_val]

theorem add_val {a b : GoInt p} (hlow : p.minVal ≤ a.val + b.val)
    (hhigh : a.val + b.val ≤ p.maxVal) : (a + b).val = a.val + b.val :=
  wrap_val hlow hhigh

theorem sub_val {a b : GoInt p} (hlow : p.minVal ≤ a.val - b.val)
    (hhigh : a.val - b.val ≤ p.maxVal) : (a - b).val = a.val - b.val :=
  wrap_val hlow hhigh

/-- Negation is exact except at the least `int`. -/
theorem neg_val {a : GoInt p} (h : -p.maxVal ≤ a.val) : (-a).val = -a.val := by
  refine wrap_val ?_ ?_
  · have hmax := a.le_max
    rw [p.minVal_eq]
    omega
  · omega

end GoInt
