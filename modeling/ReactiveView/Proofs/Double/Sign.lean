import Mathlib.Tactic.Positivity
import ReactiveView.Double.Basic
/-!
# Sign, negation and the whole part of binary64 values

A value is kept as its bit pattern, so the facts below are arithmetic on the pattern. A pattern
built by `make` has exactly the sign, exponent field and fraction it was given when they fit
(`field_make`, `fraction_make`, `negative_make`). Negating a value flips the sign bit and keeps
the rest, so a NaN stays a NaN, an infinity stays an infinity, and the whole part changes sign
(`truncate_neg`). A value lies below zero exactly when it is not a NaN, its sign bit is set and
its magnitude is not zero (`lt_zero_iff`); the whole part of a value with the sign bit set is at
most zero, and that of any other value at least zero.
-/
namespace ReactiveView.Double

set_option autoImplicit false

/-! ## The fields of a pattern -/

theorem bits_make (negative : Bool) (field fraction : Nat) :
    (make negative field fraction).bits.toNat =
      (if negative then Nat.pow 2 63 else 0) + field % Nat.pow 2 11 * Nat.pow 2 52 +
        fraction % Nat.pow 2 52 := by
  have hf : field % 2048 < 2048 := Nat.mod_lt _ (by omega)
  have hr : fraction % 4503599627370496 < 4503599627370496 := Nat.mod_lt _ (by omega)
  show (UInt64.ofNat _).toNat = _
  rw [UInt64.toNat_ofNat']
  -- the three parts fill disjoint bits, so their sum fits in 64 bits
  apply Nat.mod_eq_of_lt
  simp only [Nat.pow_eq, Nat.reducePow] at *
  split <;> omega

@[simp] theorem fraction_make (negative : Bool) (field fraction : Nat) :
    (make negative field fraction).fraction = fraction % Nat.pow 2 52 := by
  rw [Double.fraction, bits_make]
  simp only [Nat.pow_eq, Nat.reducePow]
  split <;> omega

@[simp] theorem field_make (negative : Bool) (field fraction : Nat) :
    (make negative field fraction).field = field % Nat.pow 2 11 := by
  rw [Double.field, bits_make]
  simp only [Nat.pow_eq, Nat.reducePow]
  split <;> omega

@[simp] theorem negative_make (negative : Bool) (field fraction : Nat) :
    (make negative field fraction).negative = negative := by
  rw [Double.negative, bits_make]
  simp only [Nat.pow_eq, Nat.reducePow]
  cases negative <;> simp <;> omega

theorem field_lt (x : Double) : x.field < Nat.pow 2 11 := Nat.mod_lt _ (by decide)

theorem fraction_lt (x : Double) : x.fraction < Nat.pow 2 52 := Nat.mod_lt _ (by decide)

/-! ## Negation -/

section Negation

variable (x : Double)

@[simp] theorem field_neg : x.neg.field = x.field := by
  rw [neg, field_make, Nat.mod_eq_of_lt x.field_lt]

@[simp] theorem fraction_neg : x.neg.fraction = x.fraction := by
  rw [neg, fraction_make, Nat.mod_eq_of_lt x.fraction_lt]

@[simp] theorem negative_neg : x.neg.negative = !x.negative := by
  rw [neg, negative_make]

@[simp] theorem isNaN_neg : x.neg.isNaN = x.isNaN := by
  simp [isNaN]

@[simp] theorem isInfinite_neg : x.neg.isInfinite = x.isInfinite := by
  simp [isInfinite]

/-- The whole part of a negated value is the negated whole part. -/
theorem truncate_neg : x.neg.truncate = -x.truncate := by
  have same_exponent : x.neg.exponent = x.exponent := by simp [exponent]
  have same_significand : x.neg.significand = x.significand := by simp [significand]
  simp only [truncate, same_exponent, same_significand, negative_neg]
  cases x.negative <;> simp

end Negation

/-! ## Zero and the whole part -/

section Whole

variable {x : Double}

@[simp] theorem isNaN_zero (negative : Bool) : (zero negative).isNaN = false := by
  simp [isNaN, zero]

@[simp] theorem rank_zero (negative : Bool) : (zero negative).rank = 0 := by
  simp [rank, zero]

/-- Below zero: not a NaN, the sign bit set, and a magnitude that is not zero. -/
theorem lt_zero_iff :
    x.lt (zero false) = true ↔
      x.isNaN = false ∧ x.negative = true ∧ (x.field ≠ 0 ∨ x.fraction ≠ 0) := by
  unfold lt
  rw [isNaN_zero, rank_zero]
  unfold rank
  by_cases sign : x.negative = true <;> simp [sign] <;> omega

/-- The whole part of the magnitude is not negative. -/
theorem wholeMagnitude_nonneg (x : Double) :
    0 ≤ (if 0 ≤ x.exponent then (x.significand : Int) * Int.pow 2 x.exponent.toNat
      else x.significand / Int.pow 2 (-x.exponent).toNat) := by
  have power : ∀ k, 0 ≤ Int.pow 2 k := fun k => show (0 : Int) ≤ 2 ^ k by positivity
  split
  · exact Int.mul_nonneg (Int.natCast_nonneg _) (power _)
  · exact Int.ediv_nonneg (Int.natCast_nonneg _) (power _)

theorem truncate_nonpos (negative : x.negative = true) : x.truncate ≤ 0 := by
  simp only [truncate, negative, if_true, Int.neg_nonpos_iff]
  exact wholeMagnitude_nonneg x

theorem truncate_nonneg (positive : x.negative = false) : 0 ≤ x.truncate := by
  simp only [truncate, positive, Bool.false_eq_true, if_false]
  exact wholeMagnitude_nonneg x

/-- A value whose exponent field and fraction are zero has whole part zero, whatever its sign. -/
theorem truncate_of_zero (field : x.field = 0) (fraction : x.fraction = 0) : x.truncate = 0 := by
  simp [truncate, significand, field, fraction]

end Whole

end ReactiveView.Double
