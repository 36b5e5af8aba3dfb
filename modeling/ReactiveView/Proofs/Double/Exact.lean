import Mathlib
import ReactiveView.Proofs.Double.Sign
import ReactiveView.Double.Round
/-!
# The exact value of a binary64 value

A finite value stands for the rational `± significand * 2 ^ exponent` (`toRat`). This module
relates the model's tests on the bit pattern to that value:

* `isIntegral` holds exactly of the finite values that are whole numbers
  (`isIntegral_of_toRat`), and then `truncate` is that whole number (`truncate_eq_toRat`);
* `truncate` is the whole part of the magnitude with the value's sign, and the magnitude is
  below `9e15` exactly when the value lies below the binary64 value nearest to `9e15`, which is
  `9e15` itself (`abs_lt_bound_iff`);
* every whole number that fits in 64 bits rounds to a finite value (`ofNat_isFinite`,
  `ofInt_isFinite`): its binade is far below the largest one.
-/
namespace ReactiveView.Double

set_option autoImplicit false

/-! ## Values and whole parts -/

/-- The rational a finite value stands for. -/
def toRat (x : Double) : ℚ :=
  (if x.negative then -1 else 1) * (x.significand * (2 : ℚ) ^ x.exponent)

/-- The whole part of the magnitude of a finite value, rounded toward zero. -/
def wholePart (x : Double) : Nat :=
  if 0 ≤ x.exponent then x.significand * 2 ^ x.exponent.toNat
  else x.significand / 2 ^ (-x.exponent).toNat

theorem truncate_eq_wholePart (x : Double) :
    x.truncate = if x.negative then -(x.wholePart : Int) else x.wholePart := by
  have magnitude : (if 0 ≤ x.exponent then (x.significand : Int) * Int.pow 2 x.exponent.toNat
      else x.significand / Int.pow 2 (-x.exponent).toNat) = x.wholePart := by
    unfold wholePart
    split <;> simp [Int.pow_eq]
  rw [truncate, magnitude]

/-- The whole part keeps the magnitude's whole part, whatever the sign. -/
theorem natAbs_truncate (x : Double) : x.truncate.natAbs = x.wholePart := by
  rw [truncate_eq_wholePart]
  split <;> simp

/-- A whole value's magnitude is its whole part. -/
theorem wholePart_cast {x : Double} (whole : x.isIntegral = true) :
    (x.wholePart : ℚ) = x.significand * (2 : ℚ) ^ x.exponent := by
  simp only [isIntegral, Bool.and_eq_true, Bool.or_eq_true, decide_eq_true_eq, beq_iff_eq] at whole
  unfold wholePart
  split
  next nonneg =>
    rw [← Int.toNat_of_nonneg nonneg, zpow_natCast]
    push_cast
    rfl
  next negative =>
    obtain ⟨k, hk⟩ : ∃ k : Nat, x.exponent = -(k : Int) := ⟨(-x.exponent).toNat, by omega⟩
    have dvd := Nat.dvd_of_mod_eq_zero (whole.2.resolve_left negative)
    rw [hk] at dvd ⊢
    simp only [neg_neg, Int.toNat_natCast, Nat.pow_eq] at dvd ⊢
    obtain ⟨t, ht⟩ := dvd
    rw [ht, Nat.mul_div_cancel_left _ (by positivity), zpow_neg, zpow_natCast]
    push_cast
    field_simp

/-- The whole part of a whole value is the value itself. -/
theorem truncate_eq_toRat {x : Double} (whole : x.isIntegral = true) :
    (x.truncate : ℚ) = x.toRat := by
  rw [truncate_eq_wholePart, toRat, ← wholePart_cast whole]
  split <;> push_cast <;> ring

/-- A finite value that stands for a whole number passes `isIntegral`. -/
theorem isIntegral_of_toRat {x : Double} (finite : x.isFinite = true) {k : ℤ}
    (exact : x.toRat = k) : x.isIntegral = true := by
  simp only [isIntegral, finite, Bool.true_and, Bool.or_eq_true, decide_eq_true_eq, beq_iff_eq]
  by_cases nonneg : 0 ≤ x.exponent
  · exact .inl nonneg
  · refine .inr (Nat.mod_eq_zero_of_dvd ?_)
    obtain ⟨k', hk'⟩ : ∃ k' : Nat, x.exponent = -(k' : Int) :=
      ⟨(-x.exponent).toNat, by omega⟩
    rw [hk', neg_neg, Int.toNat_natCast, Nat.pow_eq]
    rw [toRat, hk', zpow_neg, zpow_natCast] at exact
    -- the significand is the whole value times `2 ^ k'`
    have scaled :
        ((x.significand : ℤ) : ℚ) = ((if x.negative then -k else k) * 2 ^ k' : ℤ) := by
      cases sign : x.negative <;>
        simp only [sign, Bool.false_eq_true, if_true, if_false] at exact ⊢ <;>
        field_simp at exact <;> push_cast <;> linarith
    have := Int.cast_injective scaled
    exact Int.natCast_dvd_natCast.1 ⟨_, by rw [this]; push_cast; ring⟩

/-! ## The bound `9e15` -/

/-- `9e15` is below `2 ^ 53`, so it is its own binary64 value: exponent field `1075` (that is,
exponent `0`) and fraction `9e15 - 2 ^ 52`. -/
theorem jsonBound_eq : ofDecimal false 9 15 = make false 1075 4496400372629504 := by
  decide +kernel

/-- The rank of a positive pattern is its exponent field and fraction read as one number. -/
theorem rank_make_false {field fraction : Nat} (hf : field < Nat.pow 2 11)
    (hm : fraction < Nat.pow 2 52) :
    (make false field fraction).rank = field * 2 ^ 52 + fraction := by
  simp [rank, Nat.mod_eq_of_lt hf, Nat.mod_eq_of_lt hm, Int.pow_eq]

theorem isNaN_abs {x : Double} (finite : x.isFinite = true) : x.abs.isNaN = false := by
  simp only [isFinite, bne_iff_ne, ne_eq] at finite
  simp [isNaN, abs, Nat.mod_eq_of_lt x.field_lt, finite]

/-- The magnitude of a finite value lies below `9e15` exactly when its whole part does: below
`2 ^ 53` every value from `2 ^ 52` on is whole, and a value under `2 ^ 52` is far below the
bound. -/
theorem abs_lt_bound_iff {x : Double} (finite : x.isFinite = true) :
    x.abs.lt (ofDecimal false 9 15) = true ↔ x.wholePart < 9000000000000000 := by
  have bound : (make false 1075 4496400372629504).isNaN = false := by decide
  rw [jsonBound_eq, lt, isNaN_abs finite, bound, abs, rank_make_false x.field_lt x.fraction_lt,
    rank_make_false (by decide) (by decide)]
  have fieldLt := x.field_lt
  have fracLt := x.fraction_lt
  simp only [Nat.pow_eq, Nat.reducePow] at fieldLt
  simp only [Nat.pow_eq] at fracLt
  have finiteField : x.field ≠ 2047 := by simpa [isFinite] using finite
  simp only [Bool.not_false, Bool.true_and, decide_eq_true_eq]
  unfold wholePart significand exponent
  simp only [Nat.pow_eq]
  -- the four binades that decide it: subnormal, below `2 ^ 52`, `[2 ^ 52, 2 ^ 53)`, and above
  rcases (show x.field = 0 ∨ (1 ≤ x.field ∧ x.field ≤ 1074) ∨ x.field = 1075 ∨
      1076 ≤ x.field by omega) with zero | low | middle | high
  · -- subnormal: the whole part is zero, and so is the exponent field
    have small : ∀ k, 52 ≤ k → x.fraction / 2 ^ k = 0 := fun k wide =>
      Nat.div_eq_of_lt (Nat.lt_of_lt_of_le fracLt (Nat.pow_le_pow_right (Nat.succ_pos 1) wide))
    simp only [zero, if_true, show ¬ (0 ≤ (-1074 : Int)) by decide, if_false,
      small (-(-1074 : Int)).toNat (by decide)]
    omega
  · -- below `2 ^ 52`: at least one bit of the significand is a fraction
    have nonzero : x.field ≠ 0 := by omega
    obtain ⟨k, hk, shift⟩ : ∃ k, 1 ≤ k ∧ (-((x.field : Int) - 1075)).toNat = k :=
      ⟨_, by omega, rfl⟩
    have halves : (x.fraction + 2 ^ 52) / 2 ^ k ≤ (x.fraction + 2 ^ 52) / 2 :=
      Nat.div_le_div_left (Nat.le_self_pow (by omega) 2) (by norm_num)
    simp only [nonzero, if_false, show ¬ (0 ≤ (x.field : Int) - 1075) by omega, shift]
    constructor <;> intro <;> omega
  · -- in `[2 ^ 52, 2 ^ 53)` the values are the whole numbers
    simp only [middle, show (1075 : Nat) ≠ 0 by decide, if_false]
    norm_num
    omega
  · -- from `2 ^ 53` on, every value is above the bound
    have nonzero : x.field ≠ 0 := by omega
    obtain ⟨k, hk, shift⟩ : ∃ k, 1 ≤ k ∧ ((x.field : Int) - 1075).toNat = k :=
      ⟨_, by omega, rfl⟩
    have doubled : (x.fraction + 2 ^ 52) * 2 ≤ (x.fraction + 2 ^ 52) * 2 ^ k :=
      Nat.mul_le_mul_left _ (Nat.le_self_pow (by omega) 2)
    simp only [nonzero, if_false, show 0 ≤ (x.field : Int) - 1075 by omega, if_true, shift]
    constructor <;> intro <;> omega

/-! ## Whole numbers of 64 bits -/

theorem isFinite_make (negative : Bool) {field : Nat} (fraction : Nat) (lt : field < 2047) :
    (make negative field fraction).isFinite = true := by
  rw [isFinite, field_make, Nat.mod_eq_of_lt (show field < Nat.pow 2 11 by simp; omega)]
  simp; omega

/-- A whole number below `2 ^ 64` rounds to a finite value. -/
theorem ofRatio_one_isFinite (negative : Bool) {num : Nat} (small : num < 2 ^ 64) :
    (ofRatio negative num 1 0).isFinite = true := by
  unfold ofRatio
  split
  · exact isFinite_make _ _ (by omega)
  lift_lets
  intro d reaches top q s n m quot rem up sig
  split
  rename_i sig' q' rounded
  -- the binade of a number below `2 ^ 64` is at most `63`, far below the largest exponent
  have binade : num.log2 < 64 := (Nat.log2_lt (by omega)).2 small
  have hd : d ≤ 63 := by
    show (num.log2 : Int) - (Nat.log2 1 : Nat) ≤ 63
    omega
  have htop : top ≤ 63 := by
    show (if reaches = true then d else d - 1) + 0 ≤ 63
    split <;> omega
  have hq : q ≤ 11 := max_le (by omega) (by omega)
  have hq' : -1074 ≤ q' ∧ q' ≤ q + 1 := by
    have low : -1074 ≤ q := le_max_right _ _
    split at rounded <;> simp only [Prod.mk.injEq] at rounded <;> omega
  rw [if_neg (by omega)]
  split
  · exact isFinite_make _ _ (by omega)
  · exact isFinite_make _ _ (by omega)

theorem ofNat_isFinite {n : Nat} (small : n < 2 ^ 64) : (ofNat n).isFinite = true :=
  ofRatio_one_isFinite false small

theorem ofInt_isFinite {i : Int} (small : i.natAbs < 2 ^ 64) : (ofInt i).isFinite = true :=
  ofRatio_one_isFinite _ small

end ReactiveView.Double
