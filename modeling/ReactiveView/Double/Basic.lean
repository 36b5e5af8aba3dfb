/-!
# Binary64 numbers

The numbers of the data model are IEEE 754 binary64 values, kept as their 64-bit pattern: a sign
bit, an 11-bit biased exponent and a 52-bit fraction. A finite value has the magnitude
`significand * 2 ^ exponent` (`significand`, `exponent`); a field of all ones is an infinity or
a NaN. Everything here is plain arithmetic on the pattern, so that printing, reading and the
comparisons of the data model can be evaluated and reasoned about in the logic.
-/
namespace ReactiveView

/-- A binary64 value, given by its bit pattern. -/
structure Double where
  bits : UInt64
  deriving DecidableEq, Inhabited, Repr

namespace Double

/-- The 52 low bits. -/
def fraction (x : Double) : Nat := x.bits.toNat % Nat.pow 2 52

/-- The 11 bits of the biased exponent. -/
def field (x : Double) : Nat := x.bits.toNat / Nat.pow 2 52 % Nat.pow 2 11

/-- The sign bit. -/
def negative (x : Double) : Bool := Nat.pow 2 63 ≤ x.bits.toNat

/-- A NaN: all exponent bits set and a fraction that is not zero. -/
def isNaN (x : Double) : Bool := x.field == 2047 && x.fraction != 0

/-- An infinity of either sign. -/
def isInfinite (x : Double) : Bool := x.field == 2047 && x.fraction == 0

/-- Neither an infinity nor a NaN. -/
def isFinite (x : Double) : Bool := x.field != 2047

/-- Zero of either sign. -/
def isZero (x : Double) : Bool := x.field == 0 && x.fraction == 0

/-- The integer significand of a finite value; subnormals have no hidden bit. -/
def significand (x : Double) : Nat :=
  if x.field = 0 then x.fraction else x.fraction + Nat.pow 2 52

/-- The power of two that scales the significand of a finite value. -/
def exponent (x : Double) : Int :=
  if x.field = 0 then -1074 else (x.field : Int) - 1075

/-- The pattern with the given sign, biased exponent and fraction. -/
def make (negative : Bool) (field fraction : Nat) : Double :=
  ⟨UInt64.ofNat ((if negative then Nat.pow 2 63 else 0) + field % Nat.pow 2 11 * Nat.pow 2 52 +
    fraction % Nat.pow 2 52)⟩

/-- The quiet NaN with no payload. -/
def nan : Double := make false 2047 (Nat.pow 2 51)

/-- Positive infinity. -/
def infinity : Double := make false 2047 0

/-- Zero with the given sign. -/
def zero (negative : Bool) : Double := make negative 0 0

/-- Infinity with the given sign. -/
def inf (negative : Bool) : Double := make negative 2047 0

/-- The same magnitude with the other sign. -/
def neg (x : Double) : Double := make (!x.negative) x.field x.fraction

/-- The same magnitude with a positive sign. -/
def abs (x : Double) : Double := make false x.field x.fraction

instance : Neg Double := ⟨neg⟩

/-- The position of a value that is not a NaN on the line of all values: the magnitude's
pattern, negated for a negative sign, so both zeros sit at `0`. -/
def rank (x : Double) : Int :=
  let m : Int := x.field * Int.pow 2 52 + x.fraction
  if x.negative then -m else m

/-- IEEE equality: a NaN equals nothing, and the two zeros are equal. -/
def ieeeEq (x y : Double) : Bool :=
  !x.isNaN && !y.isNaN && x.rank == y.rank

/-- IEEE order: false whenever a NaN takes part. -/
def lt (x y : Double) : Bool :=
  !x.isNaN && !y.isNaN && x.rank < y.rank

/-- Whether a finite value is a whole number. -/
def isIntegral (x : Double) : Bool :=
  x.isFinite &&
    (decide (0 ≤ x.exponent) || x.significand % Nat.pow 2 (-x.exponent).toNat == 0)

/-- The whole part of a finite value, rounded toward zero. -/
def truncate (x : Double) : Int :=
  let m : Int :=
    if 0 ≤ x.exponent then x.significand * Int.pow 2 x.exponent.toNat
    else x.significand / Int.pow 2 (-x.exponent).toNat
  if x.negative then -m else m

/-- The value turned into a count the way a saturating conversion does it: a NaN and every
value below one give `0`, and values above `bound` give `bound`. -/
def toCount (x : Double) (bound : Nat) : Nat :=
  if x.isNaN then 0
  else if x.isInfinite then (if x.negative then 0 else bound)
  else min x.truncate.toNat bound

/-- The largest count a machine word holds. -/
def wordMax : Nat := Nat.pow 2 64 - 1

end Double

end ReactiveView
