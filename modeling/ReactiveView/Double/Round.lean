import ReactiveView.Double.Basic
/-!
# Rounding exact quantities to binary64

`Double.ofRatio` gives the binary64 value nearest to `num / den * 2 ^ scale`, a tie going to the
even significand, and infinity past the largest finite value. Every conversion and every
operation of the data model goes through it: whole numbers (`ofNat`, `ofInt`), decimals
(`ofDecimal`), and the products and quotients of two values (`mul`, `div`), which are exact
dyadic ratios before they are rounded.
-/
namespace ReactiveView.Double

/-- The number of decimal digits of a positive number (`1` for `0`). -/
def digitCount (n : Nat) : Nat :=
  if n < 10 then 1 else digitCount (n / 10) + 1

/-- The binary64 value nearest to `num / den * 2 ^ scale`, with the given sign. A tie goes to the
even significand, and a magnitude past the largest finite value becomes infinite. -/
def ofRatio (negative : Bool) (num den : Nat) (scale : Int) : Double :=
  if num = 0 ∨ den = 0 then zero negative
  else
    -- the binade: 2 ^ top ≤ num / den * 2 ^ scale < 2 ^ (top + 1)
    let d : Int := (num.log2 : Int) - den.log2
    let reaches : Bool :=
      if 0 ≤ d then decide (den * Nat.pow 2 d.toNat ≤ num)
      else decide (den ≤ num * Nat.pow 2 (-d).toNat)
    let top := (if reaches then d else d - 1) + scale
    let q := max (top - 52) (-1074)
    let s := scale - q
    let n := if 0 ≤ s then num * Nat.pow 2 s.toNat else num
    let m := if 0 ≤ s then den else den * Nat.pow 2 (-s).toNat
    let quot := n / m
    let rem := n % m
    let up := decide (m < 2 * rem) || (decide (2 * rem = m) && quot % 2 == 1)
    let sig := if up then quot + 1 else quot
    let (sig, q) := if sig = Nat.pow 2 53 then (Nat.pow 2 52, q + 1) else (sig, q)
    if 971 < q then inf negative
    else if sig < Nat.pow 2 52 then make negative 0 sig
    else make negative (q + 1075).toNat (sig - Nat.pow 2 52)

/-- The value nearest to a whole number. -/
def ofNat (n : Nat) : Double := ofRatio false n 1 0

/-- The value nearest to an integer. -/
def ofInt (i : Int) : Double := ofRatio (decide (i < 0)) i.natAbs 1 0

/-- The value nearest to `digits * 10 ^ exp10`, with the given sign. Magnitudes far outside the
finite range are settled from the digit count alone. -/
def ofDecimal (negative : Bool) (digits : Nat) (exp10 : Int) : Double :=
  if digits = 0 then zero negative
  else
    let point := (digitCount digits : Int) + exp10
    if 310 < point then inf negative
    else if point < -325 then zero negative
    else if 0 ≤ exp10 then ofRatio negative (digits * Nat.pow 10 exp10.toNat) 1 0
    else ofRatio negative digits (Nat.pow 10 (-exp10).toNat) 0

/-- IEEE multiplication, rounded to nearest. -/
def mul (x y : Double) : Double :=
  let s := x.negative != y.negative
  if x.isNaN || y.isNaN then nan
  else if x.isInfinite || y.isInfinite then
    (if x.isZero || y.isZero then nan else inf s)
  else ofRatio s (x.significand * y.significand) 1 (x.exponent + y.exponent)

/-- IEEE division, rounded to nearest. -/
def div (x y : Double) : Double :=
  let s := x.negative != y.negative
  if x.isNaN || y.isNaN then nan
  else if x.isInfinite then (if y.isInfinite then nan else inf s)
  else if y.isInfinite then zero s
  else if y.isZero then (if x.isZero then nan else inf s)
  else ofRatio s x.significand y.significand (x.exponent - y.exponent)

instance : Mul Double := ⟨mul⟩
instance : Div Double := ⟨div⟩

end ReactiveView.Double
