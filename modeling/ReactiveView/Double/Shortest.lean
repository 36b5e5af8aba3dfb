import ReactiveView.Double.Round
/-!
# Shortest decimal digits

`Double.shortest` gives, for a finite value that is not zero, the decimal `digits * 10 ^ exp10`
with the fewest significant digits that reads back as the value, and of those the nearest one.
The reals that read back as a value form its rounding interval, whose ends belong to it when the
significand is even. For each digit count from one to seventeen the value's two neighbours on
that decimal grid are tested with exact arithmetic; the first count with a neighbour inside
wins, the nearer of two neighbours is taken, and an exact tie goes to the even digits.
-/
namespace ReactiveView.Double

/-- `a * 10 ^ p` against `b * 2 ^ e`, compared exactly. -/
def compareDecimalBinary (a : Nat) (p : Int) (b : Nat) (e : Int) : Ordering :=
  compare (a * Nat.pow 10 (max p 0).toNat * Nat.pow 2 (max (-e) 0).toNat)
    (b * Nat.pow 2 (max e 0).toNat * Nat.pow 10 (max (-p) 0).toNat)

/-- The rounding interval of a positive finite value, in quarters of its last place: the value
is `4 * significand`, the lower end is two quarters below (one where the exponent just changed)
and the upper end two quarters above. The ends count when the significand is even. -/
structure Interval where
  low : Nat
  high : Nat
  scale : Int
  closed : Bool

/-- The rounding interval of a value. -/
def interval (x : Double) : Interval :=
  let m := x.significand
  let lowGap := if x.fraction = 0 ∧ 1 < x.field then 1 else 2
  ⟨4 * m - lowGap, 4 * m + 2, x.exponent - 2, m % 2 == 0⟩

/-- Whether `a * 10 ^ p` reads back as the value whose interval is given. -/
def Interval.holds (i : Interval) (a : Nat) (p : Int) : Bool :=
  let lo := compareDecimalBinary a p i.low i.scale
  let hi := compareDecimalBinary a p i.high i.scale
  (lo == .gt || (i.closed && lo == .eq)) && (hi == .lt || (i.closed && hi == .eq))

/-- `⌊log₁₀ (num / den)⌋` for positive `num` and `den`. -/
def floorLog10 (num den : Nat) : Int :=
  let d : Int := (digitCount num : Int) - digitCount den
  let reaches : Bool :=
    if 0 ≤ d then decide (den * Nat.pow 10 d.toNat ≤ num)
    else decide (den ≤ num * Nat.pow 10 (-d).toNat)
  if reaches then d else d - 1

/-- Drop the zeros at the end of the digits, moving them into the exponent. -/
def dropZeros : Nat → Nat × Int → Nat × Int
  | 0, r => r
  | fuel + 1, (a, p) => if a ≠ 0 ∧ a % 10 = 0 then dropZeros fuel (a / 10, p + 1) else (a, p)

/-- The neighbours of a positive finite value on the grid of `count` significant digits, and the
one of them that reads back, the nearer of two and the even one of a tie. -/
def onGrid (x : Double) (top : Int) (count : Nat) : Option (Nat × Int) :=
  let m := x.significand
  let e := x.exponent
  let p := top - count + 1
  let num := m * Nat.pow 2 (max e 0).toNat * Nat.pow 10 (max (-p) 0).toNat
  let den := Nat.pow 2 (max (-e) 0).toNat * Nat.pow 10 (max p 0).toNat
  let lo := num / den
  let i := interval x
  let okLo := i.holds lo p
  let okHi := i.holds (lo + 1) p
  if okLo && okHi then
    -- compare the midpoint of the two neighbours with the value
    match compareDecimalBinary (2 * lo + 1) p (8 * m) (e - 2) with
    | .lt => some (lo + 1, p)
    | .gt => some (lo, p)
    | .eq => some (if lo % 2 = 0 then lo else lo + 1, p)
  else if okLo then some (lo, p)
  else if okHi then some (lo + 1, p)
  else none

/-- The shortest digits that read back as a positive finite value, and the nearest of those:
`x = digits * 10 ^ exp10` up to rounding. -/
def shortest (x : Double) : Nat × Int :=
  let m := x.significand
  let e := x.exponent
  let top := floorLog10 (m * Nat.pow 2 (max e 0).toNat) (Nat.pow 2 (max (-e) 0).toNat)
  let found := (List.range 17).findSome? fun i => onGrid x top (i + 1)
  dropZeros 20 (found.getD (m, 0))

end ReactiveView.Double
