import ReactiveView.Double.Shortest
/-!
# Writing binary64 values as text

A finite value is written from its shortest digits (`Double.shortest`). Where the digits stand
is measured by the point position `p`: the value is `0.d₁d₂… * 10 ^ p`. A `Layout` says for which
positions the digits are written out with a decimal point and where the text switches to an
exponent, whether a whole number keeps a `.0`, and how positive exponents are marked.

Three layouts are used: `Layout.data` for numbers in data files and serialized values,
`Layout.debug` for the structural dump of values, and `Layout.plain` for the text of a value,
which never uses an exponent.
-/
namespace ReactiveView.Double

/-- How the digits of a finite value are laid out. Positional notation is used when the point
position lies in `[lowPoint, highPoint]`. -/
structure Layout where
  lowPoint : Int
  highPoint : Int
  pointZero : Bool
  plusExponent : Bool
  nanText : String
  infinityText : String

/-- Data numbers: positional for point positions `-4` to `16`, a whole number keeps `.0`, and a
positive exponent is written `e+`. -/
def Layout.data : Layout := ⟨-4, 16, true, true, "NaN", "inf"⟩

/-- Debug numbers: positional from `1e-4` up to below `1e16`, a whole number keeps `.0`, and an
exponent has a sign only when negative. -/
def Layout.debug : Layout := ⟨-3, 16, true, false, "NaN", "inf"⟩

/-- Plain numbers: always positional (the point positions of finite values lie between `-323`
and `309`), and no `.0`. -/
def Layout.plain : Layout := ⟨-400, 400, false, false, "NaN", "inf"⟩

/-- A run of zeros. -/
def zeros (n : Nat) : String := String.ofList (List.replicate n '0')

/-- The digits of a magnitude, its exponent, and the layout: the text without a sign. -/
def layDigits (l : Layout) (digits : Nat) (exp10 : Int) : String :=
  let s := toString digits
  let len : Int := s.length
  let p := len + exp10
  if l.lowPoint ≤ p ∧ p ≤ l.highPoint then
    if len ≤ p then s ++ zeros (p - len).toNat ++ (if l.pointZero then ".0" else "")
    else if 0 < p then
      String.ofList (s.toList.take p.toNat) ++ "." ++ String.ofList (s.toList.drop p.toNat)
    else "0." ++ zeros (-p).toNat ++ s
  else
    let mantissa :=
      if len = 1 then s else String.ofList (s.toList.take 1) ++ "." ++ String.ofList (s.toList.drop 1)
    let ex := p - 1
    let sign := if ex < 0 then "-" else if l.plusExponent then "+" else ""
    mantissa ++ "e" ++ sign ++ toString ex.natAbs

/-- The text of a value in a layout. -/
def format (l : Layout) (x : Double) : String :=
  if x.isNaN then l.nanText
  else
    let sign := if x.negative then "-" else ""
    if x.isInfinite then sign ++ l.infinityText
    else if x.isZero then sign ++ layDigits l 0 0
    else
      let (digits, exp10) := shortest x
      sign ++ layDigits l digits exp10

end ReactiveView.Double
