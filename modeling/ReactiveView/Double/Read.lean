import ReactiveView.Double.Round
/-!
# Reading decimal text

`Double.parse?` reads a number written as an optional sign and then `inf`, `infinity` or `nan`
in any case, or decimal digits with an optional point and fraction (at least one digit in all)
and an optional exponent `e` or `E` with an optional sign and at least one digit. The value is
the binary64 value nearest to the decimal, ties to even.
-/
namespace ReactiveView.Double

/-- The digits at the front of a text, their value and their count, and what follows. -/
def takeDigits (cs : List Char) : Nat × Nat × List Char :=
  let ds := cs.takeWhile Char.isDigit
  (ds.foldl (fun n c => n * 10 + (c.toNat - '0'.toNat)) 0, ds.length, cs.drop ds.length)

/-- The magnitude written by a text without sign: `none` when the text is not a number. -/
def parseMagnitude (negative : Bool) (cs : List Char) : Option Double :=
  let word := String.ofList (cs.map Char.toLower)
  if word == "inf" || word == "infinity" then some (inf negative)
  else if word == "nan" then some (if negative then nan.neg else nan)
  else
    let (whole, wholeCount, rest) := takeDigits cs
    let (frac, fracCount, rest) := match rest with
      | '.' :: r => takeDigits r
      | r => (0, 0, r)
    if wholeCount + fracCount = 0 then none
    else
      let exp? : Option Int := match rest with
        | [] => some 0
        | e :: r =>
          if e = 'e' ∨ e = 'E' then
            let (neg, r) := match r with
              | '+' :: r' => (false, r')
              | '-' :: r' => (true, r')
              | r' => (false, r')
            let (n, count, after) := takeDigits r
            if count = 0 ∨ !after.isEmpty then none
            else some (if neg then -(n : Int) else n)
          else none
      match exp? with
      | none => none
      | some e =>
        let digits := whole * Nat.pow 10 fracCount + frac
        some (ofDecimal negative digits (e - fracCount))

/-- Read a decimal number. -/
def parse? (s : String) : Option Double :=
  match s.toList with
  | '+' :: rest => parseMagnitude false rest
  | '-' :: rest => parseMagnitude true rest
  | cs => parseMagnitude false cs

end ReactiveView.Double
