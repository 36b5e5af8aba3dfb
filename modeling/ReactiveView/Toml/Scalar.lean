import ReactiveView.Toml.Basic
import ReactiveView.Double.Read
/-!
# Unquoted TOML values

A value written without quotes or brackets is a boolean, a number or a date-time, told apart by
its first characters. Integers are decimal with an optional sign, or hexadecimal, octal or
binary after `0x`, `0o`, `0b`; underscores may stand between digits, and a decimal integer
has no leading zero. Floats add a fraction or an exponent, or are `inf` and `nan` with an
optional sign. Date-times are an offset or local date-time, a local date or a local time, and
are kept as their canonical text: the date, a `T`, the time with its fraction cut of trailing
zeros, and `Z` or a signed `hh:mm` offset.

Anything else is refused, with the message that says what the text looked like.
-/
namespace ReactiveView.Toml

/-- The value of a digit in a radix up to sixteen. -/
def digitIn (radix : Nat) (c : Char) : Option Nat :=
  let v := if c.isDigit then some (c.toNat - '0'.toNat)
    else if 'a' ≤ c ∧ c ≤ 'f' then some (c.toNat - 'a'.toNat + 10)
    else if 'A' ≤ c ∧ c ≤ 'F' then some (c.toNat - 'A'.toNat + 10)
    else none
  v.bind fun d => if d < radix then some d else none

/-- Whether underscores stand only between digits: not first, not last, never two together. -/
def wellGrouped (cs : List Char) : Bool :=
  !cs.isEmpty && cs.head? != some '_' && cs.getLast? != some '_' &&
    !(cs.zip cs.tail).any (fun (a, b) => a = '_' && b = '_')

/-- Digits of a radix with single underscores between them, and their value. -/
def grouped (radix : Nat) (cs : List Char) : Option Nat :=
  if wellGrouped cs then
    (cs.filter (· != '_')).foldlM (fun acc c => (digitIn radix c).map (acc * radix + ·)) 0
  else none

/-- Decimal digits with underscores and no leading zero. -/
def decimalPart (cs : List Char) : Option Nat :=
  match cs.filter (· != '_') with
  | '0' :: _ :: _ => none
  | _ => grouped 10 cs

/-- Whether an integer fits in 64 signed bits. -/
def fitsSigned (i : Int) : Bool := decide (-Int.pow 2 63 ≤ i ∧ i < Int.pow 2 63)

/-- A decimal integer with an optional sign. -/
def decimalInteger (cs : List Char) : Option Int :=
  let (negative, digits) := match cs with
    | '-' :: r => (true, r)
    | '+' :: r => (false, r)
    | r => (false, r)
  (decimalPart digits).bind fun n =>
    let i : Int := if negative then -(n : Int) else n
    if fitsSigned i then some i else none

/-- An integer after `0x`, `0o` or `0b`, which fits in 63 bits. -/
def prefixedInteger (radix : Nat) (cs : List Char) : Option Int :=
  (grouped radix cs).bind fun n => if n < Nat.pow 2 63 then some (n : Int) else none

/-- A float written with digits: sign, whole part, then a fraction, an exponent or both. -/
def decimalFloat (cs : List Char) : Option Double :=
  let body := match cs with
    | '-' :: r | '+' :: r => r
    | r => r
  let whole := body.takeWhile fun c => c.isDigit || c = '_'
  let rest := body.drop whole.length
  let (fraction, rest) := match rest with
    | '.' :: r =>
      let f := r.takeWhile fun c => c.isDigit || c = '_'
      (some f, r.drop f.length)
    | r => (none, r)
  let exponent := match rest with
    | e :: r => if e = 'e' ∨ e = 'E' then some r else none
    | [] => none
  let fractionOk := match fraction with
    | some f => (grouped 10 f).isSome
    | none => true
  let exponentOk := match exponent with
    | some ('-' :: r) | some ('+' :: r) => (grouped 10 r).isSome
    | some r => (grouped 10 r).isSome
    | none => rest.isEmpty
  if (decimalPart whole).isSome && fractionOk && exponentOk &&
      (fraction.isSome || exponent.isSome) then
    Double.parse? (String.ofList (cs.filter (· != '_')))
  else none

/-- Exactly `n` decimal digits and their value. -/
def fixedDigits (n : Nat) (cs : List Char) : Option (Nat × List Char) :=
  let ds := cs.take n
  if ds.length = n ∧ ds.all Char.isDigit then
    some (ds.foldl (fun acc c => acc * 10 + (c.toNat - '0'.toNat)) 0, cs.drop n)
  else none

/-- A number written with at least two digits. -/
def pad2 (n : Nat) : String := if n < 10 then "0" ++ toString n else toString n

/-- A number written with at least four digits. -/
def pad4 (n : Nat) : String :=
  let s := toString n
  String.ofList (List.replicate (4 - s.length) '0') ++ s

/-- A date `yyyy-mm-dd` at the front, as canonical text. -/
def readDate (cs : List Char) : Option (String × List Char) := do
  let (year, r) ← fixedDigits 4 cs
  let r ← match r with
    | '-' :: r => some r
    | _ => none
  let (month, r) ← fixedDigits 2 r
  let r ← match r with
    | '-' :: r => some r
    | _ => none
  let (day, r) ← fixedDigits 2 r
  if 1 ≤ month ∧ month ≤ 12 ∧ 1 ≤ day ∧ day ≤ 31 then
    some (pad4 year ++ "-" ++ pad2 month ++ "-" ++ pad2 day, r)
  else none

/-- The nanoseconds written by fraction digits: the first nine count. -/
def nanoseconds (ds : List Char) : Nat :=
  ((ds.take 9) ++ List.replicate (9 - min 9 ds.length) '0').foldl
    (fun acc c => acc * 10 + (c.toNat - '0'.toNat)) 0

/-- Nanoseconds as fraction text without trailing zeros; empty for none. -/
def fractionText (nanos : Nat) : String :=
  if nanos = 0 then ""
  else
    let s := toString nanos
    let digits := (String.ofList (List.replicate (9 - s.length) '0') ++ s).toList
    "." ++ String.ofList (digits.reverse.dropWhile (· = '0')).reverse

/-- A time `hh:mm:ss` with an optional fraction at the front, as canonical text. -/
def readTime (cs : List Char) : Option (String × List Char) := do
  let (hour, r) ← fixedDigits 2 cs
  let r ← match r with
    | ':' :: r => some r
    | _ => none
  let (minute, r) ← fixedDigits 2 r
  let r ← match r with
    | ':' :: r => some r
    | _ => none
  let (second, r) ← fixedDigits 2 r
  let (nanos, r) ← match r with
    | '.' :: r =>
      let ds := r.takeWhile Char.isDigit
      if ds.isEmpty then none else some (nanoseconds ds, r.drop ds.length)
    | r => some (0, r)
  if hour ≤ 23 ∧ minute ≤ 59 ∧ second ≤ 60 then
    some (pad2 hour ++ ":" ++ pad2 minute ++ ":" ++ pad2 second ++ fractionText nanos, r)
  else none

/-- An offset `Z` or `±hh:mm`, as canonical text; a zero offset has a plus sign. -/
def readOffset (cs : List Char) : Option String :=
  match cs with
  | ['Z'] | ['z'] => some "Z"
  | s :: r =>
    if s = '+' ∨ s = '-' then do
      let (hour, r) ← fixedDigits 2 r
      let r ← match r with
        | ':' :: r => some r
        | _ => none
      let (minute, r) ← fixedDigits 2 r
      if r.isEmpty ∧ hour ≤ 23 ∧ minute ≤ 59 then
        let sign := if s = '-' ∧ 0 < hour * 60 + minute then "-" else "+"
        some (sign ++ pad2 hour ++ ":" ++ pad2 minute)
      else none
    else none
  | [] => none

/-- A date-time, a date or a time, as canonical text. -/
def datetime? (cs : List Char) : Option String :=
  match readDate cs with
  | some (date, []) => some date
  | some (date, sep :: r) =>
    if sep = 'T' ∨ sep = 't' ∨ sep = ' ' then do
      let (time, r) ← readTime r
      if r.isEmpty then some (date ++ "T" ++ time)
      else (readOffset r).map fun off => date ++ "T" ++ time ++ off
    else none
  | none =>
    match readTime cs with
    | some (time, []) => some time
    | _ => none

/-- Whether a text starts like a date or a time: four digits and a dash, or two digits and a
colon. -/
def looksDated (cs : List Char) : Bool :=
  match cs with
  | a :: b :: c :: d :: '-' :: _ => a.isDigit && b.isDigit && c.isDigit && d.isDigit
  | a :: b :: ':' :: _ => a.isDigit && b.isDigit
  | _ => false

/-- A failure about an unquoted value. -/
def refuse (description : String) (expected : List String) (span : Span) : Except Problem Value :=
  .error ⟨describe description expected, span⟩

/-- The unquoted text is a word where a string was meant. -/
def unquoted (span : Span) : Except Problem Value :=
  refuse "string values must be quoted" ["literal string"] span

/-- A number or date-time whose first character is a digit. -/
def numeric (cs : List Char) (span : Span) : Except Problem Value :=
  if looksDated cs then
    match datetime? cs with
    | some text => .ok (.datetime text)
    | none => refuse "invalid datetime" [] span
  else
    match cs with
    | '0' :: 'x' :: r => (prefixedInteger 16 r).elim (refuse "invalid hexadecimal integer" [] span)
        (.ok ∘ .integer)
    | '0' :: 'o' :: r => (prefixedInteger 8 r).elim (refuse "invalid octal integer" [] span)
        (.ok ∘ .integer)
    | '0' :: 'b' :: r => (prefixedInteger 2 r).elim (refuse "invalid binary integer" [] span)
        (.ok ∘ .integer)
    | _ =>
      if cs.any (fun c => c = '.' || c = 'e' || c = 'E') then
        (decimalFloat cs).elim (refuse "invalid float" [] span) (.ok ∘ .float)
      else (decimalInteger cs).elim (refuse "invalid integer" [] span) (.ok ∘ .integer)

/-- A word that must be exactly one symbol. -/
def symbol (cs : List Char) (word : String) (v : Value) (description : String) (span : Span) :
    Except Problem Value :=
  if String.ofList cs == word then .ok v else refuse description [literal word] span

/-- The value of an unquoted text that stands at `span`. -/
def decodeScalar (cs : List Char) (span : Span) : Except Problem Value :=
  match cs with
  | [] => unquoted span
  | c :: rest =>
    if c = '+' ∨ c = '-' then
      match rest with
      | ['i', 'n', 'f'] => .ok (.float (Double.inf (c = '-')))
      | ['n', 'a', 'n'] => .ok (.float (if c = '-' then Double.nan.neg else Double.nan))
      | d :: _ =>
        if d.isDigit then
          if looksDated rest then refuse "invalid datetime" [] span
          else if rest.any (fun x => x = '.' || x = 'e' || x = 'E') then
            (decimalFloat cs).elim (refuse "invalid float" [] span) (.ok ∘ .float)
          else (decimalInteger cs).elim (refuse "invalid integer" [] span) (.ok ∘ .integer)
        else if d = 'i' then symbol rest "inf" (.float (Double.inf (c = '-'))) "invalid float" span
        else if d = 'n' then symbol rest "nan" (.float Double.nan) "invalid float" span
        else unquoted span
      | [] => unquoted span
    else if c.isDigit then numeric cs span
    else if c = 't' ∨ c = 'T' then symbol cs "true" (.boolean true) "invalid boolean" span
    else if c = 'f' ∨ c = 'F' then symbol cs "false" (.boolean false) "invalid boolean" span
    else if c = 'i' then symbol cs "inf" (.float Double.infinity) "invalid float" span
    else if c = 'n' then symbol cs "nan" (.float Double.nan) "invalid float" span
    else if c = '.' ∨ c = '_' then refuse "invalid float" [] span
    else unquoted span

end ReactiveView.Toml
