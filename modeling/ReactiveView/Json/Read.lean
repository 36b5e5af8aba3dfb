import ReactiveView.Json.Basic
/-!
# Reading JSON

`Json.read` reads a whole text as one JSON document, with blanks (space, tab, line feed and
carriage return) allowed around it. A failure names its cause and where it was found: the line,
counted from one, and the column, counted in bytes from the start of that line. A failure found
on a character that was only looked at, not taken, is placed one byte further on.

Numbers follow one rule set: a whole number without fraction or exponent is kept exactly when it
fits in 64 bits; otherwise the digits up to the 64-bit limit form a significand, the digits
after it only scale it, and the value is the significand rounded to binary64, then multiplied or
divided by the binary64 power of ten of the exponent. A magnitude that becomes infinite is out
of range; deeper than 127 nested arrays and objects is refused.
-/
namespace ReactiveView.Json

/-- Why a text is not a JSON document. -/
inductive ReadErrorKind where
  | eofWhileParsingList
  | eofWhileParsingObject
  | eofWhileParsingString
  | eofWhileParsingValue
  | expectedColon
  | expectedListCommaOrEnd
  | expectedObjectCommaOrEnd
  | expectedSomeIdent
  | expectedSomeValue
  | invalidEscape
  | invalidNumber
  | numberOutOfRange
  | controlCharacterWhileParsingString
  | keyMustBeAString
  | loneLeadingSurrogateInHexEscape
  | trailingComma
  | trailingCharacters
  | unexpectedEndOfHexEscape
  | recursionLimitExceeded
  deriving DecidableEq, Repr

/-- The wording of each cause. -/
def ReadErrorKind.text : ReadErrorKind → String
  | .eofWhileParsingList => "EOF while parsing a list"
  | .eofWhileParsingObject => "EOF while parsing an object"
  | .eofWhileParsingString => "EOF while parsing a string"
  | .eofWhileParsingValue => "EOF while parsing a value"
  | .expectedColon => "expected `:`"
  | .expectedListCommaOrEnd => "expected `,` or `]`"
  | .expectedObjectCommaOrEnd => "expected `,` or `\x7d`"
  | .expectedSomeIdent => "expected ident"
  | .expectedSomeValue => "expected value"
  | .invalidEscape => "invalid escape"
  | .invalidNumber => "invalid number"
  | .numberOutOfRange => "number out of range"
  | .controlCharacterWhileParsingString =>
    "control character (\\u0000-\\u001F) found while parsing a string"
  | .keyMustBeAString => "key must be a string"
  | .loneLeadingSurrogateInHexEscape => "lone leading surrogate in hex escape"
  | .trailingComma => "trailing comma"
  | .trailingCharacters => "trailing characters"
  | .unexpectedEndOfHexEscape => "unexpected end of hex escape"
  | .recursionLimitExceeded => "recursion limit exceeded"

/-- A reading failure and where it happened. -/
structure ReadError where
  kind : ReadErrorKind
  line : Nat
  column : Nat
  deriving DecidableEq, Repr

/-- The message of a reading failure. -/
def ReadError.message (e : ReadError) : String :=
  e.kind.text ++ " at line " ++ toString e.line ++ " column " ++ toString e.column

/-- Where the reader stands: the characters left, the byte offset, the line and the offset at
which that line starts, and the byte length of the whole text. -/
structure Cursor where
  rest : List Char
  offset : Nat
  line : Nat
  lineStart : Nat
  size : Nat

/-- The reading monad. -/
abbrev Reader := StateT Cursor (Except ReadError)

namespace Cursor

/-- A cursor at the start of a text. -/
def start (s : String) : Cursor := ⟨s.toList, 0, 1, 0, s.utf8ByteSize⟩

/-- Step over one character. -/
def advance (c : Cursor) : Cursor :=
  match c.rest with
  | [] => c
  | ch :: rest =>
    let offset := c.offset + ch.utf8Size
    if ch = '\n' then ⟨rest, offset, c.line + 1, offset, c.size⟩
    else ⟨rest, offset, c.line, c.lineStart, c.size⟩

/-- Step over `n` bytes of plain ASCII text, or to the end. -/
def advanceBytes (c : Cursor) : Nat → Cursor
  | 0 => c
  | n + 1 => advanceBytes c.advance n

end Cursor

/-- Fail with a cause placed at the cursor. -/
def fail {α : Type} (kind : ReadErrorKind) : Reader α := do
  let c ← get
  throw ⟨kind, c.line, c.offset - c.lineStart⟩

/-- Fail with a cause placed one byte past the cursor: the character there was looked at. -/
def failAhead {α : Type} (kind : ReadErrorKind) : Reader α := do
  let c ← get
  match c.rest with
  | [] => throw ⟨kind, c.line, c.offset - c.lineStart⟩
  | '\n' :: _ => throw ⟨kind, c.line + 1, 0⟩
  | _ :: _ => throw ⟨kind, c.line, c.offset + 1 - c.lineStart⟩

/-- The next character, without taking it. -/
def peek : Reader (Option Char) := do
  return (← get).rest.head?

/-- Take the next character. -/
def bump : Reader Unit := modify Cursor.advance

/-- Take the next character and give it. -/
def next : Reader (Option Char) := do
  let c ← peek
  bump
  return c

/-- Skip blanks and look at what follows. -/
def skipBlanks : Nat → Reader (Option Char)
  | 0 => peek
  | fuel + 1 => do
    match ← peek with
    | some ' ' | some '\n' | some '\t' | some '\r' => bump; skipBlanks fuel
    | other => return other

/-- Skip blanks, bounded by what is left of the text. -/
def blanks : Reader (Option Char) := do
  skipBlanks ((← get).rest.length)

/-- The letters that must follow the first letter of `null`, `true` or `false`. -/
def expectWord : List Char → Reader Unit
  | [] => return
  | w :: ws => do
    match ← next with
    | none => fail .eofWhileParsingValue
    | some c => if c = w then expectWord ws else fail .expectedSomeIdent

/-- The value of an ASCII digit. -/
def digitValue (c : Char) : Nat := c.toNat - '0'.toNat

/-- The binary64 power of ten `10 ^ k`, rounded. -/
def powerOfTen (k : Nat) : Double := Double.ofDecimal false 1 k

/-- The number `significand * 10 ^ exponent` built the way the reader builds it: the significand
rounded to binary64, then multiplied or divided by the rounded power of ten. Exponents past the
table of powers divide by `1e308` first; a product that becomes infinite is out of range. -/
def fromParts (positive : Bool) (significand : Nat) (exponent : Int) : Reader Double := do
  let mut f := Double.ofNat significand
  let mut e := exponent
  -- at most a few steps: each one moves the exponent 308 closer to the table
  for _ in [0:8] do
    if e.natAbs ≤ 308 then
      if 0 ≤ e then
        f := f * powerOfTen e.toNat
        if f.isInfinite then return (← fail .numberOutOfRange)
      else
        f := f / powerOfTen e.natAbs
      break
    else
      if f.isZero then break
      if 0 ≤ e then return (← fail .numberOutOfRange)
      f := f / powerOfTen 308
      e := e + 308
  return if positive then f else -f

/-- Whether `s * 10 + d` stays within 64 bits. -/
def fitsWord (s d : Nat) : Bool := s * 10 + d < Nat.pow 2 64

/-- Digits that no longer fit only move the exponent. -/
def skipDigits : Nat → Reader Nat
  | 0 => return 0
  | fuel + 1 => do
    match ← peek with
    | some c => if c.isDigit then do bump; return (← skipDigits fuel) + 1 else return 0
    | none => return 0

/-- The digits of an exponent after `e`; an exponent past the 32-bit range gives zero or fails. -/
def exponentDigits (positive zeroSignificand positiveExp : Bool) :
    Nat → Nat → Reader (Option Nat)
  | 0, acc => return some acc
  | fuel + 1, acc => do
    match ← peek with
    | some c =>
      if c.isDigit then
        bump
        let acc' := acc * 10 + digitValue c
        if Nat.pow 2 31 - 1 < acc' then
          if !zeroSignificand && positiveExp then fail .numberOutOfRange
          else
            let _ ← skipDigits ((← get).rest.length)
            let _ := positive
            return none
        else exponentDigits positive zeroSignificand positiveExp fuel acc'
      else return some acc
    | none => return some acc

/-- An exponent: `e` or `E`, a sign, and digits. -/
def readExponent (positive : Bool) (significand : Nat) (start : Int) : Reader Double := do
  bump
  let positiveExp ← do
    match ← peek with
    | some '+' => bump; pure true
    | some '-' => bump; pure false
    | _ => pure true
  match ← next with
  | none => fail .eofWhileParsingValue
  | some c =>
    if !c.isDigit then fail .invalidNumber
    else
      match ← exponentDigits positive (significand == 0) positiveExp ((← get).rest.length)
          (digitValue c) with
      | none => return if positive then Double.zero false else Double.zero true
      | some exp =>
        let total := if positiveExp then start + exp else start - exp
        -- the exponent saturates at the 32-bit bounds
        let total := max (min total (Int.pow 2 31 - 1)) (-(Int.pow 2 31))
        fromParts positive significand total

/-- Fraction digits after the point. -/
def fractionDigits : Nat → Nat → Int → Reader (Nat × Int × Bool)
  | 0, s, e => return (s, e, false)
  | fuel + 1, s, e => do
    match ← peek with
    | some c =>
      if c.isDigit then
        if fitsWord s (digitValue c) then
          bump
          fractionDigits fuel (s * 10 + digitValue c) (e - 1)
        else
          let _ ← skipDigits ((← get).rest.length)
          return (s, e, true)
      else return (s, e, false)
    | none => return (s, e, false)

/-- A fraction: the point and at least one digit, then an optional exponent. -/
def readFraction (positive : Bool) (significand : Nat) (start : Int) : Reader Double := do
  bump
  let c0 ← get
  let (s, e, overflowed) ← fractionDigits c0.rest.length significand start
  if !overflowed && e == start then
    match ← peek with
    | some _ => failAhead .invalidNumber
    | none => failAhead .eofWhileParsingValue
  else
    match ← peek with
    | some 'e' | some 'E' => readExponent positive s e
    | _ => fromParts positive s e

/-- What follows the whole digits of a number. -/
def readRest (positive : Bool) (significand : Nat) : Reader JsonNumber := do
  match ← peek with
  | some '.' => return .double (← readFraction positive significand 0)
  | some 'e' | some 'E' => return .double (← readExponent positive significand 0)
  | _ =>
    if positive then return .nat significand
    else if significand = 0 || Nat.pow 2 63 < significand then
      return .double (-(Double.ofNat significand))
    else return .int (-(significand : Int))

/-- A whole part too long for 64 bits: the extra digits scale the significand. -/
def readLong (positive : Bool) (significand : Nat) : Reader Double := do
  let extra ← skipDigits ((← get).rest.length)
  match ← peek with
  | some '.' => readFraction positive significand extra
  | some 'e' | some 'E' => readExponent positive significand extra
  | _ => fromParts positive significand extra

/-- The digits of a whole part after its first digit. -/
def wholeDigits (positive : Bool) : Nat → Nat → Reader JsonNumber
  | 0, s => readRest positive s
  | fuel + 1, s => do
    match ← peek with
    | some c =>
      if c.isDigit then
        if fitsWord s (digitValue c) then
          bump
          wholeDigits positive fuel (s * 10 + digitValue c)
        else return .double (← readLong positive s)
      else readRest positive s
    | none => readRest positive s

/-- A number, its sign already taken. -/
def readNumber (positive : Bool) : Reader JsonNumber := do
  match ← next with
  | none => fail .eofWhileParsingValue
  | some '0' =>
    match ← peek with
    | some c => if c.isDigit then failAhead .invalidNumber else readRest positive 0
    | none => readRest positive 0
  | some c =>
    if c.isDigit then wholeDigits positive ((← get).rest.length) (digitValue c)
    else fail .invalidNumber

/-- The value of a hexadecimal digit. -/
def hexValue (c : Char) : Option Nat :=
  if c.isDigit then some (digitValue c)
  else if 'a' ≤ c ∧ c ≤ 'f' then some (c.toNat - 'a'.toNat + 10)
  else if 'A' ≤ c ∧ c ≤ 'F' then some (c.toNat - 'A'.toNat + 10)
  else none

/-- Four hexadecimal digits after `\u`. Fewer than four bytes left is the end of the string. -/
def hexEscape : Reader Nat := do
  let c ← get
  let size := (c.rest.take 4).foldl (fun n ch => n + ch.utf8Size) 0
  if size < 4 ∧ c.rest.length < 4 then
    set (c.advanceBytes c.rest.length)
    fail .eofWhileParsingString
  else
    let four := c.rest.take 4
    match four.mapM hexValue with
    | some [a, b, d, e] =>
      set (c.advanceBytes 4)
      return ((a * 16 + b) * 16 + d) * 16 + e
    | _ =>
      -- four bytes are consumed even when they split a character
      let whole := (c.rest.foldl (fun (acc : Nat × Nat) ch =>
        if acc.1 < 4 then (acc.1 + ch.utf8Size, acc.2 + 1) else acc) (0, 0))
      let moved := c.advanceBytes whole.2
      set { moved with offset := c.offset + 4 }
      fail .invalidEscape

/-- A character written as one or two `\u` escapes; a lone surrogate fails. -/
def unicodeEscape : Reader Char := do
  let n ← hexEscape
  if 0xDC00 ≤ n ∧ n ≤ 0xDFFF then fail .loneLeadingSurrogateInHexEscape
  else if n < 0xD800 ∨ 0xDBFF < n then return Char.ofNat n
  else
    match ← peek with
    | none => fail .eofWhileParsingString
    | some '\\' =>
      bump
      match ← peek with
      | none => fail .eofWhileParsingString
      | some 'u' =>
        bump
        let n2 ← hexEscape
        if n2 < 0xDC00 ∨ 0xDFFF < n2 then fail .loneLeadingSurrogateInHexEscape
        else return Char.ofNat (((n - 0xD800) * 0x400 + (n2 - 0xDC00)) + 0x10000)
      | some _ => bump; fail .unexpectedEndOfHexEscape
    | some _ => bump; fail .unexpectedEndOfHexEscape

/-- One escape after a backslash. -/
def escape : Reader Char := do
  match ← next with
  | none => fail .eofWhileParsingString
  | some '"' => return '"'
  | some '\\' => return '\\'
  | some '/' => return '/'
  | some 'b' => return '\x08'
  | some 'f' => return '\x0c'
  | some 'n' => return '\n'
  | some 'r' => return '\r'
  | some 't' => return '\t'
  | some 'u' => unicodeEscape
  | some _ => fail .invalidEscape

/-- The characters of a string up to its closing quote, the opening quote already taken. -/
def stringBody : Nat → List Char → Reader String
  | 0, acc => return String.ofList acc.reverse
  | fuel + 1, acc => do
    match ← next with
    | none => fail .eofWhileParsingString
    | some '"' => return String.ofList acc.reverse
    | some '\\' => stringBody fuel ((← escape) :: acc)
    | some c =>
      if c.toNat < 0x20 then fail .controlCharacterWhileParsingString
      else stringBody fuel (c :: acc)

/-- A string, the opening quote already taken. -/
def readString : Reader String := do
  stringBody ((← get).rest.length + 1) []

/-- The closing bracket of an array. -/
def closeList : Reader Unit := do
  match ← blanks with
  | some ']' => bump
  | some ',' =>
    bump
    match ← blanks with
    | some ']' => failAhead .trailingComma
    | _ => failAhead .trailingCharacters
  | some _ => failAhead .trailingCharacters
  | none => failAhead .eofWhileParsingList

/-- The closing brace of an object. -/
def closeObject : Reader Unit := do
  match ← blanks with
  | some '}' => bump
  | some ',' =>
    bump
    match ← blanks with
    | some '}' => failAhead .trailingComma
    | _ => failAhead .trailingCharacters
  | some _ => failAhead .trailingCharacters
  | none => failAhead .eofWhileParsingObject

mutual
/-- A value, blanks before it skipped; `depth` counts the nesting still allowed. -/
def readValue (depth : Nat) : Nat → Reader Json
  | 0 => fail .eofWhileParsingValue
  | fuel + 1 => do
    match ← blanks with
    | none => failAhead .eofWhileParsingValue
    | some 'n' => bump; expectWord ['u', 'l', 'l']; return .null
    | some 't' => bump; expectWord ['r', 'u', 'e']; return .bool true
    | some 'f' => bump; expectWord ['a', 'l', 's', 'e']; return .bool false
    | some '-' => bump; return .number (← readNumber false)
    | some '"' => bump; return .string (← readString)
    | some '[' =>
      if depth ≤ 1 then failAhead .recursionLimitExceeded
      else
        bump
        let items ← readItems (depth - 1) fuel true []
        closeList
        return .array items
    | some '{' =>
      if depth ≤ 1 then failAhead .recursionLimitExceeded
      else
        bump
        let fields ← readFields (depth - 1) fuel true []
        closeObject
        return .object fields
    | some c =>
      if c.isDigit then return .number (← readNumber true)
      else failAhead .expectedSomeValue

/-- The items of an array up to its closing bracket, which is left in place. -/
def readItems (depth : Nat) : Nat → Bool → List Json → Reader (List Json)
  | 0, _, acc => return acc.reverse
  | fuel + 1, first, acc => do
    let look ← blanks
    match look with
    | some ']' => return acc.reverse
    | none => failAhead .eofWhileParsingList
    | some c =>
      let start ← do
        if c = ',' ∧ !first then
          bump
          blanks
        else if first then pure (some c)
        else failAhead .expectedListCommaOrEnd
      match start with
      | some ']' => failAhead .trailingComma
      | none => failAhead .eofWhileParsingValue
      | some _ =>
        let item ← readValue depth fuel
        readItems depth fuel false (item :: acc)

/-- The fields of an object up to its closing brace, which is left in place. -/
def readFields (depth : Nat) : Nat → Bool → List (String × Json) → Reader (List (String × Json))
  | 0, _, acc => return acc
  | fuel + 1, first, acc => do
    let look ← blanks
    match look with
    | some '}' => return acc
    | none => failAhead .eofWhileParsingObject
    | some c =>
      let start ← do
        if c = ',' ∧ !first then
          bump
          blanks
        else if first then pure (some c)
        else failAhead .expectedObjectCommaOrEnd
      match start with
      | some '"' =>
        bump
        let key ← readString
        match ← blanks with
        | some ':' => bump
        | some _ => failAhead .expectedColon
        | none => failAhead .eofWhileParsingObject
        let value ← readValue depth fuel
        readFields depth fuel false (insertField acc key value)
      | some '}' => failAhead .trailingComma
      | some _ => failAhead .keyMustBeAString
      | none => failAhead .eofWhileParsingValue
end

/-- Read a whole text as one JSON document. -/
def read (s : String) : Except ReadError Json :=
  let reader : Reader Json := do
    let j ← readValue 128 (s.length + 1)
    match ← blanks with
    | some _ => failAhead .trailingCharacters
    | none => return j
  (reader.run' (Cursor.start s))

end ReactiveView.Json
