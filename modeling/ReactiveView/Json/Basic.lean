import ReactiveView.Double.Round
/-!
# JSON documents

A JSON document keeps what its text said about each number: a whole number without a sign that
fits in 64 bits, a negative whole number that fits in 64 bits, or any other number as a binary64
value. Objects keep their keys in the order they were first written.
-/
namespace ReactiveView

/-- A JSON number as it was read: unsigned and signed whole numbers are kept exactly. -/
inductive JsonNumber where
  /-- A whole number without a sign, below `2 ^ 64`. -/
  | nat (n : Nat)
  /-- A negative whole number, not below `-2 ^ 63`. -/
  | int (i : Int)
  /-- Any other number; always finite. -/
  | double (x : Double)
  deriving DecidableEq, Inhabited, Repr

/-- A JSON document. -/
inductive Json where
  | null
  | bool (b : Bool)
  | number (n : JsonNumber)
  | string (s : String)
  | array (items : List Json)
  | object (fields : List (String × Json))
  deriving Inhabited, Repr

namespace JsonNumber

/-- The binary64 value nearest to the number. -/
def toDouble : JsonNumber → Double
  | .nat n => Double.ofNat n
  | .int i => Double.ofInt i
  | .double x => x

/-- A binary64 value as a JSON number: `none` for an infinity or a NaN. -/
def ofDouble? (x : Double) : Option JsonNumber :=
  if x.isFinite then some (.double x) else none

/-- The number as a whole number that fits in a signed 64-bit word. -/
def toInt? : JsonNumber → Option Int
  | .nat n => if n < Nat.pow 2 63 then some n else none
  | .int i => some i
  | .double _ => none

end JsonNumber

namespace Json

/-- The whole number `i` as JSON: unsigned when it is not negative. -/
def ofInt (i : Int) : Json :=
  if 0 ≤ i then .number (.nat i.toNat) else .number (.int i)

/-- A binary64 value as JSON; an infinity or a NaN becomes `null`. -/
def ofDouble (x : Double) : Json :=
  match JsonNumber.ofDouble? x with
  | some n => .number n
  | none => .null

/-- The value of the first field named `key` of an object. -/
def field? (j : Json) (key : String) : Option Json :=
  match j with
  | .object fields => fields.lookup key
  | _ => none

/-- The text of a string document. -/
def str? : Json → Option String
  | .string s => some s
  | _ => none

/-- A field written into an object: a key already there keeps its place and takes the new
value, a new key goes to the end. -/
def insertField (fields : List (String × Json)) (key : String) (value : Json) :
    List (String × Json) :=
  if fields.any (·.1 == key) then fields.map fun (k, v) => if k == key then (k, value) else (k, v)
  else fields ++ [(key, value)]

end Json

end ReactiveView
