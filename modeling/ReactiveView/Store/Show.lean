import ReactiveView.Store.Basic
import ReactiveView.Double.Text
import ReactiveView.Double.Round
import ReactiveView.Json.Basic
import ReactiveView.Text.Quoted
import ReactiveView.Text.Blank
/-!
# The text, JSON and dump of a value

* `Heap.display` is the text of a value as it is put into markup: words for `undefined`, `null`
  and booleans; `NaN`, `Infinity` and `-Infinity`; `0` for both zeros; a whole number below
  `1e21` in full; any other number in shortest positional digits; an array as its items joined
  by commas, `null` and `undefined` items and an array met again inside itself as empty; an
  object as `[object Object]`.
* `Heap.toJson` is a snapshot as JSON: `undefined` becomes `null`, a whole number below `9e15`
  an integer, other finite numbers floats and infinities and NaN `null`; a container met again
  inside itself becomes `null`. Objects show their enumerable properties.
* `Heap.debug` is the structural dump, with `[Circular]` for a container met again inside itself.
-/
namespace ReactiveView.Store

/-- The text of a number inside a value's text. -/
def displayNumber (x : Double) : String :=
  if x.isNaN then "NaN"
  else if x.isInfinite then (if x.negative then "-Infinity" else "Infinity")
  else if x.isZero then "0"
  else if x.isIntegral && x.abs.lt (Double.ofDecimal false 1 21) then toString x.truncate
  else Double.format .plain x

namespace Heap

variable {ρ : Type}

/-- The text of a value; `joining` holds the arrays whose items are being joined. -/
def displayWithin (h : Heap ρ) : Nat → List Nat → Value → String
  | 0, _, _ => ""
  | fuel + 1, joining, v =>
    match v with
    | .undefined => "undefined"
    | .null => "null"
    | .bool b => if b then "true" else "false"
    | .number x => displayNumber x
    | .string s => s
    | .object _ => "[object Object]"
    | .array r =>
      if joining.contains r then ""
      else
        ",".intercalate ((h.items r).map fun item =>
          match item with
          | .undefined | .null => ""
          | _ => h.displayWithin fuel (r :: joining) item)

/-- The text of a value. -/
def display (h : Heap ρ) (v : Value) : String := h.displayWithin h.walkFuel [] v

/-- Whether a number is written as a JSON integer: a whole number below `9e15`. -/
def jsonInteger (x : Double) : Bool :=
  x.isIntegral && x.abs.lt (Double.ofDecimal false 9 15)

/-- A value as JSON; `seen` holds the containers being converted. -/
def toJsonWithin (h : Heap ρ) : Nat → List Nat → Value → Json
  | 0, _, _ => .null
  | fuel + 1, seen, v =>
    match v with
    | .undefined | .null => .null
    | .bool b => .bool b
    | .number x => if jsonInteger x then Json.ofInt x.truncate else Json.ofDouble x
    | .string s => .string s
    | .array r =>
      if seen.contains r then .null
      else .array ((h.items r).map (h.toJsonWithin fuel (r :: seen)))
    | .object r =>
      if seen.contains r then .null
      else .object ((h.entries r).map fun (k, item) => (k, h.toJsonWithin fuel (r :: seen) item))

/-- A snapshot of a value as JSON. -/
def toJson (h : Heap ρ) (v : Value) : Json := h.toJsonWithin h.walkFuel [] v

/-- The structural dump of a value; `active` holds the containers being dumped. -/
def debugWithin (h : Heap ρ) : Nat → List Nat → Value → String
  | 0, _, _ => ""
  | fuel + 1, active, v =>
    match v with
    | .undefined => "Undefined"
    | .null => "Null"
    | .bool b => if b then "Bool(true)" else "Bool(false)"
    | .number x => "Number(" ++ Double.format .debug x ++ ")"
    | .string s => "String(" ++ Text.quoteDebug s ++ ")"
    | .array r =>
      "Array(" ++
        (if active.contains r then "[Circular]"
        else "[" ++ ", ".intercalate ((h.items r).map (h.debugWithin fuel (r :: active))) ++ "]")
        ++ ")"
    | .object r =>
      "Object(" ++
        (if active.contains r then "[Circular]"
        else "\x7b" ++ ", ".intercalate ((h.entries r).map fun (k, item) =>
          Text.quoteDebug k ++ ": " ++ h.debugWithin fuel (r :: active) item) ++ "\x7d")
        ++ ")"

/-- The structural dump of a value. -/
def debug (h : Heap ρ) (v : Value) : String := h.debugWithin h.walkFuel [] v

/-- The structural dump of a change. -/
def debugChange (h : Heap ρ) (c : Change) : String :=
  "Change \x7b kind: " ++ (match c.kind with | .set => "Set" | .array => "Array") ++
    ", path: " ++ Text.quoteDebug c.path ++ ", value: " ++ h.debug c.value ++ " \x7d"

/-- The text of a change: its kind, path and the text of its value. -/
def displayChange (h : Heap ρ) (c : Change) : String :=
  (match c.kind with | .set => "set" | .array => "array") ++ " " ++ c.path ++ " = " ++ h.display c.value

/-- A change as JSON: its kind, path and value. -/
def changeJson (h : Heap ρ) (c : Change) : Json :=
  .object [("kind", .string (match c.kind with | .set => "set" | .array => "array")),
    ("path", .string c.path), ("value", h.toJson c.value)]

/-- The structural dump of an observer: its changes and how many subscribers it has. -/
def debugObserver (h : Heap ρ) (o : Observer ρ) : String :=
  "Observer \x7b changes: [" ++ ", ".intercalate (o.changes.map h.debugChange) ++
    "], subscribers: " ++ toString o.subscribers.length ++ " \x7d"

/-- A path segment as an array index: digits with an optional `+`, below `2 ^ 64`. -/
def indexOf? (segment : String) : Option Nat :=
  let cs := match segment.toList with
    | '+' :: rest => rest
    | cs => cs
  if cs.isEmpty || !cs.all Char.isDigit then none
  else
    let n := cs.foldl (fun n c => n * 10 + (c.toNat - '0'.toNat)) 0
    if n < Nat.pow 2 64 then some n else none

/-- One step of a path: an object's property, an array's `length` or item, a string's
`length`; anything else is `undefined`. -/
def segment (h : Heap ρ) (v : Value) (seg : String) : Value :=
  match v with
  | .object r => h.get r seg
  | .array r =>
    if seg == "length" then .number (Double.ofNat (h.items r).length)
    else
      match indexOf? seg with
      | some i => (h.items r)[i]?.getD .undefined
      | none => .undefined
  | .string s => if seg == "length" then .number (Double.ofNat s.length) else .undefined
  | _ => .undefined

/-- Follow a dotted path from a value, each segment trimmed; `undefined` stays `undefined`. -/
def resolve (h : Heap ρ) (v : Value) (path : String) : Value :=
  (Text.splitChar path '.').foldl
    (fun cur seg => if cur == .undefined then cur else h.segment cur (Text.trim seg)) v

end Heap

end ReactiveView.Store
