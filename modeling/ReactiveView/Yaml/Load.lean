import ReactiveView.Yaml.Parse
import ReactiveView.Json.Basic
import ReactiveView.Double.Read
import ReactiveView.Text.Quoted
/-!
# Loading YAML as JSON

`Yaml.load` reads a text holding one YAML document into a JSON value. The events of the first
document are collected, aliases are tied to the anchors before them, and the value is built
from the events: a mapping is an object whose keys are the texts of its key scalars, a sequence
is an array, and an alias stands for a copy of its anchored node.

A plain scalar is resolved by its text: empty, `~` and `null` in three casings are null;
`true` and `false` in three casings are booleans; a whole number (decimal, or `0x`, `0o`, `0b`
with an optional sign) that fits 64 bits is an integer; other numbers are floats, and a float
that is not finite is null. Quoted and block scalars stay strings, and tags `!!bool`, `!!int`,
`!!float`, `!!null` ask for a kind.

A text with no document is null; a second document is refused.
-/
namespace ReactiveView.Yaml



/-- An event as the loader keeps it: aliases point at the index of their anchored event. -/
inductive Item where
  | void
  | alias (target : Nat)
  | scalar (tag : Option String) (text : String) (style : Style)
  | sequenceStart (tag : Option String)
  | sequenceEnd
  | mappingStart (tag : Option String)
  | mappingEnd
  deriving Inhabited

/-- A loaded document: its items with their marks, and the fault that cut it short, if any. -/
structure Document where
  items : Array (Item × Mark) := #[]
  fault : Option String := none

/-- The message of a failure with a mark, as the loader words it. -/
def atMark (message : String) (m : Mark) : String :=
  if m.placed then message ++ " at " ++ m.text else message

/-- Run one parser step in the loader. -/
def step (p : Parser) : Except Fault (Event × Parser) := nextEvent.run p

/-- Collect the items of the next document. Gives the document (or none when the stream ended
and this was not the first document), whether the stream ended, and the parser. -/
def collect (first : Bool) : Nat → Parser → List (String × Nat) → Document →
    Option Document × Parser
  | 0, p, _, d => (some d, p)
  | fuel + 1, p, anchors, d =>
    match step p with
    | .error f => (some { d with fault := some f.message }, p)
    | .ok (e, p) =>
      let anchored (a : Option String) : List (String × Nat) :=
        match a with
        | some name => (name, d.items.size) :: anchors.filter (·.1 != name)
        | none => anchors
      match e.kind with
      | .streamStart | .documentStart => collect first fuel p anchors d
      | .streamEnd =>
        if first then
          (some (if d.items.isEmpty then { d with items := #[(.void, e.start)] } else d), p)
        else (none, p)
      | .documentEnd => (some d, p)
      | .alias name =>
        match anchors.lookup name with
        | some i => collect first fuel p anchors { d with items := d.items.push (.alias i, e.start) }
        | none => (some { d with fault := some (atMark "unknown anchor" e.start) }, p)
      | .scalar a tag text style =>
        collect first fuel p (anchored a)
          { d with items := d.items.push (.scalar tag text style, e.start) }
      | .sequenceStart a tag =>
        collect first fuel p (anchored a) { d with items := d.items.push (.sequenceStart tag, e.start) }
      | .sequenceEnd => collect first fuel p anchors { d with items := d.items.push (.sequenceEnd, e.start) }
      | .mappingStart a tag =>
        collect first fuel p (anchored a) { d with items := d.items.push (.mappingStart tag, e.start) }
      | .mappingEnd => collect first fuel p anchors { d with items := d.items.push (.mappingEnd, e.start) }

/-! ## Scalars -/

/-- Null words. -/
def isNullWord (s : String) : Bool := s == "~" || s == "null" || s == "Null" || s == "NULL"

/-- Boolean words. -/
def boolWord? (s : String) : Option Bool :=
  if s == "true" || s == "True" || s == "TRUE" then some true
  else if s == "false" || s == "False" || s == "FALSE" then some false
  else none

/-- Digits of a radix, all of them, at least one: the value. -/
def radixValue (radix : Nat) (cs : List Char) : Option Nat :=
  if cs.isEmpty then none
  else cs.foldlM (fun n c => (hexValue c).bind fun d => if d < radix then some (n * radix + d) else none) 0

/-- A whole number in a radix with an optional sign, as the standard integer reading takes it. -/
def signedRadix (radix : Nat) (cs : List Char) : Option Int :=
  match cs with
  | '+' :: r => (radixValue radix r).map (Int.ofNat)
  | '-' :: r => (radixValue radix r).map fun n => -(n : Int)
  | r => (radixValue radix r).map (Int.ofNat)

/-- Whether a text is a zero followed by more digits (with an optional sign): such a text is a
string, not a number. -/
def leadingZeroDigits (cs : List Char) : Bool :=
  let body := match cs with
    | '-' :: r | '+' :: r => r
    | r => r
  match body with
  | '0' :: r => !r.isEmpty && r.all Char.isDigit
  | _ => false

/-- Whether a list starts with a sign. -/
def signed (cs : List Char) : Bool := cs.head? == some '+' || cs.head? == some '-'

/-- A whole number without a minus: an optional plus, then `0x`, `0o`, `0b` or decimal. -/
def unsignedWhole (cs : List Char) : Option Int :=
  let unpositive := match cs with
    | '+' :: r => if signed r then none else some r
    | r => some r
  unpositive.bind fun u =>
    let prefixed (radix : Nat) (r : List Char) : Option Int :=
      if signed r then none else (signedRadix radix r).bind fun i => if 0 ≤ i then some i else none
    let tried := match u with
      | '0' :: 'x' :: r => prefixed 16 r
      | '0' :: 'o' :: r => prefixed 8 r
      | '0' :: 'b' :: r => prefixed 2 r
      | _ => none
    match tried with
    | some i => some i
    | none =>
      if signed u || leadingZeroDigits cs then none
      else (signedRadix 10 u).bind fun i => if 0 ≤ i then some i else none

/-- A whole number with a minus: `-0x`, `-0o`, `-0b` or decimal. -/
def negativeWhole (cs : List Char) : Option Int :=
  let prefixed (radix : Nat) (r : List Char) : Option Int :=
    if signed r then none else (radixValue radix r).map fun n => -(n : Int)
  let tried := match cs with
    | '-' :: '0' :: 'x' :: r => prefixed 16 r
    | '-' :: '0' :: 'o' :: r => prefixed 8 r
    | '-' :: '0' :: 'b' :: r => prefixed 2 r
    | _ => none
  match tried with
  | some i => some i
  | none => if leadingZeroDigits cs then none else signedRadix 10 cs

/-- A float: `.inf`, `-.inf`, `.nan` in three casings, or a finite decimal. -/
def floatWord? (s : String) : Option Double :=
  let cs := s.toList
  let unpositive := match cs with
    | '+' :: r => if signed r then none else some r
    | r => some r
  unpositive.bind fun u =>
    let us := String.ofList u
    if us == ".inf" || us == ".Inf" || us == ".INF" then some Double.infinity
    else if s == "-.inf" || s == "-.Inf" || s == "-.INF" then some Double.infinity.neg
    else if s == ".nan" || s == ".NaN" || s == ".NAN" then some Double.nan
    else (Double.parse? us).bind fun x => if x.isFinite then some x else none

/-- The JSON number of a whole number, or a refusal when it does not fit 64 bits. -/
def wholeJson (i : Int) : Except String Json :=
  if 0 ≤ i then
    if i < Int.pow 2 64 then .ok (.number (.nat i.toNat)) else .error "JSON number out of range"
  else if -Int.pow 2 63 ≤ i then .ok (.number (.int i)) else .error "JSON number out of range"

/-- The JSON value of a float: null when not finite. -/
def floatJson (x : Double) : Json :=
  if x.isFinite then .number (.double x) else .null

/-- A whole number written by a text, if it is one. -/
def whole? (s : String) : Option Int :=
  let cs := s.toList
  match unsignedWhole cs with
  | some i => some i
  | none => negativeWhole cs

/-- The value of a plain scalar without a tag. -/
def untagged (s : String) : Except String Json :=
  if s.isEmpty || isNullWord s then .ok .null
  else match boolWord? s with
  | some b => .ok (.bool b)
  | none =>
    match whole? s with
    | some i => wholeJson i
    | none =>
      if leadingZeroDigits s.toList then .ok (.string s)
      else match floatWord? s with
        | some x => .ok (floatJson x)
        | none => .ok (.string s)

/-- The value of a scalar. -/
def scalarJson (tag : Option String) (text : String) (style : Style) : Except String Json :=
  let invalid (what : String) : Except String Json :=
    .error ("invalid value: string " ++ Text.quoteDebug text ++ ", expected " ++ what)
  match tag with
  | some "tag:yaml.org,2002:bool" => (boolWord? text).elim (invalid "a boolean") (.ok ∘ .bool)
  | some "tag:yaml.org,2002:int" => (whole? text).elim (invalid "an integer") wholeJson
  | some "tag:yaml.org,2002:float" => (floatWord? text).elim (invalid "a float") (.ok ∘ floatJson)
  | some "tag:yaml.org,2002:null" => if isNullWord text || text.isEmpty then .ok .null else invalid "null"
  | some t => if t.startsWith "!" && style == .plain then untagged text else .ok (.string text)
  | none => if style == .plain then untagged text else .ok (.string text)

/-! ## Building values -/

/-- Where in the value a failure is: the keys and indices from the root. -/
inductive Path where
  | root
  | seq (parent : Path) (index : Nat)
  | map (parent : Path) (key : String)
  | unknown (parent : Path)

/-- The text of a path: `.` for the root, `a.b[0]` below it. -/
def Path.text : Path → String
  | .root => "."
  | .seq parent i => parent.text ++ "[" ++ toString i ++ "]"
  | .map .root key => key
  | .map parent key => parent.text ++ "." ++ key
  | .unknown .root => "?"
  | .unknown parent => parent.text ++ ".?"

/-- A failure while building, placed at a mark and a path. -/
def placed (message : String) (m : Mark) (path : Path) : String :=
  let head := match path with
    | .root => message
    | p => p.text ++ ": " ++ message
  atMark head m

/-- Whether a tag asks for an enumeration, which no JSON value is. -/
def enumTag (tag : Option String) : Bool :=
  match tag with
  | some t => t.startsWith "!" && t.length > 1
  | none => false

/-- The item at a position, or the fault that cut the document short. -/
def itemAt (d : Document) (pos : Nat) : Except String (Item × Mark) :=
  match d.items[pos]? with
  | some im => .ok im
  | none => .error (d.fault.getD "EOF while parsing a value")

mutual
/-- The value starting at a position, and the position after it. -/
def value (d : Document) (path : Path) (depth : Nat) : Nat → Nat → Except String (Json × Nat)
  | 0, _ => .error "recursion limit exceeded"
  | fuel + 1, pos => do
    let (item, m) ← itemAt d pos
    match item with
    | .void => return (.null, pos + 1)
    | .alias target =>
      let (j, _) ← value d path depth fuel target
      return (j, pos + 1)
    | .scalar tag text style =>
      if enumTag tag then .error (placed "invalid type: enum, expected any valid JSON value" m path)
      match scalarJson tag text style with
      | .ok j => return (j, pos + 1)
      | .error e => .error (placed e m path)
    | .sequenceStart tag =>
      if enumTag tag then .error (placed "invalid type: enum, expected any valid JSON value" m path)
      if depth = 0 then .error (atMark "recursion limit exceeded" m)
      let (items, next) ← elements d path (depth - 1) fuel (pos + 1) 0 []
      return (.array items, next)
    | .mappingStart tag =>
      if enumTag tag then .error (placed "invalid type: enum, expected any valid JSON value" m path)
      if depth = 0 then .error (atMark "recursion limit exceeded" m)
      let (fields, next) ← entries d path (depth - 1) fuel (pos + 1) true []
      return (.object fields, next)
    | .sequenceEnd | .mappingEnd => .error (placed "EOF while parsing a value" m path)

/-- The items of a sequence up to its end. -/
def elements (d : Document) (path : Path) (depth : Nat) :
    Nat → Nat → Nat → List Json → Except String (List Json × Nat)
  | 0, _, _, _ => .error "recursion limit exceeded"
  | fuel + 1, pos, index, acc => do
    let (item, _) ← itemAt d pos
    match item with
    | .sequenceEnd => return (acc.reverse, pos + 1)
    | _ =>
      let (j, next) ← value d (.seq path index) depth fuel pos
      elements d path depth fuel next (index + 1) (j :: acc)

/-- The pairs of a mapping up to its end. -/
def entries (d : Document) (path : Path) (depth : Nat) :
    Nat → Nat → Bool → List (String × Json) → Except String (List (String × Json) × Nat)
  | 0, _, _, _ => .error "recursion limit exceeded"
  | fuel + 1, pos, first, acc => do
    let (item, _) ← itemAt d pos
    match item with
    | .mappingEnd | .void => return (acc, pos + 1)
    | _ =>
      let (k, afterKey) ← keyText d path first fuel pos
      let (v, next) ← value d (.map path k) depth fuel afterKey
      entries d path depth fuel next false (Json.insertField acc k v)

/-- The text of a key: a scalar's own text, through aliases. -/
def keyText (d : Document) (path : Path) (first : Bool) : Nat → Nat → Except String (String × Nat)
  | 0, _ => .error "recursion limit exceeded"
  | fuel + 1, pos => do
    let (item, m) ← itemAt d pos
    let expected := if first then "a string key" else "a string"
    match item with
    | .scalar _ text _ => return (text, pos + 1)
    | .alias target =>
      let (k, _) ← keyText d path first fuel target
      return (k, pos + 1)
    | .sequenceStart _ => .error (placed ("invalid type: sequence, expected " ++ expected) m path)
    | .mappingStart _ => .error (placed ("invalid type: map, expected " ++ expected) m path)
    | _ => .error (placed "EOF while parsing a value" m path)
end

/-- Read a text holding one YAML document as JSON; a failure is its message. -/
def load (text : String) : Except String Json := do
  let fuel := 4 * text.length + 16
  let (doc, p) := collect true fuel (Parser.start text) [] {}
  let doc := doc.getD {}
  let (j, _) ← value doc .root 128 (fuel * 4 + doc.items.size * 4) 0
  if let some f := doc.fault then .error f
  match collect false fuel p [] {} with
  | (none, _) => return j
  | (some _, _) =>
    .error "deserializing from YAML containing more than one document is not supported"

end ReactiveView.Yaml
