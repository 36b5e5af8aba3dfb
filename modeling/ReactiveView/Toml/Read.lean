import ReactiveView.Toml.Scalar
/-!
# Reading TOML documents

`Toml.read` reads a whole document into its root table. The document is read line by line:
a line holds a key-value pair, a table header `[a.b]`, an array-of-tables header `[[a.b]]`,
a comment, or nothing. Values are strings in four quotings, arrays (which may span lines),
inline tables, and the unquoted values of `Toml.Scalar`.

The tables are assembled in a tree whose tables remember how they came to be: named by a
header, made on the way to a header, or made by a dotted key. The rules of the format follow
from that: a header names a table once, a dotted key extends only tables that dotted keys made,
and no key is given twice. A broken rule fails with `duplicate key` at the key that broke it.

Tables come out with their keys in ascending order, the order in which this program lists them.
-/
namespace ReactiveView.Toml

/-- Where the reader stands: the characters left and their byte offset. -/
structure Cursor where
  rest : List Char
  offset : Nat

/-- The reading monad. -/
abbrev Reader := StateT Cursor (Except Problem)

/-- The next character, without taking it. -/
def peek : Reader (Option Char) := return (← get).rest.head?

/-- The character `n` places ahead, without taking anything. -/
def peekAt (n : Nat) : Reader (Option Char) := return (← get).rest[n]?

/-- Take the next character. -/
def bump : Reader Unit :=
  modify fun c => match c.rest with
    | [] => c
    | ch :: r => ⟨r, c.offset + ch.utf8Size⟩

/-- The byte offset of the cursor. -/
def here : Reader Nat := return (← get).offset

/-- Fail with a message about a span. -/
def failWith {α : Type} (description : String) (expected : List String) (span : Span) :
    Reader α :=
  throw ⟨describe description expected, span⟩

/-- Fail about the character at the cursor, or the end of the text. -/
def failHere {α : Type} (description : String) (expected : List String) : Reader α := do
  let c ← get
  let width := match c.rest.head? with
    | some ch => ch.utf8Size
    | none => 0
  failWith description expected ⟨c.offset, c.offset + width⟩

/-- Take characters while they pass a test, bounded by `fuel`. -/
def takeWhile (p : Char → Bool) : Nat → List Char → Reader (List Char)
  | 0, acc => return acc.reverse
  | fuel + 1, acc => do
    match ← peek with
    | some c => if p c then do bump; takeWhile p fuel (c :: acc) else return acc.reverse
    | none => return acc.reverse

/-- Take characters while they pass a test. -/
def takeAll (p : Char → Bool) : Reader (List Char) := do
  takeWhile p ((← get).rest.length) []

/-- Skip spaces and tabs. -/
def skipSpaces : Reader Unit := do
  let _ ← takeAll fun c => c = ' ' || c = '\t'

/-- Skip a comment up to, not over, the end of its line. -/
def skipComment : Reader Unit := do
  if (← peek) == some '#' then
    let _ ← takeAll fun c => c != '\n'

/-- Skip blanks, comments and line ends, bounded by `fuel`. -/
def skipTriviaWithin : Nat → Reader Unit
  | 0 => return
  | fuel + 1 => do
    match ← peek with
    | some ' ' | some '\t' | some '\n' => bump; skipTriviaWithin fuel
    | some '\r' =>
      if (← peekAt 1) == some '\n' then do bump; bump; skipTriviaWithin fuel else return
    | some '#' => skipComment; skipTriviaWithin fuel
    | _ => return

/-- Skip blanks, comments and line ends. -/
def skipTrivia : Reader Unit := do
  skipTriviaWithin ((← get).rest.length + 1)

/-- The end of a line: blanks, an optional comment, then a line feed or the end. -/
def lineEnd : Reader Unit := do
  skipSpaces
  skipComment
  match ← peek with
  | none => return
  | some '\n' => bump
  | some '\r' =>
    if (← peekAt 1) == some '\n' then do bump; bump
    else failHere "unexpected content" [literal "\n", literal "#"]
  | some _ => failHere "unexpected content" [literal "\n", literal "#"]

/-! ## Strings -/

/-- `n` hexadecimal digits as a character. -/
def hexChar (n : Nat) : Reader Char := do
  let start ← here
  let ds ← takeWhile (fun c => (digitIn 16 c).isSome) n []
  let v := ds.foldl (fun acc c => acc * 16 + (digitIn 16 c).getD 0) 0
  if ds.length = n ∧ v.isValidChar then return Char.ofNat v
  else failWith "invalid unicode escape" [] ⟨start, ← here⟩

/-- One escape after a backslash. -/
def escape : Reader Char := do
  let start ← here
  match ← peek with
  | some 'b' => bump; return '\x08'
  | some 't' => bump; return '\t'
  | some 'n' => bump; return '\n'
  | some 'f' => bump; return '\x0c'
  | some 'r' => bump; return '\r'
  | some 'e' => bump; return '\x1b'
  | some '"' => bump; return '"'
  | some '\\' => bump; return '\\'
  | some 'u' => bump; hexChar 4
  | some 'U' => bump; hexChar 8
  | some 'x' => bump; hexChar 2
  | _ =>
    let expected := ["`b`", "`f`", "`n`", "`r`", "`t`", "`u`", "`U`", "`\\`", "`\"`"]
    failWith "invalid escape sequence" expected ⟨start - 1, start⟩

/-- The rest of a one-line basic string after its opening quote. -/
def basicBody : Nat → List Char → Reader String
  | 0, acc => return String.ofList acc.reverse
  | fuel + 1, acc => do
    match ← peek with
    | none | some '\n' => failHere "invalid basic string" [literal "\""]
    | some '"' => bump; return String.ofList acc.reverse
    | some '\\' => bump; basicBody fuel ((← escape) :: acc)
    | some c => bump; basicBody fuel (c :: acc)

/-- The rest of a one-line literal string after its opening quote. -/
def literalBody : Reader String := do
  let cs ← takeAll fun c => c != '\'' && c != '\n'
  match ← peek with
  | some '\'' => bump; return String.ofList cs
  | _ => failHere "invalid literal string" [literal "'"]

/-- How many times a character repeats at the front of the cursor. -/
def runLength (q : Char) : Reader Nat := do
  return ((← get).rest.takeWhile (· = q)).length

/-- A line feed right after the opening quotes of a multi-line string is dropped. -/
def dropFirstNewline : Reader Unit := do
  match ← peek with
  | some '\n' => bump
  | some '\r' => if (← peekAt 1) == some '\n' then do bump; bump
  | _ => return

/-- The rest of a multi-line string after its opening quotes: a run of three to five quotes
closes it, the quotes past three belonging to the text. Basic strings read escapes and drop a
backslash at the end of a line with the blanks after it. -/
def multiBody (q : Char) (basic : Bool) : Nat → List Char → Reader String
  | 0, acc => return String.ofList acc.reverse
  | fuel + 1, acc => do
    match ← peek with
    | none =>
      failHere (if basic then "invalid multi-line basic string"
        else "invalid multi-line literal string") [literal (String.ofList [q, q, q])]
    | some c =>
      if c = q then
        let n ← runLength q
        if 3 ≤ n then
          for _ in [0:min n 5] do bump
          return String.ofList ((List.replicate (min n 5 - 3) q) ++ acc).reverse
        else
          bump; multiBody q basic fuel (c :: acc)
      else if basic ∧ c = '\\' then
        bump
        let after := (← get).rest.dropWhile fun x => x = ' ' || x = '\t'
        if after.head? == some '\n' || (after.head? == some '\r' && after[1]? == some '\n') then
          skipBlankLines
          multiBody q basic fuel acc
        else multiBody q basic fuel ((← escape) :: acc)
      else
        bump; multiBody q basic fuel (c :: acc)
where
  skipBlankLines : Reader Unit := do
    let _ ← takeAll fun x => x = ' ' || x = '\t' || x = '\n' || x = '\r'

/-- A quoted string at the cursor, any of the four quotings. -/
def readString : Reader String := do
  match ← peek with
  | some '"' =>
    if (← runLength '"') ≥ 3 then
      bump; bump; bump; dropFirstNewline
      multiBody '"' true ((← get).rest.length + 1) []
    else
      bump; basicBody ((← get).rest.length + 1) []
  | _ =>
    if (← runLength '\'') ≥ 3 then
      bump; bump; bump; dropFirstNewline
      multiBody '\'' false ((← get).rest.length + 1) []
    else
      bump; literalBody

/-! ## Keys -/

/-- Characters of a bare key. -/
def bareKeyChar (c : Char) : Bool :=
  ('a' ≤ c && c ≤ 'z') || ('A' ≤ c && c ≤ 'Z') || c.isDigit || c = '_' || c = '-'

/-- One key: bare, or a one-line string. -/
def simpleKey : Reader (String × Span) := do
  let start ← here
  match ← peek with
  | some '"' => bump; let s ← basicBody ((← get).rest.length + 1) []; return (s, ⟨start, ← here⟩)
  | some '\'' => bump; let s ← literalBody; return (s, ⟨start, ← here⟩)
  | some c =>
    if bareKeyChar c then
      let cs ← takeAll bareKeyChar
      return (String.ofList cs, ⟨start, ← here⟩)
    else failHere "invalid key" []
  | none => failHere "invalid key" []

/-- A dotted key: keys joined by dots, with blanks allowed around the dots. -/
def dottedKey : Nat → Reader (List (String × Span))
  | 0 => return []
  | fuel + 1 => do
    let k ← simpleKey
    skipSpaces
    if (← peek) == some '.' then
      bump
      skipSpaces
      return k :: (← dottedKey fuel)
    else return [k]

/-! ## The table tree -/

/-- How a table came to be. -/
inductive Origin where
  | header
  | implicit
  | dotted
  deriving DecidableEq

/-- The tree the document is assembled in. -/
inductive Node where
  | leaf (v : Value) (span : Span)
  | table (origin : Origin) (span : Span) (entries : List (String × Node))
  | tables (span : Span) (items : List Node)
  deriving Inhabited

/-- The span of a node. -/
def Node.span : Node → Span
  | .leaf _ s | .table _ s _ | .tables s _ => s

/-- The node under a key. -/
def entry? (entries : List (String × Node)) (k : String) : Option Node :=
  entries.lookup k

/-- Set the node under a key, in place when the key is there, at the end otherwise. -/
def setEntry (entries : List (String × Node)) (k : String) (n : Node) : List (String × Node) :=
  if entries.any (·.1 == k) then entries.map fun e => if e.1 == k then (k, n) else e
  else entries ++ [(k, n)]

/-- The failure of a key given twice. -/
def duplicate {α : Type} (span : Span) : Except Problem α := .error ⟨"duplicate key", span⟩

/-- Change the entries of the last table of an array of tables. -/
def withLast (items : List Node)
    (f : List (String × Node) → Except Problem (List (String × Node))) : Except Problem (List Node) :=
  match items.getLast? with
  | some (.table o s es) => do return items.dropLast ++ [.table o s (← f es)]
  | _ => return items

/-- Define the table a header names. -/
def defineTable (span : Span) : List (String × Node) → List (String × Span) →
    Except Problem (List (String × Node))
  | entries, [] => return entries
  | entries, [(k, ks)] =>
    match entry? entries k with
    | none => return setEntry entries k (.table .header span [])
    | some (.table .implicit s es) => return setEntry entries k (.table .header s es)
    | some _ => duplicate ks
  | entries, (k, ks) :: rest =>
    match entry? entries k with
    | none => do return setEntry entries k (.table .implicit ks (← defineTable span [] rest))
    | some (.table o s es) => do return setEntry entries k (.table o s (← defineTable span es rest))
    | some (.tables s items) => do
      return setEntry entries k (.tables s (← withLast items fun es => defineTable span es rest))
    | some (.leaf _ _) => duplicate ks

/-- Add a table to the array of tables a header names. -/
def appendTable (span : Span) : List (String × Node) → List (String × Span) →
    Except Problem (List (String × Node))
  | entries, [] => return entries
  | entries, [(k, ks)] =>
    match entry? entries k with
    | none => return setEntry entries k (.tables span [.table .header span []])
    | some (.tables s items) => return setEntry entries k (.tables s (items ++ [.table .header span []]))
    | some _ => duplicate ks
  | entries, (k, ks) :: rest =>
    match entry? entries k with
    | none => do return setEntry entries k (.table .implicit ks (← appendTable span [] rest))
    | some (.table o s es) => do return setEntry entries k (.table o s (← appendTable span es rest))
    | some (.tables s items) => do
      return setEntry entries k (.tables s (← withLast items fun es => appendTable span es rest))
    | some (.leaf _ _) => duplicate ks

/-- Put a value under a dotted key; the dots make tables, or extend tables dots made. -/
def assign (v : Value) (vspan : Span) : List (String × Node) → List (String × Span) →
    Except Problem (List (String × Node))
  | entries, [] => return entries
  | entries, [(k, ks)] =>
    match entry? entries k with
    | none => return setEntry entries k (.leaf v vspan)
    | some _ => duplicate ks
  | entries, (k, ks) :: rest =>
    match entry? entries k with
    | none => do return setEntry entries k (.table .dotted ks (← assign v vspan [] rest))
    | some (.table .dotted s es) => do
      return setEntry entries k (.table .dotted s (← assign v vspan es rest))
    | some _ => duplicate ks

/-- Change the entries of the table at a path of keys. -/
def atPath (f : List (String × Node) → Except Problem (List (String × Node))) :
    List (String × Node) → List String → Except Problem (List (String × Node))
  | entries, [] => f entries
  | entries, k :: rest =>
    match entry? entries k with
    | some (.table o s es) => do return setEntry entries k (.table o s (← atPath f es rest))
    | some (.tables s items) => do
      return setEntry entries k (.tables s (← withLast items fun es => atPath f es rest))
    | _ => return entries

/-- Order entries by key. -/
def sortEntries {α : Type} (entries : List (String × α)) : List (String × α) :=
  entries.mergeSort fun a b => !(b.1 < a.1)

mutual
/-- The value a node stands for; tables list their keys in order. -/
def Node.value : Node → Value
  | .leaf v _ => v
  | .table _ _ entries => .table (sortEntries (Node.entryValues entries))
  | .tables _ items => .array (Node.itemValues items)

/-- The values of table entries, with their spans. -/
def Node.entryValues : List (String × Node) → List (String × Value × Span)
  | [] => []
  | (k, n) :: rest => (k, n.value, n.span) :: Node.entryValues rest

/-- The values of array items, with their spans. -/
def Node.itemValues : List Node → List (Value × Span)
  | [] => []
  | n :: rest => (n.value, n.span) :: Node.itemValues rest
end

/-- Turn a failure of assembly into a failure of the reader. -/
def liftAssembly {α : Type} : Except Problem α → Reader α
  | .ok a => return a
  | .error p => throw p

/-! ## Values -/

/-- Characters that end an unquoted value. -/
def endsScalar (c : Char) : Bool :=
  c = ' ' || c = '\t' || c = '\n' || c = '\r' || c = '#' || c = ',' || c = '[' || c = ']' ||
    c = '{' || c = '}' || c = '=' || c = '"' || c = '\''

/-- An unquoted value; a date followed by a blank and a time is one value. -/
def readScalar : Reader (Value × Span) := do
  let start ← here
  let cs ← takeAll fun c => !endsScalar c
  let rest := (← get).rest
  let cs ← match rest with
    | ' ' :: a :: b :: ':' :: _ =>
      if (readDate cs).map (·.2.isEmpty) == some true && a.isDigit && b.isDigit then do
        bump
        let more ← takeAll fun c => !endsScalar c
        pure (cs ++ ' ' :: more)
      else pure cs
    | _ => pure cs
  let span : Span := ⟨start, ← here⟩
  return (← liftAssembly (decodeScalar cs span), span)

mutual
/-- A value at the cursor. -/
def readValue : Nat → Reader (Value × Span)
  | 0 => failHere "recursion limit exceeded" []
  | fuel + 1 => do
    let start ← here
    match ← peek with
    | some '"' | some '\'' =>
      let s ← readString
      return (.string s, ⟨start, ← here⟩)
    | some '[' =>
      bump
      let items ← readItems fuel []
      return (.array items, ⟨start, ← here⟩)
    | some '{' =>
      bump
      skipSpaces
      if (← peek) == some '}' then
        bump
        return (.table [], ⟨start, ← here⟩)
      else
        let entries ← readInline fuel []
        return (Node.value (.table .header ⟨start, start⟩ entries), ⟨start, ← here⟩)
    | _ => readScalar

/-- The items of an array after its opening bracket. -/
def readItems : Nat → List (Value × Span) → Reader (List (Value × Span))
  | 0, acc => return acc.reverse
  | fuel + 1, acc => do
    skipTrivia
    match ← peek with
    | some ']' => bump; return acc.reverse
    | none => failHere "unclosed array" [literal "]"]
    | _ =>
      let v ← readValue fuel
      skipTrivia
      match ← peek with
      | some ',' => bump; readItems fuel (v :: acc)
      | some ']' => bump; return (v :: acc).reverse
      | none => failHere "unclosed array" [literal "]"]
      | some _ => failHere "missing comma between array elements" [literal ","]

/-- The pairs of an inline table after its opening brace. -/
def readInline : Nat → List (String × Node) → Reader (List (String × Node))
  | 0, acc => return acc
  | fuel + 1, acc => do
    let keys ← dottedKey ((← get).rest.length + 1)
    skipSpaces
    if (← peek) != some '=' then failHere "key with no value" [literal "="]
    bump
    skipSpaces
    let (v, vspan) ← readValue fuel
    let acc ← liftAssembly (assign v vspan acc keys)
    skipSpaces
    match ← peek with
    | some ',' => bump; skipSpaces; readInline fuel acc
    | some '}' => bump; return acc
    | none => failHere "unclosed inline table" [literal "\x7d"]
    | some _ => failHere "missing comma between key-value pairs" [literal ","]
end

/-! ## Documents -/

/-- A document being read: the root entries and the path of the table pairs go to. -/
structure Assembly where
  root : List (String × Node)
  current : List String

/-- A header after its opening bracket, one bracket or two. -/
def readHeader (a : Assembly) : Reader Assembly := do
  let start ← here
  let double := (← peek) == some '['
  if double then bump
  skipSpaces
  let keys ← dottedKey ((← get).rest.length + 1)
  skipSpaces
  if (← peek) != some ']' then failHere "unclosed table header" [literal "]"]
  bump
  if double then
    if (← peek) != some ']' then failHere "unclosed array of tables header" [literal "]]"]
    bump
  let span : Span := ⟨start - 1, ← here⟩
  let root ← liftAssembly
    (if double then appendTable span a.root keys else defineTable span a.root keys)
  return ⟨root, keys.map (·.1)⟩

/-- A key-value pair into the current table. -/
def readPair (a : Assembly) : Reader Assembly := do
  let keys ← dottedKey ((← get).rest.length + 1)
  skipSpaces
  if (← peek) != some '=' then failHere "key with no value" [literal "="]
  bump
  skipSpaces
  let (v, vspan) ← readValue (3 * (← get).rest.length + 3)
  let root ← liftAssembly (atPath (fun es => assign v vspan es keys) a.root a.current)
  return { a with root := root }

/-- The lines of a document. -/
def readLines : Nat → Assembly → Reader Assembly
  | 0, a => return a
  | fuel + 1, a => do
    skipSpaces
    match ← peek with
    | none => return a
    | some '\n' | some '\r' | some '#' => lineEnd; readLines fuel a
    | some '[' => bump; let a ← readHeader a; lineEnd; readLines fuel a
    | some _ => let a ← readPair a; lineEnd; readLines fuel a

/-- Read a TOML document into its root table, keys in order. -/
def read (source : String) : Except Problem (List (String × Value × Span)) := do
  let cs := source.toList
  let (a, _) ← (readLines (cs.length + 1) ⟨[], []⟩).run ⟨cs, 0⟩
  match Node.value (.table .header ⟨0, 0⟩ a.root) with
  | .table entries => return entries
  | _ => return []

end ReactiveView.Toml
