import ReactiveView.Double.Text
/-!
# TOML values and their failures

A TOML document reads into a `Toml.Value`: strings, 64-bit integers, binary64 floats, booleans,
date-times (kept as their canonical text), arrays and tables. Every array item and table entry
keeps the byte span of the text that wrote it, so a later failure about a value can point at it.

A failure is a `Toml.Problem`: a message and the span it is about. `Problem.render` lays it out
the way the messages of this program show it: a heading with the line and the column (columns
count characters from one), the line itself, a row of carets under the span, and the message.
-/
namespace ReactiveView.Toml

/-- A byte range `[start, stop)` of the source text. -/
structure Span where
  start : Nat
  stop : Nat
  deriving DecidableEq, Repr, Inhabited

/-- The empty span at one offset. -/
def Span.at (offset : Nat) : Span := ⟨offset, offset⟩

/-- A TOML value. Table entries and array items carry the span of their value. -/
inductive Value where
  | string (s : String)
  | integer (i : Int)
  | float (x : Double)
  | boolean (b : Bool)
  | datetime (text : String)
  | array (items : List (Value × Span))
  | table (entries : List (String × Value × Span))
  deriving Inhabited

/-- A failure and the span it is about. -/
structure Problem where
  message : String
  span : Span
  deriving Inhabited

/-- A literal named in a list of expected things: a line feed reads `newline`, other text stands
between backticks. -/
def literal (s : String) : String :=
  if s == "\n" then "newline" else "`" ++ s ++ "`"

/-- A message from a description and the things that were expected instead. -/
def describe (description : String) (expected : List String) : String :=
  match expected with
  | [] => description
  | e :: es => description ++ ", expected " ++ es.foldl (fun acc x => acc ++ ", " ++ x) e

/-- The line, from zero, and the column of a byte offset; the column counts characters, except
that an offset inside a character of several bytes counts the bytes of its line before it. An
offset past the end is placed after the last character. -/
def position (source : String) (index : Nat) : Nat × Nat :=
  let bytes := source.utf8ByteSize
  if bytes = 0 then (0, index)
  else
    let safe := min index (bytes - 1)
    let beyond := index - safe
    -- walk the characters before `safe`, counting lines and the characters of the last line;
    -- the character holding `safe` decides whether the column counts characters or bytes
    let (line, _, _, _, column) := source.toList.foldl
      (fun (acc : Nat × Nat × Nat × Nat × Nat) c =>
        let (line, lineStart, column, offset, found) := acc
        if offset + c.utf8Size ≤ safe then
          if c = '\n' then (line + 1, offset + 1, 0, offset + 1, found)
          else (line, lineStart, column + 1, offset + c.utf8Size, found)
        else if offset ≤ safe then
          let found := if safe + 1 = offset + c.utf8Size then column else safe - lineStart
          (line, lineStart, column, offset + c.utf8Size, found)
        else acc)
      (0, 0, 0, 0, 0)
    (line, column + beyond)

/-- `n` copies of a character. -/
def repeatChar (c : Char) (n : Nat) : String := String.ofList (List.replicate n c)

/-- The full text of a failure: heading, source line, carets under the span, message. -/
def Problem.render (source : String) (p : Problem) : String :=
  let (line, column) := position source p.span.start
  let lineText := ((source.splitOn "\n")[line]?).getD ""
  let number := toString (line + 1)
  let gutter := number.length
  let width := min (p.span.stop - p.span.start) (lineText.utf8ByteSize - column)
  "TOML parse error at line " ++ number ++ ", column " ++ toString (column + 1) ++ "\n" ++
    repeatChar ' ' (gutter + 1) ++ "|\n" ++
    number ++ " | " ++ lineText ++ "\n" ++
    repeatChar ' ' (gutter + 1) ++ "|" ++ repeatChar ' ' (column + 1) ++ "^" ++
    repeatChar '^' (width - 1) ++ "\n" ++
    p.message ++ "\n"

end ReactiveView.Toml
