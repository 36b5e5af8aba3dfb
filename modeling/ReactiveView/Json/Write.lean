import ReactiveView.Json.Basic
import ReactiveView.Double.Text
/-!
# Writing JSON

`Json.compact` writes a document on one line with no blanks; `Json.pretty` puts every item and
field on a line of its own, indented by two spaces per level, and writes empty arrays and
objects as `[]` and `{}`. Strings escape the quote, the backslash and the control characters;
numbers use the data layout of binary64 values.
-/
namespace ReactiveView.Json

/-- Four lowercase hexadecimal digits of a code below `0x10000`. -/
def hex4 (n : Nat) : String :=
  let digit (d : Nat) : Char := "0123456789abcdef".toList.getD d '0'
  String.ofList [digit (n / 4096 % 16), digit (n / 256 % 16), digit (n / 16 % 16), digit (n % 16)]

/-- One character inside a quoted JSON string. -/
def escapeChar (c : Char) : String :=
  match c with
  | '"' => "\\\""
  | '\\' => "\\\\"
  | '\n' => "\\n"
  | '\r' => "\\r"
  | '\t' => "\\t"
  | '\x08' => "\\b"
  | '\x0c' => "\\f"
  | c => if c.toNat < 0x20 then "\\u" ++ hex4 c.toNat else String.singleton c

/-- A string as a quoted JSON string. -/
def quote (s : String) : String :=
  "\"" ++ String.join (s.toList.map escapeChar) ++ "\""

/-- The text of a number. -/
def writeNumber : JsonNumber → String
  | .nat n => toString n
  | .int i => toString i
  | .double x => Double.format .data x

mutual
/-- A document on one line. -/
def compact : Json → String
  | .null => "null"
  | .bool b => if b then "true" else "false"
  | .number n => writeNumber n
  | .string s => quote s
  | .array items => "[" ++ compactItems items ++ "]"
  | .object fields => "\x7b" ++ compactFields fields ++ "\x7d"

/-- Items separated by commas. -/
def compactItems : List Json → String
  | [] => ""
  | [j] => compact j
  | j :: rest => compact j ++ "," ++ compactItems rest

/-- Fields separated by commas. -/
def compactFields : List (String × Json) → String
  | [] => ""
  | [(k, j)] => quote k ++ ":" ++ compact j
  | (k, j) :: rest => quote k ++ ":" ++ compact j ++ "," ++ compactFields rest
end

/-- The blanks that open a line at nesting `level`. -/
def indent (level : Nat) : String := String.ofList (List.replicate (2 * level) ' ')

mutual
/-- A document spread over lines, its first line not indented, at nesting `level`. -/
def pretty (level : Nat) : Json → String
  | .array [] => "[]"
  | .object [] => "\x7b\x7d"
  | .array items => "[\n" ++ prettyItems (level + 1) items ++ "\n" ++ indent level ++ "]"
  | .object fields => "\x7b\n" ++ prettyFields (level + 1) fields ++ "\n" ++ indent level ++ "\x7d"
  | j => compact j

/-- Items each on its own line. -/
def prettyItems (level : Nat) : List Json → String
  | [] => ""
  | [j] => indent level ++ pretty level j
  | j :: rest => indent level ++ pretty level j ++ ",\n" ++ prettyItems level rest

/-- Fields each on its own line. -/
def prettyFields (level : Nat) : List (String × Json) → String
  | [] => ""
  | [(k, j)] => indent level ++ quote k ++ ": " ++ pretty level j
  | (k, j) :: rest => indent level ++ quote k ++ ": " ++ pretty level j ++ ",\n" ++ prettyFields level rest
end

end ReactiveView.Json
