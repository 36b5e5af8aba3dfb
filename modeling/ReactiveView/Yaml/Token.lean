/-!
# YAML tokens, marks and faults

The YAML reader works in three layers: a scanner cuts the text into tokens, a parser turns the
tokens into events, and a loader builds a value from the events. This module holds what the
layers share: marks (a character index, a line and a column, all from zero), the tokens, and
the faults with which reading stops.

A fault names its problem and where it was found, and may name what was being read when it
happened and where that started. Its message gives positions counted from one, and leaves out
a position at the very start of the text, and a context position equal to the problem's.
-/
namespace ReactiveView.Yaml

/-- A place in the text: the index of a character, its line and its column, from zero. -/
structure Mark where
  index : Nat
  line : Nat
  column : Nat
  deriving DecidableEq, Inhabited, Repr

/-- Whether a mark is past the first character of the text. -/
def Mark.placed (m : Mark) : Bool := m.line != 0 || m.column != 0

/-- The text of a mark: `line L column C`, counted from one. -/
def Mark.text (m : Mark) : String :=
  if m.placed then "line " ++ toString (m.line + 1) ++ " column " ++ toString (m.column + 1)
  else "position " ++ toString m.index

/-- Why reading stopped: the problem, its mark, and what was being read, from where. -/
structure Fault where
  problem : String
  mark : Mark
  context : Option (String × Mark) := none
  deriving Inhabited

/-- The message of a fault. -/
def Fault.message (f : Fault) : String :=
  let head := f.problem ++ (if f.mark.placed then " at " ++ f.mark.text else "")
  match f.context with
  | none => head
  | some (what, m) =>
    let elsewhere := m.line != f.mark.line || m.column != f.mark.column
    head ++ ", " ++ what ++ (if m.placed && elsewhere then " at " ++ m.text else "")

/-- How a scalar was written. -/
inductive Style where
  | plain
  | singleQuoted
  | doubleQuoted
  | literal
  | folded
  deriving DecidableEq, Inhabited, Repr

/-- The kinds of tokens. -/
inductive TokenKind where
  | streamStart
  | streamEnd
  | versionDirective (major minor : Nat)
  | tagDirective (handle pre : String)
  | documentStart
  | documentEnd
  | blockSequenceStart
  | blockMappingStart
  | blockEnd
  | flowSequenceStart
  | flowSequenceEnd
  | flowMappingStart
  | flowMappingEnd
  | blockEntry
  | flowEntry
  | key
  | value
  | alias (name : String)
  | anchor (name : String)
  | tag (handle suffix : String)
  | scalar (text : String) (style : Style)
  deriving DecidableEq, Inhabited, Repr

/-- A token and the marks where it starts and ends. -/
structure Token where
  kind : TokenKind
  start : Mark
  stop : Mark
  deriving Inhabited, Repr

/-- Line breaks: line feed, carriage return, next line, line and paragraph separators. -/
def isBreak (c : Char) : Bool :=
  c = '\n' || c = '\r' || c = '\x85' || c = '\u2028' || c = '\u2029'

/-- Blanks: space and tab. -/
def isBlank (c : Char) : Bool := c = ' ' || c = '\t'

/-- A blank, a break, or the end of the text. -/
def blankz : Option Char → Bool
  | none => true
  | some c => isBlank c || isBreak c

/-- A break or the end of the text. -/
def breakz : Option Char → Bool
  | none => true
  | some c => isBreak c

/-- Characters of anchors, aliases and tag handles: ASCII letters, digits, `_` and `-`. -/
def isWordChar (c : Char) : Bool :=
  ('0' ≤ c && c ≤ '9') || ('a' ≤ c && c ≤ 'z') || ('A' ≤ c && c ≤ 'Z') || c = '_' || c = '-'

/-- The value of a hexadecimal digit. -/
def hexValue (c : Char) : Option Nat :=
  if '0' ≤ c ∧ c ≤ '9' then some (c.toNat - '0'.toNat)
  else if 'a' ≤ c ∧ c ≤ 'f' then some (c.toNat - 'a'.toNat + 10)
  else if 'A' ≤ c ∧ c ≤ 'F' then some (c.toNat - 'A'.toNat + 10)
  else none

end ReactiveView.Yaml
