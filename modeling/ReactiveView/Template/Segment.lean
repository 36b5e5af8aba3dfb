import ReactiveView.Text.Blank
/-!
# Placeholders in text

A text holds placeholders written `{{ path }}`. A placeholder opens with two braces, or three,
holds at least one character and no line feed, and closes at the first `}}` after that, taking
one more closing brace if it stands there. The scan looks for the leftmost opening from which
such a placeholder can be read; at an opening of three braces it first tries to read the third
one as part of the marker and falls back to reading it as the first character inside.

`Template.parse?` splits a text into literal runs and placeholders, and gives `none` for a text
with no placeholder.
-/
namespace ReactiveView.Template

/-- A piece of a text: a literal run, or a placeholder with its trimmed path and the exact
characters that wrote it. -/
inductive Segment where
  | literal (text : String)
  | placeholder (path raw : String)
  deriving Repr, DecidableEq, Inhabited

namespace Segment

/-- The characters of the text that the segment stands for. -/
def source : Segment → String
  | .literal text => text
  | .placeholder _ raw => raw

/-- Whether the segment is a placeholder. -/
def isPlaceholder : Segment → Bool
  | .literal _ => false
  | .placeholder _ _ => true

end Segment

/-- The inside of a placeholder whose inside begins at the front of `cs`: the fewest characters,
at least one and no line feed among them, that a `}}` follows. Gives the inside and what follows
the `}}`. -/
def inside : List Char → Option (List Char × List Char)
  | [] => none
  | '\n' :: _ => none
  | c :: rest =>
    match rest with
    | '}' :: '}' :: after => some ([c], after)
    | _ => (inside rest).map fun (i, after) => (c :: i, after)

/-- A placeholder read at the front of a text: its inside and how many characters it covers. -/
structure Marker where
  inside : List Char
  width : Nat
  width_pos : 0 < width

/-- Close a placeholder whose opening braces are `opening` characters long and whose inside
starts at the front of `rest`; a third closing brace is taken when it stands there. -/
def closeMarker (opening : Nat) (rest : List Char) : Option Marker :=
  (inside rest).map fun (i, after) =>
    let extra := if after.head? = some '}' then 1 else 0
    ⟨i, opening + i.length + 2 + extra, by omega⟩

/-- The placeholder that opens at the front of a text, if one does. -/
def markerAt : List Char → Option Marker
  | '{' :: '{' :: '{' :: rest =>
    match closeMarker 3 rest with
    | some m => some m
    | none => closeMarker 2 ('{' :: rest)
  | '{' :: '{' :: rest => closeMarker 2 rest
  | _ => none

/-- A literal run, unless it is empty; `pending` holds its characters last first. -/
def flush (pending : List Char) (rest : List Segment) : List Segment :=
  if pending.isEmpty then rest else .literal (String.ofList pending.reverse) :: rest

/-- Split a text into segments, carrying the literal characters read since the last
placeholder, last first. -/
def scanFrom (pending : List Char) : List Char → List Segment
  | [] => flush pending []
  | c :: rest =>
    match markerAt (c :: rest) with
    | some m =>
      have _hw := m.width_pos
      let raw := (c :: rest).take m.width
      flush pending (.placeholder (Text.trim (String.ofList m.inside)) (String.ofList raw) ::
        scanFrom [] ((c :: rest).drop m.width))
    | none => scanFrom (c :: pending) rest
termination_by cs => cs.length
decreasing_by
  all_goals simp only [List.length_drop, List.length_cons]
  all_goals omega

/-- Split a text into literal runs and placeholders. -/
def scan (text : String) : List Segment :=
  scanFrom [] text.toList

/-- Whether a text holds a placeholder. -/
def hasPlaceholder (text : String) : Bool :=
  (scan text).any Segment.isPlaceholder

/-- The segments of a text with at least one placeholder; `none` for plain text. -/
def parse? (text : String) : Option (List Segment) :=
  if hasPlaceholder text then some (scan text) else none

end ReactiveView.Template
