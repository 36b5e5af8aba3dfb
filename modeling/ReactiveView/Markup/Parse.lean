import ReactiveView.Markup.Lexeme
import ReactiveView.Markup.Entity
import ReactiveView.Markup.Node
import ReactiveView.Failure
/-!
# Reading markup

Reading goes through tag events. Between tags, every lexeme is text, and a run of them becomes
one text node with its character references decoded; comments and declarations end a run and
are dropped. A start tag is read up to its `>` or `/>`: its words are attributes, each with an
optional `=` and value (quoted or a word), and every other lexeme inside it is passed over. An
end tag takes the blanks after its name and one `>` if that follows.

The events then build the tree: a start tag opens an element unless it closed itself or names a
void element; an end tag closes the innermost open element when the names agree up to ASCII
case. An end tag that matches no open element is unexpected; one that matches an element below
the innermost, or the end of the text with elements open, leaves the innermost unclosed.
-/
namespace ReactiveView.Markup

/-- What the lexemes of a markup text say, in order. -/
inductive Event where
  /-- A run of text, references decoded. -/
  | text (content : String)
  /-- A start tag with its attributes, and whether it ended with `/>`. -/
  | start (tag : String) (attributes : List Attribute) (selfClosed : Bool)
  /-- An end tag and the byte offset of its `</`. -/
  | finish (tag : String) (offset : Nat)
  /-- A start tag that the end of the text cut off. -/
  | cutOff (tag : String)
  deriving Repr

/-- Whether a lexeme begins a tag, a comment or a declaration, ending a run of text. -/
def breaksText (l : Lexeme) : Bool :=
  match l.kind with
  | .startTagOpen | .endTagOpen | .comment | .declaration => true
  | _ => false

/-- Drop the blank lexemes at the front. -/
def dropBlanks (ls : List Lexeme) : List Lexeme := ls.dropWhile (·.kind == .blank)

theorem dropBlanks_length_le (ls : List Lexeme) : (dropBlanks ls).length ≤ ls.length :=
  (List.dropWhile_suffix _).length_le

/-- The value of an attribute after its `=`: a quoted string without its quotes, or a word,
with references decoded; anything else gives an empty value and is left in place. -/
def attributeValue (ls : List Lexeme) : String × { r : List Lexeme // r.length ≤ ls.length } :=
  match ls with
  | l :: rest =>
    match l.kind with
    | .doubleQuoted | .singleQuoted =>
      let inner := (l.text.toList.drop 1).dropLast
      (decodeEntities (String.ofList inner), ⟨rest, by simp⟩)
    | .word => (decodeEntities l.text, ⟨rest, by simp⟩)
    | _ => ("", ⟨l :: rest, Nat.le_refl _⟩)
  | [] => ("", ⟨[], Nat.le_refl _⟩)

/-- An attribute named by a word, with what follows its name. Without an `=` after the blanks,
the value is empty and the blanks stay in place. -/
def readAttribute (name : String) (ls : List Lexeme) :
    Attribute × { r : List Lexeme // r.length ≤ ls.length } :=
  match h : dropBlanks ls with
  | l :: rest =>
    if l.kind == .equals then
      let (value, ⟨r, hr⟩) := attributeValue (dropBlanks rest)
      have h1 := dropBlanks_length_le rest
      have h2 := dropBlanks_length_le ls
      have h3 : (l :: rest).length ≤ ls.length := h ▸ h2
      (⟨name, value⟩, ⟨r, by simp only [List.length_cons] at h3; omega⟩)
    else (⟨name, ""⟩, ⟨ls, Nat.le_refl _⟩)
  | [] => (⟨name, ""⟩, ⟨ls, Nat.le_refl _⟩)

/-- The inside of a start tag after its name: the attributes, how the tag ended (`none` when the
text ended first), and what follows. -/
def readTag (ls : List Lexeme) (acc : List Attribute) :
    List Attribute × Option Bool × { r : List Lexeme // r.length ≤ ls.length } :=
  match ls with
  | [] => (acc.reverse, none, ⟨[], Nat.le_refl _⟩)
  | l :: rest =>
    match l.kind with
    | .tagClose => (acc.reverse, some false, ⟨rest, by simp⟩)
    | .selfClose => (acc.reverse, some true, ⟨rest, by simp⟩)
    | .word =>
      let (attr, ⟨r, hr⟩) := readAttribute l.text rest
      let (attrs, ending, ⟨r', hr'⟩) := readTag r (attr :: acc)
      (attrs, ending, ⟨r', by simp only [List.length_cons]; omega⟩)
    | _ =>
      let (attrs, ending, ⟨r', hr'⟩) := readTag rest acc
      (attrs, ending, ⟨r', by simp only [List.length_cons]; omega⟩)
termination_by ls.length
decreasing_by all_goals (simp only [List.length_cons]; omega)

/-- After the name of an end tag: one `>` is taken if it stands first. -/
def skipTagClose : List Lexeme → List Lexeme
  | m :: rest => if m.kind == .tagClose then rest else m :: rest
  | [] => []

theorem skipTagClose_length (ls : List Lexeme) : (skipTagClose ls).length ≤ ls.length := by
  cases ls with
  | nil => simp [skipTagClose]
  | cons m rest =>
    simp only [skipTagClose]
    split <;> simp

/-- The events of a list of lexemes. -/
def events (ls : List Lexeme) : List Event :=
  match ls with
  | [] => []
  | l :: rest =>
    match l.kind with
    | .startTagOpen =>
      let tag := String.ofList (l.text.toList.drop 1)
      let (attrs, ending, ⟨r, _hr⟩) := readTag rest []
      match ending with
      | some selfClosed => .start tag attrs selfClosed :: events r
      | none => [.cutOff tag]
    | .endTagOpen =>
      let tag := String.ofList (l.text.toList.drop 2)
      have _h1 := dropBlanks_length_le rest
      have _h2 := skipTagClose_length (dropBlanks rest)
      .finish tag l.offset :: events (skipTagClose (dropBlanks rest))
    | .comment | .declaration => events rest
    | _ =>
      let run := rest.takeWhile (!breaksText ·)
      let text := String.join ((l :: run).map (·.text))
      .text (decodeEntities text) :: events (rest.drop run.length)
termination_by ls.length
decreasing_by all_goals (simp only [List.length_cons, List.length_drop]; omega)

/-- An element still open while reading: its tag, attributes and the children read so far,
last first. -/
structure OpenElement where
  tag : String
  attributes : List Attribute
  children : List Node

/-- Add a finished node to the innermost open element, or to the roots. -/
def place (n : Node) : List OpenElement → List Node → List OpenElement × List Node
  | top :: below, roots => ({ top with children := n :: top.children } :: below, roots)
  | [], roots => ([], n :: roots)

/-- Build the roots of a document from events, with the open elements innermost first and the
roots read so far last first. -/
def build : List Event → List OpenElement → List Node → Except Failure (List Node)
  | [], [], roots => .ok roots.reverse
  | [], top :: _, _ => .error (.unclosedElement top.tag)
  | .text s :: rest, stack, roots =>
    let (stack, roots) := place (.text s) stack roots
    build rest stack roots
  | .start tag attrs selfClosed :: rest, stack, roots =>
    if selfClosed || isVoid tag then
      let (stack, roots) := place (.element tag attrs []) stack roots
      build rest stack roots
    else build rest (⟨tag, attrs, []⟩ :: stack) roots
  | .finish tag offset :: rest, stack, roots =>
    match stack with
    | top :: below =>
      if sameName top.tag tag then
        let (stack, roots) := place (.element top.tag top.attributes top.children.reverse) below roots
        build rest stack roots
      else if below.any (sameName ·.tag tag) then .error (.unclosedElement top.tag)
      else .error (.unexpectedClosingTag tag offset)
    | [] => .error (.unexpectedClosingTag tag offset)
  | .cutOff tag :: _, _, _ => .error (.unclosedElement tag)

/-- Read a markup text into a document. -/
def parse (source : String) : Except Failure Document :=
  (build (events (scan source)) [] []).map fun roots => ⟨roots⟩

end ReactiveView.Markup
