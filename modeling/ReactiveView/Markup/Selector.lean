import ReactiveView.Markup.Node
import ReactiveView.Text.Blank
import ReactiveView.Failure
/-!
# Selectors

A selector is an optional tag name followed by `#id` and `.class` parts, at most one of them an
id; every name is a non-empty run of ASCII letters, digits, `-` and `_`. Blanks around the whole
selector are ignored. An element matches when its tag equals the selector's tag up to ASCII
case, its first `id` attribute equals the id, and each class is one of the blank-separated
words of its first `class` attribute.

`Document.query` parses a selector and gives the path of the first matching element in
document order (each element before its children, children in order).
-/
namespace ReactiveView.Markup

/-- A compound selector. -/
structure Selector where
  tag : Option String
  id : Option String
  classes : List String
  deriving DecidableEq, Repr, Inhabited

/-- A character allowed in a selector name. -/
def isNameCharOfSelector (c : Char) : Bool := c.isAlphanum || c == '-' || c == '_'

/-- A non-empty run of name characters. -/
def isSelectorName (cs : List Char) : Bool := !cs.isEmpty && cs.all isNameCharOfSelector

/-- The characters that start an id or class part. -/
def isPartMark (c : Char) : Bool := c == '#' || c == '.'

/-- The id and class parts of a selector, each starting with its mark; `none` when a name is not
valid or a second id appears. -/
def readParts : List Char → Option String → List String → Option (Option String × List String)
  | [], id, classes => some (id, classes.reverse)
  | m :: rest, id, classes =>
    let name := rest.takeWhile (!isPartMark ·)
    if !isSelectorName name then none
    else if m == '#' then
      if id.isSome then none
      else readParts (rest.drop name.length) (some (String.ofList name)) classes
    else readParts (rest.drop name.length) id (String.ofList name :: classes)
termination_by cs => cs.length
decreasing_by all_goals (simp only [List.length_drop, List.length_cons]; omega)

namespace Selector

/-- Read a selector; the failure quotes the text as given. -/
def parse (source : String) : Except Failure Selector :=
  let cs := Text.trimChars source.toList
  let invalid : Except Failure Selector := .error (.invalidSelector source)
  if cs.isEmpty then invalid
  else
    let tagPart := cs.takeWhile (!isPartMark ·)
    let rest := cs.drop tagPart.length
    if !tagPart.isEmpty && !isSelectorName tagPart then invalid
    else
      match readParts rest none [] with
      | some (id, classes) =>
        .ok ⟨if tagPart.isEmpty then none else some (String.ofList tagPart), id, classes⟩
      | none => invalid

/-- Whether an element matches the selector; a text node matches nothing. -/
def accepts (sel : Selector) (n : Node) : Bool :=
  match n with
  | .text _ => false
  | .element tag _ _ =>
    (match sel.tag with
      | some t => sameName t tag
      | none => true) &&
    (match sel.id with
      | some i => n.attribute? "id" == some i
      | none => true) &&
    sel.classes.all fun c =>
      match n.attribute? "class" with
      | some cls => (Text.words cls).contains c
      | none => false

end Selector

mutual
/-- The first element at or below a node, itself at `path`, that matches. -/
def Node.find? (sel : Selector) (path : NodePath) : Node → Option NodePath
  | .text _ => none
  | .element tag attrs children =>
    if sel.accepts (.element tag attrs children) then some path
    else Node.findIn sel path children 0

/-- The first element in a list of siblings, the first at index `i` below `parent`, that
matches. -/
def Node.findIn (sel : Selector) (parent : NodePath) : List Node → Nat → Option NodePath
  | [], _ => none
  | n :: rest, i =>
    match Node.find? sel (parent ++ [i]) n with
    | some p => some p
    | none => Node.findIn sel parent rest (i + 1)
end

/-- The path of the first element of a document that a selector matches. -/
def Document.query (d : Document) (selector : String) : Except Failure (Option NodePath) :=
  (Selector.parse selector).map fun sel => Node.findIn sel [] d.roots 0

end ReactiveView.Markup
