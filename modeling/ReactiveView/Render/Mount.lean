import ReactiveView.Markup.Selector
import ReactiveView.Render.Options
/-!
# Mounting a fragment

The target of a mount is the first element that the selector matches. Replacing puts the
fragment in the target's place; appending keeps the target's tag and attributes and gives it the
fragment's children, or the fragment itself when it is a text node. The fragment is written
first, and then the selector is resolved again in the written document: the answer is the path
of the first match there. So a mount that fails at that last step has already written the
fragment (`mountIn` gives the document as the mount leaves it).
-/
namespace ReactiveView.Markup

/-- What appending a fragment puts inside the target: an element's children, or a text node
itself. -/
def Node.appended : Node → List Node
  | .element _ _ children => children
  | .text s => [.text s]

end ReactiveView.Markup

namespace ReactiveView.Render

open Markup

/-- The path of the first element a selector matches. -/
def resolveTarget (d : Document) (selector : String) : Except Failure NodePath := do
  match ← d.query selector with
  | some p => .ok p
  | none => .error (.invalidMountTarget selector)

/-- Write a fragment at a path by a strategy: the written document, or `none` when the path
addresses no node (when appending, no element), which leaves the document as it was. -/
def place (d : Document) (target : NodePath) (fragment : Node) : Strategy → Option Document
  | .replace => (d.replace target fragment).map (·.2)
  | .append =>
    match d.get? target with
    | some (.element tag attrs _) => (d.replace target (.element tag attrs fragment.appended)).map (·.2)
    | _ => none

/-- Mount a fragment at the target of a selector: the document as the mount leaves it, with the
path of the first match in it or the failure. -/
def mountIn (d : Document) (selector : String) (fragment : Node) (strategy : Strategy) :
    Document × Except Failure NodePath :=
  match resolveTarget d selector with
  | .error e => (d, .error e)
  | .ok target =>
    match place d target fragment strategy with
    | some d' => (d', resolveTarget d' selector)
    | none => (d, .error (.invalidMountTarget selector))

/-- Mount a fragment at the target of a selector: the new document and the target's path in it. -/
def mount (d : Document) (selector : String) (fragment : Node) (strategy : Strategy) :
    Except Failure (Document × NodePath) :=
  match mountIn d selector fragment strategy with
  | (d', .ok p) => .ok (d', p)
  | (_, .error e) => .error e

end ReactiveView.Render
