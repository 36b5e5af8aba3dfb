import ReactiveView.Store.Show
import ReactiveView.Template.Segment
import ReactiveView.Markup.Node
import ReactiveView.Render.Options
/-!
# Filling a template

Compiling copies a template tree and fills the placeholders of its text nodes from a data
object; tags, attributes and the shape of the tree stay as they are. A text without
placeholders is kept unchanged. A placeholder's path is resolved from the data object; a value
that is `undefined` is written as the missing-value policy says, any other value as its text.
-/
namespace ReactiveView.Render

open Markup Store

variable {ρ : Type}

/-- Fill the placeholders of a text from a data object. -/
def compileText (h : Heap ρ) (data : Nat) (missing : Missing) (text : String) : String :=
  match Template.parse? text with
  | none => text
  | some segments =>
    String.join (segments.map fun
      | .literal s => s
      | .placeholder path _ =>
        let v := h.resolve (.object data) path
        if v == .undefined then (if missing == .undefined then "undefined" else "")
        else h.display v)

mutual
/-- A template node with its placeholders filled. -/
def compileNode (h : Heap ρ) (data : Nat) (missing : Missing) : Node → Node
  | .text s => .text (compileText h data missing s)
  | .element tag attrs children => .element tag attrs (compileNodes h data missing children)

/-- Template nodes with their placeholders filled. -/
def compileNodes (h : Heap ρ) (data : Nat) (missing : Missing) : List Node → List Node
  | [] => []
  | n :: rest => compileNode h data missing n :: compileNodes h data missing rest
end

end ReactiveView.Render
