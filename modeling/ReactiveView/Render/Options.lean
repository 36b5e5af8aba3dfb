/-!
# Render options

How a placeholder whose path gives `undefined` is written, and how a rendered fragment is put
into the document.
-/
namespace ReactiveView.Render

/-- What an unresolved placeholder becomes. -/
inductive Missing where
  /-- Nothing. -/
  | empty
  /-- The word `undefined`. -/
  | undefined
  deriving DecidableEq, Repr, Inhabited

/-- How a fragment is mounted at its target. -/
inductive Strategy where
  /-- The fragment takes the target's place. -/
  | replace
  /-- The target keeps its tag and attributes and takes the fragment's content. -/
  | append
  deriving DecidableEq, Repr, Inhabited

/-- The options of a render. -/
structure Options where
  missing : Missing := .empty
  strategy : Strategy := .replace
  deriving DecidableEq, Repr, Inhabited

/-- The name of a missing-value policy. -/
def Missing.name : Missing → String
  | .empty => "empty"
  | .undefined => "undefined"

/-- The name of a mount strategy. -/
def Strategy.name : Strategy → String
  | .replace => "replace"
  | .append => "append"

end ReactiveView.Render
