/-!
# Markup trees

A document is a list of root nodes; a node is an element, with a tag, attributes in the order
they were written and child nodes, or a run of text. A node is addressed by a path: the index
of a root, then the index of a child at each level below it.

`Document.get?` follows a path, `Document.getMut?` walks it to a place that can be written,
`Document.replace` puts a node in place of the one a path addresses and gives back the old one,
and `Node.textContent` joins the text of a subtree. The void elements (`br`, `img`, …) are the
tags that never have content.
-/
namespace ReactiveView.Markup

/-- A name and a value written inside a start tag; an empty value was written as a bare name. -/
structure Attribute where
  name : String
  value : String
  deriving DecidableEq, Repr, Inhabited

/-- A node of a markup tree. -/
inductive Node where
  | element (tag : String) (attributes : List Attribute) (children : List Node)
  | text (content : String)
  deriving Repr, Inhabited

/-- A path of child indices from the roots of a document. -/
abbrev NodePath := List Nat

/-- Two names that differ at most in the case of ASCII letters. -/
def sameName (a b : String) : Bool := a.toLower == b.toLower

/-- The tags of elements that never have content. -/
def voidTags : List String :=
  ["area", "base", "br", "col", "embed", "hr", "img", "input", "link", "meta", "param", "source",
    "track", "wbr"]

/-- Whether a tag names a void element, in any case of its letters. -/
def isVoid (tag : String) : Bool := voidTags.any (sameName · tag)

namespace Node

mutual
/-- The text of a node and everything below it, in document order. -/
def textContent : Node → String
  | .text s => s
  | .element _ _ children => textContentList children

/-- The text of a list of nodes. -/
def textContentList : List Node → String
  | [] => ""
  | n :: rest => textContent n ++ textContentList rest
end

/-- The children of an element; a text node has none. -/
def children : Node → List Node
  | .element _ _ cs => cs
  | .text _ => []

/-- The tag of an element. -/
def tag? : Node → Option String
  | .element t _ _ => some t
  | .text _ => none

/-- The content of a text node. -/
def text? : Node → Option String
  | .text s => some s
  | .element _ _ _ => none

/-- The value of the first attribute whose name matches, in any case of its letters. -/
def attribute? (n : Node) (name : String) : Option String :=
  match n with
  | .element _ attrs _ => (attrs.find? fun a => sameName a.name name).map (·.value)
  | .text _ => none

/-- The node reached from this one by following child indices. -/
def descend : Node → NodePath → Option Node
  | n, [] => some n
  | .element _ _ cs, i :: rest =>
    match cs[i]? with
    | some c => descend c rest
    | none => none
  | .text _, _ :: _ => none

end Node

/-- A parsed document: its root nodes in order. -/
structure Document where
  roots : List Node
  deriving Repr, Inhabited

namespace Document

/-- The node a path addresses; the empty path addresses nothing. -/
def get? (d : Document) : NodePath → Option Node
  | [] => none
  | i :: rest =>
    match d.roots[i]? with
    | some n => n.descend rest
    | none => none

/-- A node of a document as a mutable reference gives it: the node, and the document that
writing `n` through the reference leaves (`fill n`). -/
structure Place where
  node : Node
  fill : Node → Document

/-- One step down from a place: into the child at `index` of an element. A text node has no
children, and the walk ends there with nothing. -/
def Place.enter (f : Place) (index : Nat) : Option Place :=
  match f.node with
  | .element tag attrs children =>
    children[index]?.map fun c => ⟨c, fun n => f.fill (.element tag attrs (children.set index n))⟩
  | .text _ => none

/-- The node a path addresses, as a place to write: the root at the first index, then one step
per further index. This is the walk a mutable reference takes; `get?` reads the same path. -/
def getMut? (d : Document) : NodePath → Option Place
  | [] => none
  | first :: rest => do
    let root ← d.roots[first]?
    rest.foldlM Place.enter ⟨root, fun n => ⟨d.roots.set first n⟩⟩

/-- The node at index `i` of a list replaced by `n`, with the node that stood there. -/
def swapAt (nodes : List Node) (i : Nat) (n : Node) : Option (Node × List Node) :=
  match nodes[i]? with
  | some old => some (old, nodes.set i n)
  | none => none

/-- Replace the node a path addresses inside a list of siblings: the old node and the new
list. The path must be non-empty and pass through elements only. -/
def replaceIn : List Node → NodePath → Node → Option (Node × List Node)
  | _, [], _ => none
  | nodes, [i], n => swapAt nodes i n
  | nodes, i :: j :: rest, n =>
    match nodes[i]? with
    | some (.element t a cs) =>
      match replaceIn cs (j :: rest) n with
      | some (old, cs') => some (old, nodes.set i (.element t a cs'))
      | none => none
    | _ => none

/-- Put `n` in place of the node a path addresses: the node that stood there and the new
document, or `none` when the path addresses nothing. -/
def replace (d : Document) (path : NodePath) (n : Node) : Option (Node × Document) :=
  (replaceIn d.roots path n).map fun (old, roots) => (old, ⟨roots⟩)

end Document

/-- A path split into the path of its parent and its last index. -/
def splitLast? (path : NodePath) : Option (NodePath × Nat) :=
  match path.getLast? with
  | some last => some (path.dropLast, last)
  | none => none

end ReactiveView.Markup
