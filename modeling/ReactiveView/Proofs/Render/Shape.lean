import ReactiveView.Render.Compile
/-!
# Compiling keeps the template's shape

`compileNode` copies a template tree: an element keeps its tag and its attributes in order and
has its children compiled one by one (`compileNodes_eq_map`), and a text node stays a text node
with its placeholders filled. So following a path in the compiled tree is following it in the
template and compiling what stands there (`descend_compileNode`). This one equation gives the
whole shape at once: the compiled tree has a node at exactly the template's paths, an element
where the template has one, with the same tag, attributes and number of children, and a text
node where the template has one, holding the compiled text.

A text is compiled from its segments: literals as they are, each placeholder as the text of the
value its path resolves to from the data, or as the missing-value policy says when that is
`undefined` (`fillSegment`). A template none of whose texts has a placeholder
compiles to itself (`compileNode_of_plain`).

`compileNode_keeps_shape` gathers these.
-/
namespace ReactiveView.Markup

/-- No text of the tree has a placeholder. -/
def Node.Plain (t : Node) : Prop :=
  ∀ r s, t.descend r = some (.text s) → Template.parse? s = none

theorem Node.Plain.child {tag : String} {attrs : List Attribute} {cs : List Node} {i : Nat}
    {c : Node} (plain : (Node.element tag attrs cs).Plain) (at_ : cs[i]? = some c) : c.Plain := by
  intro r s found
  apply plain (i :: r) s
  rw [Node.descend, at_]
  exact found

end ReactiveView.Markup

namespace ReactiveView.Render

open Markup Store

set_option autoImplicit false

variable {ρ : Type} (h : Heap ρ) (data : Nat) (missing : Missing)

/-- The text a segment of a template text is filled with: a literal as it is; a placeholder as
the text of the value its path resolves to from the data object, or, when that is `undefined`,
as `undefined` or nothing, whichever the policy asks. -/
def fillSegment : Template.Segment → String
  | .literal s => s
  | .placeholder path _ =>
    if h.resolve (.object data) path = .undefined then
      (if missing = .undefined then "undefined" else "")
    else h.display (h.resolve (.object data) path)

/-- A text with placeholders compiles to the concatenation of its filled segments. -/
theorem compileText_of_parse? {s : String} {segs : List Template.Segment}
    (parsed : Template.parse? s = some segs) :
    compileText h data missing s = String.join (segs.map (fillSegment h data missing)) := by
  simp only [compileText, parsed]
  congr 1
  refine List.map_congr_left fun seg _ => ?_
  cases seg <;> simp [fillSegment]

/-- A text without placeholders is kept as it is. -/
theorem compileText_of_plain {s : String} (plain : Template.parse? s = none) :
    compileText h data missing s = s := by
  simp only [compileText, plain]

/-- Template nodes are compiled one by one. -/
theorem compileNodes_eq_map (nodes : List Node) :
    compileNodes h data missing nodes = nodes.map (compileNode h data missing) := by
  induction nodes with
  | nil => rw [compileNodes, List.map_nil]
  | cons n rest ih => rw [compileNodes, ih, List.map_cons]

/-- Following a path in the compiled tree is following it in the template and compiling the
node found there. -/
theorem descend_compileNode :
    ∀ (t : Node) (r : NodePath),
      (compileNode h data missing t).descend r = (t.descend r).map (compileNode h data missing)
  | _, [] => rfl
  | .text _, _ :: _ => rfl
  | .element tag attrs cs, i :: rest => by
    rw [compileNode, Node.descend, Node.descend, compileNodes_eq_map, List.getElem?_map]
    cases cs[i]? with
    | none => rfl
    | some c => exact descend_compileNode c rest

mutual
/-- A template none of whose texts has a placeholder compiles to itself. -/
theorem compileNode_of_plain : ∀ t : Node, t.Plain → compileNode h data missing t = t
  | .text s, plain => by
    rw [compileNode, compileText_of_plain h data missing (plain [] s rfl)]
  | .element tag attrs cs, plain => by
    rw [compileNode, compileNodes_of_plain cs fun i c at_ => plain.child at_]

/-- Plain template nodes compile to themselves. -/
theorem compileNodes_of_plain :
    ∀ cs : List Node, (∀ (i : Nat) (c : Node), cs[i]? = some c → c.Plain) → compileNodes h data missing cs = cs
  | [], _ => by rw [compileNodes]
  | c :: rest, plain => by
    rw [compileNodes, compileNode_of_plain c (plain 0 c rfl),
      compileNodes_of_plain rest fun i c' at_ => plain (i + 1) c' at_]
end

/-- Compiling copies the template's tree: where the template has no node neither has the
result; an element becomes an element with the same tag, the same attributes and as many
children; a text node becomes a text node holding the compiled text. A text without placeholders
compiles to itself, and one with placeholders to the concatenation of its segments, each
placeholder filled from the data by the missing-value policy; so a template without placeholders
compiles to itself. -/
theorem compileNode_keeps_shape (t : Node) :
    (∀ r, t.descend r = none → (compileNode h data missing t).descend r = none) ∧
    (∀ r tag attrs cs, t.descend r = some (.element tag attrs cs) →
      ∃ cs', (compileNode h data missing t).descend r = some (.element tag attrs cs') ∧
        cs'.length = cs.length) ∧
    (∀ r s, t.descend r = some (.text s) →
      (compileNode h data missing t).descend r = some (.text (compileText h data missing s))) ∧
    (∀ s, Template.parse? s = none → compileText h data missing s = s) ∧
    (∀ s segs, Template.parse? s = some segs →
      compileText h data missing s = String.join (segs.map (fillSegment h data missing))) ∧
    (t.Plain → compileNode h data missing t = t) := by
  refine ⟨fun r missing_ => ?_, fun r tag attrs cs found => ?_, fun r s found => ?_,
    fun s plain => compileText_of_plain h data missing plain,
    fun s segs parsed => compileText_of_parse? h data missing parsed, compileNode_of_plain h data missing t⟩
  · rw [descend_compileNode, missing_, Option.map_none]
  · refine ⟨compileNodes h data missing cs, ?_, ?_⟩
    · rw [descend_compileNode, found, Option.map_some, compileNode]
    · rw [compileNodes_eq_map, List.length_map]
  · rw [descend_compileNode, found, Option.map_some, compileNode]

end ReactiveView.Render
