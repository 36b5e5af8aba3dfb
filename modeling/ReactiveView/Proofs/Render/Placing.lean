import ReactiveView.Markup.Render
import ReactiveView.Proofs.Render.Mounting
/-!
# What a mount does

A mount looks up the first element its selector matches, writes the fragment there, and then
looks the selector up again in the written document; the answer is that second lookup. When the
first lookup fails (the selector does not read, or nothing matches) the document is left as it
was. Otherwise the first match is an element, the write always succeeds, and the answer is the
first match of the written document: the same path exactly when the node now standing there
matches, which is always so when appending (the element keeps its tag and attributes) and, when
replacing, exactly when the fragment matches. A fragment that does not match moves the answer to
a match further on, or to a failure that comes after the write (`mountIn_writes_then_finds`).
-/
namespace ReactiveView.Markup

set_option autoImplicit false

/-! ## A search finds nodes -/

section Search

variable (sel : Selector)

mutual
/-- What a search finds below a node is a node of it. -/
theorem find?_addresses : ∀ (path : NodePath) (node : Node) {q : NodePath},
    Node.find? sel path node = some q → ∃ r x, q = path ++ r ∧ node.descend r = some x
  | _, .text _, _, found => by simp [Node.find?] at found
  | path, .element tag attrs children, q, found => by
    rw [Node.find?.eq_2] at found
    split at found
    · cases found
      exact ⟨[], _, by simp, rfl⟩
    · obtain ⟨i, r, x, rfl, below⟩ := findIn_addresses path children 0 found
      exact ⟨i :: r, x, by simp, by rwa [descend_element]⟩

/-- What a search finds among siblings is a node below one of them. -/
theorem findIn_addresses : ∀ (parent : NodePath) (nodes : List Node) (k : Nat) {q : NodePath},
    Node.findIn sel parent nodes k = some q →
      ∃ i r x, q = parent ++ (k + i) :: r ∧ (⟨nodes⟩ : Document).get? (i :: r) = some x
  | _, [], _, _, found => by simp [Node.findIn] at found
  | parent, n :: rest, k, q, found => by
    rw [Node.findIn.eq_2] at found
    split at found
    next p here =>
      cases found
      obtain ⟨r, x, rfl, below⟩ := find?_addresses (parent ++ [k]) n here
      exact ⟨0, r, x, by simp, by simpa [Document.get?] using below⟩
    next =>
      obtain ⟨i, r, x, rfl, below⟩ := findIn_addresses parent rest (k + 1) found
      exact ⟨i + 1, r, x, by simp [Nat.add_assoc, Nat.add_comm 1 i],
        by simpa [Document.get?] using below⟩
end

end Search

/-- The first match of a selector in a document is an element of it. -/
theorem Document.element_of_first {sel : Selector} {d : Document} {p : NodePath}
    (first : Node.findIn sel [] d.roots 0 = some p) :
    ∃ tag attrs children, d.get? p = some (.element tag attrs children) := by
  obtain ⟨i, r, x, rfl, found⟩ := findIn_addresses sel [] d.roots 0 first
  have at_ : d.get? ([] ++ (0 + i) :: r) = some x := by simpa using found
  -- it matches, and text matches nothing
  cases x with
  | text s =>
    have fits := Document.accepts_of_first first at_
    simp [Selector.accepts] at fits
  | element tag attrs children => exact ⟨tag, attrs, children, at_⟩

end ReactiveView.Markup

namespace ReactiveView.Render

open Markup

set_option autoImplicit false

/-- A selector reads, and accepts the node. -/
def Matches (selector : String) (n : Node) : Prop :=
  ∃ sel, Selector.parse selector = .ok sel ∧ sel.accepts n = true

/-- The node a strategy leaves in place of the element `tag attrs`: the fragment itself, or the
element with the fragment's content. -/
def Strategy.written (strategy : Strategy) (tag : String) (attrs : List Attribute)
    (fragment : Node) : Node :=
  match strategy with
  | .replace => fragment
  | .append => .element tag attrs fragment.appended

/-- Writing at an element puts the node the strategy makes in its place. -/
theorem place_of_element {d d' : Document} {p : NodePath} {tag : String}
    {attrs : List Attribute} {children : List Node} (fragment : Node) (strategy : Strategy)
    (at_ : d.get? p = some (.element tag attrs children))
    (replaced : d.replace p (strategy.written tag attrs fragment) =
      some (.element tag attrs children, d')) :
    place d p fragment strategy = some d' := by
  simp only [Strategy.written] at replaced
  cases strategy with
  | replace => simp [place, replaced]
  | append => simp [place, at_, replaced]

/-- A selector that reads gives the same selector each time. -/
theorem parse_unique {selector : String} {sel sel' : Selector}
    (parsed : Selector.parse selector = .ok sel) (parsed' : Selector.parse selector = .ok sel') :
    sel' = sel := by
  rw [parsed] at parsed'
  cases parsed'
  rfl

/-- The node a strategy leaves at the first match keeps the match there exactly when it
matches; appending always keeps the target's tag and attributes. -/
theorem written_accepts_iff {sel : Selector} {selector : String} {tag : String}
    {attrs : List Attribute} {children : List Node} (parsed : Selector.parse selector = .ok sel)
    (fits : sel.accepts (.element tag attrs children) = true) (fragment : Node)
    (strategy : Strategy) :
    sel.accepts (strategy.written tag attrs fragment) = true ↔
      strategy = .append ∨ Matches selector fragment := by
  cases strategy with
  | append =>
    have same : (Node.element tag attrs fragment.appended).SameElement
        (.element tag attrs children) := ⟨rfl, rfl⟩
    simp only [Strategy.written, sel.accepts_sameElement same, fits, true_or]
  | replace =>
    simp only [Strategy.written, reduceCtorEq, false_or]
    constructor
    · intro fragmentFits
      exact ⟨sel, parsed, fragmentFits⟩
    · rintro ⟨sel', parsed', fragmentFits⟩
      rwa [← parse_unique parsed parsed']

/-- What a mount does. When the selector does not read or matches nothing, it fails with the
document as it was. Otherwise its first match `p` is an element, the fragment is written there
by the strategy (in its place, or as the element's content), and the answer is the selector's
first match in the written document, which is `p` exactly when the strategy appends or the
fragment matches. -/
theorem mountIn_writes_then_finds (d : Document) (selector : String) (fragment : Node)
    (strategy : Strategy) :
    match resolveTarget d selector with
    | .error e => mountIn d selector fragment strategy = (d, .error e)
    | .ok p => ∃ tag attrs children d',
        d.get? p = some (.element tag attrs children) ∧
        d.replace p (strategy.written tag attrs fragment) =
          some (.element tag attrs children, d') ∧
        mountIn d selector fragment strategy = (d', resolveTarget d' selector) ∧
        (resolveTarget d' selector = .ok p ↔ strategy = .append ∨ Matches selector fragment) := by
  split
  next e failed => simp [mountIn, failed]
  next p target =>
    obtain ⟨sel, parsed, first⟩ := resolveTarget_eq_ok.1 target
    obtain ⟨tag, attrs, children, at_⟩ := Document.element_of_first first
    obtain ⟨d', replaced⟩ := Document.replace_of_get? (strategy.written tag attrs fragment) at_
    have placed := place_of_element fragment strategy at_ replaced
    refine ⟨tag, attrs, children, d', at_, replaced, by simp [mountIn, target, placed], ?_⟩
    have fits := Document.accepts_of_first first at_
    rw [← written_accepts_iff parsed fits fragment strategy]
    constructor
    · -- the second lookup found `p`, so the node written there matches
      intro again
      obtain ⟨sel', parsed', first'⟩ := resolveTarget_eq_ok.1 again
      rw [parse_unique parsed parsed'] at first'
      exact Document.accepts_of_first first' (Document.get?_replace replaced)
    · -- nothing before `p` changed, and the node at `p` matches
      intro writtenFits
      exact resolveTarget_eq_ok.2 ⟨sel, parsed, Document.first_replace first writtenFits replaced⟩

/-- Replacing the element of id `app` by a text node writes the text, and then the target is
not found again. -/
example :
    let m := mountIn ⟨[.element "div" [⟨"id", "app"⟩] []]⟩ "#app" (.text "x") .replace
    m.1.render = "x" ∧ m.2.toOption = none := by
  decide +kernel

/-- An answer that reads as some value is that value. -/
theorem eq_ok_of_toOption {ε α : Type} {r : Except ε α} {a : α}
    (read : r.toOption = some a) : r = .ok a := by
  cases r with
  | error e => simp [Except.toOption] at read
  | ok b => simpa [Except.toOption] using read

/-- Replacing the first of two paragraphs of class `a` by a `span` answers with the second
paragraph, not with the place written to. -/
theorem mount_finds_a_later_match :
    let d : Document := ⟨[.element "p" [⟨"class", "a"⟩] [], .element "p" [⟨"class", "a"⟩] []]⟩
    resolveTarget d ".a" = .ok [0] ∧
      mount d ".a" (.element "span" [] []) .replace =
        .ok (⟨[.element "span" [] [], .element "p" [⟨"class", "a"⟩] []]⟩, [1]) := by
  intro d
  have first : resolveTarget d ".a" = .ok [0] := eq_ok_of_toOption (by decide +kernel)
  have again : resolveTarget ⟨[.element "span" [] [], .element "p" [⟨"class", "a"⟩] []]⟩ ".a" =
      .ok [1] := eq_ok_of_toOption (by decide +kernel)
  refine ⟨first, ?_⟩
  have placed : place d [0] (.element "span" [] []) .replace =
      some ⟨[.element "span" [] [], .element "p" [⟨"class", "a"⟩] []]⟩ := rfl
  simp only [mount, mountIn, first, placed, again]

end ReactiveView.Render
