import ReactiveView.Proofs.Markup.Tree
/-!
# A replacement touches one slot

`Document.replace` rebuilds the elements on the way down to the replaced node, each with its
other children where they were, and swaps the node itself. Read through `Document.get?`, that is
all it does:

* below the replaced path, every path reads the new node's subtree (`get?_replaceIn_append`);
* a path that is neither on the way to the replaced node nor below it reads what it read before
  (`get?_replaceIn_of_apart`). Only the paths on the way down, the ancestors, read rebuilt nodes.

`Document.replace_is_local` gathers these with the laws of `Tree`: a replacement succeeds exactly
where the path addresses a node and gives that node back; where the path addresses nothing it
gives no document, so the document stays as it was.
-/
namespace ReactiveView.Markup

set_option autoImplicit false

/-- Below the replaced path, a path reads the new node's subtree. -/
theorem get?_replaceIn_append (r : NodePath) :
    ∀ {p : NodePath} {nodes nodes' : List Node} {n old : Node},
      Document.replaceIn nodes p n = some (old, nodes') →
        (⟨nodes'⟩ : Document).get? (p ++ r) = n.descend r
  | [], _, _, _, _, replaced => by simp [Document.replaceIn] at replaced
  | [i], nodes, _, _, _, replaced => by
    obtain ⟨found, rfl⟩ := replaceIn_single.1 replaced
    have inside : i < nodes.length := (List.getElem?_eq_some_iff.1 found).1
    simp [Document.get?, List.getElem?_set_self inside]
  | i :: j :: rest, nodes, _, _, _, replaced => by
    obtain ⟨tag, attrs, cs, cs', found, below, rfl⟩ := replaceIn_below.1 replaced
    have inside : i < nodes.length := (List.getElem?_eq_some_iff.1 found).1
    simp only [List.cons_append, Document.get?, List.getElem?_set_self inside]
    rw [descend_element]
    exact get?_replaceIn_append r below

/-- A path outside the replaced subtree and off the way down to it reads as before. -/
theorem get?_replaceIn_of_apart :
    ∀ {p q : NodePath} {nodes nodes' : List Node} {n old : Node},
      Document.replaceIn nodes p n = some (old, nodes') → ¬ q <+: p → ¬ p <+: q →
        (⟨nodes'⟩ : Document).get? q = (⟨nodes⟩ : Document).get? q
  | [], _, _, _, _, _, replaced, _, _ => by simp [Document.replaceIn] at replaced
  | _ :: _, [], _, _, _, _, _, onWay, _ => absurd (List.nil_prefix) onWay
  | [i], k :: qs, nodes, _, _, _, replaced, _, below => by
    obtain ⟨-, rfl⟩ := replaceIn_single.1 replaced
    -- the path leaves the roots at another index than the replaced one
    have other : i ≠ k := fun same => below (by simp [same])
    simp [Document.get?, List.getElem?_set_ne other]
  | i :: j :: rest, k :: qs, nodes, _, _, _, replaced, onWay, below => by
    obtain ⟨tag, attrs, cs, cs', found, down, rfl⟩ := replaceIn_below.1 replaced
    by_cases same : i = k
    · subst same
      -- the path goes through the rebuilt element, and on below it apart from the rest
      cases qs with
      | nil => exact absurd (by simp) onWay
      | cons m qs =>
        have inside : i < nodes.length := (List.getElem?_eq_some_iff.1 found).1
        simp only [Document.get?, List.getElem?_set_self inside, found]
        rw [descend_element, descend_element]
        exact get?_replaceIn_of_apart down (fun pre => onWay (by simpa using pre))
          (fun pre => below (by simpa using pre))
    · simp [Document.get?, List.getElem?_set_ne same]

namespace Document

theorem get?_replace_append {d d' : Document} {p : NodePath} {n old : Node}
    (replaced : d.replace p n = some (old, d')) (r : NodePath) : d'.get? (p ++ r) = n.descend r := by
  obtain ⟨⟨old', roots⟩, below, same⟩ := Option.map_eq_some_iff.1 replaced
  simp only [Prod.mk.injEq] at same
  obtain ⟨rfl, rfl⟩ := same
  exact get?_replaceIn_append r below

theorem get?_replace_of_apart {d d' : Document} {p q : NodePath} {n old : Node}
    (replaced : d.replace p n = some (old, d')) (onWay : ¬ q <+: p) (below : ¬ p <+: q) :
    d'.get? q = d.get? q := by
  obtain ⟨⟨old', roots⟩, down, same⟩ := Option.map_eq_some_iff.1 replaced
  simp only [Prod.mk.injEq] at same
  obtain ⟨rfl, rfl⟩ := same
  exact get?_replaceIn_of_apart down onWay below

/-- A replacement fails exactly where the path addresses nothing. -/
theorem replace_eq_none_iff {d : Document} {p : NodePath} {n : Node} :
    d.replace p n = none ↔ d.get? p = none := by
  constructor
  · intro failed
    cases found : d.get? p with
    | none => rfl
    | some old =>
      obtain ⟨d', replaced⟩ := replace_of_get? n found
      simp [replaced] at failed
  · intro missing
    cases replaced : d.replace p n with
    | none => rfl
    | some r =>
      have found : d.get? p = some r.1 := get?_of_replace replaced
      rw [found] at missing
      cases missing

/-- Replacing the node at a path succeeds exactly when the path addresses a node, gives that
node back, puts the new node's whole subtree at the path and leaves every path that is neither
on the way to it nor below it as it was; when the path addresses nothing it fails and gives no
document. -/
theorem replace_is_local (d : Document) (p : NodePath) (n : Node) :
    (∀ old, (∃ d', d.replace p n = some (old, d')) ↔ d.get? p = some old) ∧
    (d.replace p n = none ↔ d.get? p = none) ∧
    ∀ old d', d.replace p n = some (old, d') →
      d'.get? p = some n ∧ (∀ r, d'.get? (p ++ r) = n.descend r) ∧
        ∀ q, ¬ q <+: p → ¬ p <+: q → d'.get? q = d.get? q := by
  refine ⟨fun old => ⟨fun found => found.elim fun _ replaced => get?_of_replace replaced,
      replace_of_get? n⟩,
    replace_eq_none_iff, fun old d' replaced => ⟨get?_replace replaced, ?_, ?_⟩⟩
  · exact get?_replace_append replaced
  · exact fun q onWay below => get?_replace_of_apart replaced onWay below

end Document

end ReactiveView.Markup
