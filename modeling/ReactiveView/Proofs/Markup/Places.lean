import ReactiveView.Proofs.Markup.Tree
/-!
# Places: the walk of a mutable reference

`Document.get?` reads a path by descending from a root, and `Document.getMut?` walks it one
`Place.enter` step per index, carrying with the node the document that writing in its place
gives. The two are separate traversals, and each stops on its own at a missing index or at a
text node with indices left; they agree on every path:

* the walk reads what `get?` reads, so each gives nothing exactly when the other does
  (`Place.foldlM_enter_node`);
* writing through the place is `Document.replace` at the same path (`Document.getMut?_fill`),
  so a reference and a replacement address the same slot.

`Document.getMut?_addresses_get?` states both.
-/
namespace ReactiveView.Markup

set_option autoImplicit false

namespace Document.Place

/-- A walk from a place reads the node that the rest of the path addresses below it. -/
theorem foldlM_enter_node : ∀ (rest : NodePath) (f : Place),
    (rest.foldlM enter f).map node = f.node.descend rest
  | [], f => by simp [Node.descend]
  | i :: rest, ⟨.text s, fill⟩ => by simp [enter, Node.descend]
  | i :: rest, ⟨.element tag attrs cs, fill⟩ => by
    -- one step enters the child at `i`, or ends where `descend` ends
    cases found : cs[i]? with
    | none => simp [enter, Node.descend, found]
    | some c =>
      simp only [List.foldlM_cons, enter, found, Option.map_some, Node.descend]
      exact foldlM_enter_node rest _

/-- A walk that starts at index `i` of a list of siblings, each written back by `plug`, writes
where `replaceIn` writes and gives back the node it finds there. -/
theorem walk_fill (n : Node) : ∀ (rest : NodePath) (nodes : List Node)
    (plug : List Node → Document) (i : Nat),
    (nodes[i]? >>= fun c => rest.foldlM enter ⟨c, fun m => plug (nodes.set i m)⟩).map
        (fun f => (f.node, f.fill n)) =
      (replaceIn nodes (i :: rest) n).map fun r => (r.1, plug r.2)
  | [], nodes, plug, i => by
    cases found : nodes[i]? <;> simp [replaceIn, swapAt, found]
  | j :: rest, nodes, plug, i => by
    cases found : nodes[i]? with
    | none => simp [replaceIn, found]
    | some c =>
      cases c with
      | text s => simp [replaceIn, found, enter]
      | element tag attrs cs =>
        -- below the element the walk goes on in its children, each written back into it
        have below := walk_fill n rest cs (fun cs' => plug (nodes.set i (.element tag attrs cs'))) j
        simp only [Option.bind_eq_bind, Option.bind_some, List.foldlM_cons, enter] at below ⊢
        rw [replaceIn.eq_3, found]
        cases inner : replaceIn cs (j :: rest) n <;>
          cases child : cs[j]? <;> simp_all

end Document.Place

namespace Document

/-- Writing a node through the place a path leads to is replacing the node at that path. -/
theorem getMut?_fill (d : Document) (p : NodePath) (n : Node) :
    (d.getMut? p).map (fun f => (f.node, f.fill n)) = d.replace p n := by
  cases p with
  | nil => simp [getMut?, replace, replaceIn]
  | cons i rest =>
    have walked := Place.walk_fill n rest d.roots Document.mk i
    simp only [Option.bind_eq_bind] at walked
    simp only [getMut?, replace, Option.bind_eq_bind]
    rw [walked]

/-- A mutable reference and a read address the same node: the walk to the place a path leads to
finds the node that `get?` reads, each giving nothing exactly when the other does, and writing
through that place replaces the node at the path. -/
theorem getMut?_addresses_get? (d : Document) (p : NodePath) :
    (d.getMut? p).map Place.node = d.get? p ∧
      ∀ n, (d.getMut? p).map (fun f => (f.node, f.fill n)) = d.replace p n := by
  refine ⟨?_, getMut?_fill d p⟩
  cases p with
  | nil => rfl
  | cons i rest =>
    cases found : d.roots[i]? with
    | none => simp [getMut?, get?, found]
    | some root =>
      simp only [getMut?, get?, found, Option.bind_eq_bind, Option.bind_some]
      exact Place.foldlM_enter_node rest _

end Document

end ReactiveView.Markup
