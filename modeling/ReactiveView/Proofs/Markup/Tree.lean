import ReactiveView.Markup.Selector
/-!
# Replacing a node of a markup tree

`Document.replace` puts a node at a path and gives back the node that stood there; mounting a
rendered fragment is such a replacement at the first element a selector matches. The laws of a
replacement, read through `Document.get?`: the node given back stood at the path, the new node
stands there afterwards, a path that addresses a node can always have it replaced, and a second
replacement at the same path acts on the original as if the first had not happened.

The law that keeps mounting in place is `findIn_replaceIn`: replacing the first match of a
selector by another node that matches leaves the first match where it was, because the nodes
before it in document order are untouched and its ancestors keep their tags and attributes. A
selector reads an element's tag and attributes only, so an element with other children
(`Node.SameElement`) matches exactly when the first one does.
-/
namespace ReactiveView.Markup

set_option autoImplicit false

/-! ## Replacement -/

/-- Below an element, a path addresses the node its children list addresses. -/
theorem descend_element (tag : String) (attrs : List Attribute) (cs : List Node) (j : Nat)
    (rest : NodePath) :
    (Node.element tag attrs cs).descend (j :: rest) = (⟨cs⟩ : Document).get? (j :: rest) :=
  rfl

/-- A replacement at a last index swaps the sibling there. -/
theorem replaceIn_single {nodes nodes' : List Node} {i : Nat} {n old : Node} :
    Document.replaceIn nodes [i] n = some (old, nodes') ↔
      nodes[i]? = some old ∧ nodes' = nodes.set i n := by
  rw [Document.replaceIn.eq_2, Document.swapAt]
  split
  next old' found => simp [found, eq_comm]
  next missing => simp [missing]

/-- A replacement further down rebuilds the element at the first index around the replaced
children. -/
theorem replaceIn_below {nodes nodes' : List Node} {i j : Nat} {rest : NodePath} {n old : Node} :
    Document.replaceIn nodes (i :: j :: rest) n = some (old, nodes') ↔
      ∃ tag attrs cs cs', nodes[i]? = some (.element tag attrs cs) ∧
        Document.replaceIn cs (j :: rest) n = some (old, cs') ∧
        nodes' = nodes.set i (.element tag attrs cs') := by
  rw [Document.replaceIn.eq_3]
  split
  next tag attrs cs found =>
    split
    next old' cs' below =>
      constructor
      · intro same
        simp only [Option.some.injEq, Prod.mk.injEq] at same
        obtain ⟨rfl, rfl⟩ := same
        exact ⟨tag, attrs, cs, cs', found, below, rfl⟩
      · rintro ⟨tag', attrs', cs₀, cs₁, found', below', rfl⟩
        rw [found, Option.some.injEq, Node.element.injEq] at found'
        obtain ⟨rfl, rfl, rfl⟩ := found'
        rw [below, Option.some.injEq, Prod.mk.injEq] at below'
        obtain ⟨rfl, rfl⟩ := below'
        rfl
    next missing =>
      refine ⟨(fun same => by cases same), ?_⟩
      rintro ⟨tag', attrs', cs₀, cs₁, found', below', -⟩
      rw [found, Option.some.injEq, Node.element.injEq] at found'
      obtain ⟨rfl, rfl, rfl⟩ := found'
      rw [missing] at below'
      cases below'
  next other =>
    refine ⟨(fun same => by cases same), ?_⟩
    rintro ⟨tag', attrs', cs₀, cs₁, found', -, -⟩
    exact (other tag' attrs' cs₀ found').elim

/-- The node a replacement gives back is the one that stood at the path. -/
theorem get?_of_replaceIn : ∀ {p : NodePath} {nodes nodes' : List Node} {n old : Node},
    Document.replaceIn nodes p n = some (old, nodes') → (⟨nodes⟩ : Document).get? p = some old
  | [], _, _, _, _, replaced => by simp [Document.replaceIn] at replaced
  | [i], _, _, _, _, replaced => by
    obtain ⟨found, -⟩ := replaceIn_single.1 replaced
    simp [Document.get?, found, Node.descend]
  | i :: j :: rest, _, _, _, _, replaced => by
    obtain ⟨tag, attrs, cs, cs', found, below, -⟩ := replaceIn_below.1 replaced
    simp only [Document.get?, found]
    rw [descend_element]
    exact get?_of_replaceIn below

/-- After a replacement the new node stands at the path. -/
theorem get?_replaceIn : ∀ {p : NodePath} {nodes nodes' : List Node} {n old : Node},
    Document.replaceIn nodes p n = some (old, nodes') → (⟨nodes'⟩ : Document).get? p = some n
  | [], _, _, _, _, replaced => by simp [Document.replaceIn] at replaced
  | [i], nodes, _, _, _, replaced => by
    obtain ⟨found, rfl⟩ := replaceIn_single.1 replaced
    have inside : i < nodes.length := (List.getElem?_eq_some_iff.1 found).1
    simp [Document.get?, List.getElem?_set_self inside, Node.descend]
  | i :: j :: rest, nodes, _, _, _, replaced => by
    obtain ⟨tag, attrs, cs, cs', found, below, rfl⟩ := replaceIn_below.1 replaced
    have inside : i < nodes.length := (List.getElem?_eq_some_iff.1 found).1
    simp only [Document.get?, List.getElem?_set_self inside]
    rw [descend_element]
    exact get?_replaceIn below

/-- A path that addresses a node can have that node replaced. -/
theorem replaceIn_of_get? (n : Node) : ∀ {p : NodePath} {nodes : List Node} {old : Node},
    (⟨nodes⟩ : Document).get? p = some old →
      ∃ nodes', Document.replaceIn nodes p n = some (old, nodes')
  | [], _, _, found => by simp [Document.get?] at found
  | [i], nodes, old, found => by
    simp only [Document.get?, Node.descend] at found
    split at found
    next c atI =>
      cases found
      exact ⟨nodes.set i n, replaceIn_single.2 ⟨atI, rfl⟩⟩
    next => cases found
  | i :: j :: rest, nodes, old, found => by
    simp only [Document.get?] at found
    split at found
    next c atI =>
      -- a path that goes on below the node at `i` passes through an element
      cases c with
      | text s => simp [Node.descend] at found
      | element tag attrs cs =>
        rw [descend_element] at found
        obtain ⟨cs', below⟩ := replaceIn_of_get? n found
        exact ⟨_, replaceIn_below.2 ⟨tag, attrs, cs, cs', atI, below, rfl⟩⟩
    next => cases found

/-- Putting back the node that stands at a path changes nothing. -/
theorem replaceIn_self : ∀ {p : NodePath} {nodes : List Node} {x : Node},
    (⟨nodes⟩ : Document).get? p = some x → Document.replaceIn nodes p x = some (x, nodes)
  | [], _, _, found => by simp [Document.get?] at found
  | [i], nodes, x, found => by
    simp only [Document.get?, Node.descend] at found
    split at found
    next c atI =>
      cases found
      obtain ⟨inside, rfl⟩ := List.getElem?_eq_some_iff.1 atI
      exact replaceIn_single.2 ⟨atI, (List.set_getElem_self inside).symm⟩
    next => cases found
  | i :: j :: rest, nodes, x, found => by
    simp only [Document.get?] at found
    split at found
    next c atI =>
      cases c with
      | text s => simp [Node.descend] at found
      | element tag attrs cs =>
        rw [descend_element] at found
        obtain ⟨inside, same⟩ := List.getElem?_eq_some_iff.1 atI
        have unchanged : nodes.set i (.element tag attrs cs) = nodes := by
          rw [← same, List.set_getElem_self inside]
        exact replaceIn_below.2 ⟨tag, attrs, cs, cs, atI, replaceIn_self found, unchanged.symm⟩
    next => cases found

/-- A second replacement at the same path acts on the original list as if the first had not
happened, and gives back the node the first one put there. -/
theorem replaceIn_replaceIn (n' : Node) :
    ∀ {p : NodePath} {nodes nodes' : List Node} {n old : Node},
    Document.replaceIn nodes p n = some (old, nodes') →
      Document.replaceIn nodes' p n' = (Document.replaceIn nodes p n').map fun r => (n, r.2)
  | [], _, _, _, _, replaced => by simp [Document.replaceIn] at replaced
  | [i], nodes, _, _, _, replaced => by
    obtain ⟨found, rfl⟩ := replaceIn_single.1 replaced
    have inside : i < nodes.length := (List.getElem?_eq_some_iff.1 found).1
    simp [Document.replaceIn, Document.swapAt, found, List.getElem?_set_self inside]
  | i :: j :: rest, nodes, _, _, _, replaced => by
    obtain ⟨tag, attrs, cs, cs', found, below, rfl⟩ := replaceIn_below.1 replaced
    have inside : i < nodes.length := (List.getElem?_eq_some_iff.1 found).1
    rw [Document.replaceIn.eq_3, Document.replaceIn.eq_3, List.getElem?_set_self inside, found]
    simp only [replaceIn_replaceIn n' below]
    cases Document.replaceIn cs (j :: rest) n' with
    | none => rfl
    | some r => simp

/-! ## The first match -/

section First

variable (sel : Selector)

mutual
/-- A node found below `path` has `path` in front of its own. -/
theorem find?_extends : ∀ (path : NodePath) (node : Node) {q : NodePath},
    Node.find? sel path node = some q → path <+: q
  | _, .text _, _, found => by simp [Node.find?] at found
  | path, .element tag attrs children, q, found => by
    rw [Node.find?.eq_2] at found
    split at found
    · cases found
      exact List.prefix_refl path
    · obtain ⟨i, below⟩ := findIn_extends path children 0 found
      exact (List.prefix_append path [0 + i]).trans below

/-- A node found among siblings has the path of one of them in front of its own. -/
theorem findIn_extends : ∀ (parent : NodePath) (nodes : List Node) (k : Nat) {q : NodePath},
    Node.findIn sel parent nodes k = some q → ∃ i, parent ++ [k + i] <+: q
  | _, [], _, _, found => by simp [Node.findIn] at found
  | parent, n :: rest, k, q, found => by
    rw [Node.findIn.eq_2] at found
    split at found
    next p here =>
      cases found
      exact ⟨0, by simpa using find?_extends (parent ++ [k]) n here⟩
    next =>
      obtain ⟨i, later⟩ := findIn_extends parent rest (k + 1) found
      exact ⟨i + 1, by rwa [show k + (i + 1) = k + 1 + i by omega]⟩
end

/-- The first match among siblings is found below the sibling whose index its path names. -/
theorem findIn_locate {parent : NodePath} : ∀ {nodes : List Node} {k i : Nat} {r : NodePath}
    {x : Node}, Node.findIn sel parent nodes k = some (parent ++ (k + i) :: r) →
      nodes[i]? = some x →
      Node.find? sel (parent ++ [k + i]) x = some (parent ++ (k + i) :: r)
  | [], _, _, _, _, found, _ => by simp [Node.findIn] at found
  | n :: rest, k, i, r, x, found, atI => by
    rw [Node.findIn.eq_2] at found
    split at found
    next p here =>
      cases found
      -- what the first sibling gives lies below it, so its index is the one the path names
      obtain ⟨t, same⟩ := find?_extends sel _ n here
      have hi : i = 0 := by simpa using congrArg (·[parent.length]?) same
      subst hi
      simp only [List.getElem?_cons_zero, Option.some.injEq] at atI
      subst atI
      simpa using here
    next =>
      cases i with
      | zero =>
        obtain ⟨j, t, same⟩ := findIn_extends sel parent rest (k + 1) found
        have := congrArg (·[parent.length]?) same
        simp at this
        omega
      | succ i =>
        rw [show k + (i + 1) = k + 1 + i by omega] at found ⊢
        exact findIn_locate found (by simpa using atI)

/-- An element that matches is found where it stands. -/
theorem find?_of_accepts {n : Node} (fits : sel.accepts n = true) (path : NodePath) :
    Node.find? sel path n = some path := by
  cases n with
  | text s => simp [Selector.accepts] at fits
  | element tag attrs children => rw [Node.find?.eq_2, if_pos fits]

/-- An element found strictly below where the search starts does not match itself, and the
node is found among its children. -/
theorem find?_below {tag : String} {attrs : List Attribute} {cs : List Node} {path q : NodePath}
    (found : Node.find? sel path (.element tag attrs cs) = some q) (longer : q ≠ path) :
    sel.accepts (.element tag attrs cs) = false ∧ Node.findIn sel path cs 0 = some q := by
  rw [Node.find?.eq_2] at found
  split at found
  next => cases found; exact absurd rfl longer
  next miss => exact ⟨Bool.eq_false_iff.2 miss, found⟩

/-- The node a search finds matches. -/
theorem accepts_of_find? : ∀ (r : NodePath) {path : NodePath} {node x : Node},
    Node.find? sel path node = some (path ++ r) → node.descend r = some x → sel.accepts x = true
  | [], path, node, x, found, at_ => by
    cases at_
    cases node with
    | text s => simp [Node.find?] at found
    | element tag attrs cs =>
      rw [Node.find?.eq_2] at found
      split at found
      · assumption
      · -- a child's path is longer than its parent's
        obtain ⟨i, below⟩ := findIn_extends sel path cs 0 found
        have longer := below.length_le
        rw [List.append_nil, List.length_append, List.length_singleton] at longer
        omega
  | i :: r, path, node, x, found, at_ => by
    cases node with
    | text s => simp [Node.descend] at at_
    | element tag attrs cs =>
      obtain ⟨-, among⟩ := find?_below sel found (by simp)
      rw [Node.descend.eq_2] at at_
      split at at_
      next c atI =>
        have here := findIn_locate sel (k := 0) (i := i) (by simpa using among) atI
        rw [Nat.zero_add] at here
        exact accepts_of_find? r
          (show Node.find? sel (path ++ [i]) c = some ((path ++ [i]) ++ r) by simpa using here) at_
      next => cases at_

/-- Putting at index `j` a node in which the first match is found keeps the first match. -/
theorem findIn_set {parent q : NodePath} {new : Node} : ∀ {nodes : List Node} {k j : Nat},
    Node.findIn sel parent nodes k = some q → Node.find? sel (parent ++ [k + j]) new = some q →
      Node.findIn sel parent (nodes.set j new) k = some q
  | [], _, _, found, _ => by simp [Node.findIn] at found
  | n :: rest, k, 0, _, here => by
    rw [List.set_cons_zero, Node.findIn.eq_2]
    simp only [Nat.add_zero] at here
    simp [here]
  | n :: rest, k, j + 1, found, here => by
    rw [List.set_cons_succ, Node.findIn.eq_2]
    rw [Node.findIn.eq_2] at found
    split at found
    next p first => exact found
    next first => exact findIn_set found (by rwa [show k + 1 + j = k + (j + 1) by omega])

/-- Replacing the first match of a selector by another node that matches leaves the first match
where it was. -/
theorem findIn_replaceIn {n : Node} (fits : sel.accepts n = true) :
    ∀ {p parent : NodePath} {nodes nodes' : List Node} {old : Node},
      Document.replaceIn nodes p n = some (old, nodes') →
      Node.findIn sel parent nodes 0 = some (parent ++ p) →
      Node.findIn sel parent nodes' 0 = some (parent ++ p)
  | [], _, _, _, _, replaced, _ => by simp [Document.replaceIn] at replaced
  | [i], parent, _, _, _, replaced, first => by
    obtain ⟨-, rfl⟩ := replaceIn_single.1 replaced
    exact findIn_set sel first (by simpa using find?_of_accepts sel fits (parent ++ [i]))
  | i :: j :: rest, parent, nodes, _, _, replaced, first => by
    obtain ⟨tag, attrs, cs, cs', found, below, rfl⟩ := replaceIn_below.1 replaced
    -- the first match lies below the element at `i`, which does not match itself
    have here := findIn_locate sel (k := 0) (by simpa using first) found
    rw [Nat.zero_add] at here
    obtain ⟨skip, among⟩ := find?_below sel here (by simp)
    have kept := findIn_replaceIn fits below
      (show Node.findIn sel (parent ++ [i]) cs 0 = some ((parent ++ [i]) ++ j :: rest) by
        simpa using among)
    -- the rebuilt element keeps its tag and attributes, so it still does not match
    have rebuilt : Node.find? sel (parent ++ [0 + i]) (.element tag attrs cs') =
        some (parent ++ i :: j :: rest) := by
      have same : sel.accepts (.element tag attrs cs') = sel.accepts (.element tag attrs cs) := rfl
      rw [Node.find?.eq_2, if_neg (by rw [same, skip]; simp)]
      simpa using kept
    exact findIn_set sel first rebuilt

end First

/-! ## Elements that differ in their children only -/

/-- Two elements with the same tag and the same attributes, whatever their children. -/
def Node.SameElement : Node → Node → Prop
  | .element tag attrs _, .element tag' attrs' _ => tag = tag' ∧ attrs = attrs'
  | _, _ => False

theorem Node.SameElement.symm {n m : Node} (same : n.SameElement m) : m.SameElement n := by
  cases n <;> cases m <;> simp_all [Node.SameElement]

theorem Node.SameElement.trans {n m k : Node} (nm : n.SameElement m) (mk : m.SameElement k) :
    n.SameElement k := by
  cases n <;> cases m <;> cases k <;> simp_all [Node.SameElement]

/-- A selector reads only an element's tag and attributes. -/
theorem Selector.accepts_sameElement (sel : Selector) {n m : Node} (same : n.SameElement m) :
    sel.accepts n = sel.accepts m := by
  cases n with
  | text s => cases same
  | element tag attrs cs =>
    cases m with
    | text s => cases same
    | element tag' attrs' cs' =>
      obtain ⟨rfl, rfl⟩ := same
      rfl

/-- Only elements match a selector. -/
theorem Selector.sameElement_self_of_accepts {sel : Selector} {n : Node}
    (fits : sel.accepts n = true) : n.SameElement n := by
  cases n with
  | text s => simp [Selector.accepts] at fits
  | element tag attrs cs => exact ⟨rfl, rfl⟩

/-! ## Documents -/

namespace Document

theorem get?_of_replace {d d' : Document} {p : NodePath} {n old : Node}
    (replaced : d.replace p n = some (old, d')) : d.get? p = some old := by
  obtain ⟨⟨old', roots⟩, below, same⟩ := Option.map_eq_some_iff.1 replaced
  simp only [Prod.mk.injEq] at same
  obtain ⟨rfl, rfl⟩ := same
  exact get?_of_replaceIn below

theorem get?_replace {d d' : Document} {p : NodePath} {n old : Node}
    (replaced : d.replace p n = some (old, d')) : d'.get? p = some n := by
  obtain ⟨⟨old', roots⟩, below, same⟩ := Option.map_eq_some_iff.1 replaced
  simp only [Prod.mk.injEq] at same
  obtain ⟨rfl, rfl⟩ := same
  exact get?_replaceIn below

theorem replace_of_get? {d : Document} {p : NodePath} {old : Node} (n : Node)
    (found : d.get? p = some old) : ∃ d', d.replace p n = some (old, d') := by
  obtain ⟨roots, below⟩ :=
    replaceIn_of_get? n (show (⟨d.roots⟩ : Document).get? p = some old from found)
  exact ⟨⟨roots⟩, by simp [replace, below]⟩

/-- Putting back the node that stands at a path gives the document back. -/
theorem replace_self {d : Document} {p : NodePath} {x : Node} (found : d.get? p = some x) :
    d.replace p x = some (x, d) := by
  simp [replace, replaceIn_self (show (⟨d.roots⟩ : Document).get? p = some x from found)]

/-- A second replacement at the same path acts on the original document. -/
theorem replace_replace {d d' : Document} {p : NodePath} {n old : Node} (n' : Node)
    (replaced : d.replace p n = some (old, d')) :
    d'.replace p n' = (d.replace p n').map fun r => (n, r.2) := by
  obtain ⟨⟨old', roots⟩, below, same⟩ := Option.map_eq_some_iff.1 replaced
  simp only [Prod.mk.injEq] at same
  obtain ⟨rfl, rfl⟩ := same
  simp only [replace, replaceIn_replaceIn n' below, Option.map_map]
  rfl

/-- What a query gives: the first match of the selector, once it reads. -/
theorem query_eq_ok {d : Document} {selector : String} {r : Option NodePath} :
    d.query selector = .ok r ↔
      ∃ sel, Selector.parse selector = .ok sel ∧ Node.findIn sel [] d.roots 0 = r := by
  unfold query
  cases Selector.parse selector with
  | error e => simp [Except.map]
  | ok sel => simp [Except.map]

/-- The first match of a selector matches it. -/
theorem accepts_of_first {sel : Selector} {d : Document} {p : NodePath} {x : Node}
    (first : Node.findIn sel [] d.roots 0 = some p) (found : d.get? p = some x) :
    sel.accepts x = true := by
  match p, found with
  | i :: r, found =>
    simp only [get?] at found
    split at found
    next c atI =>
      have here := findIn_locate sel (k := 0) (i := i) (r := r)
        (show Node.findIn sel [] d.roots 0 = some ([] ++ (0 + i) :: r) by simpa using first) atI
      exact accepts_of_find? sel r (show Node.find? sel [i] c = some ([i] ++ r) by simpa using here)
        found
    next => cases found

/-- Replacing the first match by another node that matches keeps the first match there. -/
theorem first_replace {sel : Selector} {d d' : Document} {p : NodePath} {n old : Node}
    (first : Node.findIn sel [] d.roots 0 = some p) (fits : sel.accepts n = true)
    (replaced : d.replace p n = some (old, d')) : Node.findIn sel [] d'.roots 0 = some p := by
  obtain ⟨⟨old', roots⟩, below, same⟩ := Option.map_eq_some_iff.1 replaced
  simp only [Prod.mk.injEq] at same
  obtain ⟨rfl, rfl⟩ := same
  simpa using findIn_replaceIn sel fits below
    (show Node.findIn sel [] d.roots 0 = some ([] ++ p) by simpa using first)

end Document

end ReactiveView.Markup
