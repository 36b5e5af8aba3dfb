import ReactiveView.Proofs.Markup.Tree
/-!
# The first element a selector matches

`Document.query` reads a selector and walks the document depth first, each element before its
children and the children in order, stopping at the first element the selector accepts. Read
as a path, that walk meets the nodes in lexicographic order, a path before every path that
extends it; so the first element it stops at is the least path, in that order, that addresses
a matching element. Text nodes count in the indices of a path and never match.

The main result is `query_finds_first`: a selector that does not read gives `invalidSelector`
with the selector as written, and one that reads gives the least path of a matching element,
or `none` when no element matches. Matching is said there in its own terms (`Selector.Matches`:
tag up to ASCII case, the first `id` attribute, the words of the first `class` attribute),
equal to what `Selector.accepts` computes (`Selector.accepts_iff`).

The walk is taken apart by the function's own recursion: a search that finds nothing passed no
match (`find?_eq_none`, `findIn_eq_none`), and one that finds a path passed no match before it
(`find?_eq_some`, `findIn_eq_some`).
-/
namespace ReactiveView.Markup

set_option autoImplicit false

/-! ## Matching, said of the element -/

namespace Selector

/-- An element matches a selector when its tag is the selector's tag up to the case of ASCII
letters, its first attribute named `id` (in any case) has the selector's id as value, and each
class of the selector is one of the blank-separated words of its first `class` attribute. Text
matches nothing. -/
def Matches (sel : Selector) : Node → Prop
  | .text _ => False
  | .element tag attrs children =>
    (∀ t ∈ sel.tag, sameName t tag = true) ∧
      (∀ i ∈ sel.id, (Node.element tag attrs children).attribute? "id" = some i) ∧
      ∀ c ∈ sel.classes, ∃ cls, (Node.element tag attrs children).attribute? "class" = some cls ∧
        c ∈ Text.words cls

/-- `accepts` computes `Matches`. -/
theorem accepts_iff (sel : Selector) (n : Node) : sel.accepts n = true ↔ sel.Matches n := by
  cases n with
  | text s => simp [accepts, Matches]
  | element tag attrs children =>
    obtain ⟨tag?, id?, classes⟩ := sel
    -- each optional part holds when it is absent; a class needs a `class` attribute
    cases classAttr : (Node.element tag attrs children).attribute? "class" <;>
      cases tag? <;> cases id? <;> simp [accepts, Matches, classAttr, and_assoc]

/-- A selector that does not read is refused as written. -/
theorem parse_error {source : String} {e : Failure} (refused : parse source = .error e) :
    e = .invalidSelector source := by
  unfold parse at refused
  dsimp only at refused
  split at refused
  · cases refused
    rfl
  split at refused
  · cases refused
    rfl
  split at refused
  · cases refused
  · cases refused
    rfl

end Selector

/-! ## Matches below a node -/

section Search

variable (sel : Selector)

/-- `r` leads from `n` to an element that the selector accepts. -/
def Node.AcceptsAt (n : Node) (r : NodePath) : Prop :=
  ∃ x, n.descend r = some x ∧ sel.accepts x = true

/-- `p` addresses an element of the document that the selector accepts. -/
def Document.AcceptsAt (d : Document) (p : NodePath) : Prop :=
  ∃ x, d.get? p = some x ∧ sel.accepts x = true

theorem Node.acceptsAt_nil (n : Node) : n.AcceptsAt sel [] ↔ sel.accepts n = true := by
  simp [Node.AcceptsAt, Node.descend]

theorem Node.acceptsAt_element (tag : String) (attrs : List Attribute) (cs : List Node) (i : Nat)
    (r : NodePath) :
    (Node.element tag attrs cs).AcceptsAt sel (i :: r) ↔ Document.AcceptsAt sel ⟨cs⟩ (i :: r) := by
  rw [Node.AcceptsAt, Document.AcceptsAt, descend_element]

theorem Document.acceptsAt_nil (d : Document) : ¬ d.AcceptsAt sel [] := by
  simp [Document.AcceptsAt, Document.get?]

theorem Document.acceptsAt_zero (n : Node) (rest : List Node) (r : NodePath) :
    Document.AcceptsAt sel ⟨n :: rest⟩ (0 :: r) ↔ n.AcceptsAt sel r := by
  simp [Document.AcceptsAt, Node.AcceptsAt, Document.get?]

theorem Document.acceptsAt_succ (n : Node) (rest : List Node) (i : Nat) (r : NodePath) :
    Document.AcceptsAt sel ⟨n :: rest⟩ ((i + 1) :: r) ↔ Document.AcceptsAt sel ⟨rest⟩ (i :: r) := by
  simp [Document.AcceptsAt, Document.get?]

/-- Every path of a list of siblings is the empty one, or starts with the first sibling's index
or with one of a later sibling. -/
theorem acceptsAt_cases {n : Node} {rest : List Node} {p : NodePath}
    (accepted : Document.AcceptsAt sel ⟨n :: rest⟩ p) :
    (∃ r, p = 0 :: r ∧ n.AcceptsAt sel r) ∨
      ∃ i r, p = (i + 1) :: r ∧ Document.AcceptsAt sel ⟨rest⟩ (i :: r) := by
  rcases p with _ | ⟨_ | i, r⟩
  · exact absurd accepted (Document.acceptsAt_nil sel _)
  · exact .inl ⟨r, rfl, (Document.acceptsAt_zero sel n rest r).1 accepted⟩
  · exact .inr ⟨i, r, rfl, (Document.acceptsAt_succ sel n rest i r).1 accepted⟩

mutual
/-- A search that finds nothing below a node passed no element the selector accepts. -/
theorem find?_eq_none : ∀ (path : NodePath) (n : Node), Node.find? sel path n = none →
    ∀ r, ¬ n.AcceptsAt sel r
  | _, .text _, _, r, ⟨x, at_, fits⟩ => by
    cases r with
    | nil =>
      cases at_
      simp [Selector.accepts] at fits
    | cons i r => simp [Node.descend] at at_
  | path, .element tag attrs cs, missing, r, accepted => by
    rw [Node.find?.eq_2] at missing
    split at missing
    · cases missing
    next skip =>
      cases r with
      | nil => exact skip ((Node.acceptsAt_nil sel _).1 accepted)
      | cons i r =>
        exact findIn_eq_none path cs 0 missing _
          ((Node.acceptsAt_element sel tag attrs cs i r).1 accepted)

/-- A search that finds nothing among siblings passed no element the selector accepts. -/
theorem findIn_eq_none : ∀ (parent : NodePath) (nodes : List Node) (k : Nat),
    Node.findIn sel parent nodes k = none → ∀ p, ¬ Document.AcceptsAt sel ⟨nodes⟩ p
  | _, [], _, _, p, ⟨x, at_, _⟩ => by
    cases p with
    | nil => simp [Document.get?] at at_
    | cons i r => simp [Document.get?] at at_
  | parent, n :: rest, k, missing, p, accepted => by
    rw [Node.findIn.eq_2] at missing
    split at missing
    · cases missing
    next here =>
      rcases acceptsAt_cases sel accepted with ⟨r, -, first⟩ | ⟨i, r, -, later⟩
      · exact find?_eq_none (parent ++ [k]) n here r first
      · exact findIn_eq_none parent rest (k + 1) missing _ later
end

mutual
/-- A search that finds a path below a node found the least path, in the order of the walk, to
an element the selector accepts. -/
theorem find?_eq_some : ∀ (path : NodePath) (n : Node) {q : NodePath},
    Node.find? sel path n = some q →
      ∃ r, q = path ++ r ∧ n.AcceptsAt sel r ∧ ∀ r' < r, ¬ n.AcceptsAt sel r'
  | _, .text _, _, found => by simp [Node.find?] at found
  | path, .element tag attrs cs, q, found => by
    rw [Node.find?.eq_2] at found
    split at found
    next fits =>
      -- the element itself comes first
      cases found
      exact ⟨[], by simp, (Node.acceptsAt_nil sel _).2 fits, fun r' lt => absurd lt
        (List.not_lt_nil r')⟩
    next skip =>
      obtain ⟨i, r, rfl, accepted, least⟩ := findIn_eq_some path cs 0 found
      refine ⟨i :: r, by simp, (Node.acceptsAt_element sel tag attrs cs i r).2 accepted, ?_⟩
      intro r' lt earlier
      cases r' with
      | nil => exact skip ((Node.acceptsAt_nil sel _).1 earlier)
      | cons j r' =>
        exact least _ lt ((Node.acceptsAt_element sel tag attrs cs j r').1 earlier)

/-- A search that finds a path among siblings found the least path, in the order of the walk, to
an element the selector accepts. -/
theorem findIn_eq_some : ∀ (parent : NodePath) (nodes : List Node) (k : Nat) {q : NodePath},
    Node.findIn sel parent nodes k = some q →
      ∃ i r, q = parent ++ (k + i) :: r ∧ Document.AcceptsAt sel ⟨nodes⟩ (i :: r) ∧
        ∀ p < i :: r, ¬ Document.AcceptsAt sel ⟨nodes⟩ p
  | _, [], _, _, found => by simp [Node.findIn] at found
  | parent, n :: rest, k, q, found => by
    rw [Node.findIn.eq_2] at found
    split at found
    next p here =>
      -- found below the first sibling: every earlier path stays below it
      cases found
      obtain ⟨r, rfl, accepted, least⟩ := find?_eq_some (parent ++ [k]) n here
      refine ⟨0, r, by simp, (Document.acceptsAt_zero sel n rest r).2 accepted, ?_⟩
      intro p lt earlier
      rcases acceptsAt_cases sel earlier with ⟨r', rfl, first⟩ | ⟨j, r', rfl, later⟩
      · exact least r' (List.cons_lt_cons_self.1 lt) first
      · rcases List.cons_lt_cons_iff.1 lt with bigger | ⟨same, -⟩ <;> omega
    next here =>
      -- nothing below the first sibling: the path is one of a later sibling
      obtain ⟨i, r, rfl, accepted, least⟩ := findIn_eq_some parent rest (k + 1) found
      refine ⟨i + 1, r, by simp [Nat.add_assoc, Nat.add_comm 1 i],
        (Document.acceptsAt_succ sel n rest i r).2 accepted, ?_⟩
      intro p lt earlier
      rcases acceptsAt_cases sel earlier with ⟨r', rfl, first⟩ | ⟨j, r', rfl, later⟩
      · exact find?_eq_none sel (parent ++ [k]) n here r' first
      · refine least (j :: r') ?_ later
        rcases List.cons_lt_cons_iff.1 lt with smaller | ⟨same, tail⟩
        · exact List.cons_lt_cons_iff.2 (.inl (by omega))
        · exact List.cons_lt_cons_iff.2 (.inr ⟨by omega, tail⟩)
end

end Search

/-! ## The query -/

namespace Document

/-- `p` addresses an element of the document that matches the selector. -/
def MatchesAt (d : Document) (sel : Selector) (p : NodePath) : Prop :=
  ∃ x, d.get? p = some x ∧ sel.Matches x

/-- `p` is the first match of the selector in document order: it matches, and no path before
it, each element before its children and children in order, does. -/
def FirstMatch (d : Document) (sel : Selector) (p : NodePath) : Prop :=
  d.MatchesAt sel p ∧ ∀ q < p, ¬ d.MatchesAt sel q

theorem matchesAt_iff (d : Document) (sel : Selector) (p : NodePath) :
    d.MatchesAt sel p ↔ Document.AcceptsAt sel d p := by
  simp only [MatchesAt, Document.AcceptsAt, Selector.accepts_iff]

/-- A query gives `invalidSelector` with the selector as written exactly when the selector does
not read. When it reads, the query gives the first path in document order, each element before
its children and children in order, of an element that matches it, or `none` when no element
matches. -/
theorem query_finds_first (d : Document) (selector : String) :
    match Selector.parse selector with
    | .error _ => d.query selector = .error (.invalidSelector selector)
    | .ok sel =>
      (d.query selector = .ok none ∧ ∀ p, ¬ d.MatchesAt sel p) ∨
        ∃ p, d.query selector = .ok (some p) ∧ d.FirstMatch sel p := by
  split
  next e refused =>
    rw [query, refused, Selector.parse_error refused]
    rfl
  next sel parsed =>
    have answer : d.query selector = .ok (Node.findIn sel [] d.roots 0) := by
      rw [query, parsed]
      rfl
    cases found : Node.findIn sel [] d.roots 0 with
    | none =>
      refine .inl ⟨by rw [answer, found], fun p matched => ?_⟩
      exact findIn_eq_none sel [] d.roots 0 found p ((matchesAt_iff d sel p).1 matched)
    | some q =>
      obtain ⟨i, r, rfl, accepted, least⟩ := findIn_eq_some sel [] d.roots 0 found
      refine .inr ⟨_, by rw [answer, found], (matchesAt_iff d sel _).2 (by simpa using accepted),
        fun p lt matched => least p (by simpa using lt) ((matchesAt_iff d sel p).1 matched)⟩

end Document

end ReactiveView.Markup
