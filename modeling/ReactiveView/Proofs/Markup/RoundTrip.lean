import ReactiveView.Proofs.Markup.Parsed
/-!
# Writing then reading gives the document back

A document reads back as written (`parse_render`) when every part of it is writable: a tag is
an ASCII letter followed by ASCII letters, digits and `-`; an attribute name is a word that is
not empty; an attribute value holds no `<`; a text is not empty and no two texts stand side by
side; a void element has no children. The condition on values cannot be dropped: a quoted
string stops at `<`, and `escapeAttribute` leaves `<` as it is, so the value `<` cuts its start
tag short and the element is never closed (`parse_render_lt_value`).

What reading gives is writable once its texts side by side are joined (`Node.mergeTexts`),
as long as no attribute value holds `<`; joining texts does not change what is written, so such
a document reads back from its writing with its texts joined (`parse_render_parsed`).

The proof follows the tree. Writing a node and reading its characters back, with anything after
them, gives events that `build` turns into that node wherever they stand (`Builds`), and the
scan goes on with what follows (`events_renderNode`, `events_renderList`).
-/
namespace ReactiveView.Markup

set_option autoImplicit false

/-! ## Writable documents -/

/-- Whether a node is a text. -/
def Node.isText : Node → Bool
  | .text _ => true
  | .element .. => false

mutual
/-- Whether a node reads back as written. -/
def Node.isWritable : Node → Bool
  | .text s => !s.isEmpty
  | .element tag attrs children =>
    isTagName tag && attrs.all Attribute.isWritable &&
      if isVoid tag then children.isEmpty else Node.isWritableList children

/-- Whether sibling nodes read back as written: each does, and no two texts stand side by
side. -/
def Node.isWritableList : List Node → Bool
  | [] => true
  | n :: rest =>
    n.isWritable && Node.isWritableList rest && !(n.isText && rest.head?.any Node.isText)
end

/-- Whether a document reads back as written. -/
def Document.isWritable (d : Document) : Bool := Node.isWritableList d.roots

/-! ## Building from events -/

/-- Place nodes one after another, as reading their events does. -/
def placeAll (ns : List Node) (stack : List OpenElement) (roots : List Node) :
    List OpenElement × List Node :=
  ns.foldl (fun acc n => place n acc.1 acc.2) (stack, roots)

/-- Events that, wherever they stand, add the nodes `ns` to the innermost open element, or to
the roots when none is open. -/
def Builds (evs : List Event) (ns : List Node) : Prop :=
  ∀ rest stack roots,
    build (evs ++ rest) stack roots =
      build rest (placeAll ns stack roots).1 (placeAll ns stack roots).2

theorem placeAll_open (ns : List Node) (top : OpenElement) (below : List OpenElement)
    (roots : List Node) :
    placeAll ns (top :: below) roots =
      ({ top with children := ns.reverse ++ top.children } :: below, roots) := by
  induction ns generalizing top with
  | nil => rfl
  | cons n ns ih =>
    rw [placeAll, List.foldl_cons]
    exact (ih _).trans (by simp)

theorem placeAll_roots (ns : List Node) (roots : List Node) :
    placeAll ns [] roots = ([], ns.reverse ++ roots) := by
  induction ns generalizing roots with
  | nil => rfl
  | cons n ns ih =>
    rw [placeAll, List.foldl_cons]
    exact (ih _).trans (by simp)

theorem Builds.nil : Builds [] [] := fun _ _ _ => rfl

theorem Builds.append {e₁ e₂ : List Event} {ns₁ ns₂ : List Node} (first : Builds e₁ ns₁)
    (second : Builds e₂ ns₂) : Builds (e₁ ++ e₂) (ns₁ ++ ns₂) := by
  intro rest stack roots
  rw [List.append_assoc, first, second, placeAll, placeAll, placeAll, List.foldl_append]

theorem builds_text (s : String) : Builds [.text s] [.text s] := fun _ _ _ => rfl

theorem sameName_self (tag : String) : sameName tag tag = true := by
  simp [sameName]

/-- A start tag that closes itself, or names a void element, builds the element with no
children. -/
theorem builds_leaf {tag : String} {selfClosed : Bool} (leaf : (selfClosed || isVoid tag) = true)
    (attrs : List Attribute) :
    Builds [.start tag attrs selfClosed] [.element tag attrs []] := by
  intro rest stack roots
  simp [build, leaf, placeAll]

/-- A start tag, the events of the children and an end tag of the same name up to case build
the element, named as its start tag names it. -/
theorem builds_element {tag tag' : String} (notVoid : isVoid tag = false)
    (same : sameName tag tag' = true) (attrs : List Attribute) {evs : List Event}
    {children : List Node} (inner : Builds evs children) (off : Nat) :
    Builds (.start tag attrs false :: (evs ++ [.finish tag' off]))
      [.element tag attrs children] := by
  intro rest stack roots
  rw [List.cons_append, List.append_assoc, build, if_neg (by simp [notVoid]), inner,
    placeAll_open, List.singleton_append, build]
  simp [same, placeAll]

/-! ## Reading a written tree -/

/-- A written element ends a run of text before it. -/
theorem endsText_renderList {rest : List Node} (w : Node.isWritableList rest = true)
    (notText : rest.head?.any Node.isText = false) {q : List Char} (ends : EndsText q) :
    EndsText ((Node.renderList rest).toList ++ q) := by
  cases rest with
  | nil => simpa [Node.renderList] using ends
  | cons m rest =>
    cases m with
    | text s => simp [Node.isText] at notText
    | element tag attrs children =>
      simp only [Node.isWritableList, Node.isWritable, Bool.and_eq_true] at w
      obtain ⟨c, t, spelled, alpha, -⟩ := isTagName_iff.1 w.1.1.1.1
      rw [renderList_toList_cons, List.append_assoc, render_element_toList, spelled]
      exact .inr ⟨c, _, alpha, .inl (by rw [List.cons_append])⟩

mutual
/-- Writing a node and reading it back, with anything after it, gives events that build the
node, and the reading goes on after it. -/
theorem events_renderNode : ∀ (n : Node) (off : Nat) (q : List Char), n.isWritable = true →
    (n.isText = true → EndsText q) → ∃ evs off',
      events (scanFrom off (n.render.toList ++ q)) = evs ++ events (scanFrom off' q) ∧
        Builds evs [n]
  | .text s, off, q, w, ends => by
    have nonempty : s ≠ "" := by simpa [Node.isWritable] using w
    obtain ⟨off', read⟩ := events_text s nonempty (ends rfl) off
    exact ⟨[.text s], off', by rw [render_text_toList, read]; rfl, builds_text s⟩
  | .element tag attrs children, off, q, w, _ => by
    simp only [Node.isWritable, Bool.and_eq_true, List.all_eq_true] at w
    obtain ⟨⟨named, wa⟩, inner⟩ := w
    rw [render_element_toList]
    cases void : isVoid tag
    · -- the children, then the end tag
      rw [void, if_neg Bool.false_ne_true] at inner
      rw [if_neg Bool.false_ne_true]
      obtain ⟨off₁, start⟩ := events_startTag named wa off
        ((Node.renderList children).toList ++ '<' :: '/' :: (tag.toList ++ '>' :: q))
      obtain ⟨evs, off₂, read, builds⟩ :=
        events_renderList children off₁ _ inner (endsText_endTag named q)
      obtain ⟨off₃, finish⟩ := events_endTag named off₂ q
      refine ⟨.start tag attrs false :: (evs ++ [.finish tag off₂]), off₃, ?_,
        builds_element void (sameName_self tag) attrs builds off₂⟩
      rw [start, read, finish]
      simp
    · -- a void element is its start tag alone
      rw [void, if_pos rfl] at inner
      rw [if_pos rfl]
      have childless : children = [] := by simpa using inner
      subst childless
      obtain ⟨off₁, start⟩ := events_startTag named wa off q
      exact ⟨[.start tag attrs false], off₁, start, builds_leaf (by simp [void]) attrs⟩

/-- Writing sibling nodes and reading them back, with anything after them that ends a run of
text, gives events that build them in order. -/
theorem events_renderList : ∀ (ns : List Node) (off : Nat) (q : List Char),
    Node.isWritableList ns = true → EndsText q → ∃ evs off',
      events (scanFrom off ((Node.renderList ns).toList ++ q)) = evs ++ events (scanFrom off' q) ∧
        Builds evs ns
  | [], off, q, _, _ => ⟨[], off, by simp [Node.renderList], Builds.nil⟩
  | n :: rest, off, q, w, ends => by
    simp only [Node.isWritableList, Bool.and_eq_true, Bool.not_eq_true', Bool.and_eq_false_iff] at w
    obtain ⟨⟨wn, wrest⟩, apart⟩ := w
    -- a text is followed by an element or by what follows the list
    have after : n.isText = true → EndsText ((Node.renderList rest).toList ++ q) := fun text =>
      endsText_renderList wrest (apart.resolve_left (by simp [text])) ends
    obtain ⟨evs₁, off₁, read₁, builds₁⟩ := events_renderNode n off _ wn after
    obtain ⟨evs₂, off₂, read₂, builds₂⟩ := events_renderList rest off₁ q wrest ends
    refine ⟨evs₁ ++ evs₂, off₂, ?_, builds₁.append builds₂⟩
    rw [renderList_toList_cons, List.append_assoc, read₁, read₂, List.append_assoc]
end

/-- A writable document reads back as itself. -/
theorem parse_render (d : Document) (w : d.isWritable = true) : parse d.render = .ok d := by
  obtain ⟨evs, off, read, builds⟩ := events_renderList d.roots 0 [] w (.inl rfl)
  have whole : (Node.renderList d.roots).toList = (Node.renderList d.roots).toList ++ [] :=
    (List.append_nil _).symm
  rw [parse, scan, Document.render, whole, read, scanFrom, events, builds,
    placeAll_roots, List.append_nil, build, List.reverse_reverse]
  rfl

/-! ## Texts side by side -/

/-- Put a node in front of its next siblings, joined to the first of them when both are texts. -/
def Node.consMerged : Node → List Node → List Node
  | .text s, .text s' :: rest => .text (s ++ s') :: rest
  | n, rest => n :: rest

mutual
/-- A node with every run of texts side by side below it joined into one text. -/
def Node.mergeTexts : Node → Node
  | .text s => .text s
  | .element tag attrs children => .element tag attrs (Node.mergeTextsList children)

/-- Sibling nodes with every run of texts side by side joined into one text. -/
def Node.mergeTextsList : List Node → List Node
  | [] => []
  | n :: rest => Node.consMerged n.mergeTexts (Node.mergeTextsList rest)
end

/-- A document with every run of texts side by side joined into one text. -/
def Document.mergeTexts (d : Document) : Document := ⟨Node.mergeTextsList d.roots⟩

mutual
/-- Whether every attribute value in a node and below it is free of `<`. -/
def Node.valuesFreeOfLt : Node → Bool
  | .text _ => true
  | .element _ attrs children =>
    attrs.all (fun a => !a.value.toList.contains '<') && Node.valuesFreeOfLtList children

/-- Whether every attribute value in a list of nodes and below them is free of `<`. -/
def Node.valuesFreeOfLtList : List Node → Bool
  | [] => true
  | n :: rest => n.valuesFreeOfLt && Node.valuesFreeOfLtList rest
end

theorem escapeText_append (s t : String) : escapeText (s ++ t) = escapeText s ++ escapeText t := by
  rw [← String.toList_inj, String.toList_append, escapeText_toList, escapeText_toList,
    escapeText_toList, String.toList_append, List.flatMap_append]

/-- Joining two texts does not change what is written. -/
theorem renderList_consMerged (n : Node) (ms : List Node) :
    Node.renderList (Node.consMerged n ms) = Node.renderList (n :: ms) := by
  unfold Node.consMerged
  split
  · simp only [Node.renderList, Node.render, escapeText_append, String.append_assoc]
  · rfl

mutual
/-- Joining texts side by side does not change what is written. -/
theorem render_mergeTexts : ∀ n : Node, n.mergeTexts.render = n.render
  | .text _ => rfl
  | .element tag attrs children => by
    rw [Node.mergeTexts, Node.render, Node.render, renderList_mergeTextsList children]

theorem renderList_mergeTextsList : ∀ ns : List Node,
    Node.renderList (Node.mergeTextsList ns) = Node.renderList ns
  | [] => rfl
  | n :: rest => by
    rw [Node.mergeTextsList, renderList_consMerged, Node.renderList, Node.renderList,
      render_mergeTexts n, renderList_mergeTextsList rest]
end

/-- Joining a writable node to writable siblings keeps them writable. -/
theorem isWritableList_consMerged {n : Node} {ms : List Node} (wn : n.isWritable = true)
    (wms : Node.isWritableList ms = true) : Node.isWritableList (Node.consMerged n ms) = true := by
  unfold Node.consMerged
  split
  next s s' rest =>
    -- the joined text is not empty, and what follows it is what followed the second text
    simp_all [Node.isWritableList, Node.isWritable, Node.isText, String.append_eq_empty_iff]
  next notBoth =>
    simp only [Node.isWritableList, wn, wms, Bool.true_and, Bool.not_eq_eq_eq_not, Bool.not_true,
      Bool.and_eq_false_iff]
    cases n with
    | element => exact .inl rfl
    | text s =>
      refine .inr ?_
      cases ms with
      | nil => rfl
      | cons m rest =>
        cases m with
        | element => rfl
        | text s' => exact absurd rfl (notBoth s s' rest rfl)

mutual
/-- A well-formed node whose attribute values hold no `<` is writable once its texts side by
side are joined. -/
theorem isWritable_mergeTexts : ∀ n : Node, n.wellFormed = true → n.valuesFreeOfLt = true →
    n.mergeTexts.isWritable = true
  | .text s, formed, _ => formed
  | .element tag attrs children, formed, values => by
    simp only [Node.wellFormed, Node.valuesFreeOfLt, Bool.and_eq_true, List.all_eq_true]
      at formed values
    obtain ⟨⟨named, names⟩, inner⟩ := formed
    obtain ⟨freeValues, freeBelow⟩ := values
    simp only [Node.mergeTexts, Node.isWritable, named, Bool.true_and, Bool.and_eq_true,
      List.all_eq_true]
    refine ⟨fun a mem => ?_, ?_⟩
    · have free : '<' ∉ a.value.toList := by simpa using freeValues a mem
      simp [Attribute.isWritable, names a mem, free]
    · split
      · next void =>
        rw [if_pos void, List.isEmpty_iff] at inner
        rw [inner]
        rfl
      · next notVoid =>
        rw [if_neg notVoid] at inner
        exact isWritableList_mergeTextsList children inner freeBelow

theorem isWritableList_mergeTextsList : ∀ ns : List Node, Node.wellFormedList ns = true →
    Node.valuesFreeOfLtList ns = true → Node.isWritableList (Node.mergeTextsList ns) = true
  | [], _, _ => rfl
  | n :: rest, formed, values => by
    simp only [Node.wellFormedList, Node.valuesFreeOfLtList, Bool.and_eq_true] at formed values
    exact isWritableList_consMerged (isWritable_mergeTexts n formed.1 values.1)
      (isWritableList_mergeTextsList rest formed.2 values.2)
end

/-- A document that reading gave, with no `<` in its attribute values, reads back from what
writing makes of it with its texts side by side joined. -/
theorem parse_render_parsed {x : String} {d : Document} (parsed : parse x = .ok d)
    (values : Node.valuesFreeOfLtList d.roots = true) : parse d.render = .ok d.mergeTexts := by
  have writable : d.mergeTexts.isWritable = true :=
    isWritableList_mergeTextsList d.roots (parse_wellFormed parsed) values
  have written : d.mergeTexts.render = d.render := renderList_mergeTextsList d.roots
  rw [← written, parse_render _ writable]

/-- Writing and reading are inverse. A writable document reads back as itself; a document that
reading gave, with no `<` in its attribute values, reads back with its texts side by side
joined. -/
theorem parse_render_inverse :
    (∀ d : Document, d.isWritable = true → parse d.render = .ok d) ∧
      ∀ (x : String) (d : Document), parse x = .ok d → Node.valuesFreeOfLtList d.roots = true →
        parse d.render = .ok d.mergeTexts :=
  ⟨parse_render, fun _ _ parsed values => parse_render_parsed parsed values⟩

/-- A paragraph with an attribute and a text to escape reads back as itself, and the two texts
that a comment parts in `a<!---->b` read back joined. -/
theorem parse_render_paragraph_and_parted_texts :
    parse (Document.render ⟨[.element "p" [⟨"class", "a b"⟩] [.text "1 < 2 & 3"]]⟩) =
        .ok ⟨[.element "p" [⟨"class", "a b"⟩] [.text "1 < 2 & 3"]]⟩ ∧
      parse (Document.render ⟨[.text "a", .text "b"]⟩) = .ok ⟨[.text "ab"]⟩ := by
  have notVoid : isVoid "p" = false := by decide +kernel
  have writable : Document.isWritable ⟨[.element "p" [⟨"class", "a b"⟩] [.text "1 < 2 & 3"]]⟩ :=
    by simp [Document.isWritable, Node.isWritableList, Node.isWritable, isTagName,
      Attribute.isWritable, isAttributeName, isWordChar, isTagBlank, notVoid, Node.isText]
  have parsed : parse "a<!---->b" = .ok ⟨[.text "a", .text "b"]⟩ := by
    simp [parse, scan, scanFrom.eq_1, scanFrom.eq_2, cutAt, commentTail, isTagBlank, isWordChar,
      utf8Length, Char.utf8Size, events.eq_1, events.eq_2, breaksText, build, place, decodeEntities,
      decodeChars.eq_1, decodeChars.eq_3, Except.map]
  exact ⟨parse_render_inverse.1 _ writable, parse_render_inverse.2 _ _ parsed rfl⟩

/-- A value holding `<` is not read back, though its tag and name are as the round trip asks.
The quoted string stops at the `<`, so the `"` that opens it, the `<` and the `">` after it are
each a lexeme of no class; the start tag passes over them and over the end tag's `</a`, up to
the end tag's `>`, and the element is never closed. -/
theorem parse_render_lt_value :
    isTagName "a" = true ∧ isAttributeName "x" = true ∧ isVoid "a" = false ∧
      parse (Document.render ⟨[.element "a" [⟨"x", "<"⟩] []]⟩) = .error (.unclosedElement "a") := by
  have written : Document.render ⟨[.element "a" [⟨"x", "<"⟩] []]⟩ = "<a x=\"<\"></a>" := by
    decide +kernel
  have lexemes : scan "<a x=\"<\"></a>" =
      [⟨.startTagOpen, "<a", 0⟩, ⟨.blank, " ", 2⟩, ⟨.word, "x", 3⟩, ⟨.equals, "=", 4⟩,
        ⟨.unknown, "\"", 5⟩, ⟨.unknown, "<", 6⟩, ⟨.unknown, "\">", 7⟩, ⟨.endTagOpen, "</a", 9⟩,
        ⟨.tagClose, ">", 12⟩] := by
    simp [scan, scanFrom.eq_2, cutAt, quotedCut, isTagBlank, isWordChar, isNameChar, utf8Length,
      Char.utf8Size, scanFrom.eq_1]
  have read : readTagResult
      [⟨.blank, " ", 2⟩, ⟨.word, "x", 3⟩, ⟨.equals, "=", 4⟩, ⟨.unknown, "\"", 5⟩,
        ⟨.unknown, "<", 6⟩, ⟨.unknown, "\">", 7⟩, ⟨.endTagOpen, "</a", 9⟩,
        ⟨.tagClose, ">", 12⟩] [] =
      ([⟨"x", ""⟩], some false, []) := by
    rw [readTagResult_skip _ _ (by simp), readTagResult_word _ _ rfl,
      readAttribute_unvalued _ _ _ _ (by simp)]
    simp only
    rw [readTagResult_skip _ _ (by simp), readTagResult_skip _ _ (by simp),
      readTagResult_skip _ _ (by simp), readTagResult_skip _ _ (by simp),
      readTagResult_tagClose _ _ rfl]
    rfl
  have tag : String.ofList ("<a".toList.drop 1) = "a" := by simp
  have notVoid : isVoid "a" = false := by decide +kernel
  refine ⟨by simp [isTagName], by simp [isAttributeName, isWordChar, isTagBlank], notVoid, ?_⟩
  rw [parse, written, lexemes, events_startTagOpen rfl read, tag]
  simp only [events, build, notVoid, Bool.or_false, Bool.false_eq_true, if_false]
  rfl

end ReactiveView.Markup
