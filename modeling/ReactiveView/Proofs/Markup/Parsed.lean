import ReactiveView.Proofs.Markup.Reading
/-!
# What reading gives

Every document that reading gives is well formed (`parse_wellFormed`): its tags are tag names,
its attribute names are words, its texts are not empty and its void elements have no children.
It may still hold two texts side by side, where a comment between them was dropped, and an
attribute value may hold a `<` that was written as `&lt;`.

The proof follows reading's passes. Every lexeme of a scan is sound (`scanFrom_sound`): it is
not empty, the opening of a start tag spells a tag name and a word spells an attribute name.
The events of sound lexemes are sound (`events_sound`), and `build` keeps the open elements and
the nodes it has made sound (`build_wellFormed`).
-/
namespace ReactiveView.Markup

set_option autoImplicit false

/-! ## Well-formed trees -/

mutual
/-- Whether a node is one that reading can give: texts are not empty, tags are tag names,
attribute names are words, and void elements have no children. -/
def Node.wellFormed : Node → Bool
  | .text s => !s.isEmpty
  | .element tag attrs children =>
    isTagName tag && attrs.all (isAttributeName ·.name) &&
      if isVoid tag then children.isEmpty else Node.wellFormedList children

/-- Whether every node of a list is well formed. -/
def Node.wellFormedList : List Node → Bool
  | [] => true
  | n :: rest => n.wellFormed && Node.wellFormedList rest
end

theorem Node.wellFormedList_iff {ns : List Node} :
    Node.wellFormedList ns = true ↔ ∀ n ∈ ns, n.wellFormed = true := by
  induction ns with
  | nil => simp [Node.wellFormedList]
  | cons n ns ih => simp [Node.wellFormedList, ih]

/-! ## Lexemes -/

/-- Only `<` and an ASCII letter open a start tag, and the name runs on over name characters. -/
theorem cutAt_kind_startTagOpen {cs : List Char} (h : (cutAt cs).kind = .startTagOpen) :
    ∃ c rest, cs = '<' :: c :: rest ∧ c.isAlpha = true ∧
      (cutAt cs).length = 2 + (rest.takeWhile isNameChar).length := by
  revert h
  fun_cases cutAt cs <;> intro h
  case case14 rest => rcases quotedCut_kind '"' .doubleQuoted rest with k | k <;> simp [k] at h
  case case15 rest => rcases quotedCut_kind '\'' .singleQuoted rest with k | k <;> simp [k] at h
  all_goals simp_all [and_assoc]

/-- A word starts with a word character and runs on over word characters. -/
theorem cutAt_kind_word {cs : List Char} (h : (cutAt cs).kind = .word) :
    ∃ c rest, cs = c :: rest ∧ isWordChar c = true ∧
      (cutAt cs).length = 1 + (rest.takeWhile isWordChar).length := by
  revert h
  fun_cases cutAt cs <;> intro h
  case case14 rest => rcases quotedCut_kind '"' .doubleQuoted rest with k | k <;> simp [k] at h
  case case15 rest => rcases quotedCut_kind '\'' .singleQuoted rest with k | k <;> simp [k] at h
  all_goals simp_all [and_assoc]

/-- What every lexeme of a scan satisfies. -/
structure Lexeme.Sound (l : Lexeme) : Prop where
  nonempty : l.text ≠ ""
  tagName : l.kind = .startTagOpen → isTagName (String.ofList (l.text.toList.drop 1)) = true
  word : l.kind = .word → isAttributeName l.text = true

theorem take_length_takeWhile {α : Type} (P : α → Bool) (l : List α) :
    l.take (l.takeWhile P).length = l.takeWhile P :=
  (List.prefix_iff_eq_take.1 (List.takeWhile_prefix P)).symm

/-- The lexeme cut off the front of a text is sound. -/
theorem cut_sound (c : Char) (t : List Char) (o : Nat) :
    Lexeme.Sound
      ⟨(cutAt (c :: t)).kind, String.ofList ((c :: t).take (cutAt (c :: t)).length), o⟩ where
  nonempty := by
    obtain ⟨n, long⟩ : ∃ n, (cutAt (c :: t)).length = n + 1 :=
      ⟨_, (Nat.succ_pred_eq_of_pos (cutAt (c :: t)).length_pos).symm⟩
    simp [long]
  tagName := by
    intro h
    obtain ⟨c', rest, same, alpha, len⟩ := cutAt_kind_startTagOpen h
    rw [len, same, show 2 + (rest.takeWhile isNameChar).length =
      (rest.takeWhile isNameChar).length + 1 + 1 by omega, List.take_succ_cons, List.take_succ_cons,
      take_length_takeWhile]
    simp [isTagName, alpha]
  word := by
    intro h
    obtain ⟨c', rest, same, word, len⟩ := cutAt_kind_word h
    rw [len, same, Nat.add_comm, List.take_succ_cons, take_length_takeWhile]
    simp [isAttributeName, word]

theorem scanFrom_sound (off : Nat) (cs : List Char) : ∀ l ∈ scanFrom off cs, l.Sound := by
  fun_induction scanFrom off cs with
  | case1 => simp
  | case2 off c rest cut piece ih =>
    intro l mem
    rcases List.mem_cons.1 mem with rfl | mem
    · exact cut_sound c rest off
    · exact ih l mem

/-! ## Events -/

/-- What every event of a scan satisfies: a text is not empty, and a start tag names a tag and
its attributes. -/
def Event.Sound : Event → Prop
  | .text s => s ≠ ""
  | .start tag attrs _ => isTagName tag = true ∧ ∀ a ∈ attrs, isAttributeName a.name = true
  | .finish .. | .cutOff _ => True

theorem attributeValue_suffix (ls : List Lexeme) : (attributeValue ls).2.1 <:+ ls := by
  unfold attributeValue
  split
  · split
    · exact List.suffix_cons _ _
    · exact List.suffix_cons _ _
    · exact List.suffix_cons _ _
    · exact List.suffix_refl _
  · exact List.suffix_refl _

/-- An attribute keeps the name it is read with, and reading it takes lexemes off the front. -/
theorem readAttribute_suffix (name : String) (ls : List Lexeme) :
    (readAttribute name ls).1.name = name ∧ (readAttribute name ls).2.1 <:+ ls := by
  rw [readAttribute.eq_1]
  split
  next l rest found =>
    split
    · have after : rest <:+ ls := (List.suffix_cons l rest).trans (found ▸ List.dropWhile_suffix _)
      exact ⟨rfl, (attributeValue_suffix _).trans ((List.dropWhile_suffix _).trans after)⟩
    · exact ⟨rfl, List.suffix_refl _⟩
  next => exact ⟨rfl, List.suffix_refl _⟩

/-- The attributes of a start tag of sound lexemes are named by words, and reading it takes
lexemes off the front. -/
theorem readTag_sound (ls : List Lexeme) (acc : List Attribute) :
    (∀ l ∈ ls, l.Sound) → (∀ a ∈ acc, isAttributeName a.name = true) →
      (∀ a ∈ (readTag ls acc).1, isAttributeName a.name = true) ∧
        (readTag ls acc).2.2.1 <:+ ls := by
  induction ls, acc using readTag.induct with
  | case1 acc =>
    intro _ named
    simpa [readTag] using named
  | case2 acc l rest hk =>
    intro _ named
    rw [readTag.eq_2]
    simp only [hk]
    exact ⟨fun a mem => named a (List.mem_reverse.1 mem), List.suffix_cons l rest⟩
  | case3 acc l rest hk =>
    intro _ named
    rw [readTag.eq_2]
    simp only [hk]
    exact ⟨fun a mem => named a (List.mem_reverse.1 mem), List.suffix_cons l rest⟩
  | case4 acc l rest hk attr r hr read attrs ending r' hr' inner ih =>
    intro sound named
    -- the attribute is named by the word, and the rest of the tag is read after its value
    obtain ⟨attrName, after⟩ := readAttribute_suffix l.text rest
    rw [read] at attrName after
    have word := (sound l (List.mem_cons_self ..)).word hk
    obtain ⟨names, later⟩ := ih (fun x mem => sound x (List.mem_cons_of_mem l (after.subset mem)))
      (fun a mem => by
        rcases List.mem_cons.1 mem with rfl | mem
        · exact attrName ▸ word
        · exact named a mem)
    rw [inner] at names later
    rw [readTag.eq_2]
    simp only [hk]
    rw [read]
    simp only
    rw [inner]
    exact ⟨names, later.trans (after.trans (List.suffix_cons l rest))⟩
  | case5 acc l rest attrs ending r' hr' inner notClose notSelf notWord ih =>
    intro sound named
    obtain ⟨names, later⟩ := ih (fun x mem => sound x (List.mem_cons_of_mem l mem)) named
    rw [inner] at names later
    rw [readTag.eq_2]
    split
    · contradiction
    · contradiction
    · contradiction
    · simp only [inner]
      exact ⟨names, later.trans (List.suffix_cons l rest)⟩

/-- Decoding keeps a text that is not empty from becoming empty: every step gives a character. -/
theorem decodeChars_ne_nil {cs : List Char} (nonempty : cs ≠ []) : decodeChars cs ≠ [] := by
  obtain ⟨c, rest, rfl⟩ := List.exists_cons_of_ne_nil nonempty
  by_cases amp : c = '&'
  · subst amp
    rw [decodeChars.eq_2]
    split
    · split
      · split <;> simp
      · simp
    · simp
  · simp [decodeChars.eq_3 c rest amp]

theorem decodeEntities_ne_empty {s : String} (nonempty : s ≠ "") : decodeEntities s ≠ "" := by
  rw [decodeEntities, Ne, String.ofList_eq_empty_iff]
  exact decodeChars_ne_nil (mt String.toList_eq_nil_iff.1 nonempty)

theorem skipTagClose_suffix (ls : List Lexeme) : skipTagClose ls <:+ ls := by
  cases ls with
  | nil => exact List.suffix_refl _
  | cons m rest =>
    simp only [skipTagClose]
    split
    · exact List.suffix_cons m rest
    · exact List.suffix_refl _

/-- The events of sound lexemes are sound. -/
theorem events_sound (ls : List Lexeme) : (∀ l ∈ ls, l.Sound) → ∀ e ∈ events ls, e.Sound := by
  induction ls using events.induct with
  | case1 => simp [events]
  | case2 l rest hk attrs r hr selfClosed read ih =>
    intro sound
    obtain ⟨names, after⟩ :=
      readTag_sound rest [] (fun x mem => sound x (List.mem_cons_of_mem l mem)) (by simp)
    rw [read] at names after
    have tagName := (sound l (List.mem_cons_self ..)).tagName hk
    rw [events.eq_2]
    simp only [hk, read]
    intro e mem
    rcases List.mem_cons.1 mem with rfl | mem
    · exact ⟨tagName, names⟩
    · exact ih (fun x mem => sound x (List.mem_cons_of_mem l (after.subset mem))) e mem
  | case3 l rest hk attrs r hr read =>
    intro _
    rw [events.eq_2]
    simp only [hk, read]
    simp [Event.Sound]
  | case4 l rest hk _ _ ih =>
    intro sound
    have after : skipTagClose (dropBlanks rest) <:+ rest :=
      (skipTagClose_suffix _).trans (List.dropWhile_suffix _)
    rw [events.eq_2]
    simp only [hk]
    intro e mem
    rcases List.mem_cons.1 mem with rfl | mem
    · trivial
    · exact ih (fun x mem => sound x (List.mem_cons_of_mem l (after.subset mem))) e mem
  | case5 l rest hk ih =>
    intro sound
    rw [events.eq_2]
    simp only [hk]
    exact ih (fun x mem => sound x (List.mem_cons_of_mem l mem))
  | case6 l rest hk ih =>
    intro sound
    rw [events.eq_2]
    simp only [hk]
    exact ih (fun x mem => sound x (List.mem_cons_of_mem l mem))
  | case7 l rest run notStart notEnd notComment notDeclaration ih =>
    intro sound
    -- a run of text starts with a lexeme that is not empty
    have text : String.join ((l :: rest.takeWhile (!breaksText ·)).map (·.text)) ≠ "" := by
      rw [List.map_cons, String.join_cons, Ne, String.append_eq_empty_iff]
      exact fun both => (sound l (List.mem_cons_self ..)).nonempty both.1
    rw [events.eq_2]
    split
    · contradiction
    · contradiction
    · contradiction
    · contradiction
    · intro e mem
      rcases List.mem_cons.1 mem with rfl | mem
      · exact decodeEntities_ne_empty text
      · exact ih (fun x mem => sound x (List.mem_cons_of_mem l ((List.drop_suffix _ _).subset mem)))
          e mem

/-! ## Building -/

/-- What every element still open while building satisfies. -/
structure OpenElement.Sound (e : OpenElement) : Prop where
  tagName : isTagName e.tag = true
  notVoid : isVoid e.tag = false
  named : ∀ a ∈ e.attributes, isAttributeName a.name = true
  children : ∀ n ∈ e.children, n.wellFormed = true

/-- Placing a well-formed node keeps the open elements sound and the roots well formed. -/
theorem place_sound {n : Node} (wn : n.wellFormed = true) {stack : List OpenElement}
    {roots : List Node} (open_ : ∀ e ∈ stack, e.Sound) (made : ∀ r ∈ roots, r.wellFormed = true) :
    (∀ e ∈ (place n stack roots).1, e.Sound) ∧
      ∀ r ∈ (place n stack roots).2, r.wellFormed = true := by
  cases stack with
  | nil =>
    refine ⟨by simp [place], fun r mem => ?_⟩
    rcases List.mem_cons.1 mem with rfl | mem
    · exact wn
    · exact made r mem
  | cons top below =>
    refine ⟨fun e mem => ?_, made⟩
    rcases List.mem_cons.1 mem with rfl | mem
    · have sound := open_ top (List.mem_cons_self ..)
      refine ⟨sound.tagName, sound.notVoid, sound.named, fun c mem => ?_⟩
      rcases List.mem_cons.1 mem with rfl | mem
      · exact wn
      · exact sound.children c mem
    · exact open_ e (List.mem_cons_of_mem top mem)

/-- Building from sound events keeps every node it makes well formed. -/
theorem build_wellFormed (evs : List Event) (stack : List OpenElement) (roots : List Node) :
    (∀ e ∈ evs, e.Sound) → (∀ e ∈ stack, e.Sound) → (∀ r ∈ roots, r.wellFormed = true) →
      ∀ result, build evs stack roots = .ok result → ∀ n ∈ result, n.wellFormed = true := by
  induction evs, stack, roots using build.induct with
  | case1 roots =>
    intro _ _ made result built n mem
    simp only [build, Except.ok.injEq] at built
    exact made n (List.mem_reverse.1 (built ▸ mem))
  | case2 top tail roots =>
    intro _ _ _ result built
    simp [build] at built
  | case3 s rest stack roots stack' roots' placed ih =>
    intro sound open_ made result built
    have text : (Node.text s).wellFormed = true := by
      have nonempty := sound (.text s) (List.mem_cons_self ..)
      simp only [Event.Sound] at nonempty
      simpa [Node.wellFormed] using nonempty
    obtain ⟨open', made'⟩ := place_sound text open_ made
    rw [placed] at open' made'
    rw [build, placed] at built
    exact ih (fun e mem => sound e (List.mem_cons_of_mem _ mem)) open' made' result built
  | case4 tag attrs selfClosed rest stack roots closed stack' roots' placed ih =>
    intro sound open_ made result built
    obtain ⟨tagName, named⟩ := sound (.start tag attrs selfClosed) (List.mem_cons_self ..)
    have element : (Node.element tag attrs []).wellFormed = true := by
      simp only [Node.wellFormed, tagName, Bool.true_and, Bool.and_eq_true, List.all_eq_true]
      refine ⟨named, ?_⟩
      split <;> rfl
    obtain ⟨open', made'⟩ := place_sound element open_ made
    rw [placed] at open' made'
    rw [build, if_pos closed, placed] at built
    exact ih (fun e mem => sound e (List.mem_cons_of_mem _ mem)) open' made' result built
  | case5 tag attrs selfClosed rest stack roots opened ih =>
    intro sound open_ made result built
    obtain ⟨tagName, named⟩ := sound (.start tag attrs selfClosed) (List.mem_cons_self ..)
    -- an element is left open only when it is not void
    have notVoid : isVoid tag = false := by
      simp only [Bool.or_eq_true, not_or, Bool.not_eq_true] at opened
      exact opened.2
    rw [build, if_neg opened] at built
    refine ih (fun e mem => sound e (List.mem_cons_of_mem _ mem)) (fun e mem => ?_) made result
      built
    rcases List.mem_cons.1 mem with rfl | mem
    · exact ⟨tagName, notVoid, named, by simp⟩
    · exact open_ e mem
  | case6 tag offset rest roots top below same stack' roots' placed ih =>
    intro sound open_ made result built
    have sound' := open_ top (List.mem_cons_self ..)
    have element :
        (Node.element top.tag top.attributes top.children.reverse).wellFormed = true := by
      simp only [Node.wellFormed, sound'.tagName, sound'.notVoid, Bool.true_and, Bool.and_eq_true,
        List.all_eq_true, Bool.false_eq_true, if_false, Node.wellFormedList_iff, List.mem_reverse]
      exact ⟨sound'.named, sound'.children⟩
    obtain ⟨open', made'⟩ :=
      place_sound element (fun e mem => open_ e (List.mem_cons_of_mem _ mem)) made
    rw [placed] at open' made'
    rw [build, if_pos same, placed] at built
    exact ih (fun e mem => sound e (List.mem_cons_of_mem _ mem)) open' made' result built
  | case7 =>
    intro _ _ _ result built
    simp_all [build]
  | case8 tag offset rest roots top below differ =>
    intro _ _ _ result built
    rw [build, if_neg (by simp [differ])] at built
    split at built <;> cases built
  | case9 =>
    intro _ _ _ result built
    simp [build] at built
  | case10 =>
    intro _ _ _ result built
    simp [build] at built

/-- Every document that reading gives is well formed. -/
theorem parse_wellFormed {x : String} {d : Document} (parsed : parse x = .ok d) :
    Node.wellFormedList d.roots = true := by
  rw [parse] at parsed
  cases built : build (events (scan x)) [] [] with
  | error e =>
    rw [built] at parsed
    cases parsed
  | ok roots =>
    rw [built] at parsed
    cases parsed
    exact Node.wellFormedList_iff.2 (build_wellFormed _ [] [] 
      (events_sound _ (scanFrom_sound 0 x.toList)) (by simp) (by simp) roots built)

end ReactiveView.Markup
