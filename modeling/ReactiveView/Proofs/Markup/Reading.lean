import ReactiveView.Markup.Parse
import ReactiveView.Markup.Render
import ReactiveView.Proofs.Markup.Escapes
import ReactiveView.Proofs.Markup.Scanning
/-!
# Reading written pieces back

The events that reading makes of each piece that writing puts out, followed by any rest:

* a start tag `<tag attrs>` is one `start` event with the same tag and attributes
  (`events_startTag`), as long as the tag is a tag name and every attribute is writable: its
  name a word, its value free of `<`, which a quoted value cannot hold;
* an end tag `</tag>` is one `finish` event (`events_endTag`);
* a text that is not empty, written with its escapes, is one `text` event with the text
  itself (`events_text`), as long as what follows ends the run of text (`EndsText`).

Reading the attributes of a start tag goes through `readTagResult`, the result of `readTag`
without the bound on what follows it.
-/
namespace ReactiveView.Markup

set_option autoImplicit false

/-! ## What reads back -/

/-- A tag name that reads back as written: an ASCII letter, then ASCII letters, digits and `-`. -/
def isTagName (tag : String) : Bool :=
  match tag.toList with
  | c :: rest => c.isAlpha && rest.all isNameChar
  | [] => false

/-- An attribute name that reads back as one: a word, not empty. -/
def isAttributeName (name : String) : Bool := !name.isEmpty && name.toList.all isWordChar

/-- An attribute that reads back as written: its name is a word and its value holds no `<`. -/
def Attribute.isWritable (a : Attribute) : Bool :=
  isAttributeName a.name && !a.value.toList.contains '<'

/-- What may follow a text so that its run of text ends there: nothing, or the opening of a
start tag or an end tag. -/
def EndsText (q : List Char) : Prop :=
  q = [] ∨ ∃ c t, c.isAlpha = true ∧ (q = '<' :: c :: t ∨ q = '<' :: '/' :: c :: t)

theorem isTagName_iff {tag : String} :
    isTagName tag = true ↔
      ∃ c t, tag.toList = c :: t ∧ c.isAlpha = true ∧ ∀ x ∈ t, isNameChar x = true := by
  unfold isTagName
  split
  next c t same => simp [same, and_assoc]
  next same => simp [same]

theorem isAttributeName_iff {name : String} :
    isAttributeName name = true ↔
      ∃ c t, name.toList = c :: t ∧ ∀ x ∈ c :: t, isWordChar x = true := by
  unfold isAttributeName
  cases same : name.toList with
  | nil => simp [← String.toList_eq_nil_iff, same]
  | cons c t => simp [← String.toList_eq_nil_iff, same, and_assoc]

/-! ## Written pieces as characters -/

/-- The characters an attribute's value is written as: `="value"`, or nothing when it is empty. -/
def valueChars (a : Attribute) : List Char :=
  if a.value.isEmpty then [] else '=' :: '"' :: ((escapeAttribute a.value).toList ++ ['"'])

/-- The characters an attribute is written as: a space, its name, and its value. -/
def attributeChars (a : Attribute) : List Char := ' ' :: (a.name.toList ++ valueChars a)

theorem renderAttributes_toList_nil : (renderAttributes []).toList = [] := by
  simp [renderAttributes]

theorem renderAttributes_toList_cons (a : Attribute) (rest : List Attribute) :
    (renderAttributes (a :: rest)).toList = attributeChars a ++ (renderAttributes rest).toList := by
  rw [renderAttributes.eq_2, attributeChars, valueChars]
  split <;> simp

theorem render_text_toList (s : String) :
    (Node.render (.text s)).toList = s.toList.flatMap escapedTextChar := by
  rw [Node.render, escapeText_toList]

theorem render_element_toList (tag : String) (attrs : List Attribute) (children : List Node)
    (q : List Char) :
    (Node.render (.element tag attrs children)).toList ++ q =
      '<' :: (tag.toList ++ ((renderAttributes attrs).toList ++ '>' ::
        if isVoid tag then q else
          (Node.renderList children).toList ++ '<' :: '/' :: (tag.toList ++ '>' :: q))) := by
  rw [Node.render]
  split <;> simp

theorem renderList_toList_cons (n : Node) (rest : List Node) :
    (Node.renderList (n :: rest)).toList = n.render.toList ++ (Node.renderList rest).toList := by
  rw [Node.renderList, String.toList_append]

/-! ## Reading lexemes -/

theorem breaksText_eq_false {l : Lexeme}
    (plain : l.kind ∉ [.startTagOpen, .endTagOpen, .comment, .declaration]) :
    breaksText l = false := by
  unfold breaksText
  split <;> simp_all

theorem dropBlanks_cons {l : Lexeme} (rest : List Lexeme) (hk : l.kind ≠ .blank) :
    dropBlanks (l :: rest) = l :: rest := by
  simp [dropBlanks, hk]

/-- What reading the inside of a start tag gives: the attributes, how the tag ended, and the
lexemes after it. -/
def readTagResult (ls : List Lexeme) (acc : List Attribute) :
    List Attribute × Option Bool × List Lexeme :=
  ((readTag ls acc).1, (readTag ls acc).2.1, (readTag ls acc).2.2.1)

theorem readTagResult_tagClose {l : Lexeme} (rest : List Lexeme) (acc : List Attribute)
    (hk : l.kind = .tagClose) :
    readTagResult (l :: rest) acc = (acc.reverse, some false, rest) := by
  simp [readTagResult, readTag.eq_2, hk]

theorem readTagResult_word {l : Lexeme} (rest : List Lexeme) (acc : List Attribute)
    (hk : l.kind = .word) :
    readTagResult (l :: rest) acc =
      readTagResult (readAttribute l.text rest).2.1 ((readAttribute l.text rest).1 :: acc) := by
  unfold readTagResult
  rw [readTag.eq_2]
  simp only [hk]

/-- Every other lexeme inside a start tag is passed over. -/
theorem readTagResult_skip {l : Lexeme} (rest : List Lexeme) (acc : List Attribute)
    (hk : l.kind ∉ [.tagClose, .selfClose, .word]) :
    readTagResult (l :: rest) acc = readTagResult rest acc := by
  unfold readTagResult
  rw [readTag.eq_2]
  split
  · simp_all
  · simp_all
  · simp_all
  · split
    next attrs ending r' hr' inner => rw [inner]

/-- With no `=` after the blanks, an attribute is a bare name and takes nothing. -/
theorem readAttribute_bare (name : String) {ls : List Lexeme}
    (noEquals : ∀ l ∈ (dropBlanks ls).head?, l.kind ≠ .equals) :
    (readAttribute name ls).1 = ⟨name, ""⟩ ∧ (readAttribute name ls).2.1 = ls := by
  rw [readAttribute.eq_1]
  split
  next l rest found =>
    have notEquals : l.kind ≠ .equals := noEquals l (by simp [found])
    simp [notEquals]
  next => simp

/-- `="…"` gives the quoted value with its references decoded. -/
theorem readAttribute_quoted (name e v : String) (o o' : Nat) (rest : List Lexeme) :
    (readAttribute name (⟨.equals, e, o⟩ :: ⟨.doubleQuoted, v, o'⟩ :: rest)).1 =
        ⟨name, decodeEntities (String.ofList (v.toList.drop 1).dropLast)⟩ ∧
      (readAttribute name (⟨.equals, e, o⟩ :: ⟨.doubleQuoted, v, o'⟩ :: rest)).2.1 = rest := by
  rw [readAttribute.eq_1]
  split
  next l more found =>
    rw [dropBlanks_cons _ (by simp), List.cons.injEq] at found
    obtain ⟨rfl, rfl⟩ := found
    have quotedValue : (attributeValue (dropBlanks (⟨.doubleQuoted, v, o'⟩ :: rest))).1 =
          decodeEntities (String.ofList (v.toList.drop 1).dropLast) ∧
        (attributeValue (dropBlanks (⟨.doubleQuoted, v, o'⟩ :: rest))).2.1 = rest := by
      rw [dropBlanks_cons _ (by simp)]
      simp [attributeValue]
    simp only [beq_self_eq_true, if_true]
    exact ⟨by rw [quotedValue.1], quotedValue.2⟩
  next found => simp [dropBlanks_cons] at found

/-- An `=` followed by no value gives the attribute an empty value and leaves what follows in
place. -/
theorem readAttribute_unvalued (name e : String) (o : Nat) {l : Lexeme} (rest : List Lexeme)
    (hk : l.kind ∉ [.doubleQuoted, .singleQuoted, .word, .blank]) :
    readAttribute name (⟨.equals, e, o⟩ :: l :: rest) =
      (⟨name, ""⟩, ⟨l :: rest, Nat.le_succ _⟩) := by
  have notBlank : l.kind ≠ .blank := fun same => hk (by simp [same])
  have noValue : (attributeValue (dropBlanks (l :: rest))).1 = "" ∧
      (attributeValue (dropBlanks (l :: rest))).2.1 = l :: rest := by
    rw [dropBlanks_cons _ notBlank]
    simp only [attributeValue]
    split <;> simp_all
  rw [readAttribute.eq_1]
  split
  next l' more found =>
    rw [dropBlanks_cons _ (by simp), List.cons.injEq] at found
    obtain ⟨rfl, rfl⟩ := found
    simpa using noValue
  next found => simp [dropBlanks_cons] at found

/-! ## Scanning written pieces -/

theorem scanFrom_tagClose (off : Nat) (q : List Char) :
    scanFrom off ('>' :: q) = ⟨.tagClose, String.ofList ['>'], off⟩ :: scanFrom (off + 1) q :=
  scanFrom_lexeme off (x := ['>']) q (by simp) (by rw [List.singleton_append, cutAt_tagClose])
    (by rw [List.singleton_append, cutAt_tagClose]; rfl)

theorem Attribute.isWritable_iff {a : Attribute} :
    a.isWritable = true ↔ isAttributeName a.name = true ∧ '<' ∉ a.value.toList := by
  simp [Attribute.isWritable]

/-- A written attribute value is one `=` and one quoted string, neither of which a word can
continue. -/
theorem valueChars_head (a : Attribute) {rest : List Char}
    (stop : ∀ x ∈ rest.head?, isWordChar x = false) :
    ∀ x ∈ (valueChars a ++ rest).head?, isWordChar x = false := by
  unfold valueChars
  split
  · simpa using stop
  · simp [isWordChar]

/-- A written attribute starts with a blank and its name as one word. -/
theorem scanFrom_attributeChars (a : Attribute) (wa : a.isWritable = true) (off : Nat)
    {rest : List Char} (stop : ∀ x ∈ rest.head?, isWordChar x = false) :
    ∃ off', scanFrom off (attributeChars a ++ rest) =
      ⟨.blank, String.ofList [' '], off⟩ :: ⟨.word, a.name, off + 1⟩ ::
        scanFrom off' (valueChars a ++ rest) := by
  obtain ⟨c, t, spelled, words⟩ := isAttributeName_iff.1 (Attribute.isWritable_iff.1 wa).1
  have word : isWordChar c = true := words c (List.mem_cons_self ..)
  -- the name is one word: the value, or what follows, cannot continue it
  have nameRun : (t ++ (valueChars a ++ rest)).takeWhile isWordChar = t :=
    takeWhile_append_stop (fun x mem => words x (List.mem_cons_of_mem c mem))
      (valueChars_head a stop)
  have notBlank : isTagBlank c = false := (isWordChar_cases word).1
  have blankCut : cutAt ([' '] ++ (c :: t ++ (valueChars a ++ rest))) = ⟨.blank, 1, by omega⟩ := by
    rw [List.singleton_append, List.cons_append, cutAt_blank _ (by simp [isTagBlank])]
    simp [notBlank]
  have wordCut : cutAt (c :: t ++ (valueChars a ++ rest)) = ⟨.word, (c :: t).length, by simp⟩ := by
    rw [List.cons_append, cutAt_word _ word]
    simp [nameRun, Nat.add_comm]
  have named : String.ofList (c :: t) = a.name := by rw [← spelled, String.ofList_toList]
  refine ⟨off + 1 + utf8Length (c :: t), ?_⟩
  rw [attributeChars, spelled, List.cons_append, List.append_assoc, ← List.singleton_append,
    scanFrom_lexeme off _ (by simp) (by rw [blankCut]) (by rw [blankCut]; rfl),
    scanFrom_lexeme _ _ (by simp) (by rw [wordCut]) (by rw [wordCut]), named]
  rfl

/-- What follows the attributes of a start tag begins with the space before the next attribute
or with the `>` that closes the tag. -/
theorem renderAttributes_head (attrs : List Attribute) (R : List Char) :
    ∀ x ∈ ((renderAttributes attrs).toList ++ '>' :: R).head?, x = ' ' ∨ x = '>' := by
  cases attrs with
  | nil => simp [renderAttributes_toList_nil]
  | cons a rest => simp [renderAttributes_toList_cons, attributeChars]

theorem renderAttributes_head_not_word (attrs : List Attribute) (R : List Char) :
    ∀ x ∈ ((renderAttributes attrs).toList ++ '>' :: R).head?, isWordChar x = false := by
  intro x mem
  rcases renderAttributes_head attrs R x mem with rfl | rfl <;> simp [isWordChar, isTagBlank]

/-- After the blanks, what follows an attribute is the next attribute's name or the end of the
tag, never an `=`. -/
theorem dropBlanks_renderAttributes (attrs : List Attribute) (wa : ∀ a ∈ attrs, a.isWritable = true)
    (off : Nat) (R : List Char) :
    ∀ l ∈ (dropBlanks (scanFrom off ((renderAttributes attrs).toList ++ '>' :: R))).head?,
      l.kind ≠ .equals := by
  cases attrs with
  | nil =>
    rw [renderAttributes_toList_nil, List.nil_append, scanFrom_tagClose,
      dropBlanks_cons _ (by simp)]
    simp
  | cons a rest =>
    obtain ⟨off', scan⟩ := scanFrom_attributeChars a (wa a (List.mem_cons_self ..)) off
      (renderAttributes_head_not_word rest R)
    rw [renderAttributes_toList_cons, List.append_assoc, scan]
    simp [dropBlanks]

/-- Reading a written attribute inside a start tag adds it and goes on after it. -/
theorem readTagResult_attribute (a : Attribute) (wa : a.isWritable = true) (off : Nat)
    (acc : List Attribute) {rest : List Char} (stop : ∀ x ∈ rest.head?, isWordChar x = false)
    (bare : a.value = "" →
      ∀ off', ∀ l ∈ (dropBlanks (scanFrom off' rest)).head?, l.kind ≠ .equals) :
    ∃ off', readTagResult (scanFrom off (attributeChars a ++ rest)) acc =
      readTagResult (scanFrom off' rest) (a :: acc) := by
  obtain ⟨off₁, scan⟩ := scanFrom_attributeChars a wa off stop
  rw [scan, readTagResult_skip _ _ (by simp), readTagResult_word _ _ rfl]
  by_cases empty : a.value = ""
  · -- a bare name: the attribute has the empty value it was written without
    rw [valueChars, if_pos (by simp [empty]), List.nil_append]
    obtain ⟨named, same⟩ := readAttribute_bare a.name (bare empty off₁)
    refine ⟨off₁, ?_⟩
    rw [named, same, show a = ⟨a.name, ""⟩ from empty ▸ rfl]
  · rw [valueChars, if_neg (by simp [empty])]
    -- `="value"`: an `=` and one quoted string, whose inside decodes to the value
    have noLt : '<' ∉ (escapeAttribute a.value).toList := by
      rw [escapeAttribute_toList, List.mem_flatMap]
      rintro ⟨c, mem, lt⟩
      exact (Attribute.isWritable_iff.1 wa).2 ((lt_mem_escapedAttributeChar c).1 lt ▸ mem)
    have noQuote : '"' ∉ (escapeAttribute a.value).toList := by
      rw [escapeAttribute_toList, List.mem_flatMap]
      rintro ⟨c, -, quote⟩
      exact quote_not_mem_escapedAttributeChar c quote
    have quotedCut := cutAt_doubleQuoted _ rest noQuote noLt
    have scanValue := scanFrom_lexeme (off₁ + utf8Length ['='])
      (x := '"' :: ((escapeAttribute a.value).toList ++ ['"'])) rest (k := .doubleQuoted)
      (by simp) (by simp [quotedCut]) (by simp [quotedCut])
    rw [List.cons_append, ← List.singleton_append, scanFrom_lexeme off₁ _ (k := .equals) (by simp)
      (by rw [List.singleton_append, cutAt_equals])
      (by rw [List.singleton_append, cutAt_equals]; rfl),
      scanValue]
    refine ⟨off₁ + utf8Length ['='] +
      utf8Length ('"' :: ((escapeAttribute a.value).toList ++ ['"'])), ?_⟩
    rw [(readAttribute_quoted a.name _ _ _ _ _).2, (readAttribute_quoted a.name _ _ _ _ _).1]
    simp [decodeEntities_escapeAttribute]

/-- Reading the written attributes of a start tag up to its `>` gives them back in order. -/
theorem readTagResult_renderAttributes (attrs : List Attribute)
    (wa : ∀ a ∈ attrs, a.isWritable = true) (R : List Char) (off : Nat) (acc : List Attribute) :
    ∃ off', readTagResult (scanFrom off ((renderAttributes attrs).toList ++ '>' :: R)) acc =
      (acc.reverse ++ attrs, some false, scanFrom off' R) := by
  induction attrs generalizing off acc with
  | nil =>
    refine ⟨off + 1, ?_⟩
    rw [renderAttributes_toList_nil, List.nil_append, scanFrom_tagClose,
      readTagResult_tagClose _ _ rfl, List.append_nil]
  | cons a rest ih =>
    have waRest : ∀ b ∈ rest, b.isWritable = true := fun b mem => wa b (List.mem_cons_of_mem a mem)
    obtain ⟨off₁, step⟩ := readTagResult_attribute a (wa a (List.mem_cons_self ..)) off acc
      (renderAttributes_head_not_word rest R)
      (fun _ off' => dropBlanks_renderAttributes rest waRest off' R)
    obtain ⟨off₂, later⟩ := ih waRest off₁ (a :: acc)
    refine ⟨off₂, ?_⟩
    rw [renderAttributes_toList_cons, List.append_assoc, step, later]
    simp

/-! ## Events -/

theorem events_startTagOpen {l : Lexeme} {rest r : List Lexeme} {attrs : List Attribute}
    {selfClosed : Bool} (hk : l.kind = .startTagOpen)
    (read : readTagResult rest [] = (attrs, some selfClosed, r)) :
    events (l :: rest) =
      .start (String.ofList (l.text.toList.drop 1)) attrs selfClosed :: events r := by
  simp only [readTagResult, Prod.mk.injEq] at read
  obtain ⟨rfl, ending, rfl⟩ := read
  rw [events.eq_2]
  simp only [hk, ending]

theorem events_endTagOpen {l : Lexeme} (rest : List Lexeme) (hk : l.kind = .endTagOpen) :
    events (l :: rest) =
      .finish (String.ofList (l.text.toList.drop 2)) l.offset ::
        events (skipTagClose (dropBlanks rest)) := by
  rw [events.eq_2]
  simp only [hk]

/-- A run of lexemes that begin no tag, followed by nothing or by a tag, is one text event. -/
theorem events_run {l : Lexeme} {run after : List Lexeme}
    (plain : ∀ x ∈ l :: run, breaksText x = false)
    (stop : ∀ x ∈ after.head?, breaksText x = true) :
    events (l :: (run ++ after)) =
      .text (decodeEntities (String.join ((l :: run).map (·.text)))) :: events after := by
  have whole : (run ++ after).takeWhile (!breaksText ·) = run :=
    takeWhile_append_stop (fun x mem => by simp [plain x (List.mem_cons_of_mem l mem)])
      (fun x mem => by simp [stop x mem])
  have here : breaksText l = false := plain l (List.mem_cons_self ..)
  rw [events.eq_2]
  split
  case h_5 =>
    rw [whole]
    dsimp only
    rw [List.drop_left]
  -- the kinds that break a run do not stand first
  all_goals simp_all [breaksText]

theorem EndsText.head {q : List Char} (ends : EndsText q) : ∀ x ∈ q.head?, x = '<' := by
  rcases ends with rfl | ⟨c, t, -, rfl | rfl⟩ <;> simp

/-- What ends a run of text is scanned as nothing or as a lexeme that breaks the run. -/
theorem EndsText.breaks {q : List Char} (ends : EndsText q) (off : Nat) :
    ∀ l ∈ (scanFrom off q).head?, breaksText l = true := by
  rcases ends with rfl | ⟨c, t, alpha, rfl | rfl⟩
  · simp [scanFrom]
  · simp [scanFrom.eq_2, cutAt_startTagOpen t alpha, breaksText]
  · simp [scanFrom.eq_2, cutAt_endTagOpen t alpha, breaksText]

/-- A text that is not empty, written with its escapes and followed by what ends a run of text,
is read as one text event with the text itself. -/
theorem events_text (s : String) (nonempty : s ≠ "") {q : List Char} (ends : EndsText q)
    (off : Nat) :
    ∃ off', events (scanFrom off (s.toList.flatMap escapedTextChar ++ q)) =
      .text s :: events (scanFrom off' q) := by
  have noLt : '<' ∉ s.toList.flatMap escapedTextChar := by
    rw [List.mem_flatMap]
    rintro ⟨c, -, lt⟩
    exact lt_not_mem_escapedTextChar c lt
  obtain ⟨ls, off', scan, kinds, texts⟩ := scanFrom_plain q ends.head _ off noLt
  refine ⟨off', ?_⟩
  cases ls with
  | nil =>
    -- no lexemes would mean no characters, and so an empty text
    have written : s.toList.flatMap escapedTextChar = [] := by
      simpa [eq_comm (a := "")] using texts
    rw [List.flatMap_eq_nil_iff] at written
    obtain ⟨c, t, spelled⟩ := List.exists_cons_of_ne_nil (mt String.toList_eq_nil_iff.1 nonempty)
    exact absurd (written c (spelled ▸ List.mem_cons_self ..)) (escapedTextChar_ne_nil c)
  | cons l run =>
    rw [scan, List.cons_append,
      events_run (fun x mem => breaksText_eq_false (kinds x mem)) (ends.breaks off'), texts,
      ← escapeText_toList, String.ofList_toList, decodeEntities_escapeText]

/-- The opening of a start tag is one lexeme when what follows cannot continue the name. -/
theorem scanFrom_startTagOpen {tag : String} (named : isTagName tag = true) (off : Nat)
    {rest : List Char} (stop : ∀ x ∈ rest.head?, isNameChar x = false) :
    scanFrom off ('<' :: (tag.toList ++ rest)) =
      ⟨.startTagOpen, String.ofList ('<' :: tag.toList), off⟩ ::
        scanFrom (off + utf8Length ('<' :: tag.toList)) rest := by
  obtain ⟨c, t, spelled, alpha, nameChars⟩ := isTagName_iff.1 named
  have nameRun : (t ++ rest).takeWhile isNameChar = t := takeWhile_append_stop nameChars stop
  have cut : cutAt (('<' :: c :: t) ++ rest) =
      ⟨.startTagOpen, ('<' :: c :: t).length, by simp⟩ := by
    rw [List.cons_append, List.cons_append, cutAt_startTagOpen _ alpha]
    simp only [nameRun, List.length_cons, Cut.mk.injEq, true_and]
    omega
  rw [spelled, ← List.cons_append, scanFrom_lexeme off _ (by simp) (by rw [cut]) (by rw [cut])]

/-- The opening of an end tag is one lexeme when what follows cannot continue the name. -/
theorem scanFrom_endTagOpen {tag : String} (named : isTagName tag = true) (off : Nat)
    {rest : List Char} (stop : ∀ x ∈ rest.head?, isNameChar x = false) :
    scanFrom off ('<' :: '/' :: (tag.toList ++ rest)) =
      ⟨.endTagOpen, String.ofList ('<' :: '/' :: tag.toList), off⟩ ::
        scanFrom (off + utf8Length ('<' :: '/' :: tag.toList)) rest := by
  obtain ⟨c, t, spelled, alpha, nameChars⟩ := isTagName_iff.1 named
  have nameRun : (t ++ rest).takeWhile isNameChar = t := takeWhile_append_stop nameChars stop
  have cut : cutAt (('<' :: '/' :: c :: t) ++ rest) =
      ⟨.endTagOpen, ('<' :: '/' :: c :: t).length, by simp⟩ := by
    rw [List.cons_append, List.cons_append, List.cons_append, cutAt_endTagOpen _ alpha]
    simp only [nameRun, List.length_cons, Cut.mk.injEq, true_and]
    omega
  rw [spelled, ← List.cons_append, ← List.cons_append,
    scanFrom_lexeme off _ (by simp) (by rw [cut]) (by rw [cut])]

/-- A written start tag is read as one start event with its tag and attributes. -/
theorem events_startTag {tag : String} (named : isTagName tag = true) {attrs : List Attribute}
    (wa : ∀ a ∈ attrs, a.isWritable = true) (off : Nat) (R : List Char) :
    ∃ off', events (scanFrom off
        ('<' :: (tag.toList ++ ((renderAttributes attrs).toList ++ '>' :: R)))) =
      .start tag attrs false :: events (scanFrom off' R) := by
  -- the tag name ends where the attributes or the `>` begin
  have stop : ∀ x ∈ ((renderAttributes attrs).toList ++ '>' :: R).head?, isNameChar x = false :=
    fun x mem => by rcases renderAttributes_head attrs R x mem with rfl | rfl <;> decide
  obtain ⟨off₁, read⟩ :=
    readTagResult_renderAttributes attrs wa R (off + utf8Length ('<' :: tag.toList)) []
  refine ⟨off₁, ?_⟩
  rw [scanFrom_startTagOpen named off stop, events_startTagOpen rfl read]
  simp

/-- A written end tag is read as one finish event with its tag. -/
theorem events_endTag {tag : String} (named : isTagName tag = true) (off : Nat) (q : List Char) :
    ∃ off', events (scanFrom off ('<' :: '/' :: (tag.toList ++ '>' :: q))) =
      .finish tag off :: events (scanFrom off' q) := by
  have stop : ∀ x ∈ ('>' :: q).head?, isNameChar x = false := fun x mem => by
    simp only [List.head?_cons, Option.mem_def, Option.some.injEq] at mem
    subst mem
    decide
  refine ⟨off + utf8Length ('<' :: '/' :: tag.toList) + 1, ?_⟩
  rw [scanFrom_endTagOpen named off stop, scanFrom_tagClose, events_endTagOpen _ rfl,
    dropBlanks_cons _ (by simp)]
  simp [skipTagClose]

/-- An end tag ends a run of text. -/
theorem endsText_endTag {tag : String} (named : isTagName tag = true) (q : List Char) :
    EndsText ('<' :: '/' :: (tag.toList ++ '>' :: q)) := by
  obtain ⟨c, t, spelled, alpha, -⟩ := isTagName_iff.1 named
  exact .inr ⟨c, t ++ '>' :: q, alpha, .inr (by rw [spelled, List.cons_append])⟩

end ReactiveView.Markup
