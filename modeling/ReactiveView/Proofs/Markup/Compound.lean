import ReactiveView.Markup.Selector
import ReactiveView.Proofs.Markup.Scanning
import ReactiveView.Proofs.Markup.Query
/-!
# The compound-selector grammar

A compound selector is written as an optional tag name followed by `#id` and `.class` parts
(`SelectorPart`); the tag and every name are non-empty runs of ASCII letters, digits, `-` and
`_`, and at most one part is an id. `Compound text tag parts` says that `text` is written so,
and `Selector.ofParts tag parts` is the selector it stands for: the tag, the name of the id part
and the names of the class parts in order.

`Selector.parse` accepts exactly these texts once the blanks around them are trimmed, and refuses
every other text with the text as given (`Selector.parse_accepts_compounds`). It reads the tag up
to the first mark and then one part at a time, each name up to the next mark; a name never
holds a mark, so this cuts a written compound where it was joined (`readParts_parts`), and
everything `readParts` accepts is such a run of parts (`parts_of_readParts`).
-/
namespace ReactiveView.Markup

set_option autoImplicit false

/-- An id or class part of a compound selector. -/
inductive SelectorPart where
  | id (name : String)
  | cls (name : String)
  deriving DecidableEq, Repr

namespace SelectorPart

/-- The character a part starts with. -/
def mark : SelectorPart → Char
  | .id _ => '#'
  | .cls _ => '.'

/-- The name a part carries. -/
def name : SelectorPart → String
  | .id n => n
  | .cls n => n

/-- A part as written: its mark, then its name. -/
def text (p : SelectorPart) : String := String.singleton p.mark ++ p.name

/-- The name of an id part. -/
def id? : SelectorPart → Option String
  | .id n => some n
  | .cls _ => none

/-- The name of a class part. -/
def class? : SelectorPart → Option String
  | .cls n => some n
  | .id _ => none

/-- The characters of a part as written. -/
def chars (p : SelectorPart) : List Char := p.mark :: p.name.toList

theorem text_toList (p : SelectorPart) : p.text.toList = p.chars := by
  simp [text, chars]

theorem join_text_toList (parts : List SelectorPart) :
    (String.join (parts.map text)).toList = parts.flatMap chars := by
  simp [String.toList_join, List.flatMap_map, text_toList]

theorem isPartMark_mark (p : SelectorPart) : isPartMark p.mark = true := by
  cases p <;> rfl

end SelectorPart

/-- `text` is a compound selector written as `tag` (empty when there is none) followed by
`parts`: the text is not empty, the tag and every part's name are selector names, and at most
one part is an id. -/
structure Compound (text tag : String) (parts : List SelectorPart) : Prop where
  spelled : text = tag ++ String.join (parts.map SelectorPart.text)
  nonempty : text ≠ ""
  tagName : tag = "" ∨ isSelectorName tag.toList = true
  names : ∀ p ∈ parts, isSelectorName p.name.toList = true
  oneId : (parts.filterMap SelectorPart.id?).length ≤ 1

/-- The selector a tag and a run of parts stand for. -/
def Selector.ofParts (tag : String) (parts : List SelectorPart) : Selector :=
  ⟨if tag = "" then none else some tag, (parts.filterMap SelectorPart.id?).head?,
    parts.filterMap SelectorPart.class?⟩

/-! ## Names and marks -/

/-- A name character is never a mark. -/
theorem isPartMark_of_nameChar {c : Char} (named : isNameCharOfSelector c = true) :
    isPartMark c = false := by
  cases marked : isPartMark c with
  | false => rfl
  | true =>
    have either : c = '#' ∨ c = '.' := by simpa [isPartMark] using marked
    rcases either with rfl | rfl <;> simp [isNameCharOfSelector] at named

theorem nameChars_of_isSelectorName {cs : List Char} (named : isSelectorName cs = true) :
    ∀ c ∈ cs, (!isPartMark c) = true := by
  intro c mem
  have all : cs.all isNameCharOfSelector = true := by
    simp only [isSelectorName, Bool.and_eq_true] at named
    exact named.2
  simp [isPartMark_of_nameChar (List.all_eq_true.1 all c mem)]

/-- A run of parts starts with a mark, if it starts at all. -/
theorem head_flatMap_chars (parts : List SelectorPart) :
    ∀ c ∈ (parts.flatMap SelectorPart.chars).head?, (!isPartMark c) = false := by
  cases parts with
  | nil => simp
  | cons p parts => simp [SelectorPart.chars, SelectorPart.isPartMark_mark]

/-- Dropping a run of `P` by its length is dropping while `P` holds. -/
theorem drop_length_takeWhile {α : Type} (P : α → Bool) (l : List α) :
    l.drop (l.takeWhile P).length = l.dropWhile P := by
  have whole := List.takeWhile_append_dropWhile (p := P) (l := l)
  calc l.drop (l.takeWhile P).length
      = (l.takeWhile P ++ l.dropWhile P).drop (l.takeWhile P).length := by rw [whole]
    _ = l.dropWhile P := List.drop_left

/-- Reading a name up to the next mark takes exactly a written name. -/
theorem takeWhile_name {name : List Char} (named : isSelectorName name = true)
    (parts : List SelectorPart) :
    (name ++ parts.flatMap SelectorPart.chars).takeWhile (!isPartMark ·) = name :=
  takeWhile_append_stop (nameChars_of_isSelectorName named) (head_flatMap_chars parts)

/-- What is left after a name read up to the next mark starts at a mark. -/
theorem marked_after_name (cs : List Char) :
    ∀ c ∈ (cs.drop (cs.takeWhile (!isPartMark ·)).length).head?, isPartMark c = true := by
  intro c mem
  rw [drop_length_takeWhile] at mem
  simpa using Text.head_dropWhile_false _ cs c mem

/-! ## Reading the parts -/

/-- A written run of parts is read back part by part: the id is the one already read or the
run's own, and the class names follow those already read, in order. -/
theorem readParts_parts : ∀ (parts : List SelectorPart) (id : Option String) (classes : List String),
    (∀ p ∈ parts, isSelectorName p.name.toList = true) →
    (id.isSome → parts.filterMap SelectorPart.id? = []) →
    (parts.filterMap SelectorPart.id?).length ≤ 1 →
    readParts (parts.flatMap SelectorPart.chars) id classes =
      some (id.or (parts.filterMap SelectorPart.id?).head?,
        classes.reverse ++ parts.filterMap SelectorPart.class?)
  | [], id, classes, _, _, _ => by cases id <;> simp [readParts]
  | p :: parts, id, classes, names, fresh, oneId => by
    have named := names p (List.mem_cons_self ..)
    have rest := fun q (mem : q ∈ parts) => names q (List.mem_cons_of_mem p mem)
    have cut := takeWhile_name named parts
    cases p with
    | id n =>
      -- an id part: none was read before, and none follows
      have unread : id = none := by
        cases id with
        | none => rfl
        | some _ => simp [SelectorPart.id?] at fresh
      have none_after : parts.filterMap SelectorPart.id? = [] := by
        simpa [SelectorPart.id?] using oneId
      subst unread
      rw [List.flatMap_cons, SelectorPart.chars, List.cons_append, readParts]
      simp only [SelectorPart.mark, SelectorPart.name] at cut named ⊢
      simp only [cut, named, List.drop_left', String.ofList_toList]
      rw [readParts_parts parts (some n) classes rest (fun _ => none_after) (by simp [none_after])]
      simp [List.filterMap_cons, SelectorPart.id?, SelectorPart.class?, none_after]
    | cls n =>
      rw [List.flatMap_cons, SelectorPart.chars, List.cons_append, readParts]
      simp only [SelectorPart.mark, SelectorPart.name] at cut named ⊢
      simp only [cut, named, List.drop_left', String.ofList_toList]
      rw [readParts_parts parts id (n :: classes) rest
        (by simpa [List.filterMap_cons, SelectorPart.id?] using fresh)
        (by simpa [List.filterMap_cons, SelectorPart.id?] using oneId)]
      simp [List.filterMap_cons, SelectorPart.id?, SelectorPart.class?]

/-- Whatever `readParts` accepts from a text that starts at a mark is a written run of parts,
with the names it gives. -/
theorem parts_of_readParts (cs : List Char) (id : Option String) (classes : List String)
    {id' : Option String} {classes' : List String}
    (marked : ∀ c ∈ cs.head?, isPartMark c = true)
    (read : readParts cs id classes = some (id', classes')) :
    ∃ parts : List SelectorPart, cs = parts.flatMap SelectorPart.chars ∧
      (∀ p ∈ parts, isSelectorName p.name.toList = true) ∧
      (id.isSome → parts.filterMap SelectorPart.id? = []) ∧
      (parts.filterMap SelectorPart.id?).length ≤ 1 ∧
      id' = id.or (parts.filterMap SelectorPart.id?).head? ∧
      classes' = classes.reverse ++ parts.filterMap SelectorPart.class? := by
  fun_induction readParts cs id classes with
  | case1 id classes =>
    simp only [Option.some.injEq, Prod.mk.injEq] at read
    obtain ⟨rfl, rfl⟩ := read
    exact ⟨[], rfl, by simp, by simp, by simp, by cases id <;> rfl, by simp⟩
  | case2 m rest id classes name bad => simp at read
  | case3 m rest id classes name _ _ taken => simp at read
  | case4 m rest id classes name named isId unread ih =>
    -- an id part, then the parts that start at the next mark
    obtain rfl : m = '#' := by simpa using isId
    obtain rfl : id = none := by simpa using unread
    obtain ⟨parts, spelled, names, fresh, oneId, rfl, rfl⟩ := ih (marked_after_name rest) read
    have none_after : parts.filterMap SelectorPart.id? = [] := fresh rfl
    refine ⟨.id (String.ofList name) :: parts, ?_, ?_, by simp, ?_, ?_, ?_⟩
    · rw [List.flatMap_cons, ← spelled, drop_length_takeWhile]
      simp [SelectorPart.chars, SelectorPart.mark, SelectorPart.name, name]
    · exact List.forall_mem_cons.2 ⟨by simpa [SelectorPart.name] using named, names⟩
    · simp [SelectorPart.id?, none_after]
    · simp [SelectorPart.id?]
    · simp [List.filterMap_cons, SelectorPart.class?]
  | case5 m rest id classes name named isClass ih =>
    -- a class part: the mark is the other one
    obtain rfl : m = '.' := by
      have notId : m ≠ '#' := by simpa using isClass
      have either : m = '#' ∨ m = '.' := by simpa [isPartMark] using marked m rfl
      exact either.resolve_left notId
    obtain ⟨parts, spelled, names, fresh, oneId, rfl, rfl⟩ := ih (marked_after_name rest) read
    refine ⟨.cls (String.ofList name) :: parts, ?_, ?_, ?_, ?_, ?_, ?_⟩
    · rw [List.flatMap_cons, ← spelled, drop_length_takeWhile]
      simp [SelectorPart.chars, SelectorPart.mark, SelectorPart.name, name]
    · exact List.forall_mem_cons.2 ⟨by simpa [SelectorPart.name] using named, names⟩
    · simpa [List.filterMap_cons, SelectorPart.id?] using fresh
    · simpa [List.filterMap_cons, SelectorPart.id?] using oneId
    · simp [List.filterMap_cons, SelectorPart.id?]
    · simp [SelectorPart.class?]

/-! ## Reading a selector -/

namespace Selector

/-- A compound selector as written reads as the selector it stands for. -/
theorem parse_of_compound {s tag : String} {parts : List SelectorPart}
    (written : Compound (Text.trim s) tag parts) : parse s = .ok (ofParts tag parts) := by
  have chars : Text.trimChars s.toList = tag.toList ++ parts.flatMap SelectorPart.chars := by
    have spelled := congrArg String.toList written.spelled
    rw [String.toList_append, SelectorPart.join_text_toList] at spelled
    simpa [Text.trim] using spelled
  have nonempty : tag.toList ++ parts.flatMap SelectorPart.chars ≠ [] := by
    rw [← chars]
    intro empty
    exact written.nonempty (by simp [Text.trim, empty])
  -- the tag is read up to the first mark, and it is a name or nothing
  have tagCut : (tag.toList ++ parts.flatMap SelectorPart.chars).takeWhile (!isPartMark ·) =
      tag.toList := by
    rcases written.tagName with empty | named
    · exact takeWhile_append_stop (by simp [empty]) (head_flatMap_chars parts)
    · exact takeWhile_name named parts
  have tagOk : (!tag.toList.isEmpty && !isSelectorName tag.toList) = false := by
    rcases written.tagName with empty | named <;> simp_all
  have partsRead := readParts_parts parts none [] written.names (by simp) written.oneId
  unfold parse
  simp only [chars, tagCut, List.drop_left', tagOk, Bool.false_eq_true, if_false, partsRead]
  simp only [List.isEmpty_eq_false_iff.2 nonempty, Bool.false_eq_true, if_false]
  simp [ofParts, String.toList_eq_nil_iff]

/-- What reads as a selector is a compound selector as written, and the selector it stands
for. -/
theorem compound_of_parse {s : String} {sel : Selector} (read : parse s = .ok sel) :
    ∃ tag parts, Compound (Text.trim s) tag parts ∧ sel = ofParts tag parts := by
  unfold parse at read
  dsimp only at read
  split at read
  · cases read
  next nonempty =>
    split at read
    · cases read
    next tagOk =>
      split at read
      next id classes partsRead =>
        cases read
        obtain ⟨parts, spelled, names, -, oneId, rfl, rfl⟩ :=
          parts_of_readParts _ none [] (marked_after_name _) partsRead
        have whole : Text.trimChars s.toList =
            (Text.trimChars s.toList).takeWhile (!isPartMark ·) ++ parts.flatMap SelectorPart.chars := by
          rw [← spelled, drop_length_takeWhile, List.takeWhile_append_dropWhile]
        generalize (Text.trimChars s.toList).takeWhile (!isPartMark ·) = tagPart at whole tagOk ⊢
        refine ⟨String.ofList tagPart, parts, ⟨?_, ?_, ?_, names, oneId⟩, ?_⟩
        · apply String.toList_injective
          rw [String.toList_append, SelectorPart.join_text_toList]
          simp [Text.trim, whole]
        · simpa [Text.trim, String.ofList_eq_empty_iff] using nonempty
        · cases tagPart with
          | nil => exact .inl rfl
          | cons c cs => exact .inr (by simpa using tagOk)
        · simp [ofParts, String.ofList_eq_empty_iff]
      · cases read

/-- Reading a selector accepts exactly the compound selectors as written, blanks around them
aside: a text reads as a selector exactly when, trimmed, it is a tag or nothing followed by
`#id` and `.class` parts with every name a selector name and at most one id, and the selector
read has that tag, that id and those classes in order. Any other text is refused with the text
as given. -/
theorem parse_accepts_compounds (s : String) :
    (∀ sel, parse s = .ok sel ↔
      ∃ tag parts, Compound (Text.trim s) tag parts ∧ sel = ofParts tag parts) ∧
    ∀ f, parse s = .error f → f = .invalidSelector s := by
  refine ⟨fun sel => ⟨compound_of_parse, ?_⟩, fun _ refused => parse_error refused⟩
  rintro ⟨tag, parts, written, rfl⟩
  exact parse_of_compound written

end Selector

end ReactiveView.Markup
