import ReactiveView.Markup.Entity
import ReactiveView.Markup.Render
/-!
# Escaping and decoding

Writing text escapes `&`, `<` and `>` as the references `&amp;`, `&lt;` and `&gt;`; writing an
attribute value escapes `&` and `"` as `&amp;` and `&quot;`. Decoding character references
undoes both (`decodeEntities_escapeText`, `decodeEntities_escapeAttribute`): every `&` of an
escaped text starts one of these references, and every other character stands for itself.

An escaped text holds no `<` and no `>`, and an escaped value holds no `"`; an escaped value
holds a `<` exactly when the value does, since `<` is not escaped there.
-/
namespace ReactiveView.Markup

set_option autoImplicit false

/-! ## Escapes, character by character -/

/-- The characters a character of text is written as. -/
def escapedTextChar : Char → List Char
  | '&' => ['&', 'a', 'm', 'p', ';']
  | '<' => ['&', 'l', 't', ';']
  | '>' => ['&', 'g', 't', ';']
  | c => [c]

/-- The characters a character of an attribute value is written as. -/
def escapedAttributeChar : Char → List Char
  | '&' => ['&', 'a', 'm', 'p', ';']
  | '"' => ['&', 'q', 'u', 'o', 't', ';']
  | c => [c]

theorem escapeText_toList (s : String) :
    (escapeText s).toList = s.toList.flatMap escapedTextChar := by
  simp only [escapeText, String.toList_join, List.flatMap_map]
  congr 1
  funext c
  unfold escapedTextChar
  split <;> simp_all

theorem escapeAttribute_toList (s : String) :
    (escapeAttribute s).toList = s.toList.flatMap escapedAttributeChar := by
  simp only [escapeAttribute, String.toList_join, List.flatMap_map]
  congr 1
  funext c
  unfold escapedAttributeChar
  split <;> simp_all

/-! ## What an escape leaves out -/

theorem lt_not_mem_escapedTextChar (c : Char) : '<' ∉ escapedTextChar c := by
  unfold escapedTextChar
  split <;> simp_all [eq_comm]

theorem gt_not_mem_escapedTextChar (c : Char) : '>' ∉ escapedTextChar c := by
  unfold escapedTextChar
  split <;> simp_all [eq_comm]

theorem quote_not_mem_escapedAttributeChar (c : Char) : '"' ∉ escapedAttributeChar c := by
  unfold escapedAttributeChar
  split <;> simp_all [eq_comm]

theorem lt_mem_escapedAttributeChar (c : Char) : '<' ∈ escapedAttributeChar c ↔ c = '<' := by
  unfold escapedAttributeChar
  split <;> simp_all [eq_comm]

theorem escapedTextChar_ne_nil (c : Char) : escapedTextChar c ≠ [] := by
  unfold escapedTextChar
  split <;> simp

/-! ## Decoding undoes escaping -/

/-- A reference that is short enough and names a character decodes to it. -/
theorem decodeChars_reference {rest name after : List Char} {c : Char}
    (found : untilSemicolon rest = some (name, after)) (short : byteLength name + 1 ≤ 10)
    (named : reference? name = some c) : decodeChars ('&' :: rest) = c :: decodeChars after := by
  rw [decodeChars.eq_2]
  split
  next name' after' found' =>
    rw [found, Option.some.injEq, Prod.mk.injEq] at found'
    obtain ⟨rfl, rfl⟩ := found'
    simp [short, named]
  next missing => simp [found] at missing

/-- The name before the first `;`. -/
theorem untilSemicolon_append (name rest : List Char) (plain : ';' ∉ name) :
    untilSemicolon (name ++ ';' :: rest) = some (name, rest) := by
  induction name with
  | nil => simp [untilSemicolon]
  | cons x name ih =>
    have hx : x ≠ ';' := fun same => plain (same ▸ List.mem_cons_self ..)
    rw [List.cons_append, untilSemicolon.eq_3 _ _ hx,
      ih (fun mem => plain (List.mem_cons_of_mem x mem))]
    rfl

/-- Each escape decodes back to the character it stands for. -/
theorem decodeChars_escapedTextChar (c : Char) (rest : List Char) :
    decodeChars (escapedTextChar c ++ rest) = c :: decodeChars rest := by
  unfold escapedTextChar
  split
  · exact decodeChars_reference (untilSemicolon_append ['a', 'm', 'p'] rest (by decide))
      (by decide) (by decide)
  · exact decodeChars_reference (untilSemicolon_append ['l', 't'] rest (by decide))
      (by decide) (by decide)
  · exact decodeChars_reference (untilSemicolon_append ['g', 't'] rest (by decide))
      (by decide) (by decide)
  · next _ notAmp _ _ => exact decodeChars.eq_3 c rest notAmp

theorem decodeChars_escapedAttributeChar (c : Char) (rest : List Char) :
    decodeChars (escapedAttributeChar c ++ rest) = c :: decodeChars rest := by
  unfold escapedAttributeChar
  split
  · exact decodeChars_reference (untilSemicolon_append ['a', 'm', 'p'] rest (by decide))
      (by decide) (by decide)
  · exact decodeChars_reference (untilSemicolon_append ['q', 'u', 'o', 't'] rest (by decide))
      (by decide) (by decide)
  · next _ notAmp _ => exact decodeChars.eq_3 c rest notAmp

/-- Decoding an escaped text gives the text back. -/
theorem decodeEntities_escapeText (s : String) : decodeEntities (escapeText s) = s := by
  have chars : ∀ cs : List Char, decodeChars (cs.flatMap escapedTextChar) = cs := by
    intro cs
    induction cs with
    | nil => simp [decodeChars]
    | cons c cs ih => rw [List.flatMap_cons, decodeChars_escapedTextChar, ih]
  rw [decodeEntities, escapeText_toList, chars, String.ofList_toList]

/-- Decoding an escaped attribute value gives the value back. -/
theorem decodeEntities_escapeAttribute (s : String) :
    decodeEntities (escapeAttribute s) = s := by
  have chars : ∀ cs : List Char, decodeChars (cs.flatMap escapedAttributeChar) = cs := by
    intro cs
    induction cs with
    | nil => simp [decodeChars]
    | cons c cs ih => rw [List.flatMap_cons, decodeChars_escapedAttributeChar, ih]
  rw [decodeEntities, escapeAttribute_toList, chars, String.ofList_toList]

end ReactiveView.Markup
