/-!
# Blank characters

A character is blank when it has the Unicode `White_Space` property. Trimming a text and
splitting it into words use this class; the markup scanner has a narrower one of its own.
`splitChar` cuts a text at every occurrence of one character.

The main facts: every character that core calls whitespace is blank (`isBlank_of_isWhitespace`),
and a trimmed text does not start with a blank (`trimChars_head`).
-/
namespace ReactiveView.Text

/-- Unicode `White_Space`: tab to carriage return, space, next line, no-break space, the ogham
space mark, the en quad to hair space, the line and paragraph separators, the narrow no-break
space, the medium mathematical space and the ideographic space. -/
def isBlank (c : Char) : Bool :=
  let n := c.toNat
  (0x09 ≤ n && n ≤ 0x0D) || n == 0x20 || n == 0x85 || n == 0xA0 || n == 0x1680 ||
    (0x2000 ≤ n && n ≤ 0x200A) || n == 0x2028 || n == 0x2029 || n == 0x202F ||
    n == 0x205F || n == 0x3000

/-- Core's whitespace (space, tab, line feed, carriage return) is blank. -/
theorem isBlank_of_isWhitespace (c : Char) (h : c.isWhitespace = true) : isBlank c = true := by
  simp only [Char.isWhitespace, Bool.or_eq_true, decide_eq_true_eq] at h
  rcases h with ((h | h) | h) | h <;> subst h <;> decide

/-- Drop the blanks at both ends of a character list. -/
def trimChars (cs : List Char) : List Char :=
  ((cs.dropWhile isBlank).reverse.dropWhile isBlank).reverse

/-- Drop the blanks at both ends of a text. -/
def trim (s : String) : String :=
  String.ofList (trimChars s.toList)

/-- What `dropWhile` stops at fails the test. -/
theorem head_dropWhile_false (p : Char → Bool) :
    ∀ (l : List Char) (x : Char), (l.dropWhile p).head? = some x → p x = false
  | [], x, h => by simp at h
  | c :: r, x, h => by
    by_cases hc : p c
    · rw [List.dropWhile_cons, if_pos hc] at h; exact head_dropWhile_false p r x h
    · rw [List.dropWhile_cons, if_neg hc] at h
      simp only [List.head?_cons, Option.some.injEq] at h
      subst h; simpa using hc

/-- A trimmed list does not start with a blank. -/
theorem trimChars_head (cs : List Char) (c : Char) (rest : List Char)
    (h : trimChars cs = c :: rest) : isBlank c = false := by
  unfold trimChars at h
  generalize hd : cs.dropWhile isBlank = d at h
  have hpre : ((d.reverse).dropWhile isBlank).reverse <+: d := by
    have hs : (d.reverse).dropWhile isBlank <:+ d.reverse := List.dropWhile_suffix isBlank
    rw [← List.reverse_reverse ((d.reverse).dropWhile isBlank)] at hs
    exact List.reverse_suffix.mp hs
  rw [h] at hpre
  obtain ⟨t, ht⟩ := hpre
  have hhead : d.head? = some c := by rw [← ht]; simp
  rw [← hd] at hhead
  exact head_dropWhile_false isBlank cs c hhead

/-- The pieces of a text between the occurrences of a character, in order: `n` occurrences give
`n + 1` pieces, empty ones included. -/
def splitChar (s : String) (c : Char) : List String :=
  (s.toList.splitOn c).map String.ofList

/-- The words of a text: the maximal runs of characters that are not blank. -/
def words (s : String) : List String :=
  ((s.toList.splitBy fun a b => isBlank a == isBlank b).filter
    fun run => !(run.all isBlank)).map String.ofList

end ReactiveView.Text
