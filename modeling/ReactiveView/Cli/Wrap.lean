/-!
# Filling paragraphs

Diagnostic reports are filled to a width: each line of a message is cut into words at runs of
spaces, a word wider than a line is broken into pieces, and the words are set greedily, a line
taking words while they fit. The first line of the message follows one indent and every later
line another; an empty line still gets its indent.

A word keeps the spaces that follow it, and they count toward the width of a line only when
another word follows on that line; a hyphen between two letters or digits is a place where a
word may be split, the hyphen staying on the first piece. Widths are counted in terminal
columns: escape sequences that set colours take none, wide characters take two.
-/
namespace ReactiveView.Cli

/-- A text in a terminal style, such as `1` for bold or `31` for red, reset after it. -/
def styled (code text : String) : String := "\x1b[" ++ code ++ "m" ++ text ++ "\x1b[0m"

/-- The columns a character takes in a terminal: none for control characters and combining
marks, two for the wide ideographs and pictographs, one for the rest. -/
def charWidth (c : Char) : Nat :=
  let n := c.toNat
  if n < 0x20 || (0x7f ≤ n && n < 0xa0) then 0
  else if (0x300 ≤ n && n < 0x370) || n = 0x200b then 0
  else if (0x1100 ≤ n && n < 0x1160) || (0x2e80 ≤ n && n < 0xa4d0) || (0xac00 ≤ n && n < 0xd7a4)
      || (0xf900 ≤ n && n < 0xfb00) || (0xfe30 ≤ n && n < 0xfe50) || (0xff00 ≤ n && n < 0xff61)
      || (0xffe0 ≤ n && n < 0xffe7) || (0x1f300 ≤ n && n < 0x1f650)
      || (0x1f900 ≤ n && n < 0x1fa00) || (0x20000 ≤ n && n < 0x3fffe) then 2
  else 1

theorem dropWhile_length_le {α : Type} (p : α → Bool) (l : List α) :
    (l.dropWhile p).length ≤ l.length :=
  (List.dropWhile_suffix p).length_le

/-- Whether a character ends an escape sequence. -/
def escapeFinal (c : Char) : Bool := '\x40' ≤ c && c ≤ '\x7e'

/-- What follows the escape sequence whose parameters start the characters. -/
def afterEscape (cs : List Char) : List Char := (cs.dropWhile fun c => !escapeFinal c).drop 1

theorem afterEscape_length_le (cs : List Char) : (afterEscape cs).length ≤ cs.length := by
  have := dropWhile_length_le (fun c => !escapeFinal c) cs
  simp only [afterEscape, List.length_drop]
  omega

/-- The columns characters take, skipping escape sequences `ESC [ ... final`. -/
def widthOf : List Char → Nat
  | [] => 0
  | '\x1b' :: '[' :: rest => widthOf (afterEscape rest)
  | c :: rest => charWidth c + widthOf rest
  termination_by cs => cs.length
  decreasing_by
    all_goals simp_wf
    all_goals
      have := afterEscape_length_le rest
      omega

/-- The columns a string takes. -/
def displayWidth (s : String) : Nat := widthOf s.toList

/-- A word of a line: its text, the spaces after it, and what is printed after it when a line
ends there (a hyphen for a word split at a hyphen-free point, else nothing). -/
structure Word where
  text : String
  space : String
  penalty : String
  deriving Inhabited, Repr

namespace Word

/-- The columns of the word's text. -/
def width (w : Word) : Nat := displayWidth w.text

/-- A word from a run of characters and the spaces after them. -/
def ofChars (body blanks : List Char) : Word := ⟨String.ofList body, String.ofList blanks, ""⟩

end Word

/-- Cut a line into words: each word is a run of non-spaces with the spaces after it; leading
spaces make a word with empty text. -/
def wordsFrom (body : List Char) : List Char → List Word
  | [] => if body.isEmpty then [] else [Word.ofChars body []]
  | ' ' :: rest =>
    let blanks := ' ' :: rest.takeWhile (· = ' ')
    let after := rest.dropWhile (· = ' ')
    Word.ofChars body blanks :: wordsFrom [] after
  | c :: rest => wordsFrom (body ++ [c]) rest
  termination_by cs => cs.length
  decreasing_by
    all_goals simp_wf
    all_goals
      have := dropWhile_length_le (· = ' ') rest
      omega

/-- The words of a line. -/
def findWords (line : String) : List Word := wordsFrom [] line.toList

/-- Letters and digits, for hyphen splitting. -/
def isWordChar (c : Char) : Bool := c.isAlphanum || c.toNat ≥ 0xc0

/-- Split a word's text after each hyphen that stands between two letters or digits. -/
def hyphenPieces : List Char → List Char → Option Char → List (List Char)
  | acc, [], _ => [acc]
  | acc, '-' :: next :: rest, some prev =>
    if isWordChar prev && isWordChar next then (acc ++ ['-']) :: hyphenPieces [] (next :: rest) (some '-')
    else hyphenPieces (acc ++ ['-']) (next :: rest) (some '-')
  | acc, c :: rest, _ => hyphenPieces (acc ++ [c]) rest (some c)

/-- The pieces of a word split at its hyphens; every piece but the last ends in its hyphen and
has no spaces after it. -/
def splitHyphens (w : Word) : List Word :=
  match hyphenPieces [] w.text.toList none with
  | [] => [w]
  | pieces =>
    let n := pieces.length
    (pieces.zipIdx.map fun (p, i) =>
      if i + 1 = n then ⟨String.ofList p, w.space, w.penalty⟩ else ⟨String.ofList p, "", ""⟩)

/-- Cut characters into pieces no wider than `width`, each piece taking at least one
character; the pieces come with the columns of each. -/
def breakChars (width : Nat) : List Char → List Char → Nat → List (List Char × Nat)
  | acc, [], w => [(acc, w)]
  | acc, c :: rest, w =>
    if w > 0 && w + charWidth c > width then (acc, w) :: breakChars width [c] rest (charWidth c)
    else breakChars width (acc ++ [c]) rest (w + charWidth c)

/-- A word wider than `width` broken into pieces; the last keeps the word's spaces. -/
def breakApart (width : Nat) (w : Word) : List Word :=
  if w.width ≤ width then [w]
  else
    let pieces := breakChars width [] w.text.toList 0
    let n := pieces.length
    pieces.zipIdx.map fun ((p, _), i) =>
      if i + 1 = n then ⟨String.ofList p, w.space, w.penalty⟩ else ⟨String.ofList p, "", ""⟩

/-- Set words greedily into lines: the first line is `first` columns wide, the others `rest`.
A word starts a new line when the line has a word already and the word, with its penalty, does
not fit. -/
def firstFit (first rest : Nat) : List Word → List (List Word) :=
  let rec go (lines : List (List Word)) (line : List Word) (used : Nat) : List Word → List (List Word)
    | [] => (line.reverse :: lines).reverse
    | w :: ws =>
      let limit := if lines.isEmpty then first else rest
      if !line.isEmpty && used + w.width + displayWidth w.penalty > limit then
        go (line.reverse :: lines) [w] (w.width + displayWidth w.space) ws
      else
        go lines (w :: line) (used + w.width + displayWidth w.space) ws
  go [] [] 0

/-- The text of a line of words: every word with its spaces, the last without them but with
its penalty. -/
def lineText : List Word → String
  | [] => ""
  | [w] => w.text ++ w.penalty
  | w :: ws => w.text ++ w.space ++ lineText ws

/-- Fill one line of a message; `started` says whether lines were written before it. -/
def fillLine (width : Nat) (initial subsequent : String) (started : Bool) (line : String) :
    List String :=
  let firstWidth := width - displayWidth initial
  let restWidth := width - displayWidth subsequent
  let words := ((findWords line).flatMap splitHyphens).flatMap (breakApart restWidth)
  let words := if initial.isEmpty then words else ⟨"", "", ""⟩ :: words
  let lines := firstFit firstWidth restWidth words
  lines.zipIdx.map fun (l, i) =>
    let indent := if !started && i = 0 then initial else subsequent
    if l.isEmpty then "" else indent ++ lineText l

/-- Fill a message to `width` columns: its first line follows `initial`, every later line
`subsequent`. -/
def fill (width : Nat) (initial subsequent : String) (text : String) : String :=
  let rec go (started : Bool) : List String → List String
    | [] => []
    | l :: ls =>
      let out := fillLine width initial subsequent started l
      out ++ go (started || !out.isEmpty) ls
  "\n".intercalate (go false (text.splitOn "\n"))

end ReactiveView.Cli
