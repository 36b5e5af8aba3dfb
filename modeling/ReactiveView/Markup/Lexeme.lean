/-!
# Lexemes of markup

Markup text is cut into lexemes, each the longest piece that one of the lexeme classes allows:

* a comment, from `<!--` to the first `-->` after it, or to the end;
* a declaration `<!` letter … `>`;
* the opening of an end tag `</name` and of a start tag `<name`, where a name is an ASCII
  letter followed by ASCII letters, digits and `-`;
* `>`, `/>` and `=`;
* a quoted string, `"…"` or `'…'`, holding no `<` and not its own quote;
* a run of blanks (space, tab, carriage return, line feed, form feed);
* a word: a run of characters that are neither blank nor one of `"'<>=/`.

Where no class fits, the lexeme is `unknown` and covers every character that some class could
still have continued with: `<` alone, `</` or `<!` before anything else, `<!-` before anything
but `-`, a declaration or quoted string that the end or a `<` cuts off, and `/` without `>`.
Put together, the lexemes give the text back (`scan` keeps each one's exact characters and the
byte offset where it starts).
-/
namespace ReactiveView.Markup

/-- The classes of lexemes. -/
inductive LexemeKind where
  | comment
  | declaration
  | endTagOpen
  | startTagOpen
  | tagClose
  | selfClose
  | equals
  | doubleQuoted
  | singleQuoted
  | blank
  | word
  | unknown
  deriving DecidableEq, Repr, Inhabited

/-- A lexeme: its class, its exact characters, and the byte offset where it starts. -/
structure Lexeme where
  kind : LexemeKind
  text : String
  offset : Nat
  deriving DecidableEq, Repr, Inhabited

/-- A character that may continue a tag name. -/
def isNameChar (c : Char) : Bool := c.isAlphanum || c == '-'

/-- The blanks that separate the parts of a tag. -/
def isTagBlank (c : Char) : Bool :=
  c == ' ' || c == '\t' || c == '\r' || c == '\n' || c == '\x0c'

/-- A character that may stand in a word. -/
def isWordChar (c : Char) : Bool :=
  !isTagBlank c && !"\"'<>=/".contains c

/-- How many characters a comment takes after its `<!--`: up to and including the first `-->`,
or all that is left. -/
def commentTail : List Char → Nat
  | [] => 0
  | '-' :: '-' :: '>' :: _ => 3
  | _ :: rest => commentTail rest + 1

/-- How many characters a declaration's body takes up to and including its `>`, if it has one. -/
def declarationTail : List Char → Option Nat
  | [] => none
  | '>' :: _ => some 1
  | _ :: rest => (declarationTail rest).map (· + 1)

/-- A lexeme's class and length at the front of a text that is not empty. -/
structure Cut where
  kind : LexemeKind
  length : Nat
  length_pos : 0 < length

/-- A quoted string opened by `q`: closed if its quote comes before any `<`. -/
def quotedCut (q : Char) (kind : LexemeKind) (rest : List Char) : Cut :=
  let body := rest.takeWhile fun c => c != q && c != '<'
  match rest.drop body.length with
  | c :: _ => if c = q then ⟨kind, body.length + 2, by omega⟩ else ⟨.unknown, body.length + 1, by omega⟩
  | [] => ⟨.unknown, body.length + 1, by omega⟩

/-- The lexeme at the front of a text that is not empty. -/
def cutAt : List Char → Cut
  | '<' :: '!' :: '-' :: '-' :: rest =>
    ⟨.comment, 4 + commentTail rest, Nat.add_pos_left (Nat.zero_lt_succ _) _⟩
  | '<' :: '!' :: '-' :: _ => ⟨.unknown, 3, Nat.zero_lt_succ _⟩
  | '<' :: '!' :: c :: rest =>
    if c.isAlpha then
      match declarationTail rest with
      | some n => ⟨.declaration, 3 + n, Nat.add_pos_left (Nat.zero_lt_succ _) _⟩
      | none => ⟨.unknown, 3 + rest.length, Nat.add_pos_left (Nat.zero_lt_succ _) _⟩
    else ⟨.unknown, 2, Nat.zero_lt_succ _⟩
  | '<' :: '/' :: c :: rest =>
    if c.isAlpha then
      ⟨.endTagOpen, 3 + (rest.takeWhile isNameChar).length,
        Nat.add_pos_left (Nat.zero_lt_succ _) _⟩
    else ⟨.unknown, 2, Nat.zero_lt_succ _⟩
  | '<' :: c :: rest =>
    if c.isAlpha then
      ⟨.startTagOpen, 2 + (rest.takeWhile isNameChar).length,
        Nat.add_pos_left (Nat.zero_lt_succ _) _⟩
    else if c = '!' ∨ c = '/' then ⟨.unknown, 2, Nat.zero_lt_succ _⟩
    else ⟨.unknown, 1, Nat.zero_lt_succ _⟩
  | '>' :: _ => ⟨.tagClose, 1, Nat.zero_lt_succ _⟩
  | '/' :: '>' :: _ => ⟨.selfClose, 2, Nat.zero_lt_succ _⟩
  | '=' :: _ => ⟨.equals, 1, Nat.zero_lt_succ _⟩
  | '"' :: rest => quotedCut '"' .doubleQuoted rest
  | '\'' :: rest => quotedCut '\'' .singleQuoted rest
  | c :: rest =>
    if isTagBlank c then
      ⟨.blank, 1 + (rest.takeWhile isTagBlank).length, Nat.add_pos_left (Nat.zero_lt_succ _) _⟩
    else if isWordChar c then
      ⟨.word, 1 + (rest.takeWhile isWordChar).length, Nat.add_pos_left (Nat.zero_lt_succ _) _⟩
    else ⟨.unknown, 1, Nat.zero_lt_succ _⟩
  | [] => ⟨.unknown, 1, Nat.zero_lt_succ _⟩

/-- The number of bytes a list of characters takes in UTF-8. -/
def utf8Length (cs : List Char) : Nat := cs.foldl (fun n c => n + c.utf8Size) 0

/-- Cut a text, starting at byte `offset`, into lexemes. -/
def scanFrom (offset : Nat) : List Char → List Lexeme
  | [] => []
  | c :: rest =>
    let cut := cutAt (c :: rest)
    let piece := (c :: rest).take cut.length
    ⟨cut.kind, String.ofList piece, offset⟩ ::
      scanFrom (offset + utf8Length piece) ((c :: rest).drop cut.length)
termination_by cs => cs.length
decreasing_by
  have := (cutAt (c :: rest)).length_pos
  simp only [List.length_drop, List.length_cons]
  omega

/-- Cut a markup text into lexemes. -/
def scan (source : String) : List Lexeme := scanFrom 0 source.toList

end ReactiveView.Markup
