import ReactiveView.Yaml.Token
/-!
# Scanning YAML

The scanner cuts the text into tokens on demand. Block structure is made of indentation: when
a line starts further right than the current indentation, a sequence or mapping may open, and
when a line starts further left, the open ones close with `blockEnd` tokens. Flow collections
(`[...]`, `{...}`) ignore indentation.

A mapping key without `?` is only known to be a key once the `:` after it is found. The
scanner therefore remembers, for each flow level, the one place where such a simple key may
have started; a `:` turns it into a key by inserting a `key` token (and, in block context, a
`blockMappingStart`) before the tokens already queued from that place. A simple key stays on
one line and spans at most 1024 characters; a key that must be one (one at the indentation of
the block) and is not fails with `could not find expected ':'`.

The parser asks for one token at a time, and the scanner reads further only while the first
queued token could still get a key inserted before it, so a failure later in the text is only
found once the parser reaches it.
-/
namespace ReactiveView.Yaml

/-- A place where a simple key may have started. -/
structure SimpleKey where
  possible : Bool
  required : Bool
  tokenNumber : Nat
  mark : Mark
  deriving Inhabited

/-- No simple key. -/
def SimpleKey.none : SimpleKey := ⟨false, false, 0, ⟨0, 0, 0⟩⟩

/-- The state of the scanner. -/
structure Scanner where
  /-- The characters not yet read. -/
  rest : List Char
  /-- The mark of the first of them. -/
  mark : Mark
  /-- Tokens scanned and not yet taken. -/
  queue : List Token := []
  /-- How many tokens were taken. -/
  taken : Nat := 0
  /-- Whether the stream start token was made. -/
  started : Bool := false
  /-- Whether the stream end token was made. -/
  ended : Bool := false
  /-- The current block indentation; `-1` outside any block. -/
  indent : Int := -1
  /-- The indentations of the enclosing blocks. -/
  indents : List Int := []
  /-- Whether a simple key may start here. -/
  allowed : Bool := false
  /-- The possible simple keys, innermost flow level first. -/
  keys : List SimpleKey := []
  /-- How deep in flow collections the scanner is. -/
  flowLevel : Nat := 0
  deriving Inhabited

/-- The scanning monad. -/
abbrev ScanM := StateT Scanner (Except Fault)

/-- A scanner at the start of a text. -/
def Scanner.start (text : String) : Scanner := { rest := text.toList, mark := ⟨0, 0, 0⟩ }

/-- The character at the cursor. -/
def cur : ScanM (Option Char) := return (← get).rest.head?

/-- The character `n` places ahead. -/
def ahead (n : Nat) : ScanM (Option Char) := return (← get).rest[n]?

/-- Whether the character at the cursor is `c`. -/
def isAt (c : Char) : ScanM Bool := return (← cur) == some c

/-- The mark at the cursor. -/
def here : ScanM Mark := return (← get).mark

/-- Step over one character of a line. -/
def skip : ScanM Unit :=
  modify fun s => match s.rest with
    | [] => s
    | _ :: r => { s with rest := r, mark := ⟨s.mark.index + 1, s.mark.line, s.mark.column + 1⟩ }

/-- Step over a line break; a carriage return and line feed count as one. -/
def skipLine : ScanM Unit :=
  modify fun s => match s.rest with
    | '\r' :: '\n' :: r => { s with rest := r, mark := ⟨s.mark.index + 2, s.mark.line + 1, 0⟩ }
    | c :: r =>
      if isBreak c then { s with rest := r, mark := ⟨s.mark.index + 1, s.mark.line + 1, 0⟩ }
      else s
    | [] => s

/-- Take one character and give it. -/
def readChar : ScanM String := do
  match ← cur with
  | some c => skip; return String.singleton c
  | none => return ""

/-- Take a line break and give it as a scalar holds it: line and paragraph separators stay,
the other breaks become a line feed. -/
def readBreak : ScanM String := do
  match (← get).rest with
  | '\r' :: '\n' :: _ => skipLine; return "\n"
  | c :: _ =>
    if c = '\u2028' ∨ c = '\u2029' then do skipLine; return String.singleton c
    else if isBreak c then do skipLine; return "\n"
    else return ""
  | [] => return ""

/-- Stop with a fault at the cursor, with what was being read and where it started. -/
def scanFault {α : Type} (context : String) (start : Mark) (problem : String) : ScanM α := do
  throw ⟨problem, ← here, some (context, start)⟩

/-- Stop with a fault at the cursor, with no context. -/
def plainFault {α : Type} (problem : String) : ScanM α := do
  throw ⟨problem, ← here, none⟩

/-- How many steps a loop over the rest of the text may take. -/
def budget : ScanM Nat := return (← get).rest.length + 1

/-- Queue a token. -/
def enqueue (kind : TokenKind) (start stop : Mark) : ScanM Unit :=
  modify fun s => { s with queue := s.queue ++ [⟨kind, start, stop⟩] }

/-! ## Simple keys and indentation -/

/-- Forget the possible simple key of the current level; a required one fails. -/
def removeSimpleKey : ScanM Unit := do
  let s ← get
  match s.keys with
  | k :: rest =>
    if k.possible && k.required then
      throw ⟨"could not find expected ':'", s.mark, some ("while scanning a simple key", k.mark)⟩
    set { s with keys := { k with possible := false } :: rest }
  | [] => return

/-- Remember that a simple key may start at the cursor. -/
def saveSimpleKey : ScanM Unit := do
  let s ← get
  let required := s.flowLevel == 0 && s.indent == (s.mark.column : Int)
  if s.allowed then
    let k : SimpleKey := ⟨true, required, s.taken + s.queue.length, s.mark⟩
    removeSimpleKey
    modify fun s => { s with keys := match s.keys with
      | _ :: rest => k :: rest
      | [] => [k] }

/-- Forget simple keys that can no longer be keys: not on this line, or too far back. -/
def staleSimpleKeys : ScanM Unit := do
  let s ← get
  let stale (k : SimpleKey) : Bool :=
    k.possible && (k.mark.line < s.mark.line || k.mark.index + 1024 < s.mark.index)
  match (s.keys.reverse.find? fun k => stale k && k.required) with
  | some k =>
    throw ⟨"could not find expected ':'", s.mark, some ("while scanning a simple key", k.mark)⟩
  | none =>
    set { s with keys := s.keys.map fun k => if stale k then { k with possible := false } else k }

/-- Enter a flow collection. -/
def increaseFlowLevel : ScanM Unit :=
  modify fun s => { s with keys := SimpleKey.none :: s.keys, flowLevel := s.flowLevel + 1 }

/-- Leave a flow collection. -/
def decreaseFlowLevel : ScanM Unit :=
  modify fun s =>
    if s.flowLevel = 0 then s else { s with keys := s.keys.drop 1, flowLevel := s.flowLevel - 1 }

/-- Open a block at a column further right than the current indentation; the opening token
is queued, or inserted at a token number when a simple key turned out to start there. -/
def rollIndent (column : Nat) (number : Option Nat) (kind : TokenKind) (mark : Mark) :
    ScanM Unit := do
  let s ← get
  if s.flowLevel = 0 ∧ s.indent < (column : Int) then
    let t : Token := ⟨kind, mark, mark⟩
    let queue := match number with
      | none => s.queue ++ [t]
      | some n => s.queue.insertIdx (n - s.taken) t
    set { s with indents := s.indent :: s.indents, indent := column, queue := queue }

/-- Close the blocks indented further right than a column. -/
def unrollIndent (column : Int) : ScanM Unit := do
  if (← get).flowLevel = 0 then
    for _ in [0:(← get).indents.length + 1] do
      let s ← get
      if s.indent > column then
        set { s with
          queue := s.queue ++ [Token.mk .blockEnd s.mark s.mark]
          indent := s.indents.headD (-1)
          indents := s.indents.drop 1 }

/-! ## Skipping -/

/-- Skip blanks, comments and line breaks before the next token. Tabs are skipped only in flow
context or where no simple key may start; a line break in block context allows a simple key. -/
def scanToNextToken : Nat → ScanM Unit
  | 0 => return
  | fuel + 1 => do
    let s ← get
    if s.mark.column = 0 ∧ s.rest.head? = some '\uFEFF' then skip
    let tabsOk := (← get).flowLevel > 0 || !(← get).allowed
    let _ ← (List.range (← budget)).foldlM (fun go _ => do
      if !go then return false
      match ← cur with
      | some ' ' => skip; return true
      | some '\t' => if tabsOk then do skip; return true else return false
      | _ => return false) true
    if ← isAt '#' then
      let _ ← (List.range (← budget)).foldlM (fun go _ => do
        if !go then return false
        if breakz (← cur) then return false
        skip; return true) true
    match ← cur with
    | some c =>
      if isBreak c then
        skipLine
        if (← get).flowLevel = 0 then modify fun s => { s with allowed := true }
        scanToNextToken fuel
    | none => return

/-! ## Indicators -/

/-- The stream start. -/
def fetchStreamStart : ScanM Unit := do
  modify fun s => { s with indent := -1, keys := [SimpleKey.none], allowed := true, started := true }
  let m ← here
  enqueue .streamStart m m

/-- The stream end, on a fresh line. -/
def fetchStreamEnd : ScanM Unit := do
  modify fun s =>
    if s.mark.column ≠ 0 then { s with mark := ⟨s.mark.index, s.mark.line + 1, 0⟩ } else s
  unrollIndent (-1)
  removeSimpleKey
  modify fun s => { s with allowed := false, ended := true }
  let m ← here
  enqueue .streamEnd m m

/-- `---` or `...` at the start of a line. -/
def fetchDocumentIndicator (kind : TokenKind) : ScanM Unit := do
  unrollIndent (-1)
  removeSimpleKey
  modify fun s => { s with allowed := false }
  let start ← here
  skip; skip; skip
  enqueue kind start (← here)

/-- `[` or `{`. -/
def fetchFlowCollectionStart (kind : TokenKind) : ScanM Unit := do
  saveSimpleKey
  increaseFlowLevel
  modify fun s => { s with allowed := true }
  let start ← here
  skip
  enqueue kind start (← here)

/-- `]` or `}`. -/
def fetchFlowCollectionEnd (kind : TokenKind) : ScanM Unit := do
  removeSimpleKey
  decreaseFlowLevel
  modify fun s => { s with allowed := false }
  let start ← here
  skip
  enqueue kind start (← here)

/-- `,` in a flow collection. -/
def fetchFlowEntry : ScanM Unit := do
  removeSimpleKey
  modify fun s => { s with allowed := true }
  let start ← here
  skip
  enqueue .flowEntry start (← here)

/-- `-` before an item of a block sequence. -/
def fetchBlockEntry : ScanM Unit := do
  let s ← get
  if s.flowLevel = 0 then
    if !s.allowed then plainFault "block sequence entries are not allowed in this context"
    rollIndent s.mark.column none .blockSequenceStart s.mark
  removeSimpleKey
  modify fun s => { s with allowed := true }
  let start ← here
  skip
  enqueue .blockEntry start (← here)

/-- `?` before a complex key. -/
def fetchKey : ScanM Unit := do
  let s ← get
  if s.flowLevel = 0 then
    if !s.allowed then plainFault "mapping keys are not allowed in this context"
    rollIndent s.mark.column none .blockMappingStart s.mark
  removeSimpleKey
  modify fun s => { s with allowed := s.flowLevel = 0 }
  let start ← here
  skip
  enqueue .key start (← here)

/-- `:` before a value; a possible simple key becomes a key. -/
def fetchValue : ScanM Unit := do
  let s ← get
  match s.keys with
  | k :: rest =>
    if k.possible then
      let t : Token := ⟨.key, k.mark, k.mark⟩
      set { s with
        queue := s.queue.insertIdx (k.tokenNumber - s.taken) t
        keys := { k with possible := false } :: rest }
      rollIndent k.mark.column (some k.tokenNumber) .blockMappingStart k.mark
      modify fun s => { s with allowed := false }
    else
      if s.flowLevel = 0 then
        if !s.allowed then plainFault "mapping values are not allowed in this context"
        rollIndent s.mark.column none .blockMappingStart s.mark
      modify fun s => { s with allowed := s.flowLevel = 0 }
  | [] => return
  let start ← here
  skip
  enqueue .value start (← here)

/-! ## Anchors, aliases and tags -/

/-- Take characters while they pass a test, and give them. -/
def takeWhile (p : Char → Bool) : ScanM String := do
  let n := ((← get).rest.takeWhile p).length
  let text := String.ofList ((← get).rest.take n)
  for _ in [0:n] do skip
  return text

/-- `&name` or `*name`. -/
def fetchAnchor (isAlias : Bool) : ScanM Unit := do
  saveSimpleKey
  modify fun s => { s with allowed := false }
  let start ← here
  skip
  let name ← takeWhile isWordChar
  let stop ← here
  let c ← cur
  let ends := blankz c || c == some '?' || c == some ':' || c == some ',' || c == some ']' ||
    c == some '}' || c == some '%' || c == some '@' || c == some '`'
  if name.isEmpty || !ends then
    scanFault (if isAlias then "while scanning an alias" else "while scanning an anchor") start
      "did not find expected alphabetic or numeric character"
  enqueue (if isAlias then .alias name else .anchor name) start stop

/-- Characters of a tag URI; inside `!<...>` also `,`, `[` and `]`. -/
def isUriChar (verbatim : Bool) (c : Char) : Bool :=
  isWordChar c || ";/?:@&=+$.%!~*'()".contains c || (verbatim && ",[]".contains c)

/-- A `%` escape of a tag URI: two hexadecimal digits. -/
def uriEscape (directive : Bool) (start : Mark) : ScanM String := do
  let context := if directive then "while parsing a %TAG directive" else "while parsing a tag"
  match ← ahead 1, ← ahead 2 with
  | some a, some b =>
    match hexValue a, hexValue b with
    | some x, some y =>
      skip; skip; skip
      let v := x * 16 + y
      if v < 0x80 then return String.singleton (Char.ofNat v)
      else scanFault context start "found an incorrect leading UTF-8 octet"
    | _, _ => scanFault context start "did not find URI escaped octet"
  | _, _ => scanFault context start "did not find URI escaped octet"

/-- The URI part of a tag, after an optional head already read. -/
def tagUri (verbatim directive : Bool) (head : String) (start : Mark) : ScanM String := do
  let mut text := head.drop 1 |>.toString
  let mut length := head.length
  for _ in [0:(← budget)] do
    match ← cur with
    | some c =>
      if isUriChar verbatim c then
        if c = '%' then text := text ++ (← uriEscape directive start)
        else text := text ++ (← readChar)
        length := length + 1
      else break
    | none => break
  if length = 0 then
    scanFault (if directive then "while parsing a %TAG directive" else "while parsing a tag") start
      "did not find expected tag URI"
  return text

/-- A tag handle: `!`, `!!` or `!word!`. -/
def tagHandle (directive : Bool) (start : Mark) : ScanM String := do
  if !(← isAt '!') then
    scanFault (if directive then "while scanning a tag directive" else "while scanning a tag") start
      "did not find expected '!'"
  let first ← readChar
  let word ← takeWhile isWordChar
  if ← isAt '!' then
    return first ++ word ++ (← readChar)
  else
    if directive && !(word.isEmpty) then
      scanFault "while parsing a tag directive" start "did not find expected '!'"
    return first ++ word

/-- A tag: `!<uri>`, `!handle!suffix`, `!suffix` or `!`. -/
def fetchTag : ScanM Unit := do
  saveSimpleKey
  modify fun s => { s with allowed := false }
  let start ← here
  let (handle, suffix) ← do
    if (← ahead 1) == some '<' then
      skip; skip
      let suffix ← tagUri true false "" start
      if !(← isAt '>') then scanFault "while scanning a tag" start "did not find the expected '>'"
      skip
      pure ("", suffix)
    else
      let handle ← tagHandle false start
      if handle.length > 1 && handle.startsWith "!" && handle.endsWith "!" then
        pure (handle, ← tagUri false false "" start)
      else
        let suffix ← tagUri false false handle start
        if suffix.isEmpty then pure ("", "!") else pure ("!", suffix)
  let c ← cur
  if !blankz c then
    if (← get).flowLevel = 0 || c != some ',' then
      scanFault "while scanning a tag" start "did not find expected whitespace or line break"
  enqueue (.tag handle suffix) start (← here)

/-! ## Directives -/

/-- Skip blanks. -/
def skipBlanks : ScanM Unit := do
  let _ ← takeWhile isBlank

/-- The digits of a version number. -/
def versionNumber (start : Mark) : ScanM Nat := do
  let digits ← takeWhile Char.isDigit
  if digits.length > 9 then
    scanFault "while scanning a %YAML directive" start "found extremely long version number"
  if digits.isEmpty then
    scanFault "while scanning a %YAML directive" start "did not find expected version number"
  return digits.foldl (fun n c => n * 10 + (c.toNat - '0'.toNat)) 0

/-- A directive line: `%YAML major.minor` or `%TAG handle prefix`. -/
def fetchDirective : ScanM Unit := do
  unrollIndent (-1)
  removeSimpleKey
  modify fun s => { s with allowed := false }
  let start ← here
  skip
  let name ← takeWhile isWordChar
  if name.isEmpty then
    scanFault "while scanning a directive" start "could not find expected directive name"
  if !blankz (← cur) then
    scanFault "while scanning a directive" start "found unexpected non-alphabetical character"
  let kind ← do
    if name == "YAML" then
      skipBlanks
      let major ← versionNumber start
      if !(← isAt '.') then
        scanFault "while scanning a %YAML directive" start
          "did not find expected digit or '.' character"
      skip
      let minor ← versionNumber start
      pure (TokenKind.versionDirective major minor)
    else if name == "TAG" then
      skipBlanks
      let handle ← tagHandle true start
      if !(isBlank <$> (← cur)).getD false then
        scanFault "while scanning a %TAG directive" start "did not find expected whitespace"
      skipBlanks
      let pre ← tagUri true true "" start
      if !blankz (← cur) then
        scanFault "while scanning a %TAG directive" start
          "did not find expected whitespace or line break"
      pure (TokenKind.tagDirective handle pre)
    else scanFault "while scanning a directive" start "found unknown directive name"
  let stop ← here
  skipBlanks
  if ← isAt '#' then
    let _ ← takeWhile fun c => !isBreak c
  if !breakz (← cur) then
    scanFault "while scanning a directive" start "did not find expected comment or line break"
  skipLine
  enqueue kind start stop

/-! ## Scalars -/

/-- The text of a scalar being read, with the blanks and breaks not yet joined into it. -/
structure Pending where
  text : String := ""
  leadingBreak : String := ""
  trailingBreaks : String := ""
  whitespaces : String := ""
  leadingBlanks : Bool := false

/-- Join the pending blanks or breaks into the text: one line break folds into a space, more
keep all but the first. -/
def Pending.join (p : Pending) : Pending :=
  if p.leadingBlanks then
    if p.leadingBreak.startsWith "\n" then
      if p.trailingBreaks.isEmpty then
        { p with text := p.text ++ " ", leadingBreak := "", leadingBlanks := false }
      else
        { p with
          text := p.text ++ p.trailingBreaks
          trailingBreaks := ""
          leadingBreak := ""
          leadingBlanks := false }
    else
      { p with
        text := p.text ++ p.leadingBreak ++ p.trailingBreaks
        leadingBreak := ""
        trailingBreaks := ""
        leadingBlanks := false }
  else { p with text := p.text ++ p.whitespaces, whitespaces := "" }

/-- Take blanks and breaks after the characters of a line of a scalar. -/
def takeBlanks (p : Pending) (tabCheck : Option (Int × Mark)) : ScanM Pending := do
  let mut p := p
  for _ in [0:(← budget)] do
    match ← cur with
    | some c =>
      if isBlank c then
        if let some (indent, start) := tabCheck then
          if p.leadingBlanks && ((← here).column : Int) < indent && c = '\t' then
            scanFault "while scanning a plain scalar" start
              "found a tab character that violates indentation"
        if p.leadingBlanks then skip
        else p := { p with whitespaces := p.whitespaces ++ (← readChar) }
      else if isBreak c then
        if p.leadingBlanks then p := { p with trailingBreaks := p.trailingBreaks ++ (← readBreak) }
        else
          let b ← readBreak
          p := { p with whitespaces := "", leadingBreak := b, leadingBlanks := true }
      else break
    | none => break
  return p

/-- Whether the cursor is at `---` or `...` at the start of a line, followed by a blank. -/
def atDocumentIndicator : ScanM Bool := do
  let s ← get
  if s.mark.column ≠ 0 then return false
  match s.rest with
  | '-' :: '-' :: '-' :: r | '.' :: '.' :: '.' :: r => return blankz r.head?
  | _ => return false

/-- The characters of one line of a plain scalar. -/
def plainLine (start : Mark) (p : Pending) (stop : Mark) : ScanM (Pending × Mark) := do
  let mut p := p
  let mut stop := stop
  for _ in [0:(← budget)] do
    let c ← cur
    if blankz c then break
    let flow := (← get).flowLevel > 0
    let next ← ahead 1
    if flow && c == some ':' && (next.map fun n => ",?[]\x7b\x7d".contains n).getD false then
      scanFault "while scanning a plain scalar" start "found unexpected ':'"
    if (c == some ':' && blankz next) ||
        (flow && (c.map fun x => ",[]\x7b\x7d".contains x).getD false) then
      break
    if p.leadingBlanks || !p.whitespaces.isEmpty then p := p.join
    p := { p with text := p.text ++ (← readChar) }
    stop ← here
  return (p, stop)

/-- A plain scalar: lines of text, folded, up to an indicator, a comment, or a line indented
no deeper than the enclosing block. -/
def fetchPlainScalar : ScanM Unit := do
  saveSimpleKey
  modify fun s => { s with allowed := false }
  let start ← here
  let indent := (← get).indent + 1
  let mut p : Pending := {}
  let mut stop := start
  for _ in [0:(← budget)] do
    if ← atDocumentIndicator then break
    if ← isAt '#' then break
    let (p', stop') ← plainLine start p stop
    p := p'
    stop := stop'
    match ← cur with
    | some c => if !(isBlank c || isBreak c) then break
    | none => break
    p ← takeBlanks p (some (indent, start))
    if (← get).flowLevel = 0 && ((← here).column : Int) < indent then break
  enqueue (.scalar p.text .plain) start stop
  if p.leadingBlanks then modify fun s => { s with allowed := true }

/-- The character an escape names, and how many hexadecimal digits follow it. -/
def escapeOf (c : Char) : Option (String × Nat) :=
  match c with
  | '0' => some ("\x00", 0)
  | 'a' => some ("\x07", 0)
  | 'b' => some ("\x08", 0)
  | 't' | '\t' => some ("\t", 0)
  | 'n' => some ("\n", 0)
  | 'v' => some ("\x0b", 0)
  | 'f' => some ("\x0c", 0)
  | 'r' => some ("\r", 0)
  | 'e' => some ("\x1b", 0)
  | ' ' => some (" ", 0)
  | '"' => some ("\"", 0)
  | '/' => some ("/", 0)
  | '\\' => some ("\\", 0)
  | 'N' => some ("\x85", 0)
  | '_' => some ("\xa0", 0)
  | 'L' => some ("\u2028", 0)
  | 'P' => some ("\u2029", 0)
  | 'x' => some ("", 2)
  | 'u' => some ("", 4)
  | 'U' => some ("", 8)
  | _ => none

/-- An escape in a double-quoted scalar, the backslash at the cursor. -/
def quotedEscape (start : Mark) : ScanM String := do
  match (← ahead 1).bind escapeOf with
  | none => scanFault "while parsing a quoted scalar" start "found unknown escape character"
  | some (text, 0) => skip; skip; return text
  | some (_, width) =>
    skip; skip
    let digits := (← get).rest.take width
    match digits.mapM hexValue with
    | some ds =>
      if ds.length < width then
        scanFault "while parsing a quoted scalar" start "did not find expected hexdecimal number"
      let v := ds.foldl (fun n d => n * 16 + d) 0
      if (0xD800 ≤ v ∧ v ≤ 0xDFFF) ∨ 0x10FFFF < v then
        scanFault "while parsing a quoted scalar" start "found invalid Unicode character escape code"
      for _ in [0:width] do skip
      return String.singleton (Char.ofNat v)
    | none =>
      scanFault "while parsing a quoted scalar" start "did not find expected hexdecimal number"

/-- The characters of one line of a quoted scalar; gives whether an escaped line break ended
it. -/
def quotedLine (single : Bool) (start : Mark) (p : Pending) : ScanM Pending := do
  let mut p := p
  let quote := if single then '\'' else '"'
  for _ in [0:(← budget)] do
    let c ← cur
    if blankz c then break
    let next ← ahead 1
    if single && c == some '\'' && next == some '\'' then
      skip; skip
      p := { p with text := p.text ++ "'" }
    else if c == some quote then break
    else if !single && c == some '\\' && (next.map isBreak).getD false then
      skip
      skipLine
      p := { p with leadingBlanks := true }
      break
    else if !single && c == some '\\' then
      p := { p with text := p.text ++ (← quotedEscape start) }
    else p := { p with text := p.text ++ (← readChar) }
  return p

/-- A single- or double-quoted scalar. -/
def fetchQuotedScalar (single : Bool) : ScanM Unit := do
  saveSimpleKey
  modify fun s => { s with allowed := false }
  let start ← here
  skip
  let quote := if single then '\'' else '"'
  let mut p : Pending := {}
  for _ in [0:(← budget)] do
    if ← atDocumentIndicator then
      scanFault "while scanning a quoted scalar" start "found unexpected document indicator"
    if (← cur).isNone then
      scanFault "while scanning a quoted scalar" start "found unexpected end of stream"
    p ← quotedLine single start { p with leadingBlanks := false }
    if ← isAt quote then break
    p ← takeBlanks p none
    p := p.join
  skip
  enqueue (.scalar p.text (if single then .singleQuoted else .doubleQuoted)) start (← here)

/-- Indentation spaces and empty lines before a line of a block scalar; when the indentation
is not yet known, it becomes the deepest indentation of these lines, and at least one more
than the enclosing block. -/
def blockBreaks (indent : Int) (breaks : String) (start stop : Mark) :
    ScanM (Int × String × Mark) := do
  let mut breaks := breaks
  let mut stop := stop
  let mut deepest : Nat := 0
  for _ in [0:(← budget)] do
    for _ in [0:(← budget)] do
      if (indent = 0 ∨ ((← here).column : Int) < indent) ∧ (← isAt ' ') then skip else break
    deepest := max deepest (← here).column
    if (indent = 0 ∨ ((← here).column : Int) < indent) ∧ (← isAt '\t') then
      scanFault "while scanning a block scalar" start
        "found a tab character where an indentation space is expected"
    match ← cur with
    | some c => if isBreak c then breaks := breaks ++ (← readBreak); stop ← here else break
    | none => break
  let parent := (← get).indent
  let indent := if indent = 0 then max (max (deepest : Int) (parent + 1)) 1 else indent
  return (indent, breaks, stop)

/-- The indicators after `|` or `>`: chomping `+` or `-` and an indentation digit, either
order. -/
def blockHeader (start : Mark) : ScanM (Int × Nat) := do
  let digit : ScanM Nat := do
    match ← cur with
    | some c =>
      if c = '0' then
        scanFault "while scanning a block scalar" start "found an indentation indicator equal to 0"
      skip
      return c.toNat - '0'.toNat
    | none => return 0
  let isDigit1 (c : Option Char) : Bool := (c.map fun x => '1' ≤ x && x ≤ '9' || x = '0').getD false
  match ← cur with
  | some '+' | some '-' =>
    let chomping : Int := if (← cur) == some '+' then 1 else -1
    skip
    if isDigit1 (← cur) then return (chomping, ← digit) else return (chomping, 0)
  | c =>
    if isDigit1 c then
      let n ← digit
      match ← cur with
      | some '+' => skip; return (1, n)
      | some '-' => skip; return (-1, n)
      | _ => return (0, n)
    else return (0, 0)

/-- A literal (`|`) or folded (`>`) block scalar. -/
def fetchBlockScalar (literal : Bool) : ScanM Unit := do
  removeSimpleKey
  modify fun s => { s with allowed := true }
  let start ← here
  skip
  let (chomping, increment) ← blockHeader start
  skipBlanks
  if ← isAt '#' then
    let _ ← takeWhile fun c => !isBreak c
  if !breakz (← cur) then
    scanFault "while scanning a block scalar" start "did not find expected comment or line break"
  if (← cur).isSome then skipLine
  let parent := (← get).indent
  let indent : Int := if increment = 0 then 0
    else if parent ≥ 0 then parent + increment else increment
  let (indent, trailing, stop) ← blockBreaks indent "" start (← here)
  let mut text := ""
  let mut leadingBreak := ""
  let mut trailing := trailing
  let mut stop := stop
  let mut leadingBlank := false
  for _ in [0:(← budget)] do
    if ((← here).column : Int) ≠ indent ∨ (← cur).isNone then break
    let trailingBlank := ((← cur).map isBlank).getD false
    if !literal && leadingBreak.startsWith "\n" && !leadingBlank && !trailingBlank then
      if trailing.isEmpty then text := text ++ " "
      leadingBreak := ""
    else
      text := text ++ leadingBreak
      leadingBreak := ""
    text := text ++ trailing
    trailing := ""
    leadingBlank := ((← cur).map isBlank).getD false
    text := text ++ (← takeWhile fun c => !isBreak c)
    leadingBreak ← readBreak
    let (_, t, s) ← blockBreaks indent "" start (← here)
    trailing := t
    stop := s
  if chomping ≠ -1 then text := text ++ leadingBreak
  if chomping = 1 then text := text ++ trailing
  enqueue (.scalar text (if literal then .literal else .folded)) start stop

/-! ## The next token -/

/-- Whether a plain scalar may start at the cursor. -/
def plainStarts : ScanM Bool := do
  let c ← cur
  let next ← ahead 1
  let flow := (← get).flowLevel > 0
  match c with
  | none => return false
  | some x =>
    let indicator := "-?:,[]\x7b\x7d#&*!|>\x27\"%@\x60".contains x
    return (!(isBlank x || isBreak x || indicator)) ||
      (x = '-' && !((next.map isBlank).getD false)) ||
      (!flow && (x = '?' || x = ':') && !blankz next)

/-- Scan the next token, or tokens: closing blocks come before it. -/
def fetchNextToken : ScanM Unit := do
  if !(← get).started then fetchStreamStart
  else
    scanToNextToken (← budget)
    staleSimpleKeys
    unrollIndent ((← here).column : Int)
    let s ← get
    let flow := s.flowLevel > 0
    let next ← ahead 1
    match s.rest with
    | [] => fetchStreamEnd
    | c :: _ =>
      if s.mark.column = 0 ∧ c = '%' then fetchDirective
      else if s.mark.column = 0 ∧ (s.rest.take 3 = ['-', '-', '-']) ∧ blankz (s.rest[3]?) then
        fetchDocumentIndicator .documentStart
      else if s.mark.column = 0 ∧ (s.rest.take 3 = ['.', '.', '.']) ∧ blankz (s.rest[3]?) then
        fetchDocumentIndicator .documentEnd
      else if c = '[' then fetchFlowCollectionStart .flowSequenceStart
      else if c = '{' then fetchFlowCollectionStart .flowMappingStart
      else if c = ']' then fetchFlowCollectionEnd .flowSequenceEnd
      else if c = '}' then fetchFlowCollectionEnd .flowMappingEnd
      else if c = ',' then fetchFlowEntry
      else if c = '-' ∧ blankz next then fetchBlockEntry
      else if c = '?' ∧ (flow ∨ blankz next) then fetchKey
      else if c = ':' ∧ (flow ∨ blankz next) then fetchValue
      else if c = '*' then fetchAnchor true
      else if c = '&' then fetchAnchor false
      else if c = '!' then fetchTag
      else if c = '|' ∧ !flow then fetchBlockScalar true
      else if c = '>' ∧ !flow then fetchBlockScalar false
      else if c = '\'' then fetchQuotedScalar true
      else if c = '"' then fetchQuotedScalar false
      else if ← plainStarts then fetchPlainScalar
      else
        let problem := "found character that cannot start any token"
        scanFault "while scanning for the next token" s.mark problem

/-- Scan until the first queued token can no longer get a key inserted before it. -/
def fetchMoreTokens : ScanM Unit := do
  for _ in [0:2 * (← budget) + 8] do
    let s ← get
    let need ← do
      if s.queue.isEmpty then pure (!s.ended)
      else
        staleSimpleKeys
        let s ← get
        pure (s.keys.any fun k => k.possible && k.tokenNumber == s.taken)
    if need then fetchNextToken else break

/-- The next token, without taking it. -/
def peekToken : ScanM Token := do
  fetchMoreTokens
  match (← get).queue with
  | t :: _ => return t
  | [] => return ⟨.streamEnd, (← here), (← here)⟩

/-- Take the next token. -/
def skipToken : ScanM Unit :=
  modify fun s => { s with queue := s.queue.drop 1, taken := s.taken + 1 }

end ReactiveView.Yaml
