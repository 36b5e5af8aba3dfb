import ReactiveView.Yaml.Scan
/-!
# Parsing YAML into events

The parser turns tokens into events: the stream and its documents open and close, and each
node is a scalar, an alias, or a sequence or mapping whose start and end events enclose its
children. It is a machine with a stack of states, one step per event, and it asks the scanner
for tokens only as it needs them.

Where the grammar leaves a node out (`a:` with nothing after it, `- ` on an empty line) the
parser gives an empty plain scalar. A token that fits nowhere stops the parser with a fault
that names what it expected and what it was parsing.
-/
namespace ReactiveView.Yaml

/-- The kinds of events. -/
inductive EventKind where
  | streamStart
  | streamEnd
  | documentStart
  | documentEnd
  | alias (name : String)
  | scalar (anchor tag : Option String) (text : String) (style : Style)
  | sequenceStart (anchor tag : Option String)
  | sequenceEnd
  | mappingStart (anchor tag : Option String)
  | mappingEnd
  deriving Inhabited, Repr

/-- An event and where it starts and ends. -/
structure Event where
  kind : EventKind
  start : Mark
  stop : Mark
  deriving Inhabited, Repr

/-- What the parser expects next. -/
inductive State where
  | streamStart
  | implicitDocumentStart
  | documentStart
  | documentContent
  | documentEnd
  | blockNode
  | blockNodeOrIndentlessSequence
  | flowNode
  | blockSequenceFirstEntry
  | blockSequenceEntry
  | indentlessSequenceEntry
  | blockMappingFirstKey
  | blockMappingKey
  | blockMappingValue
  | flowSequenceFirstEntry
  | flowSequenceEntry
  | flowSequenceEntryMappingKey
  | flowSequenceEntryMappingValue
  | flowSequenceEntryMappingEnd
  | flowMappingFirstKey
  | flowMappingKey
  | flowMappingValue
  | flowMappingEmptyValue
  | finished
  deriving DecidableEq, Inhabited, Repr

/-- The state of the parser and of its scanner. -/
structure Parser where
  scanner : Scanner
  state : State := .streamStart
  states : List State := []
  marks : List Mark := []
  handles : List (String × String) := []
  deriving Inhabited

/-- The parsing monad. -/
abbrev ParseM := StateT Parser (Except Fault)

/-- A parser at the start of a text. -/
def Parser.start (text : String) : Parser := { scanner := Scanner.start text }

/-- Run a scanner step inside the parser. -/
def scan {α : Type} (m : ScanM α) : ParseM α := do
  let p ← get
  match m.run p.scanner with
  | .ok (a, s) => set { p with scanner := s }; return a
  | .error f => throw f

/-- The next token. -/
def peek : ParseM Token := scan peekToken

/-- Take the next token. -/
def take : ParseM Unit := scan skipToken

/-- Go to a state. -/
def goTo (s : State) : ParseM Unit := modify fun p => { p with state := s }

/-- Remember a state to come back to. -/
def push (s : State) : ParseM Unit := modify fun p => { p with states := s :: p.states }

/-- Come back to the last remembered state. -/
def pop : ParseM Unit :=
  modify fun p => { p with state := p.states.headD .finished, states := p.states.drop 1 }

/-- Remember where a collection started. -/
def pushMark (m : Mark) : ParseM Unit := modify fun p => { p with marks := m :: p.marks }

/-- Forget where the innermost collection started, and give it. -/
def popMark : ParseM Mark := do
  let p ← get
  set { p with marks := p.marks.drop 1 }
  return p.marks.headD ⟨0, 0, 0⟩

/-- A fault at a token, naming what was being parsed and where. -/
def parseFault {α : Type} (context : String) (contextMark : Mark) (problem : String) (mark : Mark) :
    ParseM α :=
  throw ⟨problem, mark, some (context, contextMark)⟩

/-- An empty plain scalar at a mark. -/
def emptyScalar (m : Mark) : Event := ⟨.scalar none none "" .plain, m, m⟩

/-- The tag handles every document knows. -/
def defaultHandles : List (String × String) := [("!", "!"), ("!!", "tag:yaml.org,2002:")]

/-- The directives before a document: at most one `%YAML` of version 1.1 or 1.2, and `%TAG`
handles given once each. -/
def directives : Nat → Option (Nat × Nat) → List (String × String) →
    ParseM (List (String × String))
  | 0, _, hs => return hs
  | fuel + 1, version, hs => do
    let t ← peek
    match t.kind with
    | .versionDirective major minor =>
      if version.isSome then throw ⟨"found duplicate %YAML directive", t.start, none⟩
      if major ≠ 1 ∨ (minor ≠ 1 ∧ minor ≠ 2) then
        throw ⟨"found incompatible YAML document", t.start, none⟩
      take
      directives fuel (some (major, minor)) hs
    | .tagDirective handle pre =>
      if hs.any (·.1 == handle) then throw ⟨"found duplicate %TAG directive", t.start, none⟩
      take
      directives fuel version (hs ++ [(handle, pre)])
    | _ => return hs ++ defaultHandles.filter fun (h, _) => !(hs.any (·.1 == h))

/-- Start a document, implicit or after `---`, or end the stream. -/
def documentStart (implicit : Bool) : ParseM Event := do
  if !implicit then
    for _ in [0:(← get).scanner.rest.length + 2] do
      if (← peek).kind == .documentEnd then take else break
  let t ← peek
  let explicitStart := match t.kind with
    | .versionDirective .. | .tagDirective .. | .documentStart | .streamEnd => false
    | _ => true
  if implicit && explicitStart then
    modify fun p => { p with handles := defaultHandles }
    push .documentEnd
    goTo .blockNode
    return ⟨.documentStart, t.start, t.start⟩
  else if t.kind != .streamEnd then
    let hs ← directives ((← get).scanner.rest.length + 2) none []
    modify fun p => { p with handles := hs }
    let t ← peek
    if t.kind != .documentStart then
      throw ⟨"did not find expected <document start>", t.start, none⟩
    push .documentEnd
    goTo .documentContent
    take
    return ⟨.documentStart, t.start, t.stop⟩
  else
    goTo .finished
    take
    return ⟨.streamEnd, t.start, t.stop⟩

/-- The end of a document, after `...` or where the next one starts. -/
def documentEnd : ParseM Event := do
  let t ← peek
  let stop ← if t.kind == .documentEnd then do take; pure t.stop else pure t.start
  goTo .documentStart
  return ⟨.documentEnd, t.start, stop⟩

/-- A node: an alias, or a scalar or collection with an optional anchor and tag. -/
def node (block indentless : Bool) : ParseM Event := do
  let t ← peek
  match t.kind with
  | .alias name =>
    pop
    take
    return ⟨.alias name, t.start, t.stop⟩
  | _ =>
    let mut anchor : Option String := none
    let mut tagParts : Option (String × String × Mark) := none
    let mut start := t.start
    let mut stop := t.start
    let mut t := t
    match t.kind with
    | .anchor name =>
      anchor := some name
      stop := t.stop
      take
      t ← peek
      if let .tag h s := t.kind then
        tagParts := some (h, s, t.start)
        stop := t.stop
        take
        t ← peek
    | .tag h s =>
      tagParts := some (h, s, t.start)
      stop := t.stop
      take
      t ← peek
      if let .anchor name := t.kind then
        anchor := some name
        stop := t.stop
        take
        t ← peek
    | _ => pure ()
    let tag ← match tagParts with
      | none => pure none
      | some (h, s, tagMark) =>
        if h.isEmpty then pure (some s)
        else
          match (← get).handles.lookup h with
          | some pre => pure (some (pre ++ s))
          | none => parseFault "while parsing a node" start "found undefined tag handle" tagMark
    if indentless && t.kind == .blockEntry then
      goTo .indentlessSequenceEntry
      return ⟨.sequenceStart anchor tag, start, t.stop⟩
    match t.kind with
    | .scalar text style =>
      pop
      take
      return ⟨.scalar anchor tag text style, start, t.stop⟩
    | .flowSequenceStart =>
      goTo .flowSequenceFirstEntry
      return ⟨.sequenceStart anchor tag, start, t.stop⟩
    | .flowMappingStart =>
      goTo .flowMappingFirstKey
      return ⟨.mappingStart anchor tag, start, t.stop⟩
    | kind =>
      if block && kind == .blockSequenceStart then
        goTo .blockSequenceFirstEntry
        return ⟨.sequenceStart anchor tag, start, t.stop⟩
      else if block && kind == .blockMappingStart then
        goTo .blockMappingFirstKey
        return ⟨.mappingStart anchor tag, start, t.stop⟩
      else if anchor.isSome || tag.isSome then
        pop
        return ⟨.scalar anchor tag "" .plain, start, stop⟩
      else
        let context := if block then "while parsing a block node" else "while parsing a flow node"
        parseFault context start "did not find expected node content" t.start

/-- An item of a block sequence, or its end. -/
def blockSequenceEntry (first : Bool) : ParseM Event := do
  if first then
    pushMark (← peek).start
    take
  let t ← peek
  match t.kind with
  | .blockEntry =>
    take
    let n ← peek
    if n.kind != .blockEntry && n.kind != .blockEnd then
      push .blockSequenceEntry
      node true false
    else
      goTo .blockSequenceEntry
      return emptyScalar t.stop
  | .blockEnd =>
    pop
    let _ ← popMark
    take
    return ⟨.sequenceEnd, t.start, t.stop⟩
  | _ =>
    let m ← popMark
    parseFault "while parsing a block collection" m "did not find expected '-' indicator" t.start

/-- An item of a sequence written at the indentation of its mapping key, or its end. -/
def indentlessSequenceEntry : ParseM Event := do
  let t ← peek
  match t.kind with
  | .blockEntry =>
    take
    let n ← peek
    if n.kind != .blockEntry && n.kind != .key && n.kind != .value && n.kind != .blockEnd then
      push .indentlessSequenceEntry
      node true false
    else
      goTo .indentlessSequenceEntry
      return emptyScalar t.stop
  | _ =>
    pop
    return ⟨.sequenceEnd, t.start, t.start⟩

/-- A key of a block mapping, or its end. -/
def blockMappingKey (first : Bool) : ParseM Event := do
  if first then
    pushMark (← peek).start
    take
  let t ← peek
  match t.kind with
  | .key =>
    take
    let n ← peek
    if n.kind != .key && n.kind != .value && n.kind != .blockEnd then
      push .blockMappingValue
      node true true
    else
      goTo .blockMappingValue
      return emptyScalar t.stop
  | .blockEnd =>
    pop
    let _ ← popMark
    take
    return ⟨.mappingEnd, t.start, t.stop⟩
  | _ =>
    let m ← popMark
    parseFault "while parsing a block mapping" m "did not find expected key" t.start

/-- A value of a block mapping; a missing value is empty. -/
def blockMappingValue : ParseM Event := do
  let t ← peek
  match t.kind with
  | .value =>
    take
    let n ← peek
    if n.kind != .key && n.kind != .value && n.kind != .blockEnd then
      push .blockMappingKey
      node true true
    else
      goTo .blockMappingKey
      return emptyScalar t.stop
  | _ =>
    goTo .blockMappingKey
    return emptyScalar t.start

/-- An item of a flow sequence, or its end. -/
def flowSequenceEntry (first : Bool) : ParseM Event := do
  if first then
    pushMark (← peek).start
    take
  let mut t ← peek
  if t.kind != .flowSequenceEnd then
    if !first then
      if t.kind == .flowEntry then
        take
        t ← peek
      else
        let m ← popMark
        parseFault "while parsing a flow sequence" m "did not find expected ',' or ']'" t.start
    if t.kind == .key then
      goTo .flowSequenceEntryMappingKey
      take
      return ⟨.mappingStart none none, t.start, t.stop⟩
    else if t.kind != .flowSequenceEnd then
      push .flowSequenceEntry
      return (← node false false)
  pop
  let _ ← popMark
  take
  return ⟨.sequenceEnd, t.start, t.stop⟩

/-- The key of a one-pair mapping inside a flow sequence. -/
def flowSequenceEntryMappingKey : ParseM Event := do
  let t ← peek
  if t.kind != .value && t.kind != .flowEntry && t.kind != .flowSequenceEnd then
    push .flowSequenceEntryMappingValue
    node false false
  else
    goTo .flowSequenceEntryMappingValue
    return emptyScalar t.start

/-- The value of a one-pair mapping inside a flow sequence. -/
def flowSequenceEntryMappingValue : ParseM Event := do
  let t ← peek
  if t.kind == .value then
    take
    let n ← peek
    if n.kind != .flowEntry && n.kind != .flowSequenceEnd then
      push .flowSequenceEntryMappingEnd
      return (← node false false)
    goTo .flowSequenceEntryMappingEnd
    return emptyScalar n.start
  goTo .flowSequenceEntryMappingEnd
  return emptyScalar t.start

/-- The end of a one-pair mapping inside a flow sequence. -/
def flowSequenceEntryMappingEnd : ParseM Event := do
  let t ← peek
  goTo .flowSequenceEntry
  return ⟨.mappingEnd, t.start, t.start⟩

/-- A key of a flow mapping, or its end. -/
def flowMappingKey (first : Bool) : ParseM Event := do
  if first then
    pushMark (← peek).start
    take
  let mut t ← peek
  if t.kind != .flowMappingEnd then
    if !first then
      if t.kind == .flowEntry then
        take
        t ← peek
      else
        let m ← popMark
        parseFault "while parsing a flow mapping" m "did not find expected ',' or '\x7d'" t.start
    if t.kind == .key then
      take
      let n ← peek
      if n.kind != .value && n.kind != .flowEntry && n.kind != .flowMappingEnd then
        push .flowMappingValue
        return (← node false false)
      goTo .flowMappingValue
      return emptyScalar n.start
    else if t.kind != .flowMappingEnd then
      push .flowMappingEmptyValue
      return (← node false false)
  pop
  let _ ← popMark
  take
  return ⟨.mappingEnd, t.start, t.stop⟩

/-- A value of a flow mapping; a missing value is empty. -/
def flowMappingValue (empty : Bool) : ParseM Event := do
  let t ← peek
  if empty then
    goTo .flowMappingKey
    return emptyScalar t.start
  if t.kind == .value then
    take
    let n ← peek
    if n.kind != .flowEntry && n.kind != .flowMappingEnd then
      push .flowMappingKey
      return (← node false false)
    goTo .flowMappingKey
    return emptyScalar n.start
  goTo .flowMappingKey
  return emptyScalar t.start

/-- The next event; after the stream end, the stream end again. -/
def nextEvent : ParseM Event := do
  match (← get).state with
  | .streamStart =>
    let t ← peek
    goTo .implicitDocumentStart
    take
    return ⟨.streamStart, t.start, t.stop⟩
  | .implicitDocumentStart => documentStart true
  | .documentStart => documentStart false
  | .documentContent =>
    let t ← peek
    match t.kind with
    | .versionDirective .. | .tagDirective .. | .documentStart | .documentEnd | .streamEnd =>
      pop
      return emptyScalar t.start
    | _ => node true false
  | .documentEnd => documentEnd
  | .blockNode => node true false
  | .blockNodeOrIndentlessSequence => node true true
  | .flowNode => node false false
  | .blockSequenceFirstEntry => blockSequenceEntry true
  | .blockSequenceEntry => blockSequenceEntry false
  | .indentlessSequenceEntry => indentlessSequenceEntry
  | .blockMappingFirstKey => blockMappingKey true
  | .blockMappingKey => blockMappingKey false
  | .blockMappingValue => blockMappingValue
  | .flowSequenceFirstEntry => flowSequenceEntry true
  | .flowSequenceEntry => flowSequenceEntry false
  | .flowSequenceEntryMappingKey => flowSequenceEntryMappingKey
  | .flowSequenceEntryMappingValue => flowSequenceEntryMappingValue
  | .flowSequenceEntryMappingEnd => flowSequenceEntryMappingEnd
  | .flowMappingFirstKey => flowMappingKey true
  | .flowMappingKey => flowMappingKey false
  | .flowMappingValue => flowMappingValue false
  | .flowMappingEmptyValue => flowMappingValue true
  | .finished =>
    let m := (← get).scanner.mark
    return ⟨.streamEnd, m, m⟩

end ReactiveView.Yaml
