import ReactiveView.Cli.Command
import ReactiveView.Cli.Similar
/-!
# Reading the command line

The words of the command line are read left to right. A word `--name` or `--name=value` names
an option, a word `-abc` names options by their short names (the first that takes a value takes
the rest of the word, or the next word), `--` makes every later word a plain one, and any other
word is a subcommand (for the program) or a positional argument. An option that takes a value
takes the next word unless that word looks like an option.

Reading stops at the first mistake, with the message the user sees: an unknown option (with a
similar one offered when there is one), an unknown subcommand, a value outside an option's
choices, an option given twice, an option without its value, or a missing positional argument.
`--help` and `-h` stop reading with the command's help, `--version` with the version.

Every message but the version ends by pointing at `--help`, most after a usage line. The usage
line of a message about the options given lists those options, and the required ones.
-/
namespace ReactiveView.Cli

/-- How `tokens` prints the tokens. -/
inductive TokenFormat where
  | text
  | json
  deriving DecidableEq, Repr, Inhabited

/-- The name of a token format as logs show it. -/
def TokenFormat.name : TokenFormat → String
  | .text => "Text"
  | .json => "Json"

/-- What `render` was asked to do. -/
structure RenderRequest where
  template : Option String := none
  data : Option String := none
  el : Option String := none
  assignments : List String := []
  changes : Bool := false
  showUndefined : Bool := false
  deriving Repr, Inhabited

/-- A subcommand with its arguments. -/
inductive Request where
  | render (r : RenderRequest)
  | tokens (text : String) (format : TokenFormat)
  deriving Repr, Inhabited

/-- What the command line asks for: the options of the program and the subcommand, if any. -/
structure Invocation where
  path : Option String := none
  verbose : Bool := false
  noColor : Bool := false
  request : Option Request := none
  deriving Repr, Inhabited

/-- The outcome of reading a command line: a request to run, a text to show (help or the
version), or a usage error. -/
inductive Reading where
  | run (i : Invocation)
  | show (text : String)
  | refuse (text : String)
  deriving Repr, Inhabited

/-- An argument given on the command line, with its values in order. -/
structure Given where
  arg : Arg
  values : List String
  deriving Repr, Inhabited

/-- What has been read for one command. -/
structure Frame where
  scope : Scope
  /-- The arguments given, in the order of their first use. -/
  given : List Given := []
  /-- An option waiting for its value. -/
  pending : Option Arg := none
  /-- Whether `--` was read. -/
  trailing : Bool := false
  deriving Repr, Inhabited

/-! ## Messages -/

/-- A usage error: the message, tips, and maybe a usage line. -/
def usageError (message : String) (tips : List String) (usage : Option String) : String :=
  let tipText := if tips.isEmpty then "" else "\n" ++ String.join (tips.map ("\n  tip: " ++ ·))
  let usageText := match usage with
    | some u => "\n\nUsage: " ++ u
    | none => ""
  "error: " ++ message ++ tipText ++ usageText ++ "\n\nFor more information, try \x27--help\x27.\n"

/-- The tip naming similar things. -/
def similarTip (what : String) (names : List String) : List String :=
  match names with
  | [] => []
  | [n] => ["a similar " ++ what ++ " exists: \x27" ++ n ++ "\x27"]
  | ns => ["some similar " ++ what ++ "s exist: " ++ ", ".intercalate (ns.map fun n => "\x27" ++ n ++ "\x27")]

/-- The tip for passing an option-like word as a positional argument. -/
def trailingTip (word : String) : String :=
  "to pass \x27" ++ word ++ "\x27 as a value, use \x27-- " ++ word ++ "\x27"

/-- The options a command knows, as keys: its own, `--help`, `--version` for the program, then
the options of the program. -/
def Scope.keys : Scope → List Arg
  | .program => programArgs ++ [helpArg false, versionArg]
  | .render => (renderArgs.filter fun a => !programArgs.any (·.name == a.name)) ++ [helpArg false]
      ++ programArgs
  | .tokens => [formatArg, helpArg false] ++ programArgs
  | .help => []

/-- The option with a long name. -/
def Scope.long? (s : Scope) (name : String) : Option Arg := s.keys.find? (·.name == name)

/-- The option with a short name. -/
def Scope.short? (s : Scope) (c : Char) : Option Arg := s.keys.find? (·.short == some c)

/-- The usage line listing the required arguments and those given: options first, in the order
of their first use, then positional arguments. -/
def Frame.smartUsage (f : Frame) (extra : List Arg) : String :=
  let used := f.given.map (·.arg) ++ extra
  let options := (used.filter (!·.positional)).foldl
    (fun acc a => if acc.contains a.spec then acc else acc ++ [a.spec]) []
  let positionals := f.scope.positionals.map (·.spec)
  " ".intercalate (f.scope.usageName :: options ++ positionals)

/-- The usage line of a message: the help's own when nothing was given, else the one listing
what was given. -/
def Frame.usageFor (f : Frame) (extra : List Arg) : String :=
  if f.given.isEmpty && extra.isEmpty then f.scope.usage else f.smartUsage extra

/-- The message for an unknown option `--name`, offering a similar option of this command or,
for the program, of a subcommand named later on the line. -/
def unknownLong (f : Frame) (name : String) (rest : List String) : String :=
  let word := "--" ++ name
  let own := (similarNames name (f.scope.keys.map (·.name))).getLast?
  let tail : List String := if f.scope.positionals.isEmpty || f.trailing then [] else [trailingTip word]
  match own with
  | some n =>
    let suggested := (f.scope.long? n).toList
    usageError ("unexpected argument \x27" ++ word ++ "\x27 found") (similarTip "argument" ["--" ++ n])
      (some (f.usageFor suggested))
  | none =>
    let elsewhere :=
      if f.scope = .program then
        let offers := [Scope.render, Scope.tokens].filterMap fun s =>
          match (similarNames name (s.keys.map (·.name))).getLast?, rest.idxOf? s.name with
          | some n, some place => some (place, s.name ++ " --" ++ n)
          | _, _ => none
        match offers.foldl (fun best o => match best with
            | some b => if o.1 < b.1 then some o else some b
            | none => some o) none with
        | some (_, text) => ["\x27" ++ text ++ "\x27 exists"]
        | none => []
      else []
    usageError ("unexpected argument \x27" ++ word ++ "\x27 found") (tail ++ elsewhere)
      (some (f.usageFor []))

/-! ## Reading -/

/-- Record a use of an argument with its values. An argument that cannot be repeated may be
given once; a value must be one of the argument's choices, when it has any. -/
def Frame.record (f : Frame) (a : Arg) (values : List String) : Except String Frame := do
  if f.given.any (·.arg.name == a.name) && !a.repeatable then
    throw (usageError ("the argument \x27" ++ a.spec ++ "\x27 cannot be used multiple times") []
      (some f.scope.usage))
  for v in values do
    if !a.choices.isEmpty && !a.choices.any (·.1 == v) then
      let possible := "\n  [possible values: " ++ ", ".intercalate (a.choices.map (·.1)) ++ "]"
      let message := if v.isEmpty then
          "a value is required for \x27" ++ a.spec ++ "\x27 but none was supplied" ++ possible
        else "invalid value \x27" ++ v ++ "\x27 for \x27" ++ a.spec ++ "\x27" ++ possible
      let near := (similarNames v (a.choices.map (·.1))).getLast?.toList
      throw (usageError message (similarTip "value" near) none)
  let given := if f.given.any (·.arg.name == a.name) then
      f.given.map fun g => if g.arg.name == a.name then { g with values := g.values ++ values } else g
    else f.given ++ [⟨a, values⟩]
  return { f with given := given }

/-- The message for an option that was not given its value. -/
def missingValue (a : Arg) : String :=
  let possible := if a.choices.isEmpty then ""
    else "\n  [possible values: " ++ ", ".intercalate (a.choices.map (·.1)) ++ "]"
  usageError ("a value is required for \x27" ++ a.spec ++ "\x27 but none was supplied" ++ possible) [] none

/-- What reading one word leads to: reading on with a frame, switching to a subcommand, or
stopping. -/
inductive Next where
  | frame (f : Frame)
  | enter (f : Frame) (sub : Scope)
  | stop (r : Reading)
  deriving Inhabited

/-- Settle an option waiting for its value before an option word is read: reading stops when
one is waiting. -/
def Frame.settle (f : Frame) : Except String Frame :=
  match f.pending with
  | some a => .error (missingValue a)
  | none => .ok f

/-- The outcome of a step that may fail. -/
def Next.ofExcept : Except String Frame → Next
  | .ok f => .frame f
  | .error e => .stop (.refuse e)

/-- Read the letters of a word of short options. -/
def readShorts (f : Frame) (word : String) : List Char → Next
  | [] => .frame f
  | c :: cs =>
    match f.scope.short? c with
    | none =>
      let tips := if f.scope.positionals.isEmpty || f.trailing then []
        else [trailingTip ("-" ++ String.singleton c)]
      .stop (.refuse (usageError ("unexpected argument \x27-" ++ String.singleton c ++ "\x27 found")
        tips (some f.scope.usage)))
    | some a =>
      match f.settle with
      | .error e => .stop (.refuse e)
      | .ok f =>
        if a.name == "help" then .stop (.show (f.scope.helpText false))
        else if a.name == "version" then .stop (.show versionText)
        else if a.valueName.isNone then
          match f.record a [] with
          | .ok f => readShorts f word cs
          | .error e => .stop (.refuse e)
        else if cs.isEmpty then .frame { f with pending := some a }
        else
          let value := match cs with
            | '=' :: vs => String.ofList vs
            | vs => String.ofList vs
          Next.ofExcept (f.record a [value])

/-- Read a word naming an option by its long name. -/
def readLong (f : Frame) (body : String) (rest : List String) : Next :=
  let (name, attached) := match body.splitOn "=" with
    | [n] => (n, none)
    | n :: vs => (n, some ("=".intercalate vs))
    | [] => (body, none)
  match f.scope.long? name with
  | none => .stop (.refuse (unknownLong { f with pending := none } name rest))
  | some a =>
    if a.valueName.isNone then
      match attached with
      | some v =>
        .stop (.refuse (usageError ("unexpected value \x27" ++ v ++ "\x27 for \x27--" ++ name
          ++ "\x27 found; no more were expected") [] (some (f.usageFor [a]))))
      | none =>
        match f.settle with
        | .error e => .stop (.refuse e)
        | .ok f =>
          if a.name == "help" then .stop (.show (f.scope.helpText true))
          else if a.name == "version" then .stop (.show versionText)
          else Next.ofExcept (f.record a [])
    else
      match f.settle with
      | .error e => .stop (.refuse e)
      | .ok f =>
        match attached with
        | some v => Next.ofExcept (f.record a [v])
        | none => .frame { f with pending := some a }

/-- Whether a word reads as options: it starts with `-` and is more than `-`. -/
def optionLike (word : String) : Bool := word.startsWith "-" && word != "-"

/-- Read a plain word: the value of a waiting option, a subcommand of the program, or a
positional argument. -/
def readPlain (f : Frame) (word : String) : Next :=
  match f.pending with
  | some a => Next.ofExcept ((f.record a [word]).map fun f => { f with pending := none })
  | none =>
    match f.scope with
    | .program =>
      match Scope.ofName? word with
      | some s => .enter f s
      | none =>
        let near := similarNames word subcommandNames
        if near.isEmpty then
          .stop (.refuse (usageError ("unrecognized subcommand \x27" ++ word ++ "\x27") []
            (some f.scope.usage)))
        else
          .stop (.refuse (usageError ("unrecognized subcommand \x27" ++ word ++ "\x27")
            (similarTip "subcommand" near) (some f.scope.usage)))
    | s =>
      match s.positionals.find? fun p => !f.given.any (·.arg.name == p.name) with
      | some p => Next.ofExcept (f.record p [word])
      | none =>
        .stop (.refuse (usageError ("unexpected argument \x27" ++ word ++ "\x27 found") []
          (some s.usage)))

/-- Read a word after `--`: a positional argument, which settles a waiting option first. For
the program, a subcommand's name there is a mistake of its own. -/
def readTrailing (f : Frame) (word : String) : Next :=
  match f.scope with
  | .program =>
    if (Scope.ofName? word).isSome then
      .stop (.refuse (usageError "unexpected argument \x27--\x27 found"
        ["subcommand \x27" ++ word ++ "\x27 exists; to use it, remove the \x27--\x27 before it"]
        (some f.scope.usage)))
    else readPlain { f with pending := none } word
  | s =>
    match s.positionals.find? fun p => !f.given.any (·.arg.name == p.name) with
    | some p =>
      match f.settle with
      | .error e => .stop (.refuse e)
      | .ok f => Next.ofExcept (f.record p [word])
    | none =>
      .stop (.refuse (usageError ("unexpected argument \x27" ++ word ++ "\x27 found") []
        (some s.usage)))

/-- Read one word. -/
def readWord (f : Frame) (word : String) (rest : List String) : Next :=
  if f.trailing then readTrailing f word
  else if word == "--" then .frame { f with trailing := true }
  else if word.startsWith "--" then readLong f (String.ofList (word.toList.drop 2)) rest
  else if optionLike word then readShorts f word (word.toList.drop 1)
  else readPlain f word

/-- The value of an option in a frame. -/
def Frame.value? (f : Frame) (name : String) : Option String :=
  (f.given.find? (·.arg.name == name)).bind (·.values.head?)

/-- Whether a switch was given in a frame. -/
def Frame.flag (f : Frame) (name : String) : Bool := f.given.any (·.arg.name == name)

/-- The values of an option in a frame. -/
def Frame.values (f : Frame) (name : String) : List String :=
  ((f.given.find? (·.arg.name == name)).map (·.values)).getD []

/-- Finish a frame at the end of the line: an option still waiting for its value and a missing
positional argument are mistakes. -/
def Frame.finish (f : Frame) : Except String Frame := do
  if let some a := f.pending then throw (missingValue a)
  for p in f.scope.positionals do
    if !f.given.any (·.arg.name == p.name) then
      throw (usageError ("the following required arguments were not provided:\n  " ++ p.spec) []
        (some (f.smartUsage [p])))
  return f

/-- The help a list of subcommand names asks for: the long help of the last one named. -/
def helpFor (names : List String) : Reading :=
  match names with
  | [] => .show (Scope.program.helpText true)
  | n :: more =>
    match Scope.ofName? n with
    | none => .refuse (usageError ("unrecognized subcommand \x27" ++ n ++ "\x27") []
        (some Scope.program.usage))
    | some s =>
      match more with
      | [] => .show (s.helpText true)
      | m :: _ => .refuse (usageError ("unrecognized subcommand \x27" ++ m ++ "\x27") [] (some s.usage))

/-- The request a finished subcommand frame makes. -/
def Frame.request (f : Frame) : Option Request :=
  match f.scope with
  | .render => some (.render {
      template := f.value? "template"
      data := f.value? "data"
      el := f.value? "el"
      assignments := f.values "set"
      changes := f.flag "changes"
      showUndefined := f.flag "show-undefined" })
  | .tokens =>
    let format := if f.value? "format" == some "json" then TokenFormat.json else .text
    some (.tokens ((f.value? "TEXT").getD "") format)
  | _ => none

/-- The invocation that the program's frame and the subcommand's frame, if any, make: a
subcommand's value of a program option wins over the program's. -/
def invocation (top : Frame) (sub : Option Frame) : Invocation :=
  let frames := top :: sub.toList
  { path := (frames.filterMap (·.value? "path")).getLast?
    verbose := frames.any (·.flag "verbose")
    noColor := frames.any (·.flag "no-color")
    request := sub.bind (·.request) }

/-- Read the words of a subcommand. -/
def readSub (top : Frame) : Frame → List String → Reading
  | f, [] =>
    match f.finish with
    | .error e => .refuse e
    | .ok f =>
      match top.finish with
      | .error e => .refuse e
      | .ok top => .run (invocation top (some f))
  | f, w :: ws =>
    match readWord f w ws with
    | .frame f => readSub top f ws
    | .enter f _ => readSub top f ws
    | .stop r => r

/-- Read the words of the program. -/
def readProgram : Frame → List String → Reading
  | f, [] =>
    match f.finish with
    | .error e => .refuse e
    | .ok f => .run (invocation f none)
  | f, w :: ws =>
    match readWord f w ws with
    | .frame f => readProgram f ws
    | .enter _ .help => helpFor ws
    | .enter f s => readSub f { scope := s } ws
    | .stop r => r

/-- Read a command line (without the program's name). -/
def readArgs (args : List String) : Reading := readProgram { scope := .program } args

end ReactiveView.Cli
