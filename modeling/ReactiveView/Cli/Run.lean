import ReactiveView.Cli.Args
import ReactiveView.Cli.Log
import ReactiveView.Cli.Report
import ReactiveView.Cli.Files
import ReactiveView.Project.Config
import ReactiveView.Project.Data
import ReactiveView.Render.View
import ReactiveView.Markup.Parse
import ReactiveView.Markup.Render
import ReactiveView.Store.Convert
import ReactiveView.Json.Read
import ReactiveView.Json.Write
import ReactiveView.Text.Quoted
/-!
# Running the program

`run` is the whole program, given its file system, its current directory, its environment and
its arguments; it gives the exit status and what was printed on standard output and standard
error.

`render` reads the settings from the first configuration file of the project root
(`zue.toml`, `.zue.toml`, `.config/zue.toml`), lets the command line override them, reads the
template and the data, makes a view of the data at the selector, applies each `--set PATH=JSON`
to the observed data, renders again when that changed anything, and prints the document. A
failure of the engine stops the run with its report and status 2.

`tokens` prints how a text splits into literal runs and placeholders, as text or as JSON.
-/
namespace ReactiveView.Cli

open Render Store Project

/-- What a run leaves: its exit status and what it printed. -/
structure Outcome where
  status : Nat
  stdout : String
  stderr : String
  deriving DecidableEq, Repr, Inhabited

/-- What a run has printed so far. -/
structure Printed where
  out : String := ""
  err : String := ""
  deriving Inhabited

/-- How a run prints: with colours or not, and which log records. -/
structure Settings where
  color : Bool
  filter : Filter

/-- Steps of a run: they print, and may stop with an exit status. -/
abbrev RunM (m : Type → Type) := ExceptT Nat (StateT Printed m)

variable {m : Type → Type} [Monad m]

/-- Print on standard output. -/
def say (text : String) : RunM m Unit := modify fun p => { p with out := p.out ++ text }

/-- Print on standard error. -/
def sayErr (text : String) : RunM m Unit := modify fun p => { p with err := p.err ++ text }

/-- Print a log record, if the filter lets it through. -/
def log (s : Settings) (r : Record) : RunM m Unit :=
  if s.filter.allows r.level r.target then sayErr (r.render s.color) else pure ()

/-- Stop with the report of a failure. -/
def fail {α : Type} (s : Settings) (f : Failure) : RunM m α := do
  sayErr (report s.color f)
  throw 2

/-! ## Tokens -/

/-- The tokens of a text: its segments, a text without placeholders being one literal run, and
the empty text none. -/
def tokensOf (text : String) : List Template.Segment :=
  match Template.parse? text with
  | some segments => segments
  | none => if text.isEmpty then [] else [.literal text]

/-- Tokens as JSON objects. -/
def tokensJson (tokens : List Template.Segment) : Json :=
  .array (tokens.map fun
    | .literal t => .object [("kind", .string "literal"), ("text", .string t)]
    | .placeholder p raw =>
      .object [("kind", .string "placeholder"), ("path", .string p), ("raw", .string raw)])

/-- Tokens as lines of text. -/
def tokensText (color : Bool) (tokens : List Template.Segment) : String :=
  if tokens.isEmpty then "No tokens.\n"
  else String.join (tokens.map fun
    | .literal t => bold color "literal    " ++ " " ++ Text.quoteDebug t ++ "\n"
    | .placeholder p raw => tinted color "32" "placeholder" ++ " " ++ p ++ " (" ++ raw ++ ")\n")

/-- The `tokens` subcommand. -/
def tokensRun (s : Settings) (text : String) (format : TokenFormat) : RunM m Unit := do
  let tokens := tokensOf text
  log s ⟨.debug, "zue", "parsed tokens",
    [("count", toString tokens.length), ("format", format.name)]⟩
  match format with
  | .text => say (tokensText s.color tokens)
  | .json => say (Json.pretty 0 (tokensJson tokens) ++ "\n")

/-! ## The view -/

/-- A session with a view: it logs, may fail, and runs on observed data nobody subscribes to. -/
abbrev SessionM := ExceptT Failure (StateT (Array Record) (StoreM Unit Unit))

/-- Subscribers that do nothing; the data of a session has none. -/
def quiet : Handler Unit Unit := fun _ _ _ => pure ()

/-- The fuel of a write to the data. -/
def writeFuel : Nat := 1000

/-- Log a record in a session. -/
def note (r : Record) : SessionM Unit := modify fun rs => rs.push r

/-- Run a view operation in a session. -/
def liftView {α : Type} (x : ViewM Unit Unit α) : SessionM α := do
  match ← (x.run : StoreM Unit Unit (Except Failure α)) with
  | .ok a => pure a
  | .error f => throw f

/-- The records compiling a template logs: each element, before its children, and each
placeholder whose path gives `undefined`. -/
def compileRecords (h : Heap Unit) (data : Nat) : Markup.Node → List Record
  | .element tag _ children =>
    ⟨.trace, "zue_core::compiler", "compile element",
      [("tag", tag), ("children", toString children.length)]⟩ :: compileRecordsList h data children
  | .text s =>
    ((Template.parse? s).getD []).filterMap fun
      | .placeholder path _ =>
        if h.resolve (.object data) path == .undefined then
          some ⟨.trace, "zue_core::compiler", "unresolved placeholder", [("path", path)]⟩
        else none
      | .literal _ => none
where
  /-- The records compiling a list of nodes logs. -/
  compileRecordsList (h : Heap Unit) (data : Nat) : List Markup.Node → List Record
    | [] => []
    | n :: rest => compileRecords h data n ++ compileRecordsList h data rest

/-- A node path as logs show it. -/
def nodePathText (p : Markup.NodePath) : String :=
  "NodePath([" ++ ", ".intercalate (p.map toString) ++ "])"

/-- The name of a mount strategy as logs show it. -/
def strategyText : Strategy → String
  | .replace => "Replace"
  | .append => "Append"

/-- Log what rendering a view did. -/
def noteRender (v : View) : SessionM Unit := do
  let h ← (heap : StoreM Unit Unit (Heap Unit))
  for r in compileRecords h v.data v.template do note r
  note ⟨.debug, "zue_core::mount", "mounting fragment",
    [("selector", v.selector), ("strategy", strategyText v.options.strategy),
      ("path", nodePathText v.el)]⟩
  note ⟨.debug, "zue_core::view", "rendered view", [("selector", v.selector)]⟩

/-- The part of a text before its first `=` and the part after it. -/
def splitAssignment (text : String) : Option (String × String) :=
  match Text.splitChar text '=' with
  | p :: rest@(_ :: _) => some (p, "=".intercalate rest)
  | _ => none

/-- The part of a path before its last `.` and the part after it. -/
def splitLastDot (path : String) : Option (String × String) :=
  match (Text.splitChar path '.').reverse with
  | last :: before@(_ :: _) => some (".".intercalate before.reverse, last)
  | _ => none

/-- The name of a change's kind as logs show it. -/
def kindName : ChangeKind → String
  | .set => "Set"
  | .array => "Array"

/-- The object and the key an assignment path names: the value the part before the last `.`
resolves to and the trimmed part after it, or the data itself and the whole path when it has no
`.`; nothing unless that value is an object that has the key already. -/
def target (h : Heap Unit) (data : Nat) (path : String) : Option (Nat × String) :=
  let (parent, key) := match splitLastDot path with
    | some (p, k) => (h.resolve (.object data) p, Text.trim k)
    | none => (Value.object data, path)
  match parent with
  | .object r => if ((h.object? r).map (·.hasOwn key)).getD false then some (r, key) else none
  | _ => none

/-- The value an assignment writes: its text read as JSON, or else the text itself. -/
def assignedValue (raw : String) : StoreM Unit Unit Value :=
  match Json.read raw with
  | .ok j => ofJson j
  | .error _ => pure (.string raw)

/-- Apply an assignment `PATH=JSON` to the data: the path must name a property the parent
object has already; the value is read as JSON, or else taken as a string. -/
def assign (data observer : Nat) (text : String) : SessionM Unit := do
  let some (rawPath, raw) := splitAssignment text | throw (.invalidPath text)
  let path := Text.trim rawPath
  let h ← (heap : StoreM Unit Unit (Heap Unit))
  let some (r, key) := target h data path | throw (.invalidPath path)
  let before := (← (changes observer : StoreM Unit Unit (List Change))).length
  let value ← (assignedValue raw : StoreM Unit Unit Value)
  (setProperty quiet writeFuel r key value : StoreM Unit Unit Unit)
  let after ← (changes observer : StoreM Unit Unit (List Change))
  let h ← (heap : StoreM Unit Unit (Heap Unit))
  for c in after.drop before do
    note ⟨.debug, "zue_core::observer", "change",
      [("kind", kindName c.kind), ("path", c.path), ("value", h.display c.value)]⟩

/-- What a session leaves: the document's markup, the changes the assignments made (kind, path
and value as text), and whether the view rendered again. -/
structure Summary where
  html : String
  changes : List (ChangeKind × String × String)
  updated : Bool

/-- Make a view of the data, apply the assignments, and render again if they changed
anything. -/
def session (document : Markup.Document) (el : String) (data : Option Json) (options : Options)
    (assignments : List String) : SessionM Summary := do
  let value ← match data with
    | some j => (ofJson j : StoreM Unit Unit Value)
    | none => pure Value.undefined
  let v ← liftView (View.make document el value options)
  let h ← (heap : StoreM Unit Unit (Heap Unit))
  let keys := ((h.object? v.data).map (·.keys.length)).getD 0
  note ⟨.debug, "zue_core::view", "creating view", [("selector", el), ("keys", toString keys)]⟩
  noteRender v
  for a in assignments do
    note ⟨.debug, "zue", "applying assignment", [("assignment", a)]⟩
    assign v.data v.observer a
  let cs ← (changes v.observer : StoreM Unit Unit (List Change))
  if !cs.isEmpty then
    note ⟨.debug, "zue_core::view", "updating view", [("changes", toString cs.length)]⟩
  let (updated, v) ← liftView v.update
  if updated then noteRender v
  note ⟨.info, "zue", "render finished",
    [("changes", toString cs.length), ("updated", if updated then "true" else "false")]⟩
  let h ← (heap : StoreM Unit Unit (Heap Unit))
  return ⟨Markup.Document.render v.document,
    cs.map fun c => (c.kind, c.path, h.display c.value), updated⟩

/-- Run a session on an empty heap: the records it logged and its result. -/
def runSession (x : SessionM Summary) : List Record × Except Failure Summary :=
  match ((x.run).run #[]).run ⟨Heap.empty, ()⟩ with
  | .ok ((result, records), _) => (records.toList, result)
  | .error _ => ([], .error (.io "the data kept changing"))

/-! ## Render -/

/-- The first configuration file of a project root, with its path. -/
def findConfig (fs : FileSystem m) (root : String) : List String → m (Option (String × String))
  | [] => pure none
  | c :: rest => do
    let path := joinPath root c
    match ← fs.entry path with
    | .file content => pure (some (path, content))
    | _ => findConfig fs root rest

/-- The changes block printed after the document. -/
def changesText (color : Bool) (cs : List (ChangeKind × String × String)) : String :=
  let lines := if cs.isEmpty then "  (none)\n"
    else String.join (cs.map fun (k, p, v) =>
      let kind := match k with
        | .set => tinted color "32" "set"
        | .array => tinted color "36" "array"
      "  " ++ kind ++ " " ++ p ++ " = " ++ v ++ "\n")
  "\n" ++ bold color "Changes:" ++ "\n" ++ lines

/-- The `render` subcommand, from the project root `root`. -/
def renderRun (fs : FileSystem m) (s : Settings) (verbose : Bool) (root : String)
    (r : RenderRequest) : RunM m Unit := do
  let found ← (findConfig fs root configCandidates : m _)
  let config ← match found with
    | none => pure ({} : Config)
    | some (path, content) => do
      log s ⟨.debug, "zue_core::config", "loading config", [("path", path)]⟩
      match Config.parse content with
      | .ok c => pure c
      | .error reason => fail s (.configParse reason)
  log s ⟨.debug, "zue", "resolved project root", [("root", root)]⟩
  let el ← match r.el <|> config.el with
    | some e => pure e
    | none => fail s (.missingConfigField "el")
  let template ← match r.template <|> config.template with
    | some t => pure (joinPath root t)
    | none => fail s (.missingConfigField "template")
  let dataPath := (r.data <|> config.data).map (joinPath root)
  let options : Options :=
    { missing := if r.showUndefined then .undefined else config.missing
      strategy := config.mount }
  let source ← match (← (fs.entry template : m Entry)).read with
    | .ok text => pure text
    | .error reason => do
      sayErr (plainError s.color reason)
      throw 2
  let document ← match Markup.parse source with
    | .ok d => pure d
    | .error f => fail s f
  let data ← match dataPath with
    | none => pure none
    | some path =>
      match (← (fs.entry path : m Entry)).read with
      | .error reason => fail s (.dataFile path reason)
      | .ok text =>
        match parseData text (formatOf path) path with
        | .ok j => pure (some j)
        | .error f => fail s f
  if verbose then
    sayErr ("Rendering " ++ relativeTo template root ++ " into \x60" ++ el ++ "\x60\n")
  let (records, result) := runSession (session document el data options r.assignments)
  for rec in records do log s rec
  match result with
  | .error f => fail s f
  | .ok summary =>
    say (summary.html ++ "\n")
    if r.changes then say (changesText s.color summary.changes)

/-! ## The program -/

/-- The message for a command line without a subcommand. -/
def noSubcommand : String := "No subcommand specified. Run \x60zue --help\x60 for usage.\n"

/-- Run the program with its arguments (without its name), from the directory `cwd`, with the
environment variables `env`. -/
def run (fs : FileSystem m) (cwd : String) (env : List (String × String)) (args : List String) :
    m Outcome := do
  match readArgs args with
  | .show text => pure ⟨0, text, ""⟩
  | .refuse text => pure ⟨2, "", text⟩
  | .run inv =>
    let color := !inv.noColor && (env.lookup "NO_COLOR").isNone
    let s : Settings := ⟨color, Filter.choose inv.verbose (env.lookup "RUST_LOG")⟩
    match inv.request with
    | none => pure ⟨1, "", noSubcommand⟩
    | some req =>
      let step : RunM m Unit := match req with
        | .tokens text format => tokensRun s text format
        | .render r => renderRun fs s inv.verbose (inv.path.getD cwd) r
      let (result, printed) ← (step.run.run {} : m _)
      let status := match result with
        | .ok _ => 0
        | .error code => code
      pure ⟨status, printed.out, printed.err⟩

end ReactiveView.Cli
