import ReactiveView.Toml.Read
import ReactiveView.Render.Options
import ReactiveView.Text.Quoted
/-!
# The project configuration

A project is configured by a TOML file with the optional keys `el` (the selector of the mount
target), `template` and `data` (paths), and a table `render` with `missing` (`empty` or
`undefined`) and `mount` (`replace` or `append`). Other keys are ignored.

The keys are read in ascending order, so when two of them are wrong the failure names the first
in that order. A failure points at the value it is about and reads as a type mismatch: what was
found (`integer 1`, `string "x"`, `sequence`, `map`, ...) and what was expected.
-/
namespace ReactiveView.Project

open Render Toml

/-- Where a configuration file may stand in a project, most preferred first. -/
def configCandidates : List String := ["zue.toml", ".zue.toml", ".config/zue.toml"]

/-- The settings of a project. -/
structure Config where
  el : Option String := none
  template : Option String := none
  data : Option String := none
  missing : Missing := .empty
  mount : Strategy := .replace
  deriving Inhabited

/-- A float as a type mismatch names it: its shortest text, with `.0` when it has no point. -/
def floatText (x : Double) : String :=
  let t := Double.format Double.Layout.plain x
  if x.isFinite ∧ !t.contains '.' then t ++ ".0" else t

/-- What a value is, as a type mismatch names it. -/
def unexpected : Value → String
  | .string s => "string " ++ Text.quoteDebug s
  | .integer i => "integer `" ++ toString i ++ "`"
  | .float x => "floating point `" ++ floatText x ++ "`"
  | .boolean b => "boolean `" ++ (if b then "true" else "false") ++ "`"
  | .datetime _ => "map"
  | .array _ => "sequence"
  | .table _ => "map"

/-- A type mismatch about the value at a span. -/
def mismatch {α : Type} (v : Value) (expected : String) (span : Span) : Except Problem α :=
  .error ⟨"invalid type: " ++ unexpected v ++ ", expected " ++ expected, span⟩

/-- A string setting. -/
def stringSetting (expected : String) (v : Value) (span : Span) : Except Problem (Option String) :=
  match v with
  | .string s => .ok (some s)
  | other => mismatch other expected span

/-- One of the names of an enumeration. -/
def variant {α : Type} (names : List (String × α)) (v : Value) (span : Span) : Except Problem α :=
  let expected := match names.map (·.1) with
    | [a, b] => "`" ++ a ++ "` or `" ++ b ++ "`"
    | ns => "one of " ++ ", ".intercalate (ns.map fun n => "`" ++ n ++ "`")
  let pick (name : String) : Except Problem α :=
    match names.lookup name with
    | some a => .ok a
    | none => .error ⟨"unknown variant `" ++ name ++ "`, expected " ++ expected, span⟩
  match v with
  | .string s => pick s
  | .table [(name, _, _)] => pick name
  | .table [] => .error ⟨"wanted exactly 1 element, found 0 elements", span⟩
  | .table _ => .error ⟨"wanted exactly 1 element, more than 1 element", span⟩
  | _ => .error ⟨"wanted string or table", span⟩

/-- The missing-value policy named by a value. -/
def missingSetting : Value → Span → Except Problem Missing :=
  variant [("empty", .empty), ("undefined", .undefined)]

/-- The mount strategy named by a value. -/
def mountSetting : Value → Span → Except Problem Strategy :=
  variant [("replace", .replace), ("append", .append)]

/-- The `render` settings: a table, or an array giving them in order. -/
def renderSettings (c : Config) (v : Value) (span : Span) : Except Problem Config :=
  match v with
  | .table entries =>
    let step (c : Config) : String × Value × Span → Except Problem Config
      | ("missing", v, s) => do return { c with missing := ← missingSetting v s }
      | ("mount", v, s) => do return { c with mount := ← mountSetting v s }
      | _ => .ok c
    entries.foldlM step c
  | .array items => do
    let c ← match items[0]? with
      | some (v, s) => do pure { c with missing := ← missingSetting v s }
      | none => pure c
    match items[1]? with
    | some (v, s) => do return { c with mount := ← mountSetting v s }
    | none => return c
  | other => mismatch other "struct RenderOptions" span

/-- The settings written by the root table of a configuration file. -/
def Config.ofToml (entries : List (String × Value × Span)) : Except Problem Config :=
  let step (c : Config) : String × Value × Span → Except Problem Config
    | ("data", v, s) => do return { c with data := ← stringSetting "path string" v s }
    | ("el", v, s) => do return { c with el := ← stringSetting "a string" v s }
    | ("render", v, s) => renderSettings c v s
    | ("template", v, s) => do return { c with template := ← stringSetting "path string" v s }
    | _ => .ok c
  entries.foldlM step {}

/-- Read a configuration file; a failure is the laid-out TOML failure. -/
def Config.parse (source : String) : Except String Config :=
  match Toml.read source >>= Config.ofToml with
  | .ok c => .ok c
  | .error p => .error (p.render source)

end ReactiveView.Project
