import ReactiveView.Toml.Read
import ReactiveView.Yaml.Load
import ReactiveView.Json.Read
import ReactiveView.Failure
/-!
# Data files

The data of a view may come from a file in JSON, TOML or YAML, chosen by the file's extension
(`json`, `toml`, `yaml` or `yml`, in any case). Every format is read into JSON: TOML date-times
become their text and TOML floats that are not finite become null.
-/
namespace ReactiveView.Project

mutual
/-- The JSON form of a TOML value. -/
def tomlJson : Toml.Value → Json
  | .string s => .string s
  | .integer i => Json.ofInt i
  | .float x => if x.isFinite then .number (.double x) else .null
  | .boolean b => .bool b
  | .datetime text => .string text
  | .array items => .array (tomlItems items)
  | .table entries => .object (tomlEntries entries)

/-- The JSON forms of array items. -/
def tomlItems : List (Toml.Value × Toml.Span) → List Json
  | [] => []
  | (v, _) :: rest => tomlJson v :: tomlItems rest

/-- The JSON forms of table entries. -/
def tomlEntries : List (String × Toml.Value × Toml.Span) → List (String × Json)
  | [] => []
  | (k, v, _) :: rest => (k, tomlJson v) :: tomlEntries rest
end

/-- Read data written in a format; `path` names the file in failures. -/
def parseData (content format path : String) : Except Failure Json :=
  let failed (reason : String) : Except Failure Json := .error (.dataFile path reason)
  match format with
  | "json" =>
    match Json.read content with
    | .ok j => .ok j
    | .error e => failed e.message
  | "toml" =>
    match Toml.read content with
    | .ok entries => .ok (.object (tomlEntries entries))
    | .error p => failed (p.render content)
  | "yaml" | "yml" =>
    match Yaml.load content with
    | .ok j => .ok j
    | .error e => failed e
  | other => .error (.unsupportedDataFormat other)

/-- The last part of a path. -/
def fileName (path : String) : String :=
  ((path.splitOn "/").getLast?).getD ""

/-- The extension of a file name: what follows its last dot, unless the dot is the first
character; none without a dot. -/
def extension? (path : String) : Option String :=
  let name := fileName path
  match name.splitOn "." with
  | [] | [_] => none
  | parts =>
    if name.startsWith "." && parts.length = 2 then none
    else parts.getLast?

/-- ASCII lower case. -/
def asciiLower (s : String) : String := String.map Char.toLower s

/-- The format of a data file, from its extension. -/
def formatOf (path : String) : String := asciiLower ((extension? path).getD "")

/-- Read a data file whose content was found, or fail as a missing file does. -/
def loadData (path : String) (content : Option String) : Except Failure Json :=
  match content with
  | none => .error (.dataFile path "No such file or directory (os error 2)")
  | some text => parseData text (formatOf path) path

end ReactiveView.Project
