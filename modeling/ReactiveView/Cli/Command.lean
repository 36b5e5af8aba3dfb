/-!
# The command line's grammar and help

The program is `zue` with the subcommands `render`, `tokens` and `help`. Every subcommand takes
the options of the program itself (`--path`, `--verbose`, `--no-color`), and every command
takes `--help`; `--version` belongs to the program alone.

Help comes in two lengths. The short one (`-h`) sets each option's description beside it,
aligned two columns after the widest option, and lists choices and defaults in brackets. The
long one (`--help`, or the `help` subcommand) sets each description on the line below, indented
ten columns, with a blank line between options, and lists each choice with its description.
-/
namespace ReactiveView.Cli

/-- An argument of a command: an option, written `--long` and maybe `-s`, or a positional
argument, which has no long name. -/
structure Arg where
  /-- The long name of an option, or the name of a positional argument. -/
  name : String
  short : Option Char := none
  /-- The placeholder of the option's value; none for a switch. -/
  valueName : Option String := none
  positional : Bool := false
  /-- Whether the option may be given more than once. -/
  repeatable : Bool := false
  help : String
  defaultValue : Option String := none
  /-- The values the option accepts, each with its description; empty for any value. -/
  choices : List (String × String) := []
  deriving Repr, Inhabited

namespace Arg

/-- Whether the argument takes a value. -/
def takesValue (a : Arg) : Bool := a.valueName.isSome || a.positional

/-- The argument as messages name it: `--el <EL>`, `--changes` or `<TEXT>`. -/
def spec (a : Arg) : String :=
  if a.positional then "<" ++ a.name ++ ">"
  else
    match a.valueName with
    | some v => "--" ++ a.name ++ " <" ++ v ++ ">"
    | none => "--" ++ a.name

/-- The argument as the help lists it, with its short name or room for one. -/
def helpSpec (a : Arg) : String :=
  if a.positional then a.spec
  else
    match a.short with
    | some c => "-" ++ String.singleton c ++ ", " ++ a.spec
    | none => "    " ++ a.spec

end Arg

/-- The subcommands of the program. -/
inductive Scope where
  | program
  | render
  | tokens
  | help
  deriving DecidableEq, Repr, Inhabited

/-- The options every command takes. -/
def pathArg : Arg :=
  { name := "path", short := some 'p', valueName := some "PATH",
    help := "Path to the project root directory" }

/-- The switch for debug logs. -/
def verboseArg : Arg :=
  { name := "verbose", short := some 'v',
    help := "Enable verbose output, including debug logs on stderr" }

/-- The switch that turns colours off. -/
def noColorArg : Arg := { name := "no-color", help := "Disable colored output" }

/-- The help switch, whose description depends on the length of the help. -/
def helpArg (long : Bool) : Arg :=
  { name := "help", short := some 'h',
    help := if long then "Print help (see a summary with \x27-h\x27)"
      else "Print help (see more with \x27--help\x27)" }

/-- The version switch. -/
def versionArg : Arg := { name := "version", short := some 'V', help := "Print version" }

/-- The options of `render`, in the order the help lists them, without `--help`. -/
def renderArgs : List Arg :=
  [ { name := "template", valueName := some "TEMPLATE",
      help := "The markup file holding the template" },
    { name := "data", valueName := some "DATA",
      help := "The data file (json, toml, yaml or yml)" },
    { name := "el", valueName := some "EL",
      help := "Selector of the mount target, such as \x60#app\x60" },
    pathArg,
    { name := "set", valueName := some "PATH=JSON", repeatable := true,
      help := "Write a value into the observed data after the first render, then render again. "
        ++ "The value is parsed as JSON and falls back to a plain string. Can be repeated: "
        ++ "\x60--set user.name=\x27\"Bo\"\x27 --set count=2\x60" },
    verboseArg,
    { name := "changes",
      help := "Print every change notification recorded while applying \x60--set\x60" },
    noColorArg,
    { name := "show-undefined",
      help := "Render unresolved placeholders as \x60undefined\x60 instead of nothing" } ]

/-- The positional argument of `tokens`. -/
def textArg : Arg := { name := "TEXT", positional := true, help := "The text to tokenize" }

/-- The output format option of `tokens`. -/
def formatArg : Arg :=
  { name := "format", valueName := some "FORMAT", help := "Output format for the token list",
    defaultValue := some "text",
    choices := [("text", "Human-readable text output with colors and formatting"),
      ("json", "JSON output for programmatic consumption")] }

/-- The options of `tokens`, in the order the help lists them, without `--help`. -/
def tokensArgs : List Arg := [formatArg, pathArg, verboseArg, noColorArg]

/-- The options of the program itself, without `--help` and `--version`. -/
def programArgs : List Arg := [pathArg, verboseArg, noColorArg]

/-- The options of a command, without `--help` and `--version`. -/
def Scope.options : Scope → List Arg
  | .program => programArgs
  | .render => renderArgs
  | .tokens => tokensArgs
  | .help => []

/-- The positional arguments of a command. -/
def Scope.positionals : Scope → List Arg
  | .tokens => [textArg]
  | _ => []

/-- The name of a subcommand. -/
def Scope.name : Scope → String
  | .program => ""
  | .render => "render"
  | .tokens => "tokens"
  | .help => "help"

/-- The name of a command as its usage writes it. -/
def Scope.usageName : Scope → String
  | .program => "zue"
  | .render => "zue render"
  | .tokens => "zue tokens"
  | .help => "zue help"

/-- The usage line a command's help shows. -/
def Scope.usage : Scope → String
  | .program => "zue [OPTIONS] [COMMAND]"
  | .render => "zue render [OPTIONS]"
  | .tokens => "zue tokens [OPTIONS] <TEXT>"
  | .help => "zue help [OPTIONS] [COMMAND]..."

/-- The one-line description of a command. -/
def Scope.about : Scope → String
  | .program => "Render markup templates against reactive data."
  | .render => "Render a template against its data and print the resulting markup"
  | .tokens => "Split text into literal and placeholder tokens"
  | .help => "Print this message or the help of the given subcommand(s)"

/-- The description of a command in its long help. -/
def Scope.longAbout : Scope → String
  | .program =>
    "zue is a minimal reactive view engine. It mounts a markup template, fills its "
      ++ "\x60\x7b\x7b path \x7d\x7d\x60 placeholders from a data file and re-renders whenever the "
      ++ "data changes.\n\nQuick start:\n  zue render   Render the template configured in "
      ++ "zue.toml\n  zue tokens   Show how a piece of text is split into tokens"
  | .render =>
    "Render a template against its data and print the resulting markup.\n\nSettings missing "
      ++ "from the command line are read from \x60zue.toml\x60 in the project root. Relative "
      ++ "paths are resolved against the project root."
  | s => s.about

/-- The subcommands, as the help lists them. -/
def subcommandNames : List String := ["render", "tokens", "help"]

/-- The subcommand a word names. -/
def Scope.ofName? : String → Option Scope
  | "render" => some .render
  | "tokens" => some .tokens
  | "help" => some .help
  | _ => none

/-- Spaces. -/
def spaces (n : Nat) : String := String.ofList (List.replicate n ' ')

/-- A string padded with spaces to `n` columns. -/
def padRight (s : String) (n : Nat) : String := s ++ spaces (n - s.length)

/-- The bracketed notes after a description: the default and, in the short help, the
choices. -/
def notes (a : Arg) (long : Bool) : List String :=
  let default := match a.defaultValue with
    | some d => ["[default: " ++ d ++ "]"]
    | none => []
  let choices := if long || a.choices.isEmpty then []
    else ["[possible values: " ++ ", ".intercalate (a.choices.map (·.1)) ++ "]"]
  default ++ choices

/-- An argument in the short help, its description starting `column` columns after its
specification's start. -/
def shortEntry (column : Nat) (a : Arg) : String :=
  let text := " ".intercalate (a.help :: notes a false)
  "  " ++ padRight a.helpSpec column ++ text

/-- An argument in the long help. -/
def longEntry (a : Arg) : String :=
  let indent := spaces 10
  let text := match notes a true with
    | [] => a.help
    | ns => a.help ++ "\n\n" ++ "\n".intercalate ns
  let body := indent ++ text.replace "\n" ("\n" ++ indent)
  let choices := if a.choices.isEmpty then ""
    else
      let widest := (a.choices.map (·.1.length)).foldl max 0
      "\n\n" ++ indent ++ "Possible values:" ++ String.join (a.choices.map fun (n, h) =>
        "\n" ++ indent ++ "- " ++ n ++ ": " ++ spaces (widest - n.length) ++ h)
  "  " ++ a.helpSpec ++ "\n" ++ body ++ choices

/-- A section of arguments: the short help aligns descriptions two columns past the widest
specification (counting the room for a short name of options); the long help puts a blank line
between entries. -/
def argSection (long : Bool) (args : List Arg) : String :=
  if long then "\n\n".intercalate (args.map longEntry)
  else
    let widest := (args.map fun a => (if a.positional then 0 else 4) + a.spec.length).foldl max 0
    "\n".intercalate (args.map (shortEntry (widest + 2)))

/-- The subcommands section. -/
def commandSection : String :=
  let entries := [("render", Scope.render), ("tokens", Scope.tokens), ("help", Scope.help)]
  "\n".intercalate (entries.map fun (n, s) => "  " ++ padRight n 6 ++ "  " ++ s.about)

/-- The options a command's help lists, in order. -/
def Scope.helpOptions (s : Scope) (long : Bool) : List Arg :=
  match s with
  | .program => programArgs ++ [helpArg long, versionArg]
  | .help => programArgs
  | s => s.options ++ [helpArg long]

/-- The argument of the `help` subcommand, as its help lists it. -/
def helpCommandEntry (long : Bool) : String :=
  if long then "  [COMMAND]...\n" ++ spaces 10 ++ "Print help for the subcommand(s)"
  else "  [COMMAND]...  Print help for the subcommand(s)"

/-- The help of a command, short or long. -/
def Scope.helpText (s : Scope) (long : Bool) : String :=
  let about := if long then s.longAbout else s.about
  let sections :=
    (if s = .program then ["Commands:\n" ++ commandSection] else [])
      ++ (match s.positionals with
        | [] => []
        | ps => ["Arguments:\n" ++ argSection long ps])
      ++ (if s = .help then ["Arguments:\n" ++ helpCommandEntry long] else [])
      ++ ["Options:\n" ++ argSection long (s.helpOptions long)]
  about ++ "\n\nUsage: " ++ s.usage ++ "\n\n" ++ "\n\n".intercalate sections ++ "\n"

/-- The text `--version` prints. -/
def versionText : String := "zue_cli 0.1.0\n"

end ReactiveView.Cli
