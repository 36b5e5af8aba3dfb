import ReactiveView.Cli.Wrap
/-!
# Logs

The program reports what it does as log records on standard error: a level, the part of the
program it comes from (its target, such as `zue_core::view`), a message and named values. A
record is printed as `LEVEL target: message key=value ...`, the level padded to five columns;
with colours the level is coloured, the target dimmed and the keys set in italics.

Which records are printed is decided by a filter. `--verbose` asks for every record up to
`debug`; otherwise the variable `RUST_LOG` holds directives, separated by commas, each a level
(`warn`), a target (`zue`, meaning every level), or both (`zue_core=trace`). A record obeys the
most specific directive whose target starts its own target, a directive with a longer target
being more specific and one without a target least; of two directives for the same target the
later counts. A record that no directive covers is not printed. Without the variable, or with
directives that do not parse, the filter is `warn`.
-/
namespace ReactiveView.Cli

/-- The severity of a record, from the most to the least severe. -/
inductive Level where
  | error
  | warn
  | info
  | debug
  | trace
  deriving DecidableEq, Repr, Inhabited

namespace Level

/-- The rank of a level: one for `error` up to five for `trace`. -/
def rank : Level → Nat
  | .error => 1
  | .warn => 2
  | .info => 3
  | .debug => 4
  | .trace => 5

/-- The level as records show it, padded to five columns. -/
def label : Level → String
  | .error => "ERROR"
  | .warn => " WARN"
  | .info => " INFO"
  | .debug => "DEBUG"
  | .trace => "TRACE"

/-- The colour of the level's label. -/
def color : Level → String
  | .error => "31"
  | .warn => "33"
  | .info => "32"
  | .debug => "34"
  | .trace => "35"

end Level

/-- A log record. -/
structure Record where
  level : Level
  target : String
  message : String
  fields : List (String × String) := []
  deriving Repr, Inhabited

/-- The line a record is printed as. -/
def Record.render (color : Bool) (r : Record) : String :=
  if color then
    let fields := String.join (r.fields.map fun (k, v) => " " ++ styled "3" k ++ styled "2" "=" ++ v)
    styled r.level.color r.level.label ++ " " ++ styled "2" r.target ++ styled "2" ":" ++ " "
      ++ r.message ++ fields ++ "\n"
  else
    let fields := String.join (r.fields.map fun (k, v) => " " ++ k ++ "=" ++ v)
    r.level.label ++ " " ++ r.target ++ ": " ++ r.message ++ fields ++ "\n"

/-- A directive: an optional target and the most verbose rank it lets through (zero lets
nothing through). -/
structure Directive where
  target : Option String
  rank : Nat
  deriving DecidableEq, Repr, Inhabited

/-- The rank a level name gives, in any case, or a digit from `0` (off) to `5` (trace). -/
def rankOf? (name : String) : Option Nat :=
  match name.toLower with
  | "off" | "0" => some 0
  | "error" | "1" => some 1
  | "warn" | "2" => some 2
  | "info" | "3" => some 3
  | "debug" | "4" => some 4
  | "trace" | "5" => some 5
  | _ => none

/-- Characters of a target: letters, digits, `_`, `:` and `-`. -/
def targetChar (c : Char) : Bool := c.isAlphanum || c = '_' || c = ':' || c = '-' || c.toNat ≥ 0x80

/-- Read a target, which may be followed by span names in brackets; a directive with span names
concerns records inside those spans only, and so none here. -/
def readTarget (s : String) : Option (Option String × Bool) :=
  let cs := s.toList
  let name := cs.takeWhile targetChar
  let rest := cs.dropWhile targetChar
  let spans := rest.length > 0
  let spansOk := rest.isEmpty || (rest.head? = some '[' && rest.getLast? = some ']'
    && (rest.filter (· = '[')).length = 1 && (rest.filter (· = ']')).length = 1)
  if !spansOk || (name.isEmpty && !spans) then none
  else some ((if name.isEmpty then none else some (String.ofList name)), spans)

/-- Read one directive; `none` for text that is not one. The second part says whether the
directive concerns spans only. -/
def Directive.read? (s : String) : Option (Directive × Bool) :=
  match rankOf? s with
  | some r => some (⟨none, r⟩, false)
  | none =>
    match s.splitOn "=" with
    | [t] => (readTarget t).map fun (target, spans) => (⟨target, 5⟩, spans)
    | [t, l] =>
      match readTarget t with
      | none => none
      | some (target, spans) =>
        if l.isEmpty then some (⟨target, 5⟩, spans)
        else (rankOf? l).map fun r => (⟨target, r⟩, spans)
    | _ => none

/-- A filter: its directives, in the order given. -/
structure Filter where
  directives : List Directive
  deriving Repr, Inhabited

namespace Filter

/-- The filter that lets records up to a level through. -/
def upTo (l : Level) : Filter := ⟨[⟨none, l.rank⟩]⟩

/-- Read the directives of `RUST_LOG`; `none` when one does not parse. -/
def read? (text : String) : Option Filter :=
  let parts := (text.splitOn ",").filter (!·.isEmpty)
  (parts.mapM Directive.read?).map fun ds => ⟨(ds.filter (!·.2)).map (·.1)⟩

/-- The filter a run uses: `debug` with `--verbose`, else the directives of `RUST_LOG`, else
`warn`. -/
def choose (verbose : Bool) (env : Option String) : Filter :=
  if verbose then upTo .debug
  else
    match env with
    | none => upTo .warn
    | some text => (read? text).getD (upTo .warn)

/-- How specific a directive is: the length of its target, above any directive without one. -/
def specificity (d : Directive) : Nat :=
  match d.target with
  | some t => t.length + 1
  | none => 0

/-- Whether a record at a level from a target is printed. -/
def allows (f : Filter) (level : Level) (target : String) : Bool :=
  let covering := f.directives.filter fun d =>
    match d.target with
    | some t => target.startsWith t
    | none => true
  let best := covering.foldl (fun acc d =>
    match acc with
    | some b => if specificity d ≥ specificity b then some d else some b
    | none => some d) none
  match best with
  | some d => level.rank ≤ d.rank
  | none => false

end Filter

end ReactiveView.Cli
