import ReactiveView.Failure
import ReactiveView.Cli.Wrap
/-!
# Reports of failures

A failure of the engine is reported on standard error as a block: its diagnostic code, a blank
line, the message after an `x` (a red `×` with colours), its later lines after a bar, then the
advice after `help:`, if the failure has any, and a blank line. The message and the advice are
filled to 78 columns, the width of a terminal less two.

Other errors, such as a template that cannot be read, are reported on one line after `error:`.
-/
namespace ReactiveView.Cli

/-- The width reports are filled to. -/
def reportWidth : Nat := 78

/-- A text in a terminal colour, reset to the default colour after it. -/
def tinted (color : Bool) (code text : String) : String :=
  if color then "\x1b[" ++ code ++ "m" ++ text ++ "\x1b[39m" else text

/-- A text in bold, when colours are on. -/
def bold (color : Bool) (text : String) : String :=
  if color then styled "1" text else text

/-- The report of a failure. -/
def report (color : Bool) (f : Failure) : String :=
  let paint (code text : String) : String := if color then styled code text else text
  let first := "  " ++ paint "31" (if color then "×" else "x") ++ " "
  let later := "  " ++ paint "31" (if color then "│" else "|") ++ " "
  let causes := fill reportWidth first later f.message ++ "\n"
  let help := match f.help with
    | some h => fill reportWidth (paint "36" "  help: ") "        " h ++ "\n"
    | none => ""
  paint "31" f.code ++ "\n\n" ++ causes ++ help ++ "\n"

/-- The one-line report of an error outside the engine. -/
def plainError (color : Bool) (text : String) : String :=
  tinted color "31" "error:" ++ " " ++ text ++ "\n"

end ReactiveView.Cli
