import ReactiveView.Cli.Run
/-!
# The `zue` program

The program reads its arguments, the current directory and the variables `NO_COLOR` and
`RUST_LOG`, runs `ReactiveView.Cli.run` on the disk, prints what the run printed, and exits
with its status.
-/
open ReactiveView.Cli

/-- What a path leads to on the disk: the file's content, or what reading it says about it. -/
def diskEntry (path : String) : IO Entry := do
  try
    return .file (← IO.FS.readFile path)
  catch e =>
    return match e with
      | .noFileOrDirectory _ _ _ => .missing
      | .inappropriateType _ code _ =>
        if code == 21 then .directory else if code == 20 then .throughFile else .missing
      | _ => .missing

/-- Run the program. -/
def main (args : List String) : IO UInt32 := do
  let cwd ← IO.currentDir
  let mut env : List (String × String) := []
  for name in ["NO_COLOR", "RUST_LOG"] do
    if let some value ← IO.getEnv name then
      env := env ++ [(name, value)]
  let outcome ← run ⟨diskEntry⟩ cwd.toString env args
  IO.print outcome.stdout
  IO.eprint outcome.stderr
  return outcome.status.toUInt32
