/-
  PatternIR.Main
  ──────────────
  **THE PROGRAM — reads the file, performs the command, prints.**
-/
import PatternIR.Cli.Command

namespace PatternIR

namespace Cli

/-- Why a file could not be read. -/
def readError : IO.Error → ReadError
  | .noFileOrDirectory _ _ _ => .missing
  | .permissionDenied _ _ _ => .denied
  | .inappropriateType _ code _ => if code = 21 then .directory else .notDirectory
  | .invalidArgument _ _ _ => .nameTooLong
  | _ => .notText

/-- The contents of a file, or why they cannot be read. -/
def readText (path : String) : IO (Except ReadError String) := do
  try
    return .ok (← IO.FS.readFile path)
  catch e =>
    return .error (readError e)

end Cli

end PatternIR

/-- Run the command that the arguments ask for. -/
def main (args : List String) : IO UInt32 := do
  let command := PatternIR.Cli.Command.parse args
  let file ← match command.path? with
    | some path => PatternIR.Cli.readText path
    | none => pure (.ok "")
  let names := ["NO_COLOR", "FORCE_COLOR", "CLICOLOR_FORCE", "KETTLE_DEBUG_PATTERNS"]
  let values ← names.mapM fun name => do
    return (name, ← IO.getEnv name)
  let env : PatternIR.Cli.Env := fun name => (values.lookup name).join
  let outcome := command.perform env PatternIR.Cli.faultText file
  IO.print outcome.stdout
  IO.eprint outcome.stderr
  return outcome.code
