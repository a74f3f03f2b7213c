/-
  PatternIR.Cli.Help
  ──────────────────
  **HELP TEXTS.**
-/
import PatternIR.Cli.Style

namespace PatternIR

namespace Cli

/-- The version of the tool. -/
def version : String := "0.1.0"

/-- The line that tells how to call a command. -/
def usageLine (colour : Bool) (command : String) (args : List String) : String :=
  paint colour .boldYellow "Usage" ++ ": " ++ paint colour .green command
    ++ String.join (args.map fun a => " " ++ paint colour .cyan a) ++ "\n"

/-- How `kettle lower` is called. -/
def lowerUsage (colour : Bool) : String :=
  usageLine colour "kettle lower" ["<file.json>", "[--debug-patterns]", "[--json]"]

/-- How `kettle run` is called. -/
def runUsage (colour : Bool) : String :=
  usageLine colour "kettle run" ["<file.json>", "[--method <name>]"]

/-- The help of the tool as a whole. -/
def usage (colour : Bool) : String :=
  let header := paint colour .boldYellow
  let command := paint colour .green
  let arg := paint colour .cyan
  paint colour .bold "Kettle" ++ " " ++ paint colour .dimmed version
    ++ " - pattern matching lowering\n\n"
    ++ usageLine colour "kettle" ["<command>", "[args]"] ++ "\n"
    ++ header "Commands:" ++ "\n"
    ++ "  " ++ command "lower" ++ " " ++ arg "<file.json>"
    ++ "   Lower pattern matching and print the result\n"
    ++ "  " ++ command "run" ++ " " ++ arg "<file.json>"
    ++ "     Lower, then run a method with the interpreter\n"
    ++ "  " ++ command "help" ++ "                  Show this help\n"
    ++ "  " ++ command "version" ++ "               Show version\n\n"
    ++ header "Options:" ++ "\n"
    ++ "  " ++ arg "--debug-patterns" ++ "     Print each class to stderr after lowering\n"
    ++ "  " ++ arg "--json" ++ "               Emit the lowered program as JSON ("
    ++ command "lower" ++ ")\n"
    ++ "  " ++ arg "--method <name>" ++ "      Method to run, default " ++ arg "main" ++ " ("
    ++ command "run" ++ ")\n\n"
    ++ header "Environment:" ++ "\n"
    ++ "  " ++ arg "KETTLE_DEBUG_PATTERNS" ++ "  Same as " ++ arg "--debug-patterns" ++ "\n"
    ++ "  " ++ arg "RUST_LOG" ++ "               Log filter, e.g. "
    ++ arg "kettle_patterns=trace" ++ "\n"

end Cli

end PatternIR
