/-
  PatternIR.Cli.Command
  ─────────────────────
  **THE COMMAND LINE.**

  Arguments become a command, and a command, with the contents of the file it
  names, becomes an outcome: exit code, output and error output.  Nothing here
  touches the world; `PatternIR.Main` reads the file and prints.

    • `Command.parse` — from arguments to command;
    • `Command.path?` — the file a command needs;
    • `Command.outcome` — from command and file to outcome, with a JSON library;
    • `Command.perform` — the same with the library the program runs with.
-/
import PatternIR.Cli.Help
import PatternIR.Eval.Interpreter
import PatternIR.Json.Standard
import PatternIR.Lowering.Program
import PatternIR.Printer
import PatternIR.Wire.Decode
import PatternIR.Wire.Encode

namespace PatternIR

namespace Cli

/-! ## §1. Commands. -/

/-- The commands that a usage line can be asked of. -/
inductive Topic where
  | lower
  | run
deriving DecidableEq

/-- What the arguments ask for. -/
inductive Command where
  | help
  | version
  | unknown (name : String)
  /-- The usage line of a command. -/
  | usage (topic : Topic)
  /-- Arguments a command cannot take. -/
  | misuse (topic : Topic) (message : String)
  | lower (path : String) (debugPatterns json : Bool)
  | run (path method : String)
deriving DecidableEq

/-- Whether an argument is an option. -/
def isOption (arg : String) : Bool := arg.toList.head? = some '-'

/-- What is said of an option that no command has. -/
def unknownOption (arg : String) : String := "unknown option `" ++ arg ++ "`"

/-- What is said when no file is named. -/
def missingFile : String := "missing input file"

/-- The arguments of `lower`; the last file wins. -/
def parseLower : List String → (path : Option String) → (debugPatterns json : Bool) → Command
  | [], some path, debugPatterns, json => .lower path debugPatterns json
  | [], none, _, _ => .misuse .lower missingFile
  | arg :: args, path, debugPatterns, json =>
    if arg = "--debug-patterns" then parseLower args path true json
    else if arg = "--json" then parseLower args path debugPatterns true
    else if arg = "-h" ∨ arg = "--help" then .usage .lower
    else if isOption arg then .misuse .lower (unknownOption arg)
    else parseLower args (some arg) debugPatterns json

/-- The arguments of `run`; the last file and the last method win. -/
def parseRun : List String → (path : Option String) → (method : String) → Command
  | [], some path, method => .run path method
  | [], none, _ => .misuse .run missingFile
  | arg :: args, path, method =>
    if arg = "--method" ∨ arg = "-m" then
      match args with
      | name :: args => parseRun args path name
      | [] => .misuse .run "`--method` needs a method name"
    else if arg = "-h" ∨ arg = "--help" then .usage .run
    else if isOption arg then .misuse .run (unknownOption arg)
    else parseRun args (some arg) method

/-- The command that arguments ask for. -/
def Command.parse : List String → Command
  | [] => .help
  | name :: args =>
    if name = "lower" then parseLower args none false false
    else if name = "run" then parseRun args none "main"
    else if name ∈ ["help", "--help", "-h"] then .help
    else if name ∈ ["version", "--version", "-V"] then .version
    else .unknown name

/-- The file a command reads. -/
def Command.path? : Command → Option String
  | .lower path _ _ => some path
  | .run path _ => some path
  | .help | .version | .unknown _ | .usage _ | .misuse _ _ => none

/-! ## §2. Outcomes. -/

/-- What a command leaves behind. -/
structure Outcome where
  code : UInt32
  stdout : String
  stderr : String
deriving DecidableEq

/-- An error report on one line. -/
def errorLine (colour : Bool) (message : String) : String :=
  paint colour .boldRed "error" ++ ": " ++ message ++ "\n"

/-- The report of a phase that failed. -/
def failure (colour : Bool) (phase message : String) : String :=
  errorLine colour message ++ "\n" ++ banner colour .boldRed (phase ++ " FAILED") ++ "\n"

/-- The usage line of a command. -/
def topicUsage (colour : Bool) : Topic → String
  | .lower => lowerUsage colour
  | .run => runUsage colour

/-- Why a file cannot be read. -/
inductive ReadError where
  | missing
  | denied
  /-- Something on the way to the file is no directory. -/
  | notDirectory
  | directory
  | nameTooLong
  /-- The contents are not UTF-8. -/
  | notText
deriving DecidableEq

/-- The wording of a read error. -/
def ReadError.message : ReadError → String
  | .missing => "No such file or directory (os error 2)"
  | .denied => "Permission denied (os error 13)"
  | .notDirectory => "Not a directory (os error 20)"
  | .directory => "Is a directory (os error 21)"
  | .nameTooLong => "File name too long (os error 36)"
  | .notText => "stream did not contain valid UTF-8"

/-- The wording of a fault in a program file. -/
def faultText : TextFault → String
  | .malformed => "malformed JSON"
  | .truncated => "unexpected end of file"
  | .mismatched => "unexpected value"

/-- Read a program from a file, whose contents or read error is given. -/
def load (lib : JsonLibrary) (colour : Bool) (wording : TextFault → String) (path : String)
    (file : Except ReadError String) : Except String Program :=
  match file with
  | .error reason =>
    .error ("cannot read " ++ paint colour .underlined path ++ ": " ++ reason.message)
  | .ok text =>
    match lib.program? text with
    | .ok p => .ok p
    | .error fault =>
      .error (paint colour .underlined path ++ " is not an attributed program: "
        ++ wording fault)

/-- Whether the environment asks for each lowered class to be shown. -/
def debugFromEnv (value : Option String) : Bool :=
  match value with
  | none => false
  | some v => v ∉ ["", "0", "false"]

/-- Lower a program: the classes shown on the way, and the program or the
report on the error. -/
def lowerLoaded (colour debug : Bool) (p : Program) : String × Except String Program :=
  let progress := (p.preserveBindings Flow.matchBindings).lowerClasses Flow.matchBindings
  let shown :=
    if debug then
      String.join (progress.done.map fun (c, symbols) => Printer.showClass symbols c ++ "\n")
    else ""
  match progress.error with
  | none => (shown, .ok ⟨progress.done.map Prod.fst, progress.symbols⟩)
  | some e =>
    let hint := match e with
      | .unresolvedBinding _ _ =>
        paint colour .cyan "hint" ++ ": the input references a pattern binding outside the "
          ++ "region where it is definitely matched\n"
      | _ => ""
    (shown, .error (hint ++ failure colour "Lower" e.message))

/-- Steps of evaluation, more than any run takes. -/
def fuel : Nat := 1000000000000000

/-- Run a method of a lowered program, whose classes were shown as given. -/
def runLowered (colour : Bool) (shown : String) (p : Program) (method : String) : Outcome :=
  match p.method? method with
  | none => ⟨1, "", shown ++ failure colour "Runtime" ("no method named `" ++ method ++ "`")⟩
  | some m =>
    let setting : Setting Unit := p.setting fun _ => none
    match callNamed setting fuel method [] (.start ()) with
    | .ok v machine =>
      ⟨0, machine.output ++ (if m.ret = .void then "" else v.display ++ "\n"), shown⟩
    | .error (.interrupt (.fault f)) machine =>
      ⟨1, machine.output, shown ++ failure colour "Runtime" f.message⟩
    | .error _ machine => ⟨1, machine.output, shown⟩

/-- What a command leaves behind; `file` has the contents of the file it
reads, or why that cannot be read, and `wording` words its faults. -/
def Command.outcome (lib : JsonLibrary) (env : Env) (wording : TextFault → String)
    (file : Except ReadError String) (command : Command) : Outcome :=
  let colour := styled env
  let debugEnv := debugFromEnv (env "KETTLE_DEBUG_PATTERNS")
  match command with
  | .help => ⟨0, Cli.usage colour, ""⟩
  | .version => ⟨0, "kettle " ++ Cli.version ++ "\n", ""⟩
  | .unknown name =>
    ⟨1, Cli.usage colour, errorLine colour ("unknown command `" ++ name ++ "`")⟩
  | .usage topic => ⟨0, topicUsage colour topic, ""⟩
  | .misuse topic message => ⟨1, topicUsage colour topic, errorLine colour message⟩
  | .lower path debugPatterns json =>
    match load lib colour wording path file with
    | .error message => ⟨1, "", failure colour "Load" message⟩
    | .ok p =>
      match lowerLoaded colour (debugPatterns || debugEnv) p with
      | (shown, .error report) => ⟨1, "", shown ++ report⟩
      | (shown, .ok p) =>
        if json then ⟨0, lib.pretty (Wire.ofProgram p) ++ "\n", shown⟩
        else
          ⟨0, Printer.program .standard p ++ "\n" ++ banner colour .boldGreen "Lower OK" ++ "\n",
            shown⟩
  | .run path method =>
    match load lib colour wording path file with
    | .error message => ⟨1, "", failure colour "Load" message⟩
    | .ok p =>
      match lowerLoaded colour debugEnv p with
      | (shown, .error report) => ⟨1, "", shown ++ report⟩
      | (shown, .ok p) => runLowered colour shown p method

/-- What a command leaves behind where the program runs. -/
def Command.perform (env : Env) (wording : TextFault → String)
    (file : Except ReadError String) (command : Command) : Outcome :=
  command.outcome .standard env wording file

end Cli

/-- Read a program from a JSON text where the program runs. -/
def Program.ofJsonText? (text : String) : Except TextFault Program :=
  JsonLibrary.standard.program? text

end PatternIR
