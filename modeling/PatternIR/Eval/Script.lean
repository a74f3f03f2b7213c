/-
  PatternIR.Eval.Script
  ─────────────────────
  **SCRIPTED NATIVE FUNCTIONS.**

  Native functions that answer by a script, for running a program without a
  host.  The host state counts the calls of each function; what a function
  answers depends on its script, that count, and the arguments.
-/
import PatternIR.Eval.Interpreter

namespace PatternIR

/-- What a scripted function answers. -/
inductive Script where
  /-- One entry after the other, then a failure. -/
  | feed (entries : List (Except Interrupt Value))
  /-- The value `null` so many times, then a failure. -/
  | limit (calls : Nat)
  /-- The names of the classes of the arguments. -/
  | types
  /-- The first argument. -/
  | echo

namespace Script

/-- The functions called so far, with the number of calls. -/
abbrev Calls := List (String × Nat)

/-- How often a function has been called. -/
def count (calls : Calls) (name : String) : Nat := (calls.lookup name).getD 0

/-- Count one more call. -/
def record (calls : Calls) (name : String) : Calls :=
  (name, count calls name + 1) :: calls.filter fun entry => entry.1 ≠ name

/-- The answer to a call that so many calls came before. -/
def answer (earlier : Nat) (args : List Value) : Script → Except Interrupt Value
  | .feed entries => entries[earlier]?.getD (.error (.fault (.native "feed exhausted")))
  | .limit n => if earlier < n then .ok .null else .error (.fault (.native "limit reached"))
  | .types => .ok (.str (",".intercalate (args.map Value.typeName)))
  | .echo => .ok (args.headD .null)

/-- A scripted function as a native one. -/
def native (name : String) (script : Script) : Native Calls := fun args calls =>
  (script.answer (count calls name) args, record calls name)

/-- The native functions of a list of scripts. -/
def natives (scripts : List (String × Script)) (name : String) : Option (Native Calls) :=
  (scripts.lookup name).map (native name)

end Script

end PatternIR
