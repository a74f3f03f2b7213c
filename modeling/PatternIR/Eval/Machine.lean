/-
  PatternIR.Eval.Machine
  ──────────────────────
  **THE STATE OF AN EVALUATION.**

  A machine holds the environment, the call depth, the text printed so far,
  the state of the host behind the native functions, and the history of what
  was read and written.  A computation that ends early keeps the machine it
  reached, so its effects up to there stay.

    • `Run` — computations on a machine;
    • `Setting` — what does not change: program, hierarchy, native functions.
-/
import PatternIR.Eval.Environment
import PatternIR.Eval.Operators

namespace PatternIR

/-! ## §1. State. -/

/-- Something an evaluation did to a symbol.  `level` tells the activation. -/
inductive Event where
  | wrote (level : Nat) (sym : Sym) (origin : Origin)
  /-- Node `node` read a symbol whose last write had the given origin. -/
  | read (level : Nat) (node : NodeId) (sym : Sym) (origin : Origin)
deriving DecidableEq

/-- The state of an evaluation. -/
structure Machine (ω : Type) where
  env : Environment
  /-- How many calls are going on. -/
  depth : Nat
  /-- The id of the next object. -/
  nextObject : Nat
  /-- What the program has printed. -/
  output : String
  /-- The state of the host. -/
  host : ω
  /-- What was read and written, the latest first. -/
  history : List Event

namespace Machine

variable {ω : Type}

/-- The machine before the first call. -/
def start (host : ω) : Machine ω := ⟨.start, 0, 1, "", host, []⟩

/-- Allocate an instance of a class. -/
def newObject (m : Machine ω) (className : String) : Value × Machine ω :=
  (.object ⟨className, m.nextObject, none⟩, { m with nextObject := m.nextObject + 1 })

end Machine

/-- A native function: from arguments and host state to a value or an
interrupt, and the next host state. -/
abbrev Native (ω : Type) := List Value → ω → Except Interrupt Value × ω

/-- What an evaluation takes place in. -/
structure Setting (ω : Type) where
  program : Program
  hierarchy : Hierarchy
  native? : String → Option (Native ω)

/-- A program with its own hierarchy. -/
def Program.setting {ω : Type} (p : Program) (native? : String → Option (Native ω)) : Setting ω :=
  ⟨p, p.hierarchy, native?⟩

/-! ## §2. Computations. -/

/-- Why a computation has no result: an interrupt of the program, or the end
of the fuel it was given. -/
inductive Stop where
  | interrupt (i : Interrupt)
  | exhausted
deriving DecidableEq

/-- A computation on a machine. -/
abbrev Run (ω : Type) := EStateM Stop (Machine ω)

namespace Run

variable {ω α : Type}

/-- End with an interrupt. -/
def interrupt (i : Interrupt) : Run ω α := throw (.interrupt i)

/-- End with a fault. -/
def fail (f : Fault) : Run ω α := interrupt (.fault f)

/-- A computation without effects. -/
def ofExcept : Except Fault α → Run ω α
  | .ok a => pure a
  | .error f => fail f

/-- Write a symbol in the current activation. -/
def write (sym : Sym) (v : Value) (origin : Origin) : Run ω Unit :=
  modify fun m => { m with
    env := m.env.set sym v origin
    history := .wrote m.env.level sym origin :: m.history }

/-- Read a symbol at a node. -/
def read (s : Symbols) (node : NodeId) (sym : Sym) : Run ω Value := fun m =>
  match m.env.read? s sym with
  | some c => .ok c.value { m with history := .read m.env.level node sym c.origin :: m.history }
  | none =>
    .error (.interrupt (.fault (.undefinedVariable ((s.nameOf? sym).getD "<unknown>")))) m

/-- Write a variable, its value converted into its type. -/
def declare (s : Symbols) (var : VarId) (v : Value) : Run ω Unit := do
  let v ← match s.var? var with
    | some symbol => ofExcept (coerce symbol.ty v)
    | none => pure v
  write (.var var) v .declared

/-- The value of a condition. -/
def truth : Value → Run ω Bool
  | .bool b => pure b
  | v => fail (.typeError ("expected boolean, found " ++ v.typeName))

/-- Print a text. -/
def print (text : String) : Run ω Unit :=
  modify fun m => { m with output := m.output ++ text }

end Run

end PatternIR
