/-
  PatternIR.Eval.Environment
  ──────────────────────────
  **THE ENVIRONMENT — one activation per call.**

  Writes and reads go to the current activation.  Each write is stamped, so
  that of several bindings the one written last can be told; a unified
  binding that was never written itself reads as the last written of its
  leaves.
-/
import PatternIR.Eval.Value
import PatternIR.Symbols

namespace PatternIR

/-- What wrote a symbol. -/
inductive Origin where
  /-- A type test that succeeded. -/
  | matched
  /-- An assignment. -/
  | assigned
  /-- A declaration: of a parameter, of a local variable, in a let-expression. -/
  | declared
deriving DecidableEq

/-- The value of a symbol, with the stamp and the origin of its last write. -/
structure Cell where
  value : Value
  stamp : Nat
  origin : Origin
deriving DecidableEq

/-- The symbols written in one activation. -/
abbrev Activation := List (Sym × Cell)

namespace Activation

/-- What an activation holds of a symbol. -/
def get? (a : Activation) (sym : Sym) : Option Cell := a.lookup sym

/-- The cell takes the place of the one the symbol has had. -/
def set (a : Activation) (sym : Sym) (c : Cell) : Activation :=
  (sym, c) :: a.filter fun entry => entry.1 ≠ sym

end Activation

/-- The activations, the current one apart from its callers, and the last stamp. -/
structure Environment where
  current : Activation
  callers : List Activation
  clock : Nat
deriving DecidableEq

namespace Environment

/-- No activation has begun and nothing has been written. -/
def start : Environment := ⟨[], [], 0⟩

/-- Begin an activation. -/
def enter (env : Environment) : Environment :=
  { env with current := [], callers := env.current :: env.callers }

/-- End the current activation. -/
def leave (env : Environment) : Environment :=
  match env.callers with
  | [] => { env with current := [] }
  | caller :: rest => { env with current := caller, callers := rest }

/-- How many activations the current one is inside of. -/
def level (env : Environment) : Nat := env.callers.length

/-- Write a symbol in the current activation. -/
def set (env : Environment) (sym : Sym) (v : Value) (origin : Origin) : Environment :=
  let stamp := env.clock + 1
  { env with current := env.current.set sym ⟨v, stamp, origin⟩, clock := stamp }

/-- Only the current activation is read. -/
def get? (env : Environment) (sym : Sym) : Option Cell := env.current.get? sym

/-- The cell written last. -/
def latest : List Cell → Option Cell
  | [] => none
  | c :: cs =>
    match latest cs with
    | none => some c
    | some d => some (if d.stamp < c.stamp then c else d)

/-- What a binding reads as: what was written to it, or else to the last
written of its leaves. -/
def getBinding? (env : Environment) (s : Symbols) (b : BindingId) : Option Cell :=
  match env.get? (.binding b) with
  | some c => some c
  | none => latest ((s.leaves b).filterMap fun leaf => env.get? (.binding leaf))

/-- What a symbol reads as. -/
def read? (env : Environment) (s : Symbols) : Sym → Option Cell
  | .var v => env.get? (.var v)
  | .binding b => env.getBinding? s b

end Environment

end PatternIR
