/-
  PatternIR.Lowering.Program
  ──────────────────────────
  **LOWERING PROGRAMS.**

  A class is lowered method by method on a stack that starts bare and with a
  maker of its own; the symbol table goes from class to class.  The hierarchy
  is that of the whole program.

    • `Lowering.lowerClass` — one class;
    • `Program.lowerClasses` — class after class, up to the first error;
    • `Program.lower` — the program or the error.
-/
import PatternIR.Flow.Preserve
import PatternIR.Lowering.Pass

namespace PatternIR

namespace Lowering

/-- The state at the start of a class. -/
def Pass.start (symbols : Symbols) : Pass := ⟨symbols, .bare, .startingAt firstId⟩

/-- Lower a method; an abstract method stays as it is. -/
def lowerMethod (rules : Rules) (m : Method) : Lowering Method := do
  return { m with body := ← lowerStmt? rules m.body }

/-- Lower methods in order. -/
def lowerMethods (rules : Rules) : List Method → Lowering (List Method)
  | [] => return []
  | m :: ms => do
    let m ← lowerMethod rules m
    let ms ← lowerMethods rules ms
    return m :: ms

/-- Lower every method of a class. -/
def lowerClass (rules : Rules) (c : Class) : Lowering Class := do
  return { c with methods := ← lowerMethods rules c.methods }

/-- How far lowering got: the classes done, each with the symbol table as it
left it, the symbol table at the end, and the error that stopped it, if one did. -/
structure Progress where
  done : List (Class × Symbols)
  symbols : Symbols
  error : Option LowerError

/-- Lower classes in order, up to the first error. -/
def lowerClasses (rules : Rules) : List Class → Symbols → Progress
  | [], s => ⟨[], s, none⟩
  | c :: cs, s =>
    match lowerClass rules c (Pass.start s) with
    | .error e p => ⟨[], p.symbols, some e⟩
    | .ok c p =>
      let rest := lowerClasses rules cs p.symbols
      { rest with done := (c, p.symbols) :: rest.done }

end Lowering

namespace Program

/-- Lower the classes of a program, up to the first error. -/
def lowerClasses (flow : Oracle) (p : Program) : Lowering.Progress :=
  Lowering.lowerClasses ⟨p.hierarchy, flow⟩ p.classes p.symbols

/-- Lower a program. -/
def lower (flow : Oracle) (p : Program) : Except LowerError Program :=
  let progress := p.lowerClasses flow
  match progress.error with
  | some e => .error e
  | none => .ok ⟨progress.done.map Prod.fst, progress.symbols⟩

end Program

end PatternIR
