/-
  PatternIR.Flow.Bindings
  ───────────────────────
  **WHAT A CONDITION BINDS.**

  An oracle answers which bindings are assigned for certain once a condition
  has come out true, or false.  It may add unified bindings to the symbol
  table while it answers.  `matchBindings` is the oracle that follows the
  structure of the condition:

    • `e instanceof T x` binds `x` when true;
    • `!e` exchanges the outcomes;
    • `a && b` binds what either side does when true, and what both do when
      false; `a || b` the other way round.

  What both sides bind is paired up by name and type, and each pair unified.
-/
import PatternIR.Tree.Basic

namespace PatternIR

/-- An answer to the question which bindings the outcome of a condition guarantees. -/
abbrev Oracle := (cond : Expr) → (outcome : Bool) → Symbols → List BindingId × Symbols

namespace Oracle

/-- The bindings either outcome guarantees: those for true, then those for false. -/
def all (flow : Oracle) (cond : Expr) (s : Symbols) : List BindingId × Symbols :=
  let (whenTrue, s) := flow cond true s
  let (whenFalse, s) := flow cond false s
  (whenTrue ++ whenFalse, s)

/-- The same answer for every condition. -/
def constant (whenTrue whenFalse : List BindingId) : Oracle := fun _ outcome s =>
  (if outcome then whenTrue else whenFalse, s)

/-- Fixed answers for some nodes, another oracle for the rest. -/
def byNode (answers : List (NodeId × List BindingId × List BindingId)) (rest : Oracle) :
    Oracle := fun cond outcome s =>
  match answers.lookup cond.id with
  | some (whenTrue, whenFalse) => (if outcome then whenTrue else whenFalse, s)
  | none => rest cond outcome s

end Oracle

namespace Flow

/-- The bindings of either side: the left ones, and those of the right that no
binding already listed is an alias of. -/
def either (s : Symbols) (left right : List BindingId) : List BindingId :=
  right.foldl (fun found b => if found.any fun a => s.isAliasFor a b then found else found ++ [b])
    left

/-- Whether two bindings of the table have the same name and type. -/
def sameVariable (s : Symbols) (a b : BindingId) : Bool :=
  match s.binding? a, s.binding? b with
  | some x, some y => x.name = y.name && x.ty = y.ty
  | _, _ => false

/-- The bindings of both sides: each left one that has a partner on the right,
unified with the first such partner. -/
def both (s : Symbols) (right : List BindingId) : List BindingId → List BindingId × Symbols
  | [] => ([], s)
  | a :: left =>
    match (right.find? (sameVariable s a)).bind (s.merge? a) with
    | none => both s right left
    | some (merged, s) =>
      -- the partners of the others are looked for in the table with the new binding
      let (found, s) := both s right left
      (merged :: found, s)

/-- The structural oracle. -/
def matchBindings : Oracle
  | .typeTest _ _ pattern, outcome, s => (if outcome then [pattern.binding] else [], s)
  | .unary _ .not operand, outcome, s => matchBindings operand (!outcome) s
  | .binary _ .and left right, outcome, s =>
    -- both operands are asked for the outcome of the whole, the left one first
    let (ls, s) := matchBindings left outcome s
    let (rs, s) := matchBindings right outcome s
    if outcome then (either s ls rs, s) else both s rs ls
  | .binary _ .or left right, outcome, s =>
    let (ls, s) := matchBindings left outcome s
    let (rs, s) := matchBindings right outcome s
    if outcome then both s rs ls else (either s ls rs, s)
  | _, _, s => ([], s)

end Flow

end PatternIR
