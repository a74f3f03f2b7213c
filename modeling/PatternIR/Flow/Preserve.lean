/-
  PatternIR.Flow.Preserve
  ───────────────────────
  **BINDINGS THAT OUTLIVE THEIR STATEMENT.**

  After `if (!(o instanceof String s)) return;` the binding `s` is in scope:
  the statement completes only with `s` matched.  Such bindings are marked as
  preserved, so that lowering may declare their storage in the enclosing
  block.

    • an `if` lets the bindings of the outcome escape whose branch is the
      only one that completes;
    • a loop lets the bindings of its false condition escape, unless a
      `break` can leave it.
-/
import PatternIR.Flow.Bindings
import PatternIR.Flow.Completion
import PatternIR.Tree.Walk

namespace PatternIR

namespace Flow

/-- The condition and the outcome after which a statement under `label`
completes, where its bindings escape. -/
def escape? (label : Option String) : Stmt → Option (Expr × Bool)
  | .ifElse _ cond yes none =>
    if yes.canCompleteNormally then none else some (cond, false)
  | .ifElse _ cond yes (some no) =>
    match yes.canCompleteNormally, no.canCompleteNormally with
    | false, true => some (cond, false)
    | true, false => some (cond, true)
    -- behind the statement either outcome may have been, or nothing is behind it
    | _, _ => none
  | .whileDo _ cond body => if breaksTo label false body then none else some (cond, false)
  | .doWhile _ body cond => if breaksTo label false body then none else some (cond, false)
  | .forDo _ _ (some cond) _ body =>
    if breaksTo label false body then none else some (cond, false)
  | _ => none

/-- Mark the bindings that escape one statement. -/
def preserveAt (flow : Oracle) (label : Option String) (stmt : Stmt) (s : Symbols) : Symbols :=
  match escape? label stmt with
  | none => s
  | some (cond, outcome) =>
    let (escaping, s) := flow cond outcome s
    escaping.foldl Symbols.preserve s

mutual
/-- Mark the bindings that escape a statement or one nested in it, from the
outside in; `label` is the label directly attached to the statement. -/
def preserveIn (flow : Oracle) (label : Option String) : Stmt → Symbols → Symbols
  | t@(.block _ stmts), s => preserveAll flow stmts (preserveAt flow label t s)
  | t@(.ifElse _ _ yes no), s =>
    preserveOpt flow no (preserveIn flow none yes (preserveAt flow label t s))
  | t@(.whileDo _ _ body), s => preserveIn flow none body (preserveAt flow label t s)
  | t@(.doWhile _ body _), s => preserveIn flow none body (preserveAt flow label t s)
  | t@(.forDo _ start _ _ body), s =>
    preserveIn flow none body (preserveAll flow start (preserveAt flow label t s))
  | .labeled _ inner body, s => preserveIn flow (some inner) body s
  | .expr _ _, s | .decl _ _ _, s | .ret _ _, s | .brk _ _, s | .cont _ _, s => s
/-- The walk over statements in their order; none of them is under a label. -/
def preserveAll (flow : Oracle) : List Stmt → Symbols → Symbols
  | [], s => s
  | t :: ts, s => preserveAll flow ts (preserveIn flow none t s)
/-- The walk over a statement that may be missing. -/
def preserveOpt (flow : Oracle) : Option Stmt → Symbols → Symbols
  | none, s => s
  | some t, s => preserveIn flow none t s
end

/-- Mark the bindings that escape a statement in a list of classes. -/
def preserveClasses (flow : Oracle) (classes : List Class) (s : Symbols) : Symbols :=
  (classes.flatMap (·.methods)).foldl (fun s m => preserveOpt flow m.body s) s

end Flow

/-- Mark every binding that outlives the statement introducing it. -/
def Program.preserveBindings (flow : Oracle) (p : Program) : Program :=
  { p with symbols := Flow.preserveClasses flow p.classes p.symbols }

end PatternIR
