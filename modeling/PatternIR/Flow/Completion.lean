/-
  PatternIR.Flow.Completion
  ─────────────────────────
  **WHETHER EXECUTION CAN RUN OFF THE END of a statement.**

  A conservative analysis of jumps: `canCompleteNormally s = false` promises
  that `s` always ends in a jump or never ends.

    • `breaksTo` — whether a loop body contains a `break` out of that loop.
      An unlabelled one counts outside nested loops, a labelled one when it
      names the label of the loop and no statement in between reuses it;
    • `completes` — the analysis for a statement under a label.
-/
import PatternIR.Tree.Basic

namespace PatternIR

namespace Flow

mutual
/-- Whether a `break` inside the statement leaves the loop that has it as its
body; `label` is the label of that loop, and `nested` says that the statement
stands in a further loop. -/
def breaksTo (label : Option String) : (nested : Bool) → Stmt → Bool
  | nested, .brk _ none => !nested
  | _, .brk _ (some target) => some target = label
  | nested, .block _ stmts => anyBreaksTo label nested stmts
  | nested, .ifElse _ _ yes no => breaksTo label nested yes || optBreaksTo label nested no
  | nested, .labeled _ inner body => some inner ≠ label && breaksTo label nested body
  | _, .whileDo _ _ body => breaksTo label true body
  | _, .doWhile _ body _ => breaksTo label true body
  | _, .forDo _ _ _ _ body => breaksTo label true body
  | _, .expr _ _ | _, .decl _ _ _ | _, .ret _ _ | _, .cont _ _ => false
/-- Whether one of several statements does. -/
def anyBreaksTo (label : Option String) (nested : Bool) : List Stmt → Bool
  | [] => false
  | s :: ss => breaksTo label nested s || anyBreaksTo label nested ss
/-- Whether a branch that may be missing does. -/
def optBreaksTo (label : Option String) (nested : Bool) : Option Stmt → Bool
  | none => false
  | some s => breaksTo label nested s
end

/-- The condition `true`. -/
def isConstantTrue : Expr → Bool
  | .literal _ (.bool true) => true
  | _ => false

mutual
/-- Whether a statement directly under `label` can complete normally. -/
def completes (label : Option String) : Stmt → Bool
  | .ret _ _ | .brk _ _ | .cont _ _ => false
  | .block _ stmts => allComplete stmts
  | .ifElse _ _ yes (some no) => completes none yes || completes none no
  | .whileDo _ cond body => !isConstantTrue cond || breaksTo label false body
  | .forDo _ _ none _ body => breaksTo label false body
  | .forDo _ _ (some cond) _ body => !isConstantTrue cond || breaksTo label false body
  | .doWhile _ body cond =>
    (completes none body && !isConstantTrue cond) || breaksTo label false body
  | .labeled _ inner body => completes (some inner) body || breaksTo (some inner) true body
  -- an `if` without `else` counts as one that can be passed by, whatever its condition
  | .expr _ _ | .decl _ _ _ | .ifElse _ _ _ none => true
/-- A block completes only if each of its statements does. -/
def allComplete : List Stmt → Bool
  | [] => true
  | s :: ss => completes none s && allComplete ss
end

end Flow

/-- Whether execution can run off the end of a statement. -/
def Stmt.canCompleteNormally (s : Stmt) : Bool := Flow.completes none s

end PatternIR
