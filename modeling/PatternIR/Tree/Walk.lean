/-
  PatternIR.Tree.Walk
  ───────────────────
  **WALKS — every node of a tree, in order.**

    • `Expr.walk` — an expression and all its sub-expressions, each before
      its own parts, in the order of evaluation;
    • `Stmt.walk` — a statement and all statements nested in it;
    • `Stmt.walkExprs` — all expressions under a statement: statement by
      statement as `Stmt.walk` has them, each with its own expressions;
    • `Expr.kind`, `Stmt.kind` — which form a node has.
-/
import PatternIR.Tree.Basic

namespace PatternIR

/-! ## §1. Forms of nodes. -/

/-- The forms of expressions; the short-circuit operators are a form of their own. -/
inductive ExprKind where
  | literal | ident | unary | binary | logical | conditional | assign | cast
  | instanceOf | typeTest | call | methodCall | letIn
deriving DecidableEq

/-- The forms of statements. -/
inductive StmtKind where
  | expr | decl | block | ifElse | whileDo | doWhile | forDo | labeled | ret | brk | cont
deriving DecidableEq

/-- What kind of node an expression is; `&&` and `||` are of a kind of their own. -/
def Expr.kind : Expr → ExprKind
  | .literal _ _ => .literal
  | .ident _ _ => .ident
  | .unary _ _ _ => .unary
  | .binary _ op _ _ => if op.isLogical then .logical else .binary
  | .conditional _ _ _ _ => .conditional
  | .assign _ _ _ => .assign
  | .cast _ _ _ => .cast
  | .instanceOf _ _ _ => .instanceOf
  | .typeTest _ _ _ => .typeTest
  | .call _ _ _ => .call
  | .methodCall _ _ _ _ => .methodCall
  | .letIn _ _ _ => .letIn

/-- What kind of node a statement is. -/
def Stmt.kind : Stmt → StmtKind
  | .expr _ _ => .expr
  | .decl _ _ _ => .decl
  | .block _ _ => .block
  | .ifElse _ _ _ _ => .ifElse
  | .whileDo _ _ _ => .whileDo
  | .doWhile _ _ _ => .doWhile
  | .forDo _ _ _ _ _ => .forDo
  | .labeled _ _ _ => .labeled
  | .ret _ _ => .ret
  | .brk _ _ => .brk
  | .cont _ _ => .cont

/-! ## §2. Walks. -/

namespace Expr

mutual
/-- An expression and every expression in it. -/
def walk : Expr → List Expr
  | e@(literal _ _) => [e]
  | e@(ident _ _) => [e]
  | e@(unary _ _ operand) => e :: operand.walk
  | e@(binary _ _ left right) => e :: (left.walk ++ right.walk)
  | e@(conditional _ cond yes no) => e :: (cond.walk ++ yes.walk ++ no.walk)
  | e@(assign _ target value) => e :: (target.walk ++ value.walk)
  | e@(cast _ _ operand) => e :: operand.walk
  | e@(instanceOf _ operand _) => e :: operand.walk
  | e@(typeTest _ operand _) => e :: operand.walk
  | e@(call _ _ args) => e :: walkAll args
  | e@(methodCall _ receiver _ args) => e :: (receiver.walk ++ walkAll args)
  | e@(letIn _ defs body) => e :: (walkDefs defs ++ body.walk)
/-- The nodes of several trees, tree after tree. -/
def walkAll : List Expr → List Expr
  | [] => []
  | e :: es => e.walk ++ walkAll es
/-- The nodes of the values of definitions. -/
def walkDefs : List (VarId × Expr) → List Expr
  | [] => []
  | (_, e) :: ds => e.walk ++ walkDefs ds
end

end Expr

namespace Stmt

/-- The expressions a statement has itself, not through a nested statement. -/
def ownExprs : Stmt → List Expr
  | expr _ e => [e]
  | decl _ _ value => value.toList
  | ifElse _ cond _ _ => [cond]
  | whileDo _ cond _ => [cond]
  | doWhile _ _ cond => [cond]
  | forDo _ _ cond step _ => cond.toList ++ step
  | ret _ value => value.toList
  | block _ _ | labeled _ _ _ | brk _ _ | cont _ _ => []

mutual
/-- A statement and every statement nested in it. -/
def walk : Stmt → List Stmt
  | s@(block _ stmts) => s :: walkAll stmts
  | s@(ifElse _ _ yes no) => s :: (yes.walk ++ walkOpt no)
  | s@(whileDo _ _ body) => s :: body.walk
  | s@(doWhile _ body _) => s :: body.walk
  | s@(forDo _ start _ _ body) => s :: (walkAll start ++ body.walk)
  | s@(labeled _ _ body) => s :: body.walk
  | s@(expr _ _) => [s]
  | s@(decl _ _ _) => [s]
  | s@(ret _ _) => [s]
  | s@(brk _ _) => [s]
  | s@(cont _ _) => [s]
/-- The nodes of several statements. -/
def walkAll : List Stmt → List Stmt
  | [] => []
  | s :: ss => s.walk ++ walkAll ss
/-- The nodes of a branch that may be missing. -/
def walkOpt : Option Stmt → List Stmt
  | none => []
  | some s => s.walk
end

/-- Every expression under a statement. -/
def walkExprs (s : Stmt) : List Expr := s.walk.flatMap fun t => Expr.walkAll t.ownExprs

end Stmt

end PatternIR
