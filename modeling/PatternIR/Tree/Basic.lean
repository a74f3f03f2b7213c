/-
  PatternIR.Tree.Basic
  ────────────────────
  **THE ATTRIBUTED TREE.**

  Expressions, statements and declarations as attribution leaves them: each
  node has an id and a position, each expression its static type.  Besides
  the usual forms an expression can be a type-test pattern, which declares a
  binding, and a let-expression, which scopes variables to an expression and
  has no source form.

    • `Expr`, `Stmt` — one constructor per form;
    • `Method`, `Class`, `Program` — declarations over one symbol table;
    • `Expr.agrees`, `Stmt.agrees`, `Program.agrees` — equality of trees, in
      which floating-point literals compare as numbers.
-/
import PatternIR.Float.Binary
import PatternIR.Hierarchy
import PatternIR.Symbols

namespace PatternIR

/-! ## §1. Positions and literals. -/

/-- The number of a node. -/
abbrev NodeId := Nat

/-- The id of nodes outside any numbering. -/
def NodeId.dummy : NodeId := 4294967295

/-- A range of the source text. -/
structure Span where
  start : Nat
  stop : Nat
deriving DecidableEq

namespace Span

/-- The position of nodes without one. -/
def nowhere : Span := ⟨0, 0⟩

/-- The smallest span that covers both. -/
def join (a b : Span) : Span := ⟨min a.start b.start, max a.stop b.stop⟩

end Span

/-- A constant. -/
inductive Literal where
  | bool (b : Bool)
  | int (n : Int32)
  | long (n : Int64)
  | float (x : Single)
  | double (x : Double)
  | char (c : Char)
  | string (s : String)
  | null
deriving DecidableEq

/-- Equality of literals, in which the two zeros are equal and a NaN equals nothing. -/
def Literal.agrees : Literal → Literal → Bool
  | .float x, .float y => x.eq y
  | .double x, .double y => x.eq y
  | a, b => a = b

/-- Unary operators. -/
inductive UnOp where
  | not | neg
deriving DecidableEq

/-- Binary operators. -/
inductive BinOp where
  | and | or
  | eq | ne | lt | gt | le | ge
  | add | sub | mul | div | rem
deriving DecidableEq

namespace BinOp

/-- How an operator is written. -/
def symbol : BinOp → String
  | .and => "&&"
  | .or => "||"
  | .eq => "=="
  | .ne => "!="
  | .lt => "<"
  | .gt => ">"
  | .le => "<="
  | .ge => ">="
  | .add => "+"
  | .sub => "-"
  | .mul => "*"
  | .div => "/"
  | .rem => "%"

/-- The operators that skip their right operand once the left one decides. -/
def isLogical : BinOp → Bool
  | .and | .or => true
  | _ => false

end BinOp

/-- The binding half of a type-test pattern. -/
structure BindingPattern where
  binding : BindingId
  /-- The type written in the pattern; `none` for a pattern that always
  matches and takes its type from the tested expression. -/
  declared : Option Ty
deriving DecidableEq

/-! ## §2. Expressions. -/

/-- What every expression carries: id, static type, position. -/
structure ExprInfo where
  id : NodeId
  ty : Ty
  span : Span
deriving DecidableEq

/-- An expression. -/
inductive Expr where
  /-- A constant. -/
  | literal (info : ExprInfo) (value : Literal)
  /-- A variable or a pattern binding. -/
  | ident (info : ExprInfo) (sym : Sym)
  | unary (info : ExprInfo) (op : UnOp) (operand : Expr)
  | binary (info : ExprInfo) (op : BinOp) (left right : Expr)
  /-- A conditional, `cond ? yes : no`. -/
  | conditional (info : ExprInfo) (cond yes no : Expr)
  /-- An assignment, `target = value`; its value is the value assigned. -/
  | assign (info : ExprInfo) (target value : Expr)
  /-- A cast, `(target) operand`. -/
  | cast (info : ExprInfo) (target : Ty) (operand : Expr)
  /-- A plain type test, `operand instanceof target`. -/
  | instanceOf (info : ExprInfo) (operand : Expr) (target : Ty)
  /-- A type-test pattern, `operand instanceof T x`. -/
  | typeTest (info : ExprInfo) (operand : Expr) (pattern : BindingPattern)
  /-- A call of a method of the program, a builtin or a native function. -/
  | call (info : ExprInfo) (name : String) (args : List Expr)
  /-- A call of a method of a value. -/
  | methodCall (info : ExprInfo) (receiver : Expr) (method : String) (args : List Expr)
  /-- Variables defined one after the other, visible in `body`. -/
  | letIn (info : ExprInfo) (defs : List (VarId × Expr)) (body : Expr)

namespace Expr

/-- The id, the type and the position of a node. -/
def info : Expr → ExprInfo
  | literal i _ | ident i _ | unary i _ _ | binary i _ _ _ | conditional i _ _ _
  | assign i _ _ | cast i _ _ | instanceOf i _ _ | typeTest i _ _ | call i _ _
  | methodCall i _ _ _ | letIn i _ _ => i

/-- The id of a node. -/
def id (e : Expr) : NodeId := e.info.id

/-- The type of an expression. -/
def ty (e : Expr) : Ty := e.info.ty

/-- Where a node stands in the source text. -/
def span (e : Expr) : Span := e.info.span

/-- The same expression with other information at its root. -/
def withInfo (i : ExprInfo) : Expr → Expr
  | literal _ v => literal i v
  | ident _ s => ident i s
  | unary _ op e => unary i op e
  | binary _ op l r => binary i op l r
  | conditional _ c y n => conditional i c y n
  | assign _ t v => assign i t v
  | cast _ t e => cast i t e
  | instanceOf _ e t => instanceOf i e t
  | typeTest _ e p => typeTest i e p
  | call _ f as => call i f as
  | methodCall _ r m as => methodCall i r m as
  | letIn _ ds b => letIn i ds b

mutual
/-- Equality of expressions, literals compared as numbers. -/
def agrees : Expr → Expr → Bool
  | literal i v, literal j w => i = j && v.agrees w
  | ident i s, ident j t => i = j && s = t
  | unary i op e, unary j op' e' => i = j && op = op' && e.agrees e'
  | binary i op l r, binary j op' l' r' => i = j && op = op' && l.agrees l' && r.agrees r'
  | conditional i c y n, conditional j c' y' n' =>
    i = j && c.agrees c' && y.agrees y' && n.agrees n'
  | assign i t v, assign j t' v' => i = j && t.agrees t' && v.agrees v'
  | cast i t e, cast j t' e' => i = j && t = t' && e.agrees e'
  | instanceOf i e t, instanceOf j e' t' => i = j && t = t' && e.agrees e'
  | typeTest i e p, typeTest j e' p' => i = j && p = p' && e.agrees e'
  | call i f as, call j g bs => i = j && f = g && agreesAll as bs
  | methodCall i r m as, methodCall j r' m' bs =>
    i = j && m = m' && r.agrees r' && agreesAll as bs
  | letIn i ds b, letIn j ds' b' => i = j && agreesDefs ds ds' && b.agrees b'
  | _, _ => false
/-- The same of two lists of expressions. -/
def agreesAll : List Expr → List Expr → Bool
  | [], [] => true
  | a :: as, b :: bs => a.agrees b && agreesAll as bs
  | _, _ => false
/-- The same of definitions, which name the same variables. -/
def agreesDefs : List (VarId × Expr) → List (VarId × Expr) → Bool
  | [], [] => true
  | (v, a) :: as, (w, b) :: bs => v = w && a.agrees b && agreesDefs as bs
  | _, _ => false
end

/-- Equality of optional expressions. -/
def agrees? : Option Expr → Option Expr → Bool
  | none, none => true
  | some a, some b => a.agrees b
  | _, _ => false

end Expr

/-! ## §3. Statements. -/

/-- What every statement carries: id and position. -/
structure StmtInfo where
  id : NodeId
  span : Span
deriving DecidableEq

/-- A statement. -/
inductive Stmt where
  | expr (info : StmtInfo) (e : Expr)
  /-- The declaration of a local variable. -/
  | decl (info : StmtInfo) (var : VarId) (value : Option Expr)
  | block (info : StmtInfo) (stmts : List Stmt)
  | ifElse (info : StmtInfo) (cond : Expr) (yes : Stmt) (no : Option Stmt)
  | whileDo (info : StmtInfo) (cond : Expr) (body : Stmt)
  | doWhile (info : StmtInfo) (body : Stmt) (cond : Expr)
  /-- A `for` loop; without a condition it goes on for ever. -/
  | forDo (info : StmtInfo) (start : List Stmt) (cond : Option Expr) (step : List Expr)
      (body : Stmt)
  | labeled (info : StmtInfo) (label : String) (body : Stmt)
  | ret (info : StmtInfo) (value : Option Expr)
  | brk (info : StmtInfo) (label : Option String)
  | cont (info : StmtInfo) (label : Option String)

namespace Stmt

/-- The id and the position of a node. -/
def info : Stmt → StmtInfo
  | expr i _ | decl i _ _ | block i _ | ifElse i _ _ _ | whileDo i _ _ | doWhile i _ _
  | forDo i _ _ _ _ | labeled i _ _ | ret i _ | brk i _ | cont i _ => i

/-- The id of a node. -/
def id (s : Stmt) : NodeId := s.info.id

/-- Where a statement stands in the source text. -/
def span (s : Stmt) : Span := s.info.span

/-- The same statement with other information at its root. -/
def withInfo (i : StmtInfo) : Stmt → Stmt
  | expr _ e => expr i e
  | decl _ v e => decl i v e
  | block _ ss => block i ss
  | ifElse _ c y n => ifElse i c y n
  | whileDo _ c b => whileDo i c b
  | doWhile _ b c => doWhile i b c
  | forDo _ ss c es b => forDo i ss c es b
  | labeled _ l b => labeled i l b
  | ret _ e => ret i e
  | brk _ l => brk i l
  | cont _ l => cont i l

/-- A block in braces. -/
def isBlock : Stmt → Bool
  | block _ _ => true
  | _ => false

/-- An `if`, with or without an `else`. -/
def isIf : Stmt → Bool
  | ifElse _ _ _ _ => true
  | _ => false

mutual
/-- Equality of statements, literals compared as numbers. -/
def agrees : Stmt → Stmt → Bool
  | expr i e, expr j e' => i = j && e.agrees e'
  | decl i v e, decl j w e' => i = j && v = w && Expr.agrees? e e'
  | block i ss, block j ts => i = j && agreesAll ss ts
  | ifElse i c y n, ifElse j c' y' n' => i = j && c.agrees c' && y.agrees y' && agrees? n n'
  | whileDo i c b, whileDo j c' b' => i = j && c.agrees c' && b.agrees b'
  | doWhile i b c, doWhile j b' c' => i = j && b.agrees b' && c.agrees c'
  | forDo i ss c es b, forDo j ts c' es' b' =>
    i = j && agreesAll ss ts && Expr.agrees? c c' && Expr.agreesAll es es' && b.agrees b'
  | labeled i l b, labeled j l' b' => i = j && l = l' && b.agrees b'
  | ret i e, ret j e' => i = j && Expr.agrees? e e'
  | brk i l, brk j l' => i = j && l = l'
  | cont i l, cont j l' => i = j && l = l'
  | _, _ => false
/-- The same of two lists of statements. -/
def agreesAll : List Stmt → List Stmt → Bool
  | [], [] => true
  | a :: as, b :: bs => a.agrees b && agreesAll as bs
  | _, _ => false
/-- The same of two branches that may be missing. -/
def agrees? : Option Stmt → Option Stmt → Bool
  | none, none => true
  | some a, some b => a.agrees b
  | _, _ => false
end

end Stmt

/-! ## §4. Declarations. -/

/-- A method declaration; an abstract method has no body. -/
structure Method where
  id : NodeId
  name : String
  params : List VarId
  ret : Ty
  body : Option Stmt
  span : Span

/-- A class declaration. -/
structure Class where
  id : NodeId
  name : String
  superclass : Option String
  interfaces : List String
  methods : List Method
  span : Span

/-- An attributed program: its classes and the symbols they refer to. -/
structure Program where
  classes : List Class
  symbols : Symbols

/-- Equality of methods, literals compared as numbers. -/
def Method.agrees (a b : Method) : Bool :=
  a.id = b.id && a.name = b.name && a.params = b.params && a.ret = b.ret
    && Stmt.agrees? a.body b.body && a.span = b.span

namespace Class

/-- The first method of a name. -/
def method? (c : Class) (name : String) : Option Method :=
  c.methods.find? fun m => m.name = name

/-- Equality of lists of methods. -/
def agreesMethods : List Method → List Method → Bool
  | [], [] => true
  | a :: as, b :: bs => a.agrees b && agreesMethods as bs
  | _, _ => false

/-- Equality of classes, literals compared as numbers. -/
def agrees (a b : Class) : Bool :=
  a.id = b.id && a.name = b.name && a.superclass = b.superclass
    && a.interfaces = b.interfaces && agreesMethods a.methods b.methods && a.span = b.span

end Class

namespace Program

/-- The builtin classes and every class of the program. -/
def hierarchy (p : Program) : Hierarchy :=
  p.classes.foldl (fun h c => h.declare c.name c.superclass c.interfaces) .builtin

/-- The first class of a name. -/
def class? (p : Program) (name : String) : Option Class :=
  p.classes.find? fun c => c.name = name

/-- Every method of the program, class by class. -/
def methods (p : Program) : List Method := p.classes.flatMap (·.methods)

/-- The first method of a name in any class. -/
def method? (p : Program) (name : String) : Option Method :=
  p.methods.find? fun m => m.name = name

/-- Equality of lists of classes. -/
def agreesClasses : List Class → List Class → Bool
  | [], [] => true
  | a :: as, b :: bs => a.agrees b && agreesClasses as bs
  | _, _ => false

/-- Equality of programs, literals compared as numbers. -/
def agrees (p q : Program) : Bool :=
  agreesClasses p.classes q.classes && p.symbols = q.symbols

end Program

end PatternIR
