/-
  PatternIR.Tree.Maker
  ────────────────────
  **MAKING NODES.**

  A maker hands out node ids one after the other and puts each node at its
  current position.  The static type of a node is derived from its parts, as
  attribution would.

    • `Maker.expr`, `Maker.stmt` — give a node its id and position;
    • `binaryType` — the type of a binary operation;
    • one function for each form whose type is derived.
-/
import PatternIR.Tree.Basic

namespace PatternIR

/-- The next id and the current position. -/
structure Maker where
  next : NodeId
  span : Span
deriving DecidableEq

/-- A computation that takes ids from a maker. -/
abbrev Making := StateM Maker

namespace Maker

/-- A maker whose first node gets the id `first`. -/
def startingAt (first : NodeId) : Maker := ⟨first, .nowhere⟩

/-! ## §1. Ids and positions. -/

/-- Put the nodes made from now on at `span`. -/
def moveTo (span : Span) : Making Unit := modify fun m => { m with span }

/-- The next id, which is used up. -/
def freshId : Making NodeId := modifyGet fun m => (m.next, { m with next := m.next + 1 })

/-- Give an expression its id, type and position. -/
def expr (build : ExprInfo → Expr) (ty : Ty) : Making Expr := fun m =>
  (build ⟨m.next, ty, m.span⟩, { m with next := m.next + 1 })

/-- Give a statement its id and position. -/
def stmt (build : StmtInfo → Stmt) : Making Stmt := fun m =>
  (build ⟨m.next, m.span⟩, { m with next := m.next + 1 })

/-! ## §2. Expressions. -/

/-- The type of a constant. -/
def literalType : Literal → Ty
  | .bool _ => .boolean
  | .int _ => .int
  | .long _ => .prim .long
  | .float _ => .prim .float
  | .double _ => .prim .double
  | .char _ => .prim .char
  | .string _ => .string
  | .null => .null

/-- The type of a binary operation on operands of the given types: boolean for
tests, a string as soon as `+` has a string operand, else the left type. -/
def binaryType (op : BinOp) (left right : Ty) : Ty :=
  match op with
  | .and | .or | .eq | .ne | .lt | .gt | .le | .ge => .boolean
  | .add => if left = .string ∨ right = .string then .string else left
  | .sub | .mul | .div | .rem => left

/-- A constant, with the type it has by itself. -/
def literal (v : Literal) : Making Expr := expr (.literal · v) (literalType v)

/-- `true` or `false`. -/
def bool (b : Bool) : Making Expr := literal (.bool b)

/-- The constant `null`. -/
def null : Making Expr := literal .null

/-- A reference of a given type. -/
def ref (sym : Sym) (ty : Ty) : Making Expr := expr (.ident · sym) ty

/-- A reference to a variable. -/
def var (id : VarId) (ty : Ty) : Making Expr := ref (.var id) ty

/-- A reference typed from the symbol table; void if it is not there. -/
def ident (symbols : Symbols) (sym : Sym) : Making Expr :=
  ref sym ((symbols.typeOf? sym).getD .void)

/-- An operator before its operand, whose type it has. -/
def unary (op : UnOp) (operand : Expr) : Making Expr := expr (.unary · op operand) operand.ty

/-- An operator between two operands. -/
def binary (op : BinOp) (left right : Expr) : Making Expr :=
  expr (.binary · op left right) (binaryType op left.ty right.ty)

/-- A choice, of the type of what it gives when the condition holds. -/
def conditional (cond yes no : Expr) : Making Expr := expr (.conditional · cond yes no) yes.ty

/-- An assignment, of the type of its target. -/
def assign (target value : Expr) : Making Expr := expr (.assign · target value) target.ty

/-- A cast, of the type it is to. -/
def cast (target : Ty) (operand : Expr) : Making Expr := expr (.cast · target operand) target

/-- A plain test for a type. -/
def instanceOf (operand : Expr) (target : Ty) : Making Expr :=
  expr (.instanceOf · operand target) .boolean

/-- A test that binds what it matches. -/
def typeTest (operand : Expr) (pattern : BindingPattern) : Making Expr :=
  expr (.typeTest · operand pattern) .boolean

/-- A call, of the type the method returns. -/
def call (name : String) (args : List Expr) (ret : Ty) : Making Expr :=
  expr (.call · name args) ret

/-- A call on a receiver. -/
def methodCall (receiver : Expr) (method : String) (args : List Expr) (ret : Ty) : Making Expr :=
  expr (.methodCall · receiver method args) ret

/-- A let-expression, of the type of its body. -/
def letIn (defs : List (VarId × Expr)) (body : Expr) : Making Expr :=
  expr (.letIn · defs body) body.ty

/-! ## §3. Statements and declarations. -/

/-- The declaration of a variable, with or without a value. -/
def decl (var : VarId) (value : Option Expr) : Making Stmt := stmt (.decl · var value)

/-- A block of statements. -/
def block (stmts : List Stmt) : Making Stmt := stmt (.block · stmts)

/-- A method with a block as its body; the block takes its id first. -/
def methodDecl (name : String) (params : List VarId) (ret : Ty) (stmts : List Stmt) :
    Making Method := do
  let body ← block stmts
  let id ← freshId
  return { id, name, params, ret, body := some body, span := (← get).span }

/-- A class without declared supertypes. -/
def classDecl (name : String) (methods : List Method) : Making Class := do
  let id ← freshId
  return { id, name, superclass := none, interfaces := [], methods, span := (← get).span }

end Maker

end PatternIR
