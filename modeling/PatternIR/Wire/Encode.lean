/-
  PatternIR.Wire.Encode
  ─────────────────────
  **PROGRAMS AS JSON — writing.**

  Every part of a program has one JSON form: a record is an object with its
  fields in a fixed order, a variant an object with one field named for it,
  and a variant without content a string.  `PatternIR.Wire.Decode` reads the
  same form.
-/
import PatternIR.Json.Value
import PatternIR.Tree.Basic

namespace PatternIR

namespace Wire

/-- A variant with content. -/
def tagged (tag : String) (content : Json) : Json := .object [(tag, content)]

/-! ## §1. Types and symbols. -/

/-- The name of a primitive type in a file. -/
def primTag : Prim → String
  | .boolean => "Boolean"
  | .byte => "Byte"
  | .short => "Short"
  | .char => "Char"
  | .int => "Int"
  | .long => "Long"
  | .float => "Float"
  | .double => "Double"

mutual
/-- A type as a name or under one. -/
def ofTy : Ty → Json
  | .prim kind => tagged "Primitive" (.string (primTag kind))
  | .named name args =>
    tagged "Class" (.object [("name", .string name), ("args", .array (ofTys args))])
  | .array elem => tagged "Array" (ofTy elem)
  | .null => .string "Null"
  | .void => .string "Void"
/-- The arguments of a type. -/
def ofTys : List Ty → List Json
  | [] => []
  | t :: ts => ofTy t :: ofTys ts
end

/-- A variable as its place in the table. -/
def ofVarId (v : VarId) : Json := .nat v.index

/-- A binding as its place in the table. -/
def ofBindingId (b : BindingId) : Json := .nat b.index

/-- What an identifier refers to. -/
def ofSym : Sym → Json
  | .var v => tagged "Var" (ofVarId v)
  | .binding b => tagged "Binding" (ofBindingId b)

/-- An entry for a variable. -/
def ofVarSymbol (v : VarSymbol) : Json :=
  .object [("id", ofVarId v.id), ("name", .string v.name), ("ty", ofTy v.ty),
    ("owner", .option .string v.owner), ("synthetic", .bool v.synthetic)]

/-- An entry for a binding, with those it unifies. -/
def ofBindingSymbol (b : BindingSymbol) : Json :=
  .object [("id", ofBindingId b.id), ("name", .string b.name), ("ty", ofTy b.ty),
    ("owner", .option .string b.owner), ("preserved", .bool b.preserved),
    ("components", .list ofBindingId b.components)]

/-- Both tables as lists. -/
def ofSymbols (s : Symbols) : Json :=
  .object [("vars", .list ofVarSymbol s.vars.toList),
    ("bindings", .list ofBindingSymbol s.bindings.toList)]

/-! ## §2. Expressions. -/

/-- A stretch of the source text. -/
def ofSpan (s : Span) : Json := .object [("start", .nat s.start), ("end", .nat s.stop)]

/-- A constant under the name of its type. -/
def ofLiteral : Literal → Json
  | .bool b => tagged "Bool" (.bool b)
  | .int n => tagged "Int" (.int n.toInt)
  | .long n => tagged "Long" (.int n.toInt)
  | .float x => tagged "Float" (.single x)
  | .double x => tagged "Double" (.double x)
  | .char c => tagged "Char" (.string (String.ofList [c]))
  | .string s => tagged "String" (.string s)
  | .null => .string "Null"

/-- The name of an operator before an operand. -/
def unOpTag : UnOp → String
  | .not => "Not"
  | .neg => "Neg"

/-- The name of an operator between two. -/
def binOpTag : BinOp → String
  | .and => "And"
  | .or => "Or"
  | .eq => "Eq"
  | .ne => "Ne"
  | .lt => "Lt"
  | .gt => "Gt"
  | .le => "Le"
  | .ge => "Ge"
  | .add => "Add"
  | .sub => "Sub"
  | .mul => "Mul"
  | .div => "Div"
  | .rem => "Rem"

/-- A pattern; a type that is missing is written `null`. -/
def ofPattern (p : BindingPattern) : Json :=
  .object [("binding", ofBindingId p.binding), ("declared", .option ofTy p.declared)]

/-- An expression from its information and the form of its own part. -/
def node (i : ExprInfo) (kind : Json) : Json :=
  .object [("id", .nat i.id), ("kind", kind), ("ty", ofTy i.ty), ("span", ofSpan i.span)]

mutual
/-- An expression: its place, and the node under the name of its kind. -/
def ofExpr : Expr → Json
  | .literal i v => node i (tagged "Literal" (ofLiteral v))
  | .ident i sym => node i (tagged "Ident" (ofSym sym))
  | .unary i op e =>
    node i (tagged "Unary" (.object [("op", .string (unOpTag op)), ("operand", ofExpr e)]))
  | .binary i op l r =>
    node i (tagged "Binary" (.object [("op", .string (binOpTag op)), ("left", ofExpr l),
      ("right", ofExpr r)]))
  | .conditional i c y n =>
    node i (tagged "Conditional" (.object [("cond", ofExpr c), ("then_expr", ofExpr y),
      ("else_expr", ofExpr n)]))
  | .assign i t v =>
    node i (tagged "Assign" (.object [("target", ofExpr t), ("value", ofExpr v)]))
  | .cast i t e =>
    node i (tagged "Cast" (.object [("target", ofTy t), ("expr", ofExpr e)]))
  | .instanceOf i e t =>
    node i (tagged "InstanceOf" (.object [("expr", ofExpr e), ("target", ofTy t)]))
  | .typeTest i e p =>
    node i (tagged "TypeTest" (.object [("expr", ofExpr e), ("pattern", ofPattern p)]))
  | .call i name args =>
    node i (tagged "Call" (.object [("name", .string name), ("args", .array (ofExprs args))]))
  | .methodCall i r m args =>
    node i (tagged "MethodCall" (.object [("receiver", ofExpr r), ("method", .string m),
      ("args", .array (ofExprs args))]))
  | .letIn i ds b =>
    node i (tagged "LetExpr" (.object [("defs", .array (ofDefs ds)), ("body", ofExpr b)]))
/-- Several expressions in their order. -/
def ofExprs : List Expr → List Json
  | [] => []
  | e :: es => ofExpr e :: ofExprs es
/-- The definitions of a let-expression in their order. -/
def ofDefs : List (VarId × Expr) → List Json
  | [] => []
  | (v, e) :: ds => .object [("var", ofVarId v), ("init", ofExpr e)] :: ofDefs ds
end

/-! ## §3. Statements. -/

/-- A statement from its information and the form of its own part. -/
def stmtNode (i : StmtInfo) (kind : Json) : Json :=
  .object [("id", .nat i.id), ("kind", kind), ("span", ofSpan i.span)]

mutual
/-- A statement: its place, and the node under the name of its kind. -/
def ofStmt : Stmt → Json
  | .expr i e => stmtNode i (tagged "Expr" (ofExpr e))
  | .decl i v e =>
    stmtNode i (tagged "Local" (.object [("var", ofVarId v), ("init", .option ofExpr e)]))
  | .block i ss => stmtNode i (tagged "Block" (.array (ofStmts ss)))
  | .ifElse i c y n =>
    stmtNode i (tagged "If" (.object [("cond", ofExpr c), ("then_branch", ofStmt y),
      ("else_branch", ofStmt? n)]))
  | .whileDo i c b =>
    stmtNode i (tagged "While" (.object [("cond", ofExpr c), ("body", ofStmt b)]))
  | .doWhile i b c =>
    stmtNode i (tagged "DoWhile" (.object [("body", ofStmt b), ("cond", ofExpr c)]))
  | .forDo i ss c es b =>
    stmtNode i (tagged "For" (.object [("init", .array (ofStmts ss)), ("cond", .option ofExpr c),
      ("step", .array (ofExprs es)), ("body", ofStmt b)]))
  | .labeled i l b =>
    stmtNode i (tagged "Labeled" (.object [("label", .string l), ("body", ofStmt b)]))
  | .ret i e => stmtNode i (tagged "Return" (.option ofExpr e))
  | .brk i l => stmtNode i (tagged "Break" (.option .string l))
  | .cont i l => stmtNode i (tagged "Continue" (.option .string l))
/-- Several statements in their order. -/
def ofStmts : List Stmt → List Json
  | [] => []
  | s :: ss => ofStmt s :: ofStmts ss
/-- A branch that is missing is written `null`. -/
def ofStmt? : Option Stmt → Json
  | none => .null
  | some s => ofStmt s
end

/-! ## §4. Declarations. -/

/-- A method, with `null` for a missing body. -/
def ofMethod (m : Method) : Json :=
  .object [("id", .nat m.id), ("name", .string m.name), ("params", .list ofVarId m.params),
    ("ret", ofTy m.ret), ("body", ofStmt? m.body), ("span", ofSpan m.span)]

/-- A class, its interfaces always written. -/
def ofClass (c : Class) : Json :=
  .object [("id", .nat c.id), ("name", .string c.name),
    ("superclass", .option .string c.superclass), ("interfaces", .list .string c.interfaces),
    ("methods", .list ofMethod c.methods), ("span", ofSpan c.span)]

/-- A program. -/
def ofProgram (p : Program) : Json :=
  .object [("classes", .list ofClass p.classes), ("symbols", ofSymbols p.symbols)]

end Wire

end PatternIR
