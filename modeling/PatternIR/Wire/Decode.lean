/-
  PatternIR.Wire.Decode
  ─────────────────────
  **PROGRAMS AS JSON — reading.**

  Readers for the form that `PatternIR.Wire.Encode` writes.  Trees nest, so
  their readers recurse on a fuel; each step opens a bracket, and the fuel holds
  one more than the library lets a text open.

    • `JsonLibrary.program?` — from text to program, or the first fault.
-/
import PatternIR.Json.Decode
import PatternIR.Tree.Basic

namespace PatternIR

namespace Wire

open Reader (Record variant)
open Reader.Record (field fieldOr optional)

/-! ## §1. Types and symbols. -/

/-- The names of the primitive types in a file. -/
def prims : List (String × Prim) :=
  [("Boolean", .boolean), ("Byte", .byte), ("Short", .short), ("Char", .char), ("Int", .int),
    ("Long", .long), ("Float", .float), ("Double", .double)]

/-- A name out of a table. -/
def oneOf {α : Type} (table : List (String × α)) : Reader lib α :=
  variant (Reader.find table) fun _ => none

/-- A type, with a step of the fuel for each bracket. -/
def toTy : (fuel : Nat) → Reader lib Ty
  | 0 => fun _ _ => .error .malformed
  | fuel + 1 =>
    let named := (field "name" Reader.string).and (field "args" (Reader.list (toTy fuel)))
    variant (Reader.find [("Null", .null), ("Void", .void)]) <| Reader.find
      [("Primitive", fun room d => Ty.prim <$> oneOf prims room d),
        ("Class", named.readAs fun (name, args) => .named name args),
        ("Array", fun room d => Ty.array <$> toTy fuel room d)]

/-- Enough fuel for every text. -/
def enough (lib : JsonLibrary) : Nat := lib.room + 1

/-- A type. -/
def toType : Reader lib Ty := toTy (enough lib)

/-- A variable is its place in the table. -/
def toVarId : Reader lib VarId := fun room d => VarId.mk <$> Reader.nat32 room d

/-- A binding is its place in the table. -/
def toBindingId : Reader lib BindingId := fun room d => BindingId.mk <$> Reader.nat32 room d

/-- What an identifier refers to. -/
def toSym : Reader lib Sym :=
  variant (fun _ => none) <| Reader.find
    [("Var", fun room d => Sym.var <$> toVarId room d),
      ("Binding", fun room d => Sym.binding <$> toBindingId room d)]

/-- An entry for a variable; it need not have an owner. -/
def toVarSymbol : Reader lib VarSymbol :=
  ((field "id" toVarId).and <| (field "name" Reader.string).and <| (field "ty" toType).and <|
    (optional "owner" Reader.string).and (field "synthetic" Reader.bool)).readAs
    fun (id, name, ty, owner, synthetic) => ⟨id, name, ty, owner, synthetic⟩

/-- An entry for a binding, with those it unifies. -/
def toBindingSymbol : Reader lib BindingSymbol :=
  ((field "id" toBindingId).and <| (field "name" Reader.string).and <| (field "ty" toType).and <|
    (optional "owner" Reader.string).and <| (field "preserved" Reader.bool).and
      (field "components" (Reader.list toBindingId))).readAs
    fun (id, name, ty, owner, preserved, components) =>
    ⟨id, name, ty, owner, preserved, components⟩

/-- Both tables, in the order of their ids. -/
def toSymbols : Reader lib Symbols :=
  ((field "vars" (Reader.list toVarSymbol)).and
    (field "bindings" (Reader.list toBindingSymbol))).readAs
    fun (vars, bindings) => ⟨vars.toArray, bindings.toArray⟩

/-! ## §2. Expressions. -/

/-- A stretch of the source text. -/
def toSpan : Reader lib Span :=
  ((field "start" Reader.nat64).and (field "end" Reader.nat64)).readAs
    fun (start, stop) => ⟨start, stop⟩

/-- A constant under the name of its type; `null` is a name alone. -/
def toLiteral : Reader lib Literal :=
  variant (Reader.find [("Null", .null)]) <| Reader.find
    [("Bool", fun room d => Literal.bool <$> Reader.bool room d),
      ("Int", fun room d => Literal.int <$> Reader.int32 room d),
      ("Long", fun room d => Literal.long <$> Reader.int64 room d),
      ("Float", fun room d => Literal.float <$> Reader.single room d),
      ("Double", fun room d => Literal.double <$> Reader.double room d),
      ("Char", fun room d => Literal.char <$> Reader.char room d),
      ("String", fun room d => Literal.string <$> Reader.string room d)]

/-- The names of the operators before an operand. -/
def unOps : List (String × UnOp) := [("Not", .not), ("Neg", .neg)]

/-- The names of the operators between two. -/
def binOps : List (String × BinOp) :=
  [("And", .and), ("Or", .or), ("Eq", .eq), ("Ne", .ne), ("Lt", .lt), ("Gt", .gt), ("Le", .le),
    ("Ge", .ge), ("Add", .add), ("Sub", .sub), ("Mul", .mul), ("Div", .div), ("Rem", .rem)]

/-- A pattern; its type may be missing. -/
def toPattern : Reader lib BindingPattern :=
  ((field "binding" toBindingId).and (optional "declared" toType)).readAs
    fun (binding, declared) => ⟨binding, declared⟩

/-- An expression, from a reader of the expressions in it. -/
def toExprWith (sub : Reader lib Expr) : Reader lib Expr :=
  let subs := Reader.list sub
  let defn : Reader lib (VarId × Expr) := ((field "var" toVarId).and (field "init" sub)).read
  let kind : Reader lib (ExprInfo → Expr) :=
    variant (fun _ => none) <| Reader.find
      [("Literal", fun room d => (fun v i => Expr.literal i v) <$> toLiteral room d),
        ("Ident", fun room d => (fun s i => Expr.ident i s) <$> toSym room d),
        ("Unary", ((field "op" (oneOf unOps)).and (field "operand" sub)).readAs
          fun (op, e) i => Expr.unary i op e),
        ("Binary", ((field "op" (oneOf binOps)).and <| (field "left" sub).and
            (field "right" sub)).readAs
          fun (op, l, r) i => Expr.binary i op l r),
        ("Conditional", ((field "cond" sub).and <| (field "then_expr" sub).and
            (field "else_expr" sub)).readAs
          fun (c, y, n) i => Expr.conditional i c y n),
        ("Assign", ((field "target" sub).and (field "value" sub)).readAs
          fun (t, v) i => Expr.assign i t v),
        ("Cast", ((field "target" toType).and (field "expr" sub)).readAs
          fun (t, e) i => Expr.cast i t e),
        ("InstanceOf", ((field "expr" sub).and (field "target" toType)).readAs
          fun (e, t) i => Expr.instanceOf i e t),
        ("TypeTest", ((field "expr" sub).and (field "pattern" toPattern)).readAs
          fun (e, p) i => Expr.typeTest i e p),
        ("Call", ((field "name" Reader.string).and (field "args" subs)).readAs
          fun (f, as) i => Expr.call i f as),
        ("MethodCall", ((field "receiver" sub).and <| (field "method" Reader.string).and
            (field "args" subs)).readAs
          fun (r, m, as) i => Expr.methodCall i r m as),
        ("LetExpr", ((field "defs" (Reader.list defn)).and (field "body" sub)).readAs
          fun (ds, b) i => Expr.letIn i ds b)]
  ((field "id" Reader.nat32).and <| (field "kind" kind).and <| (field "ty" toType).and
    (field "span" toSpan)).readAs
    fun (id, build, ty, span) => build ⟨id, ty, span⟩

/-- An expression, with a step of the fuel for each node. -/
def toExprOf : (fuel : Nat) → Reader lib Expr
  | 0 => fun _ _ => .error .malformed
  | fuel + 1 => toExprWith (toExprOf fuel)

/-- An expression, however deep the library lets it nest. -/
def toExpr : Reader lib Expr := toExprOf (enough lib)

/-! ## §3. Statements. -/

/-- A statement, from a reader of the statements in it. -/
def toStmtWith (sub : Reader lib Stmt) : Reader lib Stmt :=
  let subs := Reader.list sub
  let kind : Reader lib (StmtInfo → Stmt) :=
    variant (fun _ => none) <| Reader.find
      [("Expr", fun room d => (fun e i => Stmt.expr i e) <$> toExpr room d),
        ("Local", ((field "var" toVarId).and (optional "init" toExpr)).readAs
          fun (v, e) i => Stmt.decl i v e),
        ("Block", fun room d => (fun ss i => Stmt.block i ss) <$> subs room d),
        ("If", ((field "cond" toExpr).and <| (field "then_branch" sub).and
            (optional "else_branch" sub)).readAs
          fun (c, y, n) i => Stmt.ifElse i c y n),
        ("While", ((field "cond" toExpr).and (field "body" sub)).readAs
          fun (c, b) i => Stmt.whileDo i c b),
        ("DoWhile", ((field "body" sub).and (field "cond" toExpr)).readAs
          fun (b, c) i => Stmt.doWhile i b c),
        ("For", ((field "init" subs).and <| (optional "cond" toExpr).and <|
            (field "step" (Reader.list toExpr)).and (field "body" sub)).readAs
          fun (ss, c, es, b) i => Stmt.forDo i ss c es b),
        ("Labeled", ((field "label" Reader.string).and (field "body" sub)).readAs
          fun (l, b) i => Stmt.labeled i l b),
        ("Return", fun room d => (fun e i => Stmt.ret i e) <$> Reader.option toExpr room d),
        ("Break", fun room d => (fun l i => Stmt.brk i l) <$> Reader.option Reader.string room d),
        ("Continue", fun room d =>
          (fun l i => Stmt.cont i l) <$> Reader.option Reader.string room d)]
  ((field "id" Reader.nat32).and <| (field "kind" kind).and (field "span" toSpan)).readAs
    fun (id, build, span) => build ⟨id, span⟩

/-- A statement, with a step of the fuel for each node. -/
def toStmtOf : (fuel : Nat) → Reader lib Stmt
  | 0 => fun _ _ => .error .malformed
  | fuel + 1 => toStmtWith (toStmtOf fuel)

/-- A statement, however deep the library lets it nest. -/
def toStmt : Reader lib Stmt := toStmtOf (enough lib)

/-! ## §4. Declarations. -/

/-- A method; its body may be missing. -/
def toMethod : Reader lib Method :=
  ((field "id" Reader.nat32).and <| (field "name" Reader.string).and <|
    (field "params" (Reader.list toVarId)).and <| (field "ret" toType).and <|
    (optional "body" toStmt).and (field "span" toSpan)).readAs
    fun (id, name, params, ret, body, span) => ⟨id, name, params, ret, body, span⟩

/-- A class; a file that names no interfaces has none. -/
def toClass : Reader lib Class :=
  ((field "id" Reader.nat32).and <| (field "name" Reader.string).and <|
    (optional "superclass" Reader.string).and <|
    (fieldOr (some []) "interfaces" (Reader.list Reader.string)).and <|
    (field "methods" (Reader.list toMethod)).and (field "span" toSpan)).readAs
    fun (id, name, superclass, interfaces, methods, span) =>
    ⟨id, name, superclass, interfaces, methods, span⟩

/-- The classes, and the table their trees refer to. -/
def toProgram : Reader lib Program :=
  ((field "classes" (Reader.list toClass)).and (field "symbols" toSymbols)).readAs
    fun (classes, symbols) => ⟨classes, symbols⟩

end Wire

/-- Read a program from a JSON text, or report the first fault in it. -/
def JsonLibrary.program? (lib : JsonLibrary) (text : String) : Except TextFault Program := do
  let (draft, trailing) := lib.scan text
  let p ← Wire.toProgram lib.room draft
  Reader.unlessFault trailing
  return p

end PatternIR
