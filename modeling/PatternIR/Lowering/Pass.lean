/-
  PatternIR.Lowering.Pass
  ───────────────────────
  **LOWERING — type-test patterns into plain type tests and storage.**

  `e instanceof T x` becomes a test of a temporary that holds the value of
  `e`, followed by an assignment to the variable that stores `x`.  The
  variable is declared by the construct that guarantees the binding: around
  an expression by a let-expression, in front of a statement by a local
  variable, and for a preserved binding in the enclosing block.

    • `Lowering` — computations on symbol table, stack and maker, which keep
      their state when they fail;
    • `within` — run a computation in a frame of its own, left on every exit;
    • `lowerExpr`, `lowerParts`, `lowerStmt` — the pass itself.

  Nodes without a pattern keep their id, type and position.
-/
import PatternIR.Flow.Bindings
import PatternIR.Lowering.Frames
import PatternIR.Tree.Maker

namespace PatternIR

/-! ## §1. Errors. -/

/-- Why a tree cannot be lowered. -/
inductive LowerError where
  /-- A reference where its binding is not known to have matched. -/
  | unresolvedBinding (name : String) (span : Span)
  /-- Storage of a type without values. -/
  | noDefaultValue (ty : Ty)
  | unknownBinding (id : BindingId)
  | unknownVar (id : VarId)
deriving DecidableEq

/-- The wording of an error. -/
def LowerError.message : LowerError → String
  | .unresolvedBinding name _ => "pattern binding `" ++ name ++ "` has no storage in scope"
  | .noDefaultValue ty => "no default value for type `" ++ ty.text ++ "`"
  | .unknownBinding id => "unknown binding symbol BindingId(" ++ toString id.index ++ ")"
  | .unknownVar id => "unknown variable symbol VarId(" ++ toString id.index ++ ")"

/-! ## §2. Computations. -/

namespace Lowering

/-- The state of the pass. -/
structure Pass where
  symbols : Symbols
  stack : Stack
  maker : Maker

end Lowering

/-- A step of the pass.  A step that fails keeps the state it reached. -/
abbrev Lowering := EStateM LowerError Lowering.Pass

namespace Lowering

/-- What the pass is told: the class hierarchy and the flow facts. -/
structure Rules where
  hierarchy : Hierarchy
  flow : Oracle

/-- The first id of the nodes the pass makes. -/
def firstId : NodeId := 1000000

/-- Make a node. -/
def making {α : Type} (m : Making α) : Lowering α := fun p =>
  let (a, maker) := m.run p.maker
  .ok a { p with maker }

/-- Put the nodes made from now on at `span`. -/
def moveTo (span : Span) : Lowering Unit := making (Maker.moveTo span)

/-- Put a question to the oracle. -/
def asking (question : Symbols → List BindingId × Symbols) : Lowering (List BindingId) := fun p =>
  let (bindings, symbols) := question p.symbols
  .ok bindings { p with symbols }

/-- The storage of a binding. -/
def resolve (b : BindingId) : Lowering (Option VarId) := fun p =>
  .ok (p.stack.resolve p.symbols b) p

/-- Run a computation in a frame of its own.  The frame is left again
whether the computation succeeds or fails. -/
def within {α : Type} (kind : FrameKind) (bindings : List BindingId) (body : Lowering α) :
    Lowering α := fun p =>
  let (stack, symbols) := p.stack.push kind bindings p.symbols
  match body { p with stack, symbols } with
  | .ok a p => .ok a { p with stack := p.stack.pop }
  -- a fault keeps the table and the maker as they have become, and leaves the frame too
  | .error e p => .error e { p with stack := p.stack.pop }

/-! ## §3. Storage. -/

/-- What storage holds before its pattern has matched; `none` for a type
without values. -/
def defaultLiteral? : Ty → Option Literal
  | .named _ _ | .array _ | .null => some .null
  | .prim .boolean => some (.bool false)
  | .prim .byte | .prim .short | .prim .int => some (.int 0)
  | .prim .char => some (.char (Char.ofNat 0))
  | .prim .long => some (.long 0)
  | .prim .float => some (.float (.zero false))
  | .prim .double => some (.double (.zero false))
  | .void => none

/-- The default value of a type: the literal `null`, or a zero of just that type. -/
def defaultValue (ty : Ty) : Except LowerError (Making Expr) :=
  match defaultLiteral? ty with
  | some .null => .ok Maker.null
  | some zero => .ok (Maker.expr (.literal · zero) ty)
  | none => .error (.noDefaultValue ty)

/-- A node with the default value of a type. -/
def makeDefault (ty : Ty) : Lowering Expr :=
  match defaultValue ty with
  | .ok m => making m
  | .error e => throw e

/-- The type of a storage variable. -/
def storageType (var : VarId) : Lowering Ty := do
  match (← get).symbols.var? var with
  | some v => return v.ty.erasure
  | none => throw (.unknownVar var)

/-- The declaration of a storage variable with its default value. -/
def storageDecl (span : Span) (var : VarId) : Lowering Stmt := do
  let ty ← storageType var
  moveTo span
  let value ← makeDefault ty
  making (Maker.decl var (some value))

/-- The definition of a storage variable in a let-expression. -/
def storageDef (slot : Slot) : Lowering (VarId × Expr) := do
  let ty ← storageType slot.var
  let value ← makeDefault ty
  return (slot.var, value)

/-- Scope the storage of the current frame around its expression. -/
def decorateExpr (e : Expr) : Lowering Expr := do
  match (← get).stack.current.slots with
  | [] => return e
  | slots =>
    moveTo e.span
    let defs ← slots.mapM storageDef
    making (Maker.letIn defs e)

/-- A lowered statement and the declarations that have to run just before it. -/
structure Decorated where
  decls : List Stmt
  stmt : Stmt

/-- Offer a declaration to the enclosing frame; the answer holds it if it was refused. -/
def offer (b : BindingId) (decl : Stmt) : Lowering (List Stmt) := fun p =>
  match p.stack.hoist? p.symbols b decl with
  | some stack => .ok [] { p with stack }
  | none => .ok [decl] p

/-- Declare the storage of slots for a statement at `span`; the answer holds
the declarations that no enclosing block takes. -/
def declareSlots (span : Span) : List Slot → Lowering (List Stmt)
  | [] => return []
  | slot :: slots => do
    let decl ← storageDecl span slot.var
    let refused ← offer slot.binding decl
    return refused ++ (← declareSlots span slots)

/-- Declare the storage of the current frame in front of its statement. -/
def decorateStmt (stmt : Stmt) : Lowering Decorated := do
  let decls ← declareSlots stmt.span (← get).stack.current.slots
  return ⟨decls, stmt⟩

/-- One statement again: a block, if declarations have to run first. -/
def Decorated.close (d : Decorated) : Lowering Stmt :=
  match d.decls with
  | [] => return d.stmt
  | decls => do
    moveTo d.stmt.span
    making (Maker.block (decls ++ [d.stmt]))

/-- Take out the declarations the current block has accepted so far. -/
def takeHoisted : Lowering (List Stmt) := fun p =>
  let (decls, stack) := p.stack.takeHoisted
  .ok decls { p with stack }

/-! ## §4. Patterns. -/

/-- A reference to a binding becomes one to its storage. -/
def lowerRef (b : BindingId) (ty : Ty) (span : Span) : Lowering Expr := do
  match ← resolve b with
  | some var =>
    moveTo span
    making (Maker.var var ty)
  | none =>
    match (← get).symbols.binding? b with
    | some symbol => throw (.unresolvedBinding symbol.name span)
    | none => throw (.unknownBinding b)

/-- Whether a pattern matches every value its operand can have. -/
def certain (rules : Rules) (operandTy : Ty) (pattern : BindingPattern) (target : Ty) : Bool :=
  pattern.declared.isNone || operandTy.isPrimitive
    || (!operandTy.isNull && rules.hierarchy.isSubtype operandTy target)

/-- Store the temporary as a condition that holds, `(x = (T) t) == (T) t`.  A
primitive `x` is boxed again, so that the two sides compare by reference. -/
def storeMatch (var temp : VarId) (target tempTy : Ty) : Lowering Expr := do
  let varTy ← storageType var
  -- the parts are made in the order of their ids; each use of the temporary is a node of its own
  let slot ← making (Maker.var var varTy)
  let held ← making (Maker.var temp tempTy)
  let value ← making (Maker.cast target held)
  let stored ← making (Maker.assign slot value)
  let stored ← if varTy.isPrimitive then making (Maker.cast target stored) else pure stored
  let held ← making (Maker.var temp tempTy)
  let again ← making (Maker.cast target held)
  making (Maker.binary .eq stored again)

/-- A type test.  `e instanceof T x` becomes
`(let t = e; in t instanceof T && ((x = (T) t) == (T) t))`, where the test is
`true` if the match is certain and the store is left out if `x` has no
storage here.  `operand` is the lowered `e`. -/
def lowerTest (rules : Rules) (operandTy : Ty) (operand : Expr) (pattern : BindingPattern)
    (span : Span) : Lowering Expr := do
  match (← get).symbols.binding? pattern.binding with
  | none => throw (.unknownBinding pattern.binding)
  | some symbol =>
    let target := symbol.ty.erasure.boxed
    -- no variable is of the type of `null`
    let tempTy := if operandTy.isNull then .object else operandTy
    let temp ← modifyGet fun p =>
      let (temp, symbols) := p.symbols.addVar (symbol.name ++ "$temp") tempTy symbol.owner true
      (temp, { p with symbols })
    moveTo span
    let test ←
      if certain rules operandTy pattern target then making (Maker.bool true)
      else do
        let held ← making (Maker.var temp tempTy)
        making (Maker.instanceOf held target)
    let test ← match ← resolve pattern.binding with
      | some var => do
        let stored ← storeMatch var temp target tempTy
        making (Maker.binary .and test stored)
      | none => pure test
    making (Maker.letIn [(temp, operand)] test)

/-! ## §5. Expressions. -/

/-- The bindings that the left operand guarantees to the right one. -/
def operandFacts (flow : Oracle) (op : BinOp) (left : Expr) : Lowering (List BindingId) :=
  match op with
  | .and => asking (flow left true)
  | .or => asking (flow left false)
  -- no question to the oracle, which might add to the table
  | _ => return []

mutual
/-- Lower an expression. -/
def lowerExpr (rules : Rules) : Expr → Lowering Expr
  | .ident i (.binding b) => lowerRef b i.ty i.span
  | .ident i (.var v) => return .ident i (.var v)
  | .literal i v => return .literal i v
  | .unary i op operand => return .unary i op (← lowerExpr rules operand)
  | .binary i op left right => do
    -- every operator has a frame, though only `&&` and `||` have something for it
    let bindings ← operandFacts rules.flow op left
    within .binary bindings do
      let left ← lowerExpr rules left
      let right ← lowerExpr rules right
      decorateExpr (.binary i op left right)
  | .conditional i cond yes no => do
    let bindings ← asking (rules.flow.all cond)
    within .conditional bindings do
      let cond ← lowerExpr rules cond
      let yes ← lowerExpr rules yes
      let no ← lowerExpr rules no
      decorateExpr (.conditional i cond yes no)
  | .assign i target value => do
    let target ← lowerExpr rules target
    let value ← lowerExpr rules value
    return .assign i target value
  | .cast i target operand => return .cast i target (← lowerExpr rules operand)
  | .instanceOf i operand target => return .instanceOf i (← lowerExpr rules operand) target
  | .typeTest i operand pattern => do
    let lowered ← lowerExpr rules operand
    -- the type of the operand is read off the source
    lowerTest rules operand.ty lowered pattern i.span
  | .call i name args => return .call i name (← lowerExprs rules args)
  | .methodCall i receiver method args => do
    let receiver ← lowerExpr rules receiver
    let args ← lowerExprs rules args
    return .methodCall i receiver method args
  | .letIn i defs body => do
    let defs ← lowerDefs rules defs
    let body ← lowerExpr rules body
    return .letIn i defs body
/-- Lower expressions in order. -/
def lowerExprs (rules : Rules) : List Expr → Lowering (List Expr)
  | [] => return []
  | e :: es => do
    let e ← lowerExpr rules e
    let es ← lowerExprs rules es
    return e :: es
/-- Lower the definitions of a let-expression in order. -/
def lowerDefs (rules : Rules) : List (VarId × Expr) → Lowering (List (VarId × Expr))
  | [] => return []
  | (var, e) :: ds => do
    let e ← lowerExpr rules e
    let ds ← lowerDefs rules ds
    return (var, e) :: ds
end

/-- Lower an expression, if there is one. -/
def lowerExpr? (rules : Rules) : Option Expr → Lowering (Option Expr)
  | none => return none
  | some e => return some (← lowerExpr rules e)

/-! ## §6. Statements. -/

/-- The bindings that a condition guarantees with either outcome. -/
def condFacts? (flow : Oracle) : Option Expr → Lowering (List BindingId)
  | none => return []
  | some cond => asking (flow.all cond)

mutual
/-- Lower a statement, its declarations apart.  The declarations of a
labelled statement go outside the label, which still names the loop. -/
def lowerParts (rules : Rules) : Stmt → Lowering Decorated
  | .expr i e => return ⟨[], .expr i (← lowerExpr rules e)⟩
  | .decl i var value => return ⟨[], .decl i var (← lowerExpr? rules value)⟩
  | .block i stmts =>
    -- the frame of a block begins empty, and fills with what its statements hand over
    within .block [] do
      return ⟨[], .block i (← lowerBlock rules stmts)⟩
  | .ifElse i cond yes no => do
    let bindings ← asking (rules.flow.all cond)
    within .statement bindings do
      let cond ← lowerExpr rules cond
      let yes ← (← lowerParts rules yes).close
      let no ← lowerStmt? rules no
      decorateStmt (.ifElse i cond yes no)
  | .whileDo i cond body => do
    let bindings ← asking (rules.flow.all cond)
    within .statement bindings do
      let cond ← lowerExpr rules cond
      let body ← (← lowerParts rules body).close
      decorateStmt (.whileDo i cond body)
  | .doWhile i body cond => do
    -- the oracle is asked first, but the body is lowered in front of the condition
    let bindings ← asking (rules.flow.all cond)
    within .statement bindings do
      let body ← (← lowerParts rules body).close
      let cond ← lowerExpr rules cond
      decorateStmt (.doWhile i body cond)
  | .forDo i start cond step body => do
    let bindings ← condFacts? rules.flow cond
    within .statement bindings do
      -- the frame is not a block: it refuses what the start would hand over
      let start ← lowerStmts rules start
      let cond ← lowerExpr? rules cond
      let step ← lowerExprs rules step
      let body ← (← lowerParts rules body).close
      decorateStmt (.forDo i start cond step body)
  | .labeled i label body => do
    let d ← lowerParts rules body
    return { d with stmt := .labeled i label d.stmt }
  | .ret i value => return ⟨[], .ret i (← lowerExpr? rules value)⟩
  | .brk i label => return ⟨[], .brk i label⟩
  | .cont i label => return ⟨[], .cont i label⟩
/-- Lower the statements of a block, each after the declarations it made the
block accept. -/
def lowerBlock (rules : Rules) : List Stmt → Lowering (List Stmt)
  | [] => return []
  | s :: ss => do
    let lowered ← (← lowerParts rules s).close
    let hoisted ← takeHoisted
    let rest ← lowerBlock rules ss
    return hoisted ++ lowered :: rest
/-- Lower statements in order. -/
def lowerStmts (rules : Rules) : List Stmt → Lowering (List Stmt)
  | [] => return []
  | s :: ss => do
    let lowered ← (← lowerParts rules s).close
    let rest ← lowerStmts rules ss
    return lowered :: rest
/-- Lower a statement, if there is one. -/
def lowerStmt? (rules : Rules) : Option Stmt → Lowering (Option Stmt)
  | none => return none
  | some s => return some (← (← lowerParts rules s).close)
end

/-- Lower a statement to one statement. -/
def lowerStmt (rules : Rules) (s : Stmt) : Lowering Stmt := do
  (← lowerParts rules s).close

end Lowering

end PatternIR
