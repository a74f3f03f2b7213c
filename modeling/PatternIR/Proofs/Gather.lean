/-
  PatternIR.Proofs.Gather
  ───────────────────────
  **WHAT A TREE HAS, node by node.**

  `gather own` lists, in the order of the walk, what `own` finds at each node.
  It has one equation for each form, and with them every notion that is
  defined by it: the variables a tree mentions, those it declares, its type
  tests.

    • `Expr.gather`, `Stmt.gather` — with an equation for each constructor;
    • `Expr.vars`, `Stmt.vars` — the variables mentioned;
    • `Expr.declared`, `Stmt.declared` — the variables declared with a value;
    • `Stmt.valueless` — the variables declared without one;
    • `Expr.tests`, `Stmt.tests` — the bindings of the type tests, also with an
      equation for each constructor.
-/
import Mathlib.Data.List.Forall2
import PatternIR.Tree.Walk

namespace PatternIR

/-- Each element has its counterpart. -/
theorem exists_of_forall₂ {α β : Type} {R : α → β → Prop} {xs : List α} {ys : List β}
    (h : List.Forall₂ R xs ys) {x : α} (hx : x ∈ xs) : ∃ y ∈ ys, R x y := by
  induction h with
  | nil => exact absurd hx List.not_mem_nil
  | @cons a b xs ys hab _ ih =>
      rcases List.mem_cons.mp hx with rfl | hx
      · exact ⟨b, List.mem_cons_self, hab⟩
      · obtain ⟨y, hy, hxy⟩ := ih hx
        exact ⟨y, List.mem_cons_of_mem _ hy, hxy⟩

variable {α : Type}

/-! ## §1. Expressions. -/

namespace Expr

/-- What `own` finds in an expression. -/
def gather (own : Expr → List α) (e : Expr) : List α := e.walk.flatMap own

/-- What the nodes of several trees give, tree after tree. -/
def gatherAll (own : Expr → List α) (es : List Expr) : List α := (walkAll es).flatMap own

/-- What the values of definitions give. -/
def gatherDefs (own : Expr → List α) (ds : List (VarId × Expr)) : List α :=
  (walkDefs ds).flatMap own

section

variable (own : Expr → List α) (i : ExprInfo)

/-- A constant has no parts. -/
@[simp] theorem gather_literal (v : Literal) :
    (literal i v).gather own = own (literal i v) := by
  show List.flatMap own [_] = _
  rw [List.flatMap_singleton]

/-- Nor does an identifier. -/
@[simp] theorem gather_ident (sym : Sym) : (ident i sym).gather own = own (ident i sym) := by
  show List.flatMap own [_] = _
  rw [List.flatMap_singleton]

/-- The node before its operand. -/
@[simp] theorem gather_unary (op : UnOp) (e : Expr) :
    (unary i op e).gather own = own (unary i op e) ++ e.gather own := by
  show List.flatMap own (_ :: e.walk) = _
  rw [List.flatMap_cons]
  rfl

/-- The node, then the operands from left to right. -/
@[simp] theorem gather_binary (op : BinOp) (l r : Expr) :
    (binary i op l r).gather own = own (binary i op l r) ++ (l.gather own ++ r.gather own) := by
  show List.flatMap own (_ :: (l.walk ++ r.walk)) = _
  rw [List.flatMap_cons, List.flatMap_append]
  rfl

/-- The node, the condition and both choices. -/
@[simp] theorem gather_conditional (c y n : Expr) :
    (conditional i c y n).gather own
      = own (conditional i c y n) ++ (c.gather own ++ (y.gather own ++ n.gather own)) := by
  show List.flatMap own (_ :: (c.walk ++ y.walk ++ n.walk)) = _
  rw [List.flatMap_cons, List.flatMap_append, List.flatMap_append, List.append_assoc (c.walk.flatMap own)]
  rfl

@[simp] theorem gather_assign (t v : Expr) :
    (assign i t v).gather own = own (assign i t v) ++ (t.gather own ++ v.gather own) := by
  show List.flatMap own (_ :: (t.walk ++ v.walk)) = _
  rw [List.flatMap_cons, List.flatMap_append]
  rfl

@[simp] theorem gather_cast (t : Ty) (e : Expr) :
    (cast i t e).gather own = own (cast i t e) ++ e.gather own := by
  show List.flatMap own (_ :: e.walk) = _
  rw [List.flatMap_cons]
  rfl

@[simp] theorem gather_instanceOf (e : Expr) (t : Ty) :
    (instanceOf i e t).gather own = own (instanceOf i e t) ++ e.gather own := by
  show List.flatMap own (_ :: e.walk) = _
  rw [List.flatMap_cons]
  rfl

@[simp] theorem gather_typeTest (e : Expr) (p : BindingPattern) :
    (typeTest i e p).gather own = own (typeTest i e p) ++ e.gather own := by
  show List.flatMap own (_ :: e.walk) = _
  rw [List.flatMap_cons]
  rfl

/-- The node, then the arguments. -/
@[simp] theorem gather_call (f : String) (es : List Expr) :
    (call i f es).gather own = own (call i f es) ++ gatherAll own es := by
  show List.flatMap own (_ :: walkAll es) = _
  rw [List.flatMap_cons]
  rfl

@[simp] theorem gather_methodCall (e : Expr) (f : String) (es : List Expr) :
    (methodCall i e f es).gather own
      = own (methodCall i e f es) ++ (e.gather own ++ gatherAll own es) := by
  show List.flatMap own (_ :: (e.walk ++ walkAll es)) = _
  rw [List.flatMap_cons, List.flatMap_append]
  rfl

/-- The node, the values of its definitions, then its body. -/
@[simp] theorem gather_letIn (ds : List (VarId × Expr)) (b : Expr) :
    (letIn i ds b).gather own = own (letIn i ds b) ++ (gatherDefs own ds ++ b.gather own) := by
  show List.flatMap own (_ :: (walkDefs ds ++ b.walk)) = _
  rw [List.flatMap_cons, List.flatMap_append]
  rfl

/-- No trees give nothing. -/
@[simp] theorem gatherAll_nil : gatherAll own [] = [] := rfl

/-- The first tree before the others. -/
@[simp] theorem gatherAll_cons (e : Expr) (es : List Expr) :
    gatherAll own (e :: es) = e.gather own ++ gatherAll own es := by
  show (e.walk ++ walkAll es).flatMap own = _
  rw [List.flatMap_append]
  rfl

/-- One tree alone. -/
theorem gatherAll_singleton (e : Expr) : gatherAll own [e] = e.gather own := by
  rw [gatherAll_cons, gatherAll_nil, List.append_nil]

/-- Two lists, one after the other. -/
@[simp] theorem gatherAll_append (es fs : List Expr) :
    gatherAll own (es ++ fs) = gatherAll own es ++ gatherAll own fs := by
  induction es with
  | nil => rfl
  | cons e es ih => rw [List.cons_append, gatherAll_cons, gatherAll_cons, ih, List.append_assoc]

/-- No definitions give nothing. -/
@[simp] theorem gatherDefs_nil : gatherDefs own [] = [] := rfl

/-- The first value before the others. -/
@[simp] theorem gatherDefs_cons (d : VarId × Expr) (ds : List (VarId × Expr)) :
    gatherDefs own (d :: ds) = d.2.gather own ++ gatherDefs own ds := by
  obtain ⟨v, e⟩ := d
  show (e.walk ++ walkDefs ds).flatMap own = _
  rw [List.flatMap_append]
  rfl

end

/-- Where there is nothing at any node, there is nothing in the tree. -/
@[simp] theorem gather_none (e : Expr) : e.gather (fun _ => ([] : List α)) = [] := by
  simp [gather]

/-- Where nodes give nothing, trees give nothing. -/
@[simp] theorem gatherAll_none (es : List Expr) :
    gatherAll (fun _ => ([] : List α)) es = [] := by
  simp [gatherAll]

/-- The variables an expression mentions itself. -/
def ownVars : Expr → List VarId
  | ident _ (.var v) => [v]
  | letIn _ defs _ => defs.map Prod.fst
  | _ => []

/-- The variables an expression declares itself. -/
def ownDeclared : Expr → List VarId
  | letIn _ defs _ => defs.map Prod.fst
  | _ => []

/-- The binding of a type test. -/
def ownTests : Expr → List BindingId
  | typeTest _ _ pattern => [pattern.binding]
  | _ => []

/-- The variables mentioned in an expression. -/
def vars (e : Expr) : List VarId := e.gather ownVars

/-- The variables declared in an expression, all with a value. -/
def declared (e : Expr) : List VarId := e.gather ownDeclared

/-- The bindings of the type tests in an expression. -/
def tests (e : Expr) : List BindingId := e.gather ownTests

section

variable (i : ExprInfo)

/-- The type tests are spelt `e.tests`. -/
@[simp] theorem gather_ownTests (e : Expr) : e.gather ownTests = e.tests := rfl

@[simp] theorem tests_literal (v : Literal) : (literal i v).tests = [] := gather_literal ownTests i v

@[simp] theorem tests_ident (sym : Sym) : (ident i sym).tests = [] := gather_ident ownTests i sym

@[simp] theorem tests_unary (op : UnOp) (e : Expr) : (unary i op e).tests = e.tests :=
  gather_unary ownTests i op e

/-- Operands test from left to right. -/
@[simp] theorem tests_binary (op : BinOp) (l r : Expr) : (binary i op l r).tests = l.tests ++ r.tests :=
  gather_binary ownTests i op l r

@[simp] theorem tests_conditional (c y n : Expr) :
    (conditional i c y n).tests = c.tests ++ (y.tests ++ n.tests) :=
  gather_conditional ownTests i c y n

@[simp] theorem tests_assign (t v : Expr) : (assign i t v).tests = t.tests ++ v.tests :=
  gather_assign ownTests i t v

@[simp] theorem tests_cast (t : Ty) (e : Expr) : (cast i t e).tests = e.tests :=
  gather_cast ownTests i t e

@[simp] theorem tests_instanceOf (e : Expr) (t : Ty) : (instanceOf i e t).tests = e.tests :=
  gather_instanceOf ownTests i e t

/-- A pattern tests for its own binding, then its operand does. -/
@[simp] theorem tests_typeTest (e : Expr) (p : BindingPattern) :
    (typeTest i e p).tests = p.binding :: e.tests :=
  gather_typeTest ownTests i e p

@[simp] theorem tests_call (f : String) (es : List Expr) : (call i f es).tests = gatherAll ownTests es :=
  gather_call ownTests i f es

@[simp] theorem tests_methodCall (e : Expr) (f : String) (es : List Expr) :
    (methodCall i e f es).tests = e.tests ++ gatherAll ownTests es :=
  gather_methodCall ownTests i e f es

/-- The definitions of a let-expression test before its body does. -/
@[simp] theorem tests_letIn (ds : List (VarId × Expr)) (b : Expr) :
    (letIn i ds b).tests = gatherDefs ownTests ds ++ b.tests :=
  gather_letIn ownTests i ds b

end

end Expr

/-! ## §2. Statements. -/

namespace Stmt

/-- What `ownS` finds at the statements and `ownE` in the expressions of a statement. -/
def gather (ownS : Stmt → List α) (ownE : Expr → List α) (s : Stmt) : List α :=
  s.walk.flatMap fun t => ownS t ++ Expr.gatherAll ownE t.ownExprs

/-- What the nodes of several statements give. -/
def gatherAll (ownS : Stmt → List α) (ownE : Expr → List α) (ss : List Stmt) : List α :=
  (walkAll ss).flatMap fun t => ownS t ++ Expr.gatherAll ownE t.ownExprs

/-- What a branch gives that may be missing. -/
def gatherOpt (ownS : Stmt → List α) (ownE : Expr → List α) (s : Option Stmt) : List α :=
  (walkOpt s).flatMap fun t => ownS t ++ Expr.gatherAll ownE t.ownExprs

section

variable (ownS : Stmt → List α) (ownE : Expr → List α) (i : StmtInfo)

/-- What is found in a statement: at itself, in its own expressions, and at the statements
below it. -/
theorem gather_node (s : Stmt) (es : List Expr) (below : List Stmt) (hown : s.ownExprs = es)
    (hwalk : s.walk = s :: below) :
    s.gather ownS ownE = ownS s ++ (Expr.gatherAll ownE es
      ++ below.flatMap fun t => ownS t ++ Expr.gatherAll ownE t.ownExprs) := by
  subst hown
  show List.flatMap _ s.walk = _
  rw [hwalk, List.flatMap_cons, List.append_assoc]

/-- A statement that is an expression. -/
@[simp] theorem gather_expr (e : Expr) :
    (expr i e).gather ownS ownE = ownS (expr i e) ++ e.gather ownE := by
  rw [gather_node ownS ownE (expr i e) [e] [] rfl rfl, Expr.gatherAll_singleton, List.flatMap_nil,
    List.append_nil]

/-- A declaration, with its value if it has one. -/
@[simp] theorem gather_decl (v : VarId) (e : Option Expr) :
    (decl i v e).gather ownS ownE = ownS (decl i v e) ++ Expr.gatherAll ownE e.toList := by
  rw [gather_node ownS ownE (decl i v e) e.toList [] rfl rfl, List.flatMap_nil, List.append_nil]

/-- A block, then its statements. -/
@[simp] theorem gather_block (ss : List Stmt) :
    (block i ss).gather ownS ownE = ownS (block i ss) ++ gatherAll ownS ownE ss :=
  gather_node ownS ownE (block i ss) [] (walkAll ss) rfl rfl

/-- The condition stands before both branches. -/
@[simp] theorem gather_ifElse (c : Expr) (y : Stmt) (n : Option Stmt) :
    (ifElse i c y n).gather ownS ownE
      = ownS (ifElse i c y n)
        ++ (c.gather ownE ++ (y.gather ownS ownE ++ gatherOpt ownS ownE n)) := by
  rw [gather_node ownS ownE (ifElse i c y n) [c] (y.walk ++ walkOpt n) rfl rfl,
    Expr.gatherAll_singleton, List.flatMap_append]
  rfl

@[simp] theorem gather_whileDo (c : Expr) (b : Stmt) :
    (whileDo i c b).gather ownS ownE
      = ownS (whileDo i c b) ++ (c.gather ownE ++ b.gather ownS ownE) := by
  rw [gather_node ownS ownE (whileDo i c b) [c] b.walk rfl rfl, Expr.gatherAll_singleton]
  rfl

@[simp] theorem gather_doWhile (b : Stmt) (c : Expr) :
    (doWhile i b c).gather ownS ownE
      = ownS (doWhile i b c) ++ (c.gather ownE ++ b.gather ownS ownE) := by
  rw [gather_node ownS ownE (doWhile i b c) [c] b.walk rfl rfl, Expr.gatherAll_singleton]
  rfl

/-- The expressions of a `for` stand before its statements. -/
@[simp] theorem gather_forDo (ss : List Stmt) (c : Option Expr) (es : List Expr) (b : Stmt) :
    (forDo i ss c es b).gather ownS ownE
      = ownS (forDo i ss c es b) ++ (Expr.gatherAll ownE c.toList ++ (Expr.gatherAll ownE es
        ++ (gatherAll ownS ownE ss ++ b.gather ownS ownE))) := by
  rw [gather_node ownS ownE (forDo i ss c es b) (c.toList ++ es) (walkAll ss ++ b.walk) rfl rfl,
    Expr.gatherAll_append, List.flatMap_append, List.append_assoc (Expr.gatherAll ownE c.toList)]
  rfl

@[simp] theorem gather_labeled (l : String) (b : Stmt) :
    (labeled i l b).gather ownS ownE = ownS (labeled i l b) ++ b.gather ownS ownE :=
  gather_node ownS ownE (labeled i l b) [] b.walk rfl rfl

@[simp] theorem gather_ret (e : Option Expr) :
    (ret i e).gather ownS ownE = ownS (ret i e) ++ Expr.gatherAll ownE e.toList := by
  rw [gather_node ownS ownE (ret i e) e.toList [] rfl rfl, List.flatMap_nil, List.append_nil]

@[simp] theorem gather_brk (l : Option String) :
    (brk i l).gather ownS ownE = ownS (brk i l) :=
  (gather_node ownS ownE (brk i l) [] [] rfl rfl).trans (List.append_nil _)

@[simp] theorem gather_cont (l : Option String) :
    (cont i l).gather ownS ownE = ownS (cont i l) :=
  (gather_node ownS ownE (cont i l) [] [] rfl rfl).trans (List.append_nil _)

/-- No statements give nothing. -/
@[simp] theorem gatherAll_nil : gatherAll ownS ownE [] = [] := rfl

/-- The first statement before the others. -/
@[simp] theorem gatherAll_cons (s : Stmt) (ss : List Stmt) :
    gatherAll ownS ownE (s :: ss) = s.gather ownS ownE ++ gatherAll ownS ownE ss := by
  show List.flatMap _ (s.walk ++ walkAll ss) = _
  rw [List.flatMap_append]
  rfl

/-- Two lists, one after the other. -/
@[simp] theorem gatherAll_append (ss ts : List Stmt) :
    gatherAll ownS ownE (ss ++ ts) = gatherAll ownS ownE ss ++ gatherAll ownS ownE ts := by
  induction ss with
  | nil => rfl
  | cons s ss ih => rw [List.cons_append, gatherAll_cons, gatherAll_cons, ih, List.append_assoc]

/-- A branch that is missing gives nothing. -/
@[simp] theorem gatherOpt_none : gatherOpt ownS ownE none = [] := rfl

/-- A branch that is there gives what it gives. -/
@[simp] theorem gatherOpt_some (s : Stmt) :
    gatherOpt ownS ownE (some s) = s.gather ownS ownE := rfl

end

/-- The variable a statement declares itself. -/
def ownVars : Stmt → List VarId
  | decl _ v _ => [v]
  | _ => []

/-- The variable a statement declares itself with a value. -/
def ownDeclared : Stmt → List VarId
  | decl _ v (some _) => [v]
  | _ => []

/-- The variable a statement declares itself without a value. -/
def ownValueless : Stmt → List VarId
  | decl _ v none => [v]
  | _ => []

/-- The variables mentioned in a statement. -/
def vars (s : Stmt) : List VarId := s.gather ownVars Expr.ownVars

/-- The variables declared with a value in a statement, by local variables and
by let-expressions. -/
def declared (s : Stmt) : List VarId := s.gather ownDeclared Expr.ownDeclared

/-- The local variables declared without a value in a statement. -/
def valueless (s : Stmt) : List VarId := s.gather ownValueless fun _ => []

/-- The bindings of the type tests in a statement. -/
def tests (s : Stmt) : List BindingId := s.gather (fun _ => []) Expr.ownTests

section

variable (i : StmtInfo)

/-- The tests of a statement are in its expressions. -/
@[simp] theorem gather_ownTests (s : Stmt) : s.gather (fun _ => []) Expr.ownTests = s.tests := rfl

@[simp] theorem tests_expr (e : Expr) : (expr i e).tests = e.tests :=
  gather_expr (fun _ => []) Expr.ownTests i e

@[simp] theorem tests_decl (v : VarId) (e : Option Expr) :
    (decl i v e).tests = Expr.gatherAll Expr.ownTests e.toList :=
  gather_decl (fun _ => []) Expr.ownTests i v e

@[simp] theorem tests_block (ss : List Stmt) :
    (block i ss).tests = gatherAll (fun _ => []) Expr.ownTests ss :=
  gather_block (fun _ => []) Expr.ownTests i ss

/-- The condition tests before the branches do. -/
@[simp] theorem tests_ifElse (c : Expr) (y : Stmt) (n : Option Stmt) :
    (ifElse i c y n).tests = c.tests ++ (y.tests ++ gatherOpt (fun _ => []) Expr.ownTests n) :=
  gather_ifElse (fun _ => []) Expr.ownTests i c y n

@[simp] theorem tests_whileDo (c : Expr) (b : Stmt) : (whileDo i c b).tests = c.tests ++ b.tests :=
  gather_whileDo (fun _ => []) Expr.ownTests i c b

@[simp] theorem tests_doWhile (b : Stmt) (c : Expr) : (doWhile i b c).tests = c.tests ++ b.tests :=
  gather_doWhile (fun _ => []) Expr.ownTests i b c

/-- The test and the steps of a `for` come before what begins it. -/
@[simp] theorem tests_forDo (ss : List Stmt) (c : Option Expr) (es : List Expr) (b : Stmt) :
    (forDo i ss c es b).tests = Expr.gatherAll Expr.ownTests c.toList
      ++ (Expr.gatherAll Expr.ownTests es ++ (gatherAll (fun _ => []) Expr.ownTests ss ++ b.tests)) :=
  gather_forDo (fun _ => []) Expr.ownTests i ss c es b

@[simp] theorem tests_labeled (l : String) (b : Stmt) : (labeled i l b).tests = b.tests :=
  gather_labeled (fun _ => []) Expr.ownTests i l b

@[simp] theorem tests_ret (e : Option Expr) : (ret i e).tests = Expr.gatherAll Expr.ownTests e.toList :=
  gather_ret (fun _ => []) Expr.ownTests i e

@[simp] theorem tests_brk (l : Option String) : (brk i l).tests = [] :=
  gather_brk (fun _ => []) Expr.ownTests i l

@[simp] theorem tests_cont (l : Option String) : (cont i l).tests = [] :=
  gather_cont (fun _ => []) Expr.ownTests i l

end

end Stmt

end PatternIR
