/-
  PatternIR.Proofs.Lowering.Consulted
  ───────────────────────────────────
  **WHAT THE ORACLE IS ASKED.**

  The pass asks about the conditions of the source and about nothing else, and
  it asks before it takes a condition apart: what it rebuilds, and the nodes it
  makes, are never put to the oracle.  Two oracles that answer alike about

      e && …   e || …   e ? … : …          the left operand, the condition
      if (e)   while (e)   do … while (e)   for (…; e; …)

  are therefore the same to it, node by node: each step of the pass is the
  same computation, with the same effect on symbols, stack and ids, and the
  same error.

    • `Expr.conditions`, `Stmt.conditions`, `Program.conditions` — the conditions;
    • `Oracle.AgreesOn` — the same answers about some expressions;
    • `lowerExpr_consults`, `lowerParts_consults` — the same computation;
    • `Program.lower_consults` — the same result.
-/
import PatternIR.Proofs.Lowering.Nodes

namespace PatternIR

/-! ## §1. The conditions of a tree. -/

namespace Expr

/-- The condition on which an expression evaluates its further operands. -/
def ownConditions : Expr → List Expr
  | binary _ .and left _ => [left]
  | binary _ .or left _ => [left]
  | conditional _ cond _ _ => [cond]
  | _ => []

/-- The conditions in an expression. -/
def conditions (e : Expr) : List Expr := e.gather ownConditions

end Expr

namespace Stmt

/-- The condition on which a statement runs its parts. -/
def ownConditions : Stmt → List Expr
  | ifElse _ cond _ _ => [cond]
  | whileDo _ cond _ => [cond]
  | doWhile _ _ cond => [cond]
  | forDo _ _ cond _ _ => cond.toList
  | _ => []

/-- The conditions in a statement, those in its expressions among them. -/
def conditions (s : Stmt) : List Expr := s.gather ownConditions Expr.ownConditions

end Stmt

/-- The conditions in the methods of a class. -/
def Class.conditions (c : Class) : List Expr :=
  c.methods.flatMap fun m => Stmt.gatherOpt Stmt.ownConditions Expr.ownConditions m.body

/-- The conditions in a program. -/
def Program.conditions (p : Program) : List Expr := p.classes.flatMap Class.conditions

/-- Two oracles list the same bindings and leave the same table, whatever table
they are asked on, for every one of some expressions. -/
def Oracle.AgreesOn (conds : List Expr) (flow flow' : Oracle) : Prop :=
  ∀ c ∈ conds, ∀ (outcome : Bool) (s : Symbols), flow c outcome s = flow' c outcome s

namespace Oracle

variable {flow flow' : Oracle}

/-- Two lists of conditions are agreed on together. -/
@[simp] theorem agreesOn_append {cs ds : List Expr} :
    AgreesOn (cs ++ ds) flow flow' ↔ AgreesOn cs flow flow' ∧ AgreesOn ds flow flow' :=
  List.forall_mem_append

/-- One condition is agreed on if it is answered alike. -/
@[simp] theorem agreesOn_singleton {c : Expr} : AgreesOn [c] flow flow' ↔ flow c = flow' c := by
  unfold AgreesOn
  rw [List.forall_mem_singleton]
  exact ⟨fun h => funext₂ h, fun h outcome s => by rw [h]⟩

/-- Then it is answered alike for both outcomes at once. -/
theorem all_congr {c : Expr} (h : flow c = flow' c) : flow.all c = flow'.all c := by
  funext s
  simp only [all, h]

end Oracle

namespace Lowering

variable {flow flow' : Oracle} (hierarchy : Hierarchy)

/-! ## §2. Expressions. -/

/-- Only the operators that may skip their right operand ask about the left one. -/
theorem operandFacts_consults {i : ExprInfo} {op : BinOp} {l r : Expr}
    (h : Oracle.AgreesOn (Expr.ownConditions (.binary i op l r)) flow flow') :
    operandFacts flow op l = operandFacts flow' op l := by
  cases op with
  | and | or =>
      -- they ask about one outcome only; the two oracles agree on both
      have hleft : flow l = flow' l := Oracle.agreesOn_singleton.mp h
      simp only [operandFacts, hleft]
  | _ => rfl

mutual
/-- **Expressions.**  The oracle is asked about a condition as it stands in the
source, before its parts are lowered. -/
theorem lowerExpr_consults : ∀ (e : Expr), Oracle.AgreesOn e.conditions flow flow' →
    lowerExpr ⟨hierarchy, flow⟩ e = lowerExpr ⟨hierarchy, flow'⟩ e
  | .ident _ (.binding _), _ | .ident _ (.var _), _ | .literal _ _, _ => rfl
  | .unary i op e, h => by
      simp only [Expr.conditions, Expr.gather_unary, Oracle.agreesOn_append] at h
      simp only [lowerExpr, lowerExpr_consults e h.2]
  | .binary i op l r, h => by
      simp only [Expr.conditions, Expr.gather_binary, Oracle.agreesOn_append] at h
      simp only [lowerExpr, operandFacts_consults h.1, lowerExpr_consults l h.2.1,
        lowerExpr_consults r h.2.2]
  | .conditional i c y n, h => by
      simp only [Expr.conditions, Expr.gather_conditional, Oracle.agreesOn_append] at h
      have hall := Oracle.all_congr (Oracle.agreesOn_singleton.mp h.1)
      simp only [lowerExpr, hall, lowerExpr_consults c h.2.1, lowerExpr_consults y h.2.2.1,
        lowerExpr_consults n h.2.2.2]
  | .assign i t v, h => by
      simp only [Expr.conditions, Expr.gather_assign, Oracle.agreesOn_append] at h
      simp only [lowerExpr, lowerExpr_consults t h.2.1, lowerExpr_consults v h.2.2]
  | .cast i t e, h => by
      simp only [Expr.conditions, Expr.gather_cast, Oracle.agreesOn_append] at h
      simp only [lowerExpr, lowerExpr_consults e h.2]
  | .instanceOf i e t, h => by
      simp only [Expr.conditions, Expr.gather_instanceOf, Oracle.agreesOn_append] at h
      simp only [lowerExpr, lowerExpr_consults e h.2]
  | .typeTest i e pattern, h => by
      simp only [Expr.conditions, Expr.gather_typeTest, Oracle.agreesOn_append] at h
      simp only [lowerExpr, lowerExpr_consults e h.2]
      -- how a test is built depends on the hierarchy only
      rfl
  | .call i f args, h => by
      simp only [Expr.conditions, Expr.gather_call, Oracle.agreesOn_append] at h
      simp only [lowerExpr, lowerExprs_consults args h.2]
  | .methodCall i e f args, h => by
      simp only [Expr.conditions, Expr.gather_methodCall, Oracle.agreesOn_append] at h
      simp only [lowerExpr, lowerExpr_consults e h.2.1, lowerExprs_consults args h.2.2]
  | .letIn i defs body, h => by
      simp only [Expr.conditions, Expr.gather_letIn, Oracle.agreesOn_append] at h
      simp only [lowerExpr, lowerDefs_consults defs h.2.1, lowerExpr_consults body h.2.2]
theorem lowerExprs_consults : ∀ (es : List Expr),
    Oracle.AgreesOn (Expr.gatherAll Expr.ownConditions es) flow flow' →
      lowerExprs ⟨hierarchy, flow⟩ es = lowerExprs ⟨hierarchy, flow'⟩ es
  | [], _ => rfl
  | e :: es, h => by
      simp only [Expr.gatherAll_cons, Oracle.agreesOn_append] at h
      simp only [lowerExprs, lowerExpr_consults e h.1, lowerExprs_consults es h.2]
theorem lowerDefs_consults : ∀ (ds : List (VarId × Expr)),
    Oracle.AgreesOn (Expr.gatherDefs Expr.ownConditions ds) flow flow' →
      lowerDefs ⟨hierarchy, flow⟩ ds = lowerDefs ⟨hierarchy, flow'⟩ ds
  | [], _ => rfl
  | (_, e) :: ds, h => by
      simp only [Expr.gatherDefs_cons, Oracle.agreesOn_append] at h
      simp only [lowerDefs, lowerExpr_consults e h.1, lowerDefs_consults ds h.2]
end

theorem lowerExpr?_consults (e : Option Expr)
    (h : Oracle.AgreesOn (Expr.gatherAll Expr.ownConditions e.toList) flow flow') :
    lowerExpr? ⟨hierarchy, flow⟩ e = lowerExpr? ⟨hierarchy, flow'⟩ e := by
  cases e with
  | none => rfl
  | some e =>
      simp only [Option.toList_some, Expr.gatherAll_singleton] at h
      simp only [lowerExpr?, lowerExpr_consults hierarchy e h]

/-! ## §3. Statements. -/

/-- The facts of a condition that may be missing. -/
theorem condFacts?_consults (c : Option Expr) (h : Oracle.AgreesOn c.toList flow flow') :
    condFacts? flow c = condFacts? flow' c := by
  cases c with
  | none => rfl
  | some c =>
      simp only [condFacts?, Oracle.all_congr (Oracle.agreesOn_singleton.mp h)]

mutual
/-- **Statements.**  The condition of a loop is asked about before its body is
lowered, in front of the body or behind it. -/
theorem lowerParts_consults : ∀ (s : Stmt), Oracle.AgreesOn s.conditions flow flow' →
    lowerParts ⟨hierarchy, flow⟩ s = lowerParts ⟨hierarchy, flow'⟩ s
  | .brk _ _, _ | .cont _ _, _ => rfl
  | .expr i e, h => by
      simp only [Stmt.conditions, Stmt.gather_expr, Oracle.agreesOn_append] at h
      simp only [lowerParts, lowerExpr_consults hierarchy e h.2]
  | .decl i v e, h => by
      simp only [Stmt.conditions, Stmt.gather_decl, Oracle.agreesOn_append] at h
      simp only [lowerParts, lowerExpr?_consults hierarchy e h.2]
  | .ret i e, h => by
      simp only [Stmt.conditions, Stmt.gather_ret, Oracle.agreesOn_append] at h
      simp only [lowerParts, lowerExpr?_consults hierarchy e h.2]
  | .block i ss, h => by
      simp only [Stmt.conditions, Stmt.gather_block, Oracle.agreesOn_append] at h
      simp only [lowerParts, lowerBlock_consults ss h.2]
  | .ifElse i c y n, h => by
      simp only [Stmt.conditions, Stmt.gather_ifElse, Oracle.agreesOn_append] at h
      have hall := Oracle.all_congr (Oracle.agreesOn_singleton.mp h.1)
      simp only [lowerParts, hall, lowerExpr_consults hierarchy c h.2.1,
        lowerParts_consults y h.2.2.1, lowerStmt?_consults n h.2.2.2]
  | .whileDo i c b, h => by
      simp only [Stmt.conditions, Stmt.gather_whileDo, Oracle.agreesOn_append] at h
      have hall := Oracle.all_congr (Oracle.agreesOn_singleton.mp h.1)
      simp only [lowerParts, hall, lowerExpr_consults hierarchy c h.2.1,
        lowerParts_consults b h.2.2]
  | .doWhile i b c, h => by
      simp only [Stmt.conditions, Stmt.gather_doWhile, Oracle.agreesOn_append] at h
      have hall := Oracle.all_congr (Oracle.agreesOn_singleton.mp h.1)
      simp only [lowerParts, hall, lowerExpr_consults hierarchy c h.2.1,
        lowerParts_consults b h.2.2]
  | .forDo i ss c es b, h => by
      simp only [Stmt.conditions, Stmt.gather_forDo, Oracle.agreesOn_append] at h
      simp only [lowerParts, condFacts?_consults c h.1, lowerExpr?_consults hierarchy c h.2.1,
        lowerExprs_consults hierarchy es h.2.2.1, lowerStmts_consults ss h.2.2.2.1,
        lowerParts_consults b h.2.2.2.2]
  | .labeled i l b, h => by
      simp only [Stmt.conditions, Stmt.gather_labeled, Oracle.agreesOn_append] at h
      simp only [lowerParts, lowerParts_consults b h.2]
/-- The same of a block. -/
theorem lowerBlock_consults : ∀ (ss : List Stmt),
    Oracle.AgreesOn (Stmt.gatherAll Stmt.ownConditions Expr.ownConditions ss) flow flow' →
      lowerBlock ⟨hierarchy, flow⟩ ss = lowerBlock ⟨hierarchy, flow'⟩ ss
  | [], _ => rfl
  | s :: ss, h => by
      simp only [Stmt.gatherAll_cons, Oracle.agreesOn_append] at h
      simp only [lowerBlock, lowerParts_consults s h.1, lowerBlock_consults ss h.2]
theorem lowerStmts_consults : ∀ (ss : List Stmt),
    Oracle.AgreesOn (Stmt.gatherAll Stmt.ownConditions Expr.ownConditions ss) flow flow' →
      lowerStmts ⟨hierarchy, flow⟩ ss = lowerStmts ⟨hierarchy, flow'⟩ ss
  | [], _ => rfl
  | s :: ss, h => by
      simp only [Stmt.gatherAll_cons, Oracle.agreesOn_append] at h
      simp only [lowerStmts, lowerParts_consults s h.1, lowerStmts_consults ss h.2]
theorem lowerStmt?_consults : ∀ (s : Option Stmt),
    Oracle.AgreesOn (Stmt.gatherOpt Stmt.ownConditions Expr.ownConditions s) flow flow' →
      lowerStmt? ⟨hierarchy, flow⟩ s = lowerStmt? ⟨hierarchy, flow'⟩ s
  | none, _ => rfl
  | some s, h => by
      simp only [Stmt.gatherOpt_some] at h
      simp only [lowerStmt?, lowerParts_consults s h]
end

/-! ## §4. Programs. -/

/-- The same of methods one after the other. -/
theorem lowerMethods_consults : ∀ (ms : List Method),
    Oracle.AgreesOn (ms.flatMap fun m => Stmt.gatherOpt Stmt.ownConditions Expr.ownConditions m.body)
      flow flow' → lowerMethods ⟨hierarchy, flow⟩ ms = lowerMethods ⟨hierarchy, flow'⟩ ms
  | [], _ => rfl
  | m :: ms, h => by
      simp only [List.flatMap_cons, Oracle.agreesOn_append] at h
      simp only [lowerMethods, lowerMethod, lowerStmt?_consults hierarchy m.body h.1,
        lowerMethods_consults ms h.2]

/-- The same of a class. -/
theorem lowerClass_consults (c : Class) (h : Oracle.AgreesOn c.conditions flow flow') :
    lowerClass ⟨hierarchy, flow⟩ c = lowerClass ⟨hierarchy, flow'⟩ c := by
  simp only [lowerClass, lowerMethods_consults hierarchy c.methods h]

/-- Class after class: the later ones start on the same table. -/
theorem lowerClasses_consults : ∀ (cs : List Class) (s : Symbols),
    Oracle.AgreesOn (cs.flatMap Class.conditions) flow flow' →
      lowerClasses ⟨hierarchy, flow⟩ cs s = lowerClasses ⟨hierarchy, flow'⟩ cs s
  | [], _, _ => rfl
  | c :: cs, s, h => by
      simp only [List.flatMap_cons, Oracle.agreesOn_append] at h
      -- for every table, since the one that the class leaves is not known here
      have hrest := fun s => lowerClasses_consults cs s h.2
      simp only [lowerClasses, lowerClass_consults hierarchy c h.1, hrest]

end Lowering

/-- **Only the conditions of the source are consulted.**  With two oracles that
agree on them, and may disagree on every other expression, lowering gets as far
with one as with the other: the same classes, the same symbols, the same error. -/
theorem Program.lower_consults (p : Program) (flow flow' : Oracle)
    (h : ∀ c ∈ p.conditions, ∀ (outcome : Bool) (s : Symbols),
      flow c outcome s = flow' c outcome s) :
    p.lowerClasses flow = p.lowerClasses flow' ∧ p.lower flow = p.lower flow' := by
  have hclasses : p.lowerClasses flow = p.lowerClasses flow' :=
    Lowering.lowerClasses_consults p.hierarchy p.classes p.symbols h
  refine ⟨hclasses, ?_⟩
  simp only [Program.lower, hclasses]

namespace Lowering

/-- The structural oracle, except that it forgets what a type test binds when
it is asked about the test itself. -/
def Guarded.forgetful : Oracle := Oracle.byNode [(2, [], [])] Flow.matchBindings

/-- The guard negates its test.  The oracle is asked about the negation only, so
the storage of `s` is found although the test binds nothing. -/
theorem lower_consults_guarded :
    (∀ s, Guarded.forgetful Guarded.test true s ≠ Flow.matchBindings Guarded.test true s)
      ∧ (∀ c ∈ Guarded.program.conditions, ∀ (outcome : Bool) (s : Symbols),
        Flow.matchBindings c outcome s = Guarded.forgetful c outcome s)
      ∧ (Guarded.program.lower Guarded.forgetful).isOk
      ∧ Guarded.program.lower Flow.matchBindings = Guarded.program.lower Guarded.forgetful := by
  have hagree : ∀ c ∈ Guarded.program.conditions, ∀ (outcome : Bool) (s : Symbols),
      Flow.matchBindings c outcome s = Guarded.forgetful c outcome s := by
    intro c hc outcome s
    have hconds : Guarded.program.conditions
        = [.unary ⟨3, .boolean, .nowhere⟩ .not Guarded.test] := rfl
    rw [hconds, List.mem_singleton] at hc
    subst hc
    rfl
  have hsame := (Program.lower_consults Guarded.program Flow.matchBindings Guarded.forgetful hagree).2
  have hok : (Guarded.program.lower Flow.matchBindings).isOk = true := by decide +kernel
  refine ⟨fun s h => ?_, hagree, hsame ▸ hok, hsame⟩
  have hlists : ([] : List BindingId) = [⟨0⟩] := congrArg Prod.fst h
  exact List.cons_ne_nil _ _ hlists.symm

end Lowering

end PatternIR
