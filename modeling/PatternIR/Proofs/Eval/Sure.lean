/-
  PatternIR.Proofs.Eval.Sure
  ──────────────────────────
  **READS THAT COME AFTER AN ASSIGNMENT.**

  Whether a variable has been assigned where it is read, can be told from the
  text: it stays assigned until it is declared again, the outcome of a
  condition can show that an assignment in it was evaluated, and a statement
  that completes only by such an outcome leaves the variable assigned.

      (t instanceof T && (x = (T) t) == (T) t) ? f(x) : g()

    • `Expr.Fixes` — an outcome after which the variable has been assigned;
    • `Stmt.Settles` — a statement behind which it has;
    • `Expr.Sure`, `Stmt.Sure` — each read stands where it has;
    • `Expr.Fixes.assigned`, `Stmt.Settles.assigned` — what is told is true.
-/
import PatternIR.Proofs.Eval.Assigned
import PatternIR.Proofs.Flow.Escapes

namespace PatternIR

variable {ω α β : Type}

/-! ## §1. What has been assigned. -/

namespace Expr

/-- An assignment to the variable, with or without casts around it. -/
def Stores (v : VarId) : Expr → Prop
  | assign _ (ident _ sym) _ => sym = .var v
  | cast _ _ e => e.Stores v
  | _ => False

/-- Once the expression has come out as `o`, the variable has been assigned. -/
def Fixes (v : VarId) : Expr → (o : Bool) → Prop
  | unary _ .not e, o => e.Fixes v (!o)
  | binary _ op l r, o =>
    match op, o with
    | .and, true | .or, false => (l.Fixes v o ∧ v ∉ r.declared) ∨ r.Fixes v o
    | .and, false | .or, true => l.Fixes v o ∧ r.Fixes v o
    | _, _ => l.Stores v ∧ v ∉ r.declared
  | letIn _ _ body, o => body.Fixes v o
  | _, _ => False

/-- Whether the variable has been assigned behind the expression, from whether
it has before. -/
def After (v : VarId) (k : Prop) (e : Expr) : Prop := k ∧ v ∉ e.declared

/-- Whether the variable has been assigned once a condition has come out. -/
def When (v : VarId) (k : Prop) (c : Expr) (o : Bool) : Prop := c.After v k ∨ c.Fixes v o

/-- Whether the variable has been assigned where the right operand is evaluated. -/
def Between (v : VarId) (k : Prop) : (op : BinOp) → (left : Expr) → Prop
  | .and, l => l.When v k true
  | .or, l => l.When v k false
  | _, l => l.After v k

/-- Whether the variable has been assigned once a loop has passed its test, if it has one. -/
def Passed (v : VarId) (k : Prop) : Option Expr → Prop
  | none => k
  | some c => c.When v k true

mutual
/-- Each read of the variable at a node of `T` stands where the variable has
been assigned; `k` tells whether it has before. -/
def Sure (v : VarId) (T : ExprInfo → Prop) : (k : Prop) → Expr → Prop
  | k, ident i sym => sym = .var v → T i → k
  | _, literal _ _ => True
  | k, unary _ _ e | k, cast _ _ e | k, instanceOf _ e _ | k, typeTest _ e _ => e.Sure v T k
  | k, binary _ op l r => l.Sure v T k ∧ r.Sure v T (Between v k op l)
  | k, conditional _ c y n =>
    c.Sure v T k ∧ y.Sure v T (c.When v k true) ∧ n.Sure v T (c.When v k false)
  | k, assign _ _ e => e.Sure v T k
  | k, call _ _ es => SureAll v T k es
  | k, methodCall _ e _ es => e.Sure v T k ∧ SureAll v T (e.After v k) es
  | k, letIn _ ds b =>
    SureDefs v T k ds ∧ b.Sure v T (k ∧ v ∉ ds.map Prod.fst ∧ v ∉ gatherDefs ownDeclared ds)
/-- The same of expressions that are evaluated one after the other. -/
def SureAll (v : VarId) (T : ExprInfo → Prop) : (k : Prop) → List Expr → Prop
  | _, [] => True
  | k, e :: es => e.Sure v T k ∧ SureAll v T (e.After v k) es
/-- The same of definitions; each value is read before its own variable is assigned. -/
def SureDefs (v : VarId) (T : ExprInfo → Prop) : (k : Prop) → List (VarId × Expr) → Prop
  | _, [] => True
  | k, (x, e) :: ds => e.Sure v T k ∧ SureDefs v T (e.After v k ∧ v ≠ x) ds
end

end Expr

namespace Stmt

/-- A statement that completes only by an outcome which fixes the variable. -/
def Guards (v : VarId) (w : Stmt) : Prop :=
  w.completesByTest = true ∧ v ∉ w.declared
    ∧ ∃ c o, Flow.escape? w.label? w.unlabeled = some (c, o) ∧ c.Fixes v o

/-- A statement of which this is so, as it stands or last in a block. -/
def Settles (v : VarId) (w : Stmt) : Prop :=
  w.Guards v ∨ ∃ i ss last, w = block i (ss ++ [last]) ∧ last.Guards v

/-- Whether the variable has been assigned behind the statement. -/
def Behind (v : VarId) (k : Prop) (w : Stmt) : Prop := (k ∧ v ∉ w.declared) ∨ w.Settles v

mutual
/-- Each read of the variable at a node of `T` stands where the variable has
been assigned.  A loop comes back to where it began. -/
def Sure (v : VarId) (T : ExprInfo → Prop) : (k : Prop) → Stmt → Prop
  | k, expr _ e => e.Sure v T k
  | k, decl _ _ value | k, ret _ value => Expr.SureAll v T k value.toList
  | k, block _ ss => SureAll v T k ss
  | k, ifElse _ c y n =>
    c.Sure v T k ∧ y.Sure v T (c.When v k true) ∧ SureOpt v T (c.When v k false) n
  | k, whileDo i c b =>
    c.Sure v T (k ∧ v ∉ (whileDo i c b).declared)
      ∧ b.Sure v T (c.When v (k ∧ v ∉ (whileDo i c b).declared) true)
  | k, doWhile i b c =>
    b.Sure v T (k ∧ v ∉ (doWhile i b c).declared)
      ∧ c.Sure v T (k ∧ v ∉ (doWhile i b c).declared)
  | k, forDo i ss c es b =>
    SureAll v T k ss ∧ Expr.SureAll v T (k ∧ v ∉ (forDo i ss c es b).declared) c.toList
      ∧ Expr.SureAll v T (Expr.Passed v (k ∧ v ∉ (forDo i ss c es b).declared) c ∧ v ∉ b.declared) es
      ∧ b.Sure v T (Expr.Passed v (k ∧ v ∉ (forDo i ss c es b).declared) c)
  | k, labeled _ _ b => b.Sure v T k
  | _, brk _ _ | _, cont _ _ => True
/-- The same of statements, each with what is behind the ones before it. -/
def SureAll (v : VarId) (T : ExprInfo → Prop) : (k : Prop) → List Stmt → Prop
  | _, [] => True
  | k, s :: ss => s.Sure v T k ∧ SureAll v T (s.Behind v k) ss
/-- The same of a branch that may be missing. -/
def SureOpt (v : VarId) (T : ExprInfo → Prop) : (k : Prop) → Option Stmt → Prop
  | _, none => True
  | k, some s => s.Sure v T k
end

end Stmt

/-! ## §2. Fewer nodes. -/

namespace Expr

/-- The node of a reference to the variable. -/
def ownReads (v : VarId) : Expr → List ExprInfo
  | ident i (.var x) => if x = v then [i] else []
  | _ => []

section

variable {v : VarId} {T T' : ExprInfo → Prop}

mutual
/-- What is sure of some reads is sure of fewer. -/
theorem Sure.mono : ∀ {e : Expr} {k : Prop}, e.Sure v T k →
    (∀ i ∈ e.gather (ownReads v), T' i → T i) → e.Sure v T' k
  | ident i sym, k, h, hT => by
      intro hsym hi
      subst hsym
      exact h rfl (hT i (by simp [ownReads]) hi)
  | literal _ _, _, _, _ => trivial
  | unary _ _ e, k, h, hT | cast _ _ e, k, h, hT | instanceOf _ e _, k, h, hT
  | typeTest _ e _, k, h, hT => by
      simp only [gather_unary, gather_cast, gather_instanceOf, gather_typeTest, ownReads,
        List.nil_append] at hT
      exact Sure.mono (e := e) h hT
  | binary _ op l r, k, h, hT => by
      simp only [gather_binary, ownReads, List.nil_append, List.mem_append] at hT
      exact ⟨h.1.mono fun i hi => hT i (.inl hi), h.2.mono fun i hi => hT i (.inr hi)⟩
  | conditional _ c y n, k, h, hT => by
      simp only [gather_conditional, ownReads, List.nil_append, List.mem_append] at hT
      exact ⟨h.1.mono fun i hi => hT i (.inl hi), h.2.1.mono fun i hi => hT i (.inr (.inl hi)),
        h.2.2.mono fun i hi => hT i (.inr (.inr hi))⟩
  | assign _ t e, k, h, hT => by
      simp only [gather_assign, ownReads, List.nil_append, List.mem_append] at hT
      exact Sure.mono (e := e) h fun i hi => hT i (.inr hi)
  | call _ _ es, k, h, hT => by
      simp only [gather_call, ownReads, List.nil_append] at hT
      exact (show SureAll v T k es from h).mono hT
  | methodCall _ e _ es, k, h, hT => by
      simp only [gather_methodCall, ownReads, List.nil_append, List.mem_append] at hT
      exact ⟨h.1.mono fun i hi => hT i (.inl hi), h.2.mono fun i hi => hT i (.inr hi)⟩
  | letIn _ ds b, k, h, hT => by
      simp only [gather_letIn, ownReads, List.nil_append, List.mem_append] at hT
      exact ⟨h.1.mono fun i hi => hT i (.inl hi), h.2.mono fun i hi => hT i (.inr hi)⟩
theorem SureAll.mono : ∀ {es : List Expr} {k : Prop}, SureAll v T k es →
    (∀ i ∈ gatherAll (ownReads v) es, T' i → T i) → SureAll v T' k es
  | [], _, _, _ => trivial
  | e :: es, k, h, hT => by
      simp only [gatherAll_cons, List.mem_append] at hT
      exact ⟨h.1.mono fun i hi => hT i (.inl hi), h.2.mono fun i hi => hT i (.inr hi)⟩
theorem SureDefs.mono : ∀ {ds : List (VarId × Expr)} {k : Prop}, SureDefs v T k ds →
    (∀ i ∈ gatherDefs (ownReads v) ds, T' i → T i) → SureDefs v T' k ds
  | [], _, _, _ => trivial
  | (x, e) :: ds, k, h, hT => by
      simp only [gatherDefs_cons, List.mem_append] at hT
      exact ⟨h.1.mono fun i hi => hT i (.inl hi), h.2.mono fun i hi => hT i (.inr hi)⟩
end

end

end Expr

namespace Stmt

/-- The nodes of the references to the variable. -/
def reads (v : VarId) (w : Stmt) : List ExprInfo := w.gather (fun _ => []) (Expr.ownReads v)

section

variable {v : VarId} {T T' : ExprInfo → Prop}

mutual
/-- Reads that are sure at many nodes are sure at fewer. -/
theorem Sure.mono : ∀ {w : Stmt} {k : Prop}, w.Sure v T k →
    (∀ i ∈ w.reads v, T' i → T i) → w.Sure v T' k
  | expr _ e, k, h, hT => by
      simp only [reads, gather_expr, List.nil_append] at hT
      exact Expr.Sure.mono (e := e) h hT
  | decl _ _ e, k, h, hT => by
      simp only [reads, gather_decl, List.nil_append] at hT
      exact (show Expr.SureAll v T k e.toList from h).mono hT
  | ret _ e, k, h, hT => by
      simp only [reads, gather_ret, List.nil_append] at hT
      exact (show Expr.SureAll v T k e.toList from h).mono hT
  | block _ ss, k, h, hT => by
      simp only [reads, gather_block, List.nil_append] at hT
      exact (show SureAll v T k ss from h).mono hT
  | ifElse _ c y n, k, h, hT => by
      simp only [reads, gather_ifElse, List.nil_append, List.mem_append] at hT
      exact ⟨h.1.mono fun i hi => hT i (.inl hi), h.2.1.mono fun i hi => hT i (.inr (.inl hi)),
        h.2.2.mono fun i hi => hT i (.inr (.inr hi))⟩
  | whileDo _ c b, k, h, hT => by
      simp only [reads, gather_whileDo, List.nil_append, List.mem_append] at hT
      exact ⟨h.1.mono fun i hi => hT i (.inl hi), h.2.mono fun i hi => hT i (.inr hi)⟩
  | doWhile _ b c, k, h, hT => by
      simp only [reads, gather_doWhile, List.nil_append, List.mem_append] at hT
      exact ⟨h.1.mono fun i hi => hT i (.inr hi), h.2.mono fun i hi => hT i (.inl hi)⟩
  | forDo _ ss c es b, k, h, hT => by
      simp only [reads, gather_forDo, List.nil_append, List.mem_append] at hT
      exact ⟨h.1.mono fun i hi => hT i (.inr (.inr (.inl hi))), h.2.1.mono fun i hi => hT i (.inl hi),
        h.2.2.1.mono fun i hi => hT i (.inr (.inl hi)),
        h.2.2.2.mono fun i hi => hT i (.inr (.inr (.inr hi)))⟩
  | labeled _ _ b, k, h, hT => by
      simp only [reads, gather_labeled, List.nil_append] at hT
      exact Sure.mono (w := b) h hT
  | brk _ _, _, _, _ | cont _ _, _, _, _ => trivial
theorem SureAll.mono : ∀ {ws : List Stmt} {k : Prop}, SureAll v T k ws →
    (∀ i ∈ gatherAll (fun _ => []) (Expr.ownReads v) ws, T' i → T i) → SureAll v T' k ws
  | [], _, _, _ => trivial
  | w :: ws, k, h, hT => by
      simp only [gatherAll_cons, List.mem_append] at hT
      exact ⟨h.1.mono fun i hi => hT i (.inl hi), h.2.mono fun i hi => hT i (.inr hi)⟩
theorem SureOpt.mono : ∀ {w : Option Stmt} {k : Prop}, SureOpt v T k w →
    (∀ i ∈ gatherOpt (fun _ => []) (Expr.ownReads v) w, T' i → T i) → SureOpt v T' k w
  | none, _, _, _ => trivial
  | some w, k, h, hT => by
      simp only [gatherOpt_some] at hT
      exact Sure.mono (w := w) h hT
end

end

end Stmt

/-! ## §3. Soundness of what is told. -/

open Machine (Spares)

section

variable {setting : Setting ω} {v : VarId} {n : Nat} {m m' : Machine ω}

/-- What has been assigned and is not declared again stays assigned. -/
theorem Run.Keeps.assigned {c : Run ω α} (htraced : Keeps Machine.Traced c) (hspares : Keeps (Spares v) c)
    {a : α} (h : c m = .ok a m') (hv : m.Assigned v) : m'.Assigned v :=
  (hspares.ok h).assigned (htraced.ok h) hv

/-- An operator that is not logical evaluates both its operands. -/
theorem evalExpr_strict {i : ExprInfo} {op : BinOp} {l r : Expr} {w : Value} (hop : op.isLogical = false)
    (h : evalExpr setting n (.binary i op l r) m = .ok w m') :
    ∃ k x y m₁, evalExpr setting k l m = .ok x m₁ ∧ evalExpr setting k r m₁ = .ok y m' := by
  cases n with
  | zero => injection h
  | succ n =>
      have hboth : (evalExpr setting n l >>= fun x => evalExpr setting n r >>= fun y =>
          Run.ofExcept (evalBinary op x y (l.ty.isReference && r.ty.isReference) i.ty)) m = .ok w m' := by
        cases op with
        | and | or => exact absurd hop (by simp [BinOp.isLogical])
        | _ => exact h
      obtain ⟨x, m₁, hl, h⟩ := bind_eq_ok.mp hboth
      obtain ⟨y, m₂, hr, h⟩ := bind_eq_ok.mp h
      have hm := (Run.ofExcept_eq_ok.mp h).2
      subst hm
      exact ⟨n, x, y, m₁, hl, hr⟩

namespace Expr

variable {e : Expr} {w : Value} {k : Prop}

/-- An expression that does not declare a variable leaves it assigned. -/
theorem assigned_of_undeclared (h : evalExpr setting n e m = .ok w m') (hv : v ∉ e.declared)
    (hassigned : m.Assigned v) : m'.Assigned v :=
  ((Machine.framed_traced.kept setting n).expr e).assigned ((sparing setting v n).expr hv) h hassigned

/-- What is evaluated with an assignment to a variable has assigned it. -/
theorem Stores.assigned : ∀ {e : Expr} {n : Nat} {m m' : Machine ω} {w : Value}, e.Stores v →
    evalExpr setting n e m = .ok w m' → m'.Assigned v
  | .assign _ target e, n + 1, m, m', w, hstores, h => by
      cases target with
      | ident i sym =>
          obtain ⟨_, m₁, -, h⟩ := bind_eq_ok.mp h
          obtain ⟨u, m₂, -, h⟩ := bind_eq_ok.mp h
          obtain ⟨_, m₃, hwrite, h⟩ := bind_eq_ok.mp h
          injection h with _ h
          subst h
          unfold Stores at hstores
          subst hstores
          injection hwrite with _ hwrite
          subst hwrite
          exact ⟨_, Activation.get?_set_self _ _ _, by simp⟩
      | _ => exact nomatch hstores
  | .cast _ _ e, n + 1, m, m', w, hstores, h => by
      obtain ⟨_, m₁, he, h⟩ := bind_eq_ok.mp h
      have hm := (Run.ofExcept_eq_ok.mp h).2
      subst hm
      exact Stores.assigned (e := e) hstores he

/-- **An outcome that fixes a variable**: where it has come out, the variable has been assigned. -/
theorem Fixes.assigned : ∀ {e : Expr} {o : Bool} {n : Nat} {m m' : Machine ω}, e.Fixes v o →
    evalExpr setting n e m = .ok (.bool o) m' → m'.Assigned v
  | .unary _ .not e, o, n, m, m', hfixes, h => by
      obtain ⟨k, hk⟩ := evalExpr_not h
      exact Fixes.assigned (e := e) hfixes hk
  | .binary _ .and l r, true, n, m, m', hfixes, h => by
      obtain ⟨k, ⟨ho, -⟩ | ⟨m₁, hl, hr⟩⟩ := evalExpr_and h
      · exact absurd ho (by simp)
      · rcases hfixes with ⟨hl', hv⟩ | hr'
        · exact assigned_of_undeclared hr hv (hl'.assigned hl)
        · exact hr'.assigned hr
  | .binary _ .and l r, false, n, m, m', hfixes, h => by
      obtain ⟨k, ⟨-, hl⟩ | ⟨m₁, -, hr⟩⟩ := evalExpr_and h
      · exact hfixes.1.assigned hl
      · exact hfixes.2.assigned hr
  | .binary _ .or l r, true, n, m, m', hfixes, h => by
      obtain ⟨k, ⟨-, hl⟩ | ⟨m₁, -, hr⟩⟩ := evalExpr_or h
      · exact hfixes.1.assigned hl
      · exact hfixes.2.assigned hr
  | .binary _ .or l r, false, n, m, m', hfixes, h => by
      obtain ⟨k, ⟨ho, -⟩ | ⟨m₁, hl, hr⟩⟩ := evalExpr_or h
      · exact absurd ho (by simp)
      · rcases hfixes with ⟨hl', hv⟩ | hr'
        · exact assigned_of_undeclared hr hv (hl'.assigned hl)
        · exact hr'.assigned hr
  | .binary _ .eq l r, o, n, m, m', hfixes, h | .binary _ .ne l r, o, n, m, m', hfixes, h
  | .binary _ .lt l r, o, n, m, m', hfixes, h | .binary _ .gt l r, o, n, m, m', hfixes, h
  | .binary _ .le l r, o, n, m, m', hfixes, h | .binary _ .ge l r, o, n, m, m', hfixes, h
  | .binary _ .add l r, o, n, m, m', hfixes, h | .binary _ .sub l r, o, n, m, m', hfixes, h
  | .binary _ .mul l r, o, n, m, m', hfixes, h | .binary _ .div l r, o, n, m, m', hfixes, h
  | .binary _ .rem l r, o, n, m, m', hfixes, h => by
      obtain ⟨k, x, y, m₁, hl, hr⟩ := evalExpr_strict rfl h
      exact assigned_of_undeclared hr hfixes.2 (hfixes.1.assigned hl)
  | .letIn _ ds body, o, n + 1, m, m', hfixes, h => by
      obtain ⟨_, m₁, -, h⟩ := bind_eq_ok.mp h
      exact Fixes.assigned (e := body) hfixes h

/-- Where the analysis says so, an expression leaves the variable assigned. -/
theorem After.assigned (h : evalExpr setting n e m = .ok w m') (hk : k → m.Assigned v)
    (ha : e.After v k) : m'.Assigned v :=
  assigned_of_undeclared h ha.2 (hk ha.1)

/-- Where it says so of an outcome, a condition with that outcome does. -/
theorem When.assigned {o : Bool} (h : evalExpr setting n e m = .ok (.bool o) m') (hk : k → m.Assigned v)
    (hwhen : e.When v k o) : m'.Assigned v :=
  hwhen.elim (After.assigned h hk) fun hfixes => hfixes.assigned h

end Expr

namespace Stmt

variable {w : Stmt} {k : Prop}

/-- A statement that does not declare a variable leaves it assigned. -/
theorem assigned_of_undeclared (h : execStmt setting n w m = .ok () m') (hv : v ∉ w.declared)
    (hassigned : m.Assigned v) : m'.Assigned v :=
  ((Machine.framed_traced.kept setting n).stmt w).assigned ((sparing setting v n).stmt hv) h hassigned

/-- The last of some statements has been executed. -/
theorem exec_last : ∀ (ss : List Stmt) {n : Nat} {m m' : Machine ω},
    execAll setting n (ss ++ [w]) m = .ok () m' → ∃ k m₁, execStmt setting k w m₁ = .ok () m'
  | [], n + 1, m, m', h => by
      obtain ⟨_, m₁, hw, h⟩ := bind_eq_ok.mp h
      cases n with
      | zero => injection h
      | succ n =>
          injection h with _ h
          subst h
          exact ⟨n + 1, m, hw⟩
  | s :: ss, n + 1, m, m', h => by
      obtain ⟨_, m₁, -, h⟩ := bind_eq_ok.mp h
      exact exec_last ss h

variable (quiet : setting.Quiet)

include quiet

/-- A statement that guards the variable has assigned it when it completes. -/
theorem Guards.assigned (hw : w.Guards v) (h : execStmt setting n w m = .ok () m') : m'.Assigned v := by
  obtain ⟨hby, hv, c, o, hescape, hfixes⟩ := hw
  obtain ⟨k, m₁, m₂, hbefore, hc, hafter⟩ :=
    cameOut_of_completesByTest Machine.framed_traced quiet hby hescape h
  -- behind the test the statement does not declare the variable any more
  have hspares : Spares v m₂ m' :=
    (((sparing setting v n).stmt hv).ok h).last
      (Machine.framed_traced.trans _ _ _ hbefore (((Machine.framed_traced.kept setting k).expr c).ok hc))
      hafter
  exact hspares.assigned hafter (hfixes.assigned hc)

/-- **A statement that settles a variable**: behind it, the variable has been assigned. -/
theorem Settles.assigned (hw : w.Settles v) (h : execStmt setting n w m = .ok () m') :
    m'.Assigned v := by
  rcases hw with hw | ⟨i, ss, last, rfl, hlast⟩
  · exact hw.assigned quiet h
  · cases n with
    | zero => injection h
    | succ n =>
        obtain ⟨k, m₁, hk⟩ := exec_last ss h
        exact hlast.assigned quiet hk

/-- Behind a statement the variable has been assigned where the analysis says so. -/
theorem Behind.assigned (h : execStmt setting n w m = .ok () m') (hk : k → m.Assigned v)
    (hbehind : w.Behind v k) : m'.Assigned v :=
  hbehind.elim (fun hk' => assigned_of_undeclared h hk'.2 (hk hk'.1)) fun hw => hw.assigned quiet h

end Stmt

end

end PatternIR
