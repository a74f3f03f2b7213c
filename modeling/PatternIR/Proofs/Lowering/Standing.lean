/-
  PatternIR.Proofs.Lowering.Standing
  ──────────────────────────────────
  **WHERE A REFERENCE STANDS.**

  What matters of the place of a reference are the conditions around it: those
  whose constructs it is in, those that have come out one way where it is
  evaluated, and the statements of a block it is behind.

      if (!(o instanceof String s)) return;      s stands behind the `if`
      return s.length() > 1 && p(s);             s stands within and past `>`

  A binding has matched for certain where a condition is past that lists it.
  Storage in scope is a weaker thing: the frame of a construct has it for what
  the condition lists with either outcome, and for all parts of the construct.

    • `Guard` — what is around a place;
    • `Expr.EachRef`, `Stmt.EachRef` — the references with their guards;
    • `Certain`, `Offered` — what the guards tell of a binding;
    • `Expr.Attributed`, `Stmt.Attributed` — trees that attribution has been over,
      with what it says of the parts of each form.
-/
import PatternIR.Proofs.Lowering.Accepted
import PatternIR.Proofs.Lowering.Listed

namespace PatternIR

/-! ## §1. Guards. -/

/-- A condition, or a statement, around a place. -/
inductive Guard where
  /-- The place is in a construct whose frame is for an outcome of the condition. -/
  | within (cond : Expr) (outcome : Bool)
  /-- The place is reached once the condition has come out so, and only then. -/
  | passed (cond : Expr) (outcome : Bool)
  /-- The place is in a block, behind the statement. -/
  | behind (w : Stmt)

namespace Guard

/-- The guards in the frame of an operator. -/
def operands (op : BinOp) (l : Expr) : List Guard := op.passes?.toList.map (within l)

/-- The guards of the right operand besides. -/
def rightOnly (op : BinOp) (l : Expr) : List Guard := op.passes?.toList.map (passed l)

/-- The guards in the frame for a condition. -/
def around (c : Expr) : List Guard := [within c true, within c false]

/-- The guards in the frame of a loop. -/
def around? (c : Option Expr) : List Guard := c.toList.flatMap around

/-- The guards where the condition of a loop has held. -/
def held? (c : Option Expr) : List Guard := c.toList.map (passed · true)

end Guard

namespace Expr

mutual
/-- `P` holds of each reference to a binding with the guards around it. -/
def EachRef (P : List Guard → ExprInfo → BindingId → Prop) : (around : List Guard) → Expr → Prop
  | G, ident i (.binding b) => P G i b
  | _, ident _ (.var _) | _, literal _ _ => True
  | G, unary _ _ e | G, cast _ _ e | G, instanceOf _ e _ | G, typeTest _ e _ => e.EachRef P G
  | G, binary _ op l r =>
    l.EachRef P (Guard.operands op l ++ G)
      ∧ r.EachRef P (Guard.rightOnly op l ++ (Guard.operands op l ++ G))
  | G, conditional _ c y n =>
    c.EachRef P (Guard.around c ++ G) ∧ y.EachRef P (.passed c true :: (Guard.around c ++ G))
      ∧ n.EachRef P (.passed c false :: (Guard.around c ++ G))
  | G, assign _ t v => t.EachRef P G ∧ v.EachRef P G
  | G, call _ _ es => EachRefAll P G es
  | G, methodCall _ r _ es => r.EachRef P G ∧ EachRefAll P G es
  | G, letIn _ ds b => EachRefDefs P G ds ∧ b.EachRef P G
/-- The same of several expressions; none guards another. -/
def EachRefAll (P : List Guard → ExprInfo → BindingId → Prop) :
    (around : List Guard) → List Expr → Prop
  | _, [] => True
  | G, e :: es => e.EachRef P G ∧ EachRefAll P G es
/-- The same of the values of definitions. -/
def EachRefDefs (P : List Guard → ExprInfo → BindingId → Prop) :
    (around : List Guard) → List (VarId × Expr) → Prop
  | _, [] => True
  | G, (_, e) :: ds => e.EachRef P G ∧ EachRefDefs P G ds
end

end Expr

namespace Stmt

mutual
/-- `P` holds of each reference to a binding with the guards around it. -/
def EachRef (P : List Guard → ExprInfo → BindingId → Prop) : (around : List Guard) → Stmt → Prop
  | G, expr _ e => e.EachRef P G
  | G, decl _ _ value | G, ret _ value => Expr.EachRefAll P G value.toList
  | G, block _ ss => EachRefBlock P G ss
  | G, ifElse _ c yes no =>
    c.EachRef P (Guard.around c ++ G) ∧ yes.EachRef P (.passed c true :: (Guard.around c ++ G))
      ∧ EachRefOpt P (.passed c false :: (Guard.around c ++ G)) no
  | G, whileDo _ c body =>
    c.EachRef P (Guard.around c ++ G) ∧ body.EachRef P (.passed c true :: (Guard.around c ++ G))
  | G, doWhile _ body c =>
    body.EachRef P (Guard.around c ++ G) ∧ c.EachRef P (Guard.around c ++ G)
  | G, forDo _ start c step body =>
    EachRefList P (Guard.around? c ++ G) start ∧ Expr.EachRefAll P (Guard.around? c ++ G) c.toList
      ∧ Expr.EachRefAll P (Guard.held? c ++ (Guard.around? c ++ G)) step
      ∧ body.EachRef P (Guard.held? c ++ (Guard.around? c ++ G))
  | G, labeled _ _ body => body.EachRef P G
  | _, brk _ _ | _, cont _ _ => True
/-- In a block, the later statements stand behind the ones before them. -/
def EachRefBlock (P : List Guard → ExprInfo → BindingId → Prop) :
    (around : List Guard) → List Stmt → Prop
  | _, [] => True
  | G, w :: ws => w.EachRef P G ∧ EachRefBlock P (.behind w :: G) ws
/-- The same of statements that are no block. -/
def EachRefList (P : List Guard → ExprInfo → BindingId → Prop) :
    (around : List Guard) → List Stmt → Prop
  | _, [] => True
  | G, w :: ws => w.EachRef P G ∧ EachRefList P G ws
/-- The same of a branch that may be missing. -/
def EachRefOpt (P : List Guard → ExprInfo → BindingId → Prop) :
    (around : List Guard) → Option Stmt → Prop
  | _, none => True
  | G, some w => w.EachRef P G
end

end Stmt

/-! ## §2. What guards tell. -/

namespace Symbols

/-- A binding that is marked as preserved. -/
def Flagged (s : Symbols) (b : BindingId) : Prop := (s.binding? b).any (·.preserved) = true

end Symbols

namespace Guard

/-- Past the guard, the binding has matched: the oracle, asked on the table
`s`, lists it for the outcome. -/
def Tells (s : Symbols) (b : BindingId) : Guard → Prop
  | within _ _ => False
  | passed c o => b ∈ (Flow.matchBindings c o s).1
  | behind w => w.completesByTest = true
      ∧ ∃ c o, Flow.escape? w.label? w.unlabeled = some (c, o) ∧ b ∈ (Flow.matchBindings c o s).1

/-- In scope of the guard there may be storage for the binding: in a frame that
an alias of it is listed for, and behind a statement with such a frame if part
of that alias is marked as preserved. -/
def Offers (s : Symbols) (b : BindingId) : Guard → Prop
  | within c o => ∃ a ∈ (Flow.matchBindings c o s).1,
      (Flow.matchBindings c o s).2.isAliasFor a b = true
  | passed _ _ => False
  | behind w => ∃ c o, w.unlabeled.test? = some c ∧ ∃ a ∈ (Flow.matchBindings c o s).1,
      (Flow.matchBindings c o s).2.isAliasFor a b = true
        ∧ ∃ m, s.Flagged m ∧ ∀ leaf ∈ s.leaves m, leaf ∈ (Flow.matchBindings c o s).2.leaves a

end Guard

/-- One of the guards tells that the binding has matched. -/
def Certain (s : Symbols) (G : List Guard) (b : BindingId) : Prop := ∃ g ∈ G, g.Tells s b

/-- One of the guards may have storage for the binding. -/
def Offered (s : Symbols) (G : List Guard) (b : BindingId) : Prop := ∃ g ∈ G, g.Offers s b

/-- What some guards tell for certain, more guards do. -/
theorem Certain.mono {s : Symbols} {G G' : List Guard} {b : BindingId} (h : Certain s G b)
    (hsub : ∀ g ∈ G, g ∈ G') : Certain s G' b := by
  obtain ⟨g, hg, htells⟩ := h
  exact ⟨g, hsub g hg, htells⟩

/-- What some guards offer, more guards do. -/
theorem Offered.mono {s : Symbols} {G G' : List Guard} {b : BindingId} (h : Offered s G b)
    (hsub : ∀ g ∈ G, g ∈ G') : Offered s G' b := by
  obtain ⟨g, hg, hoffers⟩ := h
  exact ⟨g, hsub g hg, hoffers⟩

/-! ## §3. Attributed trees. -/

/-- What attribution sees to: the variables and the bindings that a tree refers
to are in the table, type tests are for unmerged bindings, each for its own. -/
structure Attribution (s : Symbols) (vars : List VarId) (tests refs : List BindingId) : Prop where
  declared : ∀ v ∈ vars, v.index < s.vars.size
  tested : ∀ b ∈ tests, s.isLeaf b = true
  once : tests.Nodup
  referred : ∀ b ∈ refs, s.Has b

/-- Two parts are attributed together if each is and they test for different bindings. -/
theorem attribution_append {s : Symbols} {vs vs' : List VarId} {ts ts' rs rs' : List BindingId} :
    Attribution s (vs ++ vs') (ts ++ ts') (rs ++ rs')
      ↔ Attribution s vs ts rs ∧ Attribution s vs' ts' rs' ∧ ∀ b ∈ ts, b ∉ ts' := by
  constructor
  · intro h
    obtain ⟨hts, hts', hcross⟩ := List.nodup_append.mp h.once
    refine ⟨⟨fun v hv => h.declared v (by simp [hv]), fun b hb => h.tested b (by simp [hb]), hts,
      fun b hb => h.referred b (by simp [hb])⟩, ⟨fun v hv => h.declared v (by simp [hv]),
      fun b hb => h.tested b (by simp [hb]), hts', fun b hb => h.referred b (by simp [hb])⟩, ?_⟩
    exact fun b hb hb' => hcross b hb b hb' rfl
  · rintro ⟨h, h', hcross⟩
    refine ⟨fun v hv => (List.mem_append.mp hv).elim (h.declared v) (h'.declared v),
      fun b hb => (List.mem_append.mp hb).elim (h.tested b) (h'.tested b), ?_,
      fun b hb => (List.mem_append.mp hb).elim (h.referred b) (h'.referred b)⟩
    exact List.nodup_append.mpr ⟨h.once, h'.once, fun b hb b' hb' heq => hcross b hb (heq ▸ hb')⟩

/-- The same of an expression. -/
def Expr.Attributed (s : Symbols) (e : Expr) : Prop :=
  Attribution s (e.gather ownVars) (e.gather ownTests) (e.gather ownRefs)

/-- The same of a statement and the expressions in it. -/
def Stmt.Attributed (s : Symbols) (w : Stmt) : Prop :=
  Attribution s (w.gather ownVars Expr.ownVars) (w.gather (fun _ => []) Expr.ownTests)
    (w.gather (fun _ => []) Expr.ownRefs)

/-- The same of a method, which need not have a body. -/
def Method.Attributed (s : Symbols) (m : Method) : Prop := ∀ body ∈ m.body, body.Attributed s

/-! ### The parts of an attributed tree

They are attributed, and the patterns of a condition are not among those of
what it is in front of. -/

/-- Several expressions together, so that no two of them test for one binding. -/
def Expr.AttributedAll (s : Symbols) (es : List Expr) : Prop :=
  Attribution s (gatherAll ownVars es) (gatherAll ownTests es) (gatherAll ownRefs es)

/-- The values of definitions together. -/
def Expr.AttributedDefs (s : Symbols) (ds : List (VarId × Expr)) : Prop :=
  Attribution s (gatherDefs ownVars ds) (gatherDefs ownTests ds) (gatherDefs ownRefs ds)

/-- Several statements together. -/
def Stmt.AttributedAll (s : Symbols) (ws : List Stmt) : Prop :=
  Attribution s (gatherAll ownVars Expr.ownVars ws) (gatherAll (fun _ => []) Expr.ownTests ws)
    (gatherAll (fun _ => []) Expr.ownRefs ws)

/-- A branch that may be missing. -/
def Stmt.AttributedOpt (s : Symbols) (w : Option Stmt) : Prop :=
  Attribution s (gatherOpt ownVars Expr.ownVars w) (gatherOpt (fun _ => []) Expr.ownTests w)
    (gatherOpt (fun _ => []) Expr.ownRefs w)

section

variable {s : Symbols} {l r c y n t v e : Expr} {es : List Expr} {ds : List (VarId × Expr)}

namespace Expr

variable {i : ExprInfo}

theorem Attributed.unary {op : UnOp} (h : (Expr.unary i op e).Attributed s) : e.Attributed s := by
  simp only [Attributed, gather_unary, attribution_append] at h
  exact h.2.1

/-- The operands test for different bindings. -/
theorem Attributed.binary {op : BinOp} (h : (Expr.binary i op l r).Attributed s) :
    l.Attributed s ∧ r.Attributed s ∧ ∀ leaf ∈ l.tests, leaf ∉ r.tests := by
  simp only [Attributed, gather_binary, attribution_append] at h
  exact h.2.1

/-- The condition tests for none that a choice does. -/
theorem Attributed.conditional (h : (Expr.conditional i c y n).Attributed s) :
    c.Attributed s ∧ y.Attributed s ∧ n.Attributed s ∧ ∀ leaf ∈ c.tests, leaf ∉ y.tests ++ n.tests := by
  simp only [Attributed, gather_conditional, attribution_append] at h
  obtain ⟨-, ⟨hc, ⟨hy, hn, -⟩, hcross⟩, -⟩ := h
  exact ⟨hc, hy, hn, hcross⟩

theorem Attributed.assign (h : (Expr.assign i t v).Attributed s) : t.Attributed s ∧ v.Attributed s := by
  simp only [Attributed, gather_assign, attribution_append] at h
  exact ⟨h.2.1.1, h.2.1.2.1⟩

theorem Attributed.cast {target : Ty} (h : (Expr.cast i target e).Attributed s) : e.Attributed s := by
  simp only [Attributed, gather_cast, attribution_append] at h
  exact h.2.1

theorem Attributed.instanceOf {target : Ty} (h : (Expr.instanceOf i e target).Attributed s) :
    e.Attributed s := by
  simp only [Attributed, gather_instanceOf, attribution_append] at h
  exact h.2.1

/-- A pattern tests for a leaf of its own. -/
theorem Attributed.typeTest {pattern : BindingPattern} (h : (Expr.typeTest i e pattern).Attributed s) :
    s.isLeaf pattern.binding = true ∧ e.Attributed s ∧ pattern.binding ∉ e.tests := by
  simp only [Attributed, gather_typeTest, attribution_append] at h
  obtain ⟨hpattern, he, hcross⟩ := h
  exact ⟨hpattern.tested _ List.mem_cons_self, he, hcross _ List.mem_cons_self⟩

theorem Attributed.call {f : String} (h : (Expr.call i f es).Attributed s) : AttributedAll s es := by
  simp only [Attributed, gather_call, attribution_append] at h
  exact h.2.1

theorem Attributed.methodCall {f : String} (h : (Expr.methodCall i e f es).Attributed s) :
    e.Attributed s ∧ AttributedAll s es := by
  simp only [Attributed, gather_methodCall, attribution_append] at h
  exact ⟨h.2.1.1, h.2.1.2.1⟩

/-- The variables a let-expression defines are in the table. -/
theorem Attributed.letIn (h : (Expr.letIn i ds e).Attributed s) :
    (∀ x ∈ ds.map Prod.fst, x.index < s.vars.size) ∧ AttributedDefs s ds ∧ e.Attributed s := by
  simp only [Attributed, gather_letIn, attribution_append] at h
  exact ⟨h.1.declared, h.2.1.1, h.2.1.2.1⟩

/-- The first expression and the others, apart from each other. -/
theorem attributedAll_cons : AttributedAll s (e :: es) ↔
    e.Attributed s ∧ AttributedAll s es ∧ ∀ leaf ∈ e.tests, leaf ∉ gatherAll ownTests es := by
  simp only [AttributedAll, gatherAll_cons, attribution_append]
  rfl

theorem attributedAll_singleton : AttributedAll s [e] ↔ e.Attributed s := by
  simp only [AttributedAll, gatherAll_singleton]
  rfl

/-- The first value and the others, apart from each other. -/
theorem attributedDefs_cons {d : VarId × Expr} : AttributedDefs s (d :: ds) ↔
    d.2.Attributed s ∧ AttributedDefs s ds ∧ ∀ leaf ∈ d.2.tests, leaf ∉ gatherDefs ownTests ds := by
  simp only [AttributedDefs, gatherDefs_cons, attribution_append]
  rfl

end Expr

namespace Stmt

variable {i : StmtInfo} {b w yes : Stmt} {no : Option Stmt} {value : Option Expr} {ws : List Stmt}

theorem Attributed.expr (h : (Stmt.expr i e).Attributed s) : e.Attributed s := by
  simp only [Attributed, gather_expr, attribution_append] at h
  exact h.2.1

theorem Attributed.decl {x : VarId} (h : (Stmt.decl i x value).Attributed s) :
    Expr.AttributedAll s value.toList := by
  simp only [Attributed, gather_decl, attribution_append] at h
  exact h.2.1

theorem Attributed.ret (h : (Stmt.ret i value).Attributed s) : Expr.AttributedAll s value.toList := by
  simp only [Attributed, gather_ret, attribution_append] at h
  exact h.2.1

theorem Attributed.block (h : (Stmt.block i ws).Attributed s) : AttributedAll s ws := by
  simp only [Attributed, gather_block, attribution_append] at h
  exact h.2.1

/-- The condition tests for none that a branch does. -/
theorem Attributed.ifElse (h : (Stmt.ifElse i c yes no).Attributed s) :
    c.Attributed s ∧ yes.Attributed s ∧ AttributedOpt s no
      ∧ ∀ leaf ∈ c.tests, leaf ∉ yes.tests ++ gatherOpt (fun _ => []) Expr.ownTests no := by
  simp only [Attributed, gather_ifElse, attribution_append] at h
  obtain ⟨-, ⟨hc, ⟨hyes, hno, -⟩, hcross⟩, -⟩ := h
  exact ⟨hc, hyes, hno, hcross⟩

theorem Attributed.whileDo (h : (Stmt.whileDo i c b).Attributed s) :
    c.Attributed s ∧ b.Attributed s ∧ ∀ leaf ∈ c.tests, leaf ∉ b.tests := by
  simp only [Attributed, gather_whileDo, attribution_append] at h
  exact h.2.1

theorem Attributed.doWhile (h : (Stmt.doWhile i b c).Attributed s) :
    c.Attributed s ∧ b.Attributed s ∧ ∀ leaf ∈ c.tests, leaf ∉ b.tests := by
  simp only [Attributed, gather_doWhile, attribution_append] at h
  exact h.2.1

/-- The condition of a `for` tests for none that the rest of it does. -/
theorem Attributed.forDo {cond : Option Expr} (h : (Stmt.forDo i ws cond es b).Attributed s) :
    Expr.AttributedAll s cond.toList ∧ Expr.AttributedAll s es ∧ AttributedAll s ws ∧ b.Attributed s
      ∧ ∀ leaf ∈ Expr.gatherAll Expr.ownTests cond.toList, leaf ∉ Expr.gatherAll Expr.ownTests es
        ++ (gatherAll (fun _ => []) Expr.ownTests ws ++ b.tests) := by
  simp only [Attributed, gather_forDo, attribution_append] at h
  obtain ⟨-, ⟨hcond, ⟨hes, ⟨hws, hb, -⟩, -⟩, hcross⟩, -⟩ := h
  exact ⟨hcond, hes, hws, hb, hcross⟩

theorem Attributed.labeled {l : String} (h : (Stmt.labeled i l b).Attributed s) : b.Attributed s := by
  simp only [Attributed, gather_labeled, attribution_append] at h
  exact h.2.1

/-- The first statement and the others, apart from each other. -/
theorem attributedAll_cons : AttributedAll s (w :: ws) ↔ w.Attributed s ∧ AttributedAll s ws
    ∧ ∀ leaf ∈ w.tests, leaf ∉ gatherAll (fun _ => []) Expr.ownTests ws := by
  simp only [AttributedAll, gatherAll_cons, attribution_append]
  rfl

end Stmt

/-- Without a body there is nothing to see to. -/
theorem Method.Attributed.body {m : Method} (h : m.Attributed s) : Stmt.AttributedOpt s m.body := by
  rw [Stmt.AttributedOpt]
  cases hbody : m.body with
  | none => exact ⟨by simp, by simp, by simp, by simp⟩
  | some body => exact h body hbody

end

end PatternIR
