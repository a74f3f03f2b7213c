/-
  PatternIR.Proofs.Lowering.Positions
  ───────────────────────────────────
  **TYPES AND POSITIONS SURVIVE.**

  The position of the maker is moved by whatever is lowered in between.  What
  the pass makes stands in the right place all the same, because each step
  moves the maker to its own node before it makes anything: the definitions of
  a frame to the expression, its declarations to the statement, the nodes of a
  pattern to the pattern.

      lowerExpr e p = ok e' q   →   e.Becomes e'
      lowerStmt s p = ok s' q   →   s.Becomes s'

  The declarations a statement leaves to the block it stands in are at its
  position too, so the block emits them there.

    • `DefinesSlots.allAt`, `DeclaresSlots.allAt`, `IsTest.allAt` — what is made;
    • `lowerExpr_becomes`, `lowerParts_becomes` — so the pass lowers a tree;
    • `lower_keeps_positions` — the types and positions of all nodes.
-/
import PatternIR.Proofs.Lowering.Blocks
import PatternIR.Proofs.Lowering.Counterparts
import PatternIR.Proofs.Lowering.Discipline

namespace PatternIR

namespace Lowering

variable {rules : Rules} {p p' : Pass} {α : Type}

/-! ## §1. What the pass makes. -/

/-- A default stands at the position it is made for. -/
theorem defaultNode_allAt (id : NodeId) (span : Span) (ty : Ty) (v : Literal) :
    (defaultNode id span ty v).AllAt span := by
  simp [Expr.AllAt, defaultNode, Expr.walk, Expr.span, Expr.info]

/-- So does a declaration with one. -/
theorem declNode_allAt (id : NodeId) (span : Span) (var : VarId) (ty : Ty) (v : Literal) :
    (declNode id span var ty v).AllAt span where
  stmts := by simp [declNode, Stmt.walk, Stmt.span, Stmt.info]
  exprs e he := by
    refine defaultNode_allAt id span ty v e ?_
    simpa [Stmt.walkExprs, Stmt.walk, declNode, Stmt.ownExprs, Expr.walkAll] using he

/-- So does a test for a match, with all its nodes. -/
theorem matchNode_allAt (id : NodeId) (span : Span) (isCertain : Bool) (temp : VarId)
    (target ty : Ty) : (matchNode id span isCertain temp target ty).AllAt span := by
  cases isCertain <;>
    simp [Expr.AllAt, matchNode, heldNode, Expr.walk, Expr.span, Expr.info]

/-- So does the storing of a match. -/
theorem storeNode_allAt (id : NodeId) (span : Span) (var temp : VarId) (varTy target ty : Ty) :
    (storeNode id span var temp varTy target ty).AllAt span := by
  unfold storeNode
  split <;>
    simp [Expr.AllAt, assignNode, castNode, heldNode, Expr.walk, Expr.span, Expr.info]

/-- The test of the temporary stands where the type test stands. -/
theorem IsTest.allAt {span : Span} {isCertain : Bool} {temp : VarId} {target ty : Ty} {id : NodeId}
    {storage : Option (VarId × Ty)} {test : Expr} {size : Nat}
    (h : IsTest span isCertain temp target ty id storage test size) : test.AllAt span := by
  cases h with
  | plain => exact matchNode_allAt id span isCertain temp target ty
  | stored var varTy =>
      intro x hx
      rcases List.mem_cons.mp hx with rfl | hx
      · rfl
      · rcases List.mem_append.mp hx with hx | hx
        · exact matchNode_allAt _ span isCertain temp target ty x hx
        · exact storeNode_allAt _ span var temp varTy target ty x hx

/-- So do the definitions of slots. -/
theorem DefinesSlots.allAt {s : Symbols} {span : Span} {id : NodeId} {slots : List Slot}
    {defs : List (VarId × Expr)} (h : DefinesSlots s span id slots defs) :
    ∀ d ∈ defs, d.2.AllAt span := by
  induction h with
  | nil id => exact fun d hd => absurd hd List.not_mem_nil
  | cons hsym hv rest ih =>
      intro d hd
      rcases List.mem_cons.mp hd with rfl | hd
      · exact defaultNode_allAt _ _ _ _
      · exact ih d hd

/-- So do their declarations, refused or taken over. -/
theorem DeclaresSlots.allAt {s : Symbols} {span : Span} {takes : BindingId → Bool} {id : NodeId}
    {slots : List Slot} {refused : List Stmt} {taken : List (Slot × Stmt)}
    (h : DeclaresSlots s span takes id slots refused taken) :
    (∀ d ∈ refused, d.AllAt span) ∧ ∀ x ∈ taken, x.2.AllAt span := by
  induction h with
  | nil id =>
      exact ⟨fun d hd => absurd hd List.not_mem_nil, fun x hx => absurd hx List.not_mem_nil⟩
  | refuse hsym hv htakes rest ih =>
      refine ⟨fun d hd => ?_, ih.2⟩
      rcases List.mem_cons.mp hd with rfl | hd
      · exact declNode_allAt _ _ _ _ _
      · exact ih.1 d hd
  | take hsym hv htakes rest ih =>
      refine ⟨ih.1, fun x hx => ?_⟩
      rcases List.mem_cons.mp hx with rfl | hx
      · exact declNode_allAt _ _ _ _ _
      · exact ih.2 x hx

/-! ## §2. Lowered expressions. -/

/-- Decorating puts at most a let-expression around a node. -/
theorem decorateExpr_decorated {e e' : Expr} (h : decorateExpr e p = .ok e' p') :
    e.Decorated e' := by
  rcases decorateExpr_eq_ok h with ⟨-, rfl, -⟩ | ⟨defs, hdefs, rfl, -⟩
  · exact .bare
  · exact .letIn _ hdefs.allAt

mutual
/-- **Expressions** become what they are lowered to. -/
theorem lowerExpr_becomes : ∀ (e : Expr) {e' : Expr} {p p' : Pass},
    lowerExpr rules e p = .ok e' p' → e.Becomes e'
  | .literal i v, e', p, p', h => by
      obtain ⟨rfl, -⟩ := pure_eq_ok.mp h
      exact .literal i v
  | .ident i (.var v), e', p, p', h => by
      obtain ⟨rfl, -⟩ := pure_eq_ok.mp h
      exact .var i v
  | .ident i (.binding b), e', p, p', h => by
      obtain ⟨var, -, rfl, -⟩ := lowerRef_eq_ok h
      exact .ref i b _ var
  | .unary i op e, e', p, p', h => by
      obtain ⟨x, hx, rfl⟩ := bind_pure_eq_ok.mp h
      exact .unary i op (lowerExpr_becomes e hx)
  | .binary i op l r, e', p, p', h => by
      obtain ⟨_, _, x, q₁, y, q₂, q, -, hx, hy, hdec, -⟩ := lowerExpr_binary_eq_ok h
      exact .binary i op (lowerExpr_becomes l hx) (lowerExpr_becomes r hy)
        (decorateExpr_decorated hdec)
  | .conditional i c y n, e', p, p', h => by
      obtain ⟨_, _, x₁, q₁, x₂, q₂, x₃, q₃, q, -, hx₁, hx₂, hx₃, hdec, -⟩ :=
        lowerExpr_conditional_eq_ok h
      exact .conditional i (lowerExpr_becomes c hx₁) (lowerExpr_becomes y hx₂)
        (lowerExpr_becomes n hx₃) (decorateExpr_decorated hdec)
  | .assign i t v, e', p, p', h => by
      obtain ⟨x, p₁, y, hx, hy, rfl⟩ := bind_bind_pure_eq_ok.mp h
      exact .assign i (lowerExpr_becomes t hx) (lowerExpr_becomes v hy)
  | .cast i ty e, e', p, p', h => by
      obtain ⟨x, hx, rfl⟩ := bind_pure_eq_ok.mp h
      exact .cast i ty (lowerExpr_becomes e hx)
  | .instanceOf i e ty, e', p, p', h => by
      obtain ⟨x, hx, rfl⟩ := bind_pure_eq_ok.mp h
      exact .instanceOf i ty (lowerExpr_becomes e hx)
  | .typeTest i e pattern, e', p, p', h => by
      obtain ⟨x, p₁, hx, htest⟩ := bind_eq_ok.mp h
      obtain ⟨symbol, test, size, -, hmade, -, rfl, -⟩ := lowerTest_eq_ok htest
      exact .typeTest i pattern (lowerExpr_becomes e hx) _ _ hmade.allAt
  | .call i f args, e', p, p', h => by
      obtain ⟨xs, hxs, rfl⟩ := bind_pure_eq_ok.mp h
      exact .call i f (lowerExprs_become args hxs)
  | .methodCall i e f args, e', p, p', h => by
      obtain ⟨x, p₁, xs, hx, hxs, rfl⟩ := bind_bind_pure_eq_ok.mp h
      exact .methodCall i f (lowerExpr_becomes e hx) (lowerExprs_become args hxs)
  | .letIn i defs body, e', p, p', h => by
      obtain ⟨ds, p₁, x, hds, hx, rfl⟩ := bind_bind_pure_eq_ok.mp h
      exact .letIn i (lowerDefs_become defs hds) (lowerExpr_becomes body hx)
theorem lowerExprs_become : ∀ (es : List Expr) {es' : List Expr} {p p' : Pass},
    lowerExprs rules es p = .ok es' p' → Expr.BecomeAll es es'
  | [], es', p, p', h => by
      obtain ⟨rfl, -⟩ := pure_eq_ok.mp h
      exact .nil
  | e :: es, es', p, p', h => by
      obtain ⟨x, p₁, xs, hx, hxs, rfl⟩ := bind_bind_pure_eq_ok.mp h
      exact .cons (lowerExpr_becomes e hx) (lowerExprs_become es hxs)
theorem lowerDefs_become : ∀ (ds : List (VarId × Expr)) {ds' : List (VarId × Expr)} {p p' : Pass},
    lowerDefs rules ds p = .ok ds' p' → Expr.BecomeDefs ds ds'
  | [], ds', p, p', h => by
      obtain ⟨rfl, -⟩ := pure_eq_ok.mp h
      exact .nil
  | (v, e) :: ds, ds', p, p', h => by
      obtain ⟨x, p₁, xs, hx, hxs, rfl⟩ := bind_bind_pure_eq_ok.mp h
      exact .cons v (lowerExpr_becomes e hx) (lowerDefs_become ds hxs)
end

theorem lowerExpr?_becomes {e e' : Option Expr} (h : lowerExpr? rules e p = .ok e' p') :
    Expr.BecomeOpt e e' := by
  cases e with
  | none =>
      obtain ⟨rfl, -⟩ := pure_eq_ok.mp h
      exact .none
  | some e =>
      obtain ⟨x, hx, rfl⟩ := bind_pure_eq_ok.mp h
      exact .some (lowerExpr_becomes e hx)

/-! ## §3. Lowered statements. -/

/-- What lowering a statement leaves: the statement that stands for it, the
declarations to run before it, and those the current frame has taken over. -/
structure Leaves (s : Stmt) (p p' : Pass) (d : Decorated) : Prop where
  rebuilt : s.Rebuilt d.stmt
  decls : ∀ x ∈ d.decls, x.AllAt s.unlabeled.span
  stack : ∃ taken : List (Slot × Stmt), p'.stack = p.stack.gain taken
    ∧ ∀ x ∈ taken, x.2.AllAt s.unlabeled.span

/-- What keeps the stack in every run has kept it in this one. -/
theorem stack_of_sat {c : Lowering α} (hc : Sat Eq c) {a : α} (h : c p = .ok a p') :
    p'.stack = p.stack := by
  have hstack := hc p
  rw [reached_of_ok h] at hstack
  exact hstack.symm

/-- What stands directly in a frame does not touch the frames around it. -/
theorem enclosing_of_sat {c : Lowering α} (hc : Sat Stack.Gains c) {a : α}
    (h : c p = .ok a p') : p'.stack.enclosing = p.stack.enclosing := by
  have hgains := hc p
  rw [reached_of_ok h] at hgains
  obtain ⟨taken, -, heq⟩ := hgains.eq
  rw [heq]
  rfl

namespace Leaves

variable {s stmt : Stmt} {p₁ : Pass} {d : Decorated}

/-- A statement that declares nothing, on a stack that stays. -/
theorem plain (h : s.Rebuilt stmt) (hstack : p'.stack = p.stack) : Leaves s p p' ⟨[], stmt⟩ where
  rebuilt := h
  decls _ hx := absurd hx List.not_mem_nil
  stack := ⟨[], by rw [hstack, Stack.gain_nil], fun _ hx => absurd hx List.not_mem_nil⟩

/-- Closing puts the statement into a block if there are declarations. -/
theorem close {s' : Stmt} (h : Leaves s p p₁ d) (hclose : d.close p₁ = .ok s' p') :
    s.Becomes s' := by
  rcases close_eq_ok hclose with ⟨-, rfl, -⟩ | ⟨-, rfl, -⟩
  · exact .bare h.rebuilt
  · rw [h.rebuilt.span]
    exact .wrapped h.rebuilt _ h.decls

/-- A statement at the end of its frame declares the storage of the frame at its
own position, in front of itself or in the frame around. -/
theorem framed (hs : s.unlabeled = s) (bindings : List BindingId) {q q' : Pass}
    (hstack : p₁.stack = p.stack) (hrebuilt : s.Rebuilt stmt)
    (hframes : q.stack.enclosing = (p₁.enter .statement bindings).stack.enclosing)
    (hdec : decorateStmt stmt q = .ok d q') :
    Leaves s p { q' with stack := q'.stack.pop } d := by
  obtain ⟨refused, taken, hdecl, rfl, rfl⟩ := decorateStmt_eq_ok hdec
  have hat := hdecl.allAt
  rw [hrebuilt.span, ← hs] at hat
  refine ⟨hrebuilt, hat.1, taken, ?_, hat.2⟩
  -- the frame is popped, and what it gave away is in the frame around it
  obtain ⟨symbols, ⟨frame, enclosing⟩, maker⟩ := q
  have henclosing : enclosing = p₁.stack.frames := hframes
  subst henclosing
  rw [← hstack]
  exact Stack.pop_give frame p₁.stack taken

end Leaves

mutual
/-- **Statements** become what they are lowered to. -/
theorem lowerParts_becomes : ∀ (s : Stmt) {d : Decorated} {p p' : Pass},
    lowerParts rules s p = .ok d p' → Leaves s p p' d
  | .expr i e, d, p, p', h => by
      obtain ⟨x, hx, rfl⟩ := bind_pure_eq_ok.mp h
      exact .plain (.expr i (lowerExpr_becomes e hx)) (stack_of_sat (lowerExpr_sat rules e) hx)
  | .decl i v e, d, p, p', h => by
      obtain ⟨x, hx, rfl⟩ := bind_pure_eq_ok.mp h
      exact .plain (.decl i v (lowerExpr?_becomes hx)) (stack_of_sat (lowerExpr?_sat rules e) hx)
  | .ret i e, d, p, p', h => by
      obtain ⟨x, hx, rfl⟩ := bind_pure_eq_ok.mp h
      exact .plain (.ret i (lowerExpr?_becomes hx)) (stack_of_sat (lowerExpr?_sat rules e) hx)
  | .brk i l, d, p, p', h => by
      obtain ⟨rfl, rfl⟩ := pure_eq_ok.mp h
      exact .plain (.brk i l) rfl
  | .cont i l, d, p, p', h => by
      obtain ⟨rfl, rfl⟩ := pure_eq_ok.mp h
      exact .plain (.cont i l) rfl
  | .block i ss, d, p, p', h => by
      obtain ⟨out, q, hout, rfl, rfl⟩ := lowerParts_block_eq_ok h
      obtain ⟨hemitted, henclosing⟩ := lowerBlock_becomes ss rfl hout
      refine .plain (.block i hemitted) ?_
      -- a block emits all that its frame has taken over, so nothing is left of it
      obtain ⟨symbols, ⟨frame, enclosing⟩, maker⟩ := q
      have hframes : enclosing = p.stack.frames := henclosing
      subst hframes
      rfl
  | .ifElse i c y n, d, p, p', h => by
      obtain ⟨bs, p₁, x, q₁, dy, q₂, y', q₃, n', q₄, q, hask, hx, hy, hclose, hn, hdec, rfl⟩ :=
        lowerParts_ifElse_eq_ok h
      refine .framed rfl bs (stack_of_sat (Sat.asking _) hask)
        (.ifElse i (lowerExpr_becomes c hx) ((lowerParts_becomes y hy).close hclose)
          (lowerStmt?_becomes n hn)) ?_ hdec
      rw [enclosing_of_sat (lowerStmt?_sat rules n) hn, enclosing_of_sat (close_sat dy).of_eq hclose,
        enclosing_of_sat (lowerParts_sat rules y) hy,
        enclosing_of_sat (lowerExpr_sat rules c).of_eq hx]
  | .whileDo i c b, d, p, p', h => by
      obtain ⟨bs, p₁, x, q₁, db, q₂, b', q₃, q, hask, hx, hb, hclose, hdec, rfl⟩ :=
        lowerParts_whileDo_eq_ok h
      refine .framed rfl bs (stack_of_sat (Sat.asking _) hask)
        (.whileDo i (lowerExpr_becomes c hx) ((lowerParts_becomes b hb).close hclose)) ?_ hdec
      rw [enclosing_of_sat (close_sat db).of_eq hclose, enclosing_of_sat (lowerParts_sat rules b) hb,
        enclosing_of_sat (lowerExpr_sat rules c).of_eq hx]
  | .doWhile i b c, d, p, p', h => by
      obtain ⟨bs, p₁, db, q₁, b', q₂, x, q₃, q, hask, hb, hclose, hx, hdec, rfl⟩ :=
        lowerParts_doWhile_eq_ok h
      refine .framed rfl bs (stack_of_sat (Sat.asking _) hask)
        (.doWhile i ((lowerParts_becomes b hb).close hclose) (lowerExpr_becomes c hx)) ?_ hdec
      rw [enclosing_of_sat (lowerExpr_sat rules c).of_eq hx,
        enclosing_of_sat (close_sat db).of_eq hclose, enclosing_of_sat (lowerParts_sat rules b) hb]
  | .forDo i ss c es b, d, p, p', h => by
      obtain ⟨bs, p₁, ss', q₁, c', q₂, es', q₃, db, q₄, b', q₅, q, hask, hss, hc, hes, hb, hclose,
        hdec, rfl⟩ := lowerParts_forDo_eq_ok h
      refine .framed rfl bs (stack_of_sat (condFacts?_sat rules.flow c) hask)
        (.forDo i (lowerStmts_become ss hss) (lowerExpr?_becomes hc) (lowerExprs_become es hes)
          ((lowerParts_becomes b hb).close hclose)) ?_ hdec
      rw [enclosing_of_sat (close_sat db).of_eq hclose, enclosing_of_sat (lowerParts_sat rules b) hb,
        enclosing_of_sat (lowerExprs_sat rules es).of_eq hes,
        enclosing_of_sat (lowerExpr?_sat rules c).of_eq hc,
        enclosing_of_sat (lowerStmts_sat rules ss) hss]
  | .labeled i l b, d, p, p', h => by
      obtain ⟨db, hb, rfl⟩ := bind_pure_eq_ok.mp h
      have hbody := lowerParts_becomes b hb
      exact ⟨.labeled i l hbody.rebuilt, hbody.decls, hbody.stack⟩
/-- A block that has nothing waiting emits each statement behind what that one made it accept. -/
theorem lowerBlock_becomes : ∀ (ss : List Stmt) {out : List Stmt} {p p' : Pass},
    p.stack.current.hoisted = [] → lowerBlock rules ss p = .ok out p' →
      Stmt.Emitted ss out ∧ p'.stack.enclosing = p.stack.enclosing
  | [], out, p, p', hp, h => by
      obtain ⟨rfl, rfl⟩ := pure_eq_ok.mp h
      exact ⟨.nil, rfl⟩
  | s :: ss, out, p, p', hp, h => by
      obtain ⟨d, p₁, lowered, p₂, rest, hd, hclose, hrest, rfl⟩ := lowerBlock_cons_eq_ok h
      have hparts := lowerParts_becomes s hd
      obtain ⟨taken, hstack, htaken⟩ := hparts.stack
      rw [← stack_of_sat (close_sat d) hclose] at hstack
      obtain ⟨hemitted, henclosing⟩ := lowerBlock_becomes ss rfl hrest
      refine ⟨.cons (hparts.close hclose) ?_ hemitted, ?_⟩
      · rw [hstack]
        show ∀ x ∈ p.stack.current.hoisted ++ taken.map Prod.snd, x.AllAt s.unlabeled.span
        rw [hp, List.nil_append]
        exact List.forall_mem_map.mpr htaken
      · show p'.stack.enclosing = p.stack.enclosing
        rw [henclosing]
        show p₂.stack.enclosing = p.stack.enclosing
        rw [hstack]
        rfl
theorem lowerStmts_become : ∀ (ss : List Stmt) {out : List Stmt} {p p' : Pass},
    lowerStmts rules ss p = .ok out p' → Stmt.BecomeAll ss out
  | [], out, p, p', h => by
      obtain ⟨rfl, -⟩ := pure_eq_ok.mp h
      exact .nil
  | s :: ss, out, p, p', h => by
      obtain ⟨d, p₁, lowered, p₂, rest, hd, hclose, hrest, rfl⟩ := lowerStmts_cons_eq_ok h
      exact .cons ((lowerParts_becomes s hd).close hclose) (lowerStmts_become ss hrest)
theorem lowerStmt?_becomes : ∀ (s : Option Stmt) {out : Option Stmt} {p p' : Pass},
    lowerStmt? rules s p = .ok out p' → Stmt.BecomeOpt s out
  | none, out, p, p', h => by
      obtain ⟨rfl, -⟩ := pure_eq_ok.mp h
      exact .none
  | some s, out, p, p', h => by
      obtain ⟨d, p₁, lowered, hd, hclose, rfl⟩ := lowerStmt?_some_eq_ok h
      exact .some ((lowerParts_becomes s hd).close hclose)
end

/-- A statement becomes one at its position, and so do the declarations it gives away. -/
theorem lowerStmt_becomes {s s' : Stmt} (h : lowerStmt rules s p = .ok s' p') :
    s.Becomes s' ∧ ∃ taken : List (Slot × Stmt), p'.stack = p.stack.gain taken
      ∧ ∀ x ∈ taken, x.2.AllAt s.unlabeled.span := by
  obtain ⟨d, p₁, hd, hclose⟩ := bind_eq_ok.mp h
  have hparts := lowerParts_becomes s hd
  refine ⟨hparts.close hclose, ?_⟩
  rw [stack_of_sat (close_sat d) hclose]
  exact hparts.stack

end Lowering

/-! ## §4. Types and positions. -/

/-- Every type test among the expressions is boolean. -/
def BooleanTests (es : List Expr) : Prop := ∀ x ∈ es, x.kind = .typeTest → x.ty = .boolean

instance (es : List Expr) : Decidable (BooleanTests es) :=
  inferInstanceAs (Decidable (∀ x ∈ es, _))

/-- The expression keeps its type and its position, and so does each node of it
in its counterpart; what is not the counterpart of a node is made for a type
test or for the storage of a binary or conditional expression, where that stands. -/
structure Expr.SurvivesAs (e e' : Expr) : Prop where
  becomes : e.Becomes e'
  ty : e'.ty = e.ty
  span : e'.span = e.span
  nodes : ∀ x ∈ e.walk, ∃ x' ∈ e'.walk, x.Becomes x' ∧ x'.ty = x.ty ∧ x'.span = x.span
  made : ∀ x' ∈ e'.walk, ∃ x ∈ e.walk,
    (x.Becomes x' ∨ x.makesNodes = true) ∧ x'.span = x.span

/-- The statement keeps its position, and so does each statement of it in its
counterpart, and each expression, with its type; what is not the counterpart of
a node stands where the statement or the expression stands that it is made for. -/
structure Stmt.SurvivesAs (s s' : Stmt) : Prop where
  becomes : s.Becomes s'
  span : s'.span = s.span
  stmts : ∀ t ∈ s.walk, ∃ t' ∈ s'.walk, t.Rebuilt t' ∧ t'.span = t.span
  exprs : BooleanTests s.walkExprs → ∀ x ∈ s.walkExprs, ∃ x' ∈ s'.walkExprs,
    x.Becomes x' ∧ x'.ty = x.ty ∧ x'.span = x.span
  madeStmts : ∀ t' ∈ s'.walk, ∃ t ∈ s.walk, (t.Becomes t' ∨ t.Makes t') ∧ t'.span = t.span
  madeExprs : ∀ x' ∈ s'.walkExprs,
    (∃ x ∈ s.walkExprs, (x.Becomes x' ∨ x.makesNodes = true) ∧ x'.span = x.span)
      ∨ ∃ t ∈ s.walk, x'.span = t.span

/-- A counterpart, and what is made for a node, stands where the node stands. -/
theorem Expr.span_of_origin {x x' : Expr} (h : x.Becomes x' ∨ x.Makes x') :
    (x.Becomes x' ∨ x.makesNodes = true) ∧ x'.span = x.span := by
  rcases h with hbecomes | hmakes
  · exact ⟨.inl hbecomes, hbecomes.span⟩
  · exact ⟨.inr hmakes.form, hmakes.span⟩

/-- **An expression survives as what it becomes.** -/
theorem Expr.Becomes.survives {e e' : Expr} (h : e.Becomes e') (htests : BooleanTests e.walk) :
    e.SurvivesAs e' where
  becomes := h
  ty := h.ty (htests e (mem_walk_self e))
  span := h.span
  nodes x hx := by
    obtain ⟨x', hx', hbecomes⟩ := h.beside.covers x hx
    exact ⟨x', hx', hbecomes, hbecomes.ty (htests x hx), hbecomes.span⟩
  made x' hx' := by
    obtain ⟨x, hx, horigin⟩ := h.beside.origins x' hx'
    exact ⟨x, hx, span_of_origin horigin⟩

/-- **A statement survives as what it becomes.** -/
theorem Stmt.Becomes.survives {s s' : Stmt} (h : s.Becomes s') : s.SurvivesAs s' where
  becomes := h
  span := h.span
  stmts t ht := by
    obtain ⟨t', ht', hrebuilt⟩ := h.beside.covers t ht
    exact ⟨t', ht', hrebuilt, hrebuilt.span⟩
  exprs htests x hx := by
    obtain ⟨x', hx', hbecomes⟩ := h.exprs.1 x hx
    exact ⟨x', hx', hbecomes, hbecomes.ty (htests x hx), hbecomes.span⟩
  madeStmts t' ht' := by
    obtain ⟨t, ht, horigin⟩ := h.beside.origins t' ht'
    exact ⟨t, ht, horigin, horigin.elim (·.span) (·.span)⟩
  madeExprs x' hx' := by
    rcases h.exprs.2 x' hx' with ⟨x, hx, horigin⟩ | hstmt
    · exact .inl ⟨x, hx, Expr.span_of_origin horigin⟩
    · exact .inr hstmt

namespace Lowering

/-- **Types and positions survive.**  From every state and with every oracle: an
expression the type tests of which are boolean is lowered to one of its type, at
its position, and the same holds of each node of it; a statement is lowered to
one at its position, with the same for what is in it, and the declarations that
it leaves to the frame it stands in are at its position as well. -/
theorem lower_keeps_positions (rules : Rules) :
    (∀ (e e' : Expr) (p q : Pass), BooleanTests e.walk → lowerExpr rules e p = .ok e' q →
      e.SurvivesAs e')
    ∧ ∀ (s s' : Stmt) (p q : Pass), lowerStmt rules s p = .ok s' q →
      s.SurvivesAs s' ∧ ∃ taken : List (Slot × Stmt), q.stack = p.stack.gain taken
        ∧ ∀ x ∈ taken, x.2.AllAt s.unlabeled.span := by
  constructor
  · intro e e' p q htests h
    exact (lowerExpr_becomes e h).survives htests
  · intro s s' p q h
    obtain ⟨hbecomes, htaken⟩ := lowerStmt_becomes h
    exact ⟨hbecomes.survives, htaken⟩

/-- `o instanceof String s && s == null`, from column 4 on. -/
def Guarded.empty : Expr :=
  .binary ⟨5, .boolean, ⟨4, 38⟩⟩ .and
    (.typeTest ⟨1, .boolean, ⟨4, 25⟩⟩ (.ident ⟨0, .object, ⟨4, 5⟩⟩ (.var ⟨0⟩)) ⟨⟨0⟩, some .string⟩)
    (.binary ⟨4, .boolean, ⟨29, 38⟩⟩ .eq (.ident ⟨2, .string, ⟨29, 30⟩⟩ (.binding ⟨0⟩))
      (.literal ⟨3, .null, ⟨34, 38⟩⟩ .null))

/-- `if (o instanceof String s && s == null) return;` -/
def Guarded.skip : Stmt := .ifElse ⟨7, ⟨0, 47⟩⟩ empty (.ret ⟨6, ⟨40, 47⟩⟩ none) none

/-- The condition gets a let-expression around it, the statement a block. -/
theorem lower_keeps_positions_guarded :
    BooleanTests Guarded.empty.walk
      ∧ (∃ e' q, lowerExpr Guarded.rules Guarded.empty (.start Guarded.symbols) = .ok e' q
        ∧ Guarded.empty.SurvivesAs e')
      ∧ ∃ s' q, lowerStmt Guarded.rules Guarded.skip (.start Guarded.symbols) = .ok s' q
        ∧ Guarded.skip.SurvivesAs s' := by
  have htests : BooleanTests Guarded.empty.walk := by decide
  obtain ⟨e', q, hexpr, -⟩ : ∃ e' q, lowerExpr Guarded.rules Guarded.empty
      (.start Guarded.symbols) = .ok e' q ∧ q.symbols.vars.size = 3 :=
    Guarded.size?_eq_some (by decide +kernel)
  obtain ⟨s', q', hstmt, -⟩ : ∃ s' q, lowerStmt Guarded.rules Guarded.skip
      (.start Guarded.symbols) = .ok s' q ∧ q.symbols.vars.size = 3 :=
    Guarded.size?_eq_some (by decide +kernel)
  obtain ⟨hexprs, hstmts⟩ := lower_keeps_positions Guarded.rules
  exact ⟨htests, ⟨e', q, hexpr, hexprs _ _ _ _ htests hexpr⟩,
    ⟨s', q', hstmt, (hstmts _ _ _ _ hstmt).1⟩⟩

end Lowering

end PatternIR
