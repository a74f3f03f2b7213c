/-
  PatternIR.Proofs.Lowering.Unchanged
  ───────────────────────────────────
  **TREES WITHOUT PATTERNS STAY AS THEY ARE.**

  The pass rebuilds every node and enters a frame for most of them, but where
  no pattern is, the structural oracle lists nothing and adds nothing, a frame
  has no slots, and a node is rebuilt from the same parts:

      e without patterns  →  lowerExpr e p = ok e p

  with the stack, the symbols and the ids of `p` as they were.  What has been
  lowered has no patterns, so to lower it again does nothing.

    • `matchBindings_plain` — the oracle has nothing to say;
    • `lowerExpr_plain`, `lowerParts_plain` — the pass has nothing to do;
    • `lower_unchanged` — trees without patterns, and programs lowered again.
-/
import PatternIR.Proofs.Flow.Escapes
import PatternIR.Proofs.Lowering.Nodes

namespace PatternIR

/-! ## §1. Trees without patterns. -/

namespace Expr

/-- No node of the tree is a pattern. -/
def Plain (e : Expr) : Prop := ∀ x ∈ e.walk, x.isPattern = false

instance (e : Expr) : Decidable e.Plain := inferInstanceAs (Decidable (∀ x ∈ e.walk, _))

/-- The node itself, if it is a pattern. -/
def ownPatterns (e : Expr) : List Expr := if e.isPattern then [e] else []

/-- The patterns in a tree. -/
def patterns (e : Expr) : List Expr := e.gather ownPatterns

/-- A node that is no pattern has none of its own. -/
theorem ownPatterns_eq_nil {e : Expr} : e.ownPatterns = [] ↔ e.isPattern = false := by
  unfold ownPatterns
  cases e.isPattern <;> simp

/-- A tree without patterns has none. -/
theorem patterns_eq_nil {e : Expr} : e.patterns = [] ↔ e.Plain := by
  unfold patterns gather Plain
  rw [List.flatMap_eq_nil_iff]
  exact forall₂_congr fun _ _ => ownPatterns_eq_nil

end Expr

namespace Stmt

/-- No expression under the statement is a pattern. -/
def Plain (s : Stmt) : Prop := ∀ e ∈ s.walkExprs, e.isPattern = false

instance (s : Stmt) : Decidable s.Plain := inferInstanceAs (Decidable (∀ e ∈ s.walkExprs, _))

/-- The patterns under a statement. -/
def patterns (s : Stmt) : List Expr := s.gather (fun _ => []) Expr.ownPatterns

/-- So has a statement without any. -/
theorem patterns_eq_nil {s : Stmt} : s.patterns = [] ↔ s.Plain := by
  unfold patterns Plain
  rw [gather_exprs, List.flatMap_eq_nil_iff]
  exact forall₂_congr fun _ _ => Expr.ownPatterns_eq_nil

end Stmt

namespace Flow

/-- Of a condition without patterns the oracle lists nothing, and adds nothing. -/
theorem matchBindings_plain : ∀ (e : Expr), e.patterns = [] → ∀ (o : Bool) (s : Symbols),
    matchBindings e o s = ([], s)
  | .typeTest _ _ _, h, _, _ => by simp [Expr.patterns, Expr.ownPatterns, Expr.isPattern] at h
  | .unary _ op e, h, o, s => by
      cases op with
      | neg => rfl
      | not =>
          simp only [Expr.patterns, Expr.gather_unary, List.append_eq_nil_iff] at h
          exact matchBindings_plain e h.2 (!o) s
  | .binary _ op l r, h, o, s => by
      simp only [Expr.patterns, Expr.gather_binary, List.append_eq_nil_iff] at h
      have hl := matchBindings_plain l h.2.1 o s
      have hr := matchBindings_plain r h.2.2 o s
      cases op with
      | and | or =>
          unfold matchBindings
          simp only [hl, hr]
          cases o <;> rfl
      | _ => rfl
  | .literal _ _, _, _, _ | .ident _ _, _, _, _ | .conditional _ _ _ _, _, _, _
  | .assign _ _ _, _, _, _ | .cast _ _ _, _, _, _ | .instanceOf _ _ _, _, _, _
  | .call _ _ _, _, _, _ | .methodCall _ _ _ _, _, _, _ | .letIn _ _ _, _, _, _ => rfl

/-- A condition without patterns lists nothing and leaves the table alone. -/
theorem all_plain {e : Expr} (h : e.patterns = []) (s : Symbols) :
    matchBindings.all e s = ([], s) := by
  unfold Oracle.all
  rw [matchBindings_plain e h]
  simp only [matchBindings_plain e h]
  rfl

end Flow

/-! ## §2. The pass has nothing to do. -/

namespace Lowering

variable {α : Type}

/-- A computation that does nothing in a frame for no bindings. -/
theorem within_nothing {kind : FrameKind} {body : Lowering α} {a : α} (p : Pass)
    (h : ∀ q : Pass, q.stack.current = ⟨kind, [], []⟩ → body q = .ok a q) :
    within kind [] body p = .ok a p := by
  have hbody := h (p.enter kind []) rfl
  rw [within_apply, hbody]
  rfl

/-- Without slots, an expression stays bare. -/
theorem decorateExpr_nothing {p : Pass} (e : Expr) (h : p.stack.current.slots = []) :
    decorateExpr e p = .ok e p := by
  refine bind_eq_ok.mpr ⟨p, p, rfl, ?_⟩
  simp only [h]
  rfl

/-- Without slots, a statement does. -/
theorem decorateStmt_nothing {p : Pass} (s : Stmt) (h : p.stack.current.slots = []) :
    decorateStmt s p = .ok ⟨[], s⟩ p := by
  refine bind_eq_ok.mpr ⟨p, p, rfl, bind_eq_ok.mpr ⟨[], p, ?_, rfl⟩⟩
  rw [h]
  rfl

/-- A question that is answered by nothing changes nothing. -/
theorem asking_nothing {q : Symbols → List BindingId × Symbols} {p : Pass}
    (h : q p.symbols = ([], p.symbols)) : asking q p = .ok [] p := by
  unfold asking
  rw [h]

/-- A left operand without patterns has no facts. -/
theorem operandFacts_plain (op : BinOp) {left : Expr} (h : left.patterns = []) (p : Pass) :
    operandFacts Flow.matchBindings op left p = .ok [] p := by
  cases op with
  | and | or => exact asking_nothing (Flow.matchBindings_plain left h _ _)
  | _ => rfl

variable (hierarchy : Hierarchy)

-- A frame is entered for a condition all the same, but the oracle lists nothing of a
-- condition without patterns: the frame has no slots, and leaving it declares none.
mutual
/-- **An expression without patterns** stays as it is, and so does the state. -/
theorem lowerExpr_plain : ∀ (e : Expr), e.patterns = [] → ∀ p : Pass,
    lowerExpr ⟨hierarchy, Flow.matchBindings⟩ e p = .ok e p
  | .literal _ _, _, _ | .ident _ (.var _), _, _ => rfl
  | .ident _ (.binding _), h, _ => by simp [Expr.patterns, Expr.ownPatterns, Expr.isPattern] at h
  | .typeTest _ _ _, h, _ => by simp [Expr.patterns, Expr.ownPatterns, Expr.isPattern] at h
  | .unary i op e, h, p => by
      simp only [Expr.patterns, Expr.gather_unary, List.append_eq_nil_iff] at h
      exact bind_eq_ok.mpr ⟨e, p, lowerExpr_plain e h.2 p, rfl⟩
  | .binary i op l r, h, p => by
      simp only [Expr.patterns, Expr.gather_binary, List.append_eq_nil_iff] at h
      refine bind_eq_ok.mpr ⟨[], p, operandFacts_plain op h.2.1 p, within_nothing p ?_⟩
      intro q hq
      refine bind_eq_ok.mpr ⟨l, q, lowerExpr_plain l h.2.1 q, ?_⟩
      refine bind_eq_ok.mpr ⟨r, q, lowerExpr_plain r h.2.2 q, ?_⟩
      exact decorateExpr_nothing _ (by rw [hq])
  | .conditional i c y z, h, p => by
      simp only [Expr.patterns, Expr.gather_conditional, List.append_eq_nil_iff] at h
      refine bind_eq_ok.mpr ⟨[], p, asking_nothing (Flow.all_plain h.2.1 _), within_nothing p ?_⟩
      intro q hq
      refine bind_eq_ok.mpr ⟨c, q, lowerExpr_plain c h.2.1 q, ?_⟩
      refine bind_eq_ok.mpr ⟨y, q, lowerExpr_plain y h.2.2.1 q, ?_⟩
      refine bind_eq_ok.mpr ⟨z, q, lowerExpr_plain z h.2.2.2 q, ?_⟩
      exact decorateExpr_nothing _ (by rw [hq])
  | .assign i t v, h, p => by
      simp only [Expr.patterns, Expr.gather_assign, List.append_eq_nil_iff] at h
      exact bind_eq_ok.mpr ⟨t, p, lowerExpr_plain t h.2.1 p,
        bind_eq_ok.mpr ⟨v, p, lowerExpr_plain v h.2.2 p, rfl⟩⟩
  | .cast i t e, h, p => by
      simp only [Expr.patterns, Expr.gather_cast, List.append_eq_nil_iff] at h
      exact bind_eq_ok.mpr ⟨e, p, lowerExpr_plain e h.2 p, rfl⟩
  | .instanceOf i e t, h, p => by
      simp only [Expr.patterns, Expr.gather_instanceOf, List.append_eq_nil_iff] at h
      exact bind_eq_ok.mpr ⟨e, p, lowerExpr_plain e h.2 p, rfl⟩
  | .call i f args, h, p => by
      simp only [Expr.patterns, Expr.gather_call, List.append_eq_nil_iff] at h
      exact bind_eq_ok.mpr ⟨args, p, lowerExprs_plain args h.2 p, rfl⟩
  | .methodCall i e f args, h, p => by
      simp only [Expr.patterns, Expr.gather_methodCall, List.append_eq_nil_iff] at h
      exact bind_eq_ok.mpr ⟨e, p, lowerExpr_plain e h.2.1 p,
        bind_eq_ok.mpr ⟨args, p, lowerExprs_plain args h.2.2 p, rfl⟩⟩
  | .letIn i defs body, h, p => by
      simp only [Expr.patterns, Expr.gather_letIn, List.append_eq_nil_iff] at h
      exact bind_eq_ok.mpr ⟨defs, p, lowerDefs_plain defs h.2.1 p,
        bind_eq_ok.mpr ⟨body, p, lowerExpr_plain body h.2.2 p, rfl⟩⟩
theorem lowerExprs_plain : ∀ (es : List Expr), Expr.gatherAll Expr.ownPatterns es = [] →
    ∀ p : Pass, lowerExprs ⟨hierarchy, Flow.matchBindings⟩ es p = .ok es p
  | [], _, _ => rfl
  | e :: es, h, p => by
      simp only [Expr.gatherAll_cons, List.append_eq_nil_iff] at h
      exact bind_eq_ok.mpr ⟨e, p, lowerExpr_plain e h.1 p,
        bind_eq_ok.mpr ⟨es, p, lowerExprs_plain es h.2 p, rfl⟩⟩
theorem lowerDefs_plain : ∀ (ds : List (VarId × Expr)), Expr.gatherDefs Expr.ownPatterns ds = [] →
    ∀ p : Pass, lowerDefs ⟨hierarchy, Flow.matchBindings⟩ ds p = .ok ds p
  | [], _, _ => rfl
  | (v, e) :: ds, h, p => by
      simp only [Expr.gatherDefs_cons, List.append_eq_nil_iff] at h
      exact bind_eq_ok.mpr ⟨e, p, lowerExpr_plain e h.1 p,
        bind_eq_ok.mpr ⟨ds, p, lowerDefs_plain ds h.2 p, rfl⟩⟩
end

theorem lowerExpr?_plain (e : Option Expr) (h : Expr.gatherAll Expr.ownPatterns e.toList = [])
    (p : Pass) : lowerExpr? ⟨hierarchy, Flow.matchBindings⟩ e p = .ok e p := by
  cases e with
  | none => rfl
  | some e =>
      simp only [Option.toList_some, Expr.gatherAll_cons, List.append_eq_nil_iff] at h
      exact bind_eq_ok.mpr ⟨e, p, lowerExpr_plain hierarchy e h.1 p, rfl⟩

/-- A condition without patterns has no facts. -/
theorem condFacts?_plain (c : Option Expr) (h : Expr.gatherAll Expr.ownPatterns c.toList = [])
    (p : Pass) : condFacts? Flow.matchBindings c p = .ok [] p := by
  cases c with
  | none => rfl
  | some c =>
      simp only [Option.toList_some, Expr.gatherAll_cons, List.append_eq_nil_iff] at h
      have hask : asking (Flow.matchBindings.all c) p = .ok [] p :=
        asking_nothing (Flow.all_plain h.1 _)
      exact hask

mutual
/-- **A statement without patterns** stays as it is, with no declarations. -/
theorem lowerParts_plain : ∀ (s : Stmt), s.patterns = [] → ∀ p : Pass,
    lowerParts ⟨hierarchy, Flow.matchBindings⟩ s p = .ok ⟨[], s⟩ p
  | .expr i e, h, p => by
      simp only [Stmt.patterns, Stmt.gather_expr, List.nil_append] at h
      exact bind_eq_ok.mpr ⟨e, p, lowerExpr_plain hierarchy e h p, rfl⟩
  | .decl i v e, h, p => by
      simp only [Stmt.patterns, Stmt.gather_decl, List.nil_append] at h
      exact bind_eq_ok.mpr ⟨e, p, lowerExpr?_plain hierarchy e h p, rfl⟩
  | .ret i e, h, p => by
      simp only [Stmt.patterns, Stmt.gather_ret, List.nil_append] at h
      exact bind_eq_ok.mpr ⟨e, p, lowerExpr?_plain hierarchy e h p, rfl⟩
  | .brk _ _, _, _ | .cont _ _, _, _ => rfl
  | .block i ss, h, p => by
      simp only [Stmt.patterns, Stmt.gather_block, List.nil_append] at h
      refine within_nothing p ?_
      intro q hq
      exact bind_eq_ok.mpr ⟨ss, q, lowerBlock_plain ss h q (by rw [hq]), rfl⟩
  | .ifElse i c y z, h, p => by
      simp only [Stmt.patterns, Stmt.gather_ifElse, List.nil_append, List.append_eq_nil_iff] at h
      refine bind_eq_ok.mpr ⟨[], p, asking_nothing (Flow.all_plain h.1 _), within_nothing p ?_⟩
      intro q hq
      refine bind_eq_ok.mpr ⟨c, q, lowerExpr_plain hierarchy c h.1 q, ?_⟩
      refine bind_eq_ok.mpr ⟨⟨[], y⟩, q, lowerParts_plain y h.2.1 q, ?_⟩
      refine bind_eq_ok.mpr ⟨y, q, rfl, ?_⟩
      refine bind_eq_ok.mpr ⟨z, q, lowerStmt?_plain z h.2.2 q, ?_⟩
      exact decorateStmt_nothing _ (by rw [hq])
  | .whileDo i c b, h, p => by
      simp only [Stmt.patterns, Stmt.gather_whileDo, List.nil_append, List.append_eq_nil_iff] at h
      refine bind_eq_ok.mpr ⟨[], p, asking_nothing (Flow.all_plain h.1 _), within_nothing p ?_⟩
      intro q hq
      refine bind_eq_ok.mpr ⟨c, q, lowerExpr_plain hierarchy c h.1 q, ?_⟩
      refine bind_eq_ok.mpr ⟨⟨[], b⟩, q, lowerParts_plain b h.2 q, ?_⟩
      refine bind_eq_ok.mpr ⟨b, q, rfl, ?_⟩
      exact decorateStmt_nothing _ (by rw [hq])
  | .doWhile i b c, h, p => by
      simp only [Stmt.patterns, Stmt.gather_doWhile, List.nil_append, List.append_eq_nil_iff] at h
      refine bind_eq_ok.mpr ⟨[], p, asking_nothing (Flow.all_plain h.1 _), within_nothing p ?_⟩
      intro q hq
      refine bind_eq_ok.mpr ⟨⟨[], b⟩, q, lowerParts_plain b h.2 q, ?_⟩
      refine bind_eq_ok.mpr ⟨b, q, rfl, ?_⟩
      refine bind_eq_ok.mpr ⟨c, q, lowerExpr_plain hierarchy c h.1 q, ?_⟩
      exact decorateStmt_nothing _ (by rw [hq])
  | .forDo i ss c es b, h, p => by
      simp only [Stmt.patterns, Stmt.gather_forDo, List.nil_append, List.append_eq_nil_iff] at h
      refine bind_eq_ok.mpr ⟨[], p, condFacts?_plain c h.1 p, within_nothing p ?_⟩
      intro q hq
      refine bind_eq_ok.mpr ⟨ss, q, lowerStmts_plain ss h.2.2.1 q, ?_⟩
      refine bind_eq_ok.mpr ⟨c, q, lowerExpr?_plain hierarchy c h.1 q, ?_⟩
      refine bind_eq_ok.mpr ⟨es, q, lowerExprs_plain hierarchy es h.2.1 q, ?_⟩
      refine bind_eq_ok.mpr ⟨⟨[], b⟩, q, lowerParts_plain b h.2.2.2 q, ?_⟩
      refine bind_eq_ok.mpr ⟨b, q, rfl, ?_⟩
      exact decorateStmt_nothing _ (by rw [hq])
  | .labeled i l b, h, p => by
      simp only [Stmt.patterns, Stmt.gather_labeled, List.nil_append] at h
      exact bind_eq_ok.mpr ⟨⟨[], b⟩, p, lowerParts_plain b h p, rfl⟩
/-- A block that has nothing waiting emits nothing. -/
theorem lowerBlock_plain : ∀ (ss : List Stmt),
    Stmt.gatherAll (fun _ => []) Expr.ownPatterns ss = [] → ∀ p : Pass,
      p.stack.current.hoisted = [] →
      lowerBlock ⟨hierarchy, Flow.matchBindings⟩ ss p = .ok ss p
  | [], _, _, _ => rfl
  | s :: ss, h, p, hp => by
      simp only [Stmt.gatherAll_cons, List.append_eq_nil_iff] at h
      have htake : takeHoisted p = .ok [] p := by
        obtain ⟨symbols, ⟨⟨kind, slots, hoisted⟩, enclosing⟩, maker⟩ := p
        cases hp
        rfl
      refine bind_eq_ok.mpr ⟨⟨[], s⟩, p, lowerParts_plain s h.1 p, ?_⟩
      refine bind_eq_ok.mpr ⟨s, p, rfl, bind_eq_ok.mpr ⟨[], p, htake, ?_⟩⟩
      exact bind_eq_ok.mpr ⟨ss, p, lowerBlock_plain ss h.2 p hp, rfl⟩
theorem lowerStmts_plain : ∀ (ss : List Stmt),
    Stmt.gatherAll (fun _ => []) Expr.ownPatterns ss = [] → ∀ p : Pass,
      lowerStmts ⟨hierarchy, Flow.matchBindings⟩ ss p = .ok ss p
  | [], _, _ => rfl
  | s :: ss, h, p => by
      simp only [Stmt.gatherAll_cons, List.append_eq_nil_iff] at h
      refine bind_eq_ok.mpr ⟨⟨[], s⟩, p, lowerParts_plain s h.1 p, ?_⟩
      refine bind_eq_ok.mpr ⟨s, p, rfl, ?_⟩
      exact bind_eq_ok.mpr ⟨ss, p, lowerStmts_plain ss h.2 p, rfl⟩
theorem lowerStmt?_plain : ∀ (s : Option Stmt),
    Stmt.gatherOpt (fun _ => []) Expr.ownPatterns s = [] → ∀ p : Pass,
      lowerStmt? ⟨hierarchy, Flow.matchBindings⟩ s p = .ok s p
  | none, _, _ => rfl
  | some s, h, p =>
      bind_eq_ok.mpr ⟨⟨[], s⟩, p, lowerParts_plain s h p, bind_eq_ok.mpr ⟨s, p, rfl, rfl⟩⟩
end

/-! ## §3. Programs without patterns. -/

/-- The same of methods. -/
theorem lowerMethods_plain : ∀ (ms : List Method),
    (∀ m ∈ ms, ∀ s ∈ m.body, s.Plain) → ∀ p : Pass,
      lowerMethods ⟨hierarchy, Flow.matchBindings⟩ ms p = .ok ms p
  | [], _, _ => rfl
  | m :: ms, h, p => by
      have hbody : Stmt.gatherOpt (fun _ => []) Expr.ownPatterns m.body = [] := by
        cases hm : m.body with
        | none => rfl
        | some s => exact Stmt.patterns_eq_nil.mpr (h m List.mem_cons_self s hm)
      have hms := lowerMethods_plain ms (fun x hx => h x (List.mem_cons_of_mem _ hx)) p
      refine bind_eq_ok.mpr ⟨m, p, ?_, bind_eq_ok.mpr ⟨ms, p, hms, rfl⟩⟩
      exact bind_eq_ok.mpr ⟨m.body, p, lowerStmt?_plain hierarchy m.body hbody p, rfl⟩

/-- The same of classes. -/
theorem lowerClasses_plain : ∀ (cs : List Class),
    (∀ c ∈ cs, ∀ m ∈ c.methods, ∀ s ∈ m.body, s.Plain) → ∀ s : Symbols,
      lowerClasses ⟨hierarchy, Flow.matchBindings⟩ cs s = ⟨cs.map fun c => (c, s), s, none⟩
  | [], _, _ => rfl
  | c :: cs, h, s => by
      have hc : lowerClass ⟨hierarchy, Flow.matchBindings⟩ c (.start s) = .ok c (.start s) :=
        bind_eq_ok.mpr ⟨c.methods, .start s,
          lowerMethods_plain hierarchy c.methods (h c List.mem_cons_self) _, rfl⟩
      have hcs := lowerClasses_plain cs (fun x hx => h x (List.mem_cons_of_mem _ hx)) s
      unfold lowerClasses
      simp only [hc]
      show Progress.mk ((c, s) :: (lowerClasses _ cs s).done) (lowerClasses _ cs s).symbols
        (lowerClasses _ cs s).error = _
      rw [hcs]
      rfl

end Lowering

namespace Program

variable {p : Program}

/-- A program without patterns is lowered to itself. -/
theorem lower_plain (h : ∀ c ∈ p.classes, ∀ m ∈ c.methods, ∀ s ∈ m.body, s.Plain) :
    p.lower Flow.matchBindings = .ok p := by
  have hclasses := Lowering.lowerClasses_plain p.hierarchy p.classes h p.symbols
  unfold lower lowerClasses
  simp only [hclasses, List.map_map]
  show Except.ok (Program.mk (p.classes.map id) p.symbols) = _
  rw [List.map_id]

/-- Preservation has nothing to mark in a program without patterns. -/
theorem preserveBindings_plain (h : ∀ c ∈ p.classes, ∀ m ∈ c.methods, ∀ s ∈ m.body, s.Plain) :
    p.preserveBindings Flow.matchBindings = p := by
  -- a condition without patterns tells nothing, so no visit marks anything
  have hvisit : ∀ w ∈ p.positions, ∀ s : Symbols, Flow.visit Flow.matchBindings s w = s := by
    intro w hw s
    obtain ⟨m, hm, hw⟩ := List.mem_flatMap.mp hw
    obtain ⟨c, hc, hm⟩ := List.mem_flatMap.mp hm
    unfold Flow.visit Flow.escaping
    cases hesc : Flow.escape? w.label? w.unlabeled with
    | none => rfl
    | some found =>
        obtain ⟨cond, o⟩ := found
        have hplain : cond.Plain := by
          cases hbody : m.body with
          | none =>
              rw [hbody] at hw
              exact absurd hw List.not_mem_nil
          | some body =>
              rw [hbody] at hw
              intro x hx
              exact h c hc m hm body hbody x
                (Stmt.walk_of_mem_positions hw (Flow.mem_ownExprs_of_escape? hesc) x hx)
        simp only [Flow.matchBindings_plain cond (Expr.patterns_eq_nil.mpr hplain)]
        rfl
  have hfold : ∀ (ws : List Stmt) (s : Symbols), (∀ w ∈ ws, w ∈ p.positions) →
      ws.foldl (Flow.visit Flow.matchBindings) s = s := by
    intro ws
    induction ws with
    | nil => exact fun _ _ => rfl
    | cons w ws ih =>
        intro s hws
        rw [List.foldl_cons, hvisit w (hws w List.mem_cons_self)]
        exact ih s fun x hx => hws x (List.mem_cons_of_mem _ hx)
  have hsymbols := Flow.preserveBindings_eq Flow.matchBindings p
  rw [hfold p.positions p.symbols fun _ hw => hw] at hsymbols
  show Program.mk p.classes (p.preserveBindings Flow.matchBindings).symbols = p
  rw [hsymbols]

end Program

namespace Lowering

/-- **Trees without patterns stay as they are**, in every state, and the state
does too.  A program that bindings have been preserved in and that has been
lowered is the same after both once more. -/
theorem lower_unchanged :
    (∀ (hierarchy : Hierarchy) (e : Expr) (p : Pass), e.Plain →
      lowerExpr ⟨hierarchy, Flow.matchBindings⟩ e p = .ok e p)
    ∧ (∀ (hierarchy : Hierarchy) (s : Stmt) (p : Pass), s.Plain →
      lowerStmt ⟨hierarchy, Flow.matchBindings⟩ s p = .ok s p)
    ∧ ∀ prog prog' : Program,
      (prog.preserveBindings Flow.matchBindings).lower Flow.matchBindings = .ok prog' →
        prog'.preserveBindings Flow.matchBindings = prog'
          ∧ (prog'.preserveBindings Flow.matchBindings).lower Flow.matchBindings = .ok prog' := by
  refine ⟨?_, ?_, ?_⟩
  · intro hierarchy e p he
    exact lowerExpr_plain hierarchy e (Expr.patterns_eq_nil.mpr he) p
  · intro hierarchy s p hs
    have hparts := lowerParts_plain hierarchy s (Stmt.patterns_eq_nil.mpr hs) p
    exact bind_eq_ok.mpr ⟨⟨[], s⟩, p, hparts, rfl⟩
  · intro prog prog' h
    have hplain : ∀ c ∈ prog'.classes, ∀ m ∈ c.methods, ∀ s ∈ m.body, s.Plain :=
      fun c hc m hm s hs => lowered_plain h c hc m hm s hs
    have hsame := Program.preserveBindings_plain hplain
    refine ⟨hsame, ?_⟩
    rw [hsame]
    exact Program.lower_plain hplain

/-- `o == o` -/
def Guarded.equal : Expr :=
  .binary ⟨3, .boolean, .nowhere⟩ .eq (.ident ⟨1, .object, .nowhere⟩ (.var ⟨0⟩))
    (.ident ⟨2, .object, .nowhere⟩ (.var ⟨0⟩))

/-- `if (o == o) { return; }` -/
def Guarded.leave : Stmt :=
  .ifElse ⟨6, .nowhere⟩ equal (.block ⟨5, .nowhere⟩ [.ret ⟨4, .nowhere⟩ none]) none

/-- The guard has patterns, and once it has been lowered there is nothing more to do. -/
theorem lower_unchanged_guarded :
    (Guarded.equal.Plain ∧ lowerExpr Guarded.rules Guarded.equal (.start Guarded.symbols)
      = .ok Guarded.equal (.start Guarded.symbols))
    ∧ (Guarded.leave.Plain ∧ lowerStmt Guarded.rules Guarded.leave (.start Guarded.symbols)
      = .ok Guarded.leave (.start Guarded.symbols))
    ∧ ∃ prog',
      (Guarded.program.preserveBindings Flow.matchBindings).lower Flow.matchBindings = .ok prog'
        ∧ (prog'.preserveBindings Flow.matchBindings).lower Flow.matchBindings = .ok prog' := by
  obtain ⟨hexpr, hstmt, hprog⟩ := lower_unchanged
  have he : Guarded.equal.Plain := by decide
  have hs : Guarded.leave.Plain := by decide
  refine ⟨⟨he, hexpr _ _ _ he⟩, ⟨hs, hstmt _ _ _ hs⟩, ?_⟩
  have hok : ((Guarded.program.preserveBindings Flow.matchBindings).lower
      Flow.matchBindings).isOk = true := by decide +kernel
  obtain ⟨prog', h⟩ := exists_of_isOk hok
  exact ⟨prog', h, (hprog _ _ h).2⟩

end Lowering

end PatternIR
