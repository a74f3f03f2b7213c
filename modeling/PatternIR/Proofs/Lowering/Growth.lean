/-
  PatternIR.Proofs.Lowering.Growth
  ────────────────────────────────
  **THE TABLE OF SYMBOLS ONLY GROWS.**

  The table goes through the whole pass, and nothing ever takes an entry out,
  moves it or writes to it: a frame and a type test add variables, a question
  to the oracle may add a unified binding.  What these additions keep true of
  the table is therefore true of it wherever the pass stops, with a result or
  with an error.

      before      v₀ … vₙ        b₀ … bₖ
      after       v₀ … vₙ v …    b₀ … bₖ b …     each new b unifies earlier ones

  The entries of the source stay what and where they are, so that a reference
  to a symbol means the same in every tree, lowered or not.

    • `Symbols.Indexed`, `Symbols.Extends` — a table in order, and a later one;
    • `Upholds` — what is kept of the table, on every exit;
    • `lowerExpr_upholds`, `lowerParts_upholds` — from the additions to the pass;
    • `Program.lower_extends` — for the structural oracle.
-/
import PatternIR.Proofs.Flow.Matches
import PatternIR.Proofs.Lowering.Discipline
import PatternIR.Proofs.Lowering.Known
import PatternIR.Proofs.Lowering.Nodes

namespace PatternIR

/-! ## §1. Later tables. -/

namespace Symbols

/-- Every symbol carries its place as its id, and what a binding unifies has
smaller ids than the binding. -/
structure Indexed (s : Symbols) : Prop where
  var : ∀ {x : VarId} {v : VarSymbol}, s.var? x = some v → v.id = x
  binding : ∀ {b : BindingId} {sym : BindingSymbol}, s.binding? b = some sym → sym.id = b
  earlier : ∀ {b : BindingId} {sym : BindingSymbol}, s.binding? b = some sym →
    ∀ c ∈ sym.components, c.index < sym.id.index

/-- `t` has every entry of `s` where it was and as it was, and besides them only
variables and unified bindings. -/
structure Extends (s t : Symbols) : Prop where
  vars : ∀ {x : VarId} {v : VarSymbol}, s.var? x = some v → t.var? x = some v
  bindings : ∀ {b : BindingId} {sym : BindingSymbol},
    s.binding? b = some sym → t.binding? b = some sym
  added : ∀ {b : BindingId} {sym : BindingSymbol}, t.binding? b = some sym →
    s.binding? b = none → sym.isMerged = true ∧ ∀ c ∈ sym.components, c.index < sym.id.index

variable {s t u : Symbols} {a b m : BindingId} {name : String} {ty : Ty} {owner : Option String}
  {synthetic : Bool}

/-- A variable of a table with one more variable is the new one or was there. -/
theorem var?_addVar_cases {x : VarId} {v : VarSymbol}
    (h : (s.addVar name ty owner synthetic).2.var? x = some v) :
    v = ⟨⟨s.vars.size⟩, name, ty, owner, synthetic⟩ ∧ x = ⟨s.vars.size⟩ ∨ s.var? x = some v := by
  have hpush : (s.vars.push ⟨⟨s.vars.size⟩, name, ty, owner, synthetic⟩)[x.index]? = some v := h
  rw [Array.getElem?_push] at hpush
  split at hpush
  next hx =>
    injection hpush with hv
    obtain ⟨i⟩ := x
    cases hx
    exact .inl ⟨hv.symm, rfl⟩
  next => exact .inr hpush

namespace Indexed

/-- The empty table is indexed. -/
theorem empty : Symbols.empty.Indexed where
  var h := absurd h (by simp [var?, Symbols.empty])
  binding h := absurd h (by simp [binding?, Symbols.empty])
  earlier h := absurd h (by simp [binding?, Symbols.empty])

/-- A binding at the end of the table keeps it in order if what it unifies is there. -/
theorem push (h : s.Indexed) {sym : BindingSymbol} (hid : sym.id = ⟨s.bindings.size⟩)
    (hparts : ∀ c ∈ sym.components, s.Has c) :
    Indexed { s with bindings := s.bindings.push sym } where
  var := h.var
  binding {x} found hx := by
    -- the entry is the new one at the end, or it was there
    rw [binding?_push] at hx
    split at hx
    next hlast =>
      injection hx with hx
      subst hx
      rw [hid, ← hlast]
    next => exact h.binding hx
  earlier {x} found hx := by
    rw [binding?_push] at hx
    split at hx
    next =>
      injection hx with hx
      subst hx
      rw [hid]
      exact hparts
    next => exact h.earlier hx

/-- A binding is added at the place its id names. -/
theorem addBinding (h : s.Indexed) : (s.addBinding name ty owner).2.Indexed :=
  h.push rfl fun _ hc => absurd hc List.not_mem_nil

/-- So is a variable. -/
theorem addVar (h : s.Indexed) : (s.addVar name ty owner synthetic).2.Indexed where
  var hx := by
    rcases var?_addVar_cases hx with ⟨rfl, rfl⟩ | hx
    · rfl
    · exact h.var hx
  binding hb := h.binding hb
  earlier hb := h.earlier hb

/-- What two bindings of the table are unified to stands behind both. -/
theorem merge (h : s.Indexed) (hm : s.merge? a b = some (m, t)) : t.Indexed := by
  obtain ⟨ha, hb⟩ := merge?_has hm
  rcases merge?_cases hm with ⟨rfl, -⟩ | ⟨_, _, -, -, -, rfl⟩
  · exact h
  · exact h.push rfl (by simp [ha, hb])

end Indexed

namespace Extends

/-- A table extends itself. -/
theorem refl (s : Symbols) : s.Extends s where
  vars := id
  bindings := id
  added hb hnone := absurd (hb.symm.trans hnone) (Option.some_ne_none _)

/-- A variable is added behind the others. -/
theorem addVar (h : s.Extends t) : s.Extends (t.addVar name ty owner synthetic).2 where
  vars hx := var?_addVar (h.vars hx)
  bindings hb := h.bindings hb
  added hb hnone := h.added hb hnone

/-- Whatever the two are found to be unified as, only a unified binding is added. -/
theorem merge (h : s.Extends t) (hm : t.merge? a b = some (m, u)) : s.Extends u := by
  obtain ⟨ha, hb⟩ := merge?_has hm
  rcases merge?_cases hm with ⟨rfl, -⟩ | ⟨_, _, -, -, -, rfl⟩
  · -- the two are unified already
    exact h
  · refine ⟨h.vars, fun {x} {sym} hx => ?_, fun {x} {sym} hx hnone => ?_⟩
    · have hlt : x.index < t.bindings.size := binding?_eq_some_lt (h.bindings hx)
      rw [binding?_push, if_neg (Nat.ne_of_lt hlt)]
      exact h.bindings hx
    · rw [binding?_push] at hx
      split at hx
      next =>
        injection hx with hx
        subst hx
        exact ⟨rfl, by simpa using ⟨ha, hb⟩⟩
      next => exact h.added hx hnone

end Extends

end Symbols

namespace Lowering

variable {α β : Type}

/-! ## §2. What is kept on every exit. -/

/-- A step that begins on a table with `P` ends on one, with a result or with an error. -/
def Upholds (P : Symbols → Prop) (c : Lowering α) : Prop :=
  ∀ p, P p.symbols → P (reached c p).symbols

section

variable {P : Symbols → Prop}

namespace Upholds

/-- An error ends the second step where it ended the first. -/
theorem bind {c : Lowering α} {f : α → Lowering β} (hc : Upholds P c)
    (hf : ∀ a, Upholds P (f a)) : Upholds P (c >>= f) := by
  intro p hp
  have hfirst := hc p hp
  unfold reached at hfirst ⊢
  rw [bind_apply]
  cases hok : c p with
  | ok a q =>
      simp only [hok] at hfirst ⊢
      exact hf a q hfirst
  | error e q =>
      -- the table reached with the error is the one that the first step left
      simp only [hok] at hfirst ⊢
      exact hfirst

theorem pure (a : α) : Upholds P (Pure.pure a : Lowering α) := fun _ hp => hp

/-- An error without an effect. -/
theorem throw (e : LowerError) : Upholds P (MonadExcept.throw e : Lowering α) := fun _ hp => hp

/-- Looking at the state does not change it. -/
theorem get : Upholds P (MonadState.get : Lowering Pass) := fun _ hp => hp

/-- Making nodes does not touch the table. -/
theorem making (m : Making α) : Upholds P (making m) := fun _ hp => hp

/-- Resolving a binding only looks. -/
theorem resolve (b : BindingId) : Upholds P (resolve b) := fun _ hp => hp

/-- A question upholds what its table does. -/
theorem asking {question : Symbols → List BindingId × Symbols}
    (h : ∀ s, P s → P (question s).2) : Upholds P (asking question) := fun p hp => h p.symbols hp

/-- The same computation for each of a list. -/
theorem mapM {f : α → Lowering β} (hf : ∀ a, Upholds P (f a)) :
    ∀ as : List α, Upholds P (as.mapM f)
  | [] => .pure []
  | a :: as => by
      rw [List.mapM_cons]
      exact (hf a).bind fun _ => (mapM hf as).bind fun _ => .pure _

end Upholds

/-! ## §3. Steps that leave the table alone. -/

/-- A default is a node. -/
theorem makeDefault_upholds (ty : Ty) : Upholds P (makeDefault ty) := by
  unfold makeDefault
  cases defaultValue ty with
  | ok m => exact .making m
  | error e => exact .throw e

/-- The type of storage is looked up. -/
theorem storageType_upholds (var : VarId) : Upholds P (storageType var) := by
  refine Upholds.get.bind fun p => ?_
  cases p.symbols.var? var with
  | some v => exact .pure _
  | none => exact .throw _

theorem storageDecl_upholds (span : Span) (var : VarId) : Upholds P (storageDecl span var) :=
  (storageType_upholds var).bind fun ty => (Upholds.making _).bind fun _ =>
    (makeDefault_upholds ty).bind fun _ => .making _

/-- A definition of storage is a node. -/
theorem storageDef_upholds (slot : Slot) : Upholds P (storageDef slot) :=
  (storageType_upholds slot.var).bind fun ty => (makeDefault_upholds ty).bind fun _ => .pure _

/-- An expression takes up slots that are in the table. -/
theorem decorateExpr_upholds (e : Expr) : Upholds P (decorateExpr e) := by
  refine Upholds.get.bind fun p => ?_
  cases p.stack.current.slots with
  | nil => exact .pure e
  | cons slot slots =>
      exact (Upholds.making _).bind fun _ =>
        (Upholds.mapM storageDef_upholds (slot :: slots)).bind fun _ => .making _

theorem offer_upholds (b : BindingId) (decl : Stmt) : Upholds P (offer b decl) := by
  intro p hp
  unfold reached offer
  cases p.stack.hoist? p.symbols b decl <;> exact hp

theorem declareSlots_upholds (span : Span) : ∀ slots, Upholds P (declareSlots span slots)
  | [] => .pure []
  | slot :: slots =>
      (storageDecl_upholds span slot.var).bind fun decl => (offer_upholds slot.binding decl).bind
        fun _ => (declareSlots_upholds span slots).bind fun _ => .pure _

/-- A statement offers declarations of slots that are. -/
theorem decorateStmt_upholds (s : Stmt) : Upholds P (decorateStmt s) :=
  Upholds.get.bind fun _ => (declareSlots_upholds s.span _).bind fun _ => .pure _

theorem close_upholds (d : Decorated) : Upholds P d.close := by
  obtain ⟨decls, stmt⟩ := d
  cases decls with
  | nil => exact .pure stmt
  | cons decl decls => exact (Upholds.making _).bind fun _ => .making _

theorem takeHoisted_upholds : Upholds P takeHoisted := fun _ hp => hp

/-- A reference is resolved without a change. -/
theorem lowerRef_upholds (b : BindingId) (ty : Ty) (span : Span) :
    Upholds P (lowerRef b ty span) := by
  refine (Upholds.resolve b).bind fun found => ?_
  cases found with
  | some var => exact (Upholds.making _).bind fun _ => .making _
  | none =>
      refine Upholds.get.bind fun p => ?_
      cases p.symbols.binding? b with
      | some symbol => exact .throw _
      | none => exact .throw _

/-- Storing a match makes nodes. -/
theorem storeMatch_upholds (var temp : VarId) (target tempTy : Ty) :
    Upholds P (storeMatch var temp target tempTy) := by
  have hcompare : ∀ stored : Expr, Upholds P (do
      let held ← making (Maker.var temp tempTy)
      let again ← making (Maker.cast target held)
      making (Maker.binary .eq stored again)) := fun _ =>
    (Upholds.making _).bind fun _ => (Upholds.making _).bind fun _ => .making _
  refine (storageType_upholds var).bind fun varTy => (Upholds.making _).bind fun _ =>
    (Upholds.making _).bind fun _ => (Upholds.making _).bind fun _ => (Upholds.making _).bind
      fun _ => ?_
  cases varTy.isPrimitive with
  | true =>
      simp only [if_true]
      exact (Upholds.making _).bind hcompare
  | false =>
      simp only [Bool.false_eq_true, if_false]
      exact (Upholds.pure _).bind hcompare

end

/-! ## §4. Steps that add to the table. -/

/-- What is kept when a variable is added, and when the oracle is asked. -/
structure Invariant (rules : Rules) (P : Symbols → Prop) : Prop where
  addVar : ∀ {s : Symbols} (name : String) (ty : Ty) (owner : Option String) (synthetic : Bool),
    P s → P (s.addVar name ty owner synthetic).2
  flow : ∀ (cond : Expr) (outcome : Bool) {s : Symbols}, P s → P (rules.flow cond outcome s).2

variable {rules : Rules} {P : Symbols → Prop}

namespace Invariant

variable (h : Invariant rules P)

include h

/-- A question about a condition, for one outcome. -/
theorem asking (cond : Expr) (outcome : Bool) : Upholds P (asking (rules.flow cond outcome)) :=
  .asking fun _ hs => h.flow cond outcome hs

/-- And for both. -/
theorem asking_all (cond : Expr) : Upholds P (Lowering.asking (rules.flow.all cond)) :=
  .asking fun _ hs => h.flow cond false (h.flow cond true hs)

/-- The storage of a frame is allocated variable by variable. -/
theorem allocate (st : Stack) : ∀ (bindings : List BindingId) (made : List Slot) {s : Symbols},
    P s → P (st.allocate made bindings s).2
  | [], _, _, hs => hs
  | b :: bs, made, s, hs => by
      unfold Stack.allocate
      split
      · exact allocate st bs made hs
      · split
        · exact allocate st bs made hs
        · exact allocate st bs _ (h.addVar _ _ _ _ hs)

/-- A frame adds its storage, and takes nothing out again when it is left. -/
theorem within {kind : FrameKind} {bindings : List BindingId} {body : Lowering α}
    (hbody : Upholds P body) : Upholds P (within kind bindings body) := by
  intro p hp
  have henter : P (p.enter kind bindings).symbols := h.allocate p.stack bindings [] hp
  have hend := hbody _ henter
  -- leaving the frame changes the stack only, after a result as after an error
  unfold reached at hend ⊢
  rw [within_apply]
  cases hrun : body (p.enter kind bindings) <;> simp only [hrun] at hend ⊢ <;> exact hend

/-- The facts for the operands are such a question. -/
theorem operandFacts (op : BinOp) (left : Expr) : Upholds P (operandFacts rules.flow op left) := by
  cases op with
  | and | or => exact h.asking left _
  | _ => exact .pure []

/-- So are the facts of a condition that may be missing. -/
theorem condFacts? : ∀ cond, Upholds P (condFacts? rules.flow cond)
  | none => .pure []
  | some cond => h.asking_all cond

/-- A type test adds its temporary. -/
theorem lowerTest (operandTy : Ty) (operand : Expr) (pattern : BindingPattern) (span : Span) :
    Upholds P (lowerTest rules operandTy operand pattern span) := by
  refine Upholds.get.bind fun p => ?_
  cases p.symbols.binding? pattern.binding with
  | none => exact .throw _
  | some symbol =>
      refine Upholds.bind (fun q hq => h.addVar _ _ _ _ hq) fun temp => (Upholds.making _).bind
        fun _ => ?_
      have hplain : ∀ test : Expr, Upholds P (making (Maker.letIn [(temp, operand)] test)) :=
        fun _ => .making _
      have hstored : ∀ (var : VarId) (test : Expr), Upholds P (do
          let stored ← storeMatch var temp symbol.ty.erasure.boxed
            (if operandTy.isNull then .object else operandTy)
          let test ← making (Maker.binary .and test stored)
          making (Maker.letIn [(temp, operand)] test)) := fun var _ =>
        (storeMatch_upholds var temp _ _).bind fun _ => (Upholds.making _).bind hplain
      -- behind the temporary only nodes are made, whether or not the test is certain
      cases certain rules operandTy pattern symbol.ty.erasure.boxed with
      | true =>
          simp only [if_true]
          refine (Upholds.making _).bind fun test => (Upholds.resolve _).bind fun found => ?_
          cases found with
          | some var => exact hstored var test
          | none => exact hplain test
      | false =>
          simp only [Bool.false_eq_true, if_false]
          refine (Upholds.making _).bind fun _ => (Upholds.making _).bind fun test =>
            (Upholds.resolve _).bind fun found => ?_
          cases found with
          | some var => exact hstored var test
          | none => exact hplain test

end Invariant

/-! ## §5. The pass. -/

mutual
/-- What the additions keep, lowering an expression keeps. -/
theorem lowerExpr_upholds (h : Invariant rules P) : ∀ e, Upholds P (lowerExpr rules e)
  | .ident i (.binding b) => lowerRef_upholds b i.ty i.span
  | .ident i (.var v) => .pure (Expr.ident i (.var v))
  | .literal i v => .pure (Expr.literal i v)
  | .unary _ _ operand => (lowerExpr_upholds h operand).bind fun _ => .pure _
  | .binary _ op left right =>
      (h.operandFacts op left).bind fun _ => h.within <|
        (lowerExpr_upholds h left).bind fun _ => (lowerExpr_upholds h right).bind fun _ =>
          decorateExpr_upholds _
  | .conditional _ cond yes no =>
      (h.asking_all cond).bind fun _ => h.within <|
        (lowerExpr_upholds h cond).bind fun _ => (lowerExpr_upholds h yes).bind fun _ =>
          (lowerExpr_upholds h no).bind fun _ => decorateExpr_upholds _
  | .assign _ target value =>
      (lowerExpr_upholds h target).bind fun _ => (lowerExpr_upholds h value).bind fun _ => .pure _
  | .cast _ _ operand => (lowerExpr_upholds h operand).bind fun _ => .pure _
  | .instanceOf _ operand _ => (lowerExpr_upholds h operand).bind fun _ => .pure _
  | .typeTest i operand pattern =>
      (lowerExpr_upholds h operand).bind fun lowered =>
        h.lowerTest operand.ty lowered pattern i.span
  | .call _ _ args => (lowerExprs_upholds h args).bind fun _ => .pure _
  | .methodCall _ receiver _ args =>
      (lowerExpr_upholds h receiver).bind fun _ => (lowerExprs_upholds h args).bind fun _ =>
        .pure _
  | .letIn _ defs body =>
      (lowerDefs_upholds h defs).bind fun _ => (lowerExpr_upholds h body).bind fun _ => .pure _
/-- Expressions uphold it, one after the other. -/
theorem lowerExprs_upholds (h : Invariant rules P) (es : List Expr) :
    Upholds P (lowerExprs rules es) := by
  cases es with
  | nil => exact .pure []
  | cons e es =>
      exact (lowerExpr_upholds h e).bind fun _ => (lowerExprs_upholds h es).bind fun _ => .pure _
/-- So do the values of definitions. -/
theorem lowerDefs_upholds (h : Invariant rules P) (defs : List (VarId × Expr)) :
    Upholds P (lowerDefs rules defs) := by
  cases defs with
  | nil => exact .pure []
  | cons d ds =>
      obtain ⟨x, e⟩ := d
      exact (lowerExpr_upholds h e).bind fun _ => (lowerDefs_upholds h ds).bind fun _ => .pure _
end

/-- So does an expression that may be missing. -/
theorem lowerExpr?_upholds (h : Invariant rules P) : ∀ e, Upholds P (lowerExpr? rules e)
  | none => .pure none
  | some e => (lowerExpr_upholds h e).bind fun _ => .pure _

mutual
/-- What the additions keep, lowering a statement keeps. -/
theorem lowerParts_upholds (h : Invariant rules P) : ∀ s, Upholds P (lowerParts rules s)
  | .expr _ e => (lowerExpr_upholds h e).bind fun _ => .pure _
  | .decl _ _ value => (lowerExpr?_upholds h value).bind fun _ => .pure _
  | .block _ stmts => h.within <| (lowerBlock_upholds h stmts).bind fun _ => .pure _
  | .ifElse _ cond yes no =>
      (h.asking_all cond).bind fun _ => h.within <|
        (lowerExpr_upholds h cond).bind fun _ => (lowerParts_upholds h yes).bind fun d =>
          (close_upholds d).bind fun _ => (lowerStmt?_upholds h no).bind fun _ =>
            decorateStmt_upholds _
  | .whileDo _ cond body =>
      (h.asking_all cond).bind fun _ => h.within <|
        (lowerExpr_upholds h cond).bind fun _ => (lowerParts_upholds h body).bind fun d =>
          (close_upholds d).bind fun _ => decorateStmt_upholds _
  | .doWhile _ body cond =>
      (h.asking_all cond).bind fun _ => h.within <|
        (lowerParts_upholds h body).bind fun d => (close_upholds d).bind fun _ =>
          (lowerExpr_upholds h cond).bind fun _ => decorateStmt_upholds _
  | .forDo _ start cond step body =>
      (h.condFacts? cond).bind fun _ => h.within <|
        (lowerStmts_upholds h start).bind fun _ => (lowerExpr?_upholds h cond).bind fun _ =>
          (lowerExprs_upholds h step).bind fun _ => (lowerParts_upholds h body).bind fun d =>
            (close_upholds d).bind fun _ => decorateStmt_upholds _
  | .labeled _ _ body => (lowerParts_upholds h body).bind fun _ => .pure _
  | .ret _ value => (lowerExpr?_upholds h value).bind fun _ => .pure _
  | .brk i label => .pure (Decorated.mk [] (.brk i label))
  | .cont i label => .pure (Decorated.mk [] (.cont i label))
/-- So do the statements of a block. -/
theorem lowerBlock_upholds (h : Invariant rules P) (ss : List Stmt) :
    Upholds P (lowerBlock rules ss) := by
  cases ss with
  | nil => exact .pure []
  | cons s ss =>
      exact (lowerParts_upholds h s).bind fun d => (close_upholds d).bind fun _ =>
        takeHoisted_upholds.bind fun _ => (lowerBlock_upholds h ss).bind fun _ => .pure _
/-- So do statements that are none. -/
theorem lowerStmts_upholds (h : Invariant rules P) (ss : List Stmt) :
    Upholds P (lowerStmts rules ss) := by
  cases ss with
  | nil => exact .pure []
  | cons s ss =>
      exact (lowerParts_upholds h s).bind fun d => (close_upholds d).bind fun _ =>
        (lowerStmts_upholds h ss).bind fun _ => .pure _
/-- So does a branch that may be missing. -/
theorem lowerStmt?_upholds (h : Invariant rules P) : ∀ s, Upholds P (lowerStmt? rules s)
  | none => .pure none
  | some s =>
      (lowerParts_upholds h s).bind fun d => (close_upholds d).bind fun _ => .pure _
end

/-- So do methods. -/
theorem lowerMethods_upholds (h : Invariant rules P) : ∀ ms, Upholds P (lowerMethods rules ms)
  | [] => .pure []
  | m :: ms => by
      have hmethod : Upholds P (lowerMethod rules m) :=
        (lowerStmt?_upholds h m.body).bind fun _ => .pure _
      exact hmethod.bind fun _ => (lowerMethods_upholds h ms).bind fun _ => .pure _

/-- So does a class. -/
theorem lowerClass_upholds (h : Invariant rules P) (c : Class) : Upholds P (lowerClass rules c) :=
  (lowerMethods_upholds h c.methods).bind fun _ => .pure _

/-- Class after class, and where an error stops it. -/
theorem lowerClasses_upholds (h : Invariant rules P) : ∀ (cs : List Class) {s : Symbols},
    P s → P (lowerClasses rules cs s).symbols
  | [], _, hs => hs
  | c :: cs, s, hs => by
      have hclass : P (reached (lowerClass rules c) (.start s)).symbols :=
        lowerClass_upholds h c (.start s) hs
      unfold reached at hclass
      unfold lowerClasses
      cases hrun : lowerClass rules c (.start s) with
      | error e q =>
          -- what the class had added by then stays
          simp only [hrun] at hclass ⊢
          exact hclass
      | ok c' q =>
          simp only [hrun] at hclass ⊢
          exact lowerClasses_upholds h cs hclass

/-! ## §6. The structural oracle. -/

/-- Variables are added at the end, and the oracle adds unified bindings only. -/
theorem extends_kept (hierarchy : Hierarchy) (s : Symbols) :
    Invariant ⟨hierarchy, Flow.matchBindings⟩ fun t => s.Extends t ∧ t.Indexed where
  addVar _ _ _ _ ht := ⟨ht.1.addVar, ht.2.addVar⟩
  flow cond outcome _ ht := by
    refine Flow.matchBindings_keeps (P := fun t => s.Extends t ∧ t.Indexed) ?_ cond outcome ht
    exact fun ht hm => ⟨ht.1.merge hm, ht.2.merge hm⟩

end Lowering

/-- **The table only grows.**  Whether lowering succeeds or fails, it leaves every
variable and every binding where it was, with all its fields; the bindings it
adds are unified ones behind what they unify; and each symbol, old or new,
carries its place.  The table of a program that is lowered is the table left. -/
theorem Program.lower_extends (p : Program) (h : p.symbols.Indexed) :
    p.symbols.Extends (p.lowerClasses Flow.matchBindings).symbols
      ∧ (p.lowerClasses Flow.matchBindings).symbols.Indexed
      ∧ ∀ p', p.lower Flow.matchBindings = .ok p' →
        p'.symbols = (p.lowerClasses Flow.matchBindings).symbols := by
  have hkept := Lowering.extends_kept p.hierarchy p.symbols
  obtain ⟨hextends, hindexed⟩ := Lowering.lowerClasses_upholds hkept p.classes ⟨.refl _, h⟩
  refine ⟨hextends, hindexed, fun p' hp => ?_⟩
  obtain ⟨-, rfl⟩ := Lowering.lower_eq_ok hp
  rfl

namespace Lowering.Unfinished

/-- A parameter `o`, and two bindings `x` of type `String`. -/
def symbols : Symbols :=
  (((Symbols.empty.addVar "o" .object none false).2.addBinding "x" .string none).2.addBinding "x"
    .string none).2

/-- `o instanceof String x` -/
def test (b : Nat) : Expr :=
  .typeTest ⟨0, .boolean, .nowhere⟩ (.ident ⟨0, .object, .nowhere⟩ (.var ⟨0⟩)) ⟨⟨b⟩, some .string⟩

/-- `(o instanceof String x || o instanceof String x) && x`, where the last `x`
is a binding that no table has. -/
def read : Expr :=
  .binary ⟨0, .boolean, .nowhere⟩ .and (.binary ⟨0, .boolean, .nowhere⟩ .or (test 0) (test 1))
    (.ident ⟨0, .string, .nowhere⟩ (.binding ⟨9⟩))

/-- The method that evaluates it, with the parameter `o`. -/
def method : Method :=
  ⟨0, "m", [⟨0⟩], .void, some (.expr ⟨0, .nowhere⟩ read), .nowhere⟩

/-- The method alone, in a table with both patterns. -/
def program : Program := ⟨[⟨0, "C", none, [], [method], .nowhere⟩], symbols⟩

/-- The pass stops at the unknown binding.  By then it has unified the two tests
and added a variable for that and two temporaries, all at the end of the table. -/
theorem lower_extends_unfinished :
    program.symbols.Indexed
      ∧ (program.lowerClasses Flow.matchBindings).error = some (.unknownBinding ⟨9⟩)
      ∧ (program.lowerClasses Flow.matchBindings).symbols.bindings.size = 3
      ∧ (program.lowerClasses Flow.matchBindings).symbols.vars.size = 4
      ∧ program.symbols.Extends (program.lowerClasses Flow.matchBindings).symbols
      ∧ (program.lowerClasses Flow.matchBindings).symbols.Indexed := by
  have hindexed : program.symbols.Indexed := Symbols.Indexed.empty.addVar.addBinding.addBinding
  obtain ⟨hextends, hafter, -⟩ := program.lower_extends hindexed
  exact ⟨hindexed, by decide +kernel, by decide +kernel, by decide +kernel, hextends, hafter⟩

end Lowering.Unfinished

end PatternIR
