/-
  PatternIR.Proofs.Lowering.Discipline
  ────────────────────────────────────
  **THE STACK ON EVERY EXIT.**

  A step of the pass that fails keeps the state it reached, and so does the
  caller it fails in.  What a step does to the stack is therefore stated for
  the state in which it ends, whether with a result or with an error: a
  relation between the stack before and after, which composes along `>>=`
  because the second step starts where the first one ended.

  Three relations are enough.  An expression leaves the stack equal.  A
  statement may leave declarations in the current frame, if that is a block
  (`Stack.Gains`).  The body of a frame may leave them in the frame around its
  own (`Stack.Gives`), which is what is left of them once its own is popped.

    • `Sat` — a relation between the stack before and after, on every exit;
    • `Sat.within` — from the body of a frame to the whole construct;
    • `lower_leaves_stack` — expressions, statements, methods and classes.
-/
import Mathlib.Order.Defs.Unbundled
import PatternIR.Proofs.Lowering.Steps

namespace PatternIR

/-! ## §1. Frames that take over declarations. -/

/-- What a frame may take over: a block any declarations, each of the variable
of its slot; another frame nothing. -/
structure FrameKind.Admits (kind : FrameKind) (taken : List (Slot × Stmt)) : Prop where
  onlyBlock : taken = [] ∨ kind = .block
  declares : ∀ x ∈ taken, Stack.declaredVar? x.2 = some x.1.var

/-- Any frame may take over nothing. -/
theorem FrameKind.Admits.nil (kind : FrameKind) : kind.Admits [] :=
  ⟨.inl rfl, fun _ hx => nomatch hx⟩

/-- What a frame may take over in two goes it may take over at once. -/
theorem FrameKind.Admits.append {kind : FrameKind} {taken more : List (Slot × Stmt)}
    (h : kind.Admits taken) (hmore : kind.Admits more) : kind.Admits (taken ++ more) where
  onlyBlock := by
    rcases h.onlyBlock with rfl | hblock
    · exact hmore.onlyBlock
    · exact .inr hblock
  declares x hx := (List.mem_append.mp hx).elim (h.declares x) (hmore.declares x)

/-- Only a block takes over anything. -/
theorem FrameKind.Admits.eq_nil {kind : FrameKind} {taken : List (Slot × Stmt)}
    (h : kind.Admits taken) (hkind : kind ≠ .block) : taken = [] :=
  h.onlyBlock.resolve_right hkind

/-- The innermost of some frames has taken over declarations; the others are as they were. -/
inductive GainsOnTop : List Frame → List Frame → Prop
  | nil : GainsOnTop [] []
  | top {f : Frame} {rest : List Frame} {taken : List (Slot × Stmt)} (h : f.kind.Admits taken) :
      GainsOnTop (f :: rest) (f.gain taken :: rest)

namespace GainsOnTop

/-- Frames that stay as they are. -/
theorem refl : ∀ fs : List Frame, GainsOnTop fs fs
  | [] => .nil
  | f :: rest => by
      have h : GainsOnTop (f :: rest) (f.gain [] :: rest) := .top (.nil f.kind)
      rwa [Frame.gain_nil] at h

/-- What is taken over in two goes is taken over. -/
theorem trans {fs gs hs : List Frame} (h : GainsOnTop fs gs) (h' : GainsOnTop gs hs) :
    GainsOnTop fs hs := by
  cases h with
  | nil => exact h'
  | top htaken =>
      cases h' with
      | top hmore =>
          rw [Frame.gain_gain]
          exact .top (htaken.append hmore)

end GainsOnTop

namespace Stack

/-- The current frame has taken over declarations; nothing else changed. -/
def Gains (st st' : Stack) : Prop := GainsOnTop st.frames st'.frames

/-- The frame around the current one has taken over declarations; the frames
around that one are as they were. -/
def Gives (st st' : Stack) : Prop := GainsOnTop st.enclosing st'.enclosing

instance : IsPreorder Stack Gains where
  refl st := GainsOnTop.refl st.frames
  trans _ _ _ := GainsOnTop.trans

instance : IsPreorder Stack Gives where
  refl st := GainsOnTop.refl st.enclosing
  trans _ _ _ := GainsOnTop.trans

/-- What a stack has gained, its current frame has taken over. -/
theorem Gains.eq {st st' : Stack} (h : st.Gains st') :
    ∃ taken, st.current.kind.Admits taken ∧ st' = st.gain taken := by
  obtain ⟨f, fs⟩ := st
  obtain ⟨f', fs'⟩ := st'
  cases h with
  | top htaken => exact ⟨_, htaken, rfl⟩

/-- What the current frame takes over is nothing to the frames around it. -/
theorem Gains.gives {st st' : Stack} (h : st.Gains st') : st.Gives st' := by
  obtain ⟨taken, -, rfl⟩ := h.eq
  exact refl_of Gives st

/-- Only a block takes over a declaration, and stores it with its variable. -/
theorem gives_of_hoist? {st st' : Stack} {s : Symbols} {b : BindingId} {decl : Stmt}
    (h : st.hoist? s b decl = some st') : st.Gives st' := by
  obtain ⟨f, fs⟩ := st
  cases fs with
  | nil => exact nomatch h
  | cons parent rest =>
      cases hvar : declaredVar? decl with
      | none =>
          simp only [hoist?, hvar] at h
          exact nomatch h
      | some var =>
          simp only [hoist?, hvar] at h
          split at h
          case isTrue haccept =>
            injection h with h
            subst h
            -- every other kind of frame would have rejected it
            have hblock : parent.kind = .block := by
              cases hkind : parent.kind with
              | block => rfl
              | root | binary | conditional | statement =>
                  rw [hkind] at haccept
                  exact nomatch haccept
            have hadmits : parent.kind.Admits [(⟨b, var⟩, decl)] := by
              refine ⟨.inr hblock, fun x hx => ?_⟩
              cases List.mem_singleton.mp hx
              exact hvar
            exact .top hadmits
          case isFalse => exact nomatch h

end Stack

namespace Lowering

variable {α β : Type}

/-! ## §2. The state at the end. -/

/-- The state in which a step ends, with a result or with an error. -/
def reached (c : Lowering α) (p : Pass) : Pass :=
  match c p with
  | .ok _ q => q
  | .error _ q => q

/-- A computation that succeeds reaches the state it ends in. -/
theorem reached_of_ok {c : Lowering α} {p q : Pass} {a : α} (h : c p = .ok a q) :
    reached c p = q := by
  rw [reached, h]

/-- A step relates the stack before to the stack at its end by `R`. -/
def Sat (R : Stack → Stack → Prop) (c : Lowering α) : Prop :=
  ∀ p, R p.stack (reached c p).stack

variable {R : Stack → Stack → Prop} [IsPreorder Stack R]

/-- A step that leaves the stack equal satisfies every preorder. -/
theorem Sat.of_eq {c : Lowering α} (h : Sat Eq c) : Sat R c := fun p => by
  rw [← h p]
  exact refl_of R p.stack

/-- An error ends the second step where it ended the first. -/
theorem Sat.bind {c : Lowering α} {f : α → Lowering β} (hc : Sat R c) (hf : ∀ a, Sat R (f a)) :
    Sat R (c >>= f) := by
  intro p
  have hfirst := hc p
  unfold reached at hfirst ⊢
  rw [bind_apply]
  cases hok : c p with
  | ok a q =>
      -- the second step begins on the stack that the first one left
      simp only [hok] at hfirst ⊢
      exact trans_of R hfirst (hf a q)
  | error e q =>
      simp only [hok] at hfirst ⊢
      exact hfirst

theorem Sat.pure (a : α) : Sat R (Pure.pure a : Lowering α) := fun p => refl_of R p.stack

/-- An error without an effect. -/
theorem Sat.throw (e : LowerError) : Sat R (MonadExcept.throw e : Lowering α) :=
  fun p => refl_of R p.stack

/-- Looking at the state does not change it. -/
theorem Sat.get : Sat R (MonadState.get : Lowering Pass) := fun p => refl_of R p.stack

/-- Making nodes does not touch the stack. -/
theorem Sat.making (m : Making α) : Sat R (making m) := fun p => refl_of R p.stack

/-- A question changes the table alone. -/
theorem Sat.asking (question : Symbols → List BindingId × Symbols) : Sat R (asking question) :=
  fun p => refl_of R p.stack

/-- Resolving a binding only looks. -/
theorem Sat.resolve (b : BindingId) : Sat R (resolve b) := fun p => refl_of R p.stack

/-- The same computation for each of a list. -/
theorem Sat.mapM {f : α → Lowering β} (hf : ∀ a, Sat R (f a)) : ∀ as : List α, Sat R (as.mapM f)
  | [] => .pure []
  | a :: as => by
      rw [List.mapM_cons]
      exact (hf a).bind fun _ => (Sat.mapM hf as).bind fun _ => .pure _

/-! ## §3. Frames are left on every exit. -/

/-- However the body of a frame ends, the frame is popped. -/
theorem reached_within (kind : FrameKind) (bindings : List BindingId) (body : Lowering α)
    (p : Pass) : (reached (within kind bindings body) p).stack
      = (reached body (p.enter kind bindings)).stack.pop := by
  unfold reached
  rw [within_apply]
  cases body (p.enter kind bindings) <;> rfl

/-- What the body leaves around its own frame is what the construct leaves. -/
theorem Sat.within {kind : FrameKind} {bindings : List BindingId} {body : Lowering α}
    (h : Sat Stack.Gives body) : Sat Stack.Gains (within kind bindings body) := by
  intro p
  have hbody : GainsOnTop p.stack.frames (reached body (p.enter kind bindings)).stack.enclosing :=
    h (p.enter kind bindings)
  rw [reached_within]
  -- whatever the frame of the body has become, popping it leaves those around it
  revert hbody
  obtain ⟨f, fs⟩ := (reached body (p.enter kind bindings)).stack
  rintro (_ | htaken)
  exact .top htaken

/-- A frame that is opened and closed leaves the stack as it was. -/
theorem Sat.within_eq {kind : FrameKind} {bindings : List BindingId} {body : Lowering α}
    (h : Sat Eq body) : Sat Eq (Lowering.within kind bindings body) := by
  intro p
  rw [reached_within, ← h (p.enter kind bindings)]
  rfl

/-! ## §4. Storage and patterns. -/

/-- A default is a node. -/
theorem makeDefault_sat (ty : Ty) : Sat Eq (makeDefault ty) := by
  unfold makeDefault
  cases defaultValue ty with
  | ok m => exact .making m
  | error e => exact .throw e

/-- The type of storage is looked up. -/
theorem storageType_sat (var : VarId) : Sat Eq (storageType var) := by
  refine Sat.get.bind fun p => ?_
  cases p.symbols.var? var with
  | some v => exact .pure _
  | none => exact .throw _

/-- A declaration of storage is a node. -/
theorem storageDecl_sat (span : Span) (var : VarId) : Sat Eq (storageDecl span var) :=
  (storageType_sat var).bind fun ty => (Sat.making _).bind fun _ =>
    (makeDefault_sat ty).bind fun _ => .making _

/-- So is a definition of one. -/
theorem storageDef_sat (slot : Slot) : Sat Eq (storageDef slot) :=
  (storageType_sat slot.var).bind fun ty => (makeDefault_sat ty).bind fun _ => .pure _

/-- The slots of a frame are defined in front of its expression; the stack is as it was. -/
theorem decorateExpr_sat (e : Expr) : Sat Eq (decorateExpr e) := by
  refine Sat.get.bind fun p => ?_
  cases p.stack.current.slots with
  | nil => exact .pure e
  | cons slot slots =>
      exact (Sat.making _).bind fun _ =>
        (Sat.mapM storageDef_sat (slot :: slots)).bind fun _ => .making _

/-- A declaration that is offered is taken over by a block around, or by nobody. -/
theorem offer_sat (b : BindingId) (decl : Stmt) : Sat Stack.Gives (offer b decl) := by
  intro p
  cases hhoist : p.stack.hoist? p.symbols b decl with
  | some st =>
      have hok : offer b decl p = .ok [] { p with stack := st } := by
        rw [offer, hhoist]
      rw [reached_of_ok hok]
      exact Stack.gives_of_hoist? hhoist
  | none =>
      have hok : offer b decl p = .ok [decl] p := by
        rw [offer, hhoist]
      rw [reached_of_ok hok]
      exact refl_of Stack.Gives p.stack

/-- A later slot may fail: the block keeps what it has taken over from the earlier ones. -/
theorem declareSlots_sat (span : Span) : ∀ slots, Sat Stack.Gives (declareSlots span slots)
  | [] => .pure []
  | slot :: slots =>
      (storageDecl_sat span slot.var).of_eq.bind fun decl => (offer_sat slot.binding decl).bind
        fun _ => (declareSlots_sat span slots).bind fun _ => .pure _

/-- So are those of all slots of a statement. -/
theorem decorateStmt_sat (s : Stmt) : Sat Stack.Gives (decorateStmt s) :=
  Sat.get.bind fun _ => (declareSlots_sat s.span _).bind fun _ => .pure _

/-- Closing it makes a block at most. -/
theorem close_sat (d : Decorated) : Sat Eq d.close := by
  obtain ⟨decls, stmt⟩ := d
  cases decls with
  | nil => exact .pure stmt
  | cons decl decls => exact (Sat.making _).bind fun _ => .making _

/-- What a block has taken over is taken out of it; the frames around are as they were. -/
theorem takeHoisted_sat : Sat Stack.Gives takeHoisted := fun p => GainsOnTop.refl p.stack.enclosing

/-- A reference is resolved in the stack as it is. -/
theorem lowerRef_sat (b : BindingId) (ty : Ty) (span : Span) : Sat Eq (lowerRef b ty span) := by
  refine (Sat.resolve b).bind fun found => ?_
  cases found with
  | some var => exact (Sat.making _).bind fun _ => .making _
  | none =>
      refine Sat.get.bind fun p => ?_
      cases p.symbols.binding? b with
      | some symbol => exact .throw _
      | none => exact .throw _

/-- Storing a match makes nodes. -/
theorem storeMatch_sat (var temp : VarId) (target tempTy : Ty) :
    Sat Eq (storeMatch var temp target tempTy) := by
  refine (storageType_sat var).bind fun varTy => (Sat.making _).bind fun _ =>
    (Sat.making _).bind fun _ => (Sat.making _).bind fun _ => (Sat.making _).bind fun _ => ?_
  cases varTy.isPrimitive with
  | true =>
      simp only [if_true]
      exact (Sat.making _).bind fun _ => (Sat.making _).bind fun _ => (Sat.making _).bind fun _ =>
        .making _
  | false =>
      simp only [Bool.false_eq_true, if_false]
      exact (Sat.pure _).bind fun _ => (Sat.making _).bind fun _ => (Sat.making _).bind fun _ =>
        .making _

/-- The second half of a type test, from where the storage of the binding is looked up. -/
theorem storeTest_sat (b : BindingId) (temp : VarId) (target tempTy : Ty) (operand test : Expr) :
    Sat Eq (resolve b >>= fun found => match found with
      | some var => storeMatch var temp target tempTy >>= fun stored =>
          making (Maker.binary .and test stored) >>= fun test =>
            making (Maker.letIn [(temp, operand)] test)
      | none => making (Maker.letIn [(temp, operand)] test)) := by
  refine (Sat.resolve b).bind fun found => ?_
  cases found with
  | some var =>
      exact (storeMatch_sat var temp target tempTy).bind fun _ => (Sat.making _).bind fun _ =>
        .making _
  | none => exact .making _

/-- A test is lowered in the stack as it is. -/
theorem lowerTest_sat (rules : Rules) (operandTy : Ty) (operand : Expr) (pattern : BindingPattern)
    (span : Span) : Sat Eq (lowerTest rules operandTy operand pattern span) := by
  refine Sat.get.bind fun p => ?_
  cases p.symbols.binding? pattern.binding with
  | none => exact .throw _
  | some symbol =>
      -- the temporary changes the table only
      refine Sat.bind (fun q => rfl) fun temp => (Sat.making _).bind fun _ => ?_
      cases certain rules operandTy pattern symbol.ty.erasure.boxed with
      | true =>
          simp only [if_true]
          exact (Sat.making _).bind fun _ => storeTest_sat _ _ _ _ _ _
      | false =>
          simp only [Bool.false_eq_true, if_false]
          exact (Sat.making _).bind fun _ => (Sat.making _).bind fun _ => storeTest_sat _ _ _ _ _ _

/-! ## §5. Expressions leave the stack as it is. -/

/-- The facts for the operands are a question. -/
theorem operandFacts_sat (flow : Oracle) (op : BinOp) (left : Expr) :
    Sat Eq (operandFacts flow op left) := by
  cases op with
  | and | or => exact .asking _
  | _ => exact .pure []

mutual
/-- What an expression enters it leaves, and what its parts fail with it fails
with in the stack they leave. -/
theorem lowerExpr_sat (rules : Rules) : ∀ e, Sat Eq (lowerExpr rules e)
  | .ident i (.binding b) => lowerRef_sat b i.ty i.span
  | .ident i (.var v) => .pure (Expr.ident i (.var v))
  | .literal i v => .pure (Expr.literal i v)
  | .unary _ _ operand => (lowerExpr_sat rules operand).bind fun _ => .pure _
  | .binary _ op left right =>
      (operandFacts_sat rules.flow op left).bind fun _ => .within_eq <|
        (lowerExpr_sat rules left).bind fun _ => (lowerExpr_sat rules right).bind fun _ =>
          decorateExpr_sat _
  | .conditional _ cond yes no =>
      (Sat.asking _).bind fun _ => .within_eq <|
        (lowerExpr_sat rules cond).bind fun _ => (lowerExpr_sat rules yes).bind fun _ =>
          (lowerExpr_sat rules no).bind fun _ => decorateExpr_sat _
  | .assign _ target value =>
      (lowerExpr_sat rules target).bind fun _ => (lowerExpr_sat rules value).bind fun _ =>
        .pure _
  | .cast _ _ operand => (lowerExpr_sat rules operand).bind fun _ => .pure _
  | .instanceOf _ operand _ => (lowerExpr_sat rules operand).bind fun _ => .pure _
  | .typeTest i operand pattern =>
      (lowerExpr_sat rules operand).bind fun lowered =>
        lowerTest_sat rules operand.ty lowered pattern i.span
  | .call _ _ args => (lowerExprs_sat rules args).bind fun _ => .pure _
  | .methodCall _ receiver _ args =>
      (lowerExpr_sat rules receiver).bind fun _ => (lowerExprs_sat rules args).bind fun _ =>
        .pure _
  | .letIn _ defs body =>
      (lowerDefs_sat rules defs).bind fun _ => (lowerExpr_sat rules body).bind fun _ => .pure _
/-- Expressions leave the stack as it was, one after the other. -/
theorem lowerExprs_sat (rules : Rules) (es : List Expr) : Sat Eq (lowerExprs rules es) := by
  cases es with
  | nil => exact .pure []
  | cons e es =>
      exact (lowerExpr_sat rules e).bind fun _ => (lowerExprs_sat rules es).bind fun _ => .pure _
/-- So do the values of definitions. -/
theorem lowerDefs_sat (rules : Rules) (defs : List (VarId × Expr)) :
    Sat Eq (lowerDefs rules defs) := by
  cases defs with
  | nil => exact .pure []
  | cons d ds =>
      obtain ⟨x, e⟩ := d
      exact (lowerExpr_sat rules e).bind fun _ => (lowerDefs_sat rules ds).bind fun _ => .pure _
end

/-- So does an expression that may be missing. -/
theorem lowerExpr?_sat (rules : Rules) : ∀ e, Sat Eq (lowerExpr? rules e)
  | none => .pure none
  | some e => (lowerExpr_sat rules e).bind fun _ => .pure _

/-! ## §6. Statements leave declarations to the block they stand in. -/

/-- The facts of a condition are a question. -/
theorem condFacts?_sat (flow : Oracle) : ∀ cond, Sat Eq (condFacts? flow cond)
  | none => .pure []
  | some cond => .asking (flow.all cond)

/-- A statement that stands directly in a frame gives nothing to the frame around it. -/
theorem Sat.gives {c : Lowering α} (h : Sat Stack.Gains c) : Sat Stack.Gives c :=
  fun p => (h p).gives

mutual
/-- **The parts of a statement leave the stack with what they gain.** -/
theorem lowerParts_sat (rules : Rules) : ∀ s, Sat Stack.Gains (lowerParts rules s)
  | .expr _ e => (lowerExpr_sat rules e).of_eq.bind fun _ => .pure _
  | .decl _ _ value => (lowerExpr?_sat rules value).of_eq.bind fun _ => .pure _
  | .block _ stmts => .within <| (lowerBlock_sat rules stmts).bind fun _ => .pure _
  | .ifElse _ cond yes no =>
      (Sat.asking _).bind fun _ => .within <|
        (lowerExpr_sat rules cond).of_eq.bind fun _ =>
          (lowerParts_sat rules yes).gives.bind fun d => (close_sat d).of_eq.bind fun _ =>
            (lowerStmt?_sat rules no).gives.bind fun _ => decorateStmt_sat _
  | .whileDo _ cond body =>
      (Sat.asking _).bind fun _ => .within <|
        (lowerExpr_sat rules cond).of_eq.bind fun _ =>
          (lowerParts_sat rules body).gives.bind fun d => (close_sat d).of_eq.bind fun _ =>
            decorateStmt_sat _
  | .doWhile _ body cond =>
      (Sat.asking _).bind fun _ => .within <|
        (lowerParts_sat rules body).gives.bind fun d => (close_sat d).of_eq.bind fun _ =>
          (lowerExpr_sat rules cond).of_eq.bind fun _ => decorateStmt_sat _
  | .forDo _ start cond step body =>
      (condFacts?_sat rules.flow cond).of_eq.bind fun _ => .within <|
        (lowerStmts_sat rules start).gives.bind fun _ =>
          (lowerExpr?_sat rules cond).of_eq.bind fun _ =>
            (lowerExprs_sat rules step).of_eq.bind fun _ =>
              (lowerParts_sat rules body).gives.bind fun d => (close_sat d).of_eq.bind fun _ =>
                decorateStmt_sat _
  | .labeled _ _ body => (lowerParts_sat rules body).bind fun _ => .pure _
  | .ret _ value => (lowerExpr?_sat rules value).of_eq.bind fun _ => .pure _
  | .brk i label => .pure (Decorated.mk [] (.brk i label))
  | .cont i label => .pure (Decorated.mk [] (.cont i label))
/-- The statements of a block leave the frames around it, but for what the first takes over. -/
theorem lowerBlock_sat (rules : Rules) (ss : List Stmt) : Sat Stack.Gives (lowerBlock rules ss) := by
  cases ss with
  | nil => exact .pure []
  | cons s ss =>
      exact (lowerParts_sat rules s).gives.bind fun d => (close_sat d).of_eq.bind fun _ =>
        takeHoisted_sat.bind fun _ => (lowerBlock_sat rules ss).bind fun _ => .pure _
/-- Statements gain one after the other. -/
theorem lowerStmts_sat (rules : Rules) (ss : List Stmt) : Sat Stack.Gains (lowerStmts rules ss) := by
  cases ss with
  | nil => exact .pure []
  | cons s ss =>
      exact (lowerParts_sat rules s).bind fun d => (close_sat d).of_eq.bind fun _ =>
        (lowerStmts_sat rules ss).bind fun _ => .pure _
/-- A branch that is missing gains nothing. -/
theorem lowerStmt?_sat (rules : Rules) : ∀ s, Sat Stack.Gains (lowerStmt? rules s)
  | none => .pure none
  | some s =>
      (lowerParts_sat rules s).bind fun d => (close_sat d).of_eq.bind fun _ => .pure _
end

/-- A statement gains what its parts do. -/
theorem lowerStmt_sat (rules : Rules) (s : Stmt) : Sat Stack.Gains (lowerStmt rules s) :=
  (lowerParts_sat rules s).bind fun d => (close_sat d).of_eq

/-! ## §7. Methods and classes. -/

/-- A method gains what its body does. -/
theorem lowerMethod_sat (rules : Rules) (m : Method) : Sat Stack.Gains (lowerMethod rules m) :=
  (lowerStmt?_sat rules m.body).bind fun _ => .pure _

/-- Methods gain one after the other. -/
theorem lowerMethods_sat (rules : Rules) : ∀ ms, Sat Stack.Gains (lowerMethods rules ms)
  | [] => .pure []
  | m :: ms =>
      (lowerMethod_sat rules m).bind fun _ => (lowerMethods_sat rules ms).bind fun _ => .pure _

/-- A class gains what its methods do. -/
theorem lowerClass_sat (rules : Rules) (c : Class) : Sat Stack.Gains (lowerClass rules c) :=
  (lowerMethods_sat rules c.methods).bind fun _ => .pure _

/-- The root takes nothing over, so what starts on the bare root ends on it. -/
theorem Sat.bare {c : Lowering α} (h : Sat Stack.Gains c) (symbols : Symbols) (maker : Maker) :
    (reached c ⟨symbols, .bare, maker⟩).stack = .bare := by
  obtain ⟨taken, hadmits, heq⟩ := (h ⟨symbols, .bare, maker⟩).eq
  have hnone : taken = [] := hadmits.eq_nil (by simp [Stack.bare])
  rw [heq, hnone, Stack.gain_nil]

/-- **The stack on every exit.**  Whether it succeeds or fails, lowering an
expression ends on the stack it began with; lowering a statement ends on the
same frames below the current one and the current one itself, to which slots
and their declarations may have been added if it is a block; and on the bare
root a method, the methods of a class one after the other, and a class each
end on the bare root again. -/
theorem lower_leaves_stack (rules : Rules) :
    (∀ e p, (reached (lowerExpr rules e) p).stack = p.stack)
    ∧ (∀ s p, ∃ taken : List (Slot × Stmt),
        (taken = [] ∨ p.stack.current.kind = .block)
        ∧ (∀ x ∈ taken, Stack.declaredVar? x.2 = some x.1.var)
        ∧ (reached (lowerStmt rules s) p).stack
          = { current := { p.stack.current with
                slots := p.stack.current.slots ++ taken.map Prod.fst
                hoisted := p.stack.current.hoisted ++ taken.map Prod.snd }
              enclosing := p.stack.enclosing })
    ∧ (∀ m symbols maker, (reached (lowerMethod rules m) ⟨symbols, .bare, maker⟩).stack = .bare)
    ∧ (∀ ms symbols, (reached (lowerMethods rules ms) (Pass.start symbols)).stack = .bare)
    ∧ (∀ c symbols, (reached (lowerClass rules c) (Pass.start symbols)).stack = .bare) := by
  refine ⟨fun e p => (lowerExpr_sat rules e p).symm, fun s p => ?_, fun m => ?_, fun ms s => ?_,
    fun c s => ?_⟩
  · obtain ⟨taken, hadmits, heq⟩ := (lowerStmt_sat rules s p).eq
    exact ⟨taken, hadmits.onlyBlock, hadmits.declares, heq⟩
  · exact (lowerMethod_sat rules m).bare
  · exact (lowerMethods_sat rules ms).bare s _
  · exact (lowerClass_sat rules c).bare s _

end Lowering

end PatternIR
