/-
  PatternIR.Proofs.Lowering.Nodes
  ───────────────────────────────
  **WHAT BECOMES OF THE NODES OF A TREE.**

  A node of the source is rebuilt over its lowered parts, where it stood, or it
  is a pattern and gives way to nodes the pass makes.  A list that is read off
  a tree node by node is therefore the same before and after, if a rebuilt node
  has in it what the node of the source had, and the made ones have nothing.

      o instanceof String s           and also of the output:
      the list of the source          let t = o; in t instanceof String && …
      has `o`, not the pattern        has `o`, not what was made around it

    • `Expr.SameNode`, `Stmt.SameNode` — a node over other parts;
    • `Expr.IsMade`, `Stmt.IsMade` — nodes as the pass makes them;
    • `Listing` — such a way to read lists;
    • `lowerExpr_lists`, `lowerParts_lists` — the list is the same;
    • `lower_keeps_order` — the nodes of the source, in their order;
    • `lower_no_patterns` — no pattern is left.
-/
import Mathlib.Data.List.Basic
import PatternIR.Proofs.Lowering.Blocks

namespace PatternIR

variable {α : Type}

/-! ## §1. Nodes. -/

namespace Expr

/-- A type test, or a reference to a binding. -/
def isPattern : Expr → Bool
  | typeTest _ _ _ => true
  | ident _ (.binding _) => true
  | _ => false

/-- The same node over other parts. -/
inductive SameNode : Expr → Expr → Prop
  | literal (i : ExprInfo) (v : Literal) : SameNode (literal i v) (literal i v)
  | ident (i : ExprInfo) (sym : Sym) : SameNode (ident i sym) (ident i sym)
  | unary (i : ExprInfo) (op : UnOp) (e e' : Expr) : SameNode (unary i op e) (unary i op e')
  | binary (i : ExprInfo) (op : BinOp) (l r l' r' : Expr) :
      SameNode (binary i op l r) (binary i op l' r')
  | conditional (i : ExprInfo) (c y n c' y' n' : Expr) :
      SameNode (conditional i c y n) (conditional i c' y' n')
  | assign (i : ExprInfo) (t v t' v' : Expr) : SameNode (assign i t v) (assign i t' v')
  | cast (i : ExprInfo) (t : Ty) (e e' : Expr) : SameNode (cast i t e) (cast i t e')
  | instanceOf (i : ExprInfo) (t : Ty) (e e' : Expr) :
      SameNode (instanceOf i e t) (instanceOf i e' t)
  | call (i : ExprInfo) (f : String) {es es' : List Expr} (hlength : es'.length = es.length) :
      SameNode (call i f es) (call i f es')
  | methodCall (i : ExprInfo) (f : String) (e e' : Expr) {es es' : List Expr}
      (hlength : es'.length = es.length) : SameNode (methodCall i e f es) (methodCall i e' f es')
  | letIn (i : ExprInfo) (b b' : Expr) {ds ds' : List (VarId × Expr)}
      (hvars : ds'.map Prod.fst = ds.map Prod.fst) : SameNode (letIn i ds b) (letIn i ds' b')

/-- The forms of the expressions that the pass makes. -/
def madeKinds : List ExprKind :=
  [.literal, .ident, .binary, .logical, .assign, .cast, .instanceOf, .letIn]

/-- A node as the pass makes it: numbered from `firstId` on, of few forms, no pattern. -/
structure IsMade (e : Expr) : Prop where
  id : Lowering.firstId ≤ e.id
  kind : e.kind ∈ madeKinds
  plain : e.isPattern = false

/-- Every node of a tree is made. -/
def AllMade (e : Expr) : Prop := ∀ x ∈ e.walk, x.IsMade

end Expr

namespace Stmt

/-- The same node over other parts. -/
inductive SameNode : Stmt → Stmt → Prop
  | expr (i : StmtInfo) (e e' : Expr) : SameNode (expr i e) (expr i e')
  | decl (i : StmtInfo) (v : VarId) {e e' : Option Expr} (hvalue : e'.isSome = e.isSome) :
      SameNode (decl i v e) (decl i v e')
  | block (i : StmtInfo) (ss ss' : List Stmt) : SameNode (block i ss) (block i ss')
  | ifElse (i : StmtInfo) (c c' : Expr) (y y' : Stmt) {n n' : Option Stmt}
      (helse : n'.isSome = n.isSome) : SameNode (ifElse i c y n) (ifElse i c' y' n')
  | whileDo (i : StmtInfo) (c c' : Expr) (b b' : Stmt) :
      SameNode (whileDo i c b) (whileDo i c' b')
  | doWhile (i : StmtInfo) (c c' : Expr) (b b' : Stmt) :
      SameNode (doWhile i b c) (doWhile i b' c')
  | forDo (i : StmtInfo) (b b' : Stmt) {ss ss' : List Stmt} {c c' : Option Expr}
      {es es' : List Expr} (hstart : ss'.length = ss.length) (hcond : c'.isSome = c.isSome)
      (hstep : es'.length = es.length) : SameNode (forDo i ss c es b) (forDo i ss' c' es' b')
  | labeled (i : StmtInfo) (l : String) (b b' : Stmt) : SameNode (labeled i l b) (labeled i l b')
  | ret (i : StmtInfo) {e e' : Option Expr} (hvalue : e'.isSome = e.isSome) :
      SameNode (ret i e) (ret i e')
  | brk (i : StmtInfo) (l : Option String) : SameNode (brk i l) (brk i l)
  | cont (i : StmtInfo) (l : Option String) : SameNode (cont i l) (cont i l)

/-- A statement as the pass makes it: numbered from `firstId` on, a declaration or a block. -/
structure IsMade (s : Stmt) : Prop where
  id : Lowering.firstId ≤ s.id
  kind : s.kind = .decl ∨ s.kind = .block

/-- Every node of a tree is made. -/
structure AllMade (s : Stmt) : Prop where
  stmts : ∀ t ∈ s.walk, t.IsMade
  exprs : ∀ e ∈ s.walkExprs, e.IsMade

end Stmt

/-! ## §2. Lists. -/

/-- A way to read a list off a tree, node by node: nodes over other parts have
the same in it, and made ones have nothing. -/
structure Listing (α : Type) where
  ownS : Stmt → List α
  ownE : Expr → List α
  sameS : ∀ {s s'}, Stmt.SameNode s s' → ownS s' = ownS s
  sameE : ∀ {e e'}, Expr.SameNode e e' → ownE e' = ownE e
  madeS : ∀ {s}, Stmt.IsMade s → ownS s = []
  madeE : ∀ {e}, Expr.IsMade e → ownE e = []

namespace Listing

variable (L : Listing α)

/-- What the source has at an expression: at a pattern nothing. -/
def srcE (e : Expr) : List α := if e.isPattern then [] else L.ownE e

/-- A pattern is the one node that is not listed. -/
theorem srcE_pattern {e : Expr} (h : e.isPattern = true) : L.srcE e = [] := by
  rw [srcE, if_pos h]

/-- A node of the source that is no pattern, rebuilt. -/
theorem srcE_plain {e e' : Expr} (h : e.isPattern = false) (hsame : e.SameNode e') :
    L.srcE e = L.ownE e' := by
  rw [srcE, if_neg (by simp [h]), L.sameE hsame]

end Listing

/-- Of nodes the pass makes, nothing is listed. -/
theorem Expr.AllMade.gather {e : Expr} (h : e.AllMade) (L : Listing α) : e.gather L.ownE = [] :=
  List.flatMap_eq_nil_iff.mpr fun x hx => L.madeE (h x hx)

/-- Nor is anything of statements it makes. -/
theorem Stmt.AllMade.gather {s : Stmt} (h : s.AllMade) (L : Listing α) :
    s.gather L.ownS L.ownE = [] := by
  refine List.flatMap_eq_nil_iff.mpr ?_
  intro t ht
  refine List.append_eq_nil_iff.mpr ⟨L.madeS (h.stmts t ht), List.flatMap_eq_nil_iff.mpr ?_⟩
  intro e he
  exact L.madeE (h.exprs e (List.mem_flatMap.mpr ⟨t, ht, he⟩))

/-- Nor of several of them. -/
theorem Stmt.gatherAll_made {ss : List Stmt} (h : ∀ s ∈ ss, s.AllMade) (L : Listing α) :
    Stmt.gatherAll L.ownS L.ownE ss = [] := by
  induction ss with
  | nil => rfl
  | cons s ss ih =>
      rw [gatherAll_cons, (h s List.mem_cons_self).gather L,
        ih fun t ht => h t (List.mem_cons_of_mem _ ht)]
      rfl

/-- The list of the statements only. -/
theorem Stmt.gather_stmts (ownS : Stmt → List α) (s : Stmt) :
    s.gather ownS (fun _ => []) = s.walk.flatMap ownS := by
  simp [gather]

/-- The list of the expressions only. -/
theorem Stmt.gather_exprs (ownE : Expr → List α) (s : Stmt) :
    s.gather (fun _ => []) ownE = s.walkExprs.flatMap ownE := by
  simp [gather, walkExprs, Expr.gatherAll, List.flatMap_assoc]

namespace Lowering

/-! ## §3. The nodes the pass makes. -/

variable {p p' : Pass}

section

variable {id : NodeId} {ty : Ty} {span : Span} (hid : firstId ≤ id)

include hid

/-- A constant the pass makes. -/
theorem literal_made (v : Literal) : (Expr.literal ⟨id, ty, span⟩ v).AllMade := by
  intro x hx
  rw [List.mem_singleton.mp hx]
  exact ⟨hid, by simp [Expr.kind, Expr.madeKinds], rfl⟩

/-- A reference to a variable. -/
theorem ident_made (v : VarId) : (Expr.ident ⟨id, ty, span⟩ (.var v)).AllMade := by
  intro x hx
  rw [List.mem_singleton.mp hx]
  exact ⟨hid, by simp [Expr.kind, Expr.madeKinds], rfl⟩

/-- An operator between nodes it makes. -/
theorem binary_made (op : BinOp) {l r : Expr} (hl : l.AllMade) (hr : r.AllMade) :
    (Expr.binary ⟨id, ty, span⟩ op l r).AllMade := by
  intro x hx
  rcases List.mem_cons.mp hx with rfl | hx
  · refine ⟨hid, ?_, rfl⟩
    cases op <;> simp [Expr.kind, BinOp.isLogical, Expr.madeKinds]
  · rcases List.mem_append.mp hx with hx | hx
    · exact hl x hx
    · exact hr x hx

/-- An assignment. -/
theorem assign_made {t v : Expr} (ht : t.AllMade) (hv : v.AllMade) :
    (Expr.assign ⟨id, ty, span⟩ t v).AllMade := by
  intro x hx
  rcases List.mem_cons.mp hx with rfl | hx
  · exact ⟨hid, by simp [Expr.kind, Expr.madeKinds], rfl⟩
  · rcases List.mem_append.mp hx with hx | hx
    · exact ht x hx
    · exact hv x hx

/-- A cast. -/
theorem cast_made (t : Ty) {e : Expr} (he : e.AllMade) : (Expr.cast ⟨id, ty, span⟩ t e).AllMade := by
  intro x hx
  rcases List.mem_cons.mp hx with rfl | hx
  · exact ⟨hid, by simp [Expr.kind, Expr.madeKinds], rfl⟩
  · exact he x hx

/-- A test for a type. -/
theorem instanceOf_made (t : Ty) {e : Expr} (he : e.AllMade) :
    (Expr.instanceOf ⟨id, ty, span⟩ e t).AllMade := by
  intro x hx
  rcases List.mem_cons.mp hx with rfl | hx
  · exact ⟨hid, by simp [Expr.kind, Expr.madeKinds], rfl⟩
  · exact he x hx

end

/-- A default is made by the pass. -/
theorem defaultNode_made {id : NodeId} (hid : firstId ≤ id) (span : Span) (ty : Ty) (v : Literal) :
    (defaultNode id span ty v).AllMade :=
  literal_made hid v

/-- So is a declaration with one. -/
theorem declNode_made {id : NodeId} (hid : firstId ≤ id) (span : Span) (var : VarId) (ty : Ty)
    (v : Literal) : (declNode id span var ty v).AllMade where
  stmts t ht := by
    rw [List.mem_singleton.mp ht]
    exact ⟨Nat.le_succ_of_le hid, .inl rfl⟩
  exprs e he := by
    refine defaultNode_made hid span ty v e ?_
    simpa [Stmt.walkExprs, Stmt.walk, declNode, Stmt.ownExprs, Expr.walkAll] using he

/-- So is a test for a match. -/
theorem matchNode_made {id : NodeId} (hid : firstId ≤ id) (span : Span) (isCertain : Bool)
    (temp : VarId) (target ty : Ty) : (matchNode id span isCertain temp target ty).AllMade := by
  cases isCertain with
  | true => exact literal_made hid _
  | false => exact instanceOf_made (Nat.le_succ_of_le hid) _ (ident_made hid _)

/-- So is the storing of a match. -/
theorem storeNode_made {id : NodeId} (hid : firstId ≤ id) (span : Span) (var temp : VarId)
    (varTy target ty : Ty) : (storeNode id span var temp varTy target ty).AllMade := by
  have hle : ∀ k : Nat, firstId ≤ id + k := fun k => Nat.le_trans hid (Nat.le_add_right _ _)
  have hheld : ∀ k, (castNode (id + k + 1) span target (heldNode (id + k) span temp ty)).AllMade :=
    fun k => cast_made (hle (k + 1)) _ (ident_made (hle k) _)
  have hassign : (assignNode id span var temp varTy target ty).AllMade :=
    assign_made (hle 3) (ident_made hid _) (hheld 1)
  unfold storeNode
  split
  · exact binary_made (hle 7) _ (cast_made (hle 4) _ hassign) (hheld 5)
  · exact binary_made (hle 6) _ hassign (hheld 4)

/-- Every tree that a type test of the temporary becomes. -/
theorem IsTest.made {span : Span} {isCertain : Bool} {temp : VarId} {target ty : Ty} {id : NodeId}
    {storage : Option (VarId × Ty)} {test : Expr} {size : Nat} (hid : firstId ≤ id)
    (h : IsTest span isCertain temp target ty id storage test size) : test.AllMade := by
  have hle : ∀ k : Nat, firstId ≤ id + k := fun k => Nat.le_trans hid (Nat.le_add_right _ _)
  cases h with
  | plain => exact matchNode_made hid span isCertain temp target ty
  | stored var varTy =>
      refine binary_made ?_ .and (matchNode_made hid span isCertain temp target ty)
        (storeNode_made (hle _) span var temp varTy target ty)
      exact Nat.le_trans (hle _) (Nat.le_add_right _ _)

/-! ## §4. Storage. -/

/-- The ids that are left and the declarations that wait to be emitted are those of the pass. -/
structure Pass.Made (p : Pass) : Prop where
  next : firstId ≤ p.maker.next
  hoisted : ∀ f ∈ p.stack.frames, ∀ d ∈ f.hoisted, d.AllMade

/-- More ids taken, and nothing else waiting. -/
theorem Pass.Made.later (h : p.Made) (hstack : p'.stack = p.stack)
    (hnext : p.maker.next ≤ p'.maker.next) : p'.Made := by
  refine ⟨Nat.le_trans h.next hnext, ?_⟩
  rw [hstack]
  exact h.hoisted

/-- Opening a frame puts no nodes into the stack. -/
theorem Pass.Made.enter (h : p.Made) (kind : FrameKind) (bindings : List BindingId) :
    (p.enter kind bindings).Made := by
  obtain ⟨news, syms, -, heq⟩ := enter_eq p kind bindings
  rw [heq]
  refine ⟨h.next, ?_⟩
  intro f hf
  rcases List.mem_cons.mp hf with rfl | hf
  · exact fun d hd => absurd hd List.not_mem_nil
  · exact h.hoisted f hf

/-- Closing one leaves the nodes of the others. -/
theorem Pass.Made.pop (h : p.Made) : Pass.Made { p with stack := p.stack.pop } := by
  refine ⟨h.next, ?_⟩
  intro f hf
  obtain ⟨s, ⟨current, enclosing⟩, maker⟩ := p
  cases enclosing with
  | nil => exact h.hoisted f hf
  | cons parent rest => exact h.hoisted f (List.mem_cons_of_mem _ hf)

/-- A frame takes over nodes that have what those before have. -/
theorem Stack.give_hoisted {P : Stmt → Prop} {st : Stack} {taken : List (Slot × Stmt)}
    (h : ∀ f ∈ st.frames, ∀ d ∈ f.hoisted, P d) (htaken : ∀ x ∈ taken, P x.2) :
    ∀ f ∈ (st.give taken).frames, ∀ d ∈ f.hoisted, P d := by
  obtain ⟨current, enclosing⟩ := st
  cases enclosing with
  | nil => exact h
  | cons parent rest =>
      intro f hf d hd
      rcases List.mem_cons.mp hf with rfl | hf
      · exact h _ List.mem_cons_self d hd
      · rcases List.mem_cons.mp hf with rfl | hf
        · rcases List.mem_append.mp hd with hd | hd
          · exact h parent (by simp [Stack.frames]) d hd
          · obtain ⟨x, hx, rfl⟩ := List.mem_map.mp hd
            exact htaken x hx
        · exact h f (by simp [Stack.frames, hf]) d hd

/-- The definitions of slots list nothing. -/
theorem DefinesSlots.gather {s : Symbols} {span : Span} {id : NodeId} {slots : List Slot}
    {defs : List (VarId × Expr)} (h : DefinesSlots s span id slots defs) (hid : firstId ≤ id)
    (L : Listing α) : Expr.gatherDefs L.ownE defs = [] := by
  induction h with
  | nil id => rfl
  | cons hsym hv rest ih =>
      rw [Expr.gatherDefs_cons, (defaultNode_made hid _ _ _).gather L, ih (Nat.le_succ_of_le hid)]
      rfl

/-- The declarations of slots are made by the pass. -/
theorem DeclaresSlots.made {s : Symbols} {span : Span} {takes : BindingId → Bool} {id : NodeId}
    {slots : List Slot} {refused : List Stmt} {taken : List (Slot × Stmt)}
    (h : DeclaresSlots s span takes id slots refused taken) (hid : firstId ≤ id) :
    (∀ d ∈ refused, d.AllMade) ∧ ∀ x ∈ taken, x.2.AllMade := by
  induction h with
  | nil id => exact ⟨fun d hd => absurd hd List.not_mem_nil, fun x hx => absurd hx List.not_mem_nil⟩
  | refuse hsym hv htakes rest ih =>
      obtain ⟨ih₁, ih₂⟩ := ih (Nat.le_add_right_of_le hid)
      refine ⟨?_, ih₂⟩
      intro d hd
      rcases List.mem_cons.mp hd with rfl | hd
      · exact declNode_made hid _ _ _ _
      · exact ih₁ d hd
  | take hsym hv htakes rest ih =>
      obtain ⟨ih₁, ih₂⟩ := ih (Nat.le_add_right_of_le hid)
      refine ⟨ih₁, ?_⟩
      intro x hx
      rcases List.mem_cons.mp hx with rfl | hx
      · exact declNode_made hid _ _ _ _
      · exact ih₂ x hx

/-- The let-expression around an expression has nothing of its own. -/
theorem decorateExpr_lists (L : Listing α) {e e' : Expr} (hp : p.Made)
    (h : decorateExpr e p = .ok e' p') : e'.gather L.ownE = e.gather L.ownE ∧ p'.Made := by
  rcases decorateExpr_eq_ok h with ⟨-, rfl, rfl⟩ | ⟨defs, hdefs, rfl, rfl⟩
  · exact ⟨rfl, hp⟩
  · have hmade : Expr.IsMade (.letIn ⟨p.maker.next + p.stack.current.slots.length, e.ty, e.span⟩
        defs e) :=
      ⟨Nat.le_add_right_of_le hp.next, by simp [Expr.kind, Expr.madeKinds], rfl⟩
    refine ⟨?_, hp.later rfl (Nat.le_add_right_of_le (Nat.le_add_right _ _))⟩
    rw [Expr.gather_letIn, L.madeE hmade, hdefs.gather hp.next L]
    rfl

/-- The let-expression for a type test has nothing of its own but its operand. -/
theorem lowerTest_lists (L : Listing α) {rules : Rules} {operandTy : Ty} {operand e : Expr}
    {pattern : BindingPattern} {span : Span} (hp : p.Made)
    (h : lowerTest rules operandTy operand pattern span p = .ok e p') :
    e.gather L.ownE = operand.gather L.ownE ∧ p'.Made := by
  obtain ⟨symbol, test, size, -, htest, -, rfl, rfl⟩ := lowerTest_eq_ok h
  have hmade : Expr.IsMade (.letIn ⟨p.maker.next + size, .boolean, span⟩
      [(⟨p.symbols.vars.size⟩, operand)] test) :=
    ⟨Nat.le_add_right_of_le hp.next, by simp [Expr.kind, Expr.madeKinds], rfl⟩
  refine ⟨?_, hp.later rfl (Nat.le_add_right_of_le (Nat.le_add_right _ _))⟩
  rw [Expr.gather_letIn, L.madeE hmade, Expr.gatherDefs_cons, (htest.made hp.next).gather L]
  simp

/-! ## §5. Expressions. -/

/-- A question makes no nodes. -/
theorem asking_made {q : Symbols → List BindingId × Symbols} {bs : List BindingId} (hp : p.Made)
    (h : asking q p = .ok bs p') : p'.Made := by
  obtain ⟨-, rfl⟩ := asking_eq_ok h
  exact hp.later rfl (Nat.le_refl _)

/-- Nor do the facts for the operands. -/
theorem operandFacts_made {flow : Oracle} {op : BinOp} {left : Expr} {bs : List BindingId}
    (hp : p.Made) (h : operandFacts flow op left p = .ok bs p') : p'.Made := by
  cases op with
  | and | or => exact asking_made hp h
  | _ =>
      obtain ⟨-, rfl⟩ := pure_eq_ok.mp h
      exact hp

variable {rules : Rules}

-- A listing reads nothing off a node the pass makes, so each case compares one node with
-- the node put in its place and leaves the rest to its parts. `Made` goes along because a
-- node counts as made by its id, which has to be `firstId` or more.
mutual
/-- **An expression**: what is read off it is read off its output, the patterns apart. -/
theorem lowerExpr_lists (L : Listing α) : ∀ (e : Expr) {e' : Expr} {p p' : Pass}, p.Made →
    lowerExpr rules e p = .ok e' p' → e'.gather L.ownE = e.gather L.srcE ∧ p'.Made
  | .literal i v, e', p, p', hp, h => by
      obtain ⟨rfl, rfl⟩ := pure_eq_ok.mp h
      rw [Expr.gather_literal, Expr.gather_literal, L.srcE_plain rfl (.literal i v)]
      exact ⟨rfl, hp⟩
  | .ident i (.var v), e', p, p', hp, h => by
      obtain ⟨rfl, rfl⟩ := pure_eq_ok.mp h
      rw [Expr.gather_ident, Expr.gather_ident, L.srcE_plain rfl (.ident i _)]
      exact ⟨rfl, hp⟩
  | .ident i (.binding b), e', p, p', hp, h => by
      obtain ⟨var, -, rfl, rfl⟩ := lowerRef_eq_ok h
      rw [Expr.gather_ident (i := i), L.srcE_pattern rfl]
      exact ⟨(ident_made hp.next var).gather L, hp.later rfl (Nat.le_succ _)⟩
  | .unary i op e, e', p, p', hp, h => by
      obtain ⟨x, hx, rfl⟩ := bind_pure_eq_ok.mp h
      obtain ⟨he, hp₁⟩ := lowerExpr_lists L e hp hx
      rw [Expr.gather_unary, Expr.gather_unary, L.srcE_plain rfl (.unary i op e x), he]
      exact ⟨rfl, hp₁⟩
  | .binary i op l r, e', p, p', hp, h => by
      obtain ⟨bs, p₁, x, q₁, y, q₂, q, hfacts, hx, hy, hdec, rfl⟩ := lowerExpr_binary_eq_ok h
      have hq := (operandFacts_made hp hfacts).enter .binary bs
      obtain ⟨hl, hq₁⟩ := lowerExpr_lists L l hq hx
      obtain ⟨hr, hq₂⟩ := lowerExpr_lists L r hq₁ hy
      obtain ⟨he', hq'⟩ := decorateExpr_lists L hq₂ hdec
      refine ⟨?_, hq'.pop⟩
      rw [he', Expr.gather_binary, Expr.gather_binary, L.srcE_plain rfl (.binary i op l r x y), hl, hr]
  | .conditional i c y z, e', p, p', hp, h => by
      obtain ⟨bs, p₁, x₁, q₁, x₂, q₂, x₃, q₃, q, hask, hx₁, hx₂, hx₃, hdec, rfl⟩ :=
        lowerExpr_conditional_eq_ok h
      have hq := (asking_made hp hask).enter .conditional bs
      obtain ⟨hc, hq₁⟩ := lowerExpr_lists L c hq hx₁
      obtain ⟨hy, hq₂⟩ := lowerExpr_lists L y hq₁ hx₂
      obtain ⟨hz, hq₃⟩ := lowerExpr_lists L z hq₂ hx₃
      obtain ⟨he', hq'⟩ := decorateExpr_lists L hq₃ hdec
      refine ⟨?_, hq'.pop⟩
      rw [he', Expr.gather_conditional, Expr.gather_conditional,
        L.srcE_plain rfl (.conditional i c y z x₁ x₂ x₃), hc, hy, hz]
  | .assign i t v, e', p, p', hp, h => by
      obtain ⟨x, p₁, y, hx, hy, rfl⟩ := bind_bind_pure_eq_ok.mp h
      obtain ⟨ht, hp₁⟩ := lowerExpr_lists L t hp hx
      obtain ⟨hv, hp₂⟩ := lowerExpr_lists L v hp₁ hy
      rw [Expr.gather_assign, Expr.gather_assign, L.srcE_plain rfl (.assign i t v x y), ht, hv]
      exact ⟨rfl, hp₂⟩
  | .cast i t e, e', p, p', hp, h => by
      obtain ⟨x, hx, rfl⟩ := bind_pure_eq_ok.mp h
      obtain ⟨he, hp₁⟩ := lowerExpr_lists L e hp hx
      rw [Expr.gather_cast, Expr.gather_cast, L.srcE_plain rfl (.cast i t e x), he]
      exact ⟨rfl, hp₁⟩
  | .instanceOf i e t, e', p, p', hp, h => by
      obtain ⟨x, hx, rfl⟩ := bind_pure_eq_ok.mp h
      obtain ⟨he, hp₁⟩ := lowerExpr_lists L e hp hx
      rw [Expr.gather_instanceOf, Expr.gather_instanceOf, L.srcE_plain rfl (.instanceOf i t e x), he]
      exact ⟨rfl, hp₁⟩
  | .typeTest i e pattern, e', p, p', hp, h => by
      obtain ⟨x, p₁, hx, htest⟩ := bind_eq_ok.mp h
      obtain ⟨he, hp₁⟩ := lowerExpr_lists L e hp hx
      rw [Expr.gather_typeTest, L.srcE_pattern rfl, List.nil_append, ← he]
      exact lowerTest_lists L hp₁ htest
  | .call i f args, e', p, p', hp, h => by
      obtain ⟨xs, hxs, rfl⟩ := bind_pure_eq_ok.mp h
      obtain ⟨hlength, hargs, hp₁⟩ := lowerExprs_lists L args hp hxs
      rw [Expr.gather_call, Expr.gather_call, L.srcE_plain rfl (.call i f hlength), hargs]
      exact ⟨rfl, hp₁⟩
  | .methodCall i e f args, e', p, p', hp, h => by
      obtain ⟨x, p₁, xs, hx, hxs, rfl⟩ := bind_bind_pure_eq_ok.mp h
      obtain ⟨he, hp₁⟩ := lowerExpr_lists L e hp hx
      obtain ⟨hlength, hargs, hp₂⟩ := lowerExprs_lists L args hp₁ hxs
      rw [Expr.gather_methodCall, Expr.gather_methodCall,
        L.srcE_plain rfl (.methodCall i f e x hlength), he, hargs]
      exact ⟨rfl, hp₂⟩
  | .letIn i defs body, e', p, p', hp, h => by
      obtain ⟨ds, p₁, x, hds, hx, rfl⟩ := bind_bind_pure_eq_ok.mp h
      obtain ⟨hvars, hdefs, hp₁⟩ := lowerDefs_lists L defs hp hds
      obtain ⟨hbody, hp₂⟩ := lowerExpr_lists L body hp₁ hx
      rw [Expr.gather_letIn, Expr.gather_letIn, L.srcE_plain rfl (.letIn i body x hvars), hdefs, hbody]
      exact ⟨rfl, hp₂⟩
theorem lowerExprs_lists (L : Listing α) : ∀ (es : List Expr) {es' : List Expr} {p p' : Pass},
    p.Made → lowerExprs rules es p = .ok es' p' →
      es'.length = es.length ∧ Expr.gatherAll L.ownE es' = Expr.gatherAll L.srcE es ∧ p'.Made
  | [], es', p, p', hp, h => by
      obtain ⟨rfl, rfl⟩ := pure_eq_ok.mp h
      exact ⟨rfl, rfl, hp⟩
  | e :: es, es', p, p', hp, h => by
      obtain ⟨x, p₁, xs, hx, hxs, rfl⟩ := bind_bind_pure_eq_ok.mp h
      obtain ⟨he, hp₁⟩ := lowerExpr_lists L e hp hx
      obtain ⟨hlength, hes, hp₂⟩ := lowerExprs_lists L es hp₁ hxs
      rw [Expr.gatherAll_cons, Expr.gatherAll_cons, he, hes, List.length_cons, hlength]
      exact ⟨rfl, rfl, hp₂⟩
theorem lowerDefs_lists (L : Listing α) : ∀ (ds : List (VarId × Expr)) {ds' : List (VarId × Expr)}
    {p p' : Pass}, p.Made → lowerDefs rules ds p = .ok ds' p' →
      ds'.map Prod.fst = ds.map Prod.fst
        ∧ Expr.gatherDefs L.ownE ds' = Expr.gatherDefs L.srcE ds ∧ p'.Made
  | [], ds', p, p', hp, h => by
      obtain ⟨rfl, rfl⟩ := pure_eq_ok.mp h
      exact ⟨rfl, rfl, hp⟩
  | (v, e) :: ds, ds', p, p', hp, h => by
      obtain ⟨x, p₁, xs, hx, hxs, rfl⟩ := bind_bind_pure_eq_ok.mp h
      obtain ⟨he, hp₁⟩ := lowerExpr_lists L e hp hx
      obtain ⟨hvars, hds, hp₂⟩ := lowerDefs_lists L ds hp₁ hxs
      rw [Expr.gatherDefs_cons, Expr.gatherDefs_cons, he, hds, List.map_cons, List.map_cons, hvars]
      exact ⟨rfl, rfl, hp₂⟩
end

theorem lowerExpr?_lists (L : Listing α) {e e' : Option Expr} (hp : p.Made)
    (h : lowerExpr? rules e p = .ok e' p') :
    e'.isSome = e.isSome
      ∧ Expr.gatherAll L.ownE e'.toList = Expr.gatherAll L.srcE e.toList ∧ p'.Made := by
  cases e with
  | none =>
      obtain ⟨rfl, rfl⟩ := pure_eq_ok.mp h
      exact ⟨rfl, rfl, hp⟩
  | some e =>
      obtain ⟨x, hx, rfl⟩ := bind_pure_eq_ok.mp h
      obtain ⟨he, hp₁⟩ := lowerExpr_lists L e hp hx
      refine ⟨rfl, ?_, hp₁⟩
      rw [Option.toList_some, Option.toList_some, Expr.gatherAll_cons, Expr.gatherAll_cons, he]
      rfl

/-! ## §6. Statements. -/

/-- A statement behind its declarations in a block, if there are any: the block
and the declarations have nothing. -/
theorem close_lists (L : Listing α) {d : Decorated} {s : Stmt} (hp : p.Made)
    (hdecls : ∀ x ∈ d.decls, x.AllMade) (h : d.close p = .ok s p') :
    s.gather L.ownS L.ownE = d.stmt.gather L.ownS L.ownE ∧ p'.Made := by
  rcases close_eq_ok h with ⟨-, rfl, rfl⟩ | ⟨-, rfl, rfl⟩
  · exact ⟨rfl, hp⟩
  · have hmade : Stmt.IsMade (.block ⟨p.maker.next, d.stmt.span⟩ (d.decls ++ [d.stmt])) :=
      ⟨hp.next, .inr rfl⟩
    refine ⟨?_, hp.later rfl (Nat.le_succ _)⟩
    rw [Stmt.gather_block, L.madeS hmade, Stmt.gatherAll_append, Stmt.gatherAll_made hdecls L]
    simp

/-- A statement at the end of its frame, with the storage of the frame in front. -/
theorem decorateStmt_lists (L : Listing α) {stmt : Stmt} {d : Decorated} (hp : p.Made)
    (h : decorateStmt stmt p = .ok d p') :
    (∀ x ∈ d.decls, x.AllMade) ∧ d.stmt.gather L.ownS L.ownE = stmt.gather L.ownS L.ownE
      ∧ p'.Made := by
  obtain ⟨refused, taken, hdecl, rfl, rfl⟩ := decorateStmt_eq_ok h
  obtain ⟨hrefused, htaken⟩ := hdecl.made hp.next
  refine ⟨hrefused, rfl, ?_, ?_⟩
  · exact Nat.le_add_right_of_le hp.next
  · exact Stack.give_hoisted hp.hoisted htaken

/-- Nor do the facts of a condition that may be missing. -/
theorem condFacts?_made {flow : Oracle} {cond : Option Expr} {bs : List BindingId} (hp : p.Made)
    (h : condFacts? flow cond p = .ok bs p') : p'.Made := by
  cases cond with
  | none =>
      obtain ⟨-, rfl⟩ := pure_eq_ok.mp h
      exact hp
  | some cond =>
      have hask : asking (flow.all cond) p = .ok bs p' := h
      exact asking_made hp hask

/-- What a block has emitted no longer waits. -/
theorem Pass.Made.emit (hp : p.Made) : p.emit.Made := by
  refine ⟨hp.next, ?_⟩
  intro f hf
  rcases List.mem_cons.mp hf with rfl | hf
  · exact fun d hd => absurd hd List.not_mem_nil
  · exact hp.hoisted f (List.mem_cons_of_mem _ hf)

mutual
/-- **A statement with its declarations**: what is read off it is read off its
output, and the declarations are the pass's own. -/
theorem lowerParts_lists (L : Listing α) : ∀ (s : Stmt) {d : Decorated} {p p' : Pass}, p.Made →
    lowerParts rules s p = .ok d p' →
      (∀ x ∈ d.decls, x.AllMade)
        ∧ d.stmt.gather L.ownS L.ownE = s.gather L.ownS L.srcE ∧ p'.Made
  | .expr i e, d, p, p', hp, h => by
      obtain ⟨x, hx, rfl⟩ := bind_pure_eq_ok.mp h
      obtain ⟨he, hp₁⟩ := lowerExpr_lists L e hp hx
      refine ⟨fun y hy => absurd hy List.not_mem_nil, ?_, hp₁⟩
      rw [Stmt.gather_expr, Stmt.gather_expr, L.sameS (.expr i e x), he]
  | .decl i v e, d, p, p', hp, h => by
      obtain ⟨x, hx, rfl⟩ := bind_pure_eq_ok.mp h
      obtain ⟨hsome, he, hp₁⟩ := lowerExpr?_lists L hp hx
      refine ⟨fun y hy => absurd hy List.not_mem_nil, ?_, hp₁⟩
      rw [Stmt.gather_decl, Stmt.gather_decl, L.sameS (.decl i v hsome), he]
  | .ret i e, d, p, p', hp, h => by
      obtain ⟨x, hx, rfl⟩ := bind_pure_eq_ok.mp h
      obtain ⟨hsome, he, hp₁⟩ := lowerExpr?_lists L hp hx
      refine ⟨fun y hy => absurd hy List.not_mem_nil, ?_, hp₁⟩
      rw [Stmt.gather_ret, Stmt.gather_ret, L.sameS (.ret i hsome), he]
  | .brk i l, d, p, p', hp, h => by
      obtain ⟨rfl, rfl⟩ := pure_eq_ok.mp h
      refine ⟨fun y hy => absurd hy List.not_mem_nil, ?_, hp⟩
      rw [Stmt.gather_brk, Stmt.gather_brk]
  | .cont i l, d, p, p', hp, h => by
      obtain ⟨rfl, rfl⟩ := pure_eq_ok.mp h
      refine ⟨fun y hy => absurd hy List.not_mem_nil, ?_, hp⟩
      rw [Stmt.gather_cont, Stmt.gather_cont]
  | .block i ss, d, p, p', hp, h => by
      obtain ⟨out, q, hout, rfl, rfl⟩ := lowerParts_block_eq_ok h
      obtain ⟨hss, hq⟩ := lowerBlock_lists L ss (hp.enter .block []) hout
      refine ⟨fun y hy => absurd hy List.not_mem_nil, ?_, hq.pop⟩
      rw [Stmt.gather_block, Stmt.gather_block, L.sameS (.block i ss out), hss]
  | .ifElse i c y z, d, p, p', hp, h => by
      obtain ⟨bs, p₁, x, q₁, dy, q₂, y', q₃, z', q₄, q, hask, hx, hy, hclose, hz, hdec, rfl⟩ :=
        lowerParts_ifElse_eq_ok h
      have hq := (asking_made hp hask).enter .statement bs
      obtain ⟨hc, hq₁⟩ := lowerExpr_lists L c hq hx
      obtain ⟨hdecls, hyes, hq₂⟩ := lowerParts_lists L y hq₁ hy
      obtain ⟨hsame, hq₃⟩ := close_lists L hq₂ hdecls hclose
      obtain ⟨hsome, hno, hq₄⟩ := lowerStmt?_lists L z hq₃ hz
      -- only the declarations around the statement are new, and those are made by the pass
      obtain ⟨hmade, hd, hq'⟩ := decorateStmt_lists L hq₄ hdec
      refine ⟨hmade, ?_, hq'.pop⟩
      rw [hd, Stmt.gather_ifElse, Stmt.gather_ifElse, L.sameS (.ifElse i c x y y' hsome), hc,
        hsame, hyes, hno]
  | .whileDo i c b, d, p, p', hp, h => by
      obtain ⟨bs, p₁, x, q₁, db, q₂, b', q₃, q, hask, hx, hb, hclose, hdec, rfl⟩ :=
        lowerParts_whileDo_eq_ok h
      have hq := (asking_made hp hask).enter .statement bs
      obtain ⟨hc, hq₁⟩ := lowerExpr_lists L c hq hx
      obtain ⟨hdecls, hbody, hq₂⟩ := lowerParts_lists L b hq₁ hb
      obtain ⟨hsame, hq₃⟩ := close_lists L hq₂ hdecls hclose
      obtain ⟨hmade, hd, hq'⟩ := decorateStmt_lists L hq₃ hdec
      refine ⟨hmade, ?_, hq'.pop⟩
      rw [hd, Stmt.gather_whileDo, Stmt.gather_whileDo, L.sameS (.whileDo i c x b b'), hc, hsame, hbody]
  | .doWhile i b c, d, p, p', hp, h => by
      obtain ⟨bs, p₁, db, q₁, b', q₂, x, q₃, q, hask, hb, hclose, hx, hdec, rfl⟩ :=
        lowerParts_doWhile_eq_ok h
      have hq := (asking_made hp hask).enter .statement bs
      obtain ⟨hdecls, hbody, hq₁⟩ := lowerParts_lists L b hq hb
      obtain ⟨hsame, hq₂⟩ := close_lists L hq₁ hdecls hclose
      obtain ⟨hc, hq₃⟩ := lowerExpr_lists L c hq₂ hx
      obtain ⟨hmade, hd, hq'⟩ := decorateStmt_lists L hq₃ hdec
      refine ⟨hmade, ?_, hq'.pop⟩
      rw [hd, Stmt.gather_doWhile, Stmt.gather_doWhile, L.sameS (.doWhile i c x b b'), hc, hsame, hbody]
  | .forDo i ss c es b, d, p, p', hp, h => by
      obtain ⟨bs, p₁, ss', q₁, c', q₂, es', q₃, db, q₄, b', q₅, q, hask, hss, hc, hes, hb, hclose,
        hdec, rfl⟩ := lowerParts_forDo_eq_ok h
      have hq := (condFacts?_made hp hask).enter .statement bs
      obtain ⟨hstart, hss, hq₁⟩ := lowerStmts_lists L ss hq hss
      obtain ⟨hcond, hc, hq₂⟩ := lowerExpr?_lists L hq₁ hc
      obtain ⟨hstep, hes, hq₃⟩ := lowerExprs_lists L es hq₂ hes
      obtain ⟨hdecls, hbody, hq₄⟩ := lowerParts_lists L b hq₃ hb
      obtain ⟨hsame, hq₅⟩ := close_lists L hq₄ hdecls hclose
      obtain ⟨hmade, hd, hq'⟩ := decorateStmt_lists L hq₅ hdec
      refine ⟨hmade, ?_, hq'.pop⟩
      rw [hd, Stmt.gather_forDo, Stmt.gather_forDo, L.sameS (.forDo i b b' hstart hcond hstep), hss, hc,
        hes, hsame, hbody]
  | .labeled i l b, d, p, p', hp, h => by
      obtain ⟨db, hb, rfl⟩ := bind_pure_eq_ok.mp h
      obtain ⟨hdecls, hbody, hp₁⟩ := lowerParts_lists L b hp hb
      refine ⟨hdecls, ?_, hp₁⟩
      rw [Stmt.gather_labeled, Stmt.gather_labeled, L.sameS (.labeled i l b db.stmt), hbody]
/-- **The statements of a block**, with the declarations it emits among them. -/
theorem lowerBlock_lists (L : Listing α) : ∀ (ss : List Stmt) {out : List Stmt} {p p' : Pass},
    p.Made → lowerBlock rules ss p = .ok out p' →
      Stmt.gatherAll L.ownS L.ownE out = Stmt.gatherAll L.ownS L.srcE ss ∧ p'.Made
  | [], out, p, p', hp, h => by
      obtain ⟨rfl, rfl⟩ := pure_eq_ok.mp h
      exact ⟨rfl, hp⟩
  | s :: ss, out, p, p', hp, h => by
      obtain ⟨d, p₁, lowered, p₂, rest, hd, hclose, hrest, rfl⟩ := lowerBlock_cons_eq_ok h
      obtain ⟨hdecls, hs, hp₁⟩ := lowerParts_lists L s hp hd
      obtain ⟨hsame, hp₂⟩ := close_lists L hp₁ hdecls hclose
      obtain ⟨hss, hp₄⟩ := lowerBlock_lists L ss hp₂.emit hrest
      have hwaiting := hp₂.hoisted p₂.stack.current List.mem_cons_self
      rw [Stmt.gatherAll_append, Stmt.gatherAll_made hwaiting L, List.nil_append,
        Stmt.gatherAll_cons, Stmt.gatherAll_cons, hsame, hs, hss]
      exact ⟨rfl, hp₄⟩
theorem lowerStmts_lists (L : Listing α) : ∀ (ss : List Stmt) {out : List Stmt} {p p' : Pass},
    p.Made → lowerStmts rules ss p = .ok out p' →
      out.length = ss.length
        ∧ Stmt.gatherAll L.ownS L.ownE out = Stmt.gatherAll L.ownS L.srcE ss ∧ p'.Made
  | [], out, p, p', hp, h => by
      obtain ⟨rfl, rfl⟩ := pure_eq_ok.mp h
      exact ⟨rfl, rfl, hp⟩
  | s :: ss, out, p, p', hp, h => by
      obtain ⟨d, p₁, lowered, p₂, rest, hd, hclose, hrest, rfl⟩ := lowerStmts_cons_eq_ok h
      obtain ⟨hdecls, hs, hp₁⟩ := lowerParts_lists L s hp hd
      obtain ⟨hsame, hp₂⟩ := close_lists L hp₁ hdecls hclose
      obtain ⟨hlength, hss, hp₃⟩ := lowerStmts_lists L ss hp₂ hrest
      rw [Stmt.gatherAll_cons, Stmt.gatherAll_cons, hsame, hs, hss, List.length_cons, hlength]
      exact ⟨rfl, rfl, hp₃⟩
theorem lowerStmt?_lists (L : Listing α) : ∀ (s : Option Stmt) {out : Option Stmt} {p p' : Pass},
    p.Made → lowerStmt? rules s p = .ok out p' →
      out.isSome = s.isSome
        ∧ Stmt.gatherOpt L.ownS L.ownE out = Stmt.gatherOpt L.ownS L.srcE s ∧ p'.Made
  | none, out, p, p', hp, h => by
      obtain ⟨rfl, rfl⟩ := pure_eq_ok.mp h
      exact ⟨rfl, rfl, hp⟩
  | some s, out, p, p', hp, h => by
      obtain ⟨d, p₁, lowered, hd, hclose, rfl⟩ := lowerStmt?_some_eq_ok h
      obtain ⟨hdecls, hs, hp₁⟩ := lowerParts_lists L s hp hd
      obtain ⟨hsame, hp₂⟩ := close_lists L hp₁ hdecls hclose
      exact ⟨rfl, hsame.trans hs, hp₂⟩
end

/-! ## §7. Classes and programs. -/

end Lowering

/-- The method with another body, off which the same is read. -/
structure Method.RebuiltAs (m m' : Method) : Prop where
  header : m' = { m with body := m'.body }
  body : m'.body.isSome = m.body.isSome
  lists : ∀ {α : Type} (L : Listing α),
    Stmt.gatherOpt L.ownS L.ownE m'.body = Stmt.gatherOpt L.ownS L.srcE m.body

/-- The class with other bodies of its methods. -/
structure Class.RebuiltAs (c c' : Class) : Prop where
  header : c' = { c with methods := c'.methods }
  methods : List.Forall₂ Method.RebuiltAs c.methods c'.methods

namespace Lowering

/-- At the start no declaration waits in the stack. -/
theorem Pass.Made.start (s : Symbols) : (Pass.start s).Made := by
  refine ⟨Nat.le_refl _, ?_⟩
  intro f hf
  rw [List.mem_singleton.mp hf]
  exact fun d hd => absurd hd List.not_mem_nil

/-- The same of methods one after the other. -/
theorem lowerMethods_rebuilt : ∀ (ms : List Method) {out : List Method} {p p' : Pass}, p.Made →
    lowerMethods rules ms p = .ok out p' → List.Forall₂ Method.RebuiltAs ms out
  | [], out, p, p', hp, h => by
      obtain ⟨rfl, rfl⟩ := pure_eq_ok.mp h
      exact .nil
  | m :: ms, out, p, p', hp, h => by
      obtain ⟨m', p₁, rest, hm, hrest, rfl⟩ := bind_bind_pure_eq_ok.mp h
      obtain ⟨body, hbody, rfl⟩ := bind_pure_eq_ok.mp hm
      -- which lists are read does not matter for the state
      let nothing : Listing Unit := ⟨fun _ => [], fun _ => [], fun _ => rfl, fun _ => rfl,
        fun _ => rfl, fun _ => rfl⟩
      obtain ⟨hsome, -, hp₁⟩ := lowerStmt?_lists nothing m.body hp hbody
      exact .cons ⟨rfl, hsome, fun L => (lowerStmt?_lists L m.body hp hbody).2.1⟩
        (lowerMethods_rebuilt ms hp₁ hrest)

/-- **A class is rebuilt from its own nodes.** -/
theorem lowerClass_rebuilt {c c' : Class} {s : Symbols}
    (h : lowerClass rules c (.start s) = .ok c' p') : c.RebuiltAs c' := by
  obtain ⟨methods, hmethods, rfl⟩ := bind_pure_eq_ok.mp h
  exact ⟨rfl, lowerMethods_rebuilt c.methods (.start s) hmethods⟩

/-- Classes that are all lowered. -/
theorem lowerClasses_rebuilt : ∀ (cs : List Class) (s : Symbols),
    (lowerClasses rules cs s).error = none →
      List.Forall₂ Class.RebuiltAs cs ((lowerClasses rules cs s).done.map Prod.fst)
  | [], _, _ => .nil
  | c :: cs, s, h => by
      unfold lowerClasses at h ⊢
      cases hc : lowerClass rules c (Pass.start s) with
      | error e q =>
          rw [hc] at h
          injection h
      | ok c' q =>
          rw [hc] at h
          exact .cons (lowerClass_rebuilt hc) (lowerClasses_rebuilt cs q.symbols h)

/-- A program that is lowered: every class was, one after the other. -/
theorem lower_eq_ok {flow : Oracle} {prog prog' : Program} (h : prog.lower flow = .ok prog') :
    (prog.lowerClasses flow).error = none
      ∧ prog' = ⟨(prog.lowerClasses flow).done.map Prod.fst, (prog.lowerClasses flow).symbols⟩ := by
  unfold Program.lower at h
  cases herror : (prog.lowerClasses flow).error with
  | some e =>
      simp only [herror] at h
      injection h
  | none =>
      simp only [herror] at h
      injection h with h
      exact ⟨rfl, h.symm⟩

/-- **So is a program, class by class.** -/
theorem lower_rebuilt {flow : Oracle} {prog prog' : Program} (h : prog.lower flow = .ok prog') :
    List.Forall₂ Class.RebuiltAs prog.classes prog'.classes := by
  obtain ⟨herror, rfl⟩ := lower_eq_ok h
  exact lowerClasses_rebuilt prog.classes prog.symbols herror

end Lowering

/-! ## §8. The order of the nodes. -/

/-- The id and the form of a node. -/
def Expr.tag (e : Expr) : NodeId × ExprKind := (e.id, e.kind)

/-- The id and the form of a node. -/
def Stmt.tag (s : Stmt) : NodeId × StmtKind := (s.id, s.kind)

/-- What is called, with how many arguments. -/
def Expr.call? : Expr → Option (ExprInfo × String × Nat)
  | .call i f es | .methodCall i _ f es => some (i, f, es.length)
  | _ => none

/-- An assignment of the source. -/
def Expr.assign? : Expr → Option ExprInfo
  | .assign i _ _ => if i.id < Lowering.firstId then some i else none
  | _ => none

/-- Where a jump goes. -/
def Stmt.jump? : Stmt → Option (StmtInfo × StmtKind × Option String)
  | .ret i _ => some (i, .ret, none)
  | .brk i l => some (i, .brk, l)
  | .cont i l => some (i, .cont, l)
  | _ => none

open Lowering (firstId)

/-- `s'` has the nodes of `s` in their order, the patterns apart, and of ids
from `firstId` on others among them. -/
structure Stmt.SameOrder (s s' : Stmt) : Prop where
  stmts : (s'.walk.filter fun t => t.id < firstId).map Stmt.tag = s.walk.map Stmt.tag
  exprs : (s'.walkExprs.filter fun e => e.id < firstId).map Expr.tag
    = (s.walkExprs.filter fun e => !e.isPattern).map Expr.tag
  calls : s'.walkExprs.filterMap Expr.call? = s.walkExprs.filterMap Expr.call?
  assigns : s'.walkExprs.filterMap Expr.assign? = s.walkExprs.filterMap Expr.assign?
  jumps : s'.walk.filterMap Stmt.jump? = s.walk.filterMap Stmt.jump?
  /-- Nothing tested by a pattern, nor any other node, is there more or less often. -/
  often : ∀ e ∈ s.walkExprs, e.isPattern = false → (s'.walkExprs.map Expr.tag).count e.tag
    = ((s.walkExprs.filter fun x => !x.isPattern).map Expr.tag).count e.tag

/-- The body of a method numbered below `firstId` keeps its order. -/
def Method.SameOrder (m m' : Method) : Prop :=
  m'.body.isSome = m.body.isSome ∧ ∀ s ∈ m.body, ∀ s' ∈ m'.body,
    (∀ t ∈ s.walk, t.id < firstId) → (∀ e ∈ s.walkExprs, e.id < firstId) → s.SameOrder s'

namespace Listing

/-- Lists of the statements that no made one is in. -/
def ofStmts (f : Stmt → Option α) (same : ∀ {s s'}, Stmt.SameNode s s' → f s' = f s)
    (made : ∀ {s}, Stmt.IsMade s → f s = none) : Listing α where
  ownS s := (f s).toList
  ownE _ := []
  sameS h := by rw [same h]
  sameE _ := rfl
  madeS h := by rw [made h]; rfl
  madeE _ := rfl

/-- Lists of the expressions that no made one is in. -/
def ofExprs (f : Expr → Option α) (same : ∀ {e e'}, Expr.SameNode e e' → f e' = f e)
    (made : ∀ {e}, Expr.IsMade e → f e = none) : Listing α where
  ownS _ := []
  ownE e := (f e).toList
  sameS _ := rfl
  sameE h := by rw [same h]
  madeS _ := rfl
  madeE h := by rw [made h]; rfl

end Listing

theorem Expr.SameNode.tag {e e' : Expr} (h : e.SameNode e') : e'.tag = e.tag := by
  cases h <;> rfl

theorem Stmt.SameNode.tag {s s' : Stmt} (h : s.SameNode s') : s'.tag = s.tag := by
  cases h <;> rfl

/-- The same node is a pattern on both sides or on neither. -/
theorem Expr.SameNode.isPattern {e e' : Expr} (h : e.SameNode e') :
    e'.isPattern = e.isPattern := by
  cases h <;> rfl

/-- It calls the same. -/
theorem Expr.SameNode.call? {e e' : Expr} (h : e.SameNode e') : e'.call? = e.call? := by
  cases h with
  | call i f hlength => rw [Expr.call?, Expr.call?, hlength]
  | methodCall i f r r' hlength => rw [Expr.call?, Expr.call?, hlength]
  | _ => rfl

/-- It assigns to the same. -/
theorem Expr.SameNode.assign? {e e' : Expr} (h : e.SameNode e') : e'.assign? = e.assign? := by
  cases h <;> rfl

/-- It jumps to the same. -/
theorem Stmt.SameNode.jump? {s s' : Stmt} (h : s.SameNode s') : s'.jump? = s.jump? := by
  cases h <;> rfl

/-- The pass makes no calls. -/
theorem Expr.IsMade.call? {e : Expr} (h : e.IsMade) : e.call? = none := by
  cases e with
  | call i f es => exact absurd h.kind (by simp [Expr.kind, Expr.madeKinds])
  | methodCall i r f es => exact absurd h.kind (by simp [Expr.kind, Expr.madeKinds])
  | _ => rfl

/-- The assignments that the pass makes are not of the source. -/
theorem Expr.IsMade.assign? {e : Expr} (h : e.IsMade) : e.assign? = none := by
  cases e with
  | assign i t v => exact if_neg (Nat.not_lt.mpr h.id)
  | _ => rfl

/-- The pass makes no jumps. -/
theorem Stmt.IsMade.jump? {s : Stmt} (h : s.IsMade) : s.jump? = none := by
  cases s with
  | ret i e => exact absurd h.kind (by simp [Stmt.kind])
  | brk i l => exact absurd h.kind (by simp [Stmt.kind])
  | cont i l => exact absurd h.kind (by simp [Stmt.kind])
  | _ => rfl

/-- A pattern calls nothing. -/
theorem Expr.call?_pattern {e : Expr} (h : e.isPattern = true) : e.call? = none := by
  cases e with
  | call i f es => injection h
  | methodCall i r f es => injection h
  | _ => rfl

/-- Nor does it assign. -/
theorem Expr.assign?_pattern {e : Expr} (h : e.isPattern = true) : e.assign? = none := by
  cases e with
  | assign i t v => injection h
  | _ => rfl

/-- What is listed of expressions that are no patterns anyway. -/
theorem Expr.filterMap_plain {f : Expr → Option α}
    (hpattern : ∀ {e}, Expr.isPattern e = true → f e = none) (es : List Expr) :
    (es.filter fun e => !e.isPattern).filterMap f = es.filterMap f := by
  rw [List.filterMap_filter]
  refine congrArg (List.filterMap · es) (funext fun e => ?_)
  cases he : e.isPattern with
  | true => exact (hpattern he).symm
  | false => rfl

theorem map_filter_eq {β : Type} (P : α → Prop) [DecidablePred P] (f : α → β) (l : List α) :
    (l.filter fun x => P x).map f = l.filterMap fun x => if P x then some (f x) else none := by
  rw [← List.filterMap_eq_map, List.filterMap_filter]
  simp

namespace Lowering

variable {m m' : Method} {s s' : Stmt}

/-- What the same statements give, and statements that are made do not, stays in its order. -/
theorem rebuilt_stmts (h : m.RebuiltAs m') (hs : s ∈ m.body) (hs' : s' ∈ m'.body)
    (f : Stmt → Option α) (same : ∀ {s s'}, Stmt.SameNode s s' → f s' = f s)
    (made : ∀ {s}, Stmt.IsMade s → f s = none) :
    s'.walk.filterMap f = s.walk.filterMap f := by
  have hlist := h.lists (.ofStmts f same made)
  rw [Option.mem_def.mp hs, Option.mem_def.mp hs'] at hlist
  have hsrc : (Listing.ofStmts f same made).srcE = fun _ => [] := by
    funext e
    exact ite_self _
  rw [Stmt.gatherOpt_some, Stmt.gatherOpt_some, hsrc] at hlist
  rw [List.filterMap_eq_flatMap_toList, List.filterMap_eq_flatMap_toList]
  exact (Stmt.gather_stmts _ s').symm.trans (hlist.trans (Stmt.gather_stmts _ s))

/-- What the same expressions give, patterns apart, stays in its order. -/
theorem rebuilt_exprs (h : m.RebuiltAs m') (hs : s ∈ m.body) (hs' : s' ∈ m'.body)
    (f : Expr → Option α) (same : ∀ {e e'}, Expr.SameNode e e' → f e' = f e)
    (made : ∀ {e}, Expr.IsMade e → f e = none) :
    s'.walkExprs.filterMap f = (s.walkExprs.filter fun e => !e.isPattern).filterMap f := by
  have hlist := h.lists (.ofExprs f same made)
  rw [Option.mem_def.mp hs, Option.mem_def.mp hs'] at hlist
  rw [Stmt.gatherOpt_some, Stmt.gatherOpt_some] at hlist
  rw [List.filterMap_filter, List.filterMap_eq_flatMap_toList, List.filterMap_eq_flatMap_toList]
  refine (Stmt.gather_exprs _ s').symm.trans (hlist.trans ((Stmt.gather_exprs _ s).trans ?_))
  refine congrArg (List.flatMap · s.walkExprs) (funext fun e => ?_)
  unfold Listing.srcE
  cases e.isPattern <;> rfl

/-- **The order of the nodes** of a body, whose nodes are numbered below the ids
of the pass. -/
theorem rebuilt_sameOrder (h : m.RebuiltAs m') (hs : s ∈ m.body) (hs' : s' ∈ m'.body)
    (hstmts : ∀ t ∈ s.walk, t.id < firstId) (hexprs : ∀ e ∈ s.walkExprs, e.id < firstId) :
    s.SameOrder s' := by
  -- a made node has a number that no node of the source has, so filtering leaves the old ones
  have htags : (s'.walkExprs.filter fun e => e.id < firstId).map Expr.tag
      = (s.walkExprs.filter fun e => !e.isPattern).map Expr.tag := by
    rw [map_filter_eq, rebuilt_exprs h hs hs', ← map_filter_eq]
    · refine congrArg (List.map Expr.tag) (List.filter_eq_self.mpr ?_)
      intro e he
      exact decide_eq_true (hexprs e (List.mem_filter.mp he).1)
    · intro e e' he
      have hid : e'.id = e.id := congrArg Prod.fst he.tag
      rw [hid, he.tag]
    · exact fun he => if_neg (Nat.not_lt.mpr he.id)
  have hstags : (s'.walk.filter fun t => t.id < firstId).map Stmt.tag = s.walk.map Stmt.tag := by
    rw [map_filter_eq, rebuilt_stmts h hs hs', ← map_filter_eq]
    · refine congrArg (List.map Stmt.tag) (List.filter_eq_self.mpr ?_)
      exact fun t ht => decide_eq_true (hstmts t ht)
    · intro t t' ht
      have hid : t'.id = t.id := congrArg Prod.fst ht.tag
      rw [hid, ht.tag]
    · exact fun ht => if_neg (Nat.not_lt.mpr ht.id)
  refine ⟨hstags, htags, ?_, ?_, ?_, ?_⟩
  · rw [rebuilt_exprs h hs hs' Expr.call? Expr.SameNode.call? Expr.IsMade.call?]
    exact Expr.filterMap_plain Expr.call?_pattern _
  · rw [rebuilt_exprs h hs hs' Expr.assign? Expr.SameNode.assign? Expr.IsMade.assign?]
    exact Expr.filterMap_plain Expr.assign?_pattern _
  · exact rebuilt_stmts h hs hs' Stmt.jump? Stmt.SameNode.jump? Stmt.IsMade.jump?
  · intro e he _
    have hid : e.tag.1 < firstId := hexprs e he
    have hfilter : (s'.walkExprs.filter fun x => x.id < firstId).map Expr.tag
        = (s'.walkExprs.map Expr.tag).filter fun t => t.1 < firstId := by
      rw [List.filter_map]
      rfl
    rw [← htags, hfilter]
    exact (List.count_filter (by simpa using hid)).symm

/-- **Nothing is lost, doubled or reordered.**  In a class that is lowered, and
in each class of a program that is, every method whose nodes are numbered below
the ids of the pass keeps its order. -/
theorem lower_keeps_order :
    (∀ (rules : Rules) (c c' : Class) (s : Symbols) (p' : Pass),
      lowerClass rules c (.start s) = .ok c' p' →
        List.Forall₂ Method.SameOrder c.methods c'.methods)
    ∧ ∀ (flow : Oracle) (prog prog' : Program), prog.lower flow = .ok prog' →
      List.Forall₂ (fun c c' => List.Forall₂ Method.SameOrder c.methods c'.methods)
        prog.classes prog'.classes := by
  have hmethod : ∀ {m m' : Method}, m.RebuiltAs m' → m.SameOrder m' := fun h =>
    ⟨h.body, fun _ hs _ hs' hstmts hexprs => rebuilt_sameOrder h hs hs' hstmts hexprs⟩
  constructor
  · intro rules c c' s p' h
    exact (lowerClass_rebuilt h).methods.imp fun _ _ => hmethod
  · intro flow prog prog' h
    exact (lower_rebuilt h).imp fun _ _ hclass => hclass.methods.imp fun _ _ => hmethod

/-- The program of the guard. -/
def Guarded.program : Program := ⟨[guarded], symbols⟩

/-- A result that is no error is some result. -/
theorem exists_of_isOk {ε β : Type} {r : Except ε β} (h : r.isOk = true) : ∃ b, r = .ok b := by
  cases r with
  | ok b => exact ⟨b, rfl⟩
  | error e => injection h

/-- The body with the guard keeps its order. -/
theorem lower_keeps_order_guarded :
    ∃ prog' c' m' s', Guarded.program.lower Flow.matchBindings = .ok prog'
      ∧ prog'.classes = [c'] ∧ c'.methods = [m'] ∧ m'.body = some s'
      ∧ (Stmt.block ⟨9, .nowhere⟩ Guarded.stmts).SameOrder s' := by
  have hok : (Guarded.program.lower Flow.matchBindings).isOk = true := by decide +kernel
  obtain ⟨prog', h⟩ := exists_of_isOk hok
  have hclasses := lower_keeps_order.2 Flow.matchBindings Guarded.program prog' h
  obtain ⟨c', _, hmethods, hnil, hc'⟩ := List.forall₂_cons_left_iff.mp hclasses
  obtain ⟨m', _, hmethod, hnil', hm'⟩ := List.forall₂_cons_left_iff.mp hmethods
  obtain ⟨s', hs'⟩ := Option.isSome_iff_exists.mp hmethod.1
  rw [List.forall₂_nil_left_iff.mp hnil] at hc'
  rw [List.forall₂_nil_left_iff.mp hnil'] at hm'
  exact ⟨prog', c', m', s', h, hc', hm', hs', hmethod.2 _ rfl _ hs' (by decide) (by decide)⟩

/-! ## §9. Patterns. -/

/-- In a rebuilt method there are no patterns. -/
theorem rebuilt_no_patterns (h : m.RebuiltAs m') (hs' : s' ∈ m'.body) :
    ∀ e ∈ s'.walkExprs, e.isPattern = false := by
  have hsome : m.body.isSome := by
    rw [← h.body, Option.mem_def.mp hs']
    rfl
  obtain ⟨s, hs⟩ := Option.isSome_iff_exists.mp hsome
  have hnone := rebuilt_exprs h hs hs' (fun e => if e.isPattern then some () else none)
    (fun hsame => by rw [hsame.isPattern]) fun hmade => by rw [hmade.plain]; rfl
  have hsrc : (s.walkExprs.filter fun e => !e.isPattern).filterMap
      (fun e => if e.isPattern then some () else none) = [] := by
    rw [List.filterMap_eq_nil_iff]
    intro e he
    have hplain : e.isPattern = false := by simpa using (List.mem_filter.mp he).2
    rw [hplain]
    rfl
  rw [hsrc, List.filterMap_eq_nil_iff] at hnone
  intro e he
  have h := hnone e he
  cases hpattern : e.isPattern with
  | false => rfl
  | true =>
      rw [hpattern] at h
      injection h

/-- Nor are there in a lowered program. -/
theorem lowered_plain {flow : Oracle} {prog prog' : Program} (h : prog.lower flow = .ok prog') :
    ∀ c' ∈ prog'.classes, ∀ m' ∈ c'.methods, ∀ s' ∈ m'.body, ∀ e ∈ s'.walkExprs,
      e.isPattern = false := by
  intro c' hc' m' hm' s' hs'
  obtain ⟨c, -, hclass⟩ := exists_of_forall₂ (lower_rebuilt h).flip hc'
  obtain ⟨m, -, hmethod⟩ := exists_of_forall₂ hclass.methods.flip hm'
  exact rebuilt_no_patterns hmethod hs'

/-- **Complete elimination.**  In a program that is lowered no expression of any
method is a type test or a reference to a binding. -/
theorem lower_no_patterns (flow : Oracle) (prog prog' : Program)
    (h : prog.lower flow = .ok prog') :
    ∀ c' ∈ prog'.classes, ∀ m' ∈ c'.methods, ∀ s' ∈ m'.body, ∀ e ∈ s'.walkExprs,
      (∀ i operand pattern, e ≠ .typeTest i operand pattern)
        ∧ ∀ i b, e ≠ .ident i (.binding b) := by
  intro c' hc' m' hm' s' hs' e he
  have hplain := lowered_plain h c' hc' m' hm' s' hs' e he
  constructor
  · rintro i operand pattern rfl
    injection hplain
  · rintro i b rfl
    injection hplain

/-- Nothing of the guard is left. -/
theorem lower_no_patterns_guarded :
    ∃ prog', Guarded.program.lower Flow.matchBindings = .ok prog'
      ∧ ∀ c' ∈ prog'.classes, ∀ m' ∈ c'.methods, ∀ s' ∈ m'.body, ∀ e ∈ s'.walkExprs,
        (∀ i operand pattern, e ≠ .typeTest i operand pattern)
          ∧ ∀ i b, e ≠ .ident i (.binding b) := by
  have hok : (Guarded.program.lower Flow.matchBindings).isOk = true := by decide +kernel
  obtain ⟨prog', h⟩ := exists_of_isOk hok
  exact ⟨prog', h, lower_no_patterns Flow.matchBindings Guarded.program prog' h⟩

end Lowering

end PatternIR
