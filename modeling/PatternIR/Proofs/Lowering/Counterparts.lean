/-
  PatternIR.Proofs.Lowering.Counterparts
  ──────────────────────────────────────
  **TREES AND WHAT THEY ARE LOWERED TO, node by node.**

  Every node of the source has a counterpart, with its static type and its
  position; and every other node stands where the node stands that it is made
  for.

      source                         counterpart               made for it
      binding reference              reference to a variable   —
      type test                      let-expression            the test in it
      binary, conditional            itself, or a              the definitions
                                     let-expression around it  of its storage
      if, loop                       itself                    the declarations
                                                               of its storage
      any statement                  itself, or a block        —
                                     around it
      any other expression           itself                    —

  A let-expression or a block around a node has the node in it, rebuilt over
  what its parts become; so the relation goes down to all nodes.

    • `Expr.AllAt`, `Stmt.AllAt` — trees made for one position;
    • `Expr.Becomes`, `Stmt.Becomes` — the relation;
    • `Expr.Becomes.ty`, `Expr.Becomes.span`, `Stmt.Becomes.span` — at the root;
    • `Expr.Becomes.beside`, `Stmt.Becomes.beside` — at all nodes of two trees.
-/
import PatternIR.Proofs.Flow.Escapes
import PatternIR.Tree.Walk

namespace PatternIR

/-! ## §1. Expressions and what they are lowered to. -/

namespace Expr

/-- Every node of the tree stands at `span`. -/
def AllAt (span : Span) (e : Expr) : Prop := ∀ x ∈ e.walk, x.span = span

/-- An expression as its frame leaves it: as it is, or in a let-expression with
its type, at its position, the definitions of which are made for it. -/
inductive Decorated (e : Expr) : Expr → Prop
  | bare : Decorated e e
  | letIn (id : NodeId) {defs : List (VarId × Expr)} (hdefs : ∀ d ∈ defs, d.2.AllAt e.span) :
      Decorated e (letIn ⟨id, e.ty, e.span⟩ defs e)

mutual
/-- An expression and what it is lowered to. -/
inductive Becomes : Expr → Expr → Prop
  | literal (i : ExprInfo) (v : Literal) : Becomes (literal i v) (literal i v)
  | var (i : ExprInfo) (v : VarId) : Becomes (ident i (.var v)) (ident i (.var v))
  | ref (i : ExprInfo) (b : BindingId) (id : NodeId) (v : VarId) :
      Becomes (ident i (.binding b)) (ident ⟨id, i.ty, i.span⟩ (.var v))
  | unary (i : ExprInfo) (op : UnOp) {e e' : Expr} (h : Becomes e e') :
      Becomes (unary i op e) (unary i op e')
  | binary (i : ExprInfo) (op : BinOp) {l l' r r' out : Expr} (hl : Becomes l l')
      (hr : Becomes r r') (hout : Decorated (binary i op l' r') out) : Becomes (binary i op l r) out
  | conditional (i : ExprInfo) {c c' y y' n n' out : Expr} (hc : Becomes c c') (hy : Becomes y y')
      (hn : Becomes n n') (hout : Decorated (conditional i c' y' n') out) :
      Becomes (conditional i c y n) out
  | assign (i : ExprInfo) {t t' v v' : Expr} (ht : Becomes t t') (hv : Becomes v v') :
      Becomes (assign i t v) (assign i t' v')
  | cast (i : ExprInfo) (ty : Ty) {e e' : Expr} (h : Becomes e e') :
      Becomes (cast i ty e) (cast i ty e')
  | instanceOf (i : ExprInfo) (ty : Ty) {e e' : Expr} (h : Becomes e e') :
      Becomes (instanceOf i e ty) (instanceOf i e' ty)
  | typeTest (i : ExprInfo) (pattern : BindingPattern) {e e' : Expr} (h : Becomes e e')
      (id : NodeId) (temp : VarId) {test : Expr} (htest : test.AllAt i.span) :
      Becomes (typeTest i e pattern) (letIn ⟨id, .boolean, i.span⟩ [(temp, e')] test)
  | call (i : ExprInfo) (f : String) {es es' : List Expr} (hs : BecomeAll es es') :
      Becomes (call i f es) (call i f es')
  | methodCall (i : ExprInfo) (f : String) {e e' : Expr} {es es' : List Expr} (h : Becomes e e')
      (hs : BecomeAll es es') : Becomes (methodCall i e f es) (methodCall i e' f es')
  | letIn (i : ExprInfo) {ds ds' : List (VarId × Expr)} {b b' : Expr} (hs : BecomeDefs ds ds')
      (h : Becomes b b') : Becomes (letIn i ds b) (letIn i ds' b')
/-- Expressions, one by one. -/
inductive BecomeAll : List Expr → List Expr → Prop
  | nil : BecomeAll [] []
  | cons {e e' : Expr} {es es' : List Expr} (h : Becomes e e') (hs : BecomeAll es es') :
      BecomeAll (e :: es) (e' :: es')
/-- Definitions of the same variables, one by one. -/
inductive BecomeDefs : List (VarId × Expr) → List (VarId × Expr) → Prop
  | nil : BecomeDefs [] []
  | cons (v : VarId) {e e' : Expr} {ds ds' : List (VarId × Expr)} (h : Becomes e e')
      (hs : BecomeDefs ds ds') : BecomeDefs ((v, e) :: ds) ((v, e') :: ds')
end

/-- An expression, if there is one. -/
inductive BecomeOpt : Option Expr → Option Expr → Prop
  | none : BecomeOpt none none
  | some {e e' : Expr} (h : Becomes e e') : BecomeOpt (some e) (some e')

variable {e e' : Expr}

/-- A let-expression around a node has its type and position. -/
theorem Decorated.info (h : Decorated e e') : e'.ty = e.ty ∧ e'.span = e.span := by
  cases h <;> exact ⟨rfl, rfl⟩

/-- **The position of the root.** -/
theorem Becomes.span (h : Becomes e e') : e'.span = e.span := by
  cases h with
  | binary i op hl hr hout => exact hout.info.2
  | conditional i hc hy hn hout => exact hout.info.2
  | _ => rfl

/-- **The type of the root**, which is boolean if it is a type test. -/
theorem Becomes.ty (h : Becomes e e') (htest : e.kind = .typeTest → e.ty = .boolean) :
    e'.ty = e.ty := by
  cases h with
  | binary i op hl hr hout => exact hout.info.1
  | conditional i hc hy hn hout => exact hout.info.1
  | typeTest i pattern h id temp hmade => exact (htest rfl).symm
  | _ => rfl

/-! ## §2. Counterparts in an expression. -/

/-- A tree is one of its own nodes. -/
theorem mem_walk_self (e : Expr) : e ∈ e.walk := by
  cases e <;> exact List.mem_cons_self

/-- The nodes of definitions are those of their values. -/
theorem mem_walkDefs {ds : List (VarId × Expr)} {x : Expr} :
    x ∈ walkDefs ds ↔ ∃ d ∈ ds, x ∈ d.2.walk := by
  induction ds with
  | nil => simp [walkDefs]
  | cons d ds ih =>
      obtain ⟨v, e⟩ := d
      simp [walkDefs, ih]

/-- The forms that other nodes are made for. -/
def makesNodes : Expr → Bool
  | typeTest _ _ _ | binary _ _ _ _ | conditional _ _ _ _ => true
  | _ => false

/-- A node made for a type test, or for the storage of a binary or conditional expression. -/
structure Makes (e x : Expr) : Prop where
  form : e.makesNodes = true
  span : x.span = e.span

/-- Each of the first nodes becomes one of the second, and each of the second is
what one of the first becomes or is made for one. -/
structure Beside (xs xs' : List Expr) : Prop where
  covers : ∀ x ∈ xs, ∃ x' ∈ xs', x.Becomes x'
  origins : ∀ x' ∈ xs', ∃ x ∈ xs, x.Becomes x' ∨ x.Makes x'

namespace Beside

variable {xs ys xs' ys' : List Expr}

/-- Nothing stands beside nothing. -/
theorem nil : Beside [] [] :=
  ⟨fun _ hx => absurd hx List.not_mem_nil, fun _ hx => absurd hx List.not_mem_nil⟩

/-- Two lists stand beside two others, one after the other. -/
theorem append (h : Beside xs xs') (h' : Beside ys ys') : Beside (xs ++ ys) (xs' ++ ys') where
  covers x hx := by
    rcases List.mem_append.mp hx with hx | hx
    · obtain ⟨x', hx', hbecomes⟩ := h.covers x hx
      exact ⟨x', List.mem_append_left _ hx', hbecomes⟩
    · obtain ⟨x', hx', hbecomes⟩ := h'.covers x hx
      exact ⟨x', List.mem_append_right _ hx', hbecomes⟩
  origins x' hx' := by
    rcases List.mem_append.mp hx' with hx' | hx'
    · obtain ⟨x, hx, horigin⟩ := h.origins x' hx'
      exact ⟨x, List.mem_append_left _ hx, horigin⟩
    · obtain ⟨x, hx, horigin⟩ := h'.origins x' hx'
      exact ⟨x, List.mem_append_right _ hx, horigin⟩

/-- A node above its parts, with other nodes made for it. -/
theorem making (h : e.Becomes e') (hparts : Beside xs xs') (hsub : xs' ⊆ ys)
    (hmade : ∀ y ∈ ys, y ∈ xs' ∨ e.Makes y) : Beside (e :: xs) (e' :: ys) where
  covers x hx := by
    rcases List.mem_cons.mp hx with rfl | hx
    · exact ⟨e', List.mem_cons_self, h⟩
    · obtain ⟨x', hx', hbecomes⟩ := hparts.covers x hx
      exact ⟨x', List.mem_cons_of_mem _ (hsub hx'), hbecomes⟩
  origins x' hx' := by
    rcases List.mem_cons.mp hx' with rfl | hx'
    · exact ⟨e, List.mem_cons_self, .inl h⟩
    · rcases hmade x' hx' with hold | hnew
      · obtain ⟨x, hx, horigin⟩ := hparts.origins x' hold
        exact ⟨x, List.mem_cons_of_mem _ hx, horigin⟩
      · exact ⟨e, List.mem_cons_self, .inr hnew⟩

/-- A node above its parts. -/
theorem node (h : e.Becomes e') (hparts : Beside xs xs') : Beside (e :: xs) (e' :: xs') :=
  making h hparts (List.Subset.refl _) fun _ hy => .inl hy

/-- A node that may be in a let-expression, above its parts. -/
theorem decorated {out : Expr} (hform : e.makesNodes = true)
    (hself : e.Becomes e') (h : e.Becomes out) (hout : Decorated e' out)
    (hwalk : e'.walk = e' :: xs') (hparts : Beside xs xs') : Beside (e :: xs) out.walk := by
  cases hout with
  | bare =>
      rw [hwalk]
      exact node h hparts
  | @letIn id defs hdefs =>
      show Beside (e :: xs) (_ :: (walkDefs defs ++ e'.walk))
      rw [hwalk]
      -- the let-expression stands for the node, and its definitions are made for it
      refine ⟨fun x hx => ?_, fun x' hx' => ?_⟩
      · obtain ⟨x', hx', hbecomes⟩ := (node hself hparts).covers x hx
        exact ⟨x', List.mem_cons_of_mem _ (List.mem_append_right _ hx'), hbecomes⟩
      · rcases List.mem_cons.mp hx' with rfl | hx'
        · exact ⟨e, List.mem_cons_self, .inl h⟩
        · rcases List.mem_append.mp hx' with hx' | hx'
          · obtain ⟨d, hd, hx'⟩ := mem_walkDefs.mp hx'
            exact ⟨e, List.mem_cons_self, .inr ⟨hform, (hdefs d hd x' hx').trans hself.span⟩⟩
          · exact (node hself hparts).origins x' hx'

end Beside

mutual
/-- **Every node of the source has its counterpart**, and every other node is made for one. -/
theorem Becomes.beside : ∀ {e e' : Expr}, e.Becomes e' → Beside e.walk e'.walk
  | .literal i v, _, hnode => by
      cases hnode
      exact .node (.literal i v) .nil
  | .ident i _, _, hnode => by
      cases hnode with
      | var _ v => exact .node (.var i v) .nil
      | ref _ b id v => exact .node (.ref i b id v) .nil
  | .unary i op _, _, hnode => by
      cases hnode with
      | unary _ _ h => exact .node (.unary i op h) h.beside
  | .binary i op _ _, _, hnode => by
      cases hnode with
      | binary _ _ hl hr hout =>
          exact .decorated rfl (.binary i op hl hr .bare)
            (.binary i op hl hr hout) hout rfl (hl.beside.append hr.beside)
  | .conditional i _ _ _, _, hnode => by
      cases hnode with
      | conditional _ hc hy hn hout =>
          exact .decorated rfl (.conditional i hc hy hn .bare)
            (.conditional i hc hy hn hout) hout rfl
            ((hc.beside.append hy.beside).append hn.beside)
  | .assign i _ _, _, hnode => by
      cases hnode with
      | assign _ ht hv => exact .node (.assign i ht hv) (ht.beside.append hv.beside)
  | .cast i ty _, _, hnode => by
      cases hnode with
      | cast _ _ h => exact .node (.cast i ty h) h.beside
  | .instanceOf i _ ty, _, hnode => by
      cases hnode with
      | instanceOf _ _ h => exact .node (.instanceOf i ty h) h.beside
  | .typeTest i _ pattern, _, hnode => by
      cases hnode with
      | @typeTest _ _ e e' h id temp test htest =>
          -- the operand is defined first; what follows tests the temporary
          have hwalk : walkDefs [(temp, e')] = e'.walk := List.append_nil _
          refine .making (.typeTest i pattern h id temp htest) h.beside ?_ fun y hy => ?_
          · rw [hwalk]
            exact List.subset_append_left _ _
          · rw [hwalk] at hy
            exact (List.mem_append.mp hy).imp_right fun hy => ⟨rfl, htest y hy⟩
  | .call i f _, _, hnode => by
      cases hnode with
      | call _ _ hs => exact .node (.call i f hs) hs.beside
  | .methodCall i _ f _, _, hnode => by
      cases hnode with
      | methodCall _ _ h hs => exact .node (.methodCall i f h hs) (h.beside.append hs.beside)
  | .letIn i _ _, _, hnode => by
      cases hnode with
      | letIn _ hs h => exact .node (.letIn i hs h) (hs.beside.append h.beside)
theorem BecomeAll.beside : ∀ {es es' : List Expr}, BecomeAll es es' →
    Beside (walkAll es) (walkAll es')
  | [], _, hall => by
      cases hall
      exact .nil
  | _ :: _, _, hall => by
      cases hall with
      | cons h hs => exact h.beside.append hs.beside
theorem BecomeDefs.beside : ∀ {ds ds' : List (VarId × Expr)}, BecomeDefs ds ds' →
    Beside (walkDefs ds) (walkDefs ds')
  | [], _, hall => by
      cases hall
      exact .nil
  | _ :: _, _, hall => by
      cases hall with
      | cons v h hs => exact h.beside.append hs.beside
end

theorem BecomeOpt.beside {e e' : Option Expr} (h : BecomeOpt e e') :
    Beside (walkAll e.toList) (walkAll e'.toList) := by
  cases h with
  | none => exact .nil
  | some h => exact (BecomeAll.cons h .nil).beside

end Expr

/-! ## §3. Statements and what they are lowered to. -/

namespace Stmt

/-- Every node of the tree stands at `span`. -/
structure AllAt (span : Span) (s : Stmt) : Prop where
  stmts : ∀ t ∈ s.walk, t.span = span
  exprs : ∀ e ∈ s.walkExprs, e.span = span

mutual
/-- A statement and the one that stands for it, its declarations apart. -/
inductive Rebuilt : Stmt → Stmt → Prop
  | expr (i : StmtInfo) {e e' : Expr} (h : e.Becomes e') : Rebuilt (expr i e) (expr i e')
  | decl (i : StmtInfo) (v : VarId) {e e' : Option Expr} (h : Expr.BecomeOpt e e') :
      Rebuilt (decl i v e) (decl i v e')
  | block (i : StmtInfo) {ss out : List Stmt} (h : Emitted ss out) :
      Rebuilt (block i ss) (block i out)
  | ifElse (i : StmtInfo) {c c' : Expr} {y y' : Stmt} {n n' : Option Stmt} (hc : c.Becomes c')
      (hy : Becomes y y') (hn : BecomeOpt n n') : Rebuilt (ifElse i c y n) (ifElse i c' y' n')
  | whileDo (i : StmtInfo) {c c' : Expr} {b b' : Stmt} (hc : c.Becomes c') (hb : Becomes b b') :
      Rebuilt (whileDo i c b) (whileDo i c' b')
  | doWhile (i : StmtInfo) {c c' : Expr} {b b' : Stmt} (hb : Becomes b b') (hc : c.Becomes c') :
      Rebuilt (doWhile i b c) (doWhile i b' c')
  | forDo (i : StmtInfo) {ss ss' : List Stmt} {c c' : Option Expr} {es es' : List Expr}
      {b b' : Stmt} (hss : BecomeAll ss ss') (hc : Expr.BecomeOpt c c') (hes : Expr.BecomeAll es es')
      (hb : Becomes b b') : Rebuilt (forDo i ss c es b) (forDo i ss' c' es' b')
  | labeled (i : StmtInfo) (l : String) {b b' : Stmt} (h : Rebuilt b b') :
      Rebuilt (labeled i l b) (labeled i l b')
  | ret (i : StmtInfo) {e e' : Option Expr} (h : Expr.BecomeOpt e e') : Rebuilt (ret i e) (ret i e')
  | brk (i : StmtInfo) (l : Option String) : Rebuilt (brk i l) (brk i l)
  | cont (i : StmtInfo) (l : Option String) : Rebuilt (cont i l) (cont i l)
/-- A statement and what it is lowered to: the statement that stands for it, or
a block around that, at the position of the statement, which begins with the
declarations made for what is under its labels. -/
inductive Becomes : Stmt → Stmt → Prop
  | bare {s s' : Stmt} (h : Rebuilt s s') : Becomes s s'
  | wrapped {s s' : Stmt} (h : Rebuilt s s') (id : NodeId) {decls : List Stmt}
      (hdecls : ∀ d ∈ decls, d.AllAt s.unlabeled.span) :
      Becomes s (block ⟨id, s.span⟩ (decls ++ [s']))
/-- The statements of a block and what the block emits for them, each behind the
declarations made for what is under its labels. -/
inductive Emitted : List Stmt → List Stmt → Prop
  | nil : Emitted [] []
  | cons {s s' : Stmt} {decls ss out : List Stmt} (h : Becomes s s')
      (hdecls : ∀ d ∈ decls, d.AllAt s.unlabeled.span) (hs : Emitted ss out) :
      Emitted (s :: ss) (decls ++ s' :: out)
/-- Statements, one by one. -/
inductive BecomeAll : List Stmt → List Stmt → Prop
  | nil : BecomeAll [] []
  | cons {s s' : Stmt} {ss ss' : List Stmt} (h : Becomes s s') (hs : BecomeAll ss ss') :
      BecomeAll (s :: ss) (s' :: ss')
/-- A statement, if there is one. -/
inductive BecomeOpt : Option Stmt → Option Stmt → Prop
  | none : BecomeOpt none none
  | some {s s' : Stmt} (h : Becomes s s') : BecomeOpt (some s) (some s')
end

variable {s s' : Stmt}

/-- A statement that is rebuilt keeps its position. -/
theorem Rebuilt.span (h : Rebuilt s s') : s'.span = s.span := by
  cases h <;> rfl

/-- **The position of a statement.** -/
theorem Becomes.span (h : Becomes s s') : s'.span = s.span := by
  cases h with
  | bare h => exact h.span
  | wrapped h id hdecls => rfl

/-- What a statement has itself becomes what the statement that stands for it has. -/
theorem Rebuilt.ownExprs (h : Rebuilt s s') :
    Expr.Beside (Expr.walkAll s.ownExprs) (Expr.walkAll s'.ownExprs) := by
  cases h with
  | expr i h => exact (Expr.BecomeAll.cons h .nil).beside
  | decl i v h | ret i h => exact h.beside
  | ifElse i hc hy hn => exact (Expr.BecomeAll.cons hc .nil).beside
  | whileDo i hc hb => exact (Expr.BecomeAll.cons hc .nil).beside
  | doWhile i hb hc => exact (Expr.BecomeAll.cons hc .nil).beside
  | forDo i hss hc hes hb =>
      cases hc with
      | none => exact hes.beside
      | some h => exact (Expr.BecomeAll.cons h hes).beside
  | block i h | labeled i l h | brk i l | cont i l => exact .nil

/-! ## §4. Counterparts in a statement. -/

/-- A statement is one of its own nodes. -/
theorem mem_walk_self (s : Stmt) : s ∈ s.walk := by
  cases s <;> exact List.mem_cons_self

/-- The nodes of several statements are those of each. -/
theorem mem_walkAll {ss : List Stmt} {t : Stmt} : t ∈ walkAll ss ↔ ∃ s ∈ ss, t ∈ s.walk := by
  induction ss with
  | nil => simp [walkAll]
  | cons s ss ih => simp [walkAll, ih]

/-- Two lists, one after the other. -/
theorem walkAll_append (ss ts : List Stmt) : walkAll (ss ++ ts) = walkAll ss ++ walkAll ts := by
  induction ss with
  | nil => rfl
  | cons s ss ih => rw [List.cons_append, walkAll, walkAll, ih, List.append_assoc]

/-- A statement made for another one, with what it has itself. -/
structure Makes (s t : Stmt) : Prop where
  span : t.span = s.span
  exprs : ∀ x ∈ Expr.walkAll t.ownExprs, x.span = s.span

/-- The statements of a declaration are made for what it stands at. -/
theorem AllAt.makes {d t : Stmt} (h : d.AllAt s.span) (ht : t ∈ d.walk) : s.Makes t :=
  ⟨h.stmts t ht, fun x hx => h.exprs x (List.mem_flatMap.mpr ⟨t, ht, hx⟩)⟩

/-- One of the second statements stands for each of the first, and each of the
second is what one of the first becomes or is made for one. -/
structure Beside (ss ss' : List Stmt) : Prop where
  covers : ∀ t ∈ ss, ∃ t' ∈ ss', t.Rebuilt t'
  origins : ∀ t' ∈ ss', ∃ t ∈ ss, t.Becomes t' ∨ t.Makes t'

namespace Beside

variable {ss ts ss' ts' : List Stmt}

/-- Nothing stands beside nothing. -/
theorem nil : Beside [] [] :=
  ⟨fun _ ht => absurd ht List.not_mem_nil, fun _ ht => absurd ht List.not_mem_nil⟩

/-- Two lists stand beside two others, one after the other. -/
theorem append (h : Beside ss ss') (h' : Beside ts ts') : Beside (ss ++ ts) (ss' ++ ts') where
  covers t ht := by
    rcases List.mem_append.mp ht with ht | ht
    · obtain ⟨t', ht', hrebuilt⟩ := h.covers t ht
      exact ⟨t', List.mem_append_left _ ht', hrebuilt⟩
    · obtain ⟨t', ht', hrebuilt⟩ := h'.covers t ht
      exact ⟨t', List.mem_append_right _ ht', hrebuilt⟩
  origins t' ht' := by
    rcases List.mem_append.mp ht' with ht' | ht'
    · obtain ⟨t, ht, horigin⟩ := h.origins t' ht'
      exact ⟨t, List.mem_append_left _ ht, horigin⟩
    · obtain ⟨t, ht, horigin⟩ := h'.origins t' ht'
      exact ⟨t, List.mem_append_right _ ht, horigin⟩

/-- A statement above those nested in it. -/
theorem node (h : s.Rebuilt s') (hparts : Beside ss ss') : Beside (s :: ss) (s' :: ss') where
  covers t ht := by
    rcases List.mem_cons.mp ht with rfl | ht
    · exact ⟨s', List.mem_cons_self, h⟩
    · obtain ⟨t', ht', hrebuilt⟩ := hparts.covers t ht
      exact ⟨t', List.mem_cons_of_mem _ ht', hrebuilt⟩
  origins t' ht' := by
    rcases List.mem_cons.mp ht' with rfl | ht'
    · exact ⟨s, List.mem_cons_self, .inl (.bare h)⟩
    · obtain ⟨t, ht, horigin⟩ := hparts.origins t' ht'
      exact ⟨t, List.mem_cons_of_mem _ ht, horigin⟩

/-- Statements behind declarations made for one of them. -/
theorem declared {decls : List Stmt} (hs : s.unlabeled ∈ ss)
    (hdecls : ∀ d ∈ decls, d.AllAt s.unlabeled.span) (h : Beside ss ss') :
    Beside ss (walkAll decls ++ ss') where
  covers t ht := by
    obtain ⟨t', ht', hrebuilt⟩ := h.covers t ht
    exact ⟨t', List.mem_append_right _ ht', hrebuilt⟩
  origins t' ht' := by
    rcases List.mem_append.mp ht' with ht' | ht'
    · obtain ⟨d, hd, ht'⟩ := mem_walkAll.mp ht'
      exact ⟨s.unlabeled, hs, .inr ((hdecls d hd).makes ht')⟩
    · exact h.origins t' ht'

/-- A block made around statements. -/
theorem wrapped {block : Stmt} (hs : s ∈ ss) (hblock : s.Becomes block) (h : Beside ss ss') :
    Beside ss (block :: ss') where
  covers t ht := by
    obtain ⟨t', ht', hrebuilt⟩ := h.covers t ht
    exact ⟨t', List.mem_cons_of_mem _ ht', hrebuilt⟩
  origins t' ht' := by
    rcases List.mem_cons.mp ht' with rfl | ht'
    · exact ⟨s, hs, .inl hblock⟩
    · exact h.origins t' ht'

end Beside

mutual
/-- **Every statement of the source has its counterpart**, and every other
statement is made for one. -/
theorem Rebuilt.beside : ∀ {s s' : Stmt}, s.Rebuilt s' → Beside s.walk s'.walk
  | .expr _ _, _, h | .decl _ _ _, _, h | .ret _ _, _, h | .brk _ _, _, h | .cont _ _, _, h => by
      have hnode := h
      cases h
      exact .node hnode .nil
  | .block i _, _, hnode => by
      cases hnode with
      | block _ h => exact .node (.block i h) h.beside
  | .ifElse i _ _ _, _, hnode => by
      cases hnode with
      | ifElse _ hc hy hn => exact .node (.ifElse i hc hy hn) (hy.beside.append hn.beside)
  | .whileDo i _ _, _, hnode => by
      cases hnode with
      | whileDo _ hc hb => exact .node (.whileDo i hc hb) hb.beside
  | .doWhile i _ _, _, hnode => by
      cases hnode with
      | doWhile _ hb hc => exact .node (.doWhile i hb hc) hb.beside
  | .forDo i _ _ _ _, _, hnode => by
      cases hnode with
      | forDo _ hss hc hes hb =>
          exact .node (.forDo i hss hc hes hb) (hss.beside.append hb.beside)
  | .labeled i l _, _, hnode => by
      cases hnode with
      | labeled _ _ h => exact .node (.labeled i l h) h.beside
/-- **The nodes of a statement have their counterparts beside them.** -/
theorem Becomes.beside : ∀ {s s' : Stmt}, s.Becomes s' → Beside s.walk s'.walk
  | _, _, .bare h => h.beside
  | s, _, @Becomes.wrapped _ s' h id decls hdecls => by
      -- the declarations are made for what is under the labels of the statement
      have hparts := h.beside.declared (unlabeled_mem_walk s) hdecls
      show Beside s.walk (_ :: walkAll (decls ++ [s']))
      rw [walkAll_append, walkAll, walkAll, List.append_nil]
      exact hparts.wrapped (mem_walk_self s) (.wrapped h id hdecls)
/-- The same of a block, between the declarations it emits. -/
theorem Emitted.beside : ∀ {ss out : List Stmt}, Emitted ss out → Beside (walkAll ss) (walkAll out)
  | [], _, hall => by
      cases hall
      exact .nil
  | s :: _, _, hall => by
      cases hall with
      | cons h hdecls hs =>
          rw [walkAll_append]
          exact (h.beside.append hs.beside).declared
            (List.mem_append_left _ (unlabeled_mem_walk s)) hdecls
theorem BecomeAll.beside : ∀ {ss ss' : List Stmt}, BecomeAll ss ss' →
    Beside (walkAll ss) (walkAll ss')
  | [], _, hall => by
      cases hall
      exact .nil
  | _ :: _, _, hall => by
      cases hall with
      | cons h hs => exact h.beside.append hs.beside
theorem BecomeOpt.beside : ∀ {s s' : Option Stmt}, BecomeOpt s s' → Beside (walkOpt s) (walkOpt s')
  | none, _, hopt => by
      cases hopt
      exact .nil
  | some _, _, hopt => by
      cases hopt with
      | some h => exact h.beside
end

/-- The expressions under a statement become expressions under what it is
lowered to; each other one is made for one of them, or for a statement. -/
theorem Becomes.exprs (h : s.Becomes s') :
    (∀ x ∈ s.walkExprs, ∃ x' ∈ s'.walkExprs, x.Becomes x')
      ∧ ∀ x' ∈ s'.walkExprs, (∃ x ∈ s.walkExprs, x.Becomes x' ∨ x.Makes x')
        ∨ ∃ t ∈ s.walk, x'.span = t.span := by
  constructor
  · intro x hx
    obtain ⟨t, ht, hx⟩ := List.mem_flatMap.mp hx
    obtain ⟨t', ht', hrebuilt⟩ := h.beside.covers t ht
    obtain ⟨x', hx', hbecomes⟩ := hrebuilt.ownExprs.covers x hx
    exact ⟨x', List.mem_flatMap.mpr ⟨t', ht', hx'⟩, hbecomes⟩
  · intro x' hx'
    obtain ⟨t', ht', hx'⟩ := List.mem_flatMap.mp hx'
    obtain ⟨t, ht, hbecomes | hmakes⟩ := h.beside.origins t' ht'
    · cases hbecomes with
      | bare hrebuilt =>
          obtain ⟨x, hx, horigin⟩ := hrebuilt.ownExprs.origins x' hx'
          exact .inl ⟨x, List.mem_flatMap.mpr ⟨t, ht, hx⟩, horigin⟩
      | wrapped hrebuilt id hdecls =>
          -- a block has no expressions itself
          exact absurd hx' List.not_mem_nil
    · exact .inr ⟨t, ht, hmakes.exprs x' hx'⟩

end Stmt

end PatternIR
