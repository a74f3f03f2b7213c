/-
  PatternIR.Proofs.Lowering.Scopes
  ────────────────────────────────
  **THE VARIABLES THAT LOWERING INTRODUCES, in expressions.**

  A variable counts as new from some number `n` on.  What a step of the pass
  adds to the table of variables, it declares in its output, each exactly
  once, and what its output mentions of them is in the slots of the stack or
  declared on the way there:

      lowerExpr e p = ok e' p'  →  the stack is as before,
          →  e' declares the variables between the two tables, each once,
          →  e' is in scope under the slots of the stack

    • `Expr.InScope`, `Stmt.InScope` — new variables are mentioned in scope only;
    • `Adds` — the variables added between two states are those declared;
    • `Lowers` — the three together, for a step of the pass;
    • `lowerExpr_lowers` — an expression.
-/
import PatternIR.Proofs.Flow.Matches
import PatternIR.Proofs.Gather
import PatternIR.Proofs.Lowering.Steps

namespace PatternIR

/-! ## §1. Scopes. -/

namespace Expr

mutual
/-- Of the variables from number `n` on, an expression mentions only those in
`vis` and, in a let-expression, those defined before. -/
def InScope (n : Nat) : (vis : List VarId) → Expr → Prop
  | vis, ident _ (.var v) => n ≤ v.index → v ∈ vis
  | _, ident _ (.binding _) => True
  | _, literal _ _ => True
  | vis, unary _ _ e => e.InScope n vis
  | vis, binary _ _ l r => l.InScope n vis ∧ r.InScope n vis
  | vis, conditional _ c y e => c.InScope n vis ∧ y.InScope n vis ∧ e.InScope n vis
  | vis, assign _ t e => t.InScope n vis ∧ e.InScope n vis
  | vis, cast _ _ e => e.InScope n vis
  | vis, instanceOf _ e _ => e.InScope n vis
  | vis, typeTest _ e _ => e.InScope n vis
  | vis, call _ _ es => InScopeAll n vis es
  | vis, methodCall _ e _ es => e.InScope n vis ∧ InScopeAll n vis es
  | vis, letIn _ ds b => InScopeDefs n vis ds ∧ b.InScope n (vis ++ ds.map Prod.fst)
/-- The same of several expressions. -/
def InScopeAll (n : Nat) : (vis : List VarId) → List Expr → Prop
  | _, [] => True
  | vis, e :: es => e.InScope n vis ∧ InScopeAll n vis es
/-- The same of definitions; each is in scope in the ones behind it. -/
def InScopeDefs (n : Nat) : (vis : List VarId) → List (VarId × Expr) → Prop
  | _, [] => True
  | vis, (v, e) :: ds => e.InScope n vis ∧ InScopeDefs n (vis ++ [v]) ds
end

mutual
/-- A tree in scope stays so when more is visible. -/
theorem InScope.mono {n : Nat} : ∀ {e : Expr} {vis vis' : List VarId},
    e.InScope n vis → vis ⊆ vis' → e.InScope n vis'
  | ident _ (.var _), _, _, h, hsub => fun hn => hsub (h hn)
  | ident _ (.binding _), _, _, _, _ | literal _ _, _, _, _, _ => trivial
  | unary _ _ e, _, _, h, hsub | cast _ _ e, _, _, h, hsub | instanceOf _ e _, _, _, h, hsub
  | typeTest _ e _, _, _, h, hsub => InScope.mono (e := e) h hsub
  | binary _ _ _ _, _, _, h, hsub | assign _ _ _, _, _, h, hsub =>
      ⟨h.1.mono hsub, h.2.mono hsub⟩
  | conditional _ _ _ _, _, _, h, hsub => ⟨h.1.mono hsub, h.2.1.mono hsub, h.2.2.mono hsub⟩
  | call _ _ es, _, _, h, hsub => @InScopeAll.mono n es _ _ h hsub
  | methodCall _ _ _ _, _, _, h, hsub => ⟨h.1.mono hsub, InScopeAll.mono h.2 hsub⟩
  | letIn _ _ _, _, _, h, hsub =>
      ⟨InScopeDefs.mono h.1 hsub, h.2.mono (List.append_subset.mpr
        ⟨List.subset_append_of_subset_left _ hsub, List.subset_append_right _ _⟩)⟩
theorem InScopeAll.mono {n : Nat} : ∀ {es : List Expr} {vis vis' : List VarId},
    InScopeAll n vis es → vis ⊆ vis' → InScopeAll n vis' es
  | [], _, _, _, _ => trivial
  | _ :: _, _, _, h, hsub => ⟨h.1.mono hsub, InScopeAll.mono h.2 hsub⟩
/-- The same of definitions. -/
theorem InScopeDefs.mono {n : Nat} : ∀ {ds : List (VarId × Expr)} {vis vis' : List VarId},
    InScopeDefs n vis ds → vis ⊆ vis' → InScopeDefs n vis' ds
  | [], _, _, _, _ => trivial
  | (_, _) :: _, _, _, h, hsub =>
      ⟨h.1.mono hsub, InScopeDefs.mono h.2 (List.append_subset.mpr
        ⟨List.subset_append_of_subset_left _ hsub, List.subset_append_right _ _⟩)⟩
end

end Expr

namespace Stmt

mutual
/-- Of the variables from number `n` on, a statement mentions only those in
`vis` and, after a declaration with a value in a block, the one declared. -/
def InScope (n : Nat) : (vis : List VarId) → Stmt → Prop
  | vis, expr _ e => e.InScope n vis
  | vis, decl _ _ e => ∀ x ∈ e, x.InScope n vis
  | vis, block _ ss => InScopeAll n vis ss
  | vis, ifElse _ c y no => c.InScope n vis ∧ y.InScope n vis ∧ InScopeOpt n vis no
  | vis, whileDo _ c b => c.InScope n vis ∧ b.InScope n vis
  | vis, doWhile _ b c => b.InScope n vis ∧ c.InScope n vis
  | vis, forDo _ ss c es b =>
      InScopeEach n vis ss ∧ (∀ x ∈ c, x.InScope n vis) ∧ Expr.InScopeAll n vis es
        ∧ b.InScope n vis
  | vis, labeled _ _ b => b.InScope n vis
  | vis, ret _ e => ∀ x ∈ e, x.InScope n vis
  | _, brk _ _ => True
  | _, cont _ _ => True
/-- The statements of a block: each sees what those before it declare. -/
def InScopeAll (n : Nat) : (vis : List VarId) → List Stmt → Prop
  | _, [] => True
  | vis, s :: ss => s.InScope n vis ∧ InScopeAll n (vis ++ s.ownDeclared) ss
/-- Statements outside of a block, none of which sees what another declares. -/
def InScopeEach (n : Nat) : (vis : List VarId) → List Stmt → Prop
  | _, [] => True
  | vis, s :: ss => s.InScope n vis ∧ InScopeEach n vis ss
/-- The same of a branch that may be missing. -/
def InScopeOpt (n : Nat) : (vis : List VarId) → Option Stmt → Prop
  | _, none => True
  | vis, some s => s.InScope n vis
end

mutual
/-- A statement in scope stays so when more is visible. -/
theorem InScope.mono {n : Nat} : ∀ {s : Stmt} {vis vis' : List VarId},
    s.InScope n vis → vis ⊆ vis' → s.InScope n vis'
  | expr _ _, _, _, h, hsub => Expr.InScope.mono h hsub
  | decl _ _ _, _, _, h, hsub | ret _ _, _, _, h, hsub => fun x hx => (h x hx).mono hsub
  | block _ ss, _, _, h, hsub => @InScopeAll.mono n ss _ _ h hsub
  | ifElse _ _ _ _, _, _, h, hsub =>
      ⟨Expr.InScope.mono h.1 hsub, h.2.1.mono hsub, InScopeOpt.mono h.2.2 hsub⟩
  | whileDo _ _ _, _, _, h, hsub => ⟨Expr.InScope.mono h.1 hsub, h.2.mono hsub⟩
  | doWhile _ _ _, _, _, h, hsub => ⟨h.1.mono hsub, Expr.InScope.mono h.2 hsub⟩
  | forDo _ _ _ _ _, _, _, h, hsub =>
      ⟨InScopeEach.mono h.1 hsub, fun x hx => (h.2.1 x hx).mono hsub,
        Expr.InScopeAll.mono h.2.2.1 hsub, h.2.2.2.mono hsub⟩
  | labeled _ _ b, _, _, h, hsub => InScope.mono (s := b) h hsub
  | brk _ _, _, _, _, _ | cont _ _, _, _, _, _ => trivial
/-- The same of the statements of a block. -/
theorem InScopeAll.mono {n : Nat} : ∀ {ss : List Stmt} {vis vis' : List VarId},
    InScopeAll n vis ss → vis ⊆ vis' → InScopeAll n vis' ss
  | [], _, _, _, _ => trivial
  | _ :: _, _, _, h, hsub =>
      ⟨h.1.mono hsub, InScopeAll.mono h.2 (List.append_subset.mpr
        ⟨List.subset_append_of_subset_left _ hsub, List.subset_append_right _ _⟩)⟩
/-- The same of statements that are none. -/
theorem InScopeEach.mono {n : Nat} : ∀ {ss : List Stmt} {vis vis' : List VarId},
    InScopeEach n vis ss → vis ⊆ vis' → InScopeEach n vis' ss
  | [], _, _, _, _ => trivial
  | _ :: _, _, _, h, hsub => ⟨h.1.mono hsub, InScopeEach.mono h.2 hsub⟩
theorem InScopeOpt.mono {n : Nat} : ∀ {s : Option Stmt} {vis vis' : List VarId},
    InScopeOpt n vis s → vis ⊆ vis' → InScopeOpt n vis' s
  | none, _, _, _, _ => trivial
  | some s, _, _, h, hsub => InScope.mono (s := s) h hsub
end

end Stmt

/-! ## §2. Variables added. -/

namespace Lowering

/-- Between two states, variables are added to the table, `temps` of them
temporaries, and of those from number `n` on, `declared` has each exactly once
and no other. -/
structure Adds (n : Nat) (p p' : Pass) (declared : List VarId) (temps : Nat) : Prop where
  vars : ∃ syms, p'.symbols.vars.toList = p.symbols.vars.toList ++ syms
    ∧ syms.countP (·.synthetic) = temps
  once : ∀ v : VarId, n ≤ v.index → declared.count v
    = if p.symbols.vars.size ≤ v.index ∧ v.index < p'.symbols.vars.size then 1 else 0

namespace Adds

variable {n : Nat} {p p₁ p₂ p' : Pass} {d₁ d₂ : List VarId} {k₁ k₂ : Nat}

/-- No variable is taken out. -/
theorem size_le (h : Adds n p p₁ d₁ k₁) : p.symbols.vars.size ≤ p₁.symbols.vars.size := by
  obtain ⟨syms, hsyms, -⟩ := h.vars
  have hlength := congrArg List.length hsyms
  rw [List.length_append, Array.length_toList, Array.length_toList] at hlength
  omega

/-- Nothing is added, and what is declared has variables of the source only. -/
theorem none (hsame : p'.symbols.vars = p.symbols.vars) (hold : ∀ v ∈ d₁, v.index < n) :
    Adds n p p' d₁ 0 := by
  refine ⟨⟨[], by rw [hsame, List.append_nil], rfl⟩, ?_⟩
  intro v hv
  rw [hsame, if_neg (by omega)]
  refine List.count_eq_zero_of_not_mem ?_
  intro hmem
  have := hold v hmem
  omega

/-- What is added in two goes is added. -/
theorem append (h₁ : Adds n p p₁ d₁ k₁) (h₂ : Adds n p₁ p₂ d₂ k₂) :
    Adds n p p₂ (d₁ ++ d₂) (k₁ + k₂) := by
  have hle₁ := h₁.size_le
  have hle₂ := h₂.size_le
  constructor
  · obtain ⟨syms, hsyms, htemps⟩ := h₁.vars
    obtain ⟨more, hmore, htemps'⟩ := h₂.vars
    refine ⟨syms ++ more, by rw [hmore, hsyms, List.append_assoc], ?_⟩
    rw [List.countP_append, htemps, htemps']
  · intro v hv
    rw [List.count_append, h₁.once v hv, h₂.once v hv]
    split <;> split <;> split <;> omega

/-- The order of what is declared does not matter. -/
theorem perm (h : Adds n p p₁ d₁ k₁) (hperm : d₁.Perm d₂) : Adds n p p₁ d₂ k₁ := by
  refine ⟨h.vars, ?_⟩
  intro v hv
  rw [← hperm.count_eq, h.once v hv]

/-- One temporary is added. -/
theorem temp (n : Nat) {symbol : VarSymbol} (htemp : symbol.synthetic = true)
    (hpush : p'.symbols.vars = p.symbols.vars.push symbol) :
    Adds n p p' [⟨p.symbols.vars.size⟩] 1 := by
  refine ⟨⟨[symbol], by rw [hpush, Array.toList_push], by simp [htemp]⟩, ?_⟩
  intro v _
  obtain ⟨i⟩ := v
  rw [hpush, Array.size_push]
  by_cases hi : i = p.symbols.vars.size
  · subst hi
    rw [if_pos ⟨Nat.le_refl _, Nat.lt_succ_self _⟩]
    simp
  · rw [if_neg (show ¬ (p.symbols.vars.size ≤ i ∧ i < p.symbols.vars.size + 1) by omega)]
    refine List.count_eq_zero_of_not_mem ?_
    intro hmem
    injection List.mem_singleton.mp hmem with hmem
    exact hi hmem

/-- Only the variables of the two states matter. -/
theorem of_vars (h : Adds n p p₁ d₁ k₁) (hsame : p₂.symbols.vars = p₁.symbols.vars) :
    Adds n p p₂ d₁ k₁ := by
  obtain ⟨hvars, honce⟩ := h
  refine ⟨?_, ?_⟩
  · rw [hsame]
    exact hvars
  · rw [hsame]
    exact honce

end Adds

/-- The variables of the slots of a new frame are the next ones of the table. -/
theorem Allocates.count {s : Symbols} {k : Nat} {slots : List Slot} {syms : List VarSymbol}
    (h : Allocates s k slots syms) (v : VarId) :
    (slots.map (·.var)).count v = if k ≤ v.index ∧ v.index < k + syms.length then 1 else 0 := by
  induction h with
  | nil k =>
      rw [if_neg (by simp)]
      rfl
  | cons hb rest ih =>
      rename_i k b symbol slots syms
      obtain ⟨i⟩ := v
      rw [List.map_cons, List.count_cons, ih, List.length_cons]
      show (if k + 1 ≤ i ∧ i < k + 1 + syms.length then 1 else 0) + _
        = if k ≤ i ∧ i < k + (syms.length + 1) then 1 else 0
      by_cases hk : k = i
      · subst hk
        rw [if_neg (by omega), if_pos (by simp), if_pos (by omega)]
      · have hne : ¬ ((⟨k⟩ : VarId) == ⟨i⟩) = true := by
          intro heq
          injection eq_of_beq heq with heq
          exact hk heq
        rw [if_neg hne]
        split <;> split <;> omega

/-- Storage is no temporary. -/
theorem Allocates.countP_synthetic {s : Symbols} {k : Nat} {slots : List Slot}
    {syms : List VarSymbol} (h : Allocates s k slots syms) : syms.countP (·.synthetic) = 0 := by
  induction h with
  | nil k => rfl
  | cons hb rest ih => rw [List.countP_cons_of_neg (by simp), ih]

/-- A frame adds the variables of its slots. -/
theorem enter_adds (n : Nat) (p : Pass) (kind : FrameKind) (bindings : List BindingId) :
    ∃ slots, (p.enter kind bindings).stack = ⟨⟨kind, slots, []⟩, p.stack.frames⟩
      ∧ (∀ v ∈ slots.map (·.var), p.symbols.vars.size ≤ v.index)
      ∧ Adds n p (p.enter kind bindings) (slots.map (·.var)) 0 := by
  obtain ⟨slots, syms, halloc, heq⟩ := enter_eq p kind bindings
  refine ⟨slots, by rw [heq], ?_, ?_⟩
  · intro v hv
    refine Nat.le_of_not_lt ?_
    intro hlt
    have hcount := halloc.count v
    rw [if_neg (by omega)] at hcount
    exact List.count_eq_zero.mp hcount hv
  · rw [heq]
    refine ⟨⟨syms, by simp [Symbols.moreVars], halloc.countP_synthetic⟩, ?_⟩
    intro v _
    show _ = if _ ∧ _ < (p.symbols.moreVars syms).vars.size then 1 else 0
    rw [halloc.count v, p.symbols.moreVars_size]

end Lowering

/-- The variables in the slots of a stack. -/
def Stack.vars (st : Stack) : List VarId := st.frames.flatMap fun f => f.slots.map (·.var)

/-- A binding is resolved to a variable of the stack. -/
theorem Stack.resolve_mem_vars {st : Stack} {s : Symbols} {b : BindingId} {v : VarId}
    (h : st.resolve s b = some v) : v ∈ st.vars := by
  obtain ⟨f, hf, hv⟩ := List.exists_of_findSome?_eq_some h
  obtain ⟨slot, hslot, rfl⟩ := Option.map_eq_some_iff.mp hv
  exact List.mem_flatMap.mpr ⟨f, hf, List.mem_map_of_mem (List.mem_of_find?_eq_some hslot)⟩

/-- The variables of a stack that has gained are those it had and those it took over. -/
theorem Stack.mem_vars_gain {st : Stack} {taken : List (Slot × Stmt)} {v : VarId} :
    v ∈ (st.gain taken).vars ↔ v ∈ st.vars ∨ v ∈ taken.map fun x => x.1.var := by
  obtain ⟨f, fs⟩ := st
  show v ∈ (f.slots ++ taken.map Prod.fst).map (·.var) ++ fs.flatMap _
    ↔ v ∈ f.slots.map (·.var) ++ fs.flatMap _ ∨ _
  rw [List.map_append, List.map_map]
  simp only [List.mem_append]
  constructor
  · rintro ((h | h) | h)
    · exact .inl (.inl h)
    · exact .inr h
    · exact .inl (.inr h)
  · rintro ((h | h) | h)
    · exact .inl (.inl h)
    · exact .inr h
    · exact .inl (.inr h)

/-- What a frame gives to the one around it is gained there. -/
theorem Stack.pop_give (f : Frame) (st : Stack) (taken : List (Slot × Stmt)) :
    ((⟨f, st.frames⟩ : Stack).give taken).pop = st.gain taken := rfl

/-! ## §3. Expressions. -/

namespace Lowering

/-- A step of the pass that leaves the stack as it is, declares what it adds,
and has an output in scope under the slots of the stack. -/
structure Lowers (n : Nat) (p p' : Pass) (declared : List VarId) (temps : Nat)
    (inScope : List VarId → Prop) : Prop where
  stack : p'.stack = p.stack
  adds : Adds n p p' declared temps
  scope : inScope p.stack.vars

namespace Lowers

variable {n : Nat} {p p₁ p₂ p' : Pass} {d₁ d₂ : List VarId} {k₁ k₂ : Nat}
  {S₁ S₂ : List VarId → Prop}

/-- No step at all. -/
theorem nothing : Lowers n p p [] 0 fun _ => True := ⟨rfl, .none rfl (by simp), trivial⟩

theorem seq (h₁ : Lowers n p p₁ d₁ k₁ S₁) (h₂ : Lowers n p₁ p₂ d₂ k₂ S₂) :
    Lowers n p p₂ (d₁ ++ d₂) (k₁ + k₂) fun vis => S₁ vis ∧ S₂ vis := by
  refine ⟨h₂.stack.trans h₁.stack, h₁.adds.append h₂.adds, h₁.scope, ?_⟩
  rw [← h₁.stack]
  exact h₂.scope

/-- The output put into a larger tree. -/
theorem wrap (h : Lowers n p p₁ d₁ k₁ S₁) (hd : d₂ = d₁) (hk : k₂ = k₁)
    (hS : ∀ vis, S₁ vis → S₂ vis) : Lowers n p p₁ d₂ k₂ S₂ := by
  subst hd hk
  exact ⟨h.stack, h.adds, hS _ h.scope⟩

/-- The order of what is declared does not matter. -/
theorem perm (h : Lowers n p p₁ d₁ k₁ S₁) (hperm : d₁.Perm d₂) : Lowers n p p₁ d₂ k₁ S₁ :=
  ⟨h.stack, h.adds.perm hperm, h.scope⟩

/-- A step before that neither changes the stack nor adds variables. -/
theorem before (hstack : p₁.stack = p.stack) (hvars : p₁.symbols.vars = p.symbols.vars)
    (h : Lowers n p₁ p₂ d₁ k₁ S₁) : Lowers n p p₂ d₁ k₁ S₁ := by
  obtain ⟨hstack', hadds, hscope⟩ := h
  refine ⟨hstack'.trans hstack, ⟨?_, ?_⟩, ?_⟩
  · rw [← hvars]
    exact hadds.vars
  · rw [← hvars]
    exact hadds.once
  · rw [← hstack]
    exact hscope

end Lowers

/-- Default values declare nothing and mention nothing. -/
theorem DefinesSlots.inScope {s : Symbols} {span : Span} {id : NodeId} {slots : List Slot}
    {defs : List (VarId × Expr)} (h : DefinesSlots s span id slots defs) :
    defs.map Prod.fst = slots.map (·.var) ∧ Expr.gatherDefs Expr.ownDeclared defs = []
      ∧ ∀ n vis, Expr.InScopeDefs n vis defs := by
  induction h with
  | nil id => exact ⟨rfl, rfl, fun _ _ => trivial⟩
  | cons hsym hv rest ih =>
      obtain ⟨hfst, hgather, hscope⟩ := ih
      refine ⟨by rw [List.map_cons, List.map_cons, hfst], ?_, fun n vis => ⟨trivial, hscope n _⟩⟩
      rw [Expr.gatherDefs_cons, hgather]
      rfl

/-- The let-expression around an expression declares the slots of its frame. -/
theorem decorateExpr_inScope {n : Nat} {p p' : Pass} {e e' : Expr} (vis : List VarId)
    (h : decorateExpr e p = .ok e' p')
    (he : e.InScope n (p.stack.current.slots.map (·.var) ++ vis)) :
    p'.stack = p.stack ∧ p'.symbols = p.symbols
      ∧ e'.declared = p.stack.current.slots.map (·.var) ++ e.declared ∧ e'.InScope n vis := by
  rcases decorateExpr_eq_ok h with ⟨hslots, rfl, rfl⟩ | ⟨defs, hdefs, rfl, rfl⟩
  · rw [hslots] at he ⊢
    exact ⟨rfl, rfl, rfl, he⟩
  · obtain ⟨hfst, hgather, hscope⟩ := hdefs.inScope
    refine ⟨rfl, rfl, ?_, hscope n vis, ?_⟩
    · show Expr.gather Expr.ownDeclared (.letIn _ defs e) = _
      rw [Expr.gather_letIn, hgather, List.nil_append]
      show defs.map Prod.fst ++ e.declared = _
      rw [hfst]
    · rw [hfst]
      exact he.mono (List.append_subset.mpr
        ⟨List.subset_append_right _ _, List.subset_append_left _ _⟩)

/-- An expression at the end of its frame: a let-expression defines the storage of
the frame, and the frame is left. -/
theorem Lowers.framed {n k : Nat} (kind : FrameKind) (bindings : List BindingId)
    {p p₁ q q' : Pass} {e e' : Expr}
    (hasked : p₁.stack = p.stack ∧ p₁.symbols.vars = p.symbols.vars)
    (hlow : Lowers n (p₁.enter kind bindings) q e.declared k fun vis => e.InScope n vis)
    (hdec : decorateExpr e q = .ok e' q') :
    Lowers n p { q' with stack := q'.stack.pop } e'.declared k fun vis => e'.InScope n vis := by
  refine .before hasked.1 hasked.2 ?_
  obtain ⟨slots, hstack, -, hadds⟩ := enter_adds n p₁ kind bindings
  have hq : q.stack = ⟨⟨kind, slots, []⟩, p₁.stack.frames⟩ := hlow.stack.trans hstack
  have hscope : e.InScope n (slots.map (·.var) ++ p₁.stack.vars) := by
    have := hlow.scope
    rw [hstack] at this
    exact this
  have hslots : q.stack.current.slots = slots := by rw [hq]
  obtain ⟨hstack', hsymbols, hdecl, hout⟩ :=
    decorateExpr_inScope p₁.stack.vars hdec (by rw [hslots]; exact hscope)
  refine ⟨?_, ?_, hout⟩
  · show q'.stack.pop = p₁.stack
    rw [hstack', hq]
    rfl
  · rw [hdecl, hslots, ← Nat.zero_add k]
    exact (hadds.append hlow.adds).of_vars (by rw [hsymbols])

/-- The tree for a type test declares nothing, and mentions the temporary and
the variable that stores the binding. -/
theorem IsTest.inScope {span : Span} {isCertain : Bool} {temp : VarId} {target ty : Ty}
    {id : NodeId} {storage : Option (VarId × Ty)} {test : Expr} {size : Nat} (n : Nat)
    (vis : List VarId) (h : IsTest span isCertain temp target ty id storage test size)
    (htemp : temp ∈ vis) (hstorage : ∀ x ∈ storage, x.1 ∈ vis) :
    test.declared = [] ∧ test.InScope n vis := by
  have hmatch : ∀ id, (matchNode id span isCertain temp target ty).declared = []
      ∧ (matchNode id span isCertain temp target ty).InScope n vis := by
    intro id
    cases isCertain with
    | true => exact ⟨rfl, trivial⟩
    | false => exact ⟨rfl, fun _ => htemp⟩
  cases h with
  | plain => exact hmatch id
  | stored var varTy =>
      have hvar : var ∈ vis := hstorage (var, varTy) rfl
      have hstore : ∀ id, (storeNode id span var temp varTy target ty).declared = []
          ∧ (storeNode id span var temp varTy target ty).InScope n vis := by
        intro id
        unfold storeNode
        split
        · exact ⟨rfl, ⟨fun _ => hvar, fun _ => htemp⟩, fun _ => htemp⟩
        · exact ⟨rfl, ⟨fun _ => hvar, fun _ => htemp⟩, fun _ => htemp⟩
      refine ⟨?_, (hmatch _).2, (hstore _).2⟩
      show Expr.gather Expr.ownDeclared _ = []
      rw [Expr.gather_binary]
      show [] ++ (Expr.declared _ ++ Expr.declared _) = []
      rw [(hmatch _).1, (hstore _).1]
      rfl

/-- Storage that is found is in the stack. -/
theorem storageOf_mem_vars {st : Stack} {s : Symbols} {b : BindingId} :
    ∀ x ∈ storageOf st s b, x.1 ∈ st.vars := by
  intro x hx
  obtain ⟨var, hvar, hx⟩ := Option.bind_eq_some_iff.mp hx
  obtain ⟨sym, -, rfl⟩ := Option.map_eq_some_iff.mp hx
  exact Stack.resolve_mem_vars hvar

/-- A type test adds its temporary, and declares it in front of the test. -/
theorem lowerTest_lowers {rules : Rules} {n k : Nat} {operandTy : Ty} {operand e : Expr}
    {pattern : BindingPattern} {span : Span} {p p₁ p' : Pass}
    (hop : Lowers n p p₁ operand.declared k fun vis => operand.InScope n vis)
    (h : lowerTest rules operandTy operand pattern span p₁ = .ok e p') :
    Lowers n p p' e.declared (k + 1) fun vis => e.InScope n vis := by
  obtain ⟨symbol, test, size, hb, htest, -, rfl, rfl⟩ := lowerTest_eq_ok h
  let temp : VarId := ⟨p₁.symbols.vars.size⟩
  have hvis : ∀ x ∈ storageOf p₁.stack (addTemp p₁.symbols symbol operandTy) pattern.binding,
      x.1 ∈ p.stack.vars ++ [temp] := by
    intro x hx
    refine List.mem_append_left _ ?_
    rw [← hop.stack]
    exact storageOf_mem_vars x hx
  obtain ⟨hdecl, hscope⟩ := htest.inScope n (p.stack.vars ++ [temp]) (by simp [temp]) hvis
  have hadds : Adds n p₁ ⟨addTemp p₁.symbols symbol operandTy, p₁.stack,
      ⟨p₁.maker.next + size + 1, span⟩⟩ [temp] 1 := .temp n rfl rfl
  refine ⟨hop.stack, (hop.adds.append hadds).perm ?_, ⟨hop.scope, trivial⟩, hscope⟩
  show (operand.declared ++ [temp]).Perm (Expr.gather Expr.ownDeclared _)
  rw [Expr.gather_letIn, Expr.gatherDefs_cons, Expr.gatherDefs_nil, List.append_nil]
  show (operand.declared ++ [temp]).Perm ([temp] ++ (operand.declared ++ test.declared))
  rw [hdecl, List.append_nil]
  exact List.perm_append_comm

end Lowering

/-- The oracle adds no variables. -/
def Oracle.KeepsVars (flow : Oracle) : Prop :=
  ∀ cond outcome s, (flow cond outcome s).2.vars = s.vars

/-- If one outcome adds no variables, both add none. -/
theorem Oracle.KeepsVars.all {flow : Oracle} (h : flow.KeepsVars) (cond : Expr) (s : Symbols) :
    (flow.all cond s).2.vars = s.vars := by
  show (flow cond false (flow cond true s).2).2.vars = s.vars
  rw [h, h]

namespace Flow

/-- The structural oracle unifies bindings, and leaves the variables alone. -/
theorem matchBindings_keepsVars (cond : Expr) (outcome : Bool) (s : Symbols) :
    (matchBindings cond outcome s).2.vars = s.vars :=
  matchBindings_keeps (P := fun t => t.vars = s.vars) (fun h hm => (Symbols.merge?_vars hm).trans h)
    cond outcome rfl

end Flow

namespace Lowering

variable {rules : Rules} {n : Nat}

/-- A condition asked about for both outcomes adds none. -/
theorem asking_all_vars (hflow : rules.flow.KeepsVars) {cond : Expr} {bs : List BindingId} {p p' : Pass}
    (h : asking (rules.flow.all cond) p = .ok bs p') :
    p'.stack = p.stack ∧ p'.symbols.vars = p.symbols.vars := by
  obtain ⟨-, rfl⟩ := asking_eq_ok h
  exact ⟨rfl, hflow.all cond p.symbols⟩

/-- The facts for the operands add none. -/
theorem operandFacts_vars (hflow : rules.flow.KeepsVars) {op : BinOp} {left : Expr}
    {bs : List BindingId} {p p' : Pass} (h : operandFacts rules.flow op left p = .ok bs p') :
    p'.stack = p.stack ∧ p'.symbols.vars = p.symbols.vars := by
  cases op with
  | and | or =>
      obtain ⟨-, rfl⟩ := asking_eq_ok h
      exact ⟨rfl, hflow _ _ _⟩
  | _ =>
      obtain ⟨-, rfl⟩ := pure_eq_ok.mp h
      exact ⟨rfl, rfl⟩

mutual
/-- **An expression**: the stack is as before, the variables added are declared
once, and mentioned where they are in scope. -/
theorem lowerExpr_lowers (hflow : rules.flow.KeepsVars) :
    ∀ (e : Expr) {e' : Expr} {p p' : Pass},
    (∀ v ∈ e.vars, v.index < n) → lowerExpr rules e p = .ok e' p' →
      Lowers n p p' e'.declared e.tests.length fun vis => e'.InScope n vis
  | .literal i v, e', p, p', hvars, h => by
      obtain ⟨rfl, rfl⟩ := pure_eq_ok.mp h
      exact ⟨rfl, .none rfl (by simp [Expr.declared, Expr.ownDeclared]), trivial⟩
  | .ident i (.var v), e', p, p', hvars, h => by
      obtain ⟨rfl, rfl⟩ := pure_eq_ok.mp h
      refine ⟨rfl, .none rfl (by simp [Expr.declared, Expr.ownDeclared]), ?_⟩
      intro hn
      have := hvars v (by simp [Expr.vars, Expr.ownVars])
      omega
  | .ident i (.binding b), e', p, p', hvars, h => by
      obtain ⟨var, hvar, rfl, rfl⟩ := lowerRef_eq_ok h
      exact ⟨rfl, .none rfl (by simp [Expr.declared, Expr.ownDeclared]),
        fun _ => Stack.resolve_mem_vars hvar⟩
  | .unary i op e, e', p, p', hvars, h => by
      obtain ⟨x, hx, rfl⟩ := bind_pure_eq_ok.mp h
      simp only [Expr.vars, Expr.gather_unary, Expr.ownVars, List.nil_append] at hvars
      exact (lowerExpr_lowers hflow e hvars hx).wrap (by simp [Expr.declared, Expr.ownDeclared])
        (by simp) fun vis hS => hS
  | .binary i op l r, e', p, p', hvars, h => by
      obtain ⟨bs, p₁, x, q₁, y, q₂, q, hfacts, hx, hy, hdec, rfl⟩ := lowerExpr_binary_eq_ok h
      simp only [Expr.vars, Expr.gather_binary, Expr.ownVars, List.nil_append, List.mem_append,
        or_imp, forall_and] at hvars
      refine .framed .binary bs (operandFacts_vars hflow hfacts) ?_ hdec
      exact ((lowerExpr_lowers hflow l hvars.1 hx).seq (lowerExpr_lowers hflow r hvars.2 hy)).wrap
        (by simp [Expr.declared, Expr.ownDeclared]) (by simp)
        fun vis hS => hS
  | .conditional i c y z, e', p, p', hvars, h => by
      obtain ⟨bs, p₁, x₁, q₁, x₂, q₂, x₃, q₃, q, hask, hx₁, hx₂, hx₃, hdec, rfl⟩ :=
        lowerExpr_conditional_eq_ok h
      simp only [Expr.vars, Expr.gather_conditional, Expr.ownVars, List.nil_append,
        List.mem_append, or_imp, forall_and] at hvars
      refine .framed .conditional bs (asking_all_vars hflow hask) ?_ hdec
      exact ((lowerExpr_lowers hflow c hvars.1 hx₁).seq ((lowerExpr_lowers hflow y hvars.2.1 hx₂).seq
        (lowerExpr_lowers hflow z hvars.2.2 hx₃))).wrap
        (by simp [Expr.declared, Expr.ownDeclared]) (by simp)
        fun vis hS => hS
  | .assign i t v, e', p, p', hvars, h => by
      obtain ⟨x, p₁, y, hx, hy, rfl⟩ := bind_bind_pure_eq_ok.mp h
      simp only [Expr.vars, Expr.gather_assign, Expr.ownVars, List.nil_append, List.mem_append,
        or_imp, forall_and] at hvars
      exact ((lowerExpr_lowers hflow t hvars.1 hx).seq (lowerExpr_lowers hflow v hvars.2 hy)).wrap
        (by simp [Expr.declared, Expr.ownDeclared]) (by simp)
        fun vis hS => hS
  | .cast i t e, e', p, p', hvars, h => by
      obtain ⟨x, hx, rfl⟩ := bind_pure_eq_ok.mp h
      simp only [Expr.vars, Expr.gather_cast, Expr.ownVars, List.nil_append] at hvars
      exact (lowerExpr_lowers hflow e hvars hx).wrap (by simp [Expr.declared, Expr.ownDeclared])
        (by simp) fun vis hS => hS
  | .instanceOf i e t, e', p, p', hvars, h => by
      obtain ⟨x, hx, rfl⟩ := bind_pure_eq_ok.mp h
      simp only [Expr.vars, Expr.gather_instanceOf, Expr.ownVars, List.nil_append] at hvars
      exact (lowerExpr_lowers hflow e hvars hx).wrap (by simp [Expr.declared, Expr.ownDeclared])
        (by simp) fun vis hS => hS
  | .typeTest i e pattern, e', p, p', hvars, h => by
      obtain ⟨x, p₁, hx, htest⟩ := bind_eq_ok.mp h
      simp only [Expr.vars, Expr.gather_typeTest, Expr.ownVars, List.nil_append] at hvars
      exact (lowerTest_lowers (lowerExpr_lowers hflow e hvars hx) htest).wrap rfl
        (by simp [Nat.add_comm]) fun vis hS => hS
  | .call i f args, e', p, p', hvars, h => by
      obtain ⟨xs, hxs, rfl⟩ := bind_pure_eq_ok.mp h
      simp only [Expr.vars, Expr.gather_call, Expr.ownVars, List.nil_append] at hvars
      exact (lowerExprs_lowers hflow args hvars hxs).wrap (by simp [Expr.declared, Expr.ownDeclared])
        (by simp) fun vis hS => hS
  | .methodCall i e f args, e', p, p', hvars, h => by
      obtain ⟨x, p₁, xs, hx, hxs, rfl⟩ := bind_bind_pure_eq_ok.mp h
      simp only [Expr.vars, Expr.gather_methodCall, Expr.ownVars, List.nil_append,
        List.mem_append, or_imp, forall_and] at hvars
      exact ((lowerExpr_lowers hflow e hvars.1 hx).seq (lowerExprs_lowers hflow args hvars.2 hxs)).wrap
        (by simp [Expr.declared, Expr.ownDeclared]) (by simp)
        fun vis hS => hS
  | .letIn i defs body, e', p, p', hvars, h => by
      obtain ⟨ds, p₁, x, hds, hx, rfl⟩ := bind_bind_pure_eq_ok.mp h
      simp only [Expr.vars, Expr.gather_letIn, Expr.ownVars, List.mem_append,
        or_imp, forall_and] at hvars
      obtain ⟨hfst, hlow⟩ := lowerDefs_lowers hflow defs hvars.1 hvars.2.1 hds
      -- the variables of the source that are defined here are not new
      have hold : Lowers n p p (ds.map Prod.fst) 0 fun _ => True :=
        ⟨rfl, .none rfl (by rw [hfst]; exact hvars.1), trivial⟩
      refine (hold.seq (hlow.seq (lowerExpr_lowers hflow body hvars.2.2 hx))).wrap ?_ ?_ ?_
      · simp [Expr.declared, Expr.ownDeclared]
      · simp
      · intro vis hS
        exact ⟨hS.2.1, hS.2.2.mono (List.subset_append_left _ _)⟩
theorem lowerExprs_lowers (hflow : rules.flow.KeepsVars) :
    ∀ (es : List Expr) {es' : List Expr} {p p' : Pass},
    (∀ v ∈ Expr.gatherAll Expr.ownVars es, v.index < n) → lowerExprs rules es p = .ok es' p' →
      Lowers n p p' (Expr.gatherAll Expr.ownDeclared es') (Expr.gatherAll Expr.ownTests es).length
        fun vis => Expr.InScopeAll n vis es'
  | [], es', p, p', hvars, h => by
      obtain ⟨rfl, rfl⟩ := pure_eq_ok.mp h
      exact ⟨rfl, .none rfl (by simp), trivial⟩
  | e :: es, es', p, p', hvars, h => by
      obtain ⟨x, p₁, xs, hx, hxs, rfl⟩ := bind_bind_pure_eq_ok.mp h
      simp only [Expr.gatherAll_cons, List.mem_append, or_imp, forall_and] at hvars
      exact ((lowerExpr_lowers hflow e hvars.1 hx).seq (lowerExprs_lowers hflow es hvars.2 hxs)).wrap
        (by rw [Expr.gatherAll_cons]; rfl) (by rw [Expr.gatherAll_cons, List.length_append]; rfl)
        fun vis hS => hS
/-- The same of definitions, whose variables stay as they are. -/
theorem lowerDefs_lowers (hflow : rules.flow.KeepsVars) :
    ∀ (ds : List (VarId × Expr)) {ds' : List (VarId × Expr)}
    {p p' : Pass}, (∀ v ∈ ds.map Prod.fst, v.index < n) →
    (∀ v ∈ Expr.gatherDefs Expr.ownVars ds, v.index < n) → lowerDefs rules ds p = .ok ds' p' →
      ds'.map Prod.fst = ds.map Prod.fst
        ∧ Lowers n p p' (Expr.gatherDefs Expr.ownDeclared ds')
          (Expr.gatherDefs Expr.ownTests ds).length fun vis => Expr.InScopeDefs n vis ds'
  | [], ds', p, p', hfst, hvars, h => by
      obtain ⟨rfl, rfl⟩ := pure_eq_ok.mp h
      exact ⟨rfl, rfl, .none rfl (by simp), trivial⟩
  | (v, e) :: ds, ds', p, p', hfst, hvars, h => by
      obtain ⟨x, p₁, xs, hx, hxs, rfl⟩ := bind_bind_pure_eq_ok.mp h
      simp only [Expr.gatherDefs_cons, List.mem_append, or_imp, forall_and] at hvars
      obtain ⟨heq, hlow⟩ := lowerDefs_lowers hflow ds (fun w hw => hfst w (List.mem_cons_of_mem _ hw))
        hvars.2 hxs
      refine ⟨by rw [List.map_cons, List.map_cons, heq], ?_⟩
      exact ((lowerExpr_lowers hflow e hvars.1 hx).seq hlow).wrap
        (by rw [Expr.gatherDefs_cons]; rfl) (by rw [Expr.gatherDefs_cons, List.length_append]; rfl)
        fun vis hS => ⟨hS.1, hS.2.mono (List.subset_append_left _ _)⟩
end

end Lowering

end PatternIR
