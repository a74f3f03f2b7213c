/-
  PatternIR.Proofs.Lowering.Blocks
  ────────────────────────────────
  **THE VARIABLES THAT LOWERING INTRODUCES, in statements and classes.**

  A statement may make the block around it take over declarations.  They count
  as declared by the block, are in scope from then on, and the block emits
  them just before the statement:

      if (!(o instanceof String s)) return;      String s = null;
      f(s);                                      if (…) return;
                                                 f(s);

    • `LowersStmt` — a step of the pass, with what the block has taken over;
    • `LowersParts` — what is shown of a statement, one lemma for each kind;
    • `lowerParts_lowers`, `lowerBlock_lowers` — statements and blocks;
    • `lowerClass_scoped` — a whole class.
-/
import PatternIR.Proofs.Lowering.Scopes

namespace PatternIR

/-! ## §1. Declarations of storage. -/

/-- A declaration of a variable with a constant. -/
def Stmt.IsStorage (var : VarId) (s : Stmt) : Prop :=
  ∃ i j v, s = .decl i var (some (.literal j v))

/-- The declaration of storage declares that variable. -/
theorem Stmt.IsStorage.ownDeclared {var : VarId} {s : Stmt} (h : s.IsStorage var) :
    s.ownDeclared = [var] := by
  obtain ⟨i, j, v, rfl⟩ := h
  rfl

/-- Declarations of storage declare what they declare themselves, with values,
and mention nothing. -/
theorem Stmt.gatherAll_storage {decls : List Stmt} (h : ∀ d ∈ decls, ∃ var, d.IsStorage var) :
    Stmt.gatherAll Stmt.ownDeclared Expr.ownDeclared decls = decls.flatMap Stmt.ownDeclared
      ∧ Stmt.gatherAll Stmt.ownValueless (fun _ => []) decls = [] := by
  induction decls with
  | nil => exact ⟨rfl, rfl⟩
  | cons d decls ih =>
      obtain ⟨ih₁, ih₂⟩ := ih fun x hx => h x (List.mem_cons_of_mem _ hx)
      obtain ⟨var, i, j, v, rfl⟩ := h d List.mem_cons_self
      rw [gatherAll_cons, gatherAll_cons, ih₁, ih₂]
      exact ⟨rfl, rfl⟩

/-- In a block, what follows declarations of storage sees their variables. -/
theorem Stmt.inScopeAll_storage {n : Nat} {decls ss : List Stmt} : ∀ {vis : List VarId},
    (∀ d ∈ decls, ∃ var, d.IsStorage var) →
    InScopeAll n (vis ++ decls.flatMap Stmt.ownDeclared) ss → InScopeAll n vis (decls ++ ss) := by
  induction decls with
  | nil =>
      intro vis _ hss
      rw [List.flatMap_nil, List.append_nil] at hss
      exact hss
  | cons d decls ih =>
      intro vis hdecls hss
      rw [List.flatMap_cons, ← List.append_assoc] at hss
      refine ⟨?_, ih (fun x hx => hdecls x (List.mem_cons_of_mem _ hx)) hss⟩
      obtain ⟨var, i, j, v, rfl⟩ := hdecls d List.mem_cons_self
      intro x hx
      rw [← Option.mem_some.mp hx]
      trivial

namespace Lowering

/-- The declarations of slots are of storage, and declare the variables of the
slots, each either refused or taken. -/
theorem DeclaresSlots.storage {s : Symbols} {span : Span} {takes : BindingId → Bool} {id : NodeId}
    {slots : List Slot} {refused : List Stmt} {taken : List (Slot × Stmt)}
    (h : DeclaresSlots s span takes id slots refused taken) :
    (∀ d ∈ refused, ∃ var, d.IsStorage var) ∧ (∀ x ∈ taken, x.2.IsStorage x.1.var)
      ∧ (slots.map (·.var)).Perm
          (refused.flatMap Stmt.ownDeclared ++ taken.map fun x => x.1.var) := by
  induction h with
  | nil id =>
      refine ⟨?_, ?_, .refl _⟩
      · intro d hd
        exact absurd hd (by simp)
      · intro x hx
        exact absurd hx (by simp)
  | refuse hsym hv htakes rest ih =>
      rename_i id slot slots sym v refused taken
      obtain ⟨ih₁, ih₂, ih₃⟩ := ih
      refine ⟨?_, ih₂, ?_⟩
      · intro d hd
        rcases List.mem_cons.mp hd with rfl | hd
        · exact ⟨slot.var, _, _, _, rfl⟩
        · exact ih₁ d hd
      · rw [List.map_cons, List.flatMap_cons]
        exact ih₃.cons _
  | take hsym hv htakes rest ih =>
      rename_i id slot slots sym v refused taken
      obtain ⟨ih₁, ih₂, ih₃⟩ := ih
      refine ⟨ih₁, ?_, ?_⟩
      · intro x hx
        rcases List.mem_cons.mp hx with rfl | hx
        · exact ⟨_, _, _, rfl⟩
        · exact ih₂ x hx
      · rw [List.map_cons, List.map_cons]
        exact (ih₃.cons _).trans List.perm_middle.symm

/-- A frame that is not a block takes nothing. -/
theorem DeclaresSlots.taken_eq_nil {s : Symbols} {span : Span} {takes : BindingId → Bool}
    {id : NodeId} {slots : List Slot} {refused : List Stmt} {taken : List (Slot × Stmt)}
    (h : DeclaresSlots s span takes id slots refused taken) (hno : ∀ b, takes b = false) :
    taken = [] := by
  induction h with
  | nil id => rfl
  | refuse hsym hv htakes rest ih => exact ih
  | take hsym hv htakes rest ih =>
      rw [hno] at htakes
      exact absurd htakes (by simp)

/-! ## §2. Statements. -/

/-- The variables that a statement with its declarations declares. -/
def Decorated.declared (d : Decorated) : List VarId :=
  d.decls.flatMap Stmt.ownDeclared ++ d.stmt.declared

/-- A statement in scope behind its declarations of storage. -/
def Decorated.InScope (n : Nat) (vis : List VarId) (d : Decorated) : Prop :=
  (∀ x ∈ d.decls, ∃ var, x.IsStorage var)
    ∧ d.stmt.InScope n (vis ++ d.decls.flatMap Stmt.ownDeclared)

/-- A step of the pass in which the current frame takes over declarations of
storage, if it is a block.  The variables added are those declared and those
taken over, and the output is in scope behind what is taken over. -/
structure LowersStmt (n : Nat) (p p' : Pass) (taken : List (Slot × Stmt)) (declared : List VarId)
    (temps : Nat) (valueless : List VarId) (inScope : List VarId → Prop) : Prop where
  stack : p'.stack = p.stack.gain taken
  block : p.stack.current.kind ≠ .block → taken = []
  storage : ∀ x ∈ taken, x.2.IsStorage x.1.var
  fresh : ∀ x ∈ taken, p.symbols.vars.size ≤ x.1.var.index
  adds : Adds n p p' (declared ++ taken.map fun x => x.1.var) temps
  old : ∀ v ∈ valueless, v.index < n
  scope : inScope p'.stack.vars

namespace LowersStmt

variable {n k : Nat} {p p₁ p' : Pass} {taken : List (Slot × Stmt)} {declared valueless : List VarId}
  {S : List VarId → Prop}

/-- Nothing is hoisted, so what lowers as expressions do lowers as a statement. -/
theorem ofLowers (h : Lowers n p p' declared k S) (hold : ∀ v ∈ valueless, v.index < n) :
    LowersStmt n p p' [] declared k valueless S := by
  refine ⟨by rw [h.stack, Stack.gain_nil], fun _ => rfl, by simp, by simp, ?_, hold, ?_⟩
  · rw [List.map_nil, List.append_nil]
    exact h.adds
  · rw [h.stack]
    exact h.scope

/-- A step before that neither changes the stack nor adds variables. -/
theorem before (hstack : p₁.stack = p.stack) (hvars : p₁.symbols.vars = p.symbols.vars)
    (h : LowersStmt n p₁ p' taken declared k valueless S) :
    LowersStmt n p p' taken declared k valueless S := by
  obtain ⟨hstack', hblock, hstorage, hfresh, hadds, hold, hscope⟩ := h
  rw [hstack] at hstack' hblock
  rw [hvars] at hfresh
  refine ⟨hstack', hblock, hstorage, hfresh, ⟨?_, ?_⟩, hold, hscope⟩
  · rw [← hvars]
    exact hadds.vars
  · rw [← hvars]
    exact hadds.once

/-- Outside of a block nothing is taken over. -/
theorem lowers (h : LowersStmt n p p' taken declared k valueless S)
    (hkind : p.stack.current.kind ≠ .block) : Lowers n p p' declared k S := by
  obtain ⟨hstack, hblock, -, -, hadds, -, hscope⟩ := h
  rw [hblock hkind, Stack.gain_nil] at hstack
  rw [hblock hkind, List.map_nil, List.append_nil] at hadds
  rw [hstack] at hscope
  exact ⟨hstack, hadds, hscope⟩

end LowersStmt

/-- Behind its declarations in a block, if there are any, a statement is in
scope without them. -/
theorem close_lowers {n k : Nat} {p p₁ p' : Pass} {taken : List (Slot × Stmt)} {d : Decorated}
    {s : Stmt}
    (h : LowersStmt n p p₁ taken d.declared k d.stmt.valueless fun vis => d.InScope n vis)
    (hclose : d.close p₁ = .ok s p') :
    LowersStmt n p p' taken s.declared k s.valueless fun vis => s.InScope n vis := by
  obtain ⟨hstack, hblock, hstorage, hfresh, hadds, hold, hscope⟩ := h
  obtain ⟨hdecls, hstmt⟩ := hscope
  rcases close_eq_ok hclose with ⟨hnil, rfl, rfl⟩ | ⟨hne, rfl, rfl⟩
  · rw [hnil, List.flatMap_nil, List.append_nil] at hstmt
    have hsame : d.declared = d.stmt.declared := by
      rw [Decorated.declared, hnil]
      rfl
    rw [hsame] at hadds
    exact ⟨hstack, hblock, hstorage, hfresh, hadds, hold, hstmt⟩
  -- what the frame could not give away stands in front of the statement, in a block of its own
  · obtain ⟨hgather, hnone⟩ := Stmt.gatherAll_storage hdecls
    have hdecl : ∀ i, (Stmt.block i (d.decls ++ [d.stmt])).declared = d.declared := by
      intro i
      show Stmt.gather Stmt.ownDeclared Expr.ownDeclared _ = _
      rw [Stmt.gather_block, Stmt.gatherAll_append, hgather, Stmt.gatherAll_cons,
        Stmt.gatherAll_nil, List.append_nil]
      rfl
    have hvalueless : ∀ i, (Stmt.block i (d.decls ++ [d.stmt])).valueless = d.stmt.valueless := by
      intro i
      show Stmt.gather Stmt.ownValueless (fun _ => []) _ = _
      rw [Stmt.gather_block, Stmt.gatherAll_append, hnone, Stmt.gatherAll_cons,
        Stmt.gatherAll_nil, List.append_nil]
      rfl
    refine ⟨hstack, hblock, hstorage, hfresh, ?_, ?_, ?_⟩
    · rw [hdecl]
      exact hadds.of_vars rfl
    · rw [hvalueless]
      exact hold
    · exact Stmt.inScopeAll_storage hdecls ⟨hstmt, trivial⟩

/-- A statement at the end of its frame: the storage of the frame is declared in
front of it, or taken over by the frame around. -/
theorem Lowers.framedStmt {n k : Nat} (bindings : List BindingId) {p p₁ q q' : Pass} {stmt : Stmt}
    {d : Decorated} (hasked : p₁.stack = p.stack ∧ p₁.symbols.vars = p.symbols.vars)
    (hdec : decorateStmt stmt q = .ok d q')
    (hlow : Lowers n (p₁.enter .statement bindings) q stmt.declared k fun vis => stmt.InScope n vis)
    (hold : ∀ v ∈ stmt.valueless, v.index < n) :
    ∃ taken, LowersStmt n p { q' with stack := q'.stack.pop } taken d.declared k d.stmt.valueless
      fun vis => d.InScope n vis := by
  obtain ⟨slots, hstack, hfresh, hadds⟩ := enter_adds n p₁ .statement bindings
  obtain ⟨refused, taken, hdecl, rfl, rfl⟩ := decorateStmt_eq_ok hdec
  have hq : q.stack = ⟨⟨.statement, slots, []⟩, p₁.stack.frames⟩ := hlow.stack.trans hstack
  have hpop : (q.stack.give taken).pop = p₁.stack.gain taken := by
    rw [hq]
    exact Stack.pop_give _ _ _
  have hslots : q.stack.current.slots = slots := by rw [hq]
  rw [hslots] at hdecl
  obtain ⟨hrefused, htaken, hperm⟩ := hdecl.storage
  refine ⟨taken, .before hasked.1 hasked.2 ⟨hpop, ?_, htaken, ?_, ?_, hold, hrefused, ?_⟩⟩
  · intro hkind
    refine hdecl.taken_eq_nil ?_
    intro b
    rw [hq]
    show p₁.stack.current.kind.acceptsHoist _ = false
    cases hk : p₁.stack.current.kind with
    | block => exact absurd hk hkind
    | _ => rfl
  · intro x hx
    exact hfresh _ (hperm.mem_iff.mpr (List.mem_append_right _ (List.mem_map_of_mem hx)))
  · -- what the frame added is refused or taken
    have hall := hadds.append hlow.adds
    rw [Nat.zero_add] at hall
    refine (hall.perm ?_).of_vars rfl
    refine (hperm.append_right _).trans ?_
    show ((refused.flatMap Stmt.ownDeclared ++ taken.map fun x => x.1.var) ++ stmt.declared).Perm
      ((refused.flatMap Stmt.ownDeclared ++ stmt.declared) ++ taken.map fun x => x.1.var)
    rw [List.append_assoc, List.append_assoc]
    exact List.perm_append_comm.append_left _
  · have hscope := hlow.scope
    rw [hstack] at hscope
    refine hscope.mono ?_
    intro v hv
    show v ∈ (q.stack.give taken).pop.vars ++ refused.flatMap Stmt.ownDeclared
    rw [hpop]
    rcases List.mem_append.mp hv with hv | hv
    · rcases List.mem_append.mp (hperm.subset hv) with hv | hv
      · exact List.mem_append_right _ hv
      · exact List.mem_append_left _ (Stack.mem_vars_gain.mpr (.inr hv))
    · exact List.mem_append_left _ (Stack.mem_vars_gain.mpr (.inl hv))

theorem lowerExpr?_lowers {rules : Rules} {n : Nat} (hflow : rules.flow.KeepsVars) :
    ∀ (e : Option Expr) {e' : Option Expr} {p p' : Pass},
    (∀ v ∈ Expr.gatherAll Expr.ownVars e.toList, v.index < n) →
      lowerExpr? rules e p = .ok e' p' →
      Lowers n p p' (Expr.gatherAll Expr.ownDeclared e'.toList)
        (Expr.gatherAll Expr.ownTests e.toList).length
        fun vis => ∀ x ∈ e', x.InScope n vis
  | none, e', p, p', hvars, h => by
      obtain ⟨rfl, rfl⟩ := pure_eq_ok.mp h
      exact ⟨rfl, .none rfl (by simp), by simp⟩
  | some e, e', p, p', hvars, h => by
      obtain ⟨x, hx, rfl⟩ := bind_pure_eq_ok.mp h
      simp only [Option.toList_some, Expr.gatherAll_cons, Expr.gatherAll_nil,
        List.append_nil] at hvars
      refine (lowerExpr_lowers hflow e hvars hx).wrap (by simp [Expr.declared])
        (by simp) ?_
      intro vis hS y hy
      rw [← Option.mem_some.mp hy]
      exact hS

/-- The block whose statements are lowered has nothing waiting to be emitted. -/
def Pass.InBlock (p : Pass) : Prop :=
  p.stack.current.kind = .block ∧ p.stack.current.hoisted = []

/-- What waits after one statement of a block is what it made the block accept. -/
theorem LowersStmt.emit {n k : Nat} {p p' : Pass} {taken : List (Slot × Stmt)}
    {declared valueless : List VarId} {S : List VarId → Prop}
    (h : LowersStmt n p p' taken declared k valueless S) (hblock : p.InBlock) :
    p'.stack.current.hoisted = taken.map Prod.snd ∧ p'.emit.InBlock := by
  refine ⟨?_, ?_, rfl⟩
  · rw [h.stack]
    show p.stack.current.hoisted ++ _ = _
    rw [hblock.2, List.nil_append]
  · show p'.stack.current.kind = .block
    rw [h.stack]
    exact hblock.1

/-- The statements of a block: the block has the storage it accepted from them
in its slots, and its output declares it. -/
structure LowersBlock (n : Nat) (p p' : Pass) (out : List Stmt) (temps : Nat) : Prop where
  slots : ∃ more, p'.stack
    = ⟨⟨p.stack.current.kind, p.stack.current.slots ++ more, []⟩, p.stack.enclosing⟩
  adds : Adds n p p' (Stmt.gatherAll Stmt.ownDeclared Expr.ownDeclared out) temps
  old : ∀ v ∈ Stmt.gatherAll Stmt.ownValueless (fun _ => []) out, v.index < n
  scope : Stmt.InScopeAll n p.stack.vars out

/-- The simplest statements, whose expressions are lowered and nothing else. -/
theorem plain_lowersStmt {n k temps : Nat} {p p' : Pass} {s : Stmt} {declared : List VarId}
    {S : List VarId → Prop} (h : Lowers n p p' declared k S) (hd : s.declared = declared)
    (hk : temps = k) (hS : ∀ vis, S vis → s.InScope n vis)
    (hold : ∀ v ∈ s.valueless, v.index < n) :
    ∃ taken, LowersStmt n p p' taken (Decorated.declared ⟨[], s⟩) temps s.valueless
      fun vis => Decorated.InScope n vis ⟨[], s⟩ := by
  refine ⟨[], .ofLowers (h.wrap hd hk ?_) hold⟩
  intro vis hvis
  refine ⟨by simp, ?_⟩
  show s.InScope n (vis ++ [])
  rw [List.append_nil]
  exact hS vis hvis

/-- A statement that stands directly in a statement other than a block. -/
theorem inner_lowers {n k : Nat} {p p₁ p' : Pass} {d : Decorated} {s : Stmt}
    (hkind : p.stack.current.kind ≠ .block)
    (h : ∃ taken, LowersStmt n p p₁ taken d.declared k d.stmt.valueless fun vis => d.InScope n vis)
    (hclose : d.close p₁ = .ok s p') :
    (Lowers n p p' s.declared k fun vis => s.InScope n vis) ∧ ∀ v ∈ s.valueless, v.index < n := by
  obtain ⟨taken, h⟩ := h
  have hs := close_lowers h hclose
  exact ⟨hs.lowers hkind, hs.old⟩

/-- A frame for a statement is no block. -/
theorem enter_statement_kind (p : Pass) (bindings : List BindingId) :
    (p.enter .statement bindings).stack.current.kind ≠ .block := by
  obtain ⟨slots, syms, -, heq⟩ := enter_eq p .statement bindings
  rw [heq]
  simp

/-- What a block emits in front of a statement declares the slots it gained. -/
theorem flatMap_ownDeclared_taken {taken : List (Slot × Stmt)}
    (h : ∀ x ∈ taken, x.2.IsStorage x.1.var) :
    (taken.map Prod.snd).flatMap Stmt.ownDeclared = taken.map fun x => x.1.var := by
  induction taken with
  | nil => rfl
  | cons x taken ih =>
      rw [List.map_cons, List.flatMap_cons, ih fun y hy => h y (List.mem_cons_of_mem _ hy),
        (h x List.mem_cons_self).ownDeclared]
      rfl

/-- One statement of a block, after what it made the block accept, before the rest. -/
theorem block_cons {n k₁ k₂ : Nat} {p p₁ p' : Pass} {taken : List (Slot × Stmt)} {s : Stmt}
    {rest : List Stmt}
    (hs : LowersStmt n p p₁ taken s.declared k₁ s.valueless fun vis => s.InScope n vis)
    (hrest : LowersBlock n p₁.emit p' rest k₂) :
    LowersBlock n p p' (taken.map Prod.snd ++ s :: rest) (k₁ + k₂) := by
  obtain ⟨hstack, -, hstorage, -, hadds, hold, hscope⟩ := hs
  obtain ⟨⟨more, hstack'⟩, hadds', hold', hscope'⟩ := hrest
  have hdecls : ∀ d ∈ taken.map Prod.snd, ∃ var, d.IsStorage var := by
    intro d hd
    obtain ⟨x, hx, rfl⟩ := List.mem_map.mp hd
    exact ⟨_, hstorage x hx⟩
  obtain ⟨hgather, hnone⟩ := Stmt.gatherAll_storage hdecls
  have hvars := flatMap_ownDeclared_taken hstorage
  -- what the statement gave to the block is in front of the rest, and in scope there
  have hseen : ∀ {v}, v ∈ p₁.stack.vars → v ∈ p.stack.vars ++ taken.map fun x => x.1.var := by
    intro v hv
    rw [hstack] at hv
    exact List.mem_append.mpr (Stack.mem_vars_gain.mp hv)
  refine ⟨⟨taken.map Prod.fst ++ more, ?_⟩, ?_, ?_, ?_⟩
  · rw [hstack']
    show (⟨⟨p₁.stack.current.kind, p₁.stack.current.slots ++ more, []⟩, p₁.stack.enclosing⟩
      : Stack) = _
    rw [hstack, ← List.append_assoc]
    rfl
  · have hrest : Adds n p₁ p' _ k₂ := ⟨hadds'.vars, hadds'.once⟩
    refine (hadds.append hrest).perm ?_
    rw [Stmt.gatherAll_append, Stmt.gatherAll_cons, hgather, hvars, ← List.append_assoc]
    exact List.perm_append_comm.append_right _
  · rw [Stmt.gatherAll_append, Stmt.gatherAll_cons, hnone, List.nil_append]
    intro v hv
    rcases List.mem_append.mp hv with hv | hv
    · exact hold v hv
    · exact hold' v hv
  · refine Stmt.inScopeAll_storage hdecls ?_
    rw [hvars]
    refine ⟨hscope.mono fun v hv => hseen hv, hscope'.mono ?_⟩
    intro v hv
    exact List.mem_append_left _ (hseen hv)

variable {rules : Rules} {n : Nat}

/-- The facts of a condition bring bindings, no variables. -/
theorem condFacts?_vars (hflow : rules.flow.KeepsVars) {cond : Option Expr} {bs : List BindingId}
    {p p' : Pass} (h : condFacts? rules.flow cond p = .ok bs p') :
    p'.stack = p.stack ∧ p'.symbols.vars = p.symbols.vars := by
  cases cond with
  | none =>
      obtain ⟨-, rfl⟩ := pure_eq_ok.mp h
      exact ⟨rfl, rfl⟩
  | some cond => exact asking_all_vars hflow h

/-- **A statement with its declarations**: what is added is declared once, by
the statement or by the block around it, and mentioned where it is in scope. -/
def LowersParts (rules : Rules) (n : Nat) (s : Stmt) : Prop :=
  ∀ {d : Decorated} {p p' : Pass}, (∀ v ∈ s.vars, v.index < n) → lowerParts rules s p = .ok d p' →
    ∃ taken, LowersStmt n p p' taken d.declared s.tests.length d.stmt.valueless
      fun vis => d.InScope n vis

/-- The same of a branch that may be missing. -/
def LowersOpt (rules : Rules) (n : Nat) (s : Option Stmt) : Prop :=
  ∀ {out : Option Stmt} {p p' : Pass}, (∀ v ∈ Stmt.gatherOpt Stmt.ownVars Expr.ownVars s, v.index < n) →
    p.stack.current.kind ≠ .block → lowerStmt? rules s p = .ok out p' →
    (Lowers n p p' (Stmt.gatherOpt Stmt.ownDeclared Expr.ownDeclared out)
      (Stmt.gatherOpt (fun _ => []) Expr.ownTests s).length
      fun vis => Stmt.InScopeOpt n vis out)
      ∧ ∀ v ∈ Stmt.gatherOpt Stmt.ownValueless (fun _ => []) out, v.index < n

/-- The same of statements outside of a block. -/
def LowersEach (rules : Rules) (n : Nat) (ss : List Stmt) : Prop :=
  ∀ {out : List Stmt} {p p' : Pass}, (∀ v ∈ Stmt.gatherAll Stmt.ownVars Expr.ownVars ss, v.index < n) →
    p.stack.current.kind ≠ .block → lowerStmts rules ss p = .ok out p' →
    (Lowers n p p' (Stmt.gatherAll Stmt.ownDeclared Expr.ownDeclared out)
      (Stmt.gatherAll (fun _ => []) Expr.ownTests ss).length
      fun vis => Stmt.InScopeEach n vis out)
      ∧ ∀ v ∈ Stmt.gatherAll Stmt.ownValueless (fun _ => []) out, v.index < n

/-- The same of the statements of a block. -/
def LowersAll (rules : Rules) (n : Nat) (ss : List Stmt) : Prop :=
  ∀ {out : List Stmt} {p p' : Pass}, (∀ v ∈ Stmt.gatherAll Stmt.ownVars Expr.ownVars ss, v.index < n) →
    p.InBlock → lowerBlock rules ss p = .ok out p' →
    LowersBlock n p p' out (Stmt.gatherAll (fun _ => []) Expr.ownTests ss).length

section

variable {i : StmtInfo} {s y z b : Stmt} {c e : Expr} {es : List Expr} {ss : List Stmt}

/-- An expression as a statement. -/
theorem lowersParts_expr (hflow : rules.flow.KeepsVars) : LowersParts rules n (.expr i e) := by
  intro d p p' hvars h
  obtain ⟨x, hx, rfl⟩ := bind_pure_eq_ok.mp h
  simp only [Stmt.vars, Stmt.gather_expr, Stmt.ownVars, List.nil_append] at hvars
  exact plain_lowersStmt (lowerExpr_lowers hflow e hvars hx)
    (by simp [Stmt.declared, Stmt.ownDeclared, Expr.declared])
    (by simp) (fun vis hS => hS)
    (by simp [Stmt.valueless, Stmt.ownValueless])

/-- A declaration without a value. -/
theorem lowersParts_declNone {v : VarId} : LowersParts rules n (.decl i v none) := by
  intro d p p' hvars h
  obtain ⟨x, hx, rfl⟩ := bind_pure_eq_ok.mp h
  obtain ⟨rfl, rfl⟩ := pure_eq_ok.mp hx
  refine plain_lowersStmt Lowers.nothing (by simp [Stmt.declared, Stmt.ownDeclared])
    (by simp) (fun vis _ => by simp [Stmt.InScope]) ?_
  intro w hw
  exact hvars w (by simpa [Stmt.vars, Stmt.ownVars, Stmt.valueless, Stmt.ownValueless] using hw)

/-- A declaration with one. -/
theorem lowersParts_declSome (hflow : rules.flow.KeepsVars) {v : VarId} :
    LowersParts rules n (.decl i v (some e)) := by
  intro d p p' hvars h
  obtain ⟨y, hy, rfl⟩ := bind_pure_eq_ok.mp h
  obtain ⟨x, hx, rfl⟩ := bind_pure_eq_ok.mp hy
  simp only [Stmt.vars, Stmt.gather_decl, Stmt.ownVars, Option.toList_some,
    Expr.gatherAll_cons, Expr.gatherAll_nil, List.append_nil, List.mem_append, or_imp,
    forall_and] at hvars
  -- the variable of the source that is declared here is not new
  have hold : Lowers n p p [v] 0 fun _ => True := ⟨rfl, .none rfl hvars.1, trivial⟩
  refine plain_lowersStmt (hold.seq (lowerExpr_lowers hflow e hvars.2 hx))
    (by simp [Stmt.declared, Stmt.ownDeclared, Expr.declared]) (by simp)
    ?_ (by simp [Stmt.valueless, Stmt.ownValueless])
  intro vis hS y hy
  rw [← Option.mem_some.mp hy]
  exact hS.2

/-- A return. -/
theorem lowersParts_ret (hflow : rules.flow.KeepsVars) {e : Option Expr} :
    LowersParts rules n (.ret i e) := by
  intro d p p' hvars h
  obtain ⟨x, hx, rfl⟩ := bind_pure_eq_ok.mp h
  simp only [Stmt.vars, Stmt.gather_ret, Stmt.ownVars, List.nil_append] at hvars
  exact plain_lowersStmt (lowerExpr?_lowers hflow e hvars hx)
    (by simp [Stmt.declared, Stmt.ownDeclared]) (by simp) (fun vis hS => hS)
    (by simp [Stmt.valueless, Stmt.ownValueless])

/-- A jump out of a statement. -/
theorem lowersParts_brk {l : Option String} : LowersParts rules n (.brk i l) := by
  intro d p p' _ h
  obtain ⟨rfl, rfl⟩ := pure_eq_ok.mp h
  exact plain_lowersStmt Lowers.nothing (by simp [Stmt.declared, Stmt.ownDeclared])
    (by simp) (fun vis _ => trivial)
    (by simp [Stmt.valueless, Stmt.ownValueless])

/-- A jump to the next turn of a loop. -/
theorem lowersParts_cont {l : Option String} : LowersParts rules n (.cont i l) := by
  intro d p p' _ h
  obtain ⟨rfl, rfl⟩ := pure_eq_ok.mp h
  exact plain_lowersStmt Lowers.nothing (by simp [Stmt.declared, Stmt.ownDeclared])
    (by simp) (fun vis _ => trivial)
    (by simp [Stmt.valueless, Stmt.ownValueless])

/-- A block, from its statements. -/
theorem lowersParts_block (hss : LowersAll rules n ss) : LowersParts rules n (.block i ss) := by
  intro d p p' hvars h
  obtain ⟨out, q, hout, rfl, rfl⟩ := lowerParts_block_eq_ok h
  simp only [Stmt.vars, Stmt.gather_block, Stmt.ownVars, List.nil_append] at hvars
  obtain ⟨⟨more, hslots⟩, hadds, hold, hscope⟩ := hss hvars ⟨rfl, rfl⟩ hout
  have hblock : Lowers n p { q with stack := q.stack.pop }
      (Stmt.gatherAll Stmt.ownDeclared Expr.ownDeclared out)
      (Stmt.gatherAll (fun _ => []) Expr.ownTests ss).length
      fun vis => Stmt.InScopeAll n vis out := by
    refine ⟨?_, ⟨hadds.vars, hadds.once⟩, hscope⟩
    show q.stack.pop = p.stack
    rw [hslots]
    rfl
  exact plain_lowersStmt hblock (by simp [Stmt.declared, Stmt.ownDeclared])
    (by simp) (fun vis hS => hS)
    (by simpa [Stmt.valueless, Stmt.ownValueless] using hold)

/-- A conditional, from its branches. -/
theorem lowersParts_ifElse (hflow : rules.flow.KeepsVars) {z : Option Stmt}
    (hy : LowersParts rules n y) (hz : LowersOpt rules n z) :
    LowersParts rules n (.ifElse i c y z) := by
  intro d p p' hvars h
  obtain ⟨bs, p₁, x, q₁, dy, q₂, y', q₃, z', q₄, q, hask, hx, hrunY, hclose, hrunZ, hdec, rfl⟩ :=
    lowerParts_ifElse_eq_ok h
  simp only [Stmt.vars, Stmt.gather_ifElse, Stmt.ownVars, List.nil_append, List.mem_append,
    or_imp, forall_and] at hvars
  have hlow := lowerExpr_lowers hflow c hvars.1 hx
  have hkind : q₁.stack.current.kind ≠ .block := by
    rw [hlow.stack]
    exact enter_statement_kind _ _
  obtain ⟨hlowY, holdY⟩ := inner_lowers hkind (hy hvars.2.1 hrunY) hclose
  have hkind' : q₃.stack.current.kind ≠ .block := by
    rw [hlowY.stack]
    exact hkind
  obtain ⟨hlowZ, holdZ⟩ := hz hvars.2.2 hkind' hrunZ
  refine Lowers.framedStmt bs (asking_all_vars hflow hask) hdec
    ((hlow.seq (hlowY.seq hlowZ)).wrap ?_ ?_ fun vis hS => hS) ?_
  · simp [Stmt.declared, Stmt.ownDeclared, Expr.declared]
  · simp
  · intro v hv
    simp only [Stmt.valueless, Stmt.gather_ifElse, Stmt.ownValueless, List.nil_append,
      Expr.gather_none, List.mem_append] at hv
    rcases hv with hv | hv
    · exact holdY v hv
    · exact holdZ v hv

/-- A loop that tests in front of its body. -/
theorem lowersParts_whileDo (hflow : rules.flow.KeepsVars) (hb : LowersParts rules n b) :
    LowersParts rules n (.whileDo i c b) := by
  intro d p p' hvars h
  obtain ⟨bs, p₁, x, q₁, db, q₂, b', q₃, q, hask, hx, hrun, hclose, hdec, rfl⟩ :=
    lowerParts_whileDo_eq_ok h
  simp only [Stmt.vars, Stmt.gather_whileDo, Stmt.ownVars, List.nil_append, List.mem_append,
    or_imp, forall_and] at hvars
  have hlow := lowerExpr_lowers hflow c hvars.1 hx
  have hkind : q₁.stack.current.kind ≠ .block := by
    rw [hlow.stack]
    exact enter_statement_kind _ _
  obtain ⟨hlowB, holdB⟩ := inner_lowers hkind (hb hvars.2 hrun) hclose
  refine Lowers.framedStmt bs (asking_all_vars hflow hask) hdec
    ((hlow.seq hlowB).wrap ?_ ?_ fun vis hS => hS) ?_
  · simp [Stmt.declared, Stmt.ownDeclared, Expr.declared]
  · simp
  · simpa [Stmt.valueless, Stmt.ownValueless] using holdB

/-- A loop that tests behind its body. -/
theorem lowersParts_doWhile (hflow : rules.flow.KeepsVars) (hb : LowersParts rules n b) :
    LowersParts rules n (.doWhile i b c) := by
  intro d p p' hvars h
  obtain ⟨bs, p₁, db, q₁, b', q₂, x, q₃, q, hask, hrun, hclose, hx, hdec, rfl⟩ :=
    lowerParts_doWhile_eq_ok h
  simp only [Stmt.vars, Stmt.gather_doWhile, Stmt.ownVars, List.nil_append, List.mem_append,
    or_imp, forall_and] at hvars
  obtain ⟨hlowB, holdB⟩ :=
    inner_lowers (enter_statement_kind _ _) (hb hvars.2 hrun) hclose
  have hlow := hlowB.seq (lowerExpr_lowers hflow c hvars.1 hx)
  -- the body is lowered first, and the condition is walked first
  refine Lowers.framedStmt bs (asking_all_vars hflow hask) hdec
    ((hlow.perm List.perm_append_comm).wrap ?_ ?_ fun vis hS => hS) ?_
  · simp [Stmt.declared, Stmt.ownDeclared, Expr.declared]
  · simp [Nat.add_comm]
  · simpa [Stmt.valueless, Stmt.ownValueless] using holdB

/-- A loop with a start and steps. -/
theorem lowersParts_forDo (hflow : rules.flow.KeepsVars) {c : Option Expr}
    (hss : LowersEach rules n ss) (hb : LowersParts rules n b) :
    LowersParts rules n (.forDo i ss c es b) := by
  intro d p p' hvars h
  obtain ⟨bs, p₁, ss', q₁, c', q₂, es', q₃, db, q₄, b', q₅, q, hask, hstart, hc, hes, hrun, hclose,
    hdec, rfl⟩ := lowerParts_forDo_eq_ok h
  simp only [Stmt.vars, Stmt.gather_forDo, Stmt.ownVars, List.nil_append, List.mem_append,
    or_imp, forall_and] at hvars
  obtain ⟨hlowS, holdS⟩ :=
    hss hvars.2.2.1 (enter_statement_kind _ _) hstart
  have hlowC := lowerExpr?_lowers hflow c hvars.1 hc
  have hlowE := lowerExprs_lowers hflow es hvars.2.1 hes
  have hkind' : q₃.stack.current.kind ≠ .block := by
    rw [hlowE.stack, hlowC.stack, hlowS.stack]
    exact enter_statement_kind _ _
  obtain ⟨hlowB, holdB⟩ := inner_lowers hkind' (hb hvars.2.2.2 hrun) hclose
  have hlow := hlowS.seq ((hlowC.seq hlowE).seq hlowB)
  -- the start is lowered first, and condition and step are walked first
  refine Lowers.framedStmt bs (condFacts?_vars hflow hask) hdec
    ((hlow.perm ?_).wrap rfl ?_ ?_) ?_
  · simp only [Stmt.declared, Stmt.gather_forDo, Stmt.ownDeclared, List.nil_append]
    rw [← List.append_assoc (Stmt.gatherAll _ _ ss'), ← List.append_assoc (Expr.gatherAll _ _),
      ← List.append_assoc (_ ++ _) (Stmt.gatherAll _ _ ss')]
    exact List.perm_append_comm.append_right _
  · simp only [Stmt.tests, Stmt.gather_forDo, List.nil_append, List.length_append]
    omega
  · intro vis hS
    exact ⟨hS.1, hS.2.1.1, hS.2.1.2, hS.2.2⟩
  · intro v hv
    simp only [Stmt.valueless, Stmt.gather_forDo, Stmt.ownValueless, List.nil_append,
      Expr.gatherAll_none, List.mem_append] at hv
    rcases hv with hv | hv
    · exact holdS v hv
    · exact holdB v hv

/-- A statement under a label, which takes over what its statement does. -/
theorem lowersParts_labeled {l : String} (hb : LowersParts rules n b) :
    LowersParts rules n (.labeled i l b) := by
  intro d p p' hvars h
  obtain ⟨db, hrun, rfl⟩ := bind_pure_eq_ok.mp h
  simp only [Stmt.vars, Stmt.gather_labeled, Stmt.ownVars, List.nil_append] at hvars
  obtain ⟨taken, hlow⟩ := hb hvars hrun
  refine ⟨taken, hlow.stack, hlow.block, hlow.storage, hlow.fresh, ?_, ?_, hlow.scope⟩
  · have hdecl : Decorated.declared ⟨db.decls, .labeled i l db.stmt⟩ = db.declared := by
      simp [Decorated.declared, Stmt.declared, Stmt.ownDeclared]
    rw [hdecl, Stmt.tests_labeled]
    exact hlow.adds
  · simpa [Stmt.valueless, Stmt.ownValueless] using hlow.old

/-- No branch. -/
theorem lowersOpt_none : LowersOpt rules n none := by
  intro out p p' hvars hkind h
  obtain ⟨rfl, rfl⟩ := pure_eq_ok.mp h
  exact ⟨⟨rfl, .none rfl (by simp), trivial⟩, by simp⟩

/-- A branch. -/
theorem lowersOpt_some (hs : LowersParts rules n s) : LowersOpt rules n (some s) := by
  intro out p p' hvars hkind h
  obtain ⟨d, p₁, lowered, hd, hclose, rfl⟩ := lowerStmt?_some_eq_ok h
  obtain ⟨hlow, hold⟩ := inner_lowers hkind (hs hvars hd) hclose
  exact ⟨hlow.wrap rfl rfl fun vis hS => hS, hold⟩

/-- No statements. -/
theorem lowersEach_nil : LowersEach rules n [] := by
  intro out p p' hvars hkind h
  obtain ⟨rfl, rfl⟩ := pure_eq_ok.mp h
  exact ⟨⟨rfl, .none rfl (by simp), trivial⟩, by simp⟩

/-- A statement in front of others. -/
theorem lowersEach_cons (hs : LowersParts rules n s) (hss : LowersEach rules n ss) :
    LowersEach rules n (s :: ss) := by
  intro out p p' hvars hkind h
  obtain ⟨d, p₁, lowered, p₂, rest, hd, hclose, hrest, rfl⟩ := lowerStmts_cons_eq_ok h
  simp only [Stmt.gatherAll_cons, List.mem_append, or_imp, forall_and] at hvars
  obtain ⟨hlow, hold⟩ := inner_lowers hkind (hs hvars.1 hd) hclose
  have hkind' : p₂.stack.current.kind ≠ .block := by
    rw [hlow.stack]
    exact hkind
  obtain ⟨hlow', hold'⟩ := hss hvars.2 hkind' hrest
  refine ⟨(hlow.seq hlow').wrap ?_ ?_ fun vis hS => hS, ?_⟩
  · rw [Stmt.gatherAll_cons]
    rfl
  · rw [Stmt.gatherAll_cons, List.length_append]
    rfl
  · intro v hv
    rw [Stmt.gatherAll_cons] at hv
    rcases List.mem_append.mp hv with hv | hv
    · exact hold v hv
    · exact hold' v hv

/-- An empty block. -/
theorem lowersAll_nil : LowersAll rules n [] := by
  intro out p p' hvars hblock h
  obtain ⟨rfl, rfl⟩ := pure_eq_ok.mp h
  refine ⟨⟨[], ?_⟩, .none rfl (by simp), by simp, trivial⟩
  rw [List.append_nil, ← hblock.2]

/-- A statement of a block, with what the block takes over from it. -/
theorem lowersAll_cons (hs : LowersParts rules n s) (hss : LowersAll rules n ss) :
    LowersAll rules n (s :: ss) := by
  intro out p p' hvars hblock h
  obtain ⟨d, p₁, lowered, p₂, rest, hd, hclose, hrest, rfl⟩ := lowerBlock_cons_eq_ok h
  simp only [Stmt.gatherAll_cons, List.mem_append, or_imp, forall_and] at hvars
  obtain ⟨taken, hlow⟩ := hs hvars.1 hd
  have hclosed := close_lowers hlow hclose
  obtain ⟨hhoisted, hblock'⟩ := hclosed.emit hblock
  rw [hhoisted, Stmt.gatherAll_cons, List.length_append]
  exact block_cons hclosed (hss hvars.2 hblock' hrest)

end

mutual
/-- **A statement with its declarations.** -/
theorem lowerParts_lowers (hflow : rules.flow.KeepsVars) : ∀ s : Stmt, LowersParts rules n s
  | .expr _ _ => lowersParts_expr hflow
  | .decl _ _ none => lowersParts_declNone
  | .decl _ _ (some _) => lowersParts_declSome hflow
  | .ret _ _ => lowersParts_ret hflow
  | .brk _ _ => lowersParts_brk
  | .cont _ _ => lowersParts_cont
  | .block _ ss => lowersParts_block (lowerBlock_lowers hflow ss)
  | .ifElse _ _ y z => lowersParts_ifElse hflow (lowerParts_lowers hflow y) (lowerStmt?_lowers hflow z)
  | .whileDo _ _ b => lowersParts_whileDo hflow (lowerParts_lowers hflow b)
  | .doWhile _ b _ => lowersParts_doWhile hflow (lowerParts_lowers hflow b)
  | .forDo _ ss _ _ b => lowersParts_forDo hflow (lowerStmts_lowers hflow ss) (lowerParts_lowers hflow b)
  | .labeled _ _ b => lowersParts_labeled (lowerParts_lowers hflow b)
/-- **The statements of a block.** -/
theorem lowerBlock_lowers (hflow : rules.flow.KeepsVars) : ∀ ss : List Stmt, LowersAll rules n ss
  | [] => lowersAll_nil
  | s :: ss => lowersAll_cons (lowerParts_lowers hflow s) (lowerBlock_lowers hflow ss)
/-- **Statements outside of a block.** -/
theorem lowerStmts_lowers (hflow : rules.flow.KeepsVars) : ∀ ss : List Stmt, LowersEach rules n ss
  | [] => lowersEach_nil
  | s :: ss => lowersEach_cons (lowerParts_lowers hflow s) (lowerStmts_lowers hflow ss)
/-- **A branch that may be missing.** -/
theorem lowerStmt?_lowers (hflow : rules.flow.KeepsVars) : ∀ s : Option Stmt, LowersOpt rules n s
  | none => lowersOpt_none
  | some s => lowersOpt_some (lowerParts_lowers hflow s)
end

/-! ## §3. What a block emits. -/

/-- How the statements of a block are lowered: what the block accepts during
one statement it emits just before it, and then has nothing waiting.  What it
accepts are declarations of variables added during that statement. -/
inductive Emits (rules : Rules) : Pass → List Stmt → (out : List Stmt) → Pass → Prop
  | nil {p : Pass} (hblock : p.InBlock) : Emits rules p [] [] p
  | cons {p p₁ p' : Pass} {s lowered : Stmt} {ss rest : List Stmt} {accepted : List (Slot × Stmt)}
      (hblock : p.InBlock)
      (hlower : lowerStmt rules s p = .ok lowered p₁)
      (haccept : p₁.stack = p.stack.gain accepted)
      (hstorage : ∀ x ∈ accepted, x.2.IsStorage x.1.var)
      (hadded : ∀ x ∈ accepted,
        p.symbols.vars.size ≤ x.1.var.index ∧ x.1.var.index < p₁.symbols.vars.size)
      (hrest : Emits rules p₁.emit ss rest p') :
      Emits rules p (s :: ss) (accepted.map Prod.snd ++ lowered :: rest) p'

/-- **A block emits each declaration before the statement that needs it.** -/
theorem lowerBlock_emits (hflow : rules.flow.KeepsVars) :
    ∀ (ss : List Stmt) {out : List Stmt} {p p' : Pass},
    (∀ v ∈ Stmt.gatherAll Stmt.ownVars Expr.ownVars ss, v.index < n) →
      n ≤ p.symbols.vars.size → p.InBlock → lowerBlock rules ss p = .ok out p' →
      Emits rules p ss out p'
  | [], out, p, p', hvars, hn, hblock, h => by
      obtain ⟨rfl, rfl⟩ := pure_eq_ok.mp h
      exact .nil hblock
  | s :: ss, out, p, p', hvars, hn, hblock, h => by
      obtain ⟨d, p₁, lowered, p₂, rest, hd, hclose, hrest, rfl⟩ := lowerBlock_cons_eq_ok h
      simp only [Stmt.gatherAll_cons, List.mem_append, or_imp, forall_and] at hvars
      obtain ⟨taken, hlow⟩ := lowerParts_lowers hflow s hvars.1 hd
      have hs := close_lowers hlow hclose
      have hsize : p.symbols.vars.size ≤ p₂.symbols.vars.size := hs.adds.size_le
      obtain ⟨hhoisted, hblock'⟩ := hs.emit hblock
      rw [hhoisted]
      refine .cons hblock (bind_eq_ok.mpr ⟨d, p₁, hd, hclose⟩) hs.stack hs.storage ?_
        (lowerBlock_emits hflow ss hvars.2 (Nat.le_trans hn hsize) hblock' hrest)
      intro x hx
      have hle := hs.fresh x hx
      refine ⟨hle, Nat.lt_of_not_le ?_⟩
      intro hge
      have hcount := hs.adds.once x.1.var (by omega)
      rw [if_neg (by omega)] at hcount
      exact List.count_eq_zero.mp hcount
        (List.mem_append_right _ (List.mem_map_of_mem hx))

/-! ## §4. Classes. -/

end Lowering

namespace Method

/-- The variables mentioned in a method. -/
def vars (m : Method) : List VarId := m.params ++ Stmt.gatherOpt Stmt.ownVars Expr.ownVars m.body

/-- The variables declared with a value in a method. -/
def declared (m : Method) : List VarId := Stmt.gatherOpt Stmt.ownDeclared Expr.ownDeclared m.body

/-- The variables declared without one: the parameters, and local variables. -/
def valueless (m : Method) : List VarId :=
  m.params ++ Stmt.gatherOpt Stmt.ownValueless (fun _ => []) m.body

/-- The bindings of the type tests in a method. -/
def tests (m : Method) : List BindingId := Stmt.gatherOpt (fun _ => []) Expr.ownTests m.body

end Method

namespace Class

/-- The variables its methods mention. -/
def vars (c : Class) : List VarId := c.methods.flatMap (·.vars)

/-- The variables its methods declare. -/
def declared (c : Class) : List VarId := c.methods.flatMap (·.declared)

/-- Those of them that are declared without a value. -/
def valueless (c : Class) : List VarId := c.methods.flatMap (·.valueless)

/-- The bindings its methods test for. -/
def tests (c : Class) : List BindingId := c.methods.flatMap (·.tests)

/-- The variables numbered from `n` up to `m` are introduced by the class: each
is declared once, with a value, and mentioned only in the scope of that. -/
structure Introduces (n m : Nat) (c : Class) : Prop where
  once : ∀ v : VarId, n ≤ v.index → v.index < m → c.declared.count v = 1 ∧ v ∉ c.valueless
  scope : ∀ method ∈ c.methods, Stmt.InScopeOpt n [] method.body

end Class

namespace Lowering

/-- The same of methods one after the other. -/
theorem lowerMethods_lowers (hflow : rules.flow.KeepsVars) :
    ∀ (ms : List Method) {out : List Method} {p p' : Pass},
    (∀ v ∈ ms.flatMap (·.vars), v.index < n) → p.stack.current.kind ≠ .block →
      lowerMethods rules ms p = .ok out p' →
      (Lowers n p p' (out.flatMap (·.declared)) (ms.flatMap (·.tests)).length
        fun vis => ∀ m ∈ out, Stmt.InScopeOpt n vis m.body)
        ∧ ∀ v ∈ out.flatMap (·.valueless), v.index < n
  | [], out, p, p', hvars, hkind, h => by
      obtain ⟨rfl, rfl⟩ := pure_eq_ok.mp h
      exact ⟨⟨rfl, .none rfl (by simp), by simp⟩, by simp⟩
  | m :: ms, out, p, p', hvars, hkind, h => by
      obtain ⟨m', p₁, rest, hm, hrest, rfl⟩ := bind_bind_pure_eq_ok.mp h
      obtain ⟨body, hbody, rfl⟩ := bind_pure_eq_ok.mp hm
      simp only [List.flatMap_cons, Method.vars, List.mem_append, or_imp, forall_and] at hvars
      obtain ⟨⟨hparams, hvars⟩, hmore⟩ := hvars
      obtain ⟨hlow, hold⟩ := lowerStmt?_lowers hflow m.body hvars hkind hbody
      have hkind' : p₁.stack.current.kind ≠ .block := by
        rw [hlow.stack]
        exact hkind
      obtain ⟨hlow', hold'⟩ := lowerMethods_lowers hflow ms
        (by simpa [Method.vars] using hmore) hkind' hrest
      refine ⟨(hlow.seq hlow').wrap ?_ ?_ ?_, ?_⟩
      · rw [List.flatMap_cons]
        rfl
      · rw [List.flatMap_cons, List.length_append]
        rfl
      · intro vis hS x hx
        rcases List.mem_cons.mp hx with rfl | hx
        · exact hS.1
        · exact hS.2 x hx
      · intro v hv
        rw [List.flatMap_cons] at hv
        rcases List.mem_append.mp hv with hv | hv
        · rcases List.mem_append.mp hv with hv | hv
          · exact hparams v hv
          · exact hold v hv
        · exact hold' v hv

/-- The lowered class introduces the variables added to the table, one
temporary among them for each type test. -/
theorem lowerClass_introduces (hflow : rules.flow.KeepsVars) {c c' : Class} {s : Symbols} {p' : Pass}
    (hvars : ∀ v ∈ c.vars, v.index < s.vars.size)
    (h : lowerClass rules c (.start s) = .ok c' p') :
    c'.Introduces s.vars.size p'.symbols.vars.size
      ∧ ∃ added, p'.symbols.vars.toList = s.vars.toList ++ added
          ∧ added.countP (·.synthetic) = c.tests.length := by
  obtain ⟨methods, hmethods, rfl⟩ := bind_pure_eq_ok.mp h
  have hroot : (Pass.start s).stack.current.kind ≠ .block := by
    intro hkind
    injection hkind
  obtain ⟨hlow, hold⟩ := lowerMethods_lowers hflow c.methods hvars hroot hmethods
  refine ⟨⟨?_, hlow.scope⟩, hlow.adds.vars⟩
  intro v hn hm
  constructor
  · exact (hlow.adds.once v hn).trans (if_pos ⟨hn, hm⟩)
  · intro hv
    have := hold v hv
    omega

/-- A lowered block emits what it accepted, and declares every variable that
was added during its statements once. -/
theorem lowerParts_block (hflow : rules.flow.KeepsVars) {i : StmtInfo} {ss : List Stmt}
    {d : Decorated} {p p' : Pass}
    (hvars : ∀ v ∈ Stmt.gatherAll Stmt.ownVars Expr.ownVars ss, v.index < p.symbols.vars.size)
    (h : lowerParts rules (.block i ss) p = .ok d p') :
    ∃ out q, d = ⟨[], .block i out⟩ ∧ p' = { q with stack := q.stack.pop }
      ∧ Emits rules (p.enter .block []) ss out q
      ∧ ∀ v : VarId, p.symbols.vars.size ≤ v.index → v.index < p'.symbols.vars.size →
          (Stmt.gatherAll Stmt.ownDeclared Expr.ownDeclared out).count v = 1 := by
  obtain ⟨out, q, hout, rfl, rfl⟩ := lowerParts_block_eq_ok h
  refine ⟨out, q, rfl, rfl, lowerBlock_emits hflow ss hvars (Nat.le_refl _) ⟨rfl, rfl⟩ hout, ?_⟩
  intro v hn hm
  have hlow := lowerBlock_lowers hflow ss hvars ⟨rfl, rfl⟩ hout
  exact (hlow.adds.once v hn).trans (if_pos ⟨hn, hm⟩)

/-- A type test becomes a let-expression for its operand, whose variable is the
one temporary added after the operand was lowered. -/
theorem lowerExpr_typeTest {i : ExprInfo} {e e' : Expr} {pattern : BindingPattern} {p p' : Pass}
    (h : lowerExpr rules (.typeTest i e pattern) p = .ok e' p') :
    ∃ operand p₁ temp info test, lowerExpr rules e p = .ok operand p₁
      ∧ p'.symbols.vars = p₁.symbols.vars.push temp
      ∧ temp.id = ⟨p₁.symbols.vars.size⟩ ∧ temp.synthetic = true
      ∧ e' = .letIn info [(temp.id, operand)] test := by
  obtain ⟨operand, p₁, hoperand, htest⟩ := bind_eq_ok.mp h
  obtain ⟨symbol, test, size, -, -, -, rfl, rfl⟩ := lowerTest_eq_ok htest
  exact ⟨operand, p₁, _, _, test, hoperand, rfl, rfl, rfl, rfl⟩

/-- **Scope soundness of the variables that lowering introduces.**  For an
oracle that adds no variables:

* a class that mentions variables of the table only is lowered to one that
  introduces the variables added, one temporary for each type test;
* a block emits each declaration it accepts once, before the statement it
  accepted it from;
* a type test adds its temporary and defines it, and adds nothing else. -/
theorem lowerClass_scoped (rules : Rules) (hflow : rules.flow.KeepsVars) :
    (∀ (c c' : Class) (s : Symbols) (p' : Pass), (∀ v ∈ c.vars, v.index < s.vars.size) →
      lowerClass rules c (.start s) = .ok c' p' →
        c'.Introduces s.vars.size p'.symbols.vars.size
          ∧ ∃ added, p'.symbols.vars.toList = s.vars.toList ++ added
              ∧ added.countP (·.synthetic) = c.tests.length)
    ∧ (∀ (i : StmtInfo) (ss : List Stmt) (d : Decorated) (p p' : Pass),
      (∀ v ∈ Stmt.gatherAll Stmt.ownVars Expr.ownVars ss, v.index < p.symbols.vars.size) →
      lowerParts rules (.block i ss) p = .ok d p' →
        ∃ out q, d = ⟨[], .block i out⟩ ∧ p' = { q with stack := q.stack.pop }
          ∧ Emits rules (p.enter .block []) ss out q
          ∧ ∀ v : VarId, p.symbols.vars.size ≤ v.index → v.index < p'.symbols.vars.size →
              (Stmt.gatherAll Stmt.ownDeclared Expr.ownDeclared out).count v = 1)
    ∧ (∀ (i : ExprInfo) (e e' : Expr) (pattern : BindingPattern) (p p' : Pass),
      lowerExpr rules (.typeTest i e pattern) p = .ok e' p' →
        ∃ operand p₁ temp info test, lowerExpr rules e p = .ok operand p₁
          ∧ p'.symbols.vars = p₁.symbols.vars.push temp
          ∧ temp.id = ⟨p₁.symbols.vars.size⟩ ∧ temp.synthetic = true
          ∧ e' = .letIn info [(temp.id, operand)] test) :=
  ⟨fun _ _ _ _ hvars h => lowerClass_introduces hflow hvars h,
    fun _ _ _ _ _ hvars h => lowerParts_block hflow hvars h,
    fun _ _ _ _ _ _ h => lowerExpr_typeTest h⟩

namespace Guarded

/-- A parameter `o`, and a preserved binding `s`. -/
def symbols : Symbols :=
  ⟨#[⟨⟨0⟩, "o", .object, none, false⟩], #[⟨⟨0⟩, "s", .simple "String", none, true, []⟩]⟩

/-- `o instanceof String s` -/
def test : Expr :=
  .typeTest ⟨2, .boolean, .nowhere⟩ (.ident ⟨1, .object, .nowhere⟩ (.var ⟨0⟩))
    ⟨⟨0⟩, some (.simple "String")⟩

/-- `if (!(o instanceof String s)) return; print(s);` -/
def stmts : List Stmt :=
  [.ifElse ⟨5, .nowhere⟩ (.unary ⟨3, .boolean, .nowhere⟩ .not test) (.ret ⟨4, .nowhere⟩ none) none,
    .expr ⟨8, .nowhere⟩ (.call ⟨7, .void, .nowhere⟩ "print"
      [.ident ⟨6, .simple "String", .nowhere⟩ (.binding ⟨0⟩)])]

/-- A method with the parameter `o` and the statements as its body. -/
def method : Method := ⟨10, "m", [⟨0⟩], .void, some (.block ⟨9, .nowhere⟩ stmts), .nowhere⟩

/-- The class with that method alone. -/
def guarded : Class := ⟨11, "C", none, [], [method], .nowhere⟩

/-- The built-in classes, and the analysis of conditions the command uses. -/
def rules : Rules := ⟨.builtin, Flow.matchBindings⟩

/-- The number of variables after a run that succeeds. -/
def size? {α : Type} : EStateM.Result LowerError Pass α → Option Nat
  | .ok _ p => some p.symbols.vars.size
  | .error _ _ => none

/-- A size that is read off a result is the size of its table. -/
theorem size?_eq_some {α : Type} {r : EStateM.Result LowerError Pass α} {k : Nat}
    (h : size? r = some k) : ∃ a p, r = .ok a p ∧ p.symbols.vars.size = k := by
  cases r with
  | ok a p => exact ⟨a, p, rfl, Option.some.inj h⟩
  | error e p => injection h

end Guarded

/-- The storage of `s` and the temporary are introduced; the block emits the
declaration of `s` before the guard. -/
theorem lowerClass_scoped_guarded :
    Guarded.rules.flow.KeepsVars
      ∧ (∀ v ∈ Guarded.guarded.vars, v.index < Guarded.symbols.vars.size)
      ∧ (∃ c' p', lowerClass Guarded.rules Guarded.guarded (.start Guarded.symbols) = .ok c' p'
          ∧ c'.Introduces 1 3)
      ∧ (∃ d p' out q, lowerParts Guarded.rules (.block ⟨9, .nowhere⟩ Guarded.stmts)
            (.start Guarded.symbols) = .ok d p' ∧ d = ⟨[], .block ⟨9, .nowhere⟩ out⟩
          ∧ Emits Guarded.rules (Pass.enter (.start Guarded.symbols) .block []) Guarded.stmts out q)
      ∧ ∃ e' p' operand temp info test,
          lowerExpr Guarded.rules Guarded.test (.start Guarded.symbols) = .ok e' p'
          ∧ e' = .letIn info [(temp, operand)] test := by
  have hflow : Guarded.rules.flow.KeepsVars := Flow.matchBindings_keepsVars
  obtain ⟨hclass, hblock, htest⟩ := lowerClass_scoped Guarded.rules hflow
  have hvars : ∀ v ∈ Guarded.guarded.vars, v.index < Guarded.symbols.vars.size := by decide
  refine ⟨hflow, hvars, ?_, ?_, ?_⟩
  · obtain ⟨c', p', hrun, hsize⟩ : ∃ c' p', lowerClass Guarded.rules Guarded.guarded
        (.start Guarded.symbols) = .ok c' p' ∧ p'.symbols.vars.size = 3 :=
      Guarded.size?_eq_some (by decide +kernel)
    have hintro := (hclass _ _ _ _ hvars hrun).1
    rw [hsize] at hintro
    exact ⟨c', p', hrun, hintro⟩
  · obtain ⟨d, p', hrun, -⟩ : ∃ d p', lowerParts Guarded.rules (.block ⟨9, .nowhere⟩ Guarded.stmts)
        (.start Guarded.symbols) = .ok d p' ∧ p'.symbols.vars.size = 3 :=
      Guarded.size?_eq_some (by decide +kernel)
    obtain ⟨out, q, hout, -, hemits, -⟩ := hblock _ _ _ _ _ (by decide) hrun
    exact ⟨d, p', out, q, hrun, hout, hemits⟩
  · obtain ⟨e', p', hrun, -⟩ : ∃ e' p', lowerExpr Guarded.rules Guarded.test
        (.start Guarded.symbols) = .ok e' p' ∧ p'.symbols.vars.size = 2 :=
      Guarded.size?_eq_some (by decide +kernel)
    obtain ⟨operand, -, temp, info, test, -, -, -, -, he⟩ := htest _ _ _ _ _ _ hrun
    exact ⟨e', p', operand, temp.id, info, test, hrun, he⟩

end Lowering

end PatternIR
