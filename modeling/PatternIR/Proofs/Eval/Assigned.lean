/-
  PatternIR.Proofs.Eval.Assigned
  ──────────────────────────────
  **VARIABLES THAT HAVE BEEN ASSIGNED.**

  A variable of the current activation is assigned if the last write to it was
  an assignment or a match, not its declaration.  An evaluation keeps that
  unless it declares the variable again, and a tree declares only what stands
  in it:

      m.Assigned v  →  evalExpr e m = ok w m'  →  v ∉ e.declared  →  m'.Assigned v

    • `Machine.Traced` — what the new events tell of the variables assigned;
    • `Machine.Spares` — a variable is not declared in the current activation;
    • `spared` — evaluation declares the variables of the text only.
-/
import PatternIR.Proofs.Eval.Later
import PatternIR.Proofs.Gather

namespace PatternIR

variable {ω α β : Type}

/-! ## §1. Assigned variables. -/

/-- The activation of an event. -/
def Event.level : Event → Nat
  | wrote level _ _ | read level _ _ _ => level

namespace Machine

/-- The last write to the variable in the current activation was not a declaration. -/
def Assigned (m : Machine ω) (v : VarId) : Prop :=
  ∃ c, m.env.get? (.var v) = some c ∧ c.origin ≠ .declared

/-- `m'` is reached from `m` in the current activation, and what was assigned in
`m` is assigned in `m'` unless the new events declare it in that activation. -/
structure Traced (m m' : Machine ω) : Prop where
  callers : m'.env.callers = m.env.callers
  news : ∃ news, m'.history = news ++ m.history ∧ (∀ ev ∈ news, m.env.level ≤ ev.level)
    ∧ ∀ {v}, m.Assigned v → .wrote m.env.level (.var v) .declared ∉ news → m'.Assigned v

/-- From `m` to `m'` the variable is not declared in the current activation. -/
structure Spares (v : VarId) (m m' : Machine ω) : Prop where
  callers : m'.env.callers = m.env.callers
  news : ∃ news, m'.history = news ++ m.history ∧ .wrote m.env.level (.var v) .declared ∉ news

variable {m m₁ m₂ m' : Machine ω} {v : VarId}

/-- The level counts the activations below the current one. -/
theorem level_eq (h : m'.env.callers = m.env.callers) : m'.env.level = m.env.level := by
  unfold Environment.level
  rw [h]

/-- Without new writes to the variables. -/
theorem Traced.silent (henv : m'.env = m.env)
    (hnews : ∃ news, m'.history = news ++ m.history ∧ ∀ ev ∈ news, m.env.level ≤ ev.level) :
    m.Traced m' := by
  obtain ⟨news, heq, hlevel⟩ := hnews
  refine ⟨by rw [henv], news, heq, hlevel, fun hv _ => ?_⟩
  unfold Assigned
  rw [henv]
  exact hv

/-- The trace that a run leaves is one of the frames of evaluation. -/
theorem framed_traced : Framed (Traced (ω := ω)) where
  refl m := .silent rfl ⟨[], rfl, fun _ h => absurd h List.not_mem_nil⟩
  trans m₁ m₂ m₃ := by
    rintro ⟨hc, news, heq, hlevel, hkeep⟩ ⟨hc', more, heq', hlevel', hkeep'⟩
    have hl := level_eq hc
    refine ⟨hc'.trans hc, more ++ news, by rw [heq', heq, List.append_assoc], ?_, ?_⟩
    · intro ev hev
      rcases List.mem_append.mp hev with hev | hev
      · exact hl ▸ hlevel' ev hev
      · exact hlevel ev hev
    · intro v hv hno
      rw [hl] at hkeep'
      exact hkeep' (hkeep hv fun h => hno (List.mem_append_right _ h))
        fun h => hno (List.mem_append_left _ h)
  write m sym w origin := by
    refine ⟨rfl, [_], rfl, fun ev hev => by rw [List.mem_singleton.mp hev]; exact Nat.le_refl _, ?_⟩
    rintro v ⟨c, hc, horigin⟩ hno
    by_cases hv : Sym.var v = sym
    · subst hv
      refine ⟨_, Activation.get?_set_self _ _ _, ?_⟩
      rintro rfl
      exact hno List.mem_cons_self
    · exact ⟨c, (Activation.get?_set_of_ne _ _ hv).trans hc, horigin⟩
  read m node sym origin :=
    .silent rfl ⟨[_], rfl, fun ev hev => by rw [List.mem_singleton.mp hev]; exact Nat.le_refl _⟩
  print m text := .silent rfl ⟨[], rfl, fun _ h => absurd h List.not_mem_nil⟩
  host m host := .silent rfl ⟨[], rfl, fun _ h => absurd h List.not_mem_nil⟩
  call m m' := by
    rintro ⟨hc, news, heq, hlevel, -⟩
    have hrestored : m.Restored (leaveCall m') := restored_leaveCall hc
    refine ⟨hrestored.callers, news, heq, ?_, ?_⟩
    · intro ev hev
      have hinside : m.env.level + 1 ≤ ev.level := hlevel ev hev
      exact Nat.le_of_succ_le hinside
    -- a call gives its caller the variables back as they were
    · rintro v ⟨c, hcell, horigin⟩ -
      refine ⟨c, ?_, horigin⟩
      unfold Environment.get?
      rw [hrestored.current]
      exact hcell

namespace Spares

/-- Nothing happens to a machine that stands still. -/
theorem refl (v : VarId) (m : Machine ω) : Spares v m m := ⟨rfl, [], rfl, List.not_mem_nil⟩

/-- Two runs that spare the variable spare it together. -/
theorem trans (h : Spares v m m₁) (h₁ : Spares v m₁ m₂) : Spares v m m₂ := by
  obtain ⟨hc, news, heq, hno⟩ := h
  obtain ⟨hc₁, more, heq₁, hno₁⟩ := h₁
  rw [level_eq hc] at hno₁
  refine ⟨hc₁.trans hc, more ++ news, by rw [heq₁, heq, List.append_assoc], ?_⟩
  rw [List.mem_append, not_or]
  exact ⟨hno₁, hno⟩

/-- What is assigned and not declared again stays assigned. -/
theorem assigned (h : Spares v m m') (htraced : m.Traced m') (hv : m.Assigned v) : m'.Assigned v := by
  obtain ⟨-, news, heq, hno⟩ := h
  obtain ⟨-, news', heq', -, hkeep⟩ := htraced
  have hsame : news' = news := List.append_cancel_right (heq'.symm.trans heq)
  exact hkeep hv (hsame ▸ hno)

/-- The last part of what does not declare a variable does not. -/
theorem last (h : Spares v m m') (hbefore : m.Traced m₁) (hafter : m₁.Traced m') : Spares v m₁ m' := by
  obtain ⟨-, news, heq, hno⟩ := h
  obtain ⟨hc, old, hold, -⟩ := hbefore
  obtain ⟨hc', more, hmore, -⟩ := hafter
  refine ⟨hc', more, hmore, ?_⟩
  rw [level_eq hc]
  have hnews : news = more ++ old := by
    refine (List.append_left_inj m.history).mp ?_
    rw [← heq, hmore, hold, List.append_assoc]
  exact fun hmem => hno (hnews ▸ List.mem_append_left _ hmem)

end Spares

end Machine

/-! ## §2. What a tree declares. -/

open Machine (Spares)

variable {v : VarId}

/-- Everything the evaluator does with the given fuel declares, in the current
activation, variables of the text only. -/
structure Sparing (setting : Setting ω) (v : VarId) (n : Nat) : Prop where
  expr : ∀ {e}, v ∉ e.declared → Run.Keeps (Spares v) (evalExpr setting n e)
  args : ∀ {es}, v ∉ Expr.gatherAll Expr.ownDeclared es → Run.Keeps (Spares v) (evalArgs setting n es)
  defs : ∀ {ds}, v ∉ ds.map Prod.fst → v ∉ Expr.gatherDefs Expr.ownDeclared ds →
    Run.Keeps (Spares v) (evalDefs setting n ds)
  all : ∀ {es}, v ∉ Expr.gatherAll Expr.ownDeclared es → Run.Keeps (Spares v) (evalAll setting n es)
  call : ∀ f args, Run.Keeps (Spares v) (callMethod setting n f args)
  stmt : ∀ {s}, v ∉ s.declared → Run.Keeps (Spares v) (execStmt setting n s)
  stmts : ∀ {ss}, v ∉ Stmt.gatherAll Stmt.ownDeclared Expr.ownDeclared ss →
    Run.Keeps (Spares v) (execAll setting n ss)
  whileDo : ∀ {label c b}, v ∉ c.declared → v ∉ b.declared →
    Run.Keeps (Spares v) (execWhile setting n label c b)
  doWhile : ∀ {label b c}, v ∉ b.declared → v ∉ c.declared →
    Run.Keeps (Spares v) (execDo setting n label b c)
  forDo : ∀ {label c es b}, v ∉ Expr.gatherAll Expr.ownDeclared c.toList →
    v ∉ Expr.gatherAll Expr.ownDeclared es → v ∉ b.declared →
      Run.Keeps (Spares v) (execFor setting n label c es b)

namespace Run.Keeps

theorem spares_pure (a : α) : Keeps (Spares v) (Pure.pure a : Run ω α) := .pure (Spares.refl v) a

theorem spares_bind {c : Run ω α} {f : α → Run ω β} (hc : Keeps (Spares v) c)
    (hf : ∀ a, Keeps (Spares v) (f a)) : Keeps (Spares v) (c >>= f) :=
  .bind (R := Spares v) (fun _ _ _ => Spares.trans) hc hf

/-- A fault or a value. -/
theorem spares_ofExcept (x : Except Fault α) : Keeps (Spares v) (Run.ofExcept x : Run ω α) :=
  .ofExcept (Spares.refl v) x

/-- A condition, and what either answer leads to. -/
theorem spares_cond {c : Run ω Value} {f : Bool → Run ω β} (hc : Keeps (Spares v) c)
    (hf : ∀ b, Keeps (Spares v) (f b)) : Keeps (Spares v) (c >>= fun v => Run.truth v >>= f) :=
  spares_bind hc fun w => spares_bind (.truth (Spares.refl v) w) hf

/-- A write that does not declare the variable. -/
theorem spares_write {sym : Sym} {origin : Origin} (h : sym = .var v → origin ≠ .declared) (w : Value) :
    Keeps (Spares v) (Run.write sym w origin : Run ω Unit) := by
  constructor
  · intro m m' a hm
    injection hm with _ hm
    subst hm
    refine ⟨rfl, [_], rfl, ?_⟩
    intro hmem
    injection List.mem_singleton.mp hmem with _ hsym horigin
    exact h hsym.symm horigin.symm
  · intro m m' i hm
    injection hm

/-- Reading writes nothing. -/
theorem spares_read (s : Symbols) (node : NodeId) (sym : Sym) :
    Keeps (Spares v) (Run.read s node sym : Run ω Value) := by
  constructor
  · intro m m' a hm
    unfold Run.read at hm
    split at hm
    · injection hm with _ hm
      subst hm
      exact ⟨rfl, [_], rfl, by simp⟩
    · injection hm
  · intro m m' i hm hi
    rw [(Run.OnlyFaults.read s node sym).fault hm] at hi
    exact absurd hi (by simp)

/-- A declaration of another variable. -/
theorem spares_declare {x : VarId} (h : v ≠ x) (s : Symbols) (w : Value) :
    Keeps (Spares v) (Run.declare s x w : Run ω Unit) := by
  have hwrite : ∀ w, Keeps (Spares v) (Run.write (.var x) w .declared : Run ω Unit) :=
    spares_write fun heq => absurd (by injection heq with heq; exact heq.symm) h
  unfold Run.declare
  split
  · exact spares_bind (spares_ofExcept _) hwrite
  · exact spares_bind (spares_pure _) hwrite

/-- A call from outside runs in an activation of its own. -/
theorem spares_callOutside (setting : Setting ω) (name : String) (args : List Value) :
    Keeps (Spares v) (callOutside setting name args) := by
  -- printing and the host write no variable and leave no entry in the history
  have hsilent : ∀ {c : Run ω Value}, (∀ {m m' a}, c m = .ok a m' → m'.env = m.env ∧ m'.history = m.history) →
      (∀ {m m' i}, c m = .error (.interrupt i) m' → m'.env = m.env ∧ m'.history = m.history) →
        Keeps (Spares v) c := by
    intro c hok herror
    refine ⟨fun h => ?_, fun h _ => ?_⟩
    · obtain ⟨henv, hhistory⟩ := hok h
      exact ⟨by rw [henv], [], by rw [hhistory]; rfl, List.not_mem_nil⟩
    · obtain ⟨henv, hhistory⟩ := herror h
      exact ⟨by rw [henv], [], by rw [hhistory]; rfl, List.not_mem_nil⟩
  have hprint : ∀ text, Keeps (Spares v) (Run.print text >>= fun _ => Pure.pure .null : Run ω Value) :=
    fun text => hsilent (fun h => by injection h with _ h; subst h; exact ⟨rfl, rfl⟩)
      fun h => by injection h
  unfold callOutside Builtin.function?
  split
  next run hrun =>
    split at hrun
    · injection hrun with hrun
      subst hrun
      exact hprint _
    · split at hrun
      · injection hrun with hrun
        subst hrun
        exact hprint _
      · exact absurd hrun (by simp)
  next =>
    split
    next f hf =>
      refine hsilent (fun h => ?_) fun h => ?_
      · unfold callNative at h
        split at h
        · injection h with _ h
          subst h
          exact ⟨rfl, rfl⟩
        · injection h
      · unfold callNative at h
        split at h
        · injection h
        · injection h with _ h
          subst h
          exact ⟨rfl, rfl⟩
    next => exact .interrupt (Spares.refl v) _

/-- A match writes to its binding, never to a variable. -/
theorem spares_matchPattern (setting : Setting ω) (pattern : BindingPattern) (w : Value) :
    Keeps (Spares v) (matchPattern setting pattern w) := by
  unfold matchPattern
  split
  · exact .interrupt (Spares.refl v) _
  · split
    · exact spares_bind (spares_ofExcept _) fun w =>
        spares_bind (spares_write (by simp) w) fun _ => spares_pure _
    · exact spares_pure _

/-- A call declares in its own activation. -/
theorem spares_call (setting : Setting ω) (n : Nat) (f : Method) (args : List Value) :
    Keeps (Spares v) (callMethod setting (n + 1) f args) := by
  refine Machine.framed_traced.keeps_across setting.program.symbols f args
    (fun body => (Machine.framed_traced.kept setting n).stmt body) ?_
  rintro m m' ⟨hc, news, heq, hlevel, -⟩
  have hrestored : m.Restored (leaveCall m') := Machine.restored_leaveCall hc
  refine ⟨hrestored.callers, news, heq, ?_⟩
  intro hmem
  have hinside : m.env.level + 1 ≤ m.env.level := hlevel _ hmem
  omega

end Run.Keeps

open Run.Keeps

section

variable {setting : Setting ω} {n : Nat} (ih : Sparing setting v n)

include ih

/-- An expression that does not declare the variable spares it. -/
theorem Sparing.evalExpr_succ : ∀ {e : Expr}, v ∉ e.declared →
    Run.Keeps (Spares v) (evalExpr setting (n + 1) e)
  | .literal _ w, _ => spares_pure _
  | .ident i sym, _ => spares_read _ _ _
  | .unary _ op e, h => by
      simp only [Expr.declared, Expr.gather_unary, Expr.ownDeclared, List.nil_append] at h
      exact spares_bind (ih.expr h) fun w => spares_ofExcept _
  | .binary i op l r, h => by
      simp only [Expr.declared, Expr.gather_binary, Expr.ownDeclared, List.nil_append, List.mem_append,
        not_or] at h
      have hstrict : Run.Keeps (Spares v) (evalExpr setting n l >>= fun w => evalExpr setting n r >>=
          fun u => Run.ofExcept (evalBinary op w u (l.ty.isReference && r.ty.isReference) i.ty)) :=
        spares_bind (ih.expr h.1) fun w => spares_bind (ih.expr h.2) fun u => spares_ofExcept _
      have hright : Run.Keeps (Spares v) (evalExpr setting n r >>= fun w => Run.truth w >>= fun b =>
          Pure.pure (Value.bool b)) :=
        spares_cond (ih.expr h.2) fun b => spares_pure _
      cases op with
      | and =>
          refine spares_cond (ih.expr h.1) fun b => ?_
          cases b with
          | true => exact hright
          | false => exact spares_pure _
      | or =>
          refine spares_cond (ih.expr h.1) fun b => ?_
          cases b with
          | true => exact spares_pure _
          | false => exact hright
      | _ => exact hstrict
  | .conditional _ c y e, h => by
      simp only [Expr.declared, Expr.gather_conditional, Expr.ownDeclared, List.nil_append,
        List.mem_append, not_or] at h
      refine spares_cond (ih.expr h.1) fun b => ?_
      cases b with
      | true => exact ih.expr h.2.1
      | false => exact ih.expr h.2.2
  | .assign _ target e, h => by
      simp only [Expr.declared, Expr.gather_assign, Expr.ownDeclared, List.nil_append, List.mem_append,
        not_or] at h
      cases target with
      | ident i sym =>
          exact spares_bind (ih.expr h.2) fun w => spares_bind (spares_ofExcept _) fun w =>
            spares_bind (spares_write (by simp) w) fun _ => spares_pure _
      | _ => exact .interrupt (Spares.refl v) _
  | .cast _ target e, h => by
      simp only [Expr.declared, Expr.gather_cast, Expr.ownDeclared, List.nil_append] at h
      exact spares_bind (ih.expr h) fun w => spares_ofExcept _
  | .instanceOf _ e target, h => by
      simp only [Expr.declared, Expr.gather_instanceOf, Expr.ownDeclared, List.nil_append] at h
      exact spares_bind (ih.expr h) fun w => spares_pure _
  | .typeTest _ e pattern, h => by
      simp only [Expr.declared, Expr.gather_typeTest, Expr.ownDeclared, List.nil_append] at h
      exact spares_bind (ih.expr h) fun w => spares_matchPattern setting pattern w
  | .call _ name args, h => by
      simp only [Expr.declared, Expr.gather_call, Expr.ownDeclared, List.nil_append] at h
      refine spares_bind (ih.args h) fun args => ?_
      show Run.Keeps (Spares v) (callFunction setting n name args)
      unfold callFunction
      split
      · exact ih.call _ args
      · exact spares_callOutside setting name args
  | .methodCall _ receiver name args, h => by
      simp only [Expr.declared, Expr.gather_methodCall, Expr.ownDeclared, List.nil_append,
        List.mem_append, not_or] at h
      exact spares_bind (ih.expr h.1) fun w => spares_bind (ih.args h.2) fun args => spares_ofExcept _
  | .letIn _ defs body, h => by
      simp only [Expr.declared, Expr.gather_letIn, Expr.ownDeclared, List.mem_append, not_or] at h
      exact spares_bind (ih.defs h.1 h.2.1) fun _ => ih.expr h.2.2

/-- A statement that does not declare the variable spares it. -/
theorem Sparing.execStmt_succ : ∀ {s : Stmt}, v ∉ s.declared →
    Run.Keeps (Spares v) (execStmt setting (n + 1) s)
  | .expr _ e, h => by
      simp only [Stmt.declared, Stmt.gather_expr, Stmt.ownDeclared, List.nil_append] at h
      exact spares_bind (ih.expr h) fun _ => spares_pure _
  | .decl _ _ none, _ => spares_pure _
  | .decl _ var (some e), h => by
      simp only [Stmt.declared, Stmt.gather_decl, Stmt.ownDeclared, Option.toList_some,
        Expr.gatherAll_cons, Expr.gatherAll_nil, List.append_nil, List.mem_append, not_or,
        List.mem_singleton] at h
      exact spares_bind (ih.expr h.2) fun w => spares_declare h.1 _ w
  | .block _ ss, h => by
      simp only [Stmt.declared, Stmt.gather_block, Stmt.ownDeclared, List.nil_append] at h
      exact ih.stmts h
  | .ifElse _ c y no, h => by
      simp only [Stmt.declared, Stmt.gather_ifElse, Stmt.ownDeclared, List.nil_append, List.mem_append,
        not_or] at h
      refine spares_cond (ih.expr h.1) fun b => ?_
      cases b with
      | true => exact ih.stmt h.2.1
      | false =>
          cases no with
          | some s => exact ih.stmt h.2.2
          | none => exact spares_pure _
  | .whileDo _ c b, h => by
      simp only [Stmt.declared, Stmt.gather_whileDo, Stmt.ownDeclared, List.nil_append, List.mem_append,
        not_or] at h
      exact ih.whileDo h.1 h.2
  | .doWhile _ b c, h => by
      simp only [Stmt.declared, Stmt.gather_doWhile, Stmt.ownDeclared, List.nil_append, List.mem_append,
        not_or] at h
      exact ih.doWhile h.2 h.1
  | .forDo _ ss c es b, h => by
      simp only [Stmt.declared, Stmt.gather_forDo, Stmt.ownDeclared, List.nil_append, List.mem_append,
        not_or] at h
      exact spares_bind (ih.stmts h.2.2.1) fun _ => ih.forDo h.1 h.2.1 h.2.2.2
  | .labeled _ label s, h => by
      simp only [Stmt.declared, Stmt.gather_labeled, Stmt.ownDeclared, List.nil_append] at h
      have hcatch : Run.Keeps (Spares v) (settle (catchLabel label) (execStmt setting n s)) :=
        .settle (settles_catchLabel label) (ih.stmt h)
      cases s with
      | whileDo _ c b =>
          simp only [Stmt.gather_whileDo, Stmt.ownDeclared, List.nil_append, List.mem_append, not_or] at h
          exact ih.whileDo h.1 h.2
      | doWhile _ b c =>
          simp only [Stmt.gather_doWhile, Stmt.ownDeclared, List.nil_append, List.mem_append, not_or] at h
          exact ih.doWhile h.2 h.1
      | forDo _ ss c es b =>
          simp only [Stmt.gather_forDo, Stmt.ownDeclared, List.nil_append, List.mem_append, not_or] at h
          exact spares_bind (ih.stmts h.2.2.1) fun _ => ih.forDo h.1 h.2.1 h.2.2.2
      | _ => exact hcatch
  | .ret _ none, _ => .interrupt (Spares.refl v) _
  | .ret _ (some e), h => by
      simp only [Stmt.declared, Stmt.gather_ret, Stmt.ownDeclared, Option.toList_some,
        Expr.gatherAll_cons, Expr.gatherAll_nil, List.append_nil, List.nil_append] at h
      exact spares_bind (ih.expr h) fun w => .interrupt (Spares.refl v) _
  | .brk _ label, _ | .cont _ label, _ => .interrupt (Spares.refl v) _

end

/-- **Evaluation declares variables of the text only.** -/
theorem sparing (setting : Setting ω) (v : VarId) : ∀ n, Sparing setting v n
  | 0 => by constructor <;> intros <;> exact .exhausted
  | n + 1 => by
      have ih := sparing setting v n
      -- a body is run with its jumps caught; a jump that is caught writes nothing
      have hbody : ∀ {label : Option String} {b : Stmt}, v ∉ b.declared →
          Run.Keeps (Spares v) (settle (Turn.after label) (execStmt setting n b)) := fun hb =>
        .settle (Turn.settles_after _) (ih.stmt hb)
      refine ⟨ih.evalExpr_succ, ?_, ?_, ?_, spares_call setting n, ih.execStmt_succ, ?_, ?_, ?_, ?_⟩
      · rintro (_ | ⟨e, es⟩) h
        · exact spares_pure _
        · rw [Expr.gatherAll_cons, List.mem_append, not_or] at h
          exact spares_bind (ih.expr h.1) fun w => spares_bind (ih.args h.2) fun ws => spares_pure _
      · rintro (_ | ⟨⟨x, e⟩, ds⟩) hfst h
        · exact spares_pure _
        · rw [Expr.gatherDefs_cons, List.mem_append, not_or] at h
          rw [List.map_cons, List.mem_cons, not_or] at hfst
          exact spares_bind (ih.expr h.1) fun w => spares_bind (spares_declare hfst.1 _ w) fun _ =>
            ih.defs hfst.2 h.2
      · rintro (_ | ⟨e, es⟩) h
        · exact spares_pure _
        · rw [Expr.gatherAll_cons, List.mem_append, not_or] at h
          exact spares_bind (ih.expr h.1) fun _ => ih.all h.2
      · rintro (_ | ⟨s, ss⟩) h
        · exact spares_pure _
        · rw [Stmt.gatherAll_cons, List.mem_append, not_or] at h
          exact spares_bind (ih.stmt h.1) fun _ => ih.stmts h.2
      · intro label c b hc hb
        refine spares_cond (ih.expr hc) fun t => ?_
        cases t with
        | false => exact spares_pure _
        | true =>
            refine spares_bind (hbody hb) fun turn => ?_
            cases turn with
            | exit => exact spares_pure _
            | next => exact ih.whileDo hc hb
      · intro label b c hb hc
        refine spares_bind (hbody hb) fun turn => ?_
        cases turn with
        | exit => exact spares_pure _
        | next =>
            refine spares_cond (ih.expr hc) fun t => ?_
            cases t with
            | false => exact spares_pure _
            | true => exact ih.doWhile hb hc
      · intro label c es b hc hes hb
        have hround : Run.Keeps (Spares v) (settle (Turn.after label) (execStmt setting n b) >>=
            afterTurn (evalAll setting n es >>= fun _ => execFor setting n label c es b)) := by
          refine spares_bind (hbody hb) fun turn => ?_
          cases turn with
          | exit => exact spares_pure _
          | next => exact spares_bind (ih.all hes) fun _ => ih.forDo hc hes hb
        cases c with
        | none => exact hround
        | some c =>
            simp only [Option.toList_some, Expr.gatherAll_cons, Expr.gatherAll_nil, List.append_nil] at hc
            refine spares_cond (ih.expr hc) fun t => ?_
            cases t with
            | false => exact spares_pure _
            | true => exact hround

end PatternIR
