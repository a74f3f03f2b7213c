/-
  PatternIR.Proofs.Eval.Clean
  ───────────────────────────
  **RUNS THAT READ NO DECLARED VALUE.**

  A run is clean at a node for a variable if no read there has yielded what the
  declaration of the variable wrote.  It is, however it ends, where the text is
  sure of the reads at the node: what has been assigned when a part of the text
  is evaluated is as the text tells, whatever came before.

    • `Run.Shows` — a computation that leads to clean machines only;
    • `showing` — evaluation does, part by part;
    • `callNamed_shows` — so does a call from outside.
-/
import PatternIR.Proofs.Eval.Sure

namespace PatternIR

variable {ω α β : Type}

/-! ## §1. Clean runs. -/

/-- No read of the variable at the node has yielded what a declaration wrote. -/
def Machine.Clean (node : NodeId) (v : VarId) (m : Machine ω) : Prop :=
  ∀ level, .read level node (.var v) .declared ∉ m.history

/-- From a clean machine, in which the variable has been assigned if `k` says
so, the computation leads to clean machines only, whether it succeeds or not. -/
structure Run.Shows (node : NodeId) (v : VarId) (k : Prop) (c : Run ω α) : Prop where
  ok : ∀ {m m' : Machine ω} {a : α}, c m = .ok a m' → (k → m.Assigned v) → m.Clean node v →
    m'.Clean node v
  error : ∀ {m m' : Machine ω} {e : Stop}, c m = .error e m' → (k → m.Assigned v) →
    m.Clean node v → m'.Clean node v

/-- What is executed in a call is the body of the method. -/
theorem body_of_admission {depth : Nat} {f : Method} {args : List Value} {body : Stmt}
    (h : admission depth f args = .ok body) : f.body = some body := by
  unfold admission at h
  split at h
  · injection h
  · split at h
    · injection h
    · split at h
      next => injection h
      next b hb =>
        injection h with h
        exact h ▸ hb

namespace Run.Shows

variable {node : NodeId} {v : VarId} {k k' : Prop} {c : Run ω α}

/-- A run that is clean under a condition is clean under a stronger one. -/
theorem weaken (h : Shows node v k' c) (hk : k' → k) : Shows node v k c :=
  ⟨fun hm hassigned => h.ok hm fun hk' => hassigned (hk hk'),
    fun hm hassigned => h.error hm fun hk' => hassigned (hk hk')⟩

theorem pure (a : α) : Shows node v k (Pure.pure a : Run ω α) := by
  constructor
  · intro m m' b h _ hclean
    injection h with _ hm
    exact hm ▸ hclean
  · intro m m' e h
    injection h

/-- A stop without an effect. -/
theorem stop (e : Stop) : Shows node v k (throw e : Run ω α) := by
  constructor
  · intro m m' a h
    injection h
  · intro m m' e h _ hclean
    injection h with _ hm
    exact hm ▸ hclean

theorem ofExcept : ∀ x : Except Fault α, Shows node v k (Run.ofExcept x : Run ω α)
  | .ok a => pure a
  | .error _ => stop _

theorem truth (w : Value) : Shows node v k (Run.truth w : Run ω Bool) := by
  unfold Run.truth
  split
  · exact pure _
  · exact stop _

/-- One after the other; `K` says what is known of the variable between the two. -/
theorem bind {f : α → Run ω β} {K : α → Prop} (hc : Shows node v k c)
    (hkeep : ∀ {m m' : Machine ω} {a : α}, c m = .ok a m' → (k → m.Assigned v) → K a → m'.Assigned v)
    (hf : ∀ a, Shows node v (K a) (f a)) : Shows node v k (c >>= f) := by
  constructor
  · intro m m' b h hassigned hclean
    obtain ⟨a, m₁, h₁, h₂⟩ := bind_eq_ok.mp h
    exact (hf a).ok h₂ (hkeep h₁ hassigned) (hc.ok h₁ hassigned hclean)
  · intro m m' e h hassigned hclean
    rw [bind_apply] at h
    split at h
    next a m₁ h₁ => exact (hf a).error h (hkeep h₁ hassigned) (hc.ok h₁ hassigned hclean)
    next e m₁ h₁ =>
      injection h with _ hm
      exact hm ▸ hc.error h₁ hassigned hclean

/-- A computation, and one after it for which nothing has to be assigned. -/
theorem andThen {f : α → Run ω β} (hc : Shows node v k c) (hf : ∀ a, Shows node v False (f a)) :
    Shows node v k (c >>= f) :=
  bind hc (fun _ _ h => h.elim) hf

/-- A computation that reads nothing. -/
theorem unread
    (hok : ∀ {m m' : Machine ω} {a : α}, c m = .ok a m' → m.Clean node v → m'.Clean node v)
    (herror : ∀ {m m' : Machine ω} {e : Stop}, c m = .error e m' → m.Clean node v → m'.Clean node v) :
    Shows node v k c :=
  ⟨fun h _ => hok h, fun h _ => herror h⟩

/-- What becomes of an ending. -/
theorem settle {how : Except Stop α → Except Stop β} (hc : Shows node v k c) :
    Shows node v k (settle how c) := by
  constructor
  · intro m m' b h hassigned hclean
    rcases settle_eq_ok h with ⟨a, h₁, -⟩ | ⟨e, h₁, -⟩
    · exact hc.ok h₁ hassigned hclean
    · exact hc.error h₁ hassigned hclean
  · intro m m' e h hassigned hclean
    rcases settle_eq_error h with ⟨a, h₁, -⟩ | ⟨e, h₁, -⟩
    · exact hc.ok h₁ hassigned hclean
    · exact hc.error h₁ hassigned hclean

/-- A write reads nothing. -/
theorem write (sym : Sym) (w : Value) (origin : Origin) :
    Shows node v k (Run.write sym w origin : Run ω Unit) := by
  refine unread (fun h hclean => ?_) fun h => by injection h
  injection h with _ hm
  subst hm
  intro level hmem
  rcases List.mem_cons.mp hmem with hmem | hmem
  · injection hmem
  · exact hclean level hmem

/-- A read of the variable where it has been assigned, or another read. -/
theorem read {s : Symbols} {at_ : NodeId} {sym : Sym} (h : sym = .var v → at_ = node → k) :
    Shows node v k (Run.read s at_ sym : Run ω Value) := by
  constructor
  · intro m m' w hm hassigned hclean
    unfold Run.read at hm
    split at hm
    next c hread =>
      injection hm with _ hm
      subst hm
      intro level hmem
      rcases List.mem_cons.mp hmem with hmem | hmem
      · injection hmem with _ hnode hsym horigin
        subst hsym
        obtain ⟨d, hd, hne⟩ := hassigned (h rfl hnode.symm)
        have hsame : c = d := Option.some.inj (hread.symm.trans hd)
        exact hne (hsame ▸ horigin.symm)
      · exact hclean level hmem
    next => injection hm
  · intro m m' e hm hassigned hclean
    unfold Run.read at hm
    split at hm
    next => injection hm
    next =>
      injection hm with _ hm
      exact hm ▸ hclean

/-- A declaration reads nothing. -/
theorem declare (s : Symbols) (x : VarId) (w : Value) :
    Shows node v k (Run.declare s x w : Run ω Unit) := by
  unfold Run.declare
  split
  · exact andThen (ofExcept _) fun w => write _ w _
  · exact andThen (pure _) fun w => write _ w _

/-- Nor do the parameters of a call. -/
theorem bindParams (s : Symbols) : ∀ (params : List VarId) (args : List Value) {k : Prop},
    Shows node v k (PatternIR.bindParams s params args : Run ω Unit)
  | [], _, _ => pure _
  | _ :: _, [], _ => pure _
  | param :: params, arg :: args, _ => andThen (declare s param arg) fun _ => bindParams s params args

/-- Nor does a text that is printed. -/
theorem print (text : String) : Shows node v k (Run.print text : Run ω Unit) := by
  refine unread (fun h hclean => ?_) fun h => by injection h
  injection h with _ hm
  exact hm ▸ hclean

/-- Nor does a native method. -/
theorem callNative (f : Native ω) (args : List Value) : Shows node v k (callNative f args) := by
  refine unread (fun h hclean => ?_) fun h hclean => ?_
  · unfold PatternIR.callNative at h
    split at h
    · injection h with _ hm
      exact hm ▸ hclean
    · injection h
  · unfold PatternIR.callNative at h
    split at h
    · injection h
    · injection h with _ hm
      exact hm ▸ hclean

/-- A call from outside reads in another activation. -/
theorem callOutside (setting : Setting ω) (name : String) (args : List Value) :
    Shows node v k (callOutside setting name args) := by
  have hprint : ∀ text, Shows node v k (Run.print text >>= fun _ => Pure.pure .null : Run ω Value) :=
    fun text => andThen (print text) fun _ => pure _
  unfold PatternIR.callOutside Builtin.function?
  split
  next run hrun =>
    split at hrun
    · injection hrun with hrun
      exact hrun ▸ hprint _
    · split at hrun
      · injection hrun with hrun
        exact hrun ▸ hprint _
      · exact absurd hrun (by simp)
  next =>
    split
    next f hf => exact callNative f args
    next => exact stop _

/-- A match writes to its binding and reads nothing. -/
theorem matchPattern (setting : Setting ω) (pattern : BindingPattern) (w : Value) :
    Shows node v k (matchPattern setting pattern w) := by
  unfold PatternIR.matchPattern
  split
  · exact stop _
  · split
    · exact andThen (ofExcept _) fun w => andThen (write _ w _) fun _ => pure _
    · exact pure _

/-- A call starts with nothing assigned. -/
theorem callBy {s : Symbols} {f : Method} {args : List Value} {exec : Stmt → Run ω Unit}
    (hexec : ∀ body, f.body = some body → Shows node v False (exec body)) :
    Shows node v k (callBy s f args exec) := by
  -- inside the call it is the variables of the callee that are written and read
  have hinside : ∀ body, f.body = some body → Shows node v False
      (PatternIR.bindParams s f.params args >>= fun _ => bracketCall f.name (exec body)) := by
    intro body hbody
    refine andThen (bindParams _ _ _) fun _ => unread (fun h hclean => ?_) fun h hclean => ?_
    · unfold bracketCall at h
      split at h
      next w m₁ h₁ =>
        injection h with _ hm
        subst hm
        have h₂ := (settle (hexec body hbody)).ok h₁ False.elim hclean
        exact h₂
      next => injection h
    · unfold bracketCall at h
      split at h
      next => injection h
      next e m₁ h₁ =>
        injection h with _ hm
        subst hm
        have h₂ := (settle (hexec body hbody)).error h₁ False.elim hclean
        exact h₂
  refine unread (fun {m m' w} h hclean => ?_) fun {m m' e} h hclean => ?_
  · cases hadmit : admission m.depth f args with
    | error e =>
        rw [callBy_error hadmit] at h
        injection h
    | ok body =>
        rw [callBy_ok hadmit] at h
        exact (hinside body (body_of_admission hadmit)).ok h False.elim hclean
  · cases hadmit : admission m.depth f args with
    | error e =>
        rw [callBy_error hadmit] at h
        injection h with _ hm
        exact hm ▸ hclean
    | ok body =>
        rw [callBy_ok hadmit] at h
        exact (hinside body (body_of_admission hadmit)).error h False.elim hclean

end Run.Shows

/-! ## §2. Evaluation is clean. -/

/-- Everything the evaluator does with the given fuel is clean, where the text
is sure of the reads at the node. -/
structure Showing (setting : Setting ω) (node : NodeId) (v : VarId) (n : Nat) : Prop where
  expr : ∀ {e : Expr} {k : Prop}, e.Sure v (·.id = node) k →
    Run.Shows node v k (evalExpr setting n e)
  args : ∀ {es : List Expr} {k : Prop}, Expr.SureAll v (·.id = node) k es →
    Run.Shows node v k (evalArgs setting n es)
  defs : ∀ {ds : List (VarId × Expr)} {k : Prop}, Expr.SureDefs v (·.id = node) k ds →
    Run.Shows node v k (evalDefs setting n ds)
  all : ∀ {es : List Expr} {k : Prop}, Expr.SureAll v (·.id = node) k es →
    Run.Shows node v k (evalAll setting n es)
  call : ∀ {f : Method}, f ∈ setting.program.methods → ∀ args,
    Run.Shows node v False (callMethod setting n f args)
  stmt : ∀ {w : Stmt} {k : Prop}, w.Sure v (·.id = node) k → Run.Shows node v k (execStmt setting n w)
  stmts : ∀ {ws : List Stmt} {k : Prop}, Stmt.SureAll v (·.id = node) k ws →
    Run.Shows node v k (execAll setting n ws)
  whileDo : ∀ {label c b} {k : Prop}, (k → v ∉ c.declared) → (k → v ∉ b.declared) →
    c.Sure v (·.id = node) k → b.Sure v (·.id = node) (c.When v k true) →
      Run.Shows node v k (execWhile setting n label c b)
  doWhile : ∀ {label b c} {k : Prop}, (k → v ∉ c.declared) → (k → v ∉ b.declared) →
    b.Sure v (·.id = node) k → c.Sure v (·.id = node) k →
      Run.Shows node v k (execDo setting n label b c)
  forDo : ∀ {label c es b} {k : Prop}, (k → v ∉ Expr.gatherAll Expr.ownDeclared c.toList) →
    (k → v ∉ Expr.gatherAll Expr.ownDeclared es) → (k → v ∉ b.declared) →
    Expr.SureAll v (·.id = node) k c.toList →
    Expr.SureAll v (·.id = node) (Expr.Passed v k c ∧ v ∉ b.declared) es →
    b.Sure v (·.id = node) (Expr.Passed v k c) → Run.Shows node v k (execFor setting n label c es b)

section

variable {setting : Setting ω} {node : NodeId} {v : VarId} {n : Nat} {k : Prop}

/-- A condition, and what follows each outcome. -/
theorem Run.Shows.cond {c : Expr} {f : Bool → Run ω β}
    (hc : Run.Shows node v k (evalExpr setting n c))
    (hf : ∀ o, Run.Shows node v (c.When v k o) (f o)) :
    Run.Shows node v k (evalExpr setting n c >>= fun w => Run.truth w >>= f) := by
  constructor
  · intro m m' b h hassigned hclean
    obtain ⟨o, m₁, h₁, h₂⟩ := Run.cond_eq_ok.mp h
    exact (hf o).ok h₂ (Expr.When.assigned h₁ hassigned) (hc.ok h₁ hassigned hclean)
  · intro m m' e h hassigned hclean
    rw [bind_apply] at h
    split at h
    next w m₁ h₁ =>
      have hclean₁ := hc.ok h₁ hassigned hclean
      cases w with
      | bool o => exact (hf o).error h (Expr.When.assigned h₁ hassigned) hclean₁
      | _ =>
          injection h with _ hm
          exact hm ▸ hclean₁
    next e m₁ h₁ =>
      injection h with _ hm
      exact hm ▸ hc.error h₁ hassigned hclean

variable (ih : Showing setting node v n)

include ih

/-- An expression whose reads are sure is clean. -/
theorem Showing.evalExpr_succ : ∀ {e : Expr} {k : Prop}, e.Sure v (·.id = node) k →
    Run.Shows node v k (evalExpr setting (n + 1) e)
  | .literal _ w, _, _ => .pure _
  | .ident i sym, _, h => .read h
  | .unary _ op e, _, h => (ih.expr (e := e) h).andThen fun w => .ofExcept _
  | .binary i op l r, k, h => by
      have hstrict : r.Sure v (·.id = node) (l.After v k) →
          Run.Shows node v k (evalExpr setting n l >>= fun w => evalExpr setting n r >>= fun u =>
            Run.ofExcept (evalBinary op w u (l.ty.isReference && r.ty.isReference) i.ty)) := fun hr =>
        (ih.expr h.1).bind (K := fun _ => l.After v k) Expr.After.assigned fun w =>
          (ih.expr hr).andThen fun u => .ofExcept _
      have hright : ∀ {k : Prop}, r.Sure v (·.id = node) k →
          Run.Shows node v k (evalExpr setting n r >>= fun w => Run.truth w >>= fun b =>
            Pure.pure (Value.bool b)) := fun hr =>
        (ih.expr hr).andThen fun w => (Run.Shows.truth w).andThen fun b => .pure _
      cases op with
      | and =>
          refine .cond (ih.expr h.1) fun o => ?_
          cases o with
          | true => exact hright h.2
          | false => exact .pure _
      | or =>
          refine .cond (ih.expr h.1) fun o => ?_
          cases o with
          | true => exact .pure _
          | false => exact hright h.2
      | _ => exact hstrict h.2
  | .conditional _ c y e, k, h => by
      refine .cond (ih.expr h.1) fun o => ?_
      cases o with
      | true => exact ih.expr h.2.1
      | false => exact ih.expr h.2.2
  | .assign _ target e, k, h => by
      cases target with
      | ident i sym =>
          exact (ih.expr (e := e) h).andThen fun w => (Run.Shows.ofExcept _).andThen fun w =>
            (Run.Shows.write _ w _).andThen fun _ => .pure _
      | _ => exact .stop _
  | .cast _ target e, _, h => (ih.expr (e := e) h).andThen fun w => .ofExcept _
  | .instanceOf _ e target, _, h => (ih.expr (e := e) h).andThen fun w => .pure _
  | .typeTest _ e pattern, _, h => (ih.expr (e := e) h).andThen fun w => .matchPattern setting pattern w
  | .call _ name args, _, h => by
      refine (ih.args h).andThen fun args => ?_
      show Run.Shows node v False (callFunction setting n name args)
      unfold callFunction
      split
      next f hf => exact ih.call (List.mem_of_find?_eq_some hf) args
      next => exact .callOutside setting name args
  | .methodCall _ receiver name args, k, h =>
      (ih.expr h.1).bind (K := fun _ => receiver.After v k) Expr.After.assigned fun w =>
        (ih.args h.2).andThen fun args => .ofExcept _
  | .letIn _ ds body, k, h => by
      refine (ih.defs h.1).bind (K := fun _ => k ∧ v ∉ ds.map Prod.fst
        ∧ v ∉ Expr.gatherDefs Expr.ownDeclared ds) (fun h₁ hk hk' => ?_) fun _ => ih.expr h.2
      exact ((Machine.framed_traced.kept setting n).defs ds).assigned
        ((sparing setting v n).defs hk'.2.1 hk'.2.2) h₁ (hk hk'.1)

/-- A loop, from what is assigned before it and not declared in it. -/
theorem Showing.loop {w : Stmt} {label : Option String} (h : w.Sure v (·.id = node) k) :
    match w with
    | .whileDo _ c b => Run.Shows node v k (execWhile setting n label c b)
    | .doWhile _ b c => Run.Shows node v k (execDo setting n label b c)
    | .forDo _ ss c es b =>
      Run.Shows node v k (execAll setting n ss >>= fun _ => execFor setting n label c es b)
    | _ => True := by
  cases w with
  | whileDo i c b =>
      have hdeclared : v ∉ (Stmt.whileDo i c b).declared → v ∉ c.declared ∧ v ∉ b.declared := by
        simp [Stmt.declared, Stmt.ownDeclared, Expr.declared]
      exact (ih.whileDo (fun hk => (hdeclared hk.2).1) (fun hk => (hdeclared hk.2).2) h.1 h.2).weaken
        And.left
  | doWhile i b c =>
      have hdeclared : v ∉ (Stmt.doWhile i b c).declared → v ∉ c.declared ∧ v ∉ b.declared := by
        simp [Stmt.declared, Stmt.ownDeclared, Expr.declared]
      exact (ih.doWhile (fun hk => (hdeclared hk.2).1) (fun hk => (hdeclared hk.2).2) h.1 h.2).weaken
        And.left
  | forDo i ss c es b =>
      obtain ⟨hss, hc, hes, hb⟩ := h
      have hdeclared : v ∉ (Stmt.forDo i ss c es b).declared →
          v ∉ Expr.gatherAll Expr.ownDeclared c.toList ∧ v ∉ Expr.gatherAll Expr.ownDeclared es
            ∧ v ∉ Stmt.gatherAll Stmt.ownDeclared Expr.ownDeclared ss ∧ v ∉ b.declared := by
        simp [Stmt.declared, Stmt.ownDeclared]
      refine (ih.stmts hss).bind (K := fun _ => k ∧ v ∉ (Stmt.forDo i ss c es b).declared)
        (fun h₁ hk hk' => ?_) fun _ => ?_
      · exact ((Machine.framed_traced.kept setting n).stmts ss).assigned
          ((sparing setting v n).stmts (hdeclared hk'.2).2.2.1) h₁ (hk hk'.1)
      · exact ih.forDo (fun hk => (hdeclared hk.2).1) (fun hk => (hdeclared hk.2).2.1)
          (fun hk => (hdeclared hk.2).2.2.2) hc hes hb
  | _ => trivial

/-- A statement whose reads are sure is clean. -/
theorem Showing.execStmt_succ : ∀ {w : Stmt} {k : Prop}, w.Sure v (·.id = node) k →
    Run.Shows node v k (execStmt setting (n + 1) w)
  | .expr _ e, _, h => (ih.expr (e := e) h).andThen fun _ => .pure _
  | .decl _ _ none, _, _ => .pure _
  | .decl _ x (some e), _, h => (ih.expr (e := e) h.1).andThen fun w => .declare _ x w
  | .block _ ss, _, h => ih.stmts (show Stmt.SureAll v _ _ ss from h)
  | .ifElse _ c y no, k, h => by
      refine .cond (ih.expr h.1) fun o => ?_
      cases o with
      | true => exact ih.stmt h.2.1
      | false =>
          cases no with
          | none => exact .pure _
          | some s => exact ih.stmt h.2.2
  | .whileDo i c b, _, h => ih.loop (w := .whileDo i c b) h
  | .doWhile i b c, _, h => ih.loop (w := .doWhile i b c) h
  | .forDo i ss c es b, _, h => ih.loop (w := .forDo i ss c es b) h
  | .labeled _ label s, k, h => by
      have hcatch : Run.Shows node v k (settle (catchLabel label) (execStmt setting n s)) :=
        .settle (ih.stmt (w := s) h)
      cases s with
      | whileDo i c b => exact ih.loop (w := .whileDo i c b) h
      | doWhile i b c => exact ih.loop (w := .doWhile i b c) h
      | forDo i ss c es b => exact ih.loop (w := .forDo i ss c es b) h
      | _ => exact hcatch
  | .ret _ none, _, _ => .stop _
  | .ret _ (some e), _, h => (ih.expr (e := e) h.1).andThen fun w => .stop _
  | .brk _ label, _, _ | .cont _ label, _, _ => .stop _

end

/-- **Where the text is sure of the reads at a node, evaluation is clean.** -/
theorem showing {setting : Setting ω} (quiet : setting.Quiet) {node : NodeId} {v : VarId}
    (hbodies : ∀ f ∈ setting.program.methods, ∀ body, f.body = some body →
      body.Sure v (·.id = node) False) : ∀ n, Showing setting node v n
  | 0 => by constructor <;> intros <;> exact .stop _
  | n + 1 => by
      have ih := showing quiet hbodies n
      -- a body that does not declare the variable leaves it assigned, however it ends
      have hround : ∀ {label : Option String} {b : Stmt} {m m' : Machine ω} {turn : Turn},
          settle (Turn.after label) (execStmt setting n b) m = .ok turn m' → v ∉ b.declared →
            m.Assigned v → m'.Assigned v := fun h hb hv =>
        Run.Keeps.assigned (.settle (Turn.settles_after _) ((Machine.framed_traced.kept setting n).stmt _))
          (.settle (Turn.settles_after _) ((sparing setting v n).stmt hb)) h hv
      refine ⟨ih.evalExpr_succ, ?_, ?_, ?_, ?_, ih.execStmt_succ, ?_, ?_, ?_, ?_⟩
      · rintro (_ | ⟨e, es⟩) k h
        · exact .pure _
        · exact (ih.expr h.1).bind (K := fun _ => e.After v k) Expr.After.assigned fun w =>
            (ih.args h.2).andThen fun ws => .pure _
      · rintro (_ | ⟨⟨x, e⟩, ds⟩) k h
        · exact .pure _
        · refine (ih.expr h.1).bind (K := fun _ => e.After v k) Expr.After.assigned fun w => ?_
          refine (Run.Shows.declare _ x w).bind (K := fun _ => e.After v k ∧ v ≠ x)
            (fun h₁ hk hk' => ?_) fun _ => ih.defs h.2
          exact (Machine.framed_traced.keeps_declare _ x w).assigned
            (Run.Keeps.spares_declare hk'.2 _ w) h₁ (hk hk'.1)
      · rintro (_ | ⟨e, es⟩) k h
        · exact .pure _
        · exact (ih.expr h.1).bind (K := fun _ => e.After v k) Expr.After.assigned fun _ => ih.all h.2
      · intro f hf args
        exact .callBy fun body hbody => ih.stmt (hbodies f hf body hbody)
      · rintro (_ | ⟨s, ss⟩) k h
        · exact .pure _
        · exact (ih.stmt h.1).bind (K := fun _ => s.Behind v k) (Stmt.Behind.assigned quiet) fun _ =>
            ih.stmts h.2
      · intro label c b k hcd hbd hc hb
        have hpassed : k → c.When v k true := fun hk => .inl ⟨hk, hcd hk⟩
        refine .cond (ih.expr hc) fun o => ?_
        cases o with
        | false => exact .pure _
        | true =>
            refine (ih.stmt hb).settle.bind (K := fun _ => k)
              (fun h₁ hk hk' => hround h₁ (hbd hk') (hk (hpassed hk'))) fun turn => ?_
            cases turn with
            | exit => exact .pure _
            | next => exact ih.whileDo hcd hbd hc hb
      · intro label b c k hcd hbd hb hc
        refine (ih.stmt hb).settle.bind (K := fun _ => k) (fun h₁ hk hk' => hround h₁ (hbd hk') (hk hk'))
          fun turn => ?_
        cases turn with
        | exit => exact .pure _
        | next =>
            refine .cond (ih.expr hc) fun o => ?_
            cases o with
            | false => exact .pure _
            | true => exact (ih.doWhile hcd hbd hb hc).weaken fun hk => .inl ⟨hk, hcd hk⟩
      · intro label c es b k hcd hesd hbd hc hes hb
        have hpassed : k → Expr.Passed v k c := by
          cases c with
          | none => exact id
          | some c =>
              simp only [Option.toList_some, Expr.gatherAll_cons, Expr.gatherAll_nil,
                List.append_nil] at hcd
              exact fun hk => .inl ⟨hk, hcd hk⟩
        have hrest : Run.Shows node v (Expr.Passed v k c)
            (settle (Turn.after label) (execStmt setting n b) >>=
              afterTurn (evalAll setting n es >>= fun _ => execFor setting n label c es b)) := by
          refine (ih.stmt hb).settle.bind (K := fun _ => Expr.Passed v k c ∧ v ∉ b.declared)
            (fun h₁ hk hk' => hround h₁ hk'.2 (hk hk'.1)) fun turn => ?_
          cases turn with
          | exit => exact .pure _
          | next =>
              refine (ih.all hes).bind (K := fun _ => k) (fun h₁ hk hk' => ?_) fun _ =>
                ih.forDo hcd hesd hbd hc hes hb
              exact ((Machine.framed_traced.kept setting n).all es).assigned
                ((sparing setting v n).all (hesd hk')) h₁ (hk ⟨hpassed hk', hbd hk'⟩)
        cases c with
        | none => exact hrest
        | some c =>
            refine .cond (ih.expr hc.1) fun o => ?_
            cases o with
            | false => exact .pure _
            | true => exact hrest

/-- **A call by name is clean** where the text is sure of the reads at a node. -/
theorem callNamed_shows {setting : Setting ω} (quiet : setting.Quiet) {node : NodeId} {v : VarId}
    (hbodies : ∀ f ∈ setting.program.methods, ∀ body, f.body = some body →
      body.Sure v (·.id = node) False) (n : Nat) (name : String) (args : List Value) :
    Run.Shows node v False (callNamed setting n name args) := by
  unfold callNamed
  split
  next f hf => exact (showing quiet hbodies n).call (List.mem_of_find?_eq_some hf) args
  next => exact .stop _

end PatternIR
