/-
  PatternIR.Proofs.Lowering.Expressions
  ─────────────────────────────────────
  **EXPRESSIONS THAT MEAN THE SAME, form by form.**

  `Means` relates an expression with patterns to one with storage.  For each
  form there is a lemma that the whole means the same if the parts do.  Most
  forms tell nothing of their patterns; for `!`, `&&`, `||` and a type test
  what is known of the parts gives what is known of the whole.

    • `Means.decided` — `&&` and `||`;
    • `Means.typeTest` — a test of a temporary, with the value stored;
    • `Means.letStorage` — storage defined around an expression.
-/
import PatternIR.Proofs.Lowering.Meaning

namespace PatternIR

variable {ω : Type}

namespace Lowering

open PatternIR.Flow (groups joined Stands)

/-- An expression with patterns means the same as one with storage. -/
def Means (setting setting' : Setting ω) (P : Place) (e e' : Expr) : Prop :=
  Agreeing setting setting' P e.tests (fun v since => gained setting.program.symbols P.storage e v since)
    (fun n => evalExpr setting n e) fun k => evalExpr setting' k e'

variable {setting setting' : Setting ω} {P P' : Place} {ts : List BindingId}
  {e e' l l' r r' : Expr} {i i' : ExprInfo}

/-! ## §1. Steps that look at a value. -/

namespace Agreeing

variable {α β : Type} {G : Gain α} {G' : Gain β} {c g : Nat → Run ω α}

/-- What the value of a step tells, that of the next one may tell as well. -/
theorem map {f f' : α → Run ω β} (h : Agreeing setting setting' P ts G c g)
    (hf : ∀ a, (∃ b, f a = Pure.pure b ∧ f' a = Pure.pure b
        ∧ ∀ {since fact}, G' b since fact → G a since fact)
      ∨ ∃ fault, f a = Run.fail fault ∧ f' a = Run.fail fault) :
    Agreeing setting setting' P ts G' (fun n => c n >>= f) fun k => g k >>= f' := by
  intro n calls callers callers' K m m' hpoint
  refine .andThen (h n calls hpoint) ?_ fun i _ _ => Same.weaken fun hf => hf
  intro a m₁ m₁' hagree
  rcases hf a with ⟨b, hb, hb', hG⟩ | ⟨fault, hfault, hfault'⟩
  · rw [hb, hb']
    exact .pure (Agree.weaken hagree fun hf => hf.imp id hG)
  · rw [hfault, hfault']
    exact .interrupt (Same.fault hagree fault)

/-- A step without effects on both sides. -/
theorem ofExcept_map {f : α → Except Fault β} (h : Agreeing setting setting' P ts G c g)
    (hG : ∀ {a b since fact}, f a = .ok b → G' b since fact → G a since fact) :
    Agreeing setting setting' P ts G' (fun n => c n >>= fun a => Run.ofExcept (f a))
      fun k => g k >>= fun a => Run.ofExcept (f a) := by
  refine h.map ?_
  intro a
  cases hfa : f a with
  | ok b => exact .inl ⟨b, rfl, rfl, hG hfa⟩
  | error fault => exact .inr ⟨fault, rfl, rfl⟩

end Agreeing

/-- What the outcome of a condition tells. -/
def told (s : Symbols) (ρ : Storage) (e : Expr) : Gain Bool := fun o since => gained s ρ e (.bool o) since

/-- A condition and its outcome. -/
theorem Means.test (h : Means setting setting' P e e') :
    Agreeing setting setting' P e.tests (told setting.program.symbols P.storage e)
      (fun n => evalExpr setting n e >>= Run.truth) fun k => evalExpr setting' k e' >>= Run.truth := by
  refine Agreeing.map h ?_
  intro v
  cases v with
  | bool b => exact .inl ⟨b, rfl, rfl, id⟩
  | _ => exact .inr ⟨_, rfl, rfl⟩

/-- After a condition, either branch where its outcome is told.  If one of the
branches does not complete, the other outcome is certain. -/
theorem Agreeing.branch {α : Type} {c g : Nat → Run ω Bool} {f f' : Bool → Nat → Run ω α}
    {Q : Bool → Place} {only : Option Bool}
    (hc : Agreeing setting setting' P e.tests (told setting.program.symbols P.storage e) c g)
    (ht : ∀ o, Tells setting.program.symbols P e o ts) (hstorage : ∀ o, (Q o).storage = P.storage)
    (hbound : ∀ o, P.bound ≤ (Q o).bound)
    (hscope : ∀ o b, (Q o).scope b → P.scope b ∨ Told setting.program.symbols e o b)
    (hf : ∀ o, Agreeing setting setting' (Q o) ts .nothing (f o) (f' o))
    (honly : ∀ o, only = some o → ∀ n m a m', f (!o) n m ≠ .ok a m') :
    Agreeing setting setting' P (e.tests ++ ts)
      (.outcome setting.program.symbols P.storage (only.map (e, ·)))
      (fun n => c n >>= fun o => f o n) fun k => g k >>= fun o => f' o k := by
  intro n calls callers callers' K m m' hpoint
  have hcond := hc n calls (hpoint.subset fun leaf hleaf => List.mem_append_left _ hleaf)
  refine .bind hcond ?_ fun i _ _ => Same.weaken fun hf => hf
  intro o m₁ m₁' hagree
  have hnext := Point.told (ht o) hpoint hagree (hstorage o) (hbound o) (hscope o)
  refine (hf o n calls hnext).tracked.mono ?_
  rintro r m₂ m₂' ⟨hrun, hpost⟩
  cases r with
  | error i => exact Same.weaken .inl hpost
  | ok a =>
      refine Agree.weaken hpost ?_
      rintro fact (hfact | ⟨c, o', hcertain, hfact⟩)
      · exact .inl (.inl hfact)
      · obtain ⟨o'', ho, heq⟩ := Option.map_eq_some_iff.mp hcertain
        injection heq with hc ho'
        subst hc ho'
        -- either this is the outcome that is certain, or the branch taken does not complete
        by_cases hoo : o = o''
        · subst hoo
          exact .inl (.inr hfact)
        · have hnot : o = !o'' := by cases o <;> cases o'' <;> simp_all
          exact absurd hrun (hnot ▸ honly o'' ho n m₁ a m₂)

/-! ## §2. Forms that tell nothing. -/

namespace Means

/-- Where a condition has no groups, its value tells nothing. -/
theorem of_plain (hplain : ∀ o, groups setting.program.symbols e o = [])
    (h : Agreeing setting setting' P e.tests .nothing (fun n => evalExpr setting n e)
      fun k => evalExpr setting' k e') : Means setting setting' P e e' := by
  refine h.mono ?_
  rintro v since f ⟨o, g, x, -, hg, -⟩
  rw [hplain o] at hg
  exact List.not_mem_nil hg

/-- More storage, and storage further behind. -/
theorem extends_ (h : Means setting setting' P' e e') (hP : P.storage.Extends P'.storage P.bound)
    (hbound : P.bound ≤ P'.bound) (hscope : ∀ b, P'.scope b → P.scope b) :
    Means setting setting' P e e' := by
  refine (Agreeing.extends_ h hP hbound hscope).mono ?_
  rintro v since f ⟨o, g, x, hv, hg, hx, rfl⟩
  exact ⟨o, g, x, hv, hg, fun leaf hleaf => hP.kept (hx leaf hleaf), rfl⟩

/-- A constant is evaluated to its value on both sides. -/
theorem literal {v : Literal} : Means setting setting' P (.literal i v) (.literal i' v) := by
  refine of_plain (fun _ => rfl) ?_
  exact (Agreeing.pure v.value).step rfl (fun _ => rfl) rfl fun _ => rfl

/-- A negation, from its operand. -/
theorem not (h : Means setting setting' P e e') :
    Means setting setting' P (.unary i .not e) (.unary i' .not e') := by
  have hgain : ∀ {v w : Value} {since : Nat} {fact : Fact}, evalUnary .not v = .ok w →
      gained setting.program.symbols P.storage (.unary i .not e) w since fact →
        gained setting.program.symbols P.storage e v since fact := by
    rintro v w since fact hvw ⟨o, g, x, rfl, hg, hx, rfl⟩
    cases v with
    | bool b =>
        injection hvw with hb
        injection hb with hb
        refine ⟨b, g, x, rfl, ?_, hx, rfl⟩
        rw [← hb] at hg
        simpa [groups] using hg
    | _ => exact absurd hvw (by simp [evalUnary])
  unfold Means
  rw [Expr.tests_unary]
  exact (Agreeing.ofExcept_map h hgain).step rfl (fun _ => rfl) rfl fun _ => rfl

/-- A sign, from its operand. -/
theorem neg (h : Means setting setting' P e e') :
    Means setting setting' P (.unary i .neg e) (.unary i' .neg e') := by
  refine of_plain (fun _ => rfl) ?_
  rw [Expr.tests_unary]
  exact (Agreeing.bind h (fun v => .ofExcept (evalUnary .neg v)) (fun _ => id) fun _ => id).step rfl
    (fun _ => rfl) rfl fun _ => rfl

/-- Both operands of an operator that needs both. -/
theorem strict {op : BinOp} (hop : op.decides? = none) (hl : Means setting setting' P l l')
    (hr : Means setting setting' P r r') (hlty : l'.ty = l.ty) (hrty : r'.ty = r.ty)
    (hty : i'.ty = i.ty) : Means setting setting' P (.binary i op l r) (.binary i' op l' r') := by
  refine of_plain (fun _ => Flow.groups_strict hop) ?_
  rw [Expr.tests_binary]
  have hright : ∀ v, Agreeing setting setting' P r.tests .nothing
      (fun n => evalExpr setting n r >>= fun w =>
        Run.ofExcept (evalBinary op v w (l.ty.isReference && r.ty.isReference) i.ty))
      (fun k => evalExpr setting' k r' >>= fun w =>
        Run.ofExcept (evalBinary op v w (l'.ty.isReference && r'.ty.isReference) i'.ty)) := by
    intro v
    rw [hlty, hrty, hty]
    exact .bind hr (fun w => .ofExcept _) (fun _ => id) fun _ => id
  have hboth := Agreeing.bind hl hright (fun leaf => List.mem_append_left r.tests)
    (fun leaf => List.mem_append_right l.tests)
  cases op with
  | and | or => exact absurd hop (by simp [BinOp.decides?])
  | _ => exact hboth.step rfl (fun _ => rfl) rfl fun _ => rfl

/-- A cast goes by the same hierarchy on both sides. -/
theorem cast {target : Ty} (twin : Twin setting setting') (h : Means setting setting' P e e') :
    Means setting setting' P (.cast i target e) (.cast i' target e') := by
  refine of_plain (fun _ => rfl) ?_
  rw [Expr.tests_cast]
  have hcast : ∀ v, Agreeing setting setting' P e.tests .nothing
      (fun _ => (Run.ofExcept (setting.hierarchy.cast target v) : Run ω Value))
      fun _ => Run.ofExcept (setting'.hierarchy.cast target v) := by
    intro v
    rw [twin.hierarchy]
    exact .ofExcept _
  exact (Agreeing.bind h hcast (fun _ => id) fun _ => id).step rfl (fun _ => rfl) rfl fun _ => rfl

/-- So does a test for a type. -/
theorem instanceOf {target : Ty} (twin : Twin setting setting') (h : Means setting setting' P e e') :
    Means setting setting' P (.instanceOf i e target) (.instanceOf i' e' target) := by
  refine of_plain (fun _ => rfl) ?_
  rw [Expr.tests_instanceOf]
  have htest : ∀ v, Agreeing setting setting' P e.tests .nothing
      (fun _ => (pure (.bool (setting.hierarchy.instanceOf v target)) : Run ω Value))
      fun _ => pure (.bool (setting'.hierarchy.instanceOf v target)) := by
    intro v
    rw [twin.hierarchy]
    exact .pure _
  exact (Agreeing.bind h htest (fun _ => id) fun _ => id).step rfl (fun _ => rfl) rfl fun _ => rfl

/-- A variable of the program holds the same on both sides. -/
theorem var {v : VarId} (twin : Twin setting setting')
    (hv : v.index < setting.program.symbols.vars.size) :
    Means setting setting' P (.ident i (.var v)) (.ident i' (.var v)) := by
  refine of_plain (fun _ => rfl) ?_
  exact (Agreeing.readVar twin hv i.id i'.id).step rfl (fun _ => rfl) rfl fun _ => rfl

/-- A reference to a binding in scope. -/
theorem binding {b : BindingId} {x : VarId} (twin : Twin setting setting') (hscope : P.scope b)
    (hb : setting.program.symbols.Has b)
    (hx : ∀ leaf ∈ setting.program.symbols.leaves b, P.storage leaf = some x) :
    Means setting setting' P (.ident i (.binding b)) (.ident i' (.var x)) := by
  refine of_plain (fun _ => rfl) ?_
  exact (Agreeing.readBinding twin hscope hb hx i.id i'.id).step rfl (fun _ => rfl) rfl fun _ => rfl

/-- The value of an assignment, converted and written. -/
theorem assign_of {j j' : ExprInfo} {sym sym' : Sym} (hty : j'.ty = j.ty)
    (h : Means setting setting' P e e')
    (hwrite : ∀ v, Agreeing setting setting' P e.tests .nothing
      (fun _ => (Run.write sym v .assigned : Run ω Unit)) fun _ => Run.write sym' v .assigned) :
    Means setting setting' P (.assign i (.ident j sym) e) (.assign i' (.ident j' sym') e') := by
  have htests : (Expr.assign i (.ident j sym) e).tests = e.tests := by
    simp
  refine of_plain (fun _ => rfl) ?_
  rw [htests]
  have hstore : ∀ v, Agreeing setting setting' P e.tests .nothing
      (fun _ => (Run.ofExcept (coerce j.ty v) >>= fun v => Run.write sym v .assigned >>= fun _ => pure v :
        Run ω Value))
      fun _ => Run.ofExcept (coerce j'.ty v) >>= fun v =>
        Run.write sym' v .assigned >>= fun _ => pure v := by
    intro v
    rw [hty]
    exact .bind (.ofExcept _) (fun w => .bind (hwrite w) (fun _ => .pure w) (fun _ => id) fun _ => id)
      (fun _ => id) fun _ => id
  exact (Agreeing.bind h hstore (fun _ => id) fun _ => id).step rfl (fun _ => rfl) rfl fun _ => rfl

/-- An assignment to anything else is the same fault. -/
theorem assign_fault {t t' v v' : Expr} (ht : ∀ j sym, t ≠ .ident j sym) (ht' : ∀ j sym, t' ≠ .ident j sym) :
    Means setting setting' P (.assign i t v) (.assign i' t' v') := by
  refine of_plain (fun _ => rfl) ?_
  have hfault : ∀ {s : Setting ω} {i : ExprInfo} {t v : Expr}, (∀ j sym, t ≠ .ident j sym) → ∀ n,
      evalExpr s (n + 1) (.assign i t v)
        = Run.fail (.typeError "assignment target is not a variable") := by
    intro s i t v ht n
    cases t with
    | ident j sym => exact absurd rfl (ht j sym)
    | _ => rfl
  exact (Agreeing.interrupt _).step rfl (hfault ht) rfl (hfault ht')

/-- A conditional, each branch with what the condition tells. -/
theorem conditional {c c' y y' : Expr} {Q : Bool → Place} (hc : Means setting setting' P c c')
    (hy : Means setting setting' (Q true) y y') (hn : Means setting setting' (Q false) e e')
    (ht : ∀ o, Tells setting.program.symbols P c o (y.tests ++ e.tests))
    (hstorage : ∀ o, (Q o).storage = P.storage) (hbound : ∀ o, P.bound ≤ (Q o).bound)
    (hscope : ∀ o b, (Q o).scope b → P.scope b ∨ Told setting.program.symbols c o b) :
    Means setting setting' P (.conditional i c y e) (.conditional i' c' y' e') := by
  refine of_plain (fun _ => rfl) ?_
  rw [Expr.tests_conditional]
  have hbranches : ∀ o, Agreeing setting setting' (Q o) (y.tests ++ e.tests) .nothing
      (fun n => if o = true then evalExpr setting n y else evalExpr setting n e)
      (fun k => if o = true then evalExpr setting' k y' else evalExpr setting' k e') := by
    intro o
    cases o with
    | true =>
        simp only [if_true]
        exact hy.forget.subset fun leaf hleaf => List.mem_append_left _ hleaf
    | false =>
        simp only [Bool.false_eq_true, if_false]
        exact hn.forget.subset fun leaf hleaf => List.mem_append_right _ hleaf
  have hbranch := Agreeing.branch hc.test ht hstorage hbound hscope hbranches
    fun _ (h : none = some _) => absurd h (by simp)
  exact hbranch.forget.step rfl (fun n => (bind_assoc _ _ _).symm) rfl fun k => (bind_assoc _ _ _).symm

end Means

/-! ## §3. Lists of expressions. -/

namespace Agreeing

/-- Arguments, in order. -/
theorem args : ∀ {es es' : List Expr}, List.Forall₂ (Means setting setting' P) es es' →
    Agreeing setting setting' P (Expr.gatherAll Expr.ownTests es) .nothing
      (fun n => evalArgs setting n es) fun k => evalArgs setting' k es'
  | [], [], .nil => (Agreeing.pure []).step rfl (fun _ => rfl) rfl fun _ => rfl
  | e :: es, e' :: es', .cons he hes => by
      rw [Expr.gatherAll_cons]
      have hrest := fun v => Agreeing.bind (args hes) (fun vs => .pure (v :: vs)) (fun _ => id)
        (fun _ => id)
      have hall := Agreeing.bind he hrest (fun leaf => List.mem_append_left _)
        (fun leaf => List.mem_append_right _)
      exact hall.step rfl (fun _ => rfl) rfl fun _ => rfl

/-- Expressions for their effects, in order. -/
theorem all : ∀ {es es' : List Expr}, List.Forall₂ (Means setting setting' P) es es' →
    Agreeing setting setting' P (Expr.gatherAll Expr.ownTests es) .nothing
      (fun n => evalAll setting n es) fun k => evalAll setting' k es'
  | [], [], .nil => (Agreeing.pure ()).step rfl (fun _ => rfl) rfl fun _ => rfl
  | e :: es, e' :: es', .cons he hes => by
      rw [Expr.gatherAll_cons]
      have hboth := Agreeing.bind he (fun _ => all hes) (fun leaf => List.mem_append_left _)
        (fun leaf => List.mem_append_right _)
      exact hboth.step rfl (fun _ => rfl) rfl fun _ => rfl

/-- Definitions of variables of the program, in order. -/
theorem defs (twin : Twin setting setting') : ∀ {ds ds' : List (VarId × Expr)},
    List.Forall₂ (fun d d' => d'.1 = d.1 ∧ d.1.index < setting.program.symbols.vars.size
      ∧ Means setting setting' P d.2 d'.2) ds ds' →
    Agreeing setting setting' P (Expr.gatherDefs Expr.ownTests ds) .nothing
      (fun n => evalDefs setting n ds) fun k => evalDefs setting' k ds'
  | [], [], .nil => (Agreeing.pure ()).step rfl (fun _ => rfl) rfl fun _ => rfl
  | (v, e) :: ds, (v', e') :: ds', .cons ⟨hv, hlt, he⟩ hds => by
      obtain rfl : v' = v := hv
      rw [Expr.gatherDefs_cons]
      have hrest := fun w => Agreeing.bind (Agreeing.declare twin hlt w) (fun _ => defs twin hds)
        (fun _ => id) (fun _ => id)
      have hall := Agreeing.bind he hrest (fun leaf => List.mem_append_left _)
        (fun leaf => List.mem_append_right _)
      exact hall.step rfl (fun _ => rfl) rfl fun _ => rfl

/-- What the host and the output are used for does not depend on storage. -/
theorem outside (twin : Twin setting setting') (name : String) (vs : List Value) :
    Agreeing setting setting' P ts .nothing (fun _ => callOutside setting name vs)
      fun _ => callOutside setting' name vs := by
  refine .of_ends ?_
  intro callers callers' K m m' hpoint
  have hvisible := hpoint.agree.visible
  simp only [Machine.visible, Prod.mk.injEq] at hvisible
  obtain ⟨hdepth, hobject, houtput, hhost⟩ := hvisible
  have hprint : ∀ text : String, ∃ r m₁ m₁',
      (Run.print text >>= fun _ => Pure.pure Value.null : Run ω Value) m = Run.ended r m₁
        ∧ (Run.print text >>= fun _ => Pure.pure Value.null : Run ω Value) m' = Run.ended r m₁'
        ∧ Same setting.program.symbols callers callers' K
            (fun a => K.or (Gain.nothing a m.env.clock)) r m₁ m₁' := by
    intro text
    refine ⟨.ok .null, _, _, rfl, rfl, same_nothing ?_ _ _⟩
    refine hpoint.agree.congr rfl rfl ?_
    simp [Machine.visible, hdepth, hobject, houtput, hhost]
  unfold callOutside
  rw [twin.native]
  by_cases hp : name = "print"
  · simp only [Builtin.function?, hp, if_true]
    exact hprint _
  · by_cases hpl : name = "println"
    · simp only [Builtin.function?, hpl, if_true]
      exact hprint _
    · simp only [Builtin.function?, if_neg hp, if_neg hpl]
      cases hf : setting.native? name with
      | none => exact ⟨.error _, m, m', rfl, rfl, hpoint.agree.alike⟩
      | some f =>
          simp only [callNative, ← hhost]
          cases hres : f vs m.host with
          | mk res host =>
              -- the host has been the same on both sides, so its answer and its new state are as well
              have hseen : ({ m with host := host } : Machine ω).visible
                  = ({ m' with host := host } : Machine ω).visible := by
                simp [Machine.visible, hdepth, hobject, houtput]
              have hagree : Agree setting.program.symbols callers callers' K { m with host := host }
                  { m' with host := host } := hpoint.agree.congr rfl rfl hseen
              cases res with
              | ok v => exact ⟨.ok v, _, _, rfl, rfl, same_nothing hagree _ _⟩
              | error j =>
                  refine ⟨.error j, _, _, rfl, rfl, ?_⟩
                  show if j.isJump then _ else _
                  split
                  · exact hagree
                  · exact hagree.alike

end Agreeing

namespace Means

/-- A call on a receiver, from the receiver and the arguments. -/
theorem methodCall {name : String} {es es' : List Expr} (h : Means setting setting' P e e')
    (hes : List.Forall₂ (Means setting setting' P) es es') :
    Means setting setting' P (.methodCall i e name es) (.methodCall i' e' name es') := by
  refine of_plain (fun _ => rfl) ?_
  rw [Expr.tests_methodCall]
  have hcall := fun v => Agreeing.bind (Agreeing.args hes) (fun vs => .ofExcept (Builtin.method v name vs))
    (fun _ => id) (fun _ => id)
  have hall := Agreeing.bind h hcall (fun leaf => List.mem_append_left _)
    (fun leaf => List.mem_append_right _)
  exact hall.step rfl (fun _ => rfl) rfl fun _ => rfl

/-- A call, from its arguments. -/
theorem call {name : String} {es es' : List Expr} (twin : Twin setting setting')
    (hes : List.Forall₂ (Means setting setting' P) es es') :
    Means setting setting' P (.call i name es) (.call i' name es') := by
  refine of_plain (fun _ => rfl) ?_
  rw [Expr.tests_call]
  have hmethod : ∀ vs, Agreeing setting setting' P (Expr.gatherAll Expr.ownTests es) .nothing
      (callFunction setting · name vs) (callFunction setting' · name vs) := by
    intro vs n calls callers callers' K m m' hpoint
    unfold callFunction
    have hname := calls name
    generalize setting.program.method? name = f, setting'.program.method? name = f' at hname ⊢
    cases hname with
    | none => exact Agreeing.outside twin name vs n calls hpoint
    | some hff =>
        refine (hff n (Nat.le_refl n) vs hpoint.agree).mono ?_
        intro r m₁ m₁' hpost
        cases r with
        | ok v => exact Agreeing.same_nothing hpost v _
        | error j => exact Same.weaken (fun hf => hf) hpost
  exact (Agreeing.bind (Agreeing.args hes) hmethod (fun _ => id) fun _ => id).step rfl (fun _ => rfl) rfl
    fun _ => rfl

/-- A let-expression, from its definitions and its body. -/
theorem letIn {ds ds' : List (VarId × Expr)} (twin : Twin setting setting')
    (hds : List.Forall₂ (fun d d' => d'.1 = d.1 ∧ d.1.index < setting.program.symbols.vars.size
      ∧ Means setting setting' P d.2 d'.2) ds ds') (h : Means setting setting' P e e') :
    Means setting setting' P (.letIn i ds e) (.letIn i' ds' e') := by
  refine of_plain (fun _ => rfl) ?_
  rw [Expr.tests_letIn]
  have hall := Agreeing.bind (Agreeing.defs twin hds) (fun _ => h.forget)
    (fun leaf => List.mem_append_left _) (fun leaf => List.mem_append_right _)
  exact hall.step rfl (fun _ => rfl) rfl fun _ => rfl

end Means

/-! ## §4. `&&` and `||`. -/

namespace Fact

variable {m m' : Machine ω} {g h ts : List BindingId} {x : VarId} {since now : Nat}

/-- A group that has matched stays the latest with patterns that have not. -/
theorem Holds.append_still (hg : (stored g x since).Holds m m') (hts : (still ts since).Holds m m')
    (hh : ∀ leaf ∈ h, leaf ∈ ts) : (stored (g ++ h) x since).Holds m m' := by
  obtain ⟨c, ⟨leaf, hmem, hc, hnew⟩, hsince, hd⟩ := hg
  refine ⟨c, ⟨leaf, List.mem_append_left _ hmem, hc, ?_⟩, hsince, hd⟩
  intro other hother hne d hd
  rcases List.mem_append.mp hother with hother | hother
  · exact hnew other hother hne d hd
  · have hle := hts other (hh other hother) d hd
    omega

/-- A group that has matched since is joined with one that has not. -/
theorem Holds.still_append (hg : (stored g x now).Holds m m') (hts : (still ts now).Holds m m')
    (hh : ∀ leaf ∈ h, leaf ∈ ts) : (stored (h ++ g) x now).Holds m m' := by
  obtain ⟨c, ⟨leaf, hmem, hc, hnew⟩, hsince, hd⟩ := hg
  refine ⟨c, ⟨leaf, List.mem_append_right _ hmem, hc, ?_⟩, hsince, hd⟩
  intro other hother hne d hd
  rcases List.mem_append.mp hother with hother | hother
  · have hle := hts other (hh other hother) d hd
    omega
  · exact hnew other hother hne d hd

/-- What is known since some time is known since an earlier one. -/
theorem Holds.earlier (hg : (stored g x now).Holds m m') (h : since ≤ now) :
    (stored g x since).Holds m m' := by
  obtain ⟨c, hc, hsince, hd⟩ := hg
  exact ⟨c, hc, by omega, hd⟩

end Fact

/-- What `&&` and `||` do from the outcome of their left operand on: the outcome
`d` decides, after the other one the right operand does. -/
def afterLeft (setting : Setting ω) (d : Bool) (r : Expr) (o : Bool) (n : Nat) : Run ω Value :=
  if o = d then pure (.bool d)
  else (evalExpr setting n r >>= Run.truth) >>= fun b => pure (.bool b)

/-- The outcome that decides. -/
theorem afterLeft_self (setting : Setting ω) (d : Bool) (r : Expr) :
    afterLeft setting d r d = fun _ => pure (.bool d) :=
  funext fun _ => if_pos rfl

/-- The outcome that does not. -/
theorem afterLeft_not (setting : Setting ω) (d : Bool) (r : Expr) :
    afterLeft setting d r (!d)
      = fun n => (evalExpr setting n r >>= Run.truth) >>= fun b => pure (.bool b) :=
  funext fun _ => if_neg (by cases d <;> simp)

/-- Either operator evaluates its left operand, and goes on from the outcome. -/
theorem evalExpr_decides {op : BinOp} {d : Bool} (hop : op.decides? = some d) (setting : Setting ω)
    (i : ExprInfo) (l r : Expr) (n : Nat) :
    evalExpr setting (n + 1) (.binary i op l r)
      = (evalExpr setting n l >>= Run.truth) >>= fun o => afterLeft setting d r o n := by
  rw [bind_assoc]
  cases op with
  | and =>
      injection hop with hd
      subst hd
      refine congrArg _ (funext fun v => congrArg _ (funext fun o => ?_))
      cases o <;> simp [afterLeft]
  | or =>
      injection hop with hd
      subst hd
      refine congrArg _ (funext fun v => congrArg _ (funext fun o => ?_))
      cases o <;> simp [afterLeft]
  | _ => exact absurd hop (by simp [BinOp.decides?])

section

variable {s : Symbols} {callers callers' : List Activation} {K : Facts} {ρ : Storage} {m m' : Machine ω}
  {op : BinOp} {d : Bool} {since now : Nat}

/-- Decided at once: what the left operand has matched is the latest of both, as
no pattern of the right one has matched. -/
theorem Agree.decided_left (hop : op.decides? = some d)
    (h : Agree s callers callers' (K.or (gained s ρ l (.bool d) since)) m m')
    (hstill : (Fact.still r.tests since).Holds m m') :
    Agree s callers callers' (K.or (gained s ρ (.binary i op l r) (.bool d) since)) m m' := by
  refine h.of_facts ?_
  rintro f (hf | hf)
  · exact h.facts (.inl hf)
  · obtain ⟨g, x, hg, hx, rfl⟩ := gained_bool.mp hf
    rw [Flow.groups_decided hop] at hg
    obtain ⟨a, ha, b, hb, rfl⟩ := Flow.mem_joined.mp hg
    have hstored := h.facts (.inr (gained_bool.mpr ⟨a, x, ha, fun leaf h => hx leaf (by simp [h]), rfl⟩))
    exact hstored.append_still hstill fun leaf => Flow.mem_tests (List.mem_of_find?_eq_some hb)

/-- Decided by the right operand.  What it has matched is the latest of both, if
the patterns of the left one have stayed as they were; what only the left one
tells is still known. -/
theorem Agree.decided_right (hop : op.decides? = some d) {b : Bool} (hle : since ≤ now)
    (h : Agree s callers callers'
      ((K.or (gained s ρ l (.bool !d) since)).or (gained s ρ r (.bool b) now)) m m')
    (hstill : ∀ {a}, a ∈ groups s l d → (Fact.still l.tests now).Holds m m') :
    Agree s callers callers' (K.or (gained s ρ (.binary i op l r) (.bool b) since)) m m' := by
  have hright : ∀ {g : List BindingId} {x : VarId}, g ∈ groups s r b → ρ.Stores g x →
      (Fact.stored g x now).Holds m m' :=
    fun hg hx => h.facts (.inr (gained_bool.mpr ⟨_, _, hg, hx, rfl⟩))
  refine h.of_facts ?_
  rintro f (hf | hf)
  · exact h.facts (.inl (.inl hf))
  obtain ⟨g, x, hg, hx, rfl⟩ := gained_bool.mp hf
  by_cases hb : b = d
  · subst hb
    rw [Flow.groups_decided hop] at hg
    obtain ⟨a, ha, c, hc, rfl⟩ := Flow.mem_joined.mp hg
    have hstored := hright (List.mem_of_find?_eq_some hc) fun leaf h => hx leaf (by simp [h])
    exact (hstored.still_append (hstill ha) fun leaf => Flow.mem_tests ha).earlier hle
  · have hb' : b = !d := by cases b <;> cases d <;> simp_all
    subst hb'
    rw [Flow.groups_undecided hop] at hg
    rcases List.mem_append.mp hg with hg | hg
    · exact h.facts (.inl (.inr (gained_bool.mpr ⟨g, x, hg, hx, rfl⟩)))
    · exact (hright hg hx).earlier hle

/-- In front of the right operand.  If the left one could have decided, it has
told nothing, and it may be noted that its patterns stay as they are. -/
theorem Point.beside {Q : Place} {ts : List BindingId}
    (h : Point s Q callers callers' (K.or (gained s ρ l (.bool !d) since)) ts m m')
    (hcross : ∀ leaf ∈ l.tests, leaf ∉ ts)
    (hK : ∀ {f : Fact} {leaf : BindingId}, K f → leaf ∈ f.group → leaf ∉ l.tests) :
    ∃ K' : Facts, Point s Q callers callers' K' ts m m'
      ∧ (∀ {f : Fact}, (K.or (gained s ρ l (.bool !d) since)) f → K' f)
      ∧ ∀ {a}, a ∈ groups s l d → K' (.still l.tests m.env.clock) := by
  by_cases hempty : groups s l (!d) = []
  · refine ⟨_, h.insert (f := .still l.tests m.env.clock) rfl ?_ hcross (h.agree.still l.tests),
      fun hf => .inl hf, fun _ => .inr rfl⟩
    rintro f leaf (hf | hf) hleaf
    · exact hK hf hleaf
    · obtain ⟨g, x, hg, -⟩ := gained_bool.mp hf
      rw [hempty] at hg
      exact absurd hg List.not_mem_nil
  · refine ⟨_, h, id, ?_⟩
    intro a ha
    obtain ⟨g, hg⟩ := List.exists_mem_of_ne_nil _ hempty
    exact absurd (Flow.outcome_unique ha hg) (by cases d <;> simp)

/-- In front of the left operand.  While that is evaluated, no pattern of the
right one matches. -/
theorem Point.ahead {P : Place} (h : Point s P callers callers' K (l.tests ++ r.tests) m m')
    (hcross : ∀ leaf ∈ l.tests, leaf ∉ r.tests) :
    Point s P callers callers' ((K.insert (.after m.env.clock)).insert (.still r.tests m.env.clock))
      l.tests m m' := by
  refine (h.insertAfter.subset fun leaf => List.mem_append_left _).insert rfl ?_ ?_
    (h.agree.still r.tests)
  · rintro f leaf (hf | rfl) hleaf hin
    · exact h.ready.tests hf hleaf (List.mem_append_right _ hin)
    · exact absurd hleaf List.not_mem_nil
  · intro leaf hr hl
    exact hcross leaf hl hr

end

/-- **`&&` and `||`**, both operands of which come out as the evaluation takes
them.  The outcome `d` of the left operand decides at once. -/
theorem Means.decided {op : BinOp} {d : Bool} {Q : Place} (hop : op.decides? = some d)
    (hcross : ∀ leaf ∈ l.tests, leaf ∉ r.tests)
    (ht : Tells setting.program.symbols P l (!d) r.tests)
    (hl : Means setting setting' P l l') (hr : Means setting setting' Q r r')
    (hstorage : Q.storage = P.storage) (hbound : P.bound ≤ Q.bound)
    (hscope : ∀ b, Q.scope b → P.scope b ∨ Told setting.program.symbols l (!d) b) :
    Means setting setting' P (.binary i op l r) (.binary i' op l' r') := by
  unfold Means
  rw [Expr.tests_binary]
  refine Agreeing.step (c := fun n => evalExpr setting n (.binary i op l r)) rfl
    (evalExpr_decides hop setting i l r) rfl (evalExpr_decides hop setting' i' l' r') ?_
  intro n calls callers callers' K m m' hpoint
  refine .bind (hl.test n calls (hpoint.ahead hcross)) ?_ fun j _ _ => Same.weaken fun hf => .inl (.inl hf)
  intro o m₁ m₁' hsame
  have h₁ : Agree setting.program.symbols callers callers'
      (((K.insert (.after m.env.clock)).insert (.still r.tests m.env.clock)).or
        (told setting.program.symbols P.storage l o m.env.clock)) m₁ m₁' := hsame
  by_cases ho : o = d
  · subst ho
    have hknown : Agree setting.program.symbols callers callers'
        (K.or (gained setting.program.symbols P.storage l (.bool o) m.env.clock)) m₁ m₁' :=
      h₁.weaken fun hf => hf.imp (fun hf => .inl (.inl hf)) id
    have hend := Agree.decided_left (i := i) hop hknown (h₁.facts (.inl (.inr rfl)))
    rw [afterLeft_self, afterLeft_self]
    exact .pure hend
  · have ho' : o = !d := by cases o <;> cases d <;> simp_all
    subst ho'
    rw [afterLeft_not, afterLeft_not]
    have hafter : m.env.clock ≤ m₁.env.clock := h₁.facts (f := .after m.env.clock) (.inl (.inl (.inr rfl)))
    have hknown : Agree setting.program.symbols callers callers'
        (K.or (gained setting.program.symbols P.storage l (.bool !d) m.env.clock)) m₁ m₁' :=
      h₁.weaken fun hf => hf.imp (fun hf => .inl (.inl hf)) id
    -- what is known of the left operand is carried along while the right one is evaluated
    obtain ⟨K₂, hpoint₂, hsub, hstill⟩ := (Point.told ht hpoint hknown hstorage hbound hscope).beside
      hcross fun hf hleaf hin => hpoint.ready.tests hf hleaf (List.mem_append_left _ hin)
    refine .andThen (hr.test n calls hpoint₂) ?_ fun j _ _ => Same.weaken fun hf => hsub (.inl hf)
    intro b m₂ m₂' hsame₂
    have h₂ : Agree setting.program.symbols callers callers'
        (K₂.or (gained setting.program.symbols P.storage r (.bool b) m₁.env.clock)) m₂ m₂' := by
      rw [← hstorage]
      exact hsame₂
    have hend := Agree.decided_right (i := i) hop hafter (h₂.weaken fun hf => hf.imp hsub id)
      fun ha => h₂.facts (.inl (hstill ha))
    exact .pure hend

end Lowering

end PatternIR
