/-
  PatternIR.Proofs.Printer.Unambiguous
  ────────────────────────────────────
  **WHICH EXPRESSIONS ARE PRINTED ALIKE.**

  Operands stand in parentheses when they are compound, and negations and casts
  never are.  A method call behind one is read as a part of its operand:

      (!x).f()       ↦   !x#0.f()        ↤   !(x.f())
      ((T) x).f()    ↦   (T)x#0.f()      ↤   (T) (x.f())

  `Expr.settled` is the expression that is read.  Nothing else is lost of a plain
  expression, ids, types and positions apart.

    • `expr_settled` — settling does not change the text;
    • `settled_isBare`, `settled_of_isBare` — what is settled has no such receiver
      any more, and what had none is settled;
    • `expr_eq_iff_settled` — equal texts are those of equal settled expressions;
    • `expr_receiver_prefixed` — texts of two expressions.
-/
import PatternIR.Proofs.Printer.Reading

namespace PatternIR

/-! ## §1. Settled expressions. -/

namespace Expr

/-- A method call of what stands behind the operators in front of a receiver. -/
def select (i : ExprInfo) (m : String) (args : List Expr) : Expr → Expr
  | .unary j op e => .unary j op (select i m args e)
  | .cast j t e => .cast j t (select i m args e)
  | r => .methodCall i r m args

mutual
/-- An expression in which the operators in front of receivers stand in front of
the method calls instead. -/
def settled : Expr → Expr
  | .literal i v => .literal i v
  | .ident i sym => .ident i sym
  | .unary i op e => .unary i op e.settled
  | .binary i op l r => .binary i op l.settled r.settled
  | .conditional i c y n => .conditional i c.settled y.settled n.settled
  | .assign i t v => .assign i t.settled v.settled
  | .cast i t e => .cast i t e.settled
  | .instanceOf i e t => .instanceOf i e.settled t
  | .typeTest i e p => .typeTest i e.settled p
  | .call i name args => .call i name (settleAll args)
  | .methodCall i r m args => select i m (settleAll args) r.settled
  | .letIn i ds body => .letIn i (settleDefs ds) body.settled
/-- The same of several expressions. -/
def settleAll : List Expr → List Expr
  | [] => []
  | e :: es => e.settled :: settleAll es
/-- The same of the values of definitions. -/
def settleDefs : List (VarId × Expr) → List (VarId × Expr)
  | [] => []
  | (var, e) :: ds => (var, e.settled) :: settleDefs ds
end

variable {i : ExprInfo} {m : String} {args : List Expr}

/-- A receiver that is no prefix is selected from as it is. -/
theorem select_of_not_prefixed {r : Expr} (h : r.isPrefixed = false) : select i m args r = .methodCall i r m args := by
  cases r <;> first | rfl | exact Bool.noConfusion h

theorem isPlain_select (hm : Text.isName m = true) (hargs : arePlain args = true) {r : Expr}
    (h : r.isPlain = true) : (select i m args r).isPlain = true := by
  fun_induction select i m args r with
  | case1 _ _ e ih | case2 _ _ e ih =>
      rw [isPlain, Bool.and_eq_true] at h
      rw [isPlain, ih h.2, h.1]
      rfl
  | case3 r =>
      rw [isPlain, h, hm, hargs]
      rfl

theorem isBare_select (hargs : areBare args = true) {r : Expr} (h : r.isBare = true) :
    (select i m args r).isBare = true := by
  fun_induction select i m args r with
  | case1 _ _ e ih | case2 _ _ e ih => exact ih h
  | case3 r hunary hcast =>
      have hprefixed : r.isPrefixed = false := by
        unfold isPrefixed
        split
        · exact absurd rfl (hunary _ _ _)
        · exact absurd rfl (hcast _ _ _)
        · rfl
      rw [isBare, h, hargs, hprefixed]
      rfl

mutual
/-- Settling keeps an expression plain. -/
theorem settled_isPlain : ∀ {e : Expr}, e.isPlain = true → e.settled.isPlain = true
  | .literal _ _, h | .typeTest _ _ _, h => Bool.noConfusion h
  | .ident _ _, h => h
  | .unary _ _ e, h | .cast _ _ e, h | .instanceOf _ e _, h => by
      rw [isPlain, Bool.and_eq_true] at h
      rw [settled, isPlain, settled_isPlain h.2, h.1]
      rfl
  | .binary _ _ l r, h => by
      rw [isPlain, Bool.and_eq_true] at h
      rw [settled, isPlain, settled_isPlain h.1, settled_isPlain h.2]
      rfl
  | .conditional _ c y n, h => by
      rw [isPlain, Bool.and_eq_true, Bool.and_eq_true] at h
      rw [settled, isPlain, settled_isPlain h.1.1, settled_isPlain h.1.2, settled_isPlain h.2]
      rfl
  | .assign _ t v, h => by
      rw [isPlain, Bool.and_eq_true] at h
      obtain ⟨j, x, rfl⟩ := exists_of_isVar h.1
      rw [settled, isPlain, settled_isPlain h.2]
      rfl
  | .call _ _ es, h => by
      rw [isPlain, Bool.and_eq_true] at h
      rw [settled, isPlain, settleAll_arePlain h.2, h.1]
      rfl
  | .methodCall _ r _ es, h => by
      rw [isPlain, Bool.and_eq_true, Bool.and_eq_true] at h
      exact isPlain_select h.1.2 (settleAll_arePlain h.2) (settled_isPlain h.1.1)
  | .letIn _ ds body, h => by
      rw [isPlain, Bool.and_eq_true] at h
      rw [settled, isPlain, settleDefs_definePlain h.1, settled_isPlain h.2]
      rfl
theorem settleAll_arePlain : ∀ {es : List Expr}, arePlain es = true → arePlain (settleAll es) = true
  | [], _ => rfl
  | e :: es, h => by
      rw [arePlain, Bool.and_eq_true] at h
      rw [settleAll, arePlain, settled_isPlain h.1, settleAll_arePlain h.2]
      rfl
theorem settleDefs_definePlain : ∀ {ds : List (VarId × Expr)}, definePlain ds = true → definePlain (settleDefs ds) = true
  | [], _ => rfl
  | (_, e) :: ds, h => by
      rw [definePlain, Bool.and_eq_true] at h
      rw [settleDefs, definePlain, settled_isPlain h.1, settleDefs_definePlain h.2]
      rfl
end

mutual
/-- No receiver of a settled expression is a negation or a cast. -/
theorem settled_isBare : ∀ (e : Expr), e.settled.isBare = true
  | .literal _ _ | .ident _ _ => rfl
  | .unary _ _ e | .cast _ _ e | .instanceOf _ e _ | .typeTest _ e _ => settled_isBare e
  | .binary _ _ l r | .assign _ l r => by simp [settled, isBare, settled_isBare l, settled_isBare r]
  | .conditional _ c y n => by simp [settled, isBare, settled_isBare c, settled_isBare y, settled_isBare n]
  | .call _ _ es => settleAll_areBare es
  | .methodCall _ r _ es => isBare_select (settleAll_areBare es) (settled_isBare r)
  | .letIn _ ds body => by simp [settled, isBare, settleDefs_defineBare ds, settled_isBare body]
/-- Settled expressions are bare. -/
theorem settleAll_areBare (es : List Expr) : areBare (settleAll es) = true := by
  cases es with
  | nil => rfl
  | cons e es => simp [settleAll, areBare, settled_isBare e, settleAll_areBare es]
theorem settleDefs_defineBare (ds : List (VarId × Expr)) : defineBare (settleDefs ds) = true := by
  cases ds with
  | nil => rfl
  | cons d ds =>
      obtain ⟨_, e⟩ := d
      simp [settleDefs, defineBare, settled_isBare e, settleDefs_defineBare ds]
end

mutual
/-- An expression without such receivers is settled. -/
theorem settled_of_isBare : ∀ {e : Expr}, e.isBare = true → e.settled = e
  | .literal _ _, _ | .ident _ _, _ => rfl
  | .unary _ _ e, h | .cast _ _ e, h | .instanceOf _ e _, h | .typeTest _ e _, h => by
      rw [isBare] at h
      rw [settled, settled_of_isBare h]
  | .binary _ _ l r, h | .assign _ l r, h => by
      rw [isBare, Bool.and_eq_true] at h
      rw [settled, settled_of_isBare h.1, settled_of_isBare h.2]
  | .conditional _ c y n, h => by
      rw [isBare, Bool.and_eq_true, Bool.and_eq_true] at h
      rw [settled, settled_of_isBare h.1.1, settled_of_isBare h.1.2, settled_of_isBare h.2]
  | .call _ _ es, h => by
      rw [settled, settleAll_of_areBare h]
  | .methodCall _ r _ es, h => by
      rw [isBare, Bool.and_eq_true, Bool.and_eq_true, Bool.not_eq_true'] at h
      rw [settled, settled_of_isBare h.1.2, settleAll_of_areBare h.2, select_of_not_prefixed h.1.1]
  | .letIn _ ds body, h => by
      rw [isBare, Bool.and_eq_true] at h
      rw [settled, settleDefs_of_defineBare h.1, settled_of_isBare h.2]
/-- Bare expressions are settled already. -/
theorem settleAll_of_areBare : ∀ {es : List Expr}, areBare es = true → settleAll es = es
  | [], _ => rfl
  | e :: es, h => by
      rw [areBare, Bool.and_eq_true] at h
      rw [settleAll, settled_of_isBare h.1, settleAll_of_areBare h.2]
theorem settleDefs_of_defineBare : ∀ {ds : List (VarId × Expr)}, defineBare ds = true → settleDefs ds = ds
  | [], _ => rfl
  | (_, e) :: ds, h => by
      rw [defineBare, Bool.and_eq_true] at h
      rw [settleDefs, settled_of_isBare h.1, settleDefs_of_defineBare h.2]
end

end Expr

/-! ## §2. Texts that stay the same. -/

namespace Printer

open PatternIR.Expr (select settleAll settleDefs skeletons skeletonDefs)

section

variable {cx : Context} {i : ExprInfo} {m : String} {args : List Expr}

theorem isCompound_select (r : Expr) : isCompound (select i m args r) = false := by
  cases r <;> rfl

/-- Settling does not change which operands need parentheses. -/
theorem isCompound_settled (e : Expr) : isCompound e.settled = isCompound e := by
  cases e with
  | methodCall => exact isCompound_select _
  | _ => rfl

theorem isCompound_skeleton (e : Expr) : isCompound e.skeleton = isCompound e := by
  cases e <;> rfl

/-- The operators in front of a receiver look like operators in front of the call. -/
theorem expr_select (r : Expr) :
    expr cx (select i m args r) = operand r (expr cx r) ++ "." ++ m ++ "(" ++ commas (exprs cx args) ++ ")" := by
  fun_induction select i m args r with
  | case1 _ op e ih =>
      rw [expr, operand, isCompound_select, if_neg Bool.false_ne_true, ih]
      simp [operand, isCompound, expr, String.append_assoc]
  | case2 _ t e ih =>
      rw [expr, operand, isCompound_select, if_neg Bool.false_ne_true, ih]
      simp [operand, isCompound, expr, String.append_assoc]
  | case3 r => rw [expr]

theorem operand_settled {e : Expr} (text : String) : operand e.settled text = operand e text := by
  rw [operand, operand, isCompound_settled]

theorem operand_skeleton {e : Expr} (text : String) : operand e.skeleton text = operand e text := by
  rw [operand, operand, isCompound_skeleton]

mutual
/-- **A settled expression is printed alike.** -/
theorem expr_settled : ∀ (e : Expr), expr cx e.settled = expr cx e
  | .literal _ _ | .ident _ _ => rfl
  | .unary _ _ e | .cast _ _ e | .instanceOf _ e _ | .typeTest _ e _ => by
      rw [Expr.settled, expr, expr, operand_settled, expr_settled e]
  | .binary _ _ l r => by
      rw [Expr.settled, expr, expr, operand_settled, operand_settled, expr_settled l, expr_settled r]
  | .conditional _ c y n => by
      rw [Expr.settled, expr, expr, operand_settled, operand_settled, operand_settled, expr_settled c,
        expr_settled y, expr_settled n]
  | .assign _ t v => by rw [Expr.settled, expr, expr, expr_settled t, expr_settled v]
  | .call _ _ es => by rw [Expr.settled, expr, expr, exprs_settleAll es]
  | .methodCall _ r _ es => by
      rw [Expr.settled, expr_select, expr, operand_settled, expr_settled r, exprs_settleAll es]
  | .letIn _ ds body => by rw [Expr.settled, expr, expr, letDefs_settleDefs ds, expr_settled body]
theorem exprs_settleAll (es : List Expr) : exprs cx (settleAll es) = exprs cx es := by
  cases es with
  | nil => rfl
  | cons e es => rw [settleAll, exprs, exprs, expr_settled e, exprs_settleAll es]
theorem letDefs_settleDefs (ds : List (VarId × Expr)) : letDefs cx (settleDefs ds) = letDefs cx ds := by
  cases ds with
  | nil => rfl
  | cons d ds =>
      obtain ⟨_, e⟩ := d
      rw [settleDefs, letDefs, letDefs, expr_settled e, letDefs_settleDefs ds]
end

mutual
/-- So is a skeleton. -/
theorem expr_skeleton : ∀ (e : Expr), expr cx e.skeleton = expr cx e
  | .literal _ _ | .ident _ _ => rfl
  | .unary _ _ e | .cast _ _ e | .instanceOf _ e _ | .typeTest _ e _ => by
      rw [Expr.skeleton, expr, expr, operand_skeleton, expr_skeleton e]
  | .binary _ _ l r => by
      rw [Expr.skeleton, expr, expr, operand_skeleton, operand_skeleton, expr_skeleton l, expr_skeleton r]
  | .conditional _ c y n => by
      rw [Expr.skeleton, expr, expr, operand_skeleton, operand_skeleton, operand_skeleton, expr_skeleton c,
        expr_skeleton y, expr_skeleton n]
  | .assign _ t v => by rw [Expr.skeleton, expr, expr, expr_skeleton t, expr_skeleton v]
  | .call _ _ es => by rw [Expr.skeleton, expr, expr, exprs_skeletons es]
  | .methodCall _ r _ es => by
      rw [Expr.skeleton, expr, expr, operand_skeleton, expr_skeleton r, exprs_skeletons es]
  | .letIn _ ds body => by rw [Expr.skeleton, expr, expr, letDefs_skeletonDefs ds, expr_skeleton body]
theorem exprs_skeletons (es : List Expr) : exprs cx (skeletons es) = exprs cx es := by
  cases es with
  | nil => rfl
  | cons e es => rw [skeletons, exprs, exprs, expr_skeleton e, exprs_skeletons es]
theorem letDefs_skeletonDefs (ds : List (VarId × Expr)) : letDefs cx (skeletonDefs ds) = letDefs cx ds := by
  cases ds with
  | nil => rfl
  | cons d ds =>
      obtain ⟨_, e⟩ := d
      rw [skeletonDefs, letDefs, letDefs, expr_skeleton e, letDefs_skeletonDefs ds]
end

end

/-! ## §3. Equal texts. -/

section

variable {cx : Context} {e e' : Expr}

/-- Plain expressions without such receivers are determined by their texts. -/
theorem expr_eq_iff_of_isBare (hcx : cx.Spelled) (hp : e.isPlain = true) (hp' : e'.isPlain = true)
    (hb : e.isBare = true) (hb' : e'.isBare = true) : expr cx e = expr cx e' ↔ e.skeleton = e'.skeleton := by
  refine ⟨fun htext => ?_, fun hskeleton => ?_⟩
  · obtain ⟨n, hn⟩ := ((readable hcx hp hb).whole [] .nil).and ((readable hcx hp' hb').whole [] .nil)
    obtain ⟨hread, hread'⟩ := hn n (Nat.le_refl n)
    rw [chars, htext] at hread
    rw [chars, hread] at hread'
    exact (Prod.mk.inj (Option.some.inj hread')).1
  · rw [← expr_skeleton e, hskeleton, expr_skeleton e']

/-- **Equal texts**: plain expressions have the same text just if they are the same
when settled, ids, types and positions apart.  Where no receiver is a negation or
a cast, they are the same as they stand. -/
theorem expr_eq_iff_settled (hcx : cx.Spelled) (hp : e.isPlain = true) (hp' : e'.isPlain = true) :
    (expr cx e = expr cx e' ↔ e.settled.skeleton = e'.settled.skeleton)
      ∧ (e.isBare = true → e'.isBare = true → (expr cx e = expr cx e' ↔ e.skeleton = e'.skeleton)) := by
  refine ⟨?_, fun hb hb' => expr_eq_iff_of_isBare hcx hp hp' hb hb'⟩
  rw [← expr_settled e, ← expr_settled e']
  exact expr_eq_iff_of_isBare hcx (Expr.settled_isPlain hp) (Expr.settled_isPlain hp') (Expr.settled_isBare e)
    (Expr.settled_isBare e')

end

/-- One variable, printed with its number. -/
def oneFlag : Context := ⟨⟨#[⟨⟨0⟩, "x", .boolean, none, false⟩], #[]⟩, ⟨1, true⟩⟩

/-- The flag has a name that can be read back. -/
theorem oneFlag_spelled : oneFlag.Spelled := ⟨rfl, by decide⟩

/-- The variable of `oneFlag`, in a node without attributes. -/
def flag : Expr := .ident Expr.noInfo (.var ⟨0⟩)

/-- A disjunction of a conjunction has another text than a conjunction of a disjunction. -/
theorem expr_eq_iff_settled_grouped : oneFlag.Spelled
    ∧ (Expr.binary Expr.noInfo .or (.binary Expr.noInfo .and flag flag) flag).isPlain = true
    ∧ (Expr.binary Expr.noInfo .and flag (.binary Expr.noInfo .or flag flag)).isPlain = true
    ∧ expr oneFlag (.binary Expr.noInfo .or (.binary Expr.noInfo .and flag flag) flag)
        ≠ expr oneFlag (.binary Expr.noInfo .and flag (.binary Expr.noInfo .or flag flag)) := by
  refine ⟨oneFlag_spelled, rfl, rfl, fun h => ?_⟩
  have hsame := ((expr_eq_iff_settled oneFlag_spelled rfl rfl).2 rfl rfl).mp h
  exact nomatch hsame

/-- `(!x).equals()`, a call of a negation. -/
def callOfNegation : Expr := .methodCall Expr.noInfo (.unary Expr.noInfo .not flag) "equals" []

/-- `!(x.equals())`, a negation of a call. -/
def negationOfCall : Expr := .unary Expr.noInfo .not (.methodCall Expr.noInfo flag "equals" [])

/-- `((String) x).length()`, a call of a cast. -/
def callOfCast : Expr := .methodCall Expr.noInfo (.cast Expr.noInfo .string flag) "length" []

/-- `(String) (x.length())`, a cast of a call. -/
def castOfCall : Expr := .cast Expr.noInfo .string (.methodCall Expr.noInfo flag "length" [])

/-- **An operator in front of a receiver** is printed as it is in front of the call. -/
theorem expr_receiver_prefixed : oneFlag.Spelled
    ∧ callOfNegation.isPlain = true ∧ negationOfCall.isPlain = true
    ∧ callOfNegation.skeleton ≠ negationOfCall.skeleton
    ∧ expr oneFlag callOfNegation = "!x#0.equals()" ∧ expr oneFlag negationOfCall = "!x#0.equals()"
    ∧ callOfCast.isPlain = true ∧ castOfCall.isPlain = true
    ∧ callOfCast.skeleton ≠ castOfCall.skeleton
    ∧ expr oneFlag callOfCast = "(String)x#0.length()" ∧ expr oneFlag castOfCall = "(String)x#0.length()" :=
  ⟨oneFlag_spelled, rfl, rfl, nofun, by decide, by decide, rfl, rfl, nofun, by decide, by decide⟩

end Printer

end PatternIR
