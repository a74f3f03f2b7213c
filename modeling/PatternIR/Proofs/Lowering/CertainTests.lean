/-
  PatternIR.Proofs.Lowering.CertainTests
  ──────────────────────────────────────
  **A TEST THAT IS LEFT OUT IS ONE THAT EVERY VALUE PASSES.**

  Lowering writes `true` for a type test whose operand has a subtype of the type
  that is tested for.  A value is tested by its class, which is below the type of
  the operand without its arguments; the two facts meet because subtyping is
  transitive and erasure keeps it:

      class of v  <:  erased operand type  <:  erased, boxed type of the pattern

    • `Expr.begunTrue` — the lowered test begins with `true`;
    • `certain_test_justified` — subtyping is a preorder that erasure keeps, and
      what follows for tests that lowering leaves out.
-/
import PatternIR.Proofs.Lowering.ReferenceTests

namespace PatternIR

/-- Whether a let-expression evaluates to the literal `true`, or to a conjunction
that begins with it. -/
def Expr.begunTrue : Expr → Bool
  | .letIn _ _ (.literal _ (.bool b)) => b
  | .letIn _ _ (.binary _ .and (.literal _ (.bool b)) _) => b
  | _ => false

namespace Lowering

section

variable {rules : Rules} {p q : Pass} {e lowered : Expr} {i : ExprInfo} {pattern : BindingPattern}
  {symbol : BindingSymbol}

/-- A lowered test begins with `true` if the match is certain. -/
theorem IsTest.begunTrue {span : Span} {isCertain : Bool} {temp : VarId} {target ty : Ty} {id : NodeId}
    {storage : Option (VarId × Ty)} {test : Expr} {size : Nat}
    (h : IsTest span isCertain temp target ty id storage test size) (defs : List (VarId × Expr)) :
    (Expr.letIn i defs test).begunTrue = isCertain := by
  cases h with
  | plain => cases isCertain <;> rfl
  | stored var varTy => cases isCertain <;> rfl

/-- A type test that has been lowered, as the state in which it ends tells of it. -/
theorem lowerExpr_typeTest_begunTrue (hlower : lowerExpr rules (.typeTest i e pattern) p = .ok lowered q)
    (hsymbol : q.symbols.binding? pattern.binding = some symbol) :
    lowered.begunTrue = certain rules e.ty pattern symbol.ty.erasure.boxed := by
  obtain ⟨operand, p₁, -, htest⟩ := bind_eq_ok.mp hlower
  obtain ⟨found, test, size, hfound, his, -, rfl, rfl⟩ := lowerTest_eq_ok htest
  -- the temporary of the test is a variable, and the bindings are those it began with
  have hkept : p₁.symbols.binding? pattern.binding = some symbol := hsymbol
  rw [hfound] at hkept
  injection hkept with hkept
  subst hkept
  exact his.begunTrue _

/-- **Subtyping is a preorder that erasure keeps, so a test may be left out.**
Where no supertypes are recorded for `Object`, every type that does not come down
to `void` is below itself, subtyping is transitive, and the types without their
arguments are in the same order.  A test is lowered to `true` just if the pattern
is total, the operand is primitive, or the type of the operand is below that of
the pattern; and in this last case all that is of a class below the type of the
operand is an instance of the type of the pattern. -/
theorem certain_test_justified (hroot : rules.hierarchy.supers "Object" = []) :
    (∀ t, rules.hierarchy.isSubtype t t = true ↔ t.innermost ≠ .void)
      ∧ (∀ s t u, rules.hierarchy.isSubtype s t = true → rules.hierarchy.isSubtype t u = true →
          rules.hierarchy.isSubtype s u = true)
      ∧ (∀ s t, rules.hierarchy.isSubtype s t = true → rules.hierarchy.isSubtype s.erasure t.erasure = true)
      ∧ ∀ (i : ExprInfo) (e : Expr) (pattern : BindingPattern) (p q : Pass) (lowered : Expr)
          (symbol : BindingSymbol), lowerExpr rules (.typeTest i e pattern) p = .ok lowered q →
          q.symbols.binding? pattern.binding = some symbol →
          lowered.begunTrue = (pattern.declared.isNone || e.ty.isPrimitive
              || (!e.ty.isNull && rules.hierarchy.isSubtype e.ty symbol.ty.erasure.boxed))
            ∧ (rules.hierarchy.isSubtype e.ty symbol.ty.erasure.boxed = true → ∀ v t,
                v.runtimeType? = some t → rules.hierarchy.isSubtype t e.ty.erasure = true →
                rules.hierarchy.instanceOf v symbol.ty = true) := by
  refine ⟨rules.hierarchy.isSubtype_self_iff, fun s t u => Hierarchy.isSubtype_trans hroot,
    fun s t => Hierarchy.isSubtype_erasure, ?_⟩
  intro i e pattern p q lowered symbol hlower hsymbol
  exact ⟨lowerExpr_typeTest_begunTrue hlower hsymbol,
    fun hsub v t ht hbelow => Hierarchy.instanceOf_of_below hroot hsub ht hbelow⟩

end

namespace Narrowed

/-- `Comparable<Integer> c` -/
def oneComparable : List BindingSymbol :=
  [⟨⟨0⟩, "c", .named "Comparable" [.simple "Integer"], none, false, []⟩]

/-- `o instanceof Comparable<Integer> c` for an `Integer o` -/
def comparableTest : Expr := test (.simple "Integer") 0 (.named "Comparable" [.simple "Integer"])

end Narrowed

open Narrowed in
/-- `o instanceof Comparable<Integer> c` for an `Integer o`, in a frame that owns
storage for `c`: the test is left out, and every number passes it. -/
theorem certain_test_justified_comparable :
    rules.hierarchy.supers "Object" = []
      ∧ ∃ lowered q, lowerExpr rules comparableTest (inside (symbols (.simple "Integer") oneComparable) 0)
            = .ok lowered q
        ∧ lowered.begunTrue = true
        ∧ rules.hierarchy.instanceOf (.int 3) (.named "Comparable" [.simple "Integer"]) = true := by
  have hroot : rules.hierarchy.supers "Object" = [] := by decide
  obtain ⟨-, -, -, htests⟩ := certain_test_justified hroot
  obtain ⟨lowered, q, hlower⟩ : ∃ lowered q,
      lowerExpr rules comparableTest (inside (symbols (.simple "Integer") oneComparable) 0) = .ok lowered q :=
    ⟨_, _, rfl⟩
  have hsymbol : q.symbols.binding? ⟨0⟩
      = some ⟨⟨0⟩, "c", .named "Comparable" [.simple "Integer"], none, false, []⟩ := by
    injection hlower with _ hq
    rw [← hq]
    rfl
  obtain ⟨hbegun, hpasses⟩ := htests _ _ (pattern 0 _) _ _ _ _ hlower hsymbol
  have hsub : rules.hierarchy.isSubtype (.simple "Integer") (.simple "Comparable") = true := by decide
  refine ⟨hroot, lowered, q, hlower, ?_, ?_⟩
  · rw [hbegun]
    decide
  · exact hpasses hsub (.int 3) (.simple "Integer") rfl (by decide)

end Lowering

end PatternIR
