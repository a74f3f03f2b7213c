/-
  PatternIR.Proofs.Flow.Matches
  ─────────────────────────────
  **WHAT A CONDITION BINDS, IT HAS MATCHED.**

  If a condition comes out as `outcome`, each binding that the structural
  oracle lists for that outcome has a leaf whose pattern matched during this
  very evaluation:

      evalExpr cond m = ok (bool o) m'  →  b ∈ matchBindings cond o
          →  some leaf of b matched between m and m'

  The two sides of `&&` and `||` are taken as the evaluation takes them.  Where
  both sides are listed, both were evaluated; where pairs are unified, the
  side that decided the outcome has matched, and a unified binding stands for
  the leaves of both.

    • `matchBindings_keeps` — the oracle keeps what a unification keeps: it only
      adds to the table (`matchBindings_grows`);
    • `matchBindings_matched` — its soundness.
-/
import PatternIR.Flow.Bindings
import PatternIR.Proofs.Eval.Later
import PatternIR.Proofs.Leaves
import PatternIR.Tree.Walk

namespace PatternIR

variable {ω : Type}

/-! ## §1. The patterns of a tree. -/

/-- The binding of a type-test pattern. -/
def Expr.ownTest : Expr → Option BindingId
  | .typeTest _ _ pattern => some pattern.binding
  | _ => none

/-- The bindings of the type tests in an expression, in order. -/
def Expr.tested (e : Expr) : List BindingId := e.walk.filterMap Expr.ownTest

namespace Expr

/-- An operator before an operand tests for what the operand does. -/
@[simp] theorem tested_unary (i : ExprInfo) (op : UnOp) (e : Expr) :
    (unary i op e).tested = e.tested := by
  rw [tested, walk, List.filterMap_cons_none rfl]
  rfl

/-- One between two for what either does. -/
@[simp] theorem tested_binary (i : ExprInfo) (op : BinOp) (l r : Expr) :
    (binary i op l r).tested = l.tested ++ r.tested := by
  rw [tested, walk, List.filterMap_cons_none rfl, List.filterMap_append]
  rfl

/-- A pattern tests for its own binding too. -/
@[simp] theorem tested_typeTest (i : ExprInfo) (e : Expr) (pattern : BindingPattern) :
    (typeTest i e pattern).tested = pattern.binding :: e.tested := by
  simp [tested, walk, ownTest]

end Expr

/-! ## §2. What the oracle does to the table. -/

namespace Flow

open Symbols (Grows)

/-- What is matched in either of two ways is matched in one of them. -/
theorem mem_either {s : Symbols} {b : BindingId} :
    ∀ {right left : List BindingId}, b ∈ either s left right → b ∈ left ∨ b ∈ right
  | [], _, h => .inl h
  | r :: right, left, h => by
      rw [either, List.foldl_cons] at h
      rcases mem_either h with h | h
      · split at h
        · exact .inl h
        · rcases List.mem_append.mp h with h | h
          · exact .inl h
          · exact .inr (List.mem_cons.mpr (.inl (List.mem_singleton.mp h)))
      · exact .inr (List.mem_cons_of_mem _ h)

section

variable {P : Symbols → Prop}

/-- What a unification keeps, the pairing of two sides keeps. -/
theorem both_keeps (hmerge : ∀ {s t : Symbols} {a b m : BindingId}, P s → s.merge? a b = some (m, t) → P t)
    (right : List BindingId) : ∀ (left : List BindingId) {s : Symbols}, P s → P (both s right left).2
  | [], _, hs => hs
  | a :: left, s, hs => by
      unfold both
      split
      · exact both_keeps hmerge right left hs
      next merged t h =>
        obtain ⟨b, -, hm⟩ := Option.bind_eq_some_iff.mp h
        exact both_keeps hmerge right left (hmerge hs hm)

/-- **What a unification keeps**, the oracle keeps. -/
theorem matchBindings_keeps
    (hmerge : ∀ {s t : Symbols} {a b m : BindingId}, P s → s.merge? a b = some (m, t) → P t) :
    ∀ (cond : Expr) (o : Bool) {s : Symbols}, P s → P (matchBindings cond o s).2
  | .typeTest _ _ _, _, _, hs => hs
  | .unary _ op e, o, s, hs => by
      cases op with
      | not => exact matchBindings_keeps hmerge e (!o) hs
      | neg => exact hs
  | .binary _ op l r, o, s, hs => by
      have hlr := matchBindings_keeps hmerge r o (matchBindings_keeps hmerge l o hs)
      have hboth := both_keeps hmerge (matchBindings r o (matchBindings l o s).2).1 (matchBindings l o s).1 hlr
      cases op with
      | and =>
          cases o with
          | true => exact hlr
          | false => exact hboth
      | or =>
          cases o with
          | true => exact hboth
          | false => exact hlr
      | _ => exact hs
  | .literal _ _, _, _, hs | .ident _ _, _, _, hs | .conditional _ _ _ _, _, _, hs
  | .assign _ _ _, _, _, hs | .cast _ _ _, _, _, hs | .instanceOf _ _ _, _, _, hs
  | .call _ _ _, _, _, hs | .methodCall _ _ _ _, _, _, hs | .letIn _ _ _, _, _, hs => hs

end

/-- Merging what two sides list takes nothing out of the table. -/
theorem both_grows (right left : List BindingId) (s : Symbols) : s.Grows (both s right left).2 :=
  both_keeps (fun h hm => h.trans (Symbols.merge?_grows hm)) right left (.refl s)

/-- Nor does the analysis of a condition. -/
theorem matchBindings_grows (cond : Expr) (o : Bool) (s : Symbols) :
    s.Grows (matchBindings cond o s).2 :=
  matchBindings_keeps (fun h hm => h.trans (Symbols.merge?_grows hm)) cond o (.refl s)

/-- A binding of both sides unifies one of the left with one of the right. -/
theorem mem_both {right : List BindingId} {m : BindingId} :
    ∀ {left : List BindingId} {s : Symbols}, m ∈ (both s right left).1 →
      ∃ a ∈ left, ∃ b ∈ right, ∃ t u, s.Grows t ∧ t.merge? a b = some (m, u)
        ∧ u.Grows (both s right left).2
  | [], _, h => by simp [both] at h
  | a :: left, s, h => by
      unfold both at h ⊢
      split at h
      next hnone =>
        obtain ⟨a', ha', b, hb, t, u, hst, hm, hu⟩ := mem_both h
        exact ⟨a', List.mem_cons_of_mem _ ha', b, hb, t, u, hst, hm, hu⟩
      next merged t hsome =>
        obtain ⟨b, hfind, hmerge⟩ := Option.bind_eq_some_iff.mp hsome
        rcases List.mem_cons.mp h with rfl | h
        · exact ⟨a, List.mem_cons_self, b, List.mem_of_find?_eq_some hfind, s, t, .refl s,
            hmerge, both_grows right left t⟩
        · obtain ⟨a', ha', b', hb', t', u, hst, hm, hu⟩ := mem_both h
          exact ⟨a', List.mem_cons_of_mem _ ha', b', hb', t', u,
            (Symbols.merge?_grows hmerge).trans hst, hm, hu⟩

end Flow

/-! ## §3. Conditions that come out. -/

section

variable {setting : Setting ω} {fuel : Nat} {i : ExprInfo} {l r e : Expr} {o : Bool}
  {m m' : Machine ω}

/-- A negation has the opposite outcome of its operand. -/
theorem evalExpr_not (h : evalExpr setting fuel (.unary i .not e) m = .ok (.bool o) m') :
    ∃ n, evalExpr setting n e m = .ok (.bool !o) m' := by
  cases fuel with
  | zero => injection h
  | succ n =>
      obtain ⟨v, m₁, hv, h⟩ := bind_eq_ok.mp h
      cases v with
      | bool b =>
          injection h with hb hm
          injection hb with hb
          subst hb hm
          exact ⟨n, by rw [Bool.not_not]; exact hv⟩
      | _ => injection h

/-- `&&` is false because of its left side, or as its right side is. -/
theorem evalExpr_and (h : evalExpr setting fuel (.binary i .and l r) m = .ok (.bool o) m') :
    ∃ n, (o = false ∧ evalExpr setting n l m = .ok (.bool false) m')
      ∨ ∃ m₁, evalExpr setting n l m = .ok (.bool true) m₁
          ∧ evalExpr setting n r m₁ = .ok (.bool o) m' := by
  cases fuel with
  | zero => injection h
  | succ n =>
      obtain ⟨t, m₁, hl, h₁⟩ := Run.cond_eq_ok.mp h
      cases t with
      | false =>
          injection h₁ with ho hm
          injection ho with ho
          subst ho hm
          exact ⟨n, .inl ⟨rfl, hl⟩⟩
      | true =>
          obtain ⟨c, m₂, hr, h₂⟩ := Run.cond_eq_ok.mp h₁
          injection h₂ with ho hm
          injection ho with ho
          subst ho hm
          exact ⟨n, .inr ⟨m₁, hl, hr⟩⟩

/-- `||` is true because of its left side, or as its right side is. -/
theorem evalExpr_or (h : evalExpr setting fuel (.binary i .or l r) m = .ok (.bool o) m') :
    ∃ n, (o = true ∧ evalExpr setting n l m = .ok (.bool true) m')
      ∨ ∃ m₁, evalExpr setting n l m = .ok (.bool false) m₁
          ∧ evalExpr setting n r m₁ = .ok (.bool o) m' := by
  cases fuel with
  | zero => injection h
  | succ n =>
      obtain ⟨t, m₁, hl, h₁⟩ := Run.cond_eq_ok.mp h
      cases t with
      | true =>
          injection h₁ with ho hm
          injection ho with ho
          subst ho hm
          exact ⟨n, .inl ⟨rfl, hl⟩⟩
      | false =>
          obtain ⟨c, m₂, hr, h₂⟩ := Run.cond_eq_ok.mp h₁
          injection h₂ with ho hm
          injection ho with ho
          subst ho hm
          exact ⟨n, .inr ⟨m₁, hl, hr⟩⟩

/-- A test with the outcome `true` has matched its binding. -/
theorem evalExpr_typeTest {pattern : BindingPattern}
    (h : evalExpr setting fuel (.typeTest i e pattern) m = .ok (.bool true) m') :
    m.Matched m' pattern.binding := by
  cases fuel with
  | zero => injection h
  | succ n =>
      obtain ⟨v, m₁, hv, h⟩ := bind_eq_ok.mp h
      exact (matched_of_matchPattern h).after (evalExpr_later hv)

end

/-! ## §4. Soundness. -/

namespace Flow

open Symbols (Grows)

/-- A leaf of each listed binding has matched between the two machines. -/
def AllMatched (m m' : Machine ω) (answer : List BindingId × Symbols) : Prop :=
  ∀ b ∈ answer.1, ∃ leaf ∈ answer.2.leaves b, m.Matched m' leaf

namespace AllMatched

variable {m m₁ m₂ : Machine ω} {ls rs : List BindingId} {s t : Symbols}

/-- A match of the leaves of a binding stays one as the table grows. -/
theorem grows (h : AllMatched m m₁ (ls, s)) (hst : s.Grows t) : AllMatched m m₁ (ls, t) := by
  intro b hb
  obtain ⟨leaf, hleaf, hm⟩ := h b hb
  exact ⟨leaf, hst.leaves hleaf, hm⟩

/-- What has matched before a later point has matched since. -/
theorem before (h : AllMatched m m₁ (ls, s)) (hlater : m.Later m₁) (h₂ : m₁.Later m₂) :
    AllMatched m m₂ (ls, s) := by
  intro b hb
  obtain ⟨leaf, hleaf, hm⟩ := h b hb
  exact ⟨leaf, hleaf, hm.before h₂ hlater.clock⟩

/-- What matches after a later point matches after an earlier one. -/
theorem after (h : m.Later m₁) (h₂ : AllMatched m₁ m₂ (ls, s)) : AllMatched m m₂ (ls, s) := by
  intro b hb
  obtain ⟨leaf, hleaf, hm⟩ := h₂ b hb
  exact ⟨leaf, hleaf, hm.after h⟩

/-- What is listed in either way has matched if both lists have. -/
theorem either (hl : AllMatched m m₁ (ls, s)) (hr : AllMatched m m₁ (rs, s)) :
    AllMatched m m₁ (Flow.either s ls rs, s) := by
  intro b hb
  rcases mem_either hb with hb | hb
  · exact hl b hb
  · exact hr b hb

/-- Where one side has matched, so has each unified pair. -/
theorem both (h : AllMatched m m₁ (ls, s) ∨ AllMatched m m₁ (rs, s)) :
    AllMatched m m₁ (Flow.both s rs ls) := by
  intro b hb
  obtain ⟨x, hx, y, hy, t, u, hst, hmerge, hu⟩ := mem_both hb
  rcases h with h | h
  · obtain ⟨leaf, hleaf, hm⟩ := h x hx
    exact ⟨leaf, hu.leaves (Symbols.mem_leaves_merge hmerge (.inl (hst.leaves hleaf))), hm⟩
  · obtain ⟨leaf, hleaf, hm⟩ := h y hy
    exact ⟨leaf, hu.leaves (Symbols.mem_leaves_merge hmerge (.inr (hst.leaves hleaf))), hm⟩

/-- Nothing is listed. -/
theorem nil : AllMatched m m₁ ([], s) := fun _ hb => absurd hb (by simp)

end AllMatched

/-- **What a condition lists for an outcome has matched when that is its outcome.** -/
theorem matchBindings_allMatched {setting : Setting ω} :
    ∀ (cond : Expr) (o : Bool) (s : Symbols) (fuel : Nat) (m m' : Machine ω),
      (∀ b ∈ cond.tested, s.isLeaf b = true) →
      evalExpr setting fuel cond m = .ok (.bool o) m' →
      AllMatched m m' (matchBindings cond o s)
  | .typeTest _ e pattern, o, s, fuel, m, m', hs, h => by
      cases o with
      | false => exact .nil
      | true =>
          intro b hb
          rw [List.mem_singleton.mp hb]
          have hleaf := hs pattern.binding (by simp)
          refine ⟨pattern.binding, ?_, evalExpr_typeTest h⟩
          show pattern.binding ∈ s.leaves pattern.binding
          rw [Symbols.leaves_of_isLeaf hleaf]
          exact List.mem_singleton.mpr rfl
  | .unary _ op e, o, s, fuel, m, m', hs, h => by
      cases op with
      | neg => exact .nil
      | not =>
          obtain ⟨n, h⟩ := evalExpr_not h
          exact matchBindings_allMatched e (!o) s n m m' (by simpa using hs) h
  | .binary _ op l r, o, s, fuel, m, m', hs, h => by
      -- the table when the right side is asked, and the facts of either side there
      have hgl := matchBindings_grows l o s
      have hgr := matchBindings_grows r o (matchBindings l o s).2
      have hsl : ∀ b ∈ l.tested, s.isLeaf b = true := fun b hb => hs b (by simp [hb])
      have hsr : ∀ b ∈ r.tested, (matchBindings l o s).2.isLeaf b = true := fun b hb =>
        hgl.isLeaf (hs b (by simp [hb]))
      have left : ∀ {n m₁}, evalExpr setting n l m = .ok (.bool o) m₁ →
          AllMatched m m₁ ((matchBindings l o s).1, (matchBindings r o (matchBindings l o s).2).2) :=
        fun hl => (matchBindings_allMatched l o s _ _ _ hsl hl).grows hgr
      have right : ∀ {n m₁}, m.Later m₁ → evalExpr setting n r m₁ = .ok (.bool o) m' →
          AllMatched m m' (matchBindings r o (matchBindings l o s).2) :=
        fun hm hr => .after hm (matchBindings_allMatched r o _ _ _ _ hsr hr)
      cases op with
      | and =>
          obtain ⟨n, ⟨rfl, hl⟩ | ⟨m₁, hl, hr⟩⟩ := evalExpr_and h
          · exact .both (.inl (left hl))
          · have hm := evalExpr_later hl
            cases o with
            | false => exact .both (.inr (right hm hr))
            | true => exact .either ((left hl).before hm (evalExpr_later hr)) (right hm hr)
      | or =>
          obtain ⟨n, ⟨rfl, hl⟩ | ⟨m₁, hl, hr⟩⟩ := evalExpr_or h
          · exact .both (.inl (left hl))
          · have hm := evalExpr_later hl
            cases o with
            | true => exact .both (.inr (right hm hr))
            | false => exact .either ((left hl).before hm (evalExpr_later hr)) (right hm hr)
      | _ => exact .nil
  | .literal _ _, _, _, _, _, _, _, _ | .ident _ _, _, _, _, _, _, _, _
  | .conditional _ _ _ _, _, _, _, _, _, _, _ | .assign _ _ _, _, _, _, _, _, _, _
  | .cast _ _ _, _, _, _, _, _, _, _ | .instanceOf _ _ _, _, _, _, _, _, _, _
  | .call _ _ _, _, _, _, _, _, _, _ | .methodCall _ _ _ _, _, _, _, _, _, _, _
  | .letIn _ _ _, _, _, _, _, _, _, _ => .nil

/-- **Soundness of the structural oracle**: when a condition comes out as `o`,
some leaf of each binding listed for `o` has matched during this evaluation, in
the activation that evaluates the condition.  The table that is asked may be
any in which the patterns of the condition stand for themselves, that of the
program or a later one. -/
theorem matchBindings_matched (setting : Setting ω) (s : Symbols) (cond : Expr) (o : Bool)
    (fuel : Nat) (m m' : Machine ω) (hs : ∀ b ∈ cond.tested, s.isLeaf b = true)
    (h : evalExpr setting fuel cond m = .ok (.bool o) m') :
    ∀ b ∈ (matchBindings cond o s).1,
      ∃ leaf ∈ (matchBindings cond o s).2.leaves b, m.Matched m' leaf :=
  matchBindings_allMatched cond o s fuel m m' hs h

namespace Example

/-- Two bindings `i` of type `Integer`. -/
def symbols : Symbols :=
  let integer := Ty.simple "Integer"
  ⟨#[], #[⟨⟨0⟩, "i", integer, none, false, []⟩, ⟨⟨1⟩, "i", integer, none, false, []⟩]⟩

/-- Only the table is needed to evaluate the condition. -/
def setting : Setting Unit := (Program.mk [] symbols).setting fun _ => none

/-- `v instanceof Integer i`, with the binding of the given number. -/
def test (v : VarId) (b : Nat) : Expr :=
  .typeTest ⟨0, .boolean, .nowhere⟩ (.ident ⟨0, .object, .nowhere⟩ (.var v))
    ⟨⟨b⟩, some (.simple "Integer")⟩

/-- `x instanceof Integer i || y instanceof Integer i`. -/
def cond : Expr := .binary ⟨0, .boolean, .nowhere⟩ .or (test ⟨0⟩ 0) (test ⟨1⟩ 1)

/-- A machine in whose activation `x` is `null` and `y` is `7`. -/
def machine : Machine Unit :=
  ⟨⟨[(.var ⟨0⟩, ⟨.null, 1, .declared⟩), (.var ⟨1⟩, ⟨.int 7, 2, .declared⟩)], [], 2⟩,
    0, 1, "", (), []⟩

end Example

/-- The test of `y` decides; the unified binding `2` has matched through its leaf `1`. -/
theorem matchBindings_matched_either : ∃ m' : Machine Unit,
    (∀ b ∈ Example.cond.tested, Example.symbols.isLeaf b = true)
      ∧ evalExpr Example.setting 5 Example.cond Example.machine = .ok (.bool true) m'
      ∧ (⟨2⟩ : BindingId) ∈ (matchBindings Example.cond true Example.symbols).1
      ∧ ∃ leaf ∈ (matchBindings Example.cond true Example.symbols).2.leaves ⟨2⟩,
          Example.machine.Matched m' leaf :=
  ⟨_, by decide, rfl, by decide,
    matchBindings_matched Example.setting Example.symbols Example.cond true 5 Example.machine _
      (by decide) rfl ⟨2⟩ (by decide)⟩

end Flow

end PatternIR
