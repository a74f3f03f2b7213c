/-
  PatternIR.Proofs.Lowering.Definite
  ──────────────────────────────────
  **STORAGE THAT HAS BEEN ASSIGNED WHERE IT IS READ, in expressions.**

  A storage variable is told apart from its default value by the text alone:
  where an outcome of a condition lists patterns that are all stored in `v`,
  the lowered condition fixes `v` with that outcome; and where a reference
  stands that its guards tell the binding of, one of them has fixed it.

      o instanceof A x || p instanceof A x       x is stored with either side

    • `Pass.Holds` — a pattern is stored in a variable;
    • `lowerExpr_fixes` — outcomes that list what is stored in it;
    • `Serves`, `Backs` — what is known of the patterns of the expression, and
      of those of the guards;
    • `ReadsSure` — what is shown of an expression, one lemma for each kind;
    • `lowerExpr_sure` — the reads of the storage variable.
-/
import PatternIR.Proofs.Eval.Sure
import PatternIR.Proofs.Lowering.Covered

namespace PatternIR

/-! ## §1. Operators. -/

section

variable {v : VarId} {i : ExprInfo} {op : BinOp} {l r : Expr} {d : Bool}

/-- With the outcome that needs both operands, one of them fixes the variable. -/
theorem Expr.Fixes.either (hd : op.decides? = some d)
    (h : (l.Fixes v (!d) ∧ v ∉ r.declared) ∨ r.Fixes v (!d)) : (binary i op l r).Fixes v (!d) := by
  cases op with
  | and | or =>
      injection hd with hd
      subst hd
      exact h
  | _ => injection hd

/-- With the outcome that one operand decides, both fix the variable. -/
theorem Expr.Fixes.both (hd : op.decides? = some d) (hl : l.Fixes v d) (hr : r.Fixes v d) :
    (binary i op l r).Fixes v d := by
  cases op with
  | and | or =>
      injection hd with hd
      subst hd
      exact ⟨hl, hr⟩
  | _ => injection hd

end

namespace Lowering

open PatternIR.Flow (listed Stands matchBindings)

variable {s : Symbols} {p q r : Pass} {v x : VarId} {leaf : BindingId}

/-! ## §2. What is stored in a variable. -/

/-- The pattern `leaf` is stored in `x`. -/
def Pass.Holds (p : Pass) (leaf : BindingId) (x : VarId) : Prop :=
  ∃ slot ∈ p.stack.slots, leaf ∈ p.symbols.leaves slot.binding ∧ slot.var = x

namespace Pass.Holds

/-- The variable is one of storage, and in the table. -/
theorem range (h : p.Holds leaf v) (hp : p.Neat s) : s.vars.size ≤ v.index ∧ v.index < p.symbols.vars.size := by
  obtain ⟨slot, hslot, -, rfl⟩ := h
  exact hp.range slot hslot

/-- A pass that follows holds the same leaves in the same variables. -/
theorem follows_iff (hp : p.Neat s) (hfollows : p.Follows q) : q.Holds leaf v ↔ p.Holds leaf v := by
  have hleaves : ∀ slot ∈ p.stack.slots, q.symbols.leaves slot.binding = p.symbols.leaves slot.binding :=
    fun slot hslot => hfollows.descends.grows.leaves_eq hp.sound.ordered.closed (hp.has slot hslot)
  unfold Pass.Holds
  rw [hfollows.stack]
  constructor
  · rintro ⟨slot, hslot, hleaf, hvar⟩
    exact ⟨slot, hslot, hleaves slot hslot ▸ hleaf, hvar⟩
  · rintro ⟨slot, hslot, hleaf, hvar⟩
    exact ⟨slot, hslot, (hleaves slot hslot).symm ▸ hleaf, hvar⟩

end Pass.Holds

namespace Pass.Into

variable {kind : FrameKind} {bs : List BindingId} {news : List Slot}

/-- In a new frame a pattern is stored by a slot of it, or as before. -/
theorem holds_iff (h : Pass.Into s p kind bs news q) (hp : p.Neat s) : q.Holds leaf v ↔
    (∃ slot ∈ news, leaf ∈ q.symbols.leaves slot.binding ∧ slot.var = v) ∨ p.Holds leaf v := by
  have hleaves : ∀ slot ∈ p.stack.slots, q.symbols.leaves slot.binding = p.symbols.leaves slot.binding :=
    fun slot hslot => h.descends.grows.leaves_eq hp.sound.ordered.closed (hp.has slot hslot)
  constructor
  · rintro ⟨slot, hslot, hleaf, hvar⟩
    rcases h.mem_slots.mp hslot with hslot | hslot
    · exact .inl ⟨slot, hslot, hleaf, hvar⟩
    · exact .inr ⟨slot, hslot, hleaves slot hslot ▸ hleaf, hvar⟩
  · rintro (⟨slot, hslot, hleaf, hvar⟩ | ⟨slot, hslot, hleaf, hvar⟩)
    · exact ⟨slot, h.mem_slots.mpr (.inl hslot), hleaf, hvar⟩
    · exact ⟨slot, h.mem_slots.mpr (.inr hslot), (hleaves slot hslot).symm ▸ hleaf, hvar⟩

/-- The variables of the new slots are not in use yet. -/
theorem var_ne (h : Pass.Into s p kind bs news q) (hp : p.Neat s) (hv : p.Holds leaf v) :
    v ∉ news.map (·.var) := by
  intro hmem
  obtain ⟨slot, hslot, rfl⟩ := List.mem_map.mp hmem
  exact Nat.not_lt_of_le (h.fresh slot hslot) (hv.range hp).2

end Pass.Into

variable {hierarchy : Hierarchy} {e e' : Expr} {outcome : Bool}

/-- What is added later does not declare a variable in use. -/
theorem Adds.notMem {n k : Nat} {declared : List VarId} (h : Adds n p q declared k) (hn : n ≤ v.index)
    (hv : v.index < p.symbols.vars.size) : v ∉ declared := by
  refine List.count_eq_zero.mp ?_
  rw [h.once v hn, if_neg (fun hmem => Nat.not_lt_of_le hmem.1 hv)]

/-- A lowered expression does not declare storage in use. -/
theorem lowerExpr_undeclared (he : e.Attributed s) (hp : p.Neat s)
    (h : lowerExpr ⟨hierarchy, matchBindings⟩ e p = .ok e' q) (hv : p.Holds leaf v) : v ∉ e'.declared := by
  have hflow : (⟨hierarchy, matchBindings⟩ : Rules).flow.KeepsVars := Flow.matchBindings_keepsVars
  exact (lowerExpr_lowers hflow e he.declared h).adds.notMem (hv.range hp).1 (hv.range hp).2

/-- An expression leaves a pass that follows. -/
theorem lowerExpr_follows (he : e.Attributed s) (hp : p.Neat s)
    (h : lowerExpr ⟨hierarchy, matchBindings⟩ e p = .ok e' q) : p.Follows q :=
  ((lowerExpr_meets hierarchy e he hp).ok h).follows

/-! ## §3. Outcomes that fix a variable. -/

/-- A pattern that is stored is resolved to the variable. -/
theorem Pass.Holds.resolve (hp : p.Neat s) (hleaf : s.isLeaf leaf = true) (h : p.Holds leaf v) :
    p.stack.resolve p.symbols leaf = some v := by
  obtain ⟨slot, hslot, hmem, rfl⟩ := h
  have hleaves : p.symbols.leaves leaf = [leaf] :=
    Symbols.leaves_of_isLeaf (hp.descends.grows.isLeaf hleaf)
  cases hresolve : p.stack.resolve p.symbols leaf with
  | none =>
      have hsome := Stack.resolve_isSome.mpr ⟨slot, hslot,
        Symbols.isAliasFor_iff.mpr (.inr ⟨leaf, hmem, hleaves ▸ List.mem_cons_self⟩)⟩
      rw [hresolve] at hsome
      exact absurd hsome (by simp)
  | some y =>
      obtain ⟨other, hother, halias, rfl⟩ := Stack.exists_slot_of_resolve hresolve
      have hshared : leaf ∈ p.symbols.leaves other.binding := by
        rcases Symbols.isAliasFor_iff.mp halias with heq | ⟨a, ha, ha'⟩
        · rw [heq, hleaves]
          exact List.mem_cons_self
        · rw [hleaves] at ha'
          exact List.mem_singleton.mp ha' ▸ ha
      rw [hp.leaf other hother slot hslot hshared hmem]

/-- Where a match is stored, it fixes the storage. -/
theorem IsTest.fixes {span : Span} {isCertain : Bool} {temp : VarId} {target ty varTy : Ty} {id : NodeId}
    {test : Expr} {size : Nat}
    (h : IsTest span isCertain temp target ty id (some (v, varTy)) test size) : test.Fixes v true := by
  cases h
  refine .inr ?_
  unfold storeNode
  split
  · exact ⟨rfl, List.not_mem_nil⟩
  · exact ⟨rfl, List.not_mem_nil⟩

/-- The frame around an expression does not matter for what it fixes. -/
theorem decorateExpr_fixes {body e' : Expr} (h : decorateExpr body p = .ok e' q)
    (hbody : body.Fixes v outcome) : e'.Fixes v outcome := by
  rcases decorateExpr_eq_ok h with ⟨-, rfl, -⟩ | ⟨defs, -, rfl, -⟩
  · exact hbody
  · exact hbody

/-- **The outcome that lists patterns**, all stored in a variable, fixes it. -/
theorem lowerExpr_fixes : ∀ (e : Expr) (o : Bool) {e' : Expr} {p q : Pass}, e.Attributed s → p.Neat s →
    lowerExpr ⟨hierarchy, matchBindings⟩ e p = .ok e' q →
      ∀ g ∈ listed s e o, (∀ leaf ∈ g, p.Holds leaf v) → e'.Fixes v o
  | .typeTest i e pattern, o, e', p, q, he, hp, h, g, hg, hv => by
      cases o with
      | false => exact absurd hg List.not_mem_nil
      | true =>
          obtain ⟨x, p₁, hx, htest⟩ := bind_eq_ok.mp h
          obtain ⟨hleaf, he, -⟩ := he.typeTest
          have hfollows := lowerExpr_follows he hp hx
          have hheld : p.Holds pattern.binding v :=
            hv _ (List.mem_singleton.mp hg ▸ List.mem_cons_self)
          have hresolve := ((Pass.Holds.follows_iff hp hfollows).mpr hheld).resolve
            (hp.follows hfollows) hleaf
          obtain ⟨symbol, test, size, -, hIsTest, hsome, rfl, rfl⟩ := lowerTest_eq_ok htest
          have hstorage : ∃ varTy, storageOf p₁.stack (addTemp p₁.symbols symbol e.ty) pattern.binding
              = some (v, varTy) := by
            have := hsome (by rw [hresolve]; rfl)
            obtain ⟨⟨y, varTy⟩, hy⟩ := Option.isSome_iff_exists.mp this
            obtain ⟨z, hz, hvarTy⟩ := Option.bind_eq_some_iff.mp hy
            obtain ⟨sym, -, heq⟩ := Option.map_eq_some_iff.mp hvarTy
            injection heq with hzy
            have hresolve' : p₁.stack.resolve (addTemp p₁.symbols symbol e.ty) pattern.binding = some v :=
              hresolve
            rw [hresolve'] at hz
            injection hz with hz
            exact ⟨varTy, by rw [hy, ← hzy, hz]⟩
          obtain ⟨varTy, hstorage⟩ := hstorage
          rw [hstorage] at hIsTest
          exact hIsTest.fixes
  | .unary i op e, o, e', p, q, he, hp, h, g, hg, hv => by
      cases op with
      | neg => exact absurd hg List.not_mem_nil
      | not =>
          obtain ⟨x, hx, rfl⟩ := bind_pure_eq_ok.mp h
          exact lowerExpr_fixes e (!o) he.unary hp hx g hg hv
  | .binary i op l r, o, e', p, q, he, hp, h, g, hg, hv => by
      obtain ⟨bs, p₁, x, q₁, y, q₂, q', hfacts, hx, hy, hdec, rfl⟩ := lowerExpr_binary_eq_ok h
      obtain ⟨hl, hr, -⟩ := he.binary
      have hasked := (operandFacts_meets op hp hl.tested).ok hfacts
      have hp₁ := hp.follows hasked.follows
      obtain ⟨news, hinto⟩ := hp₁.enter .binary hasked.carries
      have hfollows := lowerExpr_follows hl hinto.neat hx
      have hq₁ := hinto.neat.follows hfollows
      have hin : ∀ leaf, p.Holds leaf v → (p₁.enter .binary bs).Holds leaf v := fun leaf hleaf =>
        (hinto.holds_iff hp₁).mpr (.inr ((Pass.Holds.follows_iff hp hasked.follows).mpr hleaf))
      have hin' : ∀ leaf, p.Holds leaf v → q₁.Holds leaf v := fun leaf hleaf =>
        (Pass.Holds.follows_iff hinto.neat hfollows).mpr (hin leaf hleaf)
      refine decorateExpr_fixes hdec ?_
      have hleft : ∀ a ∈ listed s l o, (∀ leaf ∈ a, p.Holds leaf v) → x.Fixes v o := fun a ha hv =>
        lowerExpr_fixes l o hl hinto.neat hx a ha fun leaf hleaf => hin leaf (hv leaf hleaf)
      have hright : ∀ b ∈ listed s r o, (∀ leaf ∈ b, p.Holds leaf v) → y.Fixes v o := fun b hb hv =>
        lowerExpr_fixes r o hr hq₁ hy b hb fun leaf hleaf => hin' leaf (hv leaf hleaf)
      -- what the left operand has stored, the right one does not declare again
      have hkept : ∀ a ∈ listed s l o, (∀ leaf ∈ a, p.Holds leaf v) → v ∉ y.declared := fun a ha hv => by
        obtain ⟨leaf, hleaf⟩ := List.exists_mem_of_ne_nil a (Flow.listed_group l o hl.tested a ha).1.ne
        exact lowerExpr_undeclared hr hq₁ hy (hin' leaf (hv leaf hleaf))
      obtain ⟨d, hd, ⟨rfl, hg | hg⟩ | ⟨rfl, a, ha, b, hb, rfl⟩⟩ := Flow.mem_listed_binary hg
      · exact Expr.Fixes.either hd (.inl ⟨hleft g hg hv, hkept g hg hv⟩)
      · exact Expr.Fixes.either hd (.inr (hright g hg hv))
      · exact Expr.Fixes.both hd (hleft a ha fun leaf hleaf => hv leaf (List.mem_append_left _ hleaf))
          (hright b (List.mem_of_find?_eq_some hb) fun leaf hleaf => hv leaf (List.mem_append_right _ hleaf))
  | .literal _ _, _, _, _, _, _, _, _, _, hg, _ | .ident _ _, _, _, _, _, _, _, _, _, hg, _
  | .conditional _ _ _ _, _, _, _, _, _, _, _, _, hg, _ | .assign _ _ _, _, _, _, _, _, _, _, _, hg, _
  | .cast _ _ _, _, _, _, _, _, _, _, _, hg, _ | .instanceOf _ _ _, _, _, _, _, _, _, _, _, hg, _
  | .call _ _ _, _, _, _, _, _, _, _, _, hg, _ | .methodCall _ _ _ _, _, _, _, _, _, _, _, _, hg, _
  | .letIn _ _ _, _, _, _, _, _, _, _, _, hg, _ => absurd hg List.not_mem_nil

/-! ## §4. What is known of patterns. -/

/-- The patterns of an expression that are stored in a variable are stored there
together with all of a set that is listed for it. -/
def Serves (s : Symbols) (p : Pass) (e : Expr) : Prop :=
  ∀ leaf ∈ e.tests, ∀ x, p.Holds leaf x →
    ∃ o, ∃ g ∈ listed s e o, leaf ∈ g ∧ ∀ b ∈ g, p.Holds b x

/-- The bindings that the guards tell of are for none of the patterns `ts`, and
if one of them is stored in `v`, then `k`. -/
structure Backs (s : Symbols) (p : Pass) (ts : List BindingId) (G : List Guard) (v : VarId) (k : Prop) :
    Prop where
  apart : ∀ b, Certain s G b → ∀ leaf ∈ s.leaves b, leaf ∉ ts
  known : ∀ b, Certain s G b → ∀ leaf ∈ s.leaves b, p.Holds leaf v → k

namespace Pass.Avoids

variable {ts : List BindingId}

/-- What is avoided is held in no variable. -/
theorem not_holds (h : p.Avoids ts) (hleaf : leaf ∈ ts) : ¬ p.Holds leaf x := by
  rintro ⟨slot, hslot, hmem, -⟩
  exact h slot hslot leaf hmem hleaf

/-- What is held in no variable is avoided. -/
theorem of_not_holds (h : ∀ leaf ∈ ts, ∀ x, ¬ p.Holds leaf x) : p.Avoids ts :=
  fun slot hslot leaf hmem hleaf => h leaf hleaf slot.var ⟨slot, hslot, hmem, rfl⟩

/-- A pass that avoids the tests of an expression serves it. -/
theorem serves (h : p.Avoids ts) (he : ∀ leaf ∈ e.tests, leaf ∈ ts) : Serves s p e :=
  fun leaf hleaf _ hx => absurd hx (h.not_holds (he leaf hleaf))

/-- What is stored here is stored there. -/
theorem of_holds (h : p.Avoids ts) (hsub : ∀ leaf x, q.Holds leaf x → p.Holds leaf x) : q.Avoids ts :=
  .of_not_holds fun _ hleaf _ hx => h.not_holds hleaf (hsub _ _ hx)

/-- What is avoided stays so in a pass that follows. -/
theorem follows (h : p.Avoids ts) (hp : p.Neat s) (hfollows : p.Follows q) : q.Avoids ts :=
  h.of_holds fun _ _ => (Pass.Holds.follows_iff hp hfollows).mp

end Pass.Avoids

section

variable {c l r : Expr} {i : ExprInfo} {op : BinOp} {outcomes : List Bool} {kind : FrameKind}
  {bs ts ts' : List BindingId} {news : List Slot} {G G' : List Guard} {k X : Prop} {p₀ : Pass}

/-- A new slot is for all of a set that is listed. -/
theorem Pass.Into.listed (h : Pass.Into s p kind bs news q) (hp : p.Neat s)
    (hasked : Pass.Asked s p₀ c outcomes bs p) : ∀ slot ∈ news, ∃ o ∈ outcomes, ∃ g ∈ listed s c o,
      ∀ leaf, leaf ∈ q.symbols.leaves slot.binding ↔ leaf ∈ g := by
  intro slot hslot
  obtain ⟨o, ho, g, hg, hstands⟩ := hasked.stands _ (h.asked slot hslot)
  exact ⟨o, ho, g, hg, (hstands.grows hp.sound h.descends.grows).2⟩

/-- A frame for a condition stores patterns of the condition only. -/
theorem Pass.Into.holds_old (h : Pass.Into s p kind bs news q) (hp : p.Neat s)
    (hasked : Pass.Asked s p₀ c outcomes bs p) (hc : ∀ leaf ∈ c.tests, s.isLeaf leaf = true)
    (hleaf : leaf ∉ c.tests) (hx : q.Holds leaf x) : p.Holds leaf x := by
  rcases (h.holds_iff hp).mp hx with ⟨slot, hslot, hmem, -⟩ | hx
  · obtain ⟨o, -, g, hg, hiff⟩ := h.listed hp hasked slot hslot
    exact absurd ((Flow.listed_group c o hc g hg).2 leaf ((hiff leaf).mp hmem)) hleaf
  · exact hx

namespace Serves

/-- What is served stays so in a pass that follows. -/
theorem follows (h : Serves s p e) (hp : p.Neat s) (hfollows : p.Follows q) : Serves s q e := by
  intro leaf hleaf x hx
  obtain ⟨o, g, hg, hmem, hall⟩ := h leaf hleaf x ((Pass.Holds.follows_iff hp hfollows).mp hx)
  exact ⟨o, g, hg, hmem, fun b hb => (Pass.Holds.follows_iff hp hfollows).mpr (hall b hb)⟩

/-- Nothing of an expression is stored that nothing is listed for. -/
theorem avoids (h : Serves s p e) (hnone : ∀ o, listed s e o = []) : p.Avoids e.tests := by
  refine .of_not_holds fun leaf hleaf x hx => ?_
  obtain ⟨o, g, hg, -⟩ := h leaf hleaf x hx
  rw [hnone o] at hg
  exact absurd hg List.not_mem_nil

/-- What is stored of an operand is so with all of a set listed for the operand. -/
theorem operands (h : Serves s p (.binary i op l r)) (hl : ∀ leaf ∈ l.tests, s.isLeaf leaf = true)
    (hr : ∀ leaf ∈ r.tests, s.isLeaf leaf = true) (hcross : ∀ leaf ∈ l.tests, leaf ∉ r.tests) :
    Serves s p l ∧ Serves s p r := by
  have hleft : ∀ o, ∀ g ∈ listed s l o, ∀ leaf ∈ g, leaf ∈ l.tests :=
    fun o g hg => (Flow.listed_group l o hl g hg).2
  have hright : ∀ o, ∀ g ∈ listed s r o, ∀ leaf ∈ g, leaf ∈ r.tests :=
    fun o g hg => (Flow.listed_group r o hr g hg).2
  constructor
  · intro leaf hleaf x hx
    obtain ⟨o, g, hg, hmem, hall⟩ := h leaf (by rw [Expr.tests_binary]; exact List.mem_append_left _ hleaf) x hx
    obtain ⟨d, -, ⟨-, hg | hg⟩ | ⟨-, a, ha, b, hb, rfl⟩⟩ := Flow.mem_listed_binary hg
    · exact ⟨o, g, hg, hmem, hall⟩
    · exact absurd (hright o g hg leaf hmem) (hcross leaf hleaf)
    · rcases List.mem_append.mp hmem with hmem | hmem
      · exact ⟨o, a, ha, hmem, fun b hb => hall b (List.mem_append_left _ hb)⟩
      · exact absurd (hright o b (List.mem_of_find?_eq_some hb) leaf hmem) (hcross leaf hleaf)
  · intro leaf hleaf x hx
    have hnot : leaf ∉ l.tests := fun hmem => hcross leaf hmem hleaf
    obtain ⟨o, g, hg, hmem, hall⟩ := h leaf (by rw [Expr.tests_binary]; exact List.mem_append_right _ hleaf) x hx
    obtain ⟨d, -, ⟨-, hg | hg⟩ | ⟨-, a, ha, b, hb, rfl⟩⟩ := Flow.mem_listed_binary hg
    · exact absurd (hleft o g hg leaf hmem) hnot
    · exact ⟨o, g, hg, hmem, hall⟩
    · rcases List.mem_append.mp hmem with hmem | hmem
      · exact absurd (hleft o a ha leaf hmem) hnot
      · exact ⟨o, b, List.mem_of_find?_eq_some hb, hmem, fun b hb => hall b (List.mem_append_right _ hb)⟩

/-- The condition that a frame is for. -/
theorem enter (h : Serves s p c) (hinto : Pass.Into s p kind bs news q) (hp : p.Neat s)
    (hasked : Pass.Asked s p₀ c outcomes bs p) : Serves s q c := by
  intro leaf hleaf x hx
  rcases (hinto.holds_iff hp).mp hx with ⟨slot, hslot, hmem, hvar⟩ | hx
  · obtain ⟨o, -, g, hg, hiff⟩ := hinto.listed hp hasked slot hslot
    exact ⟨o, g, hg, (hiff leaf).mp hmem, fun b hb =>
      (hinto.holds_iff hp).mpr (.inl ⟨slot, hslot, (hiff b).mpr hb, hvar⟩)⟩
  · obtain ⟨o, g, hg, hmem, hall⟩ := h leaf hleaf x hx
    exact ⟨o, g, hg, hmem, fun b hb => (hinto.holds_iff hp).mpr (.inr (hall b hb))⟩

/-- Another expression in the frame. -/
theorem enter_other (h : Serves s p e) (hinto : Pass.Into s p kind bs news q) (hp : p.Neat s)
    (hasked : Pass.Asked s p₀ c outcomes bs p) (hc : ∀ leaf ∈ c.tests, s.isLeaf leaf = true)
    (hcross : ∀ leaf ∈ c.tests, leaf ∉ e.tests) : Serves s q e := by
  intro leaf hleaf x hx
  obtain ⟨o, g, hg, hmem, hall⟩ := h leaf hleaf x
    (hinto.holds_old hp hasked hc (fun hmem => hcross leaf hmem hleaf) hx)
  exact ⟨o, g, hg, hmem, fun b hb => (hinto.holds_iff hp).mpr (.inr (hall b hb))⟩

/-- Past a condition, what is told of it is fixed. -/
theorem fixes {c' : Expr} {o : Bool} (h : Serves s p c) (hc : c.Attributed s) (hp : p.Neat s)
    (hrun : lowerExpr ⟨hierarchy, matchBindings⟩ c p = .ok c' q) {b : BindingId}
    (hmem : b ∈ (matchBindings c o s).1) (hleaf : leaf ∈ s.leaves b) (hv : p.Holds leaf v) :
    c'.Fixes v o := by
  obtain ⟨-, hstands⟩ := Flow.listed_stands c o hc.tested (.refl s) hp.base
  obtain ⟨g, hg, -, hiff⟩ := exists_of_forall₂ hstands hmem
  have hin : leaf ∈ g := (hiff leaf).mp ((Flow.matchBindings_grows c o s).leaves hleaf)
  obtain ⟨o', g', hg', -, hall⟩ := h leaf ((Flow.listed_group c o hc.tested g hg).2 leaf hin) v hv
  rw [Flow.listed_outcome hg hg']
  exact lowerExpr_fixes c o' hc hp hrun g' hg' hall

end Serves

/-- The frame that a place is in does not tell anything. -/
theorem certain_within {b : BindingId} : Certain s (outcomes.map (Guard.within c) ++ G) b ↔ Certain s G b := by
  constructor
  · rintro ⟨g, hg, htells⟩
    rcases List.mem_append.mp hg with hg | hg
    · obtain ⟨o, -, rfl⟩ := List.mem_map.mp hg
      exact htells.elim
    · exact ⟨g, hg, htells⟩
  · exact fun h => h.mono fun g => List.mem_append_right _

/-- A guard more tells what it tells and what the others do. -/
theorem certain_cons {g : Guard} {b : BindingId} : Certain s (g :: G) b ↔ g.Tells s b ∨ Certain s G b := by
  simp [Certain]

namespace Backs

/-- Fewer tests are backed as well. -/
theorem sub (h : Backs s p ts G v k) (hts : ∀ leaf ∈ ts', leaf ∈ ts) : Backs s p ts' G v k :=
  ⟨fun b hcertain leaf hleaf hmem => h.apart b hcertain leaf hleaf (hts leaf hmem), h.known⟩

/-- What is stored here is stored there. -/
theorem of_holds (h : Backs s p ts G v k) (hsub : ∀ leaf, q.Holds leaf v → p.Holds leaf v) :
    Backs s q ts G v k :=
  ⟨h.apart, fun b hcertain leaf hleaf hv => h.known b hcertain leaf hleaf (hsub leaf hv)⟩

/-- What is backed stays so in a pass that follows. -/
theorem follows (h : Backs s p ts G v k) (hp : p.Neat s) (hfollows : p.Follows q) : Backs s q ts G v k :=
  h.of_holds fun _ => (Pass.Holds.follows_iff hp hfollows).mp

/-- What is known may be weakened. -/
theorem imp (h : Backs s p ts G v k) (hX : k → X) : Backs s p ts G v X :=
  ⟨h.apart, fun b hcertain leaf hleaf hv => hX (h.known b hcertain leaf hleaf hv)⟩

/-- And strengthened by what follows for the leaves that are held. -/
theorem and (h : Backs s p ts G v k) (hX : ∀ leaf, p.Holds leaf v → X) : Backs s p ts G v (k ∧ X) :=
  ⟨h.apart, fun b hcertain leaf hleaf hv => ⟨h.known b hcertain leaf hleaf hv, hX leaf hv⟩⟩

/-- Guards from within a condition tell nothing that has to be backed. -/
theorem within (h : Backs s p ts G v k) : Backs s p ts (outcomes.map (Guard.within c) ++ G) v k :=
  ⟨fun b hcertain => h.apart b (certain_within.mp hcertain),
    fun b hcertain => h.known b (certain_within.mp hcertain)⟩

/-- Nor do the guards around one. -/
theorem around (h : Backs s p ts G v k) : Backs s p ts (Guard.around c ++ G) v k := by
  have hwithin : Backs s p ts ([true, false].map (Guard.within c) ++ G) v k := h.within
  exact hwithin

/-- In a new frame for a condition among whose patterns none is told of. -/
theorem enter (h : Backs s p ts G v k) (hinto : Pass.Into s p kind bs news q) (hp : p.Neat s)
    (hasked : Pass.Asked s p₀ c outcomes bs p) (hc : ∀ leaf ∈ c.tests, s.isLeaf leaf = true)
    (hts : ∀ leaf ∈ c.tests, leaf ∈ ts) : Backs s q ts G v (k ∧ v ∉ news.map (·.var)) := by
  refine ⟨h.apart, fun b hcertain leaf hleaf hv => ?_⟩
  have hold := hinto.holds_old hp hasked hc
    (fun hmem => h.apart b hcertain leaf hleaf (hts leaf hmem)) hv
  exact ⟨h.known b hcertain leaf hleaf hold, hinto.var_ne hp hold⟩

/-- Past a condition that has come out. -/
theorem passed {c' : Expr} {o : Bool} (h : Backs s q ts G v k) (hserves : Serves s p c)
    (hc : c.Attributed s) (hp : p.Neat s) (hrun : lowerExpr ⟨hierarchy, matchBindings⟩ c p = .ok c' q)
    (hcross : ∀ leaf ∈ c.tests, leaf ∉ ts) : Backs s q ts (.passed c o :: G) v (c'.When v k o) := by
  have hfollows := lowerExpr_follows hc hp hrun
  constructor
  · intro b hcertain leaf hleaf hmem
    rcases certain_cons.mp hcertain with htells | hcertain
    · obtain ⟨-, hstands⟩ := Flow.listed_stands c o hc.tested (.refl s) hp.base
      obtain ⟨g, hg, -, hiff⟩ := exists_of_forall₂ hstands htells
      have hin : leaf ∈ g := (hiff leaf).mp ((Flow.matchBindings_grows c o s).leaves hleaf)
      exact hcross leaf ((Flow.listed_group c o hc.tested g hg).2 leaf hin) hmem
    · exact h.apart b hcertain leaf hleaf hmem
  · intro b hcertain leaf hleaf hv
    have hheld := (Pass.Holds.follows_iff hp hfollows).mp hv
    rcases certain_cons.mp hcertain with htells | hcertain
    · exact .inr (hserves.fixes hc hp hrun htells hleaf hheld)
    · exact .inl ⟨h.known b hcertain leaf hleaf hv, lowerExpr_undeclared hc hp hrun hheld⟩

/-- In a branch behind the condition. -/
theorem branch {c' : Expr} {o : Bool} (h : Backs s p ts G v k) (hserves : Serves s p c)
    (hc : c.Attributed s) (hp : p.Neat s) (hrun : lowerExpr ⟨hierarchy, matchBindings⟩ c p = .ok c' q)
    (hts : ∀ leaf ∈ ts', leaf ∈ ts) (hcross : ∀ leaf ∈ c.tests, leaf ∉ ts') :
    Backs s q ts' (.passed c o :: G) v (c'.When v k o) :=
  ((h.sub hts).follows hp (lowerExpr_follows hc hp hrun)).passed hserves hc hp hrun hcross

/-- Where the condition of a loop, if it has one, has held. -/
theorem passed? {c c' : Option Expr} (h : Backs s p ts G v k) (hserves : ∀ x ∈ c, Serves s p x)
    (hc : Expr.AttributedAll s c.toList) (hp : p.Neat s)
    (hrun : lowerExpr? ⟨hierarchy, matchBindings⟩ c p = .ok c' q) (hts : ∀ leaf ∈ ts', leaf ∈ ts)
    (hcross : ∀ leaf ∈ Expr.gatherAll Expr.ownTests c.toList, leaf ∉ ts') :
    Backs s q ts' (Guard.held? c ++ G) v (Expr.Passed v k c') := by
  cases c with
  | none =>
      obtain ⟨rfl, rfl⟩ := pure_eq_ok.mp hrun
      exact h.sub hts
  | some c =>
      obtain ⟨x, hx, rfl⟩ := bind_pure_eq_ok.mp hrun
      rw [Option.toList_some, Expr.attributedAll_singleton] at hc
      rw [Option.toList_some, Expr.gatherAll_singleton] at hcross
      exact h.branch (hserves c rfl) hc hp hx hts hcross

end Backs

end

/-! ## §5. Reads of storage. -/

/-- References at a place in `Q` stand where their binding has matched for certain. -/
def sited (s : Symbols) (Q : Span → Prop) : List Guard → ExprInfo → BindingId → Prop :=
  fun G i b => Q i.span → Certain s G b

/-- `v` is no temporary of the pass. -/
def Pass.Plain (v : VarId) (p : Pass) : Prop := ∀ sym, p.symbols.var? v = some sym → sym.synthetic = false

/-- What is no temporary later on was none before. -/
theorem Pass.Plain.before (h : q.Plain v) (hdescends : p.symbols.Descends q.symbols) : p.Plain v :=
  fun _ hsym => h _ (hdescends.toEvolves.vars hsym)

variable {T : ExprInfo → Prop} {k : Prop}

/-- A type test reads its temporary only. -/
theorem IsTest.sure {span : Span} {isCertain : Bool} {temp : VarId} {target ty : Ty} {id : NodeId}
    {storage : Option (VarId × Ty)} {test : Expr} {size : Nat} (htemp : temp ≠ v)
    (h : IsTest span isCertain temp target ty id storage test size) : test.Sure v T k := by
  have hheld : ∀ {k : Prop} {i : ExprInfo}, (Expr.ident i (.var temp)).Sure v T k := fun hsym =>
    absurd (Sym.var.inj hsym) htemp
  have hmatch : ∀ {k : Prop} {id : NodeId}, (matchNode id span isCertain temp target ty).Sure v T k := by
    intro k id
    unfold matchNode
    split
    · trivial
    · exact hheld
  cases h with
  | plain => exact hmatch
  | stored var varTy =>
      refine ⟨hmatch, ?_⟩
      unfold storeNode
      split
      · exact ⟨hheld, hheld⟩
      · exact ⟨hheld, hheld⟩

/-- The default values of a frame are literals. -/
theorem DefinesSlots.sure {t : Symbols} {span : Span} {id : NodeId} {slots : List Slot}
    {defs : List (VarId × Expr)} (h : DefinesSlots t span id slots defs) :
    ∀ {k : Prop}, Expr.SureDefs v T k defs := by
  induction h with
  | nil => exact fun {k} => trivial
  | cons _ _ _ ih => exact fun {k} => ⟨trivial, ih⟩

/-- In the frame around an expression the variables of its slots are declared. -/
theorem decorateExpr_sure {body e' : Expr} (h : decorateExpr body p = .ok e' q)
    (hbody : body.Sure v T (k ∧ v ∉ p.stack.current.slots.map (·.var))) : e'.Sure v T k := by
  rcases decorateExpr_eq_ok h with ⟨hslots, rfl, -⟩ | ⟨defs, hdefs, rfl, -⟩
  · have hk : (k ∧ v ∉ p.stack.current.slots.map (·.var)) = k := by simp [hslots]
    rwa [hk] at hbody
  · obtain ⟨hfst, hgather, -⟩ := hdefs.inScope
    refine ⟨hdefs.sure, ?_⟩
    have hk : (k ∧ v ∉ defs.map Prod.fst ∧ v ∉ Expr.gatherDefs Expr.ownDeclared defs)
        = (k ∧ v ∉ p.stack.current.slots.map (·.var)) := by simp [hfst, hgather]
    rwa [hk]

variable {Q : Span → Prop} {G : List Guard}

/-- **A reference**: what it reads has been assigned if the guards tell of the binding. -/
theorem lowerRef_sure {b : BindingId} {ty : Ty} {span : Span} {ts : List BindingId} (hp : p.Neat s)
    (hb : s.Has b) (hbacks : Backs s p ts G v k) (href : Q span → Certain s G b)
    (h : lowerRef b ty span p = .ok e' q) : e'.Sure v (fun i => Q i.span) k := by
  obtain ⟨var, hresolve, rfl, -⟩ := lowerRef_eq_ok h
  intro hsym hQ
  obtain ⟨slot, hslot, halias, hvar⟩ := Stack.exists_slot_of_resolve hresolve
  rw [Sym.var.inj hsym] at hvar
  obtain ⟨leaf, hl, hl'⟩ : ∃ leaf ∈ p.symbols.leaves slot.binding, leaf ∈ p.symbols.leaves b := by
    rcases Symbols.isAliasFor_iff.mp halias with heq | h
    · obtain ⟨leaf, hleaf⟩ := hp.sound.ordered.exists_leaf (hp.has slot hslot)
      exact ⟨leaf, hleaf, heq ▸ hleaf⟩
    · exact h
  exact hbacks.known b (href hQ) leaf ((hp.descends.grows.mem_leaves hp.base.ordered.closed hb).mp hl')
    ⟨slot, hslot, hl, hvar⟩

/-- What is no temporary behind a decoration was none before it. -/
theorem decorateExpr_plain {body e' : Expr} (h : decorateExpr body p = .ok e' q) (hq : q.Plain v) :
    p.Plain v := by
  rcases decorateExpr_eq_ok h with ⟨-, -, rfl⟩ | ⟨_, -, -, rfl⟩
  · exact hq
  · exact hq

/-- Behind an expression. -/
theorem Backs.after {ts : List BindingId} (h : Backs s q ts G v k) (he : e.Attributed s) (hp : p.Neat s)
    (hrun : lowerExpr ⟨hierarchy, matchBindings⟩ e p = .ok e' q) : Backs s q ts G v (e'.After v k) :=
  h.and fun _ hleaf => lowerExpr_undeclared he hp hrun
    ((Pass.Holds.follows_iff hp (lowerExpr_follows he hp hrun)).mp hleaf)

/-! ## §6. Reads of storage, by the form of the expression. -/

/-- Wherever the expression is lowered, its reads come after assignments. -/
def ReadsSure (s : Symbols) (Q : Span → Prop) (v : VarId) (hierarchy : Hierarchy) (e : Expr) : Prop :=
  ∀ {e' : Expr} {p q : Pass} {G : List Guard} {k : Prop},
    e.Attributed s → p.Neat s → lowerExpr ⟨hierarchy, matchBindings⟩ e p = .ok e' q → q.Plain v →
      Serves s p e → Backs s p e.tests G v k → e.EachRef (sited s Q) G → e'.Sure v (fun i => Q i.span) k

/-- So do those of expressions that are evaluated in order. -/
def ReadsSureAll (s : Symbols) (Q : Span → Prop) (v : VarId) (hierarchy : Hierarchy) (es : List Expr) :
    Prop :=
  ∀ {es' : List Expr} {p q : Pass} {G : List Guard} {k : Prop}, Expr.AttributedAll s es → p.Neat s →
    lowerExprs ⟨hierarchy, matchBindings⟩ es p = .ok es' q → q.Plain v →
      p.Avoids (Expr.gatherAll Expr.ownTests es) → Backs s p (Expr.gatherAll Expr.ownTests es) G v k →
        Expr.EachRefAll (sited s Q) G es → Expr.SureAll v (fun i => Q i.span) k es'

/-- So do those of the definitions of a let-expression. -/
def ReadsSureDefs (s : Symbols) (Q : Span → Prop) (v : VarId) (hierarchy : Hierarchy)
    (ds : List (VarId × Expr)) : Prop :=
  ∀ {ds' : List (VarId × Expr)} {p q : Pass} {G : List Guard} {k : Prop}, Expr.AttributedDefs s ds →
    (∀ x ∈ ds.map Prod.fst, x.index < s.vars.size) → p.Neat s →
    lowerDefs ⟨hierarchy, matchBindings⟩ ds p = .ok ds' q → q.Plain v →
      p.Avoids (Expr.gatherDefs Expr.ownTests ds) → Backs s p (Expr.gatherDefs Expr.ownTests ds) G v k →
        Expr.EachRefDefs (sited s Q) G ds → Expr.SureDefs v (fun i => Q i.span) k ds'

section

variable {i : ExprInfo} {c e l n r t y : Expr} {es : List Expr} {ds : List (VarId × Expr)} {w : VarId}

/-- A constant. -/
theorem readsSure_literal {w : Literal} : ReadsSure s Q v hierarchy (.literal i w) := by
  intro e' p q G k _ _ h _ _ _ _
  obtain ⟨rfl, -⟩ := pure_eq_ok.mp h
  trivial

/-- A variable of the source, which is none of the pass. -/
theorem readsSure_var (hv : s.vars.size ≤ v.index) : ReadsSure s Q v hierarchy (.ident i (.var w)) := by
  intro e' p q G k he _ h _ _ _ _
  obtain ⟨rfl, -⟩ := pure_eq_ok.mp h
  intro hsym
  have hw := he.declared w (by simp [Expr.ownVars])
  rw [Sym.var.inj hsym] at hw
  exact absurd hw (Nat.not_lt_of_le hv)

/-- A reference to a binding. -/
theorem readsSure_binding {b : BindingId} : ReadsSure s Q v hierarchy (.ident i (.binding b)) := by
  intro e' p q G k he hp h _ _ hbacks href
  exact lowerRef_sure hp (he.referred b (by simp [Expr.ownRefs])) hbacks href h

/-- An operator of one operand. -/
theorem readsSure_unary {op : UnOp} (ih : ReadsSure s Q v hierarchy e) : ReadsSure s Q v hierarchy (.unary i op e) := by
  intro e' p q G k he hp h hq hserves hbacks href
  obtain ⟨x, hx, rfl⟩ := bind_pure_eq_ok.mp h
  rw [Expr.tests_unary] at hbacks
  show x.Sure v _ k
  refine ih he.unary hp hx hq ?_ hbacks href
  cases op with
  | neg => exact (hserves.avoids fun _ => rfl).serves fun leaf hleaf => by rwa [Expr.tests_unary]
  | not =>
      intro leaf hleaf y hy
      obtain ⟨o, hlisted⟩ := hserves leaf (by rwa [Expr.tests_unary]) y hy
      exact ⟨!o, hlisted⟩

/-- An operator of two operands, the right one evaluated behind the left. -/
theorem readsSure_binary {op : BinOp} (ihl : ReadsSure s Q v hierarchy l) (ihr : ReadsSure s Q v hierarchy r) :
    ReadsSure s Q v hierarchy (.binary i op l r) := by
  intro e' p q G k he hp h hq hserves hbacks href
  obtain ⟨bs, p₁, x, q₁, y, q₂, q', hfacts, hx, hy, hdec, rfl⟩ := lowerExpr_binary_eq_ok h
  obtain ⟨hl, hr, hcross⟩ := he.binary
  rw [Expr.tests_binary] at hbacks
  have hasked := (operandFacts_meets op hp hl.tested).ok hfacts
  have hp₁ := hp.follows hasked.follows
  obtain ⟨news, hinto⟩ := hp₁.enter .binary hasked.carries
  have hfollows := lowerExpr_follows hl hinto.neat hx
  have hq₁ := hinto.neat.follows hfollows
  have hfollows' := lowerExpr_follows hr hq₁ hy
  have hplain : q₂.Plain v := decorateExpr_plain hdec hq
  -- in the frame, the left operand serves what is asked of it, and the right one has no storage yet
  obtain ⟨hsl, hsr⟩ := hserves.operands hl.tested hr.tested hcross
  have hsl₀ := (hsl.follows hp hasked.follows).enter hinto hp₁ hasked
  have hsr₁ := ((hsr.follows hp hasked.follows).enter_other hinto hp₁ hasked hl.tested hcross).follows
    hinto.neat hfollows
  have hbacks₀ := (hbacks.follows hp hasked.follows).enter hinto hp₁ hasked hl.tested
    fun leaf => List.mem_append_left _
  have hbacks₁ : Backs s q₁ r.tests (Guard.operands op l ++ G) v _ :=
    ((hbacks₀.sub fun leaf => List.mem_append_right _).within).follows hinto.neat hfollows
  -- only `&&` and `||` tell the right operand how the left one ended
  have hright : Backs s q₁ r.tests (Guard.rightOnly op l ++ (Guard.operands op l ++ G)) v
      (Expr.Between v (k ∧ v ∉ news.map (·.var)) op x) := by
    cases op with
    | and | or => exact hbacks₁.passed hsl₀ hl hinto.neat hx hcross
    | _ => exact hbacks₁.after hl hinto.neat hx
  refine decorateExpr_sure hdec ?_
  rw [hfollows'.stack, hfollows.stack, hinto.stack]
  exact ⟨ihl hl hinto.neat hx (hplain.before hfollows'.descends) hsl₀
      (hbacks₀.sub fun leaf => List.mem_append_left _).within href.1,
    ihr hr hq₁ hy hplain hsr₁ hright href.2⟩

/-- A conditional expression, one of whose branches is reached by each outcome. -/
theorem readsSure_conditional (ihc : ReadsSure s Q v hierarchy c) (ihy : ReadsSure s Q v hierarchy y)
    (ihn : ReadsSure s Q v hierarchy n) : ReadsSure s Q v hierarchy (.conditional i c y n) := by
  intro e' p q G k he hp h hq hserves hbacks href
  obtain ⟨bs, p₁, c', q₁, y', q₂, n', q₃, q', hask, hx, hy', hn', hdec, rfl⟩ :=
    lowerExpr_conditional_eq_ok h
  have havoids := hserves.avoids fun _ => rfl
  obtain ⟨hc, hy, hn, hcross⟩ := he.conditional
  rw [Expr.tests_conditional] at hbacks havoids
  have hasked := (asking_all_meets hp hc.tested).ok hask
  have hp₁ := hp.follows hasked.follows
  have havoids := havoids.follows hp hasked.follows
  obtain ⟨news, hinto⟩ := hp₁.enter .conditional hasked.carries
  have hfollows₁ := lowerExpr_follows hc hinto.neat hx
  have hq₁ := hinto.neat.follows hfollows₁
  have hfollows₂ := lowerExpr_follows hy hq₁ hy'
  have hq₂ := hq₁.follows hfollows₂
  have hfollows₃ := lowerExpr_follows hn hq₂ hn'
  have hplain₃ : q₃.Plain v := decorateExpr_plain hdec hq
  have hplain₂ : q₂.Plain v := hplain₃.before hfollows₃.descends
  -- the frame has storage for the condition only, so the branches meet theirs as it was outside
  have hserves₀ : Serves s _ c := (havoids.serves fun leaf => List.mem_append_left _).enter hinto hp₁ hasked
  have hserves₁ : ∀ {e : Expr}, (∀ leaf ∈ e.tests, leaf ∈ y.tests ++ n.tests) → Serves s q₁ e :=
    fun he => ((havoids.serves fun leaf hleaf => List.mem_append_right _ (he leaf hleaf)).enter_other
      hinto hp₁ hasked hc.tested fun leaf hleaf hmem =>
        hcross leaf hleaf (he leaf hmem)).follows hinto.neat hfollows₁
  have hbacks₀ : Backs s _ _ (Guard.around c ++ G) v (k ∧ v ∉ news.map (·.var)) :=
    ((hbacks.follows hp hasked.follows).enter hinto hp₁ hasked hc.tested
      fun leaf => List.mem_append_left _).around
  -- a branch is reached by one outcome of the condition
  have hbranch : ∀ {e : Expr} {o : Bool}, (∀ leaf ∈ e.tests, leaf ∈ y.tests ++ n.tests) →
      Backs s q₁ e.tests (.passed c o :: (Guard.around c ++ G)) v (c'.When v (k ∧ v ∉ news.map (·.var)) o) :=
    fun he => ((hbacks₀.sub fun leaf hleaf => List.mem_append_right _ (he leaf hleaf)).follows
      hinto.neat hfollows₁).passed hserves₀ hc hinto.neat hx fun leaf hleaf hmem =>
        hcross leaf hleaf (he leaf hmem)
  refine decorateExpr_sure hdec ?_
  rw [hfollows₃.stack, hfollows₂.stack, hfollows₁.stack, hinto.stack]
  exact ⟨ihc hc hinto.neat hx (hplain₂.before hfollows₂.descends) hserves₀
      (hbacks₀.sub fun leaf => List.mem_append_left _) href.1,
    ihy hy hq₁ hy' hplain₂ (hserves₁ fun leaf => List.mem_append_left _)
      (hbranch fun leaf => List.mem_append_left _) href.2.1,
    ihn hn hq₂ hn' hplain₃
      ((hserves₁ fun leaf => List.mem_append_right _).follows hq₁ hfollows₂)
      ((hbranch fun leaf => List.mem_append_right _).follows hq₁ hfollows₂) href.2.2⟩

/-- An assignment, whose target is not read. -/
theorem readsSure_assign (ih : ReadsSure s Q v hierarchy r) : ReadsSure s Q v hierarchy (.assign i t r) := by
  intro e' p q G k he hp h hq hserves hbacks href
  have havoids := hserves.avoids fun _ => rfl
  obtain ⟨t', p₁, w', ht', hw', rfl⟩ := bind_bind_pure_eq_ok.mp h
  obtain ⟨ht, hw⟩ := he.assign
  rw [Expr.tests_assign] at hbacks havoids
  have hfollows := lowerExpr_follows ht hp ht'
  -- the target is not evaluated
  show w'.Sure v _ k
  exact ih hw (hp.follows hfollows) hw' hq
    ((havoids.serves fun leaf => List.mem_append_right _).follows hp hfollows)
    ((hbacks.sub fun leaf => List.mem_append_right _).follows hp hfollows) href.2

/-- A cast. -/
theorem readsSure_cast {t : Ty} (ih : ReadsSure s Q v hierarchy e) : ReadsSure s Q v hierarchy (.cast i t e) := by
  intro e' p q G k he hp h hq hserves hbacks href
  obtain ⟨x, hx, rfl⟩ := bind_pure_eq_ok.mp h
  have havoids := hserves.avoids fun _ => rfl
  rw [Expr.tests_cast] at hbacks havoids
  show x.Sure v _ k
  exact ih he.cast hp hx hq (havoids.serves fun _ => id) hbacks href

/-- A test without a pattern. -/
theorem readsSure_instanceOf {t : Ty} (ih : ReadsSure s Q v hierarchy e) : ReadsSure s Q v hierarchy (.instanceOf i e t) := by
  intro e' p q G k he hp h hq hserves hbacks href
  obtain ⟨x, hx, rfl⟩ := bind_pure_eq_ok.mp h
  have havoids := hserves.avoids fun _ => rfl
  rw [Expr.tests_instanceOf] at hbacks havoids
  show x.Sure v _ k
  exact ih he.instanceOf hp hx hq (havoids.serves fun _ => id) hbacks href

/-- A pattern, whose lowered form reads its temporary. -/
theorem readsSure_typeTest {pattern : BindingPattern} (ih : ReadsSure s Q v hierarchy e) :
    ReadsSure s Q v hierarchy (.typeTest i e pattern) := by
  intro e' p q G k he hp h hq hserves hbacks href
  obtain ⟨x, p₁, hx, htest⟩ := bind_eq_ok.mp h
  obtain ⟨hleaf, he, honce⟩ := he.typeTest
  rw [Expr.tests_typeTest] at hbacks
  have hfollows := lowerExpr_follows he hp hx
  have htest' := (lowerTest_meets (hp.follows hfollows) hleaf e.ty x i.span).ok htest
  -- the one pattern that something is listed for is that of the test
  have havoids : p.Avoids e.tests := .of_not_holds fun leaf hleaf y hy => by
    obtain ⟨o, g, hg, hmem, -⟩ := hserves leaf
      (by rw [Expr.tests_typeTest]; exact List.mem_cons_of_mem _ hleaf) y hy
    cases o with
    | false => exact absurd hg List.not_mem_nil
    | true =>
        rw [List.mem_singleton.mp hg] at hmem
        exact honce (List.mem_singleton.mp hmem ▸ hleaf)
  have hsure := ih he hp hx (hq.before htest'.descends) (havoids.serves fun _ => id)
    (hbacks.sub fun leaf => List.mem_cons_of_mem _) href
  obtain ⟨symbol, test, size, -, hIsTest, -, rfl, rfl⟩ := lowerTest_eq_ok htest
  refine ⟨⟨hsure, trivial⟩, hIsTest.sure fun heq => ?_⟩
  have hsynthetic := hq _ (by rw [← heq]; exact Array.getElem?_push_size)
  exact absurd hsynthetic (by simp)

/-- A call. -/
theorem readsSure_call {f : String} (ih : ReadsSureAll s Q v hierarchy es) : ReadsSure s Q v hierarchy (.call i f es) := by
  intro e' p q G k he hp h hq hserves hbacks href
  have havoids := hserves.avoids fun _ => rfl
  obtain ⟨es', hes, rfl⟩ := bind_pure_eq_ok.mp h
  rw [Expr.tests_call] at hbacks havoids
  show Expr.SureAll v _ k es'
  exact ih he.call hp hes hq havoids hbacks href

/-- A call on a receiver. -/
theorem readsSure_methodCall {f : String} (ihe : ReadsSure s Q v hierarchy e) (ihes : ReadsSureAll s Q v hierarchy es) :
    ReadsSure s Q v hierarchy (.methodCall i e f es) := by
  intro e' p q G k he hp h hq hserves hbacks href
  have havoids := hserves.avoids fun _ => rfl
  obtain ⟨x, p₁, es', hx, hes, rfl⟩ := bind_bind_pure_eq_ok.mp h
  obtain ⟨he, hall⟩ := he.methodCall
  rw [Expr.tests_methodCall] at hbacks havoids
  have hfollows := lowerExpr_follows he hp hx
  have hp₁ := hp.follows hfollows
  have hfollows' := ((lowerExprs_meets hierarchy es hall hp₁).ok hes).follows
  exact ⟨ihe he hp hx (hq.before hfollows'.descends)
      (havoids.serves fun leaf => List.mem_append_left _)
      (hbacks.sub fun leaf => List.mem_append_left _) href.1,
    ihes hall hp₁ hes hq
      ((havoids.mono fun leaf => List.mem_append_right _).follows hp hfollows)
      (((hbacks.sub fun leaf => List.mem_append_right _).follows hp hfollows).after he hp hx) href.2⟩

/-- A let-expression, whose variables are those of the source. -/
theorem readsSure_letIn (hv : s.vars.size ≤ v.index) (ihds : ReadsSureDefs s Q v hierarchy ds) (ihe : ReadsSure s Q v hierarchy e) :
    ReadsSure s Q v hierarchy (.letIn i ds e) := by
  intro e' p q G k he hp h hq hserves hbacks href
  have havoids := hserves.avoids fun _ => rfl
  obtain ⟨ds', p₁, x, hds, hx, rfl⟩ := bind_bind_pure_eq_ok.mp h
  obtain ⟨hold, hall, he⟩ := he.letIn
  rw [Expr.tests_letIn] at hbacks havoids
  have hmeets := (lowerDefs_meets hierarchy ds hall hp).ok hds
  have hp₁ := hp.follows hmeets.follows
  have hfollows' := lowerExpr_follows he hp₁ hx
  refine ⟨ihds hall hold hp hds (hq.before hfollows'.descends)
      (havoids.mono fun leaf => List.mem_append_left _)
      (hbacks.sub fun leaf => List.mem_append_left _) href.1,
    ihe he hp₁ hx hq
      ((havoids.serves fun leaf => List.mem_append_right _).follows hp hmeets.follows)
      (((hbacks.sub fun leaf => List.mem_append_right _).and fun leaf hleaf => ?_).follows hp
        hmeets.follows) href.2⟩
  have hflow : (⟨hierarchy, matchBindings⟩ : Rules).flow.KeepsVars := Flow.matchBindings_keepsVars
  obtain ⟨hfst, hlow⟩ := lowerDefs_lowers hflow ds hold hall.declared hds
  refine ⟨fun hmem => ?_, hlow.adds.notMem hv (hleaf.range hp).2⟩
  rw [hfst] at hmem
  exact absurd (hold v hmem) (Nat.not_lt_of_le hv)

/-- No expression. -/
theorem readsSureAll_nil : ReadsSureAll s Q v hierarchy [] := by
  intro es' p q G k _ _ h _ _ _ _
  obtain ⟨rfl, -⟩ := pure_eq_ok.mp h
  trivial

/-- An expression and those behind it. -/
theorem readsSureAll_cons (ihe : ReadsSure s Q v hierarchy e) (ihes : ReadsSureAll s Q v hierarchy es) :
    ReadsSureAll s Q v hierarchy (e :: es) := by
  intro es' p q G k he hp h hq havoids hbacks href
  obtain ⟨x, p₁, xs, hx, hxs, rfl⟩ := bind_bind_pure_eq_ok.mp h
  rw [Expr.gatherAll_cons] at hbacks havoids
  obtain ⟨he, hall, -⟩ := Expr.attributedAll_cons.mp he
  have hfollows := lowerExpr_follows he hp hx
  have hp₁ := hp.follows hfollows
  have hfollows' := ((lowerExprs_meets hierarchy es hall hp₁).ok hxs).follows
  exact ⟨ihe he hp hx (hq.before hfollows'.descends)
      (havoids.serves fun leaf => List.mem_append_left _)
      (hbacks.sub fun leaf => List.mem_append_left _) href.1,
    ihes hall hp₁ hxs hq
      ((havoids.mono fun leaf => List.mem_append_right _).follows hp hfollows)
      (((hbacks.sub fun leaf => List.mem_append_right _).follows hp hfollows).after he hp hx) href.2⟩

/-- No definition. -/
theorem readsSureDefs_nil : ReadsSureDefs s Q v hierarchy [] := by
  intro ds' p q G k _ _ _ h _ _ _ _
  obtain ⟨rfl, -⟩ := pure_eq_ok.mp h
  trivial

/-- A definition and those behind it. -/
theorem readsSureDefs_cons (hv : s.vars.size ≤ v.index) (ihe : ReadsSure s Q v hierarchy e) (ihds : ReadsSureDefs s Q v hierarchy ds) :
    ReadsSureDefs s Q v hierarchy ((w, e) :: ds) := by
  intro ds' p q G k he hold hp h hq havoids hbacks href
  obtain ⟨x, p₁, xs, hx, hxs, rfl⟩ := bind_bind_pure_eq_ok.mp h
  rw [Expr.gatherDefs_cons] at hbacks havoids
  obtain ⟨he, hall, -⟩ := Expr.attributedDefs_cons.mp he
  have hfollows := lowerExpr_follows he hp hx
  have hp₁ := hp.follows hfollows
  have hfollows' := ((lowerDefs_meets hierarchy ds hall hp₁).ok hxs).follows
  have hw : v ≠ w := by
    rintro rfl
    exact absurd (hold v List.mem_cons_self) (Nat.not_lt_of_le hv)
  exact ⟨ihe he hp hx (hq.before hfollows'.descends)
      (havoids.serves fun leaf => List.mem_append_left _)
      (hbacks.sub fun leaf => List.mem_append_left _) href.1,
    ihds hall (fun x hx => hold x (List.mem_cons_of_mem _ hx)) hp₁ hxs hq
      ((havoids.mono fun leaf => List.mem_append_right _).follows hp hfollows)
      ((((hbacks.sub fun leaf => List.mem_append_right _).follows hp hfollows).after he hp hx).and
        fun _ _ => hw) href.2⟩

end

mutual
/-- **An expression**: each read of the variable, at a place where references
stand for certain, comes after an assignment. -/
theorem lowerExpr_sure (hv : s.vars.size ≤ v.index) : ∀ e : Expr, ReadsSure s Q v hierarchy e
  | .literal _ _ => readsSure_literal
  | .ident _ (.var _) => readsSure_var hv
  | .ident _ (.binding _) => readsSure_binding
  | .unary _ _ e => readsSure_unary (lowerExpr_sure hv e)
  | .binary _ _ l r => readsSure_binary (lowerExpr_sure hv l) (lowerExpr_sure hv r)
  | .conditional _ c y n =>
      readsSure_conditional (lowerExpr_sure hv c) (lowerExpr_sure hv y) (lowerExpr_sure hv n)
  | .assign _ _ r => readsSure_assign (lowerExpr_sure hv r)
  | .cast _ _ e => readsSure_cast (lowerExpr_sure hv e)
  | .instanceOf _ e _ => readsSure_instanceOf (lowerExpr_sure hv e)
  | .typeTest _ e _ => readsSure_typeTest (lowerExpr_sure hv e)
  | .call _ _ es => readsSure_call (lowerExprs_sure hv es)
  | .methodCall _ e _ es => readsSure_methodCall (lowerExpr_sure hv e) (lowerExprs_sure hv es)
  | .letIn _ ds e => readsSure_letIn hv (lowerDefs_sure hv ds) (lowerExpr_sure hv e)
/-- Expressions in order. -/
theorem lowerExprs_sure (hv : s.vars.size ≤ v.index) : ∀ es : List Expr, ReadsSureAll s Q v hierarchy es
  | [] => readsSureAll_nil
  | e :: es => readsSureAll_cons (lowerExpr_sure hv e) (lowerExprs_sure hv es)
/-- Definitions in order. -/
theorem lowerDefs_sure (hv : s.vars.size ≤ v.index) : ∀ ds : List (VarId × Expr), ReadsSureDefs s Q v hierarchy ds
  | [] => readsSureDefs_nil
  | (_, e) :: ds => readsSureDefs_cons hv (lowerExpr_sure hv e) (lowerDefs_sure hv ds)
end

end Lowering

end PatternIR
