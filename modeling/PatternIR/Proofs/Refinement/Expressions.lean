/-
  PatternIR.Proofs.Refinement.Expressions
  ───────────────────────────────────────
  **LOWERED EXPRESSIONS MEAN THE SAME.**

  Where storage fits an expression and what its references know is stored, the
  expression that lowering makes of it means the same.  `&&`, `||` and `? :`
  are lowered in a frame for what their left operand or condition binds; it
  stores groups of the condition, so storage still fits the parts.

    • `Expr.suits` — what is asked of a node;
    • `decorated_means` — storage defined around an expression;
    • `MeansSame` — what is shown of an expression, one lemma for each kind;
    • `lowerExpr_means` — the expression and the lowered one.
-/
import PatternIR.Proofs.Lowering.Places
import PatternIR.Proofs.Lowering.Statements

namespace PatternIR

/-! ## §1. What is asked of a node. -/

/-- Type tests are boolean, have an unmerged binding of a reference type, and an
operand that is neither primitive nor certain to match; bindings that are
assigned are unmerged. -/
def Expr.suits (u : Symbols) (h : Hierarchy) : Expr → Bool
  | .typeTest i e pattern => decide (i.ty = .boolean) && pattern.declared.isSome && !e.ty.isPrimitive
      && (u.binding? pattern.binding).any fun sym => !sym.isMerged && sym.ty.isReference
        && !h.isSubtype e.ty sym.ty.erasure.boxed
  | .assign _ (.ident _ (.binding b)) _ => (u.binding? b).all fun sym => !sym.isMerged
  | _ => true

/-- A type test of a node that suits. -/
theorem Expr.suits_typeTest {u : Symbols} {h : Hierarchy} {i : ExprInfo} {e : Expr}
    {pattern : BindingPattern} (hs : (Expr.typeTest i e pattern).suits u h = true) :
    i.ty = .boolean ∧ pattern.declared.isSome = true ∧ e.ty.isPrimitive = false
      ∧ ∃ sym, u.binding? pattern.binding = some sym ∧ sym.components = []
        ∧ sym.ty.isReference = true ∧ h.isSubtype e.ty sym.ty.erasure.boxed = false := by
  simpa [Expr.suits, Option.any_eq_true, BindingSymbol.isMerged, and_assoc] using hs

/-- The binding that a node assigns. -/
theorem Expr.suits_assign {u : Symbols} {h : Hierarchy} {i j : ExprInfo} {v : Expr} {b : BindingId}
    (hs : (Expr.assign i (.ident j (.binding b)) v).suits u h = true) (hb : u.Has b) : u.isLeaf b = true := by
  obtain ⟨sym, hsym⟩ := Symbols.has_iff.mp hb
  rw [Expr.suits, hsym] at hs
  rw [Symbols.isLeaf, hsym]
  exact hs

namespace Flow

/-- The nodes of a tree fit the table `s` and suit the table `u`, and its
references and variables are of `u`. -/
structure Suits (u s : Symbols) (h : Hierarchy) (nodes : List Expr) (tests : List BindingId)
    (vars : List VarId) : Prop where
  fits : Fits s nodes tests
  node : ∀ x ∈ nodes, x.suits u h = true
  refs : ∀ x ∈ nodes, ∀ b ∈ x.ownRefs, u.Has b
  tests : ∀ leaf ∈ tests, u.isLeaf leaf = true ∧ u.Refers leaf
  vars : ∀ v ∈ vars, v.index < u.vars.size

/-- Two parts suit together if each does and they test for different bindings. -/
theorem suits_append {u s : Symbols} {h : Hierarchy} {ns ns' : List Expr} {ts ts' : List BindingId}
    {vs vs' : List VarId} : Suits u s h (ns ++ ns') (ts ++ ts') (vs ++ vs')
      ↔ Suits u s h ns ts vs ∧ Suits u s h ns' ts' vs' ∧ ∀ b ∈ ts, b ∉ ts' := by
  constructor
  · rintro ⟨hfits, hnode, hrefs, htests, hvars⟩
    obtain ⟨hf, hf', hcross⟩ := fits_append.mp hfits
    exact ⟨⟨hf, fun x hx => hnode x (List.mem_append_left _ hx),
        fun x hx => hrefs x (List.mem_append_left _ hx),
        fun b hb => htests b (List.mem_append_left _ hb), fun v hv => hvars v (List.mem_append_left _ hv)⟩,
      ⟨hf', fun x hx => hnode x (List.mem_append_right _ hx),
        fun x hx => hrefs x (List.mem_append_right _ hx),
        fun b hb => htests b (List.mem_append_right _ hb), fun v hv => hvars v (List.mem_append_right _ hv)⟩,
      hcross⟩
  · rintro ⟨h, h', hcross⟩
    refine ⟨fits_append.mpr ⟨h.fits, h'.fits, hcross⟩, ?_, ?_, ?_, ?_⟩
    · exact fun x hx => (List.mem_append.mp hx).elim (h.node x) (h'.node x)
    · exact fun x hx => (List.mem_append.mp hx).elim (h.refs x) (h'.refs x)
    · exact fun b hb => (List.mem_append.mp hb).elim (h.tests b) (h'.tests b)
    · exact fun v hv => (List.mem_append.mp hv).elim (h.vars v) (h'.vars v)

end Flow

/-- The nodes of an expression suit. -/
def Expr.Suits (u s : Symbols) (h : Hierarchy) (e : Expr) : Prop :=
  Flow.Suits u s h (e.gather Expr.ownNode) e.tests e.vars

namespace Lowering

open PatternIR.Flow

variable {ω : Type} {setting setting' : Setting ω} {s : Symbols} {p q : Pass}
  {known : BindingId → Prop} {e e' : Expr}

/-! ## §2. Runs. -/

/-- A run that succeeds ends in a later state. -/
theorem Runs.later {α : Type} {c : Lowering α} {a : α} (hc : Runs c p) (h : c p = .ok a q) :
    p.Later q := by
  obtain ⟨a', q', heq, hlater⟩ := runs_iff.mp hc
  rw [h] at heq
  injection heq with _ hq
  exact hq ▸ hlater

/-- A variable of a reference type takes every value. -/
theorem takesAll_of {t : Symbols} {x : VarId} {sym : VarSymbol} (hx : t.var? x = some sym)
    (hty : sym.ty.isPrimitive = false) (ht : t.Evolves setting'.program.symbols) :
    TakesAll setting' x := by
  intro sym' hsym'
  rw [ht.vars hx] at hsym'
  injection hsym' with heq
  exact heq ▸ hty

/-- The place of a state, for the program of the setting. -/
abbrev Pass.at (setting : Setting ω) (s : Symbols) (known : BindingId → Prop) (p : Pass) : Place :=
  p.place setting.program.symbols s known

/-- What means the same further on, means the same here. -/
theorem Means.back (h : Means setting setting' (q.at setting s known) e e')
    {known' : BindingId → Prop} (hp : p.Stocked s known') (hlater : p.Later q) :
    Means setting setting' (p.at setting s known) e e' := by
  refine h.extends_ ?_ hlater.evolves.size_le fun _ => id
  show (p.storage s).Extends (q.storage s) _
  rw [hp.tidy.storage_later hp.ready.sound hlater]
  exact .refl _ _

/-- The definitions of slots are default values of variables that take any value. -/
theorem DefinesSlots.defaults {t : Symbols} {span : Span} {id : NodeId} {slots : List Slot}
    {defs : List (VarId × Expr)} {bound : Nat} (h : DefinesSlots t span id slots defs)
    (hslots : ∀ slot ∈ slots, bound ≤ slot.var.index ∧ TakesAll setting' slot.var) :
    ∀ d ∈ defs, Default setting' bound d.1 d.2 := by
  induction h with
  | nil id => exact fun _ hd => absurd hd List.not_mem_nil
  | cons hsym hv rest ih =>
      intro d hd
      rcases List.mem_cons.mp hd with rfl | hd
      · obtain ⟨hbound, htakes⟩ := hslots _ List.mem_cons_self
        exact ⟨⟨_, _, rfl⟩, hbound, htakes⟩
      · exact ih (fun slot hslot => hslots slot (List.mem_cons_of_mem _ hslot)) d hd

/-- The slots of a frame take any value, and are behind the variables in front of it. -/
theorem Pass.Opened.defaults {kind : FrameKind} {c whole : Expr} {outcomes : List Bool}
    {news : List Slot} (h : Pass.Opened s known kind c outcomes whole news p q)
    (hq : q.symbols.Evolves setting'.program.symbols) :
    ∀ slot ∈ news, p.symbols.vars.size ≤ slot.var.index ∧ TakesAll setting' slot.var := by
  intro slot hslot
  have hmem : slot ∈ q.stack.slots := by
    rw [h.stack]
    exact List.mem_append_left _ hslot
  obtain ⟨x, hx, hty⟩ := h.stocked.tidy.reference slot hmem
  exact ⟨h.behind slot hslot, takesAll_of hx (Ty.not_isPrimitive hty) hq⟩

/-- **An expression as its frame leaves it.** -/
theorem decorated_means {kind : FrameKind} {c whole e₁ : Expr} {outcomes : List Bool}
    {news : List Slot} {q₁ q₂ : Pass} (hus : setting.program.symbols.Evolves s) (hp : p.Stocked s known)
    (hopened : Pass.Opened s known kind c outcomes whole news p q) (hlater : q.Later q₁)
    (hdec : decorateExpr e₁ q₁ = .ok e' q₂) (hq : q₂.symbols.Evolves setting'.program.symbols)
    (h : Means setting setting' (q.at setting s known) e e₁) :
    Means setting setting' (p.at setting s known) e e' ∧ e'.ty = e₁.ty := by
  have hsize : setting.program.symbols.vars.size ≤ (p.at setting s known).bound :=
    Nat.le_trans hus.size_le hp.ready.sound.evolves.size_le
  have hmeans : Means setting setting' (p.at setting s known) e e₁ :=
    h.extends_ hopened.extends_ hopened.evolves.size_le fun _ => id
  rcases decorateExpr_eq_ok hdec with ⟨-, rfl, -⟩ | ⟨defs, hdefs, rfl, rfl⟩
  · exact ⟨hmeans, rfl⟩
  · rw [hlater.stack, hopened.stack] at hdefs
    exact ⟨.letStorage hsize (hdefs.defaults (hopened.defaults (hlater.evolves.trans hq))) hmeans, rfl⟩

/-- Lowering makes references only of references. -/
theorem lowerExpr_not_ident {rules : Rules} {t t' : Expr} (ht : ∀ j sym, t ≠ .ident j sym)
    (h : lowerExpr rules t p = .ok t' q) : ∀ j sym, t' ≠ .ident j sym := by
  have hdec : ∀ {e e' : Expr} {p q : Pass}, (∀ j sym, e ≠ .ident j sym) → decorateExpr e p = .ok e' q →
      ∀ j sym, e' ≠ .ident j sym := by
    intro e e' p q he h
    rcases decorateExpr_eq_ok h with ⟨-, rfl, -⟩ | ⟨defs, -, rfl, -⟩
    · exact he
    · exact fun _ _ => Expr.noConfusion
  cases t with
  | ident i sym => exact absurd rfl (ht i sym)
  | literal i v =>
      obtain ⟨rfl, -⟩ := pure_eq_ok.mp h
      exact fun _ _ => Expr.noConfusion
  | unary i op e | cast i _ e | instanceOf i e _ =>
      obtain ⟨e', -, rfl⟩ := bind_pure_eq_ok.mp h
      exact fun _ _ => Expr.noConfusion
  | call i f es =>
      obtain ⟨es', -, rfl⟩ := bind_pure_eq_ok.mp h
      exact fun _ _ => Expr.noConfusion
  | assign i t v | methodCall i t _ v | letIn i t v =>
      obtain ⟨t', q₁, v', -, -, rfl⟩ := bind_bind_pure_eq_ok.mp h
      exact fun _ _ => Expr.noConfusion
  | typeTest i e pattern =>
      obtain ⟨e', q₁, -, hrest⟩ := bind_eq_ok.mp h
      obtain ⟨symbol, test, size, -, -, -, rfl, -⟩ := lowerTest_eq_ok hrest
      exact fun _ _ => Expr.noConfusion
  | binary i op l r =>
      obtain ⟨_, _, l', _, r', _, _, -, -, -, hlast, -⟩ := lowerExpr_binary_eq_ok h
      exact hdec (fun _ _ => Expr.noConfusion) hlast
  | conditional i c y n =>
      obtain ⟨_, _, c', _, y', _, n', _, _, -, -, -, -, hlast, -⟩ := lowerExpr_conditional_eq_ok h
      exact hdec (fun _ _ => Expr.noConfusion) hlast

/-! ## §3. Expressions. -/

/-- Decorating an expression leaves the table alone. -/
theorem decorateExpr_symbols {e₁ : Expr} (h : decorateExpr e₁ p = .ok e' q) : q.symbols = p.symbols := by
  rcases decorateExpr_eq_ok h with ⟨-, -, rfl⟩ | ⟨-, -, -, rfl⟩ <;> rfl

/-- What is known in the right operand, or in a branch, is known in front or told. -/
theorem scope_of_listed (twin : Twin setting setting') (hus : setting.program.symbols.Evolves s)
    {c : Expr} {o : Bool} (hc : c.Suits setting.program.symbols s setting.hierarchy) {b : BindingId}
    (hb : known b ∨ b ∈ (matchBindings c o s).1) (hhas : setting.program.symbols.Has b) :
    (known b ∧ setting.program.symbols.Has b) ∨ Told setting.program.symbols c o b :=
  hb.imp (fun hb => ⟨hb, hhas⟩) fun hb => told_of_listed hus hus.sound hc.fits
    (fun leaf hleaf => .of_isLeaf (hc.tests leaf hleaf).1) hb hhas twin.sound

/-- What an operation passes to its right operand, it tells itself. -/
theorem groups_passed {i : ExprInfo} (op : BinOp) {l r : Expr} : ∀ o ∈ op.passes?.toList,
    ∀ g ∈ groups s l o, ∃ o', g ∈ groups s (.binary i op l r) o' := by
  intro o ho g hg
  refine ⟨o, ?_⟩
  cases op with
  | and | or =>
      simp only [BinOp.passes?, Option.toList_some, List.mem_singleton] at ho
      subst ho
      simp [groups, hg]
  | _ => exact absurd ho (by simp [BinOp.passes?])

/-- An expression means the same as the lowered one, and has the same type. -/
structure Lowered (setting setting' : Setting ω) (P : Place) (e e' : Expr) : Prop where
  means : Means setting setting' P e e'
  ty : e'.ty = e.ty

/-- What is lowered later on is lowered here, since storage only grows. -/
theorem Lowered.back (h : Lowered setting setting' (q.at setting s known) e e')
    {known' : BindingId → Prop} (hp : p.Stocked s known') (hlater : p.Later q) :
    Lowered setting setting' (p.at setting s known) e e' :=
  ⟨h.means.back hp hlater, h.ty⟩

section

variable (twin : Twin setting setting') (hus : setting.program.symbols.Evolves s)

include twin hus

/-- **A type test as lowering leaves it.** -/
theorem lowerTest_means {i : ExprInfo} {pattern : BindingPattern} {o' : Expr} {q₁ : Pass}
    (hnode : (Expr.typeTest i e pattern).suits setting.program.symbols setting.hierarchy = true)
    (hp : p.Stocked s known) (hlater : p.Later q₁)
    (he : Means setting setting' (p.at setting s known) e o')
    (h : lowerTest ⟨setting.hierarchy, matchBindings⟩ e.ty o' pattern i.span q₁ = .ok e' q)
    (hq : q.symbols.Evolves setting'.program.symbols) :
    Lowered setting setting' (p.at setting s known) (.typeTest i e pattern) e' := by
  obtain ⟨hty, hdeclared, hprim, sym, hsym, hcomp, href, hsub⟩ := Expr.suits_typeTest hnode
  have hleaf : setting.program.symbols.isLeaf pattern.binding = true :=
    Symbols.isLeaf_iff.mpr ⟨sym, hsym, hcomp⟩
  obtain ⟨symbol, test, size, hsymbol, htest, hsome, rfl, rfl⟩ := lowerTest_eq_ok h
  have hp₁ := hp.later hlater
  have hevolves := hus.trans hp₁.ready.sound.evolves
  obtain ⟨flag, hflag, -⟩ := hevolves.grows.entry hsym
  rw [hsymbol] at hflag
  injection hflag with hflag
  have hsymty : symbol.ty = sym.ty := by rw [hflag]
  -- the type of the operand is no subtype of that of the pattern, so the test is not certain
  have hcertain : certain ⟨setting.hierarchy, matchBindings⟩ e.ty pattern symbol.ty.erasure.boxed = false := by
    rw [hsymty, certain, hprim, hsub, Bool.and_false, Bool.or_false, Bool.or_false]
    simpa using hdeclared
  rw [hcertain, hsymty] at htest
  have hadd : q₁.symbols.Evolves (addTemp q₁.symbols symbol e.ty) :=
    Symbols.evolves_addVar hp₁.ready.sound.evolves.sound
  -- the temporary is a reference, as the operand or its type is
  have htakes : TakesAll setting' ⟨q₁.symbols.vars.size⟩ := by
    have hvar : (addTemp q₁.symbols symbol e.ty).var? ⟨q₁.symbols.vars.size⟩
        = some ⟨⟨q₁.symbols.vars.size⟩, symbol.name ++ "$temp", tempTy e.ty, symbol.owner, true⟩ :=
      Array.getElem?_push_size
    refine takesAll_of hvar ?_ hq
    show (tempTy e.ty).isPrimitive = false
    unfold tempTy
    split
    · rfl
    · exact hprim
  -- the storage of the pattern is what the pass resolves it to, the new temporary aside
  have hstorage : p.storage s pattern.binding
      = (storageOf q₁.stack (addTemp q₁.symbols symbol e.ty) pattern.binding).map Prod.fst := by
    rw [← hp.tidy.storage_later hp.ready.sound hlater, Pass.storage, if_pos (hus.grows.isLeaf hleaf)]
    show q₁.stack.resolve (addTemp q₁.symbols symbol e.ty) pattern.binding = _
    unfold storageOf at hsome ⊢
    cases hx : q₁.stack.resolve (addTemp q₁.symbols symbol e.ty) pattern.binding with
    | none => rfl
    | some x =>
        have hx' : q₁.stack.resolve q₁.symbols pattern.binding = some x := hx
        rw [hx', hx, Option.bind_some, Option.isSome_map] at hsome
        obtain ⟨y, hy⟩ := Option.isSome_iff_exists.mp (hsome rfl)
        rw [Option.bind_some, hy]
        rfl
  refine ⟨.typeTest twin hsym hleaf hdeclared href he (Nat.le_trans hus.size_le
    hp.ready.sound.evolves.size_le) hlater.evolves.size_le htakes htest hstorage ?_ ?_, hty.symm⟩
  · intro leaf x hx
    obtain ⟨-, slot, hslot, -, rfl⟩ := (hp.tidy.storage_eq hp.ready.sound).mp hx
    exact ⟨Nat.le_trans hus.size_le (hp.tidy.range slot hslot).1, (hp.tidy.range slot hslot).2⟩
  · intro x xTy hx
    obtain ⟨y, hy, hxy⟩ := Option.bind_eq_some_iff.mp hx
    obtain ⟨ysym, hysym, heq⟩ := Option.map_eq_some_iff.mp hxy
    injection heq with hyx hxTy
    obtain ⟨slot, hslot, rfl⟩ := Stack.mem_slots_of_resolve hy
    obtain ⟨z, hz, hzty⟩ := hp₁.tidy.reference slot hslot
    rw [hadd.vars hz] at hysym
    injection hysym with hzy
    rw [← hxTy, ← hzy, Ty.erasure_isReference]
    exact hzty

omit twin in
/-- Entering the frame of a condition that suits. -/
theorem Pass.Stocked.opens (hp : p.Stocked s known) (kind : FrameKind) {c whole : Expr}
    {outcomes : List Bool} {answer : List BindingId × Symbols}
    (hc : c.Suits setting.program.symbols s setting.hierarchy)
    (hanswer : Answers s c outcomes p.symbols answer)
    (hwhole : ∀ leaf ∈ whole.tests, setting.program.symbols.isLeaf leaf = true)
    (hgroups : ∀ o ∈ outcomes, ∀ g ∈ groups s c o, ∃ o', g ∈ groups s whole o')
    (hpart : ∀ {ρ : Storage}, ρ.Fits s whole → ρ.Fits s c) (hfits : (p.storage s).Fits s whole) :
    ∃ news, Pass.Opened s known kind c outcomes whole news p
      (Pass.enter { p with symbols := answer.2 } kind answer.1) :=
  hp.opened kind hc.fits (fun leaf hleaf => (hc.tests leaf hleaf).2.grows hus.grows) hanswer
    (fun leaf hleaf => hus.grows.isLeaf (hwhole leaf hleaf)) hgroups hpart hfits

/-- **An operation**, lowered in a frame for what its left operand binds. -/
theorem lowered_binary {i : ExprInfo} {op : BinOp} {l r l' r' : Expr} {q₀ q₁ q₂ : Pass}
    (hl : l.Suits setting.program.symbols s setting.hierarchy)
    (hcross : ∀ leaf ∈ l.tests, leaf ∉ r.tests) (hp : p.Stocked s known) {news : List Slot}
    (hopened : Pass.Opened s known .binary l op.passes?.toList (.binary i op l r) news p q₀)
    (hlater : q₀.Later q₁) (hdec : decorateExpr (.binary i op l' r') q₁ = .ok e' q₂)
    (hq : q₂.symbols.Evolves setting'.program.symbols)
    (hl' : Lowered setting setting' (q₀.at setting s known) l l')
    (hr' : Lowered setting setting'
      (q₀.at setting s fun b => known b ∨ ∃ o ∈ op.passes?, b ∈ (matchBindings l o s).1) r r') :
    Lowered setting setting' (p.at setting s known) (.binary i op l r) e' := by
  have hmeans : Means setting setting' (q₀.at setting s known) (.binary i op l r) (.binary i op l' r') := by
    cases hd : op.decides? with
    | none =>
        -- an operator that needs both operands lets nothing through to the right one
        have hnone : op.passes? = none := by
          cases op with
          | and | or => exact absurd hd (by simp [BinOp.decides?])
          | _ => rfl
        have hright := hr'.means
        rw [hnone] at hright
        refine .strict hd hl'.means (hright.extends_ (.refl _ _) (Nat.le_refl _) ?_) hl'.ty hr'.ty rfl
        rintro b ⟨hb | ⟨o, ho, -⟩, hhas⟩
        · exact ⟨hb, hhas⟩
        · exact absurd ho (by simp)
    | some d =>
        -- `&&` and `||` let through what the other outcome than the one that decides has told
        have hpasses : op.passes? = some !d := by
          cases op with
          | and | or =>
              injection hd with hd
              subst hd
              rfl
          | _ => exact absurd hd (by simp [BinOp.decides?])
        have hfits := hopened.fits
        have htells := hopened.tells (P := q₀.at setting s known) hus hus.sound hl.fits
          (fun leaf hleaf => .of_isLeaf (hl.tests leaf hleaf).1) (hfits.left hd hcross)
          (o := !d) (by simp [hpasses]) rfl (Nat.le_refl _) hcross
          fun hg hleaf hx hother => hfits.apart hd hcross hg hleaf hx hother
        refine .decided hd hcross htells hl'.means hr'.means rfl (Nat.le_refl _) ?_
        rintro b ⟨hb, hhas⟩
        refine scope_of_listed twin hus hl (hb.imp id ?_) hhas
        rintro ⟨o, ho, hb⟩
        rw [hpasses] at ho
        injection ho with ho
        exact ho ▸ hb
  obtain ⟨h, hty⟩ := decorated_means hus hp hopened hlater hdec hq hmeans
  exact ⟨h, hty⟩

/-- **A conditional**, lowered in a frame for what its condition binds. -/
theorem lowered_conditional {i : ExprInfo} {c y n c' y' n' : Expr} {q₀ q₁ q₂ : Pass}
    (hc : c.Suits setting.program.symbols s setting.hierarchy)
    (hcross : ∀ leaf ∈ c.tests, leaf ∉ y.tests ++ n.tests) (hp : p.Stocked s known)
    (hmisses : (p.storage s).Misses (y.tests ++ n.tests)) {news : List Slot}
    (hopened : Pass.Opened s known .conditional c [true, false] c news p q₀)
    (hlater : q₀.Later q₁) (hdec : decorateExpr (.conditional i c' y' n') q₁ = .ok e' q₂)
    (hq : q₂.symbols.Evolves setting'.program.symbols)
    (hc' : Lowered setting setting' (q₀.at setting s known) c c')
    (hy' : Lowered setting setting' (q₀.at setting s (withListed s known c true)) y y')
    (hn' : Lowered setting setting' (q₀.at setting s (withListed s known c false)) n n') :
    Lowered setting setting' (p.at setting s known) (.conditional i c y n) e' := by
  have hmisses₀ := hopened.misses hp.tidy hp.ready.sound hmisses hcross
  have htells : ∀ o, Tells setting.program.symbols (q₀.at setting s known) c o (y.tests ++ n.tests) :=
    fun o => hopened.tells hus hus.sound hc.fits
      (fun leaf hleaf => .of_isLeaf (hc.tests leaf hleaf).1) hopened.fits (by cases o <;> simp) rfl
      (Nat.le_refl _) hcross fun _ _ _ hother hx => by
        rw [hmisses₀ _ hother] at hx
        injection hx
  have hmeans : Means setting setting' (q₀.at setting s known) (.conditional i c y n)
      (.conditional i c' y' n') :=
    .conditional (Q := fun o => q₀.at setting s (withListed s known c o)) hc'.means hy'.means hn'.means
      htells (fun _ => rfl) (fun _ => Nat.le_refl _) fun o b hb => scope_of_listed twin hus hc hb.1 hb.2
  obtain ⟨h, hty⟩ := decorated_means hus hp hopened hlater hdec hq hmeans
  exact ⟨h, hty⟩

end

/-- Lowered wherever it suits, the expression means the same. -/
def MeansSame (setting setting' : Setting ω) (s : Symbols) (e : Expr) : Prop :=
  ∀ {known : BindingId → Prop} {p q : Pass} {e' : Expr},
    e.Suits setting.program.symbols s setting.hierarchy → e.Scoped s known → p.Stocked s known →
      (p.storage s).Fits s e → lowerExpr ⟨setting.hierarchy, matchBindings⟩ e p = .ok e' q →
        q.symbols.Evolves setting'.program.symbols →
          Lowered setting setting' (p.at setting s known) e e'

/-- So do expressions that are evaluated in order. -/
def MeanSame (setting setting' : Setting ω) (s : Symbols) (es : List Expr) : Prop :=
  ∀ {known : BindingId → Prop} {p q : Pass} {es' : List Expr},
    Suits setting.program.symbols s setting.hierarchy (Expr.gatherAll Expr.ownNode es)
      (Expr.gatherAll Expr.ownTests es) (Expr.gatherAll Expr.ownVars es) →
      Expr.ScopedAll s known es → p.Stocked s known →
        (p.storage s).Misses (Expr.gatherAll Expr.ownTests es) →
          lowerExprs ⟨setting.hierarchy, matchBindings⟩ es p = .ok es' q →
            q.symbols.Evolves setting'.program.symbols →
              List.Forall₂ (Means setting setting' (p.at setting s known)) es es'

/-- So do the definitions of a let-expression. -/
def MeanSameDefs (setting setting' : Setting ω) (s : Symbols) (ds : List (VarId × Expr)) : Prop :=
  ∀ {known : BindingId → Prop} {p q : Pass} {ds' : List (VarId × Expr)},
    Suits setting.program.symbols s setting.hierarchy (Expr.gatherDefs Expr.ownNode ds)
      (Expr.gatherDefs Expr.ownTests ds) (Expr.gatherDefs Expr.ownVars ds) →
      Expr.ScopedDefs s known ds → (∀ d ∈ ds, d.1.index < setting.program.symbols.vars.size) →
        p.Stocked s known → (p.storage s).Misses (Expr.gatherDefs Expr.ownTests ds) →
          lowerDefs ⟨setting.hierarchy, matchBindings⟩ ds p = .ok ds' q →
            q.symbols.Evolves setting'.program.symbols →
              List.Forall₂ (fun d d' => d'.1 = d.1 ∧ d.1.index < setting.program.symbols.vars.size
                ∧ Means setting setting' (p.at setting s known) d.2 d'.2) ds ds'

-- The two programs are read with different symbols: `hus` places the source's below the
-- ones the lowering starts from, `hq` the ones it ends with below the target's. A part is
-- lowered at a later pass than the whole; `back` reads its result at the storage of the
-- whole, which what comes between has not changed.
section

variable {i : ExprInfo} {c e l n r t v y : Expr} {es : List Expr} {ds : List (VarId × Expr)} {x : VarId}

/-- A constant. -/
theorem meansSame_literal {v : Literal} : MeansSame setting setting' s (.literal i v) := by
  intro known p q e' _ _ _ _ hrun _
  obtain ⟨rfl, rfl⟩ := pure_eq_ok.mp hrun
  exact ⟨.literal, rfl⟩

/-- An operator of one operand. -/
theorem meansSame_unary {op : UnOp} (ih : MeansSame setting setting' s e) : MeansSame setting setting' s (.unary i op e) := by
  intro known p q e' h hscoped hp hfits hrun hq
  simp only [Expr.Suits, Expr.tests, Expr.vars, Expr.gather_unary, suits_append] at h
  obtain ⟨o', hoperand, rfl⟩ := bind_pure_eq_ok.mp hrun
  cases op with
  | not => exact ⟨.not (ih h.2.1 hscoped hp hfits.not hoperand hq).means, rfl⟩
  | neg =>
      have hmisses := hfits.part (fun _ => rfl) e.tests (by simp)
      exact ⟨.neg (ih h.2.1 hscoped hp (.of_misses hmisses) hoperand hq).means, rfl⟩

section

variable (twin : Twin setting setting')

include twin

/-- A variable of the source. -/
theorem meansSame_var {v : VarId} : MeansSame setting setting' s (.ident i (.var v)) := by
  intro known p q e' h _ _ _ hrun _
  obtain ⟨rfl, rfl⟩ := pure_eq_ok.mp hrun
  exact ⟨.var twin (h.vars v (by simp [Expr.vars, Expr.ownVars])), rfl⟩

/-- A cast. -/
theorem meansSame_cast {t : Ty} (ih : MeansSame setting setting' s e) : MeansSame setting setting' s (.cast i t e) := by
  intro known p q e' h hscoped hp hfits hrun hq
  have hmisses := hfits.part (fun _ => rfl) e.tests (by simp)
  simp only [Expr.Suits, Expr.tests, Expr.vars, Expr.gather_cast, suits_append] at h
  obtain ⟨o', hoperand, rfl⟩ := bind_pure_eq_ok.mp hrun
  exact ⟨.cast twin (ih h.2.1 hscoped hp (.of_misses hmisses) hoperand hq).means, rfl⟩

/-- A test without a pattern. -/
theorem meansSame_instanceOf {t : Ty} (ih : MeansSame setting setting' s e) : MeansSame setting setting' s (.instanceOf i e t) := by
  intro known p q e' h hscoped hp hfits hrun hq
  have hmisses := hfits.part (fun _ => rfl) e.tests (by simp)
  simp only [Expr.Suits, Expr.tests, Expr.vars, Expr.gather_instanceOf, suits_append] at h
  obtain ⟨o', hoperand, rfl⟩ := bind_pure_eq_ok.mp hrun
  exact ⟨.instanceOf twin (ih h.2.1 hscoped hp (.of_misses hmisses) hoperand hq).means, rfl⟩

/-- A call. -/
theorem meansSame_call {f : String} (ih : MeanSame setting setting' s es) : MeansSame setting setting' s (.call i f es) := by
  intro known p q e' h hscoped hp hfits hrun hq
  have hmisses := hfits.part (fun _ => rfl) (Expr.gatherAll Expr.ownTests es)
    (by simp)
  simp only [Expr.Suits, Expr.tests, Expr.vars, Expr.gather_call, suits_append] at h
  obtain ⟨es', hargs, rfl⟩ := bind_pure_eq_ok.mp hrun
  exact ⟨.call twin (ih h.2.1 hscoped hp hmisses hargs hq), rfl⟩

/-- A let-expression. -/
theorem meansSame_letIn (ihds : MeanSameDefs setting setting' s ds) (ihe : MeansSame setting setting' s e) :
    MeansSame setting setting' s (.letIn i ds e) := by
  intro known p q e' h hscoped hp hfits hrun hq
  have hmisses := hfits.part (fun _ => rfl) (Expr.gatherDefs Expr.ownTests ds ++ e.tests)
    (by simp)
  simp only [Expr.Suits, Expr.tests, Expr.vars, Expr.gather_letIn, suits_append] at h
  obtain ⟨hown, ⟨hds, he, -⟩, -⟩ := h
  obtain ⟨ds', q₁, b', hdefs, hbody, rfl⟩ := bind_bind_pure_eq_ok.mp hrun
  have h₁ := (lowerDefs_runs _ ds hds.fits hscoped.1 hp.ready).later hdefs
  have h₂ := (lowerExpr_runs _ e he.fits hscoped.2 (hp.later h₁).ready).later hbody
  have hds' := ihds hds hscoped.1 (fun d hd => hown.vars d.1 (List.mem_map_of_mem hd)) hp
    (fun leaf hleaf => hmisses leaf (List.mem_append_left _ hleaf)) hdefs (h₂.evolves.trans hq)
  have he' := ihe he hscoped.2 (hp.later h₁) (.of_misses (by
    rw [hp.tidy.storage_later hp.ready.sound h₁]
    exact fun leaf hleaf => hmisses leaf (List.mem_append_right _ hleaf))) hbody hq
  exact ⟨.letIn twin hds' (he'.back hp h₁).means, rfl⟩

variable (hus : setting.program.symbols.Evolves s)

include hus

/-- A reference to a binding, which its storage stands for. -/
theorem meansSame_binding {b : BindingId} : MeansSame setting setting' s (.ident i (.binding b)) := by
  intro known p q e' h hscoped hp _ hrun _
  have hhas : setting.program.symbols.Has b :=
    h.refs (.ident i (.binding b)) (by simp [Expr.ownNode]) b (by simp [Expr.ownRefs])
  obtain ⟨x, hx, rfl, rfl⟩ := lowerRef_eq_ok hrun
  have hstores := hp.resolve hscoped (hus.grows.has hhas) hx
  rw [hus.grows.leaves_eq twin.sound.ordered.closed hhas] at hstores
  exact ⟨.binding twin ⟨hscoped, hhas⟩ hhas hstores, rfl⟩

/-- An operator of two operands, in a frame for what the left one tells the right one. -/
theorem meansSame_binary {op : BinOp} (ihl : MeansSame setting setting' s l) (ihr : MeansSame setting setting' s r) :
    MeansSame setting setting' s (.binary i op l r) := by
  intro known p q e' h hscoped hp hfits hrun hq
  have hwhole := h.tests
  simp only [Expr.Suits, Expr.tests, Expr.vars, Expr.gather_binary, suits_append] at h
  obtain ⟨-, ⟨hl, hr, hcross⟩, -⟩ := h
  obtain ⟨answer, hanswer, hasked⟩ := operandFacts_answers op hl.fits hp.ready.base hp.ready.sound
  obtain ⟨bs, q₁, l', q₃, r', q₄, q₂, hbs, hleft, hright, hdec, rfl⟩ := lowerExpr_binary_eq_ok hrun
  obtain ⟨rfl, rfl⟩ := EStateM.Result.ok.inj (hasked.symm.trans hbs)
  -- the frame has storage for what the left operand tells the right one
  obtain ⟨news, hopened⟩ := hp.opens hus .binary hl hanswer (fun leaf hleaf => (hwhole leaf hleaf).1)
    (groups_passed op) (fun hρ => (hρ.operands hcross).1) hfits
  have hfits₀ := hopened.fits.operands hcross
  have hlisted : Pass.Stocked s (fun b => known b ∨ ∃ o ∈ op.passes?, b ∈ (matchBindings l o s).1) _ :=
    hopened.listed.mono (by simp)
  have h₁ := (lowerExpr_runs _ l hl.fits hscoped.1 hopened.stocked.ready).later hleft
  have h₂ := (lowerExpr_runs _ r hr.fits hscoped.2 (hlisted.later h₁).ready).later hright
  have hq₄ : q₄.symbols.Evolves setting'.program.symbols := decorateExpr_symbols hdec ▸ hq
  have hl' := ihl hl hscoped.1 hopened.stocked hfits₀.1 hleft (h₂.evolves.trans hq₄)
  have hr' := ihr hr hscoped.2 (hlisted.later h₁)
    (by rw [hlisted.tidy.storage_later hlisted.ready.sound h₁]; exact hfits₀.2) hright hq₄
  exact lowered_binary twin hus hl hcross hp hopened (h₁.trans h₂) hdec hq hl' (hr'.back hlisted h₁)

/-- A conditional expression, in a frame for what its condition tells the branches. -/
theorem meansSame_conditional (ihc : MeansSame setting setting' s c) (ihy : MeansSame setting setting' s y)
    (ihn : MeansSame setting setting' s n) : MeansSame setting setting' s (.conditional i c y n) := by
  intro known p q e' h hscoped hp hfits hrun hq
  have hmisses := hfits.part (fun _ => rfl) (c.tests ++ (y.tests ++ n.tests))
    (by simp)
  simp only [Expr.Suits, Expr.tests, Expr.vars, Expr.gather_conditional, suits_append] at h
  obtain ⟨-, ⟨hc, ⟨hy, hn, -⟩, hcross⟩, -⟩ := h
  have hmissesc : (p.storage s).Misses c.tests := fun leaf hleaf =>
    hmisses leaf (List.mem_append_left _ hleaf)
  have hmissesr : (p.storage s).Misses (y.tests ++ n.tests) := fun leaf hleaf =>
    hmisses leaf (List.mem_append_right _ hleaf)
  have hanswer := Expr.Fits.all hc.fits hp.ready.base hp.ready.sound.evolves
  obtain ⟨bs, q₁, c', q₃, y', q₄, n', q₅, q₂, hbs, hcond, hyes, hno, hdec, rfl⟩ :=
    lowerExpr_conditional_eq_ok hrun
  obtain ⟨rfl, rfl⟩ := asking_eq_ok hbs
  obtain ⟨news, hopened⟩ := hp.opens hus .conditional hc hanswer (fun leaf hleaf => (hc.tests leaf hleaf).1)
    (fun o _ g hg => ⟨o, hg⟩) id (.of_misses hmissesc)
  have hlisted : ∀ o, Pass.Stocked s (withListed s known c o) _ := fun o =>
    hopened.listed.mono fun b hb => hb.imp id fun hb => ⟨o, by cases o <;> simp, hb⟩
  have hmisses₀ := hopened.misses hp.tidy hp.ready.sound hmissesr hcross
  have h₁ := (lowerExpr_runs _ c hc.fits hscoped.1 hopened.stocked.ready).later hcond
  have h₂ := (lowerExpr_runs _ y hy.fits hscoped.2.1 ((hlisted true).later h₁).ready).later hyes
  have h₁₂ := h₁.trans h₂
  have h₃ := (lowerExpr_runs _ n hn.fits hscoped.2.2 ((hlisted false).later h₁₂).ready).later hno
  have hq₅ : q₅.symbols.Evolves setting'.program.symbols := decorateExpr_symbols hdec ▸ hq
  -- condition and branches in the order they are lowered, each over the state left by the one before
  have hc' := ihc hc hscoped.1 hopened.stocked hopened.fits hcond
    ((h₂.trans h₃).evolves.trans hq₅)
  have hy' := ihy hy hscoped.2.1 ((hlisted true).later h₁) (.of_misses (by
    rw [hopened.stocked.tidy.storage_later hopened.stocked.ready.sound h₁]
    exact fun leaf hleaf => hmisses₀ leaf (List.mem_append_left _ hleaf))) hyes (h₃.evolves.trans hq₅)
  have hn' := ihn hn hscoped.2.2 ((hlisted false).later h₁₂) (.of_misses (by
    rw [hopened.stocked.tidy.storage_later hopened.stocked.ready.sound h₁₂]
    exact fun leaf hleaf => hmisses₀ leaf (List.mem_append_right _ hleaf))) hno hq₅
  exact lowered_conditional twin hus hc hcross hp hmissesr hopened (h₁₂.trans h₃) hdec hq hc'
    (hy'.back (hlisted true) h₁) (hn'.back (hlisted false) h₁₂)

/-- A pattern. -/
theorem meansSame_typeTest {pattern : BindingPattern} (ih : MeansSame setting setting' s e) :
    MeansSame setting setting' s (.typeTest i e pattern) := by
  intro known p q e' h hscoped hp hfits hrun hq
  have hnode := h.node (.typeTest i e pattern) (by simp [Expr.ownNode])
  simp only [Expr.Suits, Expr.tests, Expr.vars, Expr.gather_typeTest, suits_append] at h
  obtain ⟨-, he, hcross⟩ := h
  have hmisses := hfits.operand (hcross pattern.binding (by simp [Expr.ownTests]))
  obtain ⟨o', q₁, hoperand, htest⟩ := bind_eq_ok.mp hrun
  have h₁ := (lowerExpr_runs _ e he.fits hscoped hp.ready).later hoperand
  -- the test adds the variable its operand is evaluated into
  have hhas : q₁.symbols.Evolves q.symbols := by
    obtain ⟨symbol, test, size, -, -, -, -, rfl⟩ := lowerTest_eq_ok htest
    exact Symbols.evolves_addVar (hp.later h₁).ready.sound.evolves.sound
  have he' := ih he hscoped hp (.of_misses hmisses) hoperand (hhas.trans hq)
  exact lowerTest_means twin hus hnode hp h₁ he'.means htest hq

end

/-- An assignment. -/
theorem meansSame_assign (hus : setting.program.symbols.Evolves s) (ihv : MeansSame setting setting' s v) :
    MeansSame setting setting' s (.assign i t v) := by
  intro known p q e' h hscoped hp hfits hrun hq
  have hmisses := hfits.part (fun _ => rfl) (t.tests ++ v.tests) (by simp)
  have hnode := h.node (.assign i t v) (by simp [Expr.ownNode])
  simp only [Expr.Suits, Expr.tests, Expr.vars, Expr.gather_assign, suits_append] at h
  obtain ⟨-, ⟨ht, hv, -⟩, -⟩ := h
  obtain ⟨t', q₁, v', htarget, hvalue, rfl⟩ := bind_bind_pure_eq_ok.mp hrun
  have h₁ := (lowerExpr_runs _ t ht.fits hscoped.1 hp.ready).later htarget
  have hv' := ihv hv hscoped.2 (hp.later h₁) (.of_misses (by
    rw [hp.tidy.storage_later hp.ready.sound h₁]
    exact fun leaf hleaf => hmisses leaf (List.mem_append_right _ hleaf))) hvalue hq
  have hmeans := (hv'.back hp h₁).means
  refine ⟨?_, rfl⟩
  -- only a name can be assigned to, and only a name is lowered to one
  by_cases hident : ∃ j sym, t = .ident j sym
  · obtain ⟨j, sym, rfl⟩ := hident
    cases sym with
    | var v =>
        obtain ⟨rfl, rfl⟩ := pure_eq_ok.mp htarget
        exact .assign_of rfl hmeans fun w => .writeVar (ht.vars v (by simp [Expr.ownVars])) w _
    | binding b =>
        have hleaf := Expr.suits_assign hnode
          (ht.refs (.ident j (.binding b)) (by simp [Expr.ownNode]) b (by simp [Expr.ownRefs]))
        obtain ⟨x, hx, rfl, rfl⟩ := lowerRef_eq_ok htarget
        have hstores := hp.resolve hscoped.1 (.of_isLeaf (hus.grows.isLeaf hleaf)) hx
        rw [Symbols.leaves_of_isLeaf (hus.grows.isLeaf hleaf)] at hstores
        have hscope : (p.at setting s known).scope b := ⟨hscoped.1, .of_isLeaf hleaf⟩
        exact .assign_of rfl hmeans fun w => .writeBinding hscope hleaf (hstores b List.mem_cons_self) w _ _
  · have hno : ∀ j sym, t ≠ .ident j sym := fun j sym heq => hident ⟨j, sym, heq⟩
    exact .assign_fault hno (lowerExpr_not_ident hno htarget)

/-- A call on a receiver. -/
theorem meansSame_methodCall {f : String} (ihe : MeansSame setting setting' s e) (ihes : MeanSame setting setting' s es) :
    MeansSame setting setting' s (.methodCall i e f es) := by
  intro known p q e' h hscoped hp hfits hrun hq
  have hmisses := hfits.part (fun _ => rfl) (e.tests ++ Expr.gatherAll Expr.ownTests es)
    (by simp)
  simp only [Expr.Suits, Expr.tests, Expr.vars, Expr.gather_methodCall, suits_append] at h
  obtain ⟨-, ⟨he, hes, -⟩, -⟩ := h
  obtain ⟨o', q₁, es', hreceiver, hargs, rfl⟩ := bind_bind_pure_eq_ok.mp hrun
  have h₁ := (lowerExpr_runs _ e he.fits hscoped.1 hp.ready).later hreceiver
  have h₂ := (lowerExprs_runs _ es hes.fits hscoped.2 (hp.later h₁).ready).later hargs
  have he' := ihe he hscoped.1 hp
    (.of_misses fun leaf hleaf => hmisses leaf (List.mem_append_left _ hleaf)) hreceiver
    (h₂.evolves.trans hq)
  have hes' := ihes hes hscoped.2 (hp.later h₁) (by
    rw [hp.tidy.storage_later hp.ready.sound h₁]
    exact fun leaf hleaf => hmisses leaf (List.mem_append_right _ hleaf)) hargs hq
  exact ⟨.methodCall he'.means (hes'.imp fun _ _ hm => hm.back hp h₁), rfl⟩

/-- No expression. -/
theorem meanSame_nil : MeanSame setting setting' s [] := by
  intro known p q es' _ _ _ _ hrun _
  obtain ⟨rfl, rfl⟩ := pure_eq_ok.mp hrun
  exact .nil

/-- An expression and those behind it. -/
theorem meanSame_cons (ihe : MeansSame setting setting' s e) (ihes : MeanSame setting setting' s es) : MeanSame setting setting' s (e :: es) := by
  intro known p q es' h hscoped hp hmisses hrun hq
  simp only [Expr.gatherAll_cons, suits_append] at h hmisses
  obtain ⟨e', q₁, rest, hhead, htail, rfl⟩ := bind_bind_pure_eq_ok.mp hrun
  have h₁ := (lowerExpr_runs _ e h.1.fits hscoped.1 hp.ready).later hhead
  have h₂ := (lowerExprs_runs _ es h.2.1.fits hscoped.2 (hp.later h₁).ready).later htail
  have he' := ihe h.1 hscoped.1 hp
    (.of_misses fun leaf hleaf => hmisses leaf (List.mem_append_left _ hleaf)) hhead (h₂.evolves.trans hq)
  have hes' := ihes h.2.1 hscoped.2 (hp.later h₁) (by
    rw [hp.tidy.storage_later hp.ready.sound h₁]
    exact fun leaf hleaf => hmisses leaf (List.mem_append_right _ hleaf)) htail hq
  exact .cons he'.means (hes'.imp fun _ _ hm => hm.back hp h₁)

/-- No definition. -/
theorem meanSameDefs_nil : MeanSameDefs setting setting' s [] := by
  intro known p q ds' _ _ _ _ _ hrun _
  obtain ⟨rfl, rfl⟩ := pure_eq_ok.mp hrun
  exact .nil

/-- A definition and those behind it. -/
theorem meanSameDefs_cons {v : VarId} (ihe : MeansSame setting setting' s e) (ihds : MeanSameDefs setting setting' s ds) :
    MeanSameDefs setting setting' s ((v, e) :: ds) := by
  intro known p q ds' h hscoped hvars hp hmisses hrun hq
  simp only [Expr.gatherDefs_cons, suits_append] at h hmisses
  obtain ⟨e', q₁, rest, hhead, htail, rfl⟩ := bind_bind_pure_eq_ok.mp hrun
  have h₁ := (lowerExpr_runs _ e h.1.fits hscoped.1 hp.ready).later hhead
  have h₂ := (lowerDefs_runs _ ds h.2.1.fits hscoped.2 (hp.later h₁).ready).later htail
  have he' := ihe h.1 hscoped.1 hp
    (.of_misses fun leaf hleaf => hmisses leaf (List.mem_append_left _ hleaf)) hhead (h₂.evolves.trans hq)
  have hds' := ihds h.2.1 hscoped.2 (fun d hd => hvars d (List.mem_cons_of_mem _ hd))
    (hp.later h₁) (by
      rw [hp.tidy.storage_later hp.ready.sound h₁]
      exact fun leaf hleaf => hmisses leaf (List.mem_append_right _ hleaf)) htail hq
  exact .cons ⟨rfl, hvars (v, e) List.mem_cons_self, he'.means⟩
    (hds'.imp fun _ _ hd => ⟨hd.1, hd.2.1, hd.2.2.back hp h₁⟩)

end

mutual
/-- **A lowered expression means the same**, and has the same type. -/
theorem lowerExpr_means (twin : Twin setting setting') (hus : setting.program.symbols.Evolves s) :
    ∀ e : Expr, MeansSame setting setting' s e
  | .literal _ _ => meansSame_literal
  | .ident _ (.var _) => meansSame_var twin
  | .ident _ (.binding _) => meansSame_binding twin hus
  | .unary _ _ e => meansSame_unary (lowerExpr_means twin hus e)
  | .binary _ _ l r => meansSame_binary twin hus (lowerExpr_means twin hus l) (lowerExpr_means twin hus r)
  | .conditional _ c y n =>
      meansSame_conditional twin hus (lowerExpr_means twin hus c) (lowerExpr_means twin hus y)
        (lowerExpr_means twin hus n)
  | .assign _ _ v => meansSame_assign hus (lowerExpr_means twin hus v)
  | .cast _ _ e => meansSame_cast twin (lowerExpr_means twin hus e)
  | .instanceOf _ e _ => meansSame_instanceOf twin (lowerExpr_means twin hus e)
  | .typeTest _ e _ => meansSame_typeTest twin hus (lowerExpr_means twin hus e)
  | .call _ _ es => meansSame_call twin (lowerExprs_means twin hus es)
  | .methodCall _ e _ es => meansSame_methodCall (lowerExpr_means twin hus e) (lowerExprs_means twin hus es)
  | .letIn _ ds e => meansSame_letIn twin (lowerDefs_means twin hus ds) (lowerExpr_means twin hus e)
/-- Expressions in order. -/
theorem lowerExprs_means (twin : Twin setting setting') (hus : setting.program.symbols.Evolves s) :
    ∀ es : List Expr, MeanSame setting setting' s es
  | [] => meanSame_nil
  | e :: es => meanSame_cons (lowerExpr_means twin hus e) (lowerExprs_means twin hus es)
/-- Definitions in order. -/
theorem lowerDefs_means (twin : Twin setting setting') (hus : setting.program.symbols.Evolves s) :
    ∀ ds : List (VarId × Expr), MeanSameDefs setting setting' s ds
  | [] => meanSameDefs_nil
  | (_, e) :: ds => meanSameDefs_cons (lowerExpr_means twin hus e) (lowerDefs_means twin hus ds)
end


end Lowering

end PatternIR
