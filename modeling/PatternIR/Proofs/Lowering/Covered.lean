/-
  PatternIR.Proofs.Lowering.Covered
  ─────────────────────────────────
  **REFERENCES OUT OF REACH ARE NOT LOWERED.**

  A slot is for a binding that the oracle has listed for a condition around, or
  for one in a statement before that is marked as preserved.  So where a
  reference is lowered, its guards offer storage for its binding; where they do
  not, it has no storage in scope, and this is the error.

      lowerExpr e p = ok e' q  →  each reference of e stands where its binding is offered
      lowerExpr e p = error e  →  e is excused

    • `Excused` — the two errors of attributed trees;
    • `Meets` — a computation that answers as told, or with such an error;
    • `MeetsParts` — what is shown of a statement, one lemma for each kind;
    • `lowerExpr_meets`, `lowerParts_meets` — expressions and statements;
    • `lowerClasses_meets` — all methods of a program.
-/
import PatternIR.Proofs.Lowering.Neat

namespace PatternIR

namespace Lowering

open PatternIR.Flow (listed Stands matchBindings)

variable {α β γ : Type} {s : Symbols} {p q r : Pass}

/-! ## §1. Errors. -/

/-- Why an attributed tree is not lowered: a reference has no storage in scope,
or there is storage of the type without values. -/
def Excused (s : Symbols) (e : LowerError) : Prop :=
  (∃ name span, e = .unresolvedBinding name span) ∨ e = .noDefaultValue .void ∧ s.Voids

/-- From `p`, the computation answers so that `Q` holds, or has an excuse. -/
structure Meets (s : Symbols) (c : Lowering α) (p : Pass) (Q : α → Pass → Prop) : Prop where
  ok : ∀ {a q}, c p = .ok a q → Q a q
  error : ∀ {e q}, c p = .error e q → Excused s e

namespace Meets

variable {c : Lowering α} {f : α → Lowering β} {Q Q' : α → Pass → Prop} {R : β → Pass → Prop}

theorem bind (hc : Meets s c p Q) (hf : ∀ a q, c p = .ok a q → Q a q → Meets s (f a) q R) :
    Meets s (c >>= f) p R := by
  constructor
  · intro b r h
    obtain ⟨a, q, h₁, h₂⟩ := bind_eq_ok.mp h
    exact (hf a q h₁ (hc.ok h₁)).ok h₂
  · intro e r h
    rw [bind_apply] at h
    split at h
    next a q h₁ => exact (hf a q h₁ (hc.ok h₁)).error h
    next e q h₁ =>
      injection h with he
      exact he ▸ hc.error h₁

/-- A step that is two. -/
theorem bind₂ {g : β → Lowering γ} {S : γ → Pass → Prop} (hc : Meets s (c >>= f) p R)
    (hg : ∀ b q, (c >>= f) p = .ok b q → R b q → Meets s (g b) q S) :
    Meets s (c >>= fun a => f a >>= g) p S := by
  have hassoc : (c >>= fun a => f a >>= g) p = (c >>= f >>= g) p := by
    simp only [bind_apply]
    cases c p <;> rfl
  have h := hc.bind hg
  exact ⟨fun hr => h.ok (hassoc ▸ hr), fun hr => h.error (hassoc ▸ hr)⟩

/-- What is known behind a step may be weakened. -/
theorem mono (h : Meets s c p Q) (hQ : ∀ a q, Q a q → Q' a q) : Meets s c p Q' :=
  ⟨fun hc => hQ _ _ (h.ok hc), h.error⟩

/-- A computation that succeeds. -/
theorem of_ok {a : α} (h : c p = .ok a q) (hQ : Q a q) : Meets s c p Q := by
  constructor
  · intro b r h'
    rw [h] at h'
    injection h' with ha hr
    exact ha ▸ hr ▸ hQ
  · intro e r h'
    rw [h] at h'
    injection h'

theorem pure (a : α) (h : Q a p) : Meets s (Pure.pure a) p Q := of_ok rfl h

end Meets

/-- The state with other nodes made. -/
structure Pass.Same (p q : Pass) : Prop where
  stack : q.stack = p.stack
  symbols : q.symbols = p.symbols

/-- A pass that only made nodes follows the one before. -/
theorem Pass.Same.follows (h : p.Same q) (hp : p.symbols.Sound) : p.Follows q :=
  ⟨h.stack, by rw [h.symbols]; exact .refl hp⟩

/-- Making nodes changes neither table nor stack. -/
theorem making_meets (m : Making α) (p : Pass) : Meets s (making m) p fun _ q => p.Same q :=
  .of_ok rfl ⟨rfl, rfl⟩

/-- Only `void` is erased to `void`. -/
theorem eq_void_of_erasure : ∀ {ty : Ty}, ty.erasure = .void → ty = .void
  | .void, _ => rfl

/-- Only `void` has no default. -/
theorem eq_void_of_defaultLiteral? {ty : Ty} (h : defaultLiteral? ty = none) : ty = .void := by
  unfold defaultLiteral? at h
  split at h <;> first | rfl | exact absurd h (by simp)

/-- Only the type without values has no default value. -/
theorem makeDefault_meets {ty : Ty} (hvoid : ty = .void → s.Voids) (p : Pass) : Meets s (makeDefault ty) p fun _ q => p.Same q := by
  constructor
  · intro e q h
    obtain ⟨-, -, -, rfl⟩ := makeDefault_eq_ok h
    exact ⟨rfl, rfl⟩
  · intro e q h
    unfold makeDefault at h
    cases hvalue : defaultValue ty with
    | ok m =>
        rw [hvalue] at h
        injection h
    | error err =>
        rw [hvalue] at h
        injection h with he
        subst he
        unfold defaultValue at hvalue
        cases hty : defaultLiteral? ty with
        | some v =>
            rw [hty] at hvalue
            cases v <;> injection hvalue
        | none =>
            rw [hty] at hvalue
            injection hvalue with hvalue
            subst hvalue
            obtain rfl := eq_void_of_defaultLiteral? hty
            exact .inr ⟨rfl, hvoid rfl⟩

/-- A slot whose variable is in the table is defined without a fault. -/
theorem storageDef_meets {slot : Slot} (h : p.Stored s slot) :
    Meets s (storageDef slot) p fun _ q => p.Same q := by
  obtain ⟨x, hx, hvoid⟩ := h
  refine .bind (.of_ok (Q := fun ty q => ty = x.ty.erasure ∧ q = p) (storageType_of_var? hx) ⟨rfl, rfl⟩)
    fun ty q _ hq => ?_
  obtain ⟨rfl, rfl⟩ := hq
  exact .bind (makeDefault_meets (fun h => hvoid (eq_void_of_erasure h)) _) fun value q _ hq => .pure _ hq

/-- So is each of several. -/
theorem storageDefs_meets : ∀ (slots : List Slot) {p : Pass},
    (∀ slot ∈ slots, p.Stored s slot) →
      Meets s (slots.mapM storageDef) p fun _ q => p.Same q
  | [], p, _ => .of_ok rfl ⟨rfl, rfl⟩
  | slot :: slots, p, h => by
      rw [List.mapM_cons]
      refine .bind (storageDef_meets (h slot List.mem_cons_self)) fun d q _ hq => ?_
      refine .bind (storageDefs_meets slots (p := q) fun x hx => ?_) fun ds r _ hr =>
        .pure _ ⟨hr.stack.trans hq.stack, hr.symbols.trans hq.symbols⟩
      exact (h x (List.mem_cons_of_mem _ hx)).same hq.symbols

/-- An expression leaves its frame as it is. -/
theorem decorateExpr_meets (e : Expr) (h : ∀ slot ∈ p.stack.current.slots, p.Stored s slot) :
    Meets s (decorateExpr e) p fun _ q => p.Same q := by
  refine .bind (.of_ok (Q := fun a q => a = p ∧ q = p) rfl ⟨rfl, rfl⟩) fun a q _ hq => ?_
  obtain ⟨rfl, rfl⟩ := hq
  cases hslots : q.stack.current.slots with
  | nil => exact .pure _ ⟨rfl, rfl⟩
  | cons slot slots =>
      rw [hslots] at h
      refine .bind (making_meets (Maker.moveTo e.span) q) fun _ q₁ _ h₁ => ?_
      refine .bind (storageDefs_meets (slot :: slots) (p := q₁) fun x hx => ?_) fun defs q₂ _ h₂ => ?_
      · exact (h x hx).same h₁.symbols
      · exact (making_meets _ q₂).mono fun _ q₃ h₃ =>
          ⟨h₃.stack.trans (h₂.stack.trans h₁.stack), h₃.symbols.trans (h₂.symbols.trans h₁.symbols)⟩

/-- Nor is there a fault in declaring them. -/
theorem declareSlots_error (span : Span) : ∀ (slots : List Slot) {p : Pass},
    (∀ slot ∈ slots, p.Stored s slot) →
      Meets s (declareSlots span slots) p fun _ _ => True
  | [], p, _ => .pure _ trivial
  | slot :: slots, p, h => by
      obtain ⟨x, hx, hvoid⟩ := h slot List.mem_cons_self
      have hdecl : Meets s (storageDecl span slot.var) p fun _ q => q.symbols = p.symbols := by
        refine .bind (.of_ok (Q := fun ty q => ty = x.ty.erasure ∧ q = p) (storageType_of_var? hx) ⟨rfl, rfl⟩)
          fun ty q _ hq => ?_
        obtain ⟨rfl, rfl⟩ := hq
        refine .bind (making_meets (Maker.moveTo span) q) fun _ q₁ _ h₁ => ?_
        refine .bind (makeDefault_meets (fun h => hvoid (eq_void_of_erasure h)) q₁) fun value q₂ _ h₂ => ?_
        exact (making_meets _ q₂).mono fun _ q₃ h₃ =>
          h₃.symbols.trans (h₂.symbols.trans h₁.symbols)
      refine .bind hdecl fun decl q _ hq => ?_
      obtain ⟨refused, q₁, hoffer, hsame⟩ := offer_ok slot.binding decl q
      refine .bind (.of_ok (Q := fun _ q' => q'.symbols = q.symbols) hoffer hsame) fun refused q₁ _ h₁ => ?_
      refine .bind (declareSlots_error span slots (p := q₁) fun y hy => ?_) fun rest q₂ _ _ =>
        .pure _ trivial
      exact (h y (List.mem_cons_of_mem _ hy)).same (h₁.trans hq)

/-- A statement is put behind the declarations of its slots without a fault. -/
theorem decorateStmt_meets (stmt : Stmt)
    (h : ∀ slot ∈ p.stack.current.slots, p.Stored s slot) :
    Meets s (decorateStmt stmt) p fun d q => decorateStmt stmt p = .ok d q := by
  refine ⟨id, fun herror => ?_⟩
  have hmeets : Meets s (decorateStmt stmt) p fun _ _ => True :=
    .bind (.of_ok (Q := fun a q => a = p ∧ q = p) rfl ⟨rfl, rfl⟩) fun a q _ hq => by
      obtain ⟨rfl, rfl⟩ := hq
      exact .bind (declareSlots_error stmt.span _ h) fun decls q _ _ => .pure _ trivial
  exact hmeets.error herror

/-- Closing it only makes a node. -/
theorem close_meets (d : Decorated) (p : Pass) : Meets s d.close p fun _ q => p.Same q := by
  obtain ⟨stmt, q, hclose⟩ := close_ok d p
  refine .of_ok hclose ?_
  rcases close_eq_ok hclose with ⟨-, -, rfl⟩ | ⟨-, -, rfl⟩ <;> exact ⟨rfl, rfl⟩

/-! ## §2. Slots in reach. -/

/-- Each slot is for a binding that the guards offer, with all its aliases. -/
def Pass.Covers (s : Symbols) (p : Pass) (G : List Guard) : Prop :=
  ∀ slot ∈ p.stack.slots, ∀ b, s.Has b → p.symbols.isAliasFor slot.binding b = true → Offered s G b

/-- The guards offer storage for the bindings of the references. -/
def inReach (s : Symbols) : List Guard → ExprInfo → BindingId → Prop := fun G _ b => Offered s G b

/-- A binding that stands for what is listed on a later table has its aliases
among those of what is listed on the first. -/
theorem lists_of_stands {t : Symbols} {c : Expr} {o : Bool} {g : List BindingId} {a b : BindingId}
    (hs : s.Sound) (hc : ∀ leaf ∈ c.tests, s.isLeaf leaf = true) (hst : s.Grows t) (ht : t.Sound)
    (hg : g ∈ listed s c o) (ha : Stands t a g) (hb : s.Has b) (hab : t.isAliasFor a b = true) :
    ∃ a' ∈ (matchBindings c o s).1, Stands (matchBindings c o s).2 a' g
      ∧ (matchBindings c o s).2.isAliasFor a' b = true := by
  obtain ⟨-, hstands⟩ := Flow.listed_stands c o hc (.refl s) hs
  obtain ⟨a', ha', hstands'⟩ := exists_of_forall₂ hstands.flip hg
  refine ⟨a', ha', hstands', Symbols.isAliasFor_iff.mpr (.inr ?_)⟩
  -- they share a pattern on the later table, which both stand for on the first
  have hshared : ∃ leaf ∈ t.leaves a, leaf ∈ t.leaves b := by
    rcases Symbols.isAliasFor_iff.mp hab with rfl | h
    · obtain ⟨leaf, hleaf⟩ := ht.ordered.exists_leaf ha.1
      exact ⟨leaf, hleaf, hleaf⟩
    · exact h
  obtain ⟨leaf, hla, hlb⟩ := hshared
  refine ⟨leaf, (hstands'.2 leaf).mpr ((ha.2 leaf).mp hla), ?_⟩
  exact (Flow.matchBindings_grows c o s).leaves ((hst.mem_leaves hs.ordered.closed hb).mp hlb)

namespace Pass.Covers

variable {G G' : List Guard}

/-- More guards cover at least as much. -/
theorem mono (h : p.Covers s G) (hsub : ∀ g ∈ G, g ∈ G') : p.Covers s G' :=
  fun slot hslot b hb hab => (h slot hslot b hb hab).mono hsub

/-- An alias on a later table was one before, if both bindings were in the table. -/
theorem old (h : p.Covers s G) (hp : p.Neat s) (hdescends : p.symbols.Descends q.symbols) :
    ∀ slot ∈ p.stack.slots, ∀ b, s.Has b → q.symbols.isAliasFor slot.binding b = true →
      Offered s G b := by
  intro slot hslot b hb hab
  rw [Flow.isAliasFor_grows hdescends.grows hp.sound.ordered (fun _ => hp.has slot hslot)
    fun _ => hp.descends.grows.has hb] at hab
  exact h slot hslot b hb hab

/-- What is covered still is in a pass that follows. -/
theorem follows (h : p.Covers s G) (hp : p.Neat s) (hfollows : p.Follows q) : q.Covers s G := by
  intro slot hslot
  rw [hfollows.stack] at hslot
  exact h.old hp hfollows.descends slot hslot

end Pass.Covers

variable {c : Expr} {outcomes : List Bool} {bs : List BindingId} {kind : FrameKind} {news : List Slot}

/-- In the frame of a condition, the condition is a guard. -/
theorem Pass.Into.covers {G : List Guard} (h : Pass.Into s p kind bs news q) (hp : p.Neat s)
    (hc : ∀ leaf ∈ c.tests, s.isLeaf leaf = true) (hasked : ∃ p₀, Pass.Asked s p₀ c outcomes bs p)
    (hcovers : p.Covers s G) : q.Covers s (outcomes.map (Guard.within c) ++ G) := by
  obtain ⟨p₀, hasked⟩ := hasked
  intro slot hslot b hb hab
  rcases h.mem_slots.mp hslot with hslot | hslot
  · obtain ⟨o, ho, g, hg, hstands⟩ := hasked.stands _ (h.asked slot hslot)
    obtain ⟨a, ha, -, hab'⟩ := lists_of_stands hp.base hc h.neat.descends.grows
      h.neat.sound hg (hstands.grows hp.sound h.descends.grows) hb hab
    exact ⟨.within c o, List.mem_append_left _ (List.mem_map_of_mem ho), a, ha, hab'⟩
  · exact (hcovers.old hp h.descends slot hslot b hb hab).mono fun g hg => List.mem_append_right _ hg

/-! ## §3. Expressions. -/

/-- From `p` to `q` a tree has been lowered on the same stack: where the slots
are in reach, so are the references in `each`. -/
structure Pass.Reaches (s : Symbols) (p q : Pass) (each : List Guard → Prop) : Prop where
  follows : p.Follows q
  covered : ∀ G, p.Covers s G → each G

namespace Pass.Reaches

variable {A B : List Guard → Prop}

/-- One step after the other, each with what it reaches. -/
theorem seq (h : Pass.Reaches s p q A) (h' : Pass.Reaches s q r B) (hp : p.Neat s) :
    Pass.Reaches s p r fun G => A G ∧ B G :=
  ⟨h.follows.trans h'.follows, fun G hG => ⟨h.covered G hG, h'.covered G (hG.follows hp h.follows)⟩⟩

/-- What is reached may be weakened. -/
theorem imp (h : Pass.Reaches s p q A) (hAB : ∀ G, A G → B G) : Pass.Reaches s p q B :=
  ⟨h.follows, fun G hG => hAB G (h.covered G hG)⟩

/-- A tree under more guards. -/
theorem under (h : Pass.Reaches s p q A) (G' : List Guard) : Pass.Reaches s p q fun G => A (G' ++ G) :=
  ⟨h.follows, fun _ hG => h.covered _ (hG.mono fun _ => List.mem_append_right _)⟩

end Pass.Reaches

/-- A reference that is replaced has its binding offered. -/
theorem lowerRef_meets {b : BindingId} (hp : p.Neat s) (hb : s.Has b) (ty : Ty) (span : Span) :
    Meets s (lowerRef b ty span) p fun _ q => Pass.Reaches s p q fun G => Offered s G b := by
  constructor
  · intro e q h
    obtain ⟨var, hvar, -, rfl⟩ := lowerRef_eq_ok h
    obtain ⟨slot, hslot, hab, -⟩ := Stack.exists_slot_of_resolve hvar
    exact ⟨⟨rfl, .refl hp.sound⟩, fun G hG => hG slot hslot b hb hab⟩
  · intro e q h
    unfold lowerRef at h
    rw [bind_apply] at h
    cases hresolve : p.stack.resolve p.symbols b with
    | some var =>
        obtain ⟨e', q', hok⟩ := lowerRef_ok (p := p) (b := b) (by rw [Pass.Knows, hresolve]; rfl) ty span
        unfold lowerRef at hok
        rw [bind_apply, h] at hok
        injection hok
    | none =>
        obtain ⟨sym, hsym⟩ := Symbols.has_iff.mp (hp.descends.grows.has hb)
        have hthrow : (resolve b p : EStateM.Result _ _ _) = .ok none p := by rw [resolve, hresolve]
        rw [hthrow] at h
        simp only [bind_apply] at h
        have hget : (get : Lowering Pass) p = .ok p p := rfl
        rw [hget] at h
        simp only [hsym] at h
        injection h with he
        exact .inl ⟨_, _, he.symm⟩

/-- A test of a leaf is stored or not; the stack is as it was. -/
theorem lowerTest_meets {rules : Rules} {pattern : BindingPattern} (hp : p.Neat s)
    (hb : s.isLeaf pattern.binding = true) (operandTy : Ty) (operand : Expr) (span : Span) :
    Meets s (lowerTest rules operandTy operand pattern span) p fun _ q => p.Follows q := by
  have hvars : ∀ var, p.stack.resolve p.symbols pattern.binding = some var →
      ∃ x, p.symbols.var? var = some x := by
    intro var hvar
    obtain ⟨slot, hslot, rfl⟩ := Stack.mem_slots_of_resolve hvar
    exact (hp.stored slot hslot).imp fun _ => And.left
  obtain ⟨e, q, he⟩ := lowerTest_ok rules hvars (hp.descends.grows.has (.of_isLeaf hb)) operandTy
    operand span
  obtain ⟨symbol, test, size, -, -, -, -, rfl⟩ := lowerTest_eq_ok he
  exact .of_ok he ⟨rfl, Symbols.descends_addVar hp.sound⟩

/-- A computation in a frame for what outcomes of a condition list. -/
theorem within_meets {body : Lowering Expr} {E : List Guard → Prop} {p₀ : Pass} (hp : p₀.Neat s)
    (hc : ∀ leaf ∈ c.tests, s.isLeaf leaf = true) (hasked : Pass.Asked s p₀ c outcomes bs p)
    (hbody : ∀ news q, Pass.Into s p kind bs news q → Meets s body q fun _ r => Pass.Reaches s q r E) :
    Meets s (within kind bs body) p fun _ r =>
      Pass.Reaches s p₀ r fun G => E (outcomes.map (Guard.within c) ++ G) := by
  have hp' := hp.follows hasked.follows
  obtain ⟨news, hinto⟩ := hp'.enter kind hasked.carries
  have hmeets := hbody news _ hinto
  constructor
  · intro e r h
    obtain ⟨q, hq, rfl⟩ := within_eq_ok h
    obtain ⟨hfollows, hcovered⟩ := hmeets.ok hq
    refine ⟨hasked.follows.trans ⟨?_, hinto.descends.trans hfollows.descends⟩, fun G hG => ?_⟩
    · show q.stack.pop = p.stack
      rw [hfollows.stack, hinto.stack]
      rfl
    · exact hcovered _ (hinto.covers hp' hc ⟨p₀, hasked⟩ (hG.follows hp hasked.follows))
  · intro e r h
    obtain ⟨q, hq, -⟩ := within_eq_error h
    exact hmeets.error hq

/-- What the right operand is lowered with. -/
theorem operandFacts_meets (op : BinOp) {l : Expr} (hp : p.Neat s)
    (hl : ∀ leaf ∈ l.tests, s.isLeaf leaf = true) :
    Meets s (operandFacts matchBindings op l) p fun bs q => Pass.Asked s p l op.passes?.toList bs q := by
  have hnothing : Meets s (Pure.pure []) p fun bs q => Pass.Asked s p l [] bs q :=
    .pure _ (asked_none hp)
  cases op with
  | and => exact .of_ok rfl (asked_one hp hl true)
  | or => exact .of_ok rfl (asked_one hp hl false)
  | _ => exact hnothing

/-- A condition asked about for both outcomes. -/
theorem asking_all_meets (hp : p.Neat s) (hc : ∀ leaf ∈ c.tests, s.isLeaf leaf = true) :
    Meets s (asking (Oracle.all matchBindings c)) p fun bs q => Pass.Asked s p c [true, false] bs q :=
  .of_ok rfl (asked_all hp hc)

/-- The last step of a frame. -/
theorem Pass.Reaches.decorate {A : List Guard → Prop} (h : Pass.Reaches s p q A) (hp : p.Neat s)
    (e : Expr) : Meets s (decorateExpr e) q fun _ r => Pass.Reaches s p r A := by
  have hq := hp.follows h.follows
  refine (decorateExpr_meets e fun slot hslot => hq.stored slot ?_).mono fun _ r hr =>
    ⟨h.follows.trans (hr.follows hq.sound), h.covered⟩
  exact List.mem_flatMap.mpr ⟨_, List.mem_cons_self, hslot⟩

variable (hierarchy : Hierarchy)

mutual
-- The induction is on the expression.  In each case the parts are lowered one after the other, each
-- from a neat state that follows the one before; `seq` joins what they say of the guards around them.
/-- **An expression** whose references are all in reach where it is lowered. -/
theorem lowerExpr_meets : ∀ (e : Expr) {p : Pass}, e.Attributed s → p.Neat s →
    Meets s (lowerExpr ⟨hierarchy, matchBindings⟩ e) p fun _ q =>
      Pass.Reaches s p q (e.EachRef (inReach s))
  | .literal i v, p, _, hp => .pure _ ⟨.refl hp.sound, fun _ _ => trivial⟩
  | .ident i (.var v), p, _, hp => .pure _ ⟨.refl hp.sound, fun _ _ => trivial⟩
  | .ident i (.binding b), p, h, hp => by
      have hb : s.Has b := h.referred b (by simp [Expr.ownRefs])
      exact lowerRef_meets hp hb i.ty i.span
  | .unary i op e, p, h, hp => by
      exact .bind (lowerExpr_meets e h.unary hp) fun e' q _ hq => .pure _ hq
  | .binary i op l r, p, h, hp => by
      obtain ⟨hl, hr, -⟩ := h.binary
      refine .bind (operandFacts_meets op hp hl.tested) fun bs p₁ _ hasked => ?_
      refine within_meets (E := fun G => l.EachRef (inReach s) G
        ∧ r.EachRef (inReach s) (Guard.rightOnly op l ++ G)) hp hl.tested hasked ?_
      intro news q₀ hinto
      refine .bind (lowerExpr_meets l hl hinto.neat) fun l' q₁ _ h₁ => ?_
      refine .bind (lowerExpr_meets r hr (hinto.neat.follows h₁.follows)) fun r' q₂ _ h₂ => ?_
      -- the right operand is under what the left one has let through
      exact (h₁.seq (h₂.under (Guard.rightOnly op l)) hinto.neat).decorate hinto.neat _
  | .conditional i c y n, p, h, hp => by
      obtain ⟨hc, hy, hn, -⟩ := h.conditional
      refine .bind (asking_all_meets hp hc.tested) fun bs p₁ _ hasked => ?_
      refine within_meets (E := fun G => c.EachRef (inReach s) G
        ∧ y.EachRef (inReach s) (.passed c true :: G) ∧ n.EachRef (inReach s) (.passed c false :: G))
        hp hc.tested hasked ?_
      intro news q₀ hinto
      refine .bind (lowerExpr_meets c hc hinto.neat) fun c' q₁ _ h₁ => ?_
      have hq₁ := hinto.neat.follows h₁.follows
      refine .bind (lowerExpr_meets y hy hq₁) fun y' q₂ _ h₂ => ?_
      refine .bind (lowerExpr_meets n hn (hq₁.follows h₂.follows)) fun n' q₃ _ h₃ => ?_
      -- each branch is under its own outcome of the condition
      exact (h₁.seq ((h₂.under [.passed c true]).seq (h₃.under [.passed c false]) hq₁)
        hinto.neat).decorate hinto.neat _
  | .assign i t v, p, h, hp => by
      obtain ⟨ht, hv⟩ := h.assign
      refine .bind (lowerExpr_meets t ht hp) fun t' q₁ _ h₁ => ?_
      exact .bind (lowerExpr_meets v hv (hp.follows h₁.follows)) fun v' q₂ _ h₂ =>
        .pure _ (h₁.seq h₂ hp)
  | .cast i t e, p, h, hp => by
      exact .bind (lowerExpr_meets e h.cast hp) fun e' q _ hq => .pure _ hq
  | .instanceOf i e t, p, h, hp => by
      exact .bind (lowerExpr_meets e h.instanceOf hp) fun e' q _ hq => .pure _ hq
  | .typeTest i e pattern, p, h, hp => by
      obtain ⟨hleaf, he, -⟩ := h.typeTest
      refine .bind (lowerExpr_meets e he hp) fun e' q _ hq => ?_
      exact (lowerTest_meets (hp.follows hq.follows) hleaf e.ty e' i.span).mono fun _ r hr =>
        ⟨hq.follows.trans hr, hq.covered⟩
  | .call i f es, p, h, hp => by
      exact .bind (lowerExprs_meets es h.call hp) fun es' q _ hq => .pure _ hq
  | .methodCall i e f es, p, h, hp => by
      obtain ⟨he, hes⟩ := h.methodCall
      refine .bind (lowerExpr_meets e he hp) fun e' q₁ _ h₁ => ?_
      exact .bind (lowerExprs_meets es hes (hp.follows h₁.follows)) fun es' q₂ _ h₂ =>
        .pure _ (h₁.seq h₂ hp)
  | .letIn i ds e, p, h, hp => by
      obtain ⟨-, hds, he⟩ := h.letIn
      refine .bind (lowerDefs_meets ds hds hp) fun ds' q₁ _ h₁ => ?_
      exact .bind (lowerExpr_meets e he (hp.follows h₁.follows)) fun e' q₂ _ h₂ =>
        .pure _ (h₁.seq h₂ hp)
theorem lowerExprs_meets : ∀ (es : List Expr) {p : Pass}, Expr.AttributedAll s es → p.Neat s →
    Meets s (lowerExprs ⟨hierarchy, matchBindings⟩ es) p fun _ q =>
      Pass.Reaches s p q fun G => Expr.EachRefAll (inReach s) G es
  | [], p, _, hp => .pure _ ⟨.refl hp.sound, fun _ _ => trivial⟩
  | e :: es, p, h, hp => by
      obtain ⟨he, hes, -⟩ := Expr.attributedAll_cons.mp h
      refine .bind (lowerExpr_meets e he hp) fun e' q₁ _ h₁ => ?_
      exact .bind (lowerExprs_meets es hes (hp.follows h₁.follows)) fun es' q₂ _ h₂ =>
        .pure _ (h₁.seq h₂ hp)
theorem lowerDefs_meets : ∀ (ds : List (VarId × Expr)) {p : Pass}, Expr.AttributedDefs s ds → p.Neat s →
    Meets s (lowerDefs ⟨hierarchy, matchBindings⟩ ds) p fun _ q =>
      Pass.Reaches s p q fun G => Expr.EachRefDefs (inReach s) G ds
  | [], p, _, hp => .pure _ ⟨.refl hp.sound, fun _ _ => trivial⟩
  | (v, e) :: ds, p, h, hp => by
      obtain ⟨he, hds, -⟩ := Expr.attributedDefs_cons.mp h
      refine .bind (lowerExpr_meets e he hp) fun e' q₁ _ h₁ => ?_
      exact .bind (lowerDefs_meets ds hds (hp.follows h₁.follows)) fun ds' q₂ _ h₂ =>
        .pure _ (h₁.seq h₂ hp)
end

theorem lowerExpr?_meets (e : Option Expr) (h : Expr.AttributedAll s e.toList) (hp : p.Neat s) :
    Meets s (lowerExpr? ⟨hierarchy, matchBindings⟩ e) p fun _ q =>
      Pass.Reaches s p q fun G => Expr.EachRefAll (inReach s) G e.toList := by
  cases e with
  | none => exact .pure _ ⟨.refl hp.sound, fun _ _ => trivial⟩
  | some e =>
      rw [Option.toList_some, Expr.attributedAll_singleton] at h
      exact .bind (lowerExpr_meets hierarchy e h hp) fun e' q _ hq =>
        .pure _ (hq.imp fun G hG => ⟨hG, trivial⟩)

/-! ## §4. Statements. -/

/-- The condition of a statement under its labels stands in the statement. -/
theorem tests_of_test? : ∀ {w : Stmt} {c : Expr}, w.unlabeled.test? = some c →
    ∀ leaf ∈ c.tests, leaf ∈ w.tests
  | .labeled i l b, c, h, leaf, hleaf => by
      have hb := tests_of_test? (w := b) h leaf hleaf
      simpa using hb
  | .ifElse i c' y n, c, h, leaf, hleaf | .whileDo i c' y, c, h, leaf, hleaf
  | .doWhile i y c', c, h, leaf, hleaf => by
      injection h with h
      subst h
      simp [hleaf]
  | .forDo i ss c' es b, c, h, leaf, hleaf => by
      have h : c' = some c := h
      subst h
      simp [hleaf]
  | .expr _ _, c, h, _, _ | .decl _ _ _, c, h, _, _ | .block _ _, c, h, _, _ | .ret _ _, c, h, _, _
  | .brk _ _, c, h, _, _ | .cont _ _, c, h, _, _ => absurd h (by simp [Stmt.unlabeled, Stmt.test?])

/-- From `p` to `q` a statement is lowered, and the current frame takes over
slots if it is a block: for marked bindings that its condition lists. -/
structure Pass.Gained (s : Symbols) (w : Stmt) (p q : Pass) (taken : List (Slot × Stmt)) : Prop where
  stack : q.stack = p.stack.gain taken
  descends : p.symbols.Descends q.symbols
  neat : q.Neat s
  block : p.stack.current.kind ≠ .block → taken = []
  listed : ∀ x ∈ taken, q.symbols.Flagged x.1.binding
    ∧ ∃ c o, w.unlabeled.test? = some c ∧ ∃ g ∈ listed s c o, Stands q.symbols x.1.binding g

namespace Pass.Gained

variable {w : Stmt} {taken : List (Slot × Stmt)} {G : List Guard}

/-- A pass that follows has gained nothing. -/
theorem of_follows (h : p.Follows q) (hp : p.Neat s) : Pass.Gained s w p q [] where
  stack := by rw [Stack.gain_nil, h.stack]
  descends := h.descends
  neat := hp.follows h
  block _ := rfl
  listed x hx := absurd hx List.not_mem_nil

/-- A step behind the statement. -/
theorem before (h : Pass.Gained s w p q taken) (hsame : q.Same r) : Pass.Gained s w p r taken where
  stack := by rw [hsame.stack, h.stack]
  descends := by rw [hsame.symbols]; exact h.descends
  neat := h.neat.follows (hsame.follows h.neat.sound)
  block := h.block
  listed := by rw [hsame.symbols]; exact h.listed

/-- Outside of a block the stack stays as it is. -/
theorem follows (h : Pass.Gained s w p q taken) (hkind : p.stack.current.kind ≠ .block) : p.Follows q :=
  ⟨by rw [h.stack, h.block hkind, Stack.gain_nil], h.descends⟩

/-- Behind the statement, what the block has taken over is in reach. -/
theorem covers (h : Pass.Gained s w p q taken) (hw : w.Attributed s) (hp : p.Neat s)
    (hG : p.Covers s G) : q.Covers s (.behind w :: G) := by
  intro slot hslot b hb hab
  rw [h.stack, Stack.mem_slots_gain] at hslot
  rcases hslot with hslot | hslot
  · exact (hG.old hp h.descends slot hslot b hb hab).mono fun g hg => List.mem_cons_of_mem _ hg
  · obtain ⟨x, hx, rfl⟩ := List.mem_map.mp hslot
    obtain ⟨hflag, c, o, hc, g, hg, hstands⟩ := h.listed x hx
    obtain ⟨a, ha, hstands', hab'⟩ := lists_of_stands hp.base
      (fun leaf hleaf => hw.tested leaf (tests_of_test? hc leaf hleaf)) h.neat.descends.grows
      h.neat.sound hg hstands hb hab
    obtain ⟨m, hm, hleaves⟩ := h.neat.descends.flags hflag
    exact ⟨.behind w, List.mem_cons_self, c, o, hc, a, ha, hab', m, hm, fun leaf hleaf =>
      (hstands'.2 leaf).mpr ((hstands.2 leaf).mp (hleaves leaf hleaf))⟩

end Pass.Gained

/-- The slots taken over are for bindings that the enclosing frame takes. -/
theorem DeclaresSlots.takes {t : Symbols} {span : Span} {takes : BindingId → Bool} {id : NodeId}
    {slots : List Slot} {refused : List Stmt} {taken : List (Slot × Stmt)}
    (h : DeclaresSlots t span takes id slots refused taken) : ∀ x ∈ taken, takes x.1.binding = true := by
  induction h with
  | nil => exact fun x hx => absurd hx List.not_mem_nil
  | refuse _ _ _ _ ih => exact ih
  | take _ _ htakes _ ih =>
      intro x hx
      rcases List.mem_cons.mp hx with rfl | hx
      · exact htakes
      · exact ih x hx

/-- A frame takes a declaration over if it is a block and the binding is marked. -/
theorem takes_iff {f : Frame} {st : Stack} {t : Symbols} {b : BindingId} :
    (⟨f, st.frames⟩ : Stack).takes t b = true ↔ st.current.kind = .block ∧ t.Flagged b := by
  simp only [Stack.takes, Stack.frames, List.head?_cons, Option.any_some, Symbols.Flagged]
  cases st.current.kind <;> simp [FrameKind.acceptsHoist]

/-- A statement in a frame for what outcomes of its condition list. -/
theorem within_meetsStmt {w : Stmt} {body : Lowering Decorated} {E : List Guard → Prop} {p₀ : Pass}
    (hp : p₀.Neat s) (hc : ∀ leaf ∈ c.tests, s.isLeaf leaf = true)
    (hw : ∀ o ∈ outcomes, w.unlabeled.test? = some c) (hasked : Pass.Asked s p₀ c outcomes bs p)
    (hbody : ∀ news q, Pass.Into s p .statement bs news q → Meets s body q fun d r =>
      ∃ stmt q₁, Pass.Reaches s q q₁ E ∧ decorateStmt stmt q₁ = .ok d r) :
    Meets s (within .statement bs body) p fun _ r => ∃ taken, Pass.Gained s w p₀ r taken
      ∧ ∀ G, p₀.Covers s G → E (outcomes.map (Guard.within c) ++ G) := by
  have hp' := hp.follows hasked.follows
  obtain ⟨news, hinto⟩ := hp'.enter .statement hasked.carries
  have hmeets := hbody news _ hinto
  constructor
  · intro d r h
    obtain ⟨q, hq, rfl⟩ := within_eq_ok h
    obtain ⟨stmt, q₁, ⟨hfollows, hcovered⟩, hdecorate⟩ := hmeets.ok hq
    obtain ⟨refused, taken, hdeclares, -, rfl⟩ := decorateStmt_eq_ok hdecorate
    have hq₁ := hinto.neat.follows hfollows
    have hstack : q₁.stack = ⟨⟨.statement, news, []⟩, p.stack.frames⟩ := hfollows.stack.trans hinto.stack
    -- the frame is closed: what it did not take goes to the block around it
    have hpop : (q₁.stack.give taken).pop = p.stack.gain taken := by rw [hstack, Stack.pop_give]
    have hmem : ∀ x ∈ taken, x.1 ∈ news := by
      intro x hx
      have := hdeclares.mem_slots x hx
      rwa [hstack] at this
    have htakes : ∀ x ∈ taken, p.stack.current.kind = .block ∧ q₁.symbols.Flagged x.1.binding := by
      intro x hx
      have := hdeclares.takes x hx
      rw [hstack] at this
      exact takes_iff.mp this
    refine ⟨taken, ⟨?_, ?_, ?_, ?_, ?_⟩, fun G hG => ?_⟩
    · exact hpop.trans (by rw [hasked.follows.stack])
    · exact hasked.follows.descends.trans (hinto.descends.trans hfollows.descends)
    -- a slot of the stack behind it was there before, or is one of those given away
    · refine hq₁.sub (fun slot hslot => ?_) (.refl hq₁.sound)
      have hslot : slot ∈ (q₁.stack.give taken).pop.slots := hslot
      rw [hpop, Stack.mem_slots_gain] at hslot
      rw [hfollows.stack]
      refine hinto.mem_slots.mpr (hslot.symm.imp (fun hslot => ?_) id)
      obtain ⟨x, hx, rfl⟩ := List.mem_map.mp hslot
      exact hmem x hx
    · intro hkind
      rw [← hasked.follows.stack] at hkind
      exact List.eq_nil_iff_forall_not_mem.mpr fun x hx => hkind (htakes x hx).1
    · intro x hx
      obtain ⟨o, ho, g, hg, hstands⟩ := hasked.stands _ (hinto.asked _ (hmem x hx))
      exact ⟨(htakes x hx).2, c, o, hw o ho, g, hg,
        hstands.grows hp'.sound (hinto.descends.trans hfollows.descends).grows⟩
    -- the guards of the body are those of the condition, in front of those around
    · exact hcovered _ (hinto.covers hp' hc ⟨p₀, hasked⟩ (hG.follows hp hasked.follows))
  · intro e r h
    obtain ⟨q, hq, -⟩ := within_eq_error h
    exact hmeets.error hq

/-- A statement outside of a block, with its declarations. -/
theorem inner_meets {w : Stmt} {body : Lowering Decorated} {E : List Guard → Prop}
    (hkind : p.stack.current.kind ≠ .block)
    (hbody : Meets s body p fun _ q => ∃ taken, Pass.Gained s w p q taken ∧ ∀ G, p.Covers s G → E G) :
    Meets s (body >>= Decorated.close) p fun _ q => Pass.Reaches s p q E := by
  refine .bind hbody fun d q _ hq => ?_
  obtain ⟨taken, hgained, hE⟩ := hq
  exact (close_meets d q).mono fun _ r hr => ⟨(hgained.before hr).follows hkind, hE⟩

/-- A statement that its frame declares the storage of. -/
theorem decorateStmt_meetsStmt {E : List Guard → Prop} (hp : p.Neat s) (h : Pass.Reaches s p q E)
    (stmt : Stmt) : Meets s (decorateStmt stmt) q fun d r =>
      ∃ stmt q₁, Pass.Reaches s p q₁ E ∧ decorateStmt stmt q₁ = .ok d r := by
  have hq := hp.follows h.follows
  refine (decorateStmt_meets stmt fun slot hslot => hq.stored slot ?_).mono fun d r hr => ⟨stmt, q, h, hr⟩
  exact List.mem_flatMap.mpr ⟨_, List.mem_cons_self, hslot⟩

/-- The current frame is still no block. -/
theorem Pass.Reaches.outside {A : List Guard → Prop} (h : Pass.Reaches s p q A)
    (hkind : p.stack.current.kind ≠ .block) : q.stack.current.kind ≠ .block := by
  rwa [h.follows.stack]

/-- A statement without a frame. -/
theorem Pass.Reaches.plain {A : List Guard → Prop} {w : Stmt} (h : Pass.Reaches s p q A) (hp : p.Neat s) :
    ∃ taken, Pass.Gained s w p q taken ∧ ∀ G, p.Covers s G → A G :=
  ⟨[], .of_follows h.follows hp, h.covered⟩

/-- A statement, wherever it is lowered, has all its references in reach or is
refused with an excuse. -/
def MeetsParts (s : Symbols) (hierarchy : Hierarchy) (w : Stmt) : Prop :=
  ∀ {p : Pass}, w.Attributed s → p.Neat s →
    Meets s (lowerParts ⟨hierarchy, matchBindings⟩ w) p fun _ q => ∃ taken, Pass.Gained s w p q taken
      ∧ ∀ G, p.Covers s G → w.EachRef (inReach s) G

/-- So do the statements of a block. -/
def MeetsBlock (s : Symbols) (hierarchy : Hierarchy) (ws : List Stmt) : Prop :=
  ∀ {p : Pass}, Stmt.AttributedAll s ws → p.Neat s →
    Meets s (lowerBlock ⟨hierarchy, matchBindings⟩ ws) p fun _ q => q.stack.enclosing = p.stack.enclosing
      ∧ p.symbols.Descends q.symbols ∧ ∀ G, p.Covers s G → Stmt.EachRefBlock (inReach s) G ws

/-- So do statements outside of a block. -/
def MeetsList (s : Symbols) (hierarchy : Hierarchy) (ws : List Stmt) : Prop :=
  ∀ {p : Pass}, Stmt.AttributedAll s ws → p.Neat s → p.stack.current.kind ≠ .block →
    Meets s (lowerStmts ⟨hierarchy, matchBindings⟩ ws) p fun _ q =>
      Pass.Reaches s p q fun G => Stmt.EachRefList (inReach s) G ws

/-- So does a branch that may be missing. -/
def MeetsOpt (s : Symbols) (hierarchy : Hierarchy) (w : Option Stmt) : Prop :=
  ∀ {p : Pass}, Stmt.AttributedOpt s w → p.Neat s → p.stack.current.kind ≠ .block →
    Meets s (lowerStmt? ⟨hierarchy, matchBindings⟩ w) p fun _ q =>
      Pass.Reaches s p q fun G => Stmt.EachRefOpt (inReach s) G w

section

variable {hierarchy} {i : StmtInfo} {e : Expr} {value : Option Expr} {es : List Expr} {w y b : Stmt}
  {n : Option Stmt} {ws ss : List Stmt}

/-- The frame for a condition is no block. -/
theorem Pass.Into.outside (h : Pass.Into s p .statement bs news q) : q.stack.current.kind ≠ .block := by
  rw [h.stack]
  exact nofun

/-- An expression as a statement. -/
theorem meetsParts_expr : MeetsParts s hierarchy (.expr i e) := by
  intro p h hp
  exact .bind (lowerExpr_meets hierarchy e h.expr hp) fun e' q _ hq => .pure _ (hq.plain hp)

/-- A declaration. -/
theorem meetsParts_decl {v : VarId} : MeetsParts s hierarchy (.decl i v value) := by
  intro p h hp
  exact .bind (lowerExpr?_meets hierarchy value h.decl hp) fun e' q _ hq => .pure _ (hq.plain hp)

/-- A return. -/
theorem meetsParts_ret : MeetsParts s hierarchy (.ret i value) := by
  intro p h hp
  exact .bind (lowerExpr?_meets hierarchy value h.ret hp) fun e' q _ hq => .pure _ (hq.plain hp)

/-- A jump out of a statement. -/
theorem meetsParts_brk {l : Option String} : MeetsParts s hierarchy (.brk i l) :=
  fun _ hp => .pure _ ⟨[], .of_follows (.refl hp.sound) hp, fun _ _ => trivial⟩

/-- A jump to the next turn of a loop. -/
theorem meetsParts_cont {l : Option String} : MeetsParts s hierarchy (.cont i l) :=
  fun _ hp => .pure _ ⟨[], .of_follows (.refl hp.sound) hp, fun _ _ => trivial⟩

/-- A block, whose frame is for no condition. -/
theorem meetsParts_block (hss : MeetsBlock s hierarchy ss) : MeetsParts s hierarchy (.block i ss) := by
  intro p h hp
  have hnone : ∀ b ∈ ([] : List BindingId), s.Carries p.symbols b := fun b hb => absurd hb List.not_mem_nil
  obtain ⟨news, hinto⟩ := hp.enter .block hnone
  have hnews : news = [] := List.eq_nil_iff_forall_not_mem.mpr fun slot hslot =>
    absurd (hinto.asked slot hslot) List.not_mem_nil
  subst hnews
  have hblock := hss h.block hinto.neat
  constructor
  · intro d r hr
    obtain ⟨out, q, hout, -, rfl⟩ := lowerParts_block_eq_ok hr
    obtain ⟨henclosing, hdescends, hE⟩ := hblock.ok hout
    refine ⟨[], .of_follows ⟨?_, hinto.descends.trans hdescends⟩ hp, fun G hG => hE G ?_⟩
    · rw [hinto.stack] at henclosing
      show Stack.pop _ = p.stack
      rw [Stack.pop, henclosing]
      rfl
    · intro slot hslot
      rcases hinto.mem_slots.mp hslot with hslot | hslot
      · exact absurd hslot List.not_mem_nil
      · exact hG.old hp hinto.descends slot hslot
  · intro e r hr
    obtain ⟨q, hq, -⟩ := within_eq_error hr
    exact (Meets.bind hblock fun out q _ _ => .pure _ trivial : Meets _ _ _ fun _ _ => True).error hq

/-- A conditional: the condition guards both branches, each by its outcome. -/
theorem meetsParts_ifElse (hy : MeetsParts s hierarchy y) (hn : MeetsOpt s hierarchy n) :
    MeetsParts s hierarchy (.ifElse i c y n) := by
  intro p h hp
  obtain ⟨hc, hattrY, hattrN, -⟩ := h.ifElse
  refine .bind (asking_all_meets hp hc.tested) fun bs p₁ _ hasked => ?_
  refine within_meetsStmt (E := fun G => c.EachRef (inReach s) G
    ∧ y.EachRef (inReach s) (.passed c true :: G)
    ∧ Stmt.EachRefOpt (inReach s) (.passed c false :: G) n) hp hc.tested (fun _ _ => rfl) hasked ?_
  intro news q₀ hinto
  have hkind := hinto.outside
  refine .bind (lowerExpr_meets hierarchy c hc hinto.neat) fun c' q₁ _ h₁ => ?_
  have hq₁ := hinto.neat.follows h₁.follows
  refine .bind₂ (inner_meets (h₁.outside hkind) (hy hattrY hq₁)) fun y' q₂ _ h₂ => ?_
  have hq₂ := hq₁.follows h₂.follows
  refine .bind (hn hattrN hq₂ (h₂.outside (h₁.outside hkind))) fun n' q₃ _ h₃ => ?_
  exact decorateStmt_meetsStmt hinto.neat
    (h₁.seq ((h₂.under [.passed c true]).seq (h₃.under [.passed c false]) hq₁) hinto.neat) _

/-- A loop that tests in front of its body. -/
theorem meetsParts_whileDo (hb : MeetsParts s hierarchy b) : MeetsParts s hierarchy (.whileDo i c b) := by
  intro p h hp
  obtain ⟨hc, hattr, -⟩ := h.whileDo
  refine .bind (asking_all_meets hp hc.tested) fun bs p₁ _ hasked => ?_
  refine within_meetsStmt (E := fun G => c.EachRef (inReach s) G
    ∧ b.EachRef (inReach s) (.passed c true :: G)) hp hc.tested (fun _ _ => rfl) hasked ?_
  intro news q₀ hinto
  refine .bind (lowerExpr_meets hierarchy c hc hinto.neat) fun c' q₁ _ h₁ => ?_
  have hq₁ := hinto.neat.follows h₁.follows
  refine .bind₂ (inner_meets (h₁.outside hinto.outside) (hb hattr hq₁)) fun b' q₂ _ h₂ => ?_
  exact decorateStmt_meetsStmt hinto.neat (h₁.seq (h₂.under [.passed c true]) hinto.neat) _

/-- A loop that tests behind its body, which the condition does not guard. -/
theorem meetsParts_doWhile (hb : MeetsParts s hierarchy b) : MeetsParts s hierarchy (.doWhile i b c) := by
  intro p h hp
  obtain ⟨hc, hattr, -⟩ := h.doWhile
  refine .bind (asking_all_meets hp hc.tested) fun bs p₁ _ hasked => ?_
  refine within_meetsStmt (E := fun G => b.EachRef (inReach s) G ∧ c.EachRef (inReach s) G)
    hp hc.tested (fun _ _ => rfl) hasked ?_
  intro news q₀ hinto
  refine .bind₂ (inner_meets hinto.outside (hb hattr hinto.neat)) fun b' q₁ _ h₁ => ?_
  have hq₁ := hinto.neat.follows h₁.follows
  refine .bind (lowerExpr_meets hierarchy c hc hq₁) fun c' q₂ _ h₂ => ?_
  exact decorateStmt_meetsStmt hinto.neat (h₁.seq h₂ hinto.neat) _

/-- A loop with a start and steps, which the condition guards as it does the body. -/
theorem meetsParts_forDo {c : Option Expr} (hss : MeetsList s hierarchy ss) (hb : MeetsParts s hierarchy b) :
    MeetsParts s hierarchy (.forDo i ss c es b) := by
  intro p h hp
  obtain ⟨hc, hes, hattrS, hattrB, -⟩ := h.forDo
  -- the frame is the same whether there is a condition or not; only what it is entered for differs
  have hbody : ∀ {p₁ : Pass} {bs news q₀}, Pass.Into s p₁ .statement bs news q₀ → Meets s (do
        let start ← lowerStmts ⟨hierarchy, matchBindings⟩ ss
        let cond ← lowerExpr? ⟨hierarchy, matchBindings⟩ c
        let step ← lowerExprs ⟨hierarchy, matchBindings⟩ es
        let body ← (← lowerParts ⟨hierarchy, matchBindings⟩ b).close
        decorateStmt (.forDo i start cond step body)) q₀ fun d r =>
      ∃ stmt q₁, Pass.Reaches s q₀ q₁ (fun G => Stmt.EachRefList (inReach s) G ss
        ∧ Expr.EachRefAll (inReach s) G c.toList
        ∧ Expr.EachRefAll (inReach s) (Guard.held? c ++ G) es
        ∧ b.EachRef (inReach s) (Guard.held? c ++ G)) ∧ decorateStmt stmt q₁ = .ok d r := by
    intro p₁ bs news q₀ hinto
    refine .bind (hss hattrS hinto.neat hinto.outside) fun ss' q₁ _ h₁ => ?_
    have hq₁ := hinto.neat.follows h₁.follows
    refine .bind (lowerExpr?_meets hierarchy c hc hq₁) fun c' q₂ _ h₂ => ?_
    have hq₂ := hq₁.follows h₂.follows
    refine .bind (lowerExprs_meets hierarchy es hes hq₂) fun es' q₃ _ h₃ => ?_
    have hq₃ := hq₂.follows h₃.follows
    refine .bind₂ (inner_meets (h₃.outside (h₂.outside (h₁.outside hinto.outside)))
      (hb hattrB hq₃)) fun b' q₄ _ h₄ => ?_
    exact decorateStmt_meetsStmt hinto.neat
      (h₁.seq (h₂.seq ((h₃.under (Guard.held? c)).seq (h₄.under (Guard.held? c)) hq₂) hq₁) hinto.neat) _
  cases c with
  | none =>
      -- nothing is asked: it is as with a condition of which no outcome is asked for
      have hasked : Pass.Asked s p (.literal ⟨0, .void, ⟨0, 0⟩⟩ .null) [] [] p :=
        asked_none hp
      exact .bind (.of_ok (Q := fun bs q => bs = [] ∧ q = p) rfl ⟨rfl, rfl⟩) fun bs q _ hq => by
        obtain ⟨rfl, rfl⟩ := hq
        exact within_meetsStmt hp (fun leaf hleaf => absurd hleaf (by simp))
          (fun o ho => absurd ho List.not_mem_nil) hasked fun news q₀ hinto => hbody hinto
  | some c =>
      rw [Option.toList_some, Expr.attributedAll_singleton] at hc
      exact .bind (asking_all_meets hp hc.tested) fun bs q _ hasked =>
        within_meetsStmt hp hc.tested (fun _ _ => rfl) hasked fun news q₀ hinto => hbody hinto

/-- A statement under a label, which gains what its statement does. -/
theorem meetsParts_labeled {l : String} (hb : MeetsParts s hierarchy b) : MeetsParts s hierarchy (.labeled i l b) := by
  intro p h hp
  refine .bind (hb h.labeled hp) fun d q _ hq => ?_
  obtain ⟨taken, hgained, hE⟩ := hq
  exact .pure _ ⟨taken, ⟨hgained.stack, hgained.descends, hgained.neat, hgained.block, hgained.listed⟩, hE⟩

/-- A statement of a block, with what the block takes over from it. -/
theorem meetsBlock_cons (hw : MeetsParts s hierarchy w) (hws : MeetsBlock s hierarchy ws) :
    MeetsBlock s hierarchy (w :: ws) := by
  intro p h hp
  obtain ⟨hattr, hattrs, -⟩ := Stmt.attributedAll_cons.mp h
  refine .bind (hw hattr hp) fun d q₁ _ h₁ => ?_
  obtain ⟨taken, hgained, hE⟩ := h₁
  refine .bind (close_meets d q₁) fun w' q₂ _ h₂ => ?_
  have hgained₂ := hgained.before h₂
  refine .bind (.of_ok (Q := fun _ q => q.stack = { q₂.stack with
    current := { q₂.stack.current with hoisted := [] } } ∧ q.symbols = q₂.symbols) rfl ⟨rfl, rfl⟩)
    fun hoisted q₃ _ h₃ => ?_
  have hslots : ∀ slot, slot ∈ q₃.stack.slots ↔ slot ∈ q₂.stack.slots := by
    intro slot
    rw [h₃.1]
    rfl
  have hq₃ : q₃.Neat s := hgained₂.neat.sub (fun slot => (hslots slot).mp) (by
    rw [h₃.2]
    exact .refl hgained₂.neat.sound)
  refine .bind (hws hattrs hq₃) fun rest q₄ _ h₄ => ?_
  obtain ⟨henclosing, hdescends, hE'⟩ := h₄
  refine .pure _ ⟨?_, ?_, fun G hG => ⟨hE G hG, hE' _ fun slot hslot => ?_⟩⟩
  · rw [henclosing, h₃.1, hgained₂.stack]
    rfl
  · rw [h₃.2] at hdescends
    exact hgained₂.descends.trans hdescends
  · rw [h₃.2]
    exact hgained₂.covers hattr hp hG slot ((hslots slot).mp hslot)

/-- A statement in front of others. -/
theorem meetsList_cons (hw : MeetsParts s hierarchy w) (hws : MeetsList s hierarchy ws) :
    MeetsList s hierarchy (w :: ws) := by
  intro p h hp hkind
  obtain ⟨hattr, hattrs, -⟩ := Stmt.attributedAll_cons.mp h
  refine .bind₂ (inner_meets hkind (hw hattr hp)) fun w' q₁ _ h₁ => ?_
  exact .bind (hws hattrs (hp.follows h₁.follows) (h₁.outside hkind)) fun ws' q₂ _ h₂ =>
    .pure _ (h₁.seq h₂ hp)

end

mutual
/-- **A statement** whose references are all in reach where it is lowered. -/
theorem lowerParts_meets : ∀ w : Stmt, MeetsParts s hierarchy w
  | .expr _ _ => meetsParts_expr
  | .decl _ _ _ => meetsParts_decl
  | .ret _ _ => meetsParts_ret
  | .brk _ _ => meetsParts_brk
  | .cont _ _ => meetsParts_cont
  | .block _ ss => meetsParts_block (lowerBlock_meets ss)
  | .ifElse _ _ y n => meetsParts_ifElse (lowerParts_meets y) (lowerStmt?_meets n)
  | .whileDo _ _ b => meetsParts_whileDo (lowerParts_meets b)
  | .doWhile _ b _ => meetsParts_doWhile (lowerParts_meets b)
  | .forDo _ ss _ _ b => meetsParts_forDo (lowerStmts_meets ss) (lowerParts_meets b)
  | .labeled _ _ b => meetsParts_labeled (lowerParts_meets b)
/-- The statements of a block. -/
theorem lowerBlock_meets : ∀ ws : List Stmt, MeetsBlock s hierarchy ws
  | [] => fun _ hp => .pure _ ⟨rfl, .refl hp.sound, fun _ _ => trivial⟩
  | w :: ws => meetsBlock_cons (lowerParts_meets w) (lowerBlock_meets ws)
/-- Statements outside of a block. -/
theorem lowerStmts_meets : ∀ ws : List Stmt, MeetsList s hierarchy ws
  | [] => fun _ hp _ => .pure _ ⟨.refl hp.sound, fun _ _ => trivial⟩
  | w :: ws => meetsList_cons (lowerParts_meets w) (lowerStmts_meets ws)
/-- A branch that may be missing. -/
theorem lowerStmt?_meets : ∀ w : Option Stmt, MeetsOpt s hierarchy w
  | none => fun _ hp _ => .pure _ ⟨.refl hp.sound, fun _ _ => trivial⟩
  | some w => fun h hp hkind =>
      .bind₂ (inner_meets hkind (lowerParts_meets w h hp)) fun _ _ _ hq => .pure _ hq
end

/-! ## §5. Classes. -/

/-- A method is lowered to `m'` from an empty stack; `t` is a later table. -/
def FromBare (s t : Symbols) (m m' : Method) : Prop :=
  ∃ q q', q.Neat s ∧ q.stack = .bare ∧ lowerMethod ⟨hierarchy, matchBindings⟩ m q = .ok m' q'
    ∧ q'.symbols.Evolves t

/-- On an empty stack there are no slots. -/
theorem Pass.Neat.bare (hs : s.Sound) (hp : s.Descends p.symbols) (hstack : p.stack = .bare) :
    p.Neat s := by
  have hslots : ∀ slot, slot ∉ p.stack.slots := by
    rw [hstack]
    exact fun _ => List.not_mem_nil
  exact ⟨hs, hp, fun a ha => absurd ha (hslots a), fun a ha => absurd ha (hslots a),
    fun a ha => absurd ha (hslots a), fun a ha => absurd ha (hslots a)⟩

/-- A method reaches the references of its body. -/
theorem lowerMethod_meets {m : Method} (hm : m.Attributed s) (hp : p.Neat s) (hstack : p.stack = .bare) :
    Meets s (lowerMethod ⟨hierarchy, matchBindings⟩ m) p fun _ q =>
      Pass.Reaches s p q fun G => Stmt.EachRefOpt (inReach s) G m.body :=
  .bind (lowerStmt?_meets hierarchy m.body hm.body hp (by rw [hstack]; exact nofun)) fun body q _ hq =>
    .pure _ hq

/-- So do methods one after the other. -/
theorem lowerMethods_meets : ∀ (ms : List Method) {p : Pass}, (∀ m ∈ ms, m.Attributed s) → p.Neat s →
    p.stack = .bare → Meets s (lowerMethods ⟨hierarchy, matchBindings⟩ ms) p fun out q =>
      p.Follows q ∧ ∀ t, q.symbols.Evolves t → List.Forall₂ (FromBare hierarchy s t) ms out
  | [], p, _, hp, _ => .pure _ ⟨.refl hp.sound, fun _ _ => .nil⟩
  | m :: ms, p, h, hp, hstack => by
      refine .bind (lowerMethod_meets hierarchy (h m List.mem_cons_self) hp hstack) fun m' q₁ hm h₁ => ?_
      refine .bind (lowerMethods_meets ms (fun x hx => h x (List.mem_cons_of_mem _ hx))
        (hp.follows h₁.follows) (h₁.follows.stack.trans hstack)) fun ms' q₂ _ h₂ => ?_
      exact .pure _ ⟨h₁.follows.trans h₂.1, fun t ht =>
        .cons ⟨p, q₁, hp, hstack, hm, h₂.1.descends.toEvolves.trans ht⟩ (h₂.2 t ht)⟩

/-- **Class after class**: every method is lowered from an empty stack, or the
first error has an excuse. -/
theorem lowerClasses_meets (hs : s.Sound) : ∀ (cs : List Class) {t : Symbols},
    (∀ c ∈ cs, ∀ m ∈ c.methods, m.Attributed s) → s.Descends t →
      (∀ e, (lowerClasses ⟨hierarchy, matchBindings⟩ cs t).error = some e → Excused s e)
        ∧ ((lowerClasses ⟨hierarchy, matchBindings⟩ cs t).error = none →
            t.Evolves (lowerClasses ⟨hierarchy, matchBindings⟩ cs t).symbols
            ∧ List.Forall₂ (fun c c' => List.Forall₂ (FromBare hierarchy s
                (lowerClasses ⟨hierarchy, matchBindings⟩ cs t).symbols) c.methods c'.methods)
              cs ((lowerClasses ⟨hierarchy, matchBindings⟩ cs t).done.map Prod.fst))
  | [], t, _, ht => ⟨fun e he => absurd he (by simp [lowerClasses]), fun _ => ⟨.refl ht.sound, .nil⟩⟩
  | c :: cs, t, h, ht => by
      have hmethods := lowerMethods_meets hierarchy c.methods (h c List.mem_cons_self)
        (.bare hs ht rfl : (Pass.start t).Neat s) rfl
      have hclass : Meets s (lowerClass ⟨hierarchy, matchBindings⟩ c) (.start t) fun c' q =>
          (Pass.start t).Follows q ∧ ∀ u, q.symbols.Evolves u →
            List.Forall₂ (FromBare hierarchy s u) c.methods c'.methods :=
        .bind hmethods fun out q _ hq => .pure _ hq
      unfold lowerClasses
      cases hc : lowerClass ⟨hierarchy, matchBindings⟩ c (Pass.start t) with
      | error e q =>
          refine ⟨fun e' he => ?_, fun herror => absurd herror (by simp)⟩
          injection he with he
          exact he ▸ hclass.error hc
      | ok c' q =>
          obtain ⟨hfollows, heach⟩ := hclass.ok hc
          obtain ⟨herror, hok⟩ := lowerClasses_meets hs cs
            (fun x hx => h x (List.mem_cons_of_mem _ hx)) (ht.trans hfollows.descends)
          refine ⟨herror, fun hnone => ?_⟩
          obtain ⟨hevolves, hrest⟩ := hok hnone
          exact ⟨hfollows.descends.toEvolves.trans hevolves, .cons (heach _ hevolves) hrest⟩

end Lowering

end PatternIR
