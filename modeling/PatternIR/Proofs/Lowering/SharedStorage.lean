/-
  PatternIR.Proofs.Lowering.SharedStorage
  ───────────────────────────────────────
  **EVERY MATCH REACHES THE SLOT THAT IS READ.**

  A frame for a condition has one slot for each binding listed for it.  While
  the condition is lowered, more frames are entered for its parts, and those
  are asked about the same patterns.  None of these frames gets a slot for a
  pattern that has one: a binding that an alias of is resolved is skipped.  So
  the slot of a listed binding is the only one for its patterns, and each test
  of one of them stores where references to the binding read.

    • `Pass.Pins` — one variable stores all patterns of a binding;
    • `testsReached` — the states in which the tests of patterns are lowered;
    • `tests_reach_slot` — the tests of a condition in a frame for it.
-/
import PatternIR.Proofs.Flow.Distinct
import PatternIR.Proofs.Lowering.Ids
import PatternIR.Proofs.Lowering.Places

namespace PatternIR

namespace Symbols

variable {s t : Symbols}

/-- Only the bindings matter. -/
theorem Grows.of_bindings (h : t.bindings = s.bindings) : s.Grows t := by
  refine ⟨Nat.le_of_eq (by rw [h]), ?_⟩
  intro id b hb
  refine ⟨b.preserved, ?_, fun hp => hp⟩
  rw [binding?, h]
  exact hb

/-- Whether a table is closed depends on its bindings alone. -/
theorem Closed.of_bindings (hs : s.Closed) (h : t.bindings = s.bindings) : t.Closed := by
  intro b c hc
  rw [parts, binding?, h] at hc
  rw [Has, h]
  exact hs hc

end Symbols

namespace Flow

/-- What the oracle adds to a closed table unifies bindings of it. -/
theorem matchBindings_closed (e : Expr) (o : Bool) {t : Symbols} (ht : t.Closed) :
    (matchBindings e o t).2.Closed :=
  matchBindings_keeps (fun h hm => h.merge hm) e o ht

end Flow

namespace Lowering

open PatternIR.Flow (matchBindings)

variable {α : Type} {hierarchy : Hierarchy} {p q r : Pass} {kind : FrameKind} {bs : List BindingId}
  {b m : BindingId} {g : List BindingId} {x : VarId}

/-! ## §1. What a step leaves alone. -/

/-- `q` has the stack of `p`, and a later table, closed if that of `p` is. -/
structure Pass.Advances (p q : Pass) : Prop where
  stack : q.stack = p.stack
  grows : p.symbols.Grows q.symbols
  closed : p.symbols.Closed → q.symbols.Closed

namespace Pass.Advances

/-- A step that leaves stack and bindings alone. -/
theorem of_bindings (hstack : q.stack = p.stack) (h : q.symbols.bindings = p.symbols.bindings) :
    p.Advances q :=
  ⟨hstack, .of_bindings h, fun hp => hp.of_bindings h⟩

/-- A pass advances by doing nothing. -/
theorem refl (p : Pass) : p.Advances p := .of_bindings rfl rfl

/-- It advances step by step. -/
theorem trans (h : p.Advances q) (h' : q.Advances r) : p.Advances r :=
  ⟨h'.stack.trans h.stack, h.grows.trans h'.grows, fun hp => h'.closed (h.closed hp)⟩

end Pass.Advances

/-- Opening a frame adds no bindings. -/
theorem enter_bindings (p : Pass) (kind : FrameKind) (bs : List BindingId) :
    (p.enter kind bs).symbols.bindings = p.symbols.bindings := by
  obtain ⟨news, syms, -, heq⟩ := enter_eq p kind bs
  rw [heq]
  rfl

/-- What advances inside a frame has advanced once the frame is left. -/
theorem Pass.Advances.framed (kind : FrameKind) (bs : List BindingId)
    (h : (p.enter kind bs).Advances q) : p.Advances { q with stack := q.stack.pop } := by
  obtain ⟨news, syms, -, henter⟩ := enter_eq p kind bs
  have hgrows : p.symbols.Grows (p.enter kind bs).symbols := .of_bindings (enter_bindings p kind bs)
  refine ⟨?_, hgrows.trans h.grows, fun hp => h.closed ?_⟩
  · show q.stack.pop = p.stack
    rw [h.stack, henter]
    rfl
  · exact hp.of_bindings (enter_bindings p kind bs)

/-- A question advances the pass if it lets the table grow and keeps it closed. -/
theorem asking_advances {question : Symbols → List BindingId × Symbols}
    (hgrows : ∀ t : Symbols, t.Grows (question t).2) (hclosed : ∀ t : Symbols, t.Closed → (question t).2.Closed)
    (h : asking question p = .ok bs q) : p.Advances q := by
  obtain ⟨-, rfl⟩ := asking_eq_ok h
  exact ⟨rfl, hgrows p.symbols, hclosed p.symbols⟩

/-- A condition asked about for one outcome. -/
theorem asking_one_advances {c : Expr} {o : Bool} (h : asking (matchBindings c o) p = .ok bs q) :
    p.Advances q :=
  asking_advances (Flow.matchBindings_grows c o) (fun _ => Flow.matchBindings_closed c o) h

/-- Asking about both outcomes takes nothing out of the table. -/
theorem all_grows (c : Expr) (t : Symbols) : t.Grows (Oracle.all matchBindings c t).2 :=
  (Flow.matchBindings_grows c true t).trans (Flow.matchBindings_grows c false _)

/-- A condition asked about for both. -/
theorem asking_all_advances {c : Expr} (h : asking (Oracle.all matchBindings c) p = .ok bs q) :
    p.Advances q := by
  refine asking_advances (all_grows c) (fun t ht => ?_) h
  exact Flow.matchBindings_closed c false (Flow.matchBindings_closed c true ht)

/-- The facts for the operands. -/
theorem operandFacts_advances {op : BinOp} {l : Expr} (h : operandFacts matchBindings op l p = .ok bs q) :
    p.Advances q := by
  cases op with
  | and | or => exact asking_one_advances h
  | _ =>
      obtain ⟨-, rfl⟩ := pure_eq_ok.mp h
      exact .refl q

/-- A let-expression around a node. -/
theorem decorateExpr_advances {e e' : Expr} (h : decorateExpr e p = .ok e' q) : p.Advances q := by
  rcases decorateExpr_eq_ok h with ⟨-, -, rfl⟩ | ⟨defs, -, -, rfl⟩
  · exact .refl q
  · exact .of_bindings rfl rfl

mutual
/-- **Lowering an expression** leaves the stack, and adds to the table at most. -/
theorem lowerExpr_advances : ∀ (e : Expr) {e' : Expr} {p q : Pass},
    lowerExpr ⟨hierarchy, matchBindings⟩ e p = .ok e' q → p.Advances q
  | .literal _ _, e', p, q, h | .ident _ (.var _), e', p, q, h => by
      obtain ⟨-, rfl⟩ := pure_eq_ok.mp h
      exact .refl q
  | .ident i (.binding b), e', p, q, h => by
      obtain ⟨-, -, -, rfl⟩ := lowerRef_eq_ok h
      exact .of_bindings rfl rfl
  | .unary _ _ e, e', p, q, h | .cast _ _ e, e', p, q, h | .instanceOf _ e _, e', p, q, h => by
      obtain ⟨_, he, -⟩ := bind_pure_eq_ok.mp h
      exact lowerExpr_advances e he
  | .binary i op l r, e', p, q, h => by
      obtain ⟨bs, p₁, _, q₁, _, q₂, _, hfacts, hl, hr, hdec, rfl⟩ := lowerExpr_binary_eq_ok h
      refine (operandFacts_advances hfacts).trans (.framed .binary bs ?_)
      exact ((lowerExpr_advances l hl).trans (lowerExpr_advances r hr)).trans (decorateExpr_advances hdec)
  | .conditional i c y z, e', p, q, h => by
      obtain ⟨bs, p₁, _, q₁, _, q₂, _, q₃, _, hask, hc, hy, hz, hdec, rfl⟩ :=
        lowerExpr_conditional_eq_ok h
      refine (asking_all_advances hask).trans (.framed .conditional bs ?_)
      exact (((lowerExpr_advances c hc).trans (lowerExpr_advances y hy)).trans
        (lowerExpr_advances z hz)).trans (decorateExpr_advances hdec)
  | .assign i t v, e', p, q, h => by
      obtain ⟨_, p₁, _, ht, hv, -⟩ := bind_bind_pure_eq_ok.mp h
      exact (lowerExpr_advances t ht).trans (lowerExpr_advances v hv)
  | .typeTest i e pattern, e', p, q, h => by
      obtain ⟨_, p₁, he, htest⟩ := bind_eq_ok.mp h
      obtain ⟨_, _, _, -, -, -, -, rfl⟩ := lowerTest_eq_ok htest
      exact (lowerExpr_advances e he).trans (.of_bindings rfl rfl)
  | .call i f es, e', p, q, h => by
      obtain ⟨_, hes, -⟩ := bind_pure_eq_ok.mp h
      exact lowerExprs_advances es hes
  | .methodCall i e f es, e', p, q, h => by
      obtain ⟨_, p₁, _, he, hes, -⟩ := bind_bind_pure_eq_ok.mp h
      exact (lowerExpr_advances e he).trans (lowerExprs_advances es hes)
  | .letIn i ds body, e', p, q, h => by
      obtain ⟨_, p₁, _, hds, hbody, -⟩ := bind_bind_pure_eq_ok.mp h
      exact (lowerDefs_advances ds hds).trans (lowerExpr_advances body hbody)
/-- Several expressions. -/
theorem lowerExprs_advances : ∀ (es : List Expr) {es' : List Expr} {p q : Pass},
    lowerExprs ⟨hierarchy, matchBindings⟩ es p = .ok es' q → p.Advances q
  | [], es', p, q, h => by
      obtain ⟨-, rfl⟩ := pure_eq_ok.mp h
      exact .refl q
  | e :: es, es', p, q, h => by
      obtain ⟨_, p₁, _, he, hes, -⟩ := bind_bind_pure_eq_ok.mp h
      exact (lowerExpr_advances e he).trans (lowerExprs_advances es hes)
/-- The values of definitions. -/
theorem lowerDefs_advances : ∀ (ds : List (VarId × Expr)) {ds' : List (VarId × Expr)} {p q : Pass},
    lowerDefs ⟨hierarchy, matchBindings⟩ ds p = .ok ds' q → p.Advances q
  | [], ds', p, q, h => by
      obtain ⟨-, rfl⟩ := pure_eq_ok.mp h
      exact .refl q
  | (v, e) :: ds, ds', p, q, h => by
      obtain ⟨_, p₁, _, he, hds, -⟩ := bind_bind_pure_eq_ok.mp h
      exact (lowerExpr_advances e he).trans (lowerDefs_advances ds hds)
end

/-! ## §2. One slot for the patterns of a binding. -/

/-- The binding `m`, for the patterns `g` at least, has a slot in the variable
`x`, and every slot for an alias of it is in that variable. -/
structure Pass.Pins (m : BindingId) (g : List BindingId) (x : VarId) (p : Pass) : Prop where
  closed : p.symbols.Closed
  has : ∀ slot ∈ p.stack.slots, p.symbols.Has slot.binding
  covers : ∀ leaf ∈ g, leaf ∈ p.symbols.leaves m
  slot : ⟨m, x⟩ ∈ p.stack.slots
  only : ∀ slot ∈ p.stack.slots, p.symbols.isAliasFor slot.binding m = true → slot.var = x

namespace Pass.Pins

/-- The binding is resolved to the variable, and so is each of its patterns. -/
theorem resolve (h : p.Pins m g x) : p.stack.resolve p.symbols m = some x := by
  have hsome : (p.stack.resolve p.symbols m).isSome = true := Stack.resolve_isSome.mpr
    ⟨_, h.slot, Symbols.isAliasFor_iff.mpr (.inl rfl)⟩
  obtain ⟨y, hy⟩ := Option.isSome_iff_exists.mp hsome
  obtain ⟨slot, hslot, halias, rfl⟩ := Stack.exists_slot_of_resolve hy
  rw [hy, h.only slot hslot halias]

/-- Each leaf of the group is resolved to the variable. -/
theorem resolve_leaf (h : p.Pins m g x) {leaf : BindingId} (hg : leaf ∈ g) :
    p.stack.resolve p.symbols leaf = some x := by
  have hleaf := h.covers leaf hg
  have hisLeaf := Symbols.isLeaf_of_mem_leaves hleaf
  have hself : leaf ∈ p.symbols.leaves leaf := by
    rw [Symbols.leaves_of_isLeaf hisLeaf]
    exact List.mem_singleton.mpr rfl
  have hsome : (p.stack.resolve p.symbols leaf).isSome = true := Stack.resolve_isSome.mpr
    ⟨_, h.slot, Symbols.isAliasFor_iff.mpr (.inr ⟨leaf, hleaf, hself⟩)⟩
  obtain ⟨y, hy⟩ := Option.isSome_iff_exists.mp hsome
  obtain ⟨slot, hslot, halias, rfl⟩ := Stack.exists_slot_of_resolve hy
  -- what covers the pattern is an alias of the binding
  have hcovers := Symbols.mem_leaves_of_isAliasFor hisLeaf halias
  rw [hy, h.only slot hslot (Symbols.isAliasFor_iff.mpr (.inr ⟨leaf, hcovers, hleaf⟩))]

/-- It stays so as the pass advances. -/
theorem advances (h : p.Pins m g x) (hq : p.Advances q) : q.Pins m g x := by
  have hm := h.has _ h.slot
  refine ⟨hq.closed h.closed, ?_, fun leaf hleaf => hq.grows.leaves (h.covers leaf hleaf), ?_, ?_⟩ <;>
    rw [hq.stack]
  · exact fun slot hslot => hq.grows.has (h.has slot hslot)
  · exact h.slot
  · intro slot hslot halias
    refine h.only slot hslot (Symbols.isAliasFor_iff.mpr ((Symbols.isAliasFor_iff.mp halias).imp id ?_))
    rintro ⟨leaf, hleaf, hleaf'⟩
    exact ⟨leaf, (hq.grows.mem_leaves h.closed (h.has slot hslot)).mp hleaf,
      (hq.grows.mem_leaves h.closed hm).mp hleaf'⟩

end Pass.Pins

/-- The bindings of new slots are in the table. -/
theorem Allocates.has {s : Symbols} {n : Nat} {slots : List Slot} {syms : List VarSymbol}
    (h : Allocates s n slots syms) : ∀ slot ∈ slots, s.Has slot.binding := by
  induction h with
  | nil n => exact fun _ hslot => absurd hslot List.not_mem_nil
  | cons hb _ ih =>
      intro slot hslot
      rcases List.mem_cons.mp hslot with rfl | hslot
      · exact Symbols.has_iff.mpr ⟨_, hb⟩
      · exact ih slot hslot

/-- A new frame: each slot is for a binding of the table that was not resolved
before. -/
theorem enter_slots (p : Pass) (kind : FrameKind) (bs : List BindingId) :
    ∃ (news : List Slot) (syms : List VarSymbol),
      p.enter kind bs = ⟨p.symbols.moreVars syms, ⟨⟨kind, news, []⟩, p.stack.frames⟩, p.maker⟩
        ∧ ∀ slot ∈ news, p.symbols.Has slot.binding
          ∧ p.stack.resolve p.symbols slot.binding = none := by
  obtain ⟨news, syms, halloc, heq⟩ := allocate_eq p.stack bs [] p.symbols
  have hnew := (p.stack.allocate_apart bs [] p.symbols).1
  rw [heq] at hnew
  refine ⟨news, syms, ?_, fun slot hslot => ⟨halloc.has slot hslot, ?_⟩⟩
  · unfold Pass.enter Stack.push
    rw [heq]
    rfl
  · exact (hnew slot hslot).resolve_left List.not_mem_nil

/-- A new frame for bindings of the table: its slots are for some of them, no
two for aliases, and each of them is known, by an old slot or a new one. -/
theorem enter_listed (p : Pass) (kind : FrameKind) (hbs : ∀ b ∈ bs, p.symbols.Has b) :
    ∃ (news : List Slot) (syms : List VarSymbol),
      p.enter kind bs = ⟨p.symbols.moreVars syms, ⟨⟨kind, news, []⟩, p.stack.frames⟩, p.maker⟩
        ∧ (∀ slot ∈ news, p.symbols.Has slot.binding)
        ∧ (∀ slot ∈ news, slot.binding ∈ bs)
        ∧ (∀ b ∈ bs, p.Knows b ∨ ∃ slot ∈ news, p.symbols.isAliasFor slot.binding b = true)
        ∧ news.Pairwise fun a b => p.symbols.isAliasFor a.binding b.binding = false := by
  obtain ⟨news, syms, halloc, heq⟩ := allocate_eq p.stack bs [] p.symbols
  obtain ⟨hasked, -, hcovers⟩ := p.stack.allocate_slots bs [] p.symbols hbs
  have hapart := (p.stack.allocate_apart bs [] p.symbols).2 .nil
  rw [heq] at hasked hcovers hapart
  refine ⟨news, syms, ?_, halloc.has, ?_, hcovers, hapart⟩
  · unfold Pass.enter Stack.push
    rw [heq]
    rfl
  · exact fun slot hslot => (hasked slot hslot).resolve_left List.not_mem_nil

/-- **A frame gets no slot for patterns that have one.** -/
theorem Pass.Pins.enter (h : p.Pins m g x) (kind : FrameKind) (bs : List BindingId) :
    (p.enter kind bs).Pins m g x := by
  obtain ⟨news, syms, henter, hnews⟩ := enter_slots p kind bs
  rw [henter]
  refine ⟨h.closed.of_bindings rfl, ?_, h.covers, List.mem_append_right _ h.slot, ?_⟩
  · intro slot hslot
    exact (List.mem_append.mp hslot).elim (fun hslot => (hnews slot hslot).1) (h.has slot)
  · intro slot hslot halias
    have halias : p.symbols.isAliasFor slot.binding m = true := halias
    rcases List.mem_append.mp hslot with hslot | hslot
    · -- a new slot for an alias of `m` would have been resolved, by the slot of `m`
      have hsome : (p.stack.resolve p.symbols slot.binding).isSome = true := Stack.resolve_isSome.mpr
        ⟨_, h.slot, (p.symbols.isAliasFor_comm m slot.binding).trans halias⟩
      rw [(hnews slot hslot).2] at hsome
      exact Bool.noConfusion hsome
    · exact h.only slot hslot halias

/-! ## §3. The states in which patterns are tested. -/

/-- What a computation leads to; nothing, if it fails. -/
def after {β : Type} (c : Lowering α) (p : Pass) (next : α → Pass → List β) : List β :=
  match c p with
  | .ok a q => next a q
  | .error _ _ => []

/-- What comes after a step comes from where it succeeds. -/
theorem mem_after {β : Type} {c : Lowering α} {next : α → Pass → List β} {y : β} :
    y ∈ after c p next ↔ ∃ a q, c p = .ok a q ∧ y ∈ next a q := by
  unfold after
  cases hc : c p with
  | ok a q =>
      constructor
      · exact fun hy => ⟨a, q, rfl, hy⟩
      · rintro ⟨a', q', heq, hy⟩
        injection heq with ha hq
        exact ha ▸ hq ▸ hy
  | error e q =>
      constructor
      · exact fun hy => absurd hy List.not_mem_nil
      · rintro ⟨_, _, heq, -⟩
        injection heq

mutual
/-- The type tests that the lowering of an expression comes to, each with the
state it is lowered in: its operand has been lowered by then. -/
def testsReached (rules : Rules) : Expr → Pass → List (BindingId × Pass)
  | .literal _ _, _ | .ident _ _, _ => []
  | .unary _ _ e, p | .cast _ _ e, p | .instanceOf _ e _, p => testsReached rules e p
  | .binary _ op l r, p =>
    after (operandFacts rules.flow op l) p fun bs p =>
      testsReached rules l (p.enter .binary bs)
        ++ after (lowerExpr rules l) (p.enter .binary bs) fun _ p => testsReached rules r p
  | .conditional _ c y n, p =>
    after (asking (rules.flow.all c)) p fun bs p =>
      testsReached rules c (p.enter .conditional bs)
        ++ after (lowerExpr rules c) (p.enter .conditional bs) fun _ p =>
          testsReached rules y p ++ after (lowerExpr rules y) p fun _ p => testsReached rules n p
  | .assign _ t v, p => testsReached rules t p ++ after (lowerExpr rules t) p fun _ p => testsReached rules v p
  | .typeTest _ e pattern, p =>
    testsReached rules e p ++ after (lowerExpr rules e) p fun _ p => [(pattern.binding, p)]
  | .call _ _ es, p => testsReachedAll rules es p
  | .methodCall _ e _ es, p =>
    testsReached rules e p ++ after (lowerExpr rules e) p fun _ p => testsReachedAll rules es p
  | .letIn _ ds body, p =>
    testsReachedDefs rules ds p ++ after (lowerDefs rules ds) p fun _ p => testsReached rules body p
/-- The same for expressions lowered in order. -/
def testsReachedAll (rules : Rules) : List Expr → Pass → List (BindingId × Pass)
  | [], _ => []
  | e :: es, p =>
    testsReached rules e p ++ after (lowerExpr rules e) p fun _ p => testsReachedAll rules es p
/-- The same for the definitions of a let-expression. -/
def testsReachedDefs (rules : Rules) : List (VarId × Expr) → Pass → List (BindingId × Pass)
  | [], _ => []
  | (_, e) :: ds, p =>
    testsReached rules e p ++ after (lowerExpr rules e) p fun _ p => testsReachedDefs rules ds p
end

/-- A test that is reached by the first of two computations, or the second one
after it. -/
theorem mem_then {ts : List (BindingId × Pass)} {c : Lowering α}
    {next : α → Pass → List (BindingId × Pass)} :
    (b, q) ∈ ts ++ after c p next ↔ (b, q) ∈ ts ∨ ∃ a p₁, c p = .ok a p₁ ∧ (b, q) ∈ next a p₁ := by
  rw [List.mem_append, mem_after]

-- A pass on the way to a test is inside the frames it has come through, not behind the
-- expression as a whole, so `Pins` is carried through entering a frame and never out of one.
mutual
/-- **On the way to a test** the slot of a binding stays the only one for its patterns. -/
theorem testsReached_pins : ∀ (e : Expr) {p q : Pass}, p.Pins m g x →
    (b, q) ∈ testsReached ⟨hierarchy, matchBindings⟩ e p → q.Pins m g x
  | .literal _ _, _, _, _, h | .ident _ _, _, _, _, h => absurd h List.not_mem_nil
  | .unary _ _ e, p, q, hp, h | .cast _ _ e, p, q, hp, h | .instanceOf _ e _, p, q, hp, h =>
      testsReached_pins e hp h
  | .binary _ op l r, p, q, hp, h => by
      obtain ⟨bs, p₁, hfacts, h⟩ := mem_after.mp h
      have hin := (hp.advances (operandFacts_advances hfacts)).enter .binary bs
      rcases mem_then.mp h with h | ⟨_, p₂, hl, h⟩
      · exact testsReached_pins l hin h
      · exact testsReached_pins r (hin.advances (lowerExpr_advances l hl)) h
  | .conditional _ c y n, p, q, hp, h => by
      obtain ⟨bs, p₁, hask, h⟩ := mem_after.mp h
      have hin := (hp.advances (asking_all_advances hask)).enter .conditional bs
      rcases mem_then.mp h with h | ⟨_, p₂, hc, h⟩
      · exact testsReached_pins c hin h
      · have hc' := hin.advances (lowerExpr_advances c hc)
        rcases mem_then.mp h with h | ⟨_, p₃, hy, h⟩
        · exact testsReached_pins y hc' h
        · exact testsReached_pins n (hc'.advances (lowerExpr_advances y hy)) h
  | .assign _ t v, p, q, hp, h => by
      rcases mem_then.mp h with h | ⟨_, p₁, ht, h⟩
      · exact testsReached_pins t hp h
      · exact testsReached_pins v (hp.advances (lowerExpr_advances t ht)) h
  | .typeTest _ e pattern, p, q, hp, h => by
      rcases mem_then.mp h with h | ⟨_, p₁, he, h⟩
      · exact testsReached_pins e hp h
      · injection List.mem_singleton.mp h with _ hq
        exact hq ▸ hp.advances (lowerExpr_advances e he)
  | .call _ _ es, p, q, hp, h => testsReachedAll_pins es hp h
  | .methodCall _ e _ es, p, q, hp, h => by
      rcases mem_then.mp h with h | ⟨_, p₁, he, h⟩
      · exact testsReached_pins e hp h
      · exact testsReachedAll_pins es (hp.advances (lowerExpr_advances e he)) h
  | .letIn _ ds body, p, q, hp, h => by
      rcases mem_then.mp h with h | ⟨_, p₁, hds, h⟩
      · exact testsReachedDefs_pins ds hp h
      · exact testsReached_pins body (hp.advances (lowerDefs_advances ds hds)) h
theorem testsReachedAll_pins : ∀ (es : List Expr) {p q : Pass}, p.Pins m g x →
    (b, q) ∈ testsReachedAll ⟨hierarchy, matchBindings⟩ es p → q.Pins m g x
  | [], _, _, _, h => absurd h List.not_mem_nil
  | e :: es, p, q, hp, h => by
      rcases mem_then.mp h with h | ⟨_, p₁, he, h⟩
      · exact testsReached_pins e hp h
      · exact testsReachedAll_pins es (hp.advances (lowerExpr_advances e he)) h
theorem testsReachedDefs_pins : ∀ (ds : List (VarId × Expr)) {p q : Pass}, p.Pins m g x →
    (b, q) ∈ testsReachedDefs ⟨hierarchy, matchBindings⟩ ds p → q.Pins m g x
  | [], _, _, _, h => absurd h List.not_mem_nil
  | (_, e) :: ds, p, q, hp, h => by
      rcases mem_then.mp h with h | ⟨_, p₁, he, h⟩
      · exact testsReached_pins e hp h
      · exact testsReachedDefs_pins ds (hp.advances (lowerExpr_advances e he)) h
end

/-- What follows a computation that succeeds. -/
theorem after_of_ok {β : Type} {c : Lowering α} {a : α} {next : α → Pass → List β} (h : c p = .ok a q) :
    after c p next = next a q := by
  unfold after
  rw [h]

mutual
/-- Lowering that succeeds comes to each test. -/
theorem testsReached_of_ok {rules : Rules} : ∀ (e : Expr) {e' : Expr} {p q : Pass},
    lowerExpr rules e p = .ok e' q → ((testsReached rules e p).map Prod.fst).Perm e.tests
  | .literal _ _, _, _, _, _ | .ident _ _, _, _, _, _ => by
      simp [testsReached]
  | .unary _ _ e, _, p, q, h | .cast _ _ e, _, p, q, h | .instanceOf _ e _, _, p, q, h => by
      obtain ⟨_, he, -⟩ := bind_pure_eq_ok.mp h
      simpa [testsReached] using testsReached_of_ok e he
  | .binary _ op l r, _, p, q, h => by
      obtain ⟨bs, p₁, _, q₁, _, q₂, _, hfacts, hl, hr, -, -⟩ := lowerExpr_binary_eq_ok h
      rw [testsReached, after_of_ok hfacts, after_of_ok hl, List.map_append]
      have hboth := (testsReached_of_ok l hl).append (testsReached_of_ok r hr)
      simpa using hboth
  | .conditional _ c y n, _, p, q, h => by
      obtain ⟨bs, p₁, _, q₁, _, q₂, _, q₃, _, hask, hc, hy, hn, -, -⟩ :=
        lowerExpr_conditional_eq_ok h
      rw [testsReached, after_of_ok hask, after_of_ok hc, after_of_ok hy, List.map_append, List.map_append]
      have hall := (testsReached_of_ok c hc).append
        ((testsReached_of_ok y hy).append (testsReached_of_ok n hn))
      simpa using hall
  | .assign _ t v, _, p, q, h => by
      obtain ⟨_, p₁, _, ht, hv, -⟩ := bind_bind_pure_eq_ok.mp h
      rw [testsReached, after_of_ok ht, List.map_append]
      have hboth := (testsReached_of_ok t ht).append (testsReached_of_ok v hv)
      simpa using hboth
  | .typeTest _ e pattern, _, p, q, h => by
      obtain ⟨_, p₁, he, -⟩ := bind_eq_ok.mp h
      rw [testsReached, after_of_ok he, List.map_append]
      -- the test itself comes after those of its operand
      have hboth := ((testsReached_of_ok e he).append_right [pattern.binding]).trans
        List.perm_append_comm
      simpa using hboth
  | .call _ _ es, _, p, q, h => by
      obtain ⟨_, hes, -⟩ := bind_pure_eq_ok.mp h
      simpa [testsReached] using testsReachedAll_of_ok es hes
  | .methodCall _ e _ es, _, p, q, h => by
      obtain ⟨_, p₁, _, he, hes, -⟩ := bind_bind_pure_eq_ok.mp h
      rw [testsReached, after_of_ok he, List.map_append]
      have hboth := (testsReached_of_ok e he).append (testsReachedAll_of_ok es hes)
      simpa using hboth
  | .letIn _ ds body, _, p, q, h => by
      obtain ⟨_, p₁, _, hds, hbody, -⟩ := bind_bind_pure_eq_ok.mp h
      rw [testsReached, after_of_ok hds, List.map_append]
      have hboth := (testsReachedDefs_of_ok ds hds).append (testsReached_of_ok body hbody)
      simpa using hboth
theorem testsReachedAll_of_ok {rules : Rules} : ∀ (es : List Expr) {es' : List Expr} {p q : Pass},
    lowerExprs rules es p = .ok es' q →
      ((testsReachedAll rules es p).map Prod.fst).Perm (Expr.gatherAll Expr.ownTests es)
  | [], _, _, _, _ => .refl []
  | e :: es, _, p, q, h => by
      obtain ⟨_, p₁, _, he, hes, -⟩ := bind_bind_pure_eq_ok.mp h
      rw [testsReachedAll, after_of_ok he, List.map_append, Expr.gatherAll_cons]
      exact (testsReached_of_ok e he).append (testsReachedAll_of_ok es hes)
theorem testsReachedDefs_of_ok {rules : Rules} : ∀ (ds : List (VarId × Expr))
    {ds' : List (VarId × Expr)} {p q : Pass}, lowerDefs rules ds p = .ok ds' q →
      ((testsReachedDefs rules ds p).map Prod.fst).Perm (Expr.gatherDefs Expr.ownTests ds)
  | [], _, _, _, _ => .refl []
  | (_, e) :: ds, _, p, q, h => by
      obtain ⟨_, p₁, _, he, hds, -⟩ := bind_bind_pure_eq_ok.mp h
      rw [testsReachedDefs, after_of_ok he, List.map_append, Expr.gatherDefs_cons]
      exact (testsReached_of_ok e he).append (testsReachedDefs_of_ok ds hds)
end

/-! ## §4. The tests of a condition. -/

/-- No slot of the stack covers a pattern of the list. -/
theorem Pass.avoids_of_resolve {ts : List BindingId} (hleaf : ∀ leaf ∈ ts, p.symbols.isLeaf leaf = true)
    (hfree : ∀ leaf ∈ ts, p.stack.resolve p.symbols leaf = none) : p.Avoids ts := by
  intro slot hslot leaf hcovers hmem
  have hself : leaf ∈ p.symbols.leaves leaf := by
    rw [Symbols.leaves_of_isLeaf (hleaf leaf hmem)]
    exact List.mem_singleton.mpr rfl
  have hsome : (p.stack.resolve p.symbols leaf).isSome = true := Stack.resolve_isSome.mpr
    ⟨slot, hslot, Symbols.isAliasFor_iff.mpr (.inr ⟨leaf, hcovers, hself⟩)⟩
  rw [hfree leaf hmem] at hsome
  exact Bool.noConfusion hsome

/-- **A frame for bindings that share no pattern**, none of which is stored yet:
each gets a slot that is the only one for its patterns. -/
theorem Pass.enter_pins {ts : List BindingId} (hclosed : p.symbols.Closed)
    (hslots : ∀ slot ∈ p.stack.slots, p.symbols.Has slot.binding) (hbs : Flow.Listed p.symbols bs ts)
    (hfree : p.Avoids ts) (kind : FrameKind) :
    ∀ m ∈ bs, ∃ x, (p.enter kind bs).Pins m (p.symbols.leaves m) x := by
  intro m hm
  obtain ⟨leaf, hleaf⟩ := hbs.filled m hm
  obtain ⟨news, syms, henter, hnews, hasked, hcovers, hapart⟩ := enter_listed p kind hbs.has
  -- an alias of `m` shares a pattern with it
  have hshares : ∀ {a : BindingId}, p.symbols.isAliasFor a m = true →
      ∃ leaf, leaf ∈ p.symbols.leaves a ∧ leaf ∈ p.symbols.leaves m := by
    intro a halias
    rcases Symbols.isAliasFor_iff.mp halias with rfl | hshared
    · exact ⟨leaf, hleaf, hleaf⟩
    · exact hshared
  have hold : ∀ slot ∈ p.stack.slots, p.symbols.isAliasFor slot.binding m = false := by
    intro slot hslot
    refine Bool.eq_false_iff.mpr fun halias => ?_
    obtain ⟨leaf, hla, hlm⟩ := hshares halias
    exact hfree slot hslot leaf hla (hbs.within m hm leaf hlm)
  have hnew : ∀ slot ∈ news, p.symbols.isAliasFor slot.binding m = true → slot.binding = m := by
    intro slot hslot halias
    obtain ⟨leaf, hla, hlm⟩ := hshares halias
    have hsymm : Std.Symm fun a b => Flow.Disjoint (p.symbols.leaves a) (p.symbols.leaves b) :=
      ⟨fun _ _ hab leaf hb ha => hab leaf ha hb⟩
    exact Decidable.not_not.mp fun hne =>
      hbs.apart.forall (hasked slot hslot) hm hne leaf hla hlm
  obtain ⟨slot, hslot, halias⟩ : ∃ slot ∈ news, p.symbols.isAliasFor slot.binding m = true := by
    refine (hcovers m hm).resolve_left fun hknown => ?_
    obtain ⟨slot, hslot, halias⟩ := Pass.knows_iff.mp hknown
    rw [hold slot hslot] at halias
    exact Bool.noConfusion halias
  rw [henter]
  refine ⟨slot.var, hclosed.of_bindings rfl, ?_, fun leaf hleaf => hleaf, ?_, ?_⟩
  · intro slot hslot
    exact (List.mem_append.mp hslot).elim (hnews slot) (hslots slot)
  · refine List.mem_append_left _ ?_
    rw [← hnew slot hslot halias]
    exact hslot
  · intro other hother halias'
    have halias' : p.symbols.isAliasFor other.binding m = true := halias'
    rcases List.mem_append.mp hother with hother | hother
    · -- two new slots for `m` would be for aliases
      have hsymm : Std.Symm fun a b : Slot => p.symbols.isAliasFor a.binding b.binding = false :=
        ⟨fun a b hab => (p.symbols.isAliasFor_comm b.binding a.binding).trans hab⟩
      refine congrArg Slot.var (Decidable.not_not.mp fun hne => ?_)
      have hno := hapart.forall hother hslot hne
      rw [hnew other hother halias', hnew slot hslot halias] at hno
      rw [Symbols.isAliasFor_iff.mpr (.inl rfl)] at hno
      exact Bool.noConfusion hno
    · rw [hold other hother] at halias'
      exact Bool.noConfusion halias'

/-- The state in a frame for what either outcome of a condition binds. -/
def Pass.enterFor (p : Pass) (kind : FrameKind) (cond : Expr) : Pass :=
  Pass.enter { p with symbols := (Oracle.all matchBindings cond p.symbols).2 } kind
    (Oracle.all matchBindings cond p.symbols).1

/-- **Every match reaches the slot that is read.**  In a frame for a condition
each listed binding is resolved to a variable.  While the condition is lowered,
whatever frames are entered for its parts, the test of each pattern of the
binding is resolved to just that variable, and so is the binding.  Lowering
that succeeds comes to all tests. -/
theorem tests_reach_slot (hierarchy : Hierarchy) (kind : FrameKind) (p : Pass) (cond : Expr)
    (hclosed : p.symbols.Closed) (hslots : ∀ slot ∈ p.stack.slots, p.symbols.Has slot.binding)
    (hleaf : ∀ b ∈ cond.tests, p.symbols.isLeaf b = true) (hnodup : cond.tests.Nodup)
    (hfree : ∀ b ∈ cond.tests, p.stack.resolve p.symbols b = none)
    (htrue : Flow.answersDistinct cond true p.symbols = true)
    (hfalse : Flow.answersDistinct cond false (matchBindings cond true p.symbols).2 = true) :
    (∀ m ∈ (Oracle.all matchBindings cond p.symbols).1,
      ∃ x, (p.enterFor kind cond).stack.resolve (p.enterFor kind cond).symbols m = some x
        ∧ ∀ b ∈ (p.enterFor kind cond).symbols.leaves m, ∀ q,
            (b, q) ∈ testsReached ⟨hierarchy, matchBindings⟩ cond (p.enterFor kind cond) →
              q.stack.resolve q.symbols b = some x ∧ q.stack.resolve q.symbols m = some x)
    ∧ ∀ e q, lowerExpr ⟨hierarchy, matchBindings⟩ cond (p.enterFor kind cond) = .ok e q →
        ((testsReached ⟨hierarchy, matchBindings⟩ cond (p.enterFor kind cond)).map Prod.fst).Perm
          cond.tests := by
  refine ⟨?_, fun e q hlower => testsReached_of_ok cond hlower⟩
  obtain ⟨hclosed', hlisted⟩ := Flow.all_listed hclosed hleaf hnodup htrue hfalse
  have hgrows := all_grows cond p.symbols
  -- the slots of the stack are for the same patterns as before the question
  have hfree' : Pass.Avoids cond.tests
      { p with symbols := (Oracle.all matchBindings cond p.symbols).2 } := by
    intro slot hslot leaf hcovers
    rw [hgrows.leaves_eq hclosed (hslots slot hslot)] at hcovers
    exact Pass.avoids_of_resolve hleaf hfree slot hslot leaf hcovers
  intro m hm
  obtain ⟨x, hpins⟩ := Pass.enter_pins
    (p := { p with symbols := (Oracle.all matchBindings cond p.symbols).2 }) hclosed'
    (fun slot hslot => hgrows.has (hslots slot hslot)) hlisted hfree' kind m hm
  refine ⟨x, hpins.resolve, fun b hb q htested => ?_⟩
  have hq := testsReached_pins cond hpins htested
  have hb : b ∈ (Oracle.all matchBindings cond p.symbols).2.leaves m := by
    obtain ⟨news, syms, henter, -⟩ := enter_slots
      { p with symbols := (Oracle.all matchBindings cond p.symbols).2 } kind
      (Oracle.all matchBindings cond p.symbols).1
    unfold Pass.enterFor at hb
    rw [henter] at hb
    exact hb
  exact ⟨hq.resolve_leaf hb, hq.resolve⟩

namespace Disjunction

/-- A node of the given type. -/
def info (ty : Ty) : ExprInfo := ⟨0, ty, .nowhere⟩

/-- `o instanceof String b` for the only variable `o` and a binding of the table. -/
def test (b : Nat) : Expr :=
  .typeTest (info .boolean) (.ident (info .object) (.var ⟨0⟩)) ⟨⟨b⟩, some .string⟩

/-- `l || r` -/
def or (l r : Expr) : Expr := .binary (info .boolean) .or l r

/-- `l && r` -/
def and (l r : Expr) : Expr := .binary (info .boolean) .and l r

/-- A `String` binding of the table, and what it unifies. -/
def entry (i : Nat) (name : String) (parts : List Nat) : BindingSymbol :=
  ⟨⟨i⟩, name, .string, none, false, parts.map BindingId.mk⟩

/-- A table with the variable `o`. -/
def table (bindings : List BindingSymbol) : Symbols :=
  ⟨#[⟨⟨0⟩, "o", .object, none, false⟩], bindings.toArray⟩

/-- The built-in classes, and the analysis of conditions the command uses. -/
def rules : Rules := ⟨.builtin, matchBindings⟩

/-- Two patterns for `s`. -/
def same : Symbols := table [entry 0 "s" [], entry 1 "s" []]

/-- Three patterns for `x` and two for `y`, and a binding that unifies the first
two with one that the table does not have. -/
def open_ : Symbols :=
  table [entry 0 "x" [], entry 1 "x" [], entry 2 "x" [], entry 3 "y" [], entry 4 "y" [],
    entry 5 "x" [0, 1, 6]]

/-- Three patterns for `y`. -/
def three : Symbols := table [entry 0 "y" [], entry 1 "y" [], entry 2 "y" []]

/-- A slot for a binding that the table does not have. -/
def stray : Pass := { Pass.start three with stack := ⟨⟨.statement, [⟨⟨3⟩, ⟨0⟩⟩], []⟩, []⟩ }

/-- The condition meets what is asked of one, in a state. -/
def Meets (p : Pass) (cond : Expr) : Prop :=
  (∀ b ∈ cond.tests, p.symbols.isLeaf b = true) ∧ cond.tests.Nodup
    ∧ (∀ b ∈ cond.tests, p.stack.resolve p.symbols b = none)
    ∧ Flow.answersDistinct cond true p.symbols = true
    ∧ Flow.answersDistinct cond false (matchBindings cond true p.symbols).2 = true

instance (p : Pass) (cond : Expr) : Decidable (Meets p cond) :=
  inferInstanceAs (Decidable (_ ∧ _ ∧ _ ∧ _ ∧ _))

/-- The variables that the tests of a condition store in, in a frame for it. -/
def stores (p : Pass) (cond : Expr) : List (BindingId × Option VarId) :=
  (testsReached rules cond (p.enterFor .statement cond)).map fun (b, q) =>
    (b, q.stack.resolve q.symbols b)

/-- What is listed for a condition, with the variables it is read from in a frame for it. -/
def reads (p : Pass) (cond : Expr) : List (BindingId × Option VarId) :=
  (Oracle.all matchBindings cond p.symbols).1.map fun m =>
    (m, (p.enterFor .statement cond).stack.resolve (p.enterFor .statement cond).symbols m)

/-- `s` in one variable, whichever of two patterns for it matches. -/
theorem tests_reach_slot_disjunction :
    ∃ x, ((Pass.start same).enterFor .statement (or (test 0) (test 1))).stack.resolve
          ((Pass.start same).enterFor .statement (or (test 0) (test 1))).symbols ⟨2⟩ = some x
      ∧ ∀ b ∈ [⟨0⟩, ⟨1⟩], ∀ q,
          (b, q) ∈ testsReached rules (or (test 0) (test 1))
              ((Pass.start same).enterFor .statement (or (test 0) (test 1))) →
            q.stack.resolve q.symbols b = some x := by
  have hclosed : same.Closed := Symbols.Ordered.closed (by decide +kernel : same.Sound).ordered
  have hslots : ∀ slot ∈ (Pass.start same).stack.slots, same.Has slot.binding := by
    intro slot hslot
    exact absurd hslot List.not_mem_nil
  obtain ⟨hleaf, hnodup, hfree, htrue, hfalse⟩ :
      Meets (Pass.start same) (or (test 0) (test 1)) := by decide +kernel
  obtain ⟨x, hx, htests⟩ := (tests_reach_slot .builtin .statement (Pass.start same)
    (or (test 0) (test 1)) hclosed hslots hleaf hnodup hfree htrue hfalse).1 ⟨2⟩ (by decide +kernel)
  have hleaves : ∀ b ∈ [⟨0⟩, ⟨1⟩],
      b ∈ ((Pass.start same).enterFor .statement (or (test 0) (test 1))).symbols.leaves ⟨2⟩ := by
    decide +kernel
  exact ⟨x, hx, fun b hb q htested => (htests b (hleaves b hb) q htested).1⟩

/-- The table must have what its entries unify, and the bindings of the slots.
In both examples the first new binding is taken for one that was there before,
and the tests of some of its patterns store nothing. -/
theorem strays_miss_slot :
    (Meets (Pass.start open_) (or (and (test 3) (or (test 0) (test 1))) (and (test 4) (test 2)))
      ∧ reads (Pass.start open_) (or (and (test 3) (or (test 0) (test 1))) (and (test 4) (test 2)))
          = [(⟨6⟩, some ⟨1⟩), (⟨7⟩, some ⟨1⟩)]
      ∧ ((Pass.start open_).enterFor .statement
            (or (and (test 3) (or (test 0) (test 1))) (and (test 4) (test 2)))).symbols.leaves ⟨7⟩
          = [⟨0⟩, ⟨1⟩, ⟨2⟩, ⟨3⟩, ⟨4⟩]
      ∧ stores (Pass.start open_) (or (and (test 3) (or (test 0) (test 1))) (and (test 4) (test 2)))
          = [(⟨3⟩, some ⟨1⟩), (⟨0⟩, none), (⟨1⟩, none), (⟨4⟩, some ⟨1⟩), (⟨2⟩, none)])
    ∧ (Meets stray (or (or (test 0) (test 1)) (test 2))
      ∧ reads stray (or (or (test 0) (test 1)) (test 2)) = [(⟨4⟩, some ⟨0⟩)]
      ∧ (stray.enterFor .statement (or (or (test 0) (test 1)) (test 2))).symbols.leaves ⟨4⟩
          = [⟨0⟩, ⟨1⟩, ⟨2⟩]
      ∧ stores stray (or (or (test 0) (test 1)) (test 2))
          = [(⟨0⟩, some ⟨0⟩), (⟨1⟩, some ⟨0⟩), (⟨2⟩, none)]) := by
  constructor <;> decide +kernel

end Disjunction

end Lowering

end PatternIR
