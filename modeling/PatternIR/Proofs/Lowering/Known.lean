/-
  PatternIR.Proofs.Lowering.Known
  ───────────────────────────────
  **WHAT THE STACK HAS STORAGE FOR.**

  A binding is known where a slot of the stack is for it or for an alias of it.
  Then a reference to it can be lowered.  A frame makes known what it is
  entered for, and what it makes known is stored in variables that have a
  default value, so a frame can be left as well.

    • `Symbols.Evolves` — a later stage of the table;
    • `Pass.Sound` — every slot is of the table, and has a default value;
    • `Pass.Knows` — a slot for the binding;
    • `Pass.Sound.enter` — entering a frame.
-/
import PatternIR.Proofs.Flow.Stability
import PatternIR.Proofs.Lowering.Steps

namespace PatternIR

/-! ## §1. Tables. -/

namespace Symbols

/-- `t` is a sound later stage of `s`, and has its variables. -/
structure Evolves (s t : Symbols) : Prop where
  grows : s.Grows t
  sound : t.Sound
  vars : ∀ {v : VarId} {x : VarSymbol}, s.var? v = some x → t.var? v = some x

/-- A binding whose storage has a default value. -/
def Storable (s : Symbols) (b : BindingId) : Prop :=
  ∃ sym v, s.binding? b = some sym ∧ Lowering.defaultLiteral? sym.ty.erasure = some v

/-- A variable with a default value. -/
def Initial (s : Symbols) (var : VarId) : Prop :=
  ∃ x v, s.var? var = some x ∧ Lowering.defaultLiteral? x.ty.erasure = some v

variable {s t u : Symbols} {b : BindingId}

namespace Evolves

/-- A sound table has evolved from itself. -/
theorem refl (h : s.Sound) : s.Evolves s := ⟨.refl s, h, id⟩

/-- Tables evolve step by step. -/
theorem trans (h : s.Evolves t) (h' : t.Evolves u) : s.Evolves u :=
  ⟨h.grows.trans h'.grows, h'.sound, fun hx => h'.vars (h.vars hx)⟩

/-- A variable with a default keeps it. -/
theorem initial (h : s.Evolves t) {var : VarId} (hvar : s.Initial var) : t.Initial var := by
  obtain ⟨x, v, hx, hv⟩ := hvar
  exact ⟨x, v, h.vars hx, hv⟩

end Evolves

/-- What can be stored is in the table. -/
theorem Storable.has (h : s.Storable b) : s.Has b := by
  obtain ⟨sym, -, hsym, -⟩ := h
  exact has_iff.mpr ⟨sym, hsym⟩

/-- Bindings that share a leaf share it in a table that has grown. -/
theorem isAliasFor_mono (h : s.Grows t) {a : BindingId} (hab : s.isAliasFor a b = true) :
    t.isAliasFor a b = true := by
  rcases isAliasFor_iff.mp hab with rfl | ⟨leaf, ha, hb⟩
  · exact isAliasFor_iff.mpr (.inl rfl)
  · exact isAliasFor_iff.mpr (.inr ⟨leaf, h.leaves ha, h.leaves hb⟩)

/-- A variable stays where it is when others are added. -/
theorem var?_addVar {var : VarId} {x : VarSymbol} (h : s.var? var = some x) {name : String} {ty : Ty}
    {owner : Option String} {synthetic : Bool} :
    (s.addVar name ty owner synthetic).2.var? var = some x := by
  have hlt : var.index < s.vars.size := (Array.getElem?_eq_some_iff.mp h).1
  show (s.vars.push _)[var.index]? = some x
  rw [Array.getElem?_push_lt hlt, ← Array.getElem?_eq_getElem hlt]
  exact h

/-- More variables leave the bindings alone. -/
theorem Sound.moreVars (h : s.Sound) (syms : List VarSymbol) : (s.moreVars syms).Sound :=
  ⟨⟨h.ordered.id, h.ordered.earlier⟩, ⟨h.named.first⟩⟩

/-- Variables may be added as the table evolves. -/
theorem evolves_moreVars (h : s.Sound) (syms : List VarSymbol) : s.Evolves (s.moreVars syms) := by
  refine ⟨⟨Nat.le_refl _, (Grows.refl s).entry⟩, h.moreVars syms, ?_⟩
  intro v x hx
  have hlt : v.index < s.vars.size := (Array.getElem?_eq_some_iff.mp hx).1
  show (s.vars ++ syms.toArray)[v.index]? = some x
  rw [Array.getElem?_append_left hlt]
  exact hx

/-- One may. -/
theorem evolves_addVar (h : s.Sound) {name : String} {ty : Ty} {owner : Option String}
    {synthetic : Bool} : s.Evolves (s.addVar name ty owner synthetic).2 := by
  have hpush : (s.addVar name ty owner synthetic).2
      = s.moreVars [⟨⟨s.vars.size⟩, name, ty, owner, synthetic⟩] := by
    simp [addVar, moreVars]
  rw [hpush]
  exact evolves_moreVars h _

end Symbols

/-! ## §2. Slots. -/

namespace Stack

/-- The slots of all frames, innermost first. -/
def slots (st : Stack) : List Slot := st.frames.flatMap (·.slots)

variable {st : Stack} {s : Symbols} {b : BindingId}

/-- A binding is resolved where a slot is for an alias of it. -/
theorem resolve_isSome :
    (st.resolve s b).isSome = true ↔ ∃ slot ∈ st.slots, s.isAliasFor slot.binding b = true := by
  unfold resolve slots
  rw [List.findSome?_isSome_iff]
  constructor
  · rintro ⟨f, hf, hfound⟩
    obtain ⟨slot, hslot, halias⟩ : ∃ slot ∈ f.slots, s.isAliasFor slot.binding b = true := by
      simpa [Frame.resolve] using hfound
    exact ⟨slot, List.mem_flatMap.mpr ⟨f, hf, hslot⟩, halias⟩
  · rintro ⟨slot, hslot, halias⟩
    obtain ⟨f, hf, hslot⟩ := List.mem_flatMap.mp hslot
    refine ⟨f, hf, ?_⟩
    simpa [Frame.resolve] using ⟨slot, hslot, halias⟩

/-- A binding is resolved to the variable of a slot. -/
theorem mem_slots_of_resolve {var : VarId} (h : st.resolve s b = some var) :
    ∃ slot ∈ st.slots, slot.var = var := by
  obtain ⟨f, hf, hfound⟩ := List.exists_of_findSome?_eq_some h
  obtain ⟨slot, hslot, hvar⟩ := Option.map_eq_some_iff.mp hfound
  exact ⟨slot, List.mem_flatMap.mpr ⟨f, hf, List.mem_of_find?_eq_some hslot⟩, hvar⟩

/-- The slots of a stack that has gained are those it had and those it took over. -/
theorem mem_slots_gain {taken : List (Slot × Stmt)} {slot : Slot} :
    slot ∈ (st.gain taken).slots ↔ slot ∈ st.slots ∨ slot ∈ taken.map Prod.fst := by
  show slot ∈ (st.current.slots ++ taken.map Prod.fst) ++ st.enclosing.flatMap (·.slots)
    ↔ slot ∈ st.current.slots ++ st.enclosing.flatMap (·.slots) ∨ _
  simp only [List.mem_append]
  exact ⟨fun h => by tauto, fun h => by tauto⟩

/-- What is allocated is for the bindings asked for, and with what was there
before it covers them all. -/
theorem allocate_slots : ∀ (bs : List BindingId) (made : List Slot) (s : Symbols),
    (∀ b ∈ bs, s.Has b) →
      (∀ slot ∈ (st.allocate made bs s).1, slot ∈ made ∨ slot.binding ∈ bs)
        ∧ (∀ slot ∈ made, slot ∈ (st.allocate made bs s).1)
        ∧ ∀ b ∈ bs, (st.resolve s b).isSome = true
          ∨ ∃ slot ∈ (st.allocate made bs s).1, s.isAliasFor slot.binding b = true
  | [], made, s, _ => ⟨fun _ h => .inl h, fun _ h => h, fun _ h => absurd h List.not_mem_nil⟩
  | b :: bs, made, s, hbs => by
      have hrest : ∀ x ∈ bs, s.Has x := fun x hx => hbs x (List.mem_cons_of_mem _ hx)
      unfold allocate
      split
      next hfound =>
        obtain ⟨hfrom, hkept, hcover⟩ := allocate_slots bs made s hrest
        refine ⟨?_, hkept, ?_⟩
        · intro slot hslot
          exact (hfrom slot hslot).imp id (List.mem_cons_of_mem _)
        · intro x hx
          rcases List.mem_cons.mp hx with rfl | hx
          -- the binding has storage already: on the stack, or in a slot made just before
          · simp only [Bool.or_eq_true, List.any_eq_true] at hfound
            rcases hfound with hfound | ⟨slot, hslot, halias⟩
            · exact .inl hfound
            · exact .inr ⟨slot, hkept slot hslot, halias⟩
          · exact hcover x hx
      next =>
        obtain ⟨symbol, hsymbol⟩ := Symbols.has_iff.mp (hbs b List.mem_cons_self)
        rw [hsymbol]
        simp only
        obtain ⟨hfrom, hkept, hcover⟩ := allocate_slots bs (made ++ [⟨b, ⟨s.vars.size⟩⟩])
          (s.addVar symbol.name symbol.ty symbol.owner false).2 hrest
        refine ⟨?_, ?_, ?_⟩
        · intro slot hslot
          rcases hfrom slot hslot with hslot | hslot
          · rcases List.mem_append.mp hslot with hslot | hslot
            · exact .inl hslot
            · rw [List.mem_singleton.mp hslot]
              exact .inr List.mem_cons_self
          · exact .inr (List.mem_cons_of_mem _ hslot)
        · intro slot hslot
          exact hkept slot (List.mem_append_left _ hslot)
        · intro x hx
          rcases List.mem_cons.mp hx with rfl | hx
          · refine .inr ⟨_, hkept ⟨x, ⟨s.vars.size⟩⟩ (by simp), ?_⟩
            exact Symbols.isAliasFor_iff.mpr (.inl rfl)
          · exact hcover x hx

end Stack

namespace Lowering

variable {α : Type} {s : Symbols} {p q : Pass} {b : BindingId}

/-- The variables of new slots are those of the symbols that go with them. -/
theorem Allocates.initial {t : Symbols} {n : Nat} {slots : List Slot} {syms : List VarSymbol}
    (h : Allocates s n slots syms) (hsyms : ∀ k : Nat, t.vars[n + k]? = syms[k]?) :
    ∀ slot ∈ slots, s.Storable slot.binding → t.Initial slot.var := by
  induction h with
  | nil n => exact fun _ hslot => absurd hslot List.not_mem_nil
  | @cons n b symbol slots syms hb rest ih =>
      intro slot hslot hstorable
      rcases List.mem_cons.mp hslot with rfl | hslot
      · obtain ⟨sym, v, hsym, hv⟩ := hstorable
        rw [hb] at hsym
        injection hsym with hsym
        subst hsym
        exact ⟨_, v, hsyms 0, hv⟩
      · refine ih ?_ slot hslot hstorable
        intro k
        have hk := hsyms (k + 1)
        rw [Nat.add_comm k 1, ← Nat.add_assoc, Nat.add_comm 1 k] at hk
        exact hk

/-! ## §3. What is known in a state. -/

/-- The table has evolved from `s`, and every slot is for a binding of it, in a
variable with a default value. -/
structure Pass.Sound (s : Symbols) (p : Pass) : Prop where
  evolves : s.Evolves p.symbols
  slots : ∀ slot ∈ p.stack.slots, p.symbols.Has slot.binding ∧ p.symbols.Initial slot.var

/-- There is storage for a binding. -/
def Pass.Knows (p : Pass) (b : BindingId) : Prop := (p.stack.resolve p.symbols b).isSome = true

/-- A binding is known if it shares a leaf with the binding of a slot. -/
theorem Pass.knows_iff :
    p.Knows b ↔ ∃ slot ∈ p.stack.slots, p.symbols.isAliasFor slot.binding b = true :=
  Stack.resolve_isSome

/-- What is known stays known while the table grows and slots are added. -/
theorem Pass.Knows.mono (h : p.Knows b) (hslots : ∀ slot ∈ p.stack.slots, slot ∈ q.stack.slots)
    (hgrows : p.symbols.Grows q.symbols) : q.Knows b := by
  obtain ⟨slot, hslot, halias⟩ := Pass.knows_iff.mp h
  exact Pass.knows_iff.mpr ⟨slot, hslots slot hslot, Symbols.isAliasFor_mono hgrows halias⟩

/-- `q` has the stack of `p` and a later table. -/
structure Pass.Later (p q : Pass) : Prop where
  stack : q.stack = p.stack
  evolves : p.symbols.Evolves q.symbols

/-- A pass with a sound table is later than itself. -/
theorem Pass.Later.refl (h : p.symbols.Sound) : p.Later p := ⟨rfl, .refl h⟩

/-- Later than later is later. -/
theorem Pass.Later.trans {r : Pass} (h : p.Later q) (h' : q.Later r) : p.Later r :=
  ⟨h'.stack.trans h.stack, h.evolves.trans h'.evolves⟩

/-- A sound pass stays sound. -/
theorem Pass.Sound.later (h : p.Sound s) (hlater : p.Later q) : q.Sound s := by
  refine ⟨h.evolves.trans hlater.evolves, ?_⟩
  rw [hlater.stack]
  intro slot hslot
  obtain ⟨hhas, hinitial⟩ := h.slots slot hslot
  exact ⟨hlater.evolves.grows.has hhas, hlater.evolves.initial hinitial⟩

/-- What is known stays known. -/
theorem Pass.Knows.later (h : p.Knows b) (hlater : p.Later q) : q.Knows b :=
  h.mono (fun _ hslot => by rwa [hlater.stack]) hlater.evolves.grows

/-- `q` is `p` in a new frame for some bindings: they are known there, each that
was not known before by a slot of the frame. -/
structure Pass.Entered (p : Pass) (kind : FrameKind) (bs : List BindingId) (news : List Slot)
    (q : Pass) : Prop where
  stack : q.stack = ⟨⟨kind, news, []⟩, p.stack.frames⟩
  evolves : p.symbols.Evolves q.symbols
  initial : ∀ slot ∈ news, q.symbols.Initial slot.var
  asked : ∀ slot ∈ news, slot.binding ∈ bs
  covers : ∀ b ∈ bs, p.Knows b ∨ ∃ slot ∈ news, p.symbols.isAliasFor slot.binding b = true

/-- **Opening a frame for bindings that can be stored** gives each of them a slot. -/
theorem Pass.enter_entered (hp : p.symbols.Sound) (kind : FrameKind) (bs : List BindingId)
    (hbs : ∀ b ∈ bs, p.symbols.Storable b) :
    ∃ news, p.Entered kind bs news (p.enter kind bs) := by
  obtain ⟨news, syms, halloc, heq⟩ := allocate_eq p.stack bs [] p.symbols
  obtain ⟨hfrom, -, hcover⟩ := p.stack.allocate_slots bs [] p.symbols fun b hb => (hbs b hb).has
  have henter : p.enter kind bs
      = ⟨p.symbols.moreVars syms, ⟨⟨kind, news, []⟩, p.stack.frames⟩, p.maker⟩ := by
    unfold Pass.enter Stack.push
    rw [heq]
    rfl
  rw [heq] at hfrom hcover
  simp only [List.nil_append] at hfrom hcover
  have hasked : ∀ slot ∈ news, slot.binding ∈ bs := by
    intro slot hslot
    rcases hfrom slot hslot with hslot | hslot
    · exact absurd hslot List.not_mem_nil
    · exact hslot
  rw [henter]
  refine ⟨news, rfl, Symbols.evolves_moreVars hp syms, ?_, hasked, hcover⟩
  intro slot hslot
  exact halloc.initial (p.symbols.moreVars_behind syms) slot hslot (hbs _ (hasked slot hslot))

namespace Pass.Entered

variable {kind : FrameKind} {bs : List BindingId} {news : List Slot}

/-- The slots are then the new ones and the old ones. -/
theorem mem_slots (h : p.Entered kind bs news q) {slot : Slot} :
    slot ∈ q.stack.slots ↔ slot ∈ news ∨ slot ∈ p.stack.slots := by
  rw [h.stack]
  exact List.mem_append

/-- The pass stays sound. -/
theorem sound (h : p.Entered kind bs news q) (hp : p.Sound s)
    (hbs : ∀ b ∈ bs, p.symbols.Storable b) : q.Sound s := by
  refine ⟨hp.evolves.trans h.evolves, ?_⟩
  intro slot hslot
  rcases h.mem_slots.mp hslot with hslot | hslot
  · exact ⟨h.evolves.grows.has (hbs _ (h.asked slot hslot)).has, h.initial slot hslot⟩
  · obtain ⟨hhas, hinitial⟩ := hp.slots slot hslot
    exact ⟨h.evolves.grows.has hhas, h.evolves.initial hinitial⟩

/-- What is known stays known. -/
theorem keeps (h : p.Entered kind bs news q) (hb : p.Knows b) : q.Knows b :=
  hb.mono (fun _ hslot => h.mem_slots.mpr (.inr hslot)) h.evolves.grows

/-- What a frame is entered for is known in it. -/
theorem knows (h : p.Entered kind bs news q) (hb : b ∈ bs) : q.Knows b := by
  rcases h.covers b hb with hknown | ⟨slot, hslot, halias⟩
  · exact h.keeps hknown
  · exact Pass.knows_iff.mpr ⟨slot, h.mem_slots.mpr (.inl hslot),
      Symbols.isAliasFor_mono h.evolves.grows halias⟩

end Pass.Entered

/-! ## §4. Steps that succeed. -/

/-- The type of storage is that of its variable, erased. -/
theorem storageType_of_var? {var : VarId} {x : VarSymbol} (h : p.symbols.var? var = some x) :
    storageType var p = .ok x.ty.erasure p := by
  refine bind_eq_ok.mpr ⟨p, p, rfl, ?_⟩
  simp only [h]
  rfl

/-- The storage of a variable with a default has a type and a default. -/
theorem storageType_ok {var : VarId} (h : p.symbols.Initial var) :
    ∃ ty v, storageType var p = .ok ty p ∧ defaultLiteral? ty = some v := by
  obtain ⟨x, v, hx, hv⟩ := h
  exact ⟨x.ty.erasure, v, storageType_of_var? hx, hv⟩

/-- A type with a default has a node for it. -/
theorem makeDefault_ok {ty : Ty} {v : Literal} (p : Pass) (h : defaultLiteral? ty = some v) :
    ∃ e q, makeDefault ty p = .ok e q := by
  unfold makeDefault defaultValue
  rw [h]
  cases v <;> exact ⟨_, _, rfl⟩

/-- Slots whose variables have defaults are defined without a fault. -/
theorem storageDefs_ok : ∀ (slots : List Slot) {p : Pass},
    (∀ slot ∈ slots, p.symbols.Initial slot.var) →
      ∃ defs q, slots.mapM storageDef p = .ok defs q
  | [], p, _ => ⟨[], p, rfl⟩
  | slot :: slots, p, h => by
      obtain ⟨ty, v, hty, hv⟩ := storageType_ok (h slot List.mem_cons_self)
      obtain ⟨e, p₁, he⟩ := makeDefault_ok p hv
      have hdef : storageDef slot p = .ok (slot.var, e) p₁ :=
        bind_eq_ok.mpr ⟨ty, p, hty, bind_eq_ok.mpr ⟨e, p₁, he, rfl⟩⟩
      obtain ⟨-, -, -, rfl⟩ := makeDefault_eq_ok he
      rw [List.mapM_cons]
      refine exists_bind_ok ⟨_, _, hdef, exists_bind_ok ?_⟩
      obtain ⟨defs, q, hdefs⟩ := storageDefs_ok slots
        (p := { p with maker := { p.maker with next := p.maker.next + 1 } })
        fun x hx => h x (List.mem_cons_of_mem _ hx)
      exact ⟨defs, q, hdefs, _, _, rfl⟩

/-- An expression can leave its frame. -/
theorem decorateExpr_ok (e : Expr)
    (h : ∀ slot ∈ p.stack.current.slots, p.symbols.Initial slot.var) :
    ∃ e' q, decorateExpr e p = .ok e' q := by
  refine exists_bind_ok ⟨p, p, rfl, ?_⟩
  cases hslots : p.stack.current.slots with
  | nil => exact ⟨e, p, rfl⟩
  | cons slot slots =>
      rw [hslots] at h
      obtain ⟨defs, q, hdefs⟩ := storageDefs_ok (slot :: slots)
        (p := { p with maker := { p.maker with span := e.span } }) h
      refine exists_bind_ok ⟨(), _, rfl, ?_⟩
      exact exists_bind_ok ⟨defs, q, hdefs, _, _, rfl⟩

/-- The frame around answers an offer. -/
theorem offer_ok (b : BindingId) (decl : Stmt) (p : Pass) :
    ∃ refused q, offer b decl p = .ok refused q ∧ q.symbols = p.symbols := by
  unfold offer
  cases p.stack.hoist? p.symbols b decl with
  | none => exact ⟨_, _, rfl, rfl⟩
  | some stack => exact ⟨_, _, rfl, rfl⟩

/-- They are declared without a fault. -/
theorem declareSlots_ok (span : Span) : ∀ (slots : List Slot) {p : Pass},
    (∀ slot ∈ slots, p.symbols.Initial slot.var) →
      ∃ refused q, declareSlots span slots p = .ok refused q
  | [], p, _ => ⟨[], p, rfl⟩
  | slot :: slots, p, h => by
      obtain ⟨ty, v, hty, hv⟩ := storageType_ok (h slot List.mem_cons_self)
      obtain ⟨e, p₁, he⟩ := makeDefault_ok { p with maker := { p.maker with span := span } } hv
      have hdecl : ∃ d q, storageDecl span slot.var p = .ok d q :=
        exists_bind_ok ⟨ty, p, hty, exists_bind_ok ⟨(), _, rfl, exists_bind_ok ⟨e, p₁, he, _, _, rfl⟩⟩⟩
      obtain ⟨d, p₂, hd⟩ := hdecl
      refine exists_bind_ok ⟨d, p₂, hd, ?_⟩
      obtain ⟨-, -, -, -, -, rfl⟩ := storageDecl_eq_ok hd
      obtain ⟨refused, q, hoffer, hsymbols⟩ := offer_ok slot.binding d
        { p with maker := ⟨p.maker.next + 2, span⟩ }
      refine exists_bind_ok ⟨refused, q, hoffer, ?_⟩
      obtain ⟨others, q', hrest⟩ := declareSlots_ok span slots (p := q) fun x hx => by
        rw [hsymbols]
        exact h x (List.mem_cons_of_mem _ hx)
      exact exists_bind_ok ⟨others, q', hrest, _, _, rfl⟩

/-- A statement can leave its frame. -/
theorem decorateStmt_ok (stmt : Stmt)
    (h : ∀ slot ∈ p.stack.current.slots, p.symbols.Initial slot.var) :
    ∃ d q, decorateStmt stmt p = .ok d q := by
  obtain ⟨refused, q, hslots⟩ := declareSlots_ok stmt.span _ h
  exact exists_bind_ok ⟨p, p, rfl, exists_bind_ok ⟨refused, q, hslots, _, _, rfl⟩⟩

/-- Closing a statement never fails. -/
theorem close_ok (d : Decorated) (p : Pass) : ∃ stmt q, d.close p = .ok stmt q := by
  obtain ⟨decls, stmt⟩ := d
  cases decls with
  | nil => exact ⟨stmt, p, rfl⟩
  | cons decl decls => exact ⟨_, _, rfl⟩

/-- A reference to a binding that is known. -/
theorem lowerRef_ok (h : p.Knows b) (ty : Ty) (span : Span) : ∃ e q, lowerRef b ty span p = .ok e q := by
  obtain ⟨var, hvar⟩ := Option.isSome_iff_exists.mp h
  refine exists_bind_ok ⟨some var, p, ?_, _, _, rfl⟩
  rw [← hvar]
  rfl

/-- Storing a match in a variable of the table never fails. -/
theorem storeMatch_ok {var : VarId} {x : VarSymbol} (h : p.symbols.var? var = some x) (temp : VarId)
    (target ty : Ty) : ∃ e q, storeMatch var temp target ty p = .ok e q := by
  refine exists_bind_ok ⟨x.ty.erasure, p, storageType_of_var? h, ?_⟩
  cases x.ty.erasure.isPrimitive <;> exact ⟨_, _, rfl⟩

/-- The second half of a type test, from where the temporary is tested. -/
theorem storeTest_ok (b : BindingId)
    (h : ∀ var, p.stack.resolve p.symbols b = some var → ∃ x, p.symbols.var? var = some x) (temp : VarId) (operand test : Expr) (target ty : Ty) :
    ∃ e q, (do
      let test ← match ← resolve b with
        | some var => do
          let stored ← storeMatch var temp target ty
          making (Maker.binary .and test stored)
        | none => pure test
      making (Maker.letIn [(temp, operand)] test)) p = .ok e q := by
  refine exists_bind_ok ⟨p.stack.resolve p.symbols b, p, rfl, ?_⟩
  cases hvar : p.stack.resolve p.symbols b with
  | none => exact ⟨_, _, rfl⟩
  | some var =>
      obtain ⟨x, hx⟩ := h var hvar
      obtain ⟨stored, q, hstored⟩ := storeMatch_ok hx temp target ty
      exact exists_bind_ok ⟨stored, q, hstored, _, _, rfl⟩

/-- A type test for a binding of the table, whose storage is in a variable of the table. -/
theorem lowerTest_ok (rules : Rules) {pattern : BindingPattern}
    (hvars : ∀ var, p.stack.resolve p.symbols pattern.binding = some var →
      ∃ x, p.symbols.var? var = some x)
    (hb : p.symbols.Has pattern.binding) (operandTy : Ty) (operand : Expr) (span : Span) :
    ∃ e q, lowerTest rules operandTy operand pattern span p = .ok e q := by
  obtain ⟨symbol, hsymbol⟩ := Symbols.has_iff.mp hb
  refine exists_bind_ok ⟨p, p, rfl, ?_⟩
  simp only [hsymbol]
  refine exists_bind_ok ⟨_, _, rfl, exists_bind_ok ⟨(), _, rfl, ?_⟩⟩
  have hvars' : ∀ var, p.stack.resolve (addTemp p.symbols symbol operandTy) pattern.binding = some var →
      ∃ x, (addTemp p.symbols symbol operandTy).var? var = some x := by
    intro var hvar
    obtain ⟨x, hx⟩ := hvars var hvar
    exact ⟨x, Symbols.var?_addVar hx⟩
  split
  · exact exists_bind_ok ⟨_, _, rfl, storeTest_ok _ hvars' ..⟩
  · exact exists_bind_ok ⟨_, _, rfl, exists_bind_ok ⟨_, _, rfl, storeTest_ok _ hvars' ..⟩⟩

/-! ## §5. Computations that succeed. -/

variable {β : Type}

/-- From `p`, `c` comes to a later state and goes on there as `k` does. -/
def Leads (c : Lowering α) (k : β → Lowering α) (p : Pass) : Prop :=
  ∃ b q, p.Later q ∧ c p = k b q

/-- From `p`, `c` succeeds in a later state. -/
def Runs (c : Lowering α) (p : Pass) : Prop := Leads c pure p

variable {c : Lowering α} {f : α → Lowering β}

/-- What leads to itself, with nothing done yet. -/
theorem Leads.refl {k : β → Lowering α} (h : p.symbols.Sound) (b : β) : Leads (k b) k p :=
  ⟨b, p, .refl h, rfl⟩

/-- A computation runs if it ends well in a later pass. -/
theorem runs_iff : Runs c p ↔ ∃ a q, c p = .ok a q ∧ p.Later q := by
  constructor
  · rintro ⟨a, q, hlater, heq⟩
    exact ⟨a, q, heq, hlater⟩
  · rintro ⟨a, q, heq, hlater⟩
    exact ⟨a, q, hlater, heq⟩

/-- A step that succeeds, and what follows it. -/
theorem Leads.step {γ : Type} {k : γ → Lowering β} {a : α} (hc : c p = .ok a q) (hlater : p.Later q)
    (hf : Leads (f a) k q) : Leads (c >>= f) k p := by
  obtain ⟨b, q', hlater', heq⟩ := hf
  refine ⟨b, q', hlater.trans hlater', ?_⟩
  rw [bind_apply, hc]
  exact heq

/-- A step that runs leads as far as what comes behind it. -/
theorem Runs.leads {γ : Type} {k : γ → Lowering β} (hc : Runs c p)
    (hf : ∀ a q, p.Later q → Leads (f a) k q) : Leads (c >>= f) k p := by
  obtain ⟨a, q, heq, hlater⟩ := runs_iff.mp hc
  exact .step heq hlater (hf a q hlater)

theorem Runs.bind (hc : Runs c p) (hf : ∀ a q, p.Later q → Runs (f a) q) : Runs (c >>= f) p :=
  hc.leads hf

theorem Runs.pure (h : p.symbols.Sound) (a : α) : Runs (pure a) p := .refl h a

/-- New nodes leave the table and the stack alone. -/
theorem later_maker (h : p.symbols.Sound) (m : Maker) : p.Later { p with maker := m } :=
  ⟨rfl, .refl h⟩

/-- A reference to a known binding is lowered. -/
theorem lowerRef_runs (hp : p.symbols.Sound) (h : p.Knows b) (ty : Ty) (span : Span) :
    Runs (lowerRef b ty span) p := by
  obtain ⟨e, q, he⟩ := lowerRef_ok h ty span
  obtain ⟨-, -, -, rfl⟩ := lowerRef_eq_ok he
  exact runs_iff.mpr ⟨e, _, he, later_maker hp _⟩

/-- A test for a binding of the table is lowered. -/
theorem lowerTest_runs {rules : Rules} {pattern : BindingPattern} (hp : p.Sound s)
    (hb : p.symbols.Has pattern.binding) (operandTy : Ty) (operand : Expr) (span : Span) :
    Runs (lowerTest rules operandTy operand pattern span) p := by
  have hvars : ∀ var, p.stack.resolve p.symbols pattern.binding = some var →
      ∃ x, p.symbols.var? var = some x := by
    intro var hvar
    obtain ⟨slot, hslot, rfl⟩ := Stack.mem_slots_of_resolve hvar
    obtain ⟨x, -, hx, -⟩ := (hp.slots slot hslot).2
    exact ⟨x, hx⟩
  obtain ⟨e, q, he⟩ := lowerTest_ok rules hvars hb operandTy operand span
  obtain ⟨symbol, test, size, -, -, -, -, rfl⟩ := lowerTest_eq_ok he
  exact runs_iff.mpr ⟨e, _, he, rfl, Symbols.evolves_addVar hp.evolves.sound⟩

/-- Closing a statement runs. -/
theorem close_runs (hp : p.symbols.Sound) (d : Decorated) : Runs d.close p := by
  obtain ⟨stmt, q, hclose⟩ := close_ok d p
  refine runs_iff.mpr ⟨stmt, q, hclose, ?_⟩
  rcases close_eq_ok hclose with ⟨-, -, rfl⟩ | ⟨-, -, rfl⟩
  · exact .refl hp
  · exact later_maker hp _

/-- A frame is closed behind what it is opened for. -/
theorem within_eq_of_ok {kind : FrameKind} {bs : List BindingId} {body : Lowering α} {a : α}
    (h : body (p.enter kind bs) = .ok a q) :
    within kind bs body p = .ok a { q with stack := q.stack.pop } := by
  rw [within_apply, h]

/-- An expression in a frame of its own. -/
theorem within_runs {kind : FrameKind} {bs : List BindingId} {body : Lowering Expr}
    (hp : p.symbols.Sound) (hbs : ∀ b ∈ bs, p.symbols.Storable b)
    (hbody : ∀ news q, p.Entered kind bs news q → Leads body decorateExpr q) :
    Runs (within kind bs body) p := by
  obtain ⟨news, hentered⟩ := p.enter_entered hp kind bs hbs
  obtain ⟨e, q, hlater, heq⟩ := hbody news _ hentered
  have hstack := hlater.stack.trans hentered.stack
  have hinitial : ∀ slot ∈ q.stack.current.slots, q.symbols.Initial slot.var := by
    rw [hstack]
    exact fun slot hslot => hlater.evolves.initial (hentered.initial slot hslot)
  obtain ⟨e', q', hdec⟩ := decorateExpr_ok e hinitial
  refine runs_iff.mpr ⟨e', _, within_eq_of_ok (heq.trans hdec), ?_⟩
  have hsame : q'.stack = q.stack ∧ q'.symbols = q.symbols := by
    rcases decorateExpr_eq_ok hdec with ⟨-, -, rfl⟩ | ⟨-, -, -, rfl⟩ <;> exact ⟨rfl, rfl⟩
  constructor
  · show q'.stack.pop = p.stack
    rw [hsame.1, hstack]
    rfl
  · show p.symbols.Evolves q'.symbols
    rw [hsame.2]
    exact hentered.evolves.trans hlater.evolves

end Lowering

end PatternIR
