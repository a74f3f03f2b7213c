/-
  PatternIR.Proofs.Lowering.Neat
  ──────────────────────────────
  **STATES OF THE PASS, for patterns of any kind.**

  Patterns may share names, and be of types without values: then some are not
  stored, and a frame cannot always be left.  What is left is that slots for one
  pattern are in one variable, and that the pass marks nothing as preserved: an
  entry of the table that is marked unifies one that was.

    • `Symbols.Descends` — a later table, with the marks of the first;
    • `Pass.Neat` — slots for one pattern have one variable;
    • `Pass.Neat.enter` — entering a frame;
    • `Pass.Holds` — a pattern is stored in a variable.
-/
import PatternIR.Proofs.Lowering.Places
import PatternIR.Proofs.Lowering.Standing

namespace PatternIR

/-! ## §1. Tables. -/

namespace Symbols

/-- `t` is a later stage of `s`, in which each entry that is marked stands for
all that a marked entry of `s` stands for. -/
structure Descends (s t : Symbols) : Prop extends s.Evolves t where
  flags : ∀ {m : BindingId}, t.Flagged m → ∃ a, s.Flagged a ∧ ∀ leaf ∈ s.leaves a, leaf ∈ t.leaves m

variable {s t u : Symbols} {a b m : BindingId}

/-- A binding of the table is of the type without values. -/
def Voids (s : Symbols) : Prop := ∃ b sym, s.binding? b = some sym ∧ sym.ty = .void

/-- The later table `t` has the binding, which is of the type without values
only if one of `s` is. -/
def Carries (s t : Symbols) (b : BindingId) : Prop :=
  ∃ sym, t.binding? b = some sym ∧ (sym.ty = .void → s.Voids)

/-- What is carried over is in the later table. -/
theorem Carries.has (h : s.Carries t b) : t.Has b := by
  obtain ⟨sym, hsym, -⟩ := h
  exact has_iff.mpr ⟨sym, hsym⟩

/-- It is carried further as the table grows. -/
theorem Carries.later (h : s.Carries t b) (hgrows : t.Grows u) : s.Carries u b := by
  obtain ⟨sym, hsym, hvoid⟩ := h
  obtain ⟨flag, hflag, -⟩ := hgrows.entry hsym
  exact ⟨_, hflag, hvoid⟩

/-- A binding has the type of one of its leaves. -/
theorem Carries.of_leaves (hgrows : s.Grows t) (ht : t.Sound) (hb : t.Has b)
    (hleaves : ∀ leaf ∈ t.leaves b, s.Has leaf) : s.Carries t b := by
  obtain ⟨sym, hsym⟩ := has_iff.mp hb
  obtain ⟨leaf, hleaf, hnamed⟩ := ht.named.exists_leaf ht.ordered hb
  obtain ⟨old, hold⟩ := has_iff.mp (hleaves leaf hleaf)
  have hty : old.ty = sym.ty := by
    have h := (hgrows.named? (hleaves leaf hleaf)).symm.trans hnamed
    rw [named?, named?, hold, hsym] at h
    exact (Prod.mk.inj (Option.some.inj h)).2
  exact ⟨sym, hsym, fun hvoid => ⟨leaf, old, hold, hty.trans hvoid⟩⟩

namespace Descends

/-- A sound table descends from itself. -/
theorem refl (h : s.Sound) : s.Descends s := ⟨.refl h, fun hm => ⟨_, hm, fun _ h => h⟩⟩

/-- Tables descend step by step. -/
theorem trans (h : s.Descends t) (h' : t.Descends u) : s.Descends u := by
  refine ⟨h.toEvolves.trans h'.toEvolves, fun hm => ?_⟩
  obtain ⟨b, hb, hleaves⟩ := h'.flags hm
  obtain ⟨a, ha, hleaves'⟩ := h.flags hb
  exact ⟨a, ha, fun leaf hleaf => hleaves leaf (hleaves' leaf hleaf)⟩

/-- Only variables are added. -/
theorem of_bindings (h : s.Evolves t) (hsame : t.bindings = s.bindings) : s.Descends t := by
  refine ⟨h, fun {m} hm => ⟨m, ?_, fun _ hleaf => h.grows.leaves hleaf⟩⟩
  unfold Flagged binding? at hm ⊢
  rwa [hsame] at hm

/-- A unified binding is marked if one of its parts is. -/
theorem merge (hs : s.Sound) (hm : s.merge? a b = some (m, t)) : s.Descends t := by
  refine ⟨⟨merge?_grows hm, hs.merge hm, fun {v x} hx => ?_⟩, fun {c} hc => ?_⟩
  · unfold var? at hx ⊢
    rwa [merge?_vars hm]
  · rcases merge?_cases hm with ⟨rfl, -⟩ | ⟨first, second, ha, hb, rfl, rfl⟩
    · exact ⟨c, hc, fun _ h => h⟩
    · have hpart : ∀ x, s.Flagged x → (x = a ∨ x = b) → ∃ y, s.Flagged y ∧ ∀ leaf ∈ s.leaves y,
          leaf ∈ Symbols.leaves _ ⟨s.bindings.size⟩ := fun x hx hxab =>
        ⟨x, hx, fun leaf hleaf => (hs.ordered.closed.mem_leaves_merge hm).mpr
          (hxab.elim (fun h => .inl (h ▸ hleaf)) fun h => .inr (h ▸ hleaf))⟩
      by_cases hnew : c.index = s.bindings.size
      · obtain ⟨i⟩ := c
        cases hnew
        have hflag : (first.preserved || second.preserved) = true := by
          simpa [Flagged, binding?] using hc
        rcases Bool.or_eq_true_iff.mp hflag with h | h
        · exact hpart a (by simp [Flagged, ha, h]) (.inl rfl)
        · exact hpart b (by simp [Flagged, hb, h]) (.inr rfl)
      · refine ⟨c, ?_, fun _ hleaf => (merge?_grows hm).leaves hleaf⟩
        unfold Flagged binding? at hc ⊢
        rwa [Array.getElem?_push, if_neg hnew] at hc

end Descends

/-- Variables may be added on the way. -/
theorem descends_moreVars (h : s.Sound) (syms : List VarSymbol) : s.Descends (s.moreVars syms) :=
  .of_bindings (evolves_moreVars h syms) rfl

/-- One may. -/
theorem descends_addVar (h : s.Sound) {name : String} {ty : Ty} {owner : Option String}
    {synthetic : Bool} : s.Descends (s.addVar name ty owner synthetic).2 :=
  .of_bindings (evolves_addVar h) rfl

end Symbols

namespace Flow

/-- The oracle marks nothing. -/
theorem matchBindings_descends (e : Expr) (o : Bool) {s : Symbols} (hs : s.Sound) :
    s.Descends (matchBindings e o s).2 :=
  matchBindings_keeps (fun h hm => h.trans (.merge h.sound hm)) e o (.refl hs)

end Flow

namespace Lowering

open PatternIR.Flow (listed Stands matchBindings)

variable {s t : Symbols} {p q r : Pass} {kind : FrameKind} {bs : List BindingId} {news : List Slot}

/-! ## §2. States. -/

/-- `q` has the stack of `p`, and a later table with the same marks. -/
structure Pass.Follows (p q : Pass) : Prop where
  stack : q.stack = p.stack
  descends : p.symbols.Descends q.symbols

/-- A pass with a sound table follows itself. -/
theorem Pass.Follows.refl (h : p.symbols.Sound) : p.Follows p := ⟨rfl, .refl h⟩

/-- Passes follow step by step. -/
theorem Pass.Follows.trans (h : p.Follows q) (h' : q.Follows r) : p.Follows r :=
  ⟨h'.stack.trans h.stack, h.descends.trans h'.descends⟩

/-- The slot has a variable, which is of the type without values only if a
binding of `s` is. -/
def Pass.Stored (s : Symbols) (p : Pass) (slot : Slot) : Prop :=
  ∃ x, p.symbols.var? slot.var = some x ∧ (x.ty = .void → s.Voids)

/-- Whether a slot has storage depends on the table alone. -/
theorem Pass.Stored.same {slot : Slot} (h : p.Stored s slot) (hsame : q.symbols = p.symbols) :
    q.Stored s slot := by
  unfold Pass.Stored
  rwa [hsame]

/-- The table has evolved from `s`, a sound one; the slots are for its bindings, in variables
behind those of `s` that have values if those bindings do, and those for one pattern in one
variable. -/
structure Pass.Neat (s : Symbols) (p : Pass) : Prop where
  base : s.Sound
  descends : s.Descends p.symbols
  has : ∀ slot ∈ p.stack.slots, p.symbols.Has slot.binding
  range : ∀ slot ∈ p.stack.slots, s.vars.size ≤ slot.var.index ∧ slot.var.index < p.symbols.vars.size
  stored : ∀ slot ∈ p.stack.slots, p.Stored s slot
  leaf : ∀ a ∈ p.stack.slots, ∀ b ∈ p.stack.slots, ∀ {leaf : BindingId},
    leaf ∈ p.symbols.leaves a.binding → leaf ∈ p.symbols.leaves b.binding → a.var = b.var

namespace Pass.Neat

/-- The table of a neat pass is sound. -/
theorem sound (h : p.Neat s) : p.symbols.Sound := h.descends.sound

/-- Some of the slots, at a later table. -/
theorem sub (h : p.Neat s) (hslots : ∀ slot ∈ q.stack.slots, slot ∈ p.stack.slots)
    (hdescends : p.symbols.Descends q.symbols) : q.Neat s := by
  have hleaves : ∀ slot ∈ q.stack.slots, q.symbols.leaves slot.binding = p.symbols.leaves slot.binding :=
    fun slot hslot => hdescends.grows.leaves_eq h.sound.ordered.closed (h.has slot (hslots slot hslot))
  refine ⟨h.base, h.descends.trans hdescends, ?_, ?_, ?_, ?_⟩
  · exact fun slot hslot => hdescends.grows.has (h.has slot (hslots slot hslot))
  · intro slot hslot
    obtain ⟨hle, hlt⟩ := h.range slot (hslots slot hslot)
    exact ⟨hle, Nat.lt_of_lt_of_le hlt hdescends.toEvolves.size_le⟩
  · intro slot hslot
    obtain ⟨x, hx, hvoid⟩ := h.stored slot (hslots slot hslot)
    exact ⟨x, hdescends.toEvolves.vars hx, hvoid⟩
  · intro a ha b hb leaf hla hlb
    rw [hleaves a ha] at hla
    rw [hleaves b hb] at hlb
    exact h.leaf a (hslots a ha) b (hslots b hb) hla hlb

/-- A pass that follows a neat one is neat. -/
theorem follows (h : p.Neat s) (hfollows : p.Follows q) : q.Neat s :=
  h.sub (fun slot hslot => by rwa [hfollows.stack] at hslot) hfollows.descends

end Pass.Neat

/-- From `p`, a frame has been entered for bindings; its slots are new. -/
structure Pass.Into (s : Symbols) (p : Pass) (kind : FrameKind) (bs : List BindingId)
    (news : List Slot) (q : Pass) : Prop where
  stack : q.stack = ⟨⟨kind, news, []⟩, p.stack.frames⟩
  descends : p.symbols.Descends q.symbols
  neat : q.Neat s
  asked : ∀ slot ∈ news, slot.binding ∈ bs
  fresh : ∀ slot ∈ news, p.symbols.vars.size ≤ slot.var.index

/-- The slots inside a frame are its own and those around it. -/
theorem Pass.Into.mem_slots (h : Pass.Into s p kind bs news q) {slot : Slot} :
    slot ∈ q.stack.slots ↔ slot ∈ news ∨ slot ∈ p.stack.slots := by
  rw [h.stack]
  simp [Stack.slots, Stack.frames]

/-- **Entering a frame** for bindings of the table. -/
theorem Pass.Neat.enter (h : p.Neat s) (kind : FrameKind) (hcarries : ∀ b ∈ bs, s.Carries p.symbols b) :
    ∃ news, Pass.Into s p kind bs news (p.enter kind bs) := by
  have hbs : ∀ b ∈ bs, p.symbols.Has b := fun b hb => (hcarries b hb).has
  obtain ⟨news, syms, halloc, heq⟩ := allocate_eq p.stack bs [] p.symbols
  obtain ⟨hfrom, -, -⟩ := p.stack.allocate_slots bs [] p.symbols hbs
  obtain ⟨hunknown, hapart⟩ := p.stack.allocate_apart bs [] p.symbols
  have henter : p.enter kind bs
      = ⟨p.symbols.moreVars syms, ⟨⟨kind, news, []⟩, p.stack.frames⟩, p.maker⟩ := by
    unfold Pass.enter Stack.push
    rw [heq]
    rfl
  rw [heq] at hfrom hunknown hapart
  simp only [List.nil_append, List.not_mem_nil, false_or] at hfrom hunknown hapart
  have hsize := p.symbols.moreVars_size syms
  obtain ⟨hfresh, -⟩ := halloc.fresh (p.symbols.moreVars_behind syms)
  have hdescends := Symbols.descends_moreVars h.sound syms
  have hleaves : ∀ {b}, p.symbols.Has b →
      (p.symbols.moreVars syms).leaves b = p.symbols.leaves b := fun hb =>
    hdescends.grows.leaves_eq h.sound.ordered.closed hb
  -- a new slot is for no pattern of another slot, old or new
  have hold : ∀ a ∈ news, ∀ b ∈ p.stack.slots, ∀ leaf, leaf ∈ p.symbols.leaves a.binding →
      leaf ∉ p.symbols.leaves b.binding := by
    intro a ha b hb leaf hla hlb
    have hsome := Stack.resolve_isSome.mpr
      ⟨b, hb, Symbols.isAliasFor_iff.mpr (.inr ⟨leaf, hlb, hla⟩)⟩
    rw [hunknown a ha] at hsome
    exact absurd hsome (by simp)
  have hnew : ∀ a ∈ news, ∀ b ∈ news, ∀ leaf, leaf ∈ p.symbols.leaves a.binding →
      leaf ∈ p.symbols.leaves b.binding → a = b := by
    intro a ha b hb leaf hla hlb
    have : Std.Symm fun a b : Slot => p.symbols.isAliasFor a.binding b.binding = false :=
      ⟨fun a b hab => by rwa [Symbols.isAliasFor_comm]⟩
    refine Decidable.not_not.mp fun hne => ?_
    have halias := (hapart .nil).forall ha hb hne
    rw [Symbols.isAliasFor_iff.mpr (.inr ⟨leaf, hla, hlb⟩)] at halias
    exact absurd halias (by simp)
  rw [henter]
  have hmem : ∀ {slot}, slot ∈ (⟨⟨kind, news, []⟩, p.stack.frames⟩ : Stack).slots ↔
      slot ∈ news ∨ slot ∈ p.stack.slots := by
    simp [Stack.slots, Stack.frames]
  refine ⟨news, rfl, hdescends, ⟨h.base, h.descends.trans hdescends, ?_, ?_, ?_, ?_⟩, hfrom,
    fun slot hslot => (hfresh slot hslot).1⟩
  · intro slot hslot
    exact (hmem.mp hslot).elim (fun hslot => hdescends.grows.has (hbs _ (hfrom slot hslot)))
      fun hslot => hdescends.grows.has (h.has slot hslot)
  · intro slot hslot
    rcases hmem.mp hslot with hslot | hslot
    · obtain ⟨hle, hlt, -⟩ := hfresh slot hslot
      exact ⟨Nat.le_trans h.descends.toEvolves.size_le hle, by rw [hsize]; exact hlt⟩
    · obtain ⟨hle, hlt⟩ := h.range slot hslot
      exact ⟨hle, Nat.lt_of_lt_of_le hlt hdescends.toEvolves.size_le⟩
  · intro slot hslot
    rcases hmem.mp hslot with hslot | hslot
    · obtain ⟨-, -, sym, x, hsym, hx, hty⟩ := hfresh slot hslot
      obtain ⟨sym', hsym', hvoid⟩ := hcarries _ (hfrom slot hslot)
      obtain rfl : sym = sym' := Option.some.inj (hsym.symm.trans hsym')
      exact ⟨x, hx, fun h => hvoid (hty ▸ h)⟩
    · obtain ⟨x, hx, hvoid⟩ := h.stored slot hslot
      exact ⟨x, hdescends.toEvolves.vars hx, hvoid⟩
  · intro a ha b hb leaf hla hlb
    rcases hmem.mp ha with ha | ha <;> rcases hmem.mp hb with hb | hb
    · rw [hleaves (hbs _ (hfrom a ha))] at hla
      rw [hleaves (hbs _ (hfrom b hb))] at hlb
      rw [hnew a ha b hb leaf hla hlb]
    · rw [hleaves (hbs _ (hfrom a ha))] at hla
      rw [hleaves (h.has b hb)] at hlb
      exact absurd hlb (hold a ha b hb leaf hla)
    · rw [hleaves (h.has a ha)] at hla
      rw [hleaves (hbs _ (hfrom b hb))] at hlb
      exact absurd hla (hold b hb a ha leaf hlb)
    · rw [hleaves (h.has a ha)] at hla
      rw [hleaves (h.has b hb)] at hlb
      exact h.leaf a ha b hb hla hlb

/-! ## §3. Questions. -/

/-- `bs` has been answered to a question about the outcomes of a condition: the
bindings that stand for what is listed for them. -/
structure Pass.Asked (s : Symbols) (p : Pass) (c : Expr) (outcomes : List Bool) (bs : List BindingId)
    (q : Pass) : Prop where
  follows : p.Follows q
  stands : ∀ b ∈ bs, ∃ o ∈ outcomes, ∃ g ∈ listed s c o, Stands q.symbols b g
  carries : ∀ b ∈ bs, s.Carries q.symbols b

variable {c : Expr} {outcomes : List Bool}

/-- Nothing has been asked. -/
theorem asked_none (hp : p.Neat s) : Pass.Asked s p c [] [] p :=
  ⟨.refl hp.sound, fun _ hb => absurd hb List.not_mem_nil, fun _ hb => absurd hb List.not_mem_nil⟩

/-- A condition asked about for one outcome. -/
theorem asked_one (hp : p.Neat s) (hc : ∀ leaf ∈ c.tests, s.isLeaf leaf = true) (o : Bool) :
    Pass.Asked s p c [o] (matchBindings c o p.symbols).1
      { p with symbols := (matchBindings c o p.symbols).2 } := by
  obtain ⟨hsound, hstands⟩ := Flow.listed_stands c o hc hp.descends.grows hp.sound
  have hfollows : p.Follows { p with symbols := (matchBindings c o p.symbols).2 } :=
    ⟨rfl, Flow.matchBindings_descends c o hp.sound⟩
  refine ⟨hfollows, fun b hb => ?_, fun b hb => ?_⟩
  · obtain ⟨g, hg, hb⟩ := exists_of_forall₂ hstands hb
    exact ⟨o, by simp, g, hg, hb⟩
  · obtain ⟨g, hg, hb⟩ := exists_of_forall₂ hstands hb
    exact .of_leaves (hp.follows hfollows).descends.grows hsound hb.1 fun leaf hleaf =>
      .of_isLeaf (hc leaf ((Flow.listed_group c o hc g hg).2 leaf ((hb.2 leaf).mp hleaf)))

/-- A condition asked about for both outcomes. -/
theorem asked_all (hp : p.Neat s) (hc : ∀ leaf ∈ c.tests, s.isLeaf leaf = true) :
    Pass.Asked s p c [true, false] (Oracle.all matchBindings c p.symbols).1
      { p with symbols := (Oracle.all matchBindings c p.symbols).2 } := by
  have h := asked_one hp hc true
  have h' := asked_one (hp.follows h.follows) hc false
  refine ⟨h.follows.trans h'.follows, fun b hb => ?_, fun b hb => ?_⟩
  · rcases List.mem_append.mp hb with hb | hb
    · obtain ⟨o, ho, g, hg, hstands⟩ := h.stands b hb
      exact ⟨o, by simp_all, g, hg, hstands.grows (hp.follows h.follows).sound h'.follows.descends.grows⟩
    · obtain ⟨o, ho, g, hg, hstands⟩ := h'.stands b hb
      exact ⟨o, by simp_all, g, hg, hstands⟩
  · exact (List.mem_append.mp hb).elim (fun hb => (h.carries b hb).later h'.follows.descends.grows)
      (h'.carries b)

end Lowering

end PatternIR
