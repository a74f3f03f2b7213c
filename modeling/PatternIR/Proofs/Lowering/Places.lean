/-
  PatternIR.Proofs.Lowering.Places
  ────────────────────────────────
  **WHERE THE PASS STORES PATTERNS.**

  In a state of the pass, each pattern is stored in the variable of the slot
  that covers it, if one does.  No two slots are for one pattern or in one
  variable, so this is a storage, and entering a frame adds to it.

    • `Pass.storage` — the variable of each pattern;
    • `Pass.Tidy` — no two slots meet;
    • `Pass.Tidy.enter` — entering a frame;
    • `Fits.enter` — storage that fits a condition, in a frame for groups of it;
    • `Pass.tells` — what an outcome of a condition tells in its frame.
-/
import PatternIR.Proofs.Lowering.Meaning
import PatternIR.Proofs.Lowering.References

namespace PatternIR

namespace Symbols

variable {s t : Symbols} {b : BindingId}

/-- A binding of a reference type. -/
def Refers (s : Symbols) (b : BindingId) : Prop :=
  ∃ sym, s.binding? b = some sym ∧ sym.ty.isReference = true

/-- What can be referred to is in the table. -/
theorem Refers.has (h : s.Refers b) : s.Has b := by
  obtain ⟨sym, hsym, -⟩ := h
  exact has_iff.mpr ⟨sym, hsym⟩

/-- It stays so in a table that has grown. -/
theorem Refers.grows (h : s.Refers b) (hst : s.Grows t) : t.Refers b := by
  obtain ⟨sym, hsym, hty⟩ := h
  obtain ⟨flag, hflag, -⟩ := hst.entry hsym
  exact ⟨_, hflag, hty⟩

/-- A binding named and typed like one of a reference type. -/
theorem Refers.of_named? {a : BindingId} (ha : s.Refers a) (h : s.named? a = t.named? b) :
    t.Refers b := by
  obtain ⟨x, hx, hty⟩ := ha
  rw [named?, hx, Option.map_some] at h
  obtain ⟨y, hy, hxy⟩ := Option.map_eq_some_iff.mp h.symm
  injection hxy with _ hyty
  exact ⟨y, hy, by rw [hyty]; exact hty⟩

/-- A later table has no fewer variables. -/
theorem Evolves.size_le (h : s.Evolves t) : s.vars.size ≤ t.vars.size := by
  refine Nat.le_of_not_lt ?_
  intro hlt
  have hs : s.var? ⟨t.vars.size⟩ = some s.vars[t.vars.size] := Array.getElem?_eq_getElem hlt
  have ht : t.var? ⟨t.vars.size⟩ = none := Array.getElem?_eq_none (Nat.le_refl _)
  rw [h.vars hs] at ht
  injection ht

end Symbols

/-! ## §1. New slots. -/

namespace Stack

variable {st : Stack}

/-- A binding that is resolved is so by a slot for an alias of it. -/
theorem exists_slot_of_resolve {s : Symbols} {b : BindingId} {x : VarId} (h : st.resolve s b = some x) :
    ∃ slot ∈ st.slots, s.isAliasFor slot.binding b = true ∧ slot.var = x := by
  obtain ⟨f, hf, hfound⟩ := List.exists_of_findSome?_eq_some h
  obtain ⟨slot, hslot, hvar⟩ := Option.map_eq_some_iff.mp hfound
  have halias : s.isAliasFor slot.binding b = true :=
    List.find?_some (p := fun slot : Slot => s.isAliasFor slot.binding b) hslot
  exact ⟨slot, List.mem_flatMap.mpr ⟨f, hf, List.mem_of_find?_eq_some hslot⟩, halias, hvar⟩

/-- What is allocated was not resolved before, and no two new slots are for aliases. -/
theorem allocate_apart : ∀ (bs : List BindingId) (made : List Slot) (s : Symbols),
    (∀ slot ∈ (st.allocate made bs s).1, slot ∈ made ∨ st.resolve s slot.binding = none)
      ∧ (made.Pairwise (fun a b => s.isAliasFor a.binding b.binding = false) →
        (st.allocate made bs s).1.Pairwise fun a b => s.isAliasFor a.binding b.binding = false)
  | [], made, s => ⟨fun _ h => .inl h, id⟩
  | b :: bs, made, s => by
      unfold allocate
      split
      · exact allocate_apart bs made s
      next hfound =>
        cases hsymbol : s.binding? b with
        | none => exact allocate_apart bs made s
        | some symbol =>
            obtain ⟨hnew, hapart⟩ := allocate_apart bs (made ++ [⟨b, ⟨s.vars.size⟩⟩])
              (s.addVar symbol.name symbol.ty symbol.owner false).2
            simp only [Bool.or_eq_true, not_or, Bool.not_eq_true, Option.isSome_eq_false_iff,
              Option.isNone_iff_eq_none, List.any_eq_false] at hfound
            constructor
            · intro slot hslot
              rcases hnew slot hslot with hmade | hnone
              · rcases List.mem_append.mp hmade with hmade | hmade
                · exact .inl hmade
                · rw [List.mem_singleton.mp hmade]
                  exact .inr hfound.1
              · exact .inr hnone
            · intro hmade
              refine hapart (List.pairwise_append.mpr ⟨hmade, List.pairwise_singleton _ _, ?_⟩)
              intro slot hslot x hx
              rw [List.mem_singleton.mp hx]
              exact hfound.2 slot hslot

end Stack

namespace Lowering

open PatternIR.Flow (Answers groups Stands)

variable {s t : Symbols} {p q : Pass} {kind : FrameKind} {bs : List BindingId} {news : List Slot}

/-- Each new slot has a variable of its own, typed like its binding. -/
theorem Allocates.fresh {n : Nat} {slots : List Slot} {syms : List VarSymbol}
    (h : Allocates s n slots syms) (hsyms : ∀ k : Nat, t.vars[n + k]? = syms[k]?) :
    (∀ slot ∈ slots, n ≤ slot.var.index ∧ slot.var.index < n + syms.length
        ∧ ∃ sym x, s.binding? slot.binding = some sym ∧ t.var? slot.var = some x ∧ x.ty = sym.ty)
      ∧ slots.Pairwise fun a b => a.var ≠ b.var := by
  induction h with
  | nil n => exact ⟨fun _ hslot => absurd hslot List.not_mem_nil, .nil⟩
  | @cons n b symbol slots syms hb rest ih =>
      have hrest : ∀ k : Nat, t.vars[n + 1 + k]? = syms[k]? := by
        intro k
        have hk := hsyms (k + 1)
        rwa [Nat.add_comm k 1, ← Nat.add_assoc, Nat.add_comm 1 k] at hk
      obtain ⟨hfresh, hdistinct⟩ := ih hrest
      refine ⟨?_, List.pairwise_cons.mpr ⟨?_, hdistinct⟩⟩
      · intro slot hslot
        rw [List.length_cons]
        rcases List.mem_cons.mp hslot with rfl | hslot
        · exact ⟨Nat.le_refl n, Nat.lt_add_of_pos_right (Nat.succ_pos _), symbol, _, hb, hsyms 0, rfl⟩
        · obtain ⟨hle, hlt, hsym⟩ := hfresh slot hslot
          exact ⟨by omega, by omega, hsym⟩
      · intro slot hslot heq
        have hle := (hfresh slot hslot).1
        rw [← heq] at hle
        exact absurd hle (Nat.not_succ_le_self n)

/-- The slots of a frame that has just been entered are new: each is for a
binding not known before, and has a variable behind the others. -/
structure Pass.Fresh (p : Pass) (news : List Slot) (q : Pass) : Prop where
  range : ∀ slot ∈ news, p.symbols.vars.size ≤ slot.var.index ∧ slot.var.index < q.symbols.vars.size
  typed : ∀ slot ∈ news, ∃ sym x, p.symbols.binding? slot.binding = some sym
    ∧ q.symbols.var? slot.var = some x ∧ x.ty = sym.ty
  var : news.Pairwise fun a b => a.var ≠ b.var
  apart : news.Pairwise fun a b => p.symbols.isAliasFor a.binding b.binding = false
  unknown : ∀ slot ∈ news, ¬ p.Knows slot.binding

/-- The slots of a new frame are fresh. -/
theorem Pass.Entered.fresh (h : p.Entered kind bs news (p.enter kind bs)) :
    p.Fresh news (p.enter kind bs) := by
  obtain ⟨slots, syms, halloc, heq⟩ := allocate_eq p.stack bs [] p.symbols
  obtain ⟨hnew, hapart⟩ := p.stack.allocate_apart bs [] p.symbols
  rw [heq] at hnew hapart
  have henter : p.enter kind bs
      = ⟨p.symbols.moreVars syms, ⟨⟨kind, slots, []⟩, p.stack.frames⟩, p.maker⟩ := by
    unfold Pass.enter Stack.push
    rw [heq]
    rfl
  have hstack := h.stack
  rw [henter] at hstack ⊢
  injection hstack with hframe
  injection hframe with _ hslots
  subst hslots
  have hsize := p.symbols.moreVars_size syms
  obtain ⟨hfresh, hdistinct⟩ := halloc.fresh (p.symbols.moreVars_behind syms)
  refine ⟨?_, ?_, hdistinct, hapart .nil, ?_⟩
  · intro slot hslot
    obtain ⟨hle, hlt, -⟩ := hfresh slot hslot
    exact ⟨hle, by rw [hsize]; exact hlt⟩
  · exact fun slot hslot => (hfresh slot hslot).2.2
  · intro slot hslot hknown
    -- a slot was made because the stack did not resolve its binding
    rcases hnew slot hslot with hnil | hnone
    · exact absurd hnil List.not_mem_nil
    · rw [Pass.Knows, hnone] at hknown
      exact absurd hknown (by simp)

/-! ## §2. No two slots meet. -/

/-- No two slots are for one pattern or in one variable; all are in variables
of a reference type behind those of `s`. -/
structure Pass.Tidy (s : Symbols) (p : Pass) : Prop where
  range : ∀ slot ∈ p.stack.slots, s.vars.size ≤ slot.var.index ∧ slot.var.index < p.symbols.vars.size
  reference : ∀ slot ∈ p.stack.slots, ∃ x, p.symbols.var? slot.var = some x ∧ x.ty.isReference = true
  var : ∀ a ∈ p.stack.slots, ∀ b ∈ p.stack.slots, a.var = b.var → a = b
  leaf : ∀ a ∈ p.stack.slots, ∀ b ∈ p.stack.slots, ∀ {leaf : BindingId},
    leaf ∈ p.symbols.leaves a.binding → leaf ∈ p.symbols.leaves b.binding → a = b

/-- The variable of each pattern of `s`, if there is one. -/
def Pass.storage (s : Symbols) (p : Pass) : Storage := fun leaf =>
  if s.isLeaf leaf then p.stack.resolve p.symbols leaf else none

/-- A slot for an alias of a pattern covers it. -/
theorem Pass.Sound.covers_of_alias (hp : p.Sound s) {a leaf : BindingId} (hleaf : s.isLeaf leaf = true)
    (h : p.symbols.isAliasFor a leaf = true) : leaf ∈ p.symbols.leaves a :=
  Symbols.mem_leaves_of_isAliasFor (hp.evolves.grows.isLeaf hleaf) h

namespace Pass.Tidy

/-- A pattern is stored in the variable of the slot that covers it. -/
theorem storage_eq (h : p.Tidy s) (hp : p.Sound s) {leaf : BindingId} {x : VarId} :
    p.storage s leaf = some x ↔ s.isLeaf leaf = true
      ∧ ∃ slot ∈ p.stack.slots, leaf ∈ p.symbols.leaves slot.binding ∧ slot.var = x := by
  unfold Pass.storage
  constructor
  · intro hx
    obtain ⟨hleaf, hresolve⟩ := Option.ite_none_right_eq_some.mp hx
    obtain ⟨slot, hslot, halias, hvar⟩ := Stack.exists_slot_of_resolve hresolve
    exact ⟨hleaf, slot, hslot, hp.covers_of_alias hleaf halias, hvar⟩
  · rintro ⟨hleaf, slot, hslot, hcovers, rfl⟩
    rw [if_pos hleaf]
    have hself : leaf ∈ p.symbols.leaves leaf := by
      rw [Symbols.leaves_of_isLeaf (hp.evolves.grows.isLeaf hleaf)]
      exact List.mem_singleton.mpr rfl
    have hsome : (p.stack.resolve p.symbols leaf).isSome = true := Stack.resolve_isSome.mpr
      ⟨slot, hslot, Symbols.isAliasFor_iff.mpr (.inr ⟨leaf, hcovers, hself⟩)⟩
    obtain ⟨y, hy⟩ := Option.isSome_iff_exists.mp hsome
    obtain ⟨other, hother, halias, rfl⟩ := Stack.exists_slot_of_resolve hy
    rw [hy, h.leaf other hother slot hslot (hp.covers_of_alias hleaf halias) hcovers]

/-- Some of the slots, at a later table. -/
theorem sub (h : p.Tidy s) (hp : p.Sound s) (hslots : ∀ slot ∈ q.stack.slots, slot ∈ p.stack.slots)
    (hevolves : p.symbols.Evolves q.symbols) : q.Tidy s := by
  have hleaves : ∀ slot ∈ q.stack.slots, q.symbols.leaves slot.binding = p.symbols.leaves slot.binding :=
    fun slot hslot => hevolves.grows.leaves_eq hp.evolves.sound.ordered.closed (hp.slots slot (hslots slot hslot)).1
  refine ⟨?_, ?_, fun a ha b hb => h.var a (hslots a ha) b (hslots b hb), ?_⟩
  · intro slot hslot
    obtain ⟨hle, hlt⟩ := h.range slot (hslots slot hslot)
    exact ⟨hle, Nat.lt_of_lt_of_le hlt hevolves.size_le⟩
  · intro slot hslot
    obtain ⟨x, hx, hty⟩ := h.reference slot (hslots slot hslot)
    exact ⟨x, hevolves.vars hx, hty⟩
  · intro a ha b hb leaf hleaf hleaf'
    rw [hleaves a ha] at hleaf
    rw [hleaves b hb] at hleaf'
    exact h.leaf a (hslots a ha) b (hslots b hb) hleaf hleaf'

/-- A tidy pass stays tidy. -/
theorem later (h : p.Tidy s) (hp : p.Sound s) (hlater : p.Later q) : q.Tidy s :=
  h.sub hp (fun slot hslot => by rwa [hlater.stack] at hslot) hlater.evolves

/-- What is stored stays stored while slots are added and the table grows. -/
theorem storage_mono (h : p.Tidy s) (hp : p.Sound s) (h' : q.Tidy s) (hq : q.Sound s)
    (hslots : ∀ slot ∈ p.stack.slots, slot ∈ q.stack.slots) (hgrows : p.symbols.Grows q.symbols)
    {leaf : BindingId} {x : VarId} (hx : p.storage s leaf = some x) : q.storage s leaf = some x := by
  obtain ⟨hleaf, slot, hslot, hcovers, hvar⟩ := (h.storage_eq hp).mp hx
  exact (h'.storage_eq hq).mpr ⟨hleaf, slot, hslots slot hslot, hgrows.leaves hcovers, hvar⟩

/-- Where patterns are stored does not change with the table, nor with the frames slots are in. -/
theorem storage_same (h : p.Tidy s) (hp : p.Sound s) (h' : q.Tidy s) (hq : q.Sound s)
    (hslots : ∀ slot, slot ∈ q.stack.slots ↔ slot ∈ p.stack.slots)
    (hgrows : p.symbols.Grows q.symbols) : q.storage s = p.storage s := by
  funext leaf
  refine Option.ext fun x => ⟨?_, ?_⟩
  · intro hx
    obtain ⟨hleaf, slot, hslot, hcovers, hvar⟩ := (h'.storage_eq hq).mp hx
    have hslot := (hslots slot).mp hslot
    rw [hgrows.leaves_eq hp.evolves.sound.ordered.closed (hp.slots slot hslot).1] at hcovers
    exact (h.storage_eq hp).mpr ⟨hleaf, slot, hslot, hcovers, hvar⟩
  · exact h.storage_mono hp h' hq (fun slot => (hslots slot).mpr) hgrows

/-- A later table alone does not change where patterns are stored. -/
theorem storage_later (h : p.Tidy s) (hp : p.Sound s) (hlater : p.Later q) :
    q.storage s = p.storage s :=
  h.storage_same hp (h.later hp hlater) (hp.later hlater) (fun slot => by rw [hlater.stack])
    hlater.evolves.grows

/-- A variable that still stores patterns when slots have gone, stores what it stored before. -/
theorem storage_sub (h : p.Tidy s) (hp : p.Sound s) (h' : q.Tidy s) (hq : q.Sound s)
    (hslots : ∀ slot ∈ q.stack.slots, slot ∈ p.stack.slots) (hgrows : p.symbols.Grows q.symbols)
    {leaf : BindingId} {x : VarId} (hx : q.storage s leaf = some x) :
    ∀ other, q.storage s other = some x ↔ p.storage s other = some x := by
  obtain ⟨-, slot, hslot, -, hvar⟩ := (h'.storage_eq hq).mp hx
  have hleaves : ∀ a ∈ q.stack.slots, q.symbols.leaves a.binding = p.symbols.leaves a.binding :=
    fun a ha => hgrows.leaves_eq hp.evolves.sound.ordered.closed (hp.slots a (hslots a ha)).1
  intro other
  rw [h'.storage_eq hq, h.storage_eq hp]
  constructor
  · rintro ⟨hleaf, a, ha, hcovers, hax⟩
    rw [hleaves a ha] at hcovers
    exact ⟨hleaf, a, hslots a ha, hcovers, hax⟩
  · rintro ⟨hleaf, a, ha, hcovers, hax⟩
    obtain rfl : a = slot := h.var a ha slot (hslots slot hslot) (hax.trans hvar.symm)
    exact ⟨hleaf, a, hslot, (hleaves a hslot).symm ▸ hcovers, hax⟩

/-- **Entering a frame** for bindings of reference types. -/
theorem enter (h : p.Tidy s) (hp : p.Sound s) (hbs : ∀ b ∈ bs, p.symbols.Refers b)
    (hentered : p.Entered kind bs news q) (hfresh : p.Fresh news q) : q.Tidy s := by
  have hasked : ∀ slot ∈ news, p.symbols.Refers slot.binding := fun slot hslot =>
    hbs _ (hentered.asked slot hslot)
  have hnews : ∀ slot ∈ news, q.symbols.leaves slot.binding = p.symbols.leaves slot.binding :=
    fun slot hslot => hentered.evolves.grows.leaves_eq hp.evolves.sound.ordered.closed (hasked slot hslot).has
  have holds : ∀ slot ∈ p.stack.slots, q.symbols.leaves slot.binding = p.symbols.leaves slot.binding :=
    fun slot hslot => hentered.evolves.grows.leaves_eq hp.evolves.sound.ordered.closed (hp.slots slot hslot).1
  -- a new slot has neither a variable nor a pattern of an old one
  have hvar : ∀ a ∈ news, ∀ b ∈ p.stack.slots, a.var ≠ b.var := by
    intro a ha b hb heq
    have hle := (hfresh.range a ha).1
    have hlt := (h.range b hb).2
    rw [heq] at hle
    omega
  have hleaf : ∀ a ∈ news, ∀ b ∈ p.stack.slots, ∀ leaf, leaf ∈ p.symbols.leaves a.binding →
      leaf ∉ p.symbols.leaves b.binding := by
    intro a ha b hb leaf hla hlb
    exact hfresh.unknown a ha (Pass.knows_iff.mpr
      ⟨b, hb, Symbols.isAliasFor_iff.mpr (.inr ⟨leaf, hlb, hla⟩)⟩)
  have hpair : ∀ {R : Slot → Slot → Prop}, (∀ a b, R a b → R b a) → news.Pairwise R →
      ∀ a ∈ news, ∀ b ∈ news, ¬ R a b → a = b := by
    intro R hsymm hR a ha b hb hno
    have : Std.Symm R := ⟨hsymm⟩
    exact Decidable.not_not.mp fun hne => hno (hR.forall ha hb hne)
  refine ⟨?_, ?_, ?_, ?_⟩
  · intro slot hslot
    rcases hentered.mem_slots.mp hslot with hslot | hslot
    · obtain ⟨hle, hlt⟩ := hfresh.range slot hslot
      exact ⟨Nat.le_trans hp.evolves.size_le hle, hlt⟩
    · obtain ⟨hle, hlt⟩ := h.range slot hslot
      exact ⟨hle, Nat.lt_of_lt_of_le hlt hentered.evolves.size_le⟩
  · intro slot hslot
    rcases hentered.mem_slots.mp hslot with hslot | hslot
    · obtain ⟨sym, x, hsym, hx, hty⟩ := hfresh.typed slot hslot
      obtain ⟨sym', hsym', href⟩ := hasked slot hslot
      rw [hsym] at hsym'
      injection hsym' with heq
      exact ⟨x, hx, by rw [hty, heq]; exact href⟩
    · obtain ⟨x, hx, hty⟩ := h.reference slot hslot
      exact ⟨x, hentered.evolves.vars hx, hty⟩
  · intro a ha b hb heq
    rcases hentered.mem_slots.mp ha with ha | ha <;> rcases hentered.mem_slots.mp hb with hb | hb
    · exact hpair (fun _ _ hne heq => hne heq.symm) hfresh.var a ha b hb fun hne => hne heq
    · exact absurd heq (hvar a ha b hb)
    · exact absurd heq.symm (hvar b hb a ha)
    · exact h.var a ha b hb heq
  · intro a ha b hb leaf hla hlb
    rcases hentered.mem_slots.mp ha with ha | ha <;> rcases hentered.mem_slots.mp hb with hb | hb
    · rw [hnews a ha] at hla
      rw [hnews b hb] at hlb
      have hsymm : ∀ a b : Slot, p.symbols.isAliasFor a.binding b.binding = false →
          p.symbols.isAliasFor b.binding a.binding = false := by
        intro a b hab
        refine Bool.eq_false_iff.mpr fun hba => Bool.eq_false_iff.mp hab ?_
        rcases Symbols.isAliasFor_iff.mp hba with heq | ⟨leaf, hb, ha⟩
        · exact Symbols.isAliasFor_iff.mpr (.inl heq.symm)
        · exact Symbols.isAliasFor_iff.mpr (.inr ⟨leaf, ha, hb⟩)
      refine hpair hsymm hfresh.apart a ha b hb fun hno => Bool.eq_false_iff.mp hno ?_
      exact Symbols.isAliasFor_iff.mpr (.inr ⟨leaf, hla, hlb⟩)
    · rw [hnews a ha] at hla
      rw [holds b hb] at hlb
      exact absurd hlb (hleaf a ha b hb leaf hla)
    · rw [holds a ha] at hla
      rw [hnews b hb] at hlb
      exact absurd hla (hleaf b hb a ha leaf hlb)
    · rw [holds a ha] at hla
      rw [holds b hb] at hlb
      exact h.leaf a ha b hb hla hlb

/-- More slots behind the variables of a state. -/
theorem extends_ (h : p.Tidy s) (hp : p.Sound s) (h' : q.Tidy s) (hq : q.Sound s)
    (hgrows : p.symbols.Grows q.symbols) {more : List Slot}
    (hslots : ∀ slot, slot ∈ q.stack.slots ↔ slot ∈ more ∨ slot ∈ p.stack.slots)
    (hmore : ∀ slot ∈ more, p.symbols.vars.size ≤ slot.var.index) :
    (p.storage s).Extends (q.storage s) p.symbols.vars.size := by
  refine ⟨h.storage_mono hp h' hq (fun slot hslot => (hslots slot).mpr (.inr hslot)) hgrows, ?_⟩
  intro leaf x hx
  obtain ⟨hleaf, slot, hslot, hcovers, rfl⟩ := (h'.storage_eq hq).mp hx
  rcases (hslots slot).mp hslot with hslot | hslot
  · exact .inr (hmore slot hslot)
  · rw [hgrows.leaves_eq hp.evolves.sound.ordered.closed (hp.slots slot hslot).1] at hcovers
    exact .inl ((h.storage_eq hp).mpr ⟨hleaf, slot, hslot, hcovers, rfl⟩)

end Pass.Tidy

/-! ## §3. Storage of a condition. -/

/-- Tests that are avoided miss all storage. -/
theorem Pass.Avoids.misses {ts : List BindingId} (h : p.Avoids ts) (htidy : p.Tidy s) (hp : p.Sound s) :
    (p.storage s).Misses ts := by
  intro leaf hleaf
  cases hx : p.storage s leaf with
  | none => rfl
  | some x =>
      obtain ⟨-, slot, hslot, hcovers, -⟩ := (htidy.storage_eq hp).mp hx
      exact absurd hleaf (h slot hslot leaf hcovers)

/-- Tests that miss all storage are avoided. -/
theorem Pass.Avoids.of_misses {ts : List BindingId} (h : (p.storage s).Misses ts) (htidy : p.Tidy s)
    (hp : p.Sound s) (hts : ∀ leaf ∈ ts, s.isLeaf leaf = true) : p.Avoids ts := by
  intro slot hslot leaf hcovers hleaf
  have hx := (htidy.storage_eq hp).mpr ⟨hts leaf hleaf, slot, hslot, hcovers, rfl⟩
  rw [h leaf hleaf] at hx
  injection hx

section

variable {c : Expr} {outcomes : List Bool} {answer : List BindingId × Symbols} {o : Bool}

/-- **Storage that fits a condition fits it in a frame for groups of it.** -/
theorem Storage.Fits.enter (h : (p.storage s).Fits s c) (htidy : p.Tidy s) (hp : p.Sound s)
    (htidy' : q.Tidy s) (hq : q.Sound s) (hentered : p.Entered kind bs news q)
    (hc : ∀ leaf ∈ c.tests, s.isLeaf leaf = true)
    (hnews : ∀ slot ∈ news, ∃ o, ∃ g ∈ groups s c o, Stands q.symbols slot.binding g) :
    (q.storage s).Fits s c := by
  intro leaf hleaf x hx
  obtain ⟨-, slot, hslot, hcovers, rfl⟩ := (htidy'.storage_eq hq).mp hx
  rcases hentered.mem_slots.mp hslot with hnew | hold
  · obtain ⟨o, g, hg, hstands⟩ := hnews slot hnew
    refine ⟨o, g, hg, fun other hother => ?_⟩
    rw [htidy'.storage_eq hq, ← hstands.2 other]
    constructor
    · rintro ⟨-, slot', hslot', hcovers', hvar⟩
      rw [← htidy'.var slot' hslot' slot hslot hvar]
      exact hcovers'
    · exact fun hcovers' => ⟨hc other hother, slot, hslot, hcovers', rfl⟩
  · rw [hentered.evolves.grows.leaves_eq hp.evolves.sound.ordered.closed (hp.slots slot hold).1] at hcovers
    obtain ⟨o, g, hg, hexact⟩ :=
      h leaf hleaf slot.var ((htidy.storage_eq hp).mpr ⟨hc leaf hleaf, slot, hold, hcovers, rfl⟩)
    refine ⟨o, g, hg, fun other hother => ?_⟩
    rw [← hexact other hother]
    constructor
    · intro hother'
      obtain ⟨-, slot', hslot', hcovers', hvar⟩ := (htidy'.storage_eq hq).mp hother'
      rw [htidy'.var slot' hslot' slot hslot hvar,
        hentered.evolves.grows.leaves_eq hp.evolves.sound.ordered.closed (hp.slots slot hold).1] at hcovers'
      exact (htidy.storage_eq hp).mpr ⟨hc other hother, slot, hold, hcovers', rfl⟩
    · exact htidy.storage_mono hp htidy' hq (fun x hx => hentered.mem_slots.mpr (.inr hx))
        hentered.evolves.grows

/-- Each group that has been asked for is stored. -/
theorem Pass.Entered.stores (hanswer : Answers s c outcomes t answer)
    (hentered : Pass.Entered { p with symbols := answer.2 } kind answer.1 news q)
    (htidy : q.Tidy s) (hq : q.Sound s) (hc : c.Fits s) (hs : s.Sound)
    (hfits : (q.storage s).Fits s c) (ho : o ∈ outcomes) :
    ∀ g ∈ groups s c o, ∃ x, (q.storage s).Stores g x := by
  intro g hg
  obtain ⟨a, ha, hstands⟩ := exists_of_forall₂ hanswer.stands.flip (List.mem_flatMap.mpr ⟨o, ho, hg⟩)
  have hag := Stands.grows hanswer.evolves.sound hentered.evolves.grows hstands
  obtain ⟨slot, hslot, halias⟩ := Pass.knows_iff.mp (hentered.knows ha)
  obtain ⟨leaf, hcovers, hleaf⟩ : ∃ leaf, leaf ∈ q.symbols.leaves slot.binding ∧ leaf ∈ g := by
    rcases Symbols.isAliasFor_iff.mp halias with heq | ⟨leaf, hleaf, hleaf'⟩
    · obtain ⟨leaf, hleaf⟩ := hq.evolves.sound.ordered.exists_leaf hag.1
      exact ⟨leaf, heq ▸ hleaf, (hag.2 leaf).mp hleaf⟩
    · exact ⟨leaf, hleaf, (hag.2 leaf).mp hleaf'⟩
  have hx := (htidy.storage_eq hq).mpr
    ⟨(hc.tests leaf (Flow.mem_tests hg hleaf)).1, slot, hslot, hcovers, rfl⟩
  have hexact := hfits.exact_ (hc.grouped hs).disjoint hg hleaf hx
  exact ⟨slot.var, fun other hother => (hexact other (Flow.mem_tests hg hother)).mpr hother⟩

/-- **What an outcome of a condition tells** where its groups are stored. -/
theorem Pass.tells {P : Place} {ts : List BindingId} (htidy : q.Tidy s) (hc : c.Fits s) (hs : s.Sound)
    (hq : q.Sound s) (hfits : (q.storage s).Fits s c)
    (hstored : ∀ g ∈ groups s c o, ∃ x, (q.storage s).Stores g x) (hP : P.storage = q.storage s)
    (hbound : q.symbols.vars.size ≤ P.bound) (hcross : ∀ leaf ∈ c.tests, leaf ∉ ts)
    (hapart : ∀ {g : List BindingId} {leaf other : BindingId} {x : VarId}, g ∈ groups s c o →
      leaf ∈ g → q.storage s leaf = some x → other ∈ ts → q.storage s other ≠ some x) :
    Tells s P c o ts := by
  have hdisjoint := (hc.grouped hs).disjoint
  refine ⟨?_, hdisjoint o, ?_, by rw [hP]; exact hstored, hcross, by rw [hP]; exact hapart⟩
  · intro leaf x hx
    rw [hP] at hx
    obtain ⟨-, slot, hslot, -, rfl⟩ := (htidy.storage_eq hq).mp hx
    obtain ⟨hle, hlt⟩ := htidy.range slot hslot
    exact ⟨hle, Nat.lt_of_lt_of_le hlt hbound⟩
  · intro g g' leaf leaf' x hg hg' hleaf hleaf' hx hx'
    rw [hP] at hx hx'
    have hmem := (hfits.exact_ hdisjoint hg hleaf hx leaf' (Flow.mem_tests hg' hleaf')).mp hx'
    exact Flow.eq_of_disjoint (hdisjoint o) hg hg' hmem hleaf'

end

/-! ## §4. States in which what is known is stored. -/

/-- There are slots for what is known, no two of them meet, and each binding
known has all its patterns in one variable. -/
structure Pass.Stocked (s : Symbols) (known : BindingId → Prop) (p : Pass) : Prop where
  ready : p.Ready s known
  tidy : p.Tidy s
  stored : ∀ b, known b → s.Has b → ∃ x, (p.storage s).Stores (s.leaves b) x

variable {known : BindingId → Prop}

namespace Pass.Stocked

/-- What is in stock stays so. -/
theorem later (h : p.Stocked s known) (hlater : p.Later q) : q.Stocked s known := by
  refine ⟨h.ready.later hlater, h.tidy.later h.ready.sound hlater, ?_⟩
  rw [h.tidy.storage_later h.ready.sound hlater]
  exact h.stored

/-- Less may be asked to be in stock. -/
theorem mono {known' : BindingId → Prop} (h : p.Stocked s known) (hsub : ∀ b, known' b → known b) :
    p.Stocked s known' :=
  ⟨h.ready.mono hsub, h.tidy, fun b hb => h.stored b (hsub b hb)⟩

/-- A binding that is known is resolved to where its patterns are stored. -/
theorem resolve (h : p.Stocked s known) {b : BindingId} (hb : known b) (hhas : s.Has b) {x : VarId}
    (hx : p.stack.resolve p.symbols b = some x) : (p.storage s).Stores (s.leaves b) x := by
  obtain ⟨y, hy⟩ := h.stored b hb hhas
  obtain ⟨slot, hslot, halias, rfl⟩ := Stack.exists_slot_of_resolve hx
  have hgrows := h.ready.sound.evolves.grows
  obtain ⟨leaf, hleaf, hcovers⟩ : ∃ leaf ∈ s.leaves b, leaf ∈ p.symbols.leaves slot.binding := by
    rcases Symbols.isAliasFor_iff.mp halias with heq | ⟨leaf, hleaf, hleaf'⟩
    · obtain ⟨leaf, hleaf⟩ := h.ready.base.ordered.exists_leaf hhas
      exact ⟨leaf, hleaf, heq ▸ hgrows.leaves hleaf⟩
    · exact ⟨leaf, (hgrows.mem_leaves h.ready.base.ordered.closed hhas).mp hleaf', hleaf⟩
  have hslot' := (h.tidy.storage_eq h.ready.sound).mpr
    ⟨Symbols.isLeaf_of_mem_leaves hleaf, slot, hslot, hcovers, rfl⟩
  rw [hy leaf hleaf] at hslot'
  injection hslot' with hxy
  rw [← hxy]
  exact hy

end Pass.Stocked

/-- From `p`, a frame with the slots `news` has been entered for what outcomes
of the condition `c` bind; storage fits `whole`, of which `c` is a part. -/
structure Pass.Opened (s : Symbols) (known : BindingId → Prop) (kind : FrameKind) (c : Expr)
    (outcomes : List Bool) (whole : Expr) (news : List Slot) (p q : Pass) : Prop where
  stack : q.stack = ⟨⟨kind, news, []⟩, p.stack.frames⟩
  evolves : p.symbols.Evolves q.symbols
  stocked : q.Stocked s known
  listed : q.Stocked s fun b => known b ∨ ∃ o ∈ outcomes, b ∈ (Flow.matchBindings c o s).1
  fits : (q.storage s).Fits s whole
  stores : ∀ o ∈ outcomes, ∀ g ∈ groups s c o, ∃ x, (q.storage s).Stores g x
  extends_ : (p.storage s).Extends (q.storage s) p.symbols.vars.size
  behind : ∀ slot ∈ news, p.symbols.vars.size ≤ slot.var.index
  covers : ∀ slot ∈ news, ∀ leaf ∈ q.symbols.leaves slot.binding, leaf ∈ c.tests

/-- A frame for a condition stores nothing of other trees. -/
theorem Pass.Opened.misses {kind : FrameKind} {c whole : Expr} {outcomes : List Bool} {news : List Slot}
    (h : Pass.Opened s known kind c outcomes whole news p q) (htidy : p.Tidy s) (hp : p.Sound s)
    {ts : List BindingId} (hmisses : (p.storage s).Misses ts) (hcross : ∀ leaf ∈ c.tests, leaf ∉ ts) :
    (q.storage s).Misses ts := by
  intro leaf hleaf
  cases hx : q.storage s leaf with
  | none => rfl
  | some x =>
      obtain ⟨hisLeaf, slot, hslot, hcovers, rfl⟩ := (h.stocked.tidy.storage_eq h.stocked.ready.sound).mp hx
      rw [h.stack] at hslot
      rcases List.mem_append.mp hslot with hslot | hslot
      · exact absurd hleaf (hcross leaf (h.covers slot hslot leaf hcovers))
      · rw [h.evolves.grows.leaves_eq hp.evolves.sound.ordered.closed (hp.slots slot hslot).1] at hcovers
        have hx' := (htidy.storage_eq hp).mpr ⟨hisLeaf, slot, hslot, hcovers, rfl⟩
        rw [hmisses leaf hleaf] at hx'
        injection hx'

/-- What is listed for a condition over references is of reference types. -/
theorem Answers.refers {c : Expr} {outcomes : List Bool} {answer : List BindingId × Symbols}
    (h : Answers s c outcomes t answer) (hst : s.Grows t)
    (htests : ∀ leaf ∈ c.tests, s.isLeaf leaf = true ∧ s.Refers leaf) :
    ∀ b ∈ answer.1, answer.2.Refers b := by
  intro b hb
  obtain ⟨g, hg, hbg⟩ := exists_of_forall₂ h.stands hb
  obtain ⟨o, -, hg⟩ := List.mem_flatMap.mp hg
  have hgroup := Flow.made_groups (fun leaf hleaf => (htests leaf hleaf).1) g hg
  obtain ⟨leaf, hleaf⟩ := Flow.exists_mem_group hg
  exact (htests leaf (Flow.mem_tests hg hleaf)).2.of_named?
    (hbg.named? (hst.trans h.evolves.grows) h.evolves.sound hgroup hleaf)

/-- **Entering the frame of a condition.** -/
theorem Pass.Stocked.opened (hp : p.Stocked s known) (kind : FrameKind) {c whole : Expr}
    {outcomes : List Bool} {answer : List BindingId × Symbols} (hc : c.Fits s)
    (hrefers : ∀ leaf ∈ c.tests, s.Refers leaf) (hanswer : Answers s c outcomes p.symbols answer)
    (hwhole : ∀ leaf ∈ whole.tests, s.isLeaf leaf = true)
    (hgroups : ∀ o ∈ outcomes, ∀ g ∈ groups s c o, ∃ o', g ∈ groups s whole o')
    (hpart : ∀ {ρ : Storage}, ρ.Fits s whole → ρ.Fits s c) (hfits : (p.storage s).Fits s whole) :
    ∃ news, Pass.Opened s known kind c outcomes whole news p
      (Pass.enter { p with symbols := answer.2 } kind answer.1) := by
  have hlater := later_answer hanswer.evolves
  have hp' := hp.later hlater
  have hbs := hanswer.storing hp.ready.sound.evolves.grows hc.tests
  -- the table grows twice: first by what the question adds, then by the slots of the frame
  obtain ⟨news, hentered⟩ :=
    Pass.enter_entered hp'.ready.sound.evolves.sound kind answer.1 hbs.storable
  have hfresh := hentered.fresh
  generalize Pass.enter { p with symbols := answer.2 } kind answer.1 = q at hentered hfresh ⊢
  have hready := hp'.ready.enter hbs hentered
  have htidy := hp'.tidy.enter hp'.ready.sound (Answers.refers hanswer hp.ready.sound.evolves.grows
    fun leaf hleaf => ⟨(hc.tests leaf hleaf).1, hrefers leaf hleaf⟩) hentered hfresh
  have hevolves := hlater.evolves.trans hentered.evolves
  have hsame := hp.tidy.storage_later hp.ready.sound hlater
  have hextends := hp'.tidy.extends_ hp'.ready.sound htidy hready.sound hentered.evolves.grows
    (fun _ => hentered.mem_slots) fun slot hslot => (hfresh.range slot hslot).1
  rw [hsame] at hextends
  -- each new slot was asked for, so it is of a group of the condition, and of the whole
  have hfits' := Storage.Fits.enter (by rw [hsame]; exact hfits) hp'.tidy hp'.ready.sound htidy
    hready.sound hentered hwhole fun slot hslot => by
      obtain ⟨g, hg, hstands⟩ := exists_of_forall₂ hanswer.stands (hentered.asked slot hslot)
      obtain ⟨o, ho, hg⟩ := List.mem_flatMap.mp hg
      obtain ⟨o', hg'⟩ := hgroups o ho g hg
      exact ⟨o', g, hg', hstands.grows hanswer.evolves.sound hentered.evolves.grows⟩
  have hstores : ∀ o ∈ outcomes, ∀ g ∈ groups s c o, ∃ x, (q.storage s).Stores g x := fun o ho =>
    hentered.stores hanswer htidy hready.sound hc hp.ready.base (hpart hfits') ho
  have hstored : ∀ b, known b → s.Has b → ∃ x, (q.storage s).Stores (s.leaves b) x := by
    intro b hb hhas
    obtain ⟨x, hx⟩ := hp.stored b hb hhas
    exact ⟨x, fun leaf hleaf => hextends.kept (hx leaf hleaf)⟩
  refine ⟨news, hentered.stack, hevolves, ⟨hready, htidy, hstored⟩, ?_, hfits', hstores,
    ⟨hextends.kept, ?_⟩, ?_, ?_⟩
  · refine ⟨hready.listed hc hanswer hentered, htidy, ?_⟩
    rintro b (hb | ⟨o, ho, hb⟩) hhas
    · exact hstored b hb hhas
    · obtain ⟨-, hstands⟩ := (hc.grouped hp.ready.base).stands o (.refl s) hp.ready.base
      obtain ⟨g, hg, hbg⟩ := exists_of_forall₂ hstands hb
      obtain ⟨x, hx⟩ := hstores o ho g hg
      refine ⟨x, fun leaf hleaf => hx leaf ((hbg.2 leaf).mp ?_)⟩
      exact (Flow.matchBindings_grows c o s).leaves hleaf
  · intro leaf x hx
    exact (hextends.fresh hx).imp id (Nat.le_trans hlater.evolves.size_le)
  · intro slot hslot
    exact Nat.le_trans hlater.evolves.size_le (hfresh.range slot hslot).1
  · intro slot hslot leaf hleaf
    have hb := hentered.asked slot hslot
    rw [hentered.evolves.grows.leaves_eq hanswer.evolves.sound.ordered.closed (hbs.storable _ hb).has] at hleaf
    exact hbs.leaves _ hb leaf hleaf

/-! ## §5. Places. -/

/-- The place a state of the pass is in, for a program with the table `u`. -/
def Pass.place (u s : Symbols) (known : BindingId → Prop) (p : Pass) : Place :=
  ⟨p.storage s, p.symbols.vars.size, fun b => known b ∧ u.Has b⟩

section

variable {u : Symbols} {c whole : Expr} {outcomes : List Bool} {o : Bool} {P : Place}
  {ts : List BindingId}

/-- What is told on a later table is told on the table of the program. -/
theorem Tells.earlier (h : Tells s P c o ts) (hus : u.Evolves s) (hc : ∀ leaf ∈ c.tests, u.Has leaf) :
    Tells u P c o ts := by
  have hgroups := Flow.groups_grows hus.grows c o hc
  refine ⟨?_, ?_, ?_, ?_, h.tests, ?_⟩
  · intro leaf x hx
    obtain ⟨hle, hlt⟩ := h.valid hx
    exact ⟨Nat.le_trans hus.size_le hle, hlt⟩
  · rw [← hgroups]
    exact h.disjoint
  · rw [← hgroups]
    exact h.single
  · rw [← hgroups]
    exact h.stored
  · rw [← hgroups]
    exact h.storage

/-- What the oracle lists for an outcome is told by it. -/
theorem told_of_listed (hus : u.Evolves s) (hs : s.Sound) (hc : c.Fits s)
    (hu : ∀ leaf ∈ c.tests, u.Has leaf) {b : BindingId} (hb : b ∈ (Flow.matchBindings c o s).1)
    (hhas : u.Has b) (hsound : u.Sound) : Told u c o b := by
  obtain ⟨-, hstands⟩ := (hc.grouped hs).stands o (.refl s) hs
  obtain ⟨g, hg, -, hbg⟩ := exists_of_forall₂ hstands hb
  rw [Flow.groups_grows hus.grows c o hu] at hg
  refine ⟨g, hg, hhas, fun leaf => ?_⟩
  rw [← (hus.grows.trans (Flow.matchBindings_grows c o s)).mem_leaves hsound.ordered.closed hhas]
  exact hbg leaf

/-- An outcome tells what the frame of the condition has been entered for. -/
theorem Pass.Opened.tells {kind : FrameKind} (h : Pass.Opened s known kind c outcomes whole news p q)
    (hus : u.Evolves s) (hs : s.Sound) (hc : c.Fits s) (hu : ∀ leaf ∈ c.tests, u.Has leaf)
    (hfits : (q.storage s).Fits s c) (ho : o ∈ outcomes) (hP : P.storage = q.storage s)
    (hbound : q.symbols.vars.size ≤ P.bound) (hcross : ∀ leaf ∈ c.tests, leaf ∉ ts)
    (hapart : ∀ {g : List BindingId} {leaf other : BindingId} {x : VarId}, g ∈ groups s c o →
      leaf ∈ g → q.storage s leaf = some x → other ∈ ts → q.storage s other ≠ some x) :
    Tells u P c o ts :=
  Tells.earlier (Pass.tells h.stocked.tidy hc hs h.stocked.ready.sound hfits (h.stores o ho) hP hbound
    hcross hapart) hus hu

end

end Lowering

end PatternIR
