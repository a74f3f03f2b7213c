/-
  PatternIR.Proofs.Symbols.Interning
  ──────────────────────────────────
  **UNIFIED BINDINGS ARE KNOWN BY THEIR LEAVES.**

  A table is built from the empty one by adding, unifying and marking bindings.
  Each of these steps keeps the table sound and its bindings apart:

      leaves a = leaves b  →  a = b

  So to unify bindings is to look up a set of leaves: whichever bindings it is
  put together from, in whichever order and however much later, it answers with
  the same binding.

    • `TableOp`, `Built` — the steps, and what they build;
    • `Interned` — bindings with the same leaves are the same (`Interned.apply`
      for a step, `Built.interned` for a table that was built);
    • `interned_by_leaves` — leaves, aliases and unification in a built table.
-/
import PatternIR.Proofs.Symbols.Worklists

namespace PatternIR

/-! ## §1. Histories of a table. -/

/-- A change of the table. -/
inductive TableOp where
  | addVar (name : String) (ty : Ty) (owner : Option String) (synthetic : Bool)
  | addBinding (name : String) (ty : Ty) (owner : Option String)
  | merge (a b : BindingId)
  | preserve (b : BindingId)

/-- The table after a change. -/
def TableOp.apply (s : Symbols) : TableOp → Symbols
  | .addVar name ty owner synthetic => (s.addVar name ty owner synthetic).2
  | .addBinding name ty owner => (s.addBinding name ty owner).2
  | .merge a b => ((s.merge? a b).map Prod.snd).getD s
  | .preserve b => s.preserve b

namespace Symbols

variable {s t u : Symbols} {a b m x leaf : BindingId}

/-- What holds of a table, and of one in which two bindings have been unified, holds
whether they can be unified or not. -/
theorem apply_merge {P : Symbols → Prop} (hs : P s) (hm : ∀ {m t}, s.merge? a b = some (m, t) → P t) :
    P (TableOp.apply s (.merge a b)) := by
  show P (((s.merge? a b).map Prod.snd).getD s)
  cases hmerge : s.merge? a b with
  | none => exact hs
  | some mt => exact hm hmerge

/-- Each operation keeps the components of bindings in front of them. -/
theorem Ordered.apply (h : s.Ordered) : ∀ op : TableOp, (op.apply s).Ordered
  | .addVar _ _ _ _ => ⟨h.id, h.earlier⟩
  | .addBinding name ty owner => h.addBinding name ty owner
  | .preserve b => h.preserve b
  | .merge _ _ => apply_merge h h.merge

/-- Each keeps the table sound. -/
theorem Sound.apply (h : s.Sound) : ∀ op : TableOp, (op.apply s).Sound
  | .addVar name ty owner synthetic => h.addVar name ty owner synthetic
  | .addBinding name ty owner => h.addBinding name ty owner
  | .preserve b => h.preserve b
  | .merge _ _ => apply_merge h h.merge

/-- Each takes nothing out of the table. -/
theorem grows_apply (s : Symbols) : ∀ op : TableOp, s.Grows (op.apply s)
  | .addVar _ _ _ _ => ⟨Nat.le_refl _, fun h => ⟨_, h, id⟩⟩
  | .addBinding _ _ _ => .push s _
  | .preserve b => .preserve s b
  | .merge _ _ => apply_merge (.refl s) merge?_grows

/-- The table after changes one after the other. -/
def after (s : Symbols) (ops : List TableOp) : Symbols := ops.foldl TableOp.apply s

/-- Operations one after the other. -/
theorem after_append (s : Symbols) (ops more : List TableOp) :
    s.after (ops ++ more) = (s.after ops).after more :=
  List.foldl_append

/-- Several operations take nothing out. -/
theorem grows_after : ∀ (ops : List TableOp) (s : Symbols), s.Grows (s.after ops)
  | [], s => .refl s
  | op :: ops, s => (s.grows_apply op).trans (grows_after ops (op.apply s))

/-- What changes make of the empty table. -/
def Built (s : Symbols) : Prop := ∃ ops, s = Symbols.empty.after ops

/-- A table that is built on is built. -/
theorem Built.after (h : s.Built) (ops : List TableOp) : (s.after ops).Built := by
  obtain ⟨before, rfl⟩ := h
  exact ⟨before ++ ops, (after_append _ _ _).symm⟩

theorem Built.apply (h : s.Built) (op : TableOp) : (op.apply s).Built := h.after [op]

theorem Built.merge (h : s.Built) (hm : s.merge? a b = some (m, t)) : t.Built := by
  have hop : TableOp.apply s (.merge a b) = t := by
    show ((s.merge? a b).map Prod.snd).getD s = t
    rw [hm]
    rfl
  exact hop ▸ h.apply (.merge a b)

/-- What the empty table has and each change keeps, every table has that was built. -/
theorem Built.induction {P : Symbols → Prop} (hempty : P .empty)
    (happly : ∀ (s : Symbols) (op : TableOp), P s → P (op.apply s)) (h : s.Built) : P s := by
  obtain ⟨ops, rfl⟩ := h
  have hafter : ∀ (ops : List TableOp) (s : Symbols), P s → P (s.after ops) := by
    intro ops
    induction ops with
    | nil => exact fun _ hs => hs
    | cons op ops ih => exact fun s hs => ih (op.apply s) (happly s op hs)
  exact hafter ops .empty hempty

/-- Tables that are built are sound. -/
theorem Built.sound (h : s.Built) : s.Sound :=
  h.induction .empty fun _ op hs => hs.apply op

/-! ## §2. Bindings apart by their leaves. -/

/-- Bindings with the same leaves are the same. -/
def Interned (s : Symbols) : Prop :=
  ∀ ⦃a b⦄, s.Has a → s.Has b → (∀ leaf, leaf ∈ s.leaves a ↔ leaf ∈ s.leaves b) → a = b

namespace Interned

/-- A table with the same bindings and the same leaves. -/
theorem congr (h : s.Interned) (hhas : ∀ b, t.Has b → s.Has b)
    (hleaves : ∀ b, s.Has b → t.leaves b = s.leaves b) : t.Interned := by
  intro a b ha hb hab
  rw [hleaves a (hhas a ha), hleaves b (hhas b hb)] at hab
  exact h (hhas a ha) (hhas b hb) hab

/-- A new entry whose leaves no other has. -/
theorem push (h : s.Interned) (hs : s.Closed) {sym : BindingSymbol}
    (hnew : ∀ b, s.Has b → ¬ ∀ leaf,
      leaf ∈ ({ s with bindings := s.bindings.push sym } : Symbols).leaves ⟨s.bindings.size⟩
        ↔ leaf ∈ s.leaves b) :
    Interned { s with bindings := s.bindings.push sym } := by
  have hgrows := Grows.push s sym
  have hcases : ∀ {b : BindingId}, Has { s with bindings := s.bindings.push sym } b →
      s.Has b ∨ b = ⟨s.bindings.size⟩ := by
    intro b hb
    obtain ⟨i⟩ := b
    have hlt : i < s.bindings.size + 1 := by simpa [Has] using hb
    rcases Nat.lt_succ_iff_lt_or_eq.mp hlt with hi | hi
    · exact .inl hi
    · exact .inr (congrArg BindingId.mk hi)
  intro a b ha hb hab
  -- earlier bindings have the leaves they had; the new one is apart from them by `hnew`
  rcases hcases ha with ha | rfl <;> rcases hcases hb with hb | rfl
  · rw [hgrows.leaves_eq hs ha, hgrows.leaves_eq hs hb] at hab
    exact h ha hb hab
  · rw [hgrows.leaves_eq hs ha] at hab
    exact absurd (fun leaf => (hab leaf).symm) (hnew a ha)
  · rw [hgrows.leaves_eq hs hb] at hab
    exact absurd hab (hnew b hb)
  · rfl

/-- A new binding stands for itself alone, so nothing else has its leaves. -/
theorem addBinding (h : s.Interned) (hs : s.Closed) (name : String) (ty : Ty) (owner : Option String) :
    (s.addBinding name ty owner).2.Interned := by
  refine h.push hs ?_
  intro b hb hsame
  have hleaf : isLeaf (s.addBinding name ty owner).2 ⟨s.bindings.size⟩ = true :=
    isLeaf_iff.mpr ⟨_, by rw [Symbols.addBinding, binding?_push, if_pos rfl], rfl⟩
  -- the new pattern is its own leaf, and no leaf of an earlier binding
  have hmem := (hsame ⟨s.bindings.size⟩).mp (mem_leaves.mpr ⟨hleaf, .refl⟩)
  exact Nat.lt_irrefl _ (isLeaf_lt (isLeaf_of_mem_leaves hmem))

/-- A unification is found, or the only one with its leaves. -/
theorem merge (h : s.Interned) (hs : s.Ordered) (hm : s.merge? a b = some (m, t)) : t.Interned := by
  obtain ⟨ha, hb⟩ := merge?_has hm
  rcases merge?_answer hs hm with ⟨-, -, rfl⟩ | ⟨-, -, -, rfl⟩ | ⟨hna, hnb, hfirst⟩
  · exact h
  · exact h
  · rcases merge?_cases hm with ⟨rfl, -⟩ | ⟨first, second, -, -, rfl, rfl⟩
    · exact h
    · refine h.push hs.closed ?_
      intro x hx hsame
      have hboth : ∀ leaf, leaf ∈ s.leaves x ↔ leaf ∈ s.leavesOf [a, b] := fun leaf => by
        rw [← hsame, hfirst.leaves]
      have hleaves : s.leaves x = s.leavesOf [a, b] := by
        rw [leaves_eq_leavesOf] at hboth ⊢
        exact leavesOf_congr hboth
      obtain ⟨sym, hsym⟩ := has_iff.mp hx
      cases hmerged : sym.isMerged with
      | true =>
          -- the first unified binding with these leaves is the new one, behind `x`
          have hgrows := merge?_grows hm
          obtain ⟨flag, hflag, -⟩ := hgrows.entry hsym
          have hle := hfirst.first hflag hmerged (by rw [hgrows.leaves_eq hs.closed hx, hleaves])
          exact absurd hx (Nat.not_lt.mpr hle)
      | false =>
          -- a single leaf is not put together from two bindings but by both of them
          have hleaf : s.isLeaf x = true := by simp [isLeaf, hsym, hmerged]
          rw [leaves_of_isLeaf hleaf] at hleaves
          obtain ⟨leaf, hmem⟩ := hs.exists_leaf ha
          have hsingle : ∀ y ∈ s.leaves a, y = x := fun y hy => by
            have hy' := mem_leavesOf_pair.mpr (.inl hy : y ∈ s.leaves a ∨ y ∈ s.leaves b)
            rw [← hleaves] at hy'
            exact List.mem_singleton.mp hy'
          have hx' : x ∈ s.leaves a := hsingle leaf hmem ▸ hmem
          refine hna ?_
          rw [leaves_eq_leavesOf]
          refine leavesOf_congr fun y => ?_
          rw [← hleaves, ← leaves_eq_leavesOf, List.mem_singleton]
          exact ⟨fun hy => hy ▸ hx', hsingle y⟩

/-- **A step** keeps the bindings of a table apart. -/
theorem apply (h : s.Interned) (hs : s.Ordered) : ∀ op : TableOp, (op.apply s).Interned
  | .addVar _ _ _ _ => h
  | .addBinding name ty owner => h.addBinding hs.closed name ty owner
  | .preserve b => h.congr (fun _ hb => has_preserve.mp hb)
      fun _ hb => (Grows.preserve s b).leaves_eq hs.closed hb
  | .merge _ _ => apply_merge h (h.merge hs)

end Interned

/-- **A table that was built** has no two bindings with the same leaves. -/
theorem Built.interned (h : s.Built) : s.Interned := by
  have hempty : Symbols.empty.Interned := fun a _ ha => absurd ha (Nat.not_lt_zero a.index)
  have hboth : s.Sound ∧ s.Interned := h.induction (P := fun s => s.Sound ∧ s.Interned) ⟨.empty, hempty⟩
    fun _ op hs => ⟨hs.1.apply op, hs.2.apply hs.1.ordered op⟩
  exact hboth.2

/-! ## §3. Unification looks leaves up. -/

/-- Two bindings of a table in order are aliases if they share a leaf: every
binding shares one with itself. -/
theorem Ordered.isAliasFor_iff (h : s.Ordered) (ha : s.Has a) :
    s.isAliasFor a b = true ↔ ∃ leaf ∈ s.leaves a, leaf ∈ s.leaves b := by
  rw [Symbols.isAliasFor_iff]
  constructor
  · rintro (rfl | hshared)
    · obtain ⟨leaf, hleaf⟩ := h.exists_leaf ha
      exact ⟨leaf, hleaf, hleaf⟩
    · exact hshared
  · exact .inr

/-- A unification adds one entry at most. -/
theorem merge?_adds (h : s.merge? a b = some (m, t)) :
    t = s ∨ ∃ sym, t = { s with bindings := s.bindings.push sym } := by
  rcases merge?_cases h with ⟨rfl, -⟩ | ⟨_, _, -, -, -, rfl⟩
  · exact .inl rfl
  · exact .inr ⟨_, rfl⟩

/-- Of a binding that has the leaves of two, every later unification of those
leaves finds it. -/
theorem Built.merge?_same (hs : s.Built) (hm : s.Has m) {c d n : BindingId} {v : Symbols}
    (hn : s.merge? c d = some (n, v))
    (hsame : ∀ leaf, leaf ∈ s.leaves m ↔ leaf ∈ s.leaves c ∨ leaf ∈ s.leaves d) : n = m := by
  have hordered := hs.sound.ordered
  have hgrows := merge?_grows hn
  refine (hs.merge hn).interned (hordered.has_merge hn) (hgrows.has hm) fun leaf => ?_
  rw [hordered.closed.mem_leaves_merge hn, hgrows.mem_leaves hordered.closed hm, hsame]

/-- **Unified bindings are known by their leaves.**  In a table that was built,
the leaves of any binding are listed by a loop that ends, in increasing order,
each once and each an unmerged binding of the table; no two bindings have the
same leaves; bindings are aliases just if they share a leaf.  Two bindings are
unified by one with the leaves of both, with one new entry at most; and with
whatever is unified later, if it has these leaves together, the answer is the
same. -/
theorem interned_by_leaves (h : s.Built) :
    (∀ id, (∀ ids, s.LeavesLoop id ids ↔ ids = s.leaves id)
      ∧ ((s.leaves id).Pairwise fun x y => x.index < y.index)
      ∧ ∀ leaf ∈ s.leaves id, s.isLeaf leaf = true)
    ∧ (∀ a b, s.Has a → s.Has b → (∀ leaf, leaf ∈ s.leaves a ↔ leaf ∈ s.leaves b) → a = b)
    ∧ (∀ a b, s.Has a → s.Has b →
        (s.isAliasFor a b = true ↔ ∃ leaf ∈ s.leaves a, leaf ∈ s.leaves b))
    ∧ ∀ a b, s.Has a → s.Has b → ∃ m t, s.merge? a b = some (m, t)
        ∧ t.Has m
        ∧ (∀ leaf, leaf ∈ t.leaves m ↔ leaf ∈ s.leaves a ∨ leaf ∈ s.leaves b)
        ∧ (t = s ∨ ∃ sym, t = { s with bindings := s.bindings.push sym })
        ∧ ∀ ops c d n v, (t.after ops).merge? c d = some (n, v) →
            (∀ leaf, (leaf ∈ (t.after ops).leaves c ∨ leaf ∈ (t.after ops).leaves d)
              ↔ leaf ∈ s.leaves a ∨ leaf ∈ s.leaves b) →
            n = m := by
  have hordered := h.sound.ordered
  refine ⟨fun id => ⟨fun _ => leavesLoop_iff hordered.acyclic, s.leaves_increasing id, fun _ => isLeaf_of_mem_leaves⟩,
    fun a b ha hb => h.interned ha hb, fun a b ha _ => hordered.isAliasFor_iff ha, ?_⟩
  intro a b ha hb
  obtain ⟨m, t, hm⟩ := merge?_isSome ha hb
  have hmem : ∀ leaf, leaf ∈ t.leaves m ↔ leaf ∈ s.leaves a ∨ leaf ∈ s.leaves b :=
    fun _ => hordered.closed.mem_leaves_merge hm
  have hhas := hordered.has_merge hm
  have hclosed := (hordered.merge hm).closed
  refine ⟨m, t, hm, hhas, hmem, merge?_adds hm, ?_⟩
  intro ops c d n v hn hsame
  have hlater := grows_after ops t
  refine ((h.merge hm).after ops).merge?_same (hlater.has hhas) hn fun leaf => ?_
  rw [hlater.mem_leaves hclosed hhas, hmem, hsame]

/-- Three patterns of one name, the first two of them unified. -/
def firstTwo : Symbols :=
  Symbols.empty.after [.addBinding "x" (.named "Object" []) none,
    .addBinding "x" (.named "Object" []) none, .addBinding "x" (.named "Object" []) none,
    .merge ⟨0⟩ ⟨1⟩]

/-- The last two of them unified as well, after all three. -/
def lastTwo : Symbols :=
  (TableOp.apply firstTwo (.merge ⟨3⟩ ⟨2⟩)).after [.preserve ⟨0⟩, .merge ⟨1⟩ ⟨2⟩]

/-- The first two with the last, and the first with the last two. -/
theorem interned_by_leaves_grouped : firstTwo.Built
    ∧ (∃ t, firstTwo.merge? ⟨3⟩ ⟨2⟩ = some (⟨4⟩, t))
    ∧ ∃ v, lastTwo.merge? ⟨0⟩ ⟨5⟩ = some (⟨4⟩, v) := by
  have hbuilt : firstTwo.Built := ⟨_, rfl⟩
  obtain ⟨m, t, hm, -, -, -, hlater⟩ := (interned_by_leaves hbuilt).2.2.2 ⟨3⟩ ⟨2⟩ (by decide) (by decide)
  obtain rfl : m = ⟨4⟩ := by
    have hfirst : (firstTwo.merge? ⟨3⟩ ⟨2⟩).map Prod.fst = some ⟨4⟩ := by decide
    simpa [hm] using hfirst
  obtain rfl : t = TableOp.apply firstTwo (.merge ⟨3⟩ ⟨2⟩) := by simp [TableOp.apply, hm]
  obtain ⟨n, v, hn⟩ : ∃ n v, lastTwo.merge? ⟨0⟩ ⟨5⟩ = some (n, v) :=
    merge?_isSome (by decide) (by decide)
  have hsame : ∀ leaf, (leaf ∈ lastTwo.leaves ⟨0⟩ ∨ leaf ∈ lastTwo.leaves ⟨5⟩)
      ↔ leaf ∈ firstTwo.leaves ⟨3⟩ ∨ leaf ∈ firstTwo.leaves ⟨2⟩ := by
    have hone : lastTwo.leaves ⟨0⟩ = [⟨0⟩] := by decide
    have htwo : lastTwo.leaves ⟨5⟩ = [⟨1⟩, ⟨2⟩] := by decide
    have hthree : firstTwo.leaves ⟨3⟩ = [⟨0⟩, ⟨1⟩] := by decide
    have hfour : firstTwo.leaves ⟨2⟩ = [⟨2⟩] := by decide
    intro leaf
    rw [hone, htwo, hthree, hfour]
    simp [or_assoc]
  obtain rfl := hlater _ ⟨0⟩ ⟨5⟩ n v hn hsame
  exact ⟨hbuilt, ⟨_, hm⟩, v, hn⟩

end Symbols

end PatternIR
