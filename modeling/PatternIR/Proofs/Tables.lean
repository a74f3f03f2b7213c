/-
  PatternIR.Proofs.Tables
  ───────────────────────
  **TABLES IN ORDER, and unified bindings in them.**

  A table is closed if what an entry unifies is in it.  Then the leaves of a
  binding do not change any more when the table grows, and those of a unified
  binding are the leaves of the two together.

  A table is in order if each entry carries its place and unifies earlier
  entries only.  Then also

    • every binding has a leaf;
    • two bindings that were unified once have the same unified binding ever after.

  If a unified entry is also named and typed like the first of what it unifies,
  a binding has a leaf with its name and its type.  Adding, unifying and marking
  bindings keep both: `Symbols.Sound`.
-/
import PatternIR.Proofs.Leaves

namespace PatternIR

namespace Symbols

/-! ## §1. Order. -/

/-- Every entry carries its place, and unifies earlier entries only. -/
structure Ordered (s : Symbols) : Prop where
  id : ∀ {b : BindingId} {sym : BindingSymbol}, s.binding? b = some sym → sym.id = b
  earlier : ∀ {b c : BindingId}, c ∈ s.parts b → c.index < b.index

/-- An entry is named and typed like the first of what it unifies. -/
structure Named (s : Symbols) : Prop where
  first : ∀ {b c : BindingId} {cs : List BindingId} {sym : BindingSymbol},
    s.binding? b = some sym → sym.components = c :: cs →
      ∃ part, s.binding? c = some part ∧ part.name = sym.name ∧ part.ty = sym.ty

/-- Whether the table has an entry for a binding. -/
def Has (s : Symbols) (b : BindingId) : Prop := b.index < s.bindings.size

instance (s : Symbols) (b : BindingId) : Decidable (s.Has b) :=
  inferInstanceAs (Decidable (b.index < s.bindings.size))

variable {s t u : Symbols} {a b m leaf : BindingId}

/-- A binding is in the table if it is found there. -/
theorem has_iff : s.Has b ↔ ∃ sym, s.binding? b = some sym := by
  constructor
  · intro h
    exact ⟨s.bindings[b.index], Array.getElem?_eq_getElem h⟩
  · rintro ⟨sym, h⟩
    exact binding?_eq_some_lt h

theorem Has.of_isLeaf (h : s.isLeaf b = true) : s.Has b := isLeaf_lt h

theorem Grows.has (h : s.Grows t) (hb : s.Has b) : t.Has b := Nat.lt_of_lt_of_le hb h.size_le

/-- Only a binding of the table unifies others. -/
theorem has_of_mem_parts (h : a ∈ s.parts b) : s.Has b := by
  refine Nat.lt_of_not_le fun hle => ?_
  rw [parts_of_le hle] at h
  exact absurd h List.not_mem_nil

/-- What an entry unifies is in the table. -/
def Closed (s : Symbols) : Prop := ∀ ⦃b c : BindingId⦄, c ∈ s.parts b → s.Has c

/-- A binding of the table leads to bindings of the table. -/
theorem Closed.has_of_reaches (h : s.Closed) (ha : s.Has a) (hab : Reaches s.parts a b) : s.Has b := by
  rcases Relation.ReflTransGen.cases_tail hab with rfl | ⟨x, -, hx⟩
  · exact ha
  · exact h hx

namespace Ordered

/-- A table in which components stand in front is closed. -/
theorem closed (h : s.Ordered) : s.Closed := fun _ _ hc =>
  Nat.lt_trans (h.earlier hc) (has_of_mem_parts hc)

/-- Every binding of the table has a leaf. -/
theorem exists_leaf (h : s.Ordered) (hb : s.Has b) : ∃ leaf, leaf ∈ s.leaves b := by
  obtain ⟨i⟩ := b
  induction i using Nat.strongRecOn with
  | ind i ih =>
      obtain ⟨sym, hsym⟩ := has_iff.mp hb
      cases hc : sym.components with
      | nil =>
          exact ⟨⟨i⟩, mem_leaves.mpr ⟨isLeaf_iff.mpr ⟨sym, hsym, hc⟩, .refl⟩⟩
      | cons c cs =>
          have hpart : c ∈ s.parts ⟨i⟩ := by
            rw [parts_of_some hsym, hc]
            exact List.mem_cons_self
          have hlt : c.index < i := h.earlier hpart
          obtain ⟨leaf, hleaf⟩ := ih c.index hlt (Nat.lt_trans hlt hb)
          obtain ⟨h₁, h₂⟩ := mem_leaves.mp hleaf
          exact ⟨leaf, mem_leaves.mpr ⟨h₁, .head hpart h₂⟩⟩

end Ordered

/-! ## §2. Growing. -/

namespace Grows

/-- An old binding keeps its parts. -/
theorem parts_eq (h : s.Grows t) (hb : s.Has b) : t.parts b = s.parts b := by
  obtain ⟨sym, hsym⟩ := has_iff.mp hb
  obtain ⟨flag, hflag, -⟩ := h.entry hsym
  rw [parts_of_some hsym, parts_of_some hflag]

/-- An old binding stays a leaf or stays none. -/
theorem isLeaf_eq (h : s.Grows t) (hb : s.Has b) : t.isLeaf b = s.isLeaf b := by
  obtain ⟨sym, hsym⟩ := has_iff.mp hb
  obtain ⟨flag, hflag, -⟩ := h.entry hsym
  simp [Symbols.isLeaf, hsym, hflag, BindingSymbol.isMerged]

/-- From a binding of the smaller table, the larger one leads no further. -/
theorem reaches (h : s.Grows t) (hs : s.Closed) (ha : s.Has a) (hab : Reaches t.parts a b) :
    Reaches s.parts a b := by
  induction hab with
  | refl => exact .refl
  | @tail x y _ hxy ih =>
      rw [h.parts_eq (hs.has_of_reaches ha ih)] at hxy
      exact ih.tail hxy

/-- The leaves of a binding of the smaller table stay the same. -/
theorem mem_leaves (h : s.Grows t) (hs : s.Closed) (hb : s.Has b) :
    leaf ∈ t.leaves b ↔ leaf ∈ s.leaves b := by
  constructor
  · intro hleaf
    obtain ⟨h₁, h₂⟩ := Symbols.mem_leaves.mp hleaf
    have hreach := h.reaches hs hb h₂
    rw [h.isLeaf_eq (hs.has_of_reaches hb hreach)] at h₁
    exact Symbols.mem_leaves.mpr ⟨h₁, hreach⟩
  · exact h.leaves

/-- A binding keeps its name and its type. -/
theorem named (h : s.Grows t) {sym : BindingSymbol} (hb : s.binding? b = some sym) :
    ∃ sym', t.binding? b = some sym' ∧ sym'.name = sym.name ∧ sym'.ty = sym.ty := by
  obtain ⟨flag, hflag, -⟩ := h.entry hb
  exact ⟨_, hflag, rfl, rfl⟩

end Grows

/-! ## §3. Leaves as lists. -/

theorem nodup_bindingIds (s : Symbols) : s.bindingIds.Nodup := by
  refine List.Pairwise.map BindingId.mk ?_ List.nodup_range
  intro i j hne h
  injection h with h
  exact hne h

/-- Leaves are listed once each. -/
theorem nodup_leavesOf (s : Symbols) (ids : List BindingId) : (s.leavesOf ids).Nodup :=
  s.nodup_bindingIds.filter _

theorem leaves_eq_leavesOf (s : Symbols) (b : BindingId) : s.leaves b = s.leavesOf [b] := by
  unfold leaves
  split
  next h =>
    have hmem : ∀ x, x ∈ s.leavesOf [b] ↔ x ∈ [b] := by
      intro x
      have hx : x ∈ s.leaves b ↔ x ∈ [b] := by rw [leaves_of_isLeaf h]
      rw [← hx, mem_leaves, mem_leavesOf]
      simp
    have hperm := (List.perm_ext_iff_of_nodup (s.nodup_leavesOf [b]) (by simp)).mpr hmem
    exact (List.perm_singleton.mp hperm).symm
  next => rfl

/-- The leaves are listed in one way only. -/
theorem leavesOf_congr {xs ys : List BindingId}
    (h : ∀ leaf, leaf ∈ s.leavesOf xs ↔ leaf ∈ s.leavesOf ys) : s.leavesOf xs = s.leavesOf ys := by
  unfold leavesOf at h ⊢
  refine List.filter_congr ?_
  intro x hx
  have hiff := h x
  simp only [List.mem_filter, hx, true_and] at hiff
  exact Bool.eq_iff_iff.mpr hiff

/-- The leaves of two are those of either. -/
theorem mem_leavesOf_pair : leaf ∈ s.leavesOf [a, b] ↔ leaf ∈ s.leaves a ∨ leaf ∈ s.leaves b := by
  simp [mem_leavesOf, mem_leaves, and_or_left]

namespace Grows

/-- Growth adds ids behind the old ones. -/
theorem bindingIds (h : s.Grows t) : ∃ more, t.bindingIds = s.bindingIds ++ more
    ∧ ∀ b ∈ more, ¬ s.Has b := by
  obtain ⟨k, hk⟩ := Nat.exists_eq_add_of_le h.size_le
  refine ⟨((List.range k).map (s.bindings.size + ·)).map BindingId.mk, ?_, ?_⟩
  · rw [Symbols.bindingIds, hk, List.range_add, List.map_append]
    rfl
  · intro b hb
    obtain ⟨i, hi, rfl⟩ := List.mem_map.mp hb
    obtain ⟨j, -, rfl⟩ := List.mem_map.mp hi
    exact Nat.not_lt.mpr (Nat.le_add_right _ _)

/-- The leaves of old bindings stay the same ones, in the same order. -/
theorem leavesOf (h : s.Grows t) (hs : s.Closed) {ids : List BindingId}
    (hids : ∀ b ∈ ids, s.Has b) : t.leavesOf ids = s.leavesOf ids := by
  have hmem : ∀ leaf, leaf ∈ t.leavesOf ids ↔ leaf ∈ s.leavesOf ids := by
    intro leaf
    rw [mem_leavesOf, mem_leavesOf]
    constructor
    · rintro ⟨hleaf, x, hx, hreach⟩
      have hreach := h.reaches hs (hids x hx) hreach
      rw [h.isLeaf_eq (hs.has_of_reaches (hids x hx) hreach)] at hleaf
      exact ⟨hleaf, x, hx, hreach⟩
    · rintro ⟨hleaf, x, hx, hreach⟩
      exact ⟨h.isLeaf hleaf, x, hx, hreach.mono fun _ _ => h.parts⟩
  obtain ⟨more, hmore, hnew⟩ := h.bindingIds
  unfold Symbols.leavesOf at hmem ⊢
  rw [hmore, List.filter_append]
  have hnil : more.filter (fun leaf => Marks.has (t.closure ids) leaf && t.isLeaf leaf) = [] := by
    refine List.filter_eq_nil_iff.mpr ?_
    intro x hx hp
    have hin := (hmem x).mp (List.mem_filter.mpr
      ⟨by rw [hmore]; exact List.mem_append_right _ hx, hp⟩)
    exact hnew x hx (mem_bindingIds.mp (List.mem_filter.mp hin).1)
  rw [hnil, List.append_nil]
  refine List.filter_congr ?_
  intro x hx
  have hx' : x ∈ t.bindingIds := by
    rw [hmore]
    exact List.mem_append_left _ hx
  have hiff := hmem x
  simp only [List.mem_filter, hx, hx', true_and] at hiff
  exact Bool.eq_iff_iff.mpr hiff

/-- So do those of each. -/
theorem leaves_eq (h : s.Grows t) (hs : s.Closed) (hb : s.Has b) : t.leaves b = s.leaves b := by
  rw [leaves_eq_leavesOf, leaves_eq_leavesOf]
  exact h.leavesOf hs (by simpa using hb)

end Grows

/-- A binding with a leaf is in the table. -/
theorem has_of_mem_leaves (h : leaf ∈ s.leaves b) : s.Has b := by
  obtain ⟨hleaf, hreach⟩ := mem_leaves.mp h
  rcases hreach.cases_head with rfl | ⟨c, hc, -⟩
  · exact isLeaf_lt hleaf
  · exact has_of_mem_parts hc

/-- A binding that is not in the later table either has the same leaves there. -/
theorem Grows.leaves_of_old (h : s.Grows t) (hs : s.Closed) (hb : t.Has b → s.Has b) :
    t.leaves b = s.leaves b := by
  by_cases hhas : s.Has b
  · exact h.leaves_eq hs hhas
  · have hnone : ∀ {u : Symbols}, ¬ u.Has b → u.leaves b = [] := fun hu =>
      List.eq_nil_iff_forall_not_mem.mpr fun _ hleaf => hu (has_of_mem_leaves hleaf)
    rw [hnone hhas, hnone (mt hb hhas)]

/-! ## §4. Unified bindings. -/

/-- Only bindings of the table are unified. -/
theorem merge?_has (h : s.merge? a b = some (m, t)) : s.Has a ∧ s.Has b := by
  obtain ⟨first, second, ha, hb, -⟩ := merge?_unifies h
  exact ⟨binding?_eq_some_lt ha, binding?_eq_some_lt hb⟩

/-- Two bindings of the table can be unified. -/
theorem merge?_isSome (ha : s.Has a) (hb : s.Has b) : ∃ m t, s.merge? a b = some (m, t) := by
  obtain ⟨first, hfirst⟩ := has_iff.mp ha
  obtain ⟨second, hsecond⟩ := has_iff.mp hb
  unfold merge?
  rw [hfirst, hsecond]
  simp only
  split
  · exact ⟨_, _, rfl⟩
  · split
    · exact ⟨_, _, rfl⟩
    · split
      · exact ⟨_, _, rfl⟩
      · exact ⟨_, _, rfl⟩

theorem binding?_push {sym : BindingSymbol} :
    ({ s with bindings := s.bindings.push sym } : Symbols).binding? b
      = if b.index = s.bindings.size then some sym else s.binding? b := by
  simp only [binding?, Array.getElem?_push]

namespace Closed

/-- A new entry whose components are in the table keeps it closed. -/
theorem push (h : s.Closed) {sym : BindingSymbol} (hparts : ∀ c ∈ sym.components, s.Has c) :
    Closed { s with bindings := s.bindings.push sym } := by
  intro x c hc
  have hold : s.Has c := by
    unfold parts at hc
    rw [binding?_push] at hc
    split at hc
    next => exact hparts c hc
    next => exact h hc
  exact (Grows.push s sym).has hold

/-- Unifying two bindings of a table adds no other bindings to what is in it. -/
theorem merge (h : s.Closed) (hm : s.merge? a b = some (m, t)) : t.Closed := by
  obtain ⟨ha, hb⟩ := merge?_has hm
  rcases merge?_cases hm with ⟨rfl, -⟩ | ⟨_, _, -, -, -, rfl⟩
  · exact h
  · exact h.push (by simp [ha, hb])

/-- **The leaves of a unified binding** are those of the two it unifies. -/
theorem mem_leaves_merge (h : s.Closed) (hm : s.merge? a b = some (m, t)) :
    leaf ∈ t.leaves m ↔ leaf ∈ s.leaves a ∨ leaf ∈ s.leaves b := by
  refine ⟨?_, Symbols.mem_leaves_merge hm⟩
  obtain ⟨ha, hb⟩ := merge?_has hm
  have hgrows := merge?_grows hm
  rcases merge?_cases hm with ⟨rfl, hboth⟩ | ⟨first, second, -, -, rfl, rfl⟩
  · rw [hboth]
    exact mem_leavesOf_pair.mp
  · intro hleaf
    obtain ⟨hl, hreach⟩ := mem_leaves.mp hleaf
    rcases hreach.cases_head with rfl | ⟨c, hc, hreach⟩
    · -- the new binding is no leaf itself
      simp [isLeaf, binding?_push, BindingSymbol.isMerged] at hl
    · simp only [parts, binding?_push, if_true, Option.map_some, Option.getD_some,
        unifiedEntry_components, List.mem_cons, List.not_mem_nil, or_false] at hc
      rcases hc with rfl | rfl
      · exact .inl ((hgrows.mem_leaves h ha).mp (mem_leaves.mpr ⟨hl, hreach⟩))
      · exact .inr ((hgrows.mem_leaves h hb).mp (mem_leaves.mpr ⟨hl, hreach⟩))

end Closed

namespace Ordered

/-- An entry that unifies earlier ones keeps the table in order. -/
theorem push (h : s.Ordered) {sym : BindingSymbol} (hid : sym.id = ⟨s.bindings.size⟩)
    (hparts : ∀ c ∈ sym.components, s.Has c) :
    Ordered { s with bindings := s.bindings.push sym } := by
  constructor
  · intro x y hy
    rw [binding?_push] at hy
    split at hy
    next hx =>
      injection hy with hy
      subst hy
      rw [hid, ← hx]
    next => exact h.id hy
  · intro x c hc
    unfold parts at hc
    rw [binding?_push] at hc
    split at hc
    next hx =>
      rw [hx]
      exact hparts c hc
    next => exact h.earlier hc

/-- A new binding has no components. -/
theorem addBinding (h : s.Ordered) (name : String) (ty : Ty) (owner : Option String) :
    (s.addBinding name ty owner).2.Ordered :=
  h.push rfl fun _ hc => absurd hc List.not_mem_nil

/-- A unification has older components. -/
theorem merge (h : s.Ordered) (hm : s.merge? a b = some (m, t)) : t.Ordered := by
  obtain ⟨ha, hb⟩ := merge?_has hm
  rcases merge?_cases hm with ⟨rfl, -⟩ | ⟨_, _, -, -, -, rfl⟩
  · exact h
  · exact h.push rfl (by simp [ha, hb])

/-- What stands for both is in the table. -/
theorem has_merge (h : s.Ordered) (hm : s.merge? a b = some (m, t)) : t.Has m := by
  obtain ⟨leaf, hleaf⟩ := h.exists_leaf (merge?_has hm).1
  exact has_of_mem_leaves ((h.closed.mem_leaves_merge hm).mpr (.inl hleaf))

end Ordered

/-! ## §5. Unified bindings are found again. -/

/-- The first unified binding of the table with the given leaves. -/
structure FirstWith (s : Symbols) (both : List BindingId) (m : BindingId) : Prop where
  merged : ∃ sym, s.binding? m = some sym ∧ sym.isMerged = true
  leaves : s.leaves m = both
  first : ∀ {b : BindingId} {sym : BindingSymbol}, s.binding? b = some sym →
    sym.isMerged = true → s.leaves b = both → m.index ≤ b.index

/-- What is found for a set of leaves is the first with these leaves. -/
theorem find?_eq_some (h : s.Ordered) {both : List BindingId} {found : BindingSymbol}
    (hfind : s.bindings.find? (fun m => m.isMerged && decide (s.leaves m.id = both)) = some found) :
    s.FirstWith both found.id := by
  obtain ⟨hp, i, hi, hget, hfirst⟩ := Array.find?_eq_some_iff_getElem.mp hfind
  simp only [Bool.and_eq_true, decide_eq_true_eq] at hp
  have hsym : s.binding? ⟨i⟩ = some found := by
    rw [binding?, Array.getElem?_eq_getElem hi, hget]
  have hid : found.id = ⟨i⟩ := h.id hsym
  rw [hid] at hp ⊢
  refine ⟨⟨found, hsym, hp.1⟩, hp.2, ?_⟩
  intro b sym hb hmerged hleaves
  refine Nat.le_of_not_lt ?_
  intro hlt
  have hj := hfirst b.index hlt
  have hbound : b.index < s.bindings.size := Nat.lt_trans hlt hi
  have hbget : s.bindings[b.index] = sym := by
    have hat := hb
    rw [binding?, Array.getElem?_eq_getElem hbound] at hat
    exact Option.some.inj hat
  rw [hbget, hmerged, h.id hb, hleaves] at hj
  exact absurd hj (by simp)

/-- The first with these leaves is found. -/
theorem FirstWith.find? (h : s.Ordered) {both : List BindingId} (hm : s.FirstWith both m) :
    ∃ found, s.bindings.find? (fun m => m.isMerged && decide (s.leaves m.id = both)) = some found
      ∧ found.id = m := by
  obtain ⟨sym, hsym, hmerged⟩ := hm.merged
  have hlt : m.index < s.bindings.size := binding?_eq_some_lt hsym
  have hget : s.bindings[m.index] = sym := by
    rw [binding?, Array.getElem?_eq_getElem hlt] at hsym
    exact Option.some.inj hsym
  refine ⟨sym, Array.find?_eq_some_iff_getElem.mpr ⟨?_, m.index, hlt, hget, ?_⟩, h.id hsym⟩
  · rw [hmerged, h.id hsym, hm.leaves]
    simp
  · intro j hj
    have hb : s.binding? ⟨j⟩ = some s.bindings[j] :=
      Array.getElem?_eq_getElem (Nat.lt_trans hj hlt)
    rw [h.id hb]
    cases hp : s.bindings[j].isMerged with
    | false => rfl
    | true =>
        have hne : s.leaves ⟨j⟩ ≠ both := by
          intro heq
          have := hm.first hb hp heq
          exact absurd hj (Nat.not_lt.mpr this)
        simp [hne]

/-- It stays the first as the table grows. -/
theorem FirstWith.grows (hs : s.Ordered) {both : List BindingId} (hm : s.FirstWith both m)
    (h : s.Grows t) : t.FirstWith both m := by
  obtain ⟨sym, hsym, hmerged⟩ := hm.merged
  have hhas : s.Has m := binding?_eq_some_lt hsym
  refine ⟨?_, by rw [h.leaves_eq hs.closed hhas, hm.leaves], ?_⟩
  · obtain ⟨flag, hflag, -⟩ := h.entry hsym
    exact ⟨_, hflag, hmerged⟩
  · intro b symb hb hmergedb hleaves
    by_cases hbs : s.Has b
    · obtain ⟨old, hold⟩ := has_iff.mp hbs
      obtain ⟨flag, hflag, -⟩ := h.entry hold
      rw [hb] at hflag
      injection hflag with hflag
      subst hflag
      rw [h.leaves_eq hs.closed hbs] at hleaves
      exact hm.first hold hmergedb hleaves
    · exact Nat.le_of_lt (Nat.lt_of_lt_of_le hhas (Nat.le_of_not_lt hbs))

/-- Where no unified binding has these leaves, one added for them is the first. -/
theorem firstWith_push (hs : s.Ordered) {both : List BindingId} {sym : BindingSymbol}
    (hfind : s.bindings.find? (fun m => m.isMerged && decide (s.leaves m.id = both)) = none)
    (hmerged : sym.isMerged = true) (hgrows : s.Grows { s with bindings := s.bindings.push sym })
    (hleaves : Symbols.leaves { s with bindings := s.bindings.push sym } ⟨s.bindings.size⟩ = both) :
    FirstWith { s with bindings := s.bindings.push sym } both ⟨s.bindings.size⟩ := by
  refine ⟨⟨sym, by rw [binding?_push, if_pos rfl], hmerged⟩, hleaves, ?_⟩
  intro x old hx hold hxleaves
  refine Nat.le_of_not_lt ?_
  -- an older one would have been found
  intro hlt
  have hne : x.index ≠ s.bindings.size := Nat.ne_of_lt hlt
  rw [binding?_push, if_neg hne] at hx
  rw [hgrows.leaves_eq hs.closed hlt] at hxleaves
  have hget : s.bindings[x.index] = old := by
    have hat := hx
    rw [binding?, Array.getElem?_eq_getElem hlt] at hat
    exact Option.some.inj hat
  have hnot := Array.find?_eq_none.mp hfind old (hget ▸ Array.getElem_mem hlt)
  rw [hold, hs.id hx, hxleaves] at hnot
  exact hnot (by simp)

/-- What is unified has the leaves of both afterwards. -/
theorem leaves_merge (hs : s.Ordered) (hm : s.merge? a b = some (m, t)) :
    t.leaves m = s.leavesOf [a, b] := by
  obtain ⟨ha, hb⟩ := merge?_has hm
  have hgrows := merge?_grows hm
  have hids : ∀ b' ∈ [a, b], s.Has b' := by simp [ha, hb]
  rw [leaves_eq_leavesOf, ← hgrows.leavesOf hs.closed hids]
  refine leavesOf_congr ?_
  intro leaf
  rw [← leaves_eq_leavesOf, hs.closed.mem_leaves_merge hm, mem_leavesOf_pair,
    hgrows.mem_leaves hs.closed ha, hgrows.mem_leaves hs.closed hb]

/-- A unification answers with one of the two, if that has all leaves already,
and else with the first unified binding that has them, in the table it leaves. -/
theorem merge?_answer (hs : s.Ordered) (hm : s.merge? a b = some (m, t)) :
    (s.leavesOf [a, b] = s.leaves a ∧ m = a ∧ t = s)
      ∨ (s.leavesOf [a, b] ≠ s.leaves a ∧ s.leavesOf [a, b] = s.leaves b ∧ m = b ∧ t = s)
      ∨ (s.leavesOf [a, b] ≠ s.leaves a ∧ s.leavesOf [a, b] ≠ s.leaves b
        ∧ t.FirstWith (s.leavesOf [a, b]) m) := by
  have hleaves := leaves_merge hs hm
  have hgrows := merge?_grows hm
  obtain ⟨first, second, -, -, hunifies⟩ := merge?_unifies hm
  cases hunifies with
  | left hboth => exact .inl ⟨hboth, rfl, rfl⟩
  | right hna hboth => exact .inr (.inl ⟨hna, hboth, rfl, rfl⟩)
  | found hna hnb hfind => exact .inr (.inr ⟨hna, hnb, find?_eq_some hs hfind⟩)
  | added hna hnb hfind => exact .inr (.inr ⟨hna, hnb, firstWith_push hs hfind rfl hgrows hleaves⟩)

/-- **Unifying again** two bindings that were unified once answers the same and
adds nothing. -/
theorem merge?_stable (hs : s.Ordered) (hm : s.merge? a b = some (m, t)) (htu : t.Grows u)
    (hu : u.Ordered) : u.merge? a b = some (m, u) := by
  obtain ⟨ha, hb⟩ := merge?_has hm
  have hsu := (merge?_grows hm).trans htu
  obtain ⟨first, hfirst⟩ := has_iff.mp (hsu.has ha)
  obtain ⟨second, hsecond⟩ := has_iff.mp (hsu.has hb)
  have hboth : u.leavesOf [a, b] = s.leavesOf [a, b] := hsu.leavesOf hs.closed (by simp [ha, hb])
  have hla := hsu.leaves_eq hs.closed ha
  have hlb := hsu.leaves_eq hs.closed hb
  unfold merge?
  simp only [hfirst, hsecond, hboth, hla, hlb]
  rcases merge?_answer hs hm with ⟨heq, rfl, -⟩ | ⟨hna, heq, rfl, -⟩ | ⟨hna, hnb, hfirst⟩
  · rw [if_pos heq]
  · rw [if_neg hna, if_pos heq]
  · obtain ⟨found, hfind, rfl⟩ := (hfirst.grows (hs.merge hm) htu).find? hu
    rw [if_neg hna, if_neg hnb, hfind]

/-! ## §6. Names and types. -/

/-- The name and the type of a binding. -/
def named? (s : Symbols) (b : BindingId) : Option (String × Ty) :=
  (s.binding? b).map fun sym => (sym.name, sym.ty)

/-- An old binding keeps its name. -/
theorem Grows.named? (h : s.Grows t) (hb : s.Has b) : t.named? b = s.named? b := by
  obtain ⟨sym, hsym⟩ := has_iff.mp hb
  obtain ⟨sym', hsym', hname, hty⟩ := h.named hsym
  rw [Symbols.named?, Symbols.named?, hsym, hsym', Option.map_some, Option.map_some, hname, hty]

theorem has_of_named? {n : String × Ty} (h : s.named? b = some n) : s.Has b := by
  obtain ⟨sym, hsym, -⟩ := Option.map_eq_some_iff.mp h
  exact has_iff.mpr ⟨sym, hsym⟩

theorem Grows.named?_of_old (h : s.Grows t) (hb : t.Has b → s.Has b) : t.named? b = s.named? b := by
  by_cases hhas : s.Has b
  · exact h.named? hhas
  · have hnone : ∀ {u : Symbols}, ¬ u.Has b → u.named? b = none := fun hu =>
      Option.eq_none_iff_forall_ne_some.mpr fun _ hn => hu (has_of_named? hn)
    rw [hnone hhas, hnone (mt hb hhas)]

/-- A binding has a leaf with its name and its type. -/
theorem Named.exists_leaf (h : s.Named) (hs : s.Ordered) (hb : s.Has b) :
    ∃ leaf ∈ s.leaves b, s.named? leaf = s.named? b := by
  obtain ⟨i⟩ := b
  induction i using Nat.strongRecOn with
  | ind i ih =>
      obtain ⟨sym, hsym⟩ := has_iff.mp hb
      cases hc : sym.components with
      | nil =>
          exact ⟨⟨i⟩, mem_leaves.mpr ⟨isLeaf_iff.mpr ⟨sym, hsym, hc⟩, .refl⟩, rfl⟩
      | cons c cs =>
          have hpart : c ∈ s.parts ⟨i⟩ := by
            rw [parts_of_some hsym, hc]
            exact List.mem_cons_self
          have hlt : c.index < i := hs.earlier hpart
          obtain ⟨leaf, hleaf, hnamed⟩ := ih c.index hlt (Nat.lt_trans hlt hb)
          obtain ⟨part, hfirst, hname, hty⟩ := h.first hsym hc
          obtain ⟨h₁, h₂⟩ := mem_leaves.mp hleaf
          refine ⟨leaf, mem_leaves.mpr ⟨h₁, .head hpart h₂⟩, hnamed.trans ?_⟩
          rw [named?, named?, hfirst, hsym, Option.map_some, Option.map_some, hname, hty]

/-- An entry that is named and typed like the first of what it unifies. -/
theorem Named.push (h : s.Named) {sym : BindingSymbol} (hfirst : ∀ c cs, sym.components = c :: cs →
    ∃ part, s.binding? c = some part ∧ part.name = sym.name ∧ part.ty = sym.ty) :
    Named { s with bindings := s.bindings.push sym } := by
  have hold : ∀ {y part}, s.binding? y = some part →
      ({ s with bindings := s.bindings.push sym } : Symbols).binding? y = some part := by
    intro y part hy
    rw [binding?_push, if_neg (Nat.ne_of_lt (binding?_eq_some_lt hy))]
    exact hy
  constructor
  intro x c cs sym' hx hc
  have hpart : ∃ part, s.binding? c = some part ∧ part.name = sym'.name ∧ part.ty = sym'.ty := by
    rw [binding?_push] at hx
    split at hx
    next =>
      injection hx with hx
      subst hx
      exact hfirst c cs hc
    next => exact h.first hx hc
  obtain ⟨part, hpart, hsame⟩ := hpart
  exact ⟨part, hold hpart, hsame⟩

/-- A unification is called what its parts are called. -/
theorem Named.merge (h : s.Named) (hm : s.merge? a b = some (m, t)) : t.Named := by
  rcases merge?_cases hm with ⟨rfl, -⟩ | ⟨first, second, hfirst, -, -, rfl⟩
  · exact h
  · refine h.push ?_
    intro c cs hc
    injection hc with hc
    subst hc
    exact ⟨first, hfirst, rfl, rfl⟩

/-! ## §7. Flags. -/

namespace Grows

/-- A table that has grown by flags only. -/
theorem entry_of_size (h : s.Grows t) (hsize : t.bindings.size = s.bindings.size)
    {sym : BindingSymbol} (hb : t.binding? b = some sym) :
    ∃ old, s.binding? b = some old ∧ sym.id = old.id ∧ sym.name = old.name ∧ sym.ty = old.ty
      ∧ sym.components = old.components := by
  have hlt : s.Has b := Nat.lt_of_lt_of_eq (binding?_eq_some_lt hb) hsize
  obtain ⟨old, hold⟩ := has_iff.mp hlt
  obtain ⟨flag, hflag, -⟩ := h.entry hold
  rw [hb] at hflag
  injection hflag with hflag
  subst hflag
  exact ⟨old, hold, rfl, rfl, rfl, rfl⟩

/-- A table of the same size has its components in front as before. -/
theorem ordered (h : s.Grows t) (hsize : t.bindings.size = s.bindings.size) (hs : s.Ordered) :
    t.Ordered := by
  constructor
  · intro b sym hb
    obtain ⟨old, hold, hid, -⟩ := h.entry_of_size hsize hb
    rw [hid]
    exact hs.id hold
  · intro b c hc
    cases hb : t.binding? b with
    | none => simp [Symbols.parts, hb] at hc
    | some sym =>
        obtain ⟨old, hold, -, -, -, hcomp⟩ := h.entry_of_size hsize hb
        rw [parts_of_some hb, hcomp, ← parts_of_some hold] at hc
        exact hs.earlier hc

/-- And the names it had. -/
theorem firstNamed (h : s.Grows t) (hsize : t.bindings.size = s.bindings.size) (hs : s.Named) :
    t.Named := by
  constructor
  intro b c cs sym hb hc
  obtain ⟨old, hold, -, hname, hty, hcomp⟩ := h.entry_of_size hsize hb
  rw [hcomp] at hc
  obtain ⟨part, hpart, hpname, hpty⟩ := hs.first hold hc
  obtain ⟨flag, hflag, -⟩ := h.entry hpart
  exact ⟨_, hflag, hpname.trans hname.symm, hpty.trans hty.symm⟩

end Grows

/-- Preserving adds no entries. -/
theorem size_preserve (s : Symbols) (id : BindingId) :
    (s.preserve id).bindings.size = s.bindings.size := by
  simp [preserve]

theorem Ordered.preserve (h : s.Ordered) (id : BindingId) : (s.preserve id).Ordered :=
  (Grows.preserve s id).ordered (size_preserve s id) h

theorem Grows.preserved (h : s.Grows t) (hb : (s.binding? b).any (·.preserved) = true) :
    (t.binding? b).any (·.preserved) = true := by
  cases hsym : s.binding? b with
  | none => simp [hsym] at hb
  | some sym =>
      obtain ⟨flag, hflag, hkeep⟩ := h.entry hsym
      rw [hsym] at hb
      simp [hflag, hkeep hb]

/-! ## §8. Sound tables. -/

/-- A table as adding and unifying bindings build it: in order, and its unified
bindings named and typed like the first of their parts. -/
structure Sound (s : Symbols) : Prop where
  ordered : s.Ordered
  named : s.Named

/-- The entry stands in place `i`, behind its parts, and is named and typed like
the first of them. -/
def InPlace (s : Symbols) (i : Nat) (sym : BindingSymbol) : Prop :=
  sym.id = ⟨i⟩ ∧ (∀ c ∈ sym.components, c.index < i)
    ∧ ∀ c ∈ sym.components.head?, (s.binding? c).any (fun part => part.name = sym.name ∧ part.ty = sym.ty) = true

instance (s : Symbols) (i : Nat) (sym : BindingSymbol) : Decidable (s.InPlace i sym) :=
  inferInstanceAs (Decidable (_ ∧ _ ∧ _))

/-- Soundness can be checked entry by entry. -/
theorem sound_iff : s.Sound ↔ ∀ (i : Nat) (h : i < s.bindings.size), s.InPlace i s.bindings[i] := by
  constructor
  · intro h i hi
    have hsym : s.binding? ⟨i⟩ = some s.bindings[i] := Array.getElem?_eq_getElem hi
    refine ⟨h.ordered.id hsym, fun c hc => h.ordered.earlier (parts_of_some hsym ▸ hc), fun c hc => ?_⟩
    obtain ⟨cs, hcs⟩ := List.head?_eq_some_iff.mp hc
    obtain ⟨part, hpart, hnamed⟩ := h.named.first hsym hcs
    simpa [hpart] using hnamed
  · intro h
    have hplace : ∀ {b : BindingId} {sym : BindingSymbol}, s.binding? b = some sym → s.InPlace b.index sym := by
      intro b sym hsym
      obtain ⟨hb, rfl⟩ := Array.getElem?_eq_some_iff.mp hsym
      exact h b.index hb
    refine ⟨⟨fun hsym => (hplace hsym).1, fun {b c} hc => ?_⟩, ⟨fun {b c cs sym} hsym hcs => ?_⟩⟩
    · cases hsym : s.binding? b with
      | none => simp [parts, hsym] at hc
      | some sym =>
          rw [parts_of_some hsym] at hc
          exact (hplace hsym).2.1 c hc
    · obtain ⟨part, hpart, hnamed⟩ := Option.any_eq_true _ _ |>.mp ((hplace hsym).2.2 c (by simp [hcs]))
      exact ⟨part, hpart, by simpa using hnamed⟩

instance (s : Symbols) : Decidable s.Sound := decidable_of_iff' _ sound_iff

namespace Sound

/-- The empty table is sound. -/
theorem empty : Symbols.empty.Sound := by
  have hnone : ∀ b, Symbols.empty.binding? b = none := fun _ => rfl
  refine ⟨⟨fun h => ?_, fun h => ?_⟩, ⟨fun h => ?_⟩⟩
  · rw [hnone] at h
    injection h
  · simp [parts, hnone] at h
  · rw [hnone] at h
    injection h

/-- Only the bindings matter. -/
theorem addVar (h : s.Sound) (name : String) (ty : Ty) (owner : Option String) (synthetic : Bool) :
    (s.addVar name ty owner synthetic).2.Sound :=
  ⟨⟨h.ordered.id, h.ordered.earlier⟩, ⟨h.named.first⟩⟩

/-- A new binding keeps the table sound. -/
theorem addBinding (h : s.Sound) (name : String) (ty : Ty) (owner : Option String) :
    (s.addBinding name ty owner).2.Sound :=
  ⟨h.ordered.addBinding name ty owner,
    h.named.push fun _ _ hc => absurd hc (by simp)⟩

/-- So does a unification. -/
theorem merge (h : s.Sound) (hm : s.merge? a b = some (m, t)) : t.Sound :=
  ⟨h.ordered.merge hm, h.named.merge hm⟩

/-- So does preserving. -/
theorem preserve (h : s.Sound) (b : BindingId) : (s.preserve b).Sound :=
  ⟨h.ordered.preserve b,
    (Grows.preserve s b).firstNamed (size_preserve s b) h.named⟩

end Sound

end Symbols

end PatternIR
