/-
  PatternIR.Proofs.Leaves
  ───────────────────────
  **THE LEAVES OF A BINDING, and how they fare when the table grows.**

  The leaves of a binding are the patterns of the source that can be reached
  along its components.  Tables only ever grow: an entry keeps everything but
  its flag, and new entries come behind the old ones.

    • `mem_leaves` — the leaves, by reachability;
    • `Symbols.Grows` — one table is a later stage of another;
    • `leaves_mono` — a leaf of a binding stays one;
    • `mem_leaves_merge` — what a unified binding stands for.
-/
import PatternIR.Proofs.Reachability
import PatternIR.Symbols

namespace PatternIR

namespace Symbols

/-! ## §1. Places in the table. -/

/-- The ids of a table are those below its size. -/
@[simp] theorem mem_bindingIds {s : Symbols} {id : BindingId} :
    id ∈ s.bindingIds ↔ id.index < s.bindings.size := by
  obtain ⟨i⟩ := id
  simp [bindingIds]

/-- A binding that is found is in the table. -/
theorem binding?_eq_some_lt {s : Symbols} {id : BindingId} {b : BindingSymbol}
    (h : s.binding? id = some b) : id.index < s.bindings.size := by
  by_contra hlt
  rw [binding?, Array.getElem?_eq_none (by omega)] at h
  exact absurd h (by simp)

/-- A leaf is in the table. -/
theorem isLeaf_lt {s : Symbols} {id : BindingId} (h : s.isLeaf id = true) :
    id.index < s.bindings.size := by
  cases hb : s.binding? id with
  | none => simp [isLeaf, hb] at h
  | some b => exact binding?_eq_some_lt hb

/-- A leaf is an entry that unifies nothing. -/
theorem isLeaf_iff {s : Symbols} {id : BindingId} :
    s.isLeaf id = true ↔ ∃ b, s.binding? id = some b ∧ b.components = [] := by
  cases hb : s.binding? id with
  | none => simp [isLeaf, hb]
  | some b => simp [isLeaf, hb, BindingSymbol.isMerged]

/-- The parts of an entry are its components. -/
theorem parts_of_some {s : Symbols} {id : BindingId} {b : BindingSymbol}
    (h : s.binding? id = some b) : s.parts id = b.components := by
  simp [parts, h]

/-- A leaf has no parts. -/
theorem parts_of_isLeaf {s : Symbols} {id : BindingId} (h : s.isLeaf id = true) :
    s.parts id = [] := by
  obtain ⟨b, hb, hc⟩ := isLeaf_iff.mp h
  rw [parts_of_some hb, hc]

/-- Nor does what is not in the table. -/
theorem parts_of_le {s : Symbols} {id : BindingId} (h : s.bindings.size ≤ id.index) :
    s.parts id = [] := by
  simp [parts, binding?, Array.getElem?_eq_none h]

/-! ## §2. Leaves by reachability. -/

/-- At the start only what is not in the table counts as marked. -/
theorem has_none {size : Nat} {id : BindingId} :
    Marks.has (BindingMarks.none size) id = true ↔ size ≤ id.index := by
  show (Array.replicate size false).getD id.index true = true ↔ _
  rw [Array.getD_eq_getD_getElem?, Array.getElem?_replicate]
  split <;> simp <;> omega

/-- The closure marks, of the table, what can be reached. -/
theorem closure_has {s : Symbols} {ids : List BindingId} {id : BindingId}
    (hid : id.index < s.bindings.size) :
    Marks.has (s.closure ids) id = true ↔ ∃ x ∈ ids, Reaches s.parts x id := by
  constructor
  · intro h
    rcases explore_sound s.parts _ _ _ _ h with h | h
    · have := has_none.mp h
      omega
    · exact h
  · rintro ⟨x, hx, hreach⟩
    have inside : ∀ y : BindingId, Marks.has (BindingMarks.none s.bindings.size) y = true
        ∨ y ∈ s.bindingIds := by
      intro y
      rw [has_none, mem_bindingIds]
      omega
    refine explore_complete s.bindingIds ?_ (fun y _ => inside y)
      (fun _ _ y _ => inside y) ?_ hx hreach
    · calc unmarked _ s.bindingIds ≤ s.bindingIds.length := List.countP_le_length
        _ = s.bindings.size := by simp [bindingIds]
    · intro y hy z hz
      rw [parts_of_le (has_none.mp hy)] at hz
      exact absurd hz (by simp)

/-- The leaves of several bindings are those that any of them reaches. -/
theorem mem_leavesOf {s : Symbols} {ids : List BindingId} {leaf : BindingId} :
    leaf ∈ s.leavesOf ids ↔ s.isLeaf leaf = true ∧ ∃ x ∈ ids, Reaches s.parts x leaf := by
  simp only [leavesOf, List.mem_filter, mem_bindingIds, Bool.and_eq_true]
  constructor
  · rintro ⟨hlt, hreach, hleaf⟩
    exact ⟨hleaf, (closure_has hlt).mp hreach⟩
  · rintro ⟨hleaf, hreach⟩
    have hlt := isLeaf_lt hleaf
    exact ⟨hlt, (closure_has hlt).mpr hreach, hleaf⟩

/-- A pattern of the source leads nowhere else. -/
theorem reaches_of_isLeaf {s : Symbols} {a b : BindingId} (ha : s.isLeaf a = true)
    (h : Reaches s.parts a b) : a = b := by
  rcases h.cases_head with h | ⟨z, hz, -⟩
  · exact h
  · rw [parts_of_isLeaf ha] at hz
    exact absurd hz (by simp)

/-- **The leaves of a binding** are the patterns of the source it leads to. -/
theorem mem_leaves {s : Symbols} {id leaf : BindingId} :
    leaf ∈ s.leaves id ↔ s.isLeaf leaf = true ∧ Reaches s.parts id leaf := by
  unfold leaves
  split
  next h =>
    constructor
    · intro hmem
      rw [List.mem_singleton.mp hmem]
      exact ⟨h, .refl⟩
    · rintro ⟨-, hreach⟩
      exact List.mem_singleton.mpr (reaches_of_isLeaf h hreach).symm
  next => simp [mem_leavesOf]

/-- A leaf is its only leaf. -/
theorem leaves_of_isLeaf {s : Symbols} {id : BindingId} (h : s.isLeaf id = true) :
    s.leaves id = [id] := by
  rw [leaves, if_pos h]

/-- The leaves of a binding are leaves. -/
theorem isLeaf_of_mem_leaves {s : Symbols} {id leaf : BindingId} (h : leaf ∈ s.leaves id) :
    s.isLeaf leaf = true :=
  (mem_leaves.mp h).1

/-- Aliases share a leaf, unless they are the same binding. -/
theorem isAliasFor_iff {s : Symbols} {a b : BindingId} :
    s.isAliasFor a b = true ↔ a = b ∨ ∃ leaf ∈ s.leaves a, leaf ∈ s.leaves b := by
  simp only [isAliasFor, Bool.or_eq_true, decide_eq_true_eq, List.any_eq_true]
  exact or_congr_right (exists_congr fun leaf => and_comm)

/-- Sharing a leaf is symmetric. -/
theorem isAliasFor_comm (s : Symbols) (a b : BindingId) : s.isAliasFor a b = s.isAliasFor b a := by
  rw [Bool.eq_iff_iff, isAliasFor_iff, isAliasFor_iff]
  constructor <;> rintro (rfl | ⟨leaf, h, h'⟩)
  · exact .inl rfl
  · exact .inr ⟨leaf, h', h⟩
  · exact .inl rfl
  · exact .inr ⟨leaf, h', h⟩

/-- An alias of a pattern of the source stands for it. -/
theorem mem_leaves_of_isAliasFor {s : Symbols} {a leaf : BindingId} (hleaf : s.isLeaf leaf = true)
    (h : s.isAliasFor a leaf = true) : leaf ∈ s.leaves a := by
  rcases isAliasFor_iff.mp h with rfl | ⟨x, hx, hx'⟩
  · simp [leaves_of_isLeaf hleaf]
  · rw [leaves_of_isLeaf hleaf, List.mem_singleton] at hx'
    exact hx' ▸ hx

/-! ## §3. Growing tables. -/

/-- `t` is a later stage of `s`: every entry is still there, and at most got
its flag set. -/
structure Grows (s t : Symbols) : Prop where
  size_le : s.bindings.size ≤ t.bindings.size
  entry : ∀ {id : BindingId} {b : BindingSymbol}, s.binding? id = some b →
    ∃ flag, t.binding? id = some { b with preserved := flag } ∧ (b.preserved = true → flag = true)

namespace Grows

variable {s t u : Symbols}

/-- A table has grown from itself. -/
theorem refl (s : Symbols) : s.Grows s :=
  ⟨Nat.le_refl _, fun {_ b} h => ⟨b.preserved, h, id⟩⟩

/-- Growth is transitive. -/
theorem trans (hst : s.Grows t) (htu : t.Grows u) : s.Grows u := by
  refine ⟨Nat.le_trans hst.size_le htu.size_le, ?_⟩
  intro id b h
  obtain ⟨f, hf, hkeep⟩ := hst.entry h
  obtain ⟨g, hg, hkeep'⟩ := htu.entry hf
  exact ⟨g, hg, fun hb => hkeep' (hkeep hb)⟩

/-- A leaf stays one. -/
theorem isLeaf (h : s.Grows t) {id : BindingId} (hid : s.isLeaf id = true) :
    t.isLeaf id = true := by
  obtain ⟨b, hb, hc⟩ := isLeaf_iff.mp hid
  obtain ⟨f, hf, -⟩ := h.entry hb
  exact isLeaf_iff.mpr ⟨_, hf, hc⟩

/-- Parts stay parts. -/
theorem parts (h : s.Grows t) {a b : BindingId} (hab : b ∈ s.parts a) : b ∈ t.parts a := by
  cases ha : s.binding? a with
  | none => simp [Symbols.parts, ha] at hab
  | some sym =>
      obtain ⟨f, hf, -⟩ := h.entry ha
      rw [parts_of_some ha] at hab
      rw [parts_of_some hf]
      exact hab

/-- A leaf of a binding stays one. -/
theorem leaves (h : s.Grows t) {id leaf : BindingId} (hleaf : leaf ∈ s.leaves id) :
    leaf ∈ t.leaves id := by
  obtain ⟨h₁, h₂⟩ := mem_leaves.mp hleaf
  exact mem_leaves.mpr ⟨h.isLeaf h₁, h₂.mono fun _ _ => h.parts⟩

/-- Entries behind the old ones. -/
theorem push (s : Symbols) (b : BindingSymbol) :
    s.Grows { s with bindings := s.bindings.push b } := by
  refine ⟨by simp, ?_⟩
  intro id sym h
  refine ⟨sym.preserved, ?_, fun hp => hp⟩
  have hlt := binding?_eq_some_lt h
  simp only [binding?] at h ⊢
  rw [Array.getElem?_push_lt hlt, ← h, Array.getElem?_eq_getElem hlt]

/-- Marking a binding. -/
theorem preserve (s : Symbols) (id : BindingId) : s.Grows (s.preserve id) := by
  refine ⟨by simp [Symbols.preserve], ?_⟩
  intro x b h
  simp only [binding?] at h
  cases hm : Marks.has (s.closure [id]) x with
  | true =>
      refine ⟨true, ?_, fun _ => rfl⟩
      simp [Symbols.preserve, binding?, Array.getElem?_mapIdx, h, hm]
  | false =>
      refine ⟨b.preserved, ?_, fun hp => hp⟩
      simp [Symbols.preserve, binding?, Array.getElem?_mapIdx, h, hm]

/-- Preserving several bindings adds and removes none. -/
theorem foldl_preserve (s : Symbols) (ids : List BindingId) :
    s.Grows (ids.foldl Symbols.preserve s) := by
  induction ids generalizing s with
  | nil => exact refl s
  | cons id ids ih => exact (preserve s id).trans (ih _)

end Grows

/-! ## §4. Unified bindings. -/

/-- The entry of a new unified binding: named and typed like the first of the two. -/
def unifiedEntry (s : Symbols) (a b : BindingId) (first second : BindingSymbol) : BindingSymbol :=
  { first with
    id := ⟨s.bindings.size⟩
    preserved := first.preserved || second.preserved
    components := [a, b] }

@[simp] theorem unifiedEntry_components (s : Symbols) (a b : BindingId) (first second : BindingSymbol) :
    (s.unifiedEntry a b first second).components = [a, b] := rfl

@[simp] theorem unifiedEntry_preserved (s : Symbols) (a b : BindingId) (first second : BindingSymbol) :
    (s.unifiedEntry a b first second).preserved = (first.preserved || second.preserved) := rfl

/-- How two bindings with these entries are unified: one of them stands for both,
else a unified binding of the table does, else a new one at its end. -/
inductive Unifies (s : Symbols) (a b : BindingId) (first second : BindingSymbol) :
    BindingId → Symbols → Prop
  | left (hboth : s.leavesOf [a, b] = s.leaves a) : Unifies s a b first second a s
  | right (hleft : s.leavesOf [a, b] ≠ s.leaves a) (hboth : s.leavesOf [a, b] = s.leaves b) :
      Unifies s a b first second b s
  | found {m : BindingSymbol} (hleft : s.leavesOf [a, b] ≠ s.leaves a)
      (hright : s.leavesOf [a, b] ≠ s.leaves b)
      (hfind : s.bindings.find? (fun m => m.isMerged && decide (s.leaves m.id = s.leavesOf [a, b]))
        = some m) : Unifies s a b first second m.id s
  | added (hleft : s.leavesOf [a, b] ≠ s.leaves a) (hright : s.leavesOf [a, b] ≠ s.leaves b)
      (hfind : s.bindings.find? (fun m => m.isMerged && decide (s.leaves m.id = s.leavesOf [a, b]))
        = none) :
      Unifies s a b first second ⟨s.bindings.size⟩
        { s with bindings := s.bindings.push (s.unifiedEntry a b first second) }

/-- Unifying, taken apart. -/
theorem merge?_unifies {s t : Symbols} {a b m : BindingId} (h : s.merge? a b = some (m, t)) :
    ∃ first second, s.binding? a = some first ∧ s.binding? b = some second
      ∧ s.Unifies a b first second m t := by
  unfold merge? at h
  split at h
  next first second ha hb =>
    refine ⟨first, second, ha, hb, ?_⟩
    simp only at h
    split at h
    next hboth =>
      obtain ⟨rfl, rfl⟩ := Prod.mk.inj (Option.some.inj h)
      exact .left hboth
    next hleft =>
      split at h
      next hboth =>
        obtain ⟨rfl, rfl⟩ := Prod.mk.inj (Option.some.inj h)
        exact .right hleft hboth
      next hright =>
        split at h
        next found hfind =>
          obtain ⟨rfl, rfl⟩ := Prod.mk.inj (Option.some.inj h)
          exact .found hleft hright hfind
        next hfind =>
          obtain ⟨rfl, rfl⟩ := Prod.mk.inj (Option.some.inj h)
          exact .added hleft hright hfind
  next => exact absurd h (by simp)

/-- What unifying two bindings can do: answer with one that has the leaves of
both, or with a new one at the end of the table. -/
theorem merge?_cases {s t : Symbols} {a b m : BindingId} (h : s.merge? a b = some (m, t)) :
    (t = s ∧ s.leaves m = s.leavesOf [a, b])
      ∨ ∃ first second, s.binding? a = some first ∧ s.binding? b = some second
          ∧ m = ⟨s.bindings.size⟩
          ∧ t = { s with bindings := s.bindings.push (s.unifiedEntry a b first second) } := by
  obtain ⟨first, second, ha, hb, hunifies⟩ := merge?_unifies h
  cases hunifies with
  | left hboth => exact .inl ⟨rfl, hboth.symm⟩
  | right _ hboth => exact .inl ⟨rfl, hboth.symm⟩
  | found _ _ hfind =>
      have hfound := Array.find?_some hfind
      simp only [Bool.and_eq_true, decide_eq_true_eq] at hfound
      exact .inl ⟨rfl, hfound.2⟩
  | added _ _ _ => exact .inr ⟨first, second, ha, hb, rfl, rfl⟩

/-- Unifying takes nothing out of the table. -/
theorem merge?_grows {s t : Symbols} {a b m : BindingId} (h : s.merge? a b = some (m, t)) :
    s.Grows t := by
  rcases merge?_cases h with ⟨rfl, -⟩ | ⟨_, _, -, -, -, rfl⟩
  · exact .refl _
  · exact .push s _

/-- Unifying leaves the variables alone. -/
theorem merge?_vars {s t : Symbols} {a b m : BindingId} (h : s.merge? a b = some (m, t)) :
    t.vars = s.vars := by
  rcases merge?_cases h with ⟨rfl, -⟩ | ⟨_, _, -, -, -, rfl⟩ <;> rfl

/-- A unified binding stands for the leaves of both. -/
theorem mem_leaves_merge {s t : Symbols} {a b m leaf : BindingId}
    (h : s.merge? a b = some (m, t)) (hleaf : leaf ∈ s.leaves a ∨ leaf ∈ s.leaves b) :
    leaf ∈ t.leaves m := by
  have hreach : s.isLeaf leaf = true ∧ ∃ x ∈ [a, b], Reaches s.parts x leaf := by
    rcases hleaf with h | h
    · exact ⟨(mem_leaves.mp h).1, a, by simp, (mem_leaves.mp h).2⟩
    · exact ⟨(mem_leaves.mp h).1, b, by simp, (mem_leaves.mp h).2⟩
  have hgrows := merge?_grows h
  rcases merge?_cases h with ⟨rfl, hboth⟩ | ⟨first, second, -, -, rfl, rfl⟩
  · rw [hboth]
    exact mem_leavesOf.mpr hreach
  · obtain ⟨hl, x, hx, hxl⟩ := hreach
    refine mem_leaves.mpr ⟨hgrows.isLeaf hl, .head (y := x) ?_ (hxl.mono fun _ _ => hgrows.parts)⟩
    simpa [parts, binding?] using hx

end Symbols

end PatternIR
