/-
  PatternIR.Proofs.Symbols.Marking
  ────────────────────────────────
  **WHAT MARKING A BINDING DOES to a table.**

  To mark a binding sets the flags of everything it leads to along its parts,
  itself included, and changes nothing else:

      flag of x after  =  flag of x before  or  x can be reached from the binding

  So marks can be set in any order, and to set them again does nothing.

    • `binding?_preserve` — the entries after marking;
    • `isPreserved_preserve` — the flags, by reachability;
    • `preserve_comm` — two markings, in either order;
    • `Marked` — everything a binding leads to has its flag set: what marking
      reaches (`marked_preserve`), what later changes keep (`Marked.grows`), and
      what makes marking idle (`Marked.preserve_eq`).
-/
import PatternIR.Proofs.Tables

namespace PatternIR

namespace Symbols

variable {s t : Symbols} {a b id : BindingId}

/-! ## §1. Entries. -/

/-- Whether the flag of a binding is set. -/
def isPreserved (s : Symbols) (b : BindingId) : Bool := (s.binding? b).any (·.preserved)

/-- A table is its variables and its entries. -/
theorem ext_entries (hvars : s.vars = t.vars) (h : ∀ b, s.binding? b = t.binding? b) : s = t := by
  have hbindings : s.bindings = t.bindings := Array.ext_getElem? fun i => h ⟨i⟩
  obtain ⟨sv, sb⟩ := s
  obtain ⟨tv, tb⟩ := t
  cases hvars
  cases hbindings
  rfl

/-- Marking leaves the variables alone. -/
@[simp] theorem vars_preserve (s : Symbols) (id : BindingId) : (s.preserve id).vars = s.vars := rfl

/-- An entry keeps everything but its flag. -/
theorem binding?_preserve (s : Symbols) (id b : BindingId) :
    (s.preserve id).binding? b = (s.binding? b).map fun sym =>
      { sym with preserved := sym.preserved || Marks.has (s.closure [id]) b } := by
  simp only [preserve, binding?, Array.getElem?_mapIdx]
  refine Option.map_congr fun sym _ => ?_
  cases Marks.has (s.closure [id]) b <;> simp

@[simp] theorem parts_preserve (s : Symbols) (id : BindingId) : (s.preserve id).parts = s.parts := by
  funext b
  simp only [parts, binding?_preserve, Option.map_map]
  rfl

/-- The closure of a binding hangs on the parts and the size of the table only. -/
@[simp] theorem closure_preserve (s : Symbols) (id : BindingId) : (s.preserve id).closure = s.closure := by
  funext ids
  simp only [closure, parts_preserve, size_preserve]

@[simp] theorem has_preserve : (s.preserve id).Has b ↔ s.Has b := by
  simp only [Has, size_preserve]

/-- What is marked is in the table. -/
theorem has_of_isPreserved (h : s.isPreserved b = true) : s.Has b := by
  obtain ⟨sym, hsym, -⟩ := Option.any_eq_true _ _ |>.mp h
  exact has_iff.mpr ⟨sym, hsym⟩

/-- **The flags after marking**: those that were set, and those of what can be
reached. -/
theorem isPreserved_preserve :
    (s.preserve id).isPreserved b = true ↔ s.isPreserved b = true ∨ s.Has b ∧ Reaches s.parts id b := by
  have hmark : s.Has b → (Marks.has (s.closure [id]) b = true ↔ Reaches s.parts id b) := fun hb => by
    rw [closure_has hb]
    simp
  cases hb : s.binding? b with
  | none =>
      have hno : ¬ s.Has b := fun h => by
        obtain ⟨sym, hsym⟩ := has_iff.mp h
        rw [hb] at hsym
        exact Option.some_ne_none _ hsym.symm
      simp [isPreserved, binding?_preserve, hb, hno]
  | some sym =>
      have hhas : s.Has b := has_iff.mpr ⟨sym, hb⟩
      simp [isPreserved, binding?_preserve, hb, hhas, hmark hhas]

/-! ## §2. Marking twice. -/

/-- Two markings, in either order. -/
theorem preserve_comm (s : Symbols) (a b : BindingId) :
    (s.preserve a).preserve b = (s.preserve b).preserve a := by
  refine ext_entries rfl fun x => ?_
  simp only [binding?_preserve, closure_preserve, Option.map_map]
  refine Option.map_congr fun sym _ => ?_
  simp only [Function.comp_apply, Bool.or_assoc]
  rw [Bool.or_comm (Marks.has (s.closure [a]) x)]

/-- Everything in the table that a binding leads to has its flag set. -/
def Marked (s : Symbols) (id : BindingId) : Prop :=
  ∀ x, s.Has x → Reaches s.parts id x → s.isPreserved x = true

/-- A binding is marked once it has been preserved. -/
theorem marked_preserve (s : Symbols) (id : BindingId) : (s.preserve id).Marked id := by
  intro x hx hreach
  rw [parts_preserve] at hreach
  exact isPreserved_preserve.mpr (.inr ⟨has_preserve.mp hx, hreach⟩)

/-- It stays marked when another is. -/
theorem Marked.preserve (h : s.Marked id) (a : BindingId) : (s.preserve a).Marked id := by
  intro x hx hreach
  rw [parts_preserve] at hreach
  exact isPreserved_preserve.mpr (.inl (h x (has_preserve.mp hx) hreach))

/-- What is marked stays marked, if it is not new: a later table leads no further. -/
theorem Marked.grows (h : s.Marked id) (hs : s.Closed) (hid : t.Has id → s.Has id) (hgrows : s.Grows t) :
    t.Marked id := by
  intro x hx hreach
  rcases hreach.cases_head with rfl | ⟨c, hc, -⟩
  · exact hgrows.preserved (h id (hid hx) .refl)
  · have hid := hid (has_of_mem_parts hc)
    have hreach := hgrows.reaches hs hid hreach
    exact hgrows.preserved (h x (hs.has_of_reaches hid hreach) hreach)

/-- To mark what is marked does nothing. -/
theorem Marked.preserve_eq (h : s.Marked id) : s.preserve id = s := by
  refine ext_entries rfl fun x => ?_
  rw [binding?_preserve]
  cases hx : s.binding? x with
  | none => rfl
  | some sym =>
      have hhas : s.Has x := has_iff.mpr ⟨sym, hx⟩
      have hflag : Marks.has (s.closure [id]) x = true → sym.preserved = true := fun hmark => by
        have hreach : Reaches s.parts id x := by simpa using (closure_has hhas).mp hmark
        simpa [isPreserved, hx] using h x hhas hreach
      have hkeep : (sym.preserved || Marks.has (s.closure [id]) x) = sym.preserved := by
        cases hmark : Marks.has (s.closure [id]) x with
        | false => exact Bool.or_false _
        | true => rw [hflag hmark, Bool.or_true]
      simp only [Option.map_some, hkeep]

/-! ## §3. Lists of bindings. -/

/-- Or when several others are. -/
theorem Marked.foldl_preserve : ∀ (ids : List BindingId) {s : Symbols}, s.Marked id →
    (ids.foldl Symbols.preserve s).Marked id
  | [], _, h => h
  | x :: ids, _, h => (h.preserve x).foldl_preserve ids

/-- Each of several is marked once all have been preserved. -/
theorem marked_foldl_preserve : ∀ {ids : List BindingId} {s : Symbols}, id ∈ ids →
    (ids.foldl Symbols.preserve s).Marked id
  | x :: ids, s, hid => by
      rw [List.foldl_cons]
      rcases List.mem_cons.mp hid with rfl | hid
      · exact (marked_preserve s id).foldl_preserve ids
      · exact marked_foldl_preserve hid

/-- Preserving what is marked changes nothing. -/
theorem foldl_preserve_eq : ∀ {ids : List BindingId} {s : Symbols}, (∀ id ∈ ids, s.Marked id) →
    ids.foldl Symbols.preserve s = s
  | [], _, _ => rfl
  | id :: ids, s, h => by
      rw [List.foldl_cons, (h id List.mem_cons_self).preserve_eq]
      exact foldl_preserve_eq fun x hx => h x (List.mem_cons_of_mem _ hx)

end Symbols

end PatternIR
