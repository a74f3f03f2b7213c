/-
  PatternIR.Proofs.Lowering.Storage
  ─────────────────────────────────
  **WHERE PATTERNS ARE STORED.**

  The frames of the stack give each pattern at most one variable.  Seen from a
  condition, each variable that stores patterns of it stores one of its groups
  and nothing else of it (`Storage.Fits`).  That goes from a condition to its
  operands, and entering a frame for the condition keeps it.

    • `Storage.Fits.left`, `Storage.Fits.right` — from `&&` and `||` to the operands;
    • `Storage.Fits.exact` — a group that is stored is stored alone.
-/
import PatternIR.Proofs.Flow.Groups

namespace PatternIR

/-- The outcome of the left operand that decides `&&` or `||` at once. -/
def BinOp.decides? : BinOp → Option Bool
  | .and => some false
  | .or => some true
  | _ => none

namespace Flow

variable {s : Symbols} {e l r : Expr} {i : ExprInfo} {op : BinOp} {o o' d : Bool}
  {g g' : List BindingId}

/-- The outcome that is not decided at once tells what either operand does. -/
theorem groups_undecided (h : op.decides? = some d) :
    groups s (.binary i op l r) (!d) = groups s l (!d) ++ groups s r (!d) := by
  cases op with
  | and =>
      injection h with h
      subst h
      simp [groups]
  | or =>
      injection h with h
      subst h
      simp [groups]
  | _ => exact absurd h (by simp [BinOp.decides?])

/-- The outcome that either operand decides tells what both do. -/
theorem groups_decided (h : op.decides? = some d) :
    groups s (.binary i op l r) d = joined s (groups s r d) (groups s l d) := by
  cases op with
  | and =>
      injection h with h
      subst h
      simp [groups]
  | or =>
      injection h with h
      subst h
      simp [groups]
  | _ => exact absurd h (by simp [BinOp.decides?])

/-- An operator without short circuits has no groups. -/
theorem groups_strict (h : op.decides? = none) : groups s (.binary i op l r) o = [] := by
  cases op with
  | and | or => exact absurd h (by simp [BinOp.decides?])
  | _ => rfl

/-- A group is listed for one outcome only. -/
theorem outcome_unique (hg : g ∈ groups s e o) (hg' : g' ∈ groups s e o') : o = o' := by
  obtain ⟨none, hnone⟩ := groups_one_outcome s e
  have hne : ∀ {o g}, g ∈ groups s e o → o ≠ none := by
    rintro o g hg rfl
    rw [hnone] at hg
    exact absurd hg List.not_mem_nil
  cases o <;> cases o' <;> cases none <;> simp_all

/-- A group has a member. -/
theorem exists_mem_group (hg : g ∈ groups s e o) : ∃ leaf, leaf ∈ g :=
  List.exists_mem_of_ne_nil g (groups_tests e o g hg).1

/-- Its members are tested for. -/
theorem mem_tests (hg : g ∈ groups s e o) {leaf : BindingId} (hleaf : leaf ∈ g) : leaf ∈ e.tests :=
  (groups_tests e o g hg).2 leaf hleaf

/-- Disjoint groups that share a leaf are one. -/
theorem eq_of_disjoint {gs : List (List BindingId)} (hgs : gs.Pairwise Disjoint) (hg : g ∈ gs)
    (hg' : g' ∈ gs) {leaf : BindingId} (h : leaf ∈ g) (h' : leaf ∈ g') : g = g' := by
  by_cases heq : g = g'
  · exact heq
  · exact absurd h' (hgs.forall hg hg' heq leaf h)

end Flow

namespace Lowering

open PatternIR.Flow (groups joined)

/-! ## §1. Storage. -/

/-- Where the patterns are stored, if they are. -/
abbrev Storage := BindingId → Option VarId

namespace Storage

/-- All patterns of a group are stored in one variable. -/
def Stores (ρ : Storage) (group : List BindingId) (x : VarId) : Prop :=
  ∀ leaf ∈ group, ρ leaf = some x

/-- None of the patterns is stored. -/
def Misses (ρ : Storage) (ts : List BindingId) : Prop := ∀ leaf ∈ ts, ρ leaf = none

/-- A variable that stores patterns of a condition stores one of its groups and
nothing else of it. -/
def Fits (ρ : Storage) (s : Symbols) (e : Expr) : Prop :=
  ∀ leaf ∈ e.tests, ∀ x, ρ leaf = some x →
    ∃ o, ∃ g ∈ groups s e o, ∀ other ∈ e.tests, ρ other = some x ↔ other ∈ g

/-- More patterns are stored, in variables from `bound` on. -/
structure Extends (ρ ρ' : Storage) (bound : Nat) : Prop where
  kept : ∀ {leaf : BindingId} {x : VarId}, ρ leaf = some x → ρ' leaf = some x
  fresh : ∀ {leaf : BindingId} {x : VarId}, ρ' leaf = some x → ρ leaf = some x ∨ bound ≤ x.index

/-- Storage extends itself. -/
theorem Extends.refl (ρ : Storage) (bound : Nat) : ρ.Extends ρ bound := ⟨id, .inl⟩

/-! ## §2. Storage that fits a condition. -/

namespace Fits

variable {ρ : Storage} {s : Symbols} {e l r : Expr} {i : ExprInfo} {op : BinOp} {o d : Bool}

/-- A condition none of whose patterns is stored. -/
theorem of_misses (h : ρ.Misses e.tests) : ρ.Fits s e := by
  intro leaf hleaf x hx
  rw [h leaf hleaf] at hx
  exact absurd hx (by simp)

/-- With some of the variables left, each of which stores what it stored before. -/
theorem narrow {ρ' : Storage} (h : ρ.Fits s e) (hsame : ∀ {leaf : BindingId} {x : VarId},
    ρ' leaf = some x → ∀ other, ρ' other = some x ↔ ρ other = some x) : ρ'.Fits s e := by
  intro leaf hleaf x hx
  obtain ⟨o, g, hg, hexact⟩ := h leaf hleaf x ((hsame hx leaf).mp hx)
  exact ⟨o, g, hg, fun other hother => (hsame hx other).trans (hexact other hother)⟩

/-- Where a condition has no groups, nothing of it is stored. -/
theorem misses (h : ρ.Fits s e) (hplain : ∀ o, groups s e o = []) : ρ.Misses e.tests := by
  intro leaf hleaf
  cases hx : ρ leaf with
  | none => rfl
  | some x =>
      obtain ⟨o, g, hg, -⟩ := h leaf hleaf x hx
      rw [hplain o] at hg
      exact absurd hg List.not_mem_nil

/-- A group that is stored is stored alone. -/
theorem exact_ (h : ρ.Fits s e) (hdisjoint : ∀ o, (groups s e o).Pairwise Flow.Disjoint)
    {g : List BindingId} (hg : g ∈ groups s e o) {leaf : BindingId} (hleaf : leaf ∈ g) {x : VarId}
    (hx : ρ leaf = some x) : ∀ other ∈ e.tests, ρ other = some x ↔ other ∈ g := by
  have hin := Flow.mem_tests hg hleaf
  obtain ⟨o', g', hg', hexact⟩ := h leaf hin x hx
  have ho := Flow.outcome_unique hg hg'
  subst ho
  have heq := Flow.eq_of_disjoint (hdisjoint o) hg hg' hleaf ((hexact leaf hin).mp hx)
  subst heq
  exact hexact

/-- Where a form has no groups, nothing of its parts is stored. -/
theorem part (h : ρ.Fits s e) (hplain : ∀ o, groups s e o = []) (ts : List BindingId)
    (hts : ∀ leaf ∈ ts, leaf ∈ e.tests) : ρ.Misses ts :=
  fun leaf hleaf => h.misses hplain leaf (hts leaf hleaf)

/-- A type test has its own pattern stored alone. -/
theorem operand {pattern : BindingPattern} (h : ρ.Fits s (.typeTest i e pattern))
    (honce : pattern.binding ∉ e.tests) : ρ.Misses e.tests := by
  have htests : (Expr.typeTest i e pattern).tests = pattern.binding :: e.tests := by
    simp
  intro leaf hleaf
  cases hx : ρ leaf with
  | none => rfl
  | some x =>
      have hin : leaf ∈ (Expr.typeTest i e pattern).tests := htests ▸ List.mem_cons_of_mem _ hleaf
      obtain ⟨o, g, hg, hexact⟩ := h leaf hin x hx
      have hmem := (hexact leaf hin).mp hx
      cases o with
      | false => exact absurd hg (by simp [groups])
      | true =>
          simp only [groups, if_true, List.mem_singleton] at hg
          rw [hg, List.mem_singleton] at hmem
          exact absurd (hmem ▸ hleaf) honce

/-- It fits the operand of a negation. -/
theorem not (h : ρ.Fits s (.unary i .not e)) : ρ.Fits s e := by
  have htests := Expr.tests_unary i .not e
  intro leaf hleaf x hx
  obtain ⟨o, g, hg, hexact⟩ := h leaf (htests ▸ hleaf) x hx
  exact ⟨!o, g, hg, fun other hother => hexact other (htests ▸ hother)⟩

variable (hop : op.decides? = some d) (hcross : ∀ leaf ∈ l.tests, leaf ∉ r.tests)

include hop hcross

/-- It fits the left operand. -/
theorem left (h : ρ.Fits s (.binary i op l r)) : ρ.Fits s l := by
  have hin : ∀ {leaf}, leaf ∈ l.tests → leaf ∈ (Expr.binary i op l r).tests := by
    intro leaf hleaf
    simp at hleaf ⊢
    exact .inl hleaf
  intro leaf hleaf x hx
  obtain ⟨o, g, hg, hexact⟩ := h leaf (hin hleaf) x hx
  have hmem : leaf ∈ g := (hexact leaf (hin hleaf)).mp hx
  by_cases ho : o = d
  · subst ho
    rw [Flow.groups_decided hop] at hg
    obtain ⟨a, ha, b, hb, rfl⟩ := Flow.mem_joined.mp hg
    refine ⟨o, a, ha, ?_⟩
    intro other hother
    rw [hexact other (hin hother), List.mem_append]
    refine ⟨?_, .inl⟩
    rintro (hin | hin)
    · exact hin
    · exact absurd (Flow.mem_tests (List.mem_of_find?_eq_some hb) hin) (hcross other hother)
  · have ho' : o = !d := by cases o <;> cases d <;> simp_all
    subst ho'
    rw [Flow.groups_undecided hop] at hg
    rcases List.mem_append.mp hg with hg | hg
    · exact ⟨!d, g, hg, fun other hother => hexact other (hin hother)⟩
    · exact absurd (Flow.mem_tests hg hmem) (hcross leaf hleaf)

/-- It fits the right operand. -/
theorem right (h : ρ.Fits s (.binary i op l r)) : ρ.Fits s r := by
  have hin : ∀ {leaf}, leaf ∈ r.tests → leaf ∈ (Expr.binary i op l r).tests := by
    intro leaf hleaf
    simp at hleaf ⊢
    exact .inr hleaf
  intro leaf hleaf x hx
  obtain ⟨o, g, hg, hexact⟩ := h leaf (hin hleaf) x hx
  have hmem : leaf ∈ g := (hexact leaf (hin hleaf)).mp hx
  by_cases ho : o = d
  · subst ho
    rw [Flow.groups_decided hop] at hg
    obtain ⟨a, ha, b, hb, rfl⟩ := Flow.mem_joined.mp hg
    refine ⟨o, b, List.mem_of_find?_eq_some hb, ?_⟩
    intro other hother
    rw [hexact other (hin hother), List.mem_append]
    refine ⟨?_, .inr⟩
    rintro (hin | hin)
    · exact absurd hother (hcross other (Flow.mem_tests ha hin))
    · exact hin
  · have ho' : o = !d := by cases o <;> cases d <;> simp_all
    subst ho'
    rw [Flow.groups_undecided hop] at hg
    rcases List.mem_append.mp hg with hg | hg
    · exact absurd hleaf (hcross leaf (Flow.mem_tests hg hmem))
    · exact ⟨!d, g, hg, fun other hother => hexact other (hin hother)⟩

/-- What either operand tells of the left one is not stored with the right one. -/
theorem apart (h : ρ.Fits s (.binary i op l r)) {g : List BindingId} (hg : g ∈ groups s l (!d))
    {leaf other : BindingId} {x : VarId} (hleaf : leaf ∈ g) (hx : ρ leaf = some x)
    (hother : other ∈ r.tests) : ρ other ≠ some x := by
  intro hx'
  have htests := Expr.tests_binary i op l r
  have hl := Flow.mem_tests hg hleaf
  obtain ⟨o, g', hg', hexact⟩ := h leaf (htests ▸ List.mem_append_left _ hl) x hx
  have hmem : leaf ∈ g' := (hexact leaf (htests ▸ List.mem_append_left _ hl)).mp hx
  have hmem' : other ∈ g' := (hexact other (htests ▸ List.mem_append_right _ hother)).mp hx'
  by_cases ho : o = d
  · subst ho
    rw [Flow.groups_decided hop] at hg'
    obtain ⟨a, ha, b, hb, rfl⟩ := Flow.mem_joined.mp hg'
    have hd := Flow.outcome_unique hg ha
    cases o <;> simp at hd
  · have ho' : o = !d := by cases o <;> cases d <;> simp_all
    subst ho'
    rw [Flow.groups_undecided hop] at hg'
    rcases List.mem_append.mp hg' with hg' | hg'
    · exact hcross other (Flow.mem_tests hg' hmem') hother
    · exact hcross leaf hl (Flow.mem_tests hg' hmem)

omit hop in
/-- Storage that fits an operation fits its operands. -/
theorem operands (h : ρ.Fits s (.binary i op l r)) : ρ.Fits s l ∧ ρ.Fits s r := by
  cases hd : op.decides? with
  | some d => exact ⟨h.left hd hcross, h.right hd hcross⟩
  | none =>
      have hplain : ∀ o, groups s (.binary i op l r) o = [] := fun _ => Flow.groups_strict hd
      have htests := Expr.tests_binary i op l r
      exact ⟨.of_misses (h.part hplain _ fun leaf hl => htests ▸ List.mem_append_left _ hl),
        .of_misses (h.part hplain _ fun leaf hr => htests ▸ List.mem_append_right _ hr)⟩

end Fits

end Storage

end Lowering

end PatternIR
