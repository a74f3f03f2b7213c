/-
  PatternIR.Proofs.Lowering.Listed
  ────────────────────────────────
  **WHAT IS LISTED, on whatever table.**

  Even where patterns of a condition meet in name and type, what the structural
  oracle lists can be read from the condition and the names of its patterns
  alone: one set of patterns for each binding.  The sets need not be disjoint
  any more, as two bindings of the left side may be unified with the same one
  of the right.

      (o instanceof A x && p instanceof A x) || q instanceof A x

    • `listed` — the sets of patterns;
    • `listed_stands` — the oracle lists one binding for each, on every later table;
    • `listed_outcome` — there are some for one outcome only.
-/
import PatternIR.Proofs.Lowering.Storage

namespace PatternIR

namespace Flow

open Symbols (Grows)

/-! ## §1. Sets of patterns. -/

/-- Whether two sets of patterns share one. -/
def meet (g h : List BindingId) : Bool := g.any fun leaf => decide (leaf ∈ h)

/-- The sets of either side: the left ones, and those of the right that meet
none found before. -/
def eitherSets (left right : List (List BindingId)) : List (List BindingId) :=
  right.foldl (fun found g => if found.any fun h => meet h g then found else found ++ [g]) left

/-- The sets of patterns that the oracle lists a binding for. -/
def listed (s : Symbols) : Expr → Bool → List (List BindingId)
  | .typeTest _ _ pattern, outcome => if outcome then [[pattern.binding]] else []
  | .unary _ .not operand, outcome => listed s operand (!outcome)
  | .binary _ .and left right, outcome =>
    if outcome then eitherSets (listed s left outcome) (listed s right outcome)
    else joined s (listed s right outcome) (listed s left outcome)
  | .binary _ .or left right, outcome =>
    if outcome then joined s (listed s right outcome) (listed s left outcome)
    else eitherSets (listed s left outcome) (listed s right outcome)
  | _, _ => []

variable {s t : Symbols} {e l r : Expr} {i : ExprInfo} {op : BinOp} {o o' d : Bool}
  {g g' : List BindingId}

/-- Two sets meet if they share a leaf. -/
theorem meet_iff {g h : List BindingId} : meet g h = true ↔ ∃ leaf ∈ g, leaf ∈ h := by
  simp [meet]

/-- What is listed in either way is listed in one of them. -/
theorem mem_eitherSets : ∀ {right left : List (List BindingId)},
    g ∈ eitherSets left right → g ∈ left ∨ g ∈ right
  | [], _, h => .inl h
  | a :: right, left, h => by
      rw [eitherSets, List.foldl_cons] at h
      rcases mem_eitherSets h with h | h
      · split at h
        · exact .inl h
        · rcases List.mem_append.mp h with h | h
          · exact .inl h
          · exact .inr (List.mem_singleton.mp h ▸ List.mem_cons_self)
      · exact .inr (List.mem_cons_of_mem _ h)

/-- A set listed for an operation, from those of its operands. -/
theorem mem_listed_binary (hg : g ∈ listed s (.binary i op l r) o) :
    ∃ d, op.decides? = some d
      ∧ ((o = !d ∧ (g ∈ listed s l o ∨ g ∈ listed s r o))
        ∨ o = d ∧ ∃ a ∈ listed s l o, ∃ b, (listed s r o).find? (sameGroup s a) = some b ∧ g = a ++ b) := by
  cases op with
  | and =>
      refine ⟨false, rfl, ?_⟩
      cases o with
      | true => exact .inl ⟨rfl, mem_eitherSets hg⟩
      | false => exact .inr ⟨rfl, mem_joined.mp hg⟩
  | or =>
      refine ⟨true, rfl, ?_⟩
      cases o with
      | true => exact .inr ⟨rfl, mem_joined.mp hg⟩
      | false => exact .inl ⟨rfl, mem_eitherSets hg⟩
  | _ => exact absurd hg List.not_mem_nil

/-- The patterns of a set are patterns of the condition, at least one, for
variables of the same name and type. -/
theorem listed_group : ∀ (e : Expr) (o : Bool), (∀ leaf ∈ e.tests, s.isLeaf leaf = true) →
    ∀ g ∈ listed s e o, IsGroup s g ∧ ∀ leaf ∈ g, leaf ∈ e.tests
  | .typeTest i e pattern, o, hleaves, g, hg => by
      cases o with
      | false => exact absurd hg List.not_mem_nil
      | true =>
          have hmem : pattern.binding ∈ (Expr.typeTest i e pattern).tests := by
            simp
          rw [List.mem_singleton.mp hg]
          refine ⟨⟨by simp, fun leaf hleaf => ?_, fun leaf hleaf leaf' hleaf' => ?_⟩, fun leaf hleaf => ?_⟩
          · exact List.mem_singleton.mp hleaf ▸ .of_isLeaf (hleaves _ hmem)
          · rw [List.mem_singleton.mp hleaf, List.mem_singleton.mp hleaf']
          · exact List.mem_singleton.mp hleaf ▸ hmem
  | .unary i op e, o, hleaves, g, hg => by
      cases op with
      | neg => exact absurd hg List.not_mem_nil
      | not =>
          rw [Expr.tests_unary] at hleaves ⊢
          exact listed_group e (!o) hleaves g hg
  | .binary i op l r, o, hleaves, g, hg => by
      rw [Expr.tests_binary] at hleaves ⊢
      have hl := listed_group l o fun leaf h => hleaves leaf (List.mem_append_left _ h)
      have hr := listed_group r o fun leaf h => hleaves leaf (List.mem_append_right _ h)
      obtain ⟨d, -, ⟨-, hg | hg⟩ | ⟨-, a, ha, b, hb, rfl⟩⟩ := mem_listed_binary hg
      · exact ⟨(hl g hg).1, fun leaf h => List.mem_append_left _ ((hl g hg).2 leaf h)⟩
      · exact ⟨(hr g hg).1, fun leaf h => List.mem_append_right _ ((hr g hg).2 leaf h)⟩
      · obtain ⟨hga, hta⟩ := hl a ha
        obtain ⟨hgb, htb⟩ := hr b (List.mem_of_find?_eq_some hb)
        obtain ⟨x, a, rfl⟩ := List.exists_cons_of_ne_nil hga.ne
        obtain ⟨y, b, rfl⟩ := List.exists_cons_of_ne_nil hgb.ne
        -- all are for the variable that the first patterns of both sides are for
        have hsame : sameGroup s (x :: a) (y :: b) = true := List.find?_some hb
        obtain ⟨n, hx, hy⟩ := sameVariable_iff.mp hsame
        have hname : ∀ leaf ∈ (x :: a) ++ (y :: b), s.named? leaf = some n := by
          intro leaf hleaf
          rcases List.mem_append.mp hleaf with h | h
          · rw [hga.alike leaf h x List.mem_cons_self, hx]
          · rw [hgb.alike leaf h y List.mem_cons_self, hy]
        refine ⟨⟨by simp, fun leaf hleaf => ?_, fun leaf h leaf' h' => ?_⟩, fun leaf hleaf => ?_⟩
        · exact (List.mem_append.mp hleaf).elim (hga.has leaf) (hgb.has leaf)
        · rw [hname leaf h, hname leaf' h']
        · exact List.mem_append.mpr ((List.mem_append.mp hleaf).imp (hta leaf) (htb leaf))
  | .literal _ _, _, _, _, hg | .ident _ _, _, _, _, hg | .conditional _ _ _ _, _, _, _, hg
  | .assign _ _ _, _, _, _, hg | .cast _ _ _, _, _, _, hg | .instanceOf _ _ _, _, _, _, hg
  | .call _ _ _, _, _, _, hg | .methodCall _ _ _ _, _, _, _, hg | .letIn _ _ _, _, _, _, hg =>
      absurd hg List.not_mem_nil

/-- Nothing is listed for one outcome at least. -/
theorem listed_one_outcome (s : Symbols) : ∀ e : Expr, ∃ o, listed s e o = []
  | .typeTest _ _ _ => ⟨false, rfl⟩
  | .unary _ op e => by
      cases op with
      | neg => exact ⟨true, rfl⟩
      | not =>
          obtain ⟨o, ho⟩ := listed_one_outcome s e
          exact ⟨!o, by simpa [listed] using ho⟩
  | .binary _ op l r => by
      obtain ⟨o, hl⟩ := listed_one_outcome s l
      obtain ⟨o', hr⟩ := listed_one_outcome s r
      cases op with
      | and =>
          cases o with
          | false => exact ⟨false, by simp [listed, hl]⟩
          | true =>
              cases o' with
              | false => exact ⟨false, by simp [listed, hr]⟩
              | true => exact ⟨true, by simp [listed, hl, hr, eitherSets]⟩
      | or =>
          cases o with
          | true => exact ⟨true, by simp [listed, hl]⟩
          | false =>
              cases o' with
              | true => exact ⟨true, by simp [listed, hr]⟩
              | false => exact ⟨false, by simp [listed, hl, hr, eitherSets]⟩
      | _ => exact ⟨true, rfl⟩
  | .literal _ _ | .ident _ _ | .conditional _ _ _ _ | .assign _ _ _ | .cast _ _ _
  | .instanceOf _ _ _ | .call _ _ _ | .methodCall _ _ _ _ | .letIn _ _ _ => ⟨true, rfl⟩

/-- A set is listed for one outcome only. -/
theorem listed_outcome (hg : g ∈ listed s e o) (hg' : g' ∈ listed s e o') : o = o' := by
  obtain ⟨d, hd⟩ := listed_one_outcome s e
  have hne : ∀ {o g}, g ∈ listed s e o → o = !d := by
    intro o g hg
    cases o <;> cases d <;> first | rfl | exact absurd (hd ▸ hg) List.not_mem_nil
  rw [hne hg, hne hg']

/-! ## §2. The bindings that stand for them. -/

/-- Bindings of a table are aliases if the sets they stand for meet. -/
theorem Stands.alias_iff (ht : t.Sound) {a b : BindingId} {g h : List BindingId} (ha : Stands t a g)
    (hb : Stands t b h) : t.isAliasFor a b = meet g h := by
  rw [Bool.eq_iff_iff, Symbols.isAliasFor_iff, meet_iff]
  constructor
  · rintro (rfl | ⟨leaf, hleaf, hleaf'⟩)
    · obtain ⟨leaf, hleaf⟩ := ht.ordered.exists_leaf ha.1
      exact ⟨leaf, (ha.2 leaf).mp hleaf, (hb.2 leaf).mp hleaf⟩
    · exact ⟨leaf, (ha.2 leaf).mp hleaf, (hb.2 leaf).mp hleaf'⟩
  · rintro ⟨leaf, hleaf, hleaf'⟩
    exact .inr ⟨leaf, (ha.2 leaf).mpr hleaf, (hb.2 leaf).mpr hleaf'⟩

/-- Bindings listed in either way stand for the sets that are. -/
theorem either_stands (ht : t.Sound) {right : List BindingId} {rs : List (List BindingId)}
    (hright : List.Forall₂ (Stands t) right rs) : ∀ {left : List BindingId} {ls : List (List BindingId)},
      List.Forall₂ (Stands t) left ls → List.Forall₂ (Stands t) (either t left right) (eitherSets ls rs) := by
  induction hright with
  | nil => exact fun hleft => hleft
  | @cons b g right rs hb _ ih =>
      intro left ls hleft
      have hany : (left.any fun a => t.isAliasFor a b) = ls.any fun h => meet h g := by
        induction hleft with
        | nil => rfl
        | cons ha _ ih => rw [List.any_cons, List.any_cons, ih, ha.alias_iff ht hb]
      rw [either, eitherSets, List.foldl_cons, List.foldl_cons, hany]
      split
      · exact ih hleft
      · exact ih (List.rel_append hleft (.cons hb .nil))

/-- **The oracle lists one binding for each set**, on every later table. -/
theorem listed_stands : ∀ (e : Expr) (o : Bool) {t : Symbols},
    (∀ leaf ∈ e.tests, s.isLeaf leaf = true) → s.Grows t → t.Sound →
      (matchBindings e o t).2.Sound
        ∧ List.Forall₂ (Stands (matchBindings e o t).2) (matchBindings e o t).1 (listed s e o)
  | .typeTest i e pattern, o, t, hleaves, hst, ht => by
      cases o with
      | false => exact ⟨ht, .nil⟩
      | true =>
          have hpattern : s.isLeaf pattern.binding = true :=
            hleaves _ (by simp)
          refine ⟨ht, .cons ⟨hst.has (.of_isLeaf hpattern), fun leaf => ?_⟩ .nil⟩
          rw [show (matchBindings (.typeTest i e pattern) true t).2.leaves pattern.binding
            = [pattern.binding] from Symbols.leaves_of_isLeaf (hst.isLeaf hpattern)]
  | .unary i op e, o, t, hleaves, hst, ht => by
      cases op with
      | neg => exact ⟨ht, .nil⟩
      | not =>
          have htests := Expr.tests_unary i .not e
          exact listed_stands e (!o) (htests ▸ hleaves) hst ht
  | .binary i op l r, o, t, hleaves, hst, ht => by
      rw [Expr.tests_binary] at hleaves
      have hl : ∀ leaf ∈ l.tests, s.isLeaf leaf = true := fun leaf h => hleaves leaf (List.mem_append_left _ h)
      have hr : ∀ leaf ∈ r.tests, s.isLeaf leaf = true := fun leaf h => hleaves leaf (List.mem_append_right _ h)
      obtain ⟨hsound, hleft⟩ := listed_stands l o hl hst ht
      have hgrows := matchBindings_grows l o t
      obtain ⟨hsound', hright⟩ := listed_stands r o hr (hst.trans hgrows) hsound
      have hgrows' := matchBindings_grows r o (matchBindings l o t).2
      have hleft' := forall₂_grows hsound hgrows' hleft
      -- the right operand is asked after the left one, over the table that has grown by then
      have heither := either_stands hsound' hright hleft'
      have hboth := both_groups (fun g hg => (listed_group r o hr g hg).1)
        (fun g hg => (listed_group l o hl g hg).1) ((hst.trans hgrows).trans hgrows') hsound' hright hleft'
      cases op with
      | and =>
          cases o with
          | true => exact ⟨hsound', heither⟩
          | false => exact hboth
      | or =>
          cases o with
          | true => exact hboth
          | false => exact ⟨hsound', heither⟩
      | _ => exact ⟨ht, .nil⟩
  | .literal _ _, _, _, _, _, ht | .ident _ _, _, _, _, _, ht | .conditional _ _ _ _, _, _, _, _, ht
  | .assign _ _ _, _, _, _, _, ht | .cast _ _ _, _, _, _, _, ht | .instanceOf _ _ _, _, _, _, _, ht
  | .call _ _ _, _, _, _, _, ht | .methodCall _ _ _ _, _, _, _, _, ht | .letIn _ _ _, _, _, _, _, ht =>
      ⟨ht, .nil⟩

end Flow

end PatternIR
