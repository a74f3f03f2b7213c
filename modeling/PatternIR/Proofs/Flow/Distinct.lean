/-
  PatternIR.Proofs.Flow.Distinct
  ──────────────────────────────
  **THE BINDINGS LISTED FOR A CONDITION SHARE NO PATTERN.**

  Where both operands bind, each binding on the left is unified with the first
  on the right of the same name and type.  Two of the left could be unified
  with the same one, unless they are told apart by name or type themselves.  If
  that is so for every list that is returned on the way, and the patterns of
  the condition are different, no two bindings of its list share a pattern.
  Nothing but that the table is closed is asked of it.

    • `answersDistinct` — the lists that are returned on the way;
    • `Listed` — bindings that are for patterns of a list, each for its own;
    • `matchBindings_listed`, `all_listed` — the lists of a condition.
-/
import PatternIR.Proofs.Flow.Groups

namespace PatternIR

namespace Flow

open Symbols (Grows)

variable {t u : Symbols} {a b : BindingId} {ms left right ts ts' : List BindingId}

/-! ## §1. Lists on the way. -/

/-- No two bindings of an answer have the same name and type. -/
def distinct (answer : List BindingId × Symbols) : Bool :=
  decide (answer.1.Pairwise fun a b => sameVariable answer.2 a b = false)

/-- The same for the answer about a condition, and those about its parts from
which it is made. -/
def answersDistinct : Expr → Bool → Symbols → Bool
  | .unary _ .not operand, outcome, t => answersDistinct operand (!outcome) t
  | .binary i .and left right, outcome, t =>
    answersDistinct left outcome t && answersDistinct right outcome (matchBindings left outcome t).2
      && distinct (matchBindings (.binary i .and left right) outcome t)
  | .binary i .or left right, outcome, t =>
    answersDistinct left outcome t && answersDistinct right outcome (matchBindings left outcome t).2
      && distinct (matchBindings (.binary i .or left right) outcome t)
  | _, _, _ => true

/-- A condition that binds nothing by its form, or one pattern only, has one
list; any other was looked at. -/
theorem distinct_of_answersDistinct : ∀ (e : Expr) (o : Bool) (t : Symbols),
    answersDistinct e o t = true → distinct (matchBindings e o t) = true
  | .typeTest _ _ _, o, t, _ => by
      cases o <;> simp [distinct, matchBindings]
  | .unary _ op e, o, t, h => by
      cases op with
      | not => exact distinct_of_answersDistinct e (!o) t h
      | neg => simp [distinct, matchBindings]
  | .binary _ op l r, o, t, h => by
      cases op with
      | and | or => exact (Bool.and_eq_true_iff.mp h).2
      | _ => simp [distinct, matchBindings]
  | .literal _ _, _, _, _ | .ident _ _, _, _, _ | .conditional _ _ _ _, _, _, _
  | .assign _ _ _, _, _, _ | .cast _ _ _, _, _, _ | .instanceOf _ _ _, _, _, _
  | .call _ _ _, _, _, _ | .methodCall _ _ _ _, _, _, _ | .letIn _ _ _, _, _, _ => by
      simp [distinct, matchBindings]

/-- A condition has bindings for one outcome at most, on every table. -/
theorem matchBindings_one_outcome : ∀ e : Expr, ∃ o, ∀ t, (matchBindings e o t).1 = []
  | .typeTest _ _ _ => ⟨false, fun _ => rfl⟩
  | .unary _ op e => by
      cases op with
      | neg => exact ⟨true, fun _ => rfl⟩
      | not =>
          obtain ⟨o, ho⟩ := matchBindings_one_outcome e
          exact ⟨!o, fun t => by simpa [matchBindings] using ho t⟩
  | .binary _ op l r => by
      obtain ⟨o, hl⟩ := matchBindings_one_outcome l
      obtain ⟨o', hr⟩ := matchBindings_one_outcome r
      -- nothing on one side of `both` is nothing
      have hleft : ∀ (t : Symbols) (right : List BindingId), (both t right []).1 = [] := fun _ _ => rfl
      have hright : ∀ (t : Symbols) (left : List BindingId), (both t [] left).1 = [] := by
        intro t left
        induction left with
        | nil => rfl
        | cons a left ih => exact ih
      cases op with
      | and =>
          cases o with
          | false => exact ⟨false, fun t => by simp [matchBindings, hl, hleft]⟩
          | true =>
              cases o' with
              | false => exact ⟨false, fun t => by simp [matchBindings, hr, hright]⟩
              | true => exact ⟨true, fun t => by simp [matchBindings, hl, hr, either]⟩
      | or =>
          cases o with
          | true => exact ⟨true, fun t => by simp [matchBindings, hl, hleft]⟩
          | false =>
              cases o' with
              | true => exact ⟨true, fun t => by simp [matchBindings, hr, hright]⟩
              | false => exact ⟨false, fun t => by simp [matchBindings, hl, hr, either]⟩
      | _ => exact ⟨true, fun _ => rfl⟩
  | .literal _ _ | .ident _ _ | .conditional _ _ _ _ | .assign _ _ _ | .cast _ _ _
  | .instanceOf _ _ _ | .call _ _ _ | .methodCall _ _ _ _ | .letIn _ _ _ => ⟨true, fun _ => rfl⟩

/-! ## §2. Lists of bindings. -/

/-- Bindings for patterns of a list, each for at least one, and no two for the same. -/
structure Listed (t : Symbols) (ms ts : List BindingId) : Prop where
  filled : ∀ m ∈ ms, ∃ leaf, leaf ∈ t.leaves m
  within : ∀ m ∈ ms, ∀ leaf ∈ t.leaves m, leaf ∈ ts
  apart : ms.Pairwise fun a b => Disjoint (t.leaves a) (t.leaves b)

namespace Listed

/-- Nothing is listed of no tests. -/
theorem nil (t : Symbols) (ts : List BindingId) : Listed t [] ts :=
  ⟨fun _ h => absurd h List.not_mem_nil, fun _ h => absurd h List.not_mem_nil, .nil⟩

/-- What is listed is in the table. -/
theorem has (h : Listed t ms ts) : ∀ m ∈ ms, t.Has m := by
  intro m hm
  obtain ⟨leaf, hleaf⟩ := h.filled m hm
  exact Symbols.has_of_mem_leaves hleaf

/-- A part of what is listed is listed of the same tests. -/
theorem sublist (h : Listed t ms ts) {ms' : List BindingId} (hsub : ms'.Sublist ms) :
    Listed t ms' ts :=
  ⟨fun m hm => h.filled m (hsub.subset hm), fun m hm => h.within m (hsub.subset hm),
    h.apart.sublist hsub⟩

/-- What is listed does not change with the table. -/
theorem grows (h : Listed t ms ts) (ht : t.Closed) (hgrows : t.Grows u) : Listed u ms ts := by
  have hleaves : ∀ m ∈ ms, u.leaves m = t.leaves m := fun m hm => hgrows.leaves_eq ht (h.has m hm)
  refine ⟨?_, ?_, ?_⟩
  · intro m hm
    rw [hleaves m hm]
    exact h.filled m hm
  · intro m hm
    rw [hleaves m hm]
    exact h.within m hm
  · refine h.apart.imp_of_mem ?_
    intro a b ha hb hab
    rw [hleaves a ha, hleaves b hb]
    exact hab

/-- Two lists of different tests are listed together. -/
theorem append (hl : Listed t left ts) (hr : Listed t right ts') (hcross : Disjoint ts ts') :
    Listed t (left ++ right) (ts ++ ts') := by
  refine ⟨?_, ?_, List.pairwise_append.mpr ⟨hl.apart, hr.apart, ?_⟩⟩
  · intro m hm
    exact (List.mem_append.mp hm).elim (hl.filled m) (hr.filled m)
  · intro m hm leaf hleaf
    refine List.mem_append.mpr ((List.mem_append.mp hm).imp ?_ ?_)
    · exact fun hm => hl.within m hm leaf hleaf
    · exact fun hm => hr.within m hm leaf hleaf
  · exact fun a ha b hb leaf hla hlb => hcross leaf (hl.within a ha leaf hla) (hr.within b hb leaf hlb)

end Listed

/-! ## §3. The bindings of both sides, or of either. -/

/-- What is matched in either of two ways is among what both list. -/
theorem either_sublist (t : Symbols) : ∀ (right left : List BindingId),
    (either t left right).Sublist (left ++ right)
  | [], left => by
      rw [List.append_nil]
      exact .refl left
  | b :: right, left => by
      unfold either
      rw [List.foldl_cons]
      split
      · exact (either_sublist t right left).trans ((List.Sublist.refl left).append (List.sublist_cons_self b right))
      · have h := either_sublist t right (left ++ [b])
        rwa [List.append_assoc] at h

/-- What has the name and type of one of two, has those of the other. -/
theorem sameVariable_of_common {a' : BindingId} (h : sameVariable t a b = true)
    (h' : sameVariable t a' b = true) : sameVariable t a a' = true := by
  obtain ⟨n, ha, hb⟩ := sameVariable_iff.mp h
  obtain ⟨n', ha', hb'⟩ := sameVariable_iff.mp h'
  rw [hb] at hb'
  injection hb' with hn
  exact sameVariable_iff.mpr ⟨n, ha, hn ▸ ha'⟩

/-- A binding for the patterns of a binding on the left and of the first on the
right of the same name and type. -/
def Pairs (t : Symbols) (left right : List BindingId) (leaves : List BindingId) : Prop :=
  ∃ a ∈ left, ∃ b, right.find? (sameVariable t a) = some b
    ∧ ∀ leaf, leaf ∈ leaves ↔ leaf ∈ t.leaves a ∨ leaf ∈ t.leaves b

/-- Two pairs share no pattern, if the left ones of both share none and are told
apart by name or type. -/
theorem Listed.pairs_disjoint (hleft : Listed t left ts) (hright : Listed t right ts')
    (hcross : Disjoint ts ts') {c d : BindingId} (ha : a ∈ left) (hc : c ∈ left)
    (hac : Disjoint (t.leaves a) (t.leaves c)) (hne : sameVariable t a c = false)
    (hb : right.find? (sameVariable t a) = some b) (hd : right.find? (sameVariable t c) = some d)
    {leaf : BindingId} (hleaf : leaf ∈ t.leaves a ∨ leaf ∈ t.leaves b) :
    ¬ (leaf ∈ t.leaves c ∨ leaf ∈ t.leaves d) := by
  have hbmem := List.mem_of_find?_eq_some hb
  have hdmem := List.mem_of_find?_eq_some hd
  have hbd : b ≠ d := by
    rintro rfl
    have hsame := sameVariable_of_common (List.find?_some hb) (List.find?_some hd)
    rw [hne] at hsame
    exact Bool.noConfusion hsame
  have hsymm : Std.Symm fun x y => Disjoint (t.leaves x) (t.leaves y) :=
    ⟨fun _ _ hxy leaf hy hx => hxy leaf hx hy⟩
  rcases hleaf with hla | hlb <;> rintro (hlc | hld)
  · exact hac leaf hla hlc
  · exact hcross leaf (hleft.within a ha leaf hla) (hright.within d hdmem leaf hld)
  · exact hcross leaf (hleft.within c hc leaf hlc) (hright.within b hbmem leaf hlb)
  · exact hright.apart.forall hbmem hdmem hbd leaf hlb hld

/-- Pairs on a later table are pairs on the one before, where the left ones are
of the same names and types. -/
theorem Pairs.earlier {leaves : List BindingId} (h : Pairs u left right leaves) (ht : t.Closed)
    (hgrows : t.Grows u) (hleft : ∀ a ∈ left, t.Has a) (hright : ∀ b ∈ right, t.Has b) :
    Pairs t left right leaves := by
  obtain ⟨c, hc, d, hd, hleaves⟩ := h
  have hcd : right.find? (sameVariable t c) = some d := by
    rw [← hd]
    exact List.find?_congr fun b hb => (sameVariable_grows hgrows (fun _ => hleft c hc) fun _ => hright b hb).symm
  refine ⟨c, hc, d, hcd, fun leaf => ?_⟩
  rw [hleaves, hgrows.mem_leaves ht (hleft c hc),
    hgrows.mem_leaves ht (hright d (List.mem_of_find?_eq_some hcd))]

/-- A further binding on the left changes no pair. -/
theorem Pairs.cons {leaves : List BindingId} (h : Pairs t left right leaves) (a : BindingId) :
    Pairs t (a :: left) right leaves := by
  obtain ⟨c, hc, hpair⟩ := h
  exact ⟨c, List.mem_cons_of_mem a hc, hpair⟩

/-- One more pair in front of a list of pairs. -/
theorem Listed.cons_pair (hleft : Listed t (a :: left) ts) (hright : Listed t right ts')
    (hcross : Disjoint ts ts') (hdistinct : ∀ c ∈ left, sameVariable t a c = false)
    (hfind : right.find? (sameVariable t a) = some b) {m : BindingId}
    (hleaves : ∀ leaf, leaf ∈ u.leaves m ↔ leaf ∈ t.leaves a ∨ leaf ∈ t.leaves b)
    (hlisted : Listed u ms (ts ++ ts')) (hpairs : ∀ x ∈ ms, Pairs t left right (u.leaves x)) :
    Listed u (m :: ms) (ts ++ ts') := by
  obtain ⟨hdisjoint, -⟩ := List.pairwise_cons.mp hleft.apart
  refine ⟨?_, ?_, List.pairwise_cons.mpr ⟨?_, hlisted.apart⟩⟩
  · refine List.forall_mem_cons.mpr ⟨?_, hlisted.filled⟩
    obtain ⟨leaf, hleaf⟩ := hleft.filled a List.mem_cons_self
    exact ⟨leaf, (hleaves leaf).mpr (.inl hleaf)⟩
  · refine List.forall_mem_cons.mpr ⟨fun leaf hleaf => ?_, hlisted.within⟩
    refine List.mem_append.mpr (((hleaves leaf).mp hleaf).imp ?_ ?_)
    · exact hleft.within a List.mem_cons_self leaf
    · exact hright.within b (List.mem_of_find?_eq_some hfind) leaf
  · intro x hx leaf hleaf hleaf'
    obtain ⟨c, hc, d, hd, hpair⟩ := hpairs x hx
    exact hleft.pairs_disjoint hright hcross List.mem_cons_self (List.mem_cons_of_mem _ hc)
      (hdisjoint c hc) (hdistinct c hc) hfind hd ((hleaves leaf).mp hleaf) ((hpair leaf).mp hleaf')

/-- **The bindings of both sides**, of which the left ones are told apart by
name or type. -/
theorem both_listed (hcross : Disjoint ts ts') : ∀ {left : List BindingId} {t : Symbols}, t.Closed →
    Listed t right ts' → Listed t left ts → (left.Pairwise fun a b => sameVariable t a b = false) →
      (both t right left).2.Closed ∧ Listed (both t right left).2 (both t right left).1 (ts ++ ts')
        ∧ ∀ m ∈ (both t right left).1, Pairs t left right ((both t right left).2.leaves m)
  | [], t, ht, _, _, _ => ⟨ht, .nil t _, fun _ hm => absurd hm List.not_mem_nil⟩
  | a :: left, t, ht, hright, hleft, hdistinct => by
      obtain ⟨hhead, htail⟩ := List.pairwise_cons.mp hdistinct
      have hleft' : Listed t left ts := hleft.sublist (List.sublist_cons_self a left)
      have ha : t.Has a := hleft.has a List.mem_cons_self
      cases hfind : right.find? (sameVariable t a) with
      | none =>
          have hbind : (right.find? (sameVariable t a)).bind (t.merge? a) = none := by rw [hfind]; rfl
          obtain ⟨hclosed, hlisted, hpairs⟩ := both_listed hcross ht hright hleft' htail
          simp only [both, hbind]
          exact ⟨hclosed, hlisted, fun m hm => (hpairs m hm).cons a⟩
      | some b =>
          have hb := List.mem_of_find?_eq_some hfind
          obtain ⟨m, t', hm⟩ := Symbols.merge?_isSome ha (hright.has b hb)
          have hbind : (right.find? (sameVariable t a)).bind (t.merge? a) = some (m, t') := by
            rw [hfind]
            exact hm
          have ht' := ht.merge hm
          have hgrows := Symbols.merge?_grows hm
          -- the others are on the left of a table that has grown
          have htail' : left.Pairwise fun x y => sameVariable t' x y = false := by
            refine htail.imp_of_mem fun hx hy hxy => ?_
            rw [sameVariable_grows hgrows (fun _ => hleft'.has _ hx) fun _ => hleft'.has _ hy]
            exact hxy
          obtain ⟨hclosed, hlisted, hpairs⟩ := both_listed hcross ht' (hright.grows ht hgrows)
            (hleft'.grows ht hgrows) htail'
          have hmore := both_grows right left t'
          simp only [both, hbind]
          generalize both t' right left = answer at hclosed hlisted hpairs hmore ⊢
          have hrest : ∀ x ∈ answer.1, Pairs t left right (answer.2.leaves x) :=
            fun x hx => (hpairs x hx).earlier ht hgrows hleft'.has hright.has
          have hleaves : ∀ leaf, leaf ∈ answer.2.leaves m ↔ leaf ∈ t.leaves a ∨ leaf ∈ t.leaves b := by
            intro leaf
            obtain ⟨other, hother⟩ := hleft.filled a List.mem_cons_self
            have hhas : t'.Has m := Symbols.has_of_mem_leaves ((ht.mem_leaves_merge hm).mpr (.inl hother))
            rw [hmore.mem_leaves ht' hhas, ht.mem_leaves_merge hm]
          refine ⟨hclosed, hleft.cons_pair hright hcross hhead hfind hleaves hlisted hrest, ?_⟩
          exact List.forall_mem_cons.mpr
            ⟨⟨a, List.mem_cons_self, b, hfind, hleaves⟩, fun x hx => (hrest x hx).cons a⟩

/-! ## §4. The lists of a condition. -/

/-- **What is listed for a condition** shares no pattern. -/
theorem matchBindings_listed : ∀ (e : Expr) (o : Bool) (t : Symbols), t.Closed →
    (∀ leaf ∈ e.tests, t.isLeaf leaf = true) → e.tests.Nodup → answersDistinct e o t = true →
      (matchBindings e o t).2.Closed ∧ Listed (matchBindings e o t).2 (matchBindings e o t).1 e.tests
  | .typeTest _ e pattern, o, t, ht, hleaf, _, _ => by
      have hmem : pattern.binding ∈ (Expr.typeTest ‹_› e pattern).tests := by
        simp
      have hleaves := Symbols.leaves_of_isLeaf (hleaf _ hmem)
      cases o with
      | false => exact ⟨ht, .nil t _⟩
      | true =>
          show t.Closed ∧ Listed t [pattern.binding] _
          refine ⟨ht, ?_, ?_, List.pairwise_singleton _ _⟩
          · intro m hm
            rw [List.mem_singleton.mp hm, hleaves]
            exact ⟨pattern.binding, List.mem_singleton.mpr rfl⟩
          · intro m hm leaf hleaf
            rw [List.mem_singleton.mp hm, hleaves] at hleaf
            exact List.mem_singleton.mp hleaf ▸ hmem
  | .unary _ op e, o, t, ht, hleaf, hnodup, hdistinct => by
      rw [Expr.tests_unary] at hleaf hnodup ⊢
      cases op with
      | neg => exact ⟨ht, .nil t _⟩
      | not => exact matchBindings_listed e (!o) t ht hleaf hnodup hdistinct
  | .binary _ op l r, o, t, ht, hleaf, hnodup, hdistinct => by
      rw [Expr.tests_binary] at hleaf hnodup ⊢
      obtain ⟨hl, hr, hcross⟩ := List.nodup_append.mp hnodup
      have hdisjoint : Disjoint l.tests r.tests := fun leaf hl hr => hcross leaf hl leaf hr rfl
      -- both operands, one after the other
      have hoperands : (answersDistinct l o t && answersDistinct r o (matchBindings l o t).2) = true →
          (matchBindings r o (matchBindings l o t).2).2.Closed
            ∧ Listed (matchBindings r o (matchBindings l o t).2).2 (matchBindings l o t).1 l.tests
            ∧ Listed (matchBindings r o (matchBindings l o t).2).2
                (matchBindings r o (matchBindings l o t).2).1 r.tests
            ∧ (matchBindings l o t).1.Pairwise fun a b =>
                sameVariable (matchBindings r o (matchBindings l o t).2).2 a b = false := by
        intro hparts
        obtain ⟨hdl, hdr⟩ := Bool.and_eq_true_iff.mp hparts
        have hgrows := matchBindings_grows r o (matchBindings l o t).2
        obtain ⟨hclosed, hlisted⟩ := matchBindings_listed l o t ht
          (fun leaf hmem => hleaf leaf (List.mem_append_left _ hmem)) hl hdl
        obtain ⟨hclosed', hlisted'⟩ := matchBindings_listed r o (matchBindings l o t).2 hclosed
          (fun leaf hmem => (matchBindings_grows l o t).isLeaf (hleaf leaf (List.mem_append_right _ hmem)))
          hr hdr
        refine ⟨hclosed', hlisted.grows hclosed hgrows, hlisted', ?_⟩
        refine (decide_eq_true_eq.mp (distinct_of_answersDistinct l o t hdl)).imp_of_mem ?_
        intro a b ha hb hab
        rw [sameVariable_grows hgrows (fun _ => hlisted.has a ha) fun _ => hlisted.has b hb]
        exact hab
      have heither := fun hparts => (hoperands hparts).2.1.append (hoperands hparts).2.2.1 hdisjoint
      have hboth := fun hparts => both_listed hdisjoint (hoperands hparts).1 (hoperands hparts).2.2.1
        (hoperands hparts).2.1 (hoperands hparts).2.2.2
      cases op with
      | and =>
          obtain ⟨hparts, -⟩ := Bool.and_eq_true_iff.mp hdistinct
          cases o with
          | true => exact ⟨(hoperands hparts).1, (heither hparts).sublist (either_sublist _ _ _)⟩
          | false => exact ⟨(hboth hparts).1, (hboth hparts).2.1⟩
      | or =>
          obtain ⟨hparts, -⟩ := Bool.and_eq_true_iff.mp hdistinct
          cases o with
          | true => exact ⟨(hboth hparts).1, (hboth hparts).2.1⟩
          | false => exact ⟨(hoperands hparts).1, (heither hparts).sublist (either_sublist _ _ _)⟩
      | _ => exact ⟨ht, .nil t _⟩
  | .literal _ _, _, t, ht, _, _, _ | .ident _ _, _, t, ht, _, _, _
  | .conditional _ _ _ _, _, t, ht, _, _, _ | .assign _ _ _, _, t, ht, _, _, _
  | .cast _ _ _, _, t, ht, _, _, _ | .instanceOf _ _ _, _, t, ht, _, _, _
  | .call _ _ _, _, t, ht, _, _, _ | .methodCall _ _ _ _, _, t, ht, _, _, _
  | .letIn _ _ _, _, t, ht, _, _, _ => ⟨ht, .nil t _⟩

/-- The lists for both outcomes, of which one is empty. -/
theorem all_listed {e : Expr} (ht : t.Closed) (hleaf : ∀ leaf ∈ e.tests, t.isLeaf leaf = true)
    (hnodup : e.tests.Nodup) (htrue : answersDistinct e true t = true)
    (hfalse : answersDistinct e false (matchBindings e true t).2 = true) :
    (Oracle.all matchBindings e t).2.Closed
      ∧ Listed (Oracle.all matchBindings e t).2 (Oracle.all matchBindings e t).1 e.tests := by
  obtain ⟨hclosed, hlisted⟩ := matchBindings_listed e true t ht hleaf hnodup htrue
  obtain ⟨hclosed', hlisted'⟩ := matchBindings_listed e false (matchBindings e true t).2 hclosed
    (fun leaf hmem => (matchBindings_grows e true t).isLeaf (hleaf leaf hmem)) hnodup hfalse
  refine ⟨hclosed', ?_⟩
  show Listed _ ((matchBindings e true t).1 ++ (matchBindings e false (matchBindings e true t).2).1) _
  obtain ⟨o, ho⟩ := matchBindings_one_outcome e
  cases o with
  | true =>
      rw [ho, List.nil_append]
      exact hlisted'
  | false =>
      rw [ho, List.append_nil]
      exact hlisted.grows hclosed (matchBindings_grows e false _)

end Flow

end PatternIR
