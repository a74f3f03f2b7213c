/-
  PatternIR.Proofs.Flow.Groups
  ────────────────────────────
  **WHAT A CONDITION BINDS, as groups of patterns.**

  The bindings that the structural oracle lists depend on the table, which has
  a unified binding for a set of patterns or gets one.  What they stand for
  does not: each is a group of patterns of the condition, which `groups` reads
  from the condition alone:

    • `e instanceof T x` has the group `[x]` when true;
    • `a && b` has those of both when true; when false, each group of `a` is
      joined to the first of `b` for a variable of the same name and type.

  The patterns of a condition being different, and no two groups of a list
  being for the same name and type, groups are disjoint, and a condition has
  them for one outcome only.

    • `grouped` — the oracle lists one binding for each group, and no two share a pattern;
    • `groups_one_outcome` — there are groups for one outcome at most;
    • `groups_grows` — a later table has the same groups.
-/
import Mathlib.Data.List.Find
import Mathlib.Data.List.Forall2
import Mathlib.Data.List.Pairwise
import PatternIR.Proofs.Flow.Matches
import PatternIR.Proofs.Gather
import PatternIR.Proofs.Tables

namespace PatternIR

namespace Flow

open Symbols (Grows)

/-! ## §1. Groups. -/

/-- Whether two groups are for a variable of the same name and type. -/
def sameGroup (s : Symbols) : List BindingId → List BindingId → Bool
  | a :: _, b :: _ => sameVariable s a b
  | _, _ => false

/-- Join each group on the left to the first one on the right for the same variable. -/
def joined (s : Symbols) (right left : List (List BindingId)) : List (List BindingId) :=
  left.filterMap fun g => (right.find? (sameGroup s g)).map (g ++ ·)

/-- The groups of patterns of which one has matched for certain once a
condition has come out. -/
def groups (s : Symbols) : Expr → Bool → List (List BindingId)
  | .typeTest _ _ pattern, outcome => if outcome then [[pattern.binding]] else []
  | .unary _ .not operand, outcome => groups s operand (!outcome)
  | .binary _ .and left right, outcome =>
    if outcome then groups s left outcome ++ groups s right outcome
    else joined s (groups s right outcome) (groups s left outcome)
  | .binary _ .or left right, outcome =>
    if outcome then joined s (groups s right outcome) (groups s left outcome)
    else groups s left outcome ++ groups s right outcome
  | _, _ => []

variable {s t u : Symbols}

/-- What is joined is a pair of groups for one variable, the first such on the right. -/
theorem mem_joined {right left : List (List BindingId)} {g : List BindingId} :
    g ∈ joined s right left ↔ ∃ a ∈ left, ∃ b, right.find? (sameGroup s a) = some b ∧ g = a ++ b := by
  unfold joined
  rw [List.mem_filterMap]
  constructor
  · rintro ⟨a, ha, h⟩
    obtain ⟨b, hb, rfl⟩ := Option.map_eq_some_iff.mp h
    exact ⟨a, ha, b, hb, rfl⟩
  · rintro ⟨a, ha, b, hb, rfl⟩
    exact ⟨a, ha, by rw [hb]; rfl⟩

/-- Nothing is joined with no groups on the left. -/
@[simp] theorem joined_nil (right : List (List BindingId)) : joined s right [] = [] := rfl

/-- Nor with none on the right. -/
@[simp] theorem joined_nil_right (left : List (List BindingId)) : joined s [] left = [] := by
  simp [joined]

/-- A group is made of patterns of its condition, and has one. -/
theorem groups_tests : ∀ (e : Expr) (o : Bool), ∀ g ∈ groups s e o,
    g ≠ [] ∧ ∀ leaf ∈ g, leaf ∈ e.tests
  | .typeTest _ e pattern, o, g, h => by
      cases o with
      | false => exact absurd h (by simp [groups])
      | true =>
          rw [List.mem_singleton.mp h]
          refine ⟨by simp, ?_⟩
          intro leaf hleaf
          rw [List.mem_singleton.mp hleaf]
          simp
  | .unary _ op e, o, g, h => by
      cases op with
      | neg => exact absurd h (by simp [groups])
      | not =>
          obtain ⟨hne, hg⟩ := groups_tests e (!o) g h
          exact ⟨hne, fun leaf hleaf => by simpa using hg leaf hleaf⟩
  | .binary _ op l r, o, g, h => by
      have htests : ∀ {leaf}, leaf ∈ l.tests ∨ leaf ∈ r.tests → leaf ∈ (Expr.binary ‹_› op l r).tests :=
        fun h => by simpa using h
      -- an outcome that needs both operands has the groups of both, the other one joins them
      have happend : g ∈ groups s l o ++ groups s r o →
          g ≠ [] ∧ ∀ leaf ∈ g, leaf ∈ (Expr.binary ‹_› op l r).tests := by
        intro h
        rcases List.mem_append.mp h with h | h
        · obtain ⟨hne, hg⟩ := groups_tests l o g h
          exact ⟨hne, fun leaf hleaf => htests (.inl (hg leaf hleaf))⟩
        · obtain ⟨hne, hg⟩ := groups_tests r o g h
          exact ⟨hne, fun leaf hleaf => htests (.inr (hg leaf hleaf))⟩
      have hjoined : g ∈ joined s (groups s r o) (groups s l o) →
          g ≠ [] ∧ ∀ leaf ∈ g, leaf ∈ (Expr.binary ‹_› op l r).tests := by
        intro h
        obtain ⟨a, ha, b, hb, rfl⟩ := mem_joined.mp h
        obtain ⟨hne, hga⟩ := groups_tests l o a ha
        obtain ⟨-, hgb⟩ := groups_tests r o b (List.mem_of_find?_eq_some hb)
        refine ⟨by simp [hne], ?_⟩
        intro leaf hleaf
        rcases List.mem_append.mp hleaf with hleaf | hleaf
        · exact htests (.inl (hga leaf hleaf))
        · exact htests (.inr (hgb leaf hleaf))
      cases op with
      | and =>
          cases o with
          | true => exact happend h
          | false => exact hjoined h
      | or =>
          cases o with
          | true => exact hjoined h
          | false => exact happend h
      | _ => exact absurd h (by simp [groups])
  | .literal _ _, _, _, h | .ident _ _, _, _, h | .conditional _ _ _ _, _, _, h
  | .assign _ _ _, _, _, h | .cast _ _ _, _, _, h | .instanceOf _ _ _, _, _, h
  | .call _ _ _, _, _, h | .methodCall _ _ _ _, _, _, h | .letIn _ _ _, _, _, h =>
      absurd h (by simp [groups])

/-- A condition has groups for one outcome at most. -/
theorem groups_one_outcome (s : Symbols) : ∀ e : Expr, ∃ o, groups s e o = []
  | .typeTest _ _ _ => ⟨false, rfl⟩
  | .unary _ op e => by
      cases op with
      | neg => exact ⟨true, rfl⟩
      | not =>
          obtain ⟨o, ho⟩ := groups_one_outcome s e
          exact ⟨!o, by simpa [groups] using ho⟩
  | .binary _ op l r => by
      obtain ⟨o, hl⟩ := groups_one_outcome s l
      obtain ⟨o', hr⟩ := groups_one_outcome s r
      cases op with
      | and =>
          cases o with
          | false => exact ⟨false, by simp [groups, hl]⟩
          | true =>
              cases o' with
              | false => exact ⟨false, by simp [groups, hr]⟩
              | true => exact ⟨true, by simp [groups, hl, hr]⟩
      | or =>
          cases o with
          | true => exact ⟨true, by simp [groups, hl]⟩
          | false =>
              cases o' with
              | true => exact ⟨true, by simp [groups, hr]⟩
              | false => exact ⟨false, by simp [groups, hl, hr]⟩
      | _ => exact ⟨true, rfl⟩
  | .literal _ _ | .ident _ _ | .conditional _ _ _ _ | .assign _ _ _ | .cast _ _ _
  | .instanceOf _ _ _ | .call _ _ _ | .methodCall _ _ _ _ | .letIn _ _ _ => ⟨true, rfl⟩

/-! ## §2. The bindings that stand for them. -/

/-- A binding of the table stands for a group of patterns. -/
def Stands (t : Symbols) (b : BindingId) (g : List BindingId) : Prop :=
  t.Has b ∧ ∀ leaf, leaf ∈ t.leaves b ↔ leaf ∈ g

/-- A binding that stands for a group goes on doing so as the table grows. -/
theorem Stands.grows (ht : t.Sound) (h : t.Grows u) {b : BindingId} {g : List BindingId}
    (hb : Stands t b g) : Stands u b g := by
  refine ⟨h.has hb.1, ?_⟩
  intro leaf
  rw [h.mem_leaves ht.ordered.closed hb.1]
  exact hb.2 leaf

/-- Two bindings are for one variable if they are called the same. -/
theorem sameVariable_iff {a b : BindingId} :
    sameVariable t a b = true ↔ ∃ n, t.named? a = some n ∧ t.named? b = some n := by
  unfold sameVariable Symbols.named?
  cases ha : t.binding? a with
  | none => simp
  | some x =>
      cases hb : t.binding? b with
      | none => simp
      | some y =>
          simp only [Option.map_some, Option.some.injEq, Bool.and_eq_true, decide_eq_true_eq]
          constructor
          · rintro ⟨hname, hty⟩
            exact ⟨_, rfl, by rw [hname, hty]⟩
          · rintro ⟨n, rfl, hn⟩
            injection hn with hname hty
            exact ⟨hname.symm, hty.symm⟩

/-- Patterns of the table, at least one, all for a variable of the same name and type. -/
structure IsGroup (s : Symbols) (g : List BindingId) : Prop where
  ne : g ≠ []
  has : ∀ leaf ∈ g, s.Has leaf
  alike : ∀ leaf ∈ g, ∀ leaf' ∈ g, s.named? leaf = s.named? leaf'

section

variable (hst : s.Grows t) (ht : t.Sound)

include hst ht

/-- A binding has the name and the type of each pattern of the group it stands for. -/
theorem Stands.named? {b leaf : BindingId} {g : List BindingId} (hb : Stands t b g)
    (hg : IsGroup s g) (hleaf : leaf ∈ g) : s.named? leaf = t.named? b := by
  obtain ⟨leaf', hleaf', hnamed⟩ := ht.named.exists_leaf ht.ordered hb.1
  have hmem := (hb.2 leaf').mp hleaf'
  rw [hg.alike leaf hleaf leaf' hmem, ← hst.named? (hg.has leaf' hmem), hnamed]

/-- Bindings are for one variable as their groups are. -/
theorem sameVariable_eq {a b : BindingId} {g h : List BindingId} (ha : Stands t a g)
    (hb : Stands t b h) (hg : IsGroup s g) (hh : IsGroup s h) :
    sameVariable t a b = sameGroup s g h := by
  cases g with
  | nil => exact absurd rfl hg.ne
  | cons x g =>
      cases h with
      | nil => exact absurd rfl hh.ne
      | cons y h =>
          refine Bool.eq_iff_iff.mpr ?_
          rw [sameGroup, sameVariable_iff, sameVariable_iff,
            ha.named? hst ht hg List.mem_cons_self, hb.named? hst ht hh List.mem_cons_self]

end

/-- Searching two lists that correspond, for things that correspond. -/
theorem find?_of_forall₂ {α β : Type} {R : α → β → Prop} {p : α → Bool} {q : β → Bool} {xs : List α}
    {ys : List β} (h : List.Forall₂ R xs ys) (hpq : ∀ x ∈ xs, ∀ y ∈ ys, R x y → p x = q y) :
    (xs.find? p = none ∧ ys.find? q = none)
      ∨ ∃ x y, xs.find? p = some x ∧ ys.find? q = some y ∧ R x y := by
  induction h with
  | nil => exact .inl ⟨rfl, rfl⟩
  | @cons x y xs ys hxy _ ih =>
      have hhead := hpq x List.mem_cons_self y List.mem_cons_self hxy
      rw [List.find?_cons, List.find?_cons, hhead]
      cases q y with
      | true => exact .inr ⟨x, y, rfl, rfl, hxy⟩
      | false =>
          exact ih fun x hx y hy => hpq x (List.mem_cons_of_mem _ hx) y (List.mem_cons_of_mem _ hy)

/-- The patterns of a group are for a variable of the same name and type. -/
theorem groups_alike : ∀ (e : Expr) (o : Bool), ∀ g ∈ groups s e o,
    ∀ leaf ∈ g, ∀ leaf' ∈ g, s.named? leaf = s.named? leaf'
  | .typeTest _ e pattern, o, g, h => by
      cases o with
      | false => exact absurd h (by simp [groups])
      | true =>
          intro leaf hleaf leaf' hleaf'
          rw [List.mem_singleton.mp h] at hleaf hleaf'
          rw [List.mem_singleton.mp hleaf, List.mem_singleton.mp hleaf']
  | .unary _ op e, o, g, h => by
      cases op with
      | neg => exact absurd h (by simp [groups])
      | not => exact groups_alike e (!o) g h
  | .binary _ op l r, o, g, h => by
      have happend : g ∈ groups s l o ++ groups s r o →
          ∀ leaf ∈ g, ∀ leaf' ∈ g, s.named? leaf = s.named? leaf' := by
        intro h
        rcases List.mem_append.mp h with h | h
        · exact groups_alike l o g h
        · exact groups_alike r o g h
      have hjoined : g ∈ joined s (groups s r o) (groups s l o) →
          ∀ leaf ∈ g, ∀ leaf' ∈ g, s.named? leaf = s.named? leaf' := by
        intro h
        obtain ⟨a, ha, b, hb, rfl⟩ := mem_joined.mp h
        have hla := groups_alike l o a ha
        have hrb := groups_alike r o b (List.mem_of_find?_eq_some hb)
        -- the first patterns of both groups agree, and each group with its first one
        cases a with
        | nil => exact absurd (List.find?_some hb) (by simp [sameGroup])
        | cons x a =>
            cases b with
            | nil => exact absurd (List.find?_some hb) (by simp [sameGroup])
            | cons y b =>
                have hsame : sameGroup s (x :: a) (y :: b) = true := List.find?_some hb
                obtain ⟨n, hx, hy⟩ := sameVariable_iff.mp hsame
                have hall : ∀ leaf ∈ (x :: a) ++ (y :: b), s.named? leaf = some n := by
                  intro leaf hleaf
                  rcases List.mem_append.mp hleaf with hleaf | hleaf
                  · rw [hla leaf hleaf x List.mem_cons_self, hx]
                  · rw [hrb leaf hleaf y List.mem_cons_self, hy]
                intro leaf hleaf leaf' hleaf'
                rw [hall leaf hleaf, hall leaf' hleaf']
      cases op with
      | and =>
          cases o with
          | true => exact happend h
          | false => exact hjoined h
      | or =>
          cases o with
          | true => exact hjoined h
          | false => exact happend h
      | _ => exact absurd h (by simp [groups])
  | .literal _ _, _, _, h | .ident _ _, _, _, h | .conditional _ _ _ _, _, _, h
  | .assign _ _ _, _, _, h | .cast _ _ _, _, _, h | .instanceOf _ _ _, _, _, h
  | .call _ _ _, _, _, h | .methodCall _ _ _ _, _, _, h | .letIn _ _ _, _, _, h =>
      absurd h (by simp [groups])

/-- The groups of a list are groups. -/
def Made (s : Symbols) (gs : List (List BindingId)) : Prop := ∀ g ∈ gs, IsGroup s g

/-- The groups of a condition are made of its tests. -/
theorem made_groups {e : Expr} {o : Bool} (hs : ∀ leaf ∈ e.tests, s.isLeaf leaf = true) :
    Made s (groups s e o) := by
  intro g hg
  obtain ⟨hne, htests⟩ := groups_tests e o g hg
  exact ⟨hne, fun leaf hleaf => .of_isLeaf (hs leaf (htests leaf hleaf)), groups_alike e o g hg⟩

/-- The same of a list of bindings. -/
theorem forall₂_grows (ht : t.Sound) (h : t.Grows u) {bs : List BindingId}
    {gs : List (List BindingId)} (hbs : List.Forall₂ (Stands t) bs gs) :
    List.Forall₂ (Stands u) bs gs :=
  hbs.imp fun _ _ => Stands.grows ht h

/-- What `both` lists stands for the joined groups. -/
theorem both_groups {right : List BindingId} {rs : List (List BindingId)} (hrs : Made s rs) :
    ∀ {left : List BindingId} {ls : List (List BindingId)} {t : Symbols}, Made s ls → s.Grows t →
      t.Sound → List.Forall₂ (Stands t) right rs → List.Forall₂ (Stands t) left ls →
      (both t right left).2.Sound
        ∧ List.Forall₂ (Stands (both t right left).2) (both t right left).1 (joined s rs ls)
  | [], [], t, hls, hst, ht, hright, hleft => ⟨ht, .nil⟩
  | a :: left, g :: ls, t, hls, hst, ht, hright, hleft => by
      obtain ⟨hag, hleft⟩ := List.forall₂_cons.mp hleft
      have hls' : Made s ls := fun x hx => hls x (List.mem_cons_of_mem _ hx)
      have hsame : ∀ b ∈ right, ∀ h ∈ rs, Stands t b h → sameVariable t a b = sameGroup s g h :=
        fun b _ h hh hbh => sameVariable_eq hst ht hag hbh (hls g List.mem_cons_self) (hrs h hh)
      unfold both joined
      rcases find?_of_forall₂ hright hsame with ⟨hnone, hnone'⟩ | ⟨b, h, hb, hh, hbh⟩
      · rw [hnone, List.filterMap_cons, hnone']
        exact both_groups hrs hls' hst ht hright hleft
      · obtain ⟨m, t', hm⟩ := Symbols.merge?_isSome hag.1 hbh.1
        have hgrows := Symbols.merge?_grows hm
        have ht' : t'.Sound := ht.merge hm
        have hstands : Stands t' m (g ++ h) := by
          refine ⟨ht.ordered.has_merge hm, ?_⟩
          intro leaf
          rw [ht.ordered.closed.mem_leaves_merge hm, hag.2, hbh.2, List.mem_append]
        obtain ⟨hsound, hrest⟩ := both_groups hrs hls' (hst.trans hgrows) ht'
          (forall₂_grows ht hgrows hright) (forall₂_grows ht hgrows hleft)
        rw [hb, List.filterMap_cons, hh]
        simp only [Option.bind_some, hm, Option.map_some]
        exact ⟨hsound, .cons (hstands.grows ht' (both_grows right left t')) hrest⟩

/-- Groups that share no pattern. -/
def Disjoint (g h : List BindingId) : Prop := ∀ leaf ∈ g, leaf ∉ h

/-- Bindings for disjoint groups share no leaf. -/
theorem Stands.not_alias (ht : t.Sound) {a b : BindingId} {g h : List BindingId}
    (ha : Stands t a g) (hb : Stands t b h) (hgh : Disjoint g h) : t.isAliasFor a b = false := by
  refine Bool.eq_false_iff.mpr ?_
  intro halias
  rcases Symbols.isAliasFor_iff.mp halias with rfl | ⟨leaf, hleaf, hleaf'⟩
  · obtain ⟨leaf, hleaf⟩ := ht.ordered.exists_leaf ha.1
    exact hgh leaf ((ha.2 leaf).mp hleaf) ((hb.2 leaf).mp hleaf)
  · exact hgh leaf ((ha.2 leaf).mp hleaf) ((hb.2 leaf).mp hleaf')

/-- Bindings for different patterns are not aliases, so `either` lists them all. -/
theorem either_eq (ht : t.Sound) {right : List BindingId} {rs : List (List BindingId)}
    (hright : List.Forall₂ (Stands t) right rs) : ∀ {left : List BindingId}
    {ls : List (List BindingId)}, List.Forall₂ (Stands t) left ls →
      (ls ++ rs).Pairwise Disjoint → either t left right = left ++ right := by
  induction hright with
  | nil =>
      intro left ls _ _
      rw [List.append_nil]
      rfl
  | @cons b h right rs hb _ ih =>
      intro left ls hleft hdisjoint
      have hno : (left.any fun a => t.isAliasFor a b) = false := by
        refine List.any_eq_false.mpr ?_
        intro a ha
        obtain ⟨g, hg, hag⟩ := exists_of_forall₂ hleft ha
        have hcross := (List.pairwise_append.mp hdisjoint).2.2 g hg h List.mem_cons_self
        simp [hag.not_alias ht hb hcross]
      have hnext : List.Forall₂ (Stands t) (left ++ [b]) (ls ++ [h]) :=
        List.rel_append hleft (.cons hb .nil)
      rw [either, List.foldl_cons, if_neg (by simp [hno])]
      have hrest := ih hnext (by rwa [List.append_assoc])
      rw [List.append_assoc] at hrest
      exact hrest

/-! ## §3. The answers of the oracle. -/

/-- No answer for a part of the expression has two bindings of the same name and type. -/
def Apart (s : Symbols) (e : Expr) : Prop :=
  ∀ x ∈ e.walk, ∀ o, (matchBindings x o s).1.Pairwise fun a b =>
    sameVariable (matchBindings x o s).2 a b = false

/-- The groups of a condition are for different variables and share no
pattern, and on every later table the oracle lists one binding for each. -/
structure Grouped (s : Symbols) (e : Expr) : Prop where
  distinct : ∀ o, (groups s e o).Pairwise fun g h => sameGroup s g h = false
  disjoint : ∀ o, (groups s e o).Pairwise Disjoint
  stands : ∀ o {t : Symbols}, s.Grows t → t.Sound → (matchBindings e o t).2.Sound
    ∧ List.Forall₂ (Stands (matchBindings e o t).2) (matchBindings e o t).1 (groups s e o)

instance : Std.Symm Disjoint := ⟨fun _ _ hgh leaf hh hg => hgh leaf hg hh⟩

/-- Groups that two groups are for the same variable as, are for one variable. -/
theorem sameGroup_of_common {g g' h : List BindingId} (hg : sameGroup s g h = true)
    (hg' : sameGroup s g' h = true) : sameGroup s g g' = true := by
  cases g with
  | nil => exact absurd hg (by simp [sameGroup])
  | cons a g =>
      cases g' with
      | nil => exact absurd hg' (by simp [sameGroup])
      | cons a' g' =>
          cases h with
          | nil => exact absurd hg (by simp [sameGroup])
          | cons b h =>
              obtain ⟨n, ha, hb⟩ := sameVariable_iff.mp hg
              obtain ⟨n', ha', hb'⟩ := sameVariable_iff.mp hg'
              rw [hb] at hb'
              injection hb' with hn
              subst hn
              exact sameVariable_iff.mpr ⟨n, ha, ha'⟩

/-- Bindings of different names or types stand for groups of different variables. -/
theorem distinct_of_apart (hst : s.Grows t) (ht : t.Sound) {bs : List BindingId}
    {gs : List (List BindingId)} (hbs : List.Forall₂ (Stands t) bs gs) (hgs : Made s gs)
    (hapart : bs.Pairwise fun a b => sameVariable t a b = false) :
    gs.Pairwise fun g h => sameGroup s g h = false := by
  induction hbs with
  | nil => exact .nil
  | @cons b g bs gs hbg hrest ih =>
      obtain ⟨hhead, htail⟩ := List.pairwise_cons.mp hapart
      refine List.pairwise_cons.mpr ⟨?_, ih (fun x hx => hgs x (List.mem_cons_of_mem _ hx)) htail⟩
      intro h hh
      obtain ⟨a, ha, hah⟩ := exists_of_forall₂ hrest.flip hh
      rw [← sameVariable_eq hst ht hbg hah (hgs g List.mem_cons_self)
        (hgs h (List.mem_cons_of_mem _ hh))]
      exact hhead a ha

/-- Joined groups of disjoint ones for different variables are disjoint. -/
theorem joined_disjoint {ls rs : List (List BindingId)}
    (hdistinct : ls.Pairwise fun g h => sameGroup s g h = false) (hls : ls.Pairwise Disjoint)
    (hrs : rs.Pairwise Disjoint) (hcross : ∀ g ∈ ls, ∀ h ∈ rs, Disjoint g h) :
    (joined s rs ls).Pairwise Disjoint := by
  unfold joined
  refine List.pairwise_filterMap.mpr ?_
  refine (hdistinct.and hls).imp_of_mem ?_
  rintro g g' hg hg' ⟨hne, hgg⟩ x hx x' hx'
  obtain ⟨h, hh, rfl⟩ := Option.map_eq_some_iff.mp hx
  obtain ⟨h', hh', rfl⟩ := Option.map_eq_some_iff.mp hx'
  have hhmem := List.mem_of_find?_eq_some hh
  have hhmem' := List.mem_of_find?_eq_some hh'
  have hhh : Disjoint h h' := by
    refine hrs.forall hhmem hhmem' ?_
    rintro rfl
    have hsame := sameGroup_of_common (List.find?_some hh) (List.find?_some hh')
    exact absurd hsame (by simp [hne])
  intro leaf hleaf hleaf'
  rcases List.mem_append.mp hleaf with h₁ | h₁ <;> rcases List.mem_append.mp hleaf' with h₂ | h₂
  · exact hgg leaf h₁ h₂
  · exact hcross g hg h' hhmem' leaf h₁ h₂
  · exact hcross g' hg' h hhmem leaf h₂ h₁
  · exact hhh leaf h₁ h₂

/-- What holds of the answers for the two sides of an operator that lists both. -/
theorem either_groups {l r : Expr} {o : Bool} (hl : Grouped s l) (hr : Grouped s r)
    (hcross : ∀ leaf ∈ l.tests, leaf ∉ r.tests) :
    (groups s l o ++ groups s r o).Pairwise Disjoint
      ∧ ∀ {t : Symbols}, s.Grows t → t.Sound →
        (matchBindings r o (matchBindings l o t).2).2.Sound
          ∧ List.Forall₂ (Stands (matchBindings r o (matchBindings l o t).2).2)
              (either (matchBindings r o (matchBindings l o t).2).2 (matchBindings l o t).1
                (matchBindings r o (matchBindings l o t).2).1)
              (groups s l o ++ groups s r o) := by
  have hdisjoint : (groups s l o ++ groups s r o).Pairwise Disjoint := by
    refine List.pairwise_append.mpr ⟨hl.disjoint o, hr.disjoint o, ?_⟩
    intro g hg h hh leaf hleaf hleaf'
    exact hcross leaf ((groups_tests l o g hg).2 leaf hleaf) ((groups_tests r o h hh).2 leaf hleaf')
  refine ⟨hdisjoint, ?_⟩
  intro t hst ht
  have hgrows := matchBindings_grows l o t
  obtain ⟨htl, hls⟩ := hl.stands o hst ht
  obtain ⟨htr, hrs⟩ := hr.stands o (hst.trans hgrows) htl
  have hls' := forall₂_grows htl (matchBindings_grows r o _) hls
  refine ⟨htr, ?_⟩
  rw [either_eq htr hrs hls' hdisjoint]
  exact List.rel_append hls' hrs

/-- What holds of the answers for the two sides of an operator that pairs them up. -/
theorem paired_groups {l r : Expr} {o : Bool} (hl : Grouped s l) (hr : Grouped s r)
    (hleaves : ∀ leaf, leaf ∈ l.tests ∨ leaf ∈ r.tests → s.isLeaf leaf = true)
    (hcross : ∀ leaf ∈ l.tests, leaf ∉ r.tests) :
    (joined s (groups s r o) (groups s l o)).Pairwise Disjoint
      ∧ ∀ {t : Symbols}, s.Grows t → t.Sound →
        (both (matchBindings r o (matchBindings l o t).2).2
            (matchBindings r o (matchBindings l o t).2).1 (matchBindings l o t).1).2.Sound
          ∧ List.Forall₂
              (Stands (both (matchBindings r o (matchBindings l o t).2).2
                (matchBindings r o (matchBindings l o t).2).1 (matchBindings l o t).1).2)
              (both (matchBindings r o (matchBindings l o t).2).2
                (matchBindings r o (matchBindings l o t).2).1 (matchBindings l o t).1).1
              (joined s (groups s r o) (groups s l o)) := by
  constructor
  · refine joined_disjoint (hl.distinct o) (hl.disjoint o) (hr.disjoint o) ?_
    intro g hg h hh leaf hleaf hleaf'
    exact hcross leaf ((groups_tests l o g hg).2 leaf hleaf) ((groups_tests r o h hh).2 leaf hleaf')
  · intro t hst ht
    have hgrows := matchBindings_grows l o t
    have hgrows' := matchBindings_grows r o (matchBindings l o t).2
    obtain ⟨htl, hls⟩ := hl.stands o hst ht
    obtain ⟨htr, hrs⟩ := hr.stands o (hst.trans hgrows) htl
    exact both_groups (made_groups fun leaf h => hleaves leaf (.inr h))
      (made_groups fun leaf h => hleaves leaf (.inl h)) (hst.trans (hgrows.trans hgrows')) htr hrs
      (forall₂_grows htl hgrows' hls)

/-- What a condition lists stands for its groups, if its parts are apart. -/
theorem grouped_of_stands {e : Expr} (hs : s.Sound) (hleaves : ∀ leaf ∈ e.tests, s.isLeaf leaf = true)
    (hapart : Apart s e) (hself : e ∈ e.walk)
    (h : ∀ o, (groups s e o).Pairwise Disjoint ∧ ∀ {t : Symbols}, s.Grows t → t.Sound →
      (matchBindings e o t).2.Sound
        ∧ List.Forall₂ (Stands (matchBindings e o t).2) (matchBindings e o t).1 (groups s e o)) :
    Grouped s e where
  distinct o := by
    obtain ⟨ht, hstands⟩ := (h o).2 (.refl s) hs
    exact distinct_of_apart (matchBindings_grows e o s) ht hstands (made_groups hleaves)
      (hapart e hself o)
  disjoint o := (h o).1
  stands o := (h o).2

/-- **What the oracle lists stands for the groups**, if the patterns of an
expression are different and no answer has two bindings for one variable. -/
theorem grouped (hs : s.Sound) : ∀ e : Expr, (∀ leaf ∈ e.tests, s.isLeaf leaf = true) →
    e.tests.Nodup → Apart s e → Grouped s e
  | .typeTest i e pattern, hleaves, _, hapart => by
      have hpattern : s.isLeaf pattern.binding = true := hleaves _ (by simp)
      refine grouped_of_stands hs hleaves hapart (by simp [Expr.walk]) ?_
      intro o
      cases o with
      | false => exact ⟨.nil, fun _ ht => ⟨ht, .nil⟩⟩
      | true =>
          refine ⟨List.pairwise_singleton _ _, fun hst ht => ⟨ht, .cons ⟨?_, ?_⟩ .nil⟩⟩
          · exact hst.has (.of_isLeaf hpattern)
          · intro leaf
            rw [show (matchBindings (.typeTest i e pattern) true _).2.leaves pattern.binding
              = [pattern.binding] from Symbols.leaves_of_isLeaf (hst.isLeaf hpattern)]
  | .unary i op e, hleaves, hnodup, hapart => by
      cases op with
      | neg =>
          exact grouped_of_stands hs hleaves hapart (by simp [Expr.walk])
            fun o => ⟨.nil, fun _ ht => ⟨ht, .nil⟩⟩
      | not =>
          have htests := Expr.tests_unary i .not e
          have he := grouped hs e (htests ▸ hleaves) (htests ▸ hnodup)
            fun x hx => hapart x (by simp [Expr.walk, hx])
          exact grouped_of_stands hs hleaves hapart (by simp [Expr.walk])
            fun o => ⟨he.disjoint (!o), he.stands (!o)⟩
  | .binary i op l r, hleaves, hnodup, hapart => by
      rw [Expr.tests_binary] at hnodup
      obtain ⟨hnl, hnr, hcross⟩ := List.nodup_append.mp hnodup
      have hcross : ∀ leaf ∈ l.tests, leaf ∉ r.tests := fun leaf h h' => hcross leaf h leaf h' rfl
      have hleaves' : ∀ leaf, leaf ∈ l.tests ∨ leaf ∈ r.tests → s.isLeaf leaf = true :=
        fun leaf h => hleaves leaf (by rw [Expr.tests_binary]; exact List.mem_append.mpr h)
      have hl := grouped hs l (fun leaf h => hleaves' leaf (.inl h)) hnl
        fun x hx => hapart x (by simp [Expr.walk, hx])
      have hr := grouped hs r (fun leaf h => hleaves' leaf (.inr h)) hnr
        fun x hx => hapart x (by simp [Expr.walk, hx])
      refine grouped_of_stands hs hleaves hapart (by simp [Expr.walk]) ?_
      intro o
      -- `&&` that holds and `||` that fails tell of both operands, the others of either
      have heither := either_groups (o := o) hl hr hcross
      have hpaired := paired_groups (o := o) hl hr hleaves' hcross
      cases op with
      | and =>
          cases o with
          | true => exact heither
          | false => exact hpaired
      | or =>
          cases o with
          | true => exact hpaired
          | false => exact heither
      | _ => exact ⟨.nil, fun _ ht => ⟨ht, .nil⟩⟩
  | .literal _ _, hleaves, _, hapart | .ident _ _, hleaves, _, hapart
  | .conditional _ _ _ _, hleaves, _, hapart | .assign _ _ _, hleaves, _, hapart
  | .cast _ _ _, hleaves, _, hapart | .instanceOf _ _ _, hleaves, _, hapart
  | .call _ _ _, hleaves, _, hapart | .methodCall _ _ _ _, hleaves, _, hapart
  | .letIn _ _ _, hleaves, _, hapart =>
      grouped_of_stands hs hleaves hapart (by simp [Expr.walk]) fun _ => ⟨.nil, fun _ ht => ⟨ht, .nil⟩⟩

/-! ## §4. Groups of a later table. -/

/-- Two bindings that are not new are still for a variable of the same name and type, or not. -/
theorem sameVariable_grows (hgrows : t.Grows u) {a b : BindingId} (ha : u.Has a → t.Has a)
    (hb : u.Has b → t.Has b) : sameVariable u a b = sameVariable t a b := by
  refine Bool.eq_iff_iff.mpr ?_
  rw [sameVariable_iff, sameVariable_iff, hgrows.named?_of_old ha, hgrows.named?_of_old hb]

/-- Whether two groups are for one variable does not change as the table grows. -/
theorem sameGroup_grows (hgrows : t.Grows u) {g h : List BindingId} (hg : ∀ leaf ∈ g, t.Has leaf)
    (hh : ∀ leaf ∈ h, t.Has leaf) : sameGroup u g h = sameGroup t g h := by
  cases g with
  | nil => rfl
  | cons a g =>
      cases h with
      | nil => rfl
      | cons b h => exact sameVariable_grows hgrows (fun _ => hg a List.mem_cons_self) fun _ => hh b List.mem_cons_self

/-- Nor does what is joined. -/
theorem joined_grows (hgrows : t.Grows u) (right left : List (List BindingId))
    (hright : ∀ g ∈ right, ∀ leaf ∈ g, t.Has leaf) (hleft : ∀ g ∈ left, ∀ leaf ∈ g, t.Has leaf) :
    joined u right left = joined t right left := by
  refine List.filterMap_congr fun g hg => ?_
  have hfind : right.find? (sameGroup u g) = right.find? (sameGroup t g) :=
    List.find?_congr fun h hh => sameGroup_grows hgrows (hleft g hg) (hright h hh)
  rw [hfind]

/-- A later table has the same groups. -/
theorem groups_grows (hgrows : t.Grows u) : ∀ (e : Expr) (o : Bool), (∀ leaf ∈ e.tests, t.Has leaf) →
    groups u e o = groups t e o
  | .typeTest _ _ _, _, _ => rfl
  | .unary i op e, o, h => by
      cases op with
      | neg => rfl
      | not => exact groups_grows hgrows e (!o) fun leaf hleaf => h leaf (by
          simpa using hleaf)
  | .binary i op l r, o, h => by
      have hl : ∀ leaf ∈ l.tests, t.Has leaf := fun leaf hleaf => h leaf (by
        simp only [Expr.tests, Expr.gather_binary, List.mem_append] at hleaf ⊢
        exact .inr (.inl hleaf))
      have hr : ∀ leaf ∈ r.tests, t.Has leaf := fun leaf hleaf => h leaf (by
        simp only [Expr.tests, Expr.gather_binary, List.mem_append] at hleaf ⊢
        exact .inr (.inr hleaf))
      have hjoined := joined_grows hgrows (groups t r o) (groups t l o)
        (fun g hg leaf hleaf => hr leaf ((groups_tests r o g hg).2 leaf hleaf))
        fun g hg leaf hleaf => hl leaf ((groups_tests l o g hg).2 leaf hleaf)
      have ihl := groups_grows hgrows l o hl
      have ihr := groups_grows hgrows r o hr
      cases op with
      | and | or => cases o <;> simp [groups, ihl, ihr, hjoined]
      | _ => rfl
  | .literal _ _, _, _ | .ident _ _, _, _ | .conditional _ _ _ _, _, _ | .assign _ _ _, _, _
  | .cast _ _ _, _, _ | .instanceOf _ _ _, _, _ | .call _ _ _, _, _ | .methodCall _ _ _ _, _, _
  | .letIn _ _ _, _, _ => rfl

end Flow

end PatternIR
