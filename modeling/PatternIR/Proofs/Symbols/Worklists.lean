/-
  PatternIR.Proofs.Symbols.Worklists
  ──────────────────────────────────
  **LOOPS OVER PENDING BINDINGS, and that they end.**

  To mark a binding, and to list its leaves, a stack of pending bindings is
  enough: take up the latest one and put what it unifies on top, until nothing
  is pending.  Nothing records what has been taken up.  A shared part is taken
  up once for each way that leads to it, and on a cycle the loop does not end.

  Without a cycle it ends, and has taken up exactly what can be reached:

      Drains visit s xs (own x₁ then own x₂ …)  with  {x₁, x₂, …} = what xs reach

    • `Drains` — the runs of the loop that end;
    • `exists_drains` — what it takes up, on a graph without infinite ways;
    • `Acyclic` — tables on which no binding is a part of itself;
    • `markLoop_iff`, `leavesLoop_iff` — the loops end as `preserve` and
      `leaves` do;
    • `marking_exact` — what marking does, once and again.
-/
import Mathlib.Data.List.Dedup
import Mathlib.Data.List.Sort
import Mathlib.Data.Set.Finite.Basic
import Mathlib.Order.WellFoundedSet
import PatternIR.Proofs.Symbols.Marking

namespace PatternIR

/-! ## §1. The loop. -/

section

variable {σ α : Type}

/-- The loop ends, from one state with what is pending in another: take up what
is pending, the latest first, until nothing is.  To take up `x` changes the state
and leaves more pending, its last on top. -/
inductive Drains (visit : σ → α → σ × List α) : σ → List α → σ → Prop
  | done (s : σ) : Drains visit s [] s
  | turn {s t : σ} {x : α} {rest : List α} :
      Drains visit (visit s x).1 ((visit s x).2.reverse ++ rest) t → Drains visit s (x :: rest) t

variable {visit : σ → α → σ × List α} {next : α → List α} {own : σ → α → σ} {Inv : σ → Prop}

/-- The loop ends in one state only. -/
theorem Drains.unique {s t u : σ} {pending : List α} (h : Drains visit s pending t)
    (h' : Drains visit s pending u) : t = u := by
  induction h with
  | done s =>
      cases h' with
      | done => rfl
  | turn _ ih =>
      cases h' with
      | turn h' => exact ih h'

/-- The loop goes from `s` on through all that can be reached from `xs`, and
then on with what else is pending. -/
def PassesThrough (visit : σ → α → σ × List α) (next : α → List α) (own : σ → α → σ) (Inv : σ → Prop)
    (xs : List α) : Prop :=
  ∀ s rest, Inv s → ∃ taken : List α, Inv (taken.foldl own s)
    ∧ (∀ t, Drains visit (taken.foldl own s) rest t → Drains visit s (xs ++ rest) t)
    ∧ ∀ y, y ∈ taken ↔ ∃ x ∈ xs, Reaches next x y

/-- What passes through for each of some nodes passes through for all of them. -/
theorem PassesThrough.list : ∀ {xs : List α}, (∀ x ∈ xs, PassesThrough visit next own Inv [x]) →
    PassesThrough visit next own Inv xs
  | [], _ => fun s rest hs => ⟨[], hs, fun _ h => h, fun y => by simp⟩
  | x :: xs, h => by
      intro s rest hs
      obtain ⟨first, hfirst, hstep, hmem⟩ := h x List.mem_cons_self s (xs ++ rest) hs
      obtain ⟨more, hmore, hrest, hmem'⟩ :=
        PassesThrough.list (fun y hy => h y (List.mem_cons_of_mem _ hy)) (first.foldl own s) rest hfirst
      refine ⟨first ++ more, ?_, fun t ht => ?_, fun y => ?_⟩
      · rw [List.foldl_append]
        exact hmore
      · rw [List.foldl_append] at ht
        exact hstep t (hrest t ht)
      · rw [List.mem_append, hmem, hmem']
        simp

/-- One node: it is taken up itself, and then what it has put on top. -/
theorem passesThrough_single (hvisit : ∀ s x, Inv s → visit s x = (own s x, next x))
    (hown : ∀ s x, Inv s → Inv (own s x)) (hwf : WellFounded fun y x => y ∈ next x) (x : α) :
    PassesThrough visit next own Inv [x] := by
  induction x using hwf.induction with
  | h x ih =>
      intro s rest hs
      have hparts : PassesThrough visit next own Inv (next x).reverse :=
        .list fun y hy => ih y (List.mem_reverse.mp hy)
      obtain ⟨taken, htaken, hrest, hmem⟩ := hparts (own s x) rest (hown s x hs)
      refine ⟨x :: taken, htaken, fun t ht => .turn ?_, fun y => ?_⟩
      · rw [hvisit s x hs]
        exact hrest t ht
      · rw [List.mem_cons, hmem]
        constructor
        · rintro (rfl | ⟨z, hz, hzy⟩)
          · exact ⟨y, List.mem_singleton.mpr rfl, .refl⟩
          · exact ⟨x, List.mem_singleton.mpr rfl, .head (List.mem_reverse.mp hz) hzy⟩
        · rintro ⟨z, hz, hzy⟩
          rw [List.mem_singleton.mp hz] at hzy
          rcases hzy.cases_head with rfl | ⟨w, hw, hwy⟩
          · exact .inl rfl
          · exact .inr ⟨w, List.mem_reverse.mpr hw, hwy⟩

/-- **The loop ends** on a graph without infinite ways, and what it has taken up
is what can be reached from what was pending. -/
theorem exists_drains (hvisit : ∀ s x, Inv s → visit s x = (own s x, next x))
    (hown : ∀ s x, Inv s → Inv (own s x)) (hwf : WellFounded fun y x => y ∈ next x)
    (pending : List α) {s : σ} (hs : Inv s) :
    ∃ taken : List α, Drains visit s pending (taken.foldl own s)
      ∧ ∀ y, y ∈ taken ↔ ∃ x ∈ pending, Reaches next x y := by
  have hpass : PassesThrough visit next own Inv pending :=
    .list fun x _ => passesThrough_single hvisit hown hwf x
  obtain ⟨taken, -, hends, hmem⟩ := hpass s [] hs
  have hloop := hends _ (.done _)
  rw [List.append_nil] at hloop
  exact ⟨taken, hloop, hmem⟩

end

namespace Symbols

variable {s t : Symbols}

/-! ## §2. Tables without cycles. -/

/-- No binding is a part of itself, directly or not. -/
def Acyclic (s : Symbols) : Prop := ∀ b, ¬ Relation.TransGen (fun x y => y ∈ s.parts x) b b

/-- A rank that falls along parts. -/
theorem acyclic_of_rank (rank : BindingId → Nat) (h : ∀ b c, c ∈ s.parts b → rank c < rank b) :
    s.Acyclic := by
  intro b hb
  have hfall : ∀ {x y}, Relation.TransGen (fun x y => y ∈ s.parts x) x y → rank y < rank x := by
    intro x y hxy
    induction hxy with
    | single hstep => exact h _ _ hstep
    | tail _ hstep ih => exact Nat.lt_trans (h _ _ hstep) ih
  exact Nat.lt_irrefl _ (hfall hb)

/-- Components in front of what they unify make no cycle. -/
theorem Ordered.acyclic (h : s.Ordered) : s.Acyclic :=
  acyclic_of_rank BindingId.index fun _ _ hc => h.earlier hc

/-- A table has finitely many bindings, so without a cycle there are no infinite
ways along parts. -/
theorem Acyclic.wellFounded (h : s.Acyclic) : WellFounded fun c b => c ∈ s.parts b := by
  let Below : BindingId → BindingId → Prop := fun c b =>
    Relation.TransGen (fun x y => y ∈ s.parts x) b c
  have strict : IsStrictOrder BindingId Below :=
    { irrefl := h, trans := fun a b c hab hbc => hbc.trans hab }
  have hfinite : {b : BindingId | s.Has b}.Finite := by
    refine Set.Finite.subset (s.bindingIds.finite_toSet) ?_
    intro b hb
    exact mem_bindingIds.mpr hb
  have hinside := hfinite.wellFoundedOn (r := Below)
  -- what is outside of the table has no parts
  have houtside : ∀ b, ¬ s.Has b → Acc (fun c b => c ∈ s.parts b) b := fun b hb =>
    ⟨_, fun c hc => absurd (has_of_mem_parts hc) hb⟩
  refine ⟨fun b => ?_⟩
  by_cases hb : s.Has b
  · refine hinside.induction (P := fun b => Acc (fun c b => c ∈ s.parts b) b) hb ?_
    intro x hx ih
    refine ⟨_, fun c hc => ?_⟩
    by_cases hc' : s.Has c
    · exact ih c hc' (.single hc)
    · exact houtside c hc'
  · exact houtside b hb

/-! ## §3. The loop that marks. -/

/-- Set the flag of one binding, if the table has it. -/
def setFlag (s : Symbols) (id : BindingId) : Symbols :=
  { s with bindings := s.bindings.modify id.index fun b => { b with preserved := true } }

/-- Take up one binding to mark: set its flag and go on with what it unifies, but
pass over a pattern of the source that has its flag. -/
def markOne (s : Symbols) (id : BindingId) : Symbols × List BindingId :=
  match s.binding? id with
  | none => (s, [])
  | some b =>
    if b.preserved && b.components.isEmpty then (s, [])
    else (s.setFlag id, b.components)

/-- The loop that marks a binding ends in the table `t`. -/
def MarkLoop (s : Symbols) (id : BindingId) (t : Symbols) : Prop := Drains markOne s [id] t

/-- Marking an entry changes its flag alone. -/
theorem binding?_setFlag (s : Symbols) (id b : BindingId) :
    (s.setFlag id).binding? b
      = (s.binding? b).map fun sym => { sym with preserved := sym.preserved || decide (id = b) } := by
  obtain ⟨i⟩ := id
  obtain ⟨j⟩ := b
  simp only [setFlag, binding?, Array.getElem?_modify, BindingId.mk.injEq]
  split
  next h => simp [h]
  next h => simp [h]

/-- It changes no components. -/
theorem parts_setFlag (s : Symbols) (id : BindingId) : (s.setFlag id).parts = s.parts := by
  funext b
  simp only [parts, binding?_setFlag, Option.map_map]
  rfl

/-- To set a flag that is set does nothing. -/
theorem setFlag_eq {id : BindingId} (h : ∀ sym, s.binding? id = some sym → sym.preserved = true) :
    s.setFlag id = s := by
  refine ext_entries rfl fun b => ?_
  rw [binding?_setFlag]
  cases hb : s.binding? b with
  | none => rfl
  | some sym =>
      have hkeep : (sym.preserved || decide (id = b)) = sym.preserved := by
        by_cases heq : id = b
        · subst heq
          rw [h sym hb, Bool.true_or]
        · rw [decide_eq_false heq, Bool.or_false]
      simp only [Option.map_some, hkeep]

/-- The turn of the loop in one form: a binding that is passed over has its flag,
and no parts. -/
theorem markOne_eq (s : Symbols) (id : BindingId) : s.markOne id = (s.setFlag id, s.parts id) := by
  unfold markOne
  cases hid : s.binding? id with
  | none =>
      rw [setFlag_eq fun sym hsym => absurd (hid.symm.trans hsym) (by simp)]
      simp [parts, hid]
  | some b =>
      rw [parts_of_some hid]
      simp only
      split
      next h =>
        simp only [Bool.and_eq_true, List.isEmpty_iff] at h
        have hflag : ∀ sym, s.binding? id = some sym → sym.preserved = true := fun sym hsym => by
          rw [← Option.some.inj (hid.symm.trans hsym)]
          exact h.1
        rw [setFlag_eq hflag, h.2]
      next => rfl

theorem foldl_setFlag_vars (taken : List BindingId) (s : Symbols) :
    (taken.foldl setFlag s).vars = s.vars := by
  induction taken generalizing s with
  | nil => rfl
  | cons id taken ih => exact ih (s.setFlag id)

theorem binding?_foldl_setFlag (taken : List BindingId) (s : Symbols) (b : BindingId) :
    (taken.foldl setFlag s).binding? b
      = (s.binding? b).map fun sym => { sym with preserved := sym.preserved || decide (b ∈ taken) } := by
  induction taken generalizing s with
  | nil => simp
  | cons id taken ih =>
      rw [List.foldl_cons, ih, binding?_setFlag, Option.map_map]
      refine Option.map_congr fun sym _ => ?_
      simp only [Function.comp_apply, Bool.or_assoc, List.mem_cons, Bool.decide_or, eq_comm]

/-- **Marking by the loop** ends on a table without cycles, and marks what
`preserve` does. -/
theorem markLoop_iff (h : s.Acyclic) {id : BindingId} : s.MarkLoop id t ↔ t = s.preserve id := by
  -- the parts of the table stay those it had before
  have hvisit : ∀ (t : Symbols) (x : BindingId), t.parts = s.parts → markOne t x = (t.setFlag x, s.parts x) :=
    fun t x ht => by rw [markOne_eq, ht]
  have hkeep : ∀ (t : Symbols) (x : BindingId), t.parts = s.parts → (t.setFlag x).parts = s.parts :=
    fun t x ht => (parts_setFlag t x).trans ht
  obtain ⟨taken, hloop, hmem⟩ := exists_drains hvisit hkeep h.wellFounded [id] rfl
  have hmarked : taken.foldl setFlag s = s.preserve id := by
    refine ext_entries (foldl_setFlag_vars taken s) fun b => ?_
    rw [binding?_foldl_setFlag, binding?_preserve]
    refine Option.map_congr fun sym hsym => ?_
    have hmark : decide (b ∈ taken) = Marks.has (s.closure [id]) b := by
      rw [Bool.eq_iff_iff, decide_eq_true_iff, hmem, closure_has (binding?_eq_some_lt hsym)]
    rw [hmark]
  rw [hmarked] at hloop
  constructor
  · exact fun ht => ht.unique hloop
  · rintro rfl
    exact hloop

/-! ## §4. The loop that lists leaves. -/

/-- Take up one binding to list its leaves: go on with what it unifies, and list
it if that is nothing. -/
def listOne (s : Symbols) (out : List BindingId) (id : BindingId) : List BindingId × List BindingId :=
  match s.binding? id with
  | none => (out, [])
  | some b => if b.isMerged then (out, b.components) else (out ++ [id], [])

/-- In increasing order, each once. -/
def sortedOnce (ids : List BindingId) : List BindingId :=
  (ids.mergeSort fun a b => decide (a.index ≤ b.index)).dedup

/-- The loop that lists the leaves of a binding ends with `ids`, once they are sorted. -/
def LeavesLoop (s : Symbols) (id : BindingId) (ids : List BindingId) : Prop :=
  ∃ out, Drains s.listOne [] [id] out ∧ sortedOnce out = ids

/-- A leaf is listed, another binding is looked into. -/
theorem listOne_eq (s : Symbols) (out : List BindingId) (id : BindingId) :
    s.listOne out id = (if s.isLeaf id then out ++ [id] else out, s.parts id) := by
  unfold listOne
  cases hid : s.binding? id with
  | none => simp [isLeaf, parts, hid]
  | some b =>
      rw [parts_of_some hid]
      cases hb : b.isMerged with
      | true => simp [isLeaf, hid, hb]
      | false =>
          have hparts : b.components = [] := by simpa [BindingSymbol.isMerged] using hb
          simp [isLeaf, hid, hb, hparts]

theorem foldl_listed (taken out : List BindingId) :
    taken.foldl (fun out id => if s.isLeaf id then out ++ [id] else out) out
      = out ++ taken.filter s.isLeaf := by
  induction taken generalizing out with
  | nil => simp
  | cons id taken ih =>
      rw [List.foldl_cons, ih]
      cases hid : s.isLeaf id <;> simp [hid]

/-- The leaves of a binding stand in increasing order, each once. -/
theorem leaves_increasing (s : Symbols) (id : BindingId) :
    (s.leaves id).Pairwise fun a b => a.index < b.index := by
  rw [leaves_eq_leavesOf]
  refine List.Pairwise.filter _ ?_
  exact List.Pairwise.map BindingId.mk (fun _ _ h => h) List.pairwise_lt_range

/-- Sorting once changes neither which ids there are. -/
theorem mem_sortedOnce {ids : List BindingId} {x : BindingId} : x ∈ sortedOnce ids ↔ x ∈ ids := by
  rw [sortedOnce, List.mem_dedup, List.mem_mergeSort]

/-- A list in increasing order is known by its members. -/
theorem sortedOnce_eq {ids leaves : List BindingId} (hleaves : leaves.Pairwise fun a b => a.index < b.index)
    (h : ∀ x, x ∈ ids ↔ x ∈ leaves) : sortedOnce ids = leaves := by
  have htrans : ∀ a b c : BindingId, decide (a.index ≤ b.index) = true → decide (b.index ≤ c.index) = true →
      decide (a.index ≤ c.index) = true := fun _ _ _ hab hbc =>
    decide_eq_true (Nat.le_trans (of_decide_eq_true hab) (of_decide_eq_true hbc))
  have htotal : ∀ a b : BindingId, (decide (a.index ≤ b.index) || decide (b.index ≤ a.index)) = true := fun a b => by
    simp only [Bool.or_eq_true, decide_eq_true_eq]
    exact Nat.le_total a.index b.index
  have hsorted : (sortedOnce ids).Pairwise fun a b => a.index ≤ b.index :=
    ((List.pairwise_mergeSort htrans htotal ids).imp fun hab => of_decide_eq_true hab).sublist (List.dedup_sublist _)
  have honce : leaves.Nodup := hleaves.imp fun hab heq => by
    rw [heq] at hab
    exact Nat.lt_irrefl _ hab
  have hperm : (sortedOnce ids).Perm leaves :=
    (List.perm_ext_iff_of_nodup (List.nodup_dedup _) honce).mpr fun x => mem_sortedOnce.trans (h x)
  refine hperm.eq_of_pairwise ?_ hsorted (hleaves.imp Nat.le_of_lt)
  intro a b _ _ hab hba
  obtain ⟨i⟩ := a
  obtain ⟨j⟩ := b
  exact congrArg BindingId.mk (Nat.le_antisymm hab hba)

/-- **Listing leaves by the loop** ends on a table without cycles, and lists what
`leaves` does. -/
theorem leavesLoop_iff (h : s.Acyclic) {id : BindingId} {ids : List BindingId} :
    s.LeavesLoop id ids ↔ ids = s.leaves id := by
  have hvisit : ∀ (out : List BindingId) (x : BindingId), True →
      s.listOne out x = (if s.isLeaf x then out ++ [x] else out, s.parts x) := fun out x _ => s.listOne_eq out x
  obtain ⟨taken, hloop, hmem⟩ := exists_drains hvisit (fun _ _ _ => trivial) h.wellFounded [id] (s := []) trivial
  rw [foldl_listed, List.nil_append] at hloop
  have hleaves : sortedOnce (taken.filter s.isLeaf) = s.leaves id := by
    refine sortedOnce_eq (s.leaves_increasing id) fun x => ?_
    rw [List.mem_filter, hmem, mem_leaves, and_comm]
    simp
  constructor
  · rintro ⟨out, hout, rfl⟩
    rw [hout.unique hloop, hleaves]
  · rintro rfl
    exact ⟨_, hloop, hleaves⟩

/-! ## §5. Marking on a table without cycles. -/

/-- Marking makes no cycle. -/
theorem Acyclic.preserve (h : s.Acyclic) (id : BindingId) : (s.preserve id).Acyclic := by
  unfold Acyclic
  rw [parts_preserve]
  exact h

/-- **Marking by the loop, once and again.**  On a table without cycles the loop
ends, in one table.  There the flags of what can be reached from the binding are
set, all others are kept, and nothing else has changed.  From that table on the
loop changes nothing at all; and to mark one binding after another ends in one
table, whichever is the first. -/
theorem marking_exact (h : s.Acyclic) (id : BindingId) :
    ∃ t, (∀ u, s.MarkLoop id u ↔ u = t) ∧ t = s.preserve id
      ∧ t.vars = s.vars
      ∧ (∀ b, t.binding? b = (s.binding? b).map fun sym => { sym with preserved := t.isPreserved b })
      ∧ (∀ b, t.isPreserved b = true ↔ s.isPreserved b = true ∨ s.Has b ∧ Reaches s.parts id b)
      ∧ (∀ u, t.MarkLoop id u ↔ u = t)
      ∧ ∀ other, ∃ v, ∀ w, (t.MarkLoop other w ↔ w = v) ∧ ((∃ u, s.MarkLoop other u ∧ u.MarkLoop id w) ↔ w = v) := by
  have hmarked := h.preserve id
  refine ⟨s.preserve id, fun u => markLoop_iff h, rfl, rfl, fun b => ?_, fun b => isPreserved_preserve,
    fun u => ?_, fun other => ⟨(s.preserve id).preserve other, fun w => ⟨markLoop_iff hmarked, ?_⟩⟩⟩
  · rw [isPreserved, binding?_preserve]
    exact Option.map_congr fun sym hsym => by simp [hsym]
  · rw [markLoop_iff hmarked, (marked_preserve s id).preserve_eq]
  · rw [preserve_comm]
    constructor
    · rintro ⟨u, hu, hw⟩
      rw [markLoop_iff h] at hu
      subst hu
      exact (markLoop_iff (h.preserve other)).mp hw
    · rintro rfl
      exact ⟨_, (markLoop_iff h).mpr rfl, (markLoop_iff (h.preserve other)).mpr rfl⟩

/-- A binding with two parts that share a third one and a part that the table
lacks.  One of the two is marked before, and parts stand behind what unifies them. -/
def sharedPart : Symbols :=
  ⟨#[], #[⟨⟨0⟩, "x", .null, none, false, [⟨1⟩, ⟨2⟩, ⟨9⟩]⟩, ⟨⟨1⟩, "x", .null, none, false, [⟨3⟩]⟩,
    ⟨⟨2⟩, "x", .null, none, true, [⟨3⟩]⟩, ⟨⟨3⟩, "x", .null, none, false, []⟩]⟩

theorem sharedPart_acyclic : sharedPart.Acyclic := by
  refine acyclic_of_rank (fun b => 4 - b.index) fun b c hc => ?_
  have hall : ∀ i < 4, ∀ c ∈ sharedPart.parts ⟨i⟩, 4 - c.index < 4 - i := by decide
  exact hall b.index (has_of_mem_parts hc) c hc

/-- To mark the first binding marks all four. -/
theorem marking_exact_shared : sharedPart.Acyclic ∧ ∃ t, sharedPart.MarkLoop ⟨0⟩ t
    ∧ (∀ i < 4, t.isPreserved ⟨i⟩ = true) ∧ t.MarkLoop ⟨0⟩ t := by
  obtain ⟨t, hloop, rfl, -, -, -, hagain, -⟩ := marking_exact sharedPart_acyclic ⟨0⟩
  exact ⟨sharedPart_acyclic, _, (hloop _).mpr rfl, by decide, (hagain _).mpr rfl⟩

end Symbols

end PatternIR
