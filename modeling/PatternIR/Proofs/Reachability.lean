/-
  PatternIR.Proofs.Reachability
  ─────────────────────────────
  **THE SEARCH FINDS EXACTLY WHAT CAN BE REACHED.**

  `explore` takes up each node once.  As long as it is given at least as many
  steps as there are unmarked nodes, it ends with a set of marks that is
  closed under successors:

    • `explore_keeps` — what was marked stays marked;
    • `explore_sound` — what is marked was marked before or can be reached;
    • `explore_complete` — what can be reached from a pending node is marked.
-/
import Mathlib.Data.List.TakeWhile
import Mathlib.Logic.Relation
import PatternIR.Search

namespace PatternIR

variable {σ α : Type} [Marks σ α]

/-- `y` can be reached from `x` along `next`. -/
def Reaches (next : α → List α) : α → α → Prop :=
  Relation.ReflTransGen fun x y => y ∈ next x

namespace Reaches

variable {next more : α → List α} {x y z : α}

/-- Each node reaches itself. -/
theorem refl : Reaches next x x := Relation.ReflTransGen.refl

/-- A step in front. -/
theorem head (hxy : y ∈ next x) (hyz : Reaches next y z) : Reaches next x z :=
  Relation.ReflTransGen.head hxy hyz

/-- More edges reach at least as much. -/
theorem mono (h : ∀ a b, b ∈ next a → b ∈ more a) (hxy : Reaches next x y) :
    Reaches more x y :=
  Relation.ReflTransGen.mono h x y hxy

/-- What is reached is the start, or reached from one of its successors. -/
theorem cases_head (h : Reaches next x y) : x = y ∨ ∃ z ∈ next x, Reaches next z y := by
  rcases Relation.ReflTransGen.cases_head h with h | ⟨z, hz, hzy⟩
  · exact .inl h
  · exact .inr ⟨z, hz, hzy⟩

end Reaches

/-! ## §1. Marks are kept, and nothing else is marked. -/

/-- The first pending node that is not marked, if there is one, with what is
pending behind it. -/
theorem dropWhile_cons {p : α → Bool} {pending rest : List α} {x : α}
    (h : pending.dropWhile p = x :: rest) :
    p x = false ∧ x ∈ pending ∧ (∀ y ∈ rest, y ∈ pending)
      ∧ ∀ y ∈ pending, p y = true ∨ y = x ∨ y ∈ rest := by
  induction pending with
  | nil => simp at h
  | cons a pending ih =>
      cases hp : p a with
      | true =>
          rw [List.dropWhile_cons_of_pos hp] at h
          obtain ⟨hx, hmem, hrest, hall⟩ := ih h
          refine ⟨hx, List.mem_cons_of_mem _ hmem,
            fun y hy => List.mem_cons_of_mem _ (hrest y hy), ?_⟩
          intro y hy
          rcases List.mem_cons.mp hy with rfl | hy
          · exact .inl hp
          · exact hall y hy
      | false =>
          rw [List.dropWhile_cons_of_neg (by simp [hp])] at h
          injection h with ha hrest
          subst ha hrest
          exact ⟨hp, List.mem_cons_self, fun y hy => List.mem_cons_of_mem _ hy,
            fun y hy => .inr (List.mem_cons.mp hy)⟩

/-- What is marked stays marked. -/
theorem explore_keeps (next : α → List α) :
    ∀ (steps : Nat) (seen : σ) (pending : List α) (y : α),
      Marks.has seen y = true → Marks.has (explore next steps seen pending) y = true
  | 0, _, _, _, h => h
  | steps + 1, seen, pending, y, h => by
      unfold explore
      split
      · exact h
      · exact explore_keeps next steps _ _ y ((Marks.has_mark seen _ y).mpr (.inr h))

/-- **Soundness**: a marked node was marked before or can be reached. -/
theorem explore_sound (next : α → List α) :
    ∀ (steps : Nat) (seen : σ) (pending : List α) (y : α),
      Marks.has (explore next steps seen pending) y = true →
      Marks.has seen y = true ∨ ∃ x ∈ pending, Reaches next x y
  | 0, _, _, _, h => .inl h
  | steps + 1, seen, pending, y, h => by
      unfold explore at h
      split at h
      · exact .inl h
      next x rest hdrop =>
        obtain ⟨-, hx, hrest, -⟩ := dropWhile_cons hdrop
        rcases explore_sound next steps _ _ y h with hy | ⟨z, hz, hzy⟩
        · rcases (Marks.has_mark seen x y).mp hy with rfl | hy
          · exact .inr ⟨x, hx, .refl⟩
          · exact .inl hy
        · rcases List.mem_append.mp hz with hz | hz
          · exact .inr ⟨x, hx, .head hz hzy⟩
          · exact .inr ⟨z, hrest z hz, hzy⟩

/-! ## §2. With enough steps everything is marked. -/

/-- How many of the given nodes are not marked. -/
def unmarked (seen : σ) (nodes : List α) : Nat :=
  nodes.countP fun x => !Marks.has seen x

/-- Marking a node leaves no more nodes unmarked. -/
theorem unmarked_mark_le (seen : σ) (x : α) (nodes : List α) :
    unmarked (Marks.mark seen x) nodes ≤ unmarked seen nodes := by
  apply List.countP_mono_left
  intro y _ hy
  have hkeep := (Marks.has_mark seen x y).mpr
  cases h : Marks.has seen y with
  | false => rfl
  | true => simp [hkeep (.inr h)] at hy

/-- Marking an unmarked node leaves one unmarked node less. -/
theorem unmarked_mark_lt {seen : σ} {x : α} {nodes : List α} (hx : x ∈ nodes)
    (hseen : Marks.has seen x = false) :
    unmarked (Marks.mark seen x) nodes < unmarked seen nodes := by
  induction nodes with
  | nil => simp at hx
  | cons a nodes ih =>
      have hle := unmarked_mark_le seen x nodes
      simp only [unmarked, List.countP_cons] at hle ih ⊢
      by_cases ha : a = x
      · subst ha
        have hmark : Marks.has (Marks.mark seen a) a = true :=
          (Marks.has_mark seen a a).mpr (.inl rfl)
        simp only [hmark, hseen]
        simp
        omega
      · have hx' : x ∈ nodes := by
          rcases List.mem_cons.mp hx with h | h
          · exact absurd h.symm ha
          · exact h
        -- marking `x` does not change whether another node is marked
        have hsame : Marks.has (Marks.mark seen x) a = Marks.has seen a := by
          have h := Marks.has_mark seen x a
          cases hs : Marks.has seen a with
          | true => exact h.mpr (.inr hs)
          | false =>
              cases hm : Marks.has (Marks.mark seen x) a with
              | false => rfl
              | true =>
                  rcases h.mp hm with rfl | h'
                  · exact absurd rfl ha
                  · rw [hs] at h'
                    exact absurd h' (by simp)
        have := ih hx'
        rw [hsame]
        omega

/-- With at least as many steps as unmarked nodes, every pending node is marked
in the end, and so are the successors of every node the search marked. -/
theorem explore_closed (next : α → List α) (nodes : List α) :
    ∀ (steps : Nat) (seen : σ) (pending : List α),
      unmarked seen nodes ≤ steps →
      (∀ x ∈ pending, Marks.has seen x = true ∨ x ∈ nodes) →
      (∀ x ∈ nodes, ∀ y ∈ next x, Marks.has seen y = true ∨ y ∈ nodes) →
      (∀ x ∈ pending, Marks.has (explore next steps seen pending) x = true)
        ∧ ∀ x, Marks.has (explore next steps seen pending) x = true →
            Marks.has seen x = true
              ∨ ∀ y ∈ next x, Marks.has (explore next steps seen pending) y = true
  | 0, seen, pending, hsteps, hpend, _ => by
      refine ⟨?_, fun x hx => .inl hx⟩
      intro x hx
      rcases hpend x hx with h | h
      · exact h
      · -- no node of the list is unmarked
        have hzero : unmarked seen nodes = 0 := by omega
        have hnot := List.countP_eq_zero.mp hzero x h
        rw [Bool.not_eq_true, Bool.not_eq_false'] at hnot
        exact hnot
  | steps + 1, seen, pending, hsteps, hpend, hnext => by
      unfold explore
      split
      next hdrop => exact ⟨List.dropWhile_eq_nil_iff.mp hdrop, fun x hx => .inl hx⟩
      next x rest hdrop =>
        obtain ⟨hx, hmem, hrest, hall⟩ := dropWhile_cons hdrop
        have hnode : x ∈ nodes := by
          rcases hpend x hmem with h | h
          · rw [hx] at h
            exact absurd h (by simp)
          · exact h
        have hkeep : ∀ y, Marks.has seen y = true → Marks.has (Marks.mark seen x) y = true :=
          fun y hy => (Marks.has_mark seen x y).mpr (.inr hy)
        have hlt := unmarked_mark_lt hnode hx
        obtain ⟨hdone, hclosed⟩ := explore_closed next nodes steps (Marks.mark seen x)
          (next x ++ rest) (by omega)
          (by
            intro y hy
            rcases List.mem_append.mp hy with hy | hy
            · exact (hnext x hnode y hy).imp_left (hkeep y)
            · exact (hpend y (hrest y hy)).imp_left (hkeep y))
          (fun y hy z hz => (hnext y hy z hz).imp_left (hkeep z))
        constructor
        · intro y hy
          rcases hall y hy with h | h | h
          · exact explore_keeps next steps _ _ y (hkeep y h)
          · exact explore_keeps next steps _ _ y ((Marks.has_mark seen x y).mpr (.inl h.symm))
          · exact hdone y (List.mem_append_right _ h)
        · intro y hy
          rcases hclosed y hy with h | h
          · rcases (Marks.has_mark seen x y).mp h with rfl | h
            · exact .inr fun z hz => hdone z (List.mem_append_left _ hz)
            · exact .inl h
          · exact .inr h

/-- **Completeness**: if the nodes marked at the outset lead only to such nodes,
whatever can be reached from a pending node is marked in the end. -/
theorem explore_complete {next : α → List α} (nodes : List α) {steps : Nat} {seen : σ}
    {pending : List α} (hsteps : unmarked seen nodes ≤ steps)
    (hpend : ∀ x ∈ pending, Marks.has seen x = true ∨ x ∈ nodes)
    (hnext : ∀ x ∈ nodes, ∀ y ∈ next x, Marks.has seen y = true ∨ y ∈ nodes)
    (hseen : ∀ x, Marks.has seen x = true → ∀ y ∈ next x, Marks.has seen y = true)
    {x y : α} (hx : x ∈ pending) (hxy : Reaches next x y) :
    Marks.has (explore next steps seen pending) y = true := by
  obtain ⟨hdone, hclosed⟩ := explore_closed next nodes steps seen pending hsteps hpend hnext
  induction hxy with
  | refl => exact hdone x hx
  | tail _ hstep ih =>
      rcases hclosed _ ih with h | h
      · exact explore_keeps next steps _ _ _ (hseen _ h _ hstep)
      · exact h _ hstep

end PatternIR
