/-
  PatternIR.Search
  ────────────────
  **REACHABILITY in a finite graph.**

  `explore next steps seen pending` takes up the pending nodes one by one,
  marks each and adds its successors to what is pending.  A node that is
  marked is not taken up again, so on a graph with at most `steps` unmarked
  nodes the search ends with everything marked that can be reached, cycles
  or not.

    • `Marks` — a record of nodes, kept in the way that suits the nodes;
    • `explore` — the search.
-/

namespace PatternIR

/-- A record of nodes that have been seen. -/
class Marks (σ : Type) (α : outParam Type) where
  has : σ → α → Bool
  mark : σ → α → σ
  has_mark : ∀ (seen : σ) (x y : α), has (mark seen x) y = true ↔ x = y ∨ has seen y = true

/-- The nodes seen so far, the latest first. -/
instance Marks.ofList {α : Type} [DecidableEq α] : Marks (List α) α where
  has seen x := decide (x ∈ seen)
  mark seen x := x :: seen
  has_mark seen x y := by
    simp only [decide_eq_true_eq, List.mem_cons]
    exact or_congr_left eq_comm

/-- Take up pending nodes one by one; `steps` bounds how many are taken up.  The
result has what was seen before and what was taken up. -/
def explore {σ α : Type} [Marks σ α] (next : α → List α) :
    (steps : Nat) → (seen : σ) → (pending : List α) → σ
  | 0, seen, _ => seen
  | steps + 1, seen, pending =>
    match pending.dropWhile (Marks.has seen) with
    | [] => seen
    | x :: rest => explore next steps (Marks.mark seen x) (next x ++ rest)

end PatternIR
