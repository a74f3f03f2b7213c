/-
  PatternIR.Proofs.Flow.Repeated
  ──────────────────────────────
  **QUESTIONS AND PRESERVATION, REPEATED.**

  Between two questions about a condition the table may be changed in every way
  there is, and the oracle may be asked about other conditions.  It answers the
  second question as the first, and adds nothing:

      matchBindings e o s = (bs, t)  →  matchBindings e o (t.through steps) = (bs, t.through steps)

  Preservation asks a question at each visit and marks the answer.  What was
  marked stays so, and to mark it again does nothing.  A second preservation
  therefore leaves a program as it is, unless the first one has added a binding
  that a type test had without the table having it: `repeated_preservation_marks`.

    • `TableStep` — a change of the table, or a question;
    • `visit_settled`, `visits_settled` — visits on a later table;
    • `repeated_settled` — questions and preservation, repeated.
-/
import PatternIR.Proofs.Flow.Escapes
import PatternIR.Proofs.Flow.Stability
import PatternIR.Proofs.Symbols.Interning

namespace PatternIR

/-! ## §1. Between two questions. -/

/-- A change of the table, or a question, which may change it as well. -/
inductive TableStep where
  | change (op : TableOp)
  | ask (cond : Expr) (outcome : Bool)

/-- The table after such a step. -/
def TableStep.apply (s : Symbols) : TableStep → Symbols
  | .change op => op.apply s
  | .ask cond outcome => (Flow.matchBindings cond outcome s).2

namespace Symbols

variable {s : Symbols}

/-- The table after steps one after the other. -/
def through (s : Symbols) (steps : List TableStep) : Symbols := steps.foldl TableStep.apply s

/-- A step keeps the components of bindings in front of them. -/
theorem Ordered.step (h : s.Ordered) : ∀ step : TableStep, (step.apply s).Ordered
  | .change op => h.apply op
  | .ask cond outcome => Flow.matchBindings_ordered cond outcome h

/-- A step takes nothing out of the table. -/
theorem grows_step (s : Symbols) : ∀ step : TableStep, s.Grows (step.apply s)
  | .change op => s.grows_apply op
  | .ask cond outcome => Flow.matchBindings_grows cond outcome s

/-- Several steps keep them in front. -/
theorem Ordered.through : ∀ (steps : List TableStep) {s : Symbols}, s.Ordered → (s.through steps).Ordered
  | [], _, h => h
  | step :: steps, _, h => Ordered.through steps (h.step step)

/-- Several steps take nothing out. -/
theorem grows_through : ∀ (steps : List TableStep) (s : Symbols), s.Grows (s.through steps)
  | [], s => .refl s
  | step :: steps, s => (s.grows_step step).trans (grows_through steps (step.apply s))

end Symbols

/-- The two ways to collect what a condition tests for agree. -/
theorem Expr.tests_eq_tested (e : Expr) : e.tests = e.tested := by
  rw [tests, gather, tested, List.filterMap_eq_flatMap_toList]
  congr 1
  funext x
  cases x <;> rfl

namespace Flow

open Symbols (Grows)

variable {s t u : Symbols} {w : Stmt} {e : Expr} {o : Bool}

/-- **Asked again after any steps**, the oracle answers the same and adds nothing. -/
theorem matchBindings_through (hs : s.Ordered) (htests : ∀ b ∈ e.tests, s.Has b) (steps : List TableStep) :
    matchBindings e o ((matchBindings e o s).2.through steps)
      = ((matchBindings e o s).1, (matchBindings e o s).2.through steps) :=
  matchBindings_stable (.through steps (matchBindings_ordered e o hs)) e o hs (fun b hb _ => htests b hb)
    (Symbols.grows_through steps _)

/-! ## §2. Visits on a later table. -/

/-- A visit keeps the components of bindings in front of them. -/
theorem visit_ordered (w : Stmt) (hs : s.Ordered) : (visit matchBindings s w).Ordered :=
  visit_keeps (fun h hm => h.merge hm) (fun b h => h.preserve b) w hs

/-- So do several. -/
theorem visits_ordered (ws : List Stmt) (hs : s.Ordered) : (ws.foldl (visit matchBindings) s).Ordered :=
  visits_keep (fun h hm => h.merge hm) (fun b h => h.preserve b) ws hs

/-- The later table has those patterns of a statement only that the earlier one has. -/
def NoneAdded (t u : Symbols) (w : Stmt) : Prop :=
  ∀ c ∈ w.unlabeled.ownExprs, ∀ b ∈ c.tests, u.Has b → t.Has b

/-- **A visit on a later table** does nothing: what escapes is what escaped
before, and that is marked. -/
theorem visit_settled (ht : t.Ordered) (hu : u.Ordered) (hw : NoneAdded t u w)
    (hgrows : (visit matchBindings t w).Grows u) : visit matchBindings u w = u := by
  have hordered := visit_ordered w ht
  unfold visit escaping at hgrows hordered ⊢
  cases hesc : escape? w.label? w.unlabeled with
  | none => rfl
  | some co =>
      obtain ⟨c, o⟩ := co
      have htests := hw c (mem_ownExprs_of_escape? hesc)
      simp only [hesc] at hgrows hordered ⊢
      have hmarks := Grows.foldl_preserve (matchBindings c o t).2 (matchBindings c o t).1
      rw [matchBindings_stable hu c o ht htests (hmarks.trans hgrows)]
      -- what was listed is marked already, or the table lacks it still
      refine Symbols.foldl_preserve_eq fun b hb => ?_
      refine (Symbols.marked_foldl_preserve hb).grows hordered.closed (fun hub => hmarks.has ?_) hgrows
      rcases mem_matchBindings c o ht b hb with htest | hhas
      · exact (matchBindings_grows c o t).has (htests b htest hub)
      · exact hhas

/-- **All visits on a later table** do nothing. -/
theorem visits_settled : ∀ {ws : List Stmt} {t : Symbols}, t.Ordered → u.Ordered →
    (∀ w ∈ ws, NoneAdded t u w) → (ws.foldl (visit matchBindings) t).Grows u →
      ws.foldl (visit matchBindings) u = u
  | [], _, _, _, _, _ => rfl
  | w :: ws, t, ht, hu, hws, hgrows => by
      have hlater := visits_grow ws (visit matchBindings t w)
      rw [List.foldl_cons, visit_settled ht hu (hws w List.mem_cons_self) (hlater.trans hgrows)]
      -- `u` stays, and what it has of the later patterns, the table after this visit has
      refine visits_settled (visit_ordered w ht) hu (fun w' hw' c hc b hb hub => ?_) hgrows
      exact (visit_grows t w).has (hws w' (List.mem_cons_of_mem _ hw') c hc b hb hub)

/-- Preservation is done with a program when it was done once. -/
theorem preserveBindings_twice {p : Program} (hs : p.symbols.Ordered)
    (hp : ∀ b ∈ p.tested, (p.preserveBindings matchBindings).symbols.Has b → p.symbols.Has b) :
    (p.preserveBindings matchBindings).preserveBindings matchBindings = p.preserveBindings matchBindings := by
  have hsymbols : ((p.preserveBindings matchBindings).preserveBindings matchBindings).symbols
      = (p.preserveBindings matchBindings).symbols := by
    have hfirst := preserveBindings_eq matchBindings p
    rw [preserveBindings_eq, hfirst]
    rw [hfirst] at hp
    -- the statements are those of the program
    refine visits_settled hs (visits_ordered p.positions hs) (fun w hw c hc b hb => ?_) (.refl _)
    rw [Expr.tests_eq_tested] at hb
    exact hp b (Program.tested_of_mem_positions hw hc b hb)
  exact congrArg (Program.mk p.classes) hsymbols

/-! ## §3. Questions and preservation, repeated. -/

/-- **Repeated questions and repeated preservation.**  On a table in order, a
condition with patterns of the table is answered again as before, and nothing is
added, whatever has been changed and asked in between.  And preservation leaves a
program with a table in order as it is the second time, if the type tests of the
program have none of the bindings that the first time has added. -/
theorem repeated_settled :
    (∀ (s : Symbols) (e : Expr) (o : Bool), s.Ordered → (∀ b ∈ e.tests, s.Has b) → ∀ steps : List TableStep,
      matchBindings e o ((matchBindings e o s).2.through steps)
        = ((matchBindings e o s).1, (matchBindings e o s).2.through steps))
    ∧ ∀ p : Program, p.symbols.Ordered →
        (∀ b ∈ p.tested, (p.preserveBindings matchBindings).symbols.Has b → p.symbols.Has b) →
          (p.preserveBindings matchBindings).preserveBindings matchBindings
            = p.preserveBindings matchBindings :=
  ⟨fun _ _ _ hs htests steps => matchBindings_through hs htests steps, fun _ hs hp => preserveBindings_twice hs hp⟩

namespace Repeated

/-- Two patterns `x` of type `String`. -/
def symbols : Symbols :=
  ⟨#[⟨⟨0⟩, "o", .object, none, false⟩], #[⟨⟨0⟩, "x", .string, none, false, []⟩, ⟨⟨1⟩, "x", .string, none, false, []⟩]⟩

/-- A test is of type `boolean`. -/
def info : ExprInfo := ⟨0, .boolean, .nowhere⟩

/-- The variable `o`. -/
def operand : Expr := .ident ⟨0, .object, .nowhere⟩ (.var ⟨0⟩)

/-- `o instanceof String x`, with the binding of the given number. -/
def test (b : Nat) : Expr := .typeTest info operand ⟨⟨b⟩, some .string⟩

/-- `o instanceof String x || o instanceof String x`, with both patterns. -/
def eitherTest : Expr := .binary info .or (test 0) (test 1)

/-- `if (!cond) return;` -/
def guard (cond : Expr) : Stmt :=
  .ifElse ⟨0, .nowhere⟩ (.unary info .not cond) (.ret ⟨0, .nowhere⟩ none) none

/-- A method with the parameter `o` and the two patterns, of the given statements. -/
def program (body : List Stmt) : Program :=
  ⟨[⟨0, "C", none, [], [⟨0, "m", [⟨0⟩], .void, some (.block ⟨0, .nowhere⟩ body), .nowhere⟩], .nowhere⟩], symbols⟩

/-- No binding of the table unifies others yet. -/
theorem symbols_ordered : symbols.Ordered :=
  (by decide : symbols.Sound).ordered

/-- `o instanceof String x || o instanceof String x || o == null`, with both patterns. -/
def orNull : Expr := .binary info .or eitherTest (.binary info .eq operand (.literal ⟨0, .null, .nowhere⟩ .null))

/-- A test with the binding that the second condition adds, which escapes the
first statement; none escapes the second one. -/
def stray : Program := program [guard (test 2), guard orNull]

end Repeated

/-- Both patterns, asked for when one is marked and they are unified the other
way round, and a second preservation of the program that has them. -/
theorem repeated_settled_either :
    Repeated.symbols.Ordered
    ∧ (∀ b ∈ Repeated.eitherTest.tests, Repeated.symbols.Has b)
    ∧ (matchBindings Repeated.eitherTest true Repeated.symbols).1 = [⟨2⟩]
    ∧ (matchBindings Repeated.eitherTest true ((matchBindings Repeated.eitherTest true Repeated.symbols).2.through
        [.change (.preserve ⟨0⟩), .ask Repeated.orNull false, .change (.merge ⟨1⟩ ⟨0⟩)])).1 = [⟨2⟩]
    ∧ (∀ b ∈ (Repeated.program [Repeated.guard Repeated.eitherTest]).tested, Repeated.symbols.Has b)
    ∧ ((Repeated.program [Repeated.guard Repeated.eitherTest]).preserveBindings matchBindings).preserveBindings
          matchBindings
        = (Repeated.program [Repeated.guard Repeated.eitherTest]).preserveBindings matchBindings := by
  have htests : ∀ b ∈ Repeated.eitherTest.tests, Repeated.symbols.Has b := by decide
  have htested : ∀ b ∈ (Repeated.program [Repeated.guard Repeated.eitherTest]).tested, Repeated.symbols.Has b := by
    decide
  have hasked : (matchBindings Repeated.eitherTest true Repeated.symbols).1 = [⟨2⟩] := by decide
  refine ⟨Repeated.symbols_ordered, htests, hasked, ?_, htested,
    repeated_settled.2 _ Repeated.symbols_ordered fun b hb _ => htested b hb⟩
  rw [repeated_settled.1 _ _ true Repeated.symbols_ordered htests]
  exact hasked

/-- **A type test with a binding that preservation adds**: the first preservation
marks nothing, as the first test has no binding of the table yet, and the second
one marks that binding and both patterns. -/
theorem repeated_preservation_marks : Repeated.stray.symbols.Ordered
    ∧ (Repeated.stray.preserveBindings matchBindings).symbols.isPreserved ⟨0⟩ = false
    ∧ ((Repeated.stray.preserveBindings matchBindings).preserveBindings matchBindings).symbols.isPreserved ⟨0⟩ = true
    ∧ (Repeated.stray.preserveBindings matchBindings).preserveBindings matchBindings
        ≠ Repeated.stray.preserveBindings matchBindings := by
  have honce : (Repeated.stray.preserveBindings matchBindings).symbols.isPreserved ⟨0⟩ = false := by decide
  have htwice : ((Repeated.stray.preserveBindings matchBindings).preserveBindings matchBindings).symbols.isPreserved
      ⟨0⟩ = true := by decide
  refine ⟨Repeated.symbols_ordered, honce, htwice, fun hsame => ?_⟩
  rw [hsame, honce] at htwice
  exact Bool.noConfusion htwice

end Flow

end PatternIR
