/-
  PatternIR.Proofs.Flow.Guards
  ────────────────────────────
  **GUARDS — statements behind which a condition is false.**

  An `if` without `else` whose branch ends in a jump, and a loop without any
  `break`, complete only when their condition has come out false.  So what the
  condition binds when false escapes them.

    • `Stmt.guard?` — the condition of a guard;
    • `escape?_of_guard?` — what it binds when false escapes;
    • `ends_break` — a statement without a `break` ends in none.
-/
import PatternIR.Proofs.Flow.Escapes

namespace PatternIR

/-! ## §1. Guards. -/

namespace Stmt

/-- Whether a statement is a `return`, a `break` or a `continue`. -/
def isJump : Stmt → Bool
  | ret _ _ | brk _ _ | cont _ _ => true
  | _ => false

/-- Whether a statement is a jump or a block that ends in one. -/
def endsInJump : Stmt → Bool
  | block _ ss => ss.getLast?.any isJump
  | w => w.isJump

/-- A `break`, to a label or without one. -/
def isBreak : Stmt → Bool
  | brk _ _ => true
  | _ => false

/-- Whether there is a `break` in a statement. -/
def hasBreak (w : Stmt) : Bool := w.walk.any isBreak

/-- The condition that is false behind an unlabelled statement: that of an `if`
without `else` whose branch ends in a jump, and that of a loop without any
`break`. -/
def guard? : Stmt → Option Expr
  | ifElse _ c yes none => if yes.endsInJump then some c else none
  | w@(whileDo _ c _) | w@(doWhile _ _ c) | w@(forDo _ _ (some c) _ _) =>
    if w.hasBreak then none else some c
  | _ => none

/-- A jump cannot complete, as the analysis sees it. -/
theorem canCompleteNormally_of_isJump {w : Stmt} (h : w.isJump = true) :
    w.canCompleteNormally = false := by
  cases w with
  | ret _ _ | brk _ _ | cont _ _ => rfl
  | _ => exact absurd h (by simp [isJump])

/-- Nor does it end by being done. -/
theorem ends_done_of_isJump {w : Stmt} (h : w.isJump = true) : Flow.ends none .done w = false := by
  cases w with
  | ret _ _ | brk _ _ | cont _ _ => rfl
  | _ => exact absurd h (by simp [isJump])

end Stmt

namespace Flow

/-- Statements the last of which jumps. -/
theorem last_isJump {ss : List Stmt} (h : ss.getLast?.any Stmt.isJump = true) :
    allComplete ss = false ∧ endsAll .done ss = false := by
  induction ss with
  | nil => exact absurd h (by simp)
  | cons w ss ih =>
      cases ss with
      | nil =>
          have hw : w.isJump = true := by simpa using h
          have hcompletes : completes none w = false := Stmt.canCompleteNormally_of_isJump hw
          simp [allComplete, endsAll, hcompletes, Stmt.ends_done_of_isJump hw]
      | cons w' ss =>
          obtain ⟨hcompletes, hends⟩ := ih (by simpa using h)
          constructor
          · rw [allComplete, hcompletes, Bool.and_false]
          · rw [endsAll, hends]
            simp

end Flow

namespace Stmt

variable {w : Stmt}

/-- The same of a statement that ends in a jump. -/
theorem canCompleteNormally_of_endsInJump (h : w.endsInJump = true) : w.canCompleteNormally = false := by
  cases w with
  | block i ss => exact (Flow.last_isJump h).1
  | _ => exact canCompleteNormally_of_isJump h

/-- It does not end by being done either. -/
theorem ends_done_of_endsInJump (h : w.endsInJump = true) : Flow.ends none .done w = false := by
  cases w with
  | block i ss => exact (Flow.last_isJump h).2
  | _ => exact ends_done_of_isJump h

end Stmt

namespace Flow

/-! ## §2. Statements without a `break`. -/

mutual
/-- A statement without a `break` breaks out of nothing. -/
theorem breaksTo_none : ∀ (w : Stmt) (label : Option String) (nested : Bool),
    (∀ x ∈ w.walk, x.isBreak = false) → breaksTo label nested w = false
  | .brk i l, label, nested, h => absurd (h (.brk i l) (by simp [Stmt.walk])) (by simp [Stmt.isBreak])
  | .block _ ss, label, nested, h =>
      anyBreaksTo_none ss label nested fun x hx => h x (by simp [Stmt.walk, hx])
  | .ifElse _ _ y no, label, nested, h => by
      rw [breaksTo, breaksTo_none y label nested fun x hx => h x (by simp [Stmt.walk, hx]),
        optBreaksTo_none no label nested fun x hx => h x (by simp [Stmt.walk, hx])]
      rfl
  | .whileDo _ _ b, label, _, h | .doWhile _ b _, label, _, h | .forDo _ _ _ _ b, label, _, h =>
      breaksTo_none b label true fun x hx => h x (by simp [Stmt.walk, hx])
  | .labeled _ l b, label, nested, h => by
      rw [breaksTo, breaksTo_none b label nested fun x hx => h x (by simp [Stmt.walk, hx]),
        Bool.and_false]
  | .expr _ _, _, _, _ | .decl _ _ _, _, _, _ | .ret _ _, _, _, _ | .cont _ _, _, _, _ => rfl
theorem anyBreaksTo_none : ∀ (ss : List Stmt) (label : Option String) (nested : Bool),
    (∀ x ∈ Stmt.walkAll ss, x.isBreak = false) → anyBreaksTo label nested ss = false
  | [], _, _, _ => rfl
  | w :: ss, label, nested, h => by
      rw [anyBreaksTo, breaksTo_none w label nested fun x hx => h x (by simp [Stmt.walkAll, hx]),
        anyBreaksTo_none ss label nested fun x hx => h x (by simp [Stmt.walkAll, hx])]
      rfl
theorem optBreaksTo_none : ∀ (w : Option Stmt) (label : Option String) (nested : Bool),
    (∀ x ∈ Stmt.walkOpt w, x.isBreak = false) → optBreaksTo label nested w = false
  | none, _, _, _ => rfl
  | some w, label, nested, h => breaksTo_none w label nested h
end

mutual
/-- A statement without a `break` ends in none. -/
theorem ends_break : ∀ (w : Stmt) (label target : Option String),
    (∀ x ∈ w.walk, x.isBreak = false) → ends label (.broke target) w = false
  | .brk i l, _, target, h => absurd (h (.brk i l) (by simp [Stmt.walk])) (by simp [Stmt.isBreak])
  | .block _ ss, _, target, h => endsAll_break ss target fun x hx => h x (by simp [Stmt.walk, hx])
  | .ifElse _ _ y no, _, target, h => by
      rw [ends, ends_break y none target fun x hx => h x (by simp [Stmt.walk, hx]),
        endsOpt_break no target fun x hx => h x (by simp [Stmt.walk, hx])]
      rfl
  | .whileDo _ _ b, label, target, h | .doWhile _ b _, label, target, h => by
      have hb := ends_break b none target fun x hx => h x (by simp [Stmt.walk, hx])
      simp [ends, loopEnds, hb]
  | .forDo _ ss _ _ b, label, target, h => by
      have hb := ends_break b none target fun x hx => h x (by simp [Stmt.walk, hx])
      have hss := endsAll_break ss target fun x hx => h x (by simp [Stmt.walk, hx])
      simp [ends, loopEnds, hb, hss]
  | .labeled _ l b, _, target, h => by
      have hb : ∀ label, ends label (.broke target) b = false := fun label =>
        ends_break b label target fun x hx => h x (by simp [Stmt.walk, hx])
      rw [ends]
      split
      · exact hb (some l)
      · simp [hb none]
  | .expr _ _, _, _, _ | .decl _ _ _, _, _, _ | .ret _ _, _, _, _ | .cont _ _, _, _, _ => by
      simp [ends]
theorem endsAll_break : ∀ (ss : List Stmt) (target : Option String),
    (∀ x ∈ Stmt.walkAll ss, x.isBreak = false) → endsAll (.broke target) ss = false
  | [], _, _ => by simp [endsAll]
  | w :: ss, target, h => by
      rw [endsAll, ends_break w none target fun x hx => h x (by simp [Stmt.walkAll, hx]),
        endsAll_break ss target fun x hx => h x (by simp [Stmt.walkAll, hx])]
      simp
theorem endsOpt_break : ∀ (w : Option Stmt) (target : Option String),
    (∀ x ∈ Stmt.walkOpt w, x.isBreak = false) → endsOpt (.broke target) w = false
  | none, _, _ => by simp [endsOpt]
  | some w, target, h => ends_break w none target h
end

end Flow

/-! ## §3. What escapes a guard. -/

namespace Stmt

variable {i : StmtInfo} {c c' : Expr} {b w : Stmt}

/-- A loop that is a guard has no `break` in its body. -/
theorem noBreak_of_hasBreak (h : (if w.hasBreak then none else some c) = some c') :
    c' = c ∧ ∀ x ∈ w.walk, x.isBreak = false := by
  obtain ⟨hno, hc⟩ := Option.ite_none_left_eq_some.mp h
  exact ⟨(Option.some.inj hc).symm, by simpa [hasBreak] using hno⟩

/-- An `if` guards by its condition if it has no `else` and its branch ends in a jump. -/
theorem guard?_ifElse {yes : Stmt} {no : Option Stmt} (h : (ifElse i c yes no).guard? = some c') :
    c' = c ∧ no = none ∧ yes.endsInJump = true := by
  cases no with
  | some w => injection h
  | none =>
      obtain ⟨hyes, hc⟩ := Option.ite_none_right_eq_some.mp h
      exact ⟨(Option.some.inj hc).symm, rfl, hyes⟩

/-- A `while` guards by its condition if no `break` is in it. -/
theorem guard?_whileDo (h : (whileDo i c b).guard? = some c') :
    c' = c ∧ ∀ x ∈ b.walk, x.isBreak = false := by
  obtain ⟨hc, hno⟩ := noBreak_of_hasBreak h
  exact ⟨hc, fun x hx => hno x (by simp [walk, hx])⟩

/-- So does a `do`. -/
theorem guard?_doWhile (h : (doWhile i b c).guard? = some c') :
    c' = c ∧ ∀ x ∈ b.walk, x.isBreak = false := by
  obtain ⟨hc, hno⟩ := noBreak_of_hasBreak h
  exact ⟨hc, fun x hx => hno x (by simp [walk, hx])⟩

/-- So does a `for` that has a condition. -/
theorem guard?_forDo {ss : List Stmt} {c : Option Expr} {es : List Expr}
    (h : (forDo i ss c es b).guard? = some c') : c = some c' ∧ ∀ x ∈ b.walk, x.isBreak = false := by
  cases c with
  | none => injection h
  | some c =>
      obtain ⟨hc, hno⟩ := noBreak_of_hasBreak h
      exact ⟨by rw [hc], fun x hx => hno x (by simp [walk, hx])⟩

/-- **What the condition of a guard binds when false escapes it.** -/
theorem escape?_of_guard? (h : w.guard? = some c) :
    Flow.escape? w.label? w.unlabeled = some (c, false) := by
  cases w with
  | ifElse i c' y no =>
      obtain ⟨rfl, rfl, hy⟩ := guard?_ifElse h
      simp [unlabeled, Flow.escape?, canCompleteNormally_of_endsInJump hy]
  | whileDo i c' b =>
      obtain ⟨rfl, hb⟩ := guard?_whileDo h
      simp [label?, unlabeled, Flow.escape?, Flow.breaksTo_none b none false hb]
  | doWhile i b c' =>
      obtain ⟨rfl, hb⟩ := guard?_doWhile h
      simp [label?, unlabeled, Flow.escape?, Flow.breaksTo_none b none false hb]
  | forDo i ss c' es b =>
      obtain ⟨rfl, hb⟩ := guard?_forDo h
      simp [label?, unlabeled, Flow.escape?, Flow.breaksTo_none b none false hb]
  | _ => injection h

end Stmt

/-! ## §4. How guards complete. -/

variable {ω : Type} {setting : Setting ω} (quiet : setting.Quiet)

include quiet

/-- What ends in a jump does not run off its end. -/
theorem execStmt_endsInJump {w : Stmt} (h : w.endsInJump = true) (n : Nat) (m m' : Machine ω) :
    execStmt setting n w m ≠ .ok () m' := by
  intro hok
  have hends := ((endsAsText quiet n).stmt w).ok hok
  rw [Stmt.ends_done_of_endsInJump h] at hends
  injection hends

/-- A body without a `break` does not end its loop. -/
theorem settle_after_noBreak {b : Stmt} (h : ∀ x ∈ b.walk, x.isBreak = false) (label : Option String)
    (n : Nat) (m m' : Machine ω) : settle (Turn.after label) (execStmt setting n b) m ≠ .ok .exit m' := by
  intro hexit
  have hno : ∀ target, Flow.ends none (.broke target) b = false := fun target =>
    Flow.ends_break b none target h
  rcases (((endsAsText quiet n).stmt b).after label).exit hexit with hbroke | hbroke
  · rw [hno none] at hbroke
    injection hbroke
  · rw [hno label] at hbroke
    injection hbroke

end PatternIR
