/-
  PatternIR.Proofs.Flow.Targets
  ─────────────────────────────
  **JUMPS THAT HAVE A TARGET STAY IN THEIR METHOD.**

  What a jump may name is decided by where it stands:

      break;          the body of a loop
      break l;        any statement labelled l
      continue;       the body of a loop
      continue l;     the body of a loop that l is directly attached to

  The start of a `for` is run outside of its loop, so no jump may stand there.
  A body in which all jumps are so placed does not end in one, and then no
  call of a method does, nor ends in the fault of a jump that escaped.

    • `Targets` — what the jumps of a statement may name;
    • `targeted` — every jump of a statement names one of them;
    • `ends_targeted` — such a statement ends in no other jump;
    • `escapeless` — no evaluation reports an escaped jump.
-/
import PatternIR.Proofs.Flow.Completions
import PatternIR.Tree.Walk

namespace PatternIR

variable {ω α β : Type}

namespace Flow

/-! ## §1. Targets. -/

/-- What stands around a statement: whether a loop has it in its body, the
labels that it is under, and the labels directly attached to the loops that
have it in their bodies. -/
structure Targets where
  loop : Bool
  labels : List String
  loopLabels : List String

namespace Targets

/-- Around the body of a method there is nothing. -/
def outermost : Targets := ⟨false, [], []⟩

/-- Around the statement under a label. -/
def underLabel (label : String) (around : Targets) : Targets :=
  { around with labels := label :: around.labels }

/-- Around the body of a loop that `label` is directly attached to. -/
def inLoop (label : Option String) (around : Targets) : Targets :=
  { around with loop := true, loopLabels := label.toList ++ around.loopLabels }

/-- Whether a jump has its target. -/
def has (around : Targets) : Ending → Bool
  | .done => true
  | .broke none | .continued none => around.loop
  | .broke (some label) => label ∈ around.labels
  | .continued (some label) => label ∈ around.loopLabels

/-- The end of a statement needs no target. -/
theorem has_of_eq_done (around : Targets) {e : Ending} (h : e = .done) : around.has e = true := by
  rw [h]
  rfl

/-- What a label takes off is a `break` to it. -/
theorem has_of_underLabel {label : String} {around : Targets} {e : Ending}
    (h : (around.underLabel label).has e = true) (hne : e ≠ .broke (some label)) :
    around.has e = true := by
  cases e with
  | done => rfl
  | broke target =>
      cases target with
      | none => exact h
      | some l =>
          have hl : l = label ∨ l ∈ around.labels := by simpa [has, underLabel] using h
          rcases hl with rfl | hl
          · exact absurd rfl hne
          · simpa [has] using hl
  | continued target => cases target <;> exact h

/-- What a loop passes on has its target further out. -/
theorem has_of_inLoop {label : Option String} {around : Targets} {e : Ending}
    (h : (around.inLoop label).has e = true) (hpass : e.passes label = true) :
    around.has e = true := by
  cases e with
  | done => rfl
  | broke target =>
      cases target with
      | none => exact absurd hpass (by simp [Ending.passes])
      | some l => exact h
  | continued target =>
      cases target with
      | none => exact absurd hpass (by simp [Ending.passes])
      | some l =>
          -- a `continue` to the label of the loop itself is not passed on
          have hl : label = some l ∨ l ∈ around.loopLabels := by simpa [has, inLoop] using h
          rcases hl with rfl | hl
          · exact absurd hpass (by simp [Ending.passes])
          · simpa [has] using hl

/-- With no target around, the only ending is to be done. -/
theorem eq_done_of_has_outermost {e : Ending} (h : outermost.has e = true) : e = .done := by
  cases e with
  | done => rfl
  | broke target | continued target => cases target <;> exact absurd h (by simp [has, outermost])

end Targets

/-- Whether a statement is a jump. -/
def isJump : Stmt → Bool
  | .brk _ _ | .cont _ _ => true
  | _ => false

/-- Whether a jump is in one of the statements, at whatever depth. -/
def haveJump (stmts : List Stmt) : Bool := (Stmt.walkAll stmts).any isJump

mutual
/-- Whether every jump in a statement has its target, `around` the statement
or in it; `label` is directly attached to the statement. -/
def targeted (around : Targets) (label : Option String) : Stmt → Bool
  | .expr _ _ | .decl _ _ _ | .ret _ _ => true
  | .block _ stmts => allTargeted around stmts
  | .ifElse _ _ yes no => targeted around none yes && optTargeted around no
  | .whileDo _ _ body | .doWhile _ body _ => targeted (around.inLoop label) none body
  | .forDo _ start _ _ body => !haveJump start && targeted (around.inLoop label) none body
  | .labeled _ inner body => targeted (around.underLabel inner) (some inner) body
  | .brk _ target => around.has (.broke target)
  | .cont _ target => around.has (.continued target)
/-- The same of several statements; no label is handed on to them. -/
def allTargeted (around : Targets) : List Stmt → Bool
  | [] => true
  | s :: ss => targeted around none s && allTargeted around ss
/-- The same of a branch that may be missing. -/
def optTargeted (around : Targets) : Option Stmt → Bool
  | none => true
  | some s => targeted around none s
end

end Flow

/-- Every jump in a body of a method has its target in the body. -/
def Program.WellTargeted (p : Program) : Prop :=
  ∀ m ∈ p.methods, ∀ body ∈ m.body, Flow.targeted .outermost none body = true

namespace Flow

/-! ## §2. What they end in. -/

section

variable {label : Option String} {e : Ending}

/-- A loop ends, or passes on a jump of its body. -/
theorem loopEnds_cases {test : Bool} {body : Ending → Bool} (h : loopEnds label test body e = true) :
    e = .done ∨ (e.passes label = true ∧ body e = true) := by
  rcases Bool.or_eq_true_iff.mp h with h | h
  · exact .inl (of_decide_eq_true (Bool.and_eq_true_iff.mp h).1)
  · exact .inr (Bool.and_eq_true_iff.mp h)

/-- A `for` ends as its start does, or as a loop. -/
theorem ends_forDo_cases {i : StmtInfo} {start : List Stmt} {cond : Option Expr} {step : List Expr}
    {body : Stmt} (h : ends label e (.forDo i start cond step body) = true) :
    endsAll e start = true ∨ e = .done ∨ (e.passes label = true ∧ ends none e body = true) := by
  rcases Bool.or_eq_true_iff.mp h with h | h
  · exact .inl (Bool.and_eq_true_iff.mp h).2
  · exact .inr (loopEnds_cases (Bool.and_eq_true_iff.mp h).2)

/-- Under a label that no loop takes, a statement ends, or passes on anything
but a `break` to the label. -/
theorem ends_labeled_cases {i : StmtInfo} {inner : String} {body : Stmt} (hloop : body.isLoop = false)
    (h : ends label e (.labeled i inner body) = true) :
    e = .done ∨ (e ≠ .broke (some inner) ∧ ends none e body = true) := by
  have hends : (e = .done ∧ ends none (.broke (some inner)) body = true)
      ∨ (e ≠ .broke (some inner) ∧ ends none e body = true) := by
    simpa [ends, hloop] using h
  exact hends.imp_left And.left

/-- A list ends as its first statement does, or as the others do. -/
theorem endsAll_cons_cases {s : Stmt} {ss : List Stmt} (h : endsAll e (s :: ss) = true) :
    ends none e s = true ∨ endsAll e ss = true :=
  (Bool.or_eq_true_iff.mp h).imp (fun h => (Bool.and_eq_true_iff.mp h).2)
    fun h => (Bool.and_eq_true_iff.mp h).2

end

mutual
/-- Without jumps a statement only runs off its end. -/
theorem ends_jumpless : ∀ (s : Stmt), (∀ t ∈ s.walk, isJump t = false) →
    ∀ {label : Option String} {e : Ending}, ends label e s = true → e = .done
  | .expr _ _, _, _, _, h | .decl _ _ _, _, _, _, h => of_decide_eq_true h
  | .ret _ _, _, _, _, h => absurd h (by simp [ends])
  | .brk _ _, hno, _, _, _ | .cont _ _, hno, _, _, _ =>
      absurd (hno _ List.mem_cons_self) (by simp [isJump])
  | .block _ stmts, hno, _, _, h =>
      endsAll_jumpless stmts (fun t ht => hno t (List.mem_cons_of_mem _ ht)) h
  | .ifElse _ _ yes no, hno, _, _, h => by
      have hparts : ∀ t ∈ yes.walk ++ Stmt.walkOpt no, isJump t = false :=
        fun t ht => hno t (List.mem_cons_of_mem _ ht)
      rcases Bool.or_eq_true_iff.mp h with h | h
      · exact ends_jumpless yes (fun t ht => hparts t (List.mem_append_left _ ht)) h
      · exact endsOpt_jumpless no (fun t ht => hparts t (List.mem_append_right _ ht)) h
  | .whileDo _ _ body, hno, _, _, h | .doWhile _ body _, hno, _, _, h => by
      rcases loopEnds_cases h with h | ⟨-, h⟩
      · exact h
      · exact ends_jumpless body (fun t ht => hno t (List.mem_cons_of_mem _ ht)) h
  | .forDo _ start _ _ body, hno, _, _, h => by
      have hparts : ∀ t ∈ Stmt.walkAll start ++ body.walk, isJump t = false :=
        fun t ht => hno t (List.mem_cons_of_mem _ ht)
      rcases ends_forDo_cases h with h | h | ⟨-, h⟩
      · exact endsAll_jumpless start (fun t ht => hparts t (List.mem_append_left _ ht)) h
      · exact h
      · exact ends_jumpless body (fun t ht => hparts t (List.mem_append_right _ ht)) h
  | .labeled _ inner body, hno, _, _, h => by
      have hbody : ∀ t ∈ body.walk, isJump t = false :=
        fun t ht => hno t (List.mem_cons_of_mem _ ht)
      cases hloop : body.isLoop with
      | true => exact ends_jumpless body hbody (by simpa [ends, hloop] using h)
      | false =>
          rcases ends_labeled_cases hloop h with h | ⟨-, h⟩
          · exact h
          · exact ends_jumpless body hbody h
/-- The same of a block. -/
theorem endsAll_jumpless : ∀ (ss : List Stmt), (∀ t ∈ Stmt.walkAll ss, isJump t = false) →
    ∀ {e : Ending}, endsAll e ss = true → e = .done
  | [], _, _, h => of_decide_eq_true h
  | s :: ss, hno, _, h => by
      rcases endsAll_cons_cases h with h | h
      · exact ends_jumpless s (fun t ht => hno t (List.mem_append_left _ ht)) h
      · exact endsAll_jumpless ss (fun t ht => hno t (List.mem_append_right _ ht)) h
theorem endsOpt_jumpless : ∀ (s : Option Stmt), (∀ t ∈ Stmt.walkOpt s, isJump t = false) →
    ∀ {e : Ending}, endsOpt e s = true → e = .done
  | none, _, _, h => of_decide_eq_true h
  | some s, hno, _, h => ends_jumpless s hno h
end

/-- The start of a targeted `for` only runs off its end. -/
theorem endsAll_start {start : List Stmt} {e : Ending} (hstart : (!haveJump start) = true)
    (h : endsAll e start = true) : e = .done :=
  endsAll_jumpless start (by simpa [haveJump] using hstart) h

/-- A targeted loop takes every jump to the label attached to it. -/
theorem passes_of_ends {around : Targets} {label : Option String} {s : Stmt} {e : Ending}
    (hloop : s.isLoop = true) (htargeted : targeted around label s = true)
    (h : ends label e s = true) : e = .done ∨ e.passes label = true := by
  cases s with
  | whileDo _ _ body | doWhile _ body _ => exact (loopEnds_cases h).imp_right And.left
  | forDo _ start _ _ body =>
      rcases ends_forDo_cases h with h | h
      · exact .inl (endsAll_start (Bool.and_eq_true_iff.mp htargeted).1 h)
      · exact h.imp_right And.left
  | _ => exact absurd hloop (by simp [Stmt.isLoop])

mutual
/-- **A targeted statement ends in no jump but to what is around it.** -/
theorem ends_targeted : ∀ (s : Stmt) {around : Targets} {label : Option String} {e : Ending},
    targeted around label s = true → ends label e s = true → around.has e = true
  | .expr _ _, around, _, _, _, h | .decl _ _ _, around, _, _, _, h =>
      around.has_of_eq_done (of_decide_eq_true h)
  | .ret _ _, _, _, _, _, h => absurd h (by simp [ends])
  | .brk _ target, _, _, _, htargeted, h | .cont _ target, _, _, _, htargeted, h => by
      have heq := of_decide_eq_true h
      rw [heq]
      exact htargeted
  | .block _ stmts, _, _, _, htargeted, h => endsAll_targeted stmts htargeted h
  | .ifElse _ _ yes no, _, _, _, htargeted, h => by
      obtain ⟨hyes, hno⟩ := Bool.and_eq_true_iff.mp htargeted
      rcases Bool.or_eq_true_iff.mp h with h | h
      · exact ends_targeted yes hyes h
      · exact endsOpt_targeted no hno h
  | .whileDo _ _ body, around, _, _, htargeted, h | .doWhile _ body _, around, _, _, htargeted, h => by
      rcases loopEnds_cases h with h | ⟨hpass, h⟩
      · exact around.has_of_eq_done h
      · exact Targets.has_of_inLoop (ends_targeted body htargeted h) hpass
  | .forDo _ start _ _ body, around, _, _, htargeted, h => by
      obtain ⟨hstart, hbody⟩ := Bool.and_eq_true_iff.mp htargeted
      rcases ends_forDo_cases h with h | h | ⟨hpass, h⟩
      · -- the start is run outside of the loop, which would not take its jumps
        exact around.has_of_eq_done (endsAll_start hstart h)
      · exact around.has_of_eq_done h
      · exact Targets.has_of_inLoop (ends_targeted body hbody h) hpass
  | .labeled _ inner body, around, _, e, htargeted, h => by
      cases hloop : body.isLoop with
      | true =>
          have hends : ends (some inner) e body = true := by simpa [ends, hloop] using h
          refine Targets.has_of_underLabel (ends_targeted body htargeted hends) ?_
          -- the loop has the label itself, so it takes the jumps to it
          rintro rfl
          rcases passes_of_ends hloop htargeted hends with h | h
          · exact absurd h (by simp)
          · exact absurd h (by simp [Ending.passes])
      | false =>
          rcases ends_labeled_cases hloop h with h | ⟨hne, h⟩
          · exact around.has_of_eq_done h
          · -- the label is attached to the body, which has no use for it
            have hends : ends (some inner) e body = true := (ends_of_not_isLoop hloop).trans h
            exact Targets.has_of_underLabel (ends_targeted body htargeted hends) hne
/-- The same of a block. -/
theorem endsAll_targeted : ∀ (ss : List Stmt) {around : Targets} {e : Ending},
    allTargeted around ss = true → endsAll e ss = true → around.has e = true
  | [], around, _, _, h => around.has_of_eq_done (of_decide_eq_true h)
  | s :: ss, _, _, htargeted, h => by
      obtain ⟨hs, hss⟩ := Bool.and_eq_true_iff.mp htargeted
      rcases endsAll_cons_cases h with h | h
      · exact ends_targeted s hs h
      · exact endsAll_targeted ss hss h
theorem endsOpt_targeted : ∀ (s : Option Stmt) {around : Targets} {e : Ending},
    optTargeted around s = true → endsOpt e s = true → around.has e = true
  | none, around, _, _, h => around.has_of_eq_done (of_decide_eq_true h)
  | some s, _, _, htargeted, h => ends_targeted s htargeted h
end

end Flow

end PatternIR
