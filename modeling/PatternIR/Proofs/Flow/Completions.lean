/-
  PatternIR.Proofs.Flow.Completions
  ─────────────────────────────────
  **WHAT CANNOT COMPLETE, DOES NOT.**

  The analysis of completion follows the text of a statement:

      seesJumps none s  →  canCompleteNormally s = false
          →  no execution of s runs off its end

  Its rules are right wherever the search for jumps finds each jump that the
  evaluator gives to the statement.  It overlooks

    • a `continue` that leads to the test of a `do` loop;
    • a `break` without a label behind a label that is used again;
    • a `break` in the first part of a `for`.

  With each of these a statement completes that the analysis says cannot:
  `overlooked_completions`.

    • `seesJumps` — the jumps on which the verdict rests are found;
    • `canCompleteNormally_sound` — the verdict is right.
-/
import PatternIR.Proofs.Flow.Endings

namespace PatternIR

variable {ω : Type}

namespace Flow

/-! ## §1. Jumps that the analysis looks for. -/

/-- Whether the search finds a `break` in a body, if one leaves the loop. -/
def findsBreaks (label : Option String) (body : Stmt) : Bool :=
  breaksTo label false body || !(ends none (.broke none) body || ends none (.broke label) body)

/-- Whether a body goes on to the test of its loop by a `continue`. -/
def continues (label : Option String) (body : Stmt) : Bool :=
  ends none (.continued none) body || ends none (.continued label) body

/-- Whether the search finds a `break` to a label, if one ends the statement
under it.  A loop has the label itself. -/
def findsLabel (label : String) (body : Stmt) : Bool :=
  body.isLoop || breaksTo (some label) true body || !ends none (.broke (some label)) body

mutual
/-- Whether the verdict on a statement under `label` overlooks no jump.  Only
what the verdict rests on counts: of a loop whose test can fail, nothing. -/
def seesJumps (label : Option String) : Stmt → Bool
  | .block _ stmts => allSeeJumps stmts
  | .ifElse _ _ yes (some no) => seesJumps none yes && seesJumps none no
  | .whileDo _ cond body => !isConstantTrue cond || findsBreaks label body
  | .forDo _ _ none _ body => findsBreaks label body
  | .forDo _ _ (some cond) _ body => !isConstantTrue cond || findsBreaks label body
  | .doWhile _ body cond =>
    findsBreaks label body
      && (isConstantTrue cond || completes none body
        || (seesJumps none body && !continues label body))
  | .labeled _ inner body => seesJumps (some inner) body && findsLabel inner body
  | .expr _ _ | .decl _ _ _ | .ifElse _ _ _ none | .ret _ _ | .brk _ _ | .cont _ _ => true
/-- The same of each statement of a block. -/
def allSeeJumps : List Stmt → Bool
  | [] => true
  | s :: ss => seesJumps none s && allSeeJumps ss
end

/-! ## §2. The verdict against the text. -/

/-- A `break` that a body ends with is found, unless a label hides it. -/
theorem breaksTo_of_ends {label : Option String} {body : Stmt} (hfinds : findsBreaks label body = true)
    (h : ends none (.broke none) body = true ∨ ends none (.broke label) body = true) :
    breaksTo label false body = true := by
  rcases h with h | h <;> simpa [findsBreaks, h] using hfinds

/-- A loop that can run off its end leaves by its test or by a `break`. -/
theorem loopEnds_done {label : Option String} {test : Bool} {body : Ending → Bool}
    (h : loopEnds label test body .done = true) :
    test = true ∨ body (.broke none) = true ∨ body (.broke label) = true := by
  simpa [loopEnds, Ending.passes, or_assoc] using h

/-- Only a loop takes the label it is under. -/
theorem ends_of_not_isLoop {label : Option String} {e : Ending} {s : Stmt} (h : s.isLoop = false) :
    ends label e s = ends none e s := by
  cases s with
  | whileDo _ _ _ | doWhile _ _ _ | forDo _ _ _ _ _ => exact absurd h (by simp [Stmt.isLoop])
  | _ => rfl

-- `seesJumps` is asked of exactly the bodies whose jumps the verdict looks for, so each
-- loop splits on how it can end: by its test, or by a `break` the search has found.
mutual
/-- **What can run off its end is found to complete**, if no jump is overlooked. -/
theorem completes_of_ends : ∀ (label : Option String) (s : Stmt), seesJumps label s = true →
    ends label .done s = true → completes label s = true
  | _, .expr _ _, _, _ | _, .decl _ _ _, _, _ | _, .ifElse _ _ _ none, _, _ => rfl
  | _, .ret _ _, _, h => absurd h (by simp [ends])
  | _, .brk _ _, _, h | _, .cont _ _, _, h => absurd h (by simp [ends])
  | _, .block _ stmts, hsees, h => allComplete_of_ends stmts hsees h
  | _, .ifElse _ _ yes (some no), hsees, h => by
      obtain ⟨hyes, hno⟩ := Bool.and_eq_true_iff.mp hsees
      refine Bool.or_eq_true_iff.mpr ?_
      rcases Bool.or_eq_true_iff.mp h with h | h
      · exact .inl (completes_of_ends none yes hyes h)
      · exact .inr (completes_of_ends none no hno h)
  | label, .whileDo _ cond body, hsees, h => by
      refine Bool.or_eq_true_iff.mpr ?_
      rcases loopEnds_done h with h | h
      · exact .inl h
      · exact (Bool.or_eq_true_iff.mp hsees).imp_right fun hfinds => breaksTo_of_ends hfinds h
  | label, .forDo _ start none _ body, hsees, h => by
      have hloop : loopEnds label false (fun e => ends none e body) .done = true := by
        have hboth : (endsAll .done start && loopEnds label false (fun e => ends none e body) .done)
            = true := by simpa [ends] using h
        exact (Bool.and_eq_true_iff.mp hboth).2
      rcases loopEnds_done hloop with h | h
      · exact absurd h (by simp)
      · exact breaksTo_of_ends hsees h
  | label, .forDo _ start (some cond) _ body, hsees, h => by
      have hloop : loopEnds label (!isConstantTrue cond) (fun e => ends none e body) .done = true := by
        have hboth : (endsAll .done start
            && loopEnds label (!isConstantTrue cond) (fun e => ends none e body) .done) = true := by
          simpa [ends] using h
        exact (Bool.and_eq_true_iff.mp hboth).2
      refine Bool.or_eq_true_iff.mpr ?_
      rcases loopEnds_done hloop with h | h
      · exact .inl h
      · exact (Bool.or_eq_true_iff.mp hsees).imp_right fun hfinds => breaksTo_of_ends hfinds h
  | label, .doWhile _ body cond, hsees, h => by
      obtain ⟨hfinds, hrest⟩ := Bool.and_eq_true_iff.mp hsees
      refine Bool.or_eq_true_iff.mpr ?_
      rcases loopEnds_done h with h | h
      · -- the test comes after a body that completes or goes on to it
        obtain ⟨hcond, hbody⟩ := Bool.and_eq_true_iff.mp h
        refine .inl (Bool.and_eq_true_iff.mpr ⟨?_, hcond⟩)
        rw [Bool.not_eq_true'] at hcond
        rcases Bool.or_eq_true_iff.mp hrest with hrest | hrest
        · simpa [hcond] using hrest
        · obtain ⟨hsub, hcont⟩ := Bool.and_eq_true_iff.mp hrest
          obtain ⟨hnone, hlabel⟩ : ends none (.continued none) body = false
              ∧ ends none (.continued label) body = false := by simpa [continues] using hcont
          exact completes_of_ends none body hsub (by simpa [hnone, hlabel] using hbody)
      · exact .inr (breaksTo_of_ends hfinds h)
  | _, .labeled _ inner body, hsees, h => by
      obtain ⟨hbody, hlabel⟩ := Bool.and_eq_true_iff.mp hsees
      refine Bool.or_eq_true_iff.mpr ?_
      by_cases hloop : body.isLoop = true
      · refine .inl (completes_of_ends (some inner) body hbody ?_)
        simpa [ends, hloop] using h
      · rw [Bool.not_eq_true] at hloop
        have hends : ends none (.broke (some inner)) body = true ∨ ends none .done body = true := by
          simpa [ends, hloop] using h
        rcases hends with h | h
        · exact .inr (by simpa [findsLabel, hloop, h] using hlabel)
        · exact .inl (completes_of_ends (some inner) body hbody
            ((ends_of_not_isLoop hloop).trans h))
/-- A block whose statements can each be done completes. -/
theorem allComplete_of_ends : ∀ (ss : List Stmt), allSeeJumps ss = true →
    endsAll .done ss = true → allComplete ss = true
  | [], _, _ => rfl
  | s :: ss, hsees, h => by
      obtain ⟨hs, hss⟩ := Bool.and_eq_true_iff.mp hsees
      have hboth : ends none .done s = true ∧ endsAll .done ss = true := by
        simpa [endsAll] using h
      exact Bool.and_eq_true_iff.mpr
        ⟨completes_of_ends none s hs hboth.1, allComplete_of_ends ss hss hboth.2⟩
end

/-! ## §3. The verdict against execution. -/

/-- **The verdict is right**: a statement found unable to complete does not run
off its end, from any state, if no jump is overlooked and native functions throw
no jumps. -/
theorem canCompleteNormally_sound (s : Stmt) (hsees : seesJumps none s = true)
    (h : s.canCompleteNormally = false) (setting : Setting ω) (quiet : setting.Quiet) (fuel : Nat)
    (m m' : Machine ω) : execStmt setting fuel s m ≠ .ok () m' := by
  intro hrun
  have hends : ends none .done s = true := ((endsAsText quiet fuel).stmt s).ok hrun
  have hcompletes : s.canCompleteNormally = true := completes_of_ends none s hsees hends
  rw [h] at hcompletes
  exact absurd hcompletes (by simp)

namespace Endless

/-- Where the nodes stand does not matter. -/
def info : StmtInfo := ⟨0, .nowhere⟩

/-- A condition that is the given constant. -/
def constant (b : Bool) : Expr := .literal ⟨0, .boolean, .nowhere⟩ (.bool b)

/-- No classes, no native functions. -/
def setting : Setting Unit := Program.setting ⟨[], .empty⟩ fun _ => none

/-- There are no native methods, so none raises anything. -/
theorem quiet : setting.Quiet := by
  intro name f h
  injection h

/-- `l: while (true) { do { if (false) continue l; return; } while (false); }` -/
def search : Stmt :=
  .labeled info "l" (.whileDo info (constant true) (.block info
    [.doWhile info (.block info
      [.ifElse info (constant false) (.cont info (some "l")) none, .ret info none]) (constant false)]))

/-- `do { continue; } while (false);` -/
def continuedDo : Stmt := .doWhile info (.block info [.cont info none]) (constant false)

/-- `l: while (true) { l: { break; } }` -/
def reusedLabel : Stmt :=
  .labeled info "l" (.whileDo info (constant true)
    (.block info [.labeled info "l" (.block info [.brk info none])]))

/-- `while (true) { for (break; ; ) { } }` -/
def brokenStart : Stmt :=
  .whileDo info (constant true)
    (.block info [.forDo info [.brk info none] none [] (.block info [])])

/-- `l: { for (break l; ; ) { } }` -/
def labeledStart : Stmt :=
  .labeled info "l"
    (.block info [.forDo info [.brk info (some "l")] none [] (.block info [])])

end Endless

/-- The search for a way out of `Endless.search` finds none, and there is none. -/
theorem canCompleteNormally_sound_search :
    seesJumps none Endless.search = true ∧ Endless.search.canCompleteNormally = false
      ∧ Endless.setting.Quiet
      ∧ execStmt Endless.setting 20 Endless.search (.start ()) ≠ .ok () (.start ()) :=
  ⟨by decide, by decide, Endless.quiet,
    canCompleteNormally_sound Endless.search (by decide) (by decide) Endless.setting Endless.quiet
      20 (.start ()) (.start ())⟩

/-- A statement that is found unable to complete, and completes. -/
def Endless.Overlooked (s : Stmt) : Prop :=
  s.canCompleteNormally = false ∧ Endless.setting.Quiet
    ∧ execStmt Endless.setting 9 s (.start ()) = .ok () (.start ())

/-- **The jumps that the analysis of completion overlooks**: a `continue` to the
test of a `do` loop, a `break` behind a label used again, and a `break` in the
first part of a `for`, out of a loop or to a label. -/
theorem overlooked_completions :
    Endless.Overlooked Endless.continuedDo ∧ Endless.Overlooked Endless.reusedLabel
      ∧ Endless.Overlooked Endless.brokenStart ∧ Endless.Overlooked Endless.labeledStart :=
  ⟨⟨by decide, Endless.quiet, rfl⟩, ⟨by decide, Endless.quiet, rfl⟩,
    ⟨by decide, Endless.quiet, rfl⟩, ⟨by decide, Endless.quiet, rfl⟩⟩

end Flow

end PatternIR
