/-
  PatternIR.Proofs.Flow.Breaks
  ────────────────────────────
  **EVERY BREAK OUT OF A LOOP IS FOUND**, where the search looks.

  The search for a way out of a loop follows two scopes at once: a `break`
  without a label counts outside of further loops, a `break` to the label of
  the loop wherever the label is not used again.

      execStmt body m = broke target, target none or the label of the loop
          →  breaksTo label false body = true

  It does not look into two places, and a `break` out of the loop can stand in
  either:

    • the first part of a `for`, which is run outside of that `for`;
    • what is behind the label used again, where only a `break` to the label
      stays inside.

    • `hidesBreak` — a `break` out of the loop stands in such a place;
    • `breaksTo_or_hidesBreak` — every `break` is found or hidden, by the text;
    • `breaksTo_of_broke` — every `break` that is not hidden is found;
    • `hidden_breaks` — hidden ones, which are not.
-/
import PatternIR.Proofs.Flow.Completions

namespace PatternIR

variable {ω : Type}

namespace Flow

/-! ## §1. Where the search does not look. -/

/-- Whether a `break` leaves the loop under `label`; `nested` says that it
stands in a further loop. -/
def leaves (label : Option String) (nested : Bool) : (target : Option String) → Bool
  | none => !nested
  | some l => some l = label

/-- Whether a `break` that leaves the loop is among the endings. -/
def haveExit (label : Option String) (nested : Bool) (endings : Ending → Bool) : Bool :=
  (!nested && endings (.broke none)) || (label.isSome && endings (.broke label))

mutual
/-- Whether a `break` out of the loop under `label` stands in the first part of
a `for` or behind the label used again. -/
def hidesBreak (label : Option String) : (nested : Bool) → Stmt → Bool
  | nested, .block _ stmts => anyHidesBreak label nested stmts
  | nested, .ifElse _ _ yes no => hidesBreak label nested yes || optHidesBreak label nested no
  | nested, .labeled i inner body =>
    if some inner = label then haveExit label nested fun e => ends none e (.labeled i inner body)
    else hidesBreak label nested body
  | _, .whileDo _ _ body => hidesBreak label true body
  | _, .doWhile _ body _ => hidesBreak label true body
  | nested, .forDo _ start _ _ body =>
    haveExit label nested (fun e => endsAll e start) || hidesBreak label true body
  | _, .expr _ _ | _, .decl _ _ _ | _, .ret _ _ | _, .brk _ _ | _, .cont _ _ => false
/-- Whether one of several statements does. -/
def anyHidesBreak (label : Option String) (nested : Bool) : List Stmt → Bool
  | [] => false
  | s :: ss => hidesBreak label nested s || anyHidesBreak label nested ss
/-- Whether a branch that may be missing does. -/
def optHidesBreak (label : Option String) (nested : Bool) : Option Stmt → Bool
  | none => false
  | some s => hidesBreak label nested s
end

variable {label under target : Option String} {nested : Bool}

/-- A `break` without a label, or to the label of the loop, leaves it. -/
theorem leaves_of_target (h : target = none ∨ target = label) : leaves label false target = true := by
  cases target with
  | none => rfl
  | some l =>
      rcases h with h | h
      · exact nomatch h
      · exact decide_eq_true h

/-- An ending that leaves the loop is one of its exits. -/
theorem haveExit_of_leaves {endings : Ending → Bool} (hleaves : leaves label nested target = true)
    (h : endings (.broke target) = true) : haveExit label nested endings = true := by
  cases target with
  | none =>
      have hnested : nested = false := by simpa [leaves] using hleaves
      simp [haveExit, hnested, h]
  | some l =>
      obtain rfl := of_decide_eq_true hleaves
      simp [haveExit, h]

/-- A jump that a loop passes on leaves from inside of it just as well. -/
theorem leaves_nested (hleaves : leaves label nested target = true)
    (hpass : (Ending.broke target).passes under = true) : leaves label true target = true := by
  cases target with
  | none => exact absurd hpass (by simp [Ending.passes])
  | some l => exact hleaves

/-! ## §2. Found or hidden. -/

/-- A loop that ends in a `break` has it from its body. -/
theorem passes_of_loopEnds {test : Bool} {body : Ending → Bool}
    (h : loopEnds under test body (.broke target) = true) :
    (Ending.broke target).passes under = true ∧ body (.broke target) = true := by
  simpa [loopEnds] using h

mutual
/-- **Every `break` out of the loop is found or hidden.**  Both follow the
text, so it is the text that the induction is on. -/
theorem breaksTo_or_hidesBreak : ∀ (s : Stmt) {nested : Bool} {under target : Option String},
    leaves label nested target = true → ends under (.broke target) s = true →
      breaksTo label nested s = true ∨ hidesBreak label nested s = true
  | .expr _ _, _, _, _, _, h | .decl _ _ _, _, _, _, _, h => absurd h (by simp [ends])
  | .ret _ _, _, _, _, _, h | .cont _ _, _, _, _, _, h => absurd h (by simp [ends])
  | .brk _ target', nested, _, target, hleaves, h => by
      have heq : target = target' := by simpa [ends] using h
      subst heq
      cases target with
      | none => exact .inl hleaves
      | some l => exact .inl hleaves
  | .block _ stmts, _, _, _, hleaves, h => anyBreaksTo_or_hides stmts hleaves h
  | .ifElse _ _ yes no, nested, _, target, hleaves, h => by
      simp only [breaksTo, hidesBreak, Bool.or_eq_true]
      rcases Bool.or_eq_true_iff.mp h with h | h
      · have hyes := breaksTo_or_hidesBreak yes hleaves h
        exact hyes.imp .inl .inl
      · have hno := optBreaksTo_or_hides no hleaves h
        exact hno.imp .inr .inr
  | .whileDo _ _ body, _, _, _, hleaves, h | .doWhile _ body _, _, _, _, hleaves, h => by
      -- the loop takes what has no label, so a label takes the `break` out of both
      obtain ⟨hpass, hbody⟩ := passes_of_loopEnds h
      exact breaksTo_or_hidesBreak body (leaves_nested hleaves hpass) hbody
  | .forDo _ start _ _ body, nested, _, target, hleaves, h => by
      simp only [breaksTo, hidesBreak, Bool.or_eq_true]
      rcases Bool.or_eq_true_iff.mp h with h | h
      · exact .inr (.inl (haveExit_of_leaves hleaves (Bool.and_eq_true_iff.mp h).2))
      · obtain ⟨hpass, hbody⟩ := passes_of_loopEnds (Bool.and_eq_true_iff.mp h).2
        have hloop := breaksTo_or_hidesBreak body (leaves_nested hleaves hpass) hbody
        exact hloop.imp_right .inr
  | .labeled i inner body, nested, _, target, hleaves, h => by
      by_cases hinner : some inner = label
      · have hends : ends none (.broke target) (.labeled i inner body) = true := h
        refine .inr ?_
        rw [hidesBreak, if_pos hinner]
        exact haveExit_of_leaves hleaves hends
      · have hbody : ∃ under, ends under (.broke target) body = true := by
          by_cases hloop : body.isLoop = true
          · exact ⟨some inner, by simpa [ends, hloop] using h⟩
          · have hparts : target ≠ some inner ∧ ends none (.broke target) body = true := by
              simpa [ends, hloop] using h
            exact ⟨none, hparts.2⟩
        obtain ⟨under, hbody⟩ := hbody
        have hfound := breaksTo_or_hidesBreak body hleaves hbody
        rw [breaksTo, hidesBreak, if_neg hinner]
        simpa [hinner] using hfound
/-- The same of one of several statements. -/
theorem anyBreaksTo_or_hides : ∀ (ss : List Stmt) {nested : Bool} {target : Option String},
    leaves label nested target = true → endsAll (.broke target) ss = true →
      anyBreaksTo label nested ss = true ∨ anyHidesBreak label nested ss = true
  | [], _, _, _, h => absurd h (by simp [endsAll])
  | s :: ss, nested, target, hleaves, h => by
      simp only [anyBreaksTo, anyHidesBreak, Bool.or_eq_true]
      rcases Bool.or_eq_true_iff.mp h with h | h
      · have hs := breaksTo_or_hidesBreak s hleaves (Bool.and_eq_true_iff.mp h).2
        exact hs.imp .inl .inl
      · have hss := anyBreaksTo_or_hides ss hleaves (Bool.and_eq_true_iff.mp h).2
        exact hss.imp .inr .inr
theorem optBreaksTo_or_hides : ∀ (s : Option Stmt) {nested : Bool} {target : Option String},
    leaves label nested target = true → endsOpt (.broke target) s = true →
      optBreaksTo label nested s = true ∨ optHidesBreak label nested s = true
  | none, _, _, _, h => absurd h (by simp [endsOpt])
  | some s, _, _, hleaves, h => breaksTo_or_hidesBreak s hleaves h
end

/-! ## §3. The search against execution. -/

/-- **No `break` out of the loop is missed**: if execution of the body ends in
one that the loop takes, from any state, it is found, unless such a `break` is
hidden and as long as native functions throw no jumps. -/
theorem breaksTo_of_broke (label : Option String) (body : Stmt)
    (hhides : hidesBreak label false body = false) (setting : Setting ω) (quiet : setting.Quiet)
    (fuel : Nat) (m m' : Machine ω) (target : Option String)
    (htarget : target = none ∨ target = label)
    (h : execStmt setting fuel body m = .error (.interrupt (.broke target)) m') :
    breaksTo label false body = true := by
  have hends : ends none (.broke target) body = true := ((endsAsText quiet fuel).stmt body).jump h rfl
  rcases breaksTo_or_hidesBreak body (leaves_of_target htarget) hends with hfound | hhidden
  · exact hfound
  · rw [hhides] at hhidden
    exact absurd hhidden (by simp)

namespace Endless

/-- `{ k: for (; true; ) { if (true) break l; } }` -/
def brokenOuter : Stmt :=
  .block info [.labeled info "k" (.forDo info [] (some (constant true)) [] (.block info
    [.ifElse info (constant true) (.brk info (some "l")) none]))]

/-- `{ l: { break; } }` -/
def behindLabel : Stmt := .block info [.labeled info "l" (.block info [.brk info none])]

/-- `{ for (break …; ; ) { } }` -/
def inStart (target : Option String) : Stmt :=
  .block info [.forDo info [.brk info target] none [] (.block info [])]

/-- `{ l: for (break l; ; ) { } }` -/
def inLabeledStart : Stmt :=
  .block info [.labeled info "l" (.forDo info [.brk info (some "l")] none [] (.block info []))]

end Endless

/-- The search finds the `break` out of two loops that a run of `Endless.brokenOuter` ends in. -/
theorem breaksTo_of_broke_outer :
    hidesBreak (some "l") false Endless.brokenOuter = false ∧ Endless.setting.Quiet
      ∧ execStmt Endless.setting 9 Endless.brokenOuter (.start ())
        = .error (.interrupt (.broke (some "l"))) (.start ())
      ∧ breaksTo (some "l") false Endless.brokenOuter = true :=
  ⟨by decide, Endless.quiet, rfl,
    breaksTo_of_broke (some "l") Endless.brokenOuter (by decide) Endless.setting Endless.quiet 9
      (.start ()) (.start ()) (some "l") (.inr rfl) rfl⟩

/-- A body under `label` that ends in a `break` for its loop, which is not found. -/
def Endless.Hides (label : Option String) (body : Stmt) (target : Option String) : Prop :=
  (target = none ∨ target = label) ∧ Endless.setting.Quiet
    ∧ execStmt Endless.setting 9 body (.start ()) = .error (.interrupt (.broke target)) (.start ())
    ∧ breaksTo label false body = false

/-- **The breaks that the search misses**: behind the label used again, and in
the first part of a `for`, with the label of the loop or without one. -/
theorem hidden_breaks :
    Endless.Hides (some "l") Endless.behindLabel none
      ∧ Endless.Hides none (Endless.inStart none) none
      ∧ Endless.Hides (some "l") (Endless.inStart (some "l")) (some "l")
      ∧ Endless.Hides (some "l") Endless.inLabeledStart (some "l") :=
  ⟨⟨.inl rfl, Endless.quiet, rfl, by decide⟩, ⟨.inl rfl, Endless.quiet, rfl, by decide⟩,
    ⟨.inr rfl, Endless.quiet, rfl, by decide⟩, ⟨.inr rfl, Endless.quiet, rfl, by decide⟩⟩

end Flow

end PatternIR
