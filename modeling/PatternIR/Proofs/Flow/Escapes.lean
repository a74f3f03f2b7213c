/-
  PatternIR.Proofs.Flow.Escapes
  ─────────────────────────────
  **WHAT OUTLIVES A STATEMENT, IT HAS MATCHED.**

  Preservation visits each statement together with the labels attached to it
  and marks the bindings of one outcome of its condition.  They are assigned
  after the statement if it can complete only by that outcome:

      completesByTest w  →  execStmt w m = ok m'  →  b ∈ escaping w
          →  some leaf of b matched between m and m'

  The analysis of jumps alone does not give `completesByTest`.  It overlooks

    • a `break` to the label of an `if`;
    • of several labels on a loop, all but the innermost;
    • a `break` without a label behind a label that is used again;
    • a `continue` that leads to the test of a `do` loop.

  For each of these the bindings are marked although the statement can complete
  without a match: `overlooked_jumps`.

    • `Stmt.positions` — the statements in the order of the visits;
    • `preserveBindings_eq` — preservation is the fold of its visits;
    • `escaping_matched` — its soundness.
-/
import PatternIR.Flow.Preserve
import PatternIR.Proofs.Flow.Endings
import PatternIR.Proofs.Flow.Matches

namespace PatternIR

variable {ω : Type}

/-! ## §1. Statements with their labels. -/

namespace Stmt

/-- The statement under the labels attached to it. -/
def unlabeled : Stmt → Stmt
  | labeled _ _ body => body.unlabeled
  | s => s

/-- The innermost of the labels attached to a statement. -/
def label? : Stmt → Option String
  | labeled _ label body => body.label?.or (some label)
  | _ => none

/-- The labels attached to a statement, except for the innermost one of a
loop, which the loop has itself. -/
def catching : Stmt → List String
  | labeled _ label body => if body.isLoop then [] else label :: body.catching
  | _ => []

mutual
/-- The statements that stand in a statement, each with its labels. -/
def inner : Stmt → List Stmt
  | block _ stmts => innerAll stmts
  | ifElse _ _ yes no => yes :: (yes.inner ++ innerOpt no)
  | whileDo _ _ body => body :: body.inner
  | doWhile _ body _ => body :: body.inner
  | forDo _ start _ _ body => innerAll start ++ body :: body.inner
  | labeled _ _ body => body.inner
  | expr _ _ | decl _ _ _ | ret _ _ | brk _ _ | cont _ _ => []
/-- The statements below several ones, those themselves first. -/
def innerAll : List Stmt → List Stmt
  | [] => []
  | s :: ss => s :: (s.inner ++ innerAll ss)
/-- The statements below a branch that may be missing. -/
def innerOpt : Option Stmt → List Stmt
  | none => []
  | some s => s :: s.inner
end

/-- A statement and those that stand in it, each with its labels. -/
def positions (s : Stmt) : List Stmt := s :: s.inner

/-- The bindings of the type tests under a statement. -/
def tested (s : Stmt) : List BindingId := s.walkExprs.filterMap Expr.ownTest

/-- Below its labels, a statement is one of its own nodes. -/
theorem unlabeled_mem_walk : ∀ s : Stmt, s.unlabeled ∈ s.walk
  | labeled _ _ body => List.mem_cons_of_mem _ (unlabeled_mem_walk body)
  | expr _ _ | decl _ _ _ | block _ _ | ifElse _ _ _ _ | whileDo _ _ _ | doWhile _ _ _
  | forDo _ _ _ _ _ | ret _ _ | brk _ _ | cont _ _ => by
      unfold unlabeled walk
      exact List.mem_cons_self

mutual
/-- The statements below it are among its nodes, each below its labels. -/
theorem inner_mem_walk : ∀ (s : Stmt), ∀ w ∈ s.inner, w.unlabeled ∈ s.walk
  | block _ stmts, w, h => List.mem_cons_of_mem _ (innerAll_mem_walk stmts w h)
  | ifElse _ _ yes no, w, h => by
      refine List.mem_cons_of_mem _ (List.mem_append.mpr ?_)
      rcases List.mem_cons.mp h with rfl | h
      · exact .inl (unlabeled_mem_walk w)
      · rcases List.mem_append.mp h with h | h
        · exact .inl (inner_mem_walk yes w h)
        · exact .inr (innerOpt_mem_walk no w h)
  | whileDo _ _ body, w, h => by
      rcases List.mem_cons.mp h with rfl | h
      · exact List.mem_cons_of_mem _ (unlabeled_mem_walk w)
      · exact List.mem_cons_of_mem _ (inner_mem_walk body w h)
  | doWhile _ body _, w, h => by
      rcases List.mem_cons.mp h with rfl | h
      · exact List.mem_cons_of_mem _ (unlabeled_mem_walk w)
      · exact List.mem_cons_of_mem _ (inner_mem_walk body w h)
  | forDo _ start _ _ body, w, h => by
      refine List.mem_cons_of_mem _ (List.mem_append.mpr ?_)
      rcases List.mem_append.mp h with h | h
      · exact .inl (innerAll_mem_walk start w h)
      · rcases List.mem_cons.mp h with rfl | h
        · exact .inr (unlabeled_mem_walk w)
        · exact .inr (inner_mem_walk body w h)
  | labeled _ _ body, w, h => List.mem_cons_of_mem _ (inner_mem_walk body w h)
  | expr _ _, _, h | decl _ _ _, _, h | ret _ _, _, h | brk _ _, _, h | cont _ _, _, h =>
      absurd h (by simp [inner])
theorem innerAll_mem_walk : ∀ (ss : List Stmt), ∀ w ∈ innerAll ss, w.unlabeled ∈ walkAll ss
  | [], _, h => absurd h (by simp [innerAll])
  | s :: ss, w, h => by
      refine List.mem_append.mpr ?_
      rcases List.mem_cons.mp h with rfl | h
      · exact .inl (unlabeled_mem_walk w)
      · rcases List.mem_append.mp h with h | h
        · exact .inl (inner_mem_walk s w h)
        · exact .inr (innerAll_mem_walk ss w h)
theorem innerOpt_mem_walk : ∀ (s : Option Stmt), ∀ w ∈ innerOpt s, w.unlabeled ∈ walkOpt s
  | none, _, h => absurd h (by simp [innerOpt])
  | some s, w, h => by
      rcases List.mem_cons.mp h with rfl | h
      · exact unlabeled_mem_walk w
      · exact inner_mem_walk s w h
end

/-- An expression of a statement that stands in another is under that, with all its parts. -/
theorem walk_of_mem_positions {s w : Stmt} {e : Expr} (hw : w ∈ s.positions)
    (he : e ∈ w.unlabeled.ownExprs) : ∀ x ∈ e.walk, x ∈ s.walkExprs := by
  have hwalk : w.unlabeled ∈ s.walk := by
    rcases List.mem_cons.mp hw with rfl | hw
    · exact unlabeled_mem_walk w
    · exact inner_mem_walk s w hw
  intro x hx
  refine List.mem_flatMap.mpr ⟨_, hwalk, ?_⟩
  generalize w.unlabeled.ownExprs = es at he
  induction es with
  | nil => exact absurd he (by simp)
  | cons e' es ih =>
      refine List.mem_append.mpr ?_
      rcases List.mem_cons.mp he with rfl | he
      · exact .inl hx
      · exact .inr (ih he)

/-- The patterns in an expression of a statement that stands in another are patterns of that. -/
theorem tested_of_mem_positions {s w : Stmt} {e : Expr} (hw : w ∈ s.positions)
    (he : e ∈ w.unlabeled.ownExprs) : ∀ b ∈ e.tested, b ∈ s.tested := by
  intro b hb
  obtain ⟨x, hx, hxb⟩ := List.mem_filterMap.mp hb
  exact List.mem_filterMap.mpr ⟨x, walk_of_mem_positions hw he x hx, hxb⟩

end Stmt

namespace Program

/-- The statements of a program in the order in which preservation visits them. -/
def positions (p : Program) : List Stmt :=
  p.methods.flatMap fun m => Stmt.innerOpt m.body

/-- The bindings of the type tests of a program. -/
def tested (p : Program) : List BindingId :=
  p.methods.flatMap fun m => m.body.toList.flatMap Stmt.tested

/-- What a condition of a position tests for is tested for in the program. -/
theorem tested_of_mem_positions {p : Program} {w : Stmt} {e : Expr} (hw : w ∈ p.positions)
    (he : e ∈ w.unlabeled.ownExprs) : ∀ b ∈ e.tested, b ∈ p.tested := by
  obtain ⟨m, hm, hw⟩ := List.mem_flatMap.mp hw
  intro b hb
  refine List.mem_flatMap.mpr ⟨m, hm, ?_⟩
  cases hbody : m.body with
  | none =>
      rw [hbody] at hw
      exact absurd hw (by simp [Stmt.innerOpt])
  | some body =>
      rw [hbody] at hw
      exact List.mem_flatMap.mpr ⟨body, by simp, Stmt.tested_of_mem_positions hw he b hb⟩

end Program

/-! ## §2. Visits. -/

namespace Flow

/-- The bindings that escape a statement with its labels, and the table after they were asked for. -/
def escaping (flow : Oracle) (s : Symbols) (w : Stmt) : List BindingId × Symbols :=
  match escape? w.label? w.unlabeled with
  | none => ([], s)
  | some (cond, outcome) => flow cond outcome s

/-- Mark what escapes one statement with its labels. -/
def visit (flow : Oracle) (s : Symbols) (w : Stmt) : Symbols :=
  (escaping flow s w).1.foldl Symbols.preserve (escaping flow s w).2

/-- A visit of a statement is a step of the analysis below its labels. -/
theorem visit_eq (flow : Oracle) (s : Symbols) (w : Stmt) :
    visit flow s w = preserveAt flow w.label? w.unlabeled s := by
  unfold visit escaping preserveAt
  cases escape? w.label? w.unlabeled with
  | none => rfl
  | some _ => rfl

-- The traversal carries the label it has come through, `inner` keeps a statement under
-- its labels: `visit` reads the label off the statement, so the two meet at `label?`.
mutual
/-- **The walk visits the statement itself, then the statements below it.** -/
theorem preserveIn_eq (flow : Oracle) : ∀ (label : Option String) (t : Stmt) (s : Symbols),
    preserveIn flow label t s
      = t.inner.foldl (visit flow) (preserveAt flow (t.label?.or label) t.unlabeled s)
  | label, .block i stmts, s => preserveAll_eq flow stmts _
  | label, .ifElse i c yes no, s => by
      show preserveOpt flow no (preserveIn flow none yes _) = _
      rw [preserveOpt_eq, preserveIn_eq]
      simp only [Stmt.inner, List.foldl_cons, List.foldl_append, visit_eq, Option.or_none]
      rfl
  | label, .whileDo i c body, s => by
      show preserveIn flow none body _ = _
      rw [preserveIn_eq]
      simp only [Stmt.inner, List.foldl_cons, visit_eq, Option.or_none]
      rfl
  | label, .doWhile i body c, s => by
      show preserveIn flow none body _ = _
      rw [preserveIn_eq]
      simp only [Stmt.inner, List.foldl_cons, visit_eq, Option.or_none]
      rfl
  | label, .forDo i start c step body, s => by
      show preserveIn flow none body (preserveAll flow start _) = _
      rw [preserveIn_eq, preserveAll_eq]
      simp only [Stmt.inner, List.foldl_cons, List.foldl_append, visit_eq, Option.or_none]
      rfl
  | label, .labeled i l body, s => by
      show preserveIn flow (some l) body s = _
      rw [preserveIn_eq]
      simp only [Stmt.inner, Stmt.label?, Stmt.unlabeled, Option.or_assoc, Option.some_or]
  | _, .expr _ _, _ | _, .decl _ _ _, _ | _, .ret _ _, _ | _, .brk _ _, _
  | _, .cont _ _, _ => rfl
/-- The same of statements in their order. -/
theorem preserveAll_eq (flow : Oracle) : ∀ (ts : List Stmt) (s : Symbols),
    preserveAll flow ts s = (Stmt.innerAll ts).foldl (visit flow) s
  | [], _ => rfl
  | t :: ts, s => by
      show preserveAll flow ts (preserveIn flow none t s) = _
      rw [preserveAll_eq, preserveIn_eq]
      simp only [Stmt.innerAll, List.foldl_cons, List.foldl_append, visit_eq, Option.or_none]
theorem preserveOpt_eq (flow : Oracle) : ∀ (t : Option Stmt) (s : Symbols),
    preserveOpt flow t s = (Stmt.innerOpt t).foldl (visit flow) s
  | none, _ => rfl
  | some t, s => by
      show preserveIn flow none t s = _
      rw [preserveIn_eq]
      simp only [Stmt.innerOpt, List.foldl_cons, visit_eq, Option.or_none]
end

/-- **Preservation is the fold of its visits.** -/
theorem preserveBindings_eq (flow : Oracle) (p : Program) :
    (p.preserveBindings flow).symbols = p.positions.foldl (visit flow) p.symbols := by
  show preserveClasses flow p.classes p.symbols = _
  unfold preserveClasses Program.positions Program.methods
  generalize p.classes.flatMap (·.methods) = ms
  generalize p.symbols = s
  induction ms generalizing s with
  | nil => rfl
  | cons m ms ih => rw [List.foldl_cons, ih, preserveOpt_eq, List.flatMap_cons, List.foldl_append]

end Flow

/-! ## §3. Statements that complete only by their test. -/

namespace Stmt

/-- Whether a part of a statement can break to one of the labels attached to it. -/
def breaksOut (w part : Stmt) : Bool :=
  w.catching.any fun label => Flow.ends none (.broke (some label)) part

/-- Whether the body of a loop with its labels can break out of it. -/
def leavesLoop (w body : Stmt) : Bool :=
  Flow.ends none (.broke none) body || Flow.ends none (.broke w.label?) body || w.breaksOut body

/-- Whether a branch under labels neither runs off its end nor breaks to one of them. -/
def neverPasses (w branch : Stmt) : Bool :=
  !Flow.ends none .done branch && !w.breaksOut branch

/-- Whether a statement with its labels completes only by the outcome of its
test after which its bindings escape. -/
def completesByTest (w : Stmt) : Bool :=
  match w.unlabeled with
  | ifElse _ _ yes none => w.neverPasses yes
  | ifElse _ _ yes (some no) =>
    if yes.canCompleteNormally then w.neverPasses no else w.neverPasses yes
  | whileDo _ _ body | doWhile _ body _ => !w.leavesLoop body
  | forDo _ start _ _ body =>
    !w.leavesLoop body
      && !w.catching.any fun label => Flow.endsAll (.broke (some label)) start
  | _ => true

end Stmt

/-- Run a statement as its labels leave it: a loop has the innermost of them. -/
def execUnlabeled (setting : Setting ω) (fuel : Nat) (label : Option String) : Stmt → Run ω Unit
  | .whileDo _ c b => execWhile setting fuel label c b
  | .doWhile _ b c => execDo setting fuel label b c
  | .forDo _ ss c es b => do
    execAll setting fuel ss
    execFor setting fuel label c es b
  | s => execStmt setting fuel s

section

variable {setting : Setting ω} {m m' : Machine ω}

/-- A labelled loop is run with its label, anything else in a run that the label settles. -/
theorem execStmt_labeled (setting : Setting ω) (n : Nat) (i : StmtInfo) (label : String)
    (body : Stmt) :
    (body.isLoop = true ∧ execStmt setting (n + 1) (.labeled i label body)
        = execUnlabeled setting n (some label) body)
      ∨ (body.isLoop = false ∧ execStmt setting (n + 1) (.labeled i label body)
        = settle (catchLabel label) (execStmt setting n body)) := by
  cases body with
  | whileDo _ _ _ | doWhile _ _ _ | forDo _ _ _ _ _ => exact .inl ⟨rfl, rfl⟩
  | _ => exact .inr ⟨rfl, rfl⟩

/-- A statement without labels is run as it is. -/
theorem execUnlabeled_of_label? {s : Stmt} {n : Nat} {r : EStateM.Result Stop (Machine ω) Unit}
    (h : execStmt setting (n + 1) s m = r) (hlabel : s.label? = none) :
    ∃ k, execUnlabeled setting k s.label? s.unlabeled m = r := by
  cases s with
  | whileDo _ _ _ | doWhile _ _ _ | forDo _ _ _ _ _ => exact ⟨n, h⟩
  | labeled _ _ body =>
      exact absurd hlabel (by cases hb : body.label? <;> simp [Stmt.label?, hb])
  | _ => exact ⟨n + 1, h⟩

/-- A loop has no label of its own to look below. -/
theorem Stmt.labels_of_isLoop {s : Stmt} (h : s.isLoop = true) :
    s.unlabeled = s ∧ s.label? = none := by
  cases s with
  | whileDo _ _ _ | doWhile _ _ _ | forDo _ _ _ _ _ => exact ⟨rfl, rfl⟩
  | _ => exact absurd h (by simp [Stmt.isLoop])

/-- Past a loop, the label next to a statement is that of the statement under one more label. -/
theorem execUnlabeled_of_not_isLoop {label : Option String} {s : Stmt} (n : Nat)
    (h : s.isLoop = false) : execUnlabeled setting n label s = execStmt setting n s := by
  cases s with
  | whileDo _ _ _ | doWhile _ _ _ | forDo _ _ _ _ _ => exact absurd h (by simp [Stmt.isLoop])
  | _ => rfl

/-- Under one more label, a statement that is not a loop is the same without labels. -/
theorem execUnlabeled_labeled {i : StmtInfo} {label : String} {body : Stmt} (n : Nat)
    (h : body.isLoop = false) :
    execUnlabeled setting n (Stmt.labeled i label body).label? (Stmt.labeled i label body).unlabeled
      = execUnlabeled setting n body.label? body.unlabeled := by
  show execUnlabeled setting n (body.label?.or (some label)) body.unlabeled = _
  cases hl : body.label? with
  | some l => rfl
  | none =>
      have hbody : body.unlabeled = body := by
        cases body with
        | labeled _ _ b => exact absurd hl (by cases hb : b.label? <;> simp [Stmt.label?, hb])
        | _ => rfl
      rw [hbody, execUnlabeled_of_not_isLoop n h, execUnlabeled_of_not_isLoop n h]

/-- What a labelled statement throws, the statement has thrown. -/
theorem execUnlabeled_error {i : Interrupt} : ∀ (w : Stmt) (n : Nat),
    execStmt setting n w m = .error (.interrupt i) m' →
      ∃ k, execUnlabeled setting k w.label? w.unlabeled m = .error (.interrupt i) m'
  | .labeled info label body, n, h => by
      cases n with
      | zero =>
          injection h with h
          injection h
      | succ n =>
          rcases execStmt_labeled setting n info label body with ⟨hloop, heq⟩ | ⟨hloop, heq⟩
          · rw [heq] at h
            obtain ⟨hb, hl⟩ := Stmt.labels_of_isLoop hloop
            exact ⟨n, by simpa [Stmt.label?, Stmt.unlabeled, hb, hl] using h⟩
          · rw [heq] at h
            rcases settle_eq_error h with ⟨_, h₁, hstop⟩ | ⟨stop, h₁, hstop⟩
            · exact absurd (catchLabel_eq_error hstop).1 (by simp)
            · injection (catchLabel_eq_error hstop).1 with hstop
              subst hstop
              obtain ⟨k, hk⟩ := execUnlabeled_error body n h₁
              exact ⟨k, by rw [execUnlabeled_labeled k hloop]; exact hk⟩
  | .expr _ _, n, h | .decl _ _ _, n, h | .block _ _, n, h | .ifElse _ _ _ _, n, h
  | .whileDo _ _ _, n, h | .doWhile _ _ _, n, h | .forDo _ _ _ _ _, n, h | .ret _ _, n, h
  | .brk _ _, n, h | .cont _ _, n, h => by
      cases n with
      | zero =>
          injection h with h
          injection h
      | succ n =>
          exact execUnlabeled_of_label? h rfl

/-- A statement with its labels completes where the statement does, or where
one of the labels takes a `break`. -/
def Stmt.Passes (w : Stmt) (e : Ending) : Prop :=
  e = .done ∨ ∃ label ∈ w.catching, e = .broke (some label)

/-- A statement that completes is one below its labels, with an ending they let pass. -/
theorem execUnlabeled_endsWith : ∀ (w : Stmt) (n : Nat), execStmt setting n w m = .ok () m' →
    ∃ k e, w.Passes e ∧ (execUnlabeled setting k w.label? w.unlabeled).EndsWith e m m'
  | .labeled info label body, n, h => by
      cases n with
      | zero => injection h
      | succ n =>
          rcases execStmt_labeled setting n info label body with ⟨hloop, heq⟩ | ⟨hloop, heq⟩
          · rw [heq] at h
            obtain ⟨hb, hl⟩ := Stmt.labels_of_isLoop hloop
            refine ⟨n, .done, .inl rfl, ?_⟩
            show execUnlabeled setting n (body.label?.or (some label)) body.unlabeled m = _
            rw [hb, hl]
            exact h
          · rw [heq] at h
            have hcatching : (Stmt.labeled info label body).catching = label :: body.catching := by
              simp [Stmt.catching, hloop]
            rcases settle_eq_ok h with ⟨_, h₁, -⟩ | ⟨stop, h₁, hstop⟩
            · obtain ⟨k, e, he, hk⟩ := execUnlabeled_endsWith body n h₁
              refine ⟨k, e, ?_, by rw [execUnlabeled_labeled k hloop]; exact hk⟩
              rcases he with he | ⟨l, hl, he⟩
              · exact .inl he
              · exact .inr ⟨l, by rw [hcatching]; exact List.mem_cons_of_mem _ hl, he⟩
            -- a break to this label is caught here; without the labels it passes to the outside
            · rcases catchLabel_eq_ok hstop with hstop | hstop
              · exact absurd hstop (by simp)
              · injection hstop with hstop
                subst hstop
                obtain ⟨k, hk⟩ := execUnlabeled_error body n h₁
                exact ⟨k, .broke (some label), .inr ⟨label, by simp [hcatching], rfl⟩,
                  by rw [execUnlabeled_labeled k hloop]; exact hk⟩
  | .expr _ _, n, h | .decl _ _ _, n, h | .block _ _, n, h | .ifElse _ _ _ _, n, h
  | .whileDo _ _ _, n, h | .doWhile _ _ _, n, h | .forDo _ _ _ _ _, n, h | .ret _ _, n, h
  | .brk _ _, n, h | .cont _ _, n, h => by
      cases n with
      | zero => injection h
      | succ n =>
          obtain ⟨k, hk⟩ := execUnlabeled_of_label? h rfl
          exact ⟨k, .done, .inl rfl, hk⟩

end

/-! ## §4. The test has come out. -/

/-- Between the two machines, in the activation current in both, `cond` has
come out as `outcome`; the relation `R` holds before and after. -/
def CameOut (R : Machine ω → Machine ω → Prop) (setting : Setting ω) (cond : Expr) (outcome : Bool)
    (m m' : Machine ω) : Prop :=
  ∃ n m₁ m₂, R m m₁ ∧ evalExpr setting n cond m₁ = .ok (.bool outcome) m₂ ∧ R m₂ m'

namespace CameOut

variable {R : Machine ω → Machine ω → Prop} {setting : Setting ω} {cond : Expr} {outcome : Bool}
  {m m₁ m' : Machine ω}

/-- What came out after a later point came out after an earlier one. -/
theorem after (hR : Framed R) (h : R m m₁) (h₁ : CameOut R setting cond outcome m₁ m') :
    CameOut R setting cond outcome m m' := by
  obtain ⟨n, m₂, m₃, h₂, hcond, h₃⟩ := h₁
  exact ⟨n, m₂, m₃, hR.trans _ _ _ h h₂, hcond, h₃⟩

/-- What the structural oracle lists for the outcome has matched. -/
theorem allMatched (h : CameOut Machine.Later setting cond outcome m m') {s : Symbols}
    (hs : ∀ b ∈ cond.tested, s.isLeaf b = true) :
    Flow.AllMatched m m' (Flow.matchBindings cond outcome s) := by
  obtain ⟨n, m₁, m₂, h₁, hcond, h₂⟩ := h
  have hall := Flow.matchBindings_allMatched cond outcome s n m₁ m₂ hs hcond
  exact .after h₁ (hall.before (evalExpr_later hcond) h₂)

end CameOut

section

variable {R : Machine ω → Machine ω → Prop} (hR : Framed R) {setting : Setting ω}
  (quiet : setting.Quiet) {label : Option String} {c : Expr} {b : Stmt} {n : Nat} {m m' : Machine ω}

include hR in
/-- A turn of the loop keeps what a frame keeps. -/
theorem settle_after_kept {turn : Turn}
    (h : settle (Turn.after label) (execStmt setting n b) m = .ok turn m') : R m m' :=
  (Run.Keeps.settle (Turn.settles_after label) ((hR.kept setting n).stmt b)).ok h

include quiet

/-- A loop whose body does not break out of it goes round after its body. -/
theorem settle_after_next {turn : Turn} (hnone : Flow.ends none (.broke none) b = false)
    (hlabel : Flow.ends none (.broke label) b = false)
    (h : settle (Turn.after label) (execStmt setting n b) m = .ok turn m') : turn = .next := by
  cases turn with
  | next => rfl
  | exit =>
      rcases (((endsAsText quiet n).stmt b).after label).exit h with h | h
      · rw [hnone] at h
        exact absurd h (by simp)
      · rw [hlabel] at h
        exact absurd h (by simp)

variable (hnone : Flow.ends none (.broke none) b = false)
  (hlabel : Flow.ends none (.broke label) b = false)

include hR hnone hlabel

/-- A `while` that completes comes out of its test, if no `break` leaves it. -/
theorem execWhile_cameOut : ∀ {n : Nat} {m : Machine ω},
    execWhile setting n label c b m = .ok () m' → CameOut R setting c false m m'
  | 0, m, h => by injection h
  | n + 1, m, h => by
      obtain ⟨t, m₁, hc, h₁⟩ := Run.cond_eq_ok.mp h
      cases t with
      | false =>
          injection h₁ with _ hm
          subst hm
          exact ⟨n, m, m₁, hR.refl _, hc, hR.refl _⟩
      | true =>
          obtain ⟨turn, m₂, hb, h₂⟩ := bind_eq_ok.mp h₁
          have hturn := settle_after_next quiet hnone hlabel hb
          subst hturn
          exact .after hR (hR.trans _ _ _ (((hR.kept setting n).expr c).ok hc) (settle_after_kept hR hb))
            (execWhile_cameOut h₂)

/-- So does a `do`. -/
theorem execDo_cameOut : ∀ {n : Nat} {m : Machine ω},
    execDo setting n label b c m = .ok () m' → CameOut R setting c false m m'
  | 0, m, h => by injection h
  | n + 1, m, h => by
      obtain ⟨turn, m₁, hb, h₁⟩ := bind_eq_ok.mp h
      have hturn := settle_after_next quiet hnone hlabel hb
      subst hturn
      obtain ⟨t, m₂, hc, h₂⟩ := Run.cond_eq_ok.mp h₁
      refine .after hR (settle_after_kept hR hb) ?_
      cases t with
      | false =>
          injection h₂ with _ hm
          subst hm
          exact ⟨n, m₁, m₂, hR.refl _, hc, hR.refl _⟩
      | true => exact .after hR (((hR.kept setting n).expr c).ok hc) (execDo_cameOut h₂)

/-- So does a `for` that has a test. -/
theorem execFor_cameOut {es : List Expr} : ∀ {n : Nat} {m : Machine ω},
    execFor setting n label (some c) es b m = .ok () m' → CameOut R setting c false m m'
  | 0, m, h => by injection h
  | n + 1, m, h => by
      obtain ⟨t, m₁, hc, h₁⟩ := Run.cond_eq_ok.mp h
      cases t with
      | false =>
          injection h₁ with _ hm
          subst hm
          exact ⟨n, m, m₁, hR.refl _, hc, hR.refl _⟩
      | true =>
          obtain ⟨turn, m₂, hb, h₂⟩ := bind_eq_ok.mp h₁
          have hturn := settle_after_next quiet hnone hlabel hb
          subst hturn
          obtain ⟨_, m₃, hes, h₃⟩ := bind_eq_ok.mp h₂
          have hround : R m m₂ :=
            hR.trans _ _ _ (((hR.kept setting n).expr c).ok hc) (settle_after_kept hR hb)
          exact .after hR (hR.trans _ _ _ hround (((hR.kept setting n).all es).ok hes))
            (execFor_cameOut h₃)

end

section

variable {R : Machine ω → Machine ω → Prop} (hR : Framed R) {setting : Setting ω}
  (quiet : setting.Quiet) {w : Stmt} {e : Ending} {n : Nat} {m m' : Machine ω}

/-- A branch that never passes has no ending that the labels let pass. -/
theorem Stmt.ends_of_neverPasses {branch : Stmt} (h : w.neverPasses branch = true)
    (he : w.Passes e) : Flow.ends none e branch = false := by
  simp only [Stmt.neverPasses, Stmt.breaksOut, Bool.and_eq_true, Bool.not_eq_true',
    List.any_eq_false] at h
  rcases he with rfl | ⟨label, hlabel, rfl⟩
  · exact h.1
  · simpa using h.2 label hlabel

include hR quiet

/-- An `if` of which one branch never passes has taken the other branch. -/
theorem ifElse_cameOut {i : StmtInfo} {c : Expr} {yes : Stmt} {no : Option Stmt} {outcome : Bool}
    (h : (execStmt setting n (.ifElse i c yes no)).EndsWith e m m')
    (hyes : outcome = false → Flow.ends none e yes = false)
    (hno : outcome = true → Flow.endsOpt e no = false) : CameOut R setting c outcome m m' := by
  cases n with
  | zero =>
      have hfalse : false = true := (Run.EndsIn.exhausted (P := fun _ => false)).endsWith h
      exact absurd hfalse (by simp)
  | succ n =>
      obtain ⟨t, m₁, hc, hbranch⟩ := Run.EndsWith.test ((jumpless quiet n).expr c) h
      have hends := endsAsText quiet n
      have hkept := hR.kept setting n
      cases t with
      | true =>
          -- the branch that was taken can end so; if it is the one that cannot, there is nothing to
          -- show
          have hb : Flow.ends none e yes = true := (hends.stmt yes).endsWith hbranch
          cases outcome with
          | true => exact ⟨n, m, m₁, hR.refl _, hc, (hkept.stmt yes).endsWith hbranch⟩
          | false =>
              rw [hyes rfl] at hb
              exact absurd hb (by simp)
      | false =>
          cases no with
          | some s =>
              have hb : Flow.ends none e s = true := (hends.stmt s).endsWith hbranch
              cases outcome with
              | false => exact ⟨n, m, m₁, hR.refl _, hc, (hkept.stmt s).endsWith hbranch⟩
              | true =>
                  have hs : Flow.ends none e s = false := hno rfl
                  rw [hs] at hb
                  exact absurd hb (by simp)
          | none =>
              have hpure : (Pure.pure () : Run ω Unit).EndsWith e m₁ m' := hbranch
              have hdone : decide (e = .done) = true :=
                (Run.EndsIn.pure (P := fun e => decide (e = .done)) rfl).endsWith hpure
              cases outcome with
              | false =>
                  exact ⟨n, m, m₁, hR.refl _, hc, (Run.Keeps.pure hR.refl ()).endsWith hpure⟩
              | true =>
                  have hs : decide (e = .done) = false := hno rfl
                  rw [hs] at hdone
                  exact absurd hdone (by simp)

/-- A `while` loop with its labels has ended by its test. -/
theorem whileDo_cameOut {c : Expr} {b : Stmt} (hb : w.leavesLoop b = false) (he : w.Passes e)
    (h : (execWhile setting n w.label? c b).EndsWith e m m') : CameOut R setting c false m m' := by
  simp only [Stmt.leavesLoop, Stmt.breaksOut, Bool.or_eq_false_iff] at hb
  rcases he with rfl | ⟨l, hl, rfl⟩
  · exact execWhile_cameOut hR quiet hb.1.1 hb.1.2 h
  · have hends := ((endsAsText quiet n).whileDo w.label? c b).endsWith h
    have hbl := List.any_eq_false.mp hb.2 l hl
    simp [Flow.whileEnds, Flow.loopEnds, hbl] at hends

/-- A `do` that ends past its labels comes out of its test. -/
theorem doWhile_cameOut {c : Expr} {b : Stmt} (hb : w.leavesLoop b = false) (he : w.Passes e)
    (h : (execDo setting n w.label? b c).EndsWith e m m') : CameOut R setting c false m m' := by
  simp only [Stmt.leavesLoop, Stmt.breaksOut, Bool.or_eq_false_iff] at hb
  rcases he with rfl | ⟨l, hl, rfl⟩
  · exact execDo_cameOut hR quiet hb.1.1 hb.1.2 h
  · have hends := ((endsAsText quiet n).doWhile w.label? b c).endsWith h
    have hbl := List.any_eq_false.mp hb.2 l hl
    simp [Flow.doEnds, Flow.loopEnds, hbl] at hends

/-- So does a `for`, if what begins it cannot break to them. -/
theorem forDo_cameOut {i : StmtInfo} {ss : List Stmt} {c : Expr} {es : List Expr} {b : Stmt}
    (hb : w.leavesLoop b = false)
    (hss : (w.catching.any fun l => Flow.endsAll (.broke (some l)) ss) = false) (he : w.Passes e)
    (h : (execUnlabeled setting n w.label? (.forDo i ss (some c) es b)).EndsWith e m m') :
    CameOut R setting c false m m' := by
  simp only [Stmt.leavesLoop, Stmt.breaksOut, Bool.or_eq_false_iff] at hb
  rcases he with rfl | ⟨l, hl, rfl⟩
  · obtain ⟨_, m₁, h₁, h₂⟩ := bind_eq_ok.mp h
    exact .after hR (((hR.kept setting n).stmts ss).ok h₁) (execFor_cameOut hR quiet hb.1.1 hb.1.2 h₂)
  · have hends : Flow.ends w.label? (.broke (some l)) (.forDo i ss (some c) es b) = true :=
      ((endsAsText quiet n).forDo_from i w.label? ss (some c) es b).endsWith h
    have hbl := List.any_eq_false.mp hb.2 l hl
    have hsl := List.any_eq_false.mp hss l hl
    simp [Flow.ends, Flow.loopEnds, hbl, hsl] at hends

/-- **A statement that completes only by its test has completed by it.** -/
theorem cameOut_of_completesByTest {c : Expr} {outcome : Bool} (hw : w.completesByTest = true)
    (hesc : Flow.escape? w.label? w.unlabeled = some (c, outcome))
    (h : execStmt setting n w m = .ok () m') : CameOut R setting c outcome m m' := by
  obtain ⟨k, e, he, hk⟩ := execUnlabeled_endsWith w n h
  unfold Stmt.completesByTest at hw
  unfold Flow.escape? at hesc
  split at hesc
  next i cond yes heq =>
    -- an `if` without `else`, which completes by the outcome false
    simp only [heq] at hw hk
    split at hesc
    next => exact absurd hesc (by simp)
    next =>
      injection hesc with hesc
      injection hesc with hc ho
      subst hc ho
      exact ifElse_cameOut hR quiet hk (fun _ => Stmt.ends_of_neverPasses hw he)
        fun ho => absurd ho (by simp)
  next i cond yes no heq =>
    simp only [heq] at hw hk
    split at hesc
    next hyes hno =>
      injection hesc with hesc
      injection hesc with hc ho
      subst hc ho
      rw [hyes] at hw
      exact ifElse_cameOut hR quiet hk (fun _ => Stmt.ends_of_neverPasses hw he)
        fun ho => absurd ho (by simp)
    next hyes hno =>
      injection hesc with hesc
      injection hesc with hc ho
      subst hc ho
      rw [hyes] at hw
      exact ifElse_cameOut hR quiet hk (fun ho => absurd ho (by simp))
        fun _ => Stmt.ends_of_neverPasses hw he
    next => exact absurd hesc (by simp)
  next i cond body heq =>
    simp only [heq, Bool.not_eq_true'] at hw hk
    split at hesc
    next => exact absurd hesc (by simp)
    next =>
      injection hesc with hesc
      injection hesc with hc ho
      subst hc ho
      exact whileDo_cameOut hR quiet hw he hk
  next i body cond heq =>
    simp only [heq, Bool.not_eq_true'] at hw hk
    split at hesc
    next => exact absurd hesc (by simp)
    next =>
      injection hesc with hesc
      injection hesc with hc ho
      subst hc ho
      exact doWhile_cameOut hR quiet hw he hk
  next i start cond step body heq =>
    simp only [heq, Bool.and_eq_true, Bool.not_eq_true'] at hw hk
    split at hesc
    next => exact absurd hesc (by simp)
    next =>
      injection hesc with hesc
      injection hesc with hc ho
      subst hc ho
      exact forDo_cameOut hR quiet hw.1 hw.2 he hk
  next => exact absurd hesc (by simp)

end

/-! ## §5. Soundness of preservation. -/

namespace Flow

open Symbols (Grows)

section

variable {P : Symbols → Prop}

/-- What unifying and marking keep, a visit keeps. -/
theorem visit_keeps (hmerge : ∀ {s t : Symbols} {a b m : BindingId}, P s → s.merge? a b = some (m, t) → P t)
    (hpreserve : ∀ {s : Symbols} (b : BindingId), P s → P (s.preserve b)) (w : Stmt) {s : Symbols} (hs : P s) :
    P (visit matchBindings s w) := by
  have hmarks : ∀ (ids : List BindingId) {t : Symbols}, P t → P (ids.foldl Symbols.preserve t) := by
    intro ids
    induction ids with
    | nil => exact fun ht => ht
    | cons id ids ih => exact fun ht => ih (hpreserve id ht)
  refine hmarks _ ?_
  unfold escaping
  split
  · exact hs
  · exact matchBindings_keeps hmerge _ _ hs

/-- **What unifying and marking keep**, all visits keep. -/
theorem visits_keep (hmerge : ∀ {s t : Symbols} {a b m : BindingId}, P s → s.merge? a b = some (m, t) → P t)
    (hpreserve : ∀ {s : Symbols} (b : BindingId), P s → P (s.preserve b)) :
    ∀ (ws : List Stmt) {s : Symbols}, P s → P (ws.foldl (visit matchBindings) s)
  | [], _, hs => hs
  | w :: ws, _, hs => visits_keep hmerge hpreserve ws (visit_keeps hmerge hpreserve w hs)

end

/-- A visit takes nothing out of the table. -/
theorem visit_grows (s : Symbols) (w : Stmt) : s.Grows (visit matchBindings s w) :=
  visit_keeps (fun h hm => h.trans (Symbols.merge?_grows hm)) (fun b h => h.trans (.preserve _ b)) w (.refl s)

/-- Nor do several. -/
theorem visits_grow (ws : List Stmt) (s : Symbols) : s.Grows (ws.foldl (visit matchBindings) s) :=
  visits_keep (fun h hm => h.trans (Symbols.merge?_grows hm)) (fun b h => h.trans (.preserve _ b)) ws (.refl s)

/-- The condition by which bindings escape is an expression of the statement itself. -/
theorem mem_ownExprs_of_escape? {label : Option String} {t : Stmt} {c : Expr} {outcome : Bool}
    (h : escape? label t = some (c, outcome)) : c ∈ t.ownExprs := by
  unfold escape? at h
  split at h
  next => split at h <;> simp_all [Stmt.ownExprs]
  next => split at h <;> simp_all [Stmt.ownExprs]
  next => split at h <;> simp_all [Stmt.ownExprs]
  next => split at h <;> simp_all [Stmt.ownExprs]
  next => split at h <;> simp_all [Stmt.ownExprs]
  next => exact absurd h (by simp)

/-- **Soundness of preservation**: if a statement with its labels completes
only by its test, then whenever its execution has completed, some leaf of each
binding marked at its visit has matched during that execution.  The patterns of
the program stand for themselves, and native functions throw no jumps. -/
theorem escaping_matched (p : Program) (setting : Setting ω) (quiet : setting.Quiet)
    (hleaf : ∀ b ∈ p.tested, p.symbols.isLeaf b = true) (before after : List Stmt) (w : Stmt)
    (hvisit : p.positions = before ++ w :: after) (hw : w.completesByTest = true)
    (fuel : Nat) (m m' : Machine ω) (h : execStmt setting fuel w m = .ok () m') :
    ∀ b ∈ (escaping matchBindings (before.foldl (visit matchBindings) p.symbols) w).1,
      ∃ leaf ∈ (p.preserveBindings matchBindings).symbols.leaves b, m.Matched m' leaf := by
  have hfinal : (escaping matchBindings (before.foldl (visit matchBindings) p.symbols) w).2.Grows
      (p.preserveBindings matchBindings).symbols := by
    rw [preserveBindings_eq, hvisit, List.foldl_append, List.foldl_cons]
    exact (Grows.foldl_preserve _ _).trans (visits_grow after _)
  have hbefore := visits_grow before p.symbols
  generalize before.foldl (visit matchBindings) p.symbols = s at hfinal hbefore ⊢
  intro b hb
  unfold escaping at hfinal hb
  split at hb
  next => exact absurd hb (by simp)
  next cond outcome hesc =>
    rw [hesc] at hfinal
    have hin : w ∈ p.positions := by
      rw [hvisit]
      exact List.mem_append_right _ List.mem_cons_self
    have hs : ∀ x ∈ cond.tested, s.isLeaf x = true := fun x hx =>
      hbefore.isLeaf (hleaf x
        (Program.tested_of_mem_positions hin (mem_ownExprs_of_escape? hesc) x hx))
    have hall := (cameOut_of_completesByTest Machine.framed_later quiet hw hesc h).allMatched hs
    obtain ⟨leaf, hl, hm⟩ := hall b hb
    exact ⟨leaf, hfinal.leaves hl, hm⟩

namespace Guard

/-- One binding `s` of type `String`. -/
def symbols : Symbols := ⟨#[], #[⟨⟨0⟩, "s", .string, none, false, []⟩]⟩

/-- `!(o instanceof String s)`. -/
def cond : Expr :=
  .unary ⟨0, .boolean, .nowhere⟩ .not
    (.typeTest ⟨0, .boolean, .nowhere⟩ (.ident ⟨0, .object, .nowhere⟩ (.var ⟨0⟩))
      ⟨⟨0⟩, some .string⟩)

/-- Where the nodes stand does not matter. -/
def info : StmtInfo := ⟨0, .nowhere⟩

/-- A method with the parameter `o` whose body has the one statement. -/
def program (w : Stmt) : Program :=
  ⟨[⟨0, "C", none, [], [⟨0, "m", [⟨0⟩], .void, some (.block info [w]), .nowhere⟩], .nowhere⟩],
    symbols⟩

/-- The program around the loop, with no native methods. -/
def setting (w : Stmt) : Setting Unit := (program w).setting fun _ => none

/-- There are no native methods, so none raises anything. -/
theorem quiet (w : Stmt) : (setting w).Quiet := by
  intro name f h
  injection h

/-- A machine in whose activation `o` has a value. -/
def machine (v : Value) : Machine Unit :=
  ⟨⟨[(.var ⟨0⟩, ⟨v, 1, .declared⟩)], [], 1⟩, 0, 1, "", (), []⟩

/-- `l: while (!(o instanceof String s)) { }` -/
def search : Stmt := .labeled info "l" (.whileDo info cond (.block info []))

/-- `l: if (!(o instanceof String s)) break l;` -/
def labeledIf : Stmt := .labeled info "l" (.ifElse info cond (.brk info (some "l")) none)

/-- `a: b: while (!(o instanceof String s)) { break a; }` -/
def outerLabel : Stmt :=
  .labeled info "a" (.labeled info "b"
    (.whileDo info cond (.block info [.brk info (some "a")])))

/-- `l: while (!(o instanceof String s)) { l: { break; } }` -/
def reusedLabel : Stmt :=
  .labeled info "l" (.whileDo info cond
    (.block info [.labeled info "l" (.block info [.brk info none])]))

/-- `if (!(o instanceof String s)) do { continue; } while (false);` -/
def continuedDo : Stmt :=
  .ifElse info cond
    (.doWhile info (.block info [.cont info none])
      (.literal ⟨0, .boolean, .nowhere⟩ (.bool false))) none

end Guard

/-- The loop ends once `o` is a string, and `s` has it. -/
theorem escaping_matched_search : ∃ m' : Machine Unit,
    (Guard.setting Guard.search).Quiet
      ∧ (∀ b ∈ (Guard.program Guard.search).tested, Guard.symbols.isLeaf b = true)
      ∧ (Guard.program Guard.search).positions
          = [.block Guard.info [Guard.search]] ++ Guard.search :: [.block Guard.info []]
      ∧ Guard.search.completesByTest = true
      ∧ execStmt (Guard.setting Guard.search) 9 Guard.search (Guard.machine (.str "x")) = .ok () m'
      ∧ ∃ leaf ∈ ((Guard.program Guard.search).preserveBindings matchBindings).symbols.leaves ⟨0⟩,
          (Guard.machine (.str "x")).Matched m' leaf :=
  ⟨_, Guard.quiet _, by decide, rfl, by decide, rfl,
    escaping_matched (Guard.program Guard.search) (Guard.setting Guard.search)
      (Guard.quiet _) (by decide) [.block Guard.info [Guard.search]]
      [.block Guard.info []] Guard.search rfl (by decide) 9 (Guard.machine (.str "x")) _ rfl ⟨0⟩
      (by decide)⟩

/-- `s`, which the visit of `w` marks, has not matched when `w` completes with `o` null. -/
def Guard.Overlooked (w : Stmt) : Prop :=
  (Guard.setting w).Quiet
    ∧ (∀ b ∈ (Guard.program w).tested, Guard.symbols.isLeaf b = true)
    ∧ (∃ before after, (Guard.program w).positions = before ++ w :: after
        ∧ (⟨0⟩ : BindingId)
            ∈ (escaping matchBindings (before.foldl (visit matchBindings) Guard.symbols) w).1)
    ∧ ∃ m', execStmt (Guard.setting w) 9 w (Guard.machine .null) = .ok () m'
        ∧ ∀ leaf ∈ ((Guard.program w).preserveBindings matchBindings).symbols.leaves ⟨0⟩,
            ¬ (Guard.machine .null).Matched m' leaf

/-- **The jumps that the analysis overlooks**: with `o` null, each of these
statements completes, and `s`, which its visit marks, has not matched. -/
theorem overlooked_jumps :
    Guard.Overlooked Guard.labeledIf ∧ Guard.Overlooked Guard.outerLabel
      ∧ Guard.Overlooked Guard.reusedLabel ∧ Guard.Overlooked Guard.continuedDo := by
  have unmatched : ∀ {m' : Machine Unit} {ids : List BindingId}, ids = [⟨0⟩] →
      m'.env.get? (.binding ⟨0⟩) = none →
        ∀ leaf ∈ ids, ¬ (Guard.machine .null).Matched m' leaf := by
    rintro m' ids rfl hcell leaf hleaf ⟨-, c, hc, -⟩
    rw [List.mem_singleton.mp hleaf, hcell] at hc
    exact absurd hc (by simp)
  refine ⟨?_, ?_, ?_, ?_⟩
  · exact ⟨Guard.quiet _, by decide, ⟨[.block Guard.info [Guard.labeledIf]], [_], rfl, by decide⟩,
      _, rfl, unmatched (by decide) rfl⟩
  · exact ⟨Guard.quiet _, by decide, ⟨[.block Guard.info [Guard.outerLabel]], [_, _], rfl, by decide⟩,
      _, rfl, unmatched (by decide) rfl⟩
  · exact ⟨Guard.quiet _, by decide,
      ⟨[.block Guard.info [Guard.reusedLabel]], [_, _, _], rfl, by decide⟩, _, rfl,
      unmatched (by decide) rfl⟩
  · exact ⟨Guard.quiet _, by decide,
      ⟨[.block Guard.info [Guard.continuedDo]], [_, _, _], rfl, by decide⟩, _, rfl,
      unmatched (by decide) rfl⟩

end Flow

end PatternIR
