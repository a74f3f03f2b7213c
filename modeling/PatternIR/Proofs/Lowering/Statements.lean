/-
  PatternIR.Proofs.Lowering.Statements
  ────────────────────────────────────
  **STATEMENTS THAT DO THE SAME, form by form.**

  `Performs` relates a statement with patterns to one with storage.  Some
  statements complete only if their condition has come out in one way; what
  that outcome tells is then known behind the statement.

  A loop is followed turn by turn.  Each turn begins with what is known in
  front of the loop, and what its condition tells is forgotten when it ends.

    • `Performs.ifElse`, `Performs.execWhile` and others — the forms;
    • `Agreeing.behind_decls` — declarations of storage in front change nothing;
    • `Agreeing.seq` — a statement, and what comes behind it.
-/
import PatternIR.Proofs.Lowering.TypeTests

namespace PatternIR

variable {ω : Type}

namespace Lowering

open PatternIR.Flow (groups Stands)
open Run (Ends)

/-- A statement with patterns does the same as one with storage; behind it the
outcome that is `certain` is known. -/
def Performs (setting setting' : Setting ω) (P : Place) (certain : Option (Expr × Bool)) (w w' : Stmt) :
    Prop :=
  Agreeing setting setting' P w.tests (.outcome setting.program.symbols P.storage certain)
    (fun n => execStmt setting n w) fun k => execStmt setting' k w'

variable {setting setting' : Setting ω} {P P' Q : Place} {ts ts' ts₁ ts₂ : List BindingId}
  {i i' : StmtInfo} {e e' c c' : Expr} {w w' b b' : Stmt} {label : Option String}
  {certain : Option (Expr × Bool)}

/-! ## §1. How a statement is settled. -/

namespace AgreeingAt

variable {n : Nat} {d : Run ω Unit} {g : Nat → Run ω Unit}

/-- A loop turns in the same way. -/
theorem turn (label : Option String) (h : AgreeingAt n setting setting' P ts .nothing d g) :
    AgreeingAt n setting setting' P ts .nothing (settle (Turn.after label) d)
      fun k => settle (Turn.after label) (g k) := by
  intro calls callers callers' K m m' hpoint
  refine (h calls hpoint).settle rfl ?_
  intro r m₁ m₁' hpost
  cases r with
  | ok _ => exact ⟨.ok .next, rfl, hpost⟩
  | error j =>
      cases j with
      | broke target =>
          simp only [Stop.ofExcept, Turn.after]
          by_cases ht : target = none ∨ target = label
          · rw [if_pos ht]
            exact ⟨.ok .exit, rfl, Agreeing.same_nothing hpost _ _⟩
          · rw [if_neg ht]
            exact ⟨.error (.broke target), rfl, hpost⟩
      | continued target =>
          simp only [Stop.ofExcept, Turn.after]
          by_cases ht : target = none ∨ target = label
          · rw [if_pos ht]
            exact ⟨.ok .next, rfl, Agreeing.same_nothing hpost _ _⟩
          · rw [if_neg ht]
            exact ⟨.error (.continued target), rfl, hpost⟩
      | returned v => exact ⟨.error (.returned v), rfl, hpost⟩
      | fault f => exact ⟨.error (.fault f), rfl, hpost⟩

/-- A label takes the same jumps. -/
theorem caught (label : String) (h : AgreeingAt n setting setting' P ts .nothing d g) :
    AgreeingAt n setting setting' P ts .nothing (settle (catchLabel label) d)
      fun k => settle (catchLabel label) (g k) := by
  intro calls callers callers' K m m' hpoint
  refine (h calls hpoint).settle rfl ?_
  intro r m₁ m₁' hpost
  cases r with
  | ok _ => exact ⟨.ok (), rfl, hpost⟩
  | error j =>
      cases j with
      | broke target =>
          cases target with
          | none => exact ⟨.error (.broke none), rfl, hpost⟩
          | some target =>
              simp only [Stop.ofExcept, catchLabel]
              by_cases ht : target = label
              · rw [if_pos ht]
                exact ⟨.ok (), rfl, Agreeing.same_nothing hpost _ _⟩
              · rw [if_neg ht]
                exact ⟨.error (.broke (some target)), rfl, hpost⟩
      | continued target => exact ⟨.error (.continued target), rfl, hpost⟩
      | returned v => exact ⟨.error (.returned v), rfl, hpost⟩
      | fault f => exact ⟨.error (.fault f), rfl, hpost⟩

end AgreeingAt

/-! ## §2. Simple statements. -/

/-- What is certain was told at some later time, so it is told since any earlier one. -/
theorem Agree.outcome_earlier {α : Type} {s : Symbols} {ρ : Storage} {callers callers' : List Activation}
    {K : Facts} {m m' : Machine ω} {a : α} {since now : Nat} (h : since ≤ now)
    (hagree : Agree s callers callers' (K.or (Gain.outcome s ρ certain a now)) m m') :
    Agree s callers callers' (K.or (Gain.outcome s ρ certain a since)) m m' := by
  refine hagree.of_facts ?_
  rintro f (hf | ⟨c, o, hc, o', g, x, ho, hg, hx, rfl⟩)
  · exact hagree.facts (.inl hf)
  · exact (hagree.facts (.inr ⟨c, o, hc, o', g, x, ho, hg, hx, rfl⟩)).earlier h

/-- What is left to do when some of it is done: what it tells is told since the
time at which all of it began. -/
theorem AgreeingAt.late {n : Nat} {d : Run ω Unit} {g : Nat → Run ω Unit} {callers callers' : List Activation}
    {K : Facts} {m m' m₁ m₁' : Machine ω} (calls : Calls setting setting' n)
    (h : AgreeingAt n setting setting' P ts₁ (.outcome setting.program.symbols P.storage certain) d g)
    (hpoint : Point setting.program.symbols P callers callers' K ts m m') (hts : ∀ leaf ∈ ts₁, leaf ∈ ts)
    (hafter : Agree setting.program.symbols callers callers' (K.insert (.after m.env.clock)) m₁ m₁') :
    Simulates n d g m₁ m₁' (Same setting.program.symbols callers callers' K fun a =>
      K.or (Gain.outcome setting.program.symbols P.storage certain a m.env.clock)) := by
  have hlate : m.env.clock ≤ m₁.env.clock := hafter.facts (f := .after m.env.clock) (.inr rfl)
  refine (h calls (hpoint.next (hafter.weaken .inl) hts)).mono ?_
  intro r m₂ m₂' hpost
  cases r with
  | ok _ => exact Agree.outcome_earlier hlate hpost
  | error j => exact Same.weaken (fun hf => hf) hpost

/-- A statement that guards nothing gains nothing. -/
theorem Performs.of_nothing (h : Agreeing setting setting' P w.tests .nothing
    (fun n => execStmt setting n w) fun k => execStmt setting' k w') :
    Performs setting setting' P none w w' :=
  h.mono fun ⟨_, _, hc, _⟩ => absurd hc (by simp)

namespace Performs

/-- An expression as a statement. -/
theorem expr (h : Means setting setting' P e e') :
    Performs setting setting' P none (.expr i e) (.expr i' e') := by
  refine of_nothing ?_
  rw [Stmt.tests_expr]
  exact (Agreeing.bind h (fun _ => .pure ()) (fun _ => id) fun _ => id).step rfl (fun _ => rfl) rfl
    fun _ => rfl

/-- A declaration without a value. -/
theorem declNone {v : VarId} : Performs setting setting' P none (.decl i v none) (.decl i' v none) :=
  of_nothing ((Agreeing.pure ()).step rfl (fun _ => rfl) rfl fun _ => rfl)

/-- A declaration with one. -/
theorem declSome (twin : Twin setting setting') {v : VarId}
    (hv : v.index < setting.program.symbols.vars.size) (h : Means setting setting' P e e') :
    Performs setting setting' P none (.decl i v (some e)) (.decl i' v (some e')) := by
  refine of_nothing ?_
  rw [Stmt.tests_decl, Option.toList_some, Expr.gatherAll_singleton]
  exact (Agreeing.bind h (fun a => .declare twin hv a) (fun _ => id) fun _ => id).step rfl
    (fun _ => rfl) rfl fun _ => rfl

/-- A `return` without a value. -/
theorem retNone : Performs setting setting' P none (.ret i none) (.ret i' none) :=
  of_nothing ((Agreeing.interrupt _).step rfl (fun _ => rfl) rfl fun _ => rfl)

/-- A `return` with one. -/
theorem retSome (h : Means setting setting' P e e') :
    Performs setting setting' P none (.ret i (some e)) (.ret i' (some e')) := by
  refine of_nothing ?_
  rw [Stmt.tests_ret, Option.toList_some, Expr.gatherAll_singleton]
  have hreturn : ∀ v, Agreeing setting setting' P e.tests .nothing
      (fun _ => (Run.interrupt (.returned v) : Run ω Unit)) fun _ => Run.interrupt (.returned v) :=
    fun v => .interrupt _
  exact (Agreeing.bind h hreturn (fun _ => id) fun _ => id).step rfl (fun _ => rfl) rfl fun _ => rfl

/-- A `break` to the same label. -/
theorem brk : Performs setting setting' P none (.brk i label) (.brk i' label) :=
  of_nothing ((Agreeing.interrupt _).step rfl (fun _ => rfl) rfl fun _ => rfl)

/-- A `continue` to the same label. -/
theorem cont : Performs setting setting' P none (.cont i label) (.cont i' label) :=
  of_nothing ((Agreeing.interrupt _).step rfl (fun _ => rfl) rfl fun _ => rfl)

/-- A block, from its statements. -/
theorem block {ss ss' : List Stmt}
    (h : Agreeing setting setting' P (Stmt.gatherAll (fun _ => []) Expr.ownTests ss) .nothing
      (fun n => execAll setting n ss) fun k => execAll setting' k ss') :
    Performs setting setting' P none (.block i ss) (.block i' ss') := by
  refine of_nothing ?_
  rw [Stmt.tests_block]
  exact h.step rfl (fun _ => rfl) rfl fun _ => rfl

/-- Under a label, a statement that is not a loop. -/
theorem labeled {j j' : StmtInfo} {l : String} (hw : w.isLoop = false) (hw' : w'.isLoop = false)
    (h : Performs setting setting' P certain w w') :
    Performs setting setting' P none (.labeled j l w) (.labeled j' l w') := by
  have heval : ∀ {s : Setting ω} {w : Stmt} (j : StmtInfo) (n : Nat), w.isLoop = false →
      execStmt s (n + 1) (.labeled j l w) = settle (catchLabel l) (execStmt s n w) := by
    intro s w j n hw
    cases w with
    | whileDo _ _ _ | doWhile _ _ _ | forDo _ _ _ _ _ => exact absurd hw (by simp [Stmt.isLoop])
    | _ => rfl
  have hcaught : Agreeing setting setting' P w.tests .nothing
      (fun n => settle (catchLabel l) (execStmt setting n w))
      fun k => settle (catchLabel l) (execStmt setting' k w') :=
    fun n => (h.forget n).caught l
  refine of_nothing ?_
  rw [Stmt.tests_labeled]
  exact hcaught.step rfl (fun n => heval j n hw) rfl fun k => heval j' k hw'

/-! ## §3. Branches and loops. -/

/-- An `if`, each branch with what the condition tells. -/
theorem ifElse {y y' : Stmt} {no no' : Option Stmt} {Q : Bool → Place} {only : Option Bool}
    (hc : Means setting setting' P c c')
    (ht : ∀ o, Tells setting.program.symbols P c o
      (y.tests ++ Stmt.gatherOpt (fun _ => []) Expr.ownTests no))
    (hstorage : ∀ o, (Q o).storage = P.storage) (hbound : ∀ o, P.bound ≤ (Q o).bound)
    (hscope : ∀ o b, (Q o).scope b → P.scope b ∨ Told setting.program.symbols c o b)
    (hy : Performs setting setting' (Q true) none y y')
    (hno : Option.Rel (Performs setting setting' (Q false) none) no no')
    (hyes : only = some false → ∀ n m m', execStmt setting n y m ≠ .ok () m')
    (helse : only = some true → ∃ s, no = some s ∧ ∀ n m m', execStmt setting n s m ≠ .ok () m') :
    Performs setting setting' P (only.map (c, ·)) (.ifElse i c y no) (.ifElse i' c' y' no') := by
  have hrest : ∀ o, Agreeing setting setting' (Q o)
      (y.tests ++ Stmt.gatherOpt (fun _ => []) Expr.ownTests no) .nothing (execBranch setting y no o)
      (execBranch setting' y' no' o) := by
    intro o
    cases o with
    | true => exact hy.forget.subset fun leaf => List.mem_append_left _
    | false =>
        cases hno with
        | none => exact (Agreeing.pure ()).subset fun leaf => List.mem_append_right _
        | some h => exact h.forget.subset fun leaf => List.mem_append_right _
  -- a branch that never completes leaves the other outcome as the one behind the statement
  have honly : ∀ o, only = some o → ∀ n m a m', execBranch setting y no (!o) n m ≠ .ok a m' := by
    intro o ho n m a m'
    cases o with
    | false => exact hyes ho n m m'
    | true =>
        obtain ⟨s, rfl, hs⟩ := helse ho
        exact hs n m m'
  have hbranch := Agreeing.branch hc.test ht hstorage hbound hscope hrest honly
  unfold Performs
  rw [Stmt.tests_ifElse]
  exact hbranch.step rfl (fun n => (bind_assoc _ _ _).symm) rfl fun k => (bind_assoc _ _ _).symm

end Performs

/-- If an outcome is certain behind a loop, it is that the condition is false,
and the body does not end the loop. -/
def EndsByTest (setting : Setting ω) (label : Option String) (c : Option Expr) (b : Stmt)
    (certain : Option (Expr × Bool)) : Prop :=
  ∀ x, certain = some x → c.map (·, false) = some x
    ∧ ∀ n m m', settle (Turn.after label) (execStmt setting n b) m ≠ .ok .exit m'

namespace Agree

variable {s : Symbols} {ρ : Storage} {callers callers' : List Activation} {K : Facts} {m m' : Machine ω}
  {n since : Nat} {m₀ : Machine ω}

/-- Behind a loop whose condition has come out false. -/
theorem ended_by_test (hends : EndsByTest setting label (some c) b certain)
    (h : Agree s callers callers' (K.or (told s ρ c false since)) m m') :
    Agree s callers callers' (K.or (Gain.outcome s ρ certain () since)) m m' := by
  refine h.weaken ?_
  rintro f (hf | ⟨c₀, o, hcertain, hf⟩)
  · exact .inl hf
  · obtain ⟨hx, -⟩ := hends _ hcertain
    injection hx with hx
    injection hx with hc ho
    subst hc ho
    exact .inr hf

/-- Behind a loop that its body has ended. -/
theorem ended_by_body {test : Option Expr} (hends : EndsByTest setting label test b certain)
    (hexit : settle (Turn.after label) (execStmt setting n b) m₀ = .ok .exit m)
    (h : Agree s callers callers' K m m') :
    Agree s callers callers' (K.or (Gain.outcome s ρ certain () since)) m m' := by
  refine h.weaken ?_
  rintro f (hf | ⟨c₀, o, hcertain, -⟩)
  · exact hf
  · exact absurd hexit ((hends _ hcertain).2 n m₀ m)

end Agree

/-- A `while` loop from the outcome of its condition on. -/
def whileFrom (setting : Setting ω) (label : Option String) (c : Expr) (b : Stmt) (o : Bool) (n : Nat) :
    Run ω Unit :=
  if o then settle (Turn.after label) (execStmt setting n b) >>=
    afterTurn (PatternIR.execWhile setting n label c b)
  else Pure.pure ()

/-- It evaluates its condition, and goes on from the outcome. -/
theorem execWhile_eq (setting : Setting ω) (label : Option String) (c : Expr) (b : Stmt) (n : Nat) :
    PatternIR.execWhile setting (n + 1) label c b
      = (evalExpr setting n c >>= Run.truth) >>= fun o => whileFrom setting label c b o n := by
  rw [bind_assoc]
  refine bind_congr fun v => bind_congr fun o => ?_
  cases o with
  | false => rfl
  | true => exact bind_congr fun turn => by cases turn <;> rfl

/-- A `do` loop from the end of its body on. -/
def doFrom (setting : Setting ω) (label : Option String) (b : Stmt) (c : Expr) (turn : Turn) (n : Nat) :
    Run ω Unit :=
  afterTurn ((evalExpr setting n c >>= Run.truth) >>= fun o =>
    if o then PatternIR.execDo setting n label b c else Pure.pure ()) turn

/-- It executes its body, and goes on from how that ended. -/
theorem execDo_eq (setting : Setting ω) (label : Option String) (b : Stmt) (c : Expr) (n : Nat) :
    PatternIR.execDo setting (n + 1) label b c
      = settle (Turn.after label) (execStmt setting n b) >>= fun turn => doFrom setting label b c turn n := by
  refine bind_congr fun turn => ?_
  cases turn with
  | exit => rfl
  | next => exact (bind_assoc _ _ _).symm

namespace Agreeing

/-- **A `while` loop**, turn by turn: each begins with what was known in front. -/
theorem execWhile (hc : Means setting setting' P c c')
    (ht : Tells setting.program.symbols P c true b.tests) (hstorage : Q.storage = P.storage)
    (hbound : P.bound ≤ Q.bound)
    (hscope : ∀ b, Q.scope b → P.scope b ∨ Told setting.program.symbols c true b)
    (hb : Performs setting setting' Q none b b') (hends : EndsByTest setting label (some c) b certain) :
    Agreeing setting setting' P (c.tests ++ b.tests)
      (.outcome setting.program.symbols P.storage certain)
      (fun n => PatternIR.execWhile setting n label c b)
      fun k => PatternIR.execWhile setting' k label c' b' := by
  intro n
  induction n with
  | zero =>
      intro _ callers callers' K m m' _
      exact .zero rfl
  | succ n ih =>
      intro calls callers callers' K m m' hpoint
      have below := calls.of_le (Nat.le_succ n)
      have hnow := hpoint.insertAfter
      simp only [execWhile_eq]
      refine .step rfl (execWhile_eq setting' label c' b') ?_
      refine .bind (hc.test n below (hnow.subset fun leaf => List.mem_append_left _)) ?_
        fun j _ _ => Same.weaken .inl
      intro o m₁ m₁' hagree
      cases o with
      | false =>
          refine .pure (Agree.ended_by_test hends ?_)
          exact Agree.weaken hagree fun hf => hf.imp .inl id
      | true =>
          have hnext := Point.told ht hnow hagree hstorage hbound hscope
          refine .bind ((hb.forget n).turn label below hnext).tracked ?_
            fun j _ _ h => Same.weaken (fun hf => .inl (.inl hf)) h.2
          rintro turn m₂ m₂' ⟨hrun, hpost⟩
          have hafter : Agree setting.program.symbols callers callers' (K.insert (.after m.env.clock))
              m₂ m₂' := Agree.weaken hpost fun hf => .inl (.inl hf)
          cases turn with
          | exit => exact .pure (Agree.ended_by_body hends hrun (hafter.weaken .inl))
          | next => exact ih.late below hpoint (fun _ => id) hafter

/-- **A `do` loop.** -/
theorem execDo (hc : Means setting setting' P c c') (hb : Performs setting setting' P none b b')
    (hends : EndsByTest setting label (some c) b certain) :
    Agreeing setting setting' P (c.tests ++ b.tests)
      (.outcome setting.program.symbols P.storage certain)
      (fun n => PatternIR.execDo setting n label b c)
      fun k => PatternIR.execDo setting' k label b' c' := by
  intro n
  induction n with
  | zero =>
      intro _ callers callers' K m m' _
      exact .zero rfl
  | succ n ih =>
      intro calls callers callers' K m m' hpoint
      have below := calls.of_le (Nat.le_succ n)
      have hnow := hpoint.insertAfter
      simp only [execDo_eq]
      refine .step rfl (execDo_eq setting' label b' c') ?_
      have hturn := (hb.forget n).turn label below (hnow.subset fun leaf => List.mem_append_right _)
      refine .bind hturn.tracked ?_ fun j _ _ h => Same.weaken .inl h.2
      rintro turn m₁ m₁' ⟨hrun, hpost⟩
      have hafter : Agree setting.program.symbols callers callers' (K.insert (.after m.env.clock))
          m₁ m₁' := Agree.weaken hpost .inl
      cases turn with
      | exit => exact .pure (Agree.ended_by_body hends hrun (hafter.weaken .inl))
      | next =>
          have hlate : m.env.clock ≤ m₁.env.clock := hafter.facts (f := .after m.env.clock) (.inr rfl)
          have hnext := hnow.next hafter fun _ => id
          refine .bind (hc.test n below (hnext.subset fun leaf => List.mem_append_left _)) ?_
            fun j _ _ => Same.weaken .inl
          intro o m₂ m₂' hagree
          have hafter₂ : Agree setting.program.symbols callers callers' (K.insert (.after m.env.clock))
              m₂ m₂' := Agree.weaken hagree .inl
          cases o with
          | false =>
              refine .pure (Agree.outcome_earlier hlate (Agree.ended_by_test hends ?_))
              exact Agree.weaken hagree fun hf => hf.imp .inl id
          | true => exact ih.late below hpoint (fun _ => id) hafter₂

/-- Whether a `for` loop goes on. -/
def goesOn (setting : Setting ω) (n : Nat) : Option Expr → Run ω Bool
  | some c => evalExpr setting n c >>= Run.truth
  | none => Pure.pure true

/-- A `for` loop from the outcome of its condition on. -/
def forFrom (setting : Setting ω) (label : Option String) (c : Option Expr) (es : List Expr) (b : Stmt)
    (o : Bool) (n : Nat) : Run ω Unit :=
  if o then settle (Turn.after label) (execStmt setting n b) >>=
    afterTurn (evalAll setting n es >>= fun _ => PatternIR.execFor setting n label c es b)
  else Pure.pure ()

/-- It evaluates its condition, a missing one being one that holds, and goes on
from the outcome. -/
theorem execFor_eq (setting : Setting ω) (label : Option String) (c : Option Expr) (es : List Expr)
    (b : Stmt) (n : Nat) :
    PatternIR.execFor setting (n + 1) label c es b
      = goesOn setting n c >>= fun o => forFrom setting label c es b o n := by
  cases c with
  | none => rfl
  | some c => exact (bind_assoc _ _ _).symm

/-- The condition of a `for` loop, and what it tells. -/
theorem goesOn_agrees {c c' : Option Expr} (hc : Option.Rel (Means setting setting' P) c c') :
    Agreeing setting setting' P (Expr.gatherAll Expr.ownTests c.toList)
      (fun o since f => ∃ e, c = some e ∧ told setting.program.symbols P.storage e o since f)
      (fun n => goesOn setting n c) fun k => goesOn setting' k c' := by
  cases hc with
  | none =>
      intro n calls callers callers' K m m' hpoint
      refine .pure (hpoint.agree.weaken ?_)
      rintro f (hf | ⟨e, he, -⟩)
      · exact hf
      · exact absurd he (by simp)
  | @some c c' h =>
      intro n calls callers callers' K m m' hpoint
      refine (h.test n calls (hpoint.subset ?_)).mono ?_
      · intro leaf hleaf
        simpa using hleaf
      · intro r m₁ m₁' hpost
        cases r with
        | ok o =>
            refine Agree.weaken hpost ?_
            rintro f (hf | ⟨e, he, hf⟩)
            · exact .inl hf
            · injection he with he
              subst he
              exact .inr hf
        | error j => exact Same.weaken (fun hf => hf) hpost

end Agreeing

/-- Where a `for` loop goes on, its condition has come out true, if it has one:
the place of the body and of the step. -/
theorem Point.goesOn {s : Symbols} {callers callers' : List Activation} {K : Facts}
    {m m' m₁ m₁' : Machine ω} {since : Nat} {c : Option Expr}
    (h : Point s P callers callers' K (Expr.gatherAll Expr.ownTests c.toList ++ ts) m m')
    (hagree : Agree s callers callers'
      (K.or fun f => ∃ e, c = some e ∧ gained s P.storage e (.bool true) since f) m₁ m₁')
    (ht : ∀ e, c = some e → Tells s P e true ts) (hstorage : Q.storage = P.storage)
    (hbound : P.bound ≤ Q.bound)
    (hscope : ∀ b, Q.scope b → P.scope b ∨ ∃ e, c = some e ∧ Told s e true b) :
    ∃ K₁ : Facts, Point s Q callers callers' K₁ ts m₁ m₁' ∧ ∀ {f : Fact}, K f → K₁ f := by
  cases c with
  | none =>
      have hpoint := h.next (hagree.weaken .inl) fun leaf => List.mem_append_right _
      refine ⟨_, hpoint.extends_ (hstorage ▸ .refl _ _) hbound ?_, id⟩
      intro x hx
      rcases hscope x hx with hx | ⟨e, he, -⟩
      · exact hx
      · exact absurd he (by simp)
  | some e =>
      have htold : Agree s callers callers' (K.or (gained s P.storage e (.bool true) since)) m₁ m₁' :=
        hagree.weaken fun hf => hf.imp id fun hf => ⟨e, rfl, hf⟩
      have hnow : Point s P callers callers' K (e.tests ++ ts) m m' := h.subset (by simp)
      refine ⟨_, Point.told (ht e rfl) hnow htold hstorage hbound ?_, .inl⟩
      intro x hx
      rcases hscope x hx with hx | ⟨e', he, hx⟩
      · exact .inl hx
      · injection he with he
        exact .inr (he ▸ hx)

namespace Agreeing

/-- **A `for` loop** behind its start. -/
theorem execFor {c c' : Option Expr} {es es' : List Expr}
    (hc : Option.Rel (Means setting setting' P) c c')
    (ht : ∀ e, c = some e → Tells setting.program.symbols P e true
      (Expr.gatherAll Expr.ownTests es ++ b.tests))
    (hstorage : Q.storage = P.storage) (hbound : P.bound ≤ Q.bound)
    (hscope : ∀ b, Q.scope b → P.scope b ∨ ∃ e, c = some e ∧ Told setting.program.symbols e true b)
    (hes : List.Forall₂ (Means setting setting' Q) es es') (hb : Performs setting setting' Q none b b')
    (hends : EndsByTest setting label c b certain) :
    Agreeing setting setting' P
      (Expr.gatherAll Expr.ownTests c.toList ++ (Expr.gatherAll Expr.ownTests es ++ b.tests))
      (.outcome setting.program.symbols P.storage certain)
      (fun n => PatternIR.execFor setting n label c es b)
      fun k => PatternIR.execFor setting' k label c' es' b' := by
  intro n
  induction n with
  | zero =>
      intro _ callers callers' K m m' _
      exact .zero rfl
  | succ n ih =>
      intro calls callers callers' K m m' hpoint
      have below := calls.of_le (Nat.le_succ n)
      have hnow := hpoint.insertAfter
      simp only [execFor_eq]
      refine .step rfl (execFor_eq setting' label c' es' b') ?_
      refine .bind (goesOn_agrees hc n below (hnow.subset fun leaf => List.mem_append_left _)) ?_
        fun j _ _ => Same.weaken .inl
      intro o m₁ m₁' hagree
      cases o with
      | false =>
          refine .pure (Agree.weaken hagree ?_)
          rintro f (hf | ⟨e, o, hcertain, hf⟩)
          · exact .inl (.inl hf)
          · obtain ⟨e', he, hx⟩ := Option.map_eq_some_iff.mp (hends _ hcertain).1
            injection hx with he' ho
            subst he' ho
            exact .inr ⟨e', he, hf⟩
      | true =>
          -- the body and the steps behind it run where the condition has told
          obtain ⟨K₁, hnext, hsub⟩ := hnow.goesOn hagree ht hstorage hbound hscope
          refine .bind ((hb.forget n).turn label below
            (hnext.subset fun leaf => List.mem_append_right _)).tracked ?_
            fun j _ _ h => Same.weaken (fun hf => hsub (.inl hf)) h.2
          rintro turn m₂ m₂' ⟨hrun, hpost⟩
          have hbody : Agree setting.program.symbols callers callers' K₁ m₂ m₂' :=
            Agree.weaken hpost .inl
          cases turn with
          | exit => exact .pure (Agree.ended_by_body hends hrun (hbody.weaken fun hf => hsub (.inl hf)))
          | next =>
              have hstep := all hes n below (hnext.next hbody fun leaf => List.mem_append_left _)
              refine .bind hstep ?_ fun j _ _ => Same.weaken fun hf => hsub (.inl hf)
              intro _ m₃ m₃' hagree₃
              have hafter : Agree setting.program.symbols callers callers'
                  (K.insert (.after m.env.clock)) m₃ m₃' := Agree.weaken hagree₃ fun hf => .inl (hsub hf)
              exact ih.late below hpoint (fun _ => id) hafter

end Agreeing

/-! ## §4. Loops as statements. -/

/-- Where nothing is certain, it does not matter how the loop ends. -/
theorem EndsByTest.none {c : Option Expr} : EndsByTest setting label c b none :=
  fun _ h => absurd h (by simp)

/-- A step that tells nothing, and one that ends with what is certain. -/
theorem Agreeing.then {α : Type} {d g : Nat → Run ω α} {f f' : Nat → Run ω Unit}
    (hd : Agreeing setting setting' P ts₁ .nothing d g)
    (hf : Agreeing setting setting' P ts₂ (.outcome setting.program.symbols P.storage certain) f f')
    (h₁ : ∀ leaf ∈ ts₁, leaf ∈ ts) (h₂ : ∀ leaf ∈ ts₂, leaf ∈ ts) :
    Agreeing setting setting' P ts (.outcome setting.program.symbols P.storage certain)
      (fun n => d n >>= fun _ => f n) fun k => g k >>= fun _ => f' k := by
  intro n calls callers callers' K m m' hpoint
  have hnow := hpoint.insertAfter
  refine .bind (hd n calls (hnow.subset h₁)) ?_ fun j _ _ => Same.weaken .inl
  intro _ m₁ m₁' hagree
  have hafter : Agree setting.program.symbols callers callers' (K.insert (.after m.env.clock)) m₁ m₁' :=
    Agree.weaken hagree .inl
  exact (hf n).late calls hpoint h₂ hafter

/-- A statement does the same alone, where `certain` is known behind it, and
under a label. -/
structure Carries (setting setting' : Setting ω) (P : Place) (certain : Option (Expr × Bool))
    (w w' : Stmt) : Prop where
  alone : Performs setting setting' P certain w w'
  labeled : ∀ {j j' : StmtInfo} {l : String},
    Performs setting setting' P none (.labeled j l w) (.labeled j' l w')

namespace Carries

/-- A statement that is not a loop. -/
theorem of_performs (hw : w.isLoop = false) (hw' : w'.isLoop = false)
    (h : Performs setting setting' P certain w w') : Carries setting setting' P certain w w' :=
  ⟨h, .labeled hw hw' h⟩

/-- A `while`, from its condition and its body. -/
theorem whileDo (hc : Means setting setting' P c c')
    (ht : Tells setting.program.symbols P c true b.tests) (hstorage : Q.storage = P.storage)
    (hbound : P.bound ≤ Q.bound)
    (hscope : ∀ b, Q.scope b → P.scope b ∨ Told setting.program.symbols c true b)
    (hb : Performs setting setting' Q none b b') (hends : EndsByTest setting none (some c) b certain) :
    Carries setting setting' P certain (.whileDo i c b) (.whileDo i' c' b') := by
  constructor
  · unfold Performs
    rw [Stmt.tests_whileDo]
    exact (Agreeing.execWhile hc ht hstorage hbound hscope hb hends).step rfl (fun _ => rfl) rfl
      fun _ => rfl
  · intro j j' l
    refine .of_nothing ?_
    rw [Stmt.tests_labeled, Stmt.tests_whileDo]
    exact (Agreeing.execWhile hc ht hstorage hbound hscope hb EndsByTest.none).forget.step rfl
      (fun _ => rfl) rfl fun _ => rfl

/-- A `do`, from its body and its condition. -/
theorem doWhile (hc : Means setting setting' P c c') (hb : Performs setting setting' P none b b')
    (hends : EndsByTest setting none (some c) b certain) :
    Carries setting setting' P certain (.doWhile i b c) (.doWhile i' b' c') := by
  constructor
  · unfold Performs
    rw [Stmt.tests_doWhile]
    exact (Agreeing.execDo hc hb hends).step rfl (fun _ => rfl) rfl fun _ => rfl
  · intro j j' l
    refine .of_nothing ?_
    rw [Stmt.tests_labeled, Stmt.tests_doWhile]
    exact (Agreeing.execDo hc hb EndsByTest.none).forget.step rfl (fun _ => rfl) rfl fun _ => rfl

/-- A `for`, from what begins it, its condition, its steps and its body. -/
theorem forDo {ss ss' : List Stmt} {c c' : Option Expr} {es es' : List Expr}
    (hss : Agreeing setting setting' P (Stmt.gatherAll (fun _ => []) Expr.ownTests ss) .nothing
      (fun n => execAll setting n ss) fun k => execAll setting' k ss')
    (hc : Option.Rel (Means setting setting' P) c c')
    (ht : ∀ e, c = some e → Tells setting.program.symbols P e true
      (Expr.gatherAll Expr.ownTests es ++ b.tests))
    (hstorage : Q.storage = P.storage) (hbound : P.bound ≤ Q.bound)
    (hscope : ∀ b, Q.scope b → P.scope b ∨ ∃ e, c = some e ∧ Told setting.program.symbols e true b)
    (hes : List.Forall₂ (Means setting setting' Q) es es') (hb : Performs setting setting' Q none b b')
    (hends : EndsByTest setting none c b certain) :
    Carries setting setting' P certain (.forDo i ss c es b) (.forDo i' ss' c' es' b') := by
  have hloop : ∀ {label : Option String} {certain : Option (Expr × Bool)},
      EndsByTest setting label c b certain →
        Agreeing setting setting' P (Stmt.forDo i ss c es b).tests
          (.outcome setting.program.symbols P.storage certain)
          (fun n => execAll setting n ss >>= fun _ => PatternIR.execFor setting n label c es b)
          fun k => execAll setting' k ss' >>= fun _ => PatternIR.execFor setting' k label c' es' b' := by
    intro label certain hends
    refine .then hss (Agreeing.execFor hc ht hstorage hbound hscope hes hb hends) ?_ ?_
    · intro leaf hleaf
      rw [Stmt.tests_forDo]
      simp [hleaf]
    · intro leaf hleaf
      rw [Stmt.tests_forDo]
      simp only [List.mem_append] at hleaf ⊢
      tauto
  constructor
  · exact (hloop hends).step rfl (fun _ => rfl) rfl fun _ => rfl
  · intro j j' l
    refine .of_nothing ?_
    rw [Stmt.tests_labeled]
    exact (hloop EndsByTest.none).forget.step rfl (fun _ => rfl) rfl fun _ => rfl

end Carries

/-! ## §5. Blocks. -/

/-- The declaration of a variable behind all others, with a default value. -/
def DeclaresDefault (setting : Setting ω) (bound : Nat) (d : Stmt) : Prop :=
  ∃ j x value, d = .decl j x (some value) ∧ Default setting bound x value

namespace Agreeing

variable {ss ss' decls : List Stmt}

/-- **Declarations of storage in front** change nothing. -/
theorem behind_decls {G : Gain Unit} {f : Nat → Run ω Unit}
    (hsize : setting.program.symbols.vars.size ≤ P.bound) : ∀ {decls : List Stmt},
      (∀ d ∈ decls, DeclaresDefault setting' P.bound d) →
        Agreeing setting setting' P ts G f (fun k => execAll setting' k ss') →
          Agreeing setting setting' P ts G f fun k => execAll setting' k (decls ++ ss')
  | [], _, h => h
  | d :: decls, hdecls, h => by
      have hrest := behind_decls hsize (fun d hd => hdecls d (List.mem_cons_of_mem _ hd)) h
      obtain ⟨j, x, value, rfl, hx⟩ := hdecls d List.mem_cons_self
      intro n calls callers callers' K m m' hpoint
      obtain ⟨m₁', hends, hagree⟩ := hpoint.agree.declare hsize hpoint.ready.bound hx
      have hdecl : Ends (fun k => execStmt setting' k (.decl j x (some value))) m' (.ok ()) m₁' :=
        hends.step rfl fun _ => rfl
      have hafter := Simulates.after (fun _ k => execAll setting' k (decls ++ ss')) hdecl
        (hrest n calls (hpoint.next hagree fun _ => id))
      exact hafter.behind rfl fun _ => rfl

/-- A statement in a block behind declarations of storage. -/
theorem closed {G : Gain Unit} {f : Nat → Run ω Unit}
    (hsize : setting.program.symbols.vars.size ≤ P.bound)
    (hdecls : ∀ d ∈ decls, DeclaresDefault setting' P.bound d)
    (h : Agreeing setting setting' P ts G f fun k => execStmt setting' k w') :
    Agreeing setting setting' P ts G f fun k => execStmt setting' k (.block i (decls ++ [w'])) := by
  have hnil : ∀ m', Ends (fun k => execAll setting' k []) m' (.ok ()) m' := fun m' =>
    (Ends.pure () m').step rfl fun _ => rfl
  have hlast : Agreeing setting setting' P ts G f fun k => execAll setting' k [w'] := by
    intro n calls callers callers' K m m' hpoint
    exact (Simulates.before (h n calls hpoint) hnil).behind rfl fun _ => rfl
  intro n calls callers callers' K m m' hpoint
  exact (behind_decls hsize hdecls hlast n calls hpoint).behind rfl fun _ => rfl

/-- **A statement, and what comes behind it**, where what is certain is told. -/
theorem seq (hw : Agreeing setting setting' P w.tests
      (.outcome setting.program.symbols Q.storage certain) (fun n => execStmt setting n w)
      fun k => execStmt setting' k w')
    (hss : Agreeing setting setting' Q (Stmt.gatherAll (fun _ => []) Expr.ownTests ss) .nothing
      (fun n => execAll setting n ss) fun k => execAll setting' k ss')
    (htests : ∀ c o, certain = some (c, o) → ∀ leaf ∈ c.tests, leaf ∈ w.tests)
    (ht : ∀ c o, certain = some (c, o) → Tells setting.program.symbols Q c o
      (Stmt.gatherAll (fun _ => []) Expr.ownTests ss))
    (hstorage : P.storage.Extends Q.storage P.bound) (hbound : P.bound ≤ Q.bound)
    (hscope : ∀ b, Q.scope b → P.scope b
      ∨ ∃ c o, certain = some (c, o) ∧ Told setting.program.symbols c o b) :
    Agreeing setting setting' P (Stmt.gatherAll (fun _ => []) Expr.ownTests (w :: ss)) .nothing
      (fun n => execAll setting n (w :: ss)) fun k => execAll setting' k (w' :: ss') := by
  rw [Stmt.gatherAll_cons]
  suffices hseq : Agreeing setting setting' P
      (w.tests ++ Stmt.gatherAll (fun _ => []) Expr.ownTests ss) .nothing
      (fun n => execStmt setting n w >>= fun _ => execAll setting n ss)
      (fun k => execStmt setting' k w' >>= fun _ => execAll setting' k ss') from
    .step rfl (fun _ => rfl) rfl (fun _ => rfl) hseq
  intro n calls callers callers' K m m' hpoint
  refine .bind (hw n calls (hpoint.subset fun leaf => List.mem_append_left _)) ?_
    fun j _ _ => Same.weaken fun hf => hf
  intro _ m₁ m₁' hagree
  have hmore : Point setting.program.symbols ⟨Q.storage, Q.bound, P.scope⟩ callers callers' K _ m m' :=
    hpoint.extends_ hstorage hbound fun _ => id
  -- what the first statement is sure to tell is known in front of the rest
  obtain ⟨K₁, hnext, hsub⟩ : ∃ K₁ : Facts, Point setting.program.symbols Q callers callers' K₁
      (Stmt.gatherAll (fun _ => []) Expr.ownTests ss) m₁ m₁' ∧ ∀ {f : Fact}, K f → K₁ f := by
    cases hcertain : certain with
    | none =>
        have hkept := hmore.next (Agree.weaken hagree .inl) fun leaf => List.mem_append_right _
        refine ⟨K, hkept.extends_ (.refl _ _) (Nat.le_refl _) ?_, id⟩
        intro x hx
        rcases hscope x hx with hx | ⟨c, o, hc, -⟩
        · exact hx
        · rw [hcertain] at hc
          exact absurd hc (by simp)
    | some x =>
        obtain ⟨c, o⟩ := x
        have htold := ht c o hcertain
        have hknown : Agree setting.program.symbols callers callers'
            (K.or (gained setting.program.symbols Q.storage c (.bool o) m.env.clock)) m₁ m₁' :=
          Agree.weaken hagree fun hf => hf.imp id fun hf => ⟨c, o, hcertain, hf⟩
        refine ⟨_, Point.told (P := ⟨Q.storage, Q.bound, P.scope⟩)
          ⟨htold.valid, htold.disjoint, htold.single, htold.stored, htold.tests, htold.storage⟩
          (hmore.subset ?_) hknown rfl (Nat.le_refl _) ?_, .inl⟩
        · intro leaf hleaf
          rcases List.mem_append.mp hleaf with hleaf | hleaf
          · exact List.mem_append_left _ (htests c o hcertain leaf hleaf)
          · exact List.mem_append_right _ hleaf
        · intro x hx
          rcases hscope x hx with hx | ⟨c', o', hc, hx⟩
          · exact .inl hx
          · rw [hcertain] at hc
            injection hc with hc
            injection hc with hc ho
            exact .inr (hc ▸ ho ▸ hx)
  refine (hss n calls hnext).mono ?_
  intro r m₂ m₂' hpost
  cases r with
  | ok _ => exact Agree.weaken hpost fun hf => hf.imp hsub id
  | error j => exact Same.weaken hsub hpost

end Agreeing

end Lowering

end PatternIR
