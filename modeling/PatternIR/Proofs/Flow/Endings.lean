/-
  PatternIR.Proofs.Flow.Endings
  ─────────────────────────────
  **HOW A STATEMENT CAN END.**

  Besides a `return` or a fault, a statement can run off its end, or end in a
  `break` or a `continue` that nothing in it takes.  `ends` reads from the
  text which of these are possible.  It gives every jump to the statement that
  the evaluator gives it to:

    • a loop takes jumps without a label and jumps to the innermost label
      attached to it;
    • any other label takes the `break`s to it, from a loop under it too;
    • a `continue` that is taken leads to the test of the loop.

  Conditions count only if they are the constant `true`.

    • `Run.EndsIn` — a computation ends in one of the given ways, if at all;
    • `execStmt_endsIn` — execution ends only as `ends` says.
-/
import PatternIR.Flow.Completion
import PatternIR.Proofs.Eval.Invariant

namespace PatternIR

variable {ω α β : Type}

/-! ## §1. Endings. -/

/-- An end of execution that what comes next, or a statement further out, can see. -/
inductive Ending where
  | done
  | broke (target : Option String)
  | continued (target : Option String)
deriving DecidableEq

/-- The ending behind an interrupt; a `return` and a fault end more than a statement. -/
def Interrupt.ending? : Interrupt → Option Ending
  | .broke target => some (.broke target)
  | .continued target => some (.continued target)
  | .returned _ | .fault _ => none

/-- Whether a loop under `label` leaves a jump of its body to others. -/
def Ending.passes (label : Option String) : Ending → Bool
  | .done => false
  | .broke target | .continued target => target ≠ none && target ≠ label

/-- Whether a statement is a loop, which takes the label attached to it. -/
def Stmt.isLoop : Stmt → Bool
  | .whileDo _ _ _ | .doWhile _ _ _ | .forDo _ _ _ _ _ => true
  | _ => false

namespace Flow

/-- How a loop under `label` can end whose body ends as `body` says; `test`
tells whether its test can come out false. -/
def loopEnds (label : Option String) (test : Bool) (body : Ending → Bool) (e : Ending) : Bool :=
  (e = .done && (test || body (.broke none) || body (.broke label)))
    || (e.passes label && body e)

mutual
/-- Whether a statement can end so; a loop among them is under `label`. -/
def ends (label : Option String) : (e : Ending) → Stmt → Bool
  | e, .expr _ _ => e = .done
  | e, .decl _ _ _ => e = .done
  | e, .block _ stmts => endsAll e stmts
  | e, .ifElse _ _ yes no => ends none e yes || endsOpt e no
  | e, .whileDo _ cond body => loopEnds label (!isConstantTrue cond) (fun e => ends none e body) e
  | e, .doWhile _ body cond =>
    loopEnds label
      (!isConstantTrue cond && (ends none .done body || ends none (.continued none) body
        || ends none (.continued label) body))
      (fun e => ends none e body) e
  | e, .forDo _ start cond _ body =>
    (e ≠ .done && endsAll e start)
      || (endsAll .done start
        && loopEnds label (cond.any fun c => !isConstantTrue c) (fun e => ends none e body) e)
  | e, .labeled _ inner body =>
    if body.isLoop then ends (some inner) e body
    else (e = .done && ends none (.broke (some inner)) body)
      || (e ≠ .broke (some inner) && ends none e body)
  | _, .ret _ _ => false
  | e, .brk _ target => e = .broke target
  | e, .cont _ target => e = .continued target
/-- How a block can end: an ending other than the last statement's needs those before it to be
done. -/
def endsAll : (e : Ending) → List Stmt → Bool
  | e, [] => e = .done
  | e, s :: ss => (e ≠ .done && ends none e s) || (ends none .done s && endsAll e ss)
/-- A branch that is missing is done. -/
def endsOpt : (e : Ending) → Option Stmt → Bool
  | e, none => e = .done
  | e, some s => ends none e s
end

end Flow

/-! ## §2. Expressions never jump. -/

/-- The native functions throw no jumps. -/
def Setting.Quiet (setting : Setting ω) : Prop :=
  ∀ name f, setting.native? name = some f → ∀ args host i,
    (f args host).1 = .error i → i.isJump = false

namespace Run.OnlyFaults

/-- The end of a call turns every jump into a fault. -/
theorem bracketCall (method : String) (body : Run ω Unit) :
    OnlyFaults (PatternIR.bracketCall method body) := by
  constructor
  intro m m' i h
  unfold PatternIR.bracketCall settle at h
  cases hbody : body m with
  | ok u m₁ =>
      rw [hbody] at h
      injection h
  | error e m₁ =>
      rw [hbody] at h
      cases e with
      | exhausted =>
          injection h with h
          injection h
      | interrupt j =>
          -- every jump becomes a value or a fault
          cases j with
          | returned v => injection h
          | fault _ | broke _ | continued _ =>
              injection h with h
              injection h with h
              subst h
              rfl

/-- A call is entered or refused by a fault. -/
theorem enterCall (s : Symbols) (m : Method) (args : List Value) :
    OnlyFaults (PatternIR.enterCall s m args : Run ω Unit) :=
  bind ⟨fun h => by injection h⟩ fun _ => bindParams s m.params args

/-- A method of the program is left by its end alone. -/
theorem callMethod (setting : Setting ω) (n : Nat) (m : Method) (args : List Value) :
    OnlyFaults (PatternIR.callMethod setting n m args) := by
  cases n with
  | zero => exact exhausted
  | succ n =>
      have hget : OnlyFaults (get : Run ω (Machine ω)) := ⟨fun h => by injection h⟩
      exact bind hget fun machine => bind (ofExcept _) fun body =>
        bind (enterCall _ m args) fun _ => bracketCall m.name _

/-- A call from outside raises nothing but faults. -/
theorem callOutside {setting : Setting ω} (quiet : setting.Quiet) (name : String)
    (args : List Value) : OnlyFaults (PatternIR.callOutside setting name args) := by
  have hprint : ∀ (text : String) (v : Value),
      OnlyFaults (Run.print text >>= fun _ => Pure.pure v : Run ω Value) :=
    fun text v => bind ⟨fun h => by injection h⟩ fun _ => pure v
  unfold PatternIR.callOutside Builtin.function?
  split
  next run hrun =>
    split at hrun
    · injection hrun with hrun
      subst hrun
      exact hprint _ _
    · split at hrun
      · injection hrun with hrun
        subst hrun
        exact hprint _ _
      · exact absurd hrun (by simp)
  next =>
    split
    next f hf =>
      constructor
      intro m m' i h
      unfold callNative at h
      split at h
      · injection h
      next j host hj =>
        injection h with h
        injection h with h
        subst h
        exact quiet name f hf args m.host _ (by rw [hj])
    next => exact fail _

/-- A match raises nothing but the fault of its conversion. -/
theorem matchPattern (setting : Setting ω) (pattern : BindingPattern) (v : Value) :
    OnlyFaults (PatternIR.matchPattern setting pattern v) := by
  unfold PatternIR.matchPattern
  split
  · exact fail _
  · split
    · exact bind (ofExcept _) fun v => bind (write _ v _) fun _ => pure _
    · exact pure _

/-- A condition, and what either answer leads to. -/
theorem cond {c : Run ω Value} {f : Bool → Run ω α} (hc : OnlyFaults c)
    (hf : ∀ b, OnlyFaults (f b)) : OnlyFaults (c >>= fun v => Run.truth v >>= f) :=
  bind hc fun v => bind (truth v) hf

/-- A jump after an evaluation comes from what follows it. -/
theorem bind_eq_jump {c : Run ω α} {f : α → Run ω β} {m m' : Machine ω} {i : Interrupt}
    (hc : OnlyFaults c) (h : (c >>= f) m = .error (.interrupt i) m') (hi : i.isJump = true) :
    ∃ a m₁, c m = .ok a m₁ ∧ f a m₁ = .error (.interrupt i) m' := by
  rw [bind_apply] at h
  split at h
  next a m₁ h₁ => exact ⟨a, m₁, h₁, h⟩
  next e m₁ h₁ =>
    injection h with he hm
    subst he hm
    have hfault := hc.fault h₁
    rw [hi] at hfault
    exact absurd hfault (by simp)

end Run.OnlyFaults

/-- With the given fuel, no expression ends in a jump. -/
structure Jumpless (setting : Setting ω) (n : Nat) : Prop where
  expr : ∀ e, Run.OnlyFaults (evalExpr setting n e)
  args : ∀ es, Run.OnlyFaults (evalArgs setting n es)
  defs : ∀ ds, Run.OnlyFaults (evalDefs setting n ds)
  all : ∀ es, Run.OnlyFaults (evalAll setting n es)

section

variable {setting : Setting ω} (quiet : setting.Quiet)

include quiet

/-- Expressions raise nothing but faults, one step further up. -/
theorem Jumpless.evalExpr_succ {n : Nat} (ih : Jumpless setting n) :
    ∀ e, Run.OnlyFaults (evalExpr setting (n + 1) e)
  | .literal _ v => .pure _
  | .ident i sym => .read _ _ _
  | .unary _ op e => .bind (ih.expr e) fun v => .ofExcept _
  | .binary i op l r => by
      have hstrict : Run.OnlyFaults (evalExpr setting n l >>= fun v => evalExpr setting n r >>=
          fun w => Run.ofExcept (evalBinary op v w (l.ty.isReference && r.ty.isReference) i.ty)) :=
        .bind (ih.expr l) fun v => .bind (ih.expr r) fun w => .ofExcept _
      have hright : Run.OnlyFaults (evalExpr setting n r >>= fun v => Run.truth v >>= fun b =>
          Pure.pure (Value.bool b)) :=
        .cond (ih.expr r) fun b => .pure _
      cases op with
      | and =>
          refine .cond (ih.expr l) fun b => ?_
          cases b with
          | true => exact hright
          | false => exact .pure _
      | or =>
          refine .cond (ih.expr l) fun b => ?_
          cases b with
          | true => exact .pure _
          | false => exact hright
      | _ => exact hstrict
  | .conditional _ c y e => by
      refine .cond (ih.expr c) fun b => ?_
      cases b with
      | true => exact ih.expr y
      | false => exact ih.expr e
  | .assign _ target e => by
      cases target with
      | ident i sym =>
          exact .bind (ih.expr e) fun v => .bind (.ofExcept _) fun v =>
            .bind (.write sym v _) fun _ => .pure _
      | _ => exact .fail _
  | .cast _ target e => .bind (ih.expr e) fun v => .ofExcept _
  | .instanceOf _ e target => .bind (ih.expr e) fun v => .pure _
  | .typeTest _ e pattern => .bind (ih.expr e) fun v => .matchPattern setting pattern v
  | .call _ name args => by
      refine .bind (ih.args args) fun args => ?_
      show Run.OnlyFaults (callFunction setting n name args)
      unfold callFunction
      split
      · exact .callMethod setting n _ args
      · exact .callOutside quiet name args
  | .methodCall _ receiver name args =>
      .bind (ih.expr receiver) fun v => .bind (ih.args args) fun args => .ofExcept _
  | .letIn _ defs body => .bind (ih.defs defs) fun _ => ih.expr body

/-- **No expression ends in a jump.** -/
theorem jumpless : ∀ n, Jumpless setting n
  | 0 => ⟨fun _ => .exhausted, fun _ => .exhausted, fun _ => .exhausted, fun _ => .exhausted⟩
  | n + 1 => by
      have ih := jumpless n
      refine ⟨ih.evalExpr_succ quiet, ?_, ?_, ?_⟩
      · intro es
        cases es with
        | nil => exact .pure _
        | cons e es => exact .bind (ih.expr e) fun v => .bind (ih.args es) fun vs => .pure _
      · intro ds
        cases ds with
        | nil => exact .pure _
        | cons d ds =>
            exact .bind (ih.expr d.2) fun v => .bind (.declare _ d.1 v) fun _ => ih.defs ds
      · intro es
        cases es with
        | nil => exact .pure _
        | cons e es => exact .bind (ih.expr e) fun _ => ih.all es

end

/-! ## §3. What becomes of a jump. -/

/-- A fault is not an ending that others can see. -/
theorem Interrupt.isJump_of_ending? {i : Interrupt} {e : Ending} (h : i.ending? = some e) :
    i.isJump = true := by
  cases i with
  | fault f => exact absurd h (by simp [Interrupt.ending?])
  | _ => rfl

/-- What interrupts a statement is no normal end. -/
theorem Interrupt.ending?_ne_done {i : Interrupt} {e : Ending} (h : i.ending? = some e) :
    e ≠ .done := by
  cases i with
  | returned _ | fault _ => exact absurd h (by simp [Interrupt.ending?])
  | broke target | continued target =>
      injection h with h
      rw [← h]
      simp

section

variable {label : String} {under target : Option String} {r : Except Stop Unit} {stop : Stop}

/-- A labelled statement is done when its body is, or breaks to the label. -/
theorem catchLabel_eq_ok (h : catchLabel label r = .ok ()) :
    r = .ok () ∨ r = .error (.interrupt (.broke (some label))) := by
  unfold catchLabel at h
  split at h
  next target =>
    split at h
    next htarget =>
      subst htarget
      exact .inr rfl
    next => exact absurd h (by simp)
  next => exact .inl h

/-- It stops with anything else its body stops with. -/
theorem catchLabel_eq_error (h : catchLabel label r = .error stop) :
    r = .error stop ∧ stop ≠ .interrupt (.broke (some label)) := by
  unfold catchLabel at h
  split at h
  next target =>
    split at h
    next => exact absurd h (by simp)
    next htarget =>
      refine ⟨h, ?_⟩
      injection h with h
      subst h
      simpa using htarget
  next hnot =>
    refine ⟨h, ?_⟩
    rintro rfl
    exact hnot label h

/-- A turn that leaves the loop was left by a `break` to it. -/
theorem Turn.after_eq_exit (h : Turn.after under r = .ok .exit) :
    ∃ target, r = .error (.interrupt (.broke target)) ∧ (target = none ∨ target = under) := by
  unfold Turn.after at h
  split at h
  next => exact absurd h (by simp)
  next target =>
    split at h
    next htarget => exact ⟨target, rfl, htarget⟩
    next => exact absurd h (by simp)
  next => split at h <;> exact absurd h (by simp)
  next => exact absurd h (by simp)

/-- A turn that goes on is done, or ends with a `continue` of the loop. -/
theorem Turn.after_eq_next (h : Turn.after under r = .ok .next) :
    r = .ok () ∨ ∃ target,
      r = .error (.interrupt (.continued target)) ∧ (target = none ∨ target = under) := by
  unfold Turn.after at h
  split at h
  next => exact .inl rfl
  next => split at h <;> exact absurd h (by simp)
  next target =>
    split at h
    next htarget => exact .inr ⟨target, rfl, htarget⟩
    next => exact absurd h (by simp)
  next => exact absurd h (by simp)

/-- A loop leaves on what its body ends with, and only what is not for it. -/
theorem Turn.after_eq_error (h : Turn.after under r = .error stop) :
    r = .error stop ∧ ∀ i e, stop = .interrupt i → i.ending? = some e → e.passes under = true := by
  unfold Turn.after at h
  split at h
  next => exact absurd h (by simp)
  next target =>
    split at h
    next => exact absurd h (by simp)
    next htarget =>
      injection h with h
      subst h
      refine ⟨rfl, ?_⟩
      intro i e hi he
      injection hi with hi
      subst hi
      injection he with he
      subst he
      simpa [Ending.passes, not_or] using htarget
  next target =>
    split at h
    next => exact absurd h (by simp)
    next htarget =>
      injection h with h
      subst h
      refine ⟨rfl, ?_⟩
      intro i e hi he
      injection hi with hi
      subst hi
      injection he with he
      subst he
      simpa [Ending.passes, not_or] using htarget
  next stop' hbroke hcontinued =>
    injection h with h
    subst h
    refine ⟨rfl, ?_⟩
    rintro i e rfl he
    cases i with
    | returned _ | fault _ => exact absurd he (by simp [Interrupt.ending?])
    | broke target => exact absurd rfl (hbroke target)
    | continued target => exact absurd rfl (hcontinued target)

end

/-! ## §4. Computations with known endings. -/

/-- However the computation ends, `P` has that ending. -/
structure Run.EndsIn (P : Ending → Bool) (c : Run ω Unit) : Prop where
  ok : ∀ {m m' : Machine ω}, c m = .ok () m' → P .done = true
  jump : ∀ {m m' : Machine ω} {i : Interrupt} {e : Ending},
    c m = .error (.interrupt i) m' → i.ending? = some e → P e = true

/-- From `m`, the computation ends so, in `m'`. -/
def Run.EndsWith (c : Run ω Unit) (e : Ending) (m m' : Machine ω) : Prop :=
  match e with
  | .done => c m = .ok () m'
  | .broke target => c m = .error (.interrupt (.broke target)) m'
  | .continued target => c m = .error (.interrupt (.continued target)) m'

/-- Where a computation ends in some way, it has kept what it keeps. -/
theorem Run.Keeps.endsWith {R : Machine ω → Machine ω → Prop} {c : Run ω Unit} {e : Ending}
    {m m' : Machine ω} (hc : Run.Keeps R c) (h : c.EndsWith e m m') : R m m' := by
  cases e with
  | done => exact hc.ok h
  | broke target => exact hc.jump h rfl
  | continued target => exact hc.jump h rfl

namespace Run.EndsIn

variable {P Q : Ending → Bool}

/-- What it ends in is one of the endings it has. -/
theorem endsWith {c : Run ω Unit} {e : Ending} {m m' : Machine ω} (hc : EndsIn P c)
    (h : c.EndsWith e m m') : P e = true := by
  cases e with
  | done => exact hc.ok h
  | broke target => exact hc.jump h rfl
  | continued target => exact hc.jump h rfl

/-- A computation without an effect is done. -/
theorem pure (h : P .done = true) : EndsIn P (Pure.pure () : Run ω Unit) :=
  ⟨fun _ => h, fun h => by injection h⟩

/-- An interruption ends in what it is. -/
theorem interrupt {i : Interrupt} (h : ∀ e, i.ending? = some e → P e = true) :
    EndsIn P (Run.interrupt i : Run ω Unit) := by
  constructor
  · intro m m' hok
    injection hok
  · intro m m' j e herr he
    injection herr with herr
    injection herr with herr
    subst herr
    exact h e he

/-- Running out of fuel is no ending. -/
theorem exhausted : EndsIn P (throw .exhausted : Run ω Unit) := by
  constructor
  · intro m m' hok
    injection hok
  · intro m m' j e herr _
    injection herr with herr
    injection herr

/-- The endings may be more than there are. -/
theorem mono {c : Run ω Unit} (hc : EndsIn Q c) (h : ∀ e, Q e = true → P e = true) :
    EndsIn P c :=
  ⟨fun hok => h _ (hc.ok hok), fun herr he => h _ (hc.jump herr he)⟩

/-- What raises only faults ends by being done, if at all. -/
theorem ofOnlyFaults {c : Run ω Unit} (hc : Run.OnlyFaults c) (h : P .done = true) :
    EndsIn P c := by
  refine ⟨fun _ => h, ?_⟩
  intro m m' i e herr he
  have hfault := hc.fault herr
  rw [Interrupt.isJump_of_ending? he] at hfault
  exact absurd hfault (by simp)

/-- Evaluation on the way adds no ending. -/
theorem bind {c : Run ω α} {f : α → Run ω Unit} (hc : Run.OnlyFaults c)
    (hf : ∀ a, EndsIn P (f a)) : EndsIn P (c >>= f) := by
  constructor
  · intro m m' h
    obtain ⟨a, m₁, -, h₂⟩ := bind_eq_ok.mp h
    exact (hf a).ok h₂
  · intro m m' i e h he
    obtain ⟨a, m₁, -, h₂⟩ := hc.bind_eq_jump h (Interrupt.isJump_of_ending? he)
    exact (hf a).jump h₂ he

/-- Of two parts, the first one passes its jumps on, and the second one runs
only if the first one can run off its end. -/
theorem seq {c d : Run ω Unit} (hc : EndsIn Q c) (hjump : ∀ e ≠ .done, Q e = true → P e = true)
    (hd : Q .done = true → EndsIn P d) : EndsIn P (c >>= fun _ => d) := by
  constructor
  · intro m m' h
    obtain ⟨u, m₁, h₁, h₂⟩ := bind_eq_ok.mp h
    exact (hd (hc.ok h₁)).ok h₂
  · intro m m' i e h he
    rw [bind_apply] at h
    split at h
    next u m₁ h₁ => exact (hd (hc.ok h₁)).jump h he
    next stop m₁ h₁ =>
      injection h with hs hm
      subst hs hm
      refine hjump e ?_ (hc.jump h₁ he)
      rintro rfl
      cases i <;> simp [Interrupt.ending?] at he

/-- A test, where the constant `true` does not come out false. -/
theorem test {setting : Setting ω} {n : Nat} {cond : Expr} {f : Bool → Run ω Unit}
    (hc : Run.OnlyFaults (evalExpr setting n cond)) (yes : EndsIn P (f true))
    (no : Flow.isConstantTrue cond = false → EndsIn P (f false)) :
    EndsIn P (evalExpr setting n cond >>= fun v => Run.truth v >>= f) := by
  by_cases hconst : Flow.isConstantTrue cond = true
  · have hcond : ∃ i, cond = .literal i (.bool true) := by
      unfold Flow.isConstantTrue at hconst
      split at hconst
      · exact ⟨_, rfl⟩
      · exact absurd hconst (by simp)
    obtain ⟨i, rfl⟩ := hcond
    cases n with
    | zero => exact exhausted
    | succ n => exact yes
  · refine bind hc fun v => bind (.truth v) fun b => ?_
    cases b with
    | true => exact yes
    | false => exact no (by simpa using hconst)

/-- A label that is not on a loop. -/
theorem catchLabel {c : Run ω Unit} {label : String} (hc : EndsIn Q c)
    (hdone : Q .done = true ∨ Q (.broke (some label)) = true → P .done = true)
    (hpass : ∀ e, e ≠ .done → e ≠ .broke (some label) → Q e = true → P e = true) :
    EndsIn P (settle (catchLabel label) c) := by
  constructor
  · intro m m' h
    rcases settle_eq_ok h with ⟨_, h₁, -⟩ | ⟨stop, h₁, hstop⟩
    · exact hdone (.inl (hc.ok h₁))
    · rcases catchLabel_eq_ok hstop with hstop | hstop
      · exact absurd hstop (by simp)
      · injection hstop with hstop
        subst hstop
        exact hdone (.inr (hc.jump h₁ rfl))
  · intro m m' i e h he
    rcases settle_eq_error h with ⟨_, h₁, hstop⟩ | ⟨stop, h₁, hstop⟩
    · exact absurd (catchLabel_eq_error hstop).1 (by simp)
    · obtain ⟨heq, hne⟩ := catchLabel_eq_error hstop
      injection heq with heq
      subst heq
      refine hpass e (Interrupt.ending?_ne_done he) ?_ (hc.jump h₁ he)
      rintro rfl
      cases i <;> simp_all [Interrupt.ending?]

end Run.EndsIn

/-- How a loop under `label` goes on after a body with known endings. -/
structure Run.TurnsIn (label : Option String) (P : Ending → Bool) (c : Run ω Turn) : Prop where
  exit : ∀ {m m' : Machine ω}, c m = .ok .exit m' →
    P (.broke none) = true ∨ P (.broke label) = true
  next : ∀ {m m' : Machine ω}, c m = .ok .next m' →
    P .done = true ∨ P (.continued none) = true ∨ P (.continued label) = true
  jump : ∀ {m m' : Machine ω} {i : Interrupt} {e : Ending},
    c m = .error (.interrupt i) m' → i.ending? = some e → e.passes label = true ∧ P e = true

/-- A turn of a loop, from the endings of the body. -/
theorem Run.EndsIn.after {P : Ending → Bool} {c : Run ω Unit} (hc : EndsIn P c)
    (label : Option String) : TurnsIn label P (settle (Turn.after label) c) := by
  constructor
  · intro m m' h
    rcases settle_eq_ok h with ⟨_, h₁, hturn⟩ | ⟨stop, h₁, hturn⟩
    · exact absurd hturn (by simp [Turn.after])
    · obtain ⟨target, heq, htarget⟩ := Turn.after_eq_exit hturn
      injection heq with heq
      subst heq
      have hbroke : P (.broke target) = true := hc.jump h₁ rfl
      rcases htarget with rfl | rfl
      · exact .inl hbroke
      · exact .inr hbroke
  · intro m m' h
    rcases settle_eq_ok h with ⟨_, h₁, hturn⟩ | ⟨stop, h₁, hturn⟩
    · exact .inl (hc.ok h₁)
    · rcases Turn.after_eq_next hturn with heq | ⟨target, heq, htarget⟩
      · exact absurd heq (by simp)
      · injection heq with heq
        subst heq
        have hcont : P (.continued target) = true := hc.jump h₁ rfl
        rcases htarget with rfl | rfl
        · exact .inr (.inl hcont)
        · exact .inr (.inr hcont)
  · intro m m' i e h he
    rcases settle_eq_error h with ⟨_, h₁, hturn⟩ | ⟨stop, h₁, hturn⟩
    · exact absurd (Turn.after_eq_error hturn).1 (by simp)
    · obtain ⟨heq, hpass⟩ := Turn.after_eq_error hturn
      injection heq with heq
      subst heq
      exact ⟨hpass i e rfl he, hc.jump h₁ he⟩

/-- A loop that decides by its body whether it goes on. -/
theorem Run.EndsIn.turn {P Q : Ending → Bool} {label : Option String} {c : Run ω Turn}
    {f : Turn → Run ω Unit} (hc : TurnsIn label Q c)
    (hjump : ∀ e, e.passes label = true → Q e = true → P e = true)
    (hexit : Q (.broke none) = true ∨ Q (.broke label) = true → EndsIn P (f .exit))
    (hnext : Q .done = true ∨ Q (.continued none) = true ∨ Q (.continued label) = true →
      EndsIn P (f .next)) : EndsIn P (c >>= f) := by
  constructor
  · intro m m' h
    obtain ⟨t, m₁, h₁, h₂⟩ := bind_eq_ok.mp h
    cases t with
    | exit => exact (hexit (hc.exit h₁)).ok h₂
    | next => exact (hnext (hc.next h₁)).ok h₂
  · intro m m' i e h he
    rw [bind_apply] at h
    split at h
    next t m₁ h₁ =>
      cases t with
      | exit => exact (hexit (hc.exit h₁)).jump h he
      | next => exact (hnext (hc.next h₁)).jump h he
    next stop m₁ h₁ =>
      injection h with hs hm
      subst hs hm
      obtain ⟨hpass, hQ⟩ := hc.jump h₁ he
      exact hjump e hpass hQ

/-- Where a test decides, it has come out and the rest ends from there. -/
theorem Run.EndsWith.test {c : Run ω Value} {f : Bool → Run ω Unit} {e : Ending}
    {m m' : Machine ω} (hc : Run.OnlyFaults c)
    (h : (c >>= fun v => Run.truth v >>= f).EndsWith e m m') :
    ∃ t m₁, c m = .ok (.bool t) m₁ ∧ (f t).EndsWith e m₁ m' := by
  have hjump : ∀ {i : Interrupt}, i.isJump = true →
      (c >>= fun v => Run.truth v >>= f) m = .error (.interrupt i) m' →
        ∃ t m₁, c m = .ok (.bool t) m₁ ∧ f t m₁ = .error (.interrupt i) m' := by
    intro i hi h
    obtain ⟨v, m₁, hv, h₁⟩ := hc.bind_eq_jump h hi
    obtain ⟨t, m₂, ht, h₂⟩ := (OnlyFaults.truth v).bind_eq_jump h₁ hi
    obtain ⟨rfl, rfl⟩ := Run.truth_eq_ok.mp ht
    exact ⟨t, m₂, hv, h₂⟩
  cases e with
  | done => exact Run.cond_eq_ok.mp h
  | broke target => exact hjump rfl h
  | continued target => exact hjump rfl h

/-! ## §5. Execution ends as the text says. -/

namespace Flow

/-- The endings of a loop whose body goes round. -/
def whileEnds (label : Option String) (cond : Expr) (body : Stmt) : Ending → Bool :=
  loopEnds label (!isConstantTrue cond) fun e => ends none e body

/-- The endings of a loop that tests behind its body; a `continue` in it leads to the test. -/
def doEnds (label : Option String) (body : Stmt) (cond : Expr) : Ending → Bool :=
  loopEnds label
    (!isConstantTrue cond && (ends none .done body || ends none (.continued none) body
      || ends none (.continued label) body))
    fun e => ends none e body

/-- The endings of a loop with a test that may be missing. -/
def forEnds (label : Option String) (cond : Option Expr) (body : Stmt) : Ending → Bool :=
  loopEnds label (cond.any fun c => !isConstantTrue c) fun e => ends none e body

/-- A jump past the loop ends it as it ended the body. -/
theorem loopEnds_jump {label : Option String} {test : Bool} {body : Ending → Bool} {e : Ending}
    (hpass : e.passes label = true) (h : body e = true) : loopEnds label test body e = true := by
  simp [loopEnds, hpass, h]

/-- A `break` of the loop ends it. -/
theorem loopEnds_exit {label : Option String} {test : Bool} {body : Ending → Bool}
    (h : body (.broke none) = true ∨ body (.broke label) = true) :
    loopEnds label test body .done = true := by
  rcases h with h | h <;> simp [loopEnds, h]

/-- A test that can fail ends it. -/
theorem loopEnds_test {label : Option String} {test : Bool} {body : Ending → Bool}
    (h : test = true) : loopEnds label test body .done = true := by
  simp [loopEnds, h]

end Flow

open PatternIR.Flow

/-- Everything executed with the given fuel ends as its text says. -/
structure EndsAsText (setting : Setting ω) (n : Nat) : Prop where
  stmt : ∀ s, Run.EndsIn (fun e => ends none e s) (execStmt setting n s)
  stmts : ∀ ss, Run.EndsIn (fun e => endsAll e ss) (execAll setting n ss)
  whileDo : ∀ label c b, Run.EndsIn (whileEnds label c b) (execWhile setting n label c b)
  doWhile : ∀ label b c, Run.EndsIn (doEnds label b c) (execDo setting n label b c)
  forDo : ∀ label c es b, Run.EndsIn (forEnds label c b) (execFor setting n label c es b)

namespace EndsAsText

variable {setting : Setting ω}

/-- A `for` ends as its loop does, once what begins it is done. -/
theorem forDo_from {n : Nat} (ih : EndsAsText setting n) (i : StmtInfo) (label : Option String)
    (ss : List Stmt) (c : Option Expr) (es : List Expr) (b : Stmt) :
    Run.EndsIn (fun e => ends label e (.forDo i ss c es b))
      (execAll setting n ss >>= fun _ => execFor setting n label c es b) := by
  refine .seq (ih.stmts ss) ?_ ?_
  · intro e he hss
    simp [ends, he, hss]
  · intro hdone
    refine (ih.forDo label c es b).mono ?_
    intro e he
    show (_ || (endsAll .done ss && forEnds label c b e)) = true
    rw [hdone, he]
    simp

/-- The statements of a block, one step further up. -/
theorem execAll_succ {n : Nat} (ih : EndsAsText setting n) :
    ∀ ss, Run.EndsIn (fun e => endsAll e ss) (execAll setting (n + 1) ss)
  | [] => .pure rfl
  | s :: ss => by
      refine .seq (ih.stmt s) ?_ ?_
      · intro e he hs
        simp [endsAll, he, hs]
      · intro hdone
        exact (ih.stmts ss).mono fun e he => by simp [endsAll, hdone, he]

variable (quiet : setting.Quiet)

include quiet

/-- A statement, one step further up. -/
theorem execStmt_succ {n : Nat} (ih : EndsAsText setting n) :
    ∀ s, Run.EndsIn (fun e => ends none e s) (execStmt setting (n + 1) s)
  | .expr _ e => .bind ((jumpless quiet n).expr e) fun _ => .pure rfl
  | .decl _ _ none => .pure rfl
  | .decl _ var (some e) =>
      .bind ((jumpless quiet n).expr e) fun v => .ofOnlyFaults (.declare _ var v) rfl
  | .block _ ss => ih.stmts ss
  | .ifElse _ c y no => by
      refine .bind ((jumpless quiet n).expr c) fun v => .bind (.truth v) fun b => ?_
      cases b with
      | true => exact (ih.stmt y).mono fun e he => by simp [ends, he]
      | false =>
          cases no with
          | some s => exact (ih.stmt s).mono fun e he => by simp [ends, endsOpt, he]
          | none => exact .pure (by simp [ends, endsOpt])
  | .whileDo _ c b => ih.whileDo none c b
  | .doWhile _ b c => ih.doWhile none b c
  | .forDo i ss c es b => ih.forDo_from i none ss c es b
  | .labeled _ label s => by
      have hcatch : s.isLoop = false → Run.EndsIn (fun e => ends none e (.labeled ‹_› label s))
          (settle (catchLabel label) (execStmt setting n s)) := by
        intro hloop
        refine .catchLabel (ih.stmt s) ?_ ?_
        · rintro (h | h) <;> simp [ends, hloop, h]
        · intro e _ hne h
          simp [ends, hloop, hne, h]
      cases s with
      | whileDo _ c b => exact ih.whileDo (some label) c b
      | doWhile _ b c => exact ih.doWhile (some label) b c
      | forDo i ss c es b => exact ih.forDo_from i (some label) ss c es b
      | _ => exact hcatch rfl
  | .ret _ none => .interrupt fun e he => by injection he
  | .ret _ (some e) =>
      .bind ((jumpless quiet n).expr e) fun v => .interrupt fun e he => by injection he
  | .brk _ label => .interrupt fun e he => by injection he with he; subst he; simp [ends]
  | .cont _ label => .interrupt fun e he => by injection he with he; subst he; simp [ends]

/-- A `while`, one step further up. -/
theorem execWhile_succ {n : Nat} (ih : EndsAsText setting n) (label : Option String) (c : Expr)
    (b : Stmt) : Run.EndsIn (whileEnds label c b) (execWhile setting (n + 1) label c b) := by
  refine .test ((jumpless quiet n).expr c) ?_ ?_
  · exact .turn ((ih.stmt b).after label) (fun e hpass he => loopEnds_jump hpass he)
      (fun hexit => .pure (loopEnds_exit hexit)) fun _ => ih.whileDo label c b
  · intro hc
    exact .pure (loopEnds_test (by simp [hc]))

/-- A `do`, one step further up. -/
theorem execDo_succ {n : Nat} (ih : EndsAsText setting n) (label : Option String) (b : Stmt)
    (c : Expr) : Run.EndsIn (doEnds label b c) (execDo setting (n + 1) label b c) := by
  refine .turn ((ih.stmt b).after label) (fun e hpass he => loopEnds_jump hpass he)
    (fun hexit => .pure (loopEnds_exit hexit)) ?_
  intro hnext
  refine .test ((jumpless quiet n).expr c) (ih.doWhile label b c) ?_
  intro hc
  refine .pure (loopEnds_test ?_)
  rcases hnext with h | h | h <;> simp [hc, h]

/-- A `for`, one step further up. -/
theorem execFor_succ {n : Nat} (ih : EndsAsText setting n) (label : Option String)
    (c : Option Expr) (es : List Expr) (b : Stmt) :
    Run.EndsIn (forEnds label c b) (execFor setting (n + 1) label c es b) := by
  have hround : Run.EndsIn (forEnds label c b)
      (settle (Turn.after label) (execStmt setting n b) >>=
        afterTurn (evalAll setting n es >>= fun _ => execFor setting n label c es b)) :=
    .turn ((ih.stmt b).after label) (fun e hpass he => loopEnds_jump hpass he)
      (fun hexit => .pure (loopEnds_exit hexit)) fun _ =>
        .bind ((jumpless quiet n).all es) fun _ => ih.forDo label c es b
  cases c with
  | none => exact hround
  | some c =>
      refine .test ((jumpless quiet n).expr c) hround ?_
      intro hc
      exact .pure (loopEnds_test (by simp [hc]))

end EndsAsText

/-- **Execution ends as the text says.** -/
theorem endsAsText {setting : Setting ω} (quiet : setting.Quiet) : ∀ n, EndsAsText setting n
  | 0 => ⟨fun _ => .exhausted, fun _ => .exhausted, fun _ _ _ => .exhausted,
      fun _ _ _ => .exhausted, fun _ _ _ _ => .exhausted⟩
  | n + 1 => by
      have ih := endsAsText quiet n
      exact ⟨ih.execStmt_succ quiet, ih.execAll_succ, ih.execWhile_succ quiet,
        ih.execDo_succ quiet, ih.execFor_succ quiet⟩

end PatternIR
