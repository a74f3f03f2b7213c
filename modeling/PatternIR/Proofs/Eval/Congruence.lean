/-
  PatternIR.Proofs.Eval.Congruence
  ────────────────────────────────
  **RELATIONS THAT EVALUATION RESPECTS.**

  A relation between computations that holds of every elementary one and passes
  through sequences, through the settling of jumps and through a call holds
  between each evaluation and the same evaluation with as much fuel or with
  more.  A property of computations is a relation that looks at one side.

    • `Settles` — what a statement may make of the way its body ended;
    • `Run.Congruence` — the relations that pass through every construct;
    • `Run.Congruence.evaluation` — they hold between evaluations.
-/
import PatternIR.Eval.Interpreter
import PatternIR.Proofs.Steps

namespace PatternIR

variable {ω α β : Type}

/-! ## §1. Jumps. -/

/-- Whether an interrupt is a jump, which a statement further out can catch. -/
def Interrupt.isJump : Interrupt → Bool
  | .fault _ => false
  | .returned _ | .broke _ | .continued _ => true

/-- What `settle` may make of an ending: only a jump becomes a value or a jump. -/
structure Settles (how : Except Stop α → Except Stop β) : Prop where
  ok : ∀ {i : Interrupt} {b : β}, how (.error (.interrupt i)) = .ok b → i.isJump = true
  jump : ∀ {i j : Interrupt}, how (.error (.interrupt i)) = .error (.interrupt j) →
    j.isJump = true → i.isJump = true
  fault : ∀ {f : Fault}, how (.error (.interrupt (.fault f))) = .error (.interrupt (.fault f))
  exhausted : how (.error .exhausted) = .error .exhausted

/-- The end of a turn of a loop is settled by its ending alone. -/
theorem Turn.settles_after (label : Option String) : Settles (Turn.after label) := by
  refine ⟨?_, ?_, rfl, rfl⟩
  · intro i b h
    cases i <;> simp_all [Turn.after, Interrupt.isJump]
  · intro i j h hj
    cases i <;> simp_all [Turn.after, Interrupt.isJump]
    subst h
    exact absurd hj (by simp)

/-- So is the end of a labelled statement. -/
theorem settles_catchLabel (label : String) : Settles (catchLabel label) := by
  refine ⟨?_, ?_, rfl, rfl⟩
  · intro i b h
    cases i <;> simp_all [catchLabel, Interrupt.isJump]
  · intro i j h hj
    cases i <;> simp_all [catchLabel, Interrupt.isJump]
    subst h
    exact absurd hj (by simp)

/-- So is the end of a call. -/
theorem settles_callResult (method : String) : Settles (callResult method) := by
  refine ⟨?_, ?_, rfl, rfl⟩
  · intro i b h
    cases i <;> simp_all [callResult, Interrupt.isJump]
  · intro i j h hj
    cases i <;> simp_all [callResult, Interrupt.isJump]
    · subst h
      exact absurd hj (by simp)

/-! ## §2. Relations that pass through every construct. -/

/-- The call of a function, of the program or from outside. -/
def callFunction (setting : Setting ω) (n : Nat) (name : String) (args : List Value) : Run ω Value :=
  match setting.program.method? name with
  | some m => callMethod setting n m args
  | none => callOutside setting name args

/-- What a turn of a loop does once its body has been executed. -/
def afterTurn (again : Run ω Unit) : Turn → Run ω Unit
  | .exit => pure ()
  | .next => again

/-- One call of a method whose body `exec` executes. -/
def callBy (s : Symbols) (f : Method) (args : List Value) (exec : Stmt → Run ω Unit) :
    Run ω Value := do
  let body ← Run.ofExcept (admission (← get).depth f args)
  enterCall s f args
  bracketCall f.name (exec body)

/-- The machine at the beginning of a call. -/
def Machine.entered (m : Machine ω) : Machine ω :=
  { m with depth := m.depth + 1, env := m.env.enter }

/-- `m₁` has the activations of `m` again. -/
structure Machine.Restored (m m₁ : Machine ω) : Prop where
  current : m₁.env.current = m.env.current
  callers : m₁.env.callers = m.env.callers

/-- Leaving a call does not turn the clock. -/
@[simp] theorem Machine.leaveCall_clock (m : Machine ω) : (leaveCall m).env.clock = m.env.clock := by
  simp only [leaveCall, Environment.leave]
  split <;> rfl

/-- The end of a call restores the activations that it was begun in. -/
theorem Machine.restored_leaveCall {m m₁ : Machine ω}
    (h : m₁.env.callers = m.env.current :: m.env.callers) : m.Restored (leaveCall m₁) := by
  have hleave : (leaveCall m₁).env = ⟨m.env.current, m.env.callers, m₁.env.clock⟩ := by
    simp [leaveCall, Environment.leave, h]
  exact ⟨by rw [hleave], by rw [hleave]⟩

section

variable {s : Symbols} {f : Method} {args : List Value} {exec : Stmt → Run ω Unit} {m : Machine ω}

/-- A call that is not admitted. -/
theorem callBy_error {e : Fault} (h : admission m.depth f args = .error e) :
    callBy s f args exec m = Run.fail e m := by
  show (Run.ofExcept (admission m.depth f args) >>= _) m = _
  rw [h]
  rfl

/-- A call that is admitted. -/
theorem callBy_ok {body : Stmt} (h : admission m.depth f args = .ok body) :
    callBy s f args exec m
      = (bindParams s f.params args >>= fun _ => bracketCall f.name (exec body)) m.entered := by
  show (Run.ofExcept (admission m.depth f args) >>= _) m = _
  rw [h]
  rfl

end

/-- A relation between computations of the same kind that passes through every
construct of the evaluator. -/
structure Run.Congruence (setting : Setting ω) (R : ∀ {α : Type}, Run ω α → Run ω α → Prop) :
    Prop where
  pure : ∀ {α : Type} (a : α), R (pure a) (pure a)
  interrupt : ∀ {α : Type} (i : Interrupt), R (Run.interrupt i : Run ω α) (Run.interrupt i)
  write : ∀ sym v origin, R (Run.write sym v origin) (Run.write sym v origin)
  read : ∀ node sym,
    R (Run.read setting.program.symbols node sym) (Run.read setting.program.symbols node sym)
  print : ∀ text, R (Run.print text) (Run.print text)
  native : ∀ {name f}, setting.native? name = some f → ∀ args,
    R (callNative f args) (callNative f args)
  bind : ∀ {α β : Type} {c c' : Run ω α} {f f' : α → Run ω β},
    R c c' → (∀ a, R (f a) (f' a)) → R (c >>= f) (c' >>= f')
  settle : ∀ {α β : Type} {how : Except Stop α → Except Stop β}, Settles how →
    ∀ {c c' : Run ω α}, R c c' → R (settle how c) (settle how c')
  call : ∀ {name f}, setting.program.method? name = some f → ∀ args {exec exec' : Stmt → Run ω Unit},
    (∀ body, R (exec body) (exec' body)) →
      R (callBy setting.program.symbols f args exec) (callBy setting.program.symbols f args exec')

/-- The relation holds between everything the evaluator does with `n` units of
fuel and with `k`. -/
structure Evaluation (R : ∀ {α : Type}, Run ω α → Run ω α → Prop) (setting : Setting ω)
    (n k : Nat) : Prop where
  expr : ∀ e, R (evalExpr setting n e) (evalExpr setting k e)
  args : ∀ es, R (evalArgs setting n es) (evalArgs setting k es)
  defs : ∀ ds, R (evalDefs setting n ds) (evalDefs setting k ds)
  all : ∀ es, R (evalAll setting n es) (evalAll setting k es)
  call : ∀ {name m}, setting.program.method? name = some m → ∀ args,
    R (callMethod setting n m args) (callMethod setting k m args)
  stmt : ∀ s, R (execStmt setting n s) (execStmt setting k s)
  stmts : ∀ ss, R (execAll setting n ss) (execAll setting k ss)
  whileDo : ∀ label c b, R (execWhile setting n label c b) (execWhile setting k label c b)
  doWhile : ∀ label b c, R (execDo setting n label b c) (execDo setting k label b c)
  forDo : ∀ label c es b, R (execFor setting n label c es b) (execFor setting k label c es b)

namespace Run.Congruence

variable {setting : Setting ω} {R : ∀ {α : Type}, Run ω α → Run ω α → Prop}
  (hR : Congruence setting R)

include hR

/-! ## §3. Elementary computations. -/

theorem ofExcept : ∀ x : Except Fault α, R (Run.ofExcept x : Run ω α) (Run.ofExcept x)
  | .ok a => hR.pure a
  | .error f => hR.interrupt (.fault f)

theorem truth (v : Value) : R (Run.truth v : Run ω Bool) (Run.truth v) := by
  cases v with
  | bool b => exact hR.pure b
  | _ => exact hR.interrupt _

/-- A condition, and what is done with its outcome. -/
theorem cond {c c' : Run ω Value} {f f' : Bool → Run ω α} (hc : R c c') (hf : ∀ b, R (f b) (f' b)) :
    R (c >>= fun v => Run.truth v >>= f) (c' >>= fun v => Run.truth v >>= f') :=
  hR.bind hc fun v => hR.bind (hR.truth v) hf

/-- A declaration converts its value, then writes it. -/
theorem declare (var : VarId) (v : Value) : R (Run.declare setting.program.symbols var v : Run ω Unit)
    (Run.declare setting.program.symbols var v) := by
  unfold Run.declare
  split
  · exact hR.bind (hR.ofExcept _) fun v => hR.write _ v _
  · exact hR.bind (hR.pure v) fun v => hR.write _ v _

/-- A call from outside goes to a native method or to a method of the program. -/
theorem callOutside (name : String) (args : List Value) :
    R (PatternIR.callOutside setting name args) (PatternIR.callOutside setting name args) := by
  have hprint : ∀ text, R (Run.print text >>= fun _ => Pure.pure .null : Run ω Value)
      (Run.print text >>= fun _ => Pure.pure .null) :=
    fun text => hR.bind (hR.print text) fun _ => hR.pure _
  unfold PatternIR.callOutside Builtin.function?
  split
  next run hrun =>
    split at hrun
    · injection hrun with hrun
      subst hrun
      exact hprint _
    · split at hrun
      · injection hrun with hrun
        subst hrun
        exact hprint _
      · exact absurd hrun (by simp)
  next =>
    split
    next f hf => exact hR.native hf args
    next => exact hR.interrupt _

/-- A match tests its value, then writes it. -/
theorem matchPattern (pattern : BindingPattern) (v : Value) :
    R (PatternIR.matchPattern setting pattern v) (PatternIR.matchPattern setting pattern v) := by
  unfold PatternIR.matchPattern
  split
  · exact hR.interrupt _
  · split
    · exact hR.bind (hR.ofExcept _) fun v => hR.bind (hR.write _ v _) fun _ => hR.pure _
    · exact hR.pure _

/-! ## §4. Evaluation. -/

variable {n k : Nat} (ih : Evaluation R setting n k)

include ih

/-- Expressions are related one step further up. -/
theorem evalExpr_succ : ∀ e, R (evalExpr setting (n + 1) e) (evalExpr setting (k + 1) e)
  | .literal _ v => hR.pure _
  | .ident i sym => hR.read _ _
  | .unary _ op e => hR.bind (ih.expr e) fun v => hR.ofExcept _
  | .binary i op l r => by
      have hstrict := hR.bind (ih.expr l) fun v => hR.bind (ih.expr r) fun w =>
        hR.ofExcept (evalBinary op v w (l.ty.isReference && r.ty.isReference) i.ty)
      have hright := hR.cond (ih.expr r) fun b => hR.pure (Value.bool b)
      cases op with
      | and =>
          refine hR.cond (ih.expr l) fun b => ?_
          cases b with
          | true => exact hright
          | false => exact hR.pure _
      | or =>
          refine hR.cond (ih.expr l) fun b => ?_
          cases b with
          | true => exact hR.pure _
          | false => exact hright
      | _ => exact hstrict
  | .conditional _ c y e => by
      refine hR.cond (ih.expr c) fun b => ?_
      cases b with
      | true => exact ih.expr y
      | false => exact ih.expr e
  | .assign _ target e => by
      cases target with
      | ident i sym =>
          exact hR.bind (ih.expr e) fun v => hR.bind (hR.ofExcept _) fun v =>
            hR.bind (hR.write _ v _) fun _ => hR.pure _
      | _ => exact hR.interrupt _
  | .cast _ target e => hR.bind (ih.expr e) fun v => hR.ofExcept _
  | .instanceOf _ e target => hR.bind (ih.expr e) fun v => hR.pure _
  | .typeTest _ e pattern => hR.bind (ih.expr e) fun v => hR.matchPattern pattern v
  | .call _ name args => by
      refine hR.bind (ih.args args) fun args => ?_
      show R (callFunction setting n name args) (callFunction setting k name args)
      unfold callFunction
      split
      next hm => exact ih.call hm args
      next => exact hR.callOutside name args
  | .methodCall _ receiver name args =>
      hR.bind (ih.expr receiver) fun v => hR.bind (ih.args args) fun args => hR.ofExcept _
  | .letIn _ defs body => hR.bind (ih.defs defs) fun _ => ih.expr body

/-- Statements are related one step further up. -/
theorem execStmt_succ : ∀ s, R (execStmt setting (n + 1) s) (execStmt setting (k + 1) s)
  | .expr _ e => hR.bind (ih.expr e) fun _ => hR.pure _
  | .decl _ _ none => hR.pure _
  | .decl _ var (some e) => hR.bind (ih.expr e) fun v => hR.declare var v
  | .block _ ss => ih.stmts ss
  | .ifElse _ c y no => by
      refine hR.cond (ih.expr c) fun b => ?_
      cases b with
      | true => exact ih.stmt y
      | false =>
          cases no with
          | some s => exact ih.stmt s
          | none => exact hR.pure _
  | .whileDo _ c b => ih.whileDo none c b
  | .doWhile _ b c => ih.doWhile none b c
  | .forDo _ ss c es b => hR.bind (ih.stmts ss) fun _ => ih.forDo none c es b
  | .labeled _ label s => by
      have hcatch := hR.settle (settles_catchLabel label) (ih.stmt s)
      cases s with
      | whileDo _ c b => exact ih.whileDo (some label) c b
      | doWhile _ b c => exact ih.doWhile (some label) b c
      | forDo _ ss c es b => exact hR.bind (ih.stmts ss) fun _ => ih.forDo (some label) c es b
      | _ => exact hcatch
  | .ret _ none => hR.interrupt _
  | .ret _ (some e) => hR.bind (ih.expr e) fun v => hR.interrupt _
  | .brk _ label => hR.interrupt _
  | .cont _ label => hR.interrupt _

/-- One unit of fuel more on both sides. -/
theorem evaluation_succ : Evaluation R setting (n + 1) (k + 1) := by
  have hbody : ∀ label b, R (PatternIR.settle (Turn.after label) (execStmt setting n b))
      (PatternIR.settle (Turn.after label) (execStmt setting k b)) :=
    fun label b => hR.settle (Turn.settles_after label) (ih.stmt b)
  refine ⟨hR.evalExpr_succ ih, ?_, ?_, ?_, ?_, hR.execStmt_succ ih, ?_, ?_, ?_, ?_⟩
  · intro es
    cases es with
    | nil => exact hR.pure _
    | cons e es =>
        exact hR.bind (ih.expr e) fun v => hR.bind (ih.args es) fun vs => hR.pure _
  · intro ds
    cases ds with
    | nil => exact hR.pure _
    | cons d ds =>
        exact hR.bind (ih.expr d.2) fun v => hR.bind (hR.declare d.1 v) fun _ => ih.defs ds
  · intro es
    cases es with
    | nil => exact hR.pure _
    | cons e es => exact hR.bind (ih.expr e) fun _ => ih.all es
  · exact fun hm args => hR.call hm args ih.stmt
  · intro ss
    cases ss with
    | nil => exact hR.pure _
    | cons s ss => exact hR.bind (ih.stmt s) fun _ => ih.stmts ss
  · intro label c b
    refine hR.cond (ih.expr c) fun t => ?_
    cases t with
    | false => exact hR.pure _
    | true =>
        refine hR.bind (hbody label b) fun turn => ?_
        cases turn with
        | exit => exact hR.pure _
        | next => exact ih.whileDo label c b
  · intro label b c
    refine hR.bind (hbody label b) fun turn => ?_
    cases turn with
    | exit => exact hR.pure _
    | next =>
        refine hR.cond (ih.expr c) fun t => ?_
        cases t with
        | false => exact hR.pure _
        | true => exact ih.doWhile label b c
  · intro label c es b
    -- what one turn of a `for` loop leaves to do, with less fuel
    have hagain := hR.bind (ih.all es) fun _ => ih.forDo label c es b
    have hrest : ∀ goOn : Bool, R
        (if goOn = true then PatternIR.settle (Turn.after label) (execStmt setting n b) >>=
          afterTurn (evalAll setting n es >>= fun _ => execFor setting n label c es b)
        else Pure.pure ())
        (if goOn = true then PatternIR.settle (Turn.after label) (execStmt setting k b) >>=
          afterTurn (evalAll setting k es >>= fun _ => execFor setting k label c es b)
        else Pure.pure ()) := by
      intro goOn
      cases goOn with
      | false => exact hR.pure _
      | true =>
          refine hR.bind (hbody label b) fun turn => ?_
          cases turn with
          | exit => exact hR.pure _
          | next => exact hagain
    cases c with
    | none => exact hR.bind (hR.pure true) hrest
    | some c => exact hR.cond (ih.expr c) hrest

omit ih

/-- **Evaluation respects the relation**, with as much fuel on the second side
or with more, if computations without fuel do. -/
theorem evaluation (more : Nat)
    (zero : ∀ {α : Type} (c : Run ω α), (more = 0 → c = throw .exhausted) → R (throw .exhausted) c) :
    ∀ n, Evaluation R setting n (n + more)
  | 0 => by
      constructor
      all_goals intros; exact zero _ fun h => by subst h; rfl
  | n + 1 => by
      rw [Nat.add_right_comm]
      exact hR.evaluation_succ (evaluation more zero n)

end Run.Congruence

end PatternIR
