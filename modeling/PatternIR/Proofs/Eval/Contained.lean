/-
  PatternIR.Proofs.Eval.Contained
  ───────────────────────────────
  **NO JUMP ESCAPES.**

  Only the end of a call reports that a jump escaped, and only if the body of
  the method ended in one.  So a program in which no body can end in a jump
  never reports it:

      body of m     no `break` or `continue` leaves it
      call of m     a value, or a fault from elsewhere
      any run       made of such calls, and of steps that report other faults

    • `Fault.NoEscape` — a fault other than the report of an escape;
    • `Run.Confined` — a computation never ends in that report;
    • `Program.KeepsJumps` — no body of a method ends in a jump;
    • `confining` — then all evaluation is confined;
    • `callNamed_contained` — and no call ends in a jump or its report.
-/
import PatternIR.Proofs.Eval.Clean
import PatternIR.Proofs.Flow.Endings

namespace PatternIR

variable {ω α β : Type}

/-! ## §1. Faults. -/

/-- The fault does not report an escaped jump. -/
def Fault.NoEscape (f : Fault) : Prop := ∀ label method, f ≠ .escapedJump label method

/-- The report of an escape begins with the jump. -/
theorem Fault.NoEscape.typeError {text : String} (h : text.toList.head? ≠ some 'j') :
    (Fault.typeError text).NoEscape := by
  intro label method heq
  injection heq with heq
  refine h ?_
  rw [heq]
  simp

/-- Faults of another kind do not have words of their own. -/
theorem Fault.NoEscape.other {f : Fault} (h : ∀ text, f ≠ .typeError text) : f.NoEscape :=
  fun _ _ => h _

/-- A computation without effects reports no escape. -/
def Unescaped (x : Except Fault α) : Prop := ∀ f, x = .error f → f.NoEscape

namespace Unescaped

/-- A result is no report. -/
theorem ok (a : α) : Unescaped (.ok a) := fun _ h => nomatch h

/-- A fault that reports no escape. -/
theorem error {f : Fault} (h : f.NoEscape) : Unescaped (.error f : Except Fault α) := by
  intro g hg
  injection hg with hg
  rwa [← hg]

theorem bind {x : Except Fault α} {f : α → Except Fault β} (hx : Unescaped x)
    (hf : ∀ a, Unescaped (f a)) : Unescaped (x >>= f) := by
  cases x with
  | ok a => exact hf a
  | error e => exact error (hx e rfl)

end Unescaped

/-- A conversion fails by a class cast, if at all. -/
theorem unescaped_coerce (target : Ty) (v : Value) : Unescaped (coerce target v) := by
  unfold coerce
  split
  · split
    · exact .ok _
    · split
      · exact .ok _
      · exact .error (.other (by simp [Fault.badCast]))
  · exact .ok _

/-- So does a cast. -/
theorem Hierarchy.unescaped_cast (h : Hierarchy) (target : Ty) (v : Value) :
    Unescaped (h.cast target v) := by
  unfold Hierarchy.cast
  split
  · exact unescaped_coerce target v
  · split
    · exact .ok _
    · exact .error (.other (by simp [Fault.badCast]))

/-- Promotion complains of operands that are no numbers. -/
theorem unescaped_promote (op : BinOp) (l r : Value) : Unescaped (promote op l r) := by
  unfold promote
  split
  · exact .ok _
  · exact .error (.typeError (by simp))

/-- Integers fail by a zero divisor or for want of an operator. -/
theorem Number.unescaped_integral {γ : Type} [DecidableEq γ] [Add γ] [Sub γ] [Mul γ] [Div γ] [Mod γ]
    (zero : γ) (op : BinOp) (x y : γ) (value : γ → Value) :
    Unescaped ((Number.integral zero op x y).map value) := by
  unfold Number.integral
  split
  · exact .ok _
  · exact .ok _
  · exact .ok _
  · split
    · exact .error (.other (by simp))
    · exact .ok _
  · split
    · exact .error (.other (by simp))
    · exact .ok _

/-- So do numbers of any kind. -/
theorem Number.unescaped_arith (op : BinOp) (a b : Number) : Unescaped (Number.arith op a b) := by
  unfold Number.arith
  split
  · exact Number.unescaped_integral _ _ _ _ _
  · exact Number.unescaped_integral _ _ _ _ _
  · exact .ok _
  · exact .ok _
  · exact .error (.typeError (by simp))

/-- An operator between two values reports no escape, whatever the values are. -/
theorem unescaped_evalBinary (op : BinOp) (l r : Value) (byReference : Bool) (result : Ty) :
    Unescaped (evalBinary op l r byReference result) := by
  have harith : ∀ op, Unescaped (promote op l r >>= fun ab => Number.arith op ab.1 ab.2) :=
    fun op => (unescaped_promote op l r).bind fun _ => Number.unescaped_arith op _ _
  have horder : ∀ (op : BinOp) (f : Number → Number → Value),
      Unescaped (promote op l r >>= fun ab => pure (f ab.1 ab.2)) :=
    fun op f => (unescaped_promote op l r).bind fun _ => .ok _
  unfold evalBinary
  split
  · split
    · exact .ok _
    · exact harith .add
  · exact harith .sub
  · exact harith .mul
  · exact harith .div
  · exact harith .rem
  · exact .ok _
  · exact .ok _
  · exact horder .lt fun a b => .bool (a.lt b)
  · exact horder .gt fun a b => .bool (b.lt a)
  · exact horder .le fun a b => .bool (a.le b)
  · exact horder .ge fun a b => .bool (b.le a)
  · split
    · exact .ok _
    · exact .error (.typeError (by simp))
  · split
    · exact .ok _
    · exact .error (.typeError (by simp))

/-- Nor does one before a value. -/
theorem unescaped_evalUnary (op : UnOp) (v : Value) : Unescaped (evalUnary op v) := by
  unfold evalUnary
  split
  all_goals first | exact .ok _ | exact .error (.typeError (by simp))

/-- An index outside the text is a fault of its own. -/
theorem Builtin.unescaped_charAt (s : String) (i : Int32) : Unescaped (Builtin.charAt s i) := by
  unfold Builtin.charAt
  split
  · exact .error (.other (by simp [Builtin.badIndex]))
  · split
    · exact .ok _
    · exact .error (.other (by simp [Builtin.badIndex]))

/-- No built-in method reports an escape. -/
theorem Builtin.unescaped_method (receiver : Value) (name : String) (args : List Value) :
    Unescaped (Builtin.method receiver name args) := by
  unfold Builtin.method
  split
  all_goals first
    | exact .ok _
    | exact Builtin.unescaped_charAt _ _
    | exact .error (.other (by simp))

/-- A call is refused for its depth, its arguments or its missing body. -/
theorem unescaped_admission (depth : Nat) (f : Method) (args : List Value) :
    Unescaped (admission depth f args) := by
  unfold admission
  split
  · exact .error (.other (by simp))
  · split
    · exact .error (.other (by simp))
    · split
      · exact .error (.other (by simp))
      · exact .ok _

/-! ## §2. Confined computations. -/

/-- The computation does not end in the report of an escape. -/
structure Run.Confined (c : Run ω α) : Prop where
  fault : ∀ {m m' : Machine ω} {f : Fault},
    c m = .error (.interrupt (.fault f)) m' → f.NoEscape

/-- The native functions never fail. -/
def Setting.Total (setting : Setting ω) : Prop :=
  ∀ name f, setting.native? name = some f → ∀ args host, ∃ v, (f args host).1 = .ok v

/-- A native function that never fails raises nothing either. -/
theorem Setting.Total.quiet {setting : Setting ω} (total : setting.Total) : setting.Quiet := by
  intro name f hf args host i hi
  obtain ⟨v, hv⟩ := total name f hf args host
  rw [hi] at hv
  injection hv

namespace Run.Confined

theorem pure (a : α) : Confined (Pure.pure a : Run ω α) :=
  ⟨fun h => by injection h⟩

/-- Running out of fuel is no fault. -/
theorem exhausted : Confined (throw .exhausted : Run ω α) := by
  constructor
  intro m m' f h
  injection h with h
  injection h

/-- Jumps are no faults. -/
theorem jump {i : Interrupt} (hi : i.isJump = true) : Confined (Run.interrupt i : Run ω α) := by
  constructor
  intro m m' f h
  injection h with h
  injection h with h
  subst h
  exact absurd hi (by simp [Interrupt.isJump])

/-- A value, or a fault that reports no escape. -/
theorem ofExcept {x : Except Fault α} (hx : Unescaped x) :
    Confined (Run.ofExcept x : Run ω α) := by
  constructor
  intro m m' f h
  cases x with
  | ok a => injection h
  | error g =>
      injection h with h
      injection h with h
      injection h with h
      exact hx f (by rw [h])

/-- A fault that reports no escape. -/
theorem fail {f : Fault} (h : f.NoEscape) : Confined (Run.fail f : Run ω α) := ofExcept (.error h)

theorem bind {c : Run ω α} {f : α → Run ω β} (hc : Confined c) (hf : ∀ a, Confined (f a)) :
    Confined (c >>= f) := by
  constructor
  intro m m' g h
  rw [bind_apply] at h
  split at h
  next a m₁ _ => exact (hf a).fault h
  next e m₁ h₁ =>
    injection h with he hm
    subst he hm
    exact hc.fault h₁

/-- Settling that lets errors pass reports nothing itself. -/
theorem settle {how : Except Stop α → Except Stop β} {c : Run ω α} (hc : Confined c)
    (hhow : ∀ {r stop}, how r = .error stop → r = .error stop) : Confined (settle how c) := by
  constructor
  intro m m' f h
  rcases settle_eq_error h with ⟨a, -, hstop⟩ | ⟨e, h₁, hstop⟩
  · exact nomatch hhow hstop
  · injection hhow hstop with hstop
    subst hstop
    exact hc.fault h₁

/-- A test complains of values that are no truth values. -/
theorem truth (v : Value) : Confined (Run.truth v : Run ω Bool) := by
  unfold Run.truth
  split
  · exact pure _
  · exact fail (.typeError (by simp))

/-- A condition, and what either answer leads to. -/
theorem cond {c : Run ω Value} {f : Bool → Run ω α} (hc : Confined c) (hf : ∀ b, Confined (f b)) :
    Confined (c >>= fun v => Run.truth v >>= f) :=
  bind hc fun v => bind (truth v) hf

/-- A write never fails. -/
theorem write (sym : Sym) (v : Value) (origin : Origin) :
    Confined (Run.write sym v origin : Run ω Unit) :=
  ⟨fun h => by injection h⟩

/-- Printing never fails. -/
theorem print (text : String) : Confined (Run.print text : Run ω Unit) :=
  ⟨fun h => by injection h⟩

/-- A read complains of what it does not find. -/
theorem read (s : Symbols) (node : NodeId) (sym : Sym) :
    Confined (Run.read s node sym : Run ω Value) := by
  constructor
  intro m m' f h
  unfold Run.read at h
  split at h
  · injection h
  · injection h with h
    injection h with h
    injection h with h
    subst h
    exact .other (by simp)

/-- A declaration fails with its conversion. -/
theorem declare (s : Symbols) (var : VarId) (v : Value) :
    Confined (Run.declare s var v : Run ω Unit) := by
  unfold Run.declare
  split
  · exact bind (ofExcept (unescaped_coerce _ v)) fun v => write _ v _
  · exact bind (pure _) fun v => write _ v _

theorem bindParams (s : Symbols) : ∀ (params : List VarId) (args : List Value),
    Confined (PatternIR.bindParams s params args : Run ω Unit)
  | [], _ => pure _
  | _ :: _, [] => pure _
  | param :: params, arg :: args => bind (declare s param arg) fun _ => bindParams s params args

/-- A match fails with its conversion. -/
theorem matchPattern (setting : Setting ω) (pattern : BindingPattern) (v : Value) :
    Confined (PatternIR.matchPattern setting pattern v) := by
  unfold PatternIR.matchPattern
  split
  · exact fail (.other (by simp))
  · split
    · exact bind (ofExcept (unescaped_coerce _ v)) fun v => bind (write _ v _) fun _ => pure _
    · exact pure _

/-- A call from outside goes to a native function that never fails, or is refused. -/
theorem callOutside {setting : Setting ω} (total : setting.Total) (name : String)
    (args : List Value) : Confined (PatternIR.callOutside setting name args) := by
  have hprint : ∀ text, Confined (Run.print text >>= fun _ => Pure.pure .null : Run ω Value) :=
    fun text => bind (print text) fun _ => pure _
  unfold PatternIR.callOutside Builtin.function?
  split
  next run hrun =>
    split at hrun
    · injection hrun with hrun
      subst hrun
      exact hprint _
    · split at hrun
      · injection hrun with hrun
        subst hrun
        exact hprint _
      · exact nomatch hrun
  next =>
    split
    next f hf =>
      constructor
      intro m m' g h
      -- the native function has a value, so the call has no error to pass on
      obtain ⟨v, hv⟩ := total name f hf args m.host
      unfold callNative at h
      split at h
      next => injection h
      next i host hi =>
        rw [hi] at hv
        injection hv
    next => exact fail (.other (by simp))

/-- A call reports an escape only if a jump leaves the body. -/
theorem bracketCall {P : Ending → Bool} (method : String) {body : Run ω Unit} (hbody : Confined body)
    (hends : body.EndsIn P) (hdone : ∀ e, P e = true → e = .done) :
    Confined (PatternIR.bracketCall method body) := by
  constructor
  intro m m' f h
  unfold PatternIR.bracketCall at h
  split at h
  next => injection h
  next e m₁ h₁ =>
    injection h with he hm
    subst he hm
    rcases settle_eq_error h₁ with ⟨a, -, hstop⟩ | ⟨stop, h₂, hstop⟩
    · exact nomatch hstop
    · cases stop with
      | exhausted => exact nomatch hstop
      | interrupt i =>
          cases i with
          | fault g =>
              injection hstop with hstop
              injection hstop with hstop
              injection hstop with hstop
              subst hstop
              exact hbody.fault h₂
          | returned v => exact nomatch hstop
          | broke target | continued target =>
              -- these would become the report, but the body does not end so
              exact absurd (hdone _ (hends.jump h₂ rfl)) (by simp)

end Run.Confined

/-! ## §3. Evaluation. -/

/-- No body of a method ends in a jump. -/
def Program.KeepsJumps (p : Program) : Prop :=
  ∀ m ∈ p.methods, ∀ body ∈ m.body, ∀ e, Flow.ends none e body = true → e = .done

/-- With the given fuel, all evaluation is confined. -/
structure Confining (setting : Setting ω) (n : Nat) : Prop where
  expr : ∀ e, Run.Confined (evalExpr setting n e)
  args : ∀ es, Run.Confined (evalArgs setting n es)
  defs : ∀ ds, Run.Confined (evalDefs setting n ds)
  all : ∀ es, Run.Confined (evalAll setting n es)
  call : ∀ {name m}, setting.program.method? name = some m → ∀ args,
    Run.Confined (callMethod setting n m args)
  stmt : ∀ s, Run.Confined (execStmt setting n s)
  stmts : ∀ ss, Run.Confined (execAll setting n ss)
  whileDo : ∀ label c b, Run.Confined (execWhile setting n label c b)
  doWhile : ∀ label b c, Run.Confined (execDo setting n label b c)
  forDo : ∀ label c es b, Run.Confined (execFor setting n label c es b)

namespace Confining

variable {setting : Setting ω} {n : Nat} (total : setting.Total) (ih : Confining setting n)

include ih

/-- The body of a loop, settled for what the loop does next. -/
theorem turn (label : Option String) (b : Stmt) {again : Run ω Unit} (hagain : Run.Confined again) :
    Run.Confined (settle (Turn.after label) (execStmt setting n b) >>= afterTurn again) := by
  refine .bind ((ih.stmt b).settle fun h => (Turn.after_eq_error h).1) fun turn => ?_
  cases turn with
  | exit => exact .pure _
  | next => exact hagain

include total

/-- Expressions are confined, one step further up. -/
theorem evalExpr_succ : ∀ e, Run.Confined (evalExpr setting (n + 1) e)
  | .literal _ v => .pure _
  | .ident i sym => .read _ _ _
  | .unary _ op e => .bind (ih.expr e) fun v => .ofExcept (unescaped_evalUnary op v)
  | .binary i op l r => by
      have hstrict : Run.Confined (evalExpr setting n l >>= fun v => evalExpr setting n r >>=
          fun w => Run.ofExcept (evalBinary op v w (l.ty.isReference && r.ty.isReference) i.ty)) :=
        .bind (ih.expr l) fun v => .bind (ih.expr r) fun w =>
          .ofExcept (unescaped_evalBinary op v w _ _)
      have hright : Run.Confined (evalExpr setting n r >>= fun v => Run.truth v >>= fun b =>
          Pure.pure (Value.bool b)) :=
        .cond (ih.expr r) fun b => .pure _
      cases op with
      | and =>
          refine .cond (ih.expr l) fun b => ?_
          cases b with
          | true => exact hright
          | false => exact .pure _
      | or =>
          refine .cond (ih.expr l) fun b => ?_
          cases b with
          | true => exact .pure _
          | false => exact hright
      | _ => exact hstrict
  | .conditional _ c y e => by
      refine .cond (ih.expr c) fun b => ?_
      cases b with
      | true => exact ih.expr y
      | false => exact ih.expr e
  | .assign _ target e => by
      cases target with
      | ident i sym =>
          exact .bind (ih.expr e) fun v => .bind (.ofExcept (unescaped_coerce i.ty v)) fun v =>
            .bind (.write sym v _) fun _ => .pure _
      | _ => exact .fail (.typeError (by simp))
  | .cast _ target e =>
      .bind (ih.expr e) fun v => .ofExcept (setting.hierarchy.unescaped_cast target v)
  | .instanceOf _ e target => .bind (ih.expr e) fun v => .pure _
  | .typeTest _ e pattern => .bind (ih.expr e) fun v => .matchPattern setting pattern v
  | .call _ name args => by
      refine .bind (ih.args args) fun args => ?_
      show Run.Confined (callFunction setting n name args)
      unfold callFunction
      split
      next hm => exact ih.call hm args
      next => exact .callOutside total name args
  | .methodCall _ receiver name args =>
      .bind (ih.expr receiver) fun v => .bind (ih.args args) fun args =>
        .ofExcept (Builtin.unescaped_method v name args)
  | .letIn _ defs body => .bind (ih.defs defs) fun _ => ih.expr body

/-- A call is confined if no jump leaves the bodies. -/
theorem callMethod_succ (keeps : setting.program.KeepsJumps) {name : String} {f : Method}
    (hf : setting.program.method? name = some f) (args : List Value) :
    Run.Confined (callMethod setting (n + 1) f args) := by
  have hmem : f ∈ setting.program.methods := List.mem_of_find?_eq_some hf
  constructor
  intro m m' g h
  -- how deep the calls are decides on admission, so the machine comes first
  have hcall : callBy setting.program.symbols f args (execStmt setting n) m
      = .error (.interrupt (.fault g)) m' := h
  cases hadmit : admission m.depth f args with
  | error e =>
      rw [callBy_error hadmit] at hcall
      exact (Run.Confined.fail (unescaped_admission m.depth f args e hadmit)).fault hcall
  | ok body =>
      rw [callBy_ok hadmit] at hcall
      -- what was admitted is the body of the method, which ends as its text says
      have hbody : body ∈ f.body := body_of_admission hadmit
      have hconfined := (Run.Confined.bindParams (ω := ω) setting.program.symbols f.params args).bind
        fun _ => (ih.stmt body).bracketCall f.name ((endsAsText total.quiet n).stmt body)
          (keeps f hmem body hbody)
      exact hconfined.fault hcall

omit total

/-- Statements are confined, one step further up. -/
theorem execStmt_succ : ∀ s, Run.Confined (execStmt setting (n + 1) s)
  | .expr _ e => .bind (ih.expr e) fun _ => .pure _
  | .decl _ _ none => .pure _
  | .decl _ var (some e) => .bind (ih.expr e) fun v => .declare _ var v
  | .block _ ss => ih.stmts ss
  | .ifElse _ c y no => by
      refine .cond (ih.expr c) fun b => ?_
      cases b with
      | true => exact ih.stmt y
      | false =>
          cases no with
          | some s => exact ih.stmt s
          | none => exact .pure _
  | .whileDo _ c b => ih.whileDo none c b
  | .doWhile _ b c => ih.doWhile none b c
  | .forDo _ ss c es b => .bind (ih.stmts ss) fun _ => ih.forDo none c es b
  | .labeled _ label s => by
      -- a label catches jumps, which are no faults; a loop is given its label
      have hcatch : Run.Confined (settle (catchLabel label) (execStmt setting n s)) :=
        (ih.stmt s).settle fun h => (catchLabel_eq_error h).1
      cases s with
      | whileDo _ c b => exact ih.whileDo (some label) c b
      | doWhile _ b c => exact ih.doWhile (some label) b c
      | forDo _ ss c es b => exact .bind (ih.stmts ss) fun _ => ih.forDo (some label) c es b
      | _ => exact hcatch
  | .ret _ none => .jump rfl
  | .ret _ (some e) => .bind (ih.expr e) fun v => .jump rfl
  | .brk _ label => .jump rfl
  | .cont _ label => .jump rfl

/-- A `for` is confined, one step further up. -/
theorem execFor_succ (label : Option String) (c : Option Expr) (es : List Expr) (b : Stmt) :
    Run.Confined (execFor setting (n + 1) label c es b) := by
  have hround := ih.turn label b (.bind (ih.all es) fun _ => ih.forDo label c es b)
  cases c with
  | none => exact hround
  | some c =>
      refine .cond (ih.expr c) fun goOn => ?_
      cases goOn with
      | true => exact hround
      | false => exact .pure _

end Confining

/-- **All evaluation is confined** in a program in which no body of a method
ends in a jump, with native functions that never fail. -/
theorem confining {setting : Setting ω} (total : setting.Total)
    (keeps : setting.program.KeepsJumps) : ∀ n, Confining setting n
  | 0 => by
      constructor
      all_goals intros; exact .exhausted
  | n + 1 => by
      have ih := confining total keeps n
      refine ⟨ih.evalExpr_succ total, ?_, ?_, ?_, ih.callMethod_succ total keeps,
        ih.execStmt_succ, ?_, ?_, ?_, ih.execFor_succ⟩
      · intro es
        cases es with
        | nil => exact .pure _
        | cons e es => exact .bind (ih.expr e) fun v => .bind (ih.args es) fun vs => .pure _
      · intro ds
        cases ds with
        | nil => exact .pure _
        | cons d ds =>
            exact .bind (ih.expr d.2) fun v => .bind (.declare _ d.1 v) fun _ => ih.defs ds
      · intro es
        cases es with
        | nil => exact .pure _
        | cons e es => exact .bind (ih.expr e) fun _ => ih.all es
      · intro ss
        cases ss with
        | nil => exact .pure _
        | cons s ss => exact .bind (ih.stmt s) fun _ => ih.stmts ss
      · intro label c b
        refine .cond (ih.expr c) fun goOn => ?_
        cases goOn with
        | true => exact ih.turn label b (ih.whileDo label c b)
        | false => exact .pure _
      · intro label b c
        -- the condition stands behind the body, and with it the rest of the loop
        have hagain : Run.Confined (evalExpr setting n c >>= fun v => Run.truth v >>= fun goOn =>
            if goOn = true then execDo setting n label b c else Pure.pure ()) := by
          refine .cond (ih.expr c) fun goOn => ?_
          cases goOn with
          | true => exact ih.doWhile label b c
          | false => exact .pure _
        exact ih.turn label b hagain

/-! ## §4. Calls. -/

/-- Neither a jump comes out of the computation nor the report that one escaped. -/
structure Run.Contained (c : Run ω α) : Prop where
  broke : ∀ m m' label, c m ≠ .error (.interrupt (.broke label)) m'
  continued : ∀ m m' label, c m ≠ .error (.interrupt (.continued label)) m'
  escaped : ∀ m m' label method,
    c m ≠ .error (.interrupt (.fault (.escapedJump label method))) m'

/-- A confined computation that does not jump. -/
theorem Run.Confined.contained {c : Run ω α} (hc : Confined c) (hfaults : OnlyFaults c) :
    Contained c where
  broke _ _ _ h := nomatch hfaults.fault h
  continued _ _ _ h := nomatch hfaults.fault h
  escaped _ _ label method h := hc.fault h label method rfl

/-- **No jump comes out of a call**, if no body of a method ends in one. -/
theorem callNamed_contained {setting : Setting ω} (total : setting.Total)
    (keeps : setting.program.KeepsJumps) (fuel : Nat) (name : String) (args : List Value) :
    Run.Contained (callNamed setting fuel name args) := by
  unfold callNamed
  split
  next f hf =>
    exact ((confining total keeps fuel).call hf args).contained (.callMethod setting fuel f args)
  next =>
    have hundefined : Run.Confined (Run.fail (.undefinedFunction name) : Run ω Value) :=
      .fail (.other (by simp))
    exact hundefined.contained (.fail _)

end PatternIR
