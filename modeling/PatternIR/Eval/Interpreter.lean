/-
  PatternIR.Eval.Interpreter
  ──────────────────────────
  **EVALUATION — trees before or after lowering.**

  Pattern tests are evaluated as they stand, so a program can be run in both
  forms.  All functions recurse on a fuel that every step passes on reduced;
  without any left the computation is `exhausted`, which nothing catches.

    • `evalExpr` — the value of an expression;
    • `execStmt` — the effects of a statement; jumps are interrupts;
    • `callMethod` — one call of a method of the program;
    • `callNamed` — a call by name, from outside.
-/
import PatternIR.Eval.Builtin

namespace PatternIR

variable {ω : Type}

/-! ## §1. Jumps. -/

/-- What a loop does after its body. -/
inductive Turn where
  | next
  | exit
deriving DecidableEq

/-- How a loop under `label` goes on after its body: jumps without a label and
jumps to its label are for it, anything else goes further out. -/
def Turn.after (label : Option String) : Except Stop Unit → Except Stop Turn
  | .ok () => .ok .next
  | .error (.interrupt (.broke target)) =>
    if target = none ∨ target = label then .ok .exit else .error (.interrupt (.broke target))
  | .error (.interrupt (.continued target)) =>
    if target = none ∨ target = label then .ok .next
    else .error (.interrupt (.continued target))
  | .error stop => .error stop

/-- What becomes of a labelled statement that is not a loop: a `break` to its
label ends it. -/
def catchLabel (label : String) : Except Stop Unit → Except Stop Unit
  | .error (.interrupt (.broke (some target))) =>
    if target = label then .ok () else .error (.interrupt (.broke (some target)))
  | result => result

/-- The result of a call, from how the body of the method ended. -/
def callResult (method : String) : Except Stop Unit → Except Stop Value
  | .ok () => .ok .null
  | .error (.interrupt (.returned v)) => .ok v
  | .error (.interrupt (.broke label)) =>
    .error (.interrupt (.fault (.escapedJump label method)))
  | .error (.interrupt (.continued label)) =>
    .error (.interrupt (.fault (.escapedJump label method)))
  | .error stop => .error stop

/-- Run a computation and settle how it ended. -/
def settle {α β : Type} (how : Except Stop α → Except Stop β) (body : Run ω α) : Run ω β :=
  fun m =>
    match body m with
    | .ok a m =>
      match how (.ok a) with
      | .ok b => .ok b m
      | .error e => .error e m
    | .error e m =>
      match how (.error e) with
      | .ok b => .ok b m
      | .error e => .error e m

/-! ## §2. Calls. -/

/-- How many calls can be going on at once. -/
def maxDepth : Nat := 512

/-- The value of a constant. -/
def Literal.value : Literal → Value
  | .bool b => .bool b
  | .int n => .int n
  | .long n => .long n
  | .float x => .float x
  | .double x => .double x
  | .char c => .char c
  | .string s => .str s
  | .null => .null

/-- What a call needs before its body runs: the right number of arguments, a
free level of calls, and a body. -/
def admission (depth : Nat) (m : Method) (args : List Value) : Except Fault Stmt :=
  if args.length ≠ m.params.length then .error (.arityMismatch m.params.length args.length)
  else if maxDepth ≤ depth then .error (.stackOverflow m.name)
  else match m.body with
    | none => .error (.abstractMethod m.name)
    | some body => .ok body

/-- Write the parameters of a call, in order. -/
def bindParams (s : Symbols) : List VarId → List Value → Run ω Unit
  | param :: params, arg :: args => do
    Run.declare s param arg
    bindParams s params args
  | _, _ => return ()

/-- Begin a call.  An argument that does not convert leaves it begun. -/
def enterCall (s : Symbols) (m : Method) (args : List Value) : Run ω Unit := do
  modify fun machine =>
    { machine with depth := machine.depth + 1, env := machine.env.enter }
  bindParams s m.params args

/-- End a call. -/
def leaveCall (m : Machine ω) : Machine ω := { m with depth := m.depth - 1, env := m.env.leave }

/-- Run the body of a method in the call begun for it, and end the call. -/
def bracketCall (method : String) (body : Run ω Unit) : Run ω Value := fun m =>
  match settle (callResult method) body m with
  | .ok v m => .ok v (leaveCall m)
  | .error e m => .error e (leaveCall m)

/-- A call of a native function. -/
def callNative (f : Native ω) (args : List Value) : Run ω Value := fun m =>
  match f args m.host with
  | (.ok v, host) => .ok v { m with host }
  | (.error i, host) => .error (.interrupt i) { m with host }

/-- A call of a function that is not a method of the program: a builtin if
there is one of the name, else a native function. -/
def callOutside (setting : Setting ω) (name : String) (args : List Value) : Run ω Value :=
  match Builtin.function? name args with
  | some run => run
  | none =>
    match setting.native? name with
    | some f => callNative f args
    | none => Run.fail (.undefinedFunction name)

/-- A successful test of a pattern stores the value, converted into the type
of the binding. -/
def matchPattern (setting : Setting ω) (pattern : BindingPattern) (v : Value) : Run ω Value :=
  match setting.program.symbols.binding? pattern.binding with
  | none =>
    Run.fail (.undefinedVariable ("binding #" ++ toString pattern.binding.index))
  | some symbol =>
    -- a pattern without a type matches `null`, which is an instance of nothing
    if pattern.declared.isNone || setting.hierarchy.instanceOf v symbol.ty then do
      let v ← Run.ofExcept (coerce symbol.ty v)
      Run.write (.binding pattern.binding) v .matched
      return .bool true
    else return .bool false

/-! ## §3. Evaluation. -/

mutual
/-- The value of an expression. -/
def evalExpr (setting : Setting ω) : (fuel : Nat) → Expr → Run ω Value
  | 0, _ => throw .exhausted
  | _ + 1, .literal _ v => return v.value
  | _ + 1, .ident i sym => Run.read setting.program.symbols i.id sym
  | n + 1, .unary _ op e => do
    let v ← evalExpr setting n e
    Run.ofExcept (evalUnary op v)
  | n + 1, .binary _ .and l r => do
    if ← Run.truth (← evalExpr setting n l) then
      return .bool (← Run.truth (← evalExpr setting n r))
    else return .bool false
  | n + 1, .binary _ .or l r => do
    if ← Run.truth (← evalExpr setting n l) then return .bool true
    else return .bool (← Run.truth (← evalExpr setting n r))
  | n + 1, .binary i op l r => do
    let v ← evalExpr setting n l
    let w ← evalExpr setting n r
    Run.ofExcept (evalBinary op v w (l.ty.isReference && r.ty.isReference) i.ty)
  | n + 1, .conditional _ c y e => do
    if ← Run.truth (← evalExpr setting n c) then evalExpr setting n y
    else evalExpr setting n e
  | n + 1, .assign _ (.ident i sym) e => do
    let v ← evalExpr setting n e
    -- what is stored is the value of the assignment, too
    let v ← Run.ofExcept (coerce i.ty v)
    Run.write sym v .assigned
    return v
  | _ + 1, .assign _ _ _ => Run.fail (.typeError "assignment target is not a variable")
  | n + 1, .cast _ target e => do
    let v ← evalExpr setting n e
    Run.ofExcept (setting.hierarchy.cast target v)
  | n + 1, .instanceOf _ e target => do
    let v ← evalExpr setting n e
    return .bool (setting.hierarchy.instanceOf v target)
  | n + 1, .typeTest _ e pattern => do
    let v ← evalExpr setting n e
    matchPattern setting pattern v
  | n + 1, .call _ name args => do
    let args ← evalArgs setting n args
    -- a method of the program hides a builtin and a native function of its name
    match setting.program.method? name with
    | some m => callMethod setting n m args
    | none => callOutside setting name args
  | n + 1, .methodCall _ receiver name args => do
    let v ← evalExpr setting n receiver
    let args ← evalArgs setting n args
    Run.ofExcept (Builtin.method v name args)
  | n + 1, .letIn _ defs body => do
    evalDefs setting n defs
    evalExpr setting n body
/-- The values of expressions, in order. -/
def evalArgs (setting : Setting ω) : (fuel : Nat) → List Expr → Run ω (List Value)
  | 0, _ => throw .exhausted
  | _ + 1, [] => return []
  | n + 1, e :: es => do
    let v ← evalExpr setting n e
    let vs ← evalArgs setting n es
    return v :: vs
/-- Define the variables of a let-expression, in order. -/
def evalDefs (setting : Setting ω) : (fuel : Nat) → List (VarId × Expr) → Run ω Unit
  | 0, _ => throw .exhausted
  | _ + 1, [] => return ()
  | n + 1, (var, e) :: ds => do
    let v ← evalExpr setting n e
    Run.declare setting.program.symbols var v
    evalDefs setting n ds
/-- Evaluate expressions for their effects, in order. -/
def evalAll (setting : Setting ω) : (fuel : Nat) → List Expr → Run ω Unit
  | 0, _ => throw .exhausted
  | _ + 1, [] => return ()
  | n + 1, e :: es => do
    let _ ← evalExpr setting n e
    evalAll setting n es
/-- One call of a method. -/
def callMethod (setting : Setting ω) : (fuel : Nat) → Method → List Value → Run ω Value
  | 0, _, _ => throw .exhausted
  | n + 1, m, args => do
    let body ← Run.ofExcept (admission (← get).depth m args)
    -- outside of the bracket: when an argument does not convert, the call is not left
    enterCall setting.program.symbols m args
    bracketCall m.name (execStmt setting n body)
/-- Execute a statement. -/
def execStmt (setting : Setting ω) : (fuel : Nat) → Stmt → Run ω Unit
  | 0, _ => throw .exhausted
  | n + 1, .expr _ e => do
    let _ ← evalExpr setting n e
  | _ + 1, .decl _ _ none => return ()
  | n + 1, .decl _ var (some e) => do
    let v ← evalExpr setting n e
    Run.declare setting.program.symbols var v
  | n + 1, .block _ ss => execAll setting n ss
  | n + 1, .ifElse _ c y no => do
    if ← Run.truth (← evalExpr setting n c) then execStmt setting n y
    else match no with
      | some s => execStmt setting n s
      | none => return ()
  | n + 1, .whileDo _ c b => execWhile setting n none c b
  | n + 1, .doWhile _ b c => execDo setting n none b c
  | n + 1, .forDo _ ss c es b => do
    execAll setting n ss
    execFor setting n none c es b
  -- a loop takes the label itself, for `continue`; other statements only see `break`
  | n + 1, .labeled _ label (.whileDo _ c b) => execWhile setting n (some label) c b
  | n + 1, .labeled _ label (.doWhile _ b c) => execDo setting n (some label) b c
  | n + 1, .labeled _ label (.forDo _ ss c es b) => do
    execAll setting n ss
    execFor setting n (some label) c es b
  | n + 1, .labeled _ label s => settle (catchLabel label) (execStmt setting n s)
  | _ + 1, .ret _ none => Run.interrupt (.returned .null)
  | n + 1, .ret _ (some e) => do
    let v ← evalExpr setting n e
    Run.interrupt (.returned v)
  | _ + 1, .brk _ label => Run.interrupt (.broke label)
  | _ + 1, .cont _ label => Run.interrupt (.continued label)
/-- Execute statements in order. -/
def execAll (setting : Setting ω) : (fuel : Nat) → List Stmt → Run ω Unit
  | 0, _ => throw .exhausted
  | _ + 1, [] => return ()
  | n + 1, s :: ss => do
    execStmt setting n s
    execAll setting n ss
/-- A `while` loop from its test on. -/
def execWhile (setting : Setting ω) : (fuel : Nat) → Option String → Expr → Stmt → Run ω Unit
  | 0, _, _, _ => throw .exhausted
  | n + 1, label, c, b => do
    if ← Run.truth (← evalExpr setting n c) then
      match ← settle (Turn.after label) (execStmt setting n b) with
      | .exit => return ()
      | .next => execWhile setting n label c b
    else return ()
/-- A `do` loop from its body on. -/
def execDo (setting : Setting ω) : (fuel : Nat) → Option String → Stmt → Expr → Run ω Unit
  | 0, _, _, _ => throw .exhausted
  | n + 1, label, b, c => do
    match ← settle (Turn.after label) (execStmt setting n b) with
    | .exit => return ()
    | .next =>
      if ← Run.truth (← evalExpr setting n c) then execDo setting n label b c
      else return ()
/-- A `for` loop from its test on. -/
def execFor (setting : Setting ω) :
    (fuel : Nat) → Option String → Option Expr → List Expr → Stmt → Run ω Unit
  | 0, _, _, _, _ => throw .exhausted
  | n + 1, label, c, es, b => do
    let goOn ← match c with
      | some c => Run.truth (← evalExpr setting n c)
      | none => pure true
    if goOn then
      match ← settle (Turn.after label) (execStmt setting n b) with
      | .exit => return ()
      | .next =>
        -- also after a `continue`
        evalAll setting n es
        execFor setting n label c es b
    else return ()
end

/-! ## §4. Calls from outside. -/

/-- Call a method by name. -/
def callNamed (setting : Setting ω) (fuel : Nat) (name : String) (args : List Value) :
    Run ω Value :=
  match setting.program.method? name with
  | some m => callMethod setting fuel m args
  | none => Run.fail (.undefinedFunction name)

end PatternIR
