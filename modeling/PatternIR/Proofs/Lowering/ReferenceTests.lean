/-
  PatternIR.Proofs.Lowering.ReferenceTests
  ────────────────────────────────────────
  **TYPE TESTS BETWEEN REFERENCE TYPES, before and after lowering.**

  The evaluator decides a pattern by the class of the value.  Lowering decides
  some of them by the type of the operand alone: where that is a subtype of the
  type of the pattern, the test becomes `true`.  The two agree on every value
  that the operand can have, except on `null`, which such a test lets through.

    • `Hierarchy.Admits` — the values that an operand of a type can have;
    • `instanceOf_of_admits` — a match found certain is a match, or `null`;
    • `lowerExpr_typeTest_agrees` — the pattern and its lowered test;
    • `certain_match_takes_null` — where they differ.
-/
import PatternIR.Eval.Script
import PatternIR.Proofs.Hierarchy
import PatternIR.Proofs.Lowering.Known
import PatternIR.Proofs.Lowering.TypeTests

namespace PatternIR

variable {ω : Type}

/-! ## §1. The values of a type. -/

namespace Hierarchy

/-- What an operand of a type can have as a value: `null`, or what is of a class
below the type without its arguments. -/
def Admits (h : Hierarchy) (ty : Ty) (v : Value) : Prop :=
  v = .null ∨ ∃ t, v.runtimeType? = some t ∧ h.isSubtype t ty.erasure = true

/-- The type that a pattern is tested against is erased for good. -/
theorem erasure_target (ty : Ty) : ty.erasure.boxed.erasure = ty.erasure.boxed := by
  cases ty with
  | array elem =>
      show Ty.array elem.erasure.erasure = Ty.array elem.erasure
      rw [Ty.erasure_erasure]
  | _ => rfl

/-- What is of a class below the type of an operand is an instance of every type
that the operand is a subtype of. -/
theorem instanceOf_of_below {h : Hierarchy} (hroot : h.supers "Object" = []) {operandTy ty t : Ty} {v : Value}
    (hsub : h.isSubtype operandTy ty.erasure.boxed = true) (ht : v.runtimeType? = some t)
    (hbelow : h.isSubtype t operandTy.erasure = true) : h.instanceOf v ty = true := by
  have herased : h.isSubtype operandTy.erasure ty.erasure.boxed = true := by
    have := isSubtype_erasure hsub
    rwa [erasure_target] at this
  unfold instanceOf
  rw [ht]
  exact isSubtype_trans hroot hbelow herased

/-- **A certain match is a match**: a value of a subtype of the type of the
pattern is an instance of it, unless it is `null`. -/
theorem instanceOf_of_admits {h : Hierarchy} (hroot : h.supers "Object" = []) {operandTy ty : Ty}
    (hsub : h.isSubtype operandTy ty.erasure.boxed = true) {v : Value} (hv : h.Admits operandTy v) :
    v.isNull = true ∨ h.instanceOf v ty = true := by
  rcases hv with rfl | ⟨t, ht, hbelow⟩
  · exact .inl rfl
  · exact .inr (instanceOf_of_below hroot hsub ht hbelow)

end Hierarchy

namespace Lowering

open Run (Ends)

/-! ## §2. A pattern, evaluated. -/

/-- The evaluation of a pattern, from the value of its operand. -/
theorem ends_typeTest {setting : Setting ω} {i : ExprInfo} {e : Expr} {pattern : BindingPattern}
    {v : Value} {r : Except Interrupt Value} {m m₁ m₂ : Machine ω}
    (he : Ends (fun k => evalExpr setting k e) m (.ok v) m₁)
    (hmatch : matchPattern setting pattern v m₁ = Run.ended r m₂) :
    Ends (fun k => evalExpr setting k (.typeTest i e pattern)) m r m₂ :=
  (Ends.bind (f := fun v _ => matchPattern setting pattern v) he (.of_eq fun _ => hmatch)).step rfl
    fun _ => rfl

/-- A let-expression of one variable, from the value of that. -/
theorem ends_letIn {setting : Setting ω} {i : ExprInfo} {x : VarId} {e body : Expr} {v : Value}
    {r : Except Interrupt Value} {m m₁ m₂ : Machine ω} (hx : Takes setting x v)
    (he : Ends (fun k => evalExpr setting k e) m (.ok v) m₁)
    (hbody : Ends (fun k => evalExpr setting k body) (m₁.written (.var x) v .declared) r m₂) :
    Ends (fun k => evalExpr setting k (.letIn i [(x, e)] body)) m r m₂ := by
  have hlet : Ends (fun k => evalExpr setting (k + 1) (.letIn i [(x, e)] body)) m r m₂ :=
    (Ends.bind (f := afterTemp setting x body) he (ends_afterTemp hx hbody)).step rfl
      (evalExpr_letTemp setting i x e body)
  exact hlet.step rfl fun _ => rfl

/-! ## §3. The pattern and its lowered test. -/

/-- A pattern whose binding has storage in a state. -/
structure Stored (p : Pass) (pattern : BindingPattern) (symbol : BindingSymbol) (x : VarId)
    (xs : VarSymbol) : Prop where
  known : p.symbols.binding? pattern.binding = some symbol
  stored : p.stack.resolve p.symbols pattern.binding = some x
  var : p.symbols.var? x = some xs

/-- A pattern over references whose binding has storage in a state. -/
structure ReferenceTest (p : Pass) (operandTy : Ty) (pattern : BindingPattern) (symbol : BindingSymbol)
    (x : VarId) : Prop where
  declared : pattern.declared.isSome = true
  operand : operandTy.isReference = true
  known : p.symbols.binding? pattern.binding = some symbol
  binding : symbol.ty.isReference = true
  stored : p.stack.resolve p.symbols pattern.binding = some x
  storage : ∃ xs, p.symbols.var? x = some xs ∧ xs.ty.isReference = true

/-- A setting for the pattern and one for its lowered test, as `q` is when that
has been made: the first has the binding, the second the variables. -/
structure Beside (rules : Rules) (q : Pass) (pattern : BindingPattern)
    (setting setting' : Setting ω) : Prop where
  hierarchy : setting.hierarchy = rules.hierarchy
  hierarchy' : setting'.hierarchy = rules.hierarchy
  binding : (setting.program.symbols.binding? pattern.binding).map (·.ty)
    = (q.symbols.binding? pattern.binding).map (·.ty)
  vars : ∀ {x : VarId} {xs : VarSymbol}, q.symbols.var? x = some xs →
    setting'.program.symbols.var? x = some xs

section

variable {rules : Rules} {p q : Pass} {operandTy : Ty} {pattern : BindingPattern} {symbol : BindingSymbol}
  {x : VarId} {xs : VarSymbol}

/-- The storage of the pattern is where the test stores, and is not the temporary. -/
theorem Stored.storageOf (h : Stored p pattern symbol x xs) (operandTy : Ty) :
    Lowering.storageOf p.stack (addTemp p.symbols symbol operandTy) pattern.binding
        = some (x, xs.ty.erasure)
      ∧ (⟨p.symbols.vars.size⟩ : VarId) ≠ x := by
  have hresolve : p.stack.resolve (addTemp p.symbols symbol operandTy) pattern.binding = some x := h.stored
  have hvar : (addTemp p.symbols symbol operandTy).var? x = some xs := Symbols.var?_addVar h.var
  constructor
  · unfold Lowering.storageOf
    rw [hresolve, Option.bind_some, hvar]
    rfl
  · rintro rfl
    have hlt := (Array.getElem?_eq_some_iff.mp h.var).1
    exact absurd hlt (Nat.lt_irrefl _)

/-- A pattern with storage can be lowered. -/
theorem Stored.lowers (h : Stored p pattern symbol x xs) (rules : Rules) (operandTy : Ty)
    (operand : Expr) (span : Span) :
    ∃ lowered q, lowerTest rules operandTy operand pattern span p = .ok lowered q := by
  refine lowerTest_ok rules (fun var hvar => ?_) (Symbols.has_iff.mpr ⟨symbol, h.known⟩) operandTy
    operand span
  rw [h.stored] at hvar
  injection hvar with hvar
  exact ⟨xs, hvar ▸ h.var⟩

/-- Lowering the pattern leaves its binding in the table. -/
theorem Stored.known_after (h : Stored p pattern symbol x xs) {operandTy : Ty} {operand lowered : Expr}
    {span : Span} (hlower : lowerTest rules operandTy operand pattern span p = .ok lowered q) :
    q.symbols.binding? pattern.binding = some symbol := by
  obtain ⟨_, _, _, -, -, -, -, rfl⟩ := lowerTest_eq_ok hlower
  exact h.known

/-- The temporary takes what the operand can have. -/
theorem takes_temp {setting' : Setting ω} {v : Value} (hv : coerce (tempTy operandTy) v = .ok v)
    (hvars : ∀ {x : VarId} {xs : VarSymbol}, (addTemp p.symbols symbol operandTy).var? x = some xs →
      setting'.program.symbols.var? x = some xs) : Takes setting' ⟨p.symbols.vars.size⟩ v := by
  have hvar : (addTemp p.symbols symbol operandTy).var? ⟨p.symbols.vars.size⟩
      = some ⟨⟨p.symbols.vars.size⟩, symbol.name ++ "$temp", tempTy operandTy, symbol.owner, true⟩ :=
    Array.getElem?_push_size
  intro sym hsym
  rw [hvars hvar] at hsym
  injection hsym with hsym
  rw [← hsym]
  exact hv

variable {setting setting' : Setting ω} {e operand : Expr} {i : ExprInfo} {v : Value} {m m₁ : Machine ω}

/-- The binding of the pattern has the type it has in the state. -/
theorem Beside.typed (beside : Beside rules q pattern setting setting')
    (hsymbol : q.symbols.binding? pattern.binding = some symbol) :
    ∃ sym, setting.program.symbols.binding? pattern.binding = some sym ∧ sym.ty = symbol.ty := by
  have hbinding := beside.binding
  rw [hsymbol] at hbinding
  exact Option.map_eq_some_iff.mp hbinding

/-- The pattern: the binding has what matches, if that belongs to its type
without a conversion. -/
theorem Beside.binds (beside : Beside rules q pattern setting setting')
    (hsymbol : q.symbols.binding? pattern.binding = some symbol)
    (hdeclared : pattern.declared.isSome = true)
    (hv : rules.hierarchy.instanceOf v symbol.ty = true → coerce symbol.ty v = .ok v)
    (he : Ends (fun k => evalExpr setting k e) m (.ok v) m₁) :
    ∃ m₂, Ends (fun k => evalExpr setting k (.typeTest i e pattern)) m
        (.ok (.bool (rules.hierarchy.instanceOf v symbol.ty))) m₂
      ∧ (rules.hierarchy.instanceOf v symbol.ty = true →
          (m₂.env.read? setting.program.symbols (.binding pattern.binding)).map (·.value) = some v) := by
  obtain ⟨sym, hsym, hsymTy⟩ := beside.typed hsymbol
  rw [← beside.hierarchy, ← hsymTy] at hv ⊢
  have hmatch := matchPattern_declared hsym hdeclared hv m₁
  cases hinst : setting.hierarchy.instanceOf v sym.ty with
  | false =>
      rw [hinst] at hmatch
      exact ⟨m₁, ends_typeTest he hmatch, fun hfalse => Bool.noConfusion hfalse⟩
  | true =>
      rw [hinst] at hmatch
      refine ⟨_, ends_typeTest he hmatch, fun _ => ?_⟩
      have hself := m₁.written_get?_self (.binding pattern.binding) v .matched
      show Option.map _ (Environment.getBinding? _ _ _) = _
      unfold Environment.getBinding?
      rw [hself]
      rfl

/-- The pattern of a reference type: the binding has what matches. -/
theorem Beside.matches (beside : Beside rules q pattern setting setting')
    (hsymbol : q.symbols.binding? pattern.binding = some symbol)
    (hdeclared : pattern.declared.isSome = true) (hty : symbol.ty.isReference = true)
    (he : Ends (fun k => evalExpr setting k e) m (.ok v) m₁) :
    ∃ m₂, Ends (fun k => evalExpr setting k (.typeTest i e pattern)) m
        (.ok (.bool (rules.hierarchy.instanceOf v symbol.ty))) m₂
      ∧ (rules.hierarchy.instanceOf v symbol.ty = true →
          (m₂.env.read? setting.program.symbols (.binding pattern.binding)).map (·.value) = some v) :=
  beside.binds hsymbol hdeclared (fun _ => coerce_eq (Ty.not_isPrimitive hty) v) he

/-- A match that is certain for the type of the operand is a match, or `null`. -/
theorem ReferenceTest.sound (h : ReferenceTest p operandTy pattern symbol x)
    (hroot : rules.hierarchy.supers "Object" = []) (hv : rules.hierarchy.Admits operandTy v)
    (hcertain : certain rules operandTy pattern symbol.ty.erasure.boxed = true) :
    v.isNull = true ∨ rules.hierarchy.instanceOf v symbol.ty = true := by
  have hsub : rules.hierarchy.isSubtype operandTy symbol.ty.erasure.boxed = true := by
    have hdeclared := h.declared
    cases hd : pattern.declared with
    | none => simp [hd] at hdeclared
    | some _ =>
        simp only [certain, hd, Ty.not_isPrimitive h.operand, Option.isNone_some, Bool.false_or,
          Bool.and_eq_true] at hcertain
        exact hcertain.2
  exact Hierarchy.instanceOf_of_admits hroot hsub hv

/-- **A lowered test, evaluated**: it holds if the match is certain or the value
is of the class, and the storage has what it lets through. -/
theorem Stored.passes (h : Stored p pattern symbol x xs) (hty : symbol.ty ≠ .void) {span : Span}
    {lowered : Expr} (hlower : lowerTest rules operandTy operand pattern span p = .ok lowered q)
    (hhierarchy : setting'.hierarchy = rules.hierarchy)
    (hvars : ∀ {y : VarId} {ys : VarSymbol}, q.symbols.var? y = some ys →
      setting'.program.symbols.var? y = some ys)
    (hv : coerce (tempTy operandTy) v = .ok v)
    (hkept : (certain rules operandTy pattern symbol.ty.erasure.boxed
      || rules.hierarchy.instanceOf v symbol.ty) = true →
        KeptIn x xs.ty.erasure ⟨p.symbols.vars.size⟩ v)
    (hsound : certain rules operandTy pattern symbol.ty.erasure.boxed = true →
      v.isNull = true ∨ rules.hierarchy.instanceOf v symbol.ty = true)
    (he : Ends (fun k => evalExpr setting' k operand) m (.ok v) m₁) :
    ∃ passed m₂, passed = (certain rules operandTy pattern symbol.ty.erasure.boxed
          || rules.hierarchy.instanceOf v symbol.ty)
      ∧ Ends (fun k => evalExpr setting' k lowered) m (.ok (.bool passed)) m₂
      ∧ (passed = true →
          (m₂.env.read? setting'.program.symbols (.var x)).map (·.value) = some v) := by
  obtain ⟨symbol', test, size, hsymbol, htest, -, rfl, rfl⟩ := lowerTest_eq_ok hlower
  rw [h.known] at hsymbol
  injection hsymbol with hsymbol
  subst hsymbol
  rw [(h.storageOf operandTy).1] at htest
  rw [← hhierarchy] at hkept hsound
  have hslot : ∀ y yTy, some (x, xs.ty.erasure) = some (y, yTy) →
      (certain rules operandTy pattern symbol.ty.erasure.boxed
        || setting'.hierarchy.instanceOf v symbol.ty) = true →
      KeptIn y yTy ⟨p.symbols.vars.size⟩ v := by
    intro y yTy hy hmatched
    injection hy with hy
    injection hy with hy hyTy
    subst hy hyTy
    exact hkept hmatched
  obtain ⟨m₂, hends, -, henv⟩ := IsTest.ends setting' htest hty
    (m₁.written_get?_self (.var ⟨p.symbols.vars.size⟩) v .declared) hslot hsound
  rw [hhierarchy] at hends henv
  refine ⟨_, m₂, rfl, ends_letIn (takes_temp hv hvars) he hends, fun hpassed => ?_⟩
  -- the last write of the test is that to the storage
  show (m₂.env.get? (.var x)).map (·.value) = some v
  rw [henv, hpassed]
  simp only [testedEnv, if_true]
  rw [Machine.written_get?_self]
  rfl

/-- The lowered test of a pattern over references. -/
theorem ReferenceTest.passes (h : ReferenceTest p operandTy pattern symbol x)
    (hroot : rules.hierarchy.supers "Object" = []) {span : Span} {lowered : Expr}
    (hlower : lowerTest rules operandTy operand pattern span p = .ok lowered q)
    (beside : Beside rules q pattern setting setting') (hv : rules.hierarchy.Admits operandTy v)
    (he : Ends (fun k => evalExpr setting' k operand) m (.ok v) m₁) :
    ∃ passed m₂, passed = (certain rules operandTy pattern symbol.ty.erasure.boxed
          || rules.hierarchy.instanceOf v symbol.ty)
      ∧ Ends (fun k => evalExpr setting' k lowered) m (.ok (.bool passed)) m₂
      ∧ (passed = true →
          (m₂.env.read? setting'.program.symbols (.var x)).map (·.value) = some v) := by
  obtain ⟨xs, hxs, hxsTy⟩ := h.storage
  have hstored : Stored p pattern symbol x xs := ⟨h.known, h.stored, hxs⟩
  have hslot : KeptIn x xs.ty.erasure ⟨p.symbols.vars.size⟩ v :=
    .of_reference (hstored.storageOf operandTy).2 ((Ty.erasure_isReference xs.ty).trans hxsTy) v
  have htemp : (tempTy operandTy).isPrimitive = false := by
    unfold tempTy
    split
    · rfl
    · exact Ty.not_isPrimitive h.operand
  exact hstored.passes (Ty.ne_void_of_isReference h.binding) hlower beside.hierarchy' beside.vars
    (coerce_eq htemp v) (fun _ => hslot) (h.sound hroot hv) he

/-- **A type test and what it is lowered to agree**, for every value of the
operand except `null` where the match is certain: that the lowered test takes
for a match, and the evaluator does not.  Whenever the pattern matches, the
binding has the value, and whenever the lowered test holds, the storage has it. -/
theorem lowerExpr_typeTest_agrees (hroot : rules.hierarchy.supers "Object" = []) (i : ExprInfo)
    {p₁ : Pass} (hlower : lowerExpr rules e p = .ok operand p₁)
    (htest : ReferenceTest p₁ e.ty pattern symbol x) :
    ∃ lowered q, lowerExpr rules (.typeTest i e pattern) p = .ok lowered q
      ∧ ∀ {ω : Type} (setting setting' : Setting ω), Beside rules q pattern setting setting' →
        ∀ (v : Value) (m m₁ m' m₁' : Machine ω), rules.hierarchy.Admits e.ty v →
          Ends (fun k => evalExpr setting k e) m (.ok v) m₁ →
          Ends (fun k => evalExpr setting' k operand) m' (.ok v) m₁' →
          ∃ (matched passed : Bool) (m₂ m₂' : Machine ω),
            Ends (fun k => evalExpr setting k (.typeTest i e pattern)) m (.ok (.bool matched)) m₂
            ∧ Ends (fun k => evalExpr setting' k lowered) m' (.ok (.bool passed)) m₂'
            ∧ matched = rules.hierarchy.instanceOf v symbol.ty
            ∧ passed = (matched
                || v.isNull && certain rules e.ty pattern symbol.ty.erasure.boxed)
            ∧ (matched = true →
                (m₂.env.read? setting.program.symbols (.binding pattern.binding)).map (·.value) = some v)
            ∧ (passed = true →
                (m₂'.env.read? setting'.program.symbols (.var x)).map (·.value) = some v) := by
  have hvars : ∀ var, p₁.stack.resolve p₁.symbols pattern.binding = some var →
      ∃ xs, p₁.symbols.var? var = some xs := by
    intro var hvar
    rw [htest.stored] at hvar
    injection hvar with hvar
    obtain ⟨xs, hxs, -⟩ := htest.storage
    exact ⟨xs, hvar ▸ hxs⟩
  obtain ⟨lowered, q, hlowered⟩ := lowerTest_ok rules hvars (Symbols.has_iff.mpr ⟨symbol, htest.known⟩)
    e.ty operand i.span
  refine ⟨lowered, q, bind_eq_ok.mpr ⟨operand, p₁, hlower, hlowered⟩, ?_⟩
  intro ω setting setting' beside v m m₁ m' m₁' hv hnative hoperand
  have hknown : q.symbols.binding? pattern.binding = some symbol := by
    obtain ⟨_, _, _, -, -, -, -, rfl⟩ := lowerTest_eq_ok hlowered
    exact htest.known
  obtain ⟨m₂, hmatches, hbound⟩ := beside.matches (i := i) hknown htest.declared htest.binding hnative
  obtain ⟨passed, m₂', hpassed, hpasses, hstored⟩ := htest.passes hroot hlowered beside hv hoperand
  refine ⟨_, passed, m₂, m₂', hmatches, hpasses, rfl, ?_, hbound, hstored⟩
  rw [hpassed]
  have hsound := htest.sound hroot hv
  -- `null` is an instance of nothing
  have hnull : v.isNull = true → rules.hierarchy.instanceOf v symbol.ty = false := by
    cases v <;> simp [Value.isNull, Hierarchy.instanceOf, Value.runtimeType?]
  cases hcertain : certain rules e.ty pattern symbol.ty.erasure.boxed with
  | false => simp
  | true =>
      rcases hsound hcertain with hv | hinst
      · simp [hv]
      · simp [hinst]

end

namespace Narrowed

/-- A node of the given type. -/
def info (ty : Ty) : ExprInfo := ⟨0, ty, .nowhere⟩

/-- A pattern for a binding of the table. -/
def pattern (b : Nat) (ty : Ty) : BindingPattern := ⟨⟨b⟩, some ty⟩

/-- A test of the only parameter, for a binding of the table. -/
def test (operandTy : Ty) (b : Nat) (ty : Ty) : Expr :=
  .typeTest (info .boolean) (.ident (info operandTy) (.var ⟨0⟩)) (pattern b ty)

/-- The parameter, and the bindings of its patterns. -/
def symbols (operandTy : Ty) (bindings : List BindingSymbol) : Symbols :=
  ⟨#[⟨⟨0⟩, "o", operandTy, none, false⟩], bindings.toArray⟩

/-- The built-in classes, and the analysis of conditions the command uses. -/
def rules : Rules := ⟨.builtin, Flow.matchBindings⟩

/-- `String s` -/
def oneString : List BindingSymbol := [⟨⟨0⟩, "s", .string, none, false, []⟩]

/-- `int i` and `Double d`, and what unifies the two. -/
def mixed : List BindingSymbol :=
  [⟨⟨0⟩, "i", .int, none, false, []⟩, ⟨⟨1⟩, "d", .simple "Double", none, false, []⟩,
    ⟨⟨2⟩, "i", .int, none, false, [⟨0⟩, ⟨1⟩]⟩]

/-- The state in a frame that owns storage for a binding. -/
def inside (s : Symbols) (b : Nat) : Pass := (Pass.start s).enter .statement [⟨b⟩]

/-- The setting of a table, without classes and native functions. -/
def setting (s : Symbols) : Setting Unit := Program.setting ⟨[], s⟩ fun _ => none

/-- The machine in which the parameter has a value. -/
def given (v : Value) : Machine Unit := (Machine.start ()).written (.var ⟨0⟩) v .declared

/-- What an expression evaluates to for a value of the parameter, if it does. -/
def value? (s : Symbols) (e : Expr) (v : Value) : Option Value :=
  match evalExpr (setting s) 9 e (given v) with
  | .ok w _ => some w
  | .error _ _ => none

/-- The value of the lowered test, in a frame that owns storage for a binding. -/
def loweredValue? (s : Symbols) (b : Nat) (e : Expr) (v : Value) : Option Value :=
  match lowerExpr rules e (inside s b) with
  | .ok e q => value? q.symbols e v
  | .error _ _ => none

end Narrowed

open Narrowed in
/-- `o instanceof String s` for an `Object o`, in a frame that owns storage for `s`. -/
theorem lowerExpr_typeTest_agrees_narrowed :
    rules.hierarchy.supers "Object" = []
      ∧ ∃ lowered q, lowerExpr rules (test .object 0 .string) (inside (symbols .object oneString) 0)
            = .ok lowered q
        ∧ ∃ m m', Ends (fun k => evalExpr (setting (symbols .object oneString)) k (test .object 0 .string))
              (given (.str "a")) (.ok (.bool true)) m
          ∧ Ends (fun k => evalExpr (setting q.symbols) k lowered) (given (.str "a")) (.ok (.bool true)) m'
          ∧ (m'.env.read? q.symbols (.var ⟨1⟩)).map (·.value) = some (.str "a") := by
  have hroot : rules.hierarchy.supers "Object" = [] := by decide
  have htest : ReferenceTest (inside (symbols .object oneString) 0) .object (pattern 0 .string)
      ⟨⟨0⟩, "s", .string, none, false, []⟩ ⟨1⟩ :=
    ⟨rfl, rfl, rfl, rfl, by decide, ⟨_, rfl, rfl⟩⟩
  have hread (s : Symbols) := ends_var (setting s) (info .object) (x := ⟨0⟩)
    (Machine.written_get?_self (.start ()) (.var ⟨0⟩) (.str "a") .declared)
  obtain ⟨lowered, q, hlower, hagrees⟩ :=
    lowerExpr_typeTest_agrees (e := .ident (info .object) (.var ⟨0⟩)) hroot (info .boolean) rfl htest
  have hq : (inside (symbols .object oneString) 0).symbols.binding? ⟨0⟩ = q.symbols.binding? ⟨0⟩ := by
    obtain ⟨operand, p₁, hoperand, htyped⟩ := bind_eq_ok.mp hlower
    injection hoperand with he hp
    subst he hp
    obtain ⟨_, _, _, -, -, -, -, rfl⟩ := lowerTest_eq_ok htyped
    rfl
  obtain ⟨m₁, hnative, -⟩ := hread (symbols .object oneString)
  obtain ⟨m₁', hoperand, -⟩ := hread q.symbols
  obtain ⟨matched, passed, m, m', hmatches, hpasses, hmatched, hpassed, -, hstored⟩ :=
    hagrees (setting (symbols .object oneString)) (setting q.symbols)
      ⟨rfl, rfl, congrArg (Option.map (·.ty)) hq, fun hx => hx⟩ (.str "a") _ _ _ _
      (.inr ⟨.string, rfl, by decide⟩) hnative hoperand
  have htrue : rules.hierarchy.instanceOf (.str "a") .string = true := by decide
  rw [htrue] at hmatched
  subst hmatched
  rw [Bool.true_or] at hpassed
  subst hpassed
  exact ⟨hroot, lowered, q, hlower, m, m', hmatches, hpasses, hstored rfl⟩

open Narrowed in
/-- **A certain match lets `null` through**: `o instanceof String s` does not
match `null`, and for a `String o` the lowered test holds.  And in storage of a
primitive type, that of `i` where `i` and a `Double d` are unified, what matches
`d` is not stored, so the lowered test of `o instanceof Double d` fails. -/
theorem certain_match_takes_null :
    rules.hierarchy.supers "Object" = []
      ∧ rules.hierarchy.Admits .string .null
      ∧ ReferenceTest (inside (symbols .string oneString) 0) .string (pattern 0 .string)
          ⟨⟨0⟩, "s", .string, none, false, []⟩ ⟨1⟩
      ∧ value? (symbols .string oneString) (test .string 0 .string) .null = some (.bool false)
      ∧ loweredValue? (symbols .string oneString) 0 (test .string 0 .string) .null = some (.bool true)
      ∧ rules.hierarchy.Admits .object (.double (.ofInt 1))
      ∧ (inside (symbols .object mixed) 2).stack.resolve (inside (symbols .object mixed) 2).symbols ⟨1⟩
          = some ⟨1⟩
      ∧ value? (symbols .object mixed) (test .object 1 (.simple "Double")) (.double (.ofInt 1))
          = some (.bool true)
      ∧ loweredValue? (symbols .object mixed) 2 (test .object 1 (.simple "Double")) (.double (.ofInt 1))
          = none := by
  refine ⟨by decide, .inl rfl, ⟨rfl, rfl, rfl, rfl, by decide, ⟨_, rfl, rfl⟩⟩, by decide, by decide,
    .inr ⟨.simple "Double", rfl, by decide⟩, by decide, ?_, ?_⟩
  · decide
  · decide

end Lowering

end PatternIR
