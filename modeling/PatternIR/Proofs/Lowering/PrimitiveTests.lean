/-
  PatternIR.Proofs.Lowering.PrimitiveTests
  ────────────────────────────────────────
  **TYPE TESTS OF AND FOR PRIMITIVE TYPES, before and after lowering.**

  An operand of a primitive type passes every test that can be written for it,
  so its lowered test is the store alone: `let t = e in true && (x = (T) t) == (T) t`,
  where `T` is a class and the cast is checked against the class of the value.
  That is the wrapper of the operand's kind for all kinds but two.  Bytes and
  shorts are ints when the program runs, so a cast of them to their own
  wrapper fails.

  A pattern of a primitive type takes the values of its kind out of an operand
  of any class.  The store converts them, which changes none of them, and
  compares what it has stored, boxed again, with the operand.

    • `lowerExpr_typeTest_holds` — an operand of a primitive type;
    • `lowerExpr_typeTest_prim` — a pattern of a primitive type;
    • `byte_match_faults`, `int_match_differs` — where these fail.
-/
import PatternIR.Proofs.Eval.Conversions
import PatternIR.Proofs.Lowering.ReferenceTests

namespace PatternIR

variable {ω : Type}

/-! ## §1. Types that keep the values of a kind. -/

/-- A primitive type keeps what it has converted, and a reference type everything. -/
theorem coerce_erasure {ty : Ty} {kind : Prim} {v : Value} (hty : ty = .prim kind ∨ ty.isReference = true)
    (hv : coerce (.prim kind) v = .ok v) : coerce ty.erasure v = .ok v := by
  rcases hty with rfl | hreference
  · exact hv
  · exact coerce_eq (Ty.not_isPrimitive ((Ty.erasure_isReference ty).trans hreference)) v

/-- What can be stored has a type with values. -/
theorem Ty.erasure_ne_void {ty : Ty} {kind : Prim} (hty : ty = .prim kind ∨ ty.isReference = true) :
    ty.erasure ≠ .void := by
  rcases hty with rfl | hreference
  · simp [Ty.erasure]
  · exact ne_void_of_isReference ((erasure_isReference ty).trans hreference)

namespace Lowering

open Run (Ends)

namespace Redeclared

open Narrowed (given inside)

/-- A class that is nothing but below another one. -/
def extending (name superclass : String) : Class := ⟨0, name, some superclass, [], [], .nowhere⟩

/-- The built-in classes and those of the program. -/
def hierarchy (classes : List Class) : Hierarchy := (Program.mk classes .empty).hierarchy

/-- What an expression ends in for a value of the parameter, in a program of some classes. -/
def outcome (classes : List Class) (s : Symbols) (e : Expr) (v : Value) :
    Option (Except Interrupt Value) :=
  match evalExpr (Program.setting ⟨classes, s⟩ fun _ => none) 9 e (given v) with
  | .ok w _ => some (.ok w)
  | .error (.interrupt i) _ => some (.error i)
  | .error .exhausted _ => none

/-- What its lowered form ends in, in a frame that owns storage for a binding. -/
def loweredOutcome (classes : List Class) (s : Symbols) (b : Nat) (e : Expr) (v : Value) :
    Option (Except Interrupt Value) :=
  match lowerExpr ⟨hierarchy classes, Flow.matchBindings⟩ e (inside s b) with
  | .ok e q => outcome classes q.symbols e v
  | .error _ _ => none

/-- A binding `x` of a type. -/
def binding (ty : Ty) : List BindingSymbol := [⟨⟨0⟩, "x", ty, none, false, []⟩]

/-- `long x` and `int x`, and what unifies the two. -/
def unified : List BindingSymbol :=
  [⟨⟨0⟩, "x", .prim .long, none, false, []⟩, ⟨⟨1⟩, "x", .int, none, false, []⟩,
    ⟨⟨2⟩, "x", .prim .long, none, false, [⟨0⟩, ⟨1⟩]⟩]

end Redeclared

section

variable {rules : Rules} {p q p₁ : Pass} {pattern : BindingPattern} {symbol : BindingSymbol} {x : VarId}
  {xs : VarSymbol} {kind : Prim} {e operand : Expr}

/-! ## §2. Operands of a primitive type. -/

/-- **The lowered test of an operand of a primitive type holds** and stores its
value, whatever that is, if the wrapper of the kind is below the type of the
pattern.  For bytes and shorts, which are ints when the program runs, the
wrapper of the ints has to be below it too; and the storage has to be of the
type of the operand or of a reference type. -/
theorem lowerExpr_typeTest_holds (i : ExprInfo) (hlower : lowerExpr rules e p = .ok operand p₁)
    (hoperand : e.ty = .prim kind) (h : Stored p₁ pattern symbol x xs)
    (hbelow : rules.hierarchy.isSubtype (.simple kind.boxName) symbol.ty.erasure.boxed = true)
    (hsmall : kind ≠ .byte ∧ kind ≠ .short
      ∨ rules.hierarchy.isSubtype (.simple Prim.int.boxName) symbol.ty.erasure.boxed = true)
    (hstorage : xs.ty = .prim kind ∨ xs.ty.isReference = true) :
    ∃ lowered q, lowerExpr rules (.typeTest i e pattern) p = .ok lowered q
      ∧ ∀ {ω : Type} (setting : Setting ω), setting.hierarchy = rules.hierarchy →
        (∀ {y : VarId} {ys : VarSymbol}, q.symbols.var? y = some ys →
          setting.program.symbols.var? y = some ys) →
        ∀ (w v : Value) (m m₁ : Machine ω), coerce (.prim kind) w = .ok v →
          Ends (fun k => evalExpr setting k operand) m (.ok v) m₁ →
          ∃ m₂, Ends (fun k => evalExpr setting k lowered) m (.ok (.bool true)) m₂
            ∧ (m₂.env.read? setting.program.symbols (.var x)).map (·.value) = some v := by
  obtain ⟨lowered, q, hlowered⟩ := h.lowers rules e.ty operand i.span
  refine ⟨lowered, q, bind_eq_ok.mpr ⟨operand, p₁, hlower, hlowered⟩, ?_⟩
  intro ω setting hhierarchy hvars w v m m₁ hw he
  have hsame := coerce_coerce hw
  -- the class of a converted value is the wrapper of its carrier, not of its kind
  have hcarrier : rules.hierarchy.isSubtype (.simple kind.carrier.boxName) symbol.ty.erasure.boxed
      = true := by
    rcases hsmall with ⟨hbyte, hshort⟩ | hint
    · cases kind with
      | byte => exact absurd rfl hbyte
      | short => exact absurd rfl hshort
      | _ => exact hbelow
    · cases kind with
      | byte | short => exact hint
      | _ => exact hbelow
  have hinst : rules.hierarchy.instanceOf v symbol.ty = true := by
    rw [Value.instanceOf_of_kind rules.hierarchy (coerce_kind hw)]
    exact hcarrier
  have hty : symbol.ty ≠ .void := by
    intro hvoid
    rw [hvoid] at hbelow
    exact Bool.noConfusion hbelow
  have hcertain : certain rules e.ty pattern symbol.ty.erasure.boxed = true := by
    rw [certain, hoperand]
    simp [Ty.isPrimitive]
  have htemp : tempTy e.ty = .prim kind := by rw [hoperand]; rfl
  obtain ⟨passed, m₂, hpassed, hends, hstored⟩ := h.passes hty hlowered hhierarchy hvars
    (by rw [htemp]; exact hsame)
    (fun _ => ⟨(h.storageOf e.ty).2, Ty.erasure_ne_void hstorage, coerce_erasure hstorage hsame⟩)
    (fun _ => .inr hinst) he
  rw [hcertain, Bool.true_or] at hpassed
  subst hpassed
  exact ⟨m₂, hends, hstored rfl⟩

end

open Narrowed Redeclared in
/-- `o instanceof Number x` for an `int o`, in a frame that owns storage for `x`. -/
theorem lowerExpr_typeTest_holds_number :
    ∃ lowered q, lowerExpr rules (test .int 0 (.simple "Number"))
          (inside (symbols .int (binding (.simple "Number"))) 0) = .ok lowered q
      ∧ ∃ m, Ends (fun k => evalExpr (setting q.symbols) k lowered) (given (.int 5)) (.ok (.bool true)) m
          ∧ (m.env.read? q.symbols (.var ⟨1⟩)).map (·.value) = some (.int 5) := by
  have hstored : Stored (inside (symbols .int (binding (.simple "Number"))) 0)
      (pattern 0 (.simple "Number")) ⟨⟨0⟩, "x", .simple "Number", none, false, []⟩ ⟨1⟩
      ⟨⟨1⟩, "x", .simple "Number", none, false⟩ := ⟨rfl, by decide, rfl⟩
  have hread : lowerExpr rules (.ident (info .int) (.var ⟨0⟩))
      (inside (symbols .int (binding (.simple "Number"))) 0)
        = .ok (.ident (info .int) (.var ⟨0⟩)) (inside (symbols .int (binding (.simple "Number"))) 0) := rfl
  obtain ⟨lowered, q, hlower, hholds⟩ := lowerExpr_typeTest_holds (info .boolean) hread
    (show Ty.int = .prim .int from rfl) hstored (by decide) (.inl (by decide)) (.inr rfl)
  obtain ⟨m₁, hoperand, -⟩ := ends_var (setting q.symbols) (info .int) (x := ⟨0⟩)
    (Machine.written_get?_self (.start ()) (.var ⟨0⟩) (.int 5) .declared)
  obtain ⟨m, hends, hread⟩ := hholds (setting q.symbols) rfl (fun hy => hy) (.int 5) (.int 5) _ _ rfl
    hoperand
  exact ⟨lowered, q, hlower, m, hends, hread⟩

open Narrowed Redeclared in
/-- **A byte fails its own test.**  For a `byte o` the value 5 stays an int, and
the lowered test of `o instanceof byte x` casts it to `Byte`.  And where a
program puts `Integer` below `Long`, the lowered test of `o instanceof long x`
for an `int o` stores a long, which is not the int it is compared with. -/
theorem byte_match_faults :
    coerce (.prim .byte) (.int 5) = .ok (.int 5)
      ∧ rules.hierarchy.isSubtype (.simple Prim.byte.boxName) (Ty.prim .byte).erasure.boxed = true
      ∧ (inside (symbols (.prim .byte) (binding (.prim .byte))) 0).stack.resolve
          (inside (symbols (.prim .byte) (binding (.prim .byte))) 0).symbols ⟨0⟩ = some ⟨1⟩
      ∧ loweredOutcome [] (symbols (.prim .byte) (binding (.prim .byte))) 0
          (test (.prim .byte) 0 (.prim .byte)) (.int 5)
        = some (.error (.fault (.classCast "Integer" "Byte")))
      ∧ (hierarchy [extending "Integer" "Long"]).isSubtype (.simple Prim.int.boxName)
          (Ty.prim .long).erasure.boxed = true
      ∧ loweredOutcome [extending "Integer" "Long"] (symbols .int (binding (.prim .long))) 0
          (test .int 0 (.prim .long)) (.int 5)
        = some (.ok (.bool false)) := by
  refine ⟨rfl, by decide, by decide, ?_, by decide, ?_⟩
  · rfl
  · rfl

/-! ## §3. Faults. -/

section

variable {setting : Setting ω} {m m₁ m' : Machine ω} {i j : ExprInfo} {e l r : Expr} {v : Value}
  {f : Fault} {stop : Interrupt}

/-- An assignment fails with the conversion of its value. -/
theorem ends_assign_fault {x : VarId} (he : Ends (fun k => evalExpr setting k e) m (.ok v) m')
    (hv : coerce j.ty v = .error f) :
    Ends (fun k => evalExpr setting k (.assign i (.ident j (.var x)) e)) m (.error (.fault f)) m' := by
  refine ends_assigned he ?_
  rw [hv]
  rfl

/-- A cast stops where its operand does. -/
theorem ends_cast_error {target : Ty} (he : Ends (fun k => evalExpr setting k e) m (.error stop) m') :
    Ends (fun k => evalExpr setting k (.cast i target e)) m (.error stop) m' :=
  (Ends.bind_error (f := fun v _ => (Run.ofExcept (setting.hierarchy.cast target v) : Run ω Value))
    he).step rfl fun _ => rfl

/-- A comparison stops where its left operand does. -/
theorem ends_eq_error (hl : Ends (fun k => evalExpr setting k l) m (.error stop) m') :
    Ends (fun k => evalExpr setting k (.binary i .eq l r)) m (.error stop) m' :=
  (Ends.bind_error (f := fun v k => evalExpr setting k r >>= fun w => (Run.ofExcept
    (evalBinary .eq v w (l.ty.isReference && r.ty.isReference) i.ty) : Run ω Value)) hl).step rfl
      fun _ => rfl

/-- A conjunction whose left operand holds stops where its right one does. -/
theorem ends_and_error (hl : Ends (fun k => evalExpr setting k l) m (.ok (.bool true)) m₁)
    (hr : Ends (fun k => evalExpr setting k r) m₁ (.error stop) m') :
    Ends (fun k => evalExpr setting k (.binary i .and l r)) m (.error stop) m' := by
  have hrest : Ends (andThen setting r (.bool true)) m₁ (.error stop) m' :=
    Ends.bind_error (f := fun w _ => Run.truth w >>= fun b => (pure (.bool b) : Run ω Value)) hr
  exact (Ends.bind (f := andThen setting r) hl hrest).step rfl fun _ => rfl

/-- A pattern that what matches cannot be converted for. -/
theorem matchPattern_fault {pattern : BindingPattern} {symbol : BindingSymbol}
    (hsymbol : setting.program.symbols.binding? pattern.binding = some symbol)
    (hinst : setting.hierarchy.instanceOf v symbol.ty = true) (hv : coerce symbol.ty v = .error f)
    (m : Machine ω) : matchPattern setting pattern v m = Run.ended (.error (.fault f)) m := by
  simp only [matchPattern, hsymbol, hinst, Bool.or_true, if_true, hv]
  rfl

/-- The lowered test, where primitive storage cannot take what matches. -/
theorem IsTest.faults (setting : Setting ω) {span : Span} {isCertain : Bool} {temp x : VarId}
    {ty tempTy xTy : Ty} {id size : Nat} {test : Expr}
    (htest : IsTest span isCertain temp ty.erasure.boxed tempTy id (some (x, xTy)) test size)
    (hty : ty ≠ .void) (hx : xTy.isPrimitive = true) {c : Cell}
    (hc : m.env.get? (.var temp) = some c)
    (hinst : setting.hierarchy.instanceOf c.value ty = true) (hv : coerce xTy c.value = .error f) :
    ∃ m₁, Ends (fun k => evalExpr setting k test) m (.error (.fault f)) m₁ := by
  rw [← setting.hierarchy.instanceOf_boxed c.value ty] at hinst
  have hcast : setting.hierarchy.cast ty.erasure.boxed c.value = .ok c.value :=
    Hierarchy.cast_eq (Ty.erasure_boxed_isReference hty) (.inr hinst)
  obtain ⟨m₁, h₁, henv₁, -⟩ := ends_match setting id span isCertain ty.erasure.boxed tempTy hc
  rw [hinst, Bool.or_true] at h₁
  cases htest with
  | stored =>
      have hc₁ : m₁.env.get? (.var temp) = some c := by
        rw [henv₁]
        exact hc
      let next := id + matchSize isCertain
      obtain ⟨m₂, h₂, -, -⟩ := ends_var setting ⟨next + 1, tempTy, span⟩ hc₁
      -- `x = (T) t`, from where the whole condition ends
      have hassign := ends_assign_fault (i := ⟨next + 3, xTy, span⟩) (j := ⟨next, xTy, span⟩) (x := x)
        (ends_cast (i := ⟨next + 2, ty.erasure.boxed, span⟩) h₂ hcast) hv
      refine ⟨m₂, ends_and_error h₁ ?_⟩
      unfold storeNode
      rw [if_pos hx]
      exact ends_eq_error (ends_cast_error hassign)

end

/-! ## §4. Patterns of a primitive type. -/

section

variable {rules : Rules} {p q p₁ : Pass} {operandTy : Ty} {pattern : BindingPattern}
  {symbol : BindingSymbol} {x : VarId} {xs : VarSymbol} {kind : Prim} {e operand : Expr}

/-- Where no wrapper of another kind is below that of `kind`, only the values of
the kind are instances of it among those of any, and each is its own conversion. -/
theorem coerce_of_instanceOf {hierarchy : Hierarchy} {v : Value} (hfloat : kind ≠ .float)
    (hothers : ∀ other : Prim, other.carrier = other → other ≠ kind →
      hierarchy.isSubtype (.simple other.boxName) (.simple kind.boxName) = false)
    (hkind : v.kind?.isSome = true) (hchar : kind = .char → ∀ c, v = .char c → c.toNat < 65536)
    (hinst : hierarchy.instanceOf v (.prim kind) = true) : coerce (.prim kind) v = .ok v := by
  obtain ⟨other, hother⟩ := Option.isSome_iff_exists.mp hkind
  have hequal : other = kind := by
    by_contra hne
    rw [Value.instanceOf_of_kind hierarchy hother] at hinst
    exact Bool.noConfusion ((hothers other (Value.carrier_of_kind hother) hne).symm.trans hinst)
  subst hequal
  refine coerce_of_kind hother hfloat fun c hc => hchar ?_ c hc
  rw [hc] at hother
  injection hother with hother
  exact hother.symm

/-- The lowered test of a pattern that what matches cannot be converted for. -/
theorem Stored.faults {setting : Setting ω} {m m₁ : Machine ω} {v : Value} {f : Fault}
    (h : Stored p pattern symbol x xs) (hty : symbol.ty ≠ .void) {span : Span} {lowered : Expr}
    (hlower : lowerTest rules operandTy operand pattern span p = .ok lowered q)
    (hhierarchy : setting.hierarchy = rules.hierarchy)
    (hvars : ∀ {y : VarId} {ys : VarSymbol}, q.symbols.var? y = some ys →
      setting.program.symbols.var? y = some ys)
    (htemp : coerce (tempTy operandTy) v = .ok v) (hx : xs.ty.erasure.isPrimitive = true)
    (hinst : rules.hierarchy.instanceOf v symbol.ty = true) (hv : coerce xs.ty.erasure v = .error f)
    (he : Ends (fun k => evalExpr setting k operand) m (.ok v) m₁) :
    ∃ m₂, Ends (fun k => evalExpr setting k lowered) m (.error (.fault f)) m₂ := by
  obtain ⟨symbol', test, size, hsymbol, htest, -, rfl, rfl⟩ := lowerTest_eq_ok hlower
  rw [h.known] at hsymbol
  injection hsymbol with hsymbol
  subst hsymbol
  rw [(h.storageOf operandTy).1] at htest
  rw [← hhierarchy] at hinst
  obtain ⟨m₂, hends⟩ := IsTest.faults setting htest hty hx
    (m₁.written_get?_self (.var ⟨p.symbols.vars.size⟩) v .declared) hinst hv
  exact ⟨m₂, ends_letIn (takes_temp htemp hvars) he hends⟩

/-- **A pattern of a primitive type and what it is lowered to agree** on an
operand of type `Object`, unless the kind is `float`: in a hierarchy where
neither `Object` nor the wrapper of another kind that values have is below the
wrapper of the kind, and with storage of the type of the pattern or of a
reference type, on every value but a character of more than sixteen bits.  They have the same
truth, and when it is `true` binding and storage have the value.  Only an
object or a string of a class below the wrapper matches without a truth: its
conversion fails, in the pattern and in storage of its type with one fault. -/
theorem lowerExpr_typeTest_prim (i : ExprInfo) (hlower : lowerExpr rules e p = .ok operand p₁)
    (hoperand : e.ty = .object) (hdeclared : pattern.declared.isSome = true)
    (h : Stored p₁ pattern symbol x xs) (hsymbol : symbol.ty = .prim kind) (hfloat : kind ≠ .float)
    (hstorage : xs.ty = .prim kind ∨ xs.ty.isReference = true)
    (hobject : rules.hierarchy.isSubtype .object (.simple kind.boxName) = false)
    (hothers : ∀ other : Prim, other.carrier = other → other ≠ kind →
      rules.hierarchy.isSubtype (.simple other.boxName) (.simple kind.boxName) = false) :
    ∃ lowered q, lowerExpr rules (.typeTest i e pattern) p = .ok lowered q
      ∧ ∀ {ω : Type} (setting setting' : Setting ω), Beside rules q pattern setting setting' →
        ∀ (v : Value) (m m₁ m' m₁' : Machine ω),
          (kind = .char → ∀ c, v = .char c → c.toNat < 65536) →
          Ends (fun k => evalExpr setting k e) m (.ok v) m₁ →
          Ends (fun k => evalExpr setting' k operand) m' (.ok v) m₁' →
          (v.kind?.isSome = true ∨ rules.hierarchy.instanceOf v (.prim kind) = false →
            ∃ m₂ m₂',
              Ends (fun k => evalExpr setting k (.typeTest i e pattern)) m
                (.ok (.bool (rules.hierarchy.instanceOf v (.prim kind)))) m₂
              ∧ Ends (fun k => evalExpr setting' k lowered) m'
                (.ok (.bool (rules.hierarchy.instanceOf v (.prim kind)))) m₂'
              ∧ (rules.hierarchy.instanceOf v (.prim kind) = true →
                (m₂.env.read? setting.program.symbols (.binding pattern.binding)).map (·.value) = some v
                ∧ (m₂'.env.read? setting'.program.symbols (.var x)).map (·.value) = some v))
          ∧ (v.kind? = none → rules.hierarchy.instanceOf v (.prim kind) = true →
              (∃ m₂, Ends (fun k => evalExpr setting k (.typeTest i e pattern)) m
                (.error (.fault (.badCast v (.prim kind)))) m₂)
              ∧ (xs.ty = .prim kind → ∃ m₂', Ends (fun k => evalExpr setting' k lowered) m'
                (.error (.fault (.badCast v (.prim kind)))) m₂')) := by
  obtain ⟨lowered, q, hlowered⟩ := h.lowers rules e.ty operand i.span
  refine ⟨lowered, q, bind_eq_ok.mpr ⟨operand, p₁, hlower, hlowered⟩, ?_⟩
  intro ω setting setting' beside v m m₁ m' m₁' hchar hnative he
  have hknown := h.known_after hlowered
  have hty : symbol.ty ≠ .void := by simp [hsymbol]
  -- the operand may be anything, so no match is certain before the program runs
  have hcertain : certain rules e.ty pattern symbol.ty.erasure.boxed = false := by
    have hdecl := Option.isNone_eq_false_iff.mpr hdeclared
    simp [certain, hdecl, hoperand, hsymbol, Ty.object, Ty.simple, Ty.isPrimitive, Ty.isNull,
      Ty.erasure, Ty.boxed] at hobject ⊢
    exact hobject
  have htemp : coerce (tempTy e.ty) v = .ok v := by rw [hoperand]; rfl
  constructor
  · intro hkind
    -- an instance of the wrapper is already a value of the primitive type, so storing converts nothing
    have hsame : rules.hierarchy.instanceOf v symbol.ty = true → coerce (.prim kind) v = .ok v := by
      intro hinst
      rw [hsymbol] at hinst
      exact coerce_of_instanceOf hfloat hothers (hkind.resolve_right (by simp [hinst])) hchar hinst
    obtain ⟨m₂, hmatches, hbound⟩ := beside.binds (i := i) hknown hdeclared
      (fun hinst => hsymbol ▸ hsame hinst) hnative
    obtain ⟨passed, m₂', hpassed, hpasses, hstored⟩ := h.passes hty hlowered beside.hierarchy'
      beside.vars htemp
      (fun hpassed => ⟨(h.storageOf e.ty).2, Ty.erasure_ne_void hstorage,
        coerce_erasure hstorage (hsame (by simpa [hcertain] using hpassed))⟩)
      (fun hfalse => absurd hfalse (by simp [hcertain])) he
    rw [hcertain, Bool.false_or] at hpassed
    subst hpassed
    rw [hsymbol] at hmatches hbound hpasses hstored
    exact ⟨m₂, m₂', hmatches, hpasses, fun hinst => ⟨hbound hinst, hstored hinst⟩⟩
  · intro hkind hinst
    -- an instance that is no primitive value cannot be stored, natively or lowered
    have hfault : coerce (.prim kind) v = .error (.badCast v (.prim kind)) := coerce_of_no_kind hkind
    obtain ⟨sym, hsym, hsymTy⟩ := beside.typed hknown
    rw [hsymbol] at hsymTy
    constructor
    · refine ⟨m₁, ends_typeTest hnative (matchPattern_fault hsym ?_ ?_ m₁)⟩
      · rw [beside.hierarchy, hsymTy]
        exact hinst
      · rw [hsymTy]
        exact hfault
    · intro hxs
      exact h.faults hty hlowered beside.hierarchy' beside.vars htemp (by rw [hxs]; rfl)
        (hsymbol ▸ hinst) (by rw [hxs]; exact hfault) he

end

open Narrowed Redeclared in
/-- `o instanceof int x` for an `Object o`, in a frame that owns storage for `x`. -/
theorem lowerExpr_typeTest_prim_int :
    ∃ lowered q, lowerExpr rules (test .object 0 .int) (inside (symbols .object (binding .int)) 0)
          = .ok lowered q
      ∧ ∃ m m', Ends (fun k => evalExpr (setting (symbols .object (binding .int))) k (test .object 0 .int))
            (given (.int 5)) (.ok (.bool true)) m
        ∧ Ends (fun k => evalExpr (setting q.symbols) k lowered) (given (.int 5)) (.ok (.bool true)) m'
        ∧ (m'.env.read? q.symbols (.var ⟨1⟩)).map (·.value) = some (.int 5) := by
  have hstored : Stored (inside (symbols .object (binding .int)) 0) (pattern 0 .int)
      ⟨⟨0⟩, "x", .int, none, false, []⟩ ⟨1⟩ ⟨⟨1⟩, "x", .int, none, false⟩ := ⟨rfl, by decide, rfl⟩
  have hothers : ∀ other : Prim, other.carrier = other → other ≠ .int →
      rules.hierarchy.isSubtype (.simple other.boxName) (.simple Prim.int.boxName) = false := by
    intro other _ hne
    cases other with
    | int => exact absurd rfl hne
    | _ => decide
  have hlowered : lowerExpr rules (.ident (info .object) (.var ⟨0⟩))
      (inside (symbols .object (binding .int)) 0)
        = .ok (.ident (info .object) (.var ⟨0⟩)) (inside (symbols .object (binding .int)) 0) := rfl
  obtain ⟨lowered, q, hlower, hagrees⟩ := lowerExpr_typeTest_prim (info .boolean) hlowered rfl rfl
    hstored (show Ty.int = .prim .int from rfl) (by decide) (.inl rfl) (by decide) hothers
  have hq : (inside (symbols .object (binding .int)) 0).symbols.binding? ⟨0⟩ = q.symbols.binding? ⟨0⟩ := by
    obtain ⟨operand, p₁, hoperand, htyped⟩ := bind_eq_ok.mp hlower
    injection hoperand with he hp
    subst he hp
    exact (hstored.known_after htyped).symm
  have hread (s : Symbols) := ends_var (setting s) (info .object) (x := ⟨0⟩)
    (Machine.written_get?_self (.start ()) (.var ⟨0⟩) (.int 5) .declared)
  obtain ⟨m₁, hnative, -⟩ := hread (symbols .object (binding .int))
  obtain ⟨m₁', hoperand, -⟩ := hread q.symbols
  have hinst : rules.hierarchy.instanceOf (.int 5) (.prim .int) = true := by decide
  obtain ⟨m, m', hmatches, hpasses, hvalues⟩ :=
    (hagrees (setting (symbols .object (binding .int))) (setting q.symbols)
      ⟨rfl, rfl, congrArg (Option.map (·.ty)) hq, fun hx => hx⟩ (.int 5) _ _ _ _
      (fun hchar => nomatch hchar) hnative hoperand).1 (.inl rfl)
  rw [hinst] at hmatches hpasses
  exact ⟨lowered, q, hlower, m, m', hmatches, hpasses, (hvalues hinst).2⟩

open Narrowed Redeclared in
/-- **Where a primitive pattern and its lowered test differ.**  A character of
more than sixteen bits matches `char x`, and what is stored is not what it is
compared with.  An object of a class `Integer` ends both tests of `int x` with
a fault.  In storage of another type, that of a `long x` the two are unified
in, an int becomes a long.  With `Long` below `Integer` a long matches `int x`
and does not pass the lowered test; with `Object` below it that is certain, and
faults for `null`. -/
theorem int_match_differs :
    (outcome [] (symbols .object (binding (.prim .char))) (test .object 0 (.prim .char))
          (.char (Char.ofNat 0x1F600)) = some (.ok (.bool true))
      ∧ loweredOutcome [] (symbols .object (binding (.prim .char))) 0 (test .object 0 (.prim .char))
          (.char (Char.ofNat 0x1F600)) = some (.ok (.bool false)))
    ∧ (outcome [] (symbols .object (binding .int)) (test .object 0 .int) (.object ⟨"Integer", 0, none⟩)
        = some (.error (.fault (.classCast "Integer" "int")))
      ∧ loweredOutcome [] (symbols .object (binding .int)) 0 (test .object 0 .int)
          (.object ⟨"Integer", 0, none⟩) = some (.error (.fault (.classCast "Integer" "int"))))
    ∧ (outcome [] (symbols .object unified) (test .object 1 .int) (.int 5) = some (.ok (.bool true))
      ∧ loweredOutcome [] (symbols .object unified) 2 (test .object 1 .int) (.int 5)
        = some (.error (.fault (.classCast "Long" "Integer"))))
    ∧ (outcome [extending "Long" "Integer"] (symbols .object (binding .int)) (test .object 0 .int) (.long 5)
        = some (.ok (.bool true))
      ∧ loweredOutcome [extending "Long" "Integer"] (symbols .object (binding .int)) 0
          (test .object 0 .int) (.long 5) = some (.ok (.bool false)))
    ∧ outcome [extending "Object" "Integer"] (symbols .object (binding .int)) (test .object 0 .int) .null
        = some (.ok (.bool false))
      ∧ loweredOutcome [extending "Object" "Integer"] (symbols .object (binding .int)) 0
          (test .object 0 .int) .null = some (.error (.fault (.classCast "null" "int"))) := by
  refine ⟨⟨?_, ?_⟩, ⟨?_, ?_⟩, ⟨?_, ?_⟩, ⟨?_, ?_⟩, ?_, ?_⟩ <;> rfl

end Lowering

end PatternIR
