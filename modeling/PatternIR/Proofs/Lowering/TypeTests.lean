/-
  PatternIR.Proofs.Lowering.TypeTests
  ───────────────────────────────────
  **TYPE TESTS AND STORAGE, as lowering writes them.**

  A pattern over references becomes a test of a temporary, followed by an
  assignment of the temporary to the storage of the pattern.  Evaluated, this
  has the value of the pattern, and stores what the pattern matches.

    • `ends_match`, `ends_store` — the two conditions, evaluated;
    • `Agree.matched` — a match on both sides, with storage or without;
    • `Means.typeTest` — the pattern and its lowered test mean the same;
    • `Means.letStorage` — storage around an expression changes nothing.
-/
import PatternIR.Proofs.Lowering.Expressions
import PatternIR.Proofs.Lowering.Steps

namespace PatternIR

variable {ω : Type}

/-! ## §1. Types. -/

namespace Ty

/-- Erasing twice is erasing once. -/
theorem erasure_erasure : ∀ t : Ty, t.erasure.erasure = t.erasure
  | .prim _ | .named _ _ | .null | .void => rfl
  | .array elem => congrArg Ty.array (erasure_erasure elem)

/-- Erased and boxed once is erased and boxed for good. -/
theorem erasure_boxed (t : Ty) : t.erasure.boxed.erasure.boxed = t.erasure.boxed := by
  cases t with
  | array elem =>
      show Ty.array elem.erasure.erasure = Ty.array elem.erasure
      rw [erasure_erasure]
  | _ => rfl

/-- Erasure makes no primitive type a reference. -/
theorem erasure_isReference (t : Ty) : t.erasure.isReference = t.isReference := by
  cases t <;> rfl

theorem not_isPrimitive {t : Ty} (h : t.isReference = true) : t.isPrimitive = false := by
  cases t with
  | prim _ => exact absurd h (by simp [isReference])
  | _ => rfl

/-- A type with values is a reference type unless it is primitive. -/
theorem isReference_of_ne_void {t : Ty} (hvoid : t ≠ .void) (h : t.isPrimitive = false) :
    t.isReference = true := by
  cases t with
  | prim _ => exact absurd h (by simp [isPrimitive])
  | void => exact absurd rfl hvoid
  | _ => rfl

theorem ne_void_of_isReference {t : Ty} (h : t.isReference = true) : t ≠ .void := by
  rintro rfl
  exact absurd h (by simp [isReference])

/-- The class that a pattern of a type is tested against is a reference type. -/
theorem erasure_boxed_isReference {t : Ty} (hvoid : t ≠ .void) : t.erasure.boxed.isReference = true := by
  cases t with
  | void => exact absurd rfl hvoid
  | _ => rfl

end Ty

/-- A type that is not primitive takes every value. -/
theorem coerce_eq {t : Ty} (h : t.isPrimitive = false) (v : Value) : coerce t v = .ok v := by
  cases t with
  | prim _ => exact absurd h (by simp [Ty.isPrimitive])
  | _ => rfl

/-- A value is an instance of a type as it is of the wrapper of its erasure. -/
theorem Hierarchy.instanceOf_boxed (h : Hierarchy) (v : Value) (t : Ty) :
    h.instanceOf v t.erasure.boxed = h.instanceOf v t := by
  unfold instanceOf
  rw [Ty.erasure_boxed]

/-- A cast to a reference type leaves `null` and what is of the type as they are. -/
theorem Hierarchy.cast_eq {h : Hierarchy} {v : Value} {t : Ty} (ht : t.isReference = true)
    (hv : v.isNull = true ∨ h.instanceOf v t = true) : h.cast t v = .ok v := by
  unfold cast
  rw [if_neg (by simp [Ty.not_isPrimitive ht]), if_pos (by simpa using hv)]

namespace Lowering

open PatternIR.Flow (groups)
open Run (Ends)

/-! ## §2. Nodes, evaluated. -/

section

variable {setting : Setting ω} {m m₁ m' : Machine ω} {i : ExprInfo} {e l r : Expr} {v w : Value}

/-- A variable that has a value. -/
theorem ends_var (setting : Setting ω) (i : ExprInfo) {x : VarId} {c : Cell}
    (hc : m.env.get? (.var x) = some c) :
    ∃ m₁, Ends (fun k => evalExpr setting k (.ident i (.var x))) m (.ok c.value) m₁
      ∧ m₁.env = m.env ∧ m₁.visible = m.visible := by
  have hread : Ends (fun _ => Run.read setting.program.symbols i.id (.var x)) m (.ok c.value)
      { m with history := .read m.env.level i.id (.var x) c.origin :: m.history } := by
    refine .of_eq fun _ => ?_
    simp [Run.read, Environment.read?, hc, Run.ended]
  have hends := hread.step (g := fun k => evalExpr setting k (.ident i (.var x))) rfl fun _ => rfl
  exact ⟨_, hends, rfl, rfl⟩

/-- A test for a type, from its operand. -/
theorem ends_instanceOf {target : Ty} (he : Ends (fun k => evalExpr setting k e) m (.ok v) m') :
    Ends (fun k => evalExpr setting k (.instanceOf i e target)) m
      (.ok (.bool (setting.hierarchy.instanceOf v target))) m' := by
  have htest := Ends.bind (f := fun v _ => (pure (.bool (setting.hierarchy.instanceOf v target)) :
    Run ω Value)) he (.pure _ _)
  exact htest.step rfl fun _ => rfl

/-- A cast that succeeds. -/
theorem ends_cast {target : Ty} (he : Ends (fun k => evalExpr setting k e) m (.ok v) m')
    (hv : setting.hierarchy.cast target v = .ok w) :
    Ends (fun k => evalExpr setting k (.cast i target e)) m (.ok w) m' := by
  have hvalue : Ends (fun _ => (Run.ofExcept (setting.hierarchy.cast target v) : Run ω Value)) m' (.ok w)
      m' := by
    refine .of_eq fun _ => ?_
    rw [hv]
    rfl
  have hcast := Ends.bind (f := fun v _ =>
    (Run.ofExcept (setting.hierarchy.cast target v) : Run ω Value)) he hvalue
  exact hcast.step rfl fun _ => rfl

/-- An assignment to a variable ends as the conversion and the write do. -/
theorem ends_assigned {j : ExprInfo} {x : VarId} {r : Except Interrupt Value} {m₂ : Machine ω}
    (he : Ends (fun k => evalExpr setting k e) m (.ok v) m')
    (hwrite : (Run.ofExcept (coerce j.ty v) >>= fun v => Run.write (.var x) v .assigned >>= fun _ => pure v :
      Run ω Value) m' = Run.ended r m₂) :
    Ends (fun k => evalExpr setting k (.assign i (.ident j (.var x)) e)) m r m₂ := by
  have hassign := Ends.bind (f := fun v _ => (Run.ofExcept (coerce j.ty v) >>= fun v =>
    Run.write (.var x) v .assigned >>= fun _ => pure v : Run ω Value)) he (.of_eq fun _ => hwrite)
  exact hassign.step rfl fun _ => rfl

/-- An assignment to a variable, at the type of the variable. -/
theorem ends_assign {j : ExprInfo} {x : VarId} (he : Ends (fun k => evalExpr setting k e) m (.ok v) m')
    (hv : coerce j.ty v = .ok w) :
    Ends (fun k => evalExpr setting k (.assign i (.ident j (.var x)) e)) m (.ok w)
      (m'.written (.var x) w .assigned) := by
  refine ends_assigned he ?_
  rw [hv]
  rfl

/-- A comparison, from its operands. -/
theorem ends_eq (hl : Ends (fun k => evalExpr setting k l) m (.ok v) m₁)
    (hr : Ends (fun k => evalExpr setting k r) m₁ (.ok w) m') :
    Ends (fun k => evalExpr setting k (.binary i .eq l r)) m
      (.ok (.bool (equalValues (l.ty.isReference && r.ty.isReference) v w))) m' := by
  let compare (v w : Value) : Run ω Value :=
    Run.ofExcept (evalBinary .eq v w (l.ty.isReference && r.ty.isReference) i.ty)
  have hright : Ends (fun k => evalExpr setting k r >>= compare v) m₁
      (.ok (.bool (equalValues (l.ty.isReference && r.ty.isReference) v w))) m' :=
    Ends.bind (f := fun w _ => compare v w) hr (.of_eq fun _ => rfl)
  have hboth := Ends.bind (f := fun v k => evalExpr setting k r >>= compare v) hl hright
  exact hboth.step rfl fun _ => rfl

/-- What `&&` does with the value of its left operand. -/
def andThen (setting : Setting ω) (r : Expr) (v : Value) (k : Nat) : Run ω Value :=
  Run.truth v >>= fun t =>
    if t then evalExpr setting k r >>= fun w => Run.truth w >>= fun b => pure (.bool b)
    else pure (.bool false)

/-- A conjunction whose left operand does not hold. -/
theorem ends_and_false (hl : Ends (fun k => evalExpr setting k l) m (.ok (.bool false)) m') :
    Ends (fun k => evalExpr setting k (.binary i .and l r)) m (.ok (.bool false)) m' := by
  have hrest : Ends (andThen setting r (.bool false)) m' (.ok (.bool false)) m' := .of_eq fun _ => rfl
  exact (Ends.bind (f := andThen setting r) hl hrest).step rfl fun _ => rfl

/-- A conjunction whose left operand holds. -/
theorem ends_and_true {b : Bool} (hl : Ends (fun k => evalExpr setting k l) m (.ok (.bool true)) m₁)
    (hr : Ends (fun k => evalExpr setting k r) m₁ (.ok (.bool b)) m') :
    Ends (fun k => evalExpr setting k (.binary i .and l r)) m (.ok (.bool b)) m' := by
  have hrest : Ends (andThen setting r (.bool true)) m₁ (.ok (.bool b)) m' :=
    Ends.bind (f := fun w _ => Run.truth w >>= fun b => (pure (.bool b) : Run ω Value)) hr
      (.of_eq fun _ => rfl)
  exact (Ends.bind (f := andThen setting r) hl hrest).step rfl fun _ => rfl

/-- The test of the temporary: a certain match is not tested. -/
theorem ends_match (setting : Setting ω) (id : NodeId) (span : Span) (isCertain : Bool) {temp : VarId}
    (target tempTy : Ty) {c : Cell} (hc : m.env.get? (.var temp) = some c) :
    ∃ m₁, Ends (fun k => evalExpr setting k (matchNode id span isCertain temp target tempTy)) m
        (.ok (.bool (isCertain || setting.hierarchy.instanceOf c.value target))) m₁
      ∧ m₁.env = m.env ∧ m₁.visible = m.visible := by
  cases isCertain with
  | true => exact ⟨m, (Ends.pure (Value.bool true) m).step rfl fun _ => rfl, rfl, rfl⟩
  | false =>
      obtain ⟨m₁, h, henv, hvisible⟩ := ends_var setting ⟨id, tempTy, span⟩ hc
      exact ⟨m₁, ends_instanceOf h, henv, hvisible⟩

/-- Storage that keeps a value as it is: not the temporary, and of a type that
the value belongs to without a conversion. -/
structure KeptIn (x : VarId) (xTy : Ty) (temp : VarId) (v : Value) : Prop where
  apart : temp ≠ x
  typed : xTy ≠ .void
  same : coerce xTy v = .ok v

/-- A reference is kept in a variable as it is. -/
theorem KeptIn.of_reference {x temp : VarId} {xTy : Ty} (hx : temp ≠ x) (hty : xTy.isReference = true)
    (v : Value) : KeptIn x xTy temp v :=
  ⟨hx, Ty.ne_void_of_isReference hty, coerce_eq (Ty.not_isPrimitive hty) v⟩

/-- The assignment of the temporary to storage, and the temporary read again. -/
theorem ends_assign_held (setting : Setting ω) (id next : NodeId) (span : Span) {x temp : VarId}
    {varTy target : Ty} (tempTy : Ty) {c : Cell} (hc : m.env.get? (.var temp) = some c)
    (hkept : KeptIn x varTy temp c.value) (hcast : setting.hierarchy.cast target c.value = .ok c.value) :
    ∃ m₁ m₂, Ends (fun k => evalExpr setting k (assignNode id span x temp varTy target tempTy)) m
        (.ok c.value) m₁
      ∧ Ends (fun k => evalExpr setting k (castNode (next + 1) span target (heldNode next span temp tempTy)))
        m₁ (.ok c.value) m₂
      ∧ m₂.env = (m.written (.var x) c.value .assigned).env ∧ m₂.visible = m.visible := by
  obtain ⟨m₁, h₁, henv₁, hvisible₁⟩ := ends_var setting ⟨id + 1, tempTy, span⟩ hc
  have hassign := ends_assign (i := ⟨id + 3, varTy, span⟩) (j := ⟨id, varTy, span⟩) (x := x)
    (ends_cast (i := ⟨id + 2, target, span⟩) h₁ hcast) hkept.same
  have hc₁ : (m₁.written (.var x) c.value .assigned).env.get? (.var temp) = some c := by
    rw [m₁.written_get?_of_ne _ _ _ (by simpa using hkept.apart), henv₁]
    exact hc
  obtain ⟨m₂, h₂, henv₂, hvisible₂⟩ := ends_var setting ⟨next, tempTy, span⟩ hc₁
  refine ⟨_, m₂, hassign, ends_cast (i := ⟨next + 1, target, span⟩) h₂ hcast, ?_,
    hvisible₂.trans hvisible₁⟩
  rw [henv₂]
  show m₁.env.set _ _ _ = m.env.set _ _ _
  rw [henv₁]

/-- The assignment of the temporary to storage that keeps its value: it holds. -/
theorem ends_store (setting : Setting ω) (id : NodeId) (span : Span) {x temp : VarId} {varTy target : Ty}
    (tempTy : Ty) {c : Cell} (hc : m.env.get? (.var temp) = some c) (hkept : KeptIn x varTy temp c.value)
    (htarget : target.isReference = true) (hcast : setting.hierarchy.cast target c.value = .ok c.value) :
    ∃ m₁, Ends (fun k => evalExpr setting k (storeNode id span x temp varTy target tempTy)) m
        (.ok (.bool true)) m₁
      ∧ m₁.env = (m.written (.var x) c.value .assigned).env ∧ m₁.visible = m.visible := by
  have hsame : ∀ byReference, byReference = true → equalValues byReference c.value c.value = true := by
    rintro _ rfl
    simp [equalValues, Value.sameRef]
  unfold storeNode
  cases hprim : varTy.isPrimitive with
  | true =>
      -- what a primitive variable has been given is boxed before it is compared
      obtain ⟨m₁, m₂, hassign, hagain, henv, hvisible⟩ :=
        ends_assign_held setting id (id + 5) span tempTy hc hkept hcast
      have heq := ends_eq (i := ⟨id + 7, .boolean, span⟩)
        (ends_cast (i := ⟨id + 4, target, span⟩) hassign hcast) hagain
      rw [hsame _ (by simp [castNode, Expr.ty, Expr.info, htarget])] at heq
      exact ⟨m₂, heq, henv, hvisible⟩
  | false =>
      obtain ⟨m₁, m₂, hassign, hagain, henv, hvisible⟩ :=
        ends_assign_held setting id (id + 4) span tempTy hc hkept hcast
      have heq := ends_eq (i := ⟨id + 6, .boolean, span⟩) hassign hagain
      have hvar := Ty.isReference_of_ne_void hkept.typed hprim
      rw [hsame _ (by simp [assignNode, castNode, Expr.ty, Expr.info, hvar, htarget])] at heq
      exact ⟨m₂, heq, henv, hvisible⟩

end

/-! ## §3. A pattern and its test. -/

variable {setting setting' : Setting ω} {P P' : Place} {e e' : Expr} {i i' : ExprInfo}

/-- A variable takes any value as it is, whatever table it is in. -/
def TakesAll (setting : Setting ω) (x : VarId) : Prop :=
  ∀ sym, setting.program.symbols.var? x = some sym → sym.ty.isPrimitive = false

/-- A variable takes a value as it is, whatever table it is in. -/
def Takes (setting : Setting ω) (x : VarId) (v : Value) : Prop :=
  ∀ sym, setting.program.symbols.var? x = some sym → coerce sym.ty v = .ok v

/-- A variable that takes all values takes each. -/
theorem TakesAll.takes {x : VarId} (hx : TakesAll setting x) (v : Value) : Takes setting x v :=
  fun sym hsym => coerce_eq (hx sym hsym) v

/-- A declaration of a variable that takes its value. -/
theorem declare_apply {x : VarId} {v : Value} (hx : Takes setting x v) (m : Machine ω) :
    (Run.declare setting.program.symbols x v : Run ω Unit) m = .ok () (m.written (.var x) v .declared) := by
  unfold Run.declare
  cases hsym : setting.program.symbols.var? x with
  | none => rfl
  | some sym =>
      simp only [hx sym hsym]
      rfl

/-- The environment after the test of a temporary: a match is stored, if there is storage. -/
def testedEnv (m : Machine ω) (v : Value) (matched : Bool) : Option (VarId × Ty) → Environment
  | some (x, _) => if matched then (m.written (.var x) v .assigned).env else m.env
  | none => m.env

/-- What the lowered test of a pattern ends in, once the temporary holds the
value of the operand.  A match that is certain has to be a match, or `null`,
and the storage has to keep what matches as it is. -/
theorem IsTest.ends (setting : Setting ω) {span : Span} {isCertain : Bool} {temp : VarId}
    {ty tempTy : Ty} {id size : Nat} {storage : Option (VarId × Ty)} {test : Expr}
    (htest : IsTest span isCertain temp ty.erasure.boxed tempTy id storage test size)
    (hty : ty ≠ .void) {m : Machine ω} {c : Cell} (hc : m.env.get? (.var temp) = some c)
    (hkept : ∀ x xTy, storage = some (x, xTy) →
      (isCertain || setting.hierarchy.instanceOf c.value ty) = true → KeptIn x xTy temp c.value)
    (hcertain : isCertain = true →
      c.value.isNull = true ∨ setting.hierarchy.instanceOf c.value ty = true) :
    ∃ m₁, Ends (fun k => evalExpr setting k test) m
        (.ok (.bool (isCertain || setting.hierarchy.instanceOf c.value ty))) m₁
      ∧ m₁.visible = m.visible
      ∧ m₁.env = testedEnv m c.value (isCertain || setting.hierarchy.instanceOf c.value ty) storage := by
  have htarget := Ty.erasure_boxed_isReference hty
  -- the lowered test asks for the wrapper of the erased type, which makes no difference
  rw [← setting.hierarchy.instanceOf_boxed c.value ty] at hkept hcertain ⊢
  obtain ⟨m₁, h₁, henv, hvisible⟩ := ends_match setting id span isCertain ty.erasure.boxed tempTy hc
  cases htest with
  | plain => exact ⟨m₁, h₁, hvisible, henv⟩
  | stored x xTy =>
      cases hmatched : (isCertain || setting.hierarchy.instanceOf c.value ty.erasure.boxed) with
      | false =>
          rw [hmatched] at h₁
          exact ⟨m₁, ends_and_false h₁, hvisible, by simp [testedEnv, henv]⟩
      | true =>
          rw [hmatched] at h₁
          -- what matches is of the class, or `null` where the match was certain: the cast keeps it
          have hcast : setting.hierarchy.cast ty.erasure.boxed c.value = .ok c.value := by
            refine Hierarchy.cast_eq htarget ?_
            rcases Bool.or_eq_true_iff.mp hmatched with hc | hinst
            · exact hcertain hc
            · exact .inr hinst
          have hc₁ : m₁.env.get? (.var temp) = some c := by
            rw [henv]
            exact hc
          obtain ⟨m₂, h₂, henv₂, hvisible₂⟩ :=
            ends_store setting (id + matchSize isCertain) span tempTy hc₁ (hkept x xTy rfl hmatched)
              htarget hcast
          refine ⟨m₂, ends_and_true h₁ h₂, hvisible₂.trans hvisible, ?_⟩
          simp only [testedEnv, if_true]
          rw [henv₂]
          show m₁.env.set _ _ _ = m.env.set _ _ _
          rw [henv]

/-- A pattern that declares a binding: what matches is stored as it is, if it
belongs to the type of the binding without a conversion. -/
theorem matchPattern_declared {setting : Setting ω} {pattern : BindingPattern} {symbol : BindingSymbol}
    (hsymbol : setting.program.symbols.binding? pattern.binding = some symbol)
    (hdeclared : pattern.declared.isSome = true) {v : Value}
    (hv : setting.hierarchy.instanceOf v symbol.ty = true → coerce symbol.ty v = .ok v) (m : Machine ω) :
    matchPattern setting pattern v m
      = if setting.hierarchy.instanceOf v symbol.ty then
          .ok (.bool true) (m.written (.binding pattern.binding) v .matched)
        else .ok (.bool false) m := by
  have hdecl := Option.isNone_eq_false_iff.mpr hdeclared
  cases hinst : setting.hierarchy.instanceOf v symbol.ty with
  | false =>
      simp only [matchPattern, hsymbol, hdecl, hinst]
      rfl
  | true =>
      simp only [matchPattern, hsymbol, hdecl, hinst, hv hinst]
      rfl

/-- A temporary and its test, from the value of the temporary on. -/
def afterTemp (setting : Setting ω) (temp : VarId) (test : Expr) (v : Value) (k : Nat) : Run ω Value :=
  (Run.declare setting.program.symbols temp v >>= fun _ => evalDefs setting k []) >>= fun _ =>
    evalExpr setting (k + 1) test

/-- A let-expression of a temporary evaluates the operand, and goes on from its value. -/
theorem evalExpr_letTemp (setting : Setting ω) (i : ExprInfo) (temp : VarId) (e test : Expr) (k : Nat) :
    evalExpr setting (k + 1 + 1) (.letIn i [(temp, e)] test)
      = evalExpr setting k e >>= fun v => afterTemp setting temp test v k :=
  bind_assoc _ _ _

/-- The test ends as it does once the temporary holds the value. -/
theorem ends_afterTemp {temp : VarId} {test : Expr} {v : Value} {r : Except Interrupt Value}
    {m m' : Machine ω} (htemp : Takes setting temp v)
    (htest : Ends (fun k => evalExpr setting k test) (m.written (.var temp) v .declared) r m') :
    Ends (afterTemp setting temp test v) m r m' := by
  have hnone : Ends (fun k => evalDefs setting k []) (m.written (.var temp) v .declared) (.ok ())
      (m.written (.var temp) v .declared) := (Ends.pure () _).step rfl fun _ => rfl
  have hdeclare : Ends (fun k => Run.declare setting.program.symbols temp v >>= fun _ =>
      evalDefs setting k []) m (.ok ()) (m.written (.var temp) v .declared) :=
    Ends.bind (g := fun _ => Run.declare setting.program.symbols temp v)
      (f := fun _ k => evalDefs setting k []) (.of_eq fun _ => declare_apply htemp m) hnone
  exact Ends.bind (f := fun _ k => evalExpr setting (k + 1) test) hdeclare htest.shift

/-- What the test of a pattern tells is of the pattern alone, and only where it holds. -/
theorem gained_typeTest {s : Symbols} {ρ : Storage} {pattern : BindingPattern} {matched : Bool}
    {since : Nat} {f : Fact} (h : gained s ρ (.typeTest i e pattern) (.bool matched) since f) :
    matched = true ∧ ∃ x, ρ pattern.binding = some x ∧ f = .stored [pattern.binding] x since := by
  obtain ⟨g, x, hg, hx, rfl⟩ := gained_bool.mp h
  cases matched with
  | false => exact absurd hg (by simp [groups])
  | true =>
      simp only [groups, if_true, List.mem_singleton] at hg
      subst hg
      exact ⟨rfl, x, hx _ List.mem_cons_self, rfl⟩

/-- Storage of a pattern that nothing is known of: neither the pattern is of a
known group, nor its variable. -/
structure Unknown (s : Symbols) (ρ : Storage) (K : Facts) (leaf : BindingId) : Prop where
  isLeaf : s.isLeaf leaf = true
  behind : ∀ {x : VarId}, ρ leaf = some x → s.vars.size ≤ x.index
  group : ∀ {f : Fact}, K f → leaf ∉ f.group
  var : ∀ {f : Fact} {x : VarId}, K f → ρ leaf = some x → f.var? ≠ some x

/-- **A match on both sides**: the pattern keeps the value, and its storage, if it
has any, gets it from the temporary. -/
theorem Agree.matched {s : Symbols} {callers callers' : List Activation} {K : Facts} {ρ : Storage}
    {m m' m₁' : Machine ω} (h : Agree s callers callers' K m m') {pattern : BindingPattern}
    (hnew : Unknown s ρ K pattern.binding) {storage : Option (VarId × Ty)}
    (hstorage : ρ pattern.binding = storage.map Prod.fst) {v : Value} {since : Nat}
    (hsince : since ≤ m.env.clock) (henv : m₁'.env = testedEnv m' v true storage)
    (hvisible : m₁'.visible = m'.visible) :
    Agree s callers callers' (K.or (gained s ρ (.typeTest i e pattern) (.bool true) since))
      (m.written (.binding pattern.binding) v .matched) m₁' := by
  have hlook : (m.written (.binding pattern.binding) v .matched).visible = m₁'.visible :=
    h.visible.trans hvisible.symm
  cases storage with
  | none =>
      have h₁ := (h.writePattern hnew.isLeaf hnew.group v .matched).congr rfl henv hlook
      refine h₁.weaken ?_
      rintro f (hf | hf)
      · exact hf
      · obtain ⟨-, x, hx, -⟩ := gained_typeTest hf
        rw [hstorage] at hx
        exact absurd hx (by simp)
  | some slot =>
      obtain ⟨x, xTy⟩ := slot
      have hρ : ρ pattern.binding = some x := hstorage
      have hstored : (Fact.stored [pattern.binding] x since).Holds
          (m.written (.binding pattern.binding) v .matched) (m'.written (.var x) v .assigned) :=
        Agree.holds_stored List.mem_cons_self (fun _ _ _ _ hc => h.stamp_le hc) hsince
      have h₁ := (((h.writeStorage (hnew.behind hρ) (fun hf => hnew.var hf hρ) v .assigned).writePattern
        hnew.isLeaf hnew.group v .matched).insert hstored).congr rfl henv hlook
      refine h₁.weaken ?_
      rintro f (hf | hf)
      · exact .inl hf
      · obtain ⟨-, y, hy, rfl⟩ := gained_typeTest hf
        rw [hρ] at hy
        injection hy with hy
        exact .inr (by rw [hy])

/-- Where a test is ahead, nothing is known of its pattern. -/
theorem Point.unknown {s : Symbols} {callers callers' : List Activation} {K : Facts}
    {ts : List BindingId} {m m' : Machine ω} (h : Point s P callers callers' K ts m m')
    (hvalid : P.Valid s) {leaf : BindingId} (hleaf : s.isLeaf leaf = true) (hin : leaf ∈ ts) :
    Unknown s P.storage (K.insert (.after m.env.clock)) leaf := by
  refine ⟨hleaf, fun hx => (hvalid hx).1, ?_, ?_⟩
  · rintro f (hf | rfl) hgroup
    · exact h.ready.tests hf hgroup hin
    · exact absurd hgroup List.not_mem_nil
  · rintro f x (hf | rfl) hx hvar
    · exact h.ready.storage hf hvar hin hx
    · exact absurd hvar (by simp [Fact.var?])

/-- **A pattern and its lowered test.** -/
theorem Means.typeTest (twin : Twin setting setting') {pattern : BindingPattern}
    {symbol : BindingSymbol} (hsym : setting.program.symbols.binding? pattern.binding = some symbol)
    (hleaf : setting.program.symbols.isLeaf pattern.binding = true)
    (hdeclared : pattern.declared.isSome = true) (hty : symbol.ty.isReference = true)
    (he : Means setting setting' P e e') {temp : VarId}
    (hsize : setting.program.symbols.vars.size ≤ P.bound) (htemp : P.bound ≤ temp.index)
    (htakes : TakesAll setting' temp) {span : Span} {tempTy : Ty} {id size : Nat}
    {storage : Option (VarId × Ty)} {test : Expr}
    (htest : IsTest span false temp symbol.ty.erasure.boxed tempTy id storage test size)
    (hstorage : P.storage pattern.binding = storage.map Prod.fst)
    (hvalid : P.Valid setting.program.symbols)
    (hslot : ∀ x xTy, storage = some (x, xTy) → xTy.isReference = true) :
    Means setting setting' P (.typeTest i e pattern) (.letIn i' [(temp, e')] test) := by
  have hkept : ∀ {v : Value} (x : VarId) (xTy : Ty), storage = some (x, xTy) → KeptIn x xTy temp v := by
    intro v x xTy hx
    have hρ : P.storage pattern.binding = some x := by
      rw [hstorage, hx]
      rfl
    have hbound := (hvalid hρ).2
    refine .of_reference ?_ (hslot x xTy hx) v
    rintro rfl
    omega
  intro n calls callers callers' K m m' hpoint
  cases n with
  | zero => exact .zero rfl
  | succ n =>
      refine .step (h := fun k => evalExpr setting' (k + 1) (.letIn i' [(temp, e')] test)) rfl
        (fun _ => rfl) (.behind rfl (evalExpr_letTemp setting' i' temp e' test) ?_)
      rw [Expr.tests_typeTest] at hpoint
      have hoperand := hpoint.insertAfter.subset fun leaf => List.mem_cons_of_mem pattern.binding
      show Simulates n (evalExpr setting n e >>= matchPattern setting pattern) _ m m' _
      refine .bind (he n (calls.of_le (Nat.le_succ n)) hoperand) ?_ fun j _ _ =>
        Same.weaken fun hf => .inl hf
      intro v m₁ m₁' hsame
      have h₁ : Agree setting.program.symbols callers callers' (K.insert (.after m.env.clock)) m₁ m₁' :=
        Agree.weaken hsame .inl
      have hafter : m.env.clock ≤ m₁.env.clock := h₁.facts (f := .after m.env.clock) (.inr rfl)
      -- the temporary gets the value, and nothing is known of the temporary
      have h₂ : Agree setting.program.symbols callers callers' (K.insert (.after m.env.clock)) m₁
          (m₁'.written (.var temp) v .declared) := by
        refine h₁.writeStorage (Nat.le_trans hsize htemp) ?_ v .declared
        intro f hf hx
        have hbound := hoperand.ready.bound hf hx
        omega
      obtain ⟨m₂', hends, hvisible, henv⟩ := IsTest.ends setting' htest (Ty.ne_void_of_isReference hty)
        (Machine.written_get?_self m₁' (.var temp) v .declared) (fun x xTy hx _ => hkept x xTy hx)
        fun hcertain => Bool.noConfusion hcertain
      rw [twin.hierarchy, Bool.false_or] at hends henv
      have hlow := ends_afterTemp (htakes.takes v) hends
      have hmatch := matchPattern_declared hsym hdeclared (v := v)
        (fun _ => coerce_eq (Ty.not_isPrimitive hty) v) m₁
      cases hinst : setting.hierarchy.instanceOf v symbol.ty with
      | false =>
          rw [hinst] at hlow hmatch henv
          have henv₂ : m₂'.env = (m₁'.written (.var temp) v .declared).env := by
            rw [henv]
            cases storage <;> simp [testedEnv]
          refine .ends (r := .ok (.bool false)) hmatch hlow ?_
          refine (h₂.congr rfl henv₂ (h₂.visible.trans hvisible.symm)).weaken ?_
          rintro f (hf | hf)
          · exact .inl hf
          · exact absurd (gained_typeTest hf).1 (by simp)
      | true =>
          rw [hinst] at hlow hmatch henv
          have h₃ := h₂.matched (i := i) (e := e) (hpoint.unknown hvalid hleaf List.mem_cons_self)
            hstorage hafter henv hvisible
          refine .ends (r := .ok (.bool true)) hmatch hlow (Agree.weaken h₃ ?_)
          exact fun hf => hf.imp .inl fun hgained => hgained

/-! ## §4. Storage around an expression. -/

/-- A variable behind all others gets a default value. -/
structure Default (setting : Setting ω) (bound : Nat) (x : VarId) (value : Expr) : Prop where
  literal : ∃ j b, value = .literal j b
  bound : bound ≤ x.index
  takes : TakesAll setting x

/-- A default value in a variable that nothing is known of changes nothing. -/
theorem Agree.declare {s : Symbols} {callers callers' : List Activation} {K : Facts} {m m' : Machine ω}
    (h : Agree s callers callers' K m m') {bound : Nat} (hsize : s.vars.size ≤ bound)
    (hK : ∀ {f : Fact} {x : VarId}, K f → f.var? = some x → x.index < bound) {x : VarId} {value : Expr}
    (hx : Default setting' bound x value) :
    ∃ m₁', Ends (fun k => evalExpr setting' k value >>= fun v =>
        Run.declare setting'.program.symbols x v) m' (.ok ()) m₁'
      ∧ Agree s callers callers' K m m₁' := by
  obtain ⟨j, b, rfl⟩ := hx.literal
  have hliteral : Ends (fun k => evalExpr setting' k (.literal j b)) m' (.ok b.value) m' :=
    (Ends.pure b.value m').step rfl fun _ => rfl
  have hdeclare := Ends.bind (r := .ok ()) (f := fun v _ => Run.declare setting'.program.symbols x v)
    hliteral (.of_eq fun _ => declare_apply (hx.takes.takes b.value) m')
  refine ⟨_, hdeclare, h.writeStorage (Nat.le_trans hsize hx.bound) ?_ _ _⟩
  intro f hf hfx
  have hlt := hK hf hfx
  have hle := hx.bound
  omega

/-- Definitions of temporaries are unknown to the other side. -/
theorem Agree.defs {s : Symbols} {callers callers' : List Activation} {K : Facts} {m : Machine ω}
    {bound : Nat} (hsize : s.vars.size ≤ bound)
    (hK : ∀ {f : Fact} {x : VarId}, K f → f.var? = some x → x.index < bound) :
    ∀ {defs : List (VarId × Expr)} {m' : Machine ω}, Agree s callers callers' K m m' →
      (∀ d ∈ defs, Default setting' bound d.1 d.2) →
        ∃ m₁', Ends (fun k => evalDefs setting' k defs) m' (.ok ()) m₁'
          ∧ Agree s callers callers' K m m₁'
  | [], m', h, _ => ⟨m', (Ends.pure () m').step rfl fun _ => rfl, h⟩
  | d :: defs, m', h, hdefs => by
      obtain ⟨m₁', hd, h₁⟩ := h.declare hsize hK (hdefs d List.mem_cons_self)
      obtain ⟨m₂', hrest, h₂⟩ := Agree.defs hsize hK h₁ fun d hd => hdefs d (List.mem_cons_of_mem _ hd)
      have hboth := Ends.bind (f := fun _ k => evalDefs setting' k defs) hd hrest
      exact ⟨m₂', hboth.step rfl fun k => (bind_assoc _ _ _).symm, h₂⟩

/-- **Storage around an expression.** -/
theorem Means.letStorage (hsize : setting.program.symbols.vars.size ≤ P.bound)
    {defs : List (VarId × Expr)} (hdefs : ∀ d ∈ defs, Default setting' P.bound d.1 d.2)
    (h : Means setting setting' P e e') : Means setting setting' P e (.letIn i' defs e') := by
  intro n calls callers callers' K m m' hpoint
  obtain ⟨m₁', hends, hagree⟩ := Agree.defs hsize hpoint.ready.bound hpoint.agree hdefs
  let rest (_ : Unit) (k : Nat) : Run ω Value := evalExpr setting' k e'
  have hrest : Simulates n (evalExpr setting n e) (rest ()) m m₁' _ :=
    h n calls (hpoint.next hagree fun _ => id)
  exact (Simulates.after rest hends hrest).behind rfl fun _ => rfl

end Lowering

end PatternIR
