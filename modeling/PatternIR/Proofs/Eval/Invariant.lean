/-
  PatternIR.Proofs.Eval.Invariant
  ───────────────────────────────
  **WHAT EVERY EVALUATION KEEPS.**

  A relation between the machine before and the machine after that holds of
  each elementary step, and across the bracket of a call, holds of every
  evaluation.  A fault ends the whole run, and a call that faults on its
  arguments does not clean up, so nothing is said of faults: the relation is
  claimed where evaluation goes on, after a value and after a jump.

    • `Run.Keeps` — a computation respects a relation;
    • `Framed` — the relations that evaluation respects;
    • `Framed.kept` — it does, for every expression and statement.
-/
import PatternIR.Proofs.Eval.Congruence

namespace PatternIR

variable {ω α β : Type}

/-! ## §1. Computations that respect a relation. -/

/-- A test succeeds for truth values, without an effect. -/
theorem Run.truth_eq_ok {v : Value} {m m' : Machine ω} {b : Bool} :
    Run.truth v m = .ok b m' ↔ v = .bool b ∧ m' = m := by
  constructor
  · intro h
    cases v with
    | bool c =>
        injection h with hb hm
        exact ⟨by rw [hb], hm.symm⟩
    | _ => injection h
  · rintro ⟨rfl, rfl⟩
    rfl

/-- A step without effects, as far as it succeeds. -/
theorem Run.ofExcept_eq_ok {x : Except Fault α} {m m' : Machine ω} {a : α} :
    Run.ofExcept x m = .ok a m' ↔ x = .ok a ∧ m' = m := by
  cases x with
  | ok b =>
      refine pure_eq_ok.trans ?_
      rw [Except.ok.injEq, eq_comm]
  | error f =>
      constructor
      · exact fun h => nomatch h
      · exact fun h => nomatch h.1

/-- A condition that goes on has come out true or false. -/
theorem Run.cond_eq_ok {c : Run ω Value} {f : Bool → Run ω β} {m m' : Machine ω} {b : β} :
    (c >>= fun v => Run.truth v >>= f) m = .ok b m'
      ↔ ∃ t m₁, c m = .ok (.bool t) m₁ ∧ f t m₁ = .ok b m' := by
  rw [bind_eq_ok]
  constructor
  · rintro ⟨v, m₁, hv, h⟩
    obtain ⟨t, m₂, ht, hf⟩ := bind_eq_ok.mp h
    obtain ⟨rfl, rfl⟩ := Run.truth_eq_ok.mp ht
    exact ⟨t, m₂, hv, hf⟩
  · rintro ⟨t, m₁, hv, hf⟩
    exact ⟨.bool t, m₁, hv, bind_eq_ok.mpr ⟨t, m₁, Run.truth_eq_ok.mpr ⟨rfl, rfl⟩, hf⟩⟩

/-- A settled computation has a value if its ending is settled to one. -/
theorem settle_eq_ok {how : Except Stop α → Except Stop β} {c : Run ω α} {m m' : Machine ω}
    {b : β} (h : settle how c m = .ok b m') :
    (∃ a, c m = .ok a m' ∧ how (.ok a) = .ok b) ∨ ∃ e, c m = .error e m' ∧ how (.error e) = .ok b := by
  unfold settle at h
  split at h
  next a m₁ h₁ =>
    split at h
    next hb =>
      injection h with hv hm
      subst hv hm
      exact .inl ⟨a, h₁, hb⟩
    next => injection h
  next e m₁ h₁ =>
    split at h
    next hb =>
      injection h with hv hm
      subst hv hm
      exact .inr ⟨e, h₁, hb⟩
    next => injection h

/-- An ending that is settled to a stop comes from a result or from a stop. -/
theorem settle_eq_error {how : Except Stop α → Except Stop β} {c : Run ω α} {m m' : Machine ω}
    {e : Stop} (h : settle how c m = .error e m') :
    (∃ a, c m = .ok a m' ∧ how (.ok a) = .error e)
      ∨ ∃ e', c m = .error e' m' ∧ how (.error e') = .error e := by
  unfold settle at h
  split at h
  next a m₁ h₁ =>
    split at h
    next => injection h
    next hb =>
      injection h with hv hm
      subst hv hm
      exact .inl ⟨a, h₁, hb⟩
  next e' m₁ h₁ =>
    split at h
    next => injection h
    next hb =>
      injection h with hv hm
      subst hv hm
      exact .inr ⟨e', h₁, hb⟩

/-- The machine after a value or a jump stands in the relation to the machine before. -/
structure Run.Keeps (R : Machine ω → Machine ω → Prop) (c : Run ω α) : Prop where
  ok : ∀ {m m' : Machine ω} {a : α}, c m = .ok a m' → R m m'
  jump : ∀ {m m' : Machine ω} {i : Interrupt},
    c m = .error (.interrupt i) m' → i.isJump = true → R m m'

namespace Run.Keeps

variable {R : Machine ω → Machine ω → Prop}

theorem pure (refl : ∀ m, R m m) (a : α) : Keeps R (Pure.pure a : Run ω α) := by
  constructor
  · intro m m' b h
    injection h with _ h
    subst h
    exact refl m
  · intro m m' i h
    injection h

/-- An interruption without an effect. -/
theorem interrupt (refl : ∀ m, R m m) (i : Interrupt) : Keeps R (Run.interrupt i : Run ω α) := by
  constructor
  · intro m m' b h
    injection h
  · intro m m' i h _
    injection h with _ h
    subst h
    exact refl m

/-- Running out of fuel ends nothing. -/
theorem exhausted : Keeps R (throw .exhausted : Run ω α) := by
  constructor
  · intro m m' b h
    injection h
  · intro m m' i h
    injection h with h
    injection h

theorem ofExcept (refl : ∀ m, R m m) : ∀ x : Except Fault α, Keeps R (Run.ofExcept x : Run ω α)
  | .ok a => pure refl a
  | .error f => interrupt refl (.fault f)

theorem truth (refl : ∀ m, R m m) (v : Value) : Keeps R (Run.truth v : Run ω Bool) := by
  unfold Run.truth
  split
  · exact pure refl _
  · exact interrupt refl _

theorem bind (trans : ∀ m₁ m₂ m₃, R m₁ m₂ → R m₂ m₃ → R m₁ m₃) {c : Run ω α}
    {f : α → Run ω β} (hc : Keeps R c) (hf : ∀ a, Keeps R (f a)) : Keeps R (c >>= f) := by
  constructor
  · intro m m' b h
    rw [bind_apply] at h
    split at h
    next a m₁ h₁ => exact trans _ _ _ (hc.ok h₁) ((hf a).ok h)
    next => injection h
  · intro m m' i h hi
    rw [bind_apply] at h
    split at h
    next a m₁ h₁ => exact trans _ _ _ (hc.ok h₁) ((hf a).jump h hi)
    next e m₁ h₁ =>
      injection h with he hm
      subst he hm
      exact hc.jump h₁ hi

/-- What becomes of an ending leaves the machine alone. -/
theorem settle {how : Except Stop α → Except Stop β} (hhow : Settles how) {c : Run ω α}
    (hc : Keeps R c) : Keeps R (settle how c) := by
  constructor
  · intro m m' b h
    rcases settle_eq_ok h with ⟨a, h₁, -⟩ | ⟨e, h₁, hb⟩
    · exact hc.ok h₁
    · cases e with
      | interrupt i => exact hc.jump h₁ (hhow.ok hb)
      | exhausted =>
          rw [hhow.exhausted] at hb
          exact absurd hb (by simp)
  · intro m m' j h hj
    rcases settle_eq_error h with ⟨a, h₁, -⟩ | ⟨e, h₁, he⟩
    · exact hc.ok h₁
    · cases e with
      | interrupt i => exact hc.jump h₁ (hhow.jump he hj)
      | exhausted =>
          rw [hhow.exhausted] at he
          exact absurd he (by simp)

end Run.Keeps

/-! ## §2. Computations that never jump. -/

/-- An interrupt of the computation is a fault. -/
structure Run.OnlyFaults (c : Run ω α) : Prop where
  fault : ∀ {m m' : Machine ω} {i : Interrupt},
    c m = .error (.interrupt i) m' → i.isJump = false

namespace Run.OnlyFaults

/-- A result is no fault. -/
theorem pure (a : α) : OnlyFaults (Pure.pure a : Run ω α) := by
  constructor
  intro m m' i h
  injection h

/-- A fault is. -/
theorem fail (f : Fault) : OnlyFaults (Run.fail f : Run ω α) := by
  constructor
  intro m m' i h
  injection h with h
  injection h with h
  subst h
  rfl

/-- Running out of fuel is neither. -/
theorem exhausted : OnlyFaults (throw .exhausted : Run ω α) := by
  constructor
  intro m m' i h
  injection h with h
  injection h

theorem ofExcept : ∀ x : Except Fault α, OnlyFaults (Run.ofExcept x : Run ω α)
  | .ok a => pure a
  | .error f => fail f

theorem truth (v : Value) : OnlyFaults (Run.truth v : Run ω Bool) := by
  unfold Run.truth
  split
  · exact pure _
  · exact fail _

theorem bind {c : Run ω α} {f : α → Run ω β} (hc : OnlyFaults c) (hf : ∀ a, OnlyFaults (f a)) :
    OnlyFaults (c >>= f) := by
  constructor
  intro m m' i h
  rw [bind_apply] at h
  split at h
  next a m₁ _ => exact (hf a).fault h
  next e m₁ h₁ =>
    injection h with he hm
    subst he hm
    exact hc.fault h₁

/-- A write never ends early. -/
theorem write (sym : Sym) (v : Value) (origin : Origin) :
    OnlyFaults (Run.write sym v origin : Run ω Unit) := by
  constructor
  intro m m' i h
  injection h

/-- A read ends early by a fault only. -/
theorem read (s : Symbols) (node : NodeId) (sym : Sym) :
    OnlyFaults (Run.read s node sym : Run ω Value) := by
  constructor
  intro m m' i h
  unfold Run.read at h
  split at h
  · injection h
  · injection h with h _
    injection h with h
    subst h
    rfl

/-- A declaration, by the fault of its conversion. -/
theorem declare (s : Symbols) (var : VarId) (v : Value) :
    OnlyFaults (Run.declare s var v : Run ω Unit) := by
  unfold Run.declare
  split
  · exact bind (ofExcept _) fun v => write _ v _
  · exact bind (pure _) fun v => write _ v _

theorem bindParams (s : Symbols) : ∀ (params : List VarId) (args : List Value),
    OnlyFaults (PatternIR.bindParams s params args : Run ω Unit)
  | [], _ => pure _
  | _ :: _, [] => pure _
  | param :: params, arg :: args => bind (declare s param arg) fun _ => bindParams s params args

end Run.OnlyFaults

/-! ## §3. The relations that evaluation respects. -/

/-- A preorder on machines that holds of every elementary step, and across a
call if it holds inside. -/
structure Framed (R : Machine ω → Machine ω → Prop) : Prop where
  refl : ∀ m, R m m
  trans : ∀ m₁ m₂ m₃, R m₁ m₂ → R m₂ m₃ → R m₁ m₃
  write : ∀ m sym v origin, R m { m with
    env := m.env.set sym v origin
    history := .wrote m.env.level sym origin :: m.history }
  read : ∀ m node sym origin, R m { m with
    history := .read m.env.level node sym origin :: m.history }
  print : ∀ (m : Machine ω) text, R m { m with output := m.output ++ text }
  host : ∀ (m : Machine ω) host, R m { m with host }
  call : ∀ m m', R { m with depth := m.depth + 1, env := m.env.enter } m' → R m (leaveCall m')

namespace Framed

variable {R : Machine ω → Machine ω → Prop} (hR : Framed R) (setting : Setting ω)

include hR

/-- A write is one of the steps. -/
theorem keeps_write (sym : Sym) (v : Value) (origin : Origin) :
    Run.Keeps R (Run.write sym v origin : Run ω Unit) := by
  constructor
  · intro m m' a h
    injection h with _ h
    subst h
    exact hR.write m sym v origin
  · intro m m' i h
    injection h

/-- A read that finds nothing leaves the machine as it is. -/
theorem keeps_read (s : Symbols) (node : NodeId) (sym : Sym) :
    Run.Keeps R (Run.read s node sym : Run ω Value) := by
  constructor
  · intro m m' a h
    unfold Run.read at h
    split at h
    · injection h with _ h
      subst h
      exact hR.read m node sym _
    · injection h
  · intro m m' i h hi
    rw [(Run.OnlyFaults.read s node sym).fault h] at hi
    exact absurd hi (by simp)

/-- A declaration is a write after a conversion. -/
theorem keeps_declare (s : Symbols) (var : VarId) (v : Value) :
    Run.Keeps R (Run.declare s var v : Run ω Unit) := by
  unfold Run.declare
  split
  · exact .bind hR.trans (.ofExcept hR.refl _) fun v => hR.keeps_write _ v _
  · exact .bind hR.trans (.pure hR.refl _) fun v => hR.keeps_write _ v _

/-- Printing is one of the steps. -/
theorem keeps_print (text : String) : Run.Keeps R (Run.print text : Run ω Unit) := by
  constructor
  · intro m m' a h
    injection h with _ h
    subst h
    exact hR.print m text
  · intro m m' i h
    injection h

/-- A native method is one of the steps. -/
theorem keeps_callNative (f : Native ω) (args : List Value) : Run.Keeps R (callNative f args) := by
  constructor
  · intro m m' a h
    unfold callNative at h
    split at h
    · injection h with _ h
      subst h
      exact hR.host m _
    · injection h
  · intro m m' i h _
    unfold callNative at h
    split at h
    · injection h
    · injection h with _ h
      subst h
      exact hR.host m _

theorem keeps_bindParams (s : Symbols) : ∀ (params : List VarId) (args : List Value),
    Run.Keeps R (bindParams s params args : Run ω Unit)
  | [], _ => .pure hR.refl _
  | _ :: _, [] => .pure hR.refl _
  | param :: params, arg :: args =>
      .bind hR.trans (hR.keeps_declare s param arg) fun _ => keeps_bindParams s params args

/-- Across a call holds what follows from what is kept inside; a fault on entry
is none of this. -/
theorem keeps_across {S : Machine ω → Machine ω → Prop} (s : Symbols) (f : Method) (args : List Value)
    {exec : Stmt → Run ω Unit} (hexec : ∀ body, Run.Keeps R (exec body))
    (hcall : ∀ m m', R m.entered m' → S m (leaveCall m')) : Run.Keeps S (callBy s f args exec) := by
  have hinside : ∀ body, Run.Keeps R (bindParams s f.params args >>= fun _ =>
      settle (callResult f.name) (exec body)) := fun body =>
    .bind hR.trans (hR.keeps_bindParams _ _ _) fun _ =>
      .settle (settles_callResult f.name) (hexec body)
  constructor
  · intro m m' v h
    cases hadmit : admission m.depth f args with
    | error e =>
        rw [callBy_error hadmit] at h
        injection h
    | ok body =>
        rw [callBy_ok hadmit, bind_apply] at h
        split at h
        next m₁ h₁ =>
          unfold bracketCall at h
          split at h
          next w m₂ h₂ =>
            injection h with _ hm
            subst hm
            refine hcall m m₂ ((hinside body).ok (a := w) ?_)
            rw [bind_apply, h₁]
            exact h₂
          next => injection h
        next => injection h
  · intro m m' i h hi
    cases hadmit : admission m.depth f args with
    | error e =>
        rw [callBy_error hadmit] at h
        injection h with h
        injection h with h
        subst h
        exact absurd hi (by simp [Interrupt.isJump])
    | ok body =>
        rw [callBy_ok hadmit, bind_apply] at h
        split at h
        next m₁ h₁ =>
          unfold bracketCall at h
          split at h
          next => injection h
          next e m₂ h₂ =>
            injection h with he hm
            subst he hm
            refine hcall m m₂ ((hinside body).jump ?_ hi)
            rw [bind_apply, h₁]
            exact h₂
        next e m₁ h₁ =>
          -- converting the arguments can only fault
          injection h with he hm
          subst he hm
          rw [(Run.OnlyFaults.bindParams _ _ _).fault h₁] at hi
          exact absurd hi (by simp)

/-- Across a call, what its body keeps is kept. -/
theorem keeps_callBy (s : Symbols) (f : Method) (args : List Value) {exec : Stmt → Run ω Unit}
    (hexec : ∀ body, Run.Keeps R (exec body)) : Run.Keeps R (callBy s f args exec) :=
  hR.keeps_across s f args hexec hR.call

end Framed

/-! ## §4. Evaluation respects them. -/

/-- The rest of an `if` behind its condition. -/
def execBranch (setting : Setting ω) (y : Stmt) (no : Option Stmt) (outcome : Bool) (n : Nat) :
    Run ω Unit :=
  if outcome then execStmt setting n y
  else match no with
    | some s => execStmt setting n s
    | none => pure ()

/-- Everything the evaluator does with the given fuel respects a relation. -/
structure Kept (R : Machine ω → Machine ω → Prop) (setting : Setting ω) (n : Nat) : Prop where
  expr : ∀ e, Run.Keeps R (evalExpr setting n e)
  args : ∀ es, Run.Keeps R (evalArgs setting n es)
  defs : ∀ ds, Run.Keeps R (evalDefs setting n ds)
  all : ∀ es, Run.Keeps R (evalAll setting n es)
  call : ∀ {name m}, setting.program.method? name = some m → ∀ args,
    Run.Keeps R (callMethod setting n m args)
  stmt : ∀ s, Run.Keeps R (execStmt setting n s)
  stmts : ∀ ss, Run.Keeps R (execAll setting n ss)
  whileDo : ∀ label c b, Run.Keeps R (execWhile setting n label c b)
  doWhile : ∀ label b c, Run.Keeps R (execDo setting n label b c)
  forDo : ∀ label c es b, Run.Keeps R (execFor setting n label c es b)

namespace Framed

variable {R : Machine ω → Machine ω → Prop} (hR : Framed R) (setting : Setting ω)

include hR

/-- Whatever each step keeps, evaluation keeps. -/
theorem congruence : Run.Congruence setting fun c _ => Run.Keeps R c where
  pure := .pure hR.refl
  interrupt := .interrupt hR.refl
  write := hR.keeps_write
  read := hR.keeps_read _
  print := hR.keeps_print
  native _ := hR.keeps_callNative _
  bind := .bind hR.trans
  settle hhow := .settle hhow
  call _ args _ _ hexec := hR.keeps_callBy _ _ args hexec

/-- **Evaluation keeps every framed relation.** -/
theorem kept (n : Nat) : Kept R setting n := by
  have h := (hR.congruence setting).evaluation 0 (fun _ _ => .exhausted) n
  exact ⟨h.expr, h.args, h.defs, h.all, h.call, h.stmt, h.stmts, h.whileDo, h.doWhile, h.forDo⟩

end Framed

end PatternIR
