/-
  PatternIR.Proofs.Eval.Balance
  ─────────────────────────────
  **WHAT A CALL LEAVES BEHIND.**

  A call that ends in a value, or in any error but one, leaves the depth and
  all activations as they were.  The one is an argument that does not convert
  to the type of its parameter: by then the call is begun, and nothing ends it.
  Since a fault ends the callers too, each ends the call inside of it instead
  of its own, and one call is left begun in the end, whatever the depth.

    • `Machine.Balanced`, `Machine.Unended` — the two ways to leave a machine;
    • `Run.Tidy` — the same for computations inside of a call;
    • `callNamed_balances` — a call leaves the machine in one of them.
-/
import PatternIR.Proofs.Eval.Invariant

namespace PatternIR

variable {ω α β : Type}

/-! ## §1. Balanced machines. -/

/-- The faults of arguments that do not convert to the type of a parameter. -/
def Program.ArgumentFault (p : Program) (f : Fault) : Prop :=
  ∃ method ∈ p.methods, ∃ param ∈ method.params, ∃ symbol v,
    p.symbols.var? param = some symbol ∧ coerce symbol.ty v = .error f

namespace Machine

/-- The depth and all activations are the same again. -/
structure Balanced (m m' : Machine ω) : Prop extends m.Restored m' where
  depth : m'.depth = m.depth

/-- One call has begun in `m` and has not been ended. -/
structure Unended (m m' : Machine ω) : Prop where
  depth : m'.depth = m.depth + 1
  callers : m'.env.callers = m.env.current :: m.env.callers

/-- The same call is going on. -/
structure Level (m m' : Machine ω) : Prop where
  depth : m'.depth = m.depth
  callers : m'.env.callers = m.env.callers

/-- One call more has begun since, from some activation of the call in `m`. -/
structure Astray (m m' : Machine ω) : Prop where
  depth : m'.depth = m.depth + 1
  callers : ∃ a, m'.env.callers = a :: m.env.callers

variable {m m₁ m₂ : Machine ω}

/-- A machine is balanced with itself. -/
theorem Balanced.refl (m : Machine ω) : m.Balanced m := ⟨⟨rfl, rfl⟩, rfl⟩

/-- Balance composes. -/
theorem Balanced.trans (h : m.Balanced m₁) (h' : m₁.Balanced m₂) : m.Balanced m₂ :=
  ⟨⟨h'.current.trans h.current, h'.callers.trans h.callers⟩, h'.depth.trans h.depth⟩

/-- A balanced machine has the activations it had. -/
theorem Balanced.level (h : m.Balanced m₁) : m.Level m₁ := ⟨h.depth, h.callers⟩

/-- A call that was not ended has left its activation behind. -/
theorem Unended.astray (h : m.Unended m₁) : m.Astray m₁ := ⟨h.depth, _, h.callers⟩

/-- A machine is level with itself. -/
theorem Level.refl (m : Machine ω) : m.Level m := ⟨rfl, rfl⟩

/-- Levels compose. -/
theorem Level.trans (h : m.Level m₁) (h' : m₁.Level m₂) : m.Level m₂ :=
  ⟨h'.depth.trans h.depth, h'.callers.trans h.callers⟩

/-- A run may go astray after one that is level. -/
theorem Level.astray (h : m.Level m₁) (h' : m₁.Astray m₂) : m.Astray m₂ := by
  obtain ⟨a, ha⟩ := h'.callers
  exact ⟨by rw [h'.depth, h.depth], a, by rw [ha, h.callers]⟩

/-- The end of a call that goes on where it began. -/
theorem Level.leaveCall (h : m.entered.Level m₁) : m.Balanced (leaveCall m₁) := by
  refine ⟨restored_leaveCall h.callers, ?_⟩
  show m₁.depth - 1 = m.depth
  have hdepth : m₁.depth = m.depth + 1 := h.depth
  omega

/-- What should end the call ends the one inside of it. -/
theorem Astray.leaveCall (h : m.entered.Astray m₁) : m.Unended (leaveCall m₁) := by
  obtain ⟨a, ha⟩ := h.callers
  refine ⟨?_, ?_⟩
  · show m₁.depth - 1 = m.depth + 1
    have hdepth : m₁.depth = m.depth + 1 + 1 := h.depth
    omega
  · show (m₁.env.leave).callers = _
    unfold Environment.leave
    rw [ha]
    rfl

end Machine

/-! ## §2. Computations inside of a call. -/

/-- Every end of the computation is in the call it began in, but for some faults. -/
structure Run.Tidy (F : Fault → Prop) (c : Run ω α) : Prop where
  ok : ∀ {m m' : Machine ω} {a : α}, c m = .ok a m' → m.Level m'
  error : ∀ {m m' : Machine ω} {e : Stop}, c m = .error e m' →
    m.Level m' ∨ (∃ f, e = .interrupt (.fault f) ∧ F f) ∧ m.Astray m'

namespace Run.Tidy

variable {F : Fault → Prop}

theorem pure (a : α) : Tidy F (Pure.pure a : Run ω α) := by
  constructor
  · intro m m' b h
    injection h with _ h
    subst h
    exact .refl m
  · intro m m' e h
    injection h

/-- A stop without an effect. -/
theorem stop (e : Stop) : Tidy F (throw e : Run ω α) := by
  constructor
  · intro m m' b h
    injection h
  · intro m m' e h
    injection h with _ h
    subst h
    exact .inl (.refl m)

theorem ofExcept : ∀ x : Except Fault α, Tidy F (Run.ofExcept x : Run ω α)
  | .ok a => pure a
  | .error _ => stop _

/-- A step that neither begins nor ends a call. -/
theorem modify {f : Machine ω → Machine ω} (h : ∀ m : Machine ω, m.Level (f m)) :
    Tidy F (modify f : Run ω Unit) := by
  constructor
  · intro m m' a heq
    injection heq with _ heq
    subst heq
    exact h m
  · intro m m' e heq
    injection heq

/-- Reading changes nothing. -/
theorem read (s : Symbols) (node : NodeId) (sym : Sym) :
    Tidy F (Run.read s node sym : Run ω Value) := by
  constructor
  · intro m m' v h
    unfold Run.read at h
    split at h
    · injection h with _ h
      subst h
      exact ⟨rfl, rfl⟩
    · injection h
  · intro m m' e h
    unfold Run.read at h
    split at h
    · injection h
    · injection h with _ h
      subst h
      exact .inl (.refl m)

/-- A native method changes the host and nothing else. -/
theorem callNative (f : Native ω) (args : List Value) : Tidy F (callNative f args) := by
  constructor
  · intro m m' v h
    unfold PatternIR.callNative at h
    split at h
    · injection h with _ h
      subst h
      exact ⟨rfl, rfl⟩
    · injection h
  · intro m m' e h
    unfold PatternIR.callNative at h
    split at h
    · injection h
    · injection h with _ h
      subst h
      exact .inl ⟨rfl, rfl⟩

theorem bind {c : Run ω α} {f : α → Run ω β} (hc : Tidy F c) (hf : ∀ a, Tidy F (f a)) :
    Tidy F (c >>= f) := by
  constructor
  · intro m m' b h
    obtain ⟨a, m₁, h₁, h₂⟩ := bind_eq_ok.mp h
    exact (hc.ok h₁).trans ((hf a).ok h₂)
  · intro m m' e h
    rw [bind_apply] at h
    split at h
    next a m₁ h₁ =>
      have hlevel := hc.ok h₁
      rcases (hf a).error h with h₂ | ⟨hfault, h₂⟩
      · exact .inl (hlevel.trans h₂)
      · exact .inr ⟨hfault, hlevel.astray h₂⟩
    next e₁ m₁ h₁ =>
      injection h with he hm
      subst he hm
      exact hc.error h₁

/-- What becomes of an ending, once it is settled, changes no activation. -/
theorem settle {how : Except Stop α → Except Stop β} (hhow : Settles how) {c : Run ω α}
    (hc : Tidy F c) : Tidy F (settle how c) := by
  constructor
  · intro m m' b h
    rcases settle_eq_ok h with ⟨a, h₁, -⟩ | ⟨e, h₁, hb⟩
    · exact hc.ok h₁
    · rcases hc.error h₁ with hlevel | ⟨⟨f, rfl, -⟩, -⟩
      · exact hlevel
      · -- no statement catches a fault
        rw [hhow.fault] at hb
        exact absurd hb (by simp)
  · intro m m' e' h
    rcases settle_eq_error h with ⟨a, h₁, -⟩ | ⟨e, h₁, he⟩
    · exact .inl (hc.ok h₁)
    · rcases hc.error h₁ with hlevel | ⟨⟨f, rfl, hf⟩, hastray⟩
      · exact .inl hlevel
      · rw [hhow.fault] at he
        injection he with he
        exact .inr ⟨⟨f, he.symm, hf⟩, hastray⟩

/-- A write stays in the current activation. -/
theorem write (sym : Sym) (v : Value) (origin : Origin) :
    Tidy F (Run.write sym v origin : Run ω Unit) := modify fun _ => ⟨rfl, rfl⟩

/-- So does a declaration. -/
theorem declare (s : Symbols) (var : VarId) (v : Value) :
    Tidy F (Run.declare s var v : Run ω Unit) := by
  unfold Run.declare
  split
  · exact bind (ofExcept _) fun v => write _ v _
  · exact bind (pure _) fun v => write _ v _

variable (F) in
/-- So do the parameters of a call. -/
theorem bindParams (s : Symbols) : ∀ (params : List VarId) (args : List Value),
    Tidy F (PatternIR.bindParams s params args : Run ω Unit)
  | [], _ => pure _
  | _ :: _, [] => pure _
  | param :: params, arg :: args => bind (declare s param arg) fun _ => bindParams s params args

end Run.Tidy

/-! ## §3. Calls. -/

/-- A declaration that fails, fails on its value. -/
theorem Run.declare_error {s : Symbols} {var : VarId} {v : Value} {m m' : Machine ω} {e : Stop}
    (h : Run.declare s var v m = .error e m') : ∃ f symbol, e = .interrupt (.fault f)
      ∧ s.var? var = some symbol ∧ coerce symbol.ty v = .error f := by
  unfold Run.declare at h
  cases hsymbol : s.var? var with
  | none =>
      rw [hsymbol] at h
      injection h
  | some symbol =>
      cases hv : coerce symbol.ty v with
      | ok w =>
          simp only [hsymbol, hv] at h
          injection h
      | error f =>
          simp only [hsymbol, hv] at h
          injection h with he _
          exact ⟨f, symbol, he.symm, rfl, hv⟩

/-- Parameters that are not all bound: some argument does not convert. -/
theorem bindParams_error {s : Symbols} : ∀ {params : List VarId} {args : List Value}
    {m m' : Machine ω} {e : Stop}, bindParams s params args m = .error e m' →
      ∃ f, e = .interrupt (.fault f) ∧ ∃ param ∈ params, ∃ symbol v,
        s.var? param = some symbol ∧ coerce symbol.ty v = .error f
  | [], _, m, m', e, h => by injection h
  | _ :: _, [], m, m', e, h => by injection h
  | param :: params, arg :: args, m, m', e, h => by
      unfold bindParams at h
      rw [bind_apply] at h
      cases hdeclared : (Run.declare s param arg : Run ω Unit) m with
      | ok _ m₁ =>
          rw [hdeclared] at h
          obtain ⟨f, he, x, hx, hfault⟩ := bindParams_error h
          exact ⟨f, he, x, List.mem_cons_of_mem _ hx, hfault⟩
      | error e₁ m₁ =>
          rw [hdeclared] at h
          injection h with he _
          subst he
          obtain ⟨f, symbol, he, hsymbol, hfault⟩ := Run.declare_error hdeclared
          exact ⟨f, he, param, List.mem_cons_self, symbol, arg, hsymbol, hfault⟩

/-- Every end of the computation is balanced, but for some faults that leave a
call begun. -/
structure Run.Balances (F : Fault → Prop) (c : Run ω α) : Prop where
  ok : ∀ {m m' : Machine ω} {a : α}, c m = .ok a m' → m.Balanced m'
  error : ∀ {m m' : Machine ω} {e : Stop}, c m = .error e m' →
    m.Balanced m' ∨ (∃ f, e = .interrupt (.fault f) ∧ F f) ∧ m.Unended m'

namespace Run.Balances

variable {F : Fault → Prop}

/-- Seen from inside the call that it is made in. -/
theorem tidy {c : Run ω α} (h : Balances F c) : Tidy F c :=
  ⟨fun heq => (h.ok heq).level, fun heq =>
    (h.error heq).imp Machine.Balanced.level (And.imp_right Machine.Unended.astray)⟩

/-- A stop changes nothing. -/
theorem stop (e : Stop) : Balances F (throw e : Run ω α) := by
  constructor
  · intro m m' b h
    injection h
  · intro m m' e h
    injection h with _ h
    subst h
    exact .inl (.refl m)

end Run.Balances

/-- The end of a call, from the end of its body. -/
theorem Run.Tidy.bracketCall {F : Fault → Prop} {c : Run ω Unit} (hc : Tidy F c) (method : String)
    {m m₁ m' : Machine ω} (h₁ : m.entered.Level m₁) :
    (∀ {v}, bracketCall method c m₁ = .ok v m' → m.Balanced m')
      ∧ ∀ {e}, bracketCall method c m₁ = .error e m' →
        m.Balanced m' ∨ (∃ f, e = .interrupt (.fault f) ∧ F f) ∧ m.Unended m' := by
  have hsettled := hc.settle (settles_callResult method)
  unfold PatternIR.bracketCall
  constructor
  · intro v h
    split at h
    next w m₂ h₂ =>
      injection h with _ hm
      subst hm
      exact (h₁.trans (hsettled.ok h₂)).leaveCall
    next => injection h
  · intro e h
    split at h
    next => injection h
    next e₂ m₂ h₂ =>
      injection h with he hm
      subst he hm
      rcases hsettled.error h₂ with hlevel | ⟨hfault, hastray⟩
      · exact .inl (h₁.trans hlevel).leaveCall
      · exact .inr ⟨hfault, (h₁.astray hastray).leaveCall⟩

/-- **One call.** -/
theorem Run.Balances.callBy {p : Program} {f : Method} (hf : f ∈ p.methods) (args : List Value)
    {exec : Stmt → Run ω Unit} (hexec : ∀ body, Run.Tidy p.ArgumentFault (exec body)) :
    Run.Balances p.ArgumentFault (callBy p.symbols f args exec) := by
  constructor
  · intro m m' v h
    cases hadmitted : admission m.depth f args with
    | error e =>
        rw [callBy_error hadmitted] at h
        injection h
    | ok body =>
        rw [callBy_ok hadmitted] at h
        obtain ⟨_, m₁, hbound, h⟩ := bind_eq_ok.mp h
        exact ((hexec body).bracketCall f.name ((Run.Tidy.bindParams p.ArgumentFault _ _ _).ok hbound)).1 h
  · intro m m' e h
    cases hadmitted : admission m.depth f args with
    | error e =>
        rw [callBy_error hadmitted] at h
        exact (stop _).error h
    | ok body =>
        rw [callBy_ok hadmitted, bind_apply] at h
        split at h
        next hbound =>
          exact ((hexec body).bracketCall f.name ((Run.Tidy.bindParams p.ArgumentFault _ _ _).ok hbound)).2 h
        next e₁ m₁ hbound =>
          injection h with he hm
          subst he hm
          obtain ⟨fault, rfl, param, hparam, hfault⟩ := bindParams_error hbound
          -- binding parameters stays in the call, which nothing is left to end
          have hlevel : m.entered.Level m₁ :=
            ((Run.Tidy.bindParams (fun _ => False) _ _ _).error hbound).resolve_right
              fun h => h.1.elim fun _ h => h.2
          exact .inr ⟨⟨fault, rfl, f, hf, param, hparam, hfault⟩, hlevel.depth, hlevel.callers⟩

/-! ## §4. Evaluation. -/

/-- Evaluation as a whole is tidy, since each step of it is. -/
theorem Run.congruence_tidy (setting : Setting ω) :
    Congruence setting fun c _ => Tidy setting.program.ArgumentFault c where
  pure := .pure
  interrupt _ := .stop _
  write := .write
  read := .read _
  print _ := .modify fun _ => ⟨rfl, rfl⟩
  native _ := .callNative _
  bind := .bind
  settle hhow := .settle hhow
  call hf args _ _ hexec := (Balances.callBy (List.mem_of_find?_eq_some hf) args hexec).tidy

/-- **A call leaves the machine as balanced as it found it**, or it ends with
the fault of an argument that does not convert, and one call more is begun. -/
theorem callNamed_balances (setting : Setting ω) (n : Nat) (name : String) (args : List Value) :
    Run.Balances setting.program.ArgumentFault (callNamed setting n name args) := by
  unfold callNamed
  split
  next f hf =>
    cases n with
    | zero => exact .stop _
    | succ n =>
        have hbody := (Run.congruence_tidy setting).evaluation 0 (fun _ _ => .stop _) n
        exact .callBy (List.mem_of_find?_eq_some hf) args hbody.stmt
  next => exact .stop _

end PatternIR
