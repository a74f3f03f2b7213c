/-
  PatternIR.Proofs.Steps
  ──────────────────────
  **COMPUTATIONS THAT KEEP THEIR STATE ON FAILURE, step by step.**

  Evaluation and lowering are both of this kind.  A computation that succeeds
  is taken apart into its steps, each with the state before and after.

    • `bind_eq_ok` — a sequence succeeds if its parts do;
    • `pure_eq_ok` — what is returned, in an unchanged state;
    • `bind_pure_eq_ok`, `bind_bind_pure_eq_ok` — one or two parts, then what is returned.
-/

namespace PatternIR

variable {ε σ α β γ : Type} {s s' : σ}

/-- What `>>=` does on a state. -/
theorem bind_apply (c : EStateM ε σ α) (f : α → EStateM ε σ β) (s : σ) :
    (c >>= f) s = match c s with
      | .ok a s => f a s
      | .error e s => .error e s := by
  show EStateM.bind c f s = _
  unfold EStateM.bind
  cases c s <;> rfl

/-- A sequence succeeds if its first part does and the rest does from there. -/
theorem bind_eq_ok {c : EStateM ε σ α} {f : α → EStateM ε σ β} {b : β} :
    (c >>= f) s = .ok b s' ↔ ∃ a s₁, c s = .ok a s₁ ∧ f a s₁ = .ok b s' := by
  rw [bind_apply]
  cases c s with
  | ok a s₁ =>
      constructor
      · exact fun h => ⟨a, s₁, rfl, h⟩
      · rintro ⟨_, _, h₁, h₂⟩
        injection h₁ with ha hs
        subst ha hs
        exact h₂
  | error e s₁ =>
      constructor
      · exact fun h => nomatch h
      · rintro ⟨_, _, h₁, _⟩
        exact nomatch h₁

/-- A sequence succeeds step by step. -/
theorem exists_bind_ok {c : EStateM ε σ α} {f : α → EStateM ε σ β}
    (h : ∃ a s₁, c s = .ok a s₁ ∧ ∃ b s₂, f a s₁ = .ok b s₂) : ∃ b s₂, (c >>= f) s = .ok b s₂ := by
  obtain ⟨a, s₁, hc, b, s₂, hf⟩ := h
  exact ⟨b, s₂, bind_eq_ok.mpr ⟨a, s₁, hc, hf⟩⟩

/-- A result without an effect is that result, in the same state. -/
theorem pure_eq_ok {a b : α} : (pure a : EStateM ε σ α) s = .ok b s' ↔ b = a ∧ s' = s := by
  constructor
  · intro h
    injection h with ha hs
    exact ⟨ha.symm, hs.symm⟩
  · rintro ⟨rfl, rfl⟩
    rfl

/-- A computation the answer of which is returned in some form. -/
theorem bind_pure_eq_ok {c : EStateM ε σ α} {f : α → β} {b : β} :
    (c >>= fun a => pure (f a)) s = .ok b s' ↔ ∃ a, c s = .ok a s' ∧ b = f a := by
  rw [bind_eq_ok]
  constructor
  · rintro ⟨a, s₁, hc, hpure⟩
    obtain ⟨rfl, rfl⟩ := pure_eq_ok.mp hpure
    exact ⟨a, hc, rfl⟩
  · rintro ⟨a, hc, rfl⟩
    exact ⟨a, s', hc, rfl⟩

/-- Two computations the answers of which are returned together. -/
theorem bind_bind_pure_eq_ok {c : EStateM ε σ α} {d : α → EStateM ε σ β} {f : α → β → γ} {r : γ} :
    (c >>= fun a => d a >>= fun b => pure (f a b)) s = .ok r s'
      ↔ ∃ a s₁ b, c s = .ok a s₁ ∧ d a s₁ = .ok b s' ∧ r = f a b := by
  rw [bind_eq_ok]
  constructor
  · rintro ⟨a, s₁, hc, hrest⟩
    obtain ⟨b, hd, rfl⟩ := bind_pure_eq_ok.mp hrest
    exact ⟨a, s₁, b, hc, hd, rfl⟩
  · rintro ⟨a, s₁, b, hc, hd, rfl⟩
    exact ⟨a, s₁, hc, bind_pure_eq_ok.mpr ⟨b, hd, rfl⟩⟩

end PatternIR
