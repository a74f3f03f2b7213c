/-
  PatternIR.Proofs.Eval.Simulation
  ────────────────────────────────
  **ONE COMPUTATION SIMULATED BY ANOTHER that may need more fuel.**

  A computation with fuel `n` is simulated by a family of computations, one
  for each fuel:

    • if it ends, then so do all members with enough fuel, in the same way,
      and none ends in another way;
    • if it is exhausted, then so is every member with no more fuel than `n`.

  Hence the two end for the same machines and in the same way.  A simulation
  is put together along the steps of a computation, and what the simulating
  side does besides goes in front of it (`Simulates.after`).
-/
import PatternIR.Proofs.Eval.Invariant

namespace PatternIR

variable {ω α β : Type}

/-! ## §1. Endings. -/

/-- The stop behind an ending, if it is not a value. -/
def Stop.ofExcept : Except Interrupt α → Except Stop α
  | .ok a => .ok a
  | .error i => .error (.interrupt i)

/-- How a computation that is not exhausted ends. -/
def Run.ended : Except Interrupt α → Machine ω → EStateM.Result Stop (Machine ω) α
  | .ok a, m => .ok a m
  | .error i, m => .error (.interrupt i) m

section

variable {how : Except Stop α → Except Stop β} {c : Run ω α} {body : Run ω Unit} {method : String}
  {m m₁ : Machine ω}

/-- An ending is settled as `how` says. -/
theorem settle_ended {r : Except Interrupt α} {r' : Except Interrupt β} (hc : c m = Run.ended r m₁)
    (hr : how (Stop.ofExcept r) = Stop.ofExcept r') : settle how c m = Run.ended r' m₁ := by
  unfold settle
  rw [hc]
  cases r with
  | ok a =>
      simp only [Run.ended, Stop.ofExcept] at hr ⊢
      rw [hr]
      cases r' <;> rfl
  | error i =>
      simp only [Run.ended, Stop.ofExcept] at hr ⊢
      rw [hr]
      cases r' <;> rfl

/-- Where `how` settles nothing without fuel, neither is anything settled. -/
theorem settle_exhausted (hc : c m = .error .exhausted m₁)
    (hhow : how (.error .exhausted) = .error .exhausted) : settle how c m = .error .exhausted m₁ := by
  unfold settle
  rw [hc]
  simp only
  rw [hhow]

/-- A call ends as its body is settled, and has been left then. -/
theorem bracketCall_ended {r : Except Interrupt Unit} {r' : Except Interrupt Value}
    (hc : body m = Run.ended r m₁) (hr : callResult method (Stop.ofExcept r) = Stop.ofExcept r') :
    bracketCall method body m = Run.ended r' (leaveCall m₁) := by
  unfold bracketCall
  rw [settle_ended hc hr]
  cases r' <;> rfl

/-- A call without fuel for its body is left as well. -/
theorem bracketCall_exhausted (hc : body m = .error .exhausted m₁) :
    bracketCall method body m = .error .exhausted (leaveCall m₁) := by
  unfold bracketCall
  rw [settle_exhausted hc rfl]

end

/-- Given enough fuel the computations end so, and they never end otherwise. -/
structure Run.Ends (g : Nat → Run ω α) (m : Machine ω) (r : Except Interrupt α) (m' : Machine ω) :
    Prop where
  late : ∃ enough, ∀ k, enough ≤ k → g k m = ended r m'
  early : ∀ k, g k m = ended r m' ∨ ∃ m₁, g k m = .error .exhausted m₁

namespace Run.Ends

variable {g : Nat → Run ω α} {m m₁ m' : Machine ω}

/-- A run that ends so with every amount of fuel. -/
theorem of_eq {r : Except Interrupt α} (h : ∀ k, g k m = Run.ended r m') : Ends g m r m' :=
  ⟨⟨0, fun k _ => h k⟩, fun k => .inl (h k)⟩

theorem pure (a : α) (m : Machine ω) : Ends (fun _ => (Pure.pure a : Run ω α)) m (.ok a) m :=
  of_eq fun _ => rfl

/-- Computations that need one more unit of fuel. -/
theorem step {h : Nat → Run ω α} (hzero : g 0 = throw .exhausted) (hsucc : ∀ k, g (k + 1) = h k)
    {r : Except Interrupt α} (hends : Ends h m r m') : Ends g m r m' := by
  obtain ⟨enough, hlate⟩ := hends.late
  constructor
  · refine ⟨enough + 1, ?_⟩
    intro k hk
    cases k with
    | zero => omega
    | succ k =>
        rw [hsucc]
        exact hlate k (by omega)
  · intro k
    cases k with
    | zero => exact .inr ⟨m, by rw [hzero]; rfl⟩
    | succ k =>
        rw [hsucc]
        exact hends.early k

/-- Computations that end in their way where the given ones end, and are exhausted
where those are. -/
theorem image {h : Nat → Run ω β} {r : Except Interrupt α} {r' : Except Interrupt β} {m₂ m₂' : Machine ω}
    (hg : Ends g m r m') (hended : ∀ k, g k m = Run.ended r m' → h k m₂ = Run.ended r' m₂')
    (hstopped : ∀ k m₁, g k m = .error .exhausted m₁ → ∃ m₃, h k m₂ = .error .exhausted m₃) :
    Ends h m₂ r' m₂' := by
  obtain ⟨enough, hlate⟩ := hg.late
  refine ⟨⟨enough, fun k hk => hended k (hlate k hk)⟩, ?_⟩
  intro k
  rcases hg.early k with hk | ⟨m₁, hk⟩
  · exact .inl (hended k hk)
  · exact .inr (hstopped k m₁ hk)

/-- Computations that go on alike, from another machine. -/
theorem congr {h : Nat → Run ω α} {r : Except Interrupt α} (heq : ∀ k, g k m = h k m₁)
    (hends : Ends h m₁ r m') : Ends g m r m' :=
  hends.image (fun k hk => (heq k).trans hk) fun k m₂ hk => ⟨m₂, (heq k).trans hk⟩

/-- With one unit of fuel more each. -/
theorem shift {r : Except Interrupt α} (h : Ends g m r m') : Ends (fun k => g (k + 1)) m r m' := by
  obtain ⟨enough, hlate⟩ := h.late
  exact ⟨⟨enough, fun k hk => hlate (k + 1) (by omega)⟩, fun k => h.early (k + 1)⟩

/-- One after the other, with enough fuel for both. -/
theorem bind {f : α → Nat → Run ω β} {a : α} {r : Except Interrupt β} (hg : Ends g m (.ok a) m₁)
    (hf : Ends (f a) m₁ r m') : Ends (fun k => g k >>= fun a => f a k) m r m' := by
  obtain ⟨n₁, h₁⟩ := hg.late
  obtain ⟨n₂, h₂⟩ := hf.late
  constructor
  · refine ⟨max n₁ n₂, ?_⟩
    intro k hk
    rw [bind_apply, h₁ k (by omega)]
    exact h₂ k (by omega)
  · intro k
    rcases hg.early k with h | ⟨m₂, h⟩
    · have hbind : (g k >>= fun a => f a k) m = f a k m₁ := by
        rw [bind_apply, h]
        rfl
      rw [hbind]
      exact hf.early k
    · exact .inr ⟨m₂, by rw [bind_apply, h]⟩

/-- An interruption of the first is the ending of both. -/
theorem bind_error {f : α → Nat → Run ω β} {i : Interrupt} (hg : Ends g m (.error i) m') :
    Ends (fun k => g k >>= fun a => f a k) m (.error i) m' := by
  refine hg.image (fun k hk => ?_) fun k m₁ hk => ⟨m₁, ?_⟩
  · rw [bind_apply, hk]
    rfl
  · rw [bind_apply, hk]

/-- What ends in one way does not end in another. -/
theorem unique {r r' : Except Interrupt α} {m₂ : Machine ω} {k : Nat} (hg : Ends g m r m')
    (h : g k m = Run.ended r' m₂) : r' = r ∧ m₂ = m' := by
  rcases hg.early k with h' | ⟨m₃, h'⟩
  · rw [h'] at h
    cases r <;> cases r' <;> simp_all [Run.ended]
  · rw [h'] at h
    cases r' <;> simp [Run.ended] at h

end Run.Ends

/-! ## §2. Simulations. -/

/-- The computation `c`, which has fuel `n`, is simulated from `m` by the
family `g` from `m'`, and `Q` holds of the two machines at the end. -/
inductive Simulates (n : Nat) (c : Run ω α) (g : Nat → Run ω α) (m m' : Machine ω)
    (Q : Except Interrupt α → Machine ω → Machine ω → Prop) : Prop
  | ends {r : Except Interrupt α} {m₁ m₁' : Machine ω} (hc : c m = Run.ended r m₁)
      (hg : Run.Ends g m' r m₁') (post : Q r m₁ m₁')
  | exhausted {m₁ : Machine ω} (hc : c m = .error .exhausted m₁)
      (hg : ∀ k, k ≤ n → ∃ m₁', g k m' = .error .exhausted m₁')

namespace Simulates

variable {n : Nat} {c : Run ω α} {g : Nat → Run ω α} {m m' : Machine ω}
  {Q : Except Interrupt α → Machine ω → Machine ω → Prop}

/-- A result without an effect is simulated by one. -/
theorem pure {a : α} (post : Q (.ok a) m m') :
    Simulates n (Pure.pure a : Run ω α) (fun _ => Pure.pure a) m m' Q :=
  .ends (r := .ok a) rfl (.pure a m') post

/-- An interruption by the same interruption. -/
theorem interrupt {i : Interrupt} (post : Q (.error i) m m') :
    Simulates n (Run.interrupt i : Run ω α) (fun _ => Run.interrupt i) m m' Q :=
  .ends (r := .error i) rfl (.of_eq fun _ => rfl) post

/-- No fuel on both sides. -/
theorem zero (hg : g 0 = throw .exhausted) :
    Simulates 0 (throw .exhausted : Run ω α) g m m' Q := by
  have hnone : (throw .exhausted : Run ω α) m = .error .exhausted m := rfl
  refine .exhausted hnone ?_
  intro k hk
  rw [Nat.le_zero.mp hk, hg]
  exact ⟨m', rfl⟩

/-- One unit of fuel on both sides. -/
theorem step {h : Nat → Run ω α} (hzero : g 0 = throw .exhausted) (hsucc : ∀ k, g (k + 1) = h k)
    (hc : Simulates n c h m m' Q) : Simulates (n + 1) c g m m' Q := by
  cases hc with
  | ends hc hh post => exact .ends hc (.step hzero hsucc hh) post
  | exhausted hc hh =>
      refine .exhausted hc ?_
      intro k hk
      cases k with
      | zero => exact ⟨m', by rw [hzero]; rfl⟩
      | succ k =>
          rw [hsucc]
          exact hh k (by omega)

/-- Computations that go on alike, from other machines. -/
theorem congr {c₁ : Run ω α} {g₁ : Nat → Run ω α} {m₁ m₁' : Machine ω} (hc : c m = c₁ m₁)
    (hg : ∀ k, g k m' = g₁ k m₁') (h : Simulates n c₁ g₁ m₁ m₁' Q) : Simulates n c g m m' Q := by
  cases h with
  | ends hc₁ hg₁ post => exact .ends (hc.trans hc₁) (hg₁.congr hg) post
  | exhausted hc₁ hg₁ =>
      refine .exhausted (hc.trans hc₁) ?_
      intro k hk
      rw [hg]
      exact hg₁ k hk

/-- Less fuel on the side that is simulated asks for less. -/
theorem of_le {n' : Nat} (hn : n ≤ n') (hc : Simulates n' c g m m' Q) : Simulates n c g m m' Q := by
  cases hc with
  | ends hc hg post => exact .ends hc hg post
  | exhausted hc hg => exact .exhausted hc fun k hk => hg k (by omega)

/-- A unit of fuel more on the simulating side. -/
theorem behind {h : Nat → Run ω α} (hzero : g 0 = throw .exhausted) (hsucc : ∀ k, g (k + 1) = h k)
    (hc : Simulates n c h m m' Q) : Simulates n c g m m' Q :=
  (step hzero hsucc hc).of_le (Nat.le_succ n)

/-- What is known of the end may be weakened. -/
theorem mono {R : Except Interrupt α → Machine ω → Machine ω → Prop} (hc : Simulates n c g m m' Q)
    (h : ∀ r m₁ m₁', Q r m₁ m₁' → R r m₁ m₁') : Simulates n c g m m' R := by
  cases hc with
  | ends hc hg post => exact .ends hc hg (h _ _ _ post)
  | exhausted hc hg => exact .exhausted hc hg

/-- What is simulated has come out so. -/
theorem tracked (hc : Simulates n c g m m' Q) :
    Simulates n c g m m' fun r m₁ m₁' => c m = Run.ended r m₁ ∧ Q r m₁ m₁' := by
  cases hc with
  | ends hc hg post => exact .ends hc hg ⟨hc, post⟩
  | exhausted hc hg => exact .exhausted hc hg

/-- **Steps in sequence.** -/
theorem bind {R : Except Interrupt β → Machine ω → Machine ω → Prop} {f : α → Run ω β}
    {f' : α → Nat → Run ω β} (hc : Simulates n c g m m' Q)
    (hf : ∀ a m₁ m₁', Q (.ok a) m₁ m₁' → Simulates n (f a) (f' a) m₁ m₁' R)
    (hi : ∀ i m₁ m₁', Q (.error i) m₁ m₁' → R (.error i) m₁ m₁') :
    Simulates n (c >>= f) (fun k => g k >>= fun a => f' a k) m m' R := by
  cases hc with
  | @ends r m₁ m₁' hc hg post =>
      cases r with
      | error i =>
          have hbind : (c >>= f) m = Run.ended (.error i) m₁ := by
            rw [bind_apply, hc]
            rfl
          exact .ends hbind hg.bind_error (hi i m₁ m₁' post)
      | ok a =>
          have hbind : (c >>= f) m = f a m₁ := by
            rw [bind_apply, hc]
            rfl
          cases hf a m₁ m₁' post with
          | ends hfa hga post' => exact .ends (hbind.trans hfa) (hg.bind hga) post'
          | exhausted hfa hga =>
              refine .exhausted (hbind.trans hfa) ?_
              intro k hk
              rcases hg.early k with h | ⟨m₂, h⟩
              · obtain ⟨m₂, h₂⟩ := hga k hk
                refine ⟨m₂, ?_⟩
                rw [bind_apply, h]
                exact h₂
              · exact ⟨m₂, by rw [bind_apply, h]⟩
  | exhausted hc hg =>
      refine .exhausted (by rw [bind_apply, hc]) ?_
      intro k hk
      obtain ⟨m₂, h⟩ := hg k hk
      exact ⟨m₂, by rw [bind_apply, h]⟩

/-- Steps in sequence, the second without fuel. -/
theorem andThen {R : Except Interrupt β → Machine ω → Machine ω → Prop} {f f' : α → Run ω β}
    (hc : Simulates n c g m m' Q)
    (hf : ∀ a m₁ m₁', Q (.ok a) m₁ m₁' → Simulates n (f a) (fun _ => f' a) m₁ m₁' R)
    (hi : ∀ i m₁ m₁', Q (.error i) m₁ m₁' → R (.error i) m₁ m₁') :
    Simulates n (c >>= f) (fun k => g k >>= f') m m' R :=
  hc.bind hf hi

/-- What the simulating side does first. -/
theorem after {b : β} (f' : β → Nat → Run ω α) {g : Nat → Run ω β} {m₁' : Machine ω}
    (hg : Run.Ends g m' (.ok b) m₁') (hc : Simulates n c (f' b) m m₁' Q) :
    Simulates n c (fun k => g k >>= fun b => f' b k) m m' Q := by
  cases hc with
  | ends hc hf post => exact .ends hc (hg.bind hf) post
  | exhausted hc hf =>
      refine .exhausted hc ?_
      intro k hk
      rcases hg.early k with h | ⟨m₂, h⟩
      · obtain ⟨m₂, h₂⟩ := hf k hk
        refine ⟨m₂, ?_⟩
        rw [bind_apply, h]
        exact h₂
      · exact ⟨m₂, by rw [bind_apply, h]⟩

/-- What the simulating side does last, without an effect. -/
theorem before {c : Run ω Unit} {g h : Nat → Run ω Unit}
    {Q : Except Interrupt Unit → Machine ω → Machine ω → Prop} (hc : Simulates n c g m m' Q)
    (hh : ∀ m₁', Run.Ends h m₁' (.ok ()) m₁') :
    Simulates n c (fun k => g k >>= fun _ => h k) m m' Q := by
  cases hc with
  | @ends r m₁ m₁' hc hg post =>
      cases r with
      | ok _ => exact .ends hc (hg.bind (f := fun _ k => h k) (hh m₁')) post
      | error i => exact .ends hc (hg.bind_error (f := fun _ k => h k)) post
  | exhausted hc hg =>
      refine .exhausted hc ?_
      intro k hk
      obtain ⟨m₂, h₂⟩ := hg k hk
      exact ⟨m₂, by rw [bind_apply, h₂]⟩

/-- What is made of the runs of both sides in the same way, exhausted ones of
exhausted ones. -/
theorem transform {T : Run ω α → Run ω β} {R : Except Interrupt β → Machine ω → Machine ω → Prop}
    (hc : Simulates n c g m m' Q)
    (hstopped : ∀ {c : Run ω α} {m m₁ : Machine ω}, c m = .error .exhausted m₁ →
      ∃ m₂, T c m = .error .exhausted m₂)
    (h : ∀ r m₁ m₁', Q r m₁ m₁' → ∃ r' m₂ m₂', (c m = Run.ended r m₁ → T c m = Run.ended r' m₂)
      ∧ (∀ k, g k m' = Run.ended r m₁' → T (g k) m' = Run.ended r' m₂') ∧ R r' m₂ m₂') :
    Simulates n (T c) (fun k => T (g k)) m m' R := by
  cases hc with
  | ends hc hg post =>
      obtain ⟨r', m₂, m₂', hended, hended', hR⟩ := h _ _ _ post
      exact .ends (hended hc) (hg.image hended' fun k m₁ hk => hstopped hk) hR
  | exhausted hc hg =>
      obtain ⟨m₂, h₂⟩ := hstopped hc
      refine .exhausted h₂ ?_
      intro k hk
      obtain ⟨m₁, h₁⟩ := hg k hk
      exact hstopped h₁

/-- Settling how a computation ended. -/
theorem settle {how : Except Stop α → Except Stop β}
    {R : Except Interrupt β → Machine ω → Machine ω → Prop} (hc : Simulates n c g m m' Q)
    (hexhausted : how (.error .exhausted) = .error .exhausted)
    (h : ∀ r m₁ m₁', Q r m₁ m₁' → ∃ r', how (Stop.ofExcept r) = Stop.ofExcept r' ∧ R r' m₁ m₁') :
    Simulates n (PatternIR.settle how c) (fun k => PatternIR.settle how (g k)) m m' R := by
  refine hc.transform (fun hstopped => ⟨_, settle_exhausted hstopped hexhausted⟩) ?_
  intro r m₁ m₁' post
  obtain ⟨r', hr, hR⟩ := h r m₁ m₁' post
  exact ⟨r', m₁, m₁', fun hended => settle_ended hended hr, fun k hended => settle_ended hended hr, hR⟩

/-- The body of a call, and the end of the call. -/
theorem bracketCall {method : String} {body : Run ω Unit} {g : Nat → Run ω Unit}
    {Q : Except Interrupt Unit → Machine ω → Machine ω → Prop}
    {R : Except Interrupt Value → Machine ω → Machine ω → Prop} (hc : Simulates n body g m m' Q)
    (h : ∀ r m₁ m₁', Q r m₁ m₁' → ∃ r', callResult method (Stop.ofExcept r) = Stop.ofExcept r'
      ∧ R r' (leaveCall m₁) (leaveCall m₁')) :
    Simulates n (PatternIR.bracketCall method body)
      (fun k => PatternIR.bracketCall method (g k)) m m' R := by
  refine hc.transform (fun hstopped => ⟨_, bracketCall_exhausted hstopped⟩) ?_
  intro r m₁ m₁' post
  obtain ⟨r', hr, hR⟩ := h r m₁ m₁' post
  exact ⟨r', leaveCall m₁, leaveCall m₁', fun hended => bracketCall_ended hended hr,
    fun k hended => bracketCall_ended hended hr, hR⟩

/-- **A simulated computation ends exactly as the simulating one**, fuel apart,
in what the machines have in common at the end. -/
theorem sameEnd {γ : Type} {c : Nat → Run ω α} (hc : ∀ n, Simulates n (c n) g m m' Q)
    (common : Machine ω → γ) (hQ : ∀ r m₁ m₁', Q r m₁ m₁' → common m₁ = common m₁')
    (r : Except Interrupt α) (seen : γ) :
    (∃ n m₁, c n m = Run.ended r m₁ ∧ common m₁ = seen)
      ↔ ∃ n m₁, g n m' = Run.ended r m₁ ∧ common m₁ = seen := by
  constructor
  · rintro ⟨n, m₁, hn, hseen⟩
    cases hc n with
    | @ends r₂ m₂ m₂' hcn hg post =>
        rw [hcn] at hn
        obtain ⟨rfl, rfl⟩ : r₂ = r ∧ m₂ = m₁ := by
          cases r <;> cases r₂ <;> simp_all [Run.ended]
        obtain ⟨enough, hlate⟩ := hg.late
        exact ⟨enough, m₂', hlate enough (Nat.le_refl _), (hQ _ _ _ post).symm.trans hseen⟩
    | exhausted hcn =>
        rw [hcn] at hn
        cases r <;> simp [Run.ended] at hn
  · rintro ⟨n, m₁', hn, hseen⟩
    cases hc n with
    | ends hcn hg post =>
        obtain ⟨rfl, rfl⟩ := hg.unique hn
        exact ⟨n, _, hcn, (hQ _ _ _ post).trans hseen⟩
    | exhausted hcn hg =>
        obtain ⟨m₂, h₂⟩ := hg n (Nat.le_refl n)
        rw [h₂] at hn
        cases r <;> simp [Run.ended] at hn

end Simulates

end PatternIR
