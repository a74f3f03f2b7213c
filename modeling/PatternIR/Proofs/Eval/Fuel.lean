/-
  PatternIR.Proofs.Eval.Fuel
  ──────────────────────────
  **FUEL — what ends, ends the same with more of it.**

  With one unit of fuel more each part of an evaluation goes at least as far,
  and where it has ended before it ends in the same way.  So an evaluation has
  at most one end, whatever the fuel.

    • `Run.Within` — computations that end alike as far as the first one gets;
    • `callNamed_within` — every call is within the one with more fuel;
    • `callNamed_ends` — a call that ends, ends so with all fuel that is enough.
-/
import PatternIR.Proofs.Eval.Congruence

namespace PatternIR

variable {ω α β : Type}

/-! ## §1. Computations within others. -/

/-- Wherever the first computation is not exhausted, the second does the same. -/
def Run.Within (c c' : Run ω α) : Prop :=
  ∀ m, (∃ m', c m = .error .exhausted m') ∨ c' m = c m

namespace Run.Within

variable {c c' : Run ω α}

/-- A run is within itself. -/
theorem refl (c : Run ω α) : Within c c := fun _ => .inr rfl

/-- Running out of fuel is within every run. -/
theorem exhausted (c : Run ω α) : Within (throw .exhausted) c := fun m => .inl ⟨m, rfl⟩

theorem bind {f f' : α → Run ω β} (h : Within c c') (hf : ∀ a, Within (f a) (f' a)) :
    Within (c >>= f) (c' >>= f') := by
  intro m
  rw [bind_apply, bind_apply]
  rcases h m with ⟨m', hc⟩ | hc
  · exact .inl ⟨m', by rw [hc]⟩
  · rw [hc]
    cases c m with
    | ok a m' => exact hf a m'
    | error e m' => exact .inr rfl

/-- What becomes of an ending, if it does not hide that the fuel ran out. -/
theorem settle {how : Except Stop α → Except Stop β} (hhow : how (.error .exhausted) = .error .exhausted)
    (h : Within c c') : Within (PatternIR.settle how c) (PatternIR.settle how c') := by
  intro m
  unfold PatternIR.settle
  rcases h m with ⟨m', hc⟩ | hc
  · exact .inl ⟨m', by rw [hc]; simp only; rw [hhow]⟩
  · exact .inr (by rw [hc])

/-- Around the body of a call. -/
theorem bracketCall {c c' : Run ω Unit} (method : String) (h : Within c c') :
    Within (PatternIR.bracketCall method c) (PatternIR.bracketCall method c') := by
  intro m
  unfold PatternIR.bracketCall
  rcases (h.settle (settles_callResult method).exhausted) m with ⟨m', hc⟩ | hc
  · exact .inl ⟨leaveCall m', by rw [hc]⟩
  · exact .inr (by rw [hc])

/-- A call is within another with more fuel for its body. -/
theorem callBy (s : Symbols) (f : Method) (args : List Value) {exec exec' : Stmt → Run ω Unit}
    (h : ∀ body, Within (exec body) (exec' body)) :
    Within (callBy s f args exec) (PatternIR.callBy s f args exec') := by
  intro m
  cases hadmitted : admission m.depth f args with
  | error e => exact .inr (by rw [callBy_error hadmitted, callBy_error hadmitted])
  | ok body =>
      rw [callBy_ok hadmitted, callBy_ok hadmitted]
      exact bind (refl _) (fun _ => bracketCall f.name (h body)) m.entered

/-- Computations that go at least as far with more fuel have at most one end. -/
theorem ends {c : Nat → Run ω α} (h : ∀ n more, Within (c n) (c (n + more))) {n k : Nat} {m : Machine ω}
    (hn : ∀ m', c n m ≠ .error .exhausted m') (hk : ∀ m', c k m ≠ .error .exhausted m') :
    c n m = c k m := by
  have hgrow : ∀ {i j : Nat}, i ≤ j → (∀ m', c i m ≠ .error .exhausted m') → c j m = c i m := by
    intro i j hij hi
    obtain ⟨more, rfl⟩ := Nat.exists_eq_add_of_le hij
    rcases h i more m with ⟨m', hm'⟩ | hm'
    · exact absurd hm' (hi m')
    · exact hm'
  rcases Nat.le_total n k with hle | hle
  · exact (hgrow hle hn).symm
  · exact hgrow hle hk

end Run.Within

/-! ## §2. More fuel. -/

/-- Going at least as far passes through every construct. -/
theorem Run.congruence_within (setting : Setting ω) : Congruence setting Within where
  pure _ := .refl _
  interrupt _ := .refl _
  write _ _ _ := .refl _
  read _ _ := .refl _
  print _ := .refl _
  native _ _ := .refl _
  bind := .bind
  settle hhow _ _ h := h.settle hhow.exhausted
  call _ args := .callBy _ _ args

/-- A call goes at least as far with more fuel. -/
theorem callNamed_within (setting : Setting ω) (n more : Nat) (name : String) (args : List Value) :
    Run.Within (callNamed setting n name args) (callNamed setting (n + more) name args) := by
  unfold callNamed
  split
  next hm => exact ((Run.congruence_within setting).evaluation more (fun c _ => .exhausted c) n).call hm _
  next => exact .refl _

/-- **A call has at most one end**: two runs that do not want for fuel are the
same, in their result and in all they leave behind. -/
theorem callNamed_ends {setting : Setting ω} {n k : Nat} {name : String} {args : List Value}
    {m : Machine ω} (hn : ∀ m', callNamed setting n name args m ≠ .error .exhausted m')
    (hk : ∀ m', callNamed setting k name args m ≠ .error .exhausted m') :
    callNamed setting n name args m = callNamed setting k name args m :=
  Run.Within.ends (fun n more => callNamed_within setting n more name args) hn hk

end PatternIR
