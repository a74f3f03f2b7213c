/-
  PatternIR.Proofs.Eval.Later
  ───────────────────────────
  **THE MACHINE AFTER AN EVALUATION.**

  While an evaluation goes on in one activation, the callers of that
  activation do not change, the clock does not go back, the history only gets
  longer, and a symbol that has a value keeps it or gets a newer one.

    • `Machine.Later` — all of this between two machines;
    • `evalExpr_later`, `execStmt_later` — it holds across every evaluation;
    • `Machine.Matched` — a pattern matched in between, in this activation.
-/
import Mathlib.Tactic.SplitIfs
import PatternIR.Proofs.Eval.Invariant

namespace PatternIR

variable {ω : Type}

/-! ## §1. Activations. -/

namespace Activation

/-- What is written is read back. -/
theorem get?_set_self (a : Activation) (sym : Sym) (c : Cell) : (a.set sym c).get? sym = some c := by
  simp [get?, set]

/-- A write to one symbol leaves the others alone. -/
theorem get?_set_of_ne (a : Activation) {sym other : Sym} (c : Cell) (h : other ≠ sym) :
    (a.set sym c).get? other = a.get? other := by
  have hne : (other == sym) = false := by simpa using h
  simp only [get?, set, List.lookup_cons, hne]
  induction a with
  | nil => rfl
  | cons entry a ih =>
      obtain ⟨x, d⟩ := entry
      by_cases hx : x = sym
      · subst hx
        simp only [ne_eq, not_true_eq_false, decide_false, Bool.false_eq_true, not_false_eq_true,
          List.filter_cons_of_neg, List.lookup_cons, hne]
        exact ih
      · simp only [ne_eq, hx, not_false_eq_true, decide_true, List.filter_cons_of_pos,
          List.lookup_cons]
        split
        · rfl
        · exact ih

end Activation

/-! ## §2. Later machines. -/

namespace Machine

/-- `m'` is reached from `m` by an evaluation in the current activation. -/
structure Later (m m' : Machine ω) : Prop where
  depth : m'.depth = m.depth
  callers : m'.env.callers = m.env.callers
  clock : m.env.clock ≤ m'.env.clock
  history : ∃ news, m'.history = news ++ m.history
  cell : ∀ {sym c}, m.env.get? sym = some c →
    ∃ c', m'.env.get? sym = some c' ∧ (c' = c ∨ m.env.clock < c'.stamp)

namespace Later

variable {m m₁ m₂ m₃ : Machine ω}

/-- A machine is no earlier than itself. -/
theorem refl (m : Machine ω) : m.Later m :=
  ⟨rfl, rfl, Nat.le_refl _, ⟨[], rfl⟩, fun {_ c} h => ⟨c, h, .inl rfl⟩⟩

/-- The order of time is transitive. -/
theorem trans (h₁ : m₁.Later m₂) (h₂ : m₂.Later m₃) : m₁.Later m₃ := by
  refine ⟨h₂.depth.trans h₁.depth, h₂.callers.trans h₁.callers,
    Nat.le_trans h₁.clock h₂.clock, ?_, ?_⟩
  · obtain ⟨news, hnews⟩ := h₁.history
    obtain ⟨more, hmore⟩ := h₂.history
    exact ⟨more ++ news, by rw [hmore, hnews, List.append_assoc]⟩
  · intro sym c hc
    obtain ⟨c₁, hc₁, hold⟩ := h₁.cell hc
    obtain ⟨c₂, hc₂, hold'⟩ := h₂.cell hc₁
    refine ⟨c₂, hc₂, ?_⟩
    rcases hold' with rfl | hnew
    · exact hold
    · exact .inr (Nat.lt_of_le_of_lt h₁.clock hnew)

/-- No activation is opened or closed for good. -/
theorem level (h : m₁.Later m₂) : m₂.env.level = m₁.env.level := by
  unfold Environment.level
  rw [h.callers]

/-- A write is a step of the current activation. -/
theorem write (m : Machine ω) (sym : Sym) (v : Value) (origin : Origin) : m.Later { m with
    env := m.env.set sym v origin
    history := .wrote m.env.level sym origin :: m.history } := by
  refine ⟨rfl, rfl, Nat.le_succ _, ⟨[_], rfl⟩, ?_⟩
  intro x c hc
  by_cases hx : x = sym
  · subst hx
    exact ⟨_, Activation.get?_set_self _ _ _, .inr (Nat.lt_succ_self _)⟩
  · exact ⟨c, (Activation.get?_set_of_ne _ _ hx).trans hc, .inl rfl⟩

end Later

/-- Time is one of the frames of evaluation. -/
theorem framed_later : Framed (Later (ω := ω)) where
  refl := .refl
  trans _ _ _ := .trans
  write := .write
  read _ _ _ _ := ⟨rfl, rfl, Nat.le_refl _, ⟨[_], rfl⟩, fun {_ c} h => ⟨c, h, .inl rfl⟩⟩
  print _ _ := ⟨rfl, rfl, Nat.le_refl _, ⟨[], rfl⟩, fun {_ c} h => ⟨c, h, .inl rfl⟩⟩
  host _ _ := ⟨rfl, rfl, Nat.le_refl _, ⟨[], rfl⟩, fun {_ c} h => ⟨c, h, .inl rfl⟩⟩
  call m m' h := by
    -- the callee had `m`'s activation on top of its callers, and leaving restores it
    have hcallers : m'.env.callers = m.env.current :: m.env.callers := h.callers
    have hleave : (leaveCall m').env = ⟨m.env.current, m.env.callers, m'.env.clock⟩ := by
      simp [leaveCall, Environment.leave, hcallers]
    refine ⟨?_, by rw [hleave], ?_, h.history, ?_⟩
    · have hdepth : m'.depth = m.depth + 1 := h.depth
      show m'.depth - 1 = m.depth
      omega
    · rw [hleave]
      exact h.clock
    · intro sym c hc
      exact ⟨c, by rw [hleave]; exact hc, .inl rfl⟩

end Machine

section

variable {setting : Setting ω} {n : Nat} {m m' : Machine ω}

/-- The machine after an expression is a later one. -/
theorem evalExpr_later {e : Expr} {v : Value} (h : evalExpr setting n e m = .ok v m') :
    m.Later m' :=
  ((Machine.framed_later.kept setting n).expr e).ok h

/-- The machine after a statement is a later one. -/
theorem execStmt_later {s : Stmt} (h : execStmt setting n s m = .ok () m') : m.Later m' :=
  ((Machine.framed_later.kept setting n).stmt s).ok h

end

/-! ## §3. Matched patterns. -/

namespace Machine

/-- Between `m` and `m'` a type test of the pattern `leaf` succeeded in the
activation current in `m`: the match is among the new events, and the value
of the binding is from after `m`. -/
structure Matched (m m' : Machine ω) (leaf : BindingId) : Prop where
  event : ∃ news, m'.history = news ++ m.history
    ∧ Event.wrote m.env.level (.binding leaf) .matched ∈ news
  cell : ∃ c, m'.env.get? (.binding leaf) = some c ∧ m.env.clock < c.stamp

namespace Matched

variable {m m₁ m₂ : Machine ω} {leaf : BindingId}

/-- A match after a later point is one after an earlier point. -/
theorem after (h : m.Later m₁) (hm : m₁.Matched m₂ leaf) : m.Matched m₂ leaf := by
  obtain ⟨news, hnews⟩ := h.history
  obtain ⟨⟨more, hmore, hmem⟩, c, hc, hnew⟩ := hm
  refine ⟨⟨more ++ news, by rw [hmore, hnews, List.append_assoc], ?_⟩, c, hc,
    Nat.lt_of_le_of_lt h.clock hnew⟩
  rw [h.level] at hmem
  exact List.mem_append_left _ hmem

/-- A match stays one, unless the clock was turned back. -/
theorem before (hm : m.Matched m₁ leaf) (h : m₁.Later m₂) (hclock : m.env.clock ≤ m₁.env.clock) :
    m.Matched m₂ leaf := by
  obtain ⟨more, hmore⟩ := h.history
  obtain ⟨⟨news, hnews, hmem⟩, c, hc, hnew⟩ := hm
  refine ⟨⟨more ++ news, by rw [hmore, hnews, List.append_assoc],
    List.mem_append_right _ hmem⟩, ?_⟩
  obtain ⟨c', hc', hold⟩ := h.cell hc
  refine ⟨c', hc', ?_⟩
  rcases hold with rfl | hlt
  · exact hnew
  · exact Nat.lt_of_le_of_lt hclock hlt

end Matched

end Machine

/-- A test that answers `true` has matched its pattern. -/
theorem matched_of_matchPattern {setting : Setting ω} {pattern : BindingPattern} {v : Value}
    {m m' : Machine ω} (h : matchPattern setting pattern v m = .ok (.bool true) m') :
    m.Matched m' pattern.binding := by
  unfold matchPattern at h
  cases hsym : setting.program.symbols.binding? pattern.binding with
  | none =>
      rw [hsym] at h
      injection h
  | some symbol =>
      rw [hsym] at h
      simp only at h
      split_ifs at h with hmatch
      · rw [bind_apply] at h
        cases hw : coerce symbol.ty v with
        | error f =>
            rw [hw] at h
            injection h
        | ok w =>
            rw [hw] at h
            injection h with _ h
            subst h
            exact ⟨⟨[_], rfl, List.mem_singleton.mpr rfl⟩, _, Activation.get?_set_self _ _ _,
              Nat.lt_succ_self _⟩
      · injection h with h
        injection h with h
        exact absurd h (by simp)

end PatternIR
