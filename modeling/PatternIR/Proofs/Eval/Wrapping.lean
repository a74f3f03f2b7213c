/-
  PatternIR.Proofs.Eval.Wrapping
  ──────────────────────────────
  **ARITHMETIC FAILS ON ZERO DIVISORS ONLY, AND WRAPS.**

  Promotion takes both operands to the wider of their kinds, so an operator
  only ever sees two numbers of one kind:

      operands of `+ - * / %`               outcome
      one is no number                      type error
      integral, the right one of `/ %` 0    division by zero
      integral otherwise                    the exact result, cut to 32 or 64 bits
      one is a float or a double            a float or a double

  Quotients are cut towards zero, and the least integer divided by -1 is cut
  back to itself.

    • `BinOp.onIntegers` — what an operator makes of two integers;
    • `Number.Promoted` — what promotion makes of two numbers;
    • `Number.Words` — words whose operations are the exact ones, cut to a width;
    • `BinOp.Outcome`, `evalBinary_outcome` — the three ways to end;
    • `evalBinary_arithmetic` — which of them it is, for all operands.
-/
import PatternIR.Proofs.Eval.Promotion
import PatternIR.Proofs.Eval.Residues

namespace PatternIR

/-! ## §1. Operands and exact results. -/

namespace BinOp

/-- The operators that have no result for an integral zero on the right. -/
def isDivision : BinOp → Bool
  | .div | .rem => true
  | .add | .sub | .mul | .and | .or | .eq | .ne | .lt | .gt | .le | .ge => false

/-- What an operator of arithmetic makes of two integers; quotients are cut
towards zero. -/
def onIntegers (op : BinOp) (x y : Int) : Int :=
  match op with
  | .add => x + y
  | .sub => x - y
  | .mul => x * y
  | .div => x.tdiv y
  | .rem => x.tmod y
  | .and | .or | .eq | .ne | .lt | .gt | .le | .ge => 0

end BinOp

/-- Whether arithmetic is defined for a value: numbers and characters. -/
def Value.isNumeric (v : Value) : Bool := v.kind?.any Prim.isNumeric

/-- An integral value is divided by an integral zero. -/
def DividesByZero (op : BinOp) (l r : Value) : Prop :=
  op.isDivision = true ∧ l.integer?.isSome = true ∧ r.integer? = some 0

/-- `v` is a number of the wider of two kinds. -/
def Widened (l r v : Value) : Prop :=
  ∃ (n : Number) (kl kr : Prim), v = n.toValue ∧ l.kind? = some kl ∧ r.kind? = some kr
    ∧ n.rank = max kl.rank kr.rank

/-- If `v` is an int or a long, then it is the exact result, cut to that width. -/
def Wrapped (op : BinOp) (l r v : Value) : Prop :=
  ∀ kind bits, v.kind? = some kind → kind.bits? = some bits →
    ∃ x y z, l.integer? = some x ∧ r.integer? = some y ∧ v.integer? = some z
      ∧ IsResidue bits (op.onIntegers x y) z

namespace Value

variable {v : Value} {n : Number}

/-- A number is of some kind. -/
theorem exists_kind (h : Number.ofValue? v = some n) : ∃ kind, v.kind? = some kind := by
  cases v with
  | null | bool _ | str _ | object _ => exact nomatch h
  | _ => exact ⟨_, rfl⟩

/-- The numeric values are the numbers. -/
theorem isNumeric_iff : v.isNumeric = true ↔ ∃ n, Number.ofValue? v = some n := by
  cases v <;> simp [isNumeric, kind?, Prim.isNumeric, Number.ofValue?]

/-- An integer is numeric. -/
theorem isNumeric_of_integer (h : v.integer?.isSome = true) : v.isNumeric = true := by
  obtain ⟨z, hz⟩ := Option.isSome_iff_exists.mp h
  obtain ⟨n, hn, -⟩ := exists_number hz
  exact isNumeric_iff.mpr ⟨n, hn⟩

/-- A number is the integer of the value it was made of. -/
theorem integer?_of_number (h : Number.ofValue? v = some n) : n.toValue.integer? = v.integer? := by
  cases v with
  | null | bool _ | str _ | object _ => exact nomatch h
  | int _ | long _ | float _ | double _ =>
      injection h with h
      rw [← h]
      rfl
  | char c =>
      injection h with h
      rw [← h]
      exact congrArg some (toInt_ofNat_toNat c)

end Value

/-- Operands that divide by zero are numbers. -/
theorem DividesByZero.isNumeric {op : BinOp} {l r : Value} (h : DividesByZero op l r) :
    l.isNumeric = true ∧ r.isNumeric = true := by
  obtain ⟨-, hl, hr⟩ := h
  exact ⟨Value.isNumeric_of_integer hl, Value.isNumeric_of_integer (Option.isSome_of_eq_some hr)⟩

/-! ## §2. Promoted operands. -/

namespace Number

/-- What promotion makes of two numbers: two numbers of one kind, and if that is
an integral one, their integers are the same. -/
inductive Promoted (a b : Number) : Number → Number → Prop where
  | int {x y : Int32} (hx : a.toValue.integer? = some x.toInt)
      (hy : b.toValue.integer? = some y.toInt) : Promoted a b (.int x) (.int y)
  | long {x y : Int64} (hx : a.toValue.integer? = some x.toInt)
      (hy : b.toValue.integer? = some y.toInt) : Promoted a b (.long x) (.long y)
  | float {x y : Single} (h : a.toValue.integer? = none ∨ b.toValue.integer? = none) :
      Promoted a b (.float x) (.float y)
  | double {x y : Double} (h : a.toValue.integer? = none ∨ b.toValue.integer? = none) :
      Promoted a b (.double x) (.double y)

/-- The integer of a number is that of the long it is widened to. -/
theorem integer?_toInt64 {n : Number} (h : n.rank ≤ 1) : n.toValue.integer? = some n.toInt64.toInt := by
  cases n with
  | int n => exact congrArg some (Int32.toInt_toInt64 n).symm
  | long n => rfl
  | float _ | double _ => simp [rank] at h

/-- **Promotion gives two numbers of one kind.** -/
theorem promoted (a b : Number) : Promoted a b (promote a b).1 (promote a b).2 := by
  cases a <;> cases b
  case int.int => exact .int rfl rfl
  case int.long | long.int | long.long =>
    exact .long (integer?_toInt64 (by simp [rank])) (integer?_toInt64 (by simp [rank]))
  case int.float | long.float => exact .float (.inr rfl)
  case float.int | float.long | float.float => exact .float (.inl rfl)
  case int.double | long.double | float.double => exact .double (.inr rfl)
  case double.int | double.long | double.float | double.double => exact .double (.inl rfl)

/-! ## §3. Words. -/

/-- The words of an integral kind stand for the integers of its width: what an
operation makes of them is what it makes of the integers, cut to that width. -/
structure Words {α : Type} [DecidableEq α] [Add α] [Sub α] [Mul α] [Div α] [Mod α] (zero : α)
    (toInt : α → Int) (make : α → Number) (kind : Prim) (bits : Nat) : Prop where
  bits_kind : kind.bits? = some bits
  kind_make : ∀ x, (make x).kind = kind
  integer_make : ∀ x, (make x).toValue.integer? = some (toInt x)
  arith_make : ∀ op x y,
    arith op (make x) (make y) = (integral zero op x y).map fun z => (make z).toValue
  toInt_eq_zero : ∀ x, toInt x = 0 ↔ x = zero
  add : ∀ x y, toInt (x + y) = (toInt x + toInt y).bmod (2 ^ bits)
  sub : ∀ x y, toInt (x - y) = (toInt x - toInt y).bmod (2 ^ bits)
  mul : ∀ x y, toInt (x * y) = (toInt x * toInt y).bmod (2 ^ bits)
  div : ∀ x y, toInt (x / y) = ((toInt x).tdiv (toInt y)).bmod (2 ^ bits)
  rem : ∀ x y, toInt (x % y) = ((toInt x).tmod (toInt y)).bmod (2 ^ bits)

/-- The 32-bit integers are words. -/
theorem words_int : Words (0 : Int32) Int32.toInt .int .int 32 where
  bits_kind := rfl
  kind_make _ := rfl
  integer_make _ := rfl
  arith_make _ _ _ := rfl
  toInt_eq_zero x := by rw [← Int32.toInt_inj, Int32.toInt_zero]
  add := Int32.toInt_add
  sub := Int32.toInt_sub
  mul := Int32.toInt_mul
  div := Int32.toInt_div
  rem x y := by
    rw [← Int32.toInt_mod]
    exact (Int32.toInt_bmod_size _).symm

/-- The 64-bit integers are words. -/
theorem words_long : Words (0 : Int64) Int64.toInt .long .long 64 where
  bits_kind := rfl
  kind_make _ := rfl
  integer_make _ := rfl
  arith_make _ _ _ := rfl
  toInt_eq_zero x := by rw [← Int64.toInt_inj, Int64.toInt_zero]
  add := Int64.toInt_add
  sub := Int64.toInt_sub
  mul := Int64.toInt_mul
  div := Int64.toInt_div
  rem x y := by
    rw [← Int64.toInt_mod]
    exact (Int64.toInt_bmod_size _).symm

namespace Words

variable {α : Type} [DecidableEq α] [Add α] [Sub α] [Mul α] [Div α] [Mod α] {zero x y : α}
variable {toInt : α → Int} {make : α → Number} {kind : Prim} {bits : Nat} {op : BinOp}
variable {a b : Number}

/-- Division by the word that stands for zero. -/
theorem arith_zero (h : Words zero toInt make kind bits) (hop : op.isDivision = true) (hy : toInt y = 0) :
    arith op (make x) (make y) = .error .divisionByZero := by
  have hzero : y = zero := (h.toInt_eq_zero y).mp hy
  have hintegral : integral zero op x y = .error .divisionByZero := by
    cases op with
    | div | rem => exact if_pos hzero
    | _ => exact nomatch hop
  rw [h.arith_make, hintegral]
  rfl

/-- **Any other operation on words** gives the residue of the exact result. -/
theorem arith_ok (h : Words zero toInt make kind bits) (hop : op.isArithmetic = true)
    (hdiv : op.isDivision = true → toInt y ≠ 0) :
    ∃ z, arith op (make x) (make y) = .ok (make z).toValue
      ∧ IsResidue bits (op.onIntegers (toInt x) (toInt y)) (toInt z) := by
  have hzero : op.isDivision = true → y ≠ zero := fun hd => mt (h.toInt_eq_zero y).mpr (hdiv hd)
  -- each operation on words is the one on integers, cut to the width
  have hintegral : ∃ z, integral zero op x y = .ok z
      ∧ toInt z = (op.onIntegers (toInt x) (toInt y)).bmod (2 ^ bits) := by
    cases op with
    | add => exact ⟨_, rfl, h.add x y⟩
    | sub => exact ⟨_, rfl, h.sub x y⟩
    | mul => exact ⟨_, rfl, h.mul x y⟩
    | div => exact ⟨_, if_neg (hzero rfl), h.div x y⟩
    | rem => exact ⟨_, if_neg (hzero rfl), h.rem x y⟩
    | _ => exact nomatch hop
  obtain ⟨z, hz, hcut⟩ := hintegral
  refine ⟨z, ?_, (isResidue_iff (Prim.bits_pos h.bits_kind)).mpr hcut⟩
  rw [h.arith_make, hz]
  rfl

/-- What arithmetic makes of the words that two numbers are promoted to, unless it
divides by zero. -/
theorem outcome (h : Words zero toInt make kind bits) (hx : a.toValue.integer? = some (toInt x))
    (hy : b.toValue.integer? = some (toInt y)) (hop : op.isArithmetic = true)
    (hzero : ¬DividesByZero op a.toValue b.toValue) :
    ∃ n : Number, arith op (make x) (make y) = .ok n.toValue ∧ n.rank = (make x).rank
      ∧ Wrapped op a.toValue b.toValue n.toValue := by
  have hdiv : op.isDivision = true → toInt y ≠ 0 := fun hd hz =>
    hzero ⟨hd, by rw [hx, Option.isSome_some], by rw [hy, hz]⟩
  obtain ⟨z, hz, hresidue⟩ := h.arith_ok (x := x) hop hdiv
  refine ⟨make z, hz, ?_, ?_⟩
  · rw [← rank_kind, ← rank_kind, h.kind_make, h.kind_make]
  · intro k width hk hwidth
    rw [kind?_toValue, h.kind_make] at hk
    injection hk with hk
    subst hk
    obtain rfl : bits = width := Option.some.inj (h.bits_kind.symm.trans hwidth)
    exact ⟨_, _, _, hx, hy, h.integer_make z, hresidue⟩

end Words

/-! ## §4. Arithmetic on promoted operands. -/

variable {op : BinOp} {a b p q : Number}

/-- An integral division by zero is one of promoted operands. -/
theorem Promoted.arith_zero (h : Promoted a b p q) (hzero : DividesByZero op a.toValue b.toValue) :
    arith op p q = .error .divisionByZero := by
  obtain ⟨hop, ha, hb⟩ := hzero
  cases h with
  | int hx hy =>
      rw [hy] at hb
      exact words_int.arith_zero hop (Option.some.inj hb)
  | long hx hy =>
      rw [hy] at hb
      exact words_long.arith_zero hop (Option.some.inj hb)
  | float hnone | double hnone =>
      -- one of the operands is no integer
      rcases hnone with hnone | hnone
      · rw [hnone] at ha
        exact nomatch ha
      · rw [hnone] at hb
        exact nomatch hb

/-- **All other arithmetic on promoted operands succeeds.** -/
theorem Promoted.arith_ok (h : Promoted a b p q) (hop : op.isArithmetic = true)
    (hzero : ¬DividesByZero op a.toValue b.toValue) :
    ∃ n : Number, arith op p q = .ok n.toValue ∧ n.rank = p.rank
      ∧ Wrapped op a.toValue b.toValue n.toValue := by
  cases h with
  | int hx hy => exact words_int.outcome hx hy hop hzero
  | long hx hy => exact words_long.outcome hx hy hop hzero
  | @float x y _ =>
      refine ⟨.float (floating op x y), rfl, rfl, ?_⟩
      rintro _ bits ⟨⟩ hbits
      exact nomatch hbits
  | @double x y _ =>
      refine ⟨.double (floating op x y), rfl, rfl, ?_⟩
      rintro _ bits ⟨⟩ hbits
      exact nomatch hbits

end Number

/-! ## §5. Arithmetic on values. -/

section

variable {op : BinOp} {l r : Value} {byReference : Bool} {ty : Ty}

/-- There is no promotion without two numbers. -/
theorem promote_of_not_numeric (h : ¬(l.isNumeric = true ∧ r.isNumeric = true)) :
    promote op l r = .error (.undefinedOperator op l r) := by
  unfold promote
  split
  · next a b ha hb =>
      exact absurd ⟨Value.isNumeric_iff.mpr ⟨a, ha⟩, Value.isNumeric_iff.mpr ⟨b, hb⟩⟩ h
  · rfl

/-- The report of an undefined operator begins with that word. -/
theorem undefinedOperator_ne {text : String} (h : text.toList.head? ≠ some 'o') :
    Fault.undefinedOperator op l r ≠ .typeError text := by
  intro heq
  injection heq with heq
  refine h ?_
  rw [← heq]
  simp

/-- **How arithmetic ends.** -/
inductive BinOp.Outcome (op : BinOp) (l r : Value) : Except Fault Value → Prop where
  | undefined (h : ¬(l.isNumeric = true ∧ r.isNumeric = true)) :
      op.Outcome l r (.error (.undefinedOperator op l r))
  | zeroDivisor (h : DividesByZero op l r) : op.Outcome l r (.error .divisionByZero)
  | computed {v : Value} (hl : l.isNumeric = true) (hr : r.isNumeric = true)
      (hzero : ¬DividesByZero op l r) (hwide : Widened l r v) (hwrap : Wrapped op l r v) :
      op.Outcome l r (.ok v)

/-- Two numbers are promoted, and then divided by zero or computed with. -/
theorem outcome_of_numbers {a b : Number} (hop : op.isArithmetic = true)
    (ha : Number.ofValue? l = some a) (hb : Number.ofValue? r = some b) :
    op.Outcome l r (Number.arith op (Number.promote a b).1 (Number.promote a b).2) := by
  have hpromoted := Number.promoted a b
  -- a character divides as the int that it is promoted as
  have hsame : DividesByZero op a.toValue b.toValue ↔ DividesByZero op l r := by
    rw [DividesByZero, DividesByZero, Value.integer?_of_number ha, Value.integer?_of_number hb]
  by_cases hzero : DividesByZero op l r
  · rw [hpromoted.arith_zero (hsame.mpr hzero)]
    exact .zeroDivisor hzero
  · obtain ⟨n, hn, hrank, hwrap⟩ := hpromoted.arith_ok hop (mt hsame.mp hzero)
    obtain ⟨kl, hkl⟩ := Value.exists_kind ha
    obtain ⟨kr, hkr⟩ := Value.exists_kind hb
    have hwide : n.rank = max kl.rank kr.rank := by
      rw [hrank, Number.rank_promote, Number.rank_of_kind ha hkl, Number.rank_of_kind hb hkr]
    have hwrap' : Wrapped op l r n.toValue := by
      rw [Wrapped, ← Value.integer?_of_number ha, ← Value.integer?_of_number hb]
      exact hwrap
    rw [hn]
    exact .computed (Value.isNumeric_iff.mpr ⟨a, ha⟩) (Value.isNumeric_iff.mpr ⟨b, hb⟩) hzero
      ⟨n, kl, kr, rfl, hkl, hkr, hwide⟩ hwrap'

/-- An operation of arithmetic that joins no texts ends in one of these ways. -/
theorem evalBinary_outcome (hop : op.isArithmetic = true)
    (htexts : op = .add → ty ≠ .string ∧ (∀ s, l ≠ .str s) ∧ ∀ s, r ≠ .str s) :
    op.Outcome l r (evalBinary op l r byReference ty) := by
  have hjoins : op = .add → joinsText ty l r = false := by
    intro hadd
    obtain ⟨hty, hl, hr⟩ := htexts hadd
    exact joinsText_of_no_text hty hl hr
  rw [evalBinary_of_arithmetic hop hjoins]
  by_cases hnumeric : l.isNumeric = true ∧ r.isNumeric = true
  · obtain ⟨a, ha⟩ := Value.isNumeric_iff.mp hnumeric.1
    obtain ⟨b, hb⟩ := Value.isNumeric_iff.mp hnumeric.2
    have hpromote : promote op l r = .ok (Number.promote a b) := by
      simp only [promote, ha, hb]
    rw [hpromote]
    exact outcome_of_numbers hop ha hb
  · rw [promote_of_not_numeric hnumeric]
    exact .undefined hnumeric

/-- **Arithmetic fails on zero divisors only, and wraps.**  All operands that are
numbers have a result, but for an integral zero as a divisor; nothing else is an
operand.  A result is a number of the wider kind, and an integral one is the
exact result, cut to the width of that kind. -/
theorem evalBinary_arithmetic (hop : op.isArithmetic = true)
    (htexts : op = .add → ty ≠ .string ∧ (∀ s, l ≠ .str s) ∧ ∀ s, r ≠ .str s) :
    ((∃ v, evalBinary op l r byReference ty = .ok v)
        ↔ l.isNumeric = true ∧ r.isNumeric = true ∧ ¬DividesByZero op l r)
      ∧ (DividesByZero op l r → evalBinary op l r byReference ty = .error .divisionByZero)
      ∧ (¬(l.isNumeric = true ∧ r.isNumeric = true) →
        evalBinary op l r byReference ty = .error (.undefinedOperator op l r))
      ∧ evalBinary op l r byReference ty ≠ .error (.typeError "mismatched numeric operands")
      ∧ ∀ v, evalBinary op l r byReference ty = .ok v → Widened l r v ∧ Wrapped op l r v := by
  have hout := @evalBinary_outcome op l r byReference ty hop htexts
  generalize evalBinary op l r byReference ty = out at hout
  cases hout with
  | undefined hnumeric =>
      refine ⟨⟨nofun, fun h => absurd ⟨h.1, h.2.1⟩ hnumeric⟩, fun hzero => ?_, fun _ => rfl, ?_, nofun⟩
      · exact absurd hzero.isNumeric hnumeric
      · intro h
        injection h with h
        exact undefinedOperator_ne (by decide) h
  | zeroDivisor hzero =>
      refine ⟨⟨nofun, fun h => absurd hzero h.2.2⟩, fun _ => rfl, fun h => ?_, nofun, nofun⟩
      exact absurd hzero.isNumeric h
  | @computed v hl hr hzero hwide hwrap =>
      refine ⟨⟨fun _ => ⟨hl, hr, hzero⟩, fun _ => ⟨v, rfl⟩⟩, fun h => absurd h hzero,
        fun h => absurd ⟨hl, hr⟩ h, nofun, ?_⟩
      rintro _ ⟨⟩
      exact ⟨hwide, hwrap⟩

/-- The least long divided by -1, and a character added to the greatest int. -/
theorem evalBinary_arithmetic_extremes :
    (BinOp.isArithmetic .div = true
        ∧ evalBinary .div (.long (-9223372036854775808)) (.int (-1)) false (.prim .long)
          = .ok (.long (-9223372036854775808))
        ∧ Wrapped .div (.long (-9223372036854775808)) (.int (-1)) (.long (-9223372036854775808)))
      ∧ BinOp.isArithmetic .add = true
        ∧ (Ty.int ≠ .string ∧ (∀ s, Value.char 'a' ≠ .str s) ∧ ∀ s, Value.int 2147483647 ≠ .str s)
        ∧ evalBinary .add (.char 'a') (.int 2147483647) false .int = .ok (.int (-2147483552))
        ∧ Wrapped .add (.char 'a') (.int 2147483647) (.int (-2147483552)) := by
  have hdiv : evalBinary .div (.long (-9223372036854775808)) (.int (-1)) false (.prim .long)
      = .ok (.long (-9223372036854775808)) := by decide
  have hadd : evalBinary .add (.char 'a') (.int 2147483647) false .int = .ok (.int (-2147483552)) := by
    decide
  have htexts : Ty.int ≠ .string ∧ (∀ s, Value.char 'a' ≠ .str s) ∧ ∀ s, Value.int 2147483647 ≠ .str s :=
    ⟨by decide, nofun, nofun⟩
  obtain ⟨-, -, -, -, hdivided⟩ := @evalBinary_arithmetic .div (.long (-9223372036854775808)) (.int (-1))
    false (.prim .long) rfl nofun
  obtain ⟨-, -, -, -, hadded⟩ := @evalBinary_arithmetic .add (.char 'a') (.int 2147483647) false .int
    rfl fun _ => htexts
  exact ⟨⟨rfl, hdiv, (hdivided _ hdiv).2⟩, rfl, htexts, hadd, (hadded _ hadd).2⟩

end

end PatternIR
