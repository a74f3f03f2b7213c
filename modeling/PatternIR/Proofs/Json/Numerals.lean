/-
  PatternIR.Proofs.Json.Numerals
  ──────────────────────────────
  **NUMBERS AS THEY ARE WRITTEN, and scanned again.**

  A numeral has a canonical text: a sign if it is negative, its digits, a point
  with the fraction behind it, and an exponent that always has a sign.  Every
  integer and every finite floating-point number is written as such a text, and
  scanning takes all of it, whatever stands behind it, as long as that begins
  with a comma or a new line.

      -12    ↦  ⟨-, [1, 2], none, none⟩
      1e+16  ↦  ⟨+, [1], none, some (+, [1, 6])⟩

    • `Numeral.text` — the canonical text;
    • `Numeral.scan_text` — scanning takes it;
    • `Numeral.ofInt` — the numeral of an integer, and its value;
    • `Binary.write?_eq_text` — floating-point numbers.
-/
import PatternIR.Json.Scan
import PatternIR.Json.Text

namespace PatternIR

/-! ## §1. Digits. -/

namespace Text

variable {ds : List Nat} {rest : List Char}

/-- Decimal digits, at least one. -/
structure AreDigits (ds : List Nat) : Prop where
  below : ∀ d ∈ ds, d < 10
  filled : ds ≠ []

/-- Decimal digits as characters. -/
def written (ds : List Nat) : List Char := ds.map Nat.digitChar

/-- The decimal digits of a number. -/
def decimal (n : Nat) : List Nat := (Nat.toDigits 10 n).map fun c => c.toNat - 48

/-- The digits at the front of a text end where no digit follows. -/
theorem digits_written (hds : ∀ d ∈ ds, d < 10) (hrest : ∀ c ∈ rest.head?, c.isDigit = false) :
    digits (written ds ++ rest) = (ds, rest) := by
  induction ds with
  | nil =>
      cases rest with
      | nil => rfl
      | cons c cs =>
          have hc : c.isDigit = false := hrest c rfl
          simp [digits, written, hc]
  | cons d ds ih =>
      have hd : d < 10 := hds d List.mem_cons_self
      have hdigit : d.digitChar.isDigit = true := by
        rw [Nat.isDigit_digitChar]
        exact decide_eq_true hd
      have hmore := ih fun e he => hds e (List.mem_cons_of_mem _ he)
      simp only [digits, Prod.mk.injEq] at hmore
      simp only [digits, written, List.map_cons, List.cons_append, List.takeWhile_cons,
        List.dropWhile_cons, hdigit, if_true, Prod.mk.injEq, List.cons.injEq,
        Nat.toNat_digitChar_sub_48_of_lt_ten hd, true_and]
      exact hmore

/-- The digits of a number are characters from `0` to `9`. -/
theorem isDigit_of_mem_toDigits {n : Nat} {c : Char} (h : c ∈ Nat.toDigits 10 n) :
    48 ≤ c.toNat ∧ c.toNat ≤ 57 := by
  have hdigit := Nat.isDigit_of_mem_toDigits (by decide) (by decide) h
  simp only [Char.isDigit, ge_iff_le, Bool.and_eq_true, decide_eq_true_eq] at hdigit
  exact hdigit

/-- A digit is what its value is written as. -/
theorem digitChar_toNat {c : Char} (h : 48 ≤ c.toNat ∧ c.toNat ≤ 57) :
    Nat.digitChar (c.toNat - 48) = c := by
  apply Char.toNat_inj.mp
  rw [Nat.toNat_digitChar_of_lt_ten (by omega)]
  omega

/-- Digits are written as the base library writes them. -/
theorem written_decimal (n : Nat) : written (decimal n) = Nat.toDigits 10 n := by
  rw [written, decimal, List.map_map]
  refine (List.map_congr_left fun c hc => ?_).trans (List.map_id _)
  exact digitChar_toNat (isDigit_of_mem_toDigits hc)

/-- Each of them is less than ten. -/
theorem areDigits_decimal (n : Nat) : AreDigits (decimal n) := by
  refine ⟨fun d hd => ?_, ?_⟩
  · obtain ⟨c, hc, rfl⟩ := List.mem_map.mp hd
    have hbounds := isDigit_of_mem_toDigits hc
    omega
  · exact fun hnil => Nat.toDigits_ne_nil (List.map_eq_nil_iff.mp hnil)

/-- The digits of a number have it as their value. -/
theorem ofDigits_decimal (n : Nat) : ofDigits (decimal n) = n := by
  rw [ofDigits, decimal, List.foldl_map]
  exact Nat.ofDigitChars_ten_toDigits

/-- Only zero begins with a zero. -/
theorem toDigits_head_zero {n : Nat} (h : (Nat.toDigits 10 n).head? = some '0') : n = 0 := by
  induction n using Nat.strongRecOn with
  | ind n ih =>
      rw [Nat.toDigits_eq_if (by decide)] at h
      split at h
      next hlt =>
        exact Nat.digitChar_eq_zero.mp (Option.some.inj h)
      next hge =>
        obtain ⟨c, cs, hcs⟩ := List.exists_cons_of_ne_nil (Nat.toDigits_ne_nil : Nat.toDigits 10 (n / 10) ≠ [])
        rw [hcs] at h
        have hzero := ih (n / 10) (by omega) (by rw [hcs]; exact h)
        omega

/-- A number that opens with the digit zero is zero. -/
theorem decimal_head_zero {n : Nat} (h : (decimal n).head? = some 0) : n = 0 := by
  refine toDigits_head_zero ?_
  rw [← written_decimal, written, List.head?_map, h]
  rfl

end Text

/-! ## §2. Numerals. -/

/-- What may stand behind a number: nothing that could belong to it. -/
def Draft.Delimits (rest : List Char) : Prop :=
  ∀ c ∈ rest.head?, c.isDigit = false ∧ c ≠ '.' ∧ c ≠ 'e' ∧ c ≠ 'E'

namespace Numeral

open Text (written AreDigits decimal)

/-- A numeral that has a text: there are digits wherever there may be some, and
no zero in front of others. -/
structure Proper (n : Numeral) : Prop where
  whole : AreDigits n.whole
  leading : n.whole.head? = some 0 → n.whole = [0]
  fraction : ∀ ds ∈ n.fraction, AreDigits ds
  exponent : ∀ e ∈ n.exponent, AreDigits e.2

/-- The point and the digits behind it. -/
def fractionText : Option (List Nat) → List Char
  | none => []
  | some ds => '.' :: written ds

/-- The exponent, with its sign. -/
def exponentText : Option (Bool × List Nat) → List Char
  | none => []
  | some (negative, ds) => 'e' :: (if negative then '-' else '+') :: written ds

/-- The canonical text of a numeral. -/
def text (n : Numeral) : List Char :=
  (if n.negative then ['-'] else []) ++ (written n.whole ++ (fractionText n.fraction ++
    exponentText n.exponent))

variable {n : Numeral} {rest : List Char} {ds : List Nat}

/-- What ends a number is no digit. -/
theorem not_digit_of_delimits (h : Draft.Delimits rest) : ∀ c ∈ rest.head?, c.isDigit = false :=
  fun c hc => (h c hc).1

/-- No exponent is read where the number has ended. -/
theorem exponent_delimits (n : Numeral) (first : Char) (hrest : Draft.Delimits rest) :
    Draft.exponent n first rest = ⟨.number n, some rest⟩ := by
  cases rest with
  | nil => rfl
  | cons c cs =>
      obtain ⟨-, -, hsmall, hlarge⟩ := hrest c rfl
      exact if_neg (not_or.mpr ⟨hsmall, hlarge⟩)

/-- Scanning an exponent. -/
theorem scan_exponent (n : Numeral) (first : Char) {e : Option (Bool × List Nat)} (hn : n.exponent = none)
    (he : ∀ x ∈ e, AreDigits x.2) (hrest : Draft.Delimits rest) :
    Draft.exponent n first (exponentText e ++ rest) = ⟨.number { n with exponent := e }, some rest⟩ := by
  match e with
  | none =>
      have hsame : { n with exponent := none } = n := by
        rw [← hn]
      rw [hsame]
      exact exponent_delimits n first hrest
  | some (negative, ds) =>
      have hds : AreDigits ds := he _ rfl
      have hdigits := Text.digits_written hds.below (not_digit_of_delimits hrest)
      obtain ⟨d, ds, rfl⟩ := List.exists_cons_of_ne_nil hds.filled
      cases negative <;> simp [exponentText, Draft.exponent, hdigits]

/-- What stands behind the digits of a numeral is no digit. -/
theorem tail_not_digit (f : Option (List Nat)) (e : Option (Bool × List Nat)) (hrest : Draft.Delimits rest) :
    ∀ c ∈ (fractionText f ++ (exponentText e ++ rest)).head?, c.isDigit = false := by
  intro c hc
  match f, e with
  | some _, _ =>
      obtain rfl := Option.some.inj hc
      rfl
  | none, some _ =>
      obtain rfl := Option.some.inj hc
      rfl
  | none, none => exact not_digit_of_delimits hrest c hc

/-- A text behind a fraction begins with no point. -/
theorem point_not_head (e : Option (Bool × List Nat)) (hrest : Draft.Delimits rest) :
    ∀ c ∈ (exponentText e ++ rest).head?, c ≠ '.' := by
  intro c hc
  match e with
  | some _ =>
      obtain rfl := Option.some.inj hc
      decide
  | none => exact (hrest c hc).2.1

/-- What `Draft.numeral` does, once the sign is off. -/
def unsigned (negative : Bool) (first : Char) (cs : List Char) : Draft.Found (Draft Numeral) :=
  match Text.digits cs with
  | ([], rest) => Draft.digitMissing first rest
  | (0 :: _ :: _, _) => ⟨.cut (some first) .malformed .malformed, none⟩
  | (whole, '.' :: rest) =>
    match Text.digits rest with
    | ([], rest) => Draft.digitMissing first rest
    | (fraction, rest) => Draft.exponent ⟨negative, whole, some fraction, none⟩ first rest
  | (whole, rest) => Draft.exponent ⟨negative, whole, none, none⟩ first rest

/-- A numeral is a sign and the number behind it. -/
theorem numeral_eq (first : Char) (cs : List Char) :
    Draft.numeral first cs
      = unsigned (first = '-') first (if first = '-' then cs else first :: cs) := by
  unfold Draft.numeral
  simp only
  rfl

/-- A number is read back behind its sign. -/
theorem scan_unsigned (h : n.Proper) (first : Char) (hrest : Draft.Delimits rest) :
    unsigned n.negative first
        (written n.whole ++ (fractionText n.fraction ++ (exponentText n.exponent ++ rest)))
      = ⟨.number n, some rest⟩ := by
  obtain ⟨negative, whole, fraction, exponent⟩ := n
  obtain ⟨hwhole, hleading, hfraction, hexponent⟩ := h
  have hdigits := Text.digits_written hwhole.below (tail_not_digit fraction exponent hrest)
  -- the digits are neither none nor a zero in front of others
  have hsplit : (∃ d, whole = [d]) ∨ ∃ d e more, whole = d :: e :: more ∧ d ≠ 0 := by
    match whole with
    | [] => exact absurd rfl hwhole.filled
    | [d] => exact .inl ⟨d, rfl⟩
    | d :: e :: more =>
        refine .inr ⟨d, e, more, rfl, ?_⟩
        rintro rfl
        exact List.cons_ne_nil _ _ (List.cons.inj (hleading rfl)).2
  unfold unsigned
  rw [hdigits]
  cases fraction with
  | some ds =>
      have hds := hfraction ds rfl
      have hmore : Text.digits (written ds ++ (exponentText exponent ++ rest))
          = (ds, exponentText exponent ++ rest) :=
        Text.digits_written hds.below (tail_not_digit none exponent hrest)
      have hlast := scan_exponent ⟨negative, whole, some ds, none⟩ first (e := exponent) rfl
        hexponent hrest
      obtain ⟨d, ds, rfl⟩ := List.exists_cons_of_ne_nil hds.filled
      rcases hsplit with ⟨d', rfl⟩ | ⟨d', e', more, rfl, hd'⟩
      · simpa [fractionText, hmore] using hlast
      · simpa [fractionText, hmore, hd'] using hlast
  | none =>
      have hlast := scan_exponent ⟨negative, whole, none, none⟩ first (e := exponent) rfl hexponent hrest
      have hpoint := point_not_head exponent hrest
      rw [show fractionText none ++ (exponentText exponent ++ rest) = exponentText exponent ++ rest from rfl]
      generalize exponentText exponent ++ rest = tail at hlast hpoint
      cases tail with
      | nil =>
          rcases hsplit with ⟨d', rfl⟩ | ⟨d', e', more, rfl, hd'⟩
          · simp [hlast]
          · simp [hlast, hd']
      | cons c cs =>
          have hc : c ≠ '.' := hpoint c rfl
          rcases hsplit with ⟨d', rfl⟩ | ⟨d', e', more, rfl, hd'⟩
          · simp [hlast, hc]
          · simp [hlast, hc, hd']

/-- What a numeral begins with. -/
def Opens (c : Char) : Prop := c = '-' ∨ c.isDigit = true

/-- **Scanning takes the whole text of a numeral.** -/
theorem scan_text (h : n.Proper) (hrest : Draft.Delimits rest) :
    ∃ c cs, n.text = c :: cs ∧ Opens c ∧ Draft.numeral c (cs ++ rest) = ⟨.number n, some rest⟩ := by
  have hscan := fun first => scan_unsigned h first hrest
  obtain ⟨d, ds, hwhole⟩ := List.exists_cons_of_ne_nil h.whole.filled
  have hd : d < 10 := h.whole.below d (by rw [hwhole]; exact List.mem_cons_self)
  have hdigit : d.digitChar.isDigit = true := by
    rw [Nat.isDigit_digitChar]
    exact decide_eq_true hd
  cases hsign : n.negative with
  | true =>
      refine ⟨'-', written n.whole ++ (fractionText n.fraction ++ exponentText n.exponent), ?_, .inl rfl, ?_⟩
      · simp [text, hsign]
      · have hone := hscan '-'
        rw [hsign] at hone
        simpa [numeral_eq] using hone
  | false =>
      refine ⟨d.digitChar, written ds ++ (fractionText n.fraction ++ exponentText n.exponent), ?_,
        .inr hdigit, ?_⟩
      · simp [text, hsign, hwhole, written]
      · have hne : d.digitChar ≠ '-' := by
          intro heq
          rw [heq] at hdigit
          exact Bool.noConfusion hdigit
        have hone := hscan d.digitChar
        rw [hsign, hwhole] at hone
        simpa [numeral_eq, hne, written] using hone

/-! ## §3. Integers. -/

/-- The numeral of an integer. -/
def ofInt (z : Int) : Numeral := ⟨decide (z < 0), decimal z.natAbs, none, none⟩

/-- The digits of a number alone are a proper numeral. -/
theorem proper_of_whole {negative : Bool} {k : Nat} : Proper ⟨negative, decimal k, none, none⟩ where
  whole := Text.areDigits_decimal k
  leading h := by
    obtain rfl := Text.decimal_head_zero h
    rfl
  fraction _ h := nomatch h
  exponent _ h := nomatch h

/-- An integer is one. -/
theorem proper_ofInt (z : Int) : (ofInt z).Proper := proper_of_whole

/-- **An integer is written as its numeral.** -/
theorem toString_eq_text (z : Int) : (toString z).toList = (ofInt z).text := by
  rw [Int.toString_eq_repr]
  cases z with
  | ofNat k =>
      show (Nat.repr k).toList = _
      rw [Nat.repr_eq_ofList_toDigits, String.toList_ofList, ← Text.written_decimal]
      simp [text, ofInt, fractionText, exponentText]
  | negSucc k =>
      show ("-" ++ Nat.repr (k + 1)).toList = _
      rw [String.toList_append, Nat.repr_eq_ofList_toDigits, String.toList_ofList, ← Text.written_decimal]
      simp [text, ofInt, fractionText, exponentText, Int.negSucc_lt_zero]

/-- Digits behind a number make it no smaller. -/
theorem le_foldl_digits : ∀ (ds : List Nat) (k : Nat), k ≤ ds.foldl (fun n d => 10 * n + d) k
  | [], k => Nat.le_refl k
  | d :: ds, k => by
      have hstep := le_foldl_digits ds (10 * k + d)
      rw [List.foldl_cons]
      omega

/-- Digits of a number that fits are all gathered. -/
theorem gather_eq : ∀ (ds : List Nat) (k : Nat), ds.foldl (fun n d => 10 * n + d) k < UInt64.size →
    gather k ds = (ds.foldl (fun n d => 10 * n + d) k, 0)
  | [], _, _ => rfl
  | d :: ds, k, h => by
      rw [List.foldl_cons] at h
      have hfits : 10 * k + d < UInt64.size := Nat.lt_of_le_of_lt (le_foldl_digits ds _) h
      rw [gather, if_pos hfits, gather_eq ds _ h]
      rfl

/-- The digits of a number of 64 bits are gathered into it. -/
theorem gather_decimal {k : Nat} (h : k < UInt64.size) : gather 0 (decimal k) = (k, 0) := by
  have hvalue : (decimal k).foldl (fun n d => 10 * n + d) 0 = k := Text.ofDigits_decimal k
  rw [gather_eq, hvalue]
  rw [hvalue]
  exact h

/-- **The value of a written integer**, of 64 bits with or without sign. -/
theorem value_ofInt {z : Int} (hlow : Int64.minValue.toInt ≤ z) (hhigh : z < UInt64.size) :
    (ofInt z).value? = some (.int z) := by
  have hmin : Int64.minValue.toInt = -9223372036854775808 := by decide
  have hmax : UInt64.size = 18446744073709551616 := by decide
  have hfits : z.natAbs < UInt64.size := by omega
  simp only [value?, ofInt, gather_decimal hfits]
  rw [if_neg (Nat.lt_irrefl 0)]
  by_cases hz : z < 0
  · have hback : -(z.natAbs : Int) = z := by omega
    have hinside : ¬(z.natAbs = 0 ∨ -(z.natAbs : Int) < Int64.minValue.toInt) := by omega
    rw [decide_eq_true hz, Bool.not_true, if_neg Bool.false_ne_true, if_neg hinside, hback]
  · have hback : (z.natAbs : Int) = z := by omega
    rw [decide_eq_false hz, Bool.not_false, if_pos rfl, hback]

/-- A fraction or an exponent: no numeral of an integer. -/
def IsReal (n : Numeral) : Prop := n.fraction.isSome = true ∨ n.exponent.isSome = true

/-- The value of a numeral with a fraction or an exponent is no integer. -/
theorem value_of_isReal {n : Numeral} (h : n.IsReal) (z : Int) : n.value? ≠ some (.int z) := by
  obtain ⟨negative, whole, fraction, exponent⟩ := n
  have hreal : ∀ o : Option Double, o.map NumeralValue.real ≠ some (.int z) := by
    rintro (- | x) <;> simp
  match fraction, exponent, h with
  | some digits, _, _ => exact hreal _
  | none, some e, _ => exact hreal _

end Numeral

/-! ## §4. Floating-point numbers. -/

namespace Interval

/-- A power of ten has a positive denominator. -/
theorem tenPower_pos (k : Int) : 0 < (tenPower k).2 := by
  unfold tenPower
  split
  · exact Nat.one_pos
  · exact Nat.pow_pos (by decide)

/-- Above zero, an interval does not contain it. -/
theorem not_holds_zero {i : Interval} (hlow : 0 < i.low) {d : Nat} (hd : 0 < d) :
    i.holds 0 d = false := by
  have hpos : 0 < i.low * d := Nat.mul_pos hlow hd
  unfold holds
  have hno : ¬i.low * d ≤ 0 := Nat.not_le.mpr hpos
  split <;> rw [Nat.zero_mul]
  · rw [decide_eq_false hno, Bool.false_and]
  · rw [decide_eq_false (Nat.not_lt_zero _), Bool.false_and]

/-- Zero is not near a value that lies above it. -/
theorem digits_onGrid {i : Interval} (hlow : 0 < i.low) {tie : Tie} {k : Int} {d : Decimal}
    (h : i.onGrid? tie k = some d) : d.digits ≠ 0 := by
  unfold onGrid? at h
  simp only at h
  generalize hpower : tenPower k = power at h
  obtain ⟨num, den⟩ := power
  have hden : 0 < den := by
    have hpos := tenPower_pos k
    rwa [hpower] at hpos
  -- the point below is in the interval only if it is not zero, which is below all of it
  have hbelow : i.holds (i.value * den / (i.unit * num) * num) den = true
      → i.value * den / (i.unit * num) ≠ 0 := by
    intro hholds hzero
    rw [hzero, Nat.zero_mul, not_holds_zero hlow hden] at hholds
    exact Bool.noConfusion hholds
  simp only at h
  split at h
  next hb _ =>
    have hne := hbelow hb
    split at h
    · obtain rfl := Option.some.inj h
      exact hne
    · split at h
      · obtain rfl := Option.some.inj h
        exact Nat.succ_ne_zero _
      · cases tie with
        | up =>
            obtain rfl := Option.some.inj h
            exact Nat.succ_ne_zero _
        | even =>
            obtain rfl := Option.some.inj h
            show (if _ then _ else _) ≠ 0
            split
            · exact hne
            · exact Nat.succ_ne_zero _
  next hb _ =>
    obtain rfl := Option.some.inj h
    exact hbelow hb
  next =>
    obtain rfl := Option.some.inj h
    exact Nat.succ_ne_zero _
  next => exact nomatch h

/-- The digits found first are not zero. -/
theorem digits_firstHit {i : Interval} (hlow : 0 < i.low) {tie : Tie} {d : Decimal} :
    ∀ (n : Nat) (k : Int), i.firstHit tie n k = some d → d.digits ≠ 0
  | 0, _, h => nomatch h
  | n + 1, k, h => by
      unfold firstHit at h
      cases hgrid : i.onGrid? tie k with
      | some e =>
          rw [hgrid] at h
          obtain rfl := Option.some.inj h
          exact digits_onGrid hlow hgrid
      | none =>
          rw [hgrid] at h
          exact digits_firstHit hlow n (k - 1) h

/-- The interval around a positive number is above zero. -/
theorem around_low (f : Format) {significand : Nat} (exponent : Int) (h : 0 < significand) :
    0 < (around f significand exponent).low := by
  have hscale : 0 < (Binary.scaled 1 (exponent - 2)).1 := by
    unfold Binary.scaled
    split
    · rw [Nat.shiftLeft_eq, Nat.one_mul]
      exact Nat.pow_pos (by decide)
    · exact Nat.one_pos
  refine Nat.mul_pos ?_ hscale
  split <;> omega

end Interval

/-- Trimming does not make digits zero. -/
theorem Decimal.digits_trim : ∀ (n : Nat) {d : Decimal}, d.digits ≠ 0 → (d.trim n).digits ≠ 0
  | 0, _, h => h
  | n + 1, d, h => by
      unfold Decimal.trim
      split
      next htrim =>
        refine digits_trim n ?_
        show d.digits / 10 ≠ 0
        omega
      next => exact h

/-- **The shortest decimal of a positive value is positive.** -/
theorem Format.shortest_digits (f : Format) (tie : Tie) {significand : Nat} (exponent : Int)
    (h : 0 < significand) : (f.shortest tie significand exponent).digits ≠ 0 := by
  refine Decimal.digits_trim 17 ?_
  cases hhit : (Interval.around f significand exponent).firstHit tie 17
      (Interval.around f significand exponent).leading with
  | some d => exact Interval.digits_firstHit (Interval.around_low f exponent h) 17 _ hhit
  | none => exact Nat.pos_iff_ne_zero.mp h

namespace Layout

open Numeral (Proper fractionText exponentText)
open Text (decimal written AreDigits)

variable {negative : Bool} {ds whole fraction : List Nat}

/-- Zeros in front are digits. -/
theorem areDigits_zeros_append (n : Nat) (h : AreDigits ds) : AreDigits (List.replicate n 0 ++ ds) := by
  refine ⟨fun d hd => ?_, List.append_ne_nil_of_right_ne_nil _ h.filled⟩
  rcases List.mem_append.mp hd with hd | hd
  · rw [List.eq_of_mem_replicate hd]
    decide
  · exact h.below d hd

/-- So are zeros behind. -/
theorem areDigits_append_zeros (n : Nat) (h : AreDigits ds) : AreDigits (ds ++ List.replicate n 0) := by
  refine ⟨fun d hd => ?_, List.append_ne_nil_of_left_ne_nil h.filled _⟩
  rcases List.mem_append.mp hd with hd | hd
  · exact h.below d hd
  · rw [List.eq_of_mem_replicate hd]
    decide

/-- A numeral with a point and without exponent. -/
theorem proper_positional (hwhole : AreDigits whole) (hhead : whole.head? = some 0 → whole = [0])
    (hfraction : AreDigits fraction) : Proper ⟨negative, whole, some fraction, none⟩ where
  whole := hwhole
  leading := hhead
  fraction _ h := by
    obtain rfl := Option.some.inj h
    exact hfraction
  exponent _ h := nomatch h

/-- A numeral with one digit in front of the point, and an exponent. -/
theorem proper_scientific {first : Nat} {more : List Nat} (h : AreDigits (first :: more)) (negative' : Bool)
    (e : Nat) : Proper ⟨negative, [first], if more = [] then none else some more,
      some (negative', decimal e)⟩ where
  whole := ⟨fun d hd => h.below d (List.mem_cons.mpr (.inl (List.mem_singleton.mp hd))), by simp⟩
  leading h := congrArg (fun d => [d]) (Option.some.inj h)
  fraction ds hds := by
    split at hds
    · exact nomatch hds
    · obtain rfl := Option.some.inj hds
      exact ⟨fun d hd => h.below d (List.mem_cons_of_mem _ hd), by assumption⟩
  exponent _ he := by
    obtain rfl := Option.some.inj he
    exact Text.areDigits_decimal e

/-- An exponent is written with a sign. -/
theorem exponent_eq_text (l : Layout) (hplus : l.plus = true) (point : Int) :
    ((if l.plus ∧ 1 ≤ point then "+" else "") ++ toString (point - 1)).toList
      = (if decide (point - 1 < 0) then '-' else '+') :: written (decimal (point - 1).natAbs) := by
  rw [String.toList_append, Numeral.toString_eq_text]
  by_cases hpoint : 1 ≤ point
  · have hneg : ¬point - 1 < 0 := by omega
    simp [hplus, hpoint, Numeral.text, Numeral.ofInt, fractionText, exponentText]
  · have hneg : point - 1 < 0 := by omega
    simp [hpoint, hneg, Numeral.text, Numeral.ofInt, fractionText, exponentText]

/-- Digits with a point somewhere among them. -/
theorem proper_split (hds : AreDigits ds) (hhead : ds.head? ≠ some 0) {k : Nat} (hk : k + 1 < ds.length) :
    Proper ⟨false, ds.take (k + 1), some (ds.drop (k + 1)), none⟩ := by
  refine proper_positional ⟨fun d hd => hds.below d (List.mem_of_mem_take hd), ?_⟩
    (fun h => absurd ?_ hhead) ⟨fun d hd => hds.below d (List.mem_of_mem_drop hd), ?_⟩
  · rw [ne_eq, List.take_eq_nil_iff]
    exact fun hor => hor.elim (Nat.succ_ne_zero k) hds.filled
  · rw [List.head?_take, if_neg (Nat.succ_ne_zero k)] at h
    exact h
  · rw [ne_eq, List.drop_eq_nil_iff]
    exact Nat.not_le.mpr hk

/-- A positive decimal is written as a numeral without sign, and never as one of an integer. -/
theorem write_eq_text (l : Layout) (hplus : l.plus = true) {d : Decimal} (hd : d.digits ≠ 0) :
    ∃ n : Numeral, n.Proper ∧ n.IsReal ∧ n.negative = false ∧ (l.write d).toList = n.text := by
  have hdigits := Text.areDigits_decimal d.digits
  have hhead : (decimal d.digits).head? ≠ some 0 := fun h => hd (Text.decimal_head_zero h)
  unfold write
  simp only [← Text.written_decimal]
  generalize decimal d.digits = ds at hdigits hhead
  have hlength : (written ds).length = ds.length := List.length_map _
  rw [hlength]
  split
  next hpoint =>
    split
    next hexponent =>
      -- all digits stand in front of the point
      refine ⟨⟨false, ds ++ List.replicate d.exponent.toNat 0, some [0], none⟩, ?_, .inl rfl, rfl, ?_⟩
      · refine proper_positional (areDigits_append_zeros _ hdigits) (fun h => absurd ?_ hhead) ?_
        · obtain ⟨first, more, rfl⟩ := List.exists_cons_of_ne_nil hdigits.filled
          exact h
        · exact ⟨by decide, by decide⟩
      · simp [Numeral.text, fractionText, exponentText, written, zeros]
        rfl
    next hexponent =>
      split
      next hpositive =>
        -- the point stands among the digits
        obtain ⟨k, hk⟩ : ∃ k, ((ds.length : Int) + d.exponent).toNat = k + 1 :=
          ⟨((ds.length : Int) + d.exponent).toNat - 1, by omega⟩
        refine ⟨_, proper_split hdigits hhead (k := k) (by omega), .inl rfl, rfl, ?_⟩
        rw [hk]
        simp [Numeral.text, fractionText, exponentText, written]
      next =>
        -- zeros stand between the point and the digits
        refine ⟨⟨false, [0], some (List.replicate (-(ds.length + d.exponent)).toNat 0 ++ ds), none⟩,
          proper_positional ⟨by decide, by decide⟩ (fun _ => rfl) (areDigits_zeros_append _ hdigits), .inl rfl,
          rfl, ?_⟩
        simp [Numeral.text, fractionText, exponentText, written, zeros]
  next =>
    -- the point stands behind the first digit
    obtain ⟨first, more, rfl⟩ := List.exists_cons_of_ne_nil hdigits.filled
    refine ⟨_, proper_scientific hdigits (decide ((first :: more).length + d.exponent - 1 < 0))
      ((first :: more).length + d.exponent - 1).natAbs, .inr rfl, rfl, ?_⟩
    generalize ((first :: more).length : Int) + d.exponent = point
    have hexponent := exponent_eq_text l hplus point
    rw [String.append_assoc, String.toList_append, hexponent, String.toList_append]
    cases more with
    | nil => simp [Numeral.text, fractionText, exponentText, written]
    | cons second more => simp [Numeral.text, fractionText, exponentText, written]

end Layout

/-- **A finite floating-point number is written as a numeral**, in a layout that
gives every power of ten a sign. -/
theorem Binary.write?_eq_text {f : Format} {l : Layout} (hplus : l.plus = true) {x : Binary f}
    {t : String} (h : x.write? l = some t) : ∃ n : Numeral, n.Proper ∧ n.IsReal ∧ t.toList = n.text := by
  unfold Binary.write? at h
  split at h
  next significand exponent hview =>
    obtain rfl := Option.some.inj h
    -- a proper numeral stays one with a sign
    have hsigned : ∀ (n : Numeral) (t : String), n.Proper → n.IsReal → n.negative = false →
        t.toList = n.text → ∃ n : Numeral, n.Proper ∧ n.IsReal
          ∧ ((if x.negative then "-" else "") ++ t).toList = n.text := by
      intro n t hn hreal hpositive ht
      refine ⟨{ n with negative := x.negative }, ⟨hn.whole, hn.leading, hn.fraction, hn.exponent⟩, hreal, ?_⟩
      rw [String.toList_append, ht]
      cases x.negative <;> simp [Numeral.text, hpositive]
    by_cases hzero : significand = 0
    · rw [if_pos hzero]
      refine hsigned ⟨false, [0], some [0], none⟩ "0.0" ?_ (.inl rfl) rfl (by decide)
      exact Layout.proper_positional ⟨by decide, by decide⟩ (fun _ => rfl) ⟨by decide, by decide⟩
    · rw [if_neg hzero]
      obtain ⟨n, hn, hreal, hsign, htext⟩ := l.write_eq_text hplus
        (f.shortest_digits l.tie exponent (Nat.pos_of_ne_zero hzero))
      exact hsigned n _ hn hreal hsign htext
  next => exact nomatch h

end PatternIR
