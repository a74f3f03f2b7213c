/-
  PatternIR.Proofs.Float.Rounding
  ───────────────────────────────
  **WHAT A FORMAT CAN HOLD IS NOT ROUNDED.**

  A finite value counts the values below it, and that count has two parts: a
  significand and the number of steps its last bit stands above the lowest one
  (`Reads`).  A ratio that is such a value exactly comes out of the one
  rounding as that value.  A single has all its bits in a double, so on the
  way there and back nothing is rounded; a NaN gets through with its payload
  if it is quiet, and what a conversion makes is quiet.

    • `ratioLog_spec` — the power of two below a ratio;
    • `Reads` — a finite value as significand and place;
    • `ofRatio_of_reads` — a ratio that the format holds;
    • `convert_convert` — a single by way of the doubles.
-/
import Mathlib.Algebra.Order.Field.Power
import Mathlib.Data.Rat.Cast.Order
import Mathlib.Tactic.FieldSimp
import Mathlib.Tactic.Linarith
import Mathlib.Tactic.NormNum
import Mathlib.Tactic.Ring
import PatternIR.Float.Binary

namespace PatternIR

namespace Binary

variable {f g : Format}

/-! ## §1. Ratios and powers of two. -/

/-- A scaled number has a positive denominator. -/
theorem scaled_pos (n : Nat) (e : Int) : 0 < (scaled n e).2 := by
  unfold scaled
  split
  · exact Nat.one_pos
  · rw [Nat.one_shiftLeft]
    exact Nat.two_pow_pos _

/-- A number that is not zero is not scaled to zero. -/
theorem scaled_fst_pos {n : Nat} (hn : 0 < n) (e : Int) : 0 < (scaled n e).1 := by
  unfold scaled
  split
  · rw [Nat.shiftLeft_eq]
    exact Nat.mul_pos hn (Nat.two_pow_pos _)
  · exact hn

/-- The ratio is `n · 2 ^ e`. -/
theorem scaled_eq (n : Nat) (e : Int) : ((scaled n e).1 : ℚ) / (scaled n e).2 = n * 2 ^ e := by
  unfold scaled
  split
  case isTrue he =>
    obtain ⟨k, rfl⟩ := Int.eq_ofNat_of_zero_le he
    simp [Nat.shiftLeft_eq]
  case isFalse he =>
    obtain ⟨k, hk⟩ := Int.eq_ofNat_of_zero_le (by omega : 0 ≤ -e)
    obtain rfl : e = -(k : Int) := by omega
    simp [Nat.one_shiftLeft, div_eq_mul_inv]

/-- A natural between two powers of two, over another one. -/
theorem log2_bounds {n d : Nat} (hn : 0 < n) (hd : 0 < d) :
    (2 : ℚ) ^ ((Nat.log2 n : Int) - Nat.log2 d - 1) < n / d
      ∧ (n : ℚ) / d < 2 ^ ((Nat.log2 n : Int) - Nat.log2 d + 1) := by
  have hbounds : ∀ m : Nat, 0 < m → (2 : ℚ) ^ (Nat.log2 m : Int) ≤ m
      ∧ (m : ℚ) < 2 ^ ((Nat.log2 m : Int) + 1) := by
    intro m hm
    constructor
    · exact_mod_cast Nat.log2_self_le (Nat.pos_iff_ne_zero.mp hm)
    · exact_mod_cast Nat.lt_log2_self (n := m)
  obtain ⟨hn₁, hn₂⟩ := hbounds n hn
  obtain ⟨hd₁, hd₂⟩ := hbounds d hd
  have hd₀ : (0 : ℚ) < d := by exact_mod_cast hd
  have hsplit : ∀ a b : Int, (2 : ℚ) ^ (a - b) = 2 ^ a / 2 ^ b := fun a b => zpow_sub₀ two_ne_zero a b
  have hpow : ∀ a : Int, (0 : ℚ) < 2 ^ a := fun a => zpow_pos two_pos a
  constructor
  · have hexp : (Nat.log2 n : Int) - Nat.log2 d - 1 = Nat.log2 n - (Nat.log2 d + 1) := by omega
    rw [hexp, hsplit, div_lt_div_iff₀ (hpow _) hd₀]
    calc (2 : ℚ) ^ (Nat.log2 n : Int) * d ≤ n * d := by gcongr
      _ < n * 2 ^ ((Nat.log2 d : Int) + 1) := by
        have : (0 : ℚ) < n := by exact_mod_cast hn
        gcongr
  · have hexp : (Nat.log2 n : Int) - Nat.log2 d + 1 = Nat.log2 n + 1 - Nat.log2 d := by omega
    rw [hexp, hsplit, div_lt_div_iff₀ hd₀ (hpow _)]
    calc (n : ℚ) * 2 ^ (Nat.log2 d : Int) ≤ n * d := by gcongr
      _ < 2 ^ ((Nat.log2 n : Int) + 1) * d := by gcongr

/-- **The logarithm of a ratio** is exact: the guess from the logarithms of its
terms is right or one too large, and the comparison tells which. -/
theorem ratioLog_spec {n d : Nat} (hn : 0 < n) (hd : 0 < d) :
    (2 : ℚ) ^ ratioLog n d ≤ n / d ∧ (n : ℚ) / d < 2 ^ (ratioLog n d + 1) := by
  obtain ⟨hlow, hhigh⟩ := log2_bounds hn hd
  unfold ratioLog
  generalize (Nat.log2 n : Int) - Nat.log2 d = guess at hlow hhigh ⊢
  have hunit : (0 : ℚ) < (scaled d guess).2 := by exact_mod_cast scaled_pos d guess
  have hd₀ : (0 : ℚ) < d := by exact_mod_cast hd
  have htest : n * (scaled d guess).2 < (scaled d guess).1 ↔ (n : ℚ) / d < 2 ^ guess := by
    rw [div_lt_iff₀ hd₀, mul_comm _ (d : ℚ), ← scaled_eq, lt_div_iff₀ hunit]
    exact_mod_cast Iff.rfl
  show (2 : ℚ) ^ (if n * (scaled d guess).2 < (scaled d guess).1 then guess - 1 else guess) ≤ _
    ∧ _ < (2 : ℚ) ^ ((if n * (scaled d guess).2 < (scaled d guess).1 then guess - 1 else guess) + 1)
  split
  case isTrue hlt =>
    rw [sub_add_cancel]
    exact ⟨hlow.le, htest.mp hlt⟩
  case isFalse hlt => exact ⟨not_lt.mp fun h => hlt (htest.mpr h), hhigh⟩

/-- Rounding to a unit is exact on its multiples. -/
theorem roundDiv_mul (q : Nat) {unit : Nat} (hunit : 0 < unit) : roundDiv (q * unit) unit = q := by
  unfold roundDiv
  rw [Nat.mul_mod_left, Nat.mul_div_cancel q hunit]
  simp [hunit]

/-! ## §2. Finite values. -/

/-- A finite value with its significand, whose last bit stands `place` steps
above the lowest bit of the format.  It has all the bits the format keeps,
unless it stands at the lowest place. -/
structure Reads (x : Binary f) (significand place : Nat) : Prop where
  magnitude : x.magnitude = place * 2 ^ f.fraction + significand
  fits : significand < 2 ^ (f.fraction + 1)
  normal : place = 0 ∨ 2 ^ f.fraction ≤ significand
  finite : x.magnitude < f.infinity

/-- Every finite number has a reading as an integer on the grid. -/
theorem exists_reads {x : Binary f} (h : x.magnitude < f.infinity) : ∃ S k, x.Reads S k := by
  have hrest : x.magnitude % 2 ^ f.fraction < 2 ^ f.fraction := Nat.mod_lt _ (Nat.two_pow_pos _)
  have hsum := Nat.div_add_mod' x.magnitude (2 ^ f.fraction)
  rcases Nat.eq_zero_or_pos (x.magnitude / 2 ^ f.fraction) with hrow | hrow
  · refine ⟨x.magnitude, 0, by simp, ?_, .inl rfl, h⟩
    rw [hrow] at hsum
    rw [pow_succ]
    omega
  · obtain ⟨row, hrow'⟩ := Nat.exists_eq_add_of_lt hrow
    refine ⟨x.magnitude % 2 ^ f.fraction + 2 ^ f.fraction, row, ?_, ?_, .inr (by omega), h⟩
    · have hrow : x.magnitude / 2 ^ f.fraction = row + 1 := by omega
      rw [hrow, Nat.add_mul] at hsum
      omega
    · rw [pow_succ]
      omega

namespace Reads

variable {x : Binary f} {y : Binary g} {S k S' k' : Nat}

/-- The reading is the view of the number. -/
theorem view (h : x.Reads S k) : x.view = .finite S (f.bottom + k) := by
  have hpow := Nat.two_pow_pos f.fraction
  unfold Binary.view
  rw [if_neg (Nat.not_lt.mpr h.finite.le), if_neg h.finite.ne]
  simp only [Nat.shiftRight_eq_div_pow, Nat.one_shiftLeft]
  rcases Nat.lt_or_ge S (2 ^ f.fraction) with hS | hS
  · obtain rfl : k = 0 := h.normal.resolve_right (Nat.not_le.mpr hS)
    have hm : x.magnitude = S := by simpa using h.magnitude
    rw [hm, Nat.div_eq_of_lt hS, Nat.mod_eq_of_lt hS, if_pos rfl]
    simp
  · obtain ⟨r, rfl⟩ := Nat.exists_eq_add_of_le hS
    have hfits := h.fits
    have hr : r < 2 ^ f.fraction := by
      rw [pow_succ] at hfits
      omega
    have hm : x.magnitude = r + (k + 1) * 2 ^ f.fraction := by
      rw [h.magnitude, Nat.add_mul]
      omega
    rw [hm, Nat.add_mul_div_right _ _ hpow, Nat.add_mul_mod_self_right, Nat.div_eq_of_lt hr,
      Nat.mod_eq_of_lt hr, if_neg (by omega)]
    congr 1
    · exact Nat.add_comm _ _
    · push_cast
      omega

/-- The rounding weighs the last bit of the significand at its place. -/
theorem weight (h : x.Reads S k) {n d : Nat} (hn : 0 < n) (hd : 0 < d)
    (hval : (n : ℚ) / d = S * 2 ^ (f.bottom + k)) :
    max (ratioLog n d - f.fraction) f.bottom = f.bottom + k := by
  obtain ⟨hlow, hhigh⟩ := ratioLog_spec hn hd
  rw [hval] at hlow hhigh
  have hpow : (0 : ℚ) < 2 ^ (f.bottom + k) := zpow_pos two_pos _
  have hbelow : ratioLog n d < f.fraction + 1 + (f.bottom + k) := by
    have hfits : (S : ℚ) < 2 ^ ((f.fraction : Int) + 1) := by exact_mod_cast h.fits
    have hlt : (2 : ℚ) ^ ratioLog n d < 2 ^ ((f.fraction : Int) + 1 + (f.bottom + k)) := by
      rw [zpow_add₀ two_ne_zero]
      exact hlow.trans_lt (mul_lt_mul_of_pos_right hfits hpow)
    exact (zpow_lt_zpow_iff_right₀ one_lt_two).mp hlt
  rcases h.normal with rfl | hnormal
  · -- at the lowest place the significand may be short
    push_cast at hbelow ⊢
    omega
  · have habove : f.fraction + (f.bottom + k) < ratioLog n d + 1 := by
      have hnormal : (2 : ℚ) ^ (f.fraction : Int) ≤ S := by exact_mod_cast hnormal
      have hlt : (2 : ℚ) ^ ((f.fraction : Int) + (f.bottom + k)) < 2 ^ (ratioLog n d + 1) := by
        rw [zpow_add₀ two_ne_zero]
        exact (mul_le_mul_of_nonneg_right hnormal hpow.le).trans_lt hhigh
      exact (zpow_lt_zpow_iff_right₀ one_lt_two).mp hlt
    omega

end Reads

/-- **A ratio that the format holds** is not rounded. -/
theorem ofRatio_of_reads {x : Binary f} {S k n d : Nat} (h : x.Reads S k) (hd : 0 < d)
    (hval : (n : ℚ) / d = S * 2 ^ (f.bottom + k)) : ofRatio x.negative n d = x := by
  have hd₀ : (d : ℚ) ≠ 0 := by exact_mod_cast hd.ne'
  have hpow : (2 : ℚ) ^ (f.bottom + k) ≠ 0 := zpow_ne_zero _ two_ne_zero
  obtain ⟨negative, magnitude⟩ := x
  have hmag : magnitude = k * 2 ^ f.fraction + S := h.magnitude
  unfold ofRatio
  rcases Nat.eq_zero_or_pos S with rfl | hS
  · have hk : k = 0 := h.normal.resolve_right (Nat.not_le.mpr (Nat.two_pow_pos _))
    have hn : n = 0 := by
      have : (n : ℚ) = 0 := by
        field_simp at hval
        simpa using hval
      exact_mod_cast this
    have hzero : magnitude = 0 := by simpa [hk] using hmag
    rw [if_pos hn, hzero]
    rfl
  · have hn : 0 < n := by
      refine Nat.pos_of_ne_zero fun hn => ?_
      rw [hn, Nat.cast_zero, zero_div, eq_comm, mul_eq_zero] at hval
      rcases hval with hS₀ | hpow₀
      · exact hS.ne' (by exact_mod_cast hS₀)
      · exact hpow hpow₀
    have hunit := scaled_fst_pos hd (f.bottom + k)
    -- at the exponent of `x` the ratio is a whole number of units, so rounding leaves it
    have hexact : n * (scaled d (f.bottom + k)).2 = S * (scaled d (f.bottom + k)).1 := by
      have hinverse : ((scaled d (f.bottom + k)).2 : ℚ) ≠ 0 := by
        exact_mod_cast (scaled_pos d (f.bottom + k)).ne'
      have hscaled := scaled_eq d (f.bottom + k)
      rw [div_eq_iff hinverse] at hscaled
      rw [div_eq_iff hd₀] at hval
      have : (n : ℚ) * (scaled d (f.bottom + k)).2 = S * (scaled d (f.bottom + k)).1 := by
        rw [hval, hscaled]
        ring
      exact_mod_cast this
    have hfinite : magnitude ≤ f.infinity := h.finite.le
    rw [if_neg hn.ne', h.weight hn hd hval]
    simp only [hexact, roundDiv_mul S hunit, add_sub_cancel_left, Int.toNat_natCast,
      Nat.shiftLeft_eq, ← hmag, Nat.min_eq_left hfinite]

/-! ## §3. Conversions. -/

/-- Two formats that hold the same number. -/
theorem convert_of_reads {x : Binary f} {y : Binary g} {S k S' k' : Nat} (hx : x.Reads S k)
    (hy : y.Reads S' k') (hsign : y.negative = x.negative)
    (hval : (S : ℚ) * 2 ^ (f.bottom + k) = S' * 2 ^ (g.bottom + k')) : x.convert = y := by
  unfold convert
  rw [hx.view]
  show ofRatio x.negative (scaled S (f.bottom + k)).1 (scaled S (f.bottom + k)).2 = y
  rw [← hsign]
  refine ofRatio_of_reads hy (scaled_pos _ _) ?_
  rw [scaled_eq, hval]

/-- Every finite single is a double. -/
theorem exists_double {x : Single} {S k : Nat} (h : x.Reads S k) :
    ∃ (y : Double) (S' k' : Nat), y.Reads S' k' ∧ y.negative = x.negative
      ∧ (S' : ℚ) * 2 ^ (Format.double.bottom + k') = S * 2 ^ (Format.single.bottom + k) := by
  rcases Nat.eq_zero_or_pos S with rfl | hS
  · have hfinite : 0 < Format.double.infinity := by decide
    exact ⟨⟨x.negative, 0⟩, 0, 0, ⟨rfl, by decide, .inl rfl, hfinite⟩, rfl, by simp⟩
  -- the significand moves up until it has all the bits of a double
  have hlog : Nat.log2 S < 24 := (Nat.log2_lt hS.ne').mpr h.fits
  have hk : k < 255 := by
    have hmag : x.magnitude = k * 2 ^ 23 + S := h.magnitude
    have hfinite : x.magnitude < 255 * 2 ^ 23 := h.finite
    omega
  obtain ⟨t, ht⟩ : ∃ t, t + Nat.log2 S = 52 := ⟨52 - Nat.log2 S, by omega⟩
  obtain ⟨k', hk'⟩ : ∃ k', k' + t = 925 + k := ⟨925 + k - t, by omega⟩
  have hlow : 2 ^ 52 ≤ S * 2 ^ t := by
    calc 2 ^ 52 = 2 ^ Nat.log2 S * 2 ^ t := by rw [← pow_add, add_comm, ht]
      _ ≤ S * 2 ^ t := Nat.mul_le_mul_right _ (Nat.log2_self_le hS.ne')
  have hhigh : S * 2 ^ t < 2 ^ 53 := by
    calc S * 2 ^ t < 2 ^ (Nat.log2 S + 1) * 2 ^ t :=
          Nat.mul_lt_mul_of_pos_right Nat.lt_log2_self (Nat.two_pow_pos t)
      _ = 2 ^ 53 := by rw [← pow_add, add_right_comm, add_comm _ t, ht]
  refine ⟨⟨x.negative, k' * 2 ^ 52 + S * 2 ^ t⟩, S * 2 ^ t, k', ⟨rfl, hhigh, .inr hlow, ?_⟩, rfl, ?_⟩
  · show k' * 2 ^ 52 + S * 2 ^ t < Format.double.infinity
    have hinf : Format.double.infinity = 2047 * 2 ^ 52 := by decide
    rw [hinf]
    omega
  · have hexp : (t : Int) + (Format.double.bottom + k') = Format.single.bottom + k := by
      show (t : Int) + (-1074 + k') = -149 + k
      omega
    rw [← hexp, zpow_add₀ two_ne_zero (t : Int), zpow_natCast]
    push_cast
    ring

/-! ## §4. There and back. -/

/-- A NaN whose payload has the bit that marks it as quiet. -/
def Quiet (x : Binary f) : Prop := x.magnitude / f.quietBit % 2 = 1

/-- A quiet NaN is its own quiet form. -/
theorem Quiet.quieten {x : Binary f} (h : x.Quiet) : x.quieten = x := if_pos h

/-- The quiet form is quiet. -/
theorem quieten_quiet (x : Binary f) : x.quieten.Quiet := by
  by_cases h : x.Quiet
  · rw [h.quieten]
    exact h
  · have hbit : 0 < f.quietBit := by
      rw [Format.quietBit, Nat.one_shiftLeft]
      exact Nat.two_pow_pos _
    have hmarked : x.quieten = ⟨x.negative, x.magnitude + f.quietBit⟩ := if_neg h
    rw [hmarked]
    unfold Quiet at h ⊢
    rw [Nat.add_div_right _ hbit]
    omega

/-- Rounding never goes beyond infinity. -/
theorem ofRatio_le (negative : Bool) (n d : Nat) :
    (ofRatio negative n d : Binary f).magnitude ≤ f.infinity := by
  unfold ofRatio
  split
  · exact Nat.zero_le _
  · exact Nat.min_le_right _ _

/-- Rounding keeps the sign. -/
theorem ofRatio_negative (negative : Bool) (n d : Nat) :
    (ofRatio negative n d : Binary f).negative = negative := by
  unfold ofRatio
  split <;> rfl

/-- **A finite number too large for another format** is converted to an infinite one. -/
theorem convert_infinite {x : Binary f} (hx : x.isFinite = true)
    (h : (x.convert : Binary g).isFinite = false) : (x.convert : Binary g) = infinite x.negative := by
  obtain ⟨S, k, hreads⟩ := exists_reads (of_decide_eq_true hx)
  have hconvert : (x.convert : Binary g) = ofScaled x.negative S (f.bottom + k) := by
    rw [convert, hreads.view]
  rw [hconvert] at h ⊢
  -- not below infinity, and never above it
  have hge : g.infinity ≤ (ofScaled x.negative S (f.bottom + k) : Binary g).magnitude :=
    Nat.le_of_not_lt (of_decide_eq_false h)
  have hle : (ofScaled x.negative S (f.bottom + k) : Binary g).magnitude ≤ g.infinity := ofRatio_le ..
  have hnegative : (ofScaled x.negative S (f.bottom + k) : Binary g).negative = x.negative :=
    ofRatio_negative ..
  generalize (ofScaled x.negative S (f.bottom + k) : Binary g) = y at hge hle hnegative ⊢
  obtain ⟨negative, magnitude⟩ := y
  exact congrArg₂ Binary.mk hnegative (Nat.le_antisymm hle hge)

/-- The only NaNs that conversions make are quiet. -/
theorem convert_quiet (x : Binary f) (h : (x.convert : Binary g).isNaN) :
    (x.convert : Binary g).Quiet := by
  have hlt : g.infinity < (x.convert : Binary g).magnitude := of_decide_eq_true h
  unfold convert at hlt ⊢
  cases hview : x.view with
  | nan => exact quieten_quiet _
  | infinite =>
      simp only [hview] at hlt
      exact absurd hlt (Nat.lt_irrefl _)
  | finite m e =>
      simp only [hview] at hlt
      exact absurd hlt (Nat.not_lt.mpr (ofRatio_le _ _ _))

/-- In a wider format the payload of a NaN moves up. -/
theorem convert_nan_wider {x : Binary f} {payload : Nat} (hx : x.magnitude = f.infinity + payload)
    (hpayload : 0 < payload) (hle : f.fraction ≤ g.fraction) : (x.convert : Binary g)
      = quieten ⟨x.negative, g.infinity + payload * 2 ^ (g.fraction - f.fraction)⟩ := by
  have hview : x.view = .nan := if_pos (by omega)
  rw [convert, hview]
  simp only [hx, Nat.add_sub_cancel_left, if_pos hle, Nat.shiftLeft_eq]

/-- In a narrower format the payload of a NaN moves down. -/
theorem convert_nan_narrower {x : Binary f} {payload : Nat} (hx : x.magnitude = f.infinity + payload)
    (hpayload : 0 < payload) (hlt : g.fraction < f.fraction) : (x.convert : Binary g)
      = quieten ⟨x.negative, g.infinity + payload / 2 ^ (f.fraction - g.fraction)⟩ := by
  have hview : x.view = .nan := if_pos (by omega)
  rw [convert, hview]
  simp only [hx, Nat.add_sub_cancel_left, if_neg (Nat.not_le.mpr hlt), Nat.shiftRight_eq_div_pow]

/-- A quiet NaN has room for its payload in a double, where it is quiet too. -/
theorem convert_convert_nan {x : Single} (hnan : x.isNaN) (hquiet : x.Quiet) :
    ((x.convert : Double).convert : Single) = x := by
  have hlt : Format.single.infinity < x.magnitude := of_decide_eq_true hnan
  obtain ⟨payload, hpayload⟩ := Nat.exists_eq_add_of_le hlt.le
  have hpos : 0 < payload := by omega
  have hbit : (255 * 2 ^ 23 + payload) / 2 ^ 22 % 2 = 1 := by
    rw [Quiet, hpayload] at hquiet
    exact hquiet
  -- the bit that marks the payload moves with it
  have hwide : (⟨x.negative, Format.double.infinity + payload * 2 ^ 29⟩ : Double).Quiet := by
    show (2047 * 2 ^ 52 + payload * 2 ^ 29) / 2 ^ 51 % 2 = 1
    omega
  have hback : payload * 2 ^ 29 / 2 ^ 29 = payload := Nat.mul_div_cancel _ (Nat.two_pow_pos 29)
  rw [convert_nan_wider hpayload hpos (by decide)]
  show (quieten ⟨x.negative, Format.double.infinity + payload * 2 ^ 29⟩ : Double).convert = x
  rw [hwide.quieten, convert_nan_narrower rfl (by omega) (by decide)]
  show quieten ⟨x.negative, Format.single.infinity + payload * 2 ^ 29 / 2 ^ 29⟩ = x
  rw [hback, ← hpayload]
  exact hquiet.quieten

/-- **A single by way of the doubles** is the same single, unless it is a NaN
that is not quiet. -/
theorem convert_convert {x : Single} (hquiet : x.isNaN → x.Quiet) :
    ((x.convert : Double).convert : Single) = x := by
  rcases lt_trichotomy x.magnitude Format.single.infinity with hfinite | hinf | hnan
  · obtain ⟨S, k, hx⟩ := exists_reads hfinite
    obtain ⟨y, S', k', hy, hsign, hval⟩ := exists_double hx
    rw [convert_of_reads hx hy hsign hval.symm]
    exact convert_of_reads hy hx hsign.symm hval
  · obtain ⟨negative, magnitude⟩ := x
    obtain rfl : magnitude = Format.single.infinity := hinf
    cases negative <;> rfl
  · exact convert_convert_nan (decide_eq_true hnan) (hquiet (decide_eq_true hnan))

/-- What has been rounded to a single stays as it is in an assignment conversion. -/
theorem convert_convert_convert (d : Double) :
    (((d.convert : Single).convert : Double).convert : Single) = d.convert :=
  convert_convert (convert_quiet d)

end Binary

end PatternIR
