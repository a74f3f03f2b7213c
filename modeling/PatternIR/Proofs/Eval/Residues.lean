/-
  PatternIR.Proofs.Eval.Residues
  ──────────────────────────────
  **INTEGERS ARE CUT TO THE WIDTH OF THEIR TYPE.**

  A conversion between integral types goes by way of 64 bits and keeps the low
  ones.  Numerically it takes the residue of an integer that the type has:

      type     modulo    residues
      byte     2 ^ 8     -2 ^ 7  ≤ y < 2 ^ 7
      short    2 ^ 16    -2 ^ 15 ≤ y < 2 ^ 15
      int      2 ^ 32    -2 ^ 31 ≤ y < 2 ^ 31
      long     2 ^ 64    -2 ^ 63 ≤ y < 2 ^ 63
      char     2 ^ 16    0 ≤ y < 2 ^ 16, the code unit of a character

  A code unit that is half a surrogate pair is no character, and `U+FFFD`
  stands for all of those.

    • `IsResidue` — the residue of an integer in a signed range;
    • `isResidue_iff` — there is one, and only one;
    • `coerce_integer`, `coerce_unit` — what an integral value is converted to;
    • `coerce_canonical` — that, and it is converted to itself.
-/
import PatternIR.Proofs.Eval.Conversions

namespace PatternIR

/-! ## §1. Integral values and types. -/

/-- The integer that an integral value is, a character by its code point. -/
def Value.integer? : Value → Option Int
  | .int n => some n.toInt
  | .long n => some n.toInt
  | .char c => some c.toNat
  | .null | .bool _ | .float _ | .double _ | .str _ | .object _ => none

/-- The width of a signed integral type. -/
def Prim.bits? : Prim → Option Nat
  | .byte => some 8
  | .short => some 16
  | .int => some 32
  | .long => some 64
  | .boolean | .char | .float | .double => none

/-- A kind of integer has bits. -/
theorem Prim.bits_pos {kind : Prim} {bits : Nat} (h : kind.bits? = some bits) : 0 < bits := by
  cases kind <;> simp [bits?] at h <;> omega

/-- A code point is far below the sign bit of an int. -/
theorem toInt_ofNat_toNat (c : Char) : (Int32.ofNat c.toNat).toInt = c.toNat := by
  have hvalid : c.toNat < 0xd800 ∨ 0xdfff < c.toNat ∧ c.toNat < 0x110000 := c.valid
  exact Int32.toInt_ofNat_of_lt (by omega)

/-- An integral value is a number, and as a 64-bit number it is its integer. -/
theorem Value.exists_number {v : Value} {z : Int} (h : v.integer? = some z) :
    ∃ n, Number.ofValue? v = some n ∧ n.toInt64.toInt = z := by
  cases v with
  | int n =>
      injection h with h
      exact ⟨.int n, rfl, by rw [← h, Number.toInt64, Int32.toInt_toInt64]⟩
  | long n =>
      injection h with h
      exact ⟨.long n, rfl, h⟩
  | char c =>
      injection h with h
      refine ⟨.int (Int32.ofNat c.toNat), rfl, ?_⟩
      rw [Number.toInt64, Int32.toInt_toInt64, toInt_ofNat_toNat]
      exact h
  | null | bool _ | float _ | double _ | str _ | object _ => injection h

/-! ## §2. Residues. -/

/-- `y` is congruent to `z` modulo `2 ^ bits`, and of the signed integers of so many bits. -/
def IsResidue (bits : Nat) (z y : Int) : Prop :=
  y % 2 ^ bits = z % 2 ^ bits ∧ -2 ^ (bits - 1) ≤ y ∧ y < 2 ^ (bits - 1)

/-- **Every integer has one residue**, which is its balanced remainder. -/
theorem isResidue_iff {bits : Nat} (hbits : 0 < bits) {z y : Int} :
    IsResidue bits z y ↔ y = z.bmod (2 ^ bits) := by
  obtain ⟨k, rfl⟩ : ∃ k, bits = k + 1 := ⟨bits - 1, by omega⟩
  have hpow : ((2 ^ (k + 1) : Nat) : Int) = 2 * 2 ^ k := by
    push_cast
    ring
  have hpos : (0 : Int) < 2 ^ k := by positivity
  have hcast : ((2 ^ (k + 1) : Nat) : Int) = 2 ^ (k + 1) := by push_cast; rfl
  unfold IsResidue
  rw [Nat.add_sub_cancel, ← hcast]
  constructor
  · rintro ⟨hmod, hlow, hhigh⟩
    have hself : y.bmod (2 ^ (k + 1)) = y := Int.bmod_eq_of_le (by omega) (by omega)
    rw [← hself, Int.bmod_def, Int.bmod_def, hmod]
  · rintro rfl
    have hlow := Int.le_bmod (x := z) (m := 2 ^ (k + 1)) (Nat.two_pow_pos _)
    have hhigh := Int.bmod_lt (x := z) (m := 2 ^ (k + 1)) (Nat.two_pow_pos _)
    exact ⟨Int.bmod_emod, by omega, by omega⟩

/-- Half a surrogate pair. -/
def IsSurrogate (u : Int) : Prop := 0xd800 ≤ u ∧ u < 0xe000

/-- The character is that of the low sixteen bits of `z`, or what stands for
half a surrogate pair. -/
def IsUnit (z : Int) (c : Char) : Prop :=
  (IsSurrogate (z % 2 ^ 16) → c = '\ufffd')
    ∧ (¬IsSurrogate (z % 2 ^ 16) → (c.toNat : Int) = z % 2 ^ 16)

/-- The low sixteen bits of a number, without a sign. -/
theorem toNat_toInt16_toUInt16 (n : Int64) : (n.toInt16.toUInt16.toNat : Int) = n.toInt % 2 ^ 16 := by
  have hlt : (n.toInt16.toUInt16.toNat : Int) < 2 ^ 16 := by
    exact_mod_cast n.toInt16.toUInt16.toNat_lt
  -- with its sign the number is congruent to itself without
  have hsigned : n.toInt16.toInt = (n.toInt16.toUInt16.toNat : Int).bmod (2 ^ 16) :=
    BitVec.toInt_eq_toNat_bmod n.toInt16.toBitVec
  calc (n.toInt16.toUInt16.toNat : Int)
      = (n.toInt16.toUInt16.toNat : Int) % 2 ^ 16 := (Int.emod_eq_of_lt (Int.natCast_nonneg _) hlt).symm
    _ = n.toInt16.toInt % 2 ^ 16 := by rw [hsigned]; exact (Int.bmod_emod).symm
    _ = n.toInt % 2 ^ 16 := by rw [Int64.toInt_toInt16]; exact Int.bmod_emod

/-- The character behind 16 bits is the unit of the number. -/
theorem isUnit_unitChar (n : Int64) : IsUnit n.toInt (unitChar n.toInt16.toUInt16) := by
  have hunit := toNat_toInt16_toUInt16 n
  have hlt := n.toInt16.toUInt16.toNat_lt
  unfold IsUnit IsSurrogate
  rw [← hunit]
  by_cases h : n.toInt16.toUInt16.toNat.isValidChar
  · have hvalid : n.toInt16.toUInt16.toNat < 0xd800 ∨ 0xdfff < n.toInt16.toUInt16.toNat
        ∧ n.toInt16.toUInt16.toNat < 0x110000 := h
    rw [unitChar, dif_pos h]
    exact ⟨fun hhalf => by omega, fun _ => rfl⟩
  · have hinvalid : ¬(n.toInt16.toUInt16.toNat < 0xd800 ∨ 0xdfff < n.toInt16.toUInt16.toNat
        ∧ n.toInt16.toUInt16.toNat < 0x110000) := h
    rw [unitChar, dif_neg h]
    exact ⟨fun _ => rfl, fun hhalf => by omega⟩

/-! ## §3. Conversions. -/

/-- A number in a signed type is the residue of its 64-bit integer. -/
theorem Number.convert?_bits {n : Number} {kind : Prim} {bits : Nat} (hbits : kind.bits? = some bits) :
    ∃ w, n.convert? kind = some w ∧ w.integer? = some (n.toInt64.toInt.bmod (2 ^ bits)) := by
  cases kind with
  | byte =>
      injection hbits with hbits
      subst hbits
      refine ⟨_, rfl, ?_⟩
      rw [Value.integer?, Int8.toInt_toInt32, Int64.toInt_toInt8]
  | short =>
      injection hbits with hbits
      subst hbits
      refine ⟨_, rfl, ?_⟩
      rw [Value.integer?, Int16.toInt_toInt32, Int64.toInt_toInt16]
  | int =>
      injection hbits with hbits
      subst hbits
      refine ⟨_, rfl, ?_⟩
      rw [Value.integer?, Int64.toInt_toInt32]
  | long =>
      injection hbits with hbits
      subst hbits
      refine ⟨_, rfl, ?_⟩
      exact congrArg some (Int64.toInt_bmod_size n.toInt64).symm
  | _ => exact nomatch hbits

/-- **Into a signed type** an integral value is converted to its residue. -/
theorem coerce_integer {kind : Prim} {bits : Nat} {v : Value} {z : Int}
    (hbits : kind.bits? = some bits) (hv : v.integer? = some z) :
    ∃ w, coerce (.prim kind) v = .ok w ∧ w.integer? = some (z.bmod (2 ^ bits)) := by
  obtain ⟨n, hn, rfl⟩ := Value.exists_number hv
  obtain ⟨w, hconvert, hw⟩ := Number.convert?_bits (n := n) hbits
  exact ⟨w, coerce_of_convert hn hconvert, hw⟩

/-- **Into a character** it is converted to that of its code unit. -/
theorem coerce_unit {v : Value} {z : Int} (hv : v.integer? = some z) :
    ∃ c, coerce (.prim .char) v = .ok (.char c) ∧ IsUnit z c := by
  obtain ⟨n, hn, rfl⟩ := Value.exists_number hv
  exact ⟨_, coerce_of_convert hn rfl, isUnit_unitChar n.toInt64⟩

/-- **Conversion into a primitive type is canonical**: what it makes it leaves
as it is, and of an integral value it makes the only residue that a signed type
has, or the character of the code unit. -/
theorem coerce_canonical {kind : Prim} {v w : Value} (h : coerce (.prim kind) v = .ok w) :
    coerce (.prim kind) w = .ok w
      ∧ ∀ z, v.integer? = some z →
        (∀ bits, kind.bits? = some bits →
          ∃ y, w.integer? = some y ∧ IsResidue bits z y ∧ ∀ x, IsResidue bits z x → x = y)
        ∧ (kind = .char → ∃ c, w = .char c ∧ IsUnit z c) := by
  refine ⟨coerce_coerce h, ?_⟩
  intro z hz
  constructor
  · intro bits hbits
    obtain ⟨w', hw', hinteger⟩ := coerce_integer hbits hz
    obtain rfl : w = w' := Except.ok.inj (h.symm.trans hw')
    have hpos := Prim.bits_pos hbits
    exact ⟨_, hinteger, (isResidue_iff hpos).mpr rfl, fun x hx => (isResidue_iff hpos).mp hx⟩
  · rintro rfl
    obtain ⟨c, hc, hunit⟩ := coerce_unit hz
    exact ⟨c, Except.ok.inj (h.symm.trans hc), hunit⟩

/-- 120,893 ends in the sixteen bits of half a surrogate pair, 40,000 in those
of a negative `short`. -/
theorem coerce_canonical_cut :
    (coerce (.prim .char) (.int 120893) = .ok (.char '\ufffd')
        ∧ coerce (.prim .char) (.char '\ufffd') = .ok (.char '\ufffd') ∧ IsUnit 120893 '\ufffd')
      ∧ coerce (.prim .short) (.long 40000) = .ok (.int (-25536))
        ∧ coerce (.prim .short) (.int (-25536)) = .ok (.int (-25536))
        ∧ IsResidue 16 40000 (-25536) := by
  have hchar : coerce (.prim .char) (.int 120893) = .ok (.char '\ufffd') := by decide
  have hshort : coerce (.prim .short) (.long 40000) = .ok (.int (-25536)) := by decide
  obtain ⟨hself, hunit⟩ := coerce_canonical hchar
  obtain ⟨hself', hresidue⟩ := coerce_canonical hshort
  obtain ⟨c, hc, hc'⟩ := (hunit 120893 rfl).2 rfl
  obtain ⟨y, hy, hy', -⟩ := (hresidue 40000 rfl).1 16 rfl
  injection hc with hc
  injection hy with hy
  subst hc hy
  exact ⟨⟨hchar, hself, hc'⟩, hshort, hself', hy'⟩

end PatternIR
