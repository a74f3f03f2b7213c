/-
  PatternIR.Proofs.Eval.Conversions
  ─────────────────────────────────
  **WHAT ASSIGNMENT CONVERSION MAKES.**

  A conversion into a primitive type ends in a value of one constructor: that
  of the kind itself, except that bytes and shorts are ints that are small
  enough.  So the class of such a value is not always the wrapper of the kind
  it was converted to:

      byte, short, int → Integer      char → Character      long → Long   …

  What a conversion has made it leaves as it is, and a value of a kind is its
  own conversion into it, unless it is a float or a character of more than
  sixteen bits.

    • `Value.kind?`, `Prim.carrier` — the kind of a value, and of converted ones;
    • `coerce_kind` — the kind of what a conversion makes;
    • `coerce_coerce` — a conversion leaves what it has made as it is;
    • `coerce_of_kind` — a value is its own conversion into its kind.
-/
import PatternIR.Eval.Operators
import PatternIR.Proofs.Float.Rounding

namespace PatternIR

/-! ## §1. Kinds of values. -/

/-- The kind whose wrapper class a value is an instance of. -/
def Value.kind? : Value → Option Prim
  | .bool _ => some .boolean
  | .int _ => some .int
  | .long _ => some .long
  | .float _ => some .float
  | .double _ => some .double
  | .char _ => some .char
  | .null | .str _ | .object _ => none

/-- The kind of the values that stand for those of a kind. -/
def Prim.carrier : Prim → Prim
  | .byte | .short => .int
  | kind => kind

namespace Value

variable {v : Value} {kind : Prim}

/-- A primitive value is seen as its wrapper. -/
theorem runtimeType?_of_kind (h : v.kind? = some kind) : v.runtimeType? = some (.simple kind.boxName) := by
  cases v with
  | null | str _ | object _ => exact nomatch h
  | _ =>
      injection h with h
      rw [← h]
      rfl

/-- A value of a kind is an instance of what the wrapper of the kind is below. -/
theorem instanceOf_of_kind (hierarchy : Hierarchy) (h : v.kind? = some kind) (ty : Ty) :
    hierarchy.instanceOf v ty = hierarchy.isSubtype (.simple kind.boxName) ty.erasure.boxed := by
  rw [Hierarchy.instanceOf, runtimeType?_of_kind h]

/-- No value is of a kind that another one stands for. -/
theorem carrier_of_kind (h : v.kind? = some kind) : kind.carrier = kind := by
  cases v with
  | null | str _ | object _ => exact nomatch h
  | _ =>
      injection h with h
      rw [← h]
      rfl

end Value

/-! ## §2. Characters. -/

/-- A code unit has 16 bits. -/
theorem unitChar_toNat_lt (u : UInt16) : (unitChar u).toNat < 65536 := by
  by_cases h : u.toNat.isValidChar
  · rw [unitChar, dif_pos h]
    exact u.toNat_lt
  · rw [unitChar, dif_neg h]
    decide

/-- A character of sixteen bits is that of its code unit. -/
theorem unitChar_of_lt {c : Char} (h : c.toNat < 65536) :
    unitChar (Int32.ofNat c.toNat).toInt64.toInt16.toUInt16 = c := by
  have hunit : (Int32.ofNat c.toNat).toInt64.toInt16.toUInt16.toNat = c.toNat := by
    simpa using h
  have hvalid : (Int32.ofNat c.toNat).toInt64.toInt16.toUInt16.toNat.isValidChar := by
    rw [hunit]
    exact c.valid
  rw [unitChar, dif_pos hvalid]
  refine Char.ext ?_
  apply UInt32.toNat_inj.mp
  exact hunit

/-! ## §3. Conversions. -/

/-- A conversion gives a value of the kind that carries the target. -/
theorem Number.convert?_kind {n : Number} {kind : Prim} {v : Value}
    (h : n.convert? kind = some v) : v.kind? = some kind.carrier := by
  cases kind with
  | boolean => exact nomatch h
  | _ =>
      injection h with h
      rw [← h]
      rfl

/-- A conversion that succeeds keeps a boolean or converts a number. -/
theorem coerce_eq_ok {kind : Prim} {v w : Value} (h : coerce (.prim kind) w = .ok v) :
    (kind = .boolean ∧ w = v ∧ ∃ b, v = .bool b)
      ∨ ∃ n, Number.ofValue? w = some n ∧ n.convert? kind = some v := by
  simp only [coerce] at h
  split at h
  case h_1 b =>
    injection h with h
    exact .inl ⟨rfl, h, b, h.symm⟩
  case h_2 =>
    split at h
    case h_1 w' heq =>
      injection h with h
      subst h
      exact .inr (Option.bind_eq_some_iff.mp heq)
    case h_2 => exact nomatch h

/-- A number is converted as `convert?` says. -/
theorem coerce_of_convert {kind : Prim} {v w : Value} {n : Number} (hw : Number.ofValue? w = some n)
    (hv : n.convert? kind = some v) : coerce (.prim kind) w = .ok v := by
  have hconvert : (Number.ofValue? w).bind (·.convert? kind) = some v := by
    rw [hw]
    exact hv
  cases kind with
  | boolean => exact nomatch hv
  | _ => simp only [coerce, hconvert]

/-- **What a conversion makes** is of the carrier of its kind. -/
theorem coerce_kind {kind : Prim} {v w : Value} (h : coerce (.prim kind) w = .ok v) :
    v.kind? = some kind.carrier := by
  rcases coerce_eq_ok h with ⟨rfl, -, b, rfl⟩ | ⟨n, -, hv⟩
  · rfl
  · exact Number.convert?_kind hv

/-- What a number has been converted to is converted to itself. -/
theorem Number.convert?_convert? {n : Number} {kind : Prim} {v : Value} (h : n.convert? kind = some v) :
    ∃ m, Number.ofValue? v = some m ∧ m.convert? kind = some v := by
  cases kind with
  | boolean => exact nomatch h
  | byte | short | int | long | double =>
      injection h with h
      subst h
      exact ⟨_, rfl, by simp [convert?, toInt64, toDouble]⟩
  | char =>
      injection h with h
      subst h
      refine ⟨_, rfl, ?_⟩
      simp only [convert?, toInt64]
      rw [unitChar_of_lt (unitChar_toNat_lt _)]
  | float =>
      injection h with h
      subst h
      refine ⟨_, rfl, ?_⟩
      simp only [convert?, toDouble]
      rw [Binary.convert_convert_convert]

/-- **A conversion leaves what it has made as it is.** -/
theorem coerce_coerce {kind : Prim} {v w : Value} (h : coerce (.prim kind) w = .ok v) :
    coerce (.prim kind) v = .ok v := by
  rcases coerce_eq_ok h with ⟨rfl, -, b, rfl⟩ | ⟨n, -, hv⟩
  · rfl
  · obtain ⟨m, hm, hconvert⟩ := Number.convert?_convert? hv
    exact coerce_of_convert hm hconvert

/-- **A value is its own conversion into its kind**, but for floats, which go
by way of the doubles, and characters, which are cut to sixteen bits. -/
theorem coerce_of_kind {kind : Prim} {v : Value} (h : v.kind? = some kind) (hfloat : kind ≠ .float)
    (hchar : ∀ c, v = .char c → c.toNat < 65536) : coerce (.prim kind) v = .ok v := by
  cases v with
  | null | str _ | object _ => exact nomatch h
  | float x =>
      injection h with h
      exact absurd h.symm hfloat
  | bool b =>
      injection h with h
      subst h
      rfl
  | int n | long n | double n =>
      injection h with h
      subst h
      exact coerce_of_convert rfl (by simp [Number.convert?, Number.toInt64, Number.toDouble])
  | char c =>
      injection h with h
      subst h
      refine coerce_of_convert rfl ?_
      simp only [Number.convert?, Number.toInt64]
      rw [unitChar_of_lt (hchar c rfl)]

/-- What is neither a number nor a boolean is in no primitive type. -/
theorem coerce_of_no_kind {kind : Prim} {v : Value} (h : v.kind? = none) :
    coerce (.prim kind) v = .error (.badCast v (.prim kind)) := by
  cases v with
  | null | str _ | object _ => cases kind <;> rfl
  | _ => exact nomatch h

end PatternIR
