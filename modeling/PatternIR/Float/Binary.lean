/-
  PatternIR.Float.Binary
  ──────────────────────
  **BINARY FLOATING POINT — exact arithmetic and one rounding.**

  A binary floating-point value is a sign and a magnitude.  The magnitude
  counts the values of the format upwards from zero, so a larger magnitude
  is a larger number, infinity is one fixed magnitude, and everything above
  it is a NaN.  Every operation computes the exact rational result and
  rounds it once, to nearest with ties to even (`Binary.ofRatio`).

    • `Format` — the two formats the language has, `single` and `double`;
    • `Binary.view` — the exact value behind a magnitude;
    • `add`, `sub`, `mul`, `div`, `rem`, `neg` and the comparisons;
    • conversions between the formats and from and to the integers.

  NaNs are values like any other here: two of them are equal when their
  signs and payloads are, and an operation passes its first NaN operand on.
-/

namespace PatternIR

/-! ## §1. Formats. -/

/-- A binary format: `fraction` explicitly stored bits of the significand,
`exponents` exponents in all, and `bottom`, the weight (as a power of two)
of the last stored bit of the smallest values. -/
structure Format where
  fraction : Nat
  exponents : Nat
  bottom : Int
deriving DecidableEq

namespace Format

/-- Thirty-two bits: 24 significant bits. -/
def single : Format := ⟨23, 255, -149⟩

/-- Sixty-four bits: 53 significant bits. -/
def double : Format := ⟨52, 2047, -1074⟩

/-- The magnitude of infinity: one past the largest finite magnitude. -/
def infinity (f : Format) : Nat := f.exponents <<< f.fraction

/-- The payload bit that marks a quiet NaN. -/
def quietBit (f : Format) : Nat := 1 <<< (f.fraction - 1)

end Format

/-- A value of format `f`. -/
structure Binary (f : Format) where
  negative : Bool
  magnitude : Nat
deriving DecidableEq

/-- The single-precision numbers. -/
abbrev Single := Binary Format.single

/-- The double-precision numbers. -/
abbrev Double := Binary Format.double

/-- What a value is: not a number, infinite, or `significand · 2 ^ exponent`. -/
inductive Magnitude where
  | nan
  | infinite
  | finite (significand : Nat) (exponent : Int)
deriving DecidableEq

namespace Binary

variable {f g : Format}

/-! ## §2. Reading a magnitude. -/

/-- The exact absolute value behind a magnitude. -/
def view (x : Binary f) : Magnitude :=
  if f.infinity < x.magnitude then .nan
  else if x.magnitude = f.infinity then .infinite
  else
    let row := x.magnitude >>> f.fraction
    let rest := x.magnitude % (1 <<< f.fraction)
    -- the lowest row has no leading bit; the row above it has the same exponent
    if row = 0 then .finite rest f.bottom
    else .finite (rest + (1 <<< f.fraction)) (f.bottom + row - 1)

/-- The magnitudes above infinity are the NaNs. -/
def isNaN (x : Binary f) : Bool := decide (f.infinity < x.magnitude)

/-- The magnitudes below infinity are the numbers. -/
def isFinite (x : Binary f) : Bool := decide (x.magnitude < f.infinity)

/-- The zero of either sign. -/
def zero (negative : Bool) : Binary f := ⟨negative, 0⟩

/-- The infinity of either sign. -/
def infinite (negative : Bool) : Binary f := ⟨negative, f.infinity⟩

/-- The NaN a program text means by its name. -/
def nan : Binary f := ⟨false, f.infinity + f.quietBit⟩

/-- The NaN an operation makes when no operand is one. -/
def invalid : Binary f := ⟨true, f.infinity + f.quietBit⟩

/-- A NaN operand as a result: its quiet form. -/
def quieten (x : Binary f) : Binary f :=
  if x.magnitude / f.quietBit % 2 = 1 then x
  else ⟨x.negative, x.magnitude + f.quietBit⟩

/-! ## §3. Rounding. -/

/-- The quotient of `n` by `d` rounded to nearest, ties to even. -/
def roundDiv (n d : Nat) : Nat :=
  let q := n / d
  let r := n % d
  if 2 * r < d then q
  else if d < 2 * r then q + 1
  else if q % 2 = 0 then q else q + 1

/-- The ratio of naturals that `n · 2 ^ e` is. -/
def scaled (n : Nat) (e : Int) : Nat × Nat :=
  if 0 ≤ e then (n <<< e.toNat, 1) else (n, 1 <<< (-e).toNat)

/-- The exponent `e` with `2 ^ e ≤ n / d < 2 ^ (e + 1)`, for positive `n` and `d`. -/
def ratioLog (n d : Nat) : Int :=
  let guess := (Nat.log2 n : Int) - Nat.log2 d
  let (power, unit) := scaled d guess
  if n * unit < power then guess - 1 else guess

/-- One rounding.  The value of the format nearest to `n / d`; from
halfway past the largest finite value on, infinity. -/
def ofRatio (negative : Bool) (n d : Nat) : Binary f :=
  if n = 0 then zero negative
  else
    let weight := max (ratioLog n d - f.fraction) f.bottom
    let (unit, inverse) := scaled d weight
    let significand := roundDiv (n * inverse) unit
    -- added, not joined: a significand rounded up to the next power of two carries into the row
    let magnitude := ((weight - f.bottom).toNat <<< f.fraction) + significand
    ⟨negative, min magnitude f.infinity⟩

/-- The value of the format nearest to `significand · 2 ^ exponent`. -/
def ofScaled (negative : Bool) (significand : Nat) (exponent : Int) : Binary f :=
  let (n, d) := scaled significand exponent
  ofRatio negative n d

/-- The value of the format nearest to an integer. -/
def ofInt (n : Int) : Binary f :=
  ofRatio (decide (n < 0)) n.natAbs 1

/-- The value of format `g` nearest to one of format `f`.  A NaN keeps its
sign and as much of its payload as fits. -/
def convert (x : Binary f) : Binary g :=
  match x.view with
  | .nan =>
    let payload := x.magnitude - f.infinity
    let moved :=
      if f.fraction ≤ g.fraction then payload <<< (g.fraction - f.fraction)
      else payload >>> (f.fraction - g.fraction)
    quieten ⟨x.negative, g.infinity + moved⟩
  | .infinite => infinite x.negative
  | .finite m e => ofScaled x.negative m e

/-- The integer left of the point; `none` for infinities and NaNs. -/
def truncate? (x : Binary f) : Option Int :=
  match x.view with
  | .finite m e =>
    let (n, d) := scaled m e
    some (if x.negative then -((n / d : Nat) : Int) else ((n / d : Nat) : Int))
  | _ => none

/-- The integer left of the point, held to the range of 64-bit integers: what
lies outside goes to the nearer end, and a NaN to zero. -/
def toInt64 (x : Binary f) : Int64 :=
  let top := Int64.maxValue.toInt
  let low := Int64.minValue.toInt
  match x.truncate? with
  | some n => Int64.ofInt (max low (min top n))
  | none =>
    if x.isNaN then 0
    else Int64.ofInt (if x.negative then low else top)

/-! ## §4. Arithmetic. -/

/-- The opposite sign; of a NaN too. -/
def neg (x : Binary f) : Binary f := { x with negative := !x.negative }

/-- An operation whose first NaN operand, if there is one, is the result. -/
def propagating (op : Binary f → Binary f → Binary f) (x y : Binary f) : Binary f :=
  if x.isNaN then x.quieten else if y.isNaN then y.quieten else op x y

/-- A significand with its sign. -/
def signed (negative : Bool) (n : Nat) : Int :=
  if negative then -(n : Int) else n

/-- Exact sum, rounded once.  An exact zero is negative only if both operands are. -/
def add : Binary f → Binary f → Binary f :=
  propagating fun x y =>
    match x.view, y.view with
    | .infinite, .infinite => if x.negative = y.negative then x else invalid
    | .infinite, _ => x
    | _, .infinite => y
    | .finite m e, .finite n k =>
      -- both as multiples of the finer unit, where the sum is exact
      let low := min e k
      let sum := signed x.negative (m <<< (e - low).toNat)
        + signed y.negative (n <<< (k - low).toNat)
      if sum = 0 then zero (x.negative && y.negative)
      else ofScaled (decide (sum < 0)) sum.natAbs low
    | _, _ => invalid

/-- Difference: the sum with the opposite, where a NaN keeps its own sign. -/
def sub : Binary f → Binary f → Binary f :=
  propagating fun x y => add x y.neg

/-- Exact product, rounded once. -/
def mul : Binary f → Binary f → Binary f :=
  propagating fun x y =>
    let sign := x.negative != y.negative
    match x.view, y.view with
    | .finite m e, .finite n k => ofScaled sign (m * n) (e + k)
    | .infinite, .finite 0 _ => invalid
    | .finite 0 _, .infinite => invalid
    | _, _ => infinite sign

/-- Exact quotient, rounded once. -/
def div : Binary f → Binary f → Binary f :=
  propagating fun x y =>
    let sign := x.negative != y.negative
    match x.view, y.view with
    | .finite 0 _, .finite 0 _ => invalid
    | .finite _ _, .finite 0 _ => infinite sign
    | .finite m e, .finite n k =>
      let (above, below) := scaled 1 (e - k)
      ofRatio sign (m * above) (n * below)
    | .infinite, .infinite => invalid
    | .infinite, _ => infinite sign
    | _, _ => zero sign

/-- Remainder of the division that truncates its quotient: exact, with the
sign of the dividend. -/
def rem : Binary f → Binary f → Binary f :=
  propagating fun x y =>
    match x.view, y.view with
    | .infinite, _ => invalid
    | _, .finite 0 _ => invalid
    | .finite m e, .finite n k =>
      let low := min e k
      let r := (m <<< (e - low).toNat) % (n <<< (k - low).toNat)
      ofScaled x.negative r low
    | _, _ => x

/-! ## §5. Order. -/

/-- The place of a number among all numbers of the format, the zeros sharing
one; `none` for a NaN, which has no place. -/
def place? (x : Binary f) : Option Int :=
  if x.isNaN then none else some (signed x.negative x.magnitude)

/-- A comparison of numbers, false as soon as one side is a NaN. -/
def compareWith (test : Int → Int → Bool) (x y : Binary f) : Bool :=
  match x.place?, y.place? with
  | some a, some b => test a b
  | _, _ => false

/-- The zeros are equal, and no NaN equals itself. -/
def eq : Binary f → Binary f → Bool := compareWith fun a b => decide (a = b)

/-- A number stands before another. -/
def lt : Binary f → Binary f → Bool := compareWith fun a b => decide (a < b)

/-- A number does not stand after another. -/
def le : Binary f → Binary f → Bool := compareWith fun a b => decide (a ≤ b)

end Binary

end PatternIR
