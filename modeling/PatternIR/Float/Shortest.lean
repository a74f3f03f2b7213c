/-
  PatternIR.Float.Shortest
  ────────────────────────
  **SHORTEST DECIMALS — the fewest digits that read back.**

  Every finite binary value is the nearest one to a whole interval of
  decimals.  `Binary.shortest` finds the decimal of fewest digits in it:
  it tries the grids of one digit, two digits, …, and on each grid only the
  two neighbours of the value, in exact arithmetic on naturals.  Of two
  hits the nearer wins; an exact tie is a decision of the layout.

  A `Layout` holds the decisions a text format makes: where positional
  notation ends, whether a power of ten has a plus sign, and which way a
  tie goes.
-/
import PatternIR.Float.Binary

namespace PatternIR

/-- Which of two equally near decimals is taken. -/
inductive Tie where
  | up
  | even
deriving DecidableEq

/-- A decimal number: `digits · 10 ^ exponent`. -/
structure Decimal where
  digits : Nat
  exponent : Int
deriving DecidableEq

/-- The decimals that read back as one value: those between `low` and `high`
over the common denominator `unit`, the ends included if `closed`. -/
structure Interval where
  low : Nat
  value : Nat
  high : Nat
  unit : Nat
  closed : Bool

namespace Interval

/-- Where the neighbours of a value are: half a step above, and half a step
below, which is a smaller step at the bottom of a row of exponents. -/
def around (f : Format) (significand : Nat) (exponent : Int) : Interval :=
  let (scale, unit) := Binary.scaled 1 (exponent - 2)
  let narrow := significand = 1 <<< f.fraction ∧ f.bottom < exponent
  { low := (4 * significand - if narrow then 1 else 2) * scale
    value := 4 * significand * scale
    high := (4 * significand + 2) * scale
    unit := unit
    closed := significand % 2 = 0 }

/-- Whether `n / d` reads back as the value. -/
def holds (i : Interval) (n d : Nat) : Bool :=
  if i.closed then decide (i.low * d ≤ n * i.unit) && decide (n * i.unit ≤ i.high * d)
  else decide (i.low * d < n * i.unit) && decide (n * i.unit < i.high * d)

/-- The power of ten `10 ^ k` as a ratio. -/
def tenPower (k : Int) : Nat × Nat :=
  if 0 ≤ k then (Nat.pow 10 k.toNat, 1) else (1, Nat.pow 10 (-k).toNat)

/-- The hit on the grid of multiples of `10 ^ k`, if there is one. -/
def onGrid? (i : Interval) (tie : Tie) (k : Int) : Option Decimal :=
  let (num, den) := tenPower k
  let below := i.value * den / (i.unit * num)
  let above := below + 1
  match i.holds (below * num) den, i.holds (above * num) den with
  | true, true =>
    -- twice the value against the sum of its two neighbours on the grid
    let twice := 2 * i.value * den
    let sum := (below + above) * num * i.unit
    if twice < sum then some ⟨below, k⟩
    else if sum < twice then some ⟨above, k⟩
    else match tie with
      | .up => some ⟨above, k⟩
      | .even => some ⟨if below % 2 = 0 then below else above, k⟩
  | true, false => some ⟨below, k⟩
  | false, true => some ⟨above, k⟩
  | false, false => none

/-- The exponent of the first significant decimal digit of the value. -/
def leading (i : Interval) : Int :=
  let guess := Binary.ratioLog i.value i.unit * 30103 / 100000
  let atLeast (k : Int) : Bool :=
    let (num, den) := tenPower k
    decide (num * i.unit ≤ i.value * den)
  if atLeast (guess + 1) then guess + 1 else if atLeast guess then guess else guess - 1

/-- The first grid with a hit, from the grid of `k` down, over at most `n` grids. -/
def firstHit (i : Interval) (tie : Tie) : Nat → Int → Option Decimal
  | 0, _ => none
  | n + 1, k => (i.onGrid? tie k).orElse fun _ => firstHit i tie n (k - 1)

end Interval

/-- Drop the zeros at the end of the digits; `fuel` bounds their number. -/
def Decimal.trim : Nat → Decimal → Decimal
  | 0, d => d
  | fuel + 1, d =>
    if d.digits ≠ 0 ∧ d.digits % 10 = 0 then Decimal.trim fuel ⟨d.digits / 10, d.exponent + 1⟩
    else d

/-- The shortest decimal of `significand · 2 ^ exponent`, a positive value
of format `f`.  Seventeen digits suffice for both formats. -/
def Format.shortest (f : Format) (tie : Tie) (significand : Nat) (exponent : Int) : Decimal :=
  let i := Interval.around f significand exponent
  ((i.firstHit tie 17 i.leading).getD ⟨significand, 0⟩).trim 17

/-! ## Layouts. -/

/-- How a decimal is written.  With `d` digits and exponent `e`, the point
stands after `d + e` digits; it is written there if that is above `below`
and at most `most`.  Otherwise the point follows the first digit and a
power of ten is added, with a sign in any case if `plus` is set. -/
structure Layout where
  below : Int
  most : Int
  plus : Bool
  tie : Tie

namespace Layout

/-- The layout of values shown to a reader. -/
def shown : Layout := ⟨-4, 16, false, .up⟩

/-- The layout of double-precision numbers in JSON. -/
def jsonDouble : Layout := ⟨-5, 16, true, .even⟩

/-- The layout of single-precision numbers in JSON. -/
def jsonSingle : Layout := ⟨-6, 13, true, .even⟩

/-- A run of the digit zero. -/
def zeros (n : Nat) : List Char := List.replicate n '0'

/-- A positive decimal in this layout. -/
def write (l : Layout) (d : Decimal) : String :=
  let digits := Nat.toDigits 10 d.digits
  let point : Int := digits.length + d.exponent
  if l.below < point ∧ point ≤ l.most then
    if 0 ≤ d.exponent then
      String.ofList (digits ++ zeros d.exponent.toNat ++ ['.', '0'])
    else if 0 < point then
      String.ofList (digits.take point.toNat ++ '.' :: digits.drop point.toNat)
    else
      String.ofList ('0' :: '.' :: zeros (-point).toNat ++ digits)
  else
    let fraction := match digits with
      | first :: [] => [first]
      | first :: more => first :: '.' :: more
      | [] => []
    let sign := if l.plus ∧ 1 ≤ point then "+" else ""
    String.ofList fraction ++ "e" ++ sign ++ toString (point - 1)

end Layout

/-- The text of a finite value in a layout; `none` for infinities and NaNs. -/
def Binary.write? {f : Format} (l : Layout) (x : Binary f) : Option String :=
  match x.view with
  | .finite significand exponent =>
    let sign := if x.negative then "-" else ""
    some (sign ++
      if significand = 0 then "0.0"
      else l.write (f.shortest l.tie significand exponent))
  | _ => none

/-- The text of a value as shown to a reader. -/
def Binary.display {f : Format} (x : Binary f) : String :=
  match x.write? .shown with
  | some text => text
  | none => if x.isNaN then "NaN" else if x.negative then "-inf" else "inf"

end PatternIR
