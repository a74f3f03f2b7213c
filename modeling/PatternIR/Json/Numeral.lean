/-
  PatternIR.Json.Numeral
  ──────────────────────
  **JSON NUMBERS as they are read.**

  A numeral without fraction and exponent is an integer if it fits into 64
  bits.  Any other is a double: the leading digits that fit into 64 bits,
  scaled by a power of ten in double-precision arithmetic.  A numeral whose
  scaled value is not finite has no value.
-/
import PatternIR.Float.Binary
import PatternIR.Text.Digits

namespace PatternIR

/-- The parts of a numeral, digits as numbers below ten. -/
structure Numeral where
  negative : Bool
  whole : List Nat
  /-- The digits after the point, if there is one. -/
  fraction : Option (List Nat)
  /-- The sign and the digits of the exponent, if there is one. -/
  exponent : Option (Bool × List Nat)
deriving DecidableEq

/-- The value of a numeral. -/
inductive NumeralValue where
  | int (n : Int)
  | real (x : Double)
deriving DecidableEq

namespace Numeral

/-- Append digits to `n` as long as it fits into 64 bits; the result, and how
many digits were left over. -/
def gather : Nat → List Nat → Nat × Nat
  | n, [] => (n, 0)
  | n, d :: ds => if 10 * n + d < UInt64.size then gather (10 * n + d) ds else (n, ds.length + 1)

/-- A positive power of ten as a double. -/
def tenPower (k : Nat) : Double := .ofRatio false (Nat.pow 10 k) 1

/-- Scale a double by `10 ^ k`; `none` if that leaves the finite range.  Powers
beyond those a double can hold are taken in steps; three lead every 64-bit number
to zero. -/
def scale : (steps : Nat) → Double → Int → Option Double
  | 0, x, _ => some x
  | steps + 1, x, k =>
    if 0 ≤ k then
      if k ≤ 308 then
        let y := x.mul (tenPower k.toNat)
        if y.isFinite then some y else none
      else if x.magnitude = 0 then some x
      else none
    -- a quotient is never infinite, so nothing is checked on this side
    else if -308 ≤ k then some (x.div (tenPower (-k).toNat))
    else if x.magnitude = 0 then some x
    else scale steps (x.div (tenPower 308)) (k + 308)

/-- Whether a number fits a 32-bit exponent. -/
def fitsExponent (n : Nat) : Bool := decide (n ≤ Int32.maxValue.toInt)

/-- The double a significand with an exponent stands for. -/
def real? (n : Numeral) (significand : Nat) (shift : Int) : Option Double := do
  let x ←
    match n.exponent with
    | none => scale 8 (.ofInt significand) shift
    | some (negative, digits) =>
      let e := Text.ofDigits digits
      if fitsExponent e then
        let k : Int := if negative then shift - e else shift + e
        scale 8 (.ofInt significand) k
      else if significand = 0 ∨ negative then some (.zero false)
      else none
  return if n.negative then x.neg else x

/-- The value of a numeral, if it has one. -/
def value? (n : Numeral) : Option NumeralValue :=
  let (significand, dropped) := gather 0 n.whole
  match n.fraction, n.exponent with
  | none, none =>
    if 0 < dropped then (n.real? significand dropped).map .real
    else if !n.negative then some (.int significand)
    -- `-0` keeps its sign as a real, and what is below the integers is one
    else if significand = 0 ∨ -(significand : Int) < Int64.minValue.toInt then
      (n.real? significand 0).map .real
    else some (.int (-(significand : Int)))
  | none, some _ => (n.real? significand dropped).map .real
  | some digits, _ =>
    -- the digits of the fraction go on where those in front of the point stopped
    let (longer, left) := gather significand digits
    (n.real? longer (dropped - ((digits.length - left : Nat) : Int))).map .real

end Numeral

end PatternIR
