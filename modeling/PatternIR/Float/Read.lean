/-
  PatternIR.Float.Read
  ────────────────────
  **DECIMAL TEXTS AS NUMBERS.**

  A decimal text has a sign, digits with at most one point among them, and a
  power of ten; `inf` and `NaN` have names.  The number it denotes is rounded
  once, whatever its length.
-/
import PatternIR.Float.Binary
import PatternIR.Text.Digits

namespace PatternIR

namespace DecimalText

/-- A sign at the front of a text, and the rest. -/
def sign : List Char → Bool × List Char
  | '-' :: cs => (true, cs)
  | '+' :: cs => (false, cs)
  | cs => (false, cs)

/-- The power of ten at the end of a text. -/
def exponent? : List Char → Option Int
  | [] => some 0
  | c :: cs =>
    if c = 'e' ∨ c = 'E' then
      let (negative, cs) := sign cs
      match Text.digits cs with
      | ([], _) => none
      | (ds, []) => some (if negative then -(Text.ofDigits ds : Int) else Text.ofDigits ds)
      | _ => none
    else none

/-- The significand and the power of ten of a text without sign. -/
def parts? (cs : List Char) : Option (Nat × Int) :=
  let (whole, rest) := Text.digits cs
  let (fraction, rest) := match rest with
    | '.' :: rest => Text.digits rest
    | rest => ([], rest)
  if whole.isEmpty && fraction.isEmpty then none
  else (exponent? rest).map fun e => (Text.ofDigits (whole ++ fraction), e - fraction.length)

/-- Powers of ten beyond this one leave the range of every format, whatever
the digits of a text of reasonable length. -/
def farthest (significand : Nat) : Int := 400 + (Nat.log2 significand + 1 : Nat)

end DecimalText

open DecimalText in
/-- The value of a format that a decimal text denotes. -/
def Binary.ofText? {f : Format} (text : String) : Option (Binary f) :=
  let (negative, cs) := sign text.toList
  let word := (String.ofList cs).toLower
  if word = "nan" then some { (Binary.nan : Binary f) with negative }
  else if word = "inf" ∨ word = "infinity" then some (.infinite negative)
  else
    (parts? cs).map fun (significand, e) =>
      if significand = 0 ∨ e < -farthest significand then .zero negative
      else if farthest significand < e then .infinite negative
      else if 0 ≤ e then .ofRatio negative (significand * Nat.pow 10 e.toNat) 1
      else .ofRatio negative significand (Nat.pow 10 (-e).toNat)

end PatternIR
