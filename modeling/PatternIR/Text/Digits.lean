/-
  PatternIR.Text.Digits
  ─────────────────────
  **DIGITS in texts.**

    • `Text.digits` — the decimal digits at the front of a text;
    • `Text.ofDigits` — the number that decimal digits denote;
    • `Text.hex` — a number in hexadecimal digits of a fixed count.
-/

namespace PatternIR.Text

/-- The decimal digits at the front of a text, as numbers, and the rest. -/
def digits (cs : List Char) : List Nat × List Char :=
  ((cs.takeWhile Char.isDigit).map fun c => c.toNat - 48, cs.dropWhile Char.isDigit)

/-- The number that decimal digits denote, the most significant first. -/
def ofDigits (ds : List Nat) : Nat := ds.foldl (fun n d => 10 * n + d) 0

/-- The lowest `count` hexadecimal digits of a number, the most significant first. -/
def hex : (count n : Nat) → List Char
  | 0, _ => []
  | count + 1, n => hex count (n / 16) ++ [Nat.digitChar (n % 16)]

end PatternIR.Text
