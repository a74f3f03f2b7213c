/-
  PatternIR.Json.Standard
  ───────────────────────
  **THE LIBRARY THE PROGRAM RUNS WITH.**

  The texts of `PatternIR.Json.Text`, the scanner of `PatternIR.Json.Scan` and
  the numbers of `PatternIR.Json.Numeral`, put together as a library.

    • `JsonLibrary.standard` — the library;
    • `Numeral.int`, `Numeral.single`, `Numeral.double` — its conversions.
-/
import PatternIR.Json.Decode
import PatternIR.Json.Scan
import PatternIR.Json.Text

namespace PatternIR

namespace Numeral

/-- The value of a numeral, or the fault of one that has none. -/
def read (n : Numeral) : Except TextFault NumeralValue := Reader.orFault .malformed n.value?

/-- An integer between two limits. -/
def int (low high : Int) (n : Numeral) : Except TextFault Int := do
  match ← n.read with
  | .int k => if low ≤ k ∧ k ≤ high then .ok k else .error .mismatched
  | .real _ => .error .mismatched

/-- A single: an integer is rounded once, any other number as a double first. -/
def single (n : Numeral) : Except TextFault Single := do
  match ← n.read with
  | .int k => .ok (.ofInt k)
  | .real x => .ok x.convert

/-- A double. -/
def double (n : Numeral) : Except TextFault Double := do
  match ← n.read with
  | .int k => .ok (.ofInt k)
  | .real x => .ok x

/-- The fault of a numeral where something else is wanted.  It is read to its end first. -/
def misfit (n : Numeral) : TextFault := if n.value?.isSome then .mismatched else .malformed

end Numeral

/-- The library the program runs with. -/
def JsonLibrary.standard : JsonLibrary where
  Number := Numeral
  room := 127
  scan text := Draft.scan text.toList
  int := Numeral.int
  single := Numeral.single
  double := Numeral.double
  misfit := Numeral.misfit
  compact := Json.compact
  pretty := Json.pretty

end PatternIR
