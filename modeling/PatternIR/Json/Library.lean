/-
  PatternIR.Json.Library
  ──────────────────────
  **THE JSON LIBRARY, as a parameter.**

  Texts are taken apart and put together by a library that the program is
  given.  It hands over what it finds in a text as a draft, takes values to be
  written, and keeps to itself how numbers are stored and converted.

      Json  ── compact, pretty ──→  text  ── scan ──→  Draft

  What is relied on is stated apart, in `JsonLibrary.Lawful`: a written value is
  found again with the same brackets and keys, and in it null, truth values,
  strings and integers as they were.  Of floating-point numbers it says only
  what becomes of those without a JSON form and of those too large for their
  type; which of the others come back is a question of each number.

    • `JsonLibrary` — what a library offers;
    • `JsonLibrary.draft` — what it finds where it has written a value;
    • `JsonLibrary.Lawful` — what is relied on;
    • `JsonLibrary.KeepsSingle`, `JsonLibrary.KeepsDouble` — a number that comes back.
-/
import PatternIR.Json.Draft
import PatternIR.Json.Value

namespace PatternIR

/-- What a JSON library offers. -/
structure JsonLibrary where
  /-- A number as it is found in a text. -/
  Number : Type
  /-- How many brackets may be open around a value that is read. -/
  room : Nat
  /-- What is found in a text, and the fault of what stands behind its value. -/
  scan : String → Draft Number × Option TextFault
  /-- A number as an integer between two limits. -/
  int : (low high : Int) → Number → Except TextFault Int
  /-- A number in single precision. -/
  single : Number → Except TextFault Single
  /-- A number in double precision. -/
  double : Number → Except TextFault Double
  /-- The fault of a number where something else is wanted. -/
  misfit : Number → TextFault
  /-- The text of a value on one line. -/
  compact : Json → String
  /-- The text of a value over several lines. -/
  pretty : Json → String

namespace JsonLibrary

variable (lib : JsonLibrary)

/-- What is found in a text that holds one value and nothing else. -/
def alone (j : Json) : Draft lib.Number := (lib.scan (lib.compact j)).1

mutual
/-- What is found where a value was written: the same brackets around the same
keys, and a value without parts as it is found on its own. -/
def draft : Json → Draft lib.Number
  | .null => lib.alone .null
  | .bool b => lib.alone (.bool b)
  | .int n => lib.alone (.int n)
  | .single x => lib.alone (.single x)
  | .double x => lib.alone (.double x)
  | .string s => lib.alone (.string s)
  | .array js => .array (drafts js) none
  | .object fs => .object (fieldDrafts fs) none
/-- What is found where items were written. -/
def drafts : List Json → List (Draft lib.Number)
  | [] => []
  | j :: js => draft j :: drafts js
/-- What is found where fields were written. -/
def fieldDrafts : List (String × Json) → List (Key × Draft lib.Number)
  | [] => []
  | (k, j) :: fs => (.text (some k), draft j) :: fieldDrafts fs
end

/-- The library reads a single back from what it writes for it. -/
def KeepsSingle (x : Single) : Prop := ∃ k, lib.draft (.single x) = .number k ∧ lib.single k = .ok x

/-- The library reads a double back from what it writes for it. -/
def KeepsDouble (x : Double) : Prop := ∃ k, lib.draft (.double x) = .number k ∧ lib.double k = .ok x

/-- What is relied on. -/
class Lawful : Prop where
  /-- A text that nests 128 brackets or more is not read. -/
  room : lib.room = 127
  /-- A value on one line is found as it was written, with blanks behind it. -/
  compact : ∀ (j : Json) (after : String), (∀ c ∈ after.toList, Draft.IsBlank c) →
    lib.scan (lib.compact j ++ after) = (lib.draft j, none)
  /-- A value over several lines is found as it was written, with blanks behind it. -/
  pretty : ∀ (j : Json) (after : String), (∀ c ∈ after.toList, Draft.IsBlank c) →
    lib.scan (lib.pretty j ++ after) = (lib.draft j, none)
  /-- `null` is read as it was written. -/
  null : lib.draft .null = .null
  /-- A truth value is read as it was written. -/
  bool : ∀ b, lib.draft (.bool b) = .bool b
  /-- A string is read as it was written. -/
  string : ∀ s, lib.draft (.string s) = .string (some s)
  /-- An integer of 64 bits, with or without sign, is read as it was written. -/
  int : ∀ n : Int, Int64.minValue.toInt ≤ n → n < UInt64.size → ∃ k, lib.draft (.int n) = .number k
    ∧ ∀ low high, low ≤ n → n ≤ high → lib.int low high k = .ok n
  /-- A single that is infinite or a NaN is written as `null`. -/
  single : ∀ x : Single, x.isFinite = false → lib.draft (.single x) = .null
  /-- A double that is infinite or a NaN is written as `null`. -/
  double : ∀ x : Double, x.isFinite = false → lib.draft (.double x) = .null
  /-- A number too large for a single is read as an infinite one. -/
  narrows : ∀ (x : Double) (k : lib.Number), lib.draft (.double x) = .number k → lib.double k = .ok x →
    (x.convert : Single).isFinite = false → lib.single k = .ok (.infinite x.negative)

end JsonLibrary

end PatternIR
