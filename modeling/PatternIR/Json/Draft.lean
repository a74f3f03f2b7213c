/-
  PatternIR.Json.Draft
  ────────────────────
  **WHAT A JSON LIBRARY FINDS IN A TEXT.**

  A text is taken to its end or to the place where it stops being JSON, and
  what was found up to there is a draft.  Decoding a draft from left to right
  then meets the faults of the text and the faults of its shape in the order
  in which they stand.  A part that is skipped is held to less: what a value
  could not be made of, such as half a surrogate pair, does no harm there.
  What the library makes of a number is its own affair, so the type of the
  numbers is a parameter.

    • `TextFault` — the three kinds of fault;
    • `Draft` — what is found;
    • `Draft.skim` — the first fault of a part that is skipped.
-/

namespace PatternIR

/-- What can be wrong with a JSON text. -/
inductive TextFault where
  /-- It is not JSON, or nests too deeply. -/
  | malformed
  /-- It ends before the value does. -/
  | truncated
  /-- It is JSON of another shape than wanted. -/
  | mismatched
deriving DecidableEq

/-! ## §1. Drafts. -/

/-- What stands where an object has a key. -/
inductive Key where
  /-- A string; `none` if an escape in it is half a surrogate pair. -/
  | text (s : Option String)
  /-- Something else. -/
  | alien
  /-- The text stops here: the fault for a reader of a key, and for one who skips it. -/
  | cut (wanted skimmed : TextFault)
deriving DecidableEq

/-- A JSON value as far as the text has it. -/
inductive Draft (Number : Type) where
  | null
  | bool (b : Bool)
  | number (n : Number)
  /-- A string; `none` if an escape in it is half a surrogate pair. -/
  | string (s : Option String)
  /-- An array, and the fault in place of the next comma or bracket. -/
  | array (items : List (Draft Number)) (stop : Option TextFault)
  /-- An object, and the fault in place of the next comma or brace. -/
  | object (fields : List (Key × Draft Number)) (stop : Option TextFault)
  /-- The text stops here: the character the value begins with, if there is one, the
  fault for a reader of a value, and the fault for one who skips it. -/
  | cut (first : Option Char) (wanted skimmed : TextFault)

namespace Draft

variable {Number : Type}

/-! ## §2. Skipping. -/

/-- The fault of a key that is skipped. -/
def skimKey : Key → Option TextFault
  | .text _ => none
  | .alien => some .malformed
  | .cut _ skimmed => some skimmed

mutual
/-- The first fault of a part that is skipped. -/
def skim : Draft Number → Option TextFault
  | .null | .bool _ | .number _ | .string _ => none
  | .array items stop => (skimItems items).or stop
  | .object fields stop => (skimFields fields).or stop
  | .cut _ _ skimmed => some skimmed
/-- The first fault of items that are skipped. -/
def skimItems : List (Draft Number) → Option TextFault
  | [] => none
  | d :: ds => (skim d).or (skimItems ds)
/-- The first fault of fields that are skipped, their keys included. -/
def skimFields : List (Key × Draft Number) → Option TextFault
  | [] => none
  | (k, d) :: fs => ((skimKey k).or (skim d)).or (skimFields fs)
end

/-- The characters that may stand around the parts of a text. -/
def IsBlank (c : Char) : Prop := c = ' ' ∨ c = '\n' ∨ c = '\t' ∨ c = '\r'

instance (c : Char) : Decidable (IsBlank c) :=
  inferInstanceAs (Decidable (_ ∨ _ ∨ _ ∨ _))

end Draft

end PatternIR
