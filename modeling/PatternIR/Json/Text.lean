/-
  PatternIR.Json.Text
  ───────────────────
  **JSON VALUES AS TEXTS.**

  How the values are written where the program runs.  Infinities and NaNs, which
  have no JSON form, are written as `null`.

    • `Json.compact` — on one line, without blanks;
    • `Json.pretty` — one item a line, two blanks a level.
-/
import PatternIR.Float.Shortest
import PatternIR.Json.Value
import PatternIR.Text.Digits
import PatternIR.Text.Quoted

namespace PatternIR

namespace Json

/-! ## §1. Scalars. -/

/-- A character as it is written between quotes. -/
def escape (c : Char) : List Char :=
  if c = '\"' then ['\\', '\"']
  else if c = '\\' then ['\\', '\\']
  else if c.toNat = 0x08 then ['\\', 'b']
  else if c.toNat = 0x0c then ['\\', 'f']
  else if c = '\n' then ['\\', 'n']
  else if c = '\r' then ['\\', 'r']
  else if c = '\t' then ['\\', 't']
  else if c.toNat < 0x20 then '\\' :: 'u' :: Text.hex 4 c.toNat
  else [c]

/-- A string with its quotes. -/
def quoted (s : String) : String := Text.quotedBy escape s

/-- A value without parts. -/
def scalar : Json → String
  | .null => "null"
  | .bool b => if b then "true" else "false"
  | .int n => toString n
  | .single x => (x.write? .jsonSingle).getD "null"
  | .double x => (x.write? .jsonDouble).getD "null"
  | .string s => quoted s
  | .array _ => "[]"
  | .object _ => "\x7b\x7d"

/-! ## §2. Compact form. -/

mutual
/-- A value on one line. -/
def compact : Json → String
  | .array (j :: js) => "[" ++ compact j ++ compactItems js ++ "]"
  | .object ((k, j) :: fs) => "\x7b" ++ quoted k ++ ":" ++ compact j ++ compactFields fs ++ "\x7d"
  | .null => scalar .null
  | .bool b => scalar (.bool b)
  | .int n => scalar (.int n)
  | .single x => scalar (.single x)
  | .double x => scalar (.double x)
  | .string s => scalar (.string s)
  | .array [] => scalar (.array [])
  | .object [] => scalar (.object [])
/-- Further items, each behind a comma. -/
def compactItems : List Json → String
  | [] => ""
  | j :: js => "," ++ compact j ++ compactItems js
/-- Further fields, each behind a comma. -/
def compactFields : List (String × Json) → String
  | [] => ""
  | (k, j) :: fs => "," ++ quoted k ++ ":" ++ compact j ++ compactFields fs
end

/-! ## §3. Pretty form. -/

/-- A new line at a level. -/
def newline (level : Nat) : String := String.ofList ('\n' :: List.replicate (2 * level) ' ')

mutual
/-- A value over several lines; `level` is that of the line it begins on. -/
def prettyAt (level : Nat) : Json → String
  | .array (j :: js) =>
    "[" ++ newline (level + 1) ++ prettyAt (level + 1) j ++ prettyItems (level + 1) js
      ++ newline level ++ "]"
  | .object ((k, j) :: fs) =>
    "\x7b" ++ newline (level + 1) ++ quoted k ++ ": " ++ prettyAt (level + 1) j
      ++ prettyFields (level + 1) fs ++ newline level ++ "\x7d"
  | .null => scalar .null
  | .bool b => scalar (.bool b)
  | .int n => scalar (.int n)
  | .single x => scalar (.single x)
  | .double x => scalar (.double x)
  | .string s => scalar (.string s)
  | .array [] => scalar (.array [])
  | .object [] => scalar (.object [])
/-- Further items, each on a line of its own. -/
def prettyItems (level : Nat) : List Json → String
  | [] => ""
  | j :: js => "," ++ newline level ++ prettyAt level j ++ prettyItems level js
/-- Further fields, each on a line of its own. -/
def prettyFields (level : Nat) : List (String × Json) → String
  | [] => ""
  | (k, j) :: fs =>
    "," ++ newline level ++ quoted k ++ ": " ++ prettyAt level j ++ prettyFields level fs
end

/-- A value over several lines. -/
def pretty (j : Json) : String := prettyAt 0 j

end Json

end PatternIR
