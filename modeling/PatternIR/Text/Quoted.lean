/-
  PatternIR.Text.Quoted
  ─────────────────────
  **QUOTED TEXTS.**

  A quoted text stands between double quotes, each of its characters written
  as an escape function says.  What has to be escaped depends on who reads
  the text; a text in a message is written so that what is seen is what is
  there: quotes, backslashes and every character that does not show become
  escapes.

    • `Text.quotedBy` — a quoted text, from an escape function;
    • `Text.shown` — a quoted text in a message.
-/
import PatternIR.Text.Hidden

namespace PatternIR.Text

/-- A text between quotes, its characters written by `escape`. -/
def quotedBy (escape : Char → List Char) (s : String) : String :=
  String.ofList ('\"' :: (s.toList.flatMap escape ++ ['\"']))

/-- A character of a text in a message. -/
def escapeHidden (c : Char) : List Char :=
  if c = '\"' then ['\\', '\"']
  else if c = '\\' then ['\\', '\\']
  else if c = '\n' then ['\\', 'n']
  else if c = '\r' then ['\\', 'r']
  else if c = '\t' then ['\\', 't']
  else if c.toNat = 0 then ['\\', '0']
  else if isHidden c then
    ['\\', 'u', '\x7b'] ++ Nat.toDigits 16 c.toNat ++ ['\x7d']
  else [c]

/-- A text in a message, with its quotes. -/
def shown (s : String) : String := quotedBy escapeHidden s

end PatternIR.Text
