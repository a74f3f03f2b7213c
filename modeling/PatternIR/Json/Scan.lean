/-
  PatternIR.Json.Scan
  ───────────────────
  **SCANNING A JSON TEXT.**

  How a text is taken apart where the program runs: from left to right, to its
  end or to the first character that no JSON text has in its place.

    • `Draft.piece` — one step into a string;
    • `Draft.value` — a value, and the text behind it;
    • `Draft.scan` — from text to draft.
-/
import PatternIR.Json.Draft
import PatternIR.Json.Numeral

namespace PatternIR

namespace Draft

/-- Scanning a part: what was found, and the rest of the text unless it
stopped being JSON. -/
structure Found (α : Type) where
  value : α
  rest : Option (List Char)

/-- Drop the blanks at the front. -/
def skipBlanks : List Char → List Char
  | [] => []
  | c :: cs =>
    if c = ' ' ∨ c = '\n' ∨ c = '\t' ∨ c = '\r' then skipBlanks cs else c :: cs

/-- Scan the rest of a name that stands for a value, behind its first letter. -/
def name (value : Draft Numeral) (first : Char) : (letters text : List Char) → Found (Draft Numeral)
  | [], cs => ⟨value, some cs⟩
  | _ :: _, [] => ⟨.cut (some first) .truncated .truncated, none⟩
  | l :: ls, c :: cs =>
    if l = c then name value first ls cs else ⟨.cut (some first) .malformed .malformed, none⟩

/-- A numeral in which a digit is missing in front of `rest`. -/
def digitMissing (first : Char) (rest : List Char) : Found (Draft Numeral) :=
  if rest.isEmpty then ⟨.cut (some first) .truncated .malformed, none⟩
  else ⟨.cut (some first) .malformed .malformed, none⟩

/-- Scan the exponent of a numeral, if there is one. -/
def exponent (n : Numeral) (first : Char) : List Char → Found (Draft Numeral)
  | c :: cs =>
    if c = 'e' ∨ c = 'E' then
      let (negative, cs) := match cs with
        | '-' :: cs => (true, cs)
        | '+' :: cs => (false, cs)
        | cs => (false, cs)
      match Text.digits cs with
      | ([], rest) => digitMissing first rest
      | (ds, rest) => ⟨.number { n with exponent := some (negative, ds) }, some rest⟩
    else ⟨.number n, some (c :: cs)⟩
  | [] => ⟨.number n, some []⟩

/-- Scan a numeral, behind the minus sign or the digit it begins with. -/
def numeral (first : Char) (cs : List Char) : Found (Draft Numeral) :=
  let negative := first = '-'
  match Text.digits (if negative then cs else first :: cs) with
  | ([], rest) => digitMissing first rest
  -- no zero in front of other digits
  | (0 :: _ :: _, _) => ⟨.cut (some first) .malformed .malformed, none⟩
  | (whole, '.' :: rest) =>
    match Text.digits rest with
    | ([], rest) => digitMissing first rest
    | (fraction, rest) => exponent ⟨negative, whole, some fraction, none⟩ first rest
  | (whole, rest) => exponent ⟨negative, whole, none, none⟩ first rest

/-- The value of a hexadecimal digit. -/
def hexDigit? (c : Char) : Option Nat :=
  if '0' ≤ c ∧ c ≤ '9' then some (c.toNat - 48)
  else if 'a' ≤ c ∧ c ≤ 'f' then some (c.toNat - 87)
  else if 'A' ≤ c ∧ c ≤ 'F' then some (c.toNat - 55)
  else none

/-- The code unit that four hexadecimal digits at the front of a text denote.
A text of fewer than four bytes ends too early for them. -/
def codeUnit (cs : List Char) : Except TextFault (Nat × List Char) :=
  match cs with
  | a :: b :: c :: d :: rest =>
    match hexDigit? a, hexDigit? b, hexDigit? c, hexDigit? d with
    | some a, some b, some c, some d => .ok (((a * 16 + b) * 16 + c) * 16 + d, rest)
    | _, _, _, _ => .error .malformed
  | few => .error (if (String.ofList few).utf8ByteSize < 4 then .truncated else .malformed)

/-- The first half of a character above the 16 bits. -/
def isHighSurrogate (n : Nat) : Bool := decide (0xd800 ≤ n ∧ n < 0xdc00)

/-- The second half of one. -/
def isLowSurrogate (n : Nat) : Bool := decide (0xdc00 ≤ n ∧ n < 0xe000)

/-- The character of a surrogate pair. -/
def pairChar (high low : Nat) : Char :=
  Char.ofNat (0x10000 + (high - 0xd800) * 0x400 + (low - 0xdc00))

/-- The character an escape letter stands for. -/
def escapeLetter? (c : Char) : Option Char :=
  match c with
  | '\"' => some '\"'
  | '\\' => some '\\'
  | '/' => some '/'
  | 'b' => some (Char.ofNat 0x08)
  | 'f' => some (Char.ofNat 0x0c)
  | 'n' => some '\n'
  | 'r' => some '\r'
  | 't' => some '\t'
  | _ => none

/-- One step into a string. -/
inductive Piece where
  | close (rest : List Char)
  | char (c : Char) (rest : List Char)
  /-- Half a surrogate pair. -/
  | half (rest : List Char)
  | stop (fault : TextFault)

/-- What follows the first half of a surrogate pair. -/
def secondHalf (high : Nat) : List Char → Piece
  | [] => .stop .truncated
  | ['\\'] => .stop .truncated
  | '\\' :: 'u' :: cs =>
    match codeUnit cs with
    | .error fault => .stop fault
    | .ok (low, rest) =>
      if isLowSurrogate low then .char (pairChar high low) rest else .half ('\\' :: 'u' :: cs)
  | cs => .half cs

/-- The first step into a string. -/
def piece : List Char → Piece
  | [] => .stop .truncated
  | '\"' :: cs => .close cs
  | ['\\'] => .stop .truncated
  | '\\' :: 'u' :: cs =>
    match codeUnit cs with
    | .error fault => .stop fault
    | .ok (unit, rest) =>
      if isHighSurrogate unit then secondHalf unit rest
      else if isLowSurrogate unit then .half rest
      else .char (Char.ofNat unit) rest
  | '\\' :: c :: cs =>
    match escapeLetter? c with
    | some c => .char c cs
    | none => .stop .malformed
  | c :: cs => if c.toNat < 0x20 then .stop .malformed else .char c cs

/-- A string from behind its first quote: its text, or its faults for a reader
and for one who skips it.  `whole` says that no half pair has come yet, and
`found` has the characters so far, the latest first. -/
def stringBody : (fuel : Nat) → (whole : Bool) → (found : List Char) → List Char →
    Except (TextFault × TextFault) (Option String) × List Char
  | 0, _, _, cs => (.error (.malformed, .malformed), cs)
  | fuel + 1, whole, found, cs =>
    match piece cs with
    | .close rest =>
      (.ok (if whole then some (String.ofList found.reverse) else none), rest)
    | .char c rest => stringBody fuel whole (c :: found) rest
    | .half rest => stringBody fuel false found rest
    -- a reader has met the half pair before, one who skips has not noticed it
    | .stop fault => (.error (if whole then fault else .malformed, fault), cs)

/-- Scan a string from behind its first quote. -/
def string? (fuel : Nat) (cs : List Char) : Found (Draft Numeral) :=
  match stringBody fuel true [] cs with
  | (.ok s, rest) => ⟨.string s, some rest⟩
  | (.error (wanted, skimmed), _) => ⟨.cut (some '\"') wanted skimmed, none⟩

/-- Scan a key from behind its first quote. -/
def key? (fuel : Nat) (cs : List Char) : Found Key :=
  match stringBody fuel true [] cs with
  | (.ok s, rest) => ⟨.text s, some rest⟩
  | (.error (wanted, skimmed), _) => ⟨.cut wanted skimmed, none⟩

/-- Scan a value that does not begin with a bracket or a brace. -/
def atom (fuel : Nat) (c : Char) (cs : List Char) : Found (Draft Numeral) :=
  if c = 'n' then name .null c ['u', 'l', 'l'] cs
  else if c = 't' then name (.bool true) c ['r', 'u', 'e'] cs
  else if c = 'f' then name (.bool false) c ['a', 'l', 's', 'e'] cs
  else if c = '\"' then string? fuel cs
  else if c = '-' ∨ c.isDigit then numeral c cs
  else ⟨.cut (some c) .malformed .malformed, none⟩

mutual
/-- Scan a value.  Each bracket takes two steps of the fuel, every other value and
comma one; what is left is more than there are characters left, and lasts for any
string among them. -/
def value : (fuel : Nat) → List Char → Found (Draft Numeral)
  | 0, _ => ⟨.cut none .malformed .malformed, none⟩
  | fuel + 1, cs =>
    match skipBlanks cs with
    | [] => ⟨.cut none .truncated .truncated, none⟩
    | c :: cs =>
      if c = '[' then
        let found := items fuel true cs
        ⟨.array found.value.1 found.value.2, found.rest⟩
      else if c = '\x7b' then
        let found := fields fuel true cs
        ⟨.object found.value.1 found.value.2, found.rest⟩
      else atom fuel c cs
/-- Scan items up to the closing bracket, behind the opening one if `first` and
behind another item otherwise. -/
def items : (fuel : Nat) → (first : Bool) → List Char → Found (List (Draft Numeral) × Option TextFault)
  | 0, _, _ => ⟨([], some .malformed), none⟩
  | fuel + 1, first, cs =>
    match skipBlanks cs with
    | [] => ⟨([], some .truncated), none⟩
    | ']' :: cs => ⟨([], none), some cs⟩
    | c :: cs =>
      if first ∨ c = ',' then
        let start := if first then c :: cs else skipBlanks cs
        match start with
        | ']' :: _ => ⟨([.cut none .malformed .malformed], none), none⟩
        | start =>
          let item := value fuel start
          match item.rest with
          | none => ⟨([item.value], none), none⟩
          | some rest =>
            let more := items fuel false rest
            ⟨(item.value :: more.value.1, more.value.2), more.rest⟩
      else ⟨([], some .malformed), none⟩
/-- Scan fields up to the closing brace, behind the opening one if `first` and
behind another field otherwise. -/
def fields : (fuel : Nat) → (first : Bool) → List Char →
    Found (List (Key × Draft Numeral) × Option TextFault)
  | 0, _, _ => ⟨([], some .malformed), none⟩
  | fuel + 1, first, cs =>
    match skipBlanks cs with
    | [] => ⟨([], some .truncated), none⟩
    | '\x7d' :: cs => ⟨([], none), some cs⟩
    | c :: cs =>
      if first ∨ c = ',' then
        let start := if first then c :: cs else skipBlanks cs
        match start with
        | [] => ⟨([(.cut .truncated .truncated, .cut none .truncated .truncated)], none), none⟩
        | '\"' :: start =>
          let key := key? fuel start
          match key.rest with
          | none => ⟨([(key.value, .cut none .malformed .malformed)], none), none⟩
          | some rest =>
            match skipBlanks rest with
            | [] => ⟨([(key.value, .cut none .truncated .truncated)], none), none⟩
            | ':' :: rest =>
              let field := value fuel rest
              match field.rest with
              | none => ⟨([(key.value, field.value)], none), none⟩
              | some rest =>
                let more := fields fuel false rest
                ⟨((key.value, field.value) :: more.value.1, more.value.2), more.rest⟩
            | _ :: _ => ⟨([(key.value, .cut none .malformed .malformed)], none), none⟩
        | _ :: _ => ⟨([(.alien, .cut none .malformed .malformed)], none), none⟩
      else ⟨([], some .malformed), none⟩
end

/-- Scan a text: the draft of its value, and the fault of what follows the value. -/
def scan (text : List Char) : Draft Numeral × Option TextFault :=
  let found := value (2 * text.length + 2) text
  let trailing := match found.rest with
    | none => none
    | some rest => if (skipBlanks rest).isEmpty then none else some .malformed
  (found.value, trailing)

end Draft

end PatternIR
