/-
  PatternIR.Json.Decode
  ─────────────────────
  **DECODING — from drafts to data.**

  A reader takes the number of brackets that may still be opened around its
  value, and what a library has found.  It reads from left to right and reports
  the first fault it meets.  Numbers are converted by the library.

    • records are objects, or arrays of their fields in order; unknown fields
      are skipped, a repeated or missing one is a mismatch;
    • variants are objects with one field, named for the variant; a variant
      without content is a string, too.
-/
import PatternIR.Json.Library

namespace PatternIR

/-- A reader of values: how many brackets may still be opened, and the draft. -/
abbrev Reader (lib : JsonLibrary) (α : Type) := (room : Nat) → Draft lib.Number → Except TextFault α

namespace Reader

variable {lib : JsonLibrary} {α β σ τ : Type}

/-- The value a check gives, or else a fault. -/
def orFault (fault : TextFault) : Option α → Except TextFault α
  | some a => .ok a
  | none => .error fault

/-- No fault, or one. -/
def unlessFault : Option TextFault → Except TextFault Unit
  | none => .ok ()
  | some fault => .error fault

/-- Open a bracket. -/
def opening (room : Nat) (inside : Nat → Except TextFault α) : Except TextFault α :=
  match room with
  | 0 => .error .malformed
  | room + 1 => inside room

/-- The fault of a reader who wanted a value of another shape.  Scalars are
read to their end first. -/
def mismatch : Draft lib.Number → TextFault
  | .null | .bool _ | .array _ _ | .object _ _ => .mismatched
  | .number n => lib.misfit n
  | .string s => if s.isSome then .mismatched else .malformed
  | .cut _ wanted _ => wanted

/-! ## §1. Scalars. -/

/-- A truth value. -/
def bool : Reader lib Bool
  | _, .bool b => .ok b
  | _, d => .error (mismatch d)

/-- A string. -/
def string : Reader lib String
  | _, .string (some s) => .ok s
  | _, d => .error (mismatch d)

/-- A string of one character. -/
def char : Reader lib Char := fun room d => do
  match (← string room d).toList with
  | [c] => .ok c
  | _ => .error .mismatched

/-- A number, as the library converts it. -/
def number (convert : lib.Number → Except TextFault α) : Reader lib α
  | _, .number n => convert n
  | _, d => .error (mismatch d)

/-- An integer from `low` to `high`. -/
def int (low high : Int) : Reader lib Int := number (lib.int low high)

/-- An index or a node id: 32 bits without sign. -/
def nat32 : Reader lib Nat := fun room d => Int.toNat <$> int 0 (UInt32.size - 1) room d

/-- A position: 64 bits without sign. -/
def nat64 : Reader lib Nat := fun room d => Int.toNat <$> int 0 (UInt64.size - 1) room d

/-- 32 bits with a sign. -/
def int32 : Reader lib Int32 := fun room d =>
  Int32.ofInt <$> int Int32.minValue.toInt Int32.maxValue.toInt room d

/-- 64 bits with a sign. -/
def int64 : Reader lib Int64 := fun room d =>
  Int64.ofInt <$> int Int64.minValue.toInt Int64.maxValue.toInt room d

/-- A number in single precision. -/
def single : Reader lib Single := number lib.single

/-- A number in double precision. -/
def double : Reader lib Double := number lib.double

/-! ## §2. Options and lists. -/

/-- A value or `null`. -/
def option (read : Reader lib α) : Reader lib (Option α)
  | _, .null => .ok none
  -- an `n` is taken for the beginning of `null` at once
  | _, .cut (some 'n') wanted _ => .error wanted
  | room, d => some <$> read room d

/-- Items in order. -/
def items (read : Draft lib.Number → Except TextFault α) :
    List (Draft lib.Number) → Except TextFault (List α)
  | [] => .ok []
  | d :: ds => do
    let a ← read d
    let as ← items read ds
    return a :: as

/-- An array of such values. -/
def list (read : Reader lib α) : Reader lib (List α)
  | room, .array ds stop => opening room fun room => do
    let as ← items (read room) ds
    unlessFault stop
    return as
  | _, d => .error (mismatch d)

/-! ## §3. Records. -/

/-- How the fields of a record are read.  `σ` holds the fields read so far. -/
structure Record (lib : JsonLibrary) (σ α : Type) where
  /-- No field read. -/
  start : σ
  /-- Read the field of a key; `none` if there is no such field. -/
  put : (room : Nat) → String → Draft lib.Number → σ → Option (Except TextFault σ)
  /-- The record, once the object ends. -/
  finish : σ → Option α
  /-- Read the fields from the front of an array that stops as given. -/
  take : (room : Nat) → (stop : Option TextFault) → List (Draft lib.Number) →
    Except TextFault (α × List (Draft lib.Number))

namespace Record

/-- A record of one field; `absent` is its value if it is not there. -/
def fieldOr (absent : Option α) (key : String) (read : Reader lib α) : Record lib (Option α) α where
  start := none
  put room k d s :=
    if k = key then
      some (if s.isSome then .error .mismatched else some <$> read room d)
    else none
  finish s := s.or absent
  take room stop
    | [] => do
      unlessFault stop
      let a ← orFault .mismatched absent
      return (a, [])
    | d :: ds => do
      let a ← read room d
      return (a, ds)

/-- A record of one field that has to be there. -/
def field (key : String) (read : Reader lib α) : Record lib (Option α) α := fieldOr none key read

/-- A record of one field that may be `null`, and counts as `null` where an
object leaves it out. -/
def optional (key : String) (read : Reader lib α) : Record lib (Option (Option α)) (Option α) :=
  let r := field key (option read)
  { r with finish := fun s => some (s.getD none) }

/-- The fields of two records, those of the first in front. -/
def and (r : Record lib σ α) (q : Record lib τ β) : Record lib (σ × τ) (α × β) where
  start := (r.start, q.start)
  put room k d s :=
    match r.put room k d s.1 with
    | some result => some ((·, s.2) <$> result)
    | none => (q.put room k d s.2).map fun result => (s.1, ·) <$> result
  finish s := do
    let a ← r.finish s.1
    let b ← q.finish s.2
    return (a, b)
  take room stop ds := do
    let (a, ds) ← r.take room stop ds
    let (b, ds) ← q.take room stop ds
    return ((a, b), ds)

/-- A record made from the values of another. -/
def map (f : α → β) (r : Record lib σ α) : Record lib σ β where
  start := r.start
  put := r.put
  finish s := (r.finish s).map f
  take room stop ds := do
    let (a, ds) ← r.take room stop ds
    return (f a, ds)

/-- Read the fields of an object. -/
def fields (r : Record lib σ α) (room : Nat) :
    List (Key × Draft lib.Number) → σ → Except TextFault σ
  | [], s => .ok s
  | (.text (some k), d) :: fs, s => do
    let s ← match r.put room k d s with
      | some result => result
      -- an unknown field is skipped, however deep it is
      | none => do
        unlessFault d.skim
        pure s
    fields r room fs s
  | (.text none, _) :: _, _ => .error .malformed
  | (.alien, _) :: _, _ => .error .malformed
  | (.cut wanted _, _) :: _, _ => .error wanted

/-- The reader of a record. -/
def read (r : Record lib σ α) : Reader lib α
  | room, .object fs stop => opening room fun room => do
    let s ← r.fields room fs r.start
    unlessFault stop
    orFault .mismatched (r.finish s)
  | room, .array ds stop => opening room fun room => do
    let (a, rest) ← r.take room stop ds
    if rest.isEmpty then
      unlessFault stop
      return a
    else .error .malformed
  | _, d => .error (mismatch d)

/-- The reader of what is made from the values of a record. -/
def readAs (r : Record lib σ α) (f : α → β) : Reader lib β := (r.map f).read

end Record

/-! ## §4. Variants. -/

/-- The name of a variant. -/
def variantName : Key → Except TextFault String
  | .text (some s) => .ok s
  | .text none => .error .malformed
  | .alien => .error .malformed
  | .cut wanted _ => .error wanted

/-- The content of a variant without any. -/
def unit : Reader lib Unit
  | _, .null => .ok ()
  | _, d => .error (mismatch d)

/-- One of several variants: `plain` finds those without content, `full` the
readers of the content of the others.  What begins neither a string nor an
object is not read any further. -/
def variant (plain : String → Option α) (full : String → Option (Reader lib α)) : Reader lib α
  | _, .string (some s) => orFault .mismatched (plain s)
  | _, .string none => .error .malformed
  | room, .object fs stop => opening room fun room =>
    match fs with
    | [] => .error (stop.getD .malformed)
    | (k, d) :: more => do
      let s ← variantName k
      let a ← match plain s, full s with
        | some a, _ => (fun _ => a) <$> unit room d
        | none, some read => read room d
        | none, none => .error .mismatched
      if more.isEmpty then
        unlessFault stop
        return a
      else .error .malformed
  | _, .cut none wanted _ | _, .cut (some '\"') wanted _ => .error wanted
  | _, _ => .error .malformed

/-- The first entry of a table of variants. -/
def find (table : List (String × α)) (s : String) : Option α := table.lookup s

end Reader

end PatternIR
