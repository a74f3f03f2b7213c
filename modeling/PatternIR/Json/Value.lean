/-
  PatternIR.Json.Value
  ────────────────────
  **JSON VALUES, as they are handed to a writer.**

  Objects keep the order of their fields.  Floating-point numbers keep their
  width until they are written, since their digits depend on it.

    • `Json` — the values;
    • `Json.depth` — how deep brackets nest in one.
-/
import PatternIR.Float.Binary

namespace PatternIR

/-- A JSON value. -/
inductive Json where
  | null
  | bool (b : Bool)
  | int (n : Int)
  | single (x : Single)
  | double (x : Double)
  | string (s : String)
  | array (items : List Json)
  | object (fields : List (String × Json))
deriving Inhabited

namespace Json

/-- A natural number. -/
def nat (n : Nat) : Json := .int n

/-- A value or `null`. -/
def option {α : Type} (write : α → Json) : Option α → Json
  | none => .null
  | some a => write a

/-- An array of what is written for each element. -/
def list {α : Type} (write : α → Json) (xs : List α) : Json := .array (xs.map write)

mutual
/-- How deep brackets nest in a value. -/
def depth : Json → Nat
  | .array js => depths js + 1
  | .object fs => fieldDepths fs + 1
  | .null | .bool _ | .int _ | .single _ | .double _ | .string _ => 0
/-- How deep they nest in any item. -/
def depths : List Json → Nat
  | [] => 0
  | j :: js => max (depth j) (depths js)
/-- How deep they nest in any field. -/
def fieldDepths : List (String × Json) → Nat
  | [] => 0
  | (_, j) :: fs => max (depth j) (fieldDepths fs)
end

end Json

end PatternIR
