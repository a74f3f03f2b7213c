/-
  PatternIR.Ty
  ────────────
  **STATIC TYPES.**

  The types attached to expressions and symbols: the eight primitive kinds,
  class types with arguments, arrays, and the types of `null` and of methods
  that return nothing.

    • `Ty.text` — a type as it is written in a program;
    • `Ty.erasure` — a type without its arguments;
    • `Ty.boxed` — the wrapper class of a primitive type.
-/

namespace PatternIR

/-- The primitive kinds. -/
inductive Prim where
  | boolean | byte | short | char | int | long | float | double
deriving DecidableEq

namespace Prim

/-- A primitive type as it is written. -/
def name : Prim → String
  | .boolean => "boolean"
  | .byte => "byte"
  | .short => "short"
  | .char => "char"
  | .int => "int"
  | .long => "long"
  | .float => "float"
  | .double => "double"

/-- The name of the class that wraps values of this kind. -/
def boxName : Prim → String
  | .boolean => "Boolean"
  | .byte => "Byte"
  | .short => "Short"
  | .char => "Character"
  | .int => "Integer"
  | .long => "Long"
  | .float => "Float"
  | .double => "Double"

/-- Every primitive type. -/
def all : List Prim := [.boolean, .byte, .short, .char, .int, .long, .float, .double]

/-- The kind a name means, if it means one. -/
def ofName? (s : String) : Option Prim := all.find? fun k => k.name == s

end Prim

/-- A static type. -/
inductive Ty where
  /-- A primitive type. -/
  | prim (kind : Prim)
  /-- A class or interface, with its type arguments. -/
  | named (name : String) (args : List Ty)
  /-- An array type. -/
  | array (elem : Ty)
  /-- The type of the `null` literal. -/
  | null
  /-- The result type of methods that return nothing. -/
  | void

/-! ## Equality. -/

mutual
/-- Equality of types is decidable. -/
def Ty.decEq : (s t : Ty) → Decidable (s = t)
  | .prim a, .prim b =>
    if h : a = b then isTrue (by rw [h]) else isFalse (by simpa using h)
  | .named a as, .named b bs =>
    if h : a = b then
      match Ty.decEqAll as bs with
      | isTrue hs => isTrue (by rw [h, hs])
      | isFalse hs => isFalse (by simp [hs])
    else isFalse (by simp [h])
  | .array a, .array b =>
    match Ty.decEq a b with
    | isTrue h => isTrue (by rw [h])
    | isFalse h => isFalse (by simp [h])
  | .null, .null => isTrue rfl
  | .void, .void => isTrue rfl
  | .prim _, .named _ _ | .prim _, .array _ | .prim _, .null | .prim _, .void
  | .named _ _, .prim _ | .named _ _, .array _ | .named _ _, .null | .named _ _, .void
  | .array _, .prim _ | .array _, .named _ _ | .array _, .null | .array _, .void
  | .null, .prim _ | .null, .named _ _ | .null, .array _ | .null, .void
  | .void, .prim _ | .void, .named _ _ | .void, .array _ | .void, .null =>
    isFalse (by simp)
/-- Equality of lists of types is decidable. -/
def Ty.decEqAll : (ss ts : List Ty) → Decidable (ss = ts)
  | [], [] => isTrue rfl
  | s :: ss, t :: ts =>
    match Ty.decEq s t, Ty.decEqAll ss ts with
    | isTrue h, isTrue hs => isTrue (by rw [h, hs])
    | isFalse h, _ => isFalse (by simp [h])
    | _, isFalse hs => isFalse (by simp [hs])
  | [], _ :: _ | _ :: _, [] => isFalse (by simp)
end

instance : DecidableEq Ty := Ty.decEq

namespace Ty

/-! ## Names. -/

/-- The class type of a name, without arguments. -/
def simple (name : String) : Ty := .named name []

/-- The class every other one is below. -/
def object : Ty := simple "Object"

/-- The class of texts. -/
def string : Ty := simple "String"

/-- The type of conditions. -/
def boolean : Ty := .prim .boolean

/-- The type of an integer without a suffix. -/
def int : Ty := .prim .int

/-! ## Kinds of types. -/

/-- Whether values of the type are no references. -/
def isPrimitive : Ty → Bool
  | .prim _ => true
  | _ => false

/-- Class types, array types and the type of `null`. -/
def isReference : Ty → Bool
  | .named _ _ | .array _ | .null => true
  | .prim _ | .void => false

/-- The type of `null` alone. -/
def isNull : Ty → Bool
  | .null => true
  | _ => false

/-- The primitive type of conditions, not its wrapper. -/
def isBoolean : Ty → Bool
  | .prim .boolean => true
  | _ => false

/-- The type without type arguments, of the element type too. -/
def erasure : Ty → Ty
  | .named name _ => .named name []
  | .array elem => .array elem.erasure
  | t => t

/-- The wrapper class of a primitive type; any other type as it is. -/
def boxed : Ty → Ty
  | .prim kind => simple kind.boxName
  | t => t

/-! ## Text. -/

mutual
/-- A type as it is written in a program. -/
def text : Ty → String
  | .prim kind => kind.name
  | .named name [] => name
  | .named name (arg :: args) => name ++ "<" ++ arg.text ++ textMore args ++ ">"
  | .array elem => elem.text ++ "[]"
  | .null => "null"
  | .void => "void"
/-- Further type arguments, each behind a comma. -/
def textMore : List Ty → String
  | [] => ""
  | arg :: args => ", " ++ arg.text ++ textMore args
end

end Ty

end PatternIR
