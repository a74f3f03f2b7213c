/-
  PatternIR.Eval.Value
  ────────────────────
  **VALUES AND FAULTS.**

  A primitive and its box share a representation, so a primitive value counts
  as an instance of its wrapper class.  Values are equal exactly when they
  are the same by reference: strings and boxes by content, floating-point
  boxes bit for bit, objects by identity.

    • `Value.display` — a value as a program prints it;
    • `Value.runtimeType?` — the class of a value; `null` has none;
    • `Fault`, `Interrupt` — why an evaluation ends without a value.
-/
import PatternIR.Float.Shortest
import PatternIR.Text.Quoted
import PatternIR.Ty

namespace PatternIR

/-! ## §1. Values. -/

/-- An instance of a class.  Objects of one evaluation are told apart by `id`;
objects made outside of it, by the mark in `foreign`. -/
structure Object where
  className : String
  id : Nat
  foreign : Option Nat
deriving DecidableEq

/-- A run-time value. -/
inductive Value where
  | null
  | bool (b : Bool)
  | int (n : Int32)
  | long (n : Int64)
  | float (x : Single)
  | double (x : Double)
  | char (c : Char)
  | str (s : String)
  | object (o : Object)
deriving DecidableEq

namespace Value

/-- The class of a value, for type tests and casts. -/
def runtimeType? : Value → Option Ty
  | .null => none
  | .bool _ => some (.simple Prim.boolean.boxName)
  | .int _ => some (.simple Prim.int.boxName)
  | .long _ => some (.simple Prim.long.boxName)
  | .float _ => some (.simple Prim.float.boxName)
  | .double _ => some (.simple Prim.double.boxName)
  | .char _ => some (.simple Prim.char.boxName)
  | .str _ => some .string
  | .object o => some (.simple o.className)

/-- The name of the class of a value. -/
def typeName (v : Value) : String := ((runtimeType? v).map Ty.text).getD "null"

/-- The reference to nothing. -/
def isNull : Value → Bool
  | .null => true
  | _ => false

/-- Reference comparison. -/
def sameRef (v w : Value) : Bool := v = w

/-- A value as a program prints it. -/
def display : Value → String
  | .null => "null"
  | .bool b => if b then "true" else "false"
  | .int n => toString n.toInt
  | .long n => toString n.toInt
  | .float x => x.display
  | .double x => x.display
  | .char c => String.ofList [c]
  | .str s => s
  | .object o => o.className ++ "@" ++ String.ofList (Nat.toDigits 16 o.id)

end Value

/-! ## §2. Faults. -/

/-- What can go wrong in an evaluation. -/
inductive Fault where
  | undefinedVariable (name : String)
  | undefinedFunction (name : String)
  | typeError (text : String)
  | divisionByZero
  | arityMismatch (expected got : Nat)
  | noSuchMethod (ty method : String)
  | classCast (source target : String)
  | nullPointer (method : String)
  | abstractMethod (name : String)
  | stackOverflow (name : String)
  /-- A failure of a native function, in its own words. -/
  | native (text : String)
deriving DecidableEq

/-- The wording of a fault. -/
def Fault.message : Fault → String
  | .undefinedVariable name => "undefined variable `" ++ name ++ "`"
  | .undefinedFunction name => "undefined function `" ++ name ++ "`"
  | .typeError text => text
  | .divisionByZero => "division by zero"
  | .arityMismatch expected got =>
    "expected " ++ toString expected ++ " argument" ++ (if expected = 1 then "" else "s")
      ++ ", got " ++ toString got
  | .noSuchMethod ty method => "no method `" ++ method ++ "` on type `" ++ ty ++ "`"
  | .classCast source target => "cannot cast `" ++ source ++ "` to `" ++ target ++ "`"
  | .nullPointer method => "null receiver for `" ++ method ++ "`"
  | .abstractMethod name => "method `" ++ name ++ "` has no body"
  | .stackOverflow name => "call stack too deep in `" ++ name ++ "`"
  | .native text => text

/-- Why an evaluation ends early: a fault, or a jump on its way to its target. -/
inductive Interrupt where
  | fault (f : Fault)
  | returned (v : Value)
  | broke (label : Option String)
  | continued (label : Option String)
deriving DecidableEq

/-- The fault of a jump that finds no target in the method it is made in. -/
def Fault.escapedJump (label : Option String) (method : String) : Fault :=
  let target := match label with
    | none => "None"
    | some l => "Some(" ++ Text.shown l ++ ")"
  .typeError ("jump to " ++ target ++ " escaped method " ++ method)

end PatternIR
