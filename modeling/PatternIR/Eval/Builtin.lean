/-
  PatternIR.Eval.Builtin
  ──────────────────────
  **BUILTIN FUNCTIONS, and the methods of values.**
-/
import PatternIR.Eval.Machine

namespace PatternIR

namespace Builtin

variable {ω : Type}

/-- The functions every program can call; `none` if the name is not one. -/
def function? (name : String) (args : List Value) : Option (Run ω Value) :=
  let text := " ".intercalate (args.map Value.display)
  if name = "print" then
    some do
      Run.print text
      return .null
  else if name = "println" then
    some do
      Run.print (text ++ "\n")
      return .null
  else none

/-- The fault of an index outside of a string. -/
def badIndex (i : Int32) (s : String) : Fault :=
  .native ("index " ++ toString i.toInt ++ " out of range for length " ++ toString s.length)

/-- The character at an index. -/
def charAt (s : String) (i : Int32) : Except Fault Value :=
  if i < 0 then .error (badIndex i s)
  else match s.toList[i.toInt.toNat]? with
    | some c => .ok (.char c)
    | none => .error (badIndex i s)

/-- The methods of strings, boxes and objects. -/
def method (receiver : Value) (name : String) (args : List Value) : Except Fault Value :=
  match receiver, name, args with
  | .null, name, _ => .error (.nullPointer name)
  | v, "toString", [] => .ok (.str v.display)
  | v, "equals", [other] => .ok (.bool (v.sameRef other))
  | .str s, "length", [] => .ok (.int (Int32.ofNat s.length))
  | .str s, "isEmpty", [] => .ok (.bool s.isEmpty)
  | .str s, "charAt", [.int i] => charAt s i
  | .int n, "intValue", [] => .ok (.int n)
  | .int n, "longValue", [] => .ok (.long n.toInt64)
  | .long n, "longValue", [] => .ok (.long n)
  | .int n, "doubleValue", [] => .ok (.double (.ofInt n.toInt))
  | .double x, "doubleValue", [] => .ok (.double x)
  | .bool b, "booleanValue", [] => .ok (.bool b)
  | v, name, _ => .error (.noSuchMethod v.typeName name)

end Builtin

end PatternIR
