/-
  PatternIR.Eval.Operators
  ────────────────────────
  **OPERATORS AND CONVERSIONS.**

  Numbers are promoted to the wider of the two operand kinds, in the order
  int, long, float, double; characters count as ints.  Integer arithmetic
  wraps, and its division truncates and faults on zero; floating-point
  arithmetic never faults.

    • `Number.arith`, `evalBinary`, `evalUnary` — the operators;
    • `coerce` — assignment conversion into a type;
    • `instanceOf`, `cast` — run-time tests of a type.
-/
import PatternIR.Eval.Value
import PatternIR.Tree.Basic

namespace PatternIR

/-! ## §1. Numbers. -/

/-- A numeric operand. -/
inductive Number where
  | int (n : Int32)
  | long (n : Int64)
  | float (x : Single)
  | double (x : Double)
deriving DecidableEq

namespace Number

/-- The number a value is, if it is one. -/
def ofValue? : Value → Option Number
  | .int n => some (.int n)
  | .char c => some (.int (Int32.ofNat c.toNat))
  | .long n => some (.long n)
  | .float x => some (.float x)
  | .double x => some (.double x)
  | .null | .bool _ | .str _ | .object _ => none

/-- A number as a value; a character comes back as the integer it was read as. -/
def toValue : Number → Value
  | .int n => .int n
  | .long n => .long n
  | .float x => .float x
  | .double x => .double x

/-- The kinds in the order of promotion. -/
def rank : Number → Nat
  | .int _ => 0
  | .long _ => 1
  | .float _ => 2
  | .double _ => 3

/-- The integer an integral number is, as a 64-bit number; others truncated. -/
def toInt64 : Number → Int64
  | .int n => n.toInt64
  | .long n => n
  | .float x => x.toInt64
  | .double x => x.toInt64

/-- The nearest double. -/
def toDouble : Number → Double
  | .int n => .ofInt n.toInt
  | .long n => .ofInt n.toInt
  | .float x => x.convert
  | .double x => x

/-- The nearest single, rounded once. -/
def toSingle : Number → Single
  | .int n => .ofInt n.toInt
  | .long n => .ofInt n.toInt
  | .float x => x
  | .double x => x.convert

/-- The number as one of the kind with the given rank. -/
def widen (n : Number) (rank : Nat) : Number :=
  match rank with
  | 0 => n
  | 1 => .long n.toInt64
  | 2 => .float n.toSingle
  | _ => .double n.toDouble

/-- Both numbers as numbers of the wider kind. -/
def promote (a b : Number) : Number × Number :=
  let rank := max a.rank b.rank
  (a.widen rank, b.widen rank)

/-- Arithmetic on integers of one width, from its operations. -/
def integral {α : Type} [DecidableEq α] [Add α] [Sub α] [Mul α] [Div α] [Mod α] (zero : α)
    (op : BinOp) (x y : α) : Except Fault α :=
  match op with
  | .add => .ok (x + y)
  | .sub => .ok (x - y)
  | .mul => .ok (x * y)
  | .div => if y = zero then .error .divisionByZero else .ok (x / y)
  | _ => if y = zero then .error .divisionByZero else .ok (x % y)

/-- Arithmetic on floating-point numbers of one format. -/
def floating {f : Format} (op : BinOp) (x y : Binary f) : Binary f :=
  match op with
  | .add => x.add y
  | .sub => x.sub y
  | .mul => x.mul y
  | .div => x.div y
  | _ => x.rem y

/-- Arithmetic on numbers of one kind. -/
def arith (op : BinOp) : Number → Number → Except Fault Value
  | .int x, .int y => (integral 0 op x y).map Value.int
  | .long x, .long y => (integral 0 op x y).map Value.long
  | .float x, .float y => .ok (.float (floating op x y))
  | .double x, .double y => .ok (.double (floating op x y))
  | _, _ => .error (.typeError "mismatched numeric operands")

/-- Equality of numbers of one kind. -/
def eq : Number → Number → Bool
  | .int x, .int y => x = y
  | .long x, .long y => x = y
  | .float x, .float y => x.eq y
  | .double x, .double y => x.eq y
  | _, _ => false

/-- Order of numbers of one kind. -/
def lt : Number → Number → Bool
  | .int x, .int y => x < y
  | .long x, .long y => x < y
  | .float x, .float y => x.lt y
  | .double x, .double y => x.lt y
  | _, _ => false

/-- Order or equality of numbers of one kind. -/
def le : Number → Number → Bool
  | .int x, .int y => x ≤ y
  | .long x, .long y => x ≤ y
  | .float x, .float y => x.le y
  | .double x, .double y => x.le y
  | _, _ => false

end Number

/-! ## §2. Operators. -/

/-- The fault of operands an operator is not defined for. -/
def Fault.undefinedOperator (op : BinOp) (l r : Value) : Fault :=
  .typeError ("operator `" ++ op.symbol ++ "` not defined for " ++ l.typeName ++ " and "
    ++ r.typeName)

/-- Binary numeric promotion. -/
def promote (op : BinOp) (l r : Value) : Except Fault (Number × Number) :=
  match Number.ofValue? l, Number.ofValue? r with
  | some a, some b => .ok (Number.promote a b)
  | _, _ => .error (.undefinedOperator op l r)

/-- Whether `+` joins texts: the result is a string or an operand is one. -/
def joinsText (result : Ty) (l r : Value) : Bool :=
  result = .string || (match l with | .str _ => true | _ => false)
    || (match r with | .str _ => true | _ => false)

/-- The equality of `==`: by reference if both operands have reference types,
else of booleans, of numbers, and of what is left by reference. -/
def equalValues (byReference : Bool) (l r : Value) : Bool :=
  if byReference then l.sameRef r
  else match Number.ofValue? l, Number.ofValue? r with
    | some a, some b =>
      let (a, b) := Number.promote a b
      a.eq b
    | _, _ => l.sameRef r

/-- A binary operation on two values.  `byReference` says that both operands
have reference types, `result` is the type of the operation.  The evaluator
itself decides `&&` and `||`, which need not have both operands. -/
def evalBinary (op : BinOp) (l r : Value) (byReference : Bool) (result : Ty) :
    Except Fault Value :=
  match op with
  | .add =>
    if joinsText result l r then .ok (.str (l.display ++ r.display))
    else do
      let (a, b) ← promote op l r
      Number.arith op a b
  | .sub | .mul | .div | .rem => do
    let (a, b) ← promote op l r
    Number.arith op a b
  | .eq => .ok (.bool (equalValues byReference l r))
  | .ne => .ok (.bool (!equalValues byReference l r))
  | .lt => do
    let (a, b) ← promote op l r
    return .bool (a.lt b)
  | .gt => do
    let (a, b) ← promote op l r
    return .bool (b.lt a)
  | .le => do
    let (a, b) ← promote op l r
    return .bool (a.le b)
  | .ge => do
    let (a, b) ← promote op l r
    return .bool (b.le a)
  | .and => match l, r with
    | .bool a, .bool b => .ok (.bool (a && b))
    | l, r => .error (.undefinedOperator op l r)
  | .or => match l, r with
    | .bool a, .bool b => .ok (.bool (a || b))
    | l, r => .error (.undefinedOperator op l r)

/-- The name of an operator in messages. -/
def UnOp.title : UnOp → String
  | .not => "Not"
  | .neg => "Neg"

/-- A unary operation. -/
def evalUnary (op : UnOp) (v : Value) : Except Fault Value :=
  match op, v with
  | .not, .bool b => .ok (.bool !b)
  | .neg, .int n => .ok (.int (-n))
  -- promoted first, so the result is no character
  | .neg, .char c => .ok (.int (-Int32.ofNat c.toNat))
  | .neg, .long n => .ok (.long (-n))
  | .neg, .float x => .ok (.float x.neg)
  | .neg, .double x => .ok (.double x.neg)
  | op, v => .error (.typeError ("unary " ++ op.title ++ " not defined for " ++ v.typeName))

/-! ## §3. Conversions. -/

/-- The character of a 16-bit code unit; a surrogate becomes `U+FFFD`. -/
def unitChar (n : UInt16) : Char :=
  if h : n.toNat.isValidChar then Char.ofNatAux n.toNat h else '\ufffd'

/-- The value of a number in a primitive type; there is none in `boolean`. -/
def Number.convert? (n : Number) : Prim → Option Value
  | .boolean => none
  -- there are no values of the narrow types: they are ints cut to the range
  | .byte => some (.int n.toInt64.toInt8.toInt32)
  | .short => some (.int n.toInt64.toInt16.toInt32)
  | .int => some (.int n.toInt64.toInt32)
  | .char => some (.char (unitChar n.toInt64.toInt16.toUInt16))
  | .long => some (.long n.toInt64)
  -- a long integer is rounded twice on the way
  | .float => some (.float n.toDouble.convert)
  | .double => some (.double n.toDouble)

/-- The fault of a value that cannot be of a type. -/
def Fault.badCast (v : Value) (target : Ty) : Fault := .classCast v.typeName target.text

/-- Assignment conversion.  A reference type takes every value as it is; a
primitive one converts numbers, dropping what does not fit. -/
def coerce (target : Ty) (v : Value) : Except Fault Value :=
  match target with
  | .prim kind =>
    match kind, v with
    | .boolean, .bool _ => .ok v
    | _, _ =>
      match (Number.ofValue? v).bind (·.convert? kind) with
      | some w => .ok w
      | none => .error (.badCast v target)
  | _ => .ok v

/-- Whether a value is an instance of a type, arguments left out and
primitive types boxed. -/
def Hierarchy.instanceOf (h : Hierarchy) (v : Value) (target : Ty) : Bool :=
  match v.runtimeType? with
  | some ty => h.isSubtype ty target.erasure.boxed
  | none => false

/-- A cast: a conversion into a primitive type, a checked cast otherwise. -/
def Hierarchy.cast (h : Hierarchy) (target : Ty) (v : Value) : Except Fault Value :=
  if target.isPrimitive then coerce target v
  else if v.isNull || h.instanceOf v target then .ok v
  else .error (.badCast v target)

end PatternIR
