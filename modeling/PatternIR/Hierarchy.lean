/-
  PatternIR.Hierarchy
  ───────────────────
  **THE CLASS HIERARCHY — nominal subtyping.**

  A hierarchy records, class by class, the direct supertypes.  A class that
  was never declared has no recorded supertype; like every class it is a
  subclass of `Object`.

    • `Hierarchy.declare` — a later declaration of a name replaces an earlier one;
    • `Hierarchy.isSubclass` — reachability along recorded supertypes;
    • `Hierarchy.isSubtype` — the same on types: class arguments have to agree
      as soon as the supertype has any, arrays are covariant in references.
-/
import PatternIR.Search
import PatternIR.Ty

namespace PatternIR

/-- The direct supertypes recorded for a class. -/
structure Supertypes where
  superclass : Option String
  interfaces : List String
deriving DecidableEq

namespace Supertypes

/-- The superclass first, the interfaces in their order. -/
def toList (s : Supertypes) : List String := s.superclass.toList ++ s.interfaces

end Supertypes

/-- The recorded classes, the latest declaration first. -/
structure Hierarchy where
  entries : List (String × Supertypes)

namespace Hierarchy

/-- Only `Object`, which has no supertypes. -/
def root : Hierarchy := ⟨[("Object", ⟨none, []⟩)]⟩

/-- Record a class or interface.  Without a superclass it extends `Object`,
unless it is `Object`. -/
def declare (h : Hierarchy) (name : String) (superclass : Option String)
    (interfaces : List String) : Hierarchy :=
  let superclass := superclass.or (if name = "Object" then none else some "Object")
  ⟨(name, ⟨superclass, interfaces⟩) :: h.entries⟩

/-- The core library classes. -/
def builtin : Hierarchy :=
  let h := root
    |>.declare "CharSequence" none []
    |>.declare "Comparable" none []
    |>.declare "String" (some "Object") ["CharSequence", "Comparable"]
    |>.declare "Number" (some "Object") []
  let h := ["Byte", "Short", "Integer", "Long", "Float", "Double"].foldl
    (fun h box => h.declare box (some "Number") ["Comparable"]) h
  h |>.declare "Boolean" (some "Object") ["Comparable"]
    |>.declare "Character" (some "Object") ["Comparable"]

/-- What is recorded for a class. -/
def get? (h : Hierarchy) (name : String) : Option Supertypes := h.entries.lookup name

/-- Whether the name is recorded. -/
def contains (h : Hierarchy) (name : String) : Bool := (h.get? name).isSome

/-- The recorded direct supertypes of a class. -/
def supers (h : Hierarchy) (name : String) : List String :=
  ((h.get? name).map Supertypes.toList).getD []

/-- Every class name the hierarchy mentions, as often as it does. -/
def names (h : Hierarchy) : List String := h.entries.flatMap fun (name, s) => name :: s.toList

/-- A class and the classes it inherits from. -/
def ancestors (h : Hierarchy) (name : String) : List String :=
  explore h.supers (h.names.length + 1) [] [name]

/-- Whether one class is another or inherits from it. -/
def isSubclass (h : Hierarchy) (sub sup : String) : Bool :=
  sub = sup || sup = "Object" || decide (sup ∈ h.ancestors sub)

/-- Static subtyping. -/
def isSubtype (h : Hierarchy) : Ty → Ty → Bool
  | .prim a, .prim b => a = b
  | .null, t => t.isReference
  | .named a as, .named b bs => h.isSubclass a b && (bs.isEmpty || (a = b && as = bs))
  | .array _, .named name _ => name = "Object"
  | .array a, .array b =>
    if a.isPrimitive || b.isPrimitive then a = b else isSubtype h a b
  | _, _ => false

end Hierarchy

end PatternIR
