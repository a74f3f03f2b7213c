/-
  PatternIR.Symbols
  ─────────────────
  **VARIABLES AND PATTERN BINDINGS.**

  A program owns one table of variables and one of bindings, and refers to
  their entries by index.  A binding either stands for one pattern of the
  source or unifies other bindings, its components.  The unmerged bindings
  it can be traced down to are its leaves, and two bindings are aliases
  when they share a leaf.

    • `Symbols.leaves` — the leaves of a binding, in increasing order;
    • `Symbols.isAliasFor` — the alias relation;
    • `Symbols.merge?` — the binding for a union of leaf sets: one that exists
      if possible, otherwise a new one;
    • `Symbols.preserve` — mark a binding and all it unifies.
-/
import PatternIR.Search
import PatternIR.Ty

namespace PatternIR

/-! ## §1. Symbols. -/

/-- A place in the table of variables. -/
structure VarId where
  index : Nat
deriving DecidableEq

/-- A place in the table of bindings. -/
structure BindingId where
  index : Nat
deriving DecidableEq

/-- What an identifier refers to. -/
inductive Sym where
  | var (id : VarId)
  | binding (id : BindingId)
deriving DecidableEq

/-- A local variable, a parameter, or a slot that lowering introduced. -/
structure VarSymbol where
  id : VarId
  name : String
  ty : Ty
  /-- The enclosing method, if known. -/
  owner : Option String
  /-- Introduced by lowering as a temporary. -/
  synthetic : Bool
deriving DecidableEq

/-- A variable that a type-test pattern declares. -/
structure BindingSymbol where
  id : BindingId
  name : String
  ty : Ty
  owner : Option String
  /-- In scope after the statement that introduces it. -/
  preserved : Bool
  /-- What a unified binding unifies; empty for a pattern of the source. -/
  components : List BindingId
deriving DecidableEq

/-- Whether a binding unifies others. -/
def BindingSymbol.isMerged (b : BindingSymbol) : Bool := !b.components.isEmpty

/-- All variables and bindings of a program. -/
structure Symbols where
  vars : Array VarSymbol
  bindings : Array BindingSymbol
deriving DecidableEq

namespace Symbols

/-- No variable and no binding. -/
def empty : Symbols := ⟨#[], #[]⟩

/-! ## §2. Entries. -/

/-- The variable at the place its id names. -/
def var? (s : Symbols) (id : VarId) : Option VarSymbol := s.vars[id.index]?

/-- The binding at the place its id names. -/
def binding? (s : Symbols) (id : BindingId) : Option BindingSymbol := s.bindings[id.index]?

/-- The name behind an identifier. -/
def nameOf? (s : Symbols) : Sym → Option String
  | .var id => (s.var? id).map (·.name)
  | .binding id => (s.binding? id).map (·.name)

/-- The type behind an identifier. -/
def typeOf? (s : Symbols) : Sym → Option Ty
  | .var id => (s.var? id).map (·.ty)
  | .binding id => (s.binding? id).map (·.ty)

/-- Add a variable of the source or, if `synthetic`, a temporary. -/
def addVar (s : Symbols) (name : String) (ty : Ty) (owner : Option String)
    (synthetic : Bool) : VarId × Symbols :=
  let id : VarId := ⟨s.vars.size⟩
  (id, { s with vars := s.vars.push { id, name, ty, owner, synthetic } })

/-- Add the binding of a pattern. -/
def addBinding (s : Symbols) (name : String) (ty : Ty) (owner : Option String) :
    BindingId × Symbols :=
  let id : BindingId := ⟨s.bindings.size⟩
  let symbol := { id, name, ty, owner, preserved := false, components := [] }
  (id, { s with bindings := s.bindings.push symbol })

/-! ## §3. Unified bindings. -/

/-- Every place in the table of bindings, in increasing order. -/
def bindingIds (s : Symbols) : List BindingId :=
  (List.range s.bindings.size).map BindingId.mk

/-- What a binding directly unifies. -/
def parts (s : Symbols) (id : BindingId) : List BindingId :=
  ((s.binding? id).map (·.components)).getD []

/-- Marks on the places in the table of bindings.  A place outside of the table
counts as marked, so a search never leaves the table. -/
structure BindingMarks where
  flags : Array Bool

namespace BindingMarks

/-- No place of a table of the given size is marked. -/
def none (size : Nat) : BindingMarks := ⟨Array.replicate size false⟩

instance : Marks BindingMarks BindingId where
  has seen id := seen.flags.getD id.index true
  mark seen id := ⟨seen.flags.setIfInBounds id.index true⟩
  has_mark seen x y := by
    cases x; cases y
    simp only [Array.getD_eq_getD_getElem?, Array.getElem?_setIfInBounds, BindingId.mk.injEq]
    grind

end BindingMarks

/-- The given bindings and everything they unify, directly or not. -/
def closure (s : Symbols) (ids : List BindingId) : BindingMarks :=
  explore s.parts s.bindings.size (.none s.bindings.size) ids

/-- Whether the table has this binding as a pattern of the source. -/
def isLeaf (s : Symbols) (id : BindingId) : Bool :=
  (s.binding? id).any fun b => !b.isMerged

/-- The patterns of the source that some bindings stand for, in increasing order. -/
def leavesOf (s : Symbols) (ids : List BindingId) : List BindingId :=
  let reached := s.closure ids
  s.bindingIds.filter fun leaf => Marks.has reached leaf && s.isLeaf leaf

/-- The patterns of the source a binding stands for, in increasing order: of a
pattern of the source only itself. -/
def leaves (s : Symbols) (id : BindingId) : List BindingId :=
  if s.isLeaf id then [id] else s.leavesOf [id]

/-- Whether two bindings denote the same variable of the source. -/
def isAliasFor (s : Symbols) (a b : BindingId) : Bool :=
  a = b ||
    let left := s.leaves a
    (s.leaves b).any fun leaf => decide (leaf ∈ left)

/-- Mark a binding, and everything it unifies, as preserved. -/
def preserve (s : Symbols) (id : BindingId) : Symbols :=
  let marked := s.closure [id]
  { s with
    bindings := s.bindings.mapIdx fun i b =>
      if Marks.has marked (BindingId.mk i) then { b with preserved := true } else b }

/-- Unify two bindings.  The result stands for the leaves of both.  It is
one of the two if that already does, else the first unified binding of the
table that does, else a new one named and typed like the first.  `none` if
one of the two is not in the table. -/
def merge? (s : Symbols) (a b : BindingId) : Option (BindingId × Symbols) :=
  match s.binding? a, s.binding? b with
  | some first, some second =>
    let both := s.leavesOf [a, b]
    -- bindings are told apart by their leaves, so a search of the table comes before an addition
    if both = s.leaves a then some (a, s)
    else if both = s.leaves b then some (b, s)
    else match s.bindings.find? fun m => m.isMerged && decide (s.leaves m.id = both) with
      | some m => some (m.id, s)
      | none =>
        let id : BindingId := ⟨s.bindings.size⟩
        let symbol := { first with
          id
          preserved := first.preserved || second.preserved
          components := [a, b] }
        some (id, { s with bindings := s.bindings.push symbol })
  | _, _ => none

end Symbols

end PatternIR
