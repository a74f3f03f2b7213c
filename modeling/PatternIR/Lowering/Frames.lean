/-
  PatternIR.Lowering.Frames
  ─────────────────────────
  **WHERE BINDINGS ARE STORED — the stack of frames.**

  Lowering enters one frame for each construct that can introduce bindings.
  A frame owns a variable for every binding it introduces that no enclosing
  frame provides.  Frames stand in a stack, innermost first, on a root that
  is never left.

    • `Stack.resolve` — the variable of a binding, from the inside out;
    • `Stack.push` — enter a construct, with storage for what it introduces;
    • `Stack.hoist?` — offer a declaration to the enclosing frame; a block
      takes those of preserved bindings.
-/
import PatternIR.Tree.Basic

namespace PatternIR

/-! ## §1. Frames. -/

/-- The construct a frame belongs to. -/
inductive FrameKind where
  /-- The bottom of the stack; no construct. -/
  | root
  /-- A binary expression, whatever its operator. -/
  | binary
  /-- A conditional expression. -/
  | conditional
  /-- An `if` or a loop. -/
  | statement
  /-- A braced block. -/
  | block
deriving DecidableEq

namespace FrameKind

/-- Whether a frame takes over a declaration that a statement directly in it
offers: a block does, if the binding is preserved. -/
def acceptsHoist (preserved : Bool) : FrameKind → Bool
  | .block => preserved
  | .root | .binary | .conditional | .statement => false

/-- Whether a frame wraps its own construct with declarations; a block puts
them among its statements instead. -/
def decorates : FrameKind → Bool
  | .binary | .conditional | .statement => true
  | .root | .block => false

end FrameKind

/-- A binding and the variable that stores it. -/
structure Slot where
  binding : BindingId
  var : VarId
deriving DecidableEq

/-- What is known in one construct. -/
structure Frame where
  kind : FrameKind
  slots : List Slot
  /-- Declarations taken over from statements inside, not yet emitted. -/
  hoisted : List Stmt

namespace Frame

/-- The first slot for a binding or an alias of it. -/
def resolve (f : Frame) (s : Symbols) (b : BindingId) : Option VarId :=
  (f.slots.find? fun slot => s.isAliasFor slot.binding b).map (·.var)

end Frame

/-! ## §2. The stack. -/

/-- The frames of one class: the current one and those around it, the root last. -/
structure Stack where
  current : Frame
  enclosing : List Frame

namespace Stack

/-- Only the root. -/
def bare : Stack := ⟨⟨.root, [], []⟩, []⟩

/-- All frames, innermost first. -/
def frames (st : Stack) : List Frame := st.current :: st.enclosing

/-- How many frames are open. -/
def depth (st : Stack) : Nat := st.frames.length

/-- The number of the current frame, counted from the root. -/
def currentId (st : Stack) : Nat := st.enclosing.length

/-- The storage of a binding, searched from the current frame outwards. -/
def resolve (st : Stack) (s : Symbols) (b : BindingId) : Option VarId :=
  st.frames.findSome? fun f => f.resolve s b

/-- Allocate storage for the bindings that have none yet, neither in the stack
nor among the slots just made.  Bindings missing from the table get none. -/
def allocate (st : Stack) : (made : List Slot) → List BindingId → Symbols → List Slot × Symbols
  | made, [], s => (made, s)
  | made, b :: bs, s =>
    -- storage of an alias will do, so one variable of the source is stored once
    if (st.resolve s b).isSome || made.any fun slot => s.isAliasFor slot.binding b then
      allocate st made bs s
    else match s.binding? b with
      | none => allocate st made bs s
      | some symbol =>
        let (var, s) := s.addVar symbol.name symbol.ty symbol.owner false
        allocate st (made ++ [⟨b, var⟩]) bs s

/-- Enter a construct that introduces `bindings`. -/
def push (st : Stack) (kind : FrameKind) (bindings : List BindingId) (s : Symbols) :
    Stack × Symbols :=
  let (slots, s) := st.allocate [] bindings s
  (⟨⟨kind, slots, []⟩, st.frames⟩, s)

/-- Leave the current construct; the root stays. -/
def pop (st : Stack) : Stack :=
  match st.enclosing with
  | [] => st
  | parent :: rest => ⟨parent, rest⟩

/-- The variable a declaration declares. -/
def declaredVar? : Stmt → Option VarId
  | .decl _ var _ => some var
  | _ => none

/-- Offer the declaration of a binding to the enclosing frame.  If it takes
it, it owns the storage from then on; otherwise the answer is `none`, and the
declaration is left to whoever offered it. -/
def hoist? (st : Stack) (s : Symbols) (b : BindingId) (decl : Stmt) : Option Stack :=
  match st.enclosing, declaredVar? decl with
  | parent :: rest, some var =>
    if parent.kind.acceptsHoist ((s.binding? b).any (·.preserved)) then
      let parent := { parent with
        slots := parent.slots ++ [⟨b, var⟩]
        hoisted := parent.hoisted ++ [decl] }
      some { st with enclosing := parent :: rest }
    else none
  | _, _ => none

/-- Take out the declarations the current frame has accepted so far. -/
def takeHoisted (st : Stack) : List Stmt × Stack :=
  (st.current.hoisted, { st with current := { st.current with hoisted := [] } })

end Stack

end PatternIR
