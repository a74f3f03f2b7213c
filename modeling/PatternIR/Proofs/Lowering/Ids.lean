/-
  PatternIR.Proofs.Lowering.Ids
  ─────────────────────────────
  **THE IDS OF THE NODES.**

  The pass keeps the id of a node that it rebuilds, drops those of patterns,
  and numbers the nodes that it makes one after the other.  A declaration that
  a block has taken over is emitted by that block, so every number that was
  handed out is on one node of the output.

    source   10 if (11 o instanceof String s) …       kept: 10
    output   1000006 { … 10 if (1000003 let …) … }    made: 1000000, 1000001, …

  Each class is numbered from `firstId` on.  The ids of one class are distinct;
  those of two classes are only if the pass made nodes in at most one of them.

    • `Numbers`, `NumbersStmt` — what a step of the pass does to ids;
    • `lowerClass_ids` — the ids of a class;
    • `lower_ids_nodup_iff` — those of a program.
-/
import Mathlib.Data.List.Forall2
import Mathlib.Data.List.Nodup
import PatternIR.Proofs.Lowering.Nodes

namespace PatternIR

/-! ## §1. Ids. -/

namespace Expr

/-- The id of a node, as a list. -/
def ownId (e : Expr) : List NodeId := [e.id]

/-- The id of a node that is no pattern. -/
def ownPlainId (e : Expr) : List NodeId := if e.isPattern then [] else [e.id]

end Expr

namespace Stmt

/-- The id of a node, as a list. -/
def ownId (s : Stmt) : List NodeId := [s.id]

end Stmt

/-- The ids of a method, its statements and its expressions. -/
def Method.ids (m : Method) : List NodeId := m.id :: Stmt.gatherOpt Stmt.ownId Expr.ownId m.body

/-- The ids of a method without those of patterns. -/
def Method.plainIds (m : Method) : List NodeId :=
  m.id :: Stmt.gatherOpt Stmt.ownId Expr.ownPlainId m.body

/-- The ids of a class, its methods included. -/
def Class.ids (c : Class) : List NodeId := c.id :: c.methods.flatMap (·.ids)

/-- The ids of a class without those of patterns. -/
def Class.plainIds (c : Class) : List NodeId := c.id :: c.methods.flatMap (·.plainIds)

/-- The ids of all nodes of a program. -/
def Program.ids (p : Program) : List NodeId := p.classes.flatMap (·.ids)

namespace Lowering

/-- How often a number is among those from `n` up to `m`. -/
def handedOut (n m i : Nat) : Nat := if n ≤ i ∧ i < m then 1 else 0

/-- From a number to itself none is handed out. -/
theorem handedOut_self (n i : Nat) : handedOut n n i = 0 := if_neg (by omega)

theorem handedOut_of_lt {n i : Nat} (m : Nat) (h : i < n) : handedOut n m i = 0 := if_neg (by omega)

/-- Each number is handed out once at most. -/
theorem handedOut_le_one (n m i : Nat) : handedOut n m i ≤ 1 := by
  unfold handedOut
  split <;> omega

/-- The numbers handed out are those from the first to before the last. -/
theorem handedOut_pos_iff {n m i : Nat} : 0 < handedOut n m i ↔ n ≤ i ∧ i < m := by
  unfold handedOut
  split <;> omega

/-- What is handed out in two goes is handed out. -/
theorem handedOut_add {n m k : Nat} (h : n ≤ m) (h' : m ≤ k) (i : Nat) :
    handedOut n k i = handedOut n m i + handedOut m k i := by
  unfold handedOut
  split_ifs <;> omega

theorem handedOut_succ (n : Nat) {m : Nat} (h : n ≤ m) (i : Nat) :
    handedOut n (m + 1) i = handedOut n m i + handedOut m (m + 1) i := handedOut_add h (Nat.le_succ m) i

/-- A number in front is the one handed out last. -/
theorem count_cons_next (n i : Nat) (l : List Nat) :
    (n :: l).count i = handedOut n (n + 1) i + l.count i := by
  rw [List.count_cons, Nat.add_comm]
  congr 1
  unfold handedOut
  by_cases h : n = i
  · simp [h]
  · rw [if_neg (by simpa using h), if_neg (by omega)]

/-- A range holds each of its numbers once. -/
theorem count_range' (k i : Nat) : ∀ n, (List.range' n k).count i = handedOut n (n + k) i := by
  induction k with
  | zero => exact fun n => (handedOut_self n i).symm
  | succ k ih =>
      intro n
      rw [List.range'_succ, count_cons_next, ih, ← handedOut_add (by omega) (by omega)]
      congr 1
      omega

/-! ## §2. The nodes the pass makes. -/

variable {p p₁ p' : Pass}

/-- Numbers given by their distance from the first. -/
theorem perm_range' {n k : Nat} {l : List Nat} (h : l.Perm (List.range k)) :
    (l.map (n + ·)).Perm (List.range' n k) := by
  rw [List.range'_eq_map_range]
  exact h.map _

/-- A test for a match is numbered from `id` on. -/
theorem matchNode_ids (id : NodeId) (span : Span) (isCertain : Bool) (temp : VarId) (target ty : Ty) :
    ((matchNode id span isCertain temp target ty).gather Expr.ownId).Perm
      (List.range' id (matchSize isCertain)) := by
  cases isCertain with
  | true => exact perm_range' (l := [0]) (by decide)
  | false => exact perm_range' (l := [1, 0]) (by decide)

/-- So is the storing of a match. -/
theorem storeNode_ids (id : NodeId) (span : Span) (var temp : VarId) (varTy target ty : Ty) :
    ((storeNode id span var temp varTy target ty).gather Expr.ownId).Perm
      (List.range' id (storeSize varTy)) := by
  unfold storeNode storeSize
  split
  · exact perm_range' (l := [7, 4, 3, 0, 2, 1, 6, 5]) (by decide)
  · exact perm_range' (l := [6, 3, 0, 2, 1, 5, 4]) (by decide)

/-- So is a whole type test. -/
theorem IsTest.count_ids {span : Span} {isCertain : Bool} {temp : VarId} {target ty : Ty} {id : NodeId}
    {storage : Option (VarId × Ty)} {test : Expr} {size : Nat}
    (h : IsTest span isCertain temp target ty id storage test size) (i : Nat) :
    (test.gather Expr.ownId).count i = handedOut id (id + size) i := by
  cases h with
  | plain => rw [(matchNode_ids ..).count_eq, count_range']
  | stored var varTy =>
      rw [Expr.gather_binary, ← Nat.add_assoc, ← Nat.add_assoc]
      show ((id + matchSize isCertain + storeSize varTy) :: (Expr.gather _ _ ++ Expr.gather _ _)).count i
        = handedOut id (id + matchSize isCertain + storeSize varTy + 1) i
      rw [count_cons_next, List.count_append, (matchNode_ids ..).count_eq, (storeNode_ids ..).count_eq,
        count_range', count_range',
        handedOut_succ id (m := id + matchSize isCertain + storeSize varTy) (by omega),
        handedOut_add (n := id) (m := id + matchSize isCertain)
          (k := id + matchSize isCertain + storeSize varTy) (by omega) (by omega)]
      omega

/-- So are the definitions of slots. -/
theorem DefinesSlots.count_ids {s : Symbols} {span : Span} {id : NodeId} {slots : List Slot}
    {defs : List (VarId × Expr)} (h : DefinesSlots s span id slots defs) (i : Nat) :
    (Expr.gatherDefs Expr.ownId defs).count i = handedOut id (id + slots.length) i := by
  induction h with
  | nil id => exact (handedOut_self id i).symm
  | @cons id slot slots sym v defs hsym hv rest ih =>
      rw [Expr.gatherDefs_cons]
      show (id :: Expr.gatherDefs Expr.ownId defs).count i = _
      rw [count_cons_next, ih, ← handedOut_add (by omega) (by omega), List.length_cons]
      congr 1
      omega

/-- So are the declarations of slots, refused or taken over. -/
theorem DeclaresSlots.count_ids {s : Symbols} {span : Span} {takes : BindingId → Bool} {id : NodeId}
    {slots : List Slot} {refused : List Stmt} {taken : List (Slot × Stmt)}
    (h : DeclaresSlots s span takes id slots refused taken) (i : Nat) :
    (Stmt.gatherAll Stmt.ownId Expr.ownId refused).count i
      + (Stmt.gatherAll Stmt.ownId Expr.ownId (taken.map Prod.snd)).count i
        = handedOut id (id + 2 * slots.length) i := by
  have hdecl : ∀ (id : NodeId) var ty v (l : List NodeId),
      ((declNode id span var ty v).gather Stmt.ownId Expr.ownId ++ l).count i
        = handedOut id (id + 2) i + l.count i := by
    intro id var ty v l
    rw [declNode, Stmt.gather_decl, List.count_append]
    congr 1
    exact ((perm_range' (n := id) (l := [1, 0]) (by decide)).count_eq i).trans (count_range' 2 i id)
  have hnext : ∀ (id : NodeId) (n : Nat), handedOut id (id + 2) i + handedOut (id + 2) (id + 2 + 2 * n) i
      = handedOut id (id + 2 * (n + 1)) i := by
    intro id n
    rw [← handedOut_add (by omega) (by omega)]
    congr 1
    omega
  induction h with
  | nil id => exact (handedOut_self id i).symm
  | @refuse id slot slots sym v refused taken hsym hv htakes rest ih =>
      rw [Stmt.gatherAll_cons, hdecl, List.length_cons, ← hnext]
      omega
  | @take id slot slots sym v refused taken hsym hv htakes rest ih =>
      rw [List.map_cons, Stmt.gatherAll_cons, hdecl, List.length_cons, ← hnext]
      omega

/-! ## §3. Expressions. -/

/-- A step of the pass that leaves the stack as it is: on the output are the
ids `src` of the source and the numbers handed out, each as often. -/
structure Numbers (p p' : Pass) (src out : List NodeId) : Prop where
  stack : p'.stack = p.stack
  size : p.maker.next ≤ p'.maker.next
  count : ∀ i, out.count i = src.count i + handedOut p.maker.next p'.maker.next i

namespace Numbers

variable {a b c d : List NodeId}

/-- Nothing is numbered in a pass that stands still. -/
theorem refl (p : Pass) (a : List NodeId) : Numbers p p a a :=
  ⟨rfl, Nat.le_refl _, fun i => by rw [handedOut_self, Nat.add_zero]⟩

theorem seq (h : Numbers p p₁ a b) (h' : Numbers p₁ p' c d) : Numbers p p' (a ++ c) (b ++ d) := by
  refine ⟨h'.stack.trans h.stack, Nat.le_trans h.size h'.size, ?_⟩
  intro i
  rw [List.count_append, List.count_append, h.count, h'.count, handedOut_add h.size h'.size]
  omega

/-- A node that is rebuilt. -/
theorem cons (h : Numbers p p' a b) (id : NodeId) : Numbers p p' (id :: a) (id :: b) := by
  refine ⟨h.stack, h.size, ?_⟩
  intro i
  rw [List.count_cons, List.count_cons, h.count]
  omega

/-- Nodes that are made. -/
theorem made (h : Numbers p p₁ a b) (hstack : p'.stack = p₁.stack)
    (hsize : p₁.maker.next ≤ p'.maker.next)
    (hcount : ∀ i, c.count i = b.count i + handedOut p₁.maker.next p'.maker.next i) : Numbers p p' a c := by
  refine ⟨hstack.trans h.stack, Nat.le_trans h.size hsize, ?_⟩
  intro i
  rw [hcount, h.count, handedOut_add h.size hsize]
  omega

/-- The ids in another order. -/
theorem perm (h : Numbers p p' a b) (ha : a.Perm c) (hb : b.Perm d) : Numbers p p' c d :=
  ⟨h.stack, h.size, fun i => by rw [← ha.count_eq, ← hb.count_eq, h.count]⟩

/-- A step before that makes no nodes. -/
theorem before (hstack : p₁.stack = p.stack) (hnext : p₁.maker.next = p.maker.next)
    (h : Numbers p₁ p' a b) : Numbers p p' a b := by
  refine ⟨h.stack.trans hstack, hnext ▸ h.size, ?_⟩
  rw [← hnext]
  exact h.count

end Numbers

/-- Opening a frame numbers nothing. -/
theorem enter_next (p : Pass) (kind : FrameKind) (bindings : List BindingId) :
    (p.enter kind bindings).maker = p.maker := rfl

/-- Closing it again leaves the stack it was opened on. -/
theorem enter_pop (p : Pass) (kind : FrameKind) (bindings : List BindingId) :
    (p.enter kind bindings).stack.pop = p.stack := rfl

/-- An expression at the end of its frame, which is left then.  What was asked
before the frame makes no nodes. -/
theorem Numbers.framed (kind : FrameKind) (bindings : List BindingId) {q q' : Pass} {e e' : Expr}
    {src : List NodeId} (hsame : p₁.stack = p.stack ∧ p₁.maker = p.maker)
    (hq : Numbers (p₁.enter kind bindings) q src (e.gather Expr.ownId))
    (hdec : decorateExpr e q = .ok e' q') :
    Numbers p { q' with stack := q'.stack.pop } src (e'.gather Expr.ownId) := by
  obtain ⟨hstack, hmaker⟩ := hsame
  refine .before hstack (congrArg Maker.next hmaker) ?_
  have hnumbers : Numbers (p₁.enter kind bindings) q' src (e'.gather Expr.ownId) := by
    rcases decorateExpr_eq_ok hdec with ⟨-, rfl, rfl⟩ | ⟨defs, hdefs, rfl, rfl⟩
    · exact hq
    · refine hq.made rfl (Nat.le_add_right_of_le (Nat.le_add_right _ _)) ?_
      intro i
      rw [Expr.gather_letIn]
      show ((q.maker.next + q.stack.current.slots.length) :: (Expr.gatherDefs _ defs ++ e.gather _)).count i
        = _ + handedOut q.maker.next (q.maker.next + q.stack.current.slots.length + 1) i
      rw [count_cons_next, List.count_append, hdefs.count_ids,
        handedOut_succ q.maker.next (m := q.maker.next + q.stack.current.slots.length) (by omega)]
      omega
  refine ⟨?_, hnumbers.size, hnumbers.count⟩
  show q'.stack.pop = p₁.stack
  rw [hnumbers.stack, enter_pop]

/-- The let-expression for a type test is made around its operand. -/
theorem lowerTest_numbers {rules : Rules} {operandTy : Ty} {operand e : Expr} {pattern : BindingPattern}
    {span : Span} {src : List NodeId} (h₁ : Numbers p p₁ src (operand.gather Expr.ownId))
    (h : lowerTest rules operandTy operand pattern span p₁ = .ok e p') :
    Numbers p p' src (e.gather Expr.ownId) := by
  obtain ⟨symbol, test, size, -, htest, -, rfl, rfl⟩ := lowerTest_eq_ok h
  refine h₁.made rfl (Nat.le_add_right_of_le (Nat.le_add_right _ _)) ?_
  intro i
  rw [Expr.gather_letIn, Expr.gatherDefs_cons, Expr.gatherDefs_nil, List.append_nil]
  show ((p₁.maker.next + size) :: (operand.gather _ ++ test.gather _)).count i
    = _ + handedOut p₁.maker.next (p₁.maker.next + size + 1) i
  rw [count_cons_next, List.count_append, htest.count_ids,
    handedOut_succ p₁.maker.next (m := p₁.maker.next + size) (by omega)]
  omega

/-- A question touches neither the stack nor the numbers. -/
theorem asking_same {q : Symbols → List BindingId × Symbols} {bs : List BindingId}
    (h : asking q p = .ok bs p') : p'.stack = p.stack ∧ p'.maker = p.maker := by
  obtain ⟨-, rfl⟩ := asking_eq_ok h
  exact ⟨rfl, rfl⟩

/-- Nor do the facts for the operands. -/
theorem operandFacts_same {flow : Oracle} {op : BinOp} {left : Expr} {bs : List BindingId}
    (h : operandFacts flow op left p = .ok bs p') : p'.stack = p.stack ∧ p'.maker = p.maker := by
  cases op with
  | and | or => exact asking_same h
  | _ =>
      obtain ⟨-, rfl⟩ := pure_eq_ok.mp h
      exact ⟨rfl, rfl⟩

/-- Nor do the facts of a condition. -/
theorem condFacts?_same {flow : Oracle} {cond : Option Expr} {bs : List BindingId}
    (h : condFacts? flow cond p = .ok bs p') : p'.stack = p.stack ∧ p'.maker = p.maker := by
  cases cond with
  | none =>
      obtain ⟨-, rfl⟩ := pure_eq_ok.mp h
      exact ⟨rfl, rfl⟩
  | some cond => exact asking_same (q := flow.all cond) h

variable {rules : Rules}

-- The ids are counted, not compared as lists, since declarations are moved out of the
-- order they are made in. A part is numbered from where the one before it has stopped.
mutual
/-- **An expression**: a node that is no pattern keeps its id. -/
theorem lowerExpr_numbers : ∀ (e : Expr) {e' : Expr} {p p' : Pass}, lowerExpr rules e p = .ok e' p' →
    Numbers p p' (e.gather Expr.ownPlainId) (e'.gather Expr.ownId)
  | .literal i v, e', p, p', h => by
      obtain ⟨rfl, rfl⟩ := pure_eq_ok.mp h
      exact .refl p' [i.id]
  | .ident i (.var v), e', p, p', h => by
      obtain ⟨rfl, rfl⟩ := pure_eq_ok.mp h
      exact .refl p' [i.id]
  | .ident i (.binding b), e', p, p', h => by
      obtain ⟨var, -, rfl, rfl⟩ := lowerRef_eq_ok h
      -- the node of the reference is gone, that of the variable has a new number
      refine (Numbers.refl p []).made rfl (Nat.le_succ _) ?_
      intro j
      exact (count_cons_next p.maker.next j []).trans (Nat.add_comm _ _)
  | .unary i op e, e', p, p', h => by
      obtain ⟨x, hx, rfl⟩ := bind_pure_eq_ok.mp h
      rw [Expr.gather_unary, Expr.gather_unary]
      exact (lowerExpr_numbers e hx).cons i.id
  | .binary i op l r, e', p, p', h => by
      obtain ⟨bs, p₁, x, q₁, y, q₂, q, hfacts, hx, hy, hdec, rfl⟩ := lowerExpr_binary_eq_ok h
      refine .framed .binary bs (operandFacts_same hfacts) ?_ hdec
      rw [Expr.gather_binary, Expr.gather_binary]
      exact ((lowerExpr_numbers l hx).seq (lowerExpr_numbers r hy)).cons i.id
  | .conditional i c y z, e', p, p', h => by
      obtain ⟨bs, p₁, x₁, q₁, x₂, q₂, x₃, q₃, q, hask, hx₁, hx₂, hx₃, hdec, rfl⟩ :=
        lowerExpr_conditional_eq_ok h
      refine .framed .conditional bs (asking_same hask) ?_ hdec
      rw [Expr.gather_conditional, Expr.gather_conditional]
      exact ((lowerExpr_numbers c hx₁).seq ((lowerExpr_numbers y hx₂).seq (lowerExpr_numbers z hx₃))).cons i.id
  | .assign i t v, e', p, p', h => by
      obtain ⟨x, p₁, y, hx, hy, rfl⟩ := bind_bind_pure_eq_ok.mp h
      rw [Expr.gather_assign, Expr.gather_assign]
      exact ((lowerExpr_numbers t hx).seq (lowerExpr_numbers v hy)).cons i.id
  | .cast i t e, e', p, p', h => by
      obtain ⟨x, hx, rfl⟩ := bind_pure_eq_ok.mp h
      rw [Expr.gather_cast, Expr.gather_cast]
      exact (lowerExpr_numbers e hx).cons i.id
  | .instanceOf i e t, e', p, p', h => by
      obtain ⟨x, hx, rfl⟩ := bind_pure_eq_ok.mp h
      rw [Expr.gather_instanceOf, Expr.gather_instanceOf]
      exact (lowerExpr_numbers e hx).cons i.id
  | .typeTest i e pattern, e', p, p', h => by
      obtain ⟨x, p₁, hx, htest⟩ := bind_eq_ok.mp h
      rw [Expr.gather_typeTest]
      -- a test is numbered anew, behind the nodes of its operand
      exact lowerTest_numbers (lowerExpr_numbers e hx) htest
  | .call i f args, e', p, p', h => by
      obtain ⟨xs, hxs, rfl⟩ := bind_pure_eq_ok.mp h
      rw [Expr.gather_call, Expr.gather_call]
      exact (lowerExprs_numbers args hxs).cons i.id
  | .methodCall i e f args, e', p, p', h => by
      obtain ⟨x, p₁, xs, hx, hxs, rfl⟩ := bind_bind_pure_eq_ok.mp h
      rw [Expr.gather_methodCall, Expr.gather_methodCall]
      exact ((lowerExpr_numbers e hx).seq (lowerExprs_numbers args hxs)).cons i.id
  | .letIn i defs body, e', p, p', h => by
      obtain ⟨ds, p₁, x, hds, hx, rfl⟩ := bind_bind_pure_eq_ok.mp h
      rw [Expr.gather_letIn, Expr.gather_letIn]
      exact ((lowerDefs_numbers defs hds).seq (lowerExpr_numbers body hx)).cons i.id
theorem lowerExprs_numbers : ∀ (es : List Expr) {es' : List Expr} {p p' : Pass},
    lowerExprs rules es p = .ok es' p' →
      Numbers p p' (Expr.gatherAll Expr.ownPlainId es) (Expr.gatherAll Expr.ownId es')
  | [], es', p, p', h => by
      obtain ⟨rfl, rfl⟩ := pure_eq_ok.mp h
      exact .refl p' []
  | e :: es, es', p, p', h => by
      obtain ⟨x, p₁, xs, hx, hxs, rfl⟩ := bind_bind_pure_eq_ok.mp h
      rw [Expr.gatherAll_cons, Expr.gatherAll_cons]
      exact (lowerExpr_numbers e hx).seq (lowerExprs_numbers es hxs)
theorem lowerDefs_numbers : ∀ (ds : List (VarId × Expr)) {ds' : List (VarId × Expr)} {p p' : Pass},
    lowerDefs rules ds p = .ok ds' p' →
      Numbers p p' (Expr.gatherDefs Expr.ownPlainId ds) (Expr.gatherDefs Expr.ownId ds')
  | [], ds', p, p', h => by
      obtain ⟨rfl, rfl⟩ := pure_eq_ok.mp h
      exact .refl p' []
  | (v, e) :: ds, ds', p, p', h => by
      obtain ⟨x, p₁, xs, hx, hxs, rfl⟩ := bind_bind_pure_eq_ok.mp h
      rw [Expr.gatherDefs_cons, Expr.gatherDefs_cons]
      exact (lowerExpr_numbers e hx).seq (lowerDefs_numbers ds hxs)
end

theorem lowerExpr?_numbers : ∀ (e : Option Expr) {e' : Option Expr} {p p' : Pass},
    lowerExpr? rules e p = .ok e' p' →
      Numbers p p' (Expr.gatherAll Expr.ownPlainId e.toList) (Expr.gatherAll Expr.ownId e'.toList)
  | none, e', p, p', h => by
      obtain ⟨rfl, rfl⟩ := pure_eq_ok.mp h
      exact .refl p' []
  | some e, e', p, p', h => by
      obtain ⟨x, hx, rfl⟩ := bind_pure_eq_ok.mp h
      simp only [Option.toList_some, Expr.gatherAll_cons, Expr.gatherAll_nil, List.append_nil]
      exact lowerExpr_numbers e hx

/-! ## §4. Statements. -/

/-- The ids of a statement and its declarations. -/
def Decorated.ids (d : Decorated) : List NodeId :=
  Stmt.gatherAll Stmt.ownId Expr.ownId d.decls ++ d.stmt.gather Stmt.ownId Expr.ownId

/-- The ids of declarations that a block has taken over. -/
def takenIds (taken : List (Slot × Stmt)) : List NodeId :=
  Stmt.gatherAll Stmt.ownId Expr.ownId (taken.map Prod.snd)

/-- A step of the pass in which the current frame takes over declarations, if it
is a block: what is handed out is on the output or on what is taken over. -/
structure NumbersStmt (p p' : Pass) (taken : List (Slot × Stmt)) (src out : List NodeId) : Prop where
  stack : p'.stack = p.stack.gain taken
  block : p.stack.current.kind ≠ .block → taken = []
  size : p.maker.next ≤ p'.maker.next
  count : ∀ i, out.count i + (takenIds taken).count i
    = src.count i + handedOut p.maker.next p'.maker.next i

section

variable {src out : List NodeId} {taken : List (Slot × Stmt)}

/-- Nothing is taken over, so what is numbered as expressions are is numbered as a statement. -/
theorem Numbers.stmt (h : Numbers p p' src out) : NumbersStmt p p' [] src out :=
  ⟨by rw [h.stack, Stack.gain_nil], fun _ => rfl, h.size, h.count⟩

namespace NumbersStmt

/-- Outside of a block nothing is taken over. -/
theorem numbers (h : NumbersStmt p p' taken src out) (hkind : p.stack.current.kind ≠ .block) :
    Numbers p p' src out := by
  obtain rfl := h.block hkind
  exact ⟨by rw [h.stack, Stack.gain_nil], h.size, h.count⟩

/-- The pass may have been another before, with the same stack and numbers. -/
theorem before (hstack : p₁.stack = p.stack) (hnext : p₁.maker.next = p.maker.next)
    (h : NumbersStmt p₁ p' taken src out) : NumbersStmt p p' taken src out := by
  refine ⟨by rw [h.stack, hstack], by rw [← hstack]; exact h.block, hnext ▸ h.size, ?_⟩
  rw [← hnext]
  exact h.count

/-- A node that keeps its id. -/
theorem cons (h : NumbersStmt p p' taken src out) (id : NodeId) :
    NumbersStmt p p' taken (id :: src) (id :: out) := by
  refine ⟨h.stack, h.block, h.size, ?_⟩
  intro i
  rw [List.count_cons, List.count_cons, Nat.add_right_comm, h.count]
  omega

/-- The order of ids does not matter. -/
theorem perm {src' out' : List NodeId} (h : NumbersStmt p p' taken src out) (hsrc : src.Perm src')
    (hout : out.Perm out') : NumbersStmt p p' taken src' out' :=
  ⟨h.stack, h.block, h.size, fun i => by rw [← hsrc.count_eq, ← hout.count_eq, h.count]⟩

/-- Behind its declarations in a block, if there are any. -/
theorem close {d : Decorated} {s : Stmt} (h : NumbersStmt p p₁ taken src d.ids)
    (hclose : d.close p₁ = .ok s p') : NumbersStmt p p' taken src (s.gather Stmt.ownId Expr.ownId) := by
  rcases close_eq_ok hclose with ⟨hdecls, rfl, rfl⟩ | ⟨-, rfl, rfl⟩
  · rw [Decorated.ids, hdecls] at h
    exact h
  · refine ⟨h.stack, h.block, Nat.le_succ_of_le h.size, ?_⟩
    intro i
    have hcount := h.count i
    rw [Stmt.gather_block, Stmt.gatherAll_append, Stmt.gatherAll_cons, Stmt.gatherAll_nil, List.append_nil]
    show (p₁.maker.next :: d.ids).count i + _ = _ + handedOut p.maker.next (p₁.maker.next + 1) i
    rw [count_cons_next, handedOut_succ _ h.size]
    omega

end NumbersStmt

/-- A statement at the end of its frame, with the storage of the frame in front
or in the frame around. -/
theorem Numbers.framedStmt (bindings : List BindingId) {q q' : Pass} {stmt : Stmt} {d : Decorated}
    (hsame : p₁.stack = p.stack ∧ p₁.maker = p.maker)
    (hq : Numbers (p₁.enter .statement bindings) q src (stmt.gather Stmt.ownId Expr.ownId))
    (hdec : decorateStmt stmt q = .ok d q') :
    ∃ taken, NumbersStmt p { q' with stack := q'.stack.pop } taken src d.ids := by
  obtain ⟨refused, taken, hdecl, rfl, rfl⟩ := decorateStmt_eq_ok hdec
  obtain ⟨news, syms, -, henter⟩ := enter_eq p₁ .statement bindings
  have hstack : q.stack = ⟨⟨.statement, news, []⟩, p₁.stack.frames⟩ := by rw [hq.stack, henter]
  refine ⟨taken, .before hsame.1 (congrArg Maker.next hsame.2)
    ⟨?_, ?_, Nat.le_add_right_of_le hq.size, ?_⟩⟩
  · show (q.stack.give taken).pop = p₁.stack.gain taken
    rw [hstack]
    exact Stack.pop_give _ _ _
  · intro hkind
    refine hdecl.taken_eq_nil ?_
    intro b
    rw [hstack]
    show p₁.stack.current.kind.acceptsHoist _ = false
    cases hk : p₁.stack.current.kind with
    | block => exact absurd hk hkind
    | _ => rfl
  · intro i
    -- two numbers for each slot: of the declaration and of its default value
    have hdecls := hdecl.count_ids i
    have hcount := hq.count i
    have hadd := handedOut_add hq.size (Nat.le_add_right q.maker.next (2 * q.stack.current.slots.length)) i
    rw [enter_next] at hcount hadd
    show (Stmt.gatherAll _ _ refused ++ stmt.gather _ _).count i + (takenIds taken).count i
      = _ + handedOut p₁.maker.next (q.maker.next + 2 * q.stack.current.slots.length) i
    rw [List.count_append, hadd]
    unfold takenIds
    omega

/-- An inner statement: its declarations go in front of it. -/
theorem inner_numbers {d : Decorated} {s : Stmt} (hkind : p.stack.current.kind ≠ .block)
    (h : ∃ taken, NumbersStmt p p₁ taken src d.ids) (hclose : d.close p₁ = .ok s p') :
    Numbers p p' src (s.gather Stmt.ownId Expr.ownId) := by
  obtain ⟨taken, h⟩ := h
  exact (h.close hclose).numbers hkind

/-- Statements of a block: in the end the enclosing frames are as they were,
and everything the block accepted is on the output. -/
structure NumbersBlock (p p' : Pass) (src out : List NodeId) : Prop where
  stack : p'.stack.enclosing = p.stack.enclosing
  size : p.maker.next ≤ p'.maker.next
  count : ∀ i, out.count i = src.count i + handedOut p.maker.next p'.maker.next i

/-- One statement of a block, after what it made the block accept, before the rest. -/
theorem NumbersStmt.block_cons {src' rest : List NodeId} (h : NumbersStmt p p₁ taken src out)
    (hwaiting : p.stack.current.hoisted = []) (hrest : NumbersBlock p₁.emit p' src' rest) :
    NumbersBlock p p' (src ++ src')
      (Stmt.gatherAll Stmt.ownId Expr.ownId p₁.stack.current.hoisted ++ (out ++ rest)) := by
  have hsize : p₁.maker.next ≤ p'.maker.next := hrest.size
  have htaken : p₁.stack.current.hoisted = taken.map Prod.snd := by
    rw [h.stack]
    show p.stack.current.hoisted ++ _ = _
    rw [hwaiting, List.nil_append]
  refine ⟨?_, Nat.le_trans h.size hsize, ?_⟩
  · rw [hrest.stack]
    show p₁.stack.enclosing = p.stack.enclosing
    rw [h.stack]
    rfl
  · intro i
    have hcount := h.count i
    have hmore : rest.count i = src'.count i + handedOut p₁.maker.next p'.maker.next i := hrest.count i
    have hadd := handedOut_add h.size hsize i
    simp only [List.count_append, htaken]
    unfold takenIds at hcount
    omega

end

/-- A frame that is no block is none later. -/
theorem kind_of_stack {kind : FrameKind} {bindings : List BindingId} (hkind : kind ≠ .block)
    (h : p'.stack = (p.enter kind bindings).stack) : p'.stack.current.kind ≠ .block := by
  rw [h]
  exact hkind

/-- The parts of a for-loop as they are lowered and as they are walked. -/
theorem perm_for (start cond step body : List NodeId) :
    (start ++ (cond ++ step ++ body)).Perm (cond ++ (step ++ (start ++ body))) := by
  rw [← List.append_assoc start, ← List.append_assoc cond, ← List.append_assoc (cond ++ step)]
  exact List.perm_append_comm.append_right body

mutual
/-- **A statement with its declarations**: it keeps its id. -/
theorem lowerParts_numbers : ∀ (s : Stmt) {d : Decorated} {p p' : Pass},
    lowerParts rules s p = .ok d p' →
      ∃ taken, NumbersStmt p p' taken (s.gather Stmt.ownId Expr.ownPlainId) d.ids
  | .expr i e, d, p, p', h => by
      obtain ⟨x, hx, rfl⟩ := bind_pure_eq_ok.mp h
      rw [Stmt.gather_expr, Decorated.ids, Stmt.gather_expr]
      exact ⟨[], ((lowerExpr_numbers e hx).cons i.id).stmt⟩
  | .decl i v e, d, p, p', h => by
      obtain ⟨x, hx, rfl⟩ := bind_pure_eq_ok.mp h
      rw [Stmt.gather_decl, Decorated.ids, Stmt.gather_decl]
      exact ⟨[], ((lowerExpr?_numbers e hx).cons i.id).stmt⟩
  | .ret i e, d, p, p', h => by
      obtain ⟨x, hx, rfl⟩ := bind_pure_eq_ok.mp h
      rw [Stmt.gather_ret, Decorated.ids, Stmt.gather_ret]
      exact ⟨[], ((lowerExpr?_numbers e hx).cons i.id).stmt⟩
  | .brk i l, d, p, p', h => by
      obtain ⟨rfl, rfl⟩ := pure_eq_ok.mp h
      exact ⟨[], (Numbers.refl p' [i.id]).stmt⟩
  | .cont i l, d, p, p', h => by
      obtain ⟨rfl, rfl⟩ := pure_eq_ok.mp h
      exact ⟨[], (Numbers.refl p' [i.id]).stmt⟩
  | .block i ss, d, p, p', h => by
      obtain ⟨out, q, hout, rfl, rfl⟩ := lowerParts_block_eq_ok h
      have hblock := lowerBlock_numbers ss rfl hout
      have hnumbers : Numbers p { q with stack := q.stack.pop }
          (Stmt.gatherAll Stmt.ownId Expr.ownPlainId ss) (Stmt.gatherAll Stmt.ownId Expr.ownId out) := by
        refine ⟨?_, hblock.size, hblock.count⟩
        show q.stack.pop = p.stack
        unfold Stack.pop
        rw [hblock.stack]
        rfl
      rw [Stmt.gather_block, Decorated.ids, Stmt.gather_block]
      exact ⟨[], (hnumbers.cons i.id).stmt⟩
  | .ifElse i c y z, d, p, p', h => by
      obtain ⟨bs, p₁, x, q₁, dy, q₂, y', q₃, z', q₄, q, hask, hx, hy, hclose, hz, hdec, rfl⟩ :=
        lowerParts_ifElse_eq_ok h
      have hc := lowerExpr_numbers c hx
      have hyes := inner_numbers (kind_of_stack (by decide) hc.stack) (lowerParts_numbers y hy) hclose
      have hno := lowerStmt?_numbers z
        (kind_of_stack (by decide) (hyes.stack.trans hc.stack)) hz
      refine Numbers.framedStmt bs (asking_same hask) ?_ hdec
      rw [Stmt.gather_ifElse, Stmt.gather_ifElse]
      exact (hc.seq (hyes.seq hno)).cons i.id
  | .whileDo i c b, d, p, p', h => by
      obtain ⟨bs, p₁, x, q₁, db, q₂, b', q₃, q, hask, hx, hb, hclose, hdec, rfl⟩ :=
        lowerParts_whileDo_eq_ok h
      have hc := lowerExpr_numbers c hx
      have hbody := inner_numbers (kind_of_stack (by decide) hc.stack) (lowerParts_numbers b hb) hclose
      refine Numbers.framedStmt bs (asking_same hask) ?_ hdec
      rw [Stmt.gather_whileDo, Stmt.gather_whileDo]
      exact (hc.seq hbody).cons i.id
  | .doWhile i b c, d, p, p', h => by
      obtain ⟨bs, p₁, db, q₁, b', q₂, x, q₃, q, hask, hb, hclose, hx, hdec, rfl⟩ :=
        lowerParts_doWhile_eq_ok h
      have hbody := inner_numbers (kind_of_stack (by decide) rfl) (lowerParts_numbers b hb) hclose
      have hc := lowerExpr_numbers c hx
      -- the body is lowered first, and the condition is walked first
      refine Numbers.framedStmt bs (asking_same hask) ?_ hdec
      rw [Stmt.gather_doWhile, Stmt.gather_doWhile]
      exact ((hbody.seq hc).perm List.perm_append_comm List.perm_append_comm).cons i.id
  | .forDo i ss c es b, d, p, p', h => by
      obtain ⟨bs, p₁, ss', q₁, c', q₂, es', q₃, db, q₄, b', q₅, q, hask, hss, hc, hes, hb, hclose,
        hdec, rfl⟩ := lowerParts_forDo_eq_ok h
      have hstart := lowerStmts_numbers ss (kind_of_stack (by decide) rfl) hss
      have hcond := lowerExpr?_numbers c hc
      have hstep := lowerExprs_numbers es hes
      have hbody := inner_numbers
        (kind_of_stack (by decide) (hstep.stack.trans (hcond.stack.trans hstart.stack)))
        (lowerParts_numbers b hb) hclose
      -- the start is lowered first, and condition and step are walked first
      refine Numbers.framedStmt bs (condFacts?_same hask) ?_ hdec
      rw [Stmt.gather_forDo, Stmt.gather_forDo]
      exact ((hstart.seq ((hcond.seq hstep).seq hbody)).perm (perm_for _ _ _ _) (perm_for _ _ _ _)).cons i.id
  | .labeled i l b, d, p, p', h => by
      obtain ⟨db, hb, rfl⟩ := bind_pure_eq_ok.mp h
      obtain ⟨taken, hbody⟩ := lowerParts_numbers b hb
      refine ⟨taken, ?_⟩
      rw [Stmt.gather_labeled, Decorated.ids, Stmt.gather_labeled]
      exact (hbody.cons i.id).perm .rfl List.perm_middle.symm
/-- **The statements of a block.** -/
theorem lowerBlock_numbers : ∀ (ss : List Stmt) {out : List Stmt} {p p' : Pass},
    p.stack.current.hoisted = [] → lowerBlock rules ss p = .ok out p' →
      NumbersBlock p p' (Stmt.gatherAll Stmt.ownId Expr.ownPlainId ss)
        (Stmt.gatherAll Stmt.ownId Expr.ownId out)
  | [], out, p, p', hwaiting, h => by
      obtain ⟨rfl, rfl⟩ := pure_eq_ok.mp h
      exact ⟨rfl, Nat.le_refl _, (Numbers.refl p' []).count⟩
  | s :: ss, out, p, p', hwaiting, h => by
      obtain ⟨d, p₁, lowered, p₂, rest, hd, hclose, hrest, rfl⟩ := lowerBlock_cons_eq_ok h
      obtain ⟨taken, hs⟩ := lowerParts_numbers s hd
      rw [Stmt.gatherAll_append, Stmt.gatherAll_cons, Stmt.gatherAll_cons]
      exact (hs.close hclose).block_cons hwaiting (lowerBlock_numbers ss rfl hrest)
/-- **Statements outside of a block.** -/
theorem lowerStmts_numbers : ∀ (ss : List Stmt) {out : List Stmt} {p p' : Pass},
    p.stack.current.kind ≠ .block → lowerStmts rules ss p = .ok out p' →
      Numbers p p' (Stmt.gatherAll Stmt.ownId Expr.ownPlainId ss)
        (Stmt.gatherAll Stmt.ownId Expr.ownId out)
  | [], out, p, p', hkind, h => by
      obtain ⟨rfl, rfl⟩ := pure_eq_ok.mp h
      exact .refl p' []
  | s :: ss, out, p, p', hkind, h => by
      obtain ⟨d, p₁, lowered, p₂, rest, hd, hclose, hrest, rfl⟩ := lowerStmts_cons_eq_ok h
      have hs := inner_numbers hkind (lowerParts_numbers s hd) hclose
      rw [Stmt.gatherAll_cons, Stmt.gatherAll_cons]
      exact hs.seq (lowerStmts_numbers ss (by rw [hs.stack]; exact hkind) hrest)
theorem lowerStmt?_numbers : ∀ (s : Option Stmt) {out : Option Stmt} {p p' : Pass},
    p.stack.current.kind ≠ .block → lowerStmt? rules s p = .ok out p' →
      Numbers p p' (Stmt.gatherOpt Stmt.ownId Expr.ownPlainId s)
        (Stmt.gatherOpt Stmt.ownId Expr.ownId out)
  | none, out, p, p', hkind, h => by
      obtain ⟨rfl, rfl⟩ := pure_eq_ok.mp h
      exact .refl p' []
  | some s, out, p, p', hkind, h => by
      obtain ⟨d, p₁, lowered, hd, hclose, rfl⟩ := lowerStmt?_some_eq_ok h
      exact inner_numbers hkind (lowerParts_numbers s hd) hclose
end

/-! ## §5. Classes. -/

/-- The same of methods one after the other. -/
theorem lowerMethods_numbers : ∀ (ms : List Method) {out : List Method} {p p' : Pass},
    p.stack.current.kind ≠ .block → lowerMethods rules ms p = .ok out p' →
      Numbers p p' (ms.flatMap (·.plainIds)) (out.flatMap (·.ids))
  | [], out, p, p', hkind, h => by
      obtain ⟨rfl, rfl⟩ := pure_eq_ok.mp h
      exact .refl p' []
  | m :: ms, out, p, p', hkind, h => by
      obtain ⟨m', p₁, rest, hm, hrest, rfl⟩ := bind_bind_pure_eq_ok.mp h
      obtain ⟨body, hbody, rfl⟩ := bind_pure_eq_ok.mp hm
      have hbody := (lowerStmt?_numbers m.body hkind hbody).cons m.id
      rw [List.flatMap_cons, List.flatMap_cons]
      exact hbody.seq (lowerMethods_numbers ms (by rw [hbody.stack]; exact hkind) hrest)

/-- A class made of another by numbering nodes from `firstId` on. -/
def NumberedAs (c c' : Class) : Prop :=
  ∃ m, ∀ i, c'.ids.count i = c.plainIds.count i + handedOut firstId m i

/-- **A class is numbered from the first id on.** -/
theorem lowerClass_ids {c c' : Class} {s : Symbols} (h : lowerClass rules c (.start s) = .ok c' p') :
    NumberedAs c c' := by
  obtain ⟨methods, hmethods, rfl⟩ := bind_pure_eq_ok.mp h
  have hroot : (Pass.start s).stack.current.kind ≠ .block := by
    intro hkind
    injection hkind
  exact ⟨_, ((lowerMethods_numbers c.methods hroot hmethods).cons c.id).count⟩

/-- So is each class, each from the first id again. -/
theorem lowerClasses_ids : ∀ (cs : List Class) (s : Symbols),
    (lowerClasses rules cs s).error = none →
      List.Forall₂ NumberedAs cs ((lowerClasses rules cs s).done.map Prod.fst)
  | [], _, _ => .nil
  | c :: cs, s, h => by
      unfold lowerClasses at h ⊢
      cases hc : lowerClass rules c (Pass.start s) with
      | error e q =>
          rw [hc] at h
          injection h
      | ok c' q =>
          rw [hc] at h
          exact .cons (lowerClass_ids hc) (lowerClasses_ids cs q.symbols h)

end Lowering

/-! ## §6. Programs. -/

theorem sublist_flatMap {α β : Type} {f g : α → List β} (h : ∀ x, (f x).Sublist (g x)) :
    ∀ l : List α, (l.flatMap f).Sublist (l.flatMap g)
  | [] => .slnil
  | x :: l => by
      rw [List.flatMap_cons, List.flatMap_cons]
      exact (h x).append (sublist_flatMap h l)

/-- The ids without those of patterns are among the ids of a node. -/
theorem Expr.ownPlainId_sublist (e : Expr) : e.ownPlainId.Sublist e.ownId := by
  unfold ownPlainId
  split
  · exact List.nil_sublist _
  · exact .refl _

/-- And among those of a method. -/
theorem Method.plainIds_sublist (m : Method) : m.plainIds.Sublist m.ids := by
  refine .cons_cons _ (sublist_flatMap (fun t => ?_) (Stmt.walkOpt m.body))
  exact .append_left (sublist_flatMap Expr.ownPlainId_sublist (Expr.walkAll t.ownExprs)) t.ownId

/-- And among those of a class. -/
theorem Class.plainIds_sublist (c : Class) : c.plainIds.Sublist c.ids :=
  .cons_cons _ (sublist_flatMap Method.plainIds_sublist c.methods)

/-- Whether the pass made nodes of the class. -/
def Class.Made (c : Class) : Prop := ∃ i ∈ c.ids, Lowering.firstId ≤ i

namespace Lowering

namespace NumberedAs

variable {c c' : Class}

/-- An id below the numbers of the pass is one of the source. -/
theorem mem_of_lt (h : NumberedAs c c') {i : NodeId} (hi : i ∈ c'.ids) (hlt : i < firstId) :
    i ∈ c.ids := by
  obtain ⟨m, hcount⟩ := h
  refine c.plainIds_sublist.subset (List.count_pos_iff.mp ?_)
  have hpos := List.count_pos_iff.mpr hi
  rwa [hcount, handedOut_of_lt m hlt, Nat.add_zero] at hpos

/-- A class whose ids are all below the first one made has none of those made. -/
theorem count_plainIds (hlt : ∀ i ∈ c.ids, i < firstId) {i : NodeId} (hi : firstId ≤ i) :
    c.plainIds.count i = 0 :=
  List.count_eq_zero.mpr fun hmem => Nat.not_lt_of_le hi (hlt i (c.plainIds_sublist.subset hmem))

/-- Where nodes were made, one has the first number. -/
theorem firstId_mem (h : NumberedAs c c') (hlt : ∀ i ∈ c.ids, i < firstId) (hmade : c'.Made) :
    firstId ∈ c'.ids := by
  obtain ⟨m, hcount⟩ := h
  obtain ⟨i, hi, hle⟩ := hmade
  have hpos := List.count_pos_iff.mpr hi
  rw [hcount, count_plainIds hlt hle, Nat.zero_add, handedOut_pos_iff] at hpos
  refine List.count_pos_iff.mp ?_
  rw [hcount]
  exact Nat.add_pos_right _ (handedOut_pos_iff.mpr ⟨Nat.le_refl _, Nat.lt_of_le_of_lt hle hpos.2⟩)

/-- The ids of one class stay distinct. -/
theorem nodup (h : NumberedAs c c') (hnodup : c.ids.Nodup) (hlt : ∀ i ∈ c.ids, i < firstId) :
    c'.ids.Nodup := by
  obtain ⟨m, hcount⟩ := h
  refine List.nodup_iff_count_le_one.mpr fun i => ?_
  rw [hcount]
  rcases Nat.lt_or_ge i firstId with hi | hi
  · rw [handedOut_of_lt m hi]
    exact List.nodup_iff_count_le_one.mp (hnodup.sublist c.plainIds_sublist) i
  · rw [count_plainIds hlt hi, Nat.zero_add]
    exact handedOut_le_one firstId m i

/-- The ids of two classes are distinct, unless nodes were made of both. -/
theorem disjoint_iff {d d' : Class} (hc : NumberedAs c c') (hd : NumberedAs d d')
    (hdisjoint : List.Disjoint c.ids d.ids) (hltc : ∀ i ∈ c.ids, i < firstId)
    (hltd : ∀ i ∈ d.ids, i < firstId) : List.Disjoint c'.ids d'.ids ↔ ¬ (c'.Made ∧ d'.Made) := by
  constructor
  · rintro h ⟨hmadec, hmaded⟩
    exact h (hc.firstId_mem hltc hmadec) (hd.firstId_mem hltd hmaded)
  · intro h i hic hid
    by_cases hi : i < firstId
    · exact hdisjoint (hc.mem_of_lt hic hi) (hd.mem_of_lt hid hi)
    · exact h ⟨⟨i, hic, Nat.le_of_not_lt hi⟩, ⟨i, hid, Nat.le_of_not_lt hi⟩⟩

end NumberedAs

/-- Classes numbered each on its own: all their ids are distinct just if nodes
were made of one of them at most. -/
theorem nodup_iff {cs cs' : List Class} (h : List.Forall₂ NumberedAs cs cs')
    (hnodup : (cs.flatMap (·.ids)).Nodup) (hlt : ∀ i ∈ cs.flatMap (·.ids), i < firstId) :
    (cs'.flatMap (·.ids)).Nodup ↔ cs'.Pairwise fun c d => ¬ (c.Made ∧ d.Made) := by
  induction h with
  | nil => simp
  | @cons c c' cs cs' hc hcs ih =>
      simp only [List.flatMap_cons, List.mem_append, or_imp, forall_and] at hlt
      rw [List.flatMap_cons, List.nodup_append'] at hnodup
      obtain ⟨hone, hrest, hdisjoint⟩ := hnodup
      rw [List.flatMap_cons, List.nodup_append', List.pairwise_cons, ih hrest hlt.2]
      have hall : List.Disjoint c'.ids (cs'.flatMap (·.ids)) ↔ ∀ d' ∈ cs', ¬ (c'.Made ∧ d'.Made) := by
        have hflat : List.Disjoint c'.ids (cs'.flatMap (·.ids))
            ↔ ∀ d' ∈ cs', List.Disjoint c'.ids d'.ids := by
          simp only [List.Disjoint, List.mem_flatMap]
          refine ⟨fun h d' hd' i hi hid => h hi ⟨d', hd', hid⟩, ?_⟩
          rintro h i hi ⟨d', hd', hid⟩
          exact h d' hd' hi hid
        rw [hflat]
        refine forall₂_congr fun d' hd' => ?_
        obtain ⟨d, hd, hnumbered⟩ := exists_of_forall₂ hcs.flip hd'
        have hsub : d.ids ⊆ cs.flatMap (·.ids) := fun i hi => List.mem_flatMap.mpr ⟨d, hd, hi⟩
        exact hc.disjoint_iff hnumbered (fun i hic hid => hdisjoint hic (hsub hid)) hlt.1 fun i hi => hlt.2 i (hsub hi)
      rw [hall]
      exact ⟨fun h => ⟨h.2.2, h.2.1⟩, fun h => ⟨hc.nodup hone hlt.1, h.2, h.1⟩⟩

/-- **Distinct ids.**  If the ids of a program are distinct and below those the
pass hands out, then those of every lowered class are distinct, and those of
the whole lowered program are just if the pass made nodes of one class at most. -/
theorem lower_ids_nodup_iff {flow : Oracle} {prog prog' : Program} (hnodup : prog.ids.Nodup)
    (hlt : ∀ i ∈ prog.ids, i < firstId) (h : prog.lower flow = .ok prog') :
    (∀ c ∈ prog'.classes, c.ids.Nodup)
      ∧ (prog'.ids.Nodup ↔ prog'.classes.Pairwise fun c d => ¬ (c.Made ∧ d.Made)) := by
  obtain ⟨herror, rfl⟩ := lower_eq_ok h
  have hnumbered := lowerClasses_ids prog.classes prog.symbols herror
  refine ⟨?_, nodup_iff hnumbered hnodup hlt⟩
  intro c' hc'
  obtain ⟨c, hc, hcc⟩ := exists_of_forall₂ hnumbered.flip hc'
  have hsub : c.ids.Sublist prog.ids := List.sublist_flatten_of_mem (List.mem_map_of_mem hc)
  exact NumberedAs.nodup hcc (hnodup.sublist hsub) fun i hi => hlt i (hsub.subset hi)

namespace Tested

/-- For each of two classes a parameter `o` and a binding `s`. -/
def symbols : Symbols :=
  ⟨#[⟨⟨0⟩, "o", .object, none, false⟩, ⟨⟨1⟩, "o", .object, none, false⟩],
    #[⟨⟨0⟩, "s", .simple "String", none, false, []⟩, ⟨⟨1⟩, "s", .simple "String", none, false, []⟩]⟩

/-- A class whose only method is `void m(Object o) { o instanceof String s; }`. -/
def tested (name : String) (first : NodeId) (k : Nat) : Class :=
  ⟨first + 5, name, none, [], [⟨first + 4, "m", [⟨k⟩], .void,
    some (.block ⟨first + 3, .nowhere⟩ [.expr ⟨first + 2, .nowhere⟩
      (.typeTest ⟨first + 1, .boolean, .nowhere⟩ (.ident ⟨first, .object, .nowhere⟩ (.var ⟨k⟩))
        ⟨⟨k⟩, some (.simple "String")⟩)]), .nowhere⟩], .nowhere⟩

/-- One class with a type test. -/
def single : Program := ⟨[tested "A" 0 0], symbols⟩

/-- Two classes with a type test each; their own ids are apart. -/
def program : Program := ⟨[tested "A" 0 0, tested "B" 10 1], symbols⟩

end Tested

/-- The pass makes nodes of the only class, and all ids are distinct. -/
theorem lower_ids_nodup_single :
    Tested.single.ids.Nodup ∧ (∀ i ∈ Tested.single.ids, i < firstId)
      ∧ ∃ prog', Tested.single.lower Flow.matchBindings = .ok prog'
        ∧ (∃ c ∈ prog'.classes, c.Made) ∧ prog'.ids.Nodup := by
  have hnodup : Tested.single.ids.Nodup := by decide
  have hlt : ∀ i ∈ Tested.single.ids, i < firstId := by decide
  obtain ⟨prog', h⟩ := exists_of_isOk
    (by decide +kernel : (Tested.single.lower Flow.matchBindings).isOk = true)
  obtain ⟨-, hiff⟩ := lower_ids_nodup_iff hnodup hlt h
  obtain ⟨⟨c, hclasses⟩, hall⟩ :
      (∃ c, prog'.classes = [c]) ∧ ∀ c ∈ prog'.classes, firstId ∈ c.ids := by
    have hmade : (Tested.single.lower Flow.matchBindings).toOption.all
        (fun p => p.classes.length = 1 && p.classes.all (firstId ∈ ·.ids)) = true := by decide +kernel
    rw [h] at hmade
    simpa [Except.toOption, List.length_eq_one_iff] using hmade
  have hc : c ∈ prog'.classes := by
    rw [hclasses]
    exact List.mem_singleton_self c
  refine ⟨hnodup, hlt, prog', h, ⟨c, hc, firstId, hall c hc, Nat.le_refl _⟩, ?_⟩
  · rw [hiff, hclasses]
    exact List.pairwise_singleton _ c

/-- Two classes with a type test each: the nodes that the pass makes of them
have the same ids. -/
theorem lower_ids_repeated :
    Tested.program.ids.Nodup ∧ (∀ i ∈ Tested.program.ids, i < firstId)
      ∧ ∃ prog', Tested.program.lower Flow.matchBindings = .ok prog' ∧ ¬ prog'.ids.Nodup := by
  refine ⟨by decide, by decide, ?_⟩
  obtain ⟨prog', h⟩ := exists_of_isOk
    (by decide +kernel : (Tested.program.lower Flow.matchBindings).isOk = true)
  have hrepeated : (Tested.program.lower Flow.matchBindings).toOption.all
      (fun p => ¬ p.ids.Nodup) = true := by decide +kernel
  rw [h] at hrepeated
  exact ⟨prog', h, by simpa [Except.toOption] using hrepeated⟩

end Lowering

end PatternIR
