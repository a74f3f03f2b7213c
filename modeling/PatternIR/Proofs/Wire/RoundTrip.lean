/-
  PatternIR.Proofs.Wire.RoundTrip
  ───────────────────────────────
  **A WRITTEN PROGRAM IS READ BACK.**

  The JSON form of a program has all of it, and its readers take their parts in
  the order in which they were written.  Three things can go wrong with a text
  that was written, and nothing else:

    • brackets nest too deeply to be read;
    • an id does not fit 32 bits, or a position 64;
    • a floating-point constant is not kept by the library.

  The last two are about single numbers and constants.  They are listed, and
  each is a question of its own.

    • `Scalar.ReadsBack` — a number that fits, or a constant that is kept;
    • `Program.scalars` — all of them in a program;
    • `Wire.reads_expr`, `Wire.reads_stmt` — trees, by their constructors;
    • `JsonLibrary.program?_compact`, `JsonLibrary.program?_pretty` — the program
      comes back, or brackets nest too deeply.
-/
import PatternIR.Proofs.Gather
import PatternIR.Proofs.Wire.Readers
import PatternIR.Wire.Decode
import PatternIR.Wire.Encode

namespace PatternIR

/-! ## §1. Numbers and constants. -/

/-- A constant that has no floating point. -/
def Literal.isExact : Literal → Bool
  | .float _ | .double _ => false
  | .bool _ | .int _ | .long _ | .char _ | .string _ | .null => true

namespace JsonLibrary

variable {lib : JsonLibrary}

instance (x : Single) : Decidable (lib.KeepsSingle x) :=
  match h : lib.draft (.single x) with
  | .number k => decidable_of_iff (lib.single k = .ok x)
    ⟨fun hk => ⟨k, h, hk⟩, fun ⟨k', hk, hx⟩ => by
      obtain rfl := Draft.number.inj (h.symm.trans hk)
      exact hx⟩
  | .null | .bool _ | .string _ | .array _ _ | .object _ _ | .cut _ _ _ =>
    isFalse fun ⟨_, hk, _⟩ => nomatch h.symm.trans hk

instance (x : Double) : Decidable (lib.KeepsDouble x) :=
  match h : lib.draft (.double x) with
  | .number k => decidable_of_iff (lib.double k = .ok x)
    ⟨fun hk => ⟨k, h, hk⟩, fun ⟨k', hk, hx⟩ => by
      obtain rfl := Draft.number.inj (h.symm.trans hk)
      exact hx⟩
  | .null | .bool _ | .string _ | .array _ _ | .object _ _ | .cut _ _ _ =>
    isFalse fun ⟨_, hk, _⟩ => nomatch h.symm.trans hk

/-- A constant that the library reads back; any is that has no floating point. -/
def Keeps (lib : JsonLibrary) : Literal → Prop
  | .float x => lib.KeepsSingle x
  | .double x => lib.KeepsDouble x
  | .bool _ | .int _ | .long _ | .char _ | .string _ | .null => True

instance : DecidablePred lib.Keeps := fun v => by
  cases v <;> unfold Keeps <;> infer_instance

/-- A constant that has no floating point is kept by any library. -/
theorem keeps_of_isExact {v : Literal} (h : v.isExact = true) : lib.Keeps v := by
  cases v with
  | float x => exact absurd h Bool.false_ne_true
  | double x => exact absurd h Bool.false_ne_true
  | bool _ | int _ | long _ | char _ | string _ | null => trivial

end JsonLibrary

/-- A constant that is neither infinite nor a NaN. -/
def Literal.IsFinite : Literal → Prop
  | .float x => x.isFinite = true
  | .double x => x.isFinite = true
  | .bool _ | .int _ | .long _ | .char _ | .string _ | .null => True

instance : DecidablePred Literal.IsFinite
  | .float x => instDecidableEqBool x.isFinite true
  | .double x => instDecidableEqBool x.isFinite true
  | .bool _ | .int _ | .long _ | .char _ | .string _ | .null => isTrue trivial

/-- A number or a constant in a tree. -/
inductive Scalar where
  /-- The number of a node, or a place in a table. -/
  | id (n : Nat)
  /-- A place in the source text. -/
  | position (n : Nat)
  | literal (v : Literal)

/-- An id has 32 bits, a position 64, and the library keeps a constant. -/
def Scalar.ReadsBack (lib : JsonLibrary) : Scalar → Prop
  | .id n => n < UInt32.size
  | .position n => n < UInt64.size
  | .literal v => lib.Keeps v

/-- Where it starts and where it stops. -/
def Span.scalars (s : Span) : List Scalar := [.position s.start, .position s.stop]

/-- The id of a node and its place; its type is written without numbers. -/
def ExprInfo.scalars (i : ExprInfo) : List Scalar := .id i.id :: i.span.scalars

/-- The id of a node and its place. -/
def StmtInfo.scalars (i : StmtInfo) : List Scalar := .id i.id :: i.span.scalars

/-- The place in the table, whichever of the two it is. -/
def Sym.index : Sym → Nat
  | .var v => v.index
  | .binding b => b.index

namespace Expr

/-- The numbers and constants in a node itself. -/
def ownScalars : Expr → List Scalar
  | literal i v => .literal v :: i.scalars
  | ident i sym => .id sym.index :: i.scalars
  | typeTest i _ pattern => .id pattern.binding.index :: i.scalars
  | letIn i defs _ => defs.map (fun d => .id d.1.index) ++ i.scalars
  | e => e.info.scalars

/-- The numbers and constants in a tree. -/
def scalars (e : Expr) : List Scalar := e.gather ownScalars

end Expr

namespace Stmt

/-- The numbers in a node itself; constants are in the expressions below. -/
def ownScalars : Stmt → List Scalar
  | decl i v _ => .id v.index :: i.scalars
  | s => s.info.scalars

/-- The numbers and constants in a statement and its expressions. -/
def scalars (s : Stmt) : List Scalar := s.gather ownScalars Expr.ownScalars

end Stmt

/-- The numbers and constants in a method. -/
def Method.scalars (m : Method) : List Scalar :=
  .id m.id :: m.params.map (fun v => .id v.index) ++ m.span.scalars
    ++ Stmt.gatherOpt Stmt.ownScalars Expr.ownScalars m.body

/-- The numbers and constants in a class. -/
def Class.scalars (c : Class) : List Scalar :=
  .id c.id :: c.span.scalars ++ c.methods.flatMap (·.scalars)

/-- The ids in an entry for a binding. -/
def BindingSymbol.scalars (b : BindingSymbol) : List Scalar :=
  .id b.id.index :: b.components.map fun c => .id c.index

/-- The ids in the table. -/
def Symbols.scalars (s : Symbols) : List Scalar :=
  s.vars.toList.map (fun v => .id v.id.index) ++ s.bindings.toList.flatMap (·.scalars)

/-- All numbers and constants in a program. -/
def Program.scalars (p : Program) : List Scalar :=
  p.classes.flatMap (·.scalars) ++ p.symbols.scalars

namespace Wire

open Reader (Reads Present reads_full reads_full_succ reads_plain reads_list reads_option reads_string
  reads_bool reads_nat32 reads_nat64 present_object present_string)
open Reader.Record (field takes_cons takes_one isField isField_optional isField_fieldOr)

-- The linter does not see what one theorem of a mutual block uses through another.
set_option linter.unusedSectionVars false

variable {lib : JsonLibrary} [lib.Lawful] {n : Nat}

/-! ## §2. Types and symbols. -/

/-- A primitive type under its name. -/
theorem reads_prim (kind : Prim) : Reads lib n (oneOf prims) (.string (primTag kind)) kind :=
  reads_plain (by cases kind <;> rfl)

theorem ofTys_eq (ts : List Ty) : ofTys ts = ts.map ofTy := by
  induction ts with
  | nil => rw [ofTys, List.map_nil]
  | cons t ts ih => rw [ofTys, ih, List.map_cons]

mutual
/-- A type, with a step of the fuel for each bracket. -/
theorem reads_ty : ∀ (t : Ty) (n : Nat), Reads lib n (toTy n) (ofTy t) t
  | _, 0 => fun _ hroom => absurd hroom (Nat.not_lt_zero _)
  | .prim kind, n + 1 => by
      rw [ofTy, toTy]
      exact reads_full_succ rfl rfl ((reads_prim kind).map Ty.prim)
  | .named name args, n + 1 => by
      have hargs := reads_list (reads_tys args n)
      rw [ofTy, toTy, ofTys_eq]
      exact reads_full_succ rfl rfl <| (takes_cons (isField _ _) (by simp) (reads_string name) <|
        takes_one (isField _ _) hargs).objectAs _
  | .array t, n + 1 => by
      rw [ofTy, toTy]
      exact reads_full_succ rfl rfl ((reads_ty t n).map Ty.array)
  | .null, n + 1 => by
      rw [ofTy, toTy]
      exact reads_plain rfl
  | .void, n + 1 => by
      rw [ofTy, toTy]
      exact reads_plain rfl
/-- The arguments of a type. -/
theorem reads_tys : ∀ (ts : List Ty) (n : Nat), ∀ t ∈ ts, Reads lib n (toTy n) (ofTy t) t
  | [], _ => List.forall_mem_nil _
  | t :: ts, n => List.forall_mem_cons.mpr ⟨reads_ty t n, reads_tys ts n⟩
end

/-- A type, with fuel for however deep it nests. -/
theorem reads_type (t : Ty) (hn : n ≤ enough lib) : Reads lib n toType (ofTy t) t := (reads_ty t (enough lib)).mono hn

/-- A type is not taken for a missing one. -/
theorem present_ty (t : Ty) : Present lib toType (ofTy t) := by
  cases t <;> rw [ofTy]
  all_goals first | exact present_object _ | exact present_string _

/-- A variable whose number has 32 bits. -/
theorem reads_varId {v : VarId} (h : v.index < UInt32.size) : Reads lib n toVarId (ofVarId v) v :=
  (reads_nat32 h).map VarId.mk

/-- A binding whose number has 32 bits. -/
theorem reads_bindingId {b : BindingId} (h : b.index < UInt32.size) :
    Reads lib n toBindingId (ofBindingId b) b :=
  (reads_nat32 h).map BindingId.mk

/-- What an identifier refers to. -/
theorem reads_sym : ∀ {sym : Sym}, sym.index < UInt32.size → Reads lib n toSym (ofSym sym) sym
  | .var _, h => reads_full rfl rfl ((reads_varId h).map Sym.var)
  | .binding _, h => reads_full rfl rfl ((reads_bindingId h).map Sym.binding)

/-- A name, or none. -/
theorem reads_name (s : Option String) : Reads lib n (Reader.option Reader.string) (.option .string s) s :=
  reads_option (fun s _ => present_string s) fun s _ => reads_string s

/-- An entry for a variable. -/
theorem reads_varSymbol {v : VarSymbol} (hv : v.id.index < UInt32.size) (hn : n ≤ enough lib) :
    Reads lib n toVarSymbol (ofVarSymbol v) v :=
  (takes_cons (isField _ _) (by simp) (reads_varId hv) <|
    takes_cons (isField _ _) (by simp) (reads_string v.name) <|
    takes_cons (isField _ _) (by simp) (reads_type v.ty hn) <|
    takes_cons (isField_optional _ _) (by simp) (reads_name v.owner) <|
    takes_one (isField _ _) (reads_bool v.synthetic)).objectAs _

/-- An entry for a binding, with those it unifies. -/
theorem reads_bindingSymbol {b : BindingSymbol} (hb : ∀ x ∈ b.scalars, x.ReadsBack lib) (hn : n ≤ enough lib) :
    Reads lib n toBindingSymbol (ofBindingSymbol b) b := by
  obtain ⟨hid, hparts⟩ := List.forall_mem_cons.mp hb
  have hcomponents : ∀ c ∈ b.components, Reads lib n toBindingId (ofBindingId c) c :=
    fun c hc => reads_bindingId (hparts (.id c.index) (List.mem_map_of_mem hc))
  exact (takes_cons (isField _ _) (by simp) (reads_bindingId hid) <|
    takes_cons (isField _ _) (by simp) (reads_string b.name) <|
    takes_cons (isField _ _) (by simp) (reads_type b.ty hn) <|
    takes_cons (isField_optional _ _) (by simp) (reads_name b.owner) <|
    takes_cons (isField _ _) (by simp) (reads_bool b.preserved) <|
    takes_one (isField _ _) (reads_list hcomponents)).objectAs _

/-- Both tables. -/
theorem reads_symbols {s : Symbols} (hs : ∀ x ∈ s.scalars, x.ReadsBack lib) (hn : n ≤ enough lib) :
    Reads lib n toSymbols (ofSymbols s) s := by
  obtain ⟨hvars, hbindings⟩ := List.forall_mem_append.mp hs
  have hvars : ∀ v ∈ s.vars.toList, Reads lib n toVarSymbol (ofVarSymbol v) v :=
    fun v hv => reads_varSymbol (hvars (.id v.id.index) (List.mem_map_of_mem hv)) hn
  have hbindings : ∀ b ∈ s.bindings.toList, Reads lib n toBindingSymbol (ofBindingSymbol b) b :=
    fun b hb => reads_bindingSymbol (fun x hx => hbindings x (List.mem_flatMap.mpr ⟨b, hb, hx⟩)) hn
  exact (takes_cons (isField _ _) (by simp) (reads_list hvars) <|
    takes_one (isField _ _) (reads_list hbindings)).objectAs _

/-! ## §3. Expressions. -/

/-- A stretch of the source text. -/
theorem reads_span {s : Span} (hs : ∀ x ∈ s.scalars, x.ReadsBack lib) : Reads lib n toSpan (ofSpan s) s := by
  obtain ⟨hstart, hstop⟩ := List.forall_mem_cons.mp hs
  exact (takes_cons (isField _ _) (by simp) (reads_nat64 hstart) <|
    takes_one (isField _ _) (reads_nat64 (hstop _ (List.mem_singleton.mpr rfl)))).objectAs _

/-- A constant that the library keeps. -/
theorem reads_literal : ∀ {v : Literal}, lib.Keeps v → Reads lib n toLiteral (ofLiteral v) v
  | .bool b, _ => reads_full rfl rfl ((reads_bool b).map Literal.bool)
  | .int i, _ => reads_full rfl rfl ((Reader.reads_int32 i).map Literal.int)
  | .long i, _ => reads_full rfl rfl ((Reader.reads_int64 i).map Literal.long)
  | .float _, h => reads_full rfl rfl ((Reader.reads_single h).map Literal.float)
  | .double _, h => reads_full rfl rfl ((Reader.reads_double h).map Literal.double)
  | .char c, _ => reads_full rfl rfl ((Reader.reads_char c).map Literal.char)
  | .string s, _ => reads_full rfl rfl ((reads_string s).map Literal.string)
  | .null, _ => reads_plain rfl

/-- A node, from the reader of its own part. -/
theorem reads_node {kind : Reader lib (ExprInfo → Expr)} {j : Json} {b : ExprInfo → Expr} {i : ExprInfo}
    (hi : ∀ x ∈ i.scalars, x.ReadsBack lib) (hkind : Reads lib n kind j b) (hn : n ≤ enough lib) :
    Reads lib (n + 1) (((field "id" Reader.nat32).and <| (field "kind" kind).and <|
        (field "ty" toType).and (field "span" toSpan)).readAs
      fun (id, build, ty, span) => build ⟨id, ty, span⟩) (node i j) (b i) := by
  obtain ⟨hid, hspan⟩ := List.forall_mem_cons.mp hi
  exact ((takes_cons (isField _ _) (by simp) (reads_nat32 hid) <|
    takes_cons (isField _ _) (by simp) hkind <|
    takes_cons (isField _ _) (by simp) (reads_type i.ty hn) <|
    takes_one (isField _ _) (reads_span hspan)).map _).object_succ

/-- A pattern, with or without its type. -/
theorem reads_pattern {p : BindingPattern} (hp : p.binding.index < UInt32.size) (hn : n ≤ enough lib) :
    Reads lib n toPattern (ofPattern p) p :=
  (takes_cons (isField _ _) (by simp) (reads_bindingId hp) <|
    takes_one (isField_optional _ _) (reads_option (fun t _ => present_ty t)
      fun t _ => reads_type t hn)).objectAs _

/-- An operator before an operand. -/
theorem reads_unOp (op : UnOp) : Reads lib n (oneOf unOps) (.string (unOpTag op)) op :=
  reads_plain (by cases op <;> rfl)

/-- An operator between two. -/
theorem reads_binOp (op : BinOp) : Reads lib n (oneOf binOps) (.string (binOpTag op)) op :=
  reads_plain (by cases op <;> rfl)

theorem ofExprs_eq (es : List Expr) : ofExprs es = es.map ofExpr := by
  induction es with
  | nil => rw [ofExprs, List.map_nil]
  | cons e es ih => rw [ofExprs, ih, List.map_cons]

/-- A definition of a let-expression. -/
def ofDef (d : VarId × Expr) : Json := .object [("var", ofVarId d.1), ("init", ofExpr d.2)]

theorem ofDefs_eq (ds : List (VarId × Expr)) : ofDefs ds = ds.map ofDef := by
  induction ds with
  | nil => rw [ofDefs, List.map_nil]
  | cons d ds ih => rw [ofDefs, ih, List.map_cons, ofDef]

/-- A definition, from a reader for its value. -/
theorem reads_defn {sub : Reader lib Expr} {d : VarId × Expr} (hv : d.1.index < UInt32.size)
    (he : Reads lib n sub (ofExpr d.2) d.2) :
    Reads lib n ((field "var" toVarId).and (field "init" sub)).read (ofDef d) d :=
  (takes_cons (isField _ _) (by simp) (reads_varId hv) (takes_one (isField _ _) he)).object

mutual
/-- **An expression is read back**, with a step of the fuel for each node. -/
theorem reads_expr : ∀ (e : Expr) (n : Nat), n ≤ enough lib → (∀ x ∈ e.scalars, x.ReadsBack lib) →
    Reads lib n (toExprOf n) (ofExpr e) e
  | _, 0 => fun _ _ _ hroom => absurd hroom (Nat.not_lt_zero _)
  | .literal i v, n + 1 => by
      -- one step of the fuel is for the brackets of the node itself
      intro hn h
      obtain ⟨hv, hi⟩ := List.forall_mem_cons.mp h
      rw [ofExpr, toExprOf]
      exact reads_node (b := fun i => .literal i v) hi
        (reads_full rfl rfl ((reads_literal hv).map _)) (Nat.le_of_succ_le hn)
  | .ident i sym, n + 1 => by
      intro hn h
      obtain ⟨hsym, hi⟩ := List.forall_mem_cons.mp h
      rw [ofExpr, toExprOf]
      exact reads_node (b := fun i => .ident i sym) hi (reads_full rfl rfl ((reads_sym hsym).map _))
        (Nat.le_of_succ_le hn)
  | .unary i op e, n + 1 => by
      intro hn h
      rw [Expr.scalars, Expr.gather_unary] at h
      obtain ⟨hi, he⟩ := List.forall_mem_append.mp h
      have hsub := reads_expr e n (Nat.le_of_succ_le hn) he
      rw [ofExpr, toExprOf]
      exact reads_node (b := fun i => .unary i op e) hi (reads_full rfl rfl <|
        (takes_cons (isField _ _) (by simp) (reads_unOp op) <| takes_one (isField _ _) hsub).objectAs _)
        (Nat.le_of_succ_le hn)
  | .binary i op l r, n + 1 => by
      intro hn h
      rw [Expr.scalars, Expr.gather_binary] at h
      obtain ⟨hi, hparts⟩ := List.forall_mem_append.mp h
      obtain ⟨hl, hr⟩ := List.forall_mem_append.mp hparts
      have hleft := reads_expr l n (Nat.le_of_succ_le hn) hl
      have hright := reads_expr r n (Nat.le_of_succ_le hn) hr
      rw [ofExpr, toExprOf]
      exact reads_node (b := fun i => .binary i op l r) hi (reads_full rfl rfl <|
        (takes_cons (isField _ _) (by simp) (reads_binOp op) <|
          takes_cons (isField _ _) (by simp) hleft <| takes_one (isField _ _) hright).objectAs _)
        (Nat.le_of_succ_le hn)
  | .conditional i c y z, n + 1 => by
      intro hn h
      rw [Expr.scalars, Expr.gather_conditional] at h
      obtain ⟨hi, hparts⟩ := List.forall_mem_append.mp h
      obtain ⟨hc, hparts⟩ := List.forall_mem_append.mp hparts
      obtain ⟨hy, hz⟩ := List.forall_mem_append.mp hparts
      have hcond := reads_expr c n (Nat.le_of_succ_le hn) hc
      have hyes := reads_expr y n (Nat.le_of_succ_le hn) hy
      have hno := reads_expr z n (Nat.le_of_succ_le hn) hz
      rw [ofExpr, toExprOf]
      exact reads_node (b := fun i => .conditional i c y z) hi (reads_full rfl rfl <|
        (takes_cons (isField _ _) (by simp) hcond <| takes_cons (isField _ _) (by simp) hyes <|
          takes_one (isField _ _) hno).objectAs _)
        (Nat.le_of_succ_le hn)
  | .assign i t v, n + 1 => by
      intro hn h
      rw [Expr.scalars, Expr.gather_assign] at h
      obtain ⟨hi, hparts⟩ := List.forall_mem_append.mp h
      obtain ⟨ht, hv⟩ := List.forall_mem_append.mp hparts
      have htarget := reads_expr t n (Nat.le_of_succ_le hn) ht
      have hvalue := reads_expr v n (Nat.le_of_succ_le hn) hv
      rw [ofExpr, toExprOf]
      exact reads_node (b := fun i => .assign i t v) hi (reads_full rfl rfl <|
        (takes_cons (isField _ _) (by simp) htarget <| takes_one (isField _ _) hvalue).objectAs _)
        (Nat.le_of_succ_le hn)
  | .cast i t e, n + 1 => by
      intro hn h
      rw [Expr.scalars, Expr.gather_cast] at h
      obtain ⟨hi, he⟩ := List.forall_mem_append.mp h
      have hsub := reads_expr e n (Nat.le_of_succ_le hn) he
      rw [ofExpr, toExprOf]
      exact reads_node (b := fun i => .cast i t e) hi (reads_full rfl rfl <|
        (takes_cons (isField _ _) (by simp) (reads_type t (Nat.le_of_succ_le hn)) <|
          takes_one (isField _ _) hsub).objectAs _)
        (Nat.le_of_succ_le hn)
  | .instanceOf i e t, n + 1 => by
      intro hn h
      rw [Expr.scalars, Expr.gather_instanceOf] at h
      obtain ⟨hi, he⟩ := List.forall_mem_append.mp h
      have hsub := reads_expr e n (Nat.le_of_succ_le hn) he
      rw [ofExpr, toExprOf]
      exact reads_node (b := fun i => .instanceOf i e t) hi (reads_full rfl rfl <|
        (takes_cons (isField _ _) (by simp) hsub <|
          takes_one (isField _ _) (reads_type t (Nat.le_of_succ_le hn))).objectAs _)
        (Nat.le_of_succ_le hn)
  | .typeTest i e p, n + 1 => by
      intro hn h
      rw [Expr.scalars, Expr.gather_typeTest] at h
      obtain ⟨hown, he⟩ := List.forall_mem_append.mp h
      obtain ⟨hp, hi⟩ := List.forall_mem_cons.mp hown
      have hsub := reads_expr e n (Nat.le_of_succ_le hn) he
      rw [ofExpr, toExprOf]
      exact reads_node (b := fun i => .typeTest i e p) hi (reads_full rfl rfl <|
        (takes_cons (isField _ _) (by simp) hsub <|
          takes_one (isField _ _) (reads_pattern hp (Nat.le_of_succ_le hn))).objectAs _)
        (Nat.le_of_succ_le hn)
  | .call i f es, n + 1 => by
      intro hn h
      rw [Expr.scalars, Expr.gather_call] at h
      obtain ⟨hi, hes⟩ := List.forall_mem_append.mp h
      have hargs := reads_list (reads_exprs es n (Nat.le_of_succ_le hn) hes)
      rw [ofExpr, toExprOf, ofExprs_eq]
      exact reads_node (b := fun i => .call i f es) hi (reads_full rfl rfl <|
        (takes_cons (isField _ _) (by simp) (reads_string f) <| takes_one (isField _ _) hargs).objectAs _)
        (Nat.le_of_succ_le hn)
  | .methodCall i e f es, n + 1 => by
      intro hn h
      rw [Expr.scalars, Expr.gather_methodCall] at h
      obtain ⟨hi, hparts⟩ := List.forall_mem_append.mp h
      obtain ⟨he, hes⟩ := List.forall_mem_append.mp hparts
      have hsub := reads_expr e n (Nat.le_of_succ_le hn) he
      have hargs := reads_list (reads_exprs es n (Nat.le_of_succ_le hn) hes)
      rw [ofExpr, toExprOf, ofExprs_eq]
      exact reads_node (b := fun i => .methodCall i e f es) hi (reads_full rfl rfl <|
        (takes_cons (isField _ _) (by simp) hsub <| takes_cons (isField _ _) (by simp) (reads_string f) <|
          takes_one (isField _ _) hargs).objectAs _)
        (Nat.le_of_succ_le hn)
  | .letIn i ds body, n + 1 => by
      intro hn h
      rw [Expr.scalars, Expr.gather_letIn] at h
      obtain ⟨hown, hparts⟩ := List.forall_mem_append.mp h
      obtain ⟨hvars, hi⟩ := List.forall_mem_append.mp hown
      obtain ⟨hds, hb⟩ := List.forall_mem_append.mp hparts
      have hvars : ∀ d ∈ ds, d.1.index < UInt32.size :=
        fun d hd => hvars (.id d.1.index) (List.mem_map_of_mem hd)
      have hdefs := reads_list (reads_defs ds n (Nat.le_of_succ_le hn) hvars hds)
      have hsub := reads_expr body n (Nat.le_of_succ_le hn) hb
      rw [ofExpr, toExprOf, ofDefs_eq]
      exact reads_node (b := fun i => .letIn i ds body) hi (reads_full rfl rfl <|
        (takes_cons (isField _ _) (by simp) hdefs <| takes_one (isField _ _) hsub).objectAs _)
        (Nat.le_of_succ_le hn)
theorem reads_exprs : ∀ (es : List Expr) (n : Nat), n ≤ enough lib →
    (∀ x ∈ Expr.gatherAll Expr.ownScalars es, x.ReadsBack lib) →
      ∀ e ∈ es, Reads lib n (toExprOf n) (ofExpr e) e
  | [], _ => fun _ _ => List.forall_mem_nil _
  | e :: es, n => by
      intro hn h
      rw [Expr.gatherAll_cons] at h
      obtain ⟨he, hes⟩ := List.forall_mem_append.mp h
      exact List.forall_mem_cons.mpr ⟨reads_expr e n hn he, reads_exprs es n hn hes⟩
/-- The same of definitions. -/
theorem reads_defs : ∀ (ds : List (VarId × Expr)) (n : Nat), n ≤ enough lib →
    (∀ d ∈ ds, d.1.index < UInt32.size) → (∀ x ∈ Expr.gatherDefs Expr.ownScalars ds, x.ReadsBack lib) →
      ∀ d ∈ ds, Reads lib n ((field "var" toVarId).and
        (field "init" (toExprOf n))).read (ofDef d) d
  | [], _ => fun _ _ _ => List.forall_mem_nil _
  | (v, e) :: ds, n => by
      intro hn hvars h
      obtain ⟨hv, hvs⟩ := List.forall_mem_cons.mp hvars
      rw [Expr.gatherDefs_cons] at h
      obtain ⟨he, hds⟩ := List.forall_mem_append.mp h
      exact List.forall_mem_cons.mpr ⟨reads_defn hv (reads_expr e n hn he), reads_defs ds n hn hvs hds⟩
end

/-! ## §4. Statements. -/

/-- An expression is not taken for a missing one. -/
theorem present_expr (e : Expr) : Present lib toExpr (ofExpr e) := by
  cases e <;> rw [ofExpr, node] <;> exact present_object _

/-- An expression, with fuel for however deep it nests. -/
theorem reads_exprOf (e : Expr) (hn : n ≤ enough lib) (he : ∀ x ∈ e.scalars, x.ReadsBack lib) :
    Reads lib n toExpr (ofExpr e) e :=
  (reads_expr e (enough lib) (Nat.le_refl _) he).mono hn

/-- A list of expressions. -/
theorem reads_exprList {es : List Expr} (hn : n ≤ enough lib)
    (hes : ∀ x ∈ Expr.gatherAll Expr.ownScalars es, x.ReadsBack lib) :
    Reads lib n (Reader.list toExpr) (.array (ofExprs es)) es := by
  have hlist := reads_list (reads_exprs es (enough lib) (Nat.le_refl _) hes)
  rw [ofExprs_eq]
  exact hlist.mono hn

/-- An expression, or none. -/
theorem reads_expr? {e : Option Expr} (hn : n ≤ enough lib)
    (he : ∀ x ∈ Expr.gatherAll Expr.ownScalars e.toList, x.ReadsBack lib) :
    Reads lib n (Reader.option toExpr) (.option ofExpr e) e := by
  refine reads_option (fun e _ => present_expr e) ?_
  rintro e rfl
  rw [Option.toList_some, Expr.gatherAll_cons] at he
  exact reads_exprOf e hn fun x hx => he x (List.mem_append_left _ hx)

/-- A node, from the reader of its own part. -/
theorem reads_stmtNode {kind : Reader lib (StmtInfo → Stmt)} {j : Json} {b : StmtInfo → Stmt} {i : StmtInfo}
    (hi : ∀ x ∈ i.scalars, x.ReadsBack lib) (hkind : Reads lib n kind j b) :
    Reads lib (n + 1) (((field "id" Reader.nat32).and <| (field "kind" kind).and (field "span" toSpan)).readAs
      fun (id, build, span) => build ⟨id, span⟩) (stmtNode i j) (b i) := by
  obtain ⟨hid, hspan⟩ := List.forall_mem_cons.mp hi
  exact ((takes_cons (isField _ _) (by simp) (reads_nat32 hid) <|
    takes_cons (isField _ _) (by simp) hkind <|
    takes_one (isField _ _) (reads_span hspan)).map _).object_succ

theorem ofStmts_eq (ss : List Stmt) : ofStmts ss = ss.map ofStmt := by
  induction ss with
  | nil => rw [ofStmts, List.map_nil]
  | cons s ss ih => rw [ofStmts, ih, List.map_cons]

theorem ofStmt?_eq (s : Option Stmt) : ofStmt? s = .option ofStmt s := by
  cases s <;> rw [ofStmt?] <;> rfl

/-- A statement is not taken for a missing one. -/
theorem present_stmt {read : Reader lib Stmt} (s : Stmt) : Present lib read (ofStmt s) := by
  cases s <;> rw [ofStmt, stmtNode] <;> exact present_object _

-- The fuel of the reader is one thing, the room for brackets another. A node takes one of
-- the fuel and at least one of the room, so that `room < n` holds of its parts again.
mutual
/-- **A statement is read back**, with a step of the fuel for each node. -/
theorem reads_stmt : ∀ (s : Stmt) (n : Nat), n ≤ enough lib → (∀ x ∈ s.scalars, x.ReadsBack lib) →
    Reads lib n (toStmtOf n) (ofStmt s) s
  | _, 0 => fun _ _ _ hroom => absurd hroom (Nat.not_lt_zero _)
  | .expr i e, n + 1 => by
      intro hn h
      rw [Stmt.scalars, Stmt.gather_expr] at h
      obtain ⟨hi, he⟩ := List.forall_mem_append.mp h
      have hsub := reads_exprOf e (Nat.le_of_succ_le hn) he
      rw [ofStmt, toStmtOf]
      exact reads_stmtNode (b := fun i => .expr i e) hi (reads_full rfl rfl (hsub.map _))
  | .decl i v e, n + 1 => by
      intro hn h
      rw [Stmt.scalars, Stmt.gather_decl] at h
      obtain ⟨hown, he⟩ := List.forall_mem_append.mp h
      obtain ⟨hv, hi⟩ := List.forall_mem_cons.mp hown
      rw [ofStmt, toStmtOf]
      exact reads_stmtNode (b := fun i => .decl i v e) hi (reads_full rfl rfl <|
        (takes_cons (isField _ _) (by simp) (reads_varId hv) <|
          takes_one (isField_optional _ _) (reads_expr? (Nat.le_of_succ_le hn) he)).objectAs _)
  | .block i ss, n + 1 => by
      intro hn h
      rw [Stmt.scalars, Stmt.gather_block] at h
      obtain ⟨hi, hss⟩ := List.forall_mem_append.mp h
      have hstmts := reads_list (reads_stmts ss n (Nat.le_of_succ_le hn) hss)
      rw [ofStmt, toStmtOf, ofStmts_eq]
      exact reads_stmtNode (b := fun i => .block i ss) hi (reads_full rfl rfl (hstmts.map _))
  | .ifElse i c y z, n + 1 => by
      intro hn h
      rw [Stmt.scalars, Stmt.gather_ifElse] at h
      obtain ⟨hi, hparts⟩ := List.forall_mem_append.mp h
      obtain ⟨hc, hparts⟩ := List.forall_mem_append.mp hparts
      obtain ⟨hy, hz⟩ := List.forall_mem_append.mp hparts
      have hyes := reads_stmt y n (Nat.le_of_succ_le hn) hy
      have hno := reads_stmt? z n (Nat.le_of_succ_le hn) hz
      rw [ofStmt, toStmtOf]
      exact reads_stmtNode (b := fun i => .ifElse i c y z) hi (reads_full rfl rfl <|
        (takes_cons (isField _ _) (by simp) (reads_exprOf c (Nat.le_of_succ_le hn) hc) <|
          takes_cons (isField _ _) (by simp) hyes <| takes_one (isField_optional _ _) hno).objectAs _)
  | .whileDo i c b, n + 1 => by
      intro hn h
      rw [Stmt.scalars, Stmt.gather_whileDo] at h
      obtain ⟨hi, hparts⟩ := List.forall_mem_append.mp h
      obtain ⟨hc, hb⟩ := List.forall_mem_append.mp hparts
      have hbody := reads_stmt b n (Nat.le_of_succ_le hn) hb
      rw [ofStmt, toStmtOf]
      exact reads_stmtNode (b := fun i => .whileDo i c b) hi (reads_full rfl rfl <|
        (takes_cons (isField _ _) (by simp) (reads_exprOf c (Nat.le_of_succ_le hn) hc) <|
          takes_one (isField _ _) hbody).objectAs _)
  | .doWhile i b c, n + 1 => by
      intro hn h
      rw [Stmt.scalars, Stmt.gather_doWhile] at h
      obtain ⟨hi, hparts⟩ := List.forall_mem_append.mp h
      obtain ⟨hc, hb⟩ := List.forall_mem_append.mp hparts
      have hbody := reads_stmt b n (Nat.le_of_succ_le hn) hb
      rw [ofStmt, toStmtOf]
      exact reads_stmtNode (b := fun i => .doWhile i b c) hi (reads_full rfl rfl <|
        (takes_cons (isField _ _) (by simp) hbody <|
          takes_one (isField _ _) (reads_exprOf c (Nat.le_of_succ_le hn) hc)).objectAs _)
  | .forDo i ss c es b, n + 1 => by
      intro hn h
      rw [Stmt.scalars, Stmt.gather_forDo] at h
      obtain ⟨hi, hparts⟩ := List.forall_mem_append.mp h
      obtain ⟨hc, hparts⟩ := List.forall_mem_append.mp hparts
      obtain ⟨hes, hparts⟩ := List.forall_mem_append.mp hparts
      obtain ⟨hss, hb⟩ := List.forall_mem_append.mp hparts
      -- the parts of the head are read where they stand, the body with one level less left
      have hstart := reads_list (reads_stmts ss n (Nat.le_of_succ_le hn) hss)
      have hbody := reads_stmt b n (Nat.le_of_succ_le hn) hb
      rw [ofStmt, toStmtOf, ofStmts_eq]
      exact reads_stmtNode (b := fun i => .forDo i ss c es b) hi (reads_full rfl rfl <|
        (takes_cons (isField _ _) (by simp) hstart <|
          takes_cons (isField_optional _ _) (by simp) (reads_expr? (Nat.le_of_succ_le hn) hc) <|
          takes_cons (isField _ _) (by simp) (reads_exprList (Nat.le_of_succ_le hn) hes) <|
          takes_one (isField _ _) hbody).objectAs _)
  | .labeled i l b, n + 1 => by
      intro hn h
      rw [Stmt.scalars, Stmt.gather_labeled] at h
      obtain ⟨hi, hb⟩ := List.forall_mem_append.mp h
      have hbody := reads_stmt b n (Nat.le_of_succ_le hn) hb
      rw [ofStmt, toStmtOf]
      exact reads_stmtNode (b := fun i => .labeled i l b) hi (reads_full rfl rfl <|
        (takes_cons (isField _ _) (by simp) (reads_string l) <| takes_one (isField _ _) hbody).objectAs _)
  | .ret i e, n + 1 => by
      intro hn h
      rw [Stmt.scalars, Stmt.gather_ret] at h
      obtain ⟨hi, he⟩ := List.forall_mem_append.mp h
      rw [ofStmt, toStmtOf]
      exact reads_stmtNode (b := fun i => .ret i e) hi
        (reads_full rfl rfl ((reads_expr? (Nat.le_of_succ_le hn) he).map _))
  | .brk i l, n + 1 => by
      intro hn h
      rw [Stmt.scalars, Stmt.gather_brk] at h
      rw [ofStmt, toStmtOf]
      exact reads_stmtNode (b := fun i => .brk i l) h (reads_full rfl rfl ((reads_name l).map _))
  | .cont i l, n + 1 => by
      intro hn h
      rw [Stmt.scalars, Stmt.gather_cont] at h
      rw [ofStmt, toStmtOf]
      exact reads_stmtNode (b := fun i => .cont i l) h (reads_full rfl rfl ((reads_name l).map _))
theorem reads_stmts : ∀ (ss : List Stmt) (n : Nat), n ≤ enough lib →
    (∀ x ∈ Stmt.gatherAll Stmt.ownScalars Expr.ownScalars ss, x.ReadsBack lib) →
      ∀ s ∈ ss, Reads lib n (toStmtOf n) (ofStmt s) s
  | [], _ => fun _ _ => List.forall_mem_nil _
  | s :: ss, n => by
      intro hn h
      rw [Stmt.gatherAll_cons] at h
      obtain ⟨hs, hss⟩ := List.forall_mem_append.mp h
      exact List.forall_mem_cons.mpr ⟨reads_stmt s n hn hs, reads_stmts ss n hn hss⟩
theorem reads_stmt? : ∀ (s : Option Stmt) (n : Nat), n ≤ enough lib →
    (∀ x ∈ Stmt.gatherOpt Stmt.ownScalars Expr.ownScalars s, x.ReadsBack lib) →
      Reads lib n (Reader.option (toStmtOf n)) (ofStmt? s) s
  | none, n => by
      intro _ _
      rw [ofStmt?_eq]
      exact reads_option (fun s _ => present_stmt s) nofun
  | some s, n => by
      intro hn h
      have hs := reads_stmt s n hn h
      rw [ofStmt?_eq]
      refine reads_option (fun s _ => present_stmt s) fun t ht => ?_
      rw [← Option.some.inj ht]
      exact hs
end

/-! ## §5. Programs. -/

/-- A method, with or without its body. -/
theorem reads_method {m : Method} (hm : ∀ x ∈ m.scalars, x.ReadsBack lib) (hn : n ≤ enough lib) :
    Reads lib n toMethod (ofMethod m) m := by
  obtain ⟨hparts, hbody⟩ := List.forall_mem_append.mp hm
  obtain ⟨hparts, hspan⟩ := List.forall_mem_append.mp hparts
  obtain ⟨hid, hparams⟩ := List.forall_mem_cons.mp hparts
  have hparams : ∀ v ∈ m.params, Reads lib n toVarId (ofVarId v) v :=
    fun v hv => reads_varId (hparams (.id v.index) (List.mem_map_of_mem hv))
  have hbody := (reads_stmt? m.body (enough lib) (Nat.le_refl _) hbody).mono hn
  exact (takes_cons (isField _ _) (by simp) (reads_nat32 hid) <|
    takes_cons (isField _ _) (by simp) (reads_string m.name) <|
    takes_cons (isField _ _) (by simp) (reads_list hparams) <|
    takes_cons (isField _ _) (by simp) (reads_type m.ret hn) <|
    takes_cons (isField_optional _ _) (by simp) hbody <|
    takes_one (isField _ _) (reads_span hspan)).objectAs _

/-- A class. -/
theorem reads_class {c : Class} (hc : ∀ x ∈ c.scalars, x.ReadsBack lib) (hn : n ≤ enough lib) :
    Reads lib n toClass (ofClass c) c := by
  obtain ⟨hparts, hmethods⟩ := List.forall_mem_append.mp hc
  obtain ⟨hid, hspan⟩ := List.forall_mem_cons.mp hparts
  have hmethods : ∀ m ∈ c.methods, Reads lib n toMethod (ofMethod m) m :=
    fun m hm => reads_method (fun x hx => hmethods x (List.mem_flatMap.mpr ⟨m, hm, hx⟩)) hn
  exact (takes_cons (isField _ _) (by simp) (reads_nat32 hid) <|
    takes_cons (isField _ _) (by simp) (reads_string c.name) <|
    takes_cons (isField_optional _ _) (by simp) (reads_name c.superclass) <|
    takes_cons (isField_fieldOr _ _ _) (by simp) (reads_list fun s _ => reads_string s) <|
    takes_cons (isField _ _) (by simp) (reads_list hmethods) <|
    takes_one (isField _ _) (reads_span hspan)).objectAs _

/-- **A program is read back from what is written of it.** -/
theorem reads_program {p : Program} (hp : ∀ x ∈ p.scalars, x.ReadsBack lib) (hn : n ≤ enough lib) :
    Reads lib n toProgram (ofProgram p) p := by
  obtain ⟨hclasses, hsymbols⟩ := List.forall_mem_append.mp hp
  have hclasses : ∀ c ∈ p.classes, Reads lib n toClass (ofClass c) c :=
    fun c hc => reads_class (fun x hx => hclasses x (List.mem_flatMap.mpr ⟨c, hc, hx⟩)) hn
  exact (takes_cons (isField _ _) (by simp) (reads_list hclasses) <|
    takes_one (isField _ _) (reads_symbols hsymbols hn)).objectAs _

end Wire

namespace Scalar

/-- An id has 32 bits, a position 64. -/
def Fits : Scalar → Prop
  | .id n => n < UInt32.size
  | .position n => n < UInt64.size
  | .literal _ => True

instance : DecidablePred Fits := fun x => by
  cases x <;> unfold Fits <;> infer_instance

/-- The constant it is, if it is one. -/
def literal? : Scalar → Option Literal
  | .literal v => some v
  | .id _ | .position _ => none

/-- A number that fits, or a constant that is kept. -/
theorem ReadsBack.of_fits {lib : JsonLibrary} {x : Scalar} (hfits : x.Fits)
    (hliteral : ∀ v ∈ x.literal?, lib.Keeps v) : x.ReadsBack lib := by
  cases x with
  | id n => exact hfits
  | position n => exact hfits
  | literal v => exact hliteral v rfl

end Scalar

namespace Program

/-- Every id of the program has 32 bits, and every position 64. -/
def Fits (p : Program) : Prop := ∀ x ∈ p.scalars, x.Fits

instance (p : Program) : Decidable p.Fits := inferInstanceAs (Decidable (∀ x ∈ p.scalars, _))

/-- The constants in a program. -/
def literals (p : Program) : List Literal := p.scalars.filterMap Scalar.literal?

/-- A program whose numbers fit and whose constants are kept has only parts that are read back. -/
theorem readsBack_scalars {lib : JsonLibrary} {p : Program} (hfits : p.Fits)
    (hkeeps : ∀ v ∈ p.literals, lib.Keeps v) : ∀ x ∈ p.scalars, x.ReadsBack lib :=
  fun x hx => .of_fits (hfits x hx) fun v hv => hkeeps v (List.mem_filterMap.mpr ⟨x, hx, hv⟩)

end Program

namespace JsonLibrary

variable {lib : JsonLibrary} {p : Program}

/-- A text of one value is read as what is found in it. -/
theorem program?_of_scan {text : String} {d : Draft lib.Number} (h : lib.scan text = (d, none)) :
    lib.program? text = Wire.toProgram lib.room d := by
  unfold program?
  rw [h]
  cases hread : Wire.toProgram lib.room d <;> simp only [hread] <;> rfl

variable [hlib : lib.Lawful]

/-- The form of a program is read as the program, if brackets nest in it no
deeper than is read. -/
theorem toProgram_draft (hfits : p.Fits) (hkeeps : ∀ v ∈ p.literals, lib.Keeps v) :
    Wire.toProgram lib.room (lib.draft (Wire.ofProgram p))
      = if (Wire.ofProgram p).depth < 128 then .ok p else .error .malformed := by
  have hreads := Wire.reads_program (p.readsBack_scalars hfits hkeeps) (Nat.le_refl (Wire.enough lib))
  have hread := hreads lib.room (Nat.lt_succ_self lib.room)
  rw [hlib.room] at hread ⊢
  exact hread.trans (if_congr Nat.lt_succ_iff.symm rfl rfl)

/-- **A program is read from what is written for it on one line**, or found malformed. -/
theorem program?_compact (hfits : p.Fits) (hkeeps : ∀ v ∈ p.literals, lib.Keeps v) {after : String}
    (hafter : ∀ c ∈ after.toList, Draft.IsBlank c) :
    lib.program? (lib.compact (Wire.ofProgram p) ++ after)
      = if (Wire.ofProgram p).depth < 128 then .ok p else .error .malformed :=
  (program?_of_scan (hlib.compact _ after hafter)).trans (toProgram_draft hfits hkeeps)

/-- **A program is read from what is written for it over several lines**, or found malformed. -/
theorem program?_pretty (hfits : p.Fits) (hkeeps : ∀ v ∈ p.literals, lib.Keeps v) {after : String}
    (hafter : ∀ c ∈ after.toList, Draft.IsBlank c) :
    lib.program? (lib.pretty (Wire.ofProgram p) ++ after)
      = if (Wire.ofProgram p).depth < 128 then .ok p else .error .malformed :=
  (program?_of_scan (hlib.pretty _ after hafter)).trans (toProgram_draft hfits hkeeps)

end JsonLibrary

end PatternIR
