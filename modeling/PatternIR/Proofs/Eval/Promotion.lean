/-
  PatternIR.Proofs.Eval.Promotion
  ───────────────────────────────
  **STATIC TYPES AND THE CLASSES OF VALUES.**

  An arithmetic expression is typed as its leftmost operand.  Its value is of
  the widest kind among all operands, and a character is an int as soon as an
  operator takes it:

      expression    type      class of the value
      2L + 1        long      Long
      1 + 2L        int       Long
      'a'           char      Character
      - 'a'         char      Integer

  So the two agree for a single operand, and under operators exactly if the
  leftmost operand is no character and no other operand is wider.

    • `Arithmetic` — made of constants, variables, `-` and `+ - * / %`;
    • `Expr.operandKinds` — the kinds of its operands;
    • `Arithmetic.eval_kind` — the kind of the value;
    • `Arithmetic.runtimeType_iff` — when its class is the wrapper of the type.
-/
import PatternIR.Proofs.Eval.Conversions
import PatternIR.Proofs.Eval.Invariant
import PatternIR.Tree.Maker

namespace PatternIR

/-! ## §1. Kinds in the order of promotion. -/

/-- The kinds that arithmetic is done on. -/
def Prim.isNumeric : Prim → Bool
  | .int | .long | .float | .double | .char => true
  | .boolean | .byte | .short => false

/-- The order of promotion: what is promoted to an int counts as one. -/
def Prim.rank : Prim → Nat
  | .double => 3
  | .float => 2
  | .long => 1
  | .boolean | .byte | .short | .char | .int => 0

/-- A kind as wide as the widest of some kinds. -/
structure Prim.Widest (kinds : List Prim) (kind : Prim) : Prop where
  above : ∀ k ∈ kinds, k.rank ≤ kind.rank
  among : ∃ k ∈ kinds, k.rank = kind.rank

namespace Prim

variable {kinds kinds' : List Prim} {kind kind' wider : Prim}

/-- Of one kind, it is the widest. -/
theorem widest_singleton (kind : Prim) : Widest [kind] kind := by
  constructor
  · simp
  · simp

/-- Only the rank decides which kind is the widest. -/
theorem Widest.of_rank (h : Widest kinds kind) (hrank : kind'.rank = kind.rank) : Widest kinds kind' := by
  constructor
  · rw [hrank]
    exact h.above
  · rw [hrank]
    exact h.among

/-- The wider of the widest of two lists is the widest of both. -/
theorem Widest.append (h : Widest kinds kind) (h' : Widest kinds' kind')
    (hrank : wider.rank = max kind.rank kind'.rank) : Widest (kinds ++ kinds') wider := by
  constructor
  · intro k hk
    rw [hrank]
    rcases List.mem_append.mp hk with hk | hk
    · exact Nat.le_trans (h.above k hk) (Nat.le_max_left _ _)
    · exact Nat.le_trans (h'.above k hk) (Nat.le_max_right _ _)
  · obtain ⟨k, hk, hkrank⟩ := h.among
    obtain ⟨k', hk', hkrank'⟩ := h'.among
    by_cases hle : kind.rank ≤ kind'.rank
    · exact ⟨k', List.mem_append_right _ hk', by omega⟩
    · exact ⟨k, List.mem_append_left _ hk, by omega⟩

/-- The first of some kinds is as wide as the widest if no other is wider. -/
theorem Widest.rank_eq_head_iff (h : Widest (kind :: kinds) wider) :
    wider.rank = kind.rank ↔ ∀ k ∈ kinds, k.rank ≤ kind.rank := by
  constructor
  · intro hrank k hk
    rw [← hrank]
    exact h.above k (List.mem_cons_of_mem _ hk)
  · intro hrest
    obtain ⟨k, hk, hkrank⟩ := h.among
    have hhead := h.above kind List.mem_cons_self
    have hle : k.rank ≤ kind.rank := by
      rcases List.mem_cons.mp hk with rfl | hk
      · exact Nat.le_refl _
      · exact hrest k hk
    omega

/-- Each primitive type has its own wrapper. -/
theorem boxName_inj (h : kind.boxName = kind'.boxName) : kind = kind' := by
  revert h
  cases kind <;> cases kind' <;> decide

end Prim

/-! ## §2. What the operators return. -/

namespace Number

variable {a b n : Number}

/-- The kind a number is of. -/
def kind : Number → Prim
  | .int _ => .int
  | .long _ => .long
  | .float _ => .float
  | .double _ => .double

@[simp] theorem kind?_toValue (n : Number) : n.toValue.kind? = some n.kind := by
  cases n <;> rfl

@[simp] theorem rank_kind (n : Number) : n.kind.rank = n.rank := by
  cases n <;> rfl

/-- A number is never a character, and its rank tells its kind. -/
theorem kind_eq_iff {kind : Prim} (hkind : kind.isNumeric = true) :
    n.kind = kind ↔ kind ≠ .char ∧ n.rank = kind.rank := by
  cases n <;> cases kind <;> simp_all [Number.kind, rank, Prim.rank, Prim.isNumeric]

/-- The rank of a number can be read off the value it came from. -/
theorem rank_of_kind {v : Value} {kind : Prim} (hn : ofValue? v = some n) (hv : v.kind? = some kind) :
    n.rank = kind.rank := by
  cases v with
  | null | bool _ | str _ | object _ => exact nomatch hn
  | _ =>
      injection hn with hn
      injection hv with hv
      rw [← hn, ← hv]
      rfl

/-- Widening reaches the rank it is asked for. -/
theorem rank_widen {r : Nat} (hle : n.rank ≤ r) (hr : r ≤ 3) : (n.widen r).rank = r := by
  match r, hr with
  | 0, _ => exact Nat.le_zero.mp hle
  | 1, _ | 2, _ | 3, _ => rfl

/-- There are four ranks. -/
theorem rank_le (n : Number) : n.rank ≤ 3 := by
  cases n <;> simp [rank]

/-- **Two numbers are promoted to the wider rank of the two.** -/
theorem rank_promote (a b : Number) : (promote a b).1.rank = max a.rank b.rank := by
  have ha := rank_le a
  have hb := rank_le b
  exact rank_widen (Nat.le_max_left _ _) (by omega)

/-- A result that is made from a value is made from some value. -/
theorem eq_of_map_ok {α : Type} {x : Except Fault α} {f : α → Value} {v : Value}
    (h : x.map f = .ok v) : ∃ z, v = f z := by
  cases x with
  | ok z =>
      injection h with h
      exact ⟨z, h.symm⟩
  | error _ => exact nomatch h

/-- Arithmetic stays in the kind of its operands. -/
theorem arith_eq_ok {op : BinOp} {v : Value} (h : arith op a b = .ok v) :
    ∃ n : Number, v = n.toValue ∧ n.rank = a.rank := by
  cases a with
  | int x =>
      cases b with
      | int y =>
          obtain ⟨z, rfl⟩ := eq_of_map_ok h
          exact ⟨.int z, rfl, rfl⟩
      | _ => exact nomatch h
  | long x =>
      cases b with
      | long y =>
          obtain ⟨z, rfl⟩ := eq_of_map_ok h
          exact ⟨.long z, rfl, rfl⟩
      | _ => exact nomatch h
  | float x =>
      cases b with
      | float y =>
          injection h with h
          exact ⟨.float _, h.symm, rfl⟩
      | _ => exact nomatch h
  | double x =>
      cases b with
      | double y =>
          injection h with h
          exact ⟨.double _, h.symm, rfl⟩
      | _ => exact nomatch h

end Number

/-- The operators of arithmetic. -/
def BinOp.isArithmetic : BinOp → Bool
  | .add | .sub | .mul | .div | .rem => true
  | .and | .or | .eq | .ne | .lt | .gt | .le | .ge => false

section

variable {op : BinOp} {l r v w : Value} {kl kr kind : Prim}

/-- Negation leaves a number in its kind. -/
theorem evalUnary_neg_kind (hv : v.kind? = some kind) (h : evalUnary .neg v = .ok w) :
    ∃ n : Number, w = n.toValue ∧ n.rank = kind.rank := by
  cases v with
  | null | bool _ | str _ | object _ => exact nomatch h
  | int n | char n =>
      injection hv with hv
      injection h with h
      subst hv h
      exact ⟨.int _, rfl, rfl⟩
  | long n =>
      injection hv with hv
      injection h with h
      subst hv h
      exact ⟨.long _, rfl, rfl⟩
  | float n =>
      injection hv with hv
      injection h with h
      subst hv h
      exact ⟨.float _, rfl, rfl⟩
  | double n =>
      injection hv with hv
      injection h with h
      subst hv h
      exact ⟨.double _, rfl, rfl⟩

/-- Promotion takes the first operand to the wider of the two kinds. -/
theorem promote_rank {p : Number × Number} (hl : l.kind? = some kl) (hr : r.kind? = some kr)
    (h : promote op l r = .ok p) : p.1.rank = max kl.rank kr.rank := by
  unfold promote at h
  split at h
  · next a b ha hb =>
      injection h with h
      rw [← h, Number.rank_promote, Number.rank_of_kind ha hl, Number.rank_of_kind hb hr]
  · exact nomatch h

/-- A sum joins no texts if there is no text. -/
theorem joinsText_of_no_text {ty : Ty} (hty : ty ≠ .string) (hl : ∀ s, l ≠ .str s) (hr : ∀ s, r ≠ .str s) :
    joinsText ty l r = false := by
  cases l with
  | str s => exact absurd rfl (hl s)
  | _ =>
      cases r with
      | str s => exact absurd rfl (hr s)
      | _ => simp [joinsText, hty]

/-- Primitive operands are joined to no text, unless the result is typed as one. -/
theorem joinsText_of_kind {ty : Ty} (hl : l.kind? = some kl) (hr : r.kind? = some kr) (hty : ty ≠ .string) :
    joinsText ty l r = false := by
  refine joinsText_of_no_text hty ?_ ?_
  · rintro s rfl
    exact nomatch hl
  · rintro s rfl
    exact nomatch hr

/-- Arithmetic promotes its operands, unless it joins texts. -/
theorem evalBinary_of_arithmetic {byReference : Bool} {ty : Ty} (hop : op.isArithmetic = true)
    (htexts : op = .add → joinsText ty l r = false) :
    evalBinary op l r byReference ty = promote op l r >>= fun p => Number.arith op p.1 p.2 := by
  cases op with
  | add => simp only [evalBinary, htexts rfl, Bool.false_eq_true, if_false]
  | sub | mul | div | rem => rfl
  | _ => exact nomatch hop

/-- What an operator of arithmetic returns is of the wider kind. -/
theorem evalBinary_kind {byReference : Bool} {ty : Ty} (hop : op.isArithmetic = true)
    (hl : l.kind? = some kl) (hr : r.kind? = some kr) (hty : ty ≠ .string)
    (h : evalBinary op l r byReference ty = .ok v) :
    ∃ n : Number, v = n.toValue ∧ n.rank = max kl.rank kr.rank := by
  have harith := (evalBinary_of_arithmetic hop fun _ => joinsText_of_kind hl hr hty).symm.trans h
  cases hp : promote op l r with
  | error f =>
      rw [hp] at harith
      exact nomatch harith
  | ok p =>
      rw [hp] at harith
      obtain ⟨n, hv, hrank⟩ := Number.arith_eq_ok harith
      exact ⟨n, hv, hrank.trans (promote_rank hl hr hp)⟩

end

/-! ## §3. Arithmetic expressions. -/

/-- An expression made of numeric constants and variables by negation and the
operators of arithmetic, with makers in whatever states.  A variable that has a
value in the environment has one of the kind it is declared with. -/
inductive Arithmetic (symbols : Symbols) (env : Environment) : Expr → Prop where
  | literal (k : Maker) {c : Literal} {kind : Prim} (hkind : kind.isNumeric = true)
      (hc : c.value.kind? = some kind) : Arithmetic symbols env (Maker.literal c k).1
  | ref (k : Maker) {sym : Sym} {kind : Prim} (hkind : kind.isNumeric = true)
      (hty : symbols.typeOf? sym = some (.prim kind))
      (hheld : ∀ cell, env.read? symbols sym = some cell → cell.value.kind? = some kind) :
      Arithmetic symbols env (Maker.ref sym (.prim kind) k).1
  | neg (k : Maker) {e : Expr} (he : Arithmetic symbols env e) :
      Arithmetic symbols env (Maker.unary .neg e k).1
  | binary (k : Maker) {op : BinOp} {l r : Expr} (hop : op.isArithmetic = true)
      (hl : Arithmetic symbols env l) (hr : Arithmetic symbols env r) :
      Arithmetic symbols env (Maker.binary op l r k).1

namespace Expr

/-- The kinds of the constants and variables in an arithmetic expression, in order. -/
def operandKinds : Expr → List Prim
  | .unary _ _ e => e.operandKinds
  | .binary _ _ l r => l.operandKinds ++ r.operandKinds
  | .literal i _ | .ident i _ =>
    match i.ty with
    | .prim kind => [kind]
    | _ => []
  | _ => []

/-- Constants and variables. -/
def isOperand : Expr → Bool
  | .literal _ _ | .ident _ _ => true
  | _ => false

/-- The leftmost operand is the only one, without an operator, or it is no
character and as wide as each of the others. -/
def leftmostWidest (e : Expr) : Bool :=
  e.isOperand || match e.operandKinds with
    | [] => false
    | first :: rest => first ≠ .char && rest.all fun kind => kind.rank ≤ first.rank

end Expr

namespace Arithmetic

variable {ω : Type} {symbols : Symbols} {env : Environment} {setting : Setting ω} {e : Expr}

/-- A reference typed from the symbol table. -/
theorem ident (k : Maker) {sym : Sym} {kind : Prim} (hkind : kind.isNumeric = true)
    (hty : symbols.typeOf? sym = some (.prim kind))
    (hheld : ∀ cell, env.read? symbols sym = some cell → cell.value.kind? = some kind) :
    Arithmetic symbols env (Maker.ident symbols sym k).1 := by
  have href : Maker.ident symbols sym = Maker.ref sym (.prim kind) := by
    rw [Maker.ident, hty]
    rfl
  rw [href]
  exact ref k hkind hty hheld

/-- A primitive constant is typed by its kind. -/
theorem literalType_of_kind {c : Literal} {kind : Prim} (h : c.value.kind? = some kind) :
    Maker.literalType c = .prim kind := by
  cases c with
  | string _ | null => exact nomatch h
  | _ =>
      injection h with h
      rw [← h]
      rfl

/-- **An arithmetic expression is typed as its leftmost operand.** -/
theorem exists_ty (he : Arithmetic symbols env e) : ∃ first rest,
    e.operandKinds = first :: rest ∧ e.ty = .prim first ∧ first.isNumeric = true := by
  induction he with
  | literal k hkind hc =>
      have hty := literalType_of_kind hc
      refine ⟨_, [], ?_, hty, hkind⟩
      show (match Maker.literalType _ with | .prim kind => [kind] | _ => []) = _
      rw [hty]
  | ref k hkind hty hheld => exact ⟨_, [], rfl, rfl, hkind⟩
  | neg k he ih => exact ih
  | @binary k op l r hop hl hr ihl ihr =>
      obtain ⟨first, rest, hkinds, hty, hfirst⟩ := ihl
      obtain ⟨_, _, -, htyr, -⟩ := ihr
      refine ⟨first, rest ++ r.operandKinds, ?_, ?_, hfirst⟩
      · show l.operandKinds ++ r.operandKinds = _
        rw [hkinds, List.cons_append]
      · show Maker.binaryType op l.ty r.ty = _
        rw [hty, htyr]
        cases op with
        | add => rfl
        | sub | mul | div | rem => rfl
        | _ => exact nomatch hop

/-- **The value is of the widest kind among the operands**, a number if there
is an operator, and nothing is written on the way. -/
theorem eval_kind (he : Arithmetic setting.program.symbols env e) :
    ∀ {n : Nat} {m m' : Machine ω} {v : Value}, m.env = env → evalExpr setting n e m = .ok v m' →
      m'.env = env ∧ ∃ kind, v.kind? = some kind ∧ Prim.Widest e.operandKinds kind
        ∧ if e.isOperand then e.operandKinds = [kind] else ∃ k : Number, v = k.toValue := by
  induction he with
  | @literal k c kind hkind hc =>
      intro n m m' v henv h
      cases n with
      | zero => injection h
      | succ n =>
          obtain ⟨rfl, rfl⟩ := pure_eq_ok.mp h
          have hkinds : (Maker.literal c k).1.operandKinds = [kind] := by
            show (match Maker.literalType c with | .prim kind => [kind] | _ => []) = _
            rw [literalType_of_kind hc]
          rw [hkinds]
          exact ⟨henv, kind, hc, Prim.widest_singleton kind, rfl⟩
  | @ref k sym kind hkind hty hheld =>
      intro n m m' v henv h
      cases n with
      | zero => injection h
      | succ n =>
          have hread : Run.read setting.program.symbols k.next sym m = .ok v m' := h
          unfold Run.read at hread
          split at hread
          · next cell hcell =>
              injection hread with hv hm
              subst hv hm
              rw [henv] at hcell
              exact ⟨henv, kind, hheld cell hcell, Prim.widest_singleton kind, rfl⟩
          · injection hread
  | neg k he ih =>
      intro n m m' v henv h
      cases n with
      | zero => injection h
      | succ n =>
          obtain ⟨w, m₁, hw, h⟩ := bind_eq_ok.mp h
          obtain ⟨hv, rfl⟩ := Run.ofExcept_eq_ok.mp h
          obtain ⟨henv₁, kind, hkind, hwidest, -⟩ := ih henv hw
          obtain ⟨x, rfl, hrank⟩ := evalUnary_neg_kind hkind hv
          refine ⟨henv₁, x.kind, x.kind?_toValue, ?_, x, rfl⟩
          exact hwidest.of_rank (x.rank_kind.trans hrank)
  | @binary k op l r hop hl hr ihl ihr =>
      intro n m m' v henv h
      cases n with
      | zero => injection h
      | succ n =>
          obtain ⟨_, _, -, hty, -⟩ := (binary k hop hl hr).exists_ty
          have hstring : (Maker.binary op l r k).1.ty ≠ .string := by
            rw [hty]
            exact nofun
          have hboth : (evalExpr setting n l >>= fun x => evalExpr setting n r >>= fun y =>
              Run.ofExcept (evalBinary op x y (l.ty.isReference && r.ty.isReference)
                (Maker.binary op l r k).1.ty)) m = .ok v m' := by
            cases op with
            | add | sub | mul | div | rem => exact h
            | _ => exact nomatch hop
          obtain ⟨x, m₁, hx, h⟩ := bind_eq_ok.mp hboth
          obtain ⟨y, m₂, hy, h⟩ := bind_eq_ok.mp h
          obtain ⟨hv, rfl⟩ := Run.ofExcept_eq_ok.mp h
          -- the left operand writes nothing, so the right one reads what it would have read
          obtain ⟨henv₁, kl, hkl, hwl, -⟩ := ihl henv hx
          obtain ⟨henv₂, kr, hkr, hwr, -⟩ := ihr henv₁ hy
          obtain ⟨z, rfl, hrank⟩ := evalBinary_kind hop hkl hkr hstring hv
          refine ⟨henv₂, z.kind, z.kind?_toValue, ?_, z, rfl⟩
          exact hwl.append hwr (z.rank_kind.trans hrank)

/-- **The class of the value is the wrapper of the static type** exactly if the
leftmost operand is the only one or a widest number. -/
theorem runtimeType_iff {m m' : Machine ω} {n : Nat} {v : Value}
    (he : Arithmetic setting.program.symbols m.env e) (h : evalExpr setting n e m = .ok v m') :
    v.runtimeType? = some e.ty.boxed ↔ e.leftmostWidest = true := by
  obtain ⟨first, rest, hkinds, hty, hfirst⟩ := he.exists_ty
  obtain ⟨-, kind, hkind, hwidest, hlast⟩ := he.eval_kind rfl h
  have hclass : v.runtimeType? = some e.ty.boxed ↔ kind = first := by
    rw [Value.runtimeType?_of_kind hkind, hty]
    constructor
    · intro hbox
      injection hbox with hbox
      injection hbox with hname
      exact Prim.boxName_inj hname
    · rintro rfl
      rfl
  rw [hclass]
  unfold Expr.leftmostWidest
  -- a single operand keeps its kind, also that of a character
  by_cases hoperand : e.isOperand = true
  · rw [if_pos hoperand, hkinds] at hlast
    injection hlast with hlast
    simp [hoperand, hlast]
  · rw [if_neg hoperand] at hlast
    obtain ⟨x, rfl⟩ := hlast
    obtain rfl : x.kind = kind := Option.some.inj (x.kind?_toValue.symm.trans hkind)
    rw [hkinds] at hwidest ⊢
    rw [Number.kind_eq_iff hfirst, ← x.rank_kind, hwidest.rank_eq_head_iff]
    simp [hoperand]

end Arithmetic

namespace Mixed

/-- The variable `x` of type `long`. -/
def symbols : Symbols := (Symbols.empty.addVar "x" (.prim .long) none false).2

/-- No classes, no native functions. -/
def setting : Setting Unit := Program.setting ⟨[], symbols⟩ fun _ => none

/-- `x` is 3,000,000,000. -/
def machine : Machine Unit :=
  { Machine.start () with env := Environment.start.set (.var ⟨0⟩) (.long 3000000000) .declared }

/-- The variable holds a `long`, as it is declared. -/
theorem held (cell : Cell) (h : machine.env.read? symbols (.var ⟨0⟩) = some cell) :
    cell.value.kind? = some .long := by
  injection h with h
  rw [← h]
  rfl

/-- `-x * 2` -/
def product : Expr :=
  let x := (Maker.ident symbols (.var ⟨0⟩) (.startingAt 0)).1
  let negated := (Maker.unary .neg x (.startingAt 1)).1
  let two := (Maker.literal (.int 2) (.startingAt 2)).1
  (Maker.binary .mul negated two (.startingAt 3)).1

/-- `-x * 2 + 'a'` -/
def leftLong : Expr :=
  let letter := (Maker.literal (.char 'a') (.startingAt 4)).1
  (Maker.binary .add product letter (.startingAt 5)).1

/-- The product is arithmetic. -/
theorem arithmetic_product : Arithmetic symbols machine.env product := by
  have hx := Arithmetic.ident (.startingAt 0) rfl rfl held
  exact (hx.neg (.startingAt 1)).binary (.startingAt 3) rfl (.literal (.startingAt 2) rfl rfl)

/-- So is the sum with the `long` on the left. -/
theorem arithmetic_leftLong : Arithmetic symbols machine.env leftLong :=
  arithmetic_product.binary (.startingAt 5) rfl (.literal (.startingAt 4) rfl rfl)

/-- `1 + 2L` -/
def rightLong : Expr :=
  let one := (Maker.literal (.int 1) (.startingAt 0)).1
  let two := (Maker.literal (.long 2) (.startingAt 1)).1
  (Maker.binary .add one two (.startingAt 2)).1

/-- `-'a'` -/
def negatedChar : Expr :=
  let letter := (Maker.literal (.char 'a') (.startingAt 0)).1
  (Maker.unary .neg letter (.startingAt 1)).1

/-- An arithmetic expression that comes out as `v`, whose class is another than
the wrapper of the type. -/
def Strays (e : Expr) (v : Value) : Prop :=
  Arithmetic symbols machine.env e ∧ evalExpr setting 4 e machine = .ok v machine
    ∧ v.runtimeType? ≠ some e.ty.boxed

end Mixed

/-- `Mixed.leftLong` has the type `long`, and its value is a `Long`. -/
theorem Arithmetic.runtimeType_iff_long :
    Arithmetic Mixed.symbols Mixed.machine.env Mixed.leftLong
      ∧ ∃ m', evalExpr Mixed.setting 4 Mixed.leftLong Mixed.machine = .ok (.long (-5999999903)) m'
        ∧ Mixed.leftLong.leftmostWidest = true
        ∧ Value.runtimeType? (.long (-5999999903)) = some Mixed.leftLong.ty.boxed := by
  have h := Mixed.arithmetic_leftLong
  have hwidest : Mixed.leftLong.leftmostWidest = true := by decide
  have heval : ∃ m', evalExpr Mixed.setting 4 Mixed.leftLong Mixed.machine
      = .ok (.long (-5999999903)) m' := ⟨_, rfl⟩
  obtain ⟨m', heval⟩ := heval
  exact ⟨h, m', heval, hwidest,
    (Arithmetic.runtimeType_iff h heval).mpr hwidest⟩

/-- **Values of another class than the type says**: of an operand wider than
the leftmost one, and of a negated character. -/
theorem arithmetic_strays :
    Mixed.Strays Mixed.rightLong (.long 3) ∧ Mixed.Strays Mixed.negatedChar (.int (-97)) := by
  constructor
  · refine ⟨?_, rfl, by decide⟩
    exact .binary _ rfl (.literal _ rfl rfl) (.literal _ rfl rfl)
  · refine ⟨?_, rfl, by decide⟩
    exact .neg _ (.literal _ rfl rfl)

end PatternIR
