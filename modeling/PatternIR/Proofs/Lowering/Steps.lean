/-
  PatternIR.Proofs.Lowering.Steps
  ───────────────────────────────
  **THE STEPS OF THE PASS, inverted.**

  For each step of lowering: if it succeeds, what it answers and which parts of
  the state it changed, with the nodes it made written out.  Proofs about the
  pass take a run apart with these and never unfold a step.

    • `within_eq_ok` — a frame is entered and left;
    • `decorateExpr_eq_ok`, `declareSlots_eq_ok` — storage is declared;
    • `lowerRef_eq_ok`, `lowerTest_eq_ok` — references and type tests;
    • `lowerExpr_binary_eq_ok`, `lowerParts_ifElse_eq_ok`, … — forms with a frame of
      their own: what is lowered in it, in order, and that it is decorated at the end;
    • `lowerBlock_cons_eq_ok` — one statement of a block.
-/
import PatternIR.Lowering.Program
import PatternIR.Proofs.Steps

namespace PatternIR

/-- A table with more variables behind the old ones. -/
def Symbols.moreVars (s : Symbols) (syms : List VarSymbol) : Symbols :=
  { s with vars := s.vars ++ syms.toArray }

/-- No variables are added. -/
@[simp] theorem Symbols.moreVars_nil (s : Symbols) : s.moreVars [] = s := by
  simp [Symbols.moreVars]

/-- Adding variables leaves the bindings alone. -/
@[simp] theorem Symbols.moreVars_bindings (s : Symbols) (syms : List VarSymbol) :
    (s.moreVars syms).bindings = s.bindings := rfl

/-- How many variables there are then. -/
theorem Symbols.moreVars_size (s : Symbols) (syms : List VarSymbol) :
    (s.moreVars syms).vars.size = s.vars.size + syms.length := by
  simp [Symbols.moreVars]

/-- The new variables stand behind the old ones, in their order. -/
theorem Symbols.moreVars_behind (s : Symbols) (syms : List VarSymbol) (k : Nat) :
    (s.moreVars syms).vars[s.vars.size + k]? = syms[k]? := by
  show (s.vars ++ syms.toArray)[s.vars.size + k]? = syms[k]?
  rw [Array.getElem?_append_right (Nat.le_add_right _ _), Nat.add_sub_cancel_left,
    List.getElem?_toArray]

/-- Adding variables in two goes. -/
theorem Symbols.moreVars_moreVars (s : Symbols) (syms more : List VarSymbol) :
    (s.moreVars syms).moreVars more = s.moreVars (syms ++ more) := by
  simp [Symbols.moreVars]

namespace Lowering

variable {α : Type} {p p' : Pass}

/-! ## §1. Making, asking, entering. -/

/-- What is made is counted, nothing else changes. -/
theorem making_eq_ok {m : Making α} {a : α} (h : making m p = .ok a p') :
    a = (m.run p.maker).1 ∧ p' = { p with maker := (m.run p.maker).2 } := by
  injection h with ha hp
  exact ⟨ha.symm, hp.symm⟩

/-- A question may change the table, nothing else. -/
theorem asking_eq_ok {q : Symbols → List BindingId × Symbols} {bs : List BindingId}
    (h : asking q p = .ok bs p') :
    bs = (q p.symbols).1 ∧ p' = { p with symbols := (q p.symbols).2 } := by
  injection h with hbs hp
  exact ⟨hbs.symm, hp.symm⟩

/-- The state in which the body of a frame begins. -/
def Pass.enter (p : Pass) (kind : FrameKind) (bindings : List BindingId) : Pass :=
  { p with
    stack := (p.stack.push kind bindings p.symbols).1
    symbols := (p.stack.push kind bindings p.symbols).2 }

/-- Slots for bindings of a table, their variables numbered from `n` on, and
the symbols of these variables. -/
inductive Allocates (s : Symbols) : (n : Nat) → List Slot → List VarSymbol → Prop
  | nil (n : Nat) : Allocates s n [] []
  | cons {n : Nat} {b : BindingId} {symbol : BindingSymbol} {slots : List Slot}
      {syms : List VarSymbol} (hb : s.binding? b = some symbol)
      (rest : Allocates s (n + 1) slots syms) :
      Allocates s n (⟨b, ⟨n⟩⟩ :: slots)
        (⟨⟨n⟩, symbol.name, symbol.ty, symbol.owner, false⟩ :: syms)

/-- A frame is left however its body ends. -/
theorem within_apply (kind : FrameKind) (bindings : List BindingId) (body : Lowering α) (p : Pass) :
    within kind bindings body p = match body (p.enter kind bindings) with
      | .ok a p => .ok a { p with stack := p.stack.pop }
      | .error e p => .error e { p with stack := p.stack.pop } := rfl

/-- Inside a frame the body runs; the frame is closed behind it. -/
theorem within_eq_ok {kind : FrameKind} {bindings : List BindingId} {body : Lowering α} {a : α}
    (h : within kind bindings body p = .ok a p') :
    ∃ p₁, body (p.enter kind bindings) = .ok a p₁ ∧ p' = { p₁ with stack := p₁.stack.pop } := by
  rw [within_apply] at h
  cases hbody : body (p.enter kind bindings) with
  | ok b p₁ =>
      rw [hbody] at h
      injection h with hb hp
      subst hb
      exact ⟨p₁, rfl, hp.symm⟩
  | error e p₁ =>
      rw [hbody] at h
      injection h

/-- If a frame fails, its body has failed, and the frame is closed behind it. -/
theorem within_eq_error {kind : FrameKind} {bindings : List BindingId} {body : Lowering α} {e : LowerError}
    (h : within kind bindings body p = .error e p') :
    ∃ p₁, body (p.enter kind bindings) = .error e p₁ ∧ p' = { p₁ with stack := p₁.stack.pop } := by
  rw [within_apply] at h
  cases hbody : body (p.enter kind bindings) with
  | ok b p₁ =>
      rw [hbody] at h
      injection h
  | error e' p₁ =>
      rw [hbody] at h
      injection h with he hp
      subst he
      exact ⟨p₁, rfl, hp.symm⟩

/-- Only the bindings of the table matter. -/
theorem Allocates.of_bindings {s t : Symbols} (h : s.bindings = t.bindings) {n : Nat}
    {slots : List Slot} {syms : List VarSymbol} (ha : Allocates s n slots syms) :
    Allocates t n slots syms := by
  induction ha with
  | nil n => exact .nil n
  | cons hb _ ih =>
      refine .cons ?_ ih
      rw [← hb, Symbols.binding?, Symbols.binding?, h]

/-- **A slot is allocated for each binding that needs one**, its variable at the end of the table.
-/
theorem allocate_eq (st : Stack) : ∀ (bs : List BindingId) (made : List Slot) (s : Symbols),
    ∃ news syms, Allocates s s.vars.size news syms
      ∧ st.allocate made bs s = (made ++ news, s.moreVars syms)
  | [], made, s => ⟨[], [], .nil _, by simp [Stack.allocate]⟩
  | b :: bs, made, s => by
      unfold Stack.allocate
      split
      · exact allocate_eq st bs made s
      · cases hb : s.binding? b with
        | none => exact allocate_eq st bs made s
        | some symbol =>
            let var : VarSymbol := ⟨⟨s.vars.size⟩, symbol.name, symbol.ty, symbol.owner, false⟩
            obtain ⟨news, syms, halloc, heq⟩ :=
              allocate_eq st bs (made ++ [⟨b, ⟨s.vars.size⟩⟩]) (s.moreVars [var])
            have hsize : (s.moreVars [var]).vars.size = s.vars.size + 1 := by
              simp [Symbols.moreVars]
            refine ⟨⟨b, ⟨s.vars.size⟩⟩ :: news, var :: syms, .cons hb ?_, ?_⟩
            · rw [hsize] at halloc
              exact halloc.of_bindings (s.moreVars_bindings [var])
            · have hpush : (s.addVar symbol.name symbol.ty symbol.owner false).2
                  = s.moreVars [var] := by
                simp [Symbols.moreVars, Symbols.addVar, var]
              show st.allocate (made ++ [⟨b, ⟨s.vars.size⟩⟩]) bs
                (s.addVar symbol.name symbol.ty symbol.owner false).2 = _
              rw [hpush, heq, Symbols.moreVars_moreVars, List.append_assoc]
              rfl

/-- The state inside a frame: a new frame with slots of its own. -/
theorem enter_eq (p : Pass) (kind : FrameKind) (bindings : List BindingId) :
    ∃ news syms, Allocates p.symbols p.symbols.vars.size news syms
      ∧ p.enter kind bindings
        = ⟨p.symbols.moreVars syms, ⟨⟨kind, news, []⟩, p.stack.frames⟩, p.maker⟩ := by
  obtain ⟨news, syms, halloc, heq⟩ := allocate_eq p.stack bindings [] p.symbols
  refine ⟨news, syms, halloc, ?_⟩
  unfold Pass.enter Stack.push
  rw [heq]
  rfl

/-- Resolving looks along the stack. -/
theorem resolve_eq_ok {b : BindingId} {var : Option VarId} (h : resolve b p = .ok var p') :
    var = p.stack.resolve p.symbols b ∧ p' = p := by
  injection h with hv hp
  exact ⟨hv.symm, hp.symm⟩

/-! ## §2. Storage. -/

/-- The node with the default value of a type that has the literal `v` for it. -/
def defaultNode (id : NodeId) (span : Span) (ty : Ty) (v : Literal) : Expr :=
  .literal ⟨id, if v = .null then .null else ty, span⟩ v

/-- A default is a node for the literal of its type. -/
theorem makeDefault_eq_ok {ty : Ty} {e : Expr} (h : makeDefault ty p = .ok e p') :
    ∃ v, defaultLiteral? ty = some v ∧ e = defaultNode p.maker.next p.maker.span ty v
      ∧ p' = { p with maker := { p.maker with next := p.maker.next + 1 } } := by
  unfold makeDefault defaultValue at h
  cases hv : defaultLiteral? ty with
  | none =>
      rw [hv] at h
      injection h
  | some v =>
      rw [hv] at h
      refine ⟨v, rfl, ?_⟩
      cases v with
      | null =>
          injection h with he hp
          exact ⟨he.symm, hp.symm⟩
      | _ =>
          injection h with he hp
          exact ⟨by rw [← he]; rfl, hp.symm⟩

/-- The type of storage is that of its variable, erased. -/
theorem storageType_eq_ok {var : VarId} {ty : Ty} (h : storageType var p = .ok ty p') :
    ∃ v, p.symbols.var? var = some v ∧ ty = v.ty.erasure ∧ p' = p := by
  obtain ⟨q, p₁, hget, hrest⟩ := bind_eq_ok.mp h
  injection hget with hq hp
  subst hq hp
  cases hv : p.symbols.var? var with
  | some v =>
      rw [hv] at hrest
      injection hrest with hty hp
      exact ⟨v, rfl, hty.symm, hp.symm⟩
  | none =>
      rw [hv] at hrest
      injection hrest

/-- The definitions of slots in a let-expression, their nodes numbered from an id on. -/
inductive DefinesSlots (s : Symbols) (span : Span) :
    NodeId → List Slot → List (VarId × Expr) → Prop
  | nil (id : NodeId) : DefinesSlots s span id [] []
  | cons {id : NodeId} {slot : Slot} {slots : List Slot} {sym : VarSymbol} {v : Literal}
      {defs : List (VarId × Expr)} (hsym : s.var? slot.var = some sym)
      (hv : defaultLiteral? sym.ty.erasure = some v)
      (rest : DefinesSlots s span (id + 1) slots defs) :
      DefinesSlots s span id (slot :: slots)
        ((slot.var, defaultNode id span sym.ty.erasure v) :: defs)

/-- Each slot is defined with the default of its type. -/
theorem storageDefs_eq_ok : ∀ {slots : List Slot} {defs : List (VarId × Expr)} {p p' : Pass},
    slots.mapM storageDef p = .ok defs p' →
      DefinesSlots p.symbols p.maker.span p.maker.next slots defs
        ∧ p' = { p with maker := { p.maker with next := p.maker.next + slots.length } }
  | [], defs, p, p', h => by
      injection h with hdefs hp
      subst hdefs hp
      exact ⟨.nil _, rfl⟩
  | slot :: slots, defs, p, p', h => by
      rw [List.mapM_cons] at h
      obtain ⟨d, p₁, hd, htail⟩ := bind_eq_ok.mp h
      obtain ⟨ds, p₂, hds, hpure⟩ := bind_eq_ok.mp htail
      obtain ⟨rfl, rfl⟩ := pure_eq_ok.mp hpure
      obtain ⟨ty, q₁, hty, hd₁⟩ := bind_eq_ok.mp hd
      obtain ⟨sym, hsym, rfl, rfl⟩ := storageType_eq_ok hty
      obtain ⟨e, q₂, he, hd₂⟩ := bind_eq_ok.mp hd₁
      obtain ⟨v, hv, rfl, rfl⟩ := makeDefault_eq_ok he
      obtain ⟨rfl, rfl⟩ := pure_eq_ok.mp hd₂
      obtain ⟨hrest, rfl⟩ := storageDefs_eq_ok hds
      refine ⟨.cons hsym hv hrest, ?_⟩
      simp only [List.length_cons]
      rw [Nat.add_right_comm, Nat.add_assoc]

/-- An expression as its frame leaves it: as it is, or in a let-expression that
defines the slots of the frame. -/
theorem decorateExpr_eq_ok {e e' : Expr} (h : decorateExpr e p = .ok e' p') :
    (p.stack.current.slots = [] ∧ e' = e ∧ p' = p)
      ∨ ∃ defs, DefinesSlots p.symbols e.span p.maker.next p.stack.current.slots defs
          ∧ e' = .letIn ⟨p.maker.next + p.stack.current.slots.length, e.ty, e.span⟩ defs e
          ∧ p' = { p with maker := ⟨p.maker.next + p.stack.current.slots.length + 1, e.span⟩ } := by
  obtain ⟨q, p₁, hget, hrest⟩ := bind_eq_ok.mp h
  injection hget with hq hp
  subst hq hp
  cases hslots : p.stack.current.slots with
  | nil =>
      rw [hslots] at hrest
      obtain ⟨rfl, rfl⟩ := pure_eq_ok.mp hrest
      exact .inl ⟨rfl, rfl, rfl⟩
  | cons slot slots =>
      rw [hslots] at hrest
      obtain ⟨_, q₁, hmove, hmake⟩ := bind_eq_ok.mp hrest
      obtain ⟨-, rfl⟩ := making_eq_ok hmove
      obtain ⟨defs, q₂, hdefs, hlet⟩ := bind_eq_ok.mp hmake
      obtain ⟨hdefines, rfl⟩ := storageDefs_eq_ok hdefs
      obtain ⟨rfl, rfl⟩ := making_eq_ok hlet
      exact .inr ⟨defs, hdefines, rfl, rfl⟩

/-- The declaration of a storage variable with its default value. -/
def declNode (id : NodeId) (span : Span) (var : VarId) (ty : Ty) (v : Literal) : Stmt :=
  .decl ⟨id + 1, span⟩ var (some (defaultNode id span ty v))

/-- Storage is declared with the default of its type. -/
theorem storageDecl_eq_ok {span : Span} {var : VarId} {d : Stmt}
    (h : storageDecl span var p = .ok d p') :
    ∃ sym v, p.symbols.var? var = some sym ∧ defaultLiteral? sym.ty.erasure = some v
      ∧ d = declNode p.maker.next span var sym.ty.erasure v
      ∧ p' = { p with maker := ⟨p.maker.next + 2, span⟩ } := by
  obtain ⟨ty, p₁, hty, hmake⟩ := bind_eq_ok.mp h
  obtain ⟨sym, hsym, rfl, rfl⟩ := storageType_eq_ok hty
  obtain ⟨_, p₂, hmove, hvalue⟩ := bind_eq_ok.mp hmake
  obtain ⟨-, rfl⟩ := making_eq_ok hmove
  obtain ⟨e, p₃, he, hdecl⟩ := bind_eq_ok.mp hvalue
  obtain ⟨v, hv, rfl, rfl⟩ := makeDefault_eq_ok he
  obtain ⟨rfl, rfl⟩ := making_eq_ok hdecl
  exact ⟨sym, v, hsym, hv, rfl, rfl⟩

end Lowering

/-! ## §3. Declarations for the enclosing frame. -/

/-- A frame after it has taken over declarations, each with the slot it is for. -/
def Frame.gain (f : Frame) (taken : List (Slot × Stmt)) : Frame :=
  { f with
    slots := f.slots ++ taken.map Prod.fst
    hoisted := f.hoisted ++ taken.map Prod.snd }

/-- Taking over nothing changes no frame. -/
@[simp] theorem Frame.gain_nil (f : Frame) : f.gain [] = f := by
  simp [Frame.gain]

/-- What is taken over in two goes is taken over. -/
theorem Frame.gain_gain (f : Frame) (taken more : List (Slot × Stmt)) :
    (f.gain taken).gain more = f.gain (taken ++ more) := by
  simp [Frame.gain]

namespace Stack

/-- The stack after its current frame has taken over declarations. -/
def gain (st : Stack) (taken : List (Slot × Stmt)) : Stack :=
  { st with current := st.current.gain taken }

/-- Gaining nothing changes no stack. -/
@[simp] theorem gain_nil (st : Stack) : st.gain [] = st := by
  simp [gain]

/-- The stack after the frame around the current one has taken over declarations. -/
def give (st : Stack) (taken : List (Slot × Stmt)) : Stack :=
  match st.enclosing with
  | [] => st
  | parent :: rest => { st with enclosing := parent.gain taken :: rest }

/-- Giving nothing changes no stack. -/
@[simp] theorem give_nil (st : Stack) : st.give [] = st := by
  obtain ⟨f, fs⟩ := st
  cases fs with
  | nil => rfl
  | cons parent rest => simp [give]

/-- What is given in two goes is given. -/
theorem give_give (st : Stack) (taken more : List (Slot × Stmt)) :
    (st.give taken).give more = st.give (taken ++ more) := by
  obtain ⟨f, fs⟩ := st
  cases fs with
  | nil => rfl
  | cons parent rest => simp [give, Frame.gain_gain]

/-- Whether the frame around the current one takes over the declaration of a binding. -/
def takes (st : Stack) (s : Symbols) (b : BindingId) : Bool :=
  st.enclosing.head?.any fun parent => parent.kind.acceptsHoist ((s.binding? b).any (·.preserved))

/-- Who takes a declaration does not depend on what was given before. -/
theorem takes_give (st : Stack) (s : Symbols) (taken : List (Slot × Stmt)) :
    (st.give taken).takes s = st.takes s := by
  obtain ⟨f, fs⟩ := st
  cases fs with
  | nil => rfl
  | cons parent rest => rfl

/-- A declaration is given to the frame that takes its binding, if there is one. -/
theorem hoist?_decl (st : Stack) (s : Symbols) (slot : Slot) (i : StmtInfo) (value : Option Expr) :
    st.hoist? s slot.binding (.decl i slot.var value)
      = if st.takes s slot.binding then some (st.give [(slot, .decl i slot.var value)])
        else none := by
  obtain ⟨f, fs⟩ := st
  cases fs with
  | nil => rfl
  | cons parent rest => rfl

end Stack

namespace Lowering

variable {rules : Rules} {p p' : Pass}

/-- The declarations of slots, their nodes numbered from an id on: those that
`takes` tells are `taken`, the others `refused`. -/
inductive DeclaresSlots (s : Symbols) (span : Span) (takes : BindingId → Bool) :
    NodeId → List Slot → (refused : List Stmt) → (taken : List (Slot × Stmt)) → Prop
  | nil (id : NodeId) : DeclaresSlots s span takes id [] [] []
  | refuse {id : NodeId} {slot : Slot} {slots : List Slot} {sym : VarSymbol} {v : Literal}
      {refused : List Stmt} {taken : List (Slot × Stmt)} (hsym : s.var? slot.var = some sym)
      (hv : defaultLiteral? sym.ty.erasure = some v) (htakes : takes slot.binding = false)
      (rest : DeclaresSlots s span takes (id + 2) slots refused taken) :
      DeclaresSlots s span takes id (slot :: slots)
        (declNode id span slot.var sym.ty.erasure v :: refused) taken
  | take {id : NodeId} {slot : Slot} {slots : List Slot} {sym : VarSymbol} {v : Literal}
      {refused : List Stmt} {taken : List (Slot × Stmt)} (hsym : s.var? slot.var = some sym)
      (hv : defaultLiteral? sym.ty.erasure = some v) (htakes : takes slot.binding = true)
      (rest : DeclaresSlots s span takes (id + 2) slots refused taken) :
      DeclaresSlots s span takes id (slot :: slots) refused
        ((slot, declNode id span slot.var sym.ty.erasure v) :: taken)

/-- What is offered is taken over, or it is refused and stays. -/
theorem offer_eq_ok {slot : Slot} {i : StmtInfo} {value : Option Expr} {refused : List Stmt}
    (h : offer slot.binding (.decl i slot.var value) p = .ok refused p') :
    (p.stack.takes p.symbols slot.binding = true ∧ refused = []
        ∧ p' = { p with stack := p.stack.give [(slot, .decl i slot.var value)] })
      ∨ (p.stack.takes p.symbols slot.binding = false ∧ refused = [.decl i slot.var value]
        ∧ p' = p) := by
  unfold offer at h
  rw [Stack.hoist?_decl] at h
  cases htakes : p.stack.takes p.symbols slot.binding with
  | true =>
      rw [htakes, if_pos rfl] at h
      injection h with hr hp
      exact .inl ⟨rfl, hr.symm, hp.symm⟩
  | false =>
      rw [htakes, if_neg (by simp)] at h
      injection h with hr hp
      exact .inr ⟨rfl, hr.symm, hp.symm⟩

/-- Each slot is declared, and its declaration taken over or refused. -/
theorem declareSlots_eq_ok {span : Span} : ∀ {slots : List Slot} {refused : List Stmt}
    {p p' : Pass}, declareSlots span slots p = .ok refused p' →
      ∃ taken, DeclaresSlots p.symbols span (p.stack.takes p.symbols) p.maker.next slots refused taken
        ∧ p' = { p with
            stack := p.stack.give taken
            maker := ⟨p.maker.next + 2 * slots.length,
              if slots.isEmpty then p.maker.span else span⟩ }
  | [], refused, p, p', h => by
      obtain ⟨rfl, rfl⟩ := pure_eq_ok.mp h
      exact ⟨[], .nil _, by simp⟩
  | slot :: slots, refused, p, p', h => by
      obtain ⟨d, p₁, hd, htail⟩ := bind_eq_ok.mp h
      obtain ⟨sym, v, hsym, hv, rfl, rfl⟩ := storageDecl_eq_ok hd
      obtain ⟨kept, p₂, hoffer, hrest⟩ := bind_eq_ok.mp htail
      obtain ⟨others, p₃, hslots, hpure⟩ := bind_eq_ok.mp hrest
      obtain ⟨rfl, rfl⟩ := pure_eq_ok.mp hpure
      have hnext : ∀ n : Nat, n + 2 + 2 * slots.length = n + 2 * (slots.length + 1) := by
        intro n
        omega
      rcases offer_eq_ok hoffer with ⟨htakes, rfl, rfl⟩ | ⟨htakes, rfl, rfl⟩
      · obtain ⟨taken, hdecl, rfl⟩ := declareSlots_eq_ok hslots
        simp only [Stack.takes_give] at hdecl
        refine ⟨_, .take hsym hv htakes hdecl, ?_⟩
        simp [Stack.give_give, hnext, declNode]
      · obtain ⟨taken, hdecl, rfl⟩ := declareSlots_eq_ok hslots
        refine ⟨_, .refuse hsym hv htakes hdecl, ?_⟩
        simp [hnext]

/-- A statement is decorated with the declarations that are refused. -/
theorem decorateStmt_eq_ok {stmt : Stmt} {d : Decorated} (h : decorateStmt stmt p = .ok d p') :
    ∃ refused taken, DeclaresSlots p.symbols stmt.span (p.stack.takes p.symbols) p.maker.next
        p.stack.current.slots refused taken
      ∧ d = ⟨refused, stmt⟩
      ∧ p' = { p with
          stack := p.stack.give taken
          maker := ⟨p.maker.next + 2 * p.stack.current.slots.length,
            if p.stack.current.slots.isEmpty then p.maker.span else stmt.span⟩ } := by
  obtain ⟨q, p₁, hget, hrest⟩ := bind_eq_ok.mp h
  injection hget with hq hp
  subst hq hp
  obtain ⟨refused, p₂, hslots, hpure⟩ := bind_eq_ok.mp hrest
  obtain ⟨rfl, rfl⟩ := pure_eq_ok.mp hpure
  obtain ⟨taken, hdecl, rfl⟩ := declareSlots_eq_ok hslots
  exact ⟨refused, taken, hdecl, rfl, rfl⟩

/-- A statement as it is, or in a block behind its declarations. -/
theorem close_eq_ok {d : Decorated} {s : Stmt} (h : d.close p = .ok s p') :
    (d.decls = [] ∧ s = d.stmt ∧ p' = p)
      ∨ (d.decls ≠ [] ∧ s = .block ⟨p.maker.next, d.stmt.span⟩ (d.decls ++ [d.stmt])
        ∧ p' = { p with maker := ⟨p.maker.next + 1, d.stmt.span⟩ }) := by
  obtain ⟨decls, stmt⟩ := d
  cases decls with
  | nil =>
      obtain ⟨rfl, rfl⟩ := pure_eq_ok.mp h
      exact .inl ⟨rfl, rfl, rfl⟩
  | cons decl decls =>
      obtain ⟨_, p₁, hmove, hmake⟩ := bind_eq_ok.mp h
      obtain ⟨-, rfl⟩ := making_eq_ok hmove
      obtain ⟨rfl, rfl⟩ := making_eq_ok hmake
      exact .inr ⟨by simp, rfl, rfl⟩

/-- The state after a block has emitted what it accepted. -/
def Pass.emit (p : Pass) : Pass :=
  { p with stack := { p.stack with current := { p.stack.current with hoisted := [] } } }

/-- What a block has taken over is emitted. -/
theorem takeHoisted_eq_ok {decls : List Stmt} (h : takeHoisted p = .ok decls p') :
    decls = p.stack.current.hoisted ∧ p' = p.emit := by
  injection h with hd hp
  exact ⟨hd.symm, hp.symm⟩

/-! ## §4. Patterns. -/

/-- A reference becomes one to the variable of its binding. -/
theorem lowerRef_eq_ok {b : BindingId} {ty : Ty} {span : Span} {e : Expr}
    (h : lowerRef b ty span p = .ok e p') :
    ∃ var, p.stack.resolve p.symbols b = some var
      ∧ e = .ident ⟨p.maker.next, ty, span⟩ (.var var)
      ∧ p' = { p with maker := ⟨p.maker.next + 1, span⟩ } := by
  obtain ⟨found, p₁, hresolve, hrest⟩ := bind_eq_ok.mp h
  obtain ⟨rfl, rfl⟩ := resolve_eq_ok hresolve
  cases hvar : p₁.stack.resolve p₁.symbols b with
  | some var =>
      rw [hvar] at hrest
      obtain ⟨_, p₂, hmove, hmake⟩ := bind_eq_ok.mp hrest
      obtain ⟨-, rfl⟩ := making_eq_ok hmove
      obtain ⟨rfl, rfl⟩ := making_eq_ok hmake
      exact ⟨var, rfl, rfl, rfl⟩
  | none =>
      rw [hvar] at hrest
      obtain ⟨q, p₂, hget, hthrow⟩ := bind_eq_ok.mp hrest
      injection hget with hq hp
      subst hq hp
      cases hb : p₁.symbols.binding? b with
      | some symbol =>
          rw [hb] at hthrow
          injection hthrow
      | none =>
          rw [hb] at hthrow
          injection hthrow

/-- The temporary `temp`, as its type or as the type of the pattern. -/
def heldNode (id : NodeId) (span : Span) (temp : VarId) (tempTy : Ty) : Expr :=
  .ident ⟨id, tempTy, span⟩ (.var temp)

/-- A cast as the pass makes it. -/
def castNode (id : NodeId) (span : Span) (target : Ty) (e : Expr) : Expr :=
  .cast ⟨id, target, span⟩ target e

/-- `x = (T) t` -/
def assignNode (id : NodeId) (span : Span) (var temp : VarId) (varTy target tempTy : Ty) : Expr :=
  .assign ⟨id + 3, varTy, span⟩ (.ident ⟨id, varTy, span⟩ (.var var))
    (castNode (id + 2) span target (heldNode (id + 1) span temp tempTy))

/-- `(x = (T) t) == (T) t`, for a primitive `x` with the left side boxed again. -/
def storeNode (id : NodeId) (span : Span) (var temp : VarId) (varTy target tempTy : Ty) : Expr :=
  if varTy.isPrimitive then
    .binary ⟨id + 7, .boolean, span⟩ .eq
      (castNode (id + 4) span target (assignNode id span var temp varTy target tempTy))
      (castNode (id + 6) span target (heldNode (id + 5) span temp tempTy))
  else
    .binary ⟨id + 6, .boolean, span⟩ .eq (assignNode id span var temp varTy target tempTy)
      (castNode (id + 5) span target (heldNode (id + 4) span temp tempTy))

/-- How many nodes `storeNode` has. -/
def storeSize (varTy : Ty) : Nat := if varTy.isPrimitive then 8 else 7

/-- The test of the temporary, or `true` for a certain match. -/
def matchNode (id : NodeId) (span : Span) (isCertain : Bool) (temp : VarId) (target tempTy : Ty) :
    Expr :=
  if isCertain then .literal ⟨id, .boolean, span⟩ (.bool true)
  else .instanceOf ⟨id + 1, .boolean, span⟩ (heldNode id span temp tempTy) target

/-- How many nodes `matchNode` has. -/
def matchSize (isCertain : Bool) : Nat := if isCertain then 1 else 2

/-- Storing a match assigns the temporary, converted to the type of the variable. -/
theorem storeMatch_eq_ok {var temp : VarId} {target tempTy : Ty} {e : Expr}
    (h : storeMatch var temp target tempTy p = .ok e p') :
    ∃ sym, p.symbols.var? var = some sym
      ∧ e = storeNode p.maker.next p.maker.span var temp sym.ty.erasure target tempTy
      ∧ p' = { p with
          maker := { p.maker with next := p.maker.next + storeSize sym.ty.erasure } } := by
  obtain ⟨ty, p₁, hty, hrest⟩ := bind_eq_ok.mp h
  obtain ⟨sym, hsym, rfl, rfl⟩ := storageType_eq_ok hty
  refine ⟨sym, hsym, ?_⟩
  -- all that is left are nodes made one after the other, one more for a primitive
  unfold storeNode storeSize
  cases hprim : sym.ty.erasure.isPrimitive with
  | true =>
      simp only [hprim, if_true] at hrest ⊢
      injection hrest with he hp
      exact ⟨he.symm, hp.symm⟩
  | false =>
      simp only [hprim, Bool.false_eq_true, if_false] at hrest ⊢
      injection hrest with he hp
      exact ⟨he.symm, hp.symm⟩

/-- The tree that a type test of the temporary becomes, and how many nodes it
has: with storage, whose variable and type are given, the match is stored. -/
inductive IsTest (span : Span) (isCertain : Bool) (temp : VarId) (target tempTy : Ty)
    (id : NodeId) : (storage : Option (VarId × Ty)) → Expr → (size : Nat) → Prop
  | plain : IsTest span isCertain temp target tempTy id none
      (matchNode id span isCertain temp target tempTy) (matchSize isCertain)
  | stored (var : VarId) (varTy : Ty) : IsTest span isCertain temp target tempTy id
      (some (var, varTy))
      (.binary ⟨id + matchSize isCertain + storeSize varTy, .boolean, span⟩ .and
        (matchNode id span isCertain temp target tempTy)
        (storeNode (id + matchSize isCertain) span var temp varTy target tempTy))
      (matchSize isCertain + storeSize varTy + 1)

/-- The storage of a binding with the type it is written with. -/
def storageOf (st : Stack) (s : Symbols) (b : BindingId) : Option (VarId × Ty) :=
  (st.resolve s b).bind fun var => (s.var? var).map fun sym => (var, sym.ty.erasure)

/-- The type of the temporary for an operand. -/
def tempTy (operandTy : Ty) : Ty := if operandTy.isNull then .object else operandTy

/-- The symbols after the temporary of a pattern has been added. -/
def addTemp (s : Symbols) (symbol : BindingSymbol) (operandTy : Ty) : Symbols :=
  (s.addVar (symbol.name ++ "$temp") (tempTy operandTy) symbol.owner true).2

/-- The second half of a type test, from where the temporary is tested. -/
theorem storeTest_eq_ok {span : Span} (isCertain : Bool) {temp : VarId} {target ty : Ty}
    {id : NodeId} {b : BindingId} {operand e : Expr} {s : Symbols} {st : Stack}
    (h : (resolve b >>= fun found => match found with
        | some var => storeMatch var temp target ty >>= fun stored =>
            making (Maker.binary .and (matchNode id span isCertain temp target ty) stored) >>= fun test =>
              making (Maker.letIn [(temp, operand)] test)
        | none =>
            making (Maker.letIn [(temp, operand)] (matchNode id span isCertain temp target ty)))
      (⟨s, st, ⟨id + matchSize isCertain, span⟩⟩ : Pass) = .ok e p') :
    ∃ test size, IsTest span isCertain temp target ty id (storageOf st s b) test size
      ∧ ((st.resolve s b).isSome → (storageOf st s b).isSome)
      ∧ e = .letIn ⟨id + size, .boolean, span⟩ [(temp, operand)] test
      ∧ p' = ⟨s, st, ⟨id + size + 1, span⟩⟩ := by
  have hty : (matchNode id span isCertain temp target ty).ty = .boolean := by
    cases isCertain <;> rfl
  obtain ⟨found, q, hresolve, hrest⟩ := bind_eq_ok.mp h
  obtain ⟨rfl, rfl⟩ := resolve_eq_ok hresolve
  cases hvar : st.resolve s b with
  | none =>
      simp only [hvar] at hrest
      obtain ⟨rfl, rfl⟩ := making_eq_ok hrest
      have hnone : storageOf st s b = none := by
        rw [storageOf, hvar]
        rfl
      rw [hnone]
      refine ⟨_, _, .plain, by simp, ?_, rfl⟩
      show Expr.letIn ⟨_, (matchNode id span isCertain temp target ty).ty, _⟩ _ _ = _
      rw [hty]
  | some var =>
      simp only [hvar] at hrest
      obtain ⟨stored, q₁, hstore, hand⟩ := bind_eq_ok.mp hrest
      obtain ⟨sym, hsym, rfl, rfl⟩ := storeMatch_eq_ok hstore
      obtain ⟨test, q₂, htest, hlet⟩ := bind_eq_ok.mp hand
      obtain ⟨rfl, rfl⟩ := making_eq_ok htest
      obtain ⟨rfl, rfl⟩ := making_eq_ok hlet
      have hsome : storageOf st s b = some (var, sym.ty.erasure) := by
        have hsym' : s.var? var = some sym := hsym
        rw [storageOf, hvar, Option.bind_some, hsym']
        rfl
      -- the nodes of the store are numbered behind those of the match
      have hsize : id + (matchSize isCertain + storeSize sym.ty.erasure + 1)
          = id + matchSize isCertain + storeSize sym.ty.erasure + 1 := by
        rw [Nat.add_assoc id, Nat.add_assoc id]
      rw [hsome]
      refine ⟨_, _, .stored var sym.ty.erasure, by simp, ?_, ?_⟩
      · rw [hsize]
        rfl
      · rw [hsize]
        rfl

/-- **A type test becomes a test for a match**, which stores it if there is a slot. -/
theorem lowerTest_eq_ok {rules : Rules} {operandTy : Ty} {operand e : Expr}
    {pattern : BindingPattern} {span : Span}
    (h : lowerTest rules operandTy operand pattern span p = .ok e p') :
    ∃ symbol test size, p.symbols.binding? pattern.binding = some symbol
      ∧ IsTest span (certain rules operandTy pattern symbol.ty.erasure.boxed)
          ⟨p.symbols.vars.size⟩ symbol.ty.erasure.boxed (tempTy operandTy) p.maker.next
          (storageOf p.stack (addTemp p.symbols symbol operandTy) pattern.binding) test size
      ∧ ((p.stack.resolve p.symbols pattern.binding).isSome
          → (storageOf p.stack (addTemp p.symbols symbol operandTy) pattern.binding).isSome)
      ∧ e = .letIn ⟨p.maker.next + size, .boolean, span⟩ [(⟨p.symbols.vars.size⟩, operand)] test
      ∧ p' = ⟨addTemp p.symbols symbol operandTy, p.stack, ⟨p.maker.next + size + 1, span⟩⟩ := by
  obtain ⟨q, p₁, hget, hrest⟩ := bind_eq_ok.mp h
  injection hget with hq hp
  subst hq hp
  cases hb : p.symbols.binding? pattern.binding with
  | none =>
      rw [hb] at hrest
      injection hrest
  | some symbol =>
      rw [hb] at hrest
      refine ⟨symbol, ?_⟩
      obtain ⟨temp, p₂, htemp, hmove⟩ := bind_eq_ok.mp hrest
      injection htemp with htemp hp
      subst htemp hp
      obtain ⟨_, p₃, hmoved, htest⟩ := bind_eq_ok.mp hmove
      obtain ⟨-, rfl⟩ := making_eq_ok hmoved
      -- the temporary is made in any case; only a test that is not certain makes a node to hold it
      cases hc : certain rules operandTy pattern symbol.ty.erasure.boxed with
      | true =>
          rw [if_pos hc] at htest
          obtain ⟨base, p₄, hbase, hstore⟩ := bind_eq_ok.mp htest
          obtain ⟨rfl, rfl⟩ := making_eq_ok hbase
          obtain ⟨test, size, hrest⟩ := storeTest_eq_ok true hstore
          exact ⟨test, size, rfl, hrest⟩
      | false =>
          rw [if_neg (by simp [hc])] at htest
          obtain ⟨held, p₄, hheld, hinst⟩ := bind_eq_ok.mp htest
          obtain ⟨rfl, rfl⟩ := making_eq_ok hheld
          obtain ⟨base, p₅, hbase, hstore⟩ := bind_eq_ok.mp hinst
          obtain ⟨rfl, rfl⟩ := making_eq_ok hbase
          obtain ⟨test, size, hrest⟩ := storeTest_eq_ok false hstore
          exact ⟨test, size, rfl, hrest⟩

/-! ## §5. Forms that get a frame. -/

/-- The operands are lowered in the frame of what they are asked for. -/
theorem lowerExpr_binary_eq_ok {i : ExprInfo} {op : BinOp} {l r e : Expr}
    (h : lowerExpr rules (.binary i op l r) p = .ok e p') :
    ∃ bs p₁ l' q₁ r' q₂ q, operandFacts rules.flow op l p = .ok bs p₁
      ∧ lowerExpr rules l (p₁.enter .binary bs) = .ok l' q₁
      ∧ lowerExpr rules r q₁ = .ok r' q₂
      ∧ decorateExpr (.binary i op l' r') q₂ = .ok e q
      ∧ p' = { q with stack := q.stack.pop } := by
  obtain ⟨bs, p₁, hfacts, hwithin⟩ := bind_eq_ok.mp h
  obtain ⟨q, hbody, rfl⟩ := within_eq_ok hwithin
  obtain ⟨l', q₁, hl, hrest⟩ := bind_eq_ok.mp hbody
  obtain ⟨r', q₂, hr, hdec⟩ := bind_eq_ok.mp hrest
  exact ⟨bs, p₁, l', q₁, r', q₂, q, hfacts, hl, hr, hdec, rfl⟩

/-- The choices are lowered in the frame of the condition. -/
theorem lowerExpr_conditional_eq_ok {i : ExprInfo} {c y n e : Expr}
    (h : lowerExpr rules (.conditional i c y n) p = .ok e p') :
    ∃ bs p₁ c' q₁ y' q₂ n' q₃ q, asking (rules.flow.all c) p = .ok bs p₁
      ∧ lowerExpr rules c (p₁.enter .conditional bs) = .ok c' q₁
      ∧ lowerExpr rules y q₁ = .ok y' q₂
      ∧ lowerExpr rules n q₂ = .ok n' q₃
      ∧ decorateExpr (.conditional i c' y' n') q₃ = .ok e q
      ∧ p' = { q with stack := q.stack.pop } := by
  obtain ⟨bs, p₁, hask, hwithin⟩ := bind_eq_ok.mp h
  obtain ⟨q, hbody, rfl⟩ := within_eq_ok hwithin
  obtain ⟨c', q₁, hc, hrest₁⟩ := bind_eq_ok.mp hbody
  obtain ⟨y', q₂, hy, hrest₂⟩ := bind_eq_ok.mp hrest₁
  obtain ⟨n', q₃, hn, hdec⟩ := bind_eq_ok.mp hrest₂
  exact ⟨bs, p₁, c', q₁, y', q₂, n', q₃, q, hask, hc, hy, hn, hdec, rfl⟩

/-- A block is lowered in a frame of its own. -/
theorem lowerParts_block_eq_ok {i : StmtInfo} {ss : List Stmt} {d : Decorated}
    (h : lowerParts rules (.block i ss) p = .ok d p') :
    ∃ out q, lowerBlock rules ss (p.enter .block []) = .ok out q ∧ d = ⟨[], .block i out⟩
      ∧ p' = { q with stack := q.stack.pop } := by
  obtain ⟨q, hbody, rfl⟩ := within_eq_ok h
  obtain ⟨out, hout, rfl⟩ := bind_pure_eq_ok.mp hbody
  exact ⟨out, q, hout, rfl, rfl⟩

/-- The branches are lowered and closed in the frame of the condition. -/
theorem lowerParts_ifElse_eq_ok {i : StmtInfo} {c : Expr} {y : Stmt} {n : Option Stmt}
    {d : Decorated} (h : lowerParts rules (.ifElse i c y n) p = .ok d p') :
    ∃ bs p₁ c' q₁ dy q₂ y' q₃ n' q₄ q, asking (rules.flow.all c) p = .ok bs p₁
      ∧ lowerExpr rules c (p₁.enter .statement bs) = .ok c' q₁
      ∧ lowerParts rules y q₁ = .ok dy q₂ ∧ dy.close q₂ = .ok y' q₃
      ∧ lowerStmt? rules n q₃ = .ok n' q₄
      ∧ decorateStmt (.ifElse i c' y' n') q₄ = .ok d q
      ∧ p' = { q with stack := q.stack.pop } := by
  obtain ⟨bs, p₁, hask, hwithin⟩ := bind_eq_ok.mp h
  obtain ⟨q, hbody, rfl⟩ := within_eq_ok hwithin
  obtain ⟨c', q₁, hc, hrest₁⟩ := bind_eq_ok.mp hbody
  obtain ⟨dy, q₂, hy, hrest₂⟩ := bind_eq_ok.mp hrest₁
  obtain ⟨y', q₃, hclose, hrest₃⟩ := bind_eq_ok.mp hrest₂
  obtain ⟨n', q₄, hn, hdec⟩ := bind_eq_ok.mp hrest₃
  exact ⟨bs, p₁, c', q₁, dy, q₂, y', q₃, n', q₄, q, hask, hc, hy, hclose, hn, hdec, rfl⟩

/-- The body is lowered and closed in the frame of the condition. -/
theorem lowerParts_whileDo_eq_ok {i : StmtInfo} {c : Expr} {b : Stmt} {d : Decorated}
    (h : lowerParts rules (.whileDo i c b) p = .ok d p') :
    ∃ bs p₁ c' q₁ db q₂ b' q₃ q, asking (rules.flow.all c) p = .ok bs p₁
      ∧ lowerExpr rules c (p₁.enter .statement bs) = .ok c' q₁
      ∧ lowerParts rules b q₁ = .ok db q₂ ∧ db.close q₂ = .ok b' q₃
      ∧ decorateStmt (.whileDo i c' b') q₃ = .ok d q
      ∧ p' = { q with stack := q.stack.pop } := by
  obtain ⟨bs, p₁, hask, hwithin⟩ := bind_eq_ok.mp h
  obtain ⟨q, hbody, rfl⟩ := within_eq_ok hwithin
  obtain ⟨c', q₁, hc, hrest₁⟩ := bind_eq_ok.mp hbody
  obtain ⟨db, q₂, hb, hrest₂⟩ := bind_eq_ok.mp hrest₁
  obtain ⟨b', q₃, hclose, hdec⟩ := bind_eq_ok.mp hrest₂
  exact ⟨bs, p₁, c', q₁, db, q₂, b', q₃, q, hask, hc, hb, hclose, hdec, rfl⟩

/-- So it is, in front of the condition. -/
theorem lowerParts_doWhile_eq_ok {i : StmtInfo} {b : Stmt} {c : Expr} {d : Decorated}
    (h : lowerParts rules (.doWhile i b c) p = .ok d p') :
    ∃ bs p₁ db q₁ b' q₂ c' q₃ q, asking (rules.flow.all c) p = .ok bs p₁
      ∧ lowerParts rules b (p₁.enter .statement bs) = .ok db q₁ ∧ db.close q₁ = .ok b' q₂
      ∧ lowerExpr rules c q₂ = .ok c' q₃
      ∧ decorateStmt (.doWhile i b' c') q₃ = .ok d q
      ∧ p' = { q with stack := q.stack.pop } := by
  obtain ⟨bs, p₁, hask, hwithin⟩ := bind_eq_ok.mp h
  obtain ⟨q, hbody, rfl⟩ := within_eq_ok hwithin
  obtain ⟨db, q₁, hb, hrest₁⟩ := bind_eq_ok.mp hbody
  obtain ⟨b', q₂, hclose, hrest₂⟩ := bind_eq_ok.mp hrest₁
  obtain ⟨c', q₃, hc, hdec⟩ := bind_eq_ok.mp hrest₂
  exact ⟨bs, p₁, db, q₁, b', q₂, c', q₃, q, hask, hb, hclose, hc, hdec, rfl⟩

/-- What begins the loop, its condition, its steps and its body, in this order. -/
theorem lowerParts_forDo_eq_ok {i : StmtInfo} {ss : List Stmt} {c : Option Expr} {es : List Expr}
    {b : Stmt} {d : Decorated} (h : lowerParts rules (.forDo i ss c es b) p = .ok d p') :
    ∃ bs p₁ ss' q₁ c' q₂ es' q₃ db q₄ b' q₅ q, condFacts? rules.flow c p = .ok bs p₁
      ∧ lowerStmts rules ss (p₁.enter .statement bs) = .ok ss' q₁
      ∧ lowerExpr? rules c q₁ = .ok c' q₂
      ∧ lowerExprs rules es q₂ = .ok es' q₃
      ∧ lowerParts rules b q₃ = .ok db q₄ ∧ db.close q₄ = .ok b' q₅
      ∧ decorateStmt (.forDo i ss' c' es' b') q₅ = .ok d q
      ∧ p' = { q with stack := q.stack.pop } := by
  obtain ⟨bs, p₁, hask, hwithin⟩ := bind_eq_ok.mp h
  obtain ⟨q, hbody, rfl⟩ := within_eq_ok hwithin
  obtain ⟨ss', q₁, hss, hrest₁⟩ := bind_eq_ok.mp hbody
  obtain ⟨c', q₂, hc, hrest₂⟩ := bind_eq_ok.mp hrest₁
  obtain ⟨es', q₃, hes, hrest₃⟩ := bind_eq_ok.mp hrest₂
  obtain ⟨db, q₄, hb, hrest₄⟩ := bind_eq_ok.mp hrest₃
  obtain ⟨b', q₅, hclose, hdec⟩ := bind_eq_ok.mp hrest₄
  exact ⟨bs, p₁, ss', q₁, c', q₂, es', q₃, db, q₄, b', q₅, q, hask, hss, hc, hes, hb, hclose,
    hdec, rfl⟩

/-! ## §6. Statement after statement. -/

/-- In a block, what a statement needs declared stands in front of it. -/
theorem lowerBlock_cons_eq_ok {s : Stmt} {ss out : List Stmt}
    (h : lowerBlock rules (s :: ss) p = .ok out p') :
    ∃ d p₁ s' p₂ rest, lowerParts rules s p = .ok d p₁ ∧ d.close p₁ = .ok s' p₂
      ∧ lowerBlock rules ss p₂.emit = .ok rest p'
      ∧ out = p₂.stack.current.hoisted ++ s' :: rest := by
  obtain ⟨d, p₁, hd, hrest₁⟩ := bind_eq_ok.mp h
  obtain ⟨s', p₂, hclose, hrest₂⟩ := bind_eq_ok.mp hrest₁
  obtain ⟨hoisted, p₃, rest, htake, hrest, rfl⟩ := bind_bind_pure_eq_ok.mp hrest₂
  obtain ⟨rfl, rfl⟩ := takeHoisted_eq_ok htake
  exact ⟨d, p₁, s', p₂, rest, hd, hclose, hrest, rfl⟩

/-- A statement, closed, then the others. -/
theorem lowerStmts_cons_eq_ok {s : Stmt} {ss out : List Stmt}
    (h : lowerStmts rules (s :: ss) p = .ok out p') :
    ∃ d p₁ s' p₂ rest, lowerParts rules s p = .ok d p₁ ∧ d.close p₁ = .ok s' p₂
      ∧ lowerStmts rules ss p₂ = .ok rest p' ∧ out = s' :: rest := by
  obtain ⟨d, p₁, hd, hrest₁⟩ := bind_eq_ok.mp h
  obtain ⟨s', p₂, rest, hclose, hrest, rfl⟩ := bind_bind_pure_eq_ok.mp hrest₁
  exact ⟨d, p₁, s', p₂, rest, hd, hclose, hrest, rfl⟩

/-- A branch that is there is lowered and closed. -/
theorem lowerStmt?_some_eq_ok {s : Stmt} {out : Option Stmt}
    (h : lowerStmt? rules (some s) p = .ok out p') :
    ∃ d p₁ s', lowerParts rules s p = .ok d p₁ ∧ d.close p₁ = .ok s' p' ∧ out = some s' := by
  obtain ⟨d, p₁, s', hd, hclose, rfl⟩ := bind_bind_pure_eq_ok.mp h
  exact ⟨d, p₁, s', hd, hclose, rfl⟩

end Lowering

end PatternIR
