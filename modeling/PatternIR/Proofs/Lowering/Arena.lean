/-
  PatternIR.Proofs.Lowering.Arena
  ───────────────────────────────
  **THE FRAMES IN AN ARENA, and which variable a binding has.**

  Frames can as well stand in the order of their creation, each with the number
  of its parent, and the search for a binding follow the parents.  Whatever is
  entered, left and hoisted, the parent of a frame is the one before it and the
  current frame is the last one, so the search sees the frames of the stack.

  On them no two slots with different variables are for aliases.  That makes
  the first hit the only one: a binding of the source has one variable at most,
  and keeps it while frames are entered.

    • `Arena.Linked`, `Arena.Shows` — the arena, and the stack that it shows;
    • `Stack.Separate` — slots with different variables are not for aliases;
    • `Arena.run_keeps` — both hold after every run of operations.
-/
import PatternIR.Proofs.Lowering.Places
import PatternIR.Proofs.Symbols.Interning

namespace PatternIR

/-! ## §1. Operations. -/

/-- What is done to frames, in between changes of the table. -/
inductive FrameOp where
  | push (kind : FrameKind) (bindings : List BindingId)
  | pop
  /-- Offer the storage of a slot to the parent of the current frame. -/
  | hoist (slot : Slot) (decl : Stmt)
  | table (op : TableOp)

/-- The stack and the table after an operation. -/
def Stack.apply (st : Stack) (s : Symbols) : FrameOp → Stack × Symbols
  | .push kind bs => st.push kind bs s
  | .pop => (st.pop, s)
  | .hoist slot decl => ((st.hoist? s slot.binding decl).getD st, s)
  | .table op => (st, op.apply s)

/-! ## §2. The arena. -/

/-- A frame, and the number of the frame around it. -/
structure LinkedFrame where
  frame : Frame
  parent : Option Nat

/-- Frames in the order of their creation, and the number of the current one. -/
structure Arena where
  frames : List LinkedFrame
  current : Nat

namespace Arena

/-- Only the root. -/
def bare : Arena := ⟨[⟨⟨.root, [], []⟩, none⟩], 0⟩

/-- The frames from one outwards, along their parents, in so many steps. -/
def chainFrom (frames : List LinkedFrame) : (steps : Nat) → (id : Nat) → List Frame
  | 0, _ => []
  | steps + 1, id =>
    match frames[id]? with
    | none => []
    | some f => f.frame :: match f.parent with
      | none => []
      | some parent => chainFrom frames steps parent

/-- The frames from the current one outwards.  A way on which no frame comes
twice has no more steps than there are frames. -/
def chain (a : Arena) : List Frame := chainFrom a.frames a.frames.length a.current

/-- The chain as a stack. -/
def view (a : Arena) : Stack :=
  match a.chain with
  | [] => .bare
  | f :: fs => ⟨f, fs⟩

/-- The storage of a binding, searched from the current frame outwards. -/
def resolve (a : Arena) (s : Symbols) (b : BindingId) : Option VarId :=
  a.chain.findSome? fun f => f.resolve s b

/-- The slots of the current frame. -/
def slots (a : Arena) : List Slot := ((a.frames[a.current]?).map (·.frame.slots)).getD []

/-- Enter a construct.  What has storage already is seen along the chain. -/
def push (a : Arena) (kind : FrameKind) (bindings : List BindingId) (s : Symbols) : Arena × Symbols :=
  let (slots, s) := a.view.allocate [] bindings s
  (⟨a.frames ++ [⟨⟨kind, slots, []⟩, some a.current⟩], a.frames.length⟩, s)

/-- Remove the last frame; its parent becomes the current one. -/
def pop (a : Arena) : Arena :=
  match a.frames.getLast? with
  | none => a
  | some f => ⟨a.frames.dropLast, f.parent.getD a.current⟩

/-- Offer the declaration of a binding to the parent of the current frame. -/
def hoist? (a : Arena) (s : Symbols) (b : BindingId) (decl : Stmt) : Option Arena := do
  let f ← a.frames[a.current]?
  let id ← f.parent
  let parent ← a.frames[id]?
  if parent.frame.kind.acceptsHoist ((s.binding? b).any (·.preserved)) then
    let var ← Stack.declaredVar? decl
    some { a with frames := a.frames.set id { parent with frame := { parent.frame with
      slots := parent.frame.slots ++ [⟨b, var⟩]
      hoisted := parent.frame.hoisted ++ [decl] } } }
  else none

/-- The arena and the table after an operation. -/
def apply (a : Arena) (s : Symbols) : FrameOp → Arena × Symbols
  | .push kind bs => a.push kind bs s
  | .pop => (a.pop, s)
  | .hoist slot decl => ((a.hoist? s slot.binding decl).getD a, s)
  | .table op => (a, op.apply s)

/-- What may be done: only a frame that was entered is left, and a hoist offers
a slot of the current frame with the declaration of its variable. -/
def Allows (a : Arena) : FrameOp → Prop
  | .pop => 1 < a.frames.length
  | .hoist slot decl => slot ∈ a.slots ∧ Stack.declaredVar? decl = some slot.var
  | .push _ _ | .table _ => True

/-- The arena and the table after operations one after the other. -/
inductive Run : Arena → Symbols → List FrameOp → Arena → Symbols → Prop
  | done {a : Arena} {s : Symbols} : Run a s [] a s
  | step {a a' : Arena} {s s' : Symbols} {op : FrameOp} {ops : List FrameOp} (allowed : a.Allows op)
      (rest : Run (a.apply s op).1 (a.apply s op).2 ops a' s') : Run a s (op :: ops) a' s'

/-! ## §3. Parents. -/

/-- The parent of a frame is the one before it, and the current frame is the last. -/
structure Linked (a : Arena) : Prop where
  current : a.current + 1 = a.frames.length
  root : ∀ {f : LinkedFrame}, a.frames[0]? = some f → f.parent = none
  parent : ∀ {i : Nat} {f : LinkedFrame}, a.frames[i + 1]? = some f → f.parent = some i

/-- The arena has the frames of the stack, the root first. -/
structure Shows (a : Arena) (st : Stack) : Prop where
  linked : a.Linked
  frames : a.frames.map (·.frame) = st.frames.reverse

variable {a a' : Arena} {st : Stack} {s s' : Symbols}

/-- Along the parents all frames are seen, from the last to the first. -/
theorem Linked.chainFrom (h : a.Linked) : ∀ {steps id : Nat}, id < steps → id < a.frames.length →
    chainFrom a.frames steps id = ((a.frames.take (id + 1)).map (·.frame)).reverse
  | steps + 1, 0, _, hid => by
      rw [Arena.chainFrom, List.getElem?_eq_getElem hid]
      simp only [h.root (List.getElem?_eq_getElem hid)]
      rw [List.take_succ_eq_append_getElem hid]
      simp
  | steps + 1, id + 1, hsteps, hid => by
      rw [Arena.chainFrom, List.getElem?_eq_getElem hid]
      simp only [h.parent (List.getElem?_eq_getElem hid)]
      rw [h.chainFrom (Nat.lt_of_succ_lt_succ hsteps) (Nat.lt_of_succ_lt hid),
        List.take_succ_eq_append_getElem hid, List.map_append, List.reverse_append]
      rfl

/-- There is a frame in the table for each one that is open. -/
theorem Shows.length (h : a.Shows st) : a.frames.length = st.enclosing.length + 1 := by
  have hlength := congrArg List.length h.frames
  simpa [Stack.frames] using hlength

/-- The chain of parents is the stack. -/
theorem Shows.chain (h : a.Shows st) : a.chain = st.frames := by
  have hcurrent : a.current < a.frames.length := by
    have := h.linked.current
    omega
  rw [Arena.chain, h.linked.chainFrom hcurrent hcurrent, h.linked.current, List.take_length, h.frames,
    List.reverse_reverse]

/-- The current frame and those around it are the stack. -/
theorem Shows.view (h : a.Shows st) : a.view = st := by
  rw [Arena.view, h.chain]
  rfl

/-- A binding is resolved along the parents as it is in the stack. -/
theorem Shows.resolve (h : a.Shows st) (b : BindingId) : a.resolve s b = st.resolve s b := by
  rw [Arena.resolve, h.chain]
  rfl

/-- The slots of the current frame are its own. -/
theorem Shows.slots (h : a.Shows st) : a.slots = st.current.slots := by
  have hlength := h.length
  have hcurrent := h.linked.current
  have hlast : (a.frames.map (·.frame))[a.current]? = some st.current := by
    rw [h.frames, Stack.frames, List.reverse_cons, List.getElem?_append_right (by simp; omega)]
    simp [show a.current - st.enclosing.length = 0 by omega]
  rw [List.getElem?_map] at hlast
  obtain ⟨f, hf, hframe⟩ := Option.map_eq_some_iff.mp hlast
  rw [Arena.slots, hf, Option.map_some, Option.getD_some, hframe]

/-! ## §4. One operation. -/

/-- **Opening a frame** does the same to both. -/
theorem Shows.push (h : a.Shows st) (kind : FrameKind) (bs : List BindingId) (s : Symbols) :
    (a.push kind bs s).1.Shows (st.push kind bs s).1 ∧ (a.push kind bs s).2 = (st.push kind bs s).2 := by
  have hcurrent := h.linked.current
  unfold Arena.push Stack.push
  rw [h.view]
  refine ⟨⟨⟨by simp, ?_, ?_⟩, ?_⟩, rfl⟩
  · intro f hf
    rw [List.getElem?_append_left (by omega)] at hf
    exact h.linked.root hf
  · intro i f hf
    simp only at hf
    rcases Nat.lt_or_ge (i + 1) a.frames.length with hlt | hge
    · rw [List.getElem?_append_left hlt] at hf
      exact h.linked.parent hf
    · rw [List.getElem?_append_right hge, List.getElem?_singleton] at hf
      obtain ⟨hi, hf⟩ := Option.ite_none_right_eq_some.mp hf
      injection hf with hf
      subst hf
      exact congrArg some (by omega)
  · simp [Stack.frames, h.frames]

/-- **Closing a frame** does the same to both, if one was opened. -/
theorem Shows.pop (h : a.Shows st) (hentered : 1 < a.frames.length) : a.pop.Shows st.pop := by
  have hlength := h.length
  have hcurrent := h.linked.current
  obtain ⟨f, hf⟩ : ∃ f, a.frames[a.current]? = some f :=
    ⟨_, List.getElem?_eq_getElem (by omega)⟩
  have hlast : a.frames.getLast? = some f := by
    rw [List.getLast?_eq_getElem?, ← hf]
    congr 1
    omega
  obtain ⟨i, hi⟩ : ∃ i, a.current = i + 1 := ⟨a.current - 1, by omega⟩
  have hparent : f.parent = some i := h.linked.parent (hi ▸ hf)
  have hpop : a.pop = ⟨a.frames.dropLast, i⟩ := by
    rw [Arena.pop, hlast]
    simp only [hparent, Option.getD_some]
  have hkept : ∀ {j : Nat} {g : LinkedFrame}, a.frames.dropLast[j]? = some g → a.frames[j]? = some g := by
    intro j g hg
    rw [List.getElem?_dropLast] at hg
    exact (Option.ite_none_right_eq_some.mp hg).2
  rw [hpop]
  refine ⟨⟨?_, fun hg => h.linked.root (hkept hg), fun hg => h.linked.parent (hkept hg)⟩, ?_⟩
  · show i + 1 = a.frames.dropLast.length
    rw [List.length_dropLast]
    omega
  · cases henclosing : st.enclosing with
    | nil =>
        rw [henclosing] at hlength
        simp at hlength
        omega
    | cons parent rest =>
        simp only [Stack.pop, henclosing, List.map_dropLast, h.frames, Stack.frames, List.reverse_cons,
          List.dropLast_concat]

/-- The frame that the current one is in. -/
theorem Shows.parent (h : a.Shows st) {outer : Frame} {rest : List Frame} (henclosing : st.enclosing = outer :: rest) :
    ∃ f g, a.frames[a.current]? = some f ∧ f.parent = some rest.length
      ∧ a.frames[rest.length]? = some g ∧ g.frame = outer := by
  have hlength := h.length
  have hcurrent := h.linked.current
  rw [henclosing, List.length_cons] at hlength
  have houter : (a.frames.map (·.frame))[rest.length]? = some outer := by
    rw [h.frames, Stack.frames, henclosing]
    simp
  rw [List.getElem?_map] at houter
  obtain ⟨g, hg, hframe⟩ := Option.map_eq_some_iff.mp houter
  have hcurrent' : a.current = rest.length + 1 := by omega
  obtain ⟨f, hf⟩ : ∃ f, a.frames[rest.length + 1]? = some f :=
    ⟨_, List.getElem?_eq_getElem (by omega)⟩
  exact ⟨f, g, hcurrent' ▸ hf, h.linked.parent hf, hg, hframe⟩

/-- What is put in the place of a frame keeps the parents if it has the same one. -/
theorem Linked.set (h : a.Linked) {id : Nat} {f : LinkedFrame} (hf : a.frames[id]? = some f) (frame : Frame) :
    Linked { a with frames := a.frames.set id { f with frame := frame } } := by
  have hsame : ∀ {j : Nat} {g : LinkedFrame}, (a.frames.set id { f with frame := frame })[j]? = some g →
      ∃ g', a.frames[j]? = some g' ∧ g'.parent = g.parent := by
    intro j g hg
    rcases Nat.decEq id j with hne | rfl
    · rw [List.getElem?_set_ne hne] at hg
      exact ⟨g, hg, rfl⟩
    · rw [List.getElem?_set_self (List.getElem?_eq_some_iff.mp hf).1] at hg
      injection hg with hg
      exact ⟨f, hf, by rw [← hg]⟩
  refine ⟨by simpa using h.current, ?_, ?_⟩
  · intro g hg
    obtain ⟨g', hg', heq⟩ := hsame hg
    rw [← heq, h.root hg']
  · intro i g hg
    obtain ⟨g', hg', heq⟩ := hsame hg
    rw [← heq, h.parent hg']

/-- **Hoisting** does the same to both, or fails in both. -/
theorem Shows.hoist (h : a.Shows st) (s : Symbols) (b : BindingId) (decl : Stmt) :
    Option.Rel Shows (a.hoist? s b decl) (st.hoist? s b decl) := by
  unfold Arena.hoist? Stack.hoist?
  cases henclosing : st.enclosing with
  | nil =>
      have hlength := h.length
      have hcurrent := h.linked.current
      rw [henclosing] at hlength
      obtain ⟨f, hf⟩ : ∃ f, a.frames[0]? = some f := ⟨_, List.getElem?_eq_getElem (by omega)⟩
      have hzero : a.current = 0 := by simp at hlength; omega
      simp [hzero, hf, h.linked.root hf]
  | cons outer rest =>
      obtain ⟨f, g, hf, hparent, hg, rfl⟩ := h.parent henclosing
      cases hvar : Stack.declaredVar? decl with
      | none => simp [hf]
      | some var =>
          simp only [hf, hparent, hg, Option.bind_eq_bind, Option.bind_some]
          split
          · refine .some ⟨h.linked.set hg _, ?_⟩
            have hframes := h.frames
            rw [Stack.frames, henclosing] at hframes
            simp only [List.map_set, hframes, Stack.frames, List.reverse_cons]
            simp
          · exact .none

/-- **An operation** on the arena is the operation on the stack that it shows. -/
theorem Shows.apply (h : a.Shows st) {op : FrameOp} (hallowed : a.Allows op) :
    (a.apply s op).1.Shows (st.apply s op).1 ∧ (a.apply s op).2 = (st.apply s op).2 := by
  cases op with
  | push kind bs => exact h.push kind bs s
  | pop => exact ⟨h.pop hallowed, rfl⟩
  | table op => exact ⟨h, rfl⟩
  | hoist slot decl =>
      refine ⟨?_, rfl⟩
      have hrel := h.hoist s slot.binding decl
      show ((a.hoist? s slot.binding decl).getD a).Shows ((st.hoist? s slot.binding decl).getD st)
      generalize a.hoist? s slot.binding decl = x at hrel
      generalize st.hoist? s slot.binding decl = y at hrel
      cases hrel with
      | none => exact h
      | some h' => exact h'

end Arena

/-! ## §5. Slots for aliases. -/

namespace Stack

/-- Slots with different variables are not for aliases. -/
structure Separate (st : Stack) (s : Symbols) : Prop where
  sound : s.Sound
  has : ∀ slot ∈ st.slots, s.Has slot.binding
  apart : ∀ x ∈ st.slots, ∀ y ∈ st.slots, x.var ≠ y.var → s.isAliasFor x.binding y.binding = false

variable {st st' : Stack} {s s' : Symbols}

/-- Some of the slots, at a later table. -/
theorem Separate.sub (h : st.Separate s) (hslots : ∀ slot ∈ st'.slots, slot ∈ st.slots)
    (hgrows : s.Grows s') (hs : s'.Sound) : st'.Separate s' := by
  refine ⟨hs, fun slot hslot => hgrows.has (h.has slot (hslots slot hslot)), ?_⟩
  intro x hx y hy hne
  rw [Flow.isAliasFor_grows hgrows h.sound.ordered (fun _ => h.has x (hslots x hx)) fun _ => h.has y (hslots y hy)]
  exact h.apart x (hslots x hx) y (hslots y hy) hne

/-- The slots of a frame that is opened are apart from the others. -/
theorem Separate.push (h : st.Separate s) (kind : FrameKind) (bs : List BindingId) :
    (st.push kind bs s).1.Separate (st.push kind bs s).2 := by
  obtain ⟨news, syms, halloc, heq⟩ := Lowering.allocate_eq st bs [] s
  obtain ⟨hnew, hapart⟩ := st.allocate_apart bs [] s
  rw [heq, List.nil_append] at hnew hapart
  have hhas : ∀ slot ∈ news, s.Has slot.binding := by
    intro slot hslot
    obtain ⟨-, -, sym, -, hsym, -⟩ := (halloc.fresh (s.moreVars_behind syms)).1 slot hslot
    exact Symbols.has_iff.mpr ⟨sym, hsym⟩
  -- a slot is made only for a binding that the stack does not resolve
  have hunresolved : ∀ x ∈ news, ∀ y ∈ st.slots, s.isAliasFor y.binding x.binding = false := by
    intro x hx y hy
    have hnone := (hnew x hx).resolve_left List.not_mem_nil
    by_contra halias
    have hsome := resolve_isSome.mpr ⟨y, hy, Bool.eq_true_of_not_eq_false halias⟩
    rw [hnone] at hsome
    exact absurd hsome (by simp)
  have hpush : st.push kind bs s = (⟨⟨kind, news, []⟩, st.frames⟩, s.moreVars syms) := by
    unfold Stack.push
    rw [heq]
    rfl
  have hslots : ∀ {slot : Slot}, slot ∈ (st.push kind bs s).1.slots ↔ slot ∈ news ∨ slot ∈ st.slots := by
    intro slot
    rw [hpush]
    simp [Stack.slots, Stack.frames]
  have hsame : ∀ a b, (s.moreVars syms).isAliasFor a b = s.isAliasFor a b := fun _ _ => rfl
  have hsymm : Std.Symm fun a b : Slot => s.isAliasFor a.binding b.binding = false :=
    ⟨fun a b hab => by rw [s.isAliasFor_comm]; exact hab⟩
  refine ⟨by rw [hpush]; exact h.sound.moreVars syms, ?_, ?_⟩
  · intro slot hslot
    have hold : s.Has slot.binding := (hslots.mp hslot).elim (hhas slot) (h.has slot)
    rw [hpush]
    exact (Symbols.evolves_moreVars h.sound syms).grows.has hold
  -- two new slots, a new and an old one either way, two old ones
  · intro x hx y hy hne
    rw [hpush, hsame]
    rcases hslots.mp hx with hx | hx <;> rcases hslots.mp hy with hy | hy
    · exact (hapart .nil).forall hx hy fun heq => hne (by rw [heq])
    · rw [s.isAliasFor_comm]
      exact hunresolved x hx y hy
    · exact hunresolved y hy x hx
    · exact h.apart x hx y hy hne

/-- Closing a frame adds no slots. -/
theorem mem_slots_pop {slot : Slot} (h : slot ∈ st.pop.slots) : slot ∈ st.slots := by
  unfold Stack.pop at h
  split at h
  · exact h
  next outer rest henclosing =>
    rw [Stack.slots, Stack.frames, henclosing, List.flatMap_cons]
    exact List.mem_append_right _ h

/-- A hoist of a slot shows it twice. -/
theorem mem_slots_hoist {slot x : Slot} {decl : Stmt} (hslot : slot ∈ st.current.slots)
    (hdecl : declaredVar? decl = some slot.var) (h : st.hoist? s slot.binding decl = some st') :
    x ∈ st'.slots ↔ x ∈ st.slots := by
  unfold Stack.hoist? at h
  split at h
  next outer rest var henclosing hvar =>
    obtain ⟨-, h⟩ := Option.ite_none_right_eq_some.mp h
    injection h with h
    subst h
    obtain rfl : slot.var = var := Option.some.inj (hdecl.symm.trans hvar)
    simp only [Stack.slots, Stack.frames, henclosing, List.flatMap_cons, List.mem_append]
    constructor
    · rintro (hx | (hx | hx) | hx)
      · exact .inl hx
      · exact .inr (.inl hx)
      · rw [List.mem_singleton.mp hx]
        exact .inl hslot
      · exact .inr (.inr hx)
    · rintro (hx | hx | hx)
      · exact .inl hx
      · exact .inr (.inl (.inl hx))
      · exact .inr (.inr hx)
  next => injection h

/-- What may be done to the stack. -/
def Allows (st : Stack) : FrameOp → Prop
  | .hoist slot decl => slot ∈ st.current.slots ∧ declaredVar? decl = some slot.var
  | .push _ _ | .pop | .table _ => True

/-- **An operation** keeps slots apart. -/
theorem Separate.apply (h : st.Separate s) {op : FrameOp} (hallowed : st.Allows op) :
    (st.apply s op).1.Separate (st.apply s op).2 := by
  cases op with
  | push kind bs => exact h.push kind bs
  | pop => exact h.sub (fun _ => mem_slots_pop) (.refl s) h.sound
  | table op => exact h.sub (fun _ => id) (s.grows_apply op) (h.sound.apply op)
  | hoist slot decl =>
      show ((st.hoist? s slot.binding decl).getD st).Separate s
      cases hhoist : st.hoist? s slot.binding decl with
      | none => exact h
      | some st' =>
          exact h.sub (fun x => (mem_slots_hoist hallowed.1 hallowed.2 hhoist).mp) (.refl s) h.sound

/-- A pattern of the source has one variable. -/
theorem Separate.unique (h : st.Separate s) {b : BindingId} (hb : s.isLeaf b = true) {x y : Slot}
    (hx : x ∈ st.slots) (hy : y ∈ st.slots) (hxb : s.isAliasFor x.binding b = true)
    (hyb : s.isAliasFor y.binding b = true) : x.var = y.var := by
  by_contra hne
  have halias : s.isAliasFor x.binding y.binding = true := Symbols.isAliasFor_iff.mpr
    (.inr ⟨b, Symbols.mem_leaves_of_isAliasFor hb hxb, Symbols.mem_leaves_of_isAliasFor hb hyb⟩)
  rw [h.apart x hx y hy hne] at halias
  exact absurd halias (by simp)

/-- Without leaving a frame, slots stay. -/
theorem mem_slots_apply {op : FrameOp} (hop : op ≠ .pop) (hallowed : st.Allows op) {slot : Slot}
    (h : slot ∈ st.slots) : slot ∈ (st.apply s op).1.slots := by
  cases op with
  | pop => exact absurd rfl hop
  | table op => exact h
  | push kind bs =>
      show slot ∈ List.flatMap (·.slots) (_ :: st.frames)
      rw [List.flatMap_cons]
      exact List.mem_append_right _ h
  | hoist x decl =>
      show slot ∈ ((st.hoist? s x.binding decl).getD st).slots
      cases hhoist : st.hoist? s x.binding decl with
      | none => exact h
      | some st' => exact (mem_slots_hoist hallowed.1 hallowed.2 hhoist).mpr h

/-- A step on frames takes nothing out of the table. -/
theorem grows_apply (st : Stack) (s : Symbols) : ∀ op : FrameOp, s.Grows (st.apply s op).2
  | .pop | .hoist _ _ => .refl s
  | .table op => s.grows_apply op
  | .push kind bs => by
      obtain ⟨news, syms, -, heq⟩ := Lowering.allocate_eq st bs [] s
      show s.Grows (st.push kind bs s).2
      unfold Stack.push
      rw [heq]
      exact ⟨Nat.le_refl _, fun h => ⟨_, h, id⟩⟩

/-- The stack and the table after operations one after the other. -/
def applyAll (st : Stack) (s : Symbols) : List FrameOp → Stack × Symbols
  | [] => (st, s)
  | op :: ops => (st.apply s op).1.applyAll (st.apply s op).2 ops

end Stack

/-! ## §6. Runs. -/

namespace Arena

variable {a a' : Arena} {st : Stack} {s s' : Symbols} {ops : List FrameOp}

/-- What the table of frames allows, the stack does. -/
theorem Shows.allows (h : a.Shows st) {op : FrameOp} (hallowed : a.Allows op) : st.Allows op := by
  cases op with
  | hoist slot decl => exact ⟨h.slots ▸ hallowed.1, hallowed.2⟩
  | _ => trivial

/-- **A run** keeps the arena in step with the stack, and slots apart. -/
theorem Run.keeps (hrun : Run a s ops a' s') : ∀ {st : Stack}, a.Shows st → st.Separate s →
    a'.Shows (st.applyAll s ops).1 ∧ s' = (st.applyAll s ops).2 ∧ (st.applyAll s ops).1.Separate s' := by
  induction hrun with
  | done => exact fun hshows hseparate => ⟨hshows, rfl, hseparate⟩
  | step allowed _ ih =>
      intro st hshows hseparate
      obtain ⟨hnext, htable⟩ := hshows.apply allowed (s := _)
      have hkept := hseparate.apply (hshows.allows allowed)
      rw [← htable] at hkept
      have h := ih hnext hkept
      rw [htable] at h
      exact h

/-- Without leaving a frame, a run keeps what is resolved. -/
theorem Run.resolve (hrun : Run a s ops a' s') (hops : ∀ op ∈ ops, op ≠ .pop) : ∀ {st : Stack},
    a.Shows st → st.Separate s → ∀ {b : BindingId} {v : VarId}, s.isLeaf b = true →
      a.resolve s b = some v → a'.resolve s' b = some v := by
  induction hrun with
  | done => exact fun _ _ _ _ _ h => h
  | @step a a' s s' op ops allowed _ ih =>
      intro st hshows hseparate b v hb hv
      obtain ⟨hnext, htable⟩ := hshows.apply allowed (s := s)
      have hallowed := hshows.allows allowed
      have hkept := hseparate.apply hallowed
      have hgrows := st.grows_apply s op
      rw [← htable] at hkept hgrows
      have hb' := hgrows.isLeaf hb
      refine ih (fun x hx => hops x (List.mem_cons_of_mem _ hx)) hnext hkept hb' ?_
      rw [hshows.resolve] at hv
      rw [hnext.resolve]
      -- the slot is still there, and whatever is found first has its variable
      obtain ⟨slot, hslot, halias, rfl⟩ := Stack.exists_slot_of_resolve hv
      have hslot' := Stack.mem_slots_apply (s := s) (hops op List.mem_cons_self) hallowed hslot
      have halias' := Symbols.isAliasFor_mono hgrows halias
      obtain ⟨w, hw⟩ := Option.isSome_iff_exists.mp (Stack.resolve_isSome.mpr ⟨slot, hslot', halias'⟩)
      obtain ⟨other, hother, hotherAlias, rfl⟩ := Stack.exists_slot_of_resolve hw
      rw [hw, hkept.unique hb' hother hslot' hotherAlias halias']

/-- One frame is the bare stack. -/
theorem shows_bare : bare.Shows .bare := by
  refine ⟨⟨rfl, ?_, ?_⟩, rfl⟩
  · intro f hf
    injection hf with hf
    rw [← hf]
  · intro i f hf
    simp [bare] at hf

/-- There are no slots to keep apart yet. -/
theorem separate_bare : Stack.bare.Separate .empty :=
  ⟨.empty, fun _ h => absurd h (by simp [Stack.slots, Stack.frames, Stack.bare]),
    fun _ h => absurd h (by simp [Stack.slots, Stack.frames, Stack.bare])⟩

/-- The slots of the frames from the current one outwards. -/
def chainSlots (a : Arena) : List Slot := a.chain.flatMap (·.slots)

/-- **What every run of operations keeps**, from the root and the empty table
on: the parent of a frame is the frame before it and the current frame is the
last one, so the search goes along the frames of the stack; slots on it with
different variables are not for aliases; so a binding of the source has one
variable at most, and keeps it for as long as no frame is left. -/
theorem run_keeps (hrun : Run .bare .empty ops a s) :
    (∀ i f, a.frames[i + 1]? = some f → f.parent = some i)
      ∧ a.current + 1 = a.frames.length
      ∧ a.chain = (Stack.bare.applyAll .empty ops).1.frames
      ∧ s = (Stack.bare.applyAll .empty ops).2
      ∧ (∀ x ∈ a.chainSlots, ∀ y ∈ a.chainSlots, x.var ≠ y.var →
          s.isAliasFor x.binding y.binding = false)
      ∧ ∀ b, s.isLeaf b = true →
          (∀ x ∈ a.chainSlots, ∀ y ∈ a.chainSlots, s.isAliasFor x.binding b = true →
            s.isAliasFor y.binding b = true → x.var = y.var)
          ∧ ∀ v, a.resolve s b = some v → ∀ more a' s', Run a s more a' s' → (∀ op ∈ more, op ≠ .pop) →
              a'.resolve s' b = some v := by
  obtain ⟨hshows, htable, hseparate⟩ := hrun.keeps shows_bare separate_bare
  have hslots : a.chainSlots = (Stack.bare.applyAll .empty ops).1.slots := by
    rw [chainSlots, hshows.chain]
    rfl
  rw [hslots]
  refine ⟨fun i f => hshows.linked.parent, hshows.linked.current, hshows.chain, htable, hseparate.apart, ?_⟩
  intro b hb
  refine ⟨fun x hx y hy => hseparate.unique hb hx hy, ?_⟩
  intro v hv more a' s' hmore hpop
  exact hmore.resolve hpop hshows hseparate hb hv

/-- A binding is stored in the frame of a statement, and then in the block
around it; in the frames inside of the block it is resolved to its variable. -/
theorem run_keeps_hoisted : ∃ a s,
    Run .bare .empty [.table (.addBinding "s" .string none), .table (.preserve ⟨0⟩), .push .block [],
      .push .statement [⟨0⟩], .hoist ⟨⟨0⟩, ⟨0⟩⟩ (.decl ⟨0, .nowhere⟩ ⟨0⟩ none), .pop] a s
      ∧ a.resolve s ⟨0⟩ = some ⟨0⟩
      ∧ Run a s [.push .statement [⟨0⟩]] (a.push .statement [⟨0⟩] s).1 (a.push .statement [⟨0⟩] s).2
      ∧ (a.push .statement [⟨0⟩] s).1.resolve (a.push .statement [⟨0⟩] s).2 ⟨0⟩ = some ⟨0⟩ := by
  have hrun : Run .bare .empty [.table (.addBinding "s" .string none), .table (.preserve ⟨0⟩), .push .block [],
      .push .statement [⟨0⟩], .hoist ⟨⟨0⟩, ⟨0⟩⟩ (.decl ⟨0, .nowhere⟩ ⟨0⟩ none), .pop] _ _ :=
    .step trivial (.step trivial (.step trivial (.step trivial (.step ⟨by decide, rfl⟩
      (.step (show 1 < _ by decide) .done)))))
  exact ⟨_, _, hrun, by decide, .step trivial .done, ((run_keeps hrun).2.2.2.2.2 ⟨0⟩ (by decide)).2 _ (by decide)
    [.push .statement [⟨0⟩]] _ _ (.step trivial .done) (by simp)⟩

end Arena

end PatternIR
