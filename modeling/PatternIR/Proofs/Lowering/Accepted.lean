/-
  PatternIR.Proofs.Lowering.Accepted
  ──────────────────────────────────
  **WELL-SCOPED PROGRAMS ARE LOWERED.**

  The statements of a block know what the ones before them have marked.  Each
  binding that escapes a statement has a slot of its own in the frame of the
  statement, since no slot covers a pattern of a statement before the pass gets
  there; its flag is set, so the block takes the slot over.

    • `Gains` — what lowering a statement leaves in a block;
    • `lowerParts_gains` — a statement is lowered where there is storage for
      what is known;
    • `Program.WellScoped.marking` — what a visit marks, escapes the statement
      when it is lowered;
    • `lower_accepts` — well-scoped programs are lowered.
-/
import Mathlib.Data.List.Nodup
import PatternIR.Proofs.Flow.Escapes
import PatternIR.Proofs.Lowering.Nodes
import PatternIR.Proofs.Lowering.References
import PatternIR.Proofs.Symbols.Marking

namespace PatternIR

/-! ## §1. Statements. -/

/-- The condition of an `if` or a loop. -/
def Stmt.test? : Stmt → Option Expr
  | ifElse _ c _ _ | whileDo _ c _ | doWhile _ _ c => some c
  | forDo _ _ c _ _ => c
  | _ => none

/-- The nodes of the expressions of a statement fit. -/
def Stmt.Fits (s : Symbols) (w : Stmt) : Prop :=
  Flow.Fits s (w.gather (fun _ => []) Expr.ownNode) w.tests

/-- What a statement escapes by is its test. -/
theorem Flow.test?_of_escape? {label : Option String} {t : Stmt} {c : Expr} {o : Bool}
    (h : escape? label t = some (c, o)) : t.test? = some c := by
  unfold escape? at h
  split at h
  case h_6 => injection h
  all_goals split at h <;> simp_all [Stmt.test?]

namespace Lowering

open PatternIR.Flow

/-- A marked binding that escapes a statement, and was in the table with all
that the oracle lists for the condition. -/
def Escapes (s : Symbols) (w : Stmt) (m : BindingId) : Prop :=
  ∃ label c o ms, escape? label w.unlabeled = some (c, o) ∧ matchBindings c o s = (ms, s) ∧ m ∈ ms
    ∧ (s.binding? m).any (·.preserved) = true

/-- From `p` to `q` a statement is lowered, and the current frame takes over
storage for bindings of its patterns if it is a block: then for each that
escapes the statement. -/
structure Gains (s : Symbols) (w : Stmt) (p q : Pass) (taken : List (Slot × Stmt)) : Prop where
  stack : q.stack = p.stack.gain taken
  evolves : p.symbols.Evolves q.symbols
  block : p.stack.current.kind ≠ .block → taken = []
  slots : ∀ x ∈ taken, q.symbols.Has x.1.binding ∧ q.symbols.Initial x.1.var
  tests : ∀ x ∈ taken, ∀ leaf ∈ q.symbols.leaves x.1.binding, leaf ∈ w.tests
  escaping : p.stack.current.kind = .block → ∀ m, Escapes s w m → ∃ x ∈ taken, x.1.binding = m

variable {s : Symbols} {p p₁ q : Pass} {w : Stmt} {c : Expr} {taken : List (Slot × Stmt)}
  {known : BindingId → Prop}

namespace Gains

/-- Nothing escapes. -/
theorem quiet (h : p.Later q) (hno : ∀ m, ¬ Escapes s w m) : Gains s w p q [] where
  stack := by rw [h.stack, Stack.gain_nil]
  evolves := h.evolves
  block _ := rfl
  slots _ hx := absurd hx List.not_mem_nil
  tests _ hx := absurd hx List.not_mem_nil
  escaping _ m hm := absurd hm (hno m)

/-- A step before the statement. -/
theorem after (h : p.Later p₁) (hgains : Gains s w p₁ q taken) : Gains s w p q taken where
  stack := by rw [hgains.stack, h.stack]
  evolves := h.evolves.trans hgains.evolves
  block := by rw [← h.stack]; exact hgains.block
  slots := hgains.slots
  tests := hgains.tests
  escaping := by rw [← h.stack]; exact hgains.escaping

/-- A step behind the statement. -/
theorem before (hgains : Gains s w p p₁ taken) (h : p₁.Later q) : Gains s w p q taken where
  stack := by rw [h.stack, hgains.stack]
  evolves := hgains.evolves.trans h.evolves
  block := hgains.block
  slots x hx := ⟨h.evolves.grows.has (hgains.slots x hx).1, h.evolves.initial (hgains.slots x hx).2⟩
  tests x hx leaf hleaf := by
    rw [h.evolves.grows.leaves_eq hgains.evolves.sound.ordered.closed (hgains.slots x hx).1] at hleaf
    exact hgains.tests x hx leaf hleaf
  escaping := hgains.escaping

/-- Outside of a block the stack stays as it is. -/
theorem later (h : Gains s w p q taken) (hkind : p.stack.current.kind ≠ .block) : p.Later q := by
  refine ⟨?_, h.evolves⟩
  rw [h.stack, h.block hkind, Stack.gain_nil]

/-- A statement fills the slots it takes and no others. -/
theorem mem_slots (h : Gains s w p q taken) {slot : Slot} :
    slot ∈ q.stack.slots ↔ slot ∈ p.stack.slots ∨ slot ∈ taken.map Prod.fst := by
  rw [h.stack]
  exact Stack.mem_slots_gain

end Gains

/-- The slots taken over are slots that were declared. -/
theorem DeclaresSlots.mem_slots {span : Span} {takes : BindingId → Bool} {id : NodeId}
    {slots : List Slot} {refused : List Stmt}
    (h : DeclaresSlots s span takes id slots refused taken) : ∀ x ∈ taken, x.1 ∈ slots := by
  induction h with
  | nil id => exact fun _ hx => absurd hx List.not_mem_nil
  | refuse hsym hv htakes rest ih => exact fun x hx => List.mem_cons_of_mem _ (ih x hx)
  | take hsym hv htakes rest ih =>
      intro x hx
      rcases List.mem_cons.mp hx with rfl | hx
      · exact List.mem_cons_self
      · exact List.mem_cons_of_mem _ (ih x hx)

/-- A slot whose declaration the enclosing frame takes is taken over. -/
theorem DeclaresSlots.mem_taken {span : Span} {takes : BindingId → Bool} {id : NodeId}
    {slots : List Slot} {refused : List Stmt}
    (h : DeclaresSlots s span takes id slots refused taken) :
    ∀ slot ∈ slots, takes slot.binding = true → ∃ x ∈ taken, x.1 = slot := by
  induction h with
  | nil id => exact fun _ hx => absurd hx List.not_mem_nil
  | refuse hsym hv htakes rest ih =>
      intro slot hslot htrue
      rcases List.mem_cons.mp hslot with rfl | hslot
      · rw [htakes] at htrue
        exact absurd htrue (by simp)
      · exact ih slot hslot htrue
  | take hsym hv htakes rest ih =>
      intro slot hslot htrue
      rcases List.mem_cons.mp hslot with rfl | hslot
      · exact ⟨_, List.mem_cons_self, rfl⟩
      · obtain ⟨x, hx, hxs⟩ := ih slot hslot htrue
        exact ⟨x, List.mem_cons_of_mem _ hx, hxs⟩

/-- **A statement in a frame of its own**, entered for bindings of its
condition.  No slot covers a pattern of the statement before, so each binding
that escapes it has a slot of its own in the frame, and a block takes it over. -/
theorem frame_gains {tests bs : List BindingId} {body : Lowering Decorated} (hp : p.Ready s known)
    (havoids : p.Avoids w.tests) (hbs : Storing p.symbols tests bs)
    (htests : ∀ b ∈ tests, b ∈ w.tests) (hescapes : ∀ m, Escapes s w m → m ∈ bs)
    (hbody : ∀ news q, p.Entered .statement bs news q → Leads body decorateStmt q) :
    ∃ d q taken, within .statement bs body p = .ok d q ∧ Gains s w p q taken := by
  have hsound := hp.sound.evolves.sound
  obtain ⟨news, hentered⟩ := p.enter_entered hsound .statement bs hbs.storable
  obtain ⟨stmt, q, hlater, heq⟩ := hbody news _ hentered
  have hevolves := hentered.evolves.trans hlater.evolves
  have hstack : q.stack = ⟨⟨.statement, news, []⟩, p.stack.frames⟩ := hlater.stack.trans hentered.stack
  have hinitial : ∀ slot ∈ q.stack.current.slots, q.symbols.Initial slot.var := by
    rw [hstack]
    exact fun slot hslot => hlater.evolves.initial (hentered.initial slot hslot)
  obtain ⟨d, q', hdec⟩ := decorateStmt_ok stmt hinitial
  obtain ⟨refused, taken, hdecl, rfl, rfl⟩ := decorateStmt_eq_ok hdec
  rw [hstack] at hdecl
  have hnews : ∀ x ∈ taken, x.1.binding ∈ bs := fun x hx => hentered.asked _ (hdecl.mem_slots x hx)
  refine ⟨_, _, taken, within_eq_of_ok (heq.trans hdec), ?_, hevolves, ?_, ?_, ?_, ?_⟩
  · show (q.stack.give taken).pop = p.stack.gain taken
    rw [hstack]
    exact Stack.pop_give _ _ _
  · intro hkind
    refine hdecl.taken_eq_nil ?_
    intro b
    show p.stack.current.kind.acceptsHoist _ = false
    cases hk : p.stack.current.kind with
    | block => exact absurd hk hkind
    | _ => rfl
  · intro x hx
    exact ⟨hevolves.grows.has (hbs.storable _ (hnews x hx)).has,
      hlater.evolves.initial (hentered.initial _ (hdecl.mem_slots x hx))⟩
  · intro x hx leaf hleaf
    rw [hevolves.grows.leaves_eq hsound.ordered.closed (hbs.storable _ (hnews x hx)).has] at hleaf
    exact htests leaf (hbs.leaves _ (hnews x hx) leaf hleaf)
  · intro hkind m hm
    have hmem := hescapes m hm
    obtain ⟨slot, hslot, rfl⟩ : ∃ slot ∈ news, slot.binding = m := by
      rcases hentered.covers m hmem with hknown | ⟨slot, hslot, halias⟩
      · -- a slot from before would cover a pattern of the statement
        obtain ⟨slot, hslot, halias⟩ := Pass.knows_iff.mp hknown
        obtain ⟨leaf, hleaf⟩ := hsound.ordered.exists_leaf (hbs.storable m hmem).has
        have hno := havoids slot hslot
        rcases Symbols.isAliasFor_iff.mp halias with heq | ⟨leaf, hleaf, hleaf'⟩
        · exact absurd (htests leaf (hbs.leaves m hmem leaf hleaf)) (hno leaf (heq ▸ hleaf))
        · exact absurd (htests leaf (hbs.leaves m hmem leaf hleaf')) (hno leaf hleaf)
      · exact ⟨slot, hslot, hbs.apart _ (hentered.asked slot hslot) m hmem halias⟩
    obtain ⟨-, -, -, -, -, -, -, hflag⟩ := hm
    have htakes : q.stack.takes q.symbols slot.binding = true := by
      rw [hstack]
      show p.stack.current.kind.acceptsHoist _ = true
      rw [hkind]
      exact (hp.sound.evolves.grows.trans hevolves.grows).preserved hflag
    rw [hstack] at htakes
    obtain ⟨x, hx, hxs⟩ := hdecl.mem_taken slot hslot htakes
    exact ⟨x, hx, by rw [hxs]⟩

/-- A statement without a test binds nothing behind it. -/
theorem not_escapes (h : w.unlabeled.test? = none) (m : BindingId) : ¬ Escapes s w m := by
  rintro ⟨label, c, o, ms, hesc, -⟩
  rw [test?_of_escape? hesc] at h
  injection h

/-- What escapes a statement is among the bindings its frame is entered for. -/
theorem mem_of_escapes {t : Symbols} {answer : List BindingId × Symbols}
    (hanswer : Answers s c [true, false] t answer) (h : w.unlabeled.test? = some c) :
    ∀ m, Escapes s w m → m ∈ answer.1 := by
  rintro m ⟨label, c', o, ms, hesc, hms, hm, -⟩
  rw [test?_of_escape? hesc] at h
  injection h with h
  subst h
  exact hanswer.again o (by cases o <;> simp) hms m hm

/-- A state inside the frame of a statement, with what its condition lists, in
which no slot covers a pattern of the rest of the statement. -/
structure Pass.Inside (s : Symbols) (known : BindingId → Prop) (cond : Option Expr)
    (rest : List BindingId) (q : Pass) : Prop where
  ready : q.Ready s known
  listed : ∀ o, q.Ready s (withTest s known cond o)
  avoids : q.Avoids rest
  kind : q.stack.current.kind ≠ .block

/-- What stands inside a frame still does later. -/
theorem Pass.Inside.later {cond : Option Expr} {rest : List BindingId}
    (h : p.Inside s known cond rest) (hlater : p.Later q) : q.Inside s known cond rest where
  ready := h.ready.later hlater
  listed o := (h.listed o).later hlater
  avoids := h.avoids.later h.ready.sound hlater
  kind := by rw [hlater.stack]; exact h.kind

/-- **A statement with its condition**, or without one. -/
theorem framed_gains (cond : Option Expr) (rest : List BindingId) {body : Lowering Decorated}
    (hp : p.Ready s known) (havoids : p.Avoids w.tests) (htest : w.unlabeled.test? = cond)
    (hcond : Fits s (Expr.gatherAll Expr.ownNode cond.toList) (Expr.gatherAll Expr.ownTests cond.toList))
    (htests : ∀ b, b ∈ Expr.gatherAll Expr.ownTests cond.toList ∨ b ∈ rest → b ∈ w.tests)
    (hcross : ∀ b ∈ Expr.gatherAll Expr.ownTests cond.toList, b ∉ rest)
    (hbody : ∀ q, q.Inside s known cond rest → Leads body decorateStmt q) :
    ∃ d q taken, (condFacts? matchBindings cond >>= fun bs => within .statement bs body) p = .ok d q
      ∧ Gains s w p q taken := by
  have hrest := havoids.mono fun b hb => htests b (.inr hb)
  cases cond with
  | none =>
      -- without a condition the frame is entered for no binding
      have hnone := Storing.nil (t := p.symbols) []
      obtain ⟨d, q, taken, hrun, hgains⟩ := frame_gains hp havoids hnone (by simp)
        (fun m hm => absurd hm (not_escapes htest m)) fun news q hentered => by
          have hq := hp.enter hnone hentered
          refine hbody q ⟨hq, fun _ => hq, hrest.enter hp.sound hnone (by simp) hentered, ?_⟩
          rw [hentered.stack]
          simp
      exact ⟨d, q, taken, bind_eq_ok.mpr ⟨_, _, rfl, hrun⟩, hgains⟩
  | some c =>
      have hgather : Expr.gatherAll Expr.ownTests (some c).toList = c.tests := by simp
      rw [hgather] at htests hcross
      have hc : c.Fits s := by simpa [Expr.Fits] using hcond
      have hanswer := hc.all hp.base hp.sound.evolves
      have hlater := later_answer hanswer.evolves
      have hp' := hp.later hlater
      have hbs := hanswer.storing hp.sound.evolves.grows hc.tests
      obtain ⟨d, q, taken, hrun, hgains⟩ := frame_gains hp' (havoids.later hp.sound hlater) hbs
        (fun b hb => htests b (.inl hb)) (mem_of_escapes hanswer htest) fun news q hentered => by
          have hq := hp'.enter hbs hentered
          refine hbody q ⟨hq, fun o => (hq.listed hc hanswer hentered).withListed o,
            (hrest.later hp.sound hlater).enter hp'.sound hbs hcross hentered, ?_⟩
          rw [hentered.stack]
          simp
      exact ⟨d, q, taken, bind_eq_ok.mpr ⟨_, _, rfl, hrun⟩, hgains.after hlater⟩

/-- A statement that stands directly in a statement other than a block. -/
theorem inner_leads {β γ : Type} {rules : Rules} {taken : List (Slot × Stmt)} {f : Stmt → Lowering β}
    {k : γ → Lowering β} {d : Decorated} (hrun : lowerParts rules w p = .ok d q)
    (hgains : Gains s w p q taken) (hkind : p.stack.current.kind ≠ .block)
    (hf : ∀ stmt q, p.Later q → Leads (f stmt) k q) :
    Leads (lowerParts rules w >>= fun d => d.close >>= f) k p := by
  have hlater := hgains.later hkind
  exact .step hrun hlater ((close_runs hlater.evolves.sound d).leads fun stmt q' h' =>
    hf stmt q' (hlater.trans h'))

/-- What a statement takes leaves the table sound. -/
theorem Gains.sound (h : Gains s w p q taken) (hp : p.Sound s) : q.Sound s := by
  refine ⟨hp.evolves.trans h.evolves, ?_⟩
  intro slot hslot
  rcases h.mem_slots.mp hslot with hslot | hslot
  · obtain ⟨hhas, hinitial⟩ := hp.slots slot hslot
    exact ⟨h.evolves.grows.has hhas, h.evolves.initial hinitial⟩
  · obtain ⟨x, hx, rfl⟩ := List.mem_map.mp hslot
    exact h.slots x hx

/-- Behind a statement of a block, what it marks is known. -/
theorem Gains.ready (h : Gains s w p q taken) (hkind : p.stack.current.kind = .block)
    (hp : p.Ready s known) {marked : BindingId → Prop}
    (hmarked : ∀ b, marked b → ∃ m, Escapes s w m ∧ Reaches s.parts m b) :
    q.Ready s fun b => known b ∨ marked b := by
  have hgrows := hp.sound.evolves.grows.trans h.evolves.grows
  refine ⟨hp.base, h.sound hp.sound, ?_⟩
  · intro b hb hhas
    rcases hb with hb | hb
    · exact (hp.knows b hb hhas).mono (fun slot hslot => h.mem_slots.mpr (.inl hslot)) h.evolves.grows
    · -- a leaf of `b` is one of what has escaped
      obtain ⟨m, hm, hreach⟩ := hmarked b hb
      obtain ⟨x, hx, rfl⟩ := h.escaping hkind m hm
      obtain ⟨leaf, hleaf⟩ := hp.base.ordered.exists_leaf hhas
      obtain ⟨h₁, h₂⟩ := Symbols.mem_leaves.mp hleaf
      refine Pass.knows_iff.mpr ⟨x.1, h.mem_slots.mpr (.inr (List.mem_map_of_mem hx)), ?_⟩
      exact Symbols.isAliasFor_iff.mpr (.inr ⟨leaf,
        hgrows.leaves (Symbols.mem_leaves.mpr ⟨h₁, hreach.trans h₂⟩), hgrows.leaves hleaf⟩)

/-- The slots taken over cover patterns of the statement only. -/
theorem Gains.avoids (h : Gains s w p q taken) (hp : p.Sound s) {ts : List BindingId}
    (havoids : p.Avoids ts) (hdisjoint : ∀ b ∈ w.tests, b ∉ ts) : q.Avoids ts := by
  intro slot hslot leaf hleaf
  rcases h.mem_slots.mp hslot with hslot | hslot
  · rw [h.evolves.grows.leaves_eq hp.evolves.sound.ordered.closed (hp.slots slot hslot).1] at hleaf
    exact havoids slot hslot leaf hleaf
  · obtain ⟨x, hx, rfl⟩ := List.mem_map.mp hslot
    exact hdisjoint leaf (h.tests x hx leaf hleaf)

/-- Emitting declarations leaves the slots alone. -/
theorem Pass.Ready.emit (h : p.Ready s known) : p.emit.Ready s known :=
  ⟨h.base, ⟨h.sound.evolves, h.sound.slots⟩, fun b hb hhas =>
    (h.knows b hb hhas).mono (fun _ hslot => hslot) (.refl _)⟩

/-- A statement whose expressions are lowered and nothing else. -/
theorem gains_of_runs {c : Lowering Decorated} (hc : Runs c p) (h : w.unlabeled.test? = none) :
    ∃ d q taken, c p = .ok d q ∧ Gains s w p q taken := by
  obtain ⟨d, q, heq, hlater⟩ := runs_iff.mp hc
  exact ⟨d, q, [], heq, .quiet hlater (not_escapes h)⟩

/-- A block, the frames around which its statements leave alone. -/
theorem block_runs {rules : Rules} {i : StmtInfo} {ss : List Stmt} (hp : p.symbols.Sound)
    (h : ∀ news q, p.Entered .block [] news q → ∃ out q', lowerBlock rules ss q = .ok out q'
      ∧ q.symbols.Evolves q'.symbols ∧ q'.stack.enclosing = q.stack.enclosing) :
    Runs (lowerParts rules (.block i ss)) p := by
  obtain ⟨news, hentered⟩ := p.enter_entered hp .block [] (by simp)
  obtain ⟨out, q, hrun, hevolves, henclosing⟩ := h news _ hentered
  refine runs_iff.mpr ⟨_, _, within_eq_of_ok (bind_eq_ok.mpr ⟨out, q, hrun, rfl⟩), ?_,
    hentered.evolves.trans hevolves⟩
  have hframes : q.stack.enclosing = p.stack.frames := by
    rw [henclosing, hentered.stack]
  show q.stack.pop = p.stack
  unfold Stack.pop
  rw [hframes]
  rfl

/-- What `marks` tells of a statement, a binding that escapes it unifies. -/
def Marking (s : Symbols) (marks : Stmt → BindingId → Prop) : Prop :=
  ∀ w b, marks w b → ∃ m, Escapes s w m ∧ Reaches s.parts m b

variable {marks : Stmt → BindingId → Prop} (hierarchy : Hierarchy)

-- `Ready` carries the induction forward: a reference is to what is known, and what is
-- known has storage. By `Avoids` the frames around a statement have no slot for what it
-- tests, so what escapes it has one in its own frame, and a block takes that over.

/-- A statement is lowered where there is storage for what is known and no slot
covers a pattern of it. -/
def GainsParts (s : Symbols) (marks : Stmt → BindingId → Prop) (hierarchy : Hierarchy) (w : Stmt) : Prop :=
  ∀ {known : BindingId → Prop} {p : Pass}, w.Fits s → w.Scoped s marks known → p.Ready s known →
    p.Avoids w.tests →
      ∃ d q taken, lowerParts ⟨hierarchy, matchBindings⟩ w p = .ok d q ∧ Gains s w p q taken

/-- So is a branch that may be missing, which leaves the stack as it is. -/
def RunsOpt (s : Symbols) (marks : Stmt → BindingId → Prop) (hierarchy : Hierarchy) (w : Option Stmt) :
    Prop :=
  ∀ {known : BindingId → Prop} {p : Pass},
    Fits s (Stmt.gatherOpt (fun _ => []) Expr.ownNode w) (Stmt.gatherOpt (fun _ => []) Expr.ownTests w) →
      Stmt.ScopedOpt s marks known w → p.Ready s known →
        p.Avoids (Stmt.gatherOpt (fun _ => []) Expr.ownTests w) → p.stack.current.kind ≠ .block →
          Runs (lowerStmt? ⟨hierarchy, matchBindings⟩ w) p

/-- So are statements outside of a block. -/
def RunsEach (s : Symbols) (marks : Stmt → BindingId → Prop) (hierarchy : Hierarchy) (ws : List Stmt) :
    Prop :=
  ∀ {known : BindingId → Prop} {p : Pass},
    Fits s (Stmt.gatherAll (fun _ => []) Expr.ownNode ws) (Stmt.gatherAll (fun _ => []) Expr.ownTests ws) →
      Stmt.ScopedEach s marks known ws → p.Ready s known →
        p.Avoids (Stmt.gatherAll (fun _ => []) Expr.ownTests ws) → p.stack.current.kind ≠ .block →
          Runs (lowerStmts ⟨hierarchy, matchBindings⟩ ws) p

/-- So are the statements of a block, which may take slots into its frame. -/
def RunsBlock (s : Symbols) (marks : Stmt → BindingId → Prop) (hierarchy : Hierarchy) (ws : List Stmt) :
    Prop :=
  ∀ {known : BindingId → Prop} {p : Pass},
    Fits s (Stmt.gatherAll (fun _ => []) Expr.ownNode ws) (Stmt.gatherAll (fun _ => []) Expr.ownTests ws) →
      Stmt.ScopedBlock s marks known ws → p.Ready s known →
        p.Avoids (Stmt.gatherAll (fun _ => []) Expr.ownTests ws) → p.stack.current.kind = .block →
          ∃ out q, lowerBlock ⟨hierarchy, matchBindings⟩ ws p = .ok out q
            ∧ p.symbols.Evolves q.symbols ∧ q.stack.enclosing = p.stack.enclosing

section

variable {hierarchy} {i : StmtInfo} {c e : Expr} {cond value : Option Expr} {es : List Expr} {b y : Stmt}
  {n : Option Stmt} {ss ws : List Stmt}

/-- An expression as a statement. -/
theorem gainsParts_expr : GainsParts s marks hierarchy (.expr i e) := by
  intro known p h hscoped hp _
  simp only [Stmt.Fits, Stmt.tests_expr, Stmt.gather_expr, List.nil_append] at h
  exact gains_of_runs ((lowerExpr_runs hierarchy e h hscoped hp).bind fun e' q hq =>
    .pure hq.evolves.sound _) rfl

/-- A declaration. -/
theorem gainsParts_decl {v : VarId} : GainsParts s marks hierarchy (.decl i v value) := by
  intro known p h hscoped hp _
  simp only [Stmt.Fits, Stmt.tests_decl, Stmt.gather_decl, List.nil_append] at h
  exact gains_of_runs ((lowerExpr?_runs hierarchy value h hscoped hp).bind fun e' q hq =>
    .pure hq.evolves.sound _) rfl

/-- A `return`. -/
theorem gainsParts_ret : GainsParts s marks hierarchy (.ret i value) := by
  intro known p h hscoped hp _
  simp only [Stmt.Fits, Stmt.tests_ret, Stmt.gather_ret, List.nil_append] at h
  exact gains_of_runs ((lowerExpr?_runs hierarchy value h hscoped hp).bind fun e' q hq =>
    .pure hq.evolves.sound _) rfl

/-- A `break`. -/
theorem gainsParts_brk {l : Option String} : GainsParts s marks hierarchy (.brk i l) :=
  fun _ _ hp _ => gains_of_runs (.pure hp.sound.evolves.sound _) rfl

/-- A `continue`. -/
theorem gainsParts_cont {l : Option String} : GainsParts s marks hierarchy (.cont i l) :=
  fun _ _ hp _ => gains_of_runs (.pure hp.sound.evolves.sound _) rfl

/-- A block, in a frame without slots. -/
theorem gainsParts_block (hss : RunsBlock s marks hierarchy ss) :
    GainsParts s marks hierarchy (.block i ss) := by
  intro known p h hscoped hp havoids
  simp only [Stmt.Fits, Stmt.tests_block, Stmt.gather_block, List.nil_append] at h havoids
  have hnone := Storing.nil (t := p.symbols) []
  exact gains_of_runs (block_runs hp.sound.evolves.sound fun news q hentered =>
    hss h hscoped (hp.enter hnone hentered) (havoids.enter hp.sound hnone (by simp) hentered)
      (by rw [hentered.stack])) rfl

/-- A conditional: its condition, then both branches, each where it has come out
their way. -/
theorem gainsParts_ifElse (ihy : GainsParts s marks hierarchy y) (ihn : RunsOpt s marks hierarchy n) :
    GainsParts s marks hierarchy (.ifElse i c y n) := by
  intro known p h hscoped hp havoids
  simp only [Stmt.Fits, Stmt.tests_ifElse, Stmt.gather_ifElse, List.nil_append, fits_append] at h
  obtain ⟨hc, ⟨hy, hn, -⟩, hcross⟩ := h
  refine framed_gains (some c) (y.tests ++ Stmt.gatherOpt (fun _ => []) Expr.ownTests n) hp
    havoids rfl (by simpa using hc) (fun b hb => by simpa using hb) (by simpa using hcross) ?_
  intro q hq
  have hy' : q.Avoids y.tests := hq.avoids.mono fun b hb => List.mem_append_left _ hb
  have hn' := hq.avoids.mono fun b hb => List.mem_append_right _ hb
  refine (lowerExpr_runs hierarchy c hc hscoped.1 hq.ready).leads fun c' q₁ h₁ => ?_
  have hq₁ := hq.later h₁
  obtain ⟨d, q₂, taken, hrun, hgains⟩ := ihy hy hscoped.2.1 (hq₁.listed true)
    (hy'.later hq.ready.sound h₁)
  refine inner_leads hrun hgains hq₁.kind fun y' q₃ h₃ => ?_
  have hq₃ := hq₁.later h₃
  exact (ihn hn hscoped.2.2 (hq₃.listed false) (hn'.later hq.ready.sound (h₁.trans h₃))
    hq₃.kind).leads fun n' q₄ h₄ => .refl h₄.evolves.sound _

/-- A loop that tests in front of its body. -/
theorem gainsParts_whileDo (ihb : GainsParts s marks hierarchy b) :
    GainsParts s marks hierarchy (.whileDo i c b) := by
  intro known p h hscoped hp havoids
  simp only [Stmt.Fits, Stmt.tests_whileDo, Stmt.gather_whileDo, List.nil_append, fits_append] at h
  obtain ⟨hc, hb, hcross⟩ := h
  refine framed_gains (some c) b.tests hp havoids rfl (by simpa using hc)
    (fun x hx => by simpa using hx) (by simpa using hcross) ?_
  intro q hq
  refine (lowerExpr_runs hierarchy c hc hscoped.1 hq.ready).leads fun c' q₁ h₁ => ?_
  have hq₁ := hq.later h₁
  obtain ⟨d, q₂, taken, hrun, hgains⟩ := ihb hb hscoped.2 (hq₁.listed true) hq₁.avoids
  exact inner_leads hrun hgains hq₁.kind fun b' q₃ h₃ => .refl h₃.evolves.sound _

/-- A loop that tests behind its body, which therefore knows nothing of the test. -/
theorem gainsParts_doWhile (ihb : GainsParts s marks hierarchy b) :
    GainsParts s marks hierarchy (.doWhile i b c) := by
  intro known p h hscoped hp havoids
  simp only [Stmt.Fits, Stmt.tests_doWhile, Stmt.gather_doWhile, List.nil_append, fits_append] at h
  obtain ⟨hc, hb, hcross⟩ := h
  refine framed_gains (some c) b.tests hp havoids rfl (by simpa using hc)
    (fun x hx => by simpa using hx) (by simpa using hcross) ?_
  intro q hq
  obtain ⟨d, q₁, taken, hrun, hgains⟩ := ihb hb hscoped.1 hq.ready hq.avoids
  refine inner_leads hrun hgains hq.kind fun b' q₂ h₂ => ?_
  exact (lowerExpr_runs hierarchy c hc hscoped.2 (hq.ready.later h₂)).leads fun c' q₃ h₃ =>
    .refl h₃.evolves.sound _

/-- A `for` loop: its head in order, then its body. -/
theorem gainsParts_forDo (ihss : RunsEach s marks hierarchy ss) (ihb : GainsParts s marks hierarchy b) :
    GainsParts s marks hierarchy (.forDo i ss cond es b) := by
  intro known p h hscoped hp havoids
  simp only [Stmt.Fits, Stmt.tests_forDo, Stmt.gather_forDo, List.nil_append, fits_append] at h
  obtain ⟨hc, ⟨hes, ⟨hss, hb, -⟩, -⟩, hcross⟩ := h
  refine framed_gains cond _ hp havoids rfl hc (fun x hx => by simpa using hx) hcross ?_
  intro q hq
  have hss' := hq.avoids.mono fun x hx => List.mem_append_right _ (List.mem_append_left _ hx)
  have hb' : q.Avoids b.tests := hq.avoids.mono fun x hx =>
    List.mem_append_right _ (List.mem_append_right _ hx)
  refine (ihss hss hscoped.1 hq.ready hss' hq.kind).leads fun ss' q₁ h₁ => ?_
  have hq₁ := hq.later h₁
  refine (lowerExpr?_runs hierarchy cond hc hscoped.2.1 hq₁.ready).leads fun c' q₂ h₂ => ?_
  have hq₂ := hq₁.later h₂
  refine (lowerExprs_runs hierarchy es hes hscoped.2.2.1 (hq₂.listed true)).leads fun es' q₃ h₃ => ?_
  have hq₃ := hq₂.later h₃
  obtain ⟨d, q₄, taken, hrun, hgains⟩ := ihb hb hscoped.2.2.2 (hq₃.listed true)
    (hb'.later hq.ready.sound ((h₁.trans h₂).trans h₃))
  exact inner_leads hrun hgains hq₃.kind fun b' q₅ h₅ => .refl h₅.evolves.sound _

/-- A label has no part in it. -/
theorem gainsParts_labeled {l : String} (ihb : GainsParts s marks hierarchy b) :
    GainsParts s marks hierarchy (.labeled i l b) := by
  intro known p h hscoped hp havoids
  simp only [Stmt.Fits, Stmt.tests_labeled, Stmt.gather_labeled, List.nil_append] at h havoids
  obtain ⟨d, q, taken, hrun, hgains⟩ := ihb h hscoped hp havoids
  refine ⟨_, q, taken, bind_eq_ok.mpr ⟨d, q, hrun, rfl⟩, ?_⟩
  exact { hgains with tests := by simpa using hgains.tests }

/-- No branch. -/
theorem runsOpt_none : RunsOpt s marks hierarchy none :=
  fun _ _ hp _ _ => .pure hp.sound.evolves.sound _

/-- A branch, in a block of its own if it declares storage. -/
theorem runsOpt_some (ih : GainsParts s marks hierarchy b) : RunsOpt s marks hierarchy (some b) := by
  intro known p h hscoped hp havoids hkind
  obtain ⟨d, q, taken, hrun, hgains⟩ := ih h hscoped hp havoids
  exact inner_leads hrun hgains hkind fun w' q hq => .refl hq.evolves.sound _

/-- No statement. -/
theorem runsEach_nil : RunsEach s marks hierarchy [] :=
  fun _ _ hp _ _ => .pure hp.sound.evolves.sound _

/-- A statement and those behind it, for which nothing more is known. -/
theorem runsEach_cons (ih : GainsParts s marks hierarchy b) (ihs : RunsEach s marks hierarchy ws) :
    RunsEach s marks hierarchy (b :: ws) := by
  intro known p h hscoped hp havoids hkind
  simp only [Stmt.gatherAll_cons, fits_append] at h havoids
  obtain ⟨d, q, taken, hrun, hgains⟩ := ih h.1 hscoped.1 hp
    (havoids.mono fun b hb => List.mem_append_left _ hb)
  refine inner_leads hrun hgains hkind fun w' q₁ h₁ => ?_
  refine (ihs h.2.1 hscoped.2 (hp.later h₁) ?_ ?_).leads fun ss' q₂ h₂ => .refl h₂.evolves.sound _
  · exact (havoids.mono fun b hb => List.mem_append_right _ hb).later hp.sound h₁
  · rw [h₁.stack]
    exact hkind

/-- The end of a block. -/
theorem runsBlock_nil : RunsBlock s marks hierarchy [] :=
  fun {_ p} _ _ hp _ _ => ⟨[], p, rfl, .refl hp.sound.evolves.sound, rfl⟩

/-- A statement of a block, and the rest behind what it has marked. -/
theorem runsBlock_cons (hmarks : Marking s marks) (ih : GainsParts s marks hierarchy b)
    (ihs : RunsBlock s marks hierarchy ws) : RunsBlock s marks hierarchy (b :: ws) := by
  intro known p h hscoped hp havoids hkind
  simp only [Stmt.gatherAll_cons, fits_append] at h havoids
  obtain ⟨d, q, taken, hrun, hgains⟩ := ih h.1 hscoped.1 hp
    (havoids.mono fun b hb => List.mem_append_left _ hb)
  obtain ⟨w', q₁, hclose, h₁⟩ := runs_iff.mp (close_runs hgains.evolves.sound d)
  have hgains₁ := hgains.before h₁
  -- what it marks has escaped into the block's frame, so the rest can refer to it
  have hready := hgains₁.ready hkind hp (hmarks b)
  have havoids₁ := hgains₁.avoids hp.sound
    (havoids.mono fun b hb => List.mem_append_right _ hb) h.2.2
  have hemitted : q₁.emit.stack.current.kind = .block := by
    show q₁.stack.current.kind = .block
    rw [hgains₁.stack]
    exact hkind
  obtain ⟨out, q₂, hrest, hevolves, henclosing⟩ := ihs (p := q₁.emit) h.2.1 hscoped.2 hready.emit
    havoids₁ hemitted
  refine ⟨q₁.stack.current.hoisted ++ w' :: out, q₂, ?_, hgains₁.evolves.trans hevolves, ?_⟩
  · exact bind_eq_ok.mpr ⟨d, q, hrun, bind_eq_ok.mpr ⟨w', q₁, hclose,
      bind_eq_ok.mpr ⟨_, q₁.emit, rfl, bind_eq_ok.mpr ⟨out, q₂, hrest, rfl⟩⟩⟩⟩
  · rw [henclosing]
    show q₁.stack.enclosing = p.stack.enclosing
    rw [hgains₁.stack]
    rfl

end

mutual
/-- **A statement is lowered** where there is storage for what is known and no
slot covers a pattern of it. -/
theorem lowerParts_gains (hmarks : Marking s marks) : ∀ w : Stmt, GainsParts s marks hierarchy w
  | .expr _ _ => gainsParts_expr
  | .decl _ _ _ => gainsParts_decl
  | .ret _ _ => gainsParts_ret
  | .brk _ _ => gainsParts_brk
  | .cont _ _ => gainsParts_cont
  | .block _ ss => gainsParts_block (lowerBlock_runs hmarks ss)
  | .ifElse _ _ y n => gainsParts_ifElse (lowerParts_gains hmarks y) (lowerStmt?_runs hmarks n)
  | .whileDo _ _ b => gainsParts_whileDo (lowerParts_gains hmarks b)
  | .doWhile _ b _ => gainsParts_doWhile (lowerParts_gains hmarks b)
  | .forDo _ ss _ _ b => gainsParts_forDo (lowerStmts_runs hmarks ss) (lowerParts_gains hmarks b)
  | .labeled _ _ b => gainsParts_labeled (lowerParts_gains hmarks b)
/-- A branch that may be missing. -/
theorem lowerStmt?_runs (hmarks : Marking s marks) : ∀ w : Option Stmt, RunsOpt s marks hierarchy w
  | none => runsOpt_none
  | some w => runsOpt_some (lowerParts_gains hmarks w)
/-- Statements outside of a block. -/
theorem lowerStmts_runs (hmarks : Marking s marks) : ∀ ss : List Stmt, RunsEach s marks hierarchy ss
  | [] => runsEach_nil
  | w :: ss => runsEach_cons (lowerParts_gains hmarks w) (lowerStmts_runs hmarks ss)
/-- The statements of a block, each behind what the ones before it have marked. -/
theorem lowerBlock_runs (hmarks : Marking s marks) : ∀ ss : List Stmt, RunsBlock s marks hierarchy ss
  | [] => runsBlock_nil
  | w :: ss => runsBlock_cons hmarks (lowerParts_gains hmarks w) (lowerBlock_runs hmarks ss)
end

end Lowering

/-! ## §2. Programs. -/

/-- Visits leave the table sound. -/
theorem Flow.visits_sound (ws : List Stmt) {t : Symbols} (ht : t.Sound) :
    (ws.foldl (visit matchBindings) t).Sound :=
  visits_keep (fun h hm => h.merge hm) (fun b h => h.preserve b) ws ht

namespace Program

/-- What `own` finds in the expressions of a program. -/
def gather (own : Expr → List BindingId) (p : Program) : List BindingId :=
  p.methods.flatMap fun m => Stmt.gatherOpt (fun _ => []) own m.body

/-- The bindings of the type tests of a program. -/
def tests (p : Program) : List BindingId := p.gather Expr.ownTests

/-- The patterns of a program with one method. -/
theorem tests_of_method {p : Program} {m : Method} {body : Stmt} (hm : p.methods = [m])
    (hbody : m.body = some body) : p.tests = body.tests := by
  simp [tests, gather, hm, hbody]

/-- What holds of the body of the one method holds of all bodies. -/
theorem forall_bodies {p : Program} {m : Method} {body : Stmt} (hm : p.methods = [m])
    (hbody : m.body = some body) {P : Stmt → Prop} (h : P body) :
    ∀ m ∈ p.methods, ∀ body ∈ m.body, P body := by
  intro x hx b hb
  rw [hm, List.mem_singleton] at hx
  rw [hx, hbody, Option.mem_some] at hb
  rw [← hb]
  exact h

/-- The bindings that a program refers to. -/
def refs (p : Program) : List BindingId := p.gather Expr.ownRefs

/-- The table that lowering starts from. -/
def preserved (p : Program) : Symbols := (p.preserveBindings Flow.matchBindings).symbols

/-- Preservation only adds to the table. -/
theorem preserved_grows (p : Program) : p.symbols.Grows p.preserved := by
  unfold preserved
  rw [Flow.preserveBindings_eq]
  exact Flow.visits_grow _ _

/-- It leaves the variables alone. -/
theorem preserved_vars (p : Program) : p.preserved.vars = p.symbols.vars := by
  unfold preserved
  rw [Flow.preserveBindings_eq]
  exact Flow.visits_keep (P := fun t => t.vars = p.symbols.vars)
    (fun h hm => (Symbols.merge?_vars hm).trans h) (fun _ h => h) p.positions rfl

/-- It keeps a sound table sound. -/
theorem preserved_sound {p : Program} (hs : p.symbols.Sound) : p.preserved.Sound := by
  unfold preserved
  rw [Flow.preserveBindings_eq]
  exact Flow.visits_sound p.positions hs

/-- The table that lowering starts from is a later stage of that of the program. -/
theorem preserved_evolves {p : Program} (hs : p.symbols.Sound) : p.symbols.Evolves p.preserved := by
  refine ⟨p.preserved_grows, preserved_sound hs, ?_⟩
  intro v x hx
  rw [Symbols.var?, p.preserved_vars]
  exact hx

/-- The visit of a statement marks a binding: it escapes the statement, or is
unified by one that does. -/
def Marks (p : Program) (w : Stmt) (b : BindingId) : Prop :=
  ∃ before after, p.positions = before ++ w :: after
    ∧ ∃ m ∈ (Flow.escaping Flow.matchBindings
          (before.foldl (Flow.visit Flow.matchBindings) p.symbols) w).1,
        Reaches p.preserved.parts m b

/-- Whether a type test can have a binding: an unmerged one of the table that is
not void. -/
def testable (s : Symbols) (b : BindingId) : Bool :=
  (s.binding? b).any fun sym => !sym.isMerged && decide (sym.ty ≠ .void)

/-- **Well-scoped programs**: type tests have unmerged bindings of the table that
are not void, each in one type test only; no list that the oracle returns for a
sub-expression has two bindings of one name and type; and references stand
where their bindings are known. -/
structure WellScoped (p : Program) : Prop where
  tested : ∀ b ∈ p.tests, testable p.symbols b = true
  once : p.tests.Nodup
  apart : ∀ m ∈ p.methods, ∀ body ∈ m.body, ∀ x ∈ body.walkExprs, ∀ o,
    (Flow.matchBindings x o p.preserved).1.Pairwise fun a b =>
      Flow.sameVariable (Flow.matchBindings x o p.preserved).2 a b = false
  known : ∀ m ∈ p.methods, ∀ body ∈ m.body, body.Scoped p.preserved p.Marks fun _ => False

variable {p : Program}

/-- A binding can be tested for if it is in the table, unifies nothing and has a type to store. -/
theorem testable_iff {s : Symbols} {b : BindingId} :
    testable s b = true ↔ ∃ sym, s.binding? b = some sym ∧ sym.components = [] ∧ sym.ty ≠ .void := by
  simp [testable, Option.any_eq_true, BindingSymbol.isMerged]

/-- What a node of a body gives is given by the program. -/
theorem mem_gather {own : Expr → List BindingId} {m : Method} (hm : m ∈ p.methods) {body : Stmt}
    (hbody : body ∈ m.body) {x : Expr} (hx : x ∈ body.walkExprs) : ∀ b ∈ own x, b ∈ p.gather own := by
  intro b hb
  refine List.mem_flatMap.mpr ⟨m, hm, ?_⟩
  rw [Option.mem_def.mp hbody, Stmt.gatherOpt_some, Stmt.gather_exprs]
  exact List.mem_flatMap.mpr ⟨x, hx, hb⟩

/-- The patterns in an expression of a statement of the program are patterns of the program. -/
theorem tests_of_mem_positions {w : Stmt} (hw : w ∈ p.positions) {c : Expr} (hc : c ∈ w.unlabeled.ownExprs) :
    ∀ b ∈ c.tests, b ∈ p.tests := by
  intro b hb
  obtain ⟨m, hm, hw⟩ := List.mem_flatMap.mp hw
  obtain ⟨x, hx, hxb⟩ := List.mem_flatMap.mp hb
  cases hbody : m.body with
  | none =>
      rw [hbody] at hw
      exact absurd hw List.not_mem_nil
  | some body =>
      rw [hbody] at hw
      exact mem_gather hm hbody (Stmt.walk_of_mem_positions hw hc x hx) b hxb

section

variable (hs : p.symbols.Sound) (htests : ∀ b ∈ p.tests, p.symbols.Has b)

include hs htests

/-- What escapes a statement when it is visited, escapes it on the table that
lowering starts from, with its flag set. -/
theorem escaping_kept {before after : List Stmt} {w : Stmt} (h : p.positions = before ++ w :: after)
    {c : Expr} {o : Bool} (hesc : Flow.escape? w.label? w.unlabeled = some (c, o)) :
    ∃ ms, Flow.matchBindings c o p.preserved = (ms, p.preserved)
      ∧ (Flow.escaping Flow.matchBindings
          (before.foldl (Flow.visit Flow.matchBindings) p.symbols) w).1 = ms
      ∧ ∀ m ∈ ms, (p.preserved.binding? m).any (·.preserved) = true := by
  have hfinal : p.preserved = after.foldl (Flow.visit Flow.matchBindings)
      (Flow.visit Flow.matchBindings (before.foldl (Flow.visit Flow.matchBindings) p.symbols) w) := by
    unfold preserved
    rw [Flow.preserveBindings_eq, h, List.foldl_append, List.foldl_cons]
  have hsound := Flow.visits_sound before hs
  have hgrows := Flow.visits_grow before p.symbols
  have hin : w ∈ p.positions := by
    rw [h]
    exact List.mem_append_right _ List.mem_cons_self
  generalize before.foldl (Flow.visit Flow.matchBindings) p.symbols = t at hfinal hsound hgrows ⊢
  have hhas : ∀ b ∈ c.tests, t.Has b := fun b hb => hgrows.has
    (htests b (tests_of_mem_positions hin (Flow.mem_ownExprs_of_escape? hesc) b hb))
  have hvisited : Flow.visit Flow.matchBindings t w
      = (Flow.matchBindings c o t).1.foldl Symbols.preserve (Flow.matchBindings c o t).2 := by
    unfold Flow.visit Flow.escaping
    rw [hesc]
  have hlater := Flow.visits_grow after (Flow.visit Flow.matchBindings t w)
  rw [← hfinal, hvisited] at hlater
  have hasked : (Flow.matchBindings c o t).2.Grows p.preserved :=
    (Symbols.Grows.foldl_preserve _ _).trans hlater
  refine ⟨_, Flow.matchBindings_stable (preserved_sound hs).ordered c o hsound.ordered
    (fun b hb _ => hhas b hb) hasked,
    by unfold Flow.escaping; rw [hesc], fun m hm => hlater.preserved ?_⟩
  have hmarked := Symbols.marked_foldl_preserve (s := (Flow.matchBindings c o t).2) hm
  exact hmarked m ((Symbols.Grows.foldl_preserve _ _).has (Flow.matchBindings_has hsound.ordered hhas m hm)) .refl

end

namespace WellScoped

variable (hp : p.WellScoped) (hs : p.symbols.Sound)

include hp

/-- What a program tests for is in its table. -/
theorem has : ∀ b ∈ p.tests, p.symbols.Has b := by
  intro b hb
  obtain ⟨sym, hsym, -⟩ := testable_iff.mp (hp.tested b hb)
  exact Symbols.has_iff.mpr ⟨sym, hsym⟩

include hs

/-- What is marked, a binding that escapes unifies, and its flag is set. -/
theorem marking : Lowering.Marking p.preserved p.Marks := by
  rintro w b ⟨before, after, hvisit, m, hm, hreach⟩
  cases hesc : Flow.escape? w.label? w.unlabeled with
  | none =>
      unfold Flow.escaping at hm
      rw [hesc] at hm
      exact absurd hm List.not_mem_nil
  | some x =>
      obtain ⟨ms, hms, heq, hflags⟩ := escaping_kept hs hp.has hvisit hesc
      rw [heq] at hm
      exact ⟨m, ⟨w.label?, x.1, x.2, ms, hesc, hms, hm, hflags m hm⟩, hreach⟩

end WellScoped

end Program

namespace Lowering

open PatternIR.Flow

/-- Every type but `void` has a default value. -/
theorem exists_defaultLiteral {ty : Ty} (h : ty ≠ .void) :
    ∃ v, defaultLiteral? ty.erasure = some v := by
  cases ty with
  | void => exact absurd rfl h
  | prim kind => cases kind <;> exact ⟨_, rfl⟩
  | _ => exact ⟨_, rfl⟩

section

variable {s : Symbols} {marks : Stmt → BindingId → Prop} (hierarchy : Hierarchy)

/-- What is asked of the body of a method. -/
def Admits (s : Symbols) (marks : Stmt → BindingId → Prop) (m : Method) : Prop :=
  ∀ body ∈ m.body, body.Fits s ∧ body.Scoped s marks fun _ => False

/-- On an empty stack nothing is known. -/
theorem Pass.Ready.bare (hs : s.Sound) {p : Pass} (hp : s.Evolves p.symbols) (hstack : p.stack = .bare) :
    p.Ready s fun _ => False := by
  have hslots : p.stack.slots = [] := by rw [hstack]; rfl
  exact ⟨hs, ⟨hp, by simp [hslots]⟩, fun _ hb => hb.elim⟩

/-- Outside all frames no test is in the way. -/
theorem Pass.avoids_bare {p : Pass} (hstack : p.stack = .bare) (tests : List BindingId) :
    p.Avoids tests := by
  intro slot hslot
  rw [hstack] at hslot
  exact absurd hslot List.not_mem_nil

/-- A method is lowered from an empty stack. -/
theorem lowerMethod_runs (hs : s.Sound) (hmarks : Marking s marks) {m : Method} (hm : Admits s marks m)
    {p : Pass} (hp : s.Evolves p.symbols) (hstack : p.stack = .bare) :
    Runs (lowerMethod ⟨hierarchy, matchBindings⟩ m) p := by
  have hbody : Runs (lowerStmt? ⟨hierarchy, matchBindings⟩ m.body) p := by
    cases hb : m.body with
    | none => exact .pure hp.sound _
    | some body =>
        obtain ⟨hfits, hscoped⟩ := hm body hb
        refine lowerStmt?_runs hierarchy hmarks (some body) hfits hscoped (.bare hs hp hstack)
          (Pass.avoids_bare hstack _) ?_
        rw [hstack]
        simp [Stack.bare]
  exact hbody.bind fun body q hq => .pure hq.evolves.sound _

/-- A class is lowered from an empty stack, each of its methods on its own. -/
theorem lowerMethods_runs (hs : s.Sound) (hmarks : Marking s marks) : ∀ (ms : List Method) {p : Pass},
    (∀ m ∈ ms, Admits s marks m) → s.Evolves p.symbols → p.stack = .bare →
      Runs (lowerMethods ⟨hierarchy, matchBindings⟩ ms) p
  | [], p, _, hp, _ => .pure hp.sound _
  | m :: ms, p, h, hp, hstack => by
      have hm := lowerMethod_runs hierarchy hs hmarks (h m List.mem_cons_self) hp hstack
      refine hm.bind fun m' q₁ h₁ => ?_
      refine (lowerMethods_runs hs hmarks ms (fun x hx => h x (List.mem_cons_of_mem _ hx))
        (hp.trans h₁.evolves) (by rw [h₁.stack, hstack])).bind fun ms' q₂ h₂ => ?_
      exact .pure h₂.evolves.sound _

/-- No class of an admitted program is refused. -/
theorem lowerClass_runs (hs : s.Sound) (hmarks : Marking s marks) {c : Class}
    (h : ∀ m ∈ c.methods, Admits s marks m) {t : Symbols} (ht : s.Evolves t) :
    Runs (lowerClass ⟨hierarchy, matchBindings⟩ c) (Pass.start t) := by
  have hmethods := lowerMethods_runs hierarchy hs hmarks c.methods (p := Pass.start t) h ht rfl
  exact hmethods.bind fun ms q hq => .pure hq.evolves.sound _

/-- Nor are the classes one after the other. -/
theorem lowerClasses_error (hs : s.Sound) (hmarks : Marking s marks) : ∀ (cs : List Class)
    {t : Symbols}, (∀ c ∈ cs, ∀ m ∈ c.methods, Admits s marks m) → s.Evolves t →
      (lowerClasses ⟨hierarchy, matchBindings⟩ cs t).error = none
  | [], _, _, _ => rfl
  | c :: cs, t, h, ht => by
      obtain ⟨c', q, hclass, hlater⟩ :=
        runs_iff.mp (lowerClass_runs hierarchy hs hmarks (h c List.mem_cons_self) ht)
      unfold lowerClasses
      rw [hclass]
      exact lowerClasses_error hs hmarks cs (fun x hx => h x (List.mem_cons_of_mem _ hx))
        (ht.trans hlater.evolves)

end

/-- **Well-scoped programs are never rejected**: where the table is one that
adding and unifying bindings build, and references are to bindings that the
table has when lowering starts, preservation and lowering with the structural
oracle succeed. -/
theorem lower_accepts (p : Program) (hs : p.symbols.Sound) (hp : p.WellScoped)
    (hrefs : ∀ b ∈ p.refs, p.preserved.Has b) :
    ∃ p', (p.preserveBindings matchBindings).lower matchBindings = .ok p' := by
  have hgrows := p.preserved_grows
  have hadmits : ∀ m ∈ p.methods, Admits p.preserved p.Marks m := by
    intro m hm body hbody
    refine ⟨⟨?_, ?_⟩, hp.known m hm body hbody⟩
    · intro x hx
      have hx : x ∈ body.walkExprs := by
        rw [Stmt.gather_exprs] at hx
        simpa [Expr.ownNode] using hx
      refine ⟨?_, fun b hb => hrefs b (Program.mem_gather hm hbody hx b hb),
        hp.apart m hm body hbody x hx⟩
      intro b hb
      obtain ⟨sym, hsym, hcomp, hty⟩ := Program.testable_iff.mp
        (hp.tested b (Program.mem_gather hm hbody hx b hb))
      obtain ⟨v, hv⟩ := exists_defaultLiteral hty
      obtain ⟨flag, hflag, -⟩ := hgrows.entry hsym
      exact ⟨Symbols.isLeaf_iff.mpr ⟨_, hflag, hcomp⟩, _, v, hflag, hv⟩
    · have honce := (List.nodup_flatMap.mp hp.once).1 m hm
      rw [Option.mem_def.mp hbody, Stmt.gatherOpt_some] at honce
      exact honce
  have hnone := lowerClasses_error p.hierarchy (Program.preserved_sound hs) (hp.marking hs) p.classes
    (fun c hc m hm => hadmits m (List.mem_flatMap.mpr ⟨c, hc, hm⟩)) (.refl (Program.preserved_sound hs))
  have herror : ((p.preserveBindings matchBindings).lowerClasses matchBindings).error = none := hnone
  unfold Program.lower
  simp only [herror]
  exact ⟨_, rfl⟩

/-- A program with one method, whose body fits. -/
theorem wellScoped_of_method {p : Program} {m : Method} {body : Stmt} (hm : p.methods = [m])
    (hbody : m.body = some body) (tested : ∀ b ∈ body.tests, Program.testable p.symbols b = true)
    (once : body.tests.Nodup)
    (apart : ∀ x ∈ body.walkExprs, ∀ o, (matchBindings x o p.preserved).1.Pairwise fun a b =>
      sameVariable (matchBindings x o p.preserved).2 a b = false)
    (known : body.Scoped p.preserved p.Marks fun _ => False) : p.WellScoped := by
  have htests := Program.tests_of_method hm hbody
  exact ⟨htests ▸ tested, htests ▸ once, Program.forall_bodies hm hbody apart,
    Program.forall_bodies hm hbody known⟩

namespace Guarded

/-- The program is well scoped. -/
theorem wellScoped : program.WellScoped := by
  refine wellScoped_of_method rfl rfl (by decide) (by decide) (by decide +kernel) ?_
  refine ⟨⟨trivial, trivial, trivial⟩, ⟨.inr ?_, trivial⟩, trivial⟩
  exact ⟨[.block ⟨9, .nowhere⟩ stmts], _, rfl, ⟨0⟩, by decide +kernel, .refl⟩

/-- The table is made of a variable and a binding, which is marked. -/
theorem sound : symbols.Sound := by
  have h := ((Symbols.Sound.empty.addVar "o" .object none false).addBinding "s" .string none).preserve ⟨0⟩
  have heq : (((Symbols.empty.addVar "o" .object none false).2.addBinding "s" .string none).2.preserve ⟨0⟩)
      = symbols := by decide +kernel
  rw [← heq]
  exact h

end Guarded

/-- The guard marks `s`, so the reference behind it is lowered. -/
theorem lower_accepts_guarded :
    Guarded.program.symbols.Sound ∧ Guarded.program.WellScoped
      ∧ (∀ b ∈ Guarded.program.refs, Guarded.program.preserved.Has b)
      ∧ ∃ p', (Guarded.program.preserveBindings matchBindings).lower matchBindings = .ok p' :=
  have hrefs : ∀ b ∈ Guarded.program.refs, Guarded.program.preserved.Has b := by decide +kernel
  ⟨Guarded.sound, Guarded.wellScoped, hrefs,
    lower_accepts Guarded.program Guarded.sound Guarded.wellScoped hrefs⟩

namespace Rejected

/-- A test of `o` against `String`. -/
def test (b : Nat) : Expr :=
  .typeTest ⟨0, .boolean, .nowhere⟩ (.ident ⟨0, .object, .nowhere⟩ (.var ⟨0⟩)) ⟨⟨b⟩, some .string⟩

/-- `o instanceof String x || o instanceof String x` -/
def either (a b : Nat) : Expr := .binary ⟨0, .boolean, .nowhere⟩ .or (test a) (test b)

/-- Where the nodes stand does not matter. -/
def info : StmtInfo := ⟨0, .nowhere⟩

/-- A method with the parameter `o`. -/
def method (stmts : List Stmt) : Method := ⟨0, "m", [⟨0⟩], .void, some (.block info stmts), .nowhere⟩

/-- A class with the method, and the parameter `o` in the table. -/
def program (bindings : Array BindingSymbol) (stmts : List Stmt) : Program :=
  ⟨[⟨0, "C", none, [], [method stmts], .nowhere⟩], ⟨#[⟨⟨0⟩, "o", .object, none, false⟩], bindings⟩⟩

/-- A binding `x` of type `String`. -/
def binding (b : Nat) : BindingSymbol := ⟨⟨b⟩, "x", .string, none, false, []⟩

/-- `if (o instanceof String x || o instanceof String x) { }`, where the table
has the unified binding as void. -/
def overwritten : Program :=
  program #[binding 0, binding 1, ⟨⟨2⟩, "x", .void, none, false, [⟨0⟩, ⟨1⟩]⟩]
    [.ifElse info (either 0 1) (.block info []) none]

/-- `(o instanceof String x || o instanceof String x) && x == null;` -/
def read (a b : Nat) : Stmt :=
  .expr info (.binary ⟨0, .boolean, .nowhere⟩ .and (either a b)
    (.binary ⟨0, .boolean, .nowhere⟩ .eq (.ident ⟨0, .string, .nowhere⟩ (.binding ⟨4⟩))
      (.literal ⟨0, .null, .nowhere⟩ .null)))

/-- Two such statements, the references of which are to a binding that the
table does not have: for either one it will be the first unified one. -/
def dangling : Program :=
  program #[binding 0, binding 1, binding 2, binding 3] [read 0 1, read 2 3]

/-- The error of a result. -/
def error? {α : Type} : Except LowerError α → Option LowerError
  | .ok _ => none
  | .error e => some e

/-- An error that is read off a result is its error. -/
theorem error?_eq_some {α : Type} {r : Except LowerError α} {e : LowerError}
    (h : error? r = some e) : r = .error e := by
  cases r with
  | ok a => injection h
  | error e' =>
      injection h with h
      rw [h]

end Rejected

/-- **Not every well-scoped program is accepted**: not if the table has a
unified binding of another type than what it unifies, and not if references are
to a binding that has yet to be made. -/
theorem lower_rejects :
    (Rejected.overwritten.WellScoped
        ∧ (Rejected.overwritten.preserveBindings matchBindings).lower matchBindings
            = .error (.noDefaultValue .void))
      ∧ Rejected.dangling.WellScoped
        ∧ (Rejected.dangling.preserveBindings matchBindings).lower matchBindings
            = .error (.unresolvedBinding "x" .nowhere) := by
  refine ⟨⟨?_, Rejected.error?_eq_some (by decide +kernel)⟩, ?_,
    Rejected.error?_eq_some (by decide +kernel)⟩
  · refine wellScoped_of_method rfl rfl (by decide) (by decide) (by decide +kernel) ?_
    exact ⟨⟨⟨trivial, trivial⟩, trivial, trivial⟩, trivial⟩
  · refine wellScoped_of_method rfl rfl (by decide) (by decide) (by decide +kernel) ?_
    have hlisted : ∀ l ∈ [Rejected.either 0 1, Rejected.either 2 3],
        ⟨4⟩ ∈ (matchBindings l true Rejected.dangling.preserved).1 := by decide +kernel
    exact ⟨⟨⟨trivial, trivial⟩, .inr ⟨true, rfl, hlisted _ (by simp)⟩, trivial⟩,
      ⟨⟨trivial, trivial⟩, .inr ⟨true, rfl, hlisted _ (by simp)⟩, trivial⟩, trivial⟩

end Lowering

end PatternIR
