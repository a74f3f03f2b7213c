/-
  PatternIR.Proofs.Refinement.Statements
  ──────────────────────────────────────
  **LOWERED STATEMENTS DO THE SAME.**

  A statement with a condition is lowered in a frame for what the condition
  binds.  Declarations of the frame's storage go in front of the statement, or
  into the block around it, which then has that storage behind the statement
  as well.  Behind a guard its condition is false; what it binds when false is
  in the storage that the block has taken over.

    • `Pass.Framed` — the frame of a statement, with a condition or without;
    • `LoweredStmt` — a statement and what lowering makes of it;
    • `LoweredStmt.seq` — in a block, with what comes behind;
    • `DoesSame` — what is shown of a statement, one lemma for each kind;
    • `lowerParts_performs` — the statement and the lowered one.
-/
import PatternIR.Proofs.Flow.Guards
import PatternIR.Proofs.Lowering.Accepted
import PatternIR.Proofs.Refinement.Expressions

namespace PatternIR

/-- The nodes of a statement suit. -/
def Stmt.Suits (u s : Symbols) (h : Hierarchy) (w : Stmt) : Prop :=
  Flow.Suits u s h (w.gather (fun _ => []) Expr.ownNode) w.tests w.vars

/-- The outcome that is certain behind a guard: its condition is false. -/
def Stmt.certain? (w : Stmt) : Option (Expr × Bool) := w.guard?.map (·, false)

/-- A statement guards by its own test. -/
theorem Stmt.test?_of_guard? {w : Stmt} {c : Expr} (h : w.guard? = some c) : w.test? = some c := by
  cases w with
  | ifElse i c' y no => rw [(guard?_ifElse h).1]; rfl
  | whileDo i c' b => rw [(guard?_whileDo h).1]; rfl
  | doWhile i b c' => rw [(guard?_doWhile h).1]; rfl
  | forDo i ss c' es b => rw [(guard?_forDo h).1]; rfl
  | _ => injection h

/-- The condition of a statement that suits. -/
theorem Stmt.Suits.test {u s : Symbols} {h : Hierarchy} {w : Stmt} {c : Expr} (hw : w.Suits u s h)
    (hc : w.test? = some c) :
    c.Suits u s h ∧ ∀ leaf ∈ c.tests, leaf ∈ w.tests := by
  cases w with
  | ifElse i c' y no | whileDo i c' y | doWhile i y c' =>
      injection hc with hc
      subst hc
      simp only [Stmt.Suits, Stmt.tests, Stmt.vars, Stmt.gather_ifElse, Stmt.gather_whileDo,
        Stmt.gather_doWhile, Flow.suits_append] at hw
      refine ⟨hw.2.1.1, fun leaf hleaf => ?_⟩
      simp [hleaf]
  | forDo i ss c' es b =>
      obtain rfl : c' = some c := hc
      simp only [Stmt.Suits, Stmt.tests, Stmt.vars, Stmt.gather_forDo, Option.toList_some,
        Expr.gatherAll_cons, Flow.suits_append] at hw
      refine ⟨hw.2.1.1.1, fun leaf hleaf => ?_⟩
      simp [hleaf]
  | _ => injection hc

/-- The patterns of a statement outside of its condition. -/
def Stmt.restTests : Stmt → List BindingId
  | ifElse _ _ y n => y.tests ++ gatherOpt (fun _ => []) Expr.ownTests n
  | whileDo _ _ b | doWhile _ b _ => b.tests
  | forDo _ ss _ es b =>
    Expr.gatherAll Expr.ownTests es ++ (gatherAll (fun _ => []) Expr.ownTests ss ++ b.tests)
  | w => w.tests

/-- What a stack has gained can be read off it. -/
theorem Stack.gain_injective {st : Stack} {taken taken' : List (Slot × Stmt)}
    (h : st.gain taken = st.gain taken') : taken = taken' := by
  have hslots : st.current.slots ++ taken.map Prod.fst = st.current.slots ++ taken'.map Prod.fst :=
    congrArg (·.current.slots) h
  have hdecls : st.current.hoisted ++ taken.map Prod.snd = st.current.hoisted ++ taken'.map Prod.snd :=
    congrArg (·.current.hoisted) h
  rw [List.zip_of_prod (List.append_cancel_left hslots) (List.append_cancel_left hdecls)]
  exact (List.zip_of_prod rfl rfl).symm

namespace Lowering

open PatternIR.Flow

variable {ω : Type} {setting setting' : Setting ω} {s : Symbols} {p q : Pass}
  {known : BindingId → Prop} {w w' : Stmt} {d : Decorated} {taken : List (Slot × Stmt)}

/-! ## §1. Frames of statements. -/

/-- Entering a frame for no bindings. -/
theorem Pass.Stocked.enter_nothing (hp : p.Stocked s known) (kind : FrameKind) :
    Pass.Stocked s known (p.enter kind []) ∧ (p.enter kind []).storage s = p.storage s := by
  have hslots : ∀ slot, slot ∈ (p.enter kind []).stack.slots ↔ slot ∈ p.stack.slots := fun _ => .rfl
  have hsound : (p.enter kind []).Sound s := ⟨hp.ready.sound.evolves, hp.ready.sound.slots⟩
  have htidy : (p.enter kind []).Tidy s :=
    hp.tidy.sub hp.ready.sound (fun slot => (hslots slot).mp) (.refl hp.ready.sound.evolves.sound)
  have hsame := hp.tidy.storage_same hp.ready.sound htidy hsound hslots (.refl _)
  refine ⟨⟨⟨hp.ready.base, hsound, ?_⟩, htidy, by rw [hsame]; exact hp.stored⟩, hsame⟩
  exact fun b hb hhas => (hp.ready.knows b hb hhas).mono (fun slot => (hslots slot).mpr) (.refl _)

/-- From `p`, a frame with the slots `news` has been entered for a statement
with the condition `cond`, or without one; `rest` are the patterns of its rest. -/
structure Pass.Framed (s : Symbols) (known : BindingId → Prop) (cond : Option Expr)
    (rest : List BindingId) (news : List Slot) (p q : Pass) : Prop where
  stack : q.stack = ⟨⟨.statement, news, []⟩, p.stack.frames⟩
  evolves : p.symbols.Evolves q.symbols
  stocked : q.Stocked s known
  listed : ∀ o, q.Stocked s (withTest s known cond o)
  fits : ∀ c, cond = some c → (q.storage s).Fits s c
  stores : ∀ c, cond = some c → ∀ o, ∀ g ∈ groups s c o, ∃ x, (q.storage s).Stores g x
  avoids : q.Avoids rest
  extends_ : (p.storage s).Extends (q.storage s) p.symbols.vars.size
  behind : ∀ slot ∈ news, p.symbols.vars.size ≤ slot.var.index

/-- The patterns of a statement are those of its condition, if it has one, and those of its rest. -/
structure Parts (cond : Option Expr) (rest ts : List BindingId) : Prop where
  tests : ∀ b, b ∈ Expr.gatherAll Expr.ownTests cond.toList ∨ b ∈ rest → b ∈ ts
  cross : ∀ b ∈ Expr.gatherAll Expr.ownTests cond.toList, b ∉ rest

/-- No pattern of a statement that suits is in its condition and outside of it. -/
theorem parts_of_suits {u : Symbols} {h : Hierarchy} (hw : w.Suits u s h) :
    Parts w.test? w.restTests w.tests := by
  cases w with
  | ifElse i c y n | whileDo i c y | doWhile i y c | forDo i ss c es y =>
      simp only [Stmt.Suits, Stmt.tests, Stmt.vars, Stmt.gather_ifElse, Stmt.gather_whileDo,
        Stmt.gather_doWhile, Stmt.gather_forDo, suits_append] at hw
      exact ⟨by simp [Stmt.test?, Stmt.restTests], by simpa [Stmt.test?, Stmt.restTests] using hw.2.1.2.2⟩
  | _ => exact ⟨by simp [Stmt.test?, Stmt.restTests], by simp [Stmt.test?]⟩

section

variable (hus : setting.program.symbols.Evolves s)

include hus

/-- **Entering the frame of a statement.** -/
theorem Pass.Stocked.framed (hp : p.Stocked s known) {cond : Option Expr} {rest ts : List BindingId}
    (hcond : Flow.Suits setting.program.symbols s setting.hierarchy
      (Expr.gatherAll Expr.ownNode cond.toList) (Expr.gatherAll Expr.ownTests cond.toList)
      (Expr.gatherAll Expr.ownVars cond.toList))
    (hparts : Parts cond rest ts) (hleaf : ∀ b ∈ ts, s.isLeaf b = true) (havoids : p.Avoids ts)
    {bs : List BindingId} {p₁ : Pass}
    (hasked : condFacts? matchBindings cond p = .ok bs p₁) :
    ∃ news, Pass.Framed s known cond rest news p (p₁.enter .statement bs) := by
  have hmisses : (p.storage s).Misses ts := havoids.misses hp.tidy hp.ready.sound
  have hrest : ∀ leaf ∈ rest, s.isLeaf leaf = true := fun leaf hin =>
    hleaf leaf (hparts.tests leaf (.inr hin))
  cases cond with
  | none =>
      -- without a condition nothing is asked, and the frame has no slots
      obtain ⟨rfl, rfl⟩ := pure_eq_ok.mp hasked
      obtain ⟨hstocked, hsame⟩ := hp.enter_nothing .statement
      refine ⟨[], rfl, .refl hp.ready.sound.evolves.sound, hstocked, fun _ => hstocked, by simp, by simp,
        .of_misses ?_ hstocked.tidy hstocked.ready.sound hrest, hsame ▸ .refl _ _, by simp⟩
      rw [hsame]
      exact fun leaf hleaf => hmisses leaf (hparts.tests leaf (.inr hleaf))
  | some c =>
      have hgather : Expr.gatherAll Expr.ownTests (some c).toList = c.tests := by simp
      have hc : c.Suits setting.program.symbols s setting.hierarchy := by
        simpa [Expr.Suits, Expr.vars] using hcond
      have hcross := hparts.cross
      have hmem := hparts.tests
      rw [hgather] at hcross hmem
      -- a condition is asked of both outcomes, as it can be left either way
      have hall : asking (Oracle.all matchBindings c) p = .ok bs p₁ := hasked
      obtain ⟨rfl, rfl⟩ := asking_eq_ok hall
      have hanswer := Expr.Fits.all hc.fits hp.ready.base hp.ready.sound.evolves
      obtain ⟨news, hopened⟩ := hp.opens hus .statement hc hanswer (fun leaf hleaf => (hc.tests leaf hleaf).1)
        (fun o _ g hg => ⟨o, hg⟩) id (.of_misses fun leaf hleaf => hmisses leaf (hmem leaf (.inl hleaf)))
      have hstill := hopened.misses hp.tidy hp.ready.sound
        (fun leaf hleaf => hmisses leaf (hmem leaf (.inr hleaf))) hcross
      refine ⟨news, hopened.stack, hopened.evolves, hopened.stocked, ?_, ?_, ?_,
        .of_misses hstill hopened.stocked.tidy hopened.stocked.ready.sound hrest, hopened.extends_,
        hopened.behind⟩
      · exact fun o => hopened.listed.mono fun b hb => hb.imp id fun hb => ⟨o, by cases o <;> simp, hb⟩
      · rintro _ ⟨⟩
        exact hopened.fits
      · rintro _ ⟨⟩ o
        exact hopened.stores o (by cases o <;> simp)

/-- What the condition of a statement tells in its frame. -/
theorem Pass.Framed.tells {cond : Option Expr} {rest ts : List BindingId} {news : List Slot}
    (h : Pass.Framed s known cond rest news p q) (hparts : Parts cond rest ts) {c : Expr}
    (hcond : cond = some c) (hc : c.Suits setting.program.symbols s setting.hierarchy) (o : Bool) :
    Tells setting.program.symbols (q.at setting s known) c o rest := by
  subst hcond
  have hcross : ∀ leaf ∈ c.tests, leaf ∉ rest := by simpa using hparts.cross
  have hmisses := h.avoids.misses h.stocked.tidy h.stocked.ready.sound
  refine Tells.earlier (Pass.tells h.stocked.tidy hc.fits hus.sound h.stocked.ready.sound (h.fits c rfl)
    (h.stores c rfl o) rfl (Nat.le_refl _) hcross ?_) hus fun leaf hleaf => .of_isLeaf (hc.tests leaf hleaf).1
  intro g leaf other x _ _ _ hother hx
  rw [hmisses other hother] at hx
  injection hx

end

/-! ## §2. Statements and what lowering makes of them. -/

/-- The declarations of slots give default values to variables behind all others. -/
theorem DeclaresSlots.defaults {t : Symbols} {span : Span} {takes : BindingId → Bool} {id : NodeId}
    {slots : List Slot} {refused : List Stmt} {bound : Nat}
    (h : DeclaresSlots t span takes id slots refused taken)
    (hslots : ∀ slot ∈ slots, bound ≤ slot.var.index ∧ TakesAll setting' slot.var) :
    (∀ x ∈ refused, DeclaresDefault setting' bound x)
      ∧ ∀ x ∈ taken, bound ≤ x.1.var.index ∧ DeclaresDefault setting' bound x.2 := by
  induction h with
  | nil id => simp
  | refuse hsym hv htakes rest ih =>
      obtain ⟨hrefused, htaken⟩ := ih fun slot hslot => hslots slot (List.mem_cons_of_mem _ hslot)
      obtain ⟨hbound, hall⟩ := hslots _ List.mem_cons_self
      refine ⟨?_, htaken⟩
      intro x hx
      rcases List.mem_cons.mp hx with rfl | hx
      · exact ⟨_, _, _, rfl, ⟨_, _, rfl⟩, hbound, hall⟩
      · exact hrefused x hx
  | take hsym hv htakes rest ih =>
      obtain ⟨hrefused, htaken⟩ := ih fun slot hslot => hslots slot (List.mem_cons_of_mem _ hslot)
      obtain ⟨hbound, hall⟩ := hslots _ List.mem_cons_self
      refine ⟨hrefused, ?_⟩
      intro x hx
      rcases List.mem_cons.mp hx with rfl | hx
      · exact ⟨hbound, _, _, _, rfl, ⟨_, _, rfl⟩, hbound, hall⟩
      · exact htaken x hx

/-- From `p` to `q` a statement is lowered to `d`, and the frame it stands in
takes over storage.  The two do the same, alone and under a label; behind a
guard its condition is false, as far as the storage at `q` goes. -/
structure LoweredStmt (setting setting' : Setting ω) (s : Symbols) (known : BindingId → Prop) (w : Stmt)
    (p : Pass) (d : Decorated) (q : Pass) (taken : List (Slot × Stmt)) : Prop where
  gains : Gains s w p q taken
  tidy : q.Tidy s
  fits : ∀ c, w.guard? = some c → (q.storage s).Fits s c
  decls : ∀ x ∈ d.decls, DeclaresDefault setting' p.symbols.vars.size x
  taken : ∀ x ∈ taken, p.symbols.vars.size ≤ x.1.var.index
    ∧ DeclaresDefault setting' p.symbols.vars.size x.2
  alone : Agreeing setting setting' (p.at setting s known) w.tests
    (.outcome setting.program.symbols (q.storage s) w.certain?)
    (fun n => execStmt setting n w) fun k => execStmt setting' k d.stmt
  labeled : ∀ (j j' : StmtInfo) (l : String), Agreeing setting setting' (p.at setting s known) w.tests
    .nothing (fun n => execStmt setting n (.labeled j l w)) fun k => execStmt setting' k (.labeled j' l d.stmt)

/-- What is certain tells no more where less is stored. -/
theorem Gain.outcome_mono {α : Type} {u : Symbols} {ρ ρ' : Storage} {certain : Option (Expr × Bool)}
    (hρ : ∀ {leaf : BindingId} {x : VarId}, ρ' leaf = some x → ρ leaf = some x) {a : α} {since : Nat}
    {f : Fact} (h : Gain.outcome u ρ' certain a since f) : Gain.outcome u ρ certain a since f := by
  obtain ⟨c, o, hc, o', g, x, ho, hg, hx, hf⟩ := h
  exact ⟨c, o, hc, o', g, x, ho, hg, fun leaf hleaf => hρ (hx leaf hleaf), hf⟩

namespace LoweredStmt

section

variable (hus : setting.program.symbols.Evolves s)

/-- A statement without a condition. -/
theorem of_later (hp : p.Stocked s known) (hlater : p.Later q) (htest : w.unlabeled.test? = none)
    (hguard : w.guard? = none) (hloop : w.isLoop = false) (hloop' : w'.isLoop = false)
    (h : Performs setting setting' (p.at setting s known) none w w') :
    LoweredStmt setting setting' s known w p ⟨[], w'⟩ q [] where
  gains := .quiet hlater (not_escapes htest)
  tidy := hp.tidy.later hp.ready.sound hlater
  fits c hc := absurd hc (by simp [hguard])
  decls := by simp
  taken := by simp
  alone := h.mono fun ⟨_, _, hc, _⟩ => absurd hc (by simp [Stmt.certain?, hguard])
  labeled j j' l := (Performs.labeled hloop hloop' h).forget.subset (by simp)

/-- A statement under a label. -/
theorem under_label (h : LoweredStmt setting setting' s known w p d q taken) (i i' : StmtInfo) (l : String) :
    LoweredStmt setting setting' s known (.labeled i l w) p { d with stmt := .labeled i' l d.stmt } q taken where
  gains := { h.gains with tests := by simpa using h.gains.tests }
  tidy := h.tidy
  fits _ hc := by injection hc
  decls := h.decls
  taken := h.taken
  alone := ((h.labeled i i' l).subset (by simp)).mono fun ⟨_, _, hc, _⟩ => by injection hc
  labeled := by
    intro j j' l'
    have hplain : Agreeing setting setting' (p.at setting s known) (Stmt.labeled i l w).tests .nothing
        (fun n => execStmt setting n (.labeled i l w)) fun k => execStmt setting' k (.labeled i' l d.stmt) :=
      (h.labeled i i' l).subset (by simp)
    exact (Performs.labeled rfl rfl (Performs.of_nothing hplain)).forget.subset (by simp)

/-- **A statement as it leaves its frame.** -/
theorem of_framed (hp : p.Stocked s known) {rest : List BindingId} {news : List Slot} {stmt : Stmt}
    {q₀ q₁ q₂ : Pass} (hframed : Pass.Framed s known w.test? rest news p q₀) (hlater : q₀.Later q₁)
    (hdec : decorateStmt stmt q₁ = .ok d q₂) (hleft : q.stack = q₂.stack.pop)
    (hsame : q.symbols = q₂.symbols) (hgains : Gains s w p q taken)
    (hq : q.symbols.Evolves setting'.program.symbols)
    (hcarries : Carries setting setting' (q₀.at setting s known) w.certain? w stmt) :
    LoweredStmt setting setting' s known w p d q taken := by
  obtain ⟨refused, taken', hdecl, rfl, rfl⟩ := decorateStmt_eq_ok hdec
  have hstack := hlater.stack.trans hframed.stack
  rw [hstack] at hdecl hleft
  obtain rfl : taken' = taken := Stack.gain_injective (hleft.symm.trans hgains.stack)
  have hevolves : q₀.symbols.Evolves q.symbols := hsame.symm ▸ hlater.evolves
  have hsound := hframed.stocked.ready.sound
  have hnews : ∀ slot ∈ news, p.symbols.vars.size ≤ slot.var.index ∧ TakesAll setting' slot.var := by
    intro slot hslot
    have hmem : slot ∈ q₀.stack.slots := by
      rw [hframed.stack]
      exact List.mem_append_left _ hslot
    obtain ⟨x, hx, hty⟩ := hframed.stocked.tidy.reference slot hmem
    exact ⟨hframed.behind slot hslot, takesAll_of hx (Ty.not_isPrimitive hty) (hevolves.trans hq)⟩
  obtain ⟨hrefused, htaken⟩ := hdecl.defaults hnews
  -- the slots that are left are some of those in the frame
  have hslots : ∀ slot ∈ q.stack.slots, slot ∈ q₀.stack.slots := by
    intro slot hslot
    rw [hframed.stack]
    rcases hgains.mem_slots.mp hslot with hslot | hslot
    · exact List.mem_append_right _ hslot
    · obtain ⟨x, hx, rfl⟩ := List.mem_map.mp hslot
      exact List.mem_append_left _ (hdecl.mem_slots x hx)
  have htidy := hframed.stocked.tidy.sub hsound hslots hevolves
  have hsub : ∀ {leaf : BindingId} {x : VarId}, q.storage s leaf = some x →
      ∀ other, q.storage s other = some x ↔ q₀.storage s other = some x :=
    hframed.stocked.tidy.storage_sub hsound htidy (hgains.sound hp.ready.sound) hslots hevolves.grows
  refine ⟨hgains, htidy, ?_, hrefused, htaken, ?_, ?_⟩
  · intro c hc
    exact (hframed.fits c (Stmt.test?_of_guard? hc)).narrow hsub
  · have halone : Agreeing setting setting' (p.at setting s known) w.tests
        (.outcome setting.program.symbols (q₀.storage s) w.certain?) (fun n => execStmt setting n w)
        fun k => execStmt setting' k stmt :=
      hcarries.alone.extends_ hframed.extends_ hframed.evolves.size_le fun _ => id
    exact halone.mono (Gain.outcome_mono fun {leaf x} hx => (hsub hx leaf).mp hx)
  · intro j j' l
    have hlabeled : Agreeing setting setting' (p.at setting s known) (Stmt.labeled j l w).tests .nothing
        (fun n => execStmt setting n (.labeled j l w)) fun k => execStmt setting' k (.labeled j' l stmt) :=
      hcarries.labeled.forget.extends_ hframed.extends_ hframed.evolves.size_le fun _ => id
    exact hlabeled.subset (by simp)

include hus

/-- A statement in one piece, behind the declarations that no block has taken over. -/
theorem closed (h : LoweredStmt setting setting' s known w p d q taken) (hp : p.Stocked s known) {q₁ : Pass}
    (hclose : d.close q = .ok w' q₁) :
    Agreeing setting setting' (p.at setting s known) w.tests
      (.outcome setting.program.symbols (q.storage s) w.certain?)
      (fun n => execStmt setting n w) fun k => execStmt setting' k w' := by
  rcases close_eq_ok hclose with ⟨-, rfl, -⟩ | ⟨-, rfl, -⟩
  · exact h.alone
  · exact Agreeing.closed (Nat.le_trans hus.size_le hp.ready.sound.evolves.size_le) h.decls h.alone

/-- A statement that stands directly in a statement other than a block. -/
theorem inner (h : LoweredStmt setting setting' s known w p d q taken) (hp : p.Stocked s known) {q₁ : Pass}
    (hclose : d.close q = .ok w' q₁) : Performs setting setting' (p.at setting s known) none w w' :=
  .of_nothing (h.closed hus hp hclose).forget

end

end LoweredStmt

/-! ## §3. Statements of a block. -/

/-- A statement marks all that its condition binds when false, as a guard, or nothing. -/
def Guarding (s : Symbols) (marks : Stmt → BindingId → Prop) : Prop :=
  ∀ w b, marks w b → ∃ c ms, w.guard? = some c ∧ matchBindings c false s = (ms, s) ∧ b ∈ ms
    ∧ ∀ m ∈ ms, marks w m ∧ (s.binding? m).any (·.preserved) = true

variable {marks : Stmt → BindingId → Prop}

/-- A binding that is marked escapes from its statement. -/
theorem Guarding.escapes (h : Guarding s marks) {b : BindingId} (hb : marks w b) : Escapes s w b := by
  obtain ⟨c, ms, hc, hms, hmem, hall⟩ := h w b hb
  exact ⟨w.label?, c, false, ms, Stmt.escape?_of_guard? hc, hms, hmem, (hall b hmem).2⟩

/-- So such marks are a marking. -/
theorem Guarding.marking (h : Guarding s marks) : Marking s marks :=
  fun _ b hb => ⟨b, h.escapes hb, .refl⟩

/-- Emitting declarations leaves what is stored alone. -/
theorem Pass.Stocked.emit (h : p.Stocked s known) : p.emit.Stocked s known :=
  ⟨h.ready.emit, ⟨h.tidy.range, h.tidy.reference, h.tidy.var, h.tidy.leaf⟩, h.stored⟩

namespace LoweredStmt

variable {q₁ : Pass}

/-- Behind a statement the storage has been extended. -/
theorem extends_ (h : LoweredStmt setting setting' s known w p d q taken) (hp : p.Stocked s known) :
    (p.storage s).Extends (q.storage s) p.symbols.vars.size := by
  have hslots : ∀ slot, slot ∈ q.stack.slots ↔ slot ∈ taken.map Prod.fst ∨ slot ∈ p.stack.slots :=
    fun slot => h.gains.mem_slots.trans or_comm
  refine hp.tidy.extends_ hp.ready.sound h.tidy (h.gains.sound hp.ready.sound) h.gains.evolves.grows hslots ?_
  intro slot hslot
  obtain ⟨x, hx, rfl⟩ := List.mem_map.mp hslot
  exact (h.taken x hx).1

/-- Behind a statement of a block, what it marks is stored as well. -/
theorem behind (h : LoweredStmt setting setting' s known w p d q taken) (hp : p.Stocked s known)
    (hguards : Guarding s marks) (hkind : p.stack.current.kind = .block) :
    q.Stocked s fun b => known b ∨ marks w b := by
  have hsound := h.gains.sound hp.ready.sound
  have hgrows := hsound.evolves.grows
  refine ⟨h.gains.ready hkind hp.ready (hguards.marking w), h.tidy, ?_⟩
  rintro b (hb | hb) hhas
  · obtain ⟨x, hx⟩ := hp.stored b hb hhas
    exact ⟨x, fun leaf hleaf => (h.extends_ hp).kept (hx leaf hleaf)⟩
  · obtain ⟨x, hx, rfl⟩ := h.gains.escaping hkind b (hguards.escapes hb)
    refine ⟨x.1.var, fun leaf hleaf => (h.tidy.storage_eq hsound).mpr ⟨Symbols.isLeaf_of_mem_leaves hleaf,
      x.1, h.gains.mem_slots.mpr (.inr (List.mem_map_of_mem hx)), hgrows.leaves hleaf, rfl⟩⟩

/-- What a guard that marks bindings tells behind it. -/
theorem tells (h : LoweredStmt setting setting' s known w p d q taken) (hp : p.Stocked s known)
    (hus : setting.program.symbols.Evolves s) (hguards : Guarding s marks)
    (hkind : p.stack.current.kind = .block)
    (hw : w.Suits setting.program.symbols s setting.hierarchy) {ts : List BindingId}
    (havoids : p.Avoids ts) (hcross : ∀ b ∈ w.tests, b ∉ ts) {P : Place} (hP : P.storage = q.storage s)
    (hbound : q.symbols.vars.size ≤ P.bound) {b : BindingId} (hb : marks w b) {c : Expr}
    (hc : w.guard? = some c) : Tells setting.program.symbols P c false ts := by
  obtain ⟨hsuits, htests⟩ := hw.test (Stmt.test?_of_guard? hc)
  obtain ⟨c', ms, hc', hms, -, hall⟩ := hguards w b hb
  rw [hc] at hc'
  injection hc' with hc'
  subst hc'
  have hsound := h.gains.sound hp.ready.sound
  have hstocked := h.behind hp hguards hkind
  have hmisses := (h.gains.avoids hp.ready.sound havoids hcross).misses h.tidy hsound
  refine Tells.earlier (Pass.tells h.tidy hsuits.fits hus.sound hsound (h.fits c hc) ?_ hP hbound
    (fun leaf hleaf => hcross leaf (htests leaf hleaf)) ?_) hus
    fun leaf hleaf => .of_isLeaf (hsuits.tests leaf hleaf).1
  · -- each group is that of a binding listed, which is marked
    intro g hg
    have hfits : c.Fits s := hsuits.fits
    obtain ⟨-, hstands⟩ := (hfits.grouped hus.sound).stands false (.refl s) hus.sound
    rw [hms] at hstands
    obtain ⟨m, hm, hmg⟩ := exists_of_forall₂ hstands.flip hg
    obtain ⟨x, hx⟩ := hstocked.stored m (.inr (hall m hm).1) hmg.1
    exact ⟨x, fun leaf hleaf => hx leaf ((hmg.2 leaf).mpr hleaf)⟩
  · intro g leaf other x _ _ _ hother hx
    rw [hmisses other hother] at hx
    injection hx

/-- **A statement in a block, and what comes behind it.** -/
theorem seq (h : LoweredStmt setting setting' s known w p d q taken) (hp : p.Stocked s known)
    (twin : Twin setting setting') (hus : setting.program.symbols.Evolves s)
    (hguards : Guarding s marks) (hblock : p.InBlock)
    (hw : w.Suits setting.program.symbols s setting.hierarchy) {ss out : List Stmt}
    (havoids : p.Avoids (Stmt.gatherAll (fun _ => []) Expr.ownTests ss))
    (hcross : ∀ b ∈ w.tests, b ∉ Stmt.gatherAll (fun _ => []) Expr.ownTests ss)
    (hclose : d.close q = .ok w' q₁) (hlater : q.Later q₁)
    (hrest : Agreeing setting setting' (q₁.emit.at setting s fun b => known b ∨ marks w b)
      (Stmt.gatherAll (fun _ => []) Expr.ownTests ss) .nothing (fun n => execAll setting n ss)
      fun k => execAll setting' k out) :
    Agreeing setting setting' (p.at setting s known) (Stmt.gatherAll (fun _ => []) Expr.ownTests (w :: ss))
      .nothing (fun n => execAll setting n (w :: ss))
      fun k => execAll setting' k (q₁.stack.current.hoisted ++ w' :: out) := by
  have hstored : q₁.storage s = q.storage s :=
    h.tidy.storage_later (h.gains.sound hp.ready.sound) hlater
  have hsame : q₁.emit.storage s = q.storage s := hstored
  have hbound := hlater.evolves.size_le
  have hsize := Nat.le_trans hus.size_le hp.ready.sound.evolves.size_le
  -- in a block nothing was hoisted before, so the declarations are those of this statement
  have hhoisted : q₁.stack.current.hoisted = taken.map Prod.snd := by
    rw [hlater.stack, h.gains.stack]
    show p.stack.current.hoisted ++ _ = _
    rw [hblock.2, List.nil_append]
  rw [hhoisted]
  have hextends := h.extends_ hp
  rw [← hsame] at hextends
  have hclosed := h.closed hus hp hclose
  rw [← hsame] at hclosed
  refine Agreeing.behind_decls hsize ?_ ?_
  · intro x hx
    obtain ⟨y, hy, rfl⟩ := List.mem_map.mp hx
    exact (h.taken y hy).2
  -- a marked statement is a guard: it ends only where its condition has failed
  · by_cases hmarked : ∃ b, marks w b
    · obtain ⟨b, hb⟩ := hmarked
      obtain ⟨c, ms, hc, hms, -, -⟩ := hguards w b hb
      have hcertain : w.certain? = some (c, false) := by rw [Stmt.certain?, hc]; rfl
      obtain ⟨hsuits, htests⟩ := hw.test (Stmt.test?_of_guard? hc)
      rw [hcertain] at hclosed
      refine .seq hclosed hrest ?_ ?_ hextends (Nat.le_trans h.gains.evolves.size_le hbound) ?_
      · rintro _ _ ⟨⟩
        exact htests
      · rintro _ _ ⟨⟩
        exact h.tells hp hus hguards hblock.1 hw havoids hcross hsame hbound hb hc
      · rintro x ⟨hx | hx, hhas⟩
        · exact .inl ⟨hx, hhas⟩
        · obtain ⟨c', ms', hc', hms', hmem, -⟩ := hguards w x hx
          rw [hc] at hc'
          injection hc' with hc'
          subst hc'
          refine .inr ⟨c, false, rfl, told_of_listed hus hus.sound hsuits.fits
            (fun leaf hleaf => .of_isLeaf (hsuits.tests leaf hleaf).1) ?_ hhas twin.sound⟩
          rw [hms']
          exact hmem
    -- no binding is in scope behind it, so what its condition told is not needed
    · have hforgot : Agreeing setting setting' (p.at setting s known) w.tests
          (.outcome setting.program.symbols (q₁.emit.storage s) none) (fun n => execStmt setting n w)
          fun k => execStmt setting' k w' :=
        hclosed.mono fun ⟨_, _, hc, _⟩ => absurd hc (by simp)
      refine .seq hforgot hrest (by simp) (by simp) hextends
        (Nat.le_trans h.gains.evolves.size_le hbound) ?_
      rintro x ⟨hx | hx, hhas⟩
      · exact .inl ⟨hx, hhas⟩
      · exact absurd ⟨x, hx⟩ hmarked

end LoweredStmt

/-! ## §4. Guards and what they end in. -/

/-- Fewer tests may be told of. -/
theorem Tells.subset {u : Symbols} {P : Place} {c : Expr} {o : Bool} {ts ts' : List BindingId}
    (h : Tells u P c o ts) (hts : ∀ leaf ∈ ts', leaf ∈ ts) : Tells u P c o ts' :=
  ⟨h.valid, h.disjoint, h.single, h.stored, fun leaf hleaf hin => h.tests leaf hleaf (hts leaf hin),
    fun hg hleaf hx hother => h.storage hg hleaf hx (hts _ hother)⟩

section

variable (quiet : setting.Quiet)

include quiet

/-- A loop that is a guard ends by its test. -/
theorem endsByTest (w b : Stmt) (cond : Option Expr) (h : ∀ c, w.guard? = some c →
    cond = some c ∧ ∀ x ∈ b.walk, x.isBreak = false) : EndsByTest setting none cond b w.certain? := by
  intro x hx
  obtain ⟨c, hc, rfl⟩ := Option.map_eq_some_iff.mp hx
  obtain ⟨hcond, hno⟩ := h c hc
  exact ⟨by rw [hcond]; rfl, settle_after_noBreak quiet hno none⟩

/-- An `if` that is a guard does not run off the end of its branch. -/
theorem certain?_ifElse (i : StmtInfo) (c : Expr) (y : Stmt) (no : Option Stmt) :
    ∃ only : Option Bool, (Stmt.ifElse i c y no).certain? = only.map (c, ·)
      ∧ (only = some false → ∀ n m m', execStmt setting n y m ≠ .ok () m') ∧ only ≠ some true := by
  cases hguard : (Stmt.ifElse i c y no).guard? with
  | none => exact ⟨none, by rw [Stmt.certain?, hguard]; rfl, by simp, by simp⟩
  | some c' =>
      obtain ⟨rfl, -, hy⟩ := Stmt.guard?_ifElse hguard
      exact ⟨some false, by rw [Stmt.certain?, hguard]; rfl, fun _ => execStmt_endsInJump quiet hy, by simp⟩

end

/-! ## §5. Statements. -/

/-- What is done alike further on, is done alike here. -/
theorem Agreeing.back {α : Type} {ts : List BindingId} {c g : Nat → Run ω α}
    (h : Agreeing setting setting' (q.at setting s known) ts .nothing c g) {known' : BindingId → Prop}
    (hp : p.Stocked s known') (hlater : p.Later q) :
    Agreeing setting setting' (p.at setting s known) ts .nothing c g := by
  refine h.extends_ ?_ hlater.evolves.size_le fun _ => id
  show (p.storage s).Extends (q.storage s) _
  rw [hp.tidy.storage_later hp.ready.sound hlater]
  exact .refl _ _

/-- What is performed later on is performed here. -/
theorem Performs.back (h : Performs setting setting' (q.at setting s known) none w w')
    {known' : BindingId → Prop} (hp : p.Stocked s known') (hlater : p.Later q) :
    Performs setting setting' (p.at setting s known) none w w' :=
  .of_nothing (h.forget.back hp hlater)

/-- Where tests are avoided, storage fits what tests for them. -/
theorem Pass.Stocked.fits (hp : p.Stocked s known) {e : Expr} {ts : List BindingId} (h : p.Avoids ts)
    (hts : ∀ leaf ∈ e.tests, leaf ∈ ts) : (p.storage s).Fits s e :=
  .of_misses fun leaf hleaf => h.misses hp.tidy hp.ready.sound leaf (hts leaf hleaf)

section

variable {marks : Stmt → BindingId → Prop}

/-- What a statement leaves in its block. -/
theorem lowered_gains (hierarchy : Hierarchy) (hguards : Guarding s marks) (hw : w.Fits s)
    (hscoped : w.Scoped s marks known) (hp : p.Ready s known) (havoids : p.Avoids w.tests)
    (hrun : lowerParts ⟨hierarchy, matchBindings⟩ w p = .ok d q) : ∃ taken, Gains s w p q taken := by
  obtain ⟨d', q', taken, hrun', hgains⟩ := lowerParts_gains hierarchy hguards.marking w hw hscoped hp havoids
  rw [hrun] at hrun'
  injection hrun' with _ hq
  exact ⟨taken, hq ▸ hgains⟩

/-- A statement that stands directly in a statement other than a block leaves nothing. -/
theorem inner_later (hierarchy : Hierarchy) (hguards : Guarding s marks) (hw : w.Fits s)
    (hscoped : w.Scoped s marks known) (hp : p.Ready s known) (havoids : p.Avoids w.tests)
    (hkind : p.stack.current.kind ≠ .block) {q₁ : Pass}
    (hrun : lowerParts ⟨hierarchy, matchBindings⟩ w p = .ok d q) (hclose : d.close q = .ok w' q₁) :
    p.Later q ∧ q.Later q₁ := by
  obtain ⟨taken, hgains⟩ := lowered_gains hierarchy hguards hw hscoped hp havoids hrun
  exact ⟨hgains.later hkind, (close_runs hgains.evolves.sound d).later hclose⟩

/-- **A statement is lowered in its frame**, which leaves what its block takes over. -/
theorem lowered_framed (hus : setting.program.symbols.Evolves s) (hguards : Guarding s marks)
    (hw : w.Suits setting.program.symbols s setting.hierarchy) (hscoped : w.Scoped s marks known)
    (hp : p.Stocked s known) (havoids : p.Avoids w.tests) {rest : List BindingId}
    (hparts : Parts w.test? rest w.tests) {bs : List BindingId} {p₁ : Pass}
    (hasked : condFacts? matchBindings w.test? p = .ok bs p₁)
    (hrun : lowerParts ⟨setting.hierarchy, matchBindings⟩ w p = .ok d q) :
    ∃ news q₀ taken, p₁.enter .statement bs = q₀ ∧ Pass.Framed s known w.test? rest news p q₀
      ∧ Gains s w p q taken ∧ q₀.stack.current.kind ≠ .block := by
  obtain ⟨taken, hgains⟩ := lowered_gains setting.hierarchy hguards hw.fits hscoped hp.ready havoids hrun
  have hcond : Flow.Suits setting.program.symbols s setting.hierarchy
      (Expr.gatherAll Expr.ownNode w.test?.toList) (Expr.gatherAll Expr.ownTests w.test?.toList)
      (Expr.gatherAll Expr.ownVars w.test?.toList) := by
    cases hc : w.test? with
    | none => exact ⟨⟨by simp, by simp⟩, by simp, by simp, by simp, by simp⟩
    | some c => simpa [Expr.Suits, Expr.vars] using (hw.test hc).1
  obtain ⟨news, hframed⟩ := hp.framed hus hcond hparts
    (fun leaf hleaf => hus.grows.isLeaf (hw.tests leaf hleaf).1) havoids hasked
  refine ⟨news, _, taken, rfl, hframed, hgains, ?_⟩
  rw [hframed.stack]
  simp

/-- An expression that may be missing means the same. -/
theorem lowerExpr?_means (twin : Twin setting setting') (hus : setting.program.symbols.Evolves s)
    (e : Option Expr) {e' : Option Expr}
    (h : Flow.Suits setting.program.symbols s setting.hierarchy (Expr.gatherAll Expr.ownNode e.toList)
      (Expr.gatherAll Expr.ownTests e.toList) (Expr.gatherAll Expr.ownVars e.toList))
    (hscoped : Expr.ScopedAll s known e.toList) (hp : p.Stocked s known)
    (hfits : ∀ c, e = some c → (p.storage s).Fits s c)
    (hrun : lowerExpr? ⟨setting.hierarchy, matchBindings⟩ e p = .ok e' q)
    (hq : q.symbols.Evolves setting'.program.symbols) :
    Option.Rel (Means setting setting' (p.at setting s known)) e e' := by
  cases e with
  | none =>
      obtain ⟨rfl, -⟩ := pure_eq_ok.mp hrun
      exact .none
  | some e =>
      obtain ⟨e', hexpr, rfl⟩ := bind_pure_eq_ok.mp hrun
      simp only [Option.toList_some, Expr.gatherAll_cons, suits_append] at h
      exact .some (lowerExpr_means twin hus e h.1 hscoped.1 hp (hfits e rfl) hexpr hq).means

/-- Decorating a statement leaves the table alone. -/
theorem decorateStmt_symbols {stmt : Stmt} (h : decorateStmt stmt p = .ok d q) : q.symbols = p.symbols := by
  obtain ⟨-, -, -, -, rfl⟩ := decorateStmt_eq_ok h
  rfl

/-- Lowered wherever it suits, the statement does the same. -/
def DoesSame (setting setting' : Setting ω) (s : Symbols) (marks : Stmt → BindingId → Prop) (w : Stmt) :
    Prop :=
  ∀ {known : BindingId → Prop} {p q : Pass} {d : Decorated},
    w.Suits setting.program.symbols s setting.hierarchy → w.Scoped s marks known → p.Stocked s known →
      p.Avoids w.tests → lowerParts ⟨setting.hierarchy, matchBindings⟩ w p = .ok d q →
        q.symbols.Evolves setting'.program.symbols →
          ∃ taken, LoweredStmt setting setting' s known w p d q taken

/-- So does an optional statement that stands directly in another one. -/
def DoesSameOpt (setting setting' : Setting ω) (s : Symbols) (marks : Stmt → BindingId → Prop)
    (w : Option Stmt) : Prop :=
  ∀ {known : BindingId → Prop} {p q : Pass} {w' : Option Stmt},
    Flow.Suits setting.program.symbols s setting.hierarchy
      (Stmt.gatherOpt (fun _ => []) Expr.ownNode w) (Stmt.gatherOpt (fun _ => []) Expr.ownTests w)
      (Stmt.gatherOpt Stmt.ownVars Expr.ownVars w) → Stmt.ScopedOpt s marks known w → p.Stocked s known →
        p.Avoids (Stmt.gatherOpt (fun _ => []) Expr.ownTests w) → p.stack.current.kind ≠ .block →
          lowerStmt? ⟨setting.hierarchy, matchBindings⟩ w p = .ok w' q →
            q.symbols.Evolves setting'.program.symbols →
              Option.Rel (Performs setting setting' (p.at setting s known) none) w w'

/-- So do statements that stand directly in another one. -/
def DoSame (setting setting' : Setting ω) (s : Symbols) (marks : Stmt → BindingId → Prop)
    (ss : List Stmt) : Prop :=
  ∀ {known : BindingId → Prop} {p q : Pass} {ss' : List Stmt},
    Flow.Suits setting.program.symbols s setting.hierarchy
      (Stmt.gatherAll (fun _ => []) Expr.ownNode ss) (Stmt.gatherAll (fun _ => []) Expr.ownTests ss)
      (Stmt.gatherAll Stmt.ownVars Expr.ownVars ss) → Stmt.ScopedEach s marks known ss → p.Stocked s known →
        p.Avoids (Stmt.gatherAll (fun _ => []) Expr.ownTests ss) → p.stack.current.kind ≠ .block →
          lowerStmts ⟨setting.hierarchy, matchBindings⟩ ss p = .ok ss' q →
            q.symbols.Evolves setting'.program.symbols →
              Agreeing setting setting' (p.at setting s known)
                (Stmt.gatherAll (fun _ => []) Expr.ownTests ss) .nothing
                (fun n => execAll setting n ss) fun k => execAll setting' k ss'

/-- So do the statements of a block. -/
def DoSameBlock (setting setting' : Setting ω) (s : Symbols) (marks : Stmt → BindingId → Prop)
    (ss : List Stmt) : Prop :=
  ∀ {known : BindingId → Prop} {p q : Pass} {out : List Stmt},
    Flow.Suits setting.program.symbols s setting.hierarchy
      (Stmt.gatherAll (fun _ => []) Expr.ownNode ss) (Stmt.gatherAll (fun _ => []) Expr.ownTests ss)
      (Stmt.gatherAll Stmt.ownVars Expr.ownVars ss) → Stmt.ScopedBlock s marks known ss → p.Stocked s known →
        p.Avoids (Stmt.gatherAll (fun _ => []) Expr.ownTests ss) → p.InBlock →
          lowerBlock ⟨setting.hierarchy, matchBindings⟩ ss p = .ok out q →
            q.symbols.Evolves setting'.program.symbols →
              Agreeing setting setting' (p.at setting s known)
                (Stmt.gatherAll (fun _ => []) Expr.ownTests ss) .nothing
                (fun n => execAll setting n ss) fun k => execAll setting' k out

/-! ## §6. Statements without a condition. -/

section

variable {i : StmtInfo} {v : VarId} {l : Option String} {e : Option Expr} {ss : List Stmt} {b : Stmt}

/-- An expression as a statement. -/
theorem doesSame_expr (twin : Twin setting setting') (hus : setting.program.symbols.Evolves s) (e : Expr) :
    DoesSame setting setting' s marks (.expr i e) := by
  intro known p q d h hscoped hp havoids hrun hq
  simp only [Stmt.Suits, Stmt.tests, Stmt.vars, Stmt.gather_expr, suits_append] at h
  obtain ⟨e', hexpr, rfl⟩ := bind_pure_eq_ok.mp hrun
  have hlater := (lowerExpr_runs _ e h.2.1.fits hscoped hp.ready).later hexpr
  have he := lowerExpr_means twin hus e h.2.1 hscoped hp
    (hp.fits havoids fun leaf hleaf => by simpa using hleaf) hexpr hq
  exact ⟨[], .of_later hp hlater rfl rfl rfl rfl (.expr he.means)⟩

/-- A declaration. -/
theorem doesSame_decl (twin : Twin setting setting') (hus : setting.program.symbols.Evolves s) :
    DoesSame setting setting' s marks (.decl i v e) := by
  intro known p q d h hscoped hp havoids hrun hq
  have hv := h.vars v (by simp [Stmt.vars, Stmt.ownVars])
  simp only [Stmt.Suits, Stmt.tests, Stmt.vars, Stmt.gather_decl, suits_append] at h
  obtain ⟨e', hexpr, rfl⟩ := bind_pure_eq_ok.mp hrun
  have hlater := (lowerExpr?_runs _ e h.2.1.fits hscoped hp.ready).later hexpr
  have he := lowerExpr?_means twin hus e h.2.1 hscoped hp (by
    rintro c rfl
    exact hp.fits havoids fun leaf hleaf => by simpa using hleaf) hexpr hq
  refine ⟨[], .of_later hp hlater rfl rfl rfl rfl ?_⟩
  cases he with
  | none => exact .declNone
  | some he => exact .declSome twin hv he

/-- A return. -/
theorem doesSame_ret (twin : Twin setting setting') (hus : setting.program.symbols.Evolves s) :
    DoesSame setting setting' s marks (.ret i e) := by
  intro known p q d h hscoped hp havoids hrun hq
  simp only [Stmt.Suits, Stmt.tests, Stmt.vars, Stmt.gather_ret, suits_append] at h
  obtain ⟨e', hexpr, rfl⟩ := bind_pure_eq_ok.mp hrun
  have hlater := (lowerExpr?_runs _ e h.2.1.fits hscoped hp.ready).later hexpr
  have he := lowerExpr?_means twin hus e h.2.1 hscoped hp (by
    rintro c rfl
    exact hp.fits havoids fun leaf hleaf => by simpa using hleaf) hexpr hq
  refine ⟨[], .of_later hp hlater rfl rfl rfl rfl ?_⟩
  cases he with
  | none => exact .retNone
  | some he => exact .retSome he

/-- A jump out of a statement. -/
theorem doesSame_brk : DoesSame setting setting' s marks (.brk i l) := by
  intro known p q d _ _ hp _ hrun _
  obtain ⟨rfl, rfl⟩ := pure_eq_ok.mp hrun
  exact ⟨[], .of_later hp (.refl hp.ready.sound.evolves.sound) rfl rfl rfl rfl .brk⟩

/-- A jump to the next turn of a loop. -/
theorem doesSame_cont : DoesSame setting setting' s marks (.cont i l) := by
  intro known p q d _ _ hp _ hrun _
  obtain ⟨rfl, rfl⟩ := pure_eq_ok.mp hrun
  exact ⟨[], .of_later hp (.refl hp.ready.sound.evolves.sound) rfl rfl rfl rfl .cont⟩

/-- A block. -/
theorem doesSame_block (hguards : Guarding s marks) (ih : DoSameBlock setting setting' s marks ss) :
    DoesSame setting setting' s marks (.block i ss) := by
  intro known p q d h hscoped hp havoids hrun hq
  have hnone := Storing.nil (t := p.symbols) []
  simp only [Stmt.Suits, Stmt.tests, Stmt.vars, Stmt.gather_block, suits_append] at h
  simp only [Stmt.tests, Stmt.gather_block, List.nil_append] at havoids
  have hlater := (block_runs hp.ready.sound.evolves.sound fun news q hentered =>
    lowerBlock_runs setting.hierarchy hguards.marking ss h.2.1.fits hscoped
      (hp.ready.enter hnone hentered) (havoids.enter hp.ready.sound hnone (by simp) hentered)
      (by rw [hentered.stack])).later hrun
  obtain ⟨out, q₁, hblock, rfl, rfl⟩ := lowerParts_block_eq_ok hrun
  obtain ⟨hstocked, hsame⟩ := hp.enter_nothing .block
  have hout := ih h.2.1 hscoped hstocked havoids ⟨rfl, rfl⟩ hblock hq
  refine ⟨[], .of_later hp hlater rfl rfl rfl rfl (.block (hout.extends_ ?_ (Nat.le_refl _) fun _ => id))⟩
  show (p.storage s).Extends ((p.enter .block []).storage s) _
  rw [hsame]
  exact .refl _ _

/-- A statement under a label. -/
theorem doesSame_labeled {l : String} (ih : DoesSame setting setting' s marks b) :
    DoesSame setting setting' s marks (.labeled i l b) := by
  intro known p q d h hscoped hp havoids hrun hq
  simp only [Stmt.Suits, Stmt.tests, Stmt.vars, Stmt.gather_labeled, suits_append] at h
  simp only [Stmt.tests, Stmt.gather_labeled, List.nil_append] at havoids
  obtain ⟨d', hbody, rfl⟩ := bind_pure_eq_ok.mp hrun
  obtain ⟨taken, hb⟩ := ih h.2.1 hscoped hp havoids hbody hq
  exact ⟨taken, hb.under_label i i l⟩

end

/-! ## §7. Statements with a condition. -/

-- Each has two halves: every part is lowered in a later state of the frame, where what was in
-- reach still is (`later`), and does the same there, which `back` carries to the state in which
-- the frame was entered.
section

variable {i : StmtInfo} {ss : List Stmt} {c : Expr} {es : List Expr} {y b : Stmt} {n : Option Stmt}
variable (twin : Twin setting setting') (hus : setting.program.symbols.Evolves s) (quiet : setting.Quiet)
  (hguards : Guarding s marks)

include twin hus quiet hguards

/-- An `if`, whose branches see what the condition tells of its outcome. -/
theorem doesSame_ifElse (ihy : DoesSame setting setting' s marks y)
    (ihn : DoesSameOpt setting setting' s marks n) : DoesSame setting setting' s marks (.ifElse i c y n) := by
  intro known p q d h hscoped hp havoids hrun hq
  have hparts := parts_of_suits h
  have hw := h
  simp only [Stmt.Suits, Stmt.tests, Stmt.vars, Stmt.gather_ifElse, suits_append] at h
  obtain ⟨-, ⟨hc, ⟨hy, hn, -⟩, hcross⟩, -⟩ := h
  obtain ⟨bs, p₁, c', q₂, dy, q₃, y', q₄, n', q₅, q₁, hasked, hcond, hlowered, hclose, hother, hdec,
    rfl⟩ := lowerParts_ifElse_eq_ok hrun
  obtain ⟨news, q₀, taken, henter, hframed, hgains, hkind⟩ :=
    lowered_framed hus hguards hw hscoped hp havoids hparts hasked hrun
  rw [henter] at hcond
  have hlisted : ∀ o, q₀.Stocked s (withListed s known c o) := hframed.listed
  have hsound := hframed.stocked.ready.sound
  have h₁ := (lowerExpr_runs _ c hc.fits hscoped.1 hframed.stocked.ready).later hcond
  have hy₁ := (hframed.avoids.mono fun b hb => List.mem_append_left _ hb).later hsound h₁
  obtain ⟨h₂, h₃⟩ := inner_later setting.hierarchy hguards hy.fits hscoped.2.1
    ((hlisted true).later h₁).ready hy₁ (by rwa [h₁.stack]) hlowered hclose
  have h₁₃ := (h₁.trans h₂).trans h₃
  have hn₁ := (hframed.avoids.mono fun b hb => List.mem_append_right y.tests hb).later hsound h₁₃
  have hkind₃ : q₄.stack.current.kind ≠ .block := by rwa [h₁₃.stack]
  have h₄ := (lowerStmt?_runs setting.hierarchy hguards.marking n hn.fits hscoped.2.2
    ((hlisted false).later h₁₃).ready hn₁ hkind₃).later hother
  have hq₅ : q₅.symbols.Evolves setting'.program.symbols := by rwa [← decorateStmt_symbols hdec]
  -- the parts, each at its place
  have hc' := lowerExpr_means twin hus c hc hscoped.1 hframed.stocked (hframed.fits c rfl) hcond
    (((h₂.trans h₃).trans h₄).evolves.trans hq₅)
  obtain ⟨_, hy'⟩ := ihy hy hscoped.2.1
    ((hlisted true).later h₁) hy₁ hlowered ((h₃.trans h₄).evolves.trans hq₅)
  have hyes := (hy'.inner hus ((hlisted true).later h₁) hclose).back (hlisted true) h₁
  have hno := ihn hn hscoped.2.2 ((hlisted false).later h₁₃) hn₁ hkind₃ hother hq₅
  -- behind the statement an outcome is certain if the branch of the other one never completes
  obtain ⟨only, honly, hends, htrue⟩ := certain?_ifElse quiet i c y n
  have hsameIf : Performs setting setting' (q₀.at setting s known) (Stmt.ifElse i c y n).certain?
      (.ifElse i c y n) (.ifElse i c' y' n') := by
    rw [honly]
    exact .ifElse (Q := fun o => q₀.at setting s (withListed s known c o)) hc'.means
      (fun o => hframed.tells hus hparts rfl hc o) (fun _ => rfl) (fun _ => Nat.le_refl _)
      (fun _ _ hb => scope_of_listed twin hus hc hb.1 hb.2) hyes
      (rel_imp hno fun _ _ h => h.back (hlisted false) h₁₃) hends fun h => absurd h htrue
  exact ⟨taken, .of_framed hp hframed (h₁₃.trans h₄) hdec rfl rfl hgains hq
    (.of_performs rfl rfl hsameIf)⟩

/-- A `while`, whose body sees what the condition tells when it holds. -/
theorem doesSame_whileDo (ih : DoesSame setting setting' s marks b) :
    DoesSame setting setting' s marks (.whileDo i c b) := by
  intro known p q d h hscoped hp havoids hrun hq
  have hparts := parts_of_suits h
  have hw := h
  simp only [Stmt.Suits, Stmt.tests, Stmt.vars, Stmt.gather_whileDo, suits_append] at h
  obtain ⟨-, ⟨hc, hb, hcross⟩, -⟩ := h
  obtain ⟨bs, p₁, c', q₂, db, q₃, b', q₄, q₁, hasked, hcond, hlowered, hclose, hdec, rfl⟩ :=
    lowerParts_whileDo_eq_ok hrun
  obtain ⟨news, q₀, taken, henter, hframed, hgains, hkind⟩ :=
    lowered_framed hus hguards hw hscoped hp havoids hparts hasked hrun
  rw [henter] at hcond
  have hlisted : q₀.Stocked s (withListed s known c true) := hframed.listed true
  have h₁ := (lowerExpr_runs _ c hc.fits hscoped.1 hframed.stocked.ready).later hcond
  have hb₁ : q₂.Avoids b.tests := hframed.avoids.later hframed.stocked.ready.sound h₁
  obtain ⟨h₂, h₃⟩ := inner_later setting.hierarchy hguards hb.fits hscoped.2 (hlisted.later h₁).ready hb₁
    (by rwa [h₁.stack]) hlowered hclose
  have hq₄ : q₄.symbols.Evolves setting'.program.symbols := by rwa [← decorateStmt_symbols hdec]
  have hc' := lowerExpr_means twin hus c hc hscoped.1 hframed.stocked (hframed.fits c rfl) hcond
    ((h₂.trans h₃).evolves.trans hq₄)
  obtain ⟨_, hb'⟩ := ih hb hscoped.2 (hlisted.later h₁) hb₁ hlowered (h₃.evolves.trans hq₄)
  have hdo := (hb'.inner hus (hlisted.later h₁) hclose).back hlisted h₁
  have hends := endsByTest quiet (.whileDo i c b) b (some c) fun c' hguard => by
    obtain ⟨rfl, hno⟩ := Stmt.guard?_whileDo hguard
    exact ⟨rfl, hno⟩
  exact ⟨taken, .of_framed hp hframed ((h₁.trans h₂).trans h₃) hdec rfl rfl hgains hq
    (.whileDo (Q := q₀.at setting s (withListed s known c true)) hc'.means (hframed.tells hus hparts rfl hc true) rfl (Nat.le_refl _)
      (fun _ hb => scope_of_listed twin hus hc hb.1 hb.2) hdo hends)⟩

/-- A `do`, whose body sees nothing of the condition behind it. -/
theorem doesSame_doWhile (ih : DoesSame setting setting' s marks b) :
    DoesSame setting setting' s marks (.doWhile i b c) := by
  intro known p q d h hscoped hp havoids hrun hq
  have hparts := parts_of_suits h
  have hw := h
  simp only [Stmt.Suits, Stmt.tests, Stmt.vars, Stmt.gather_doWhile, suits_append] at h
  obtain ⟨-, ⟨hc, hb, hcross⟩, -⟩ := h
  obtain ⟨bs, p₁, db, q₂, b', q₃, c', q₄, q₁, hasked, hlowered, hclose, hcond, hdec, rfl⟩ :=
    lowerParts_doWhile_eq_ok hrun
  obtain ⟨news, q₀, taken, henter, hframed, hgains, hkind⟩ :=
    lowered_framed hus hguards hw hscoped hp havoids hparts hasked hrun
  rw [henter] at hlowered
  have hstocked := hframed.stocked
  obtain ⟨h₁, h₂⟩ := inner_later setting.hierarchy hguards hb.fits hscoped.1 hstocked.ready hframed.avoids
    hkind hlowered hclose
  have h₁₂ := h₁.trans h₂
  have h₃ := (lowerExpr_runs _ c hc.fits hscoped.2 (hstocked.later h₁₂).ready).later hcond
  have hq₄ : q₄.symbols.Evolves setting'.program.symbols := by rwa [← decorateStmt_symbols hdec]
  -- the body has been lowered in between, which leaves the storage of the frame as it was
  have hfits : (q₃.storage s).Fits s c := by
    rw [hstocked.tidy.storage_later hstocked.ready.sound h₁₂]
    exact hframed.fits c rfl
  have hc' := (lowerExpr_means twin hus c hc hscoped.2 (hstocked.later h₁₂) hfits hcond hq₄).back
    hstocked h₁₂
  obtain ⟨_, hb'⟩ := ih hb hscoped.1 hstocked hframed.avoids hlowered ((h₂.trans h₃).evolves.trans hq₄)
  have hends := endsByTest quiet (.doWhile i b c) b (some c) fun c' hguard => by
    obtain ⟨rfl, hno⟩ := Stmt.guard?_doWhile hguard
    exact ⟨rfl, hno⟩
  exact ⟨taken, .of_framed hp hframed (h₁₂.trans h₃) hdec rfl rfl hgains hq
    (.doWhile hc'.means (hb'.inner hus hstocked hclose) hends)⟩

/-- A `for`, whose start sees nothing of the condition, whose step and body see
what it tells when it holds. -/
theorem doesSame_forDo {c : Option Expr} (ihss : DoSame setting setting' s marks ss)
    (ih : DoesSame setting setting' s marks b) : DoesSame setting setting' s marks (.forDo i ss c es b) := by
  intro known p q d h hscoped hp havoids hrun hq
  have hparts := parts_of_suits h
  have hw := h
  simp only [Stmt.Suits, Stmt.tests, Stmt.vars, Stmt.gather_forDo, suits_append] at h
  obtain ⟨-, ⟨hc, ⟨hes, ⟨hss, hb, -⟩, -⟩, hcross⟩, -⟩ := h
  obtain ⟨bs, p₁, ss', q₂, c', q₃, es', q₄, db, q₅, b', q₆, q₁, hasked, hstart, hcond, hstep,
    hlowered, hclose, hdec, rfl⟩ := lowerParts_forDo_eq_ok hrun
  obtain ⟨news, q₀, taken, henter, hframed, hgains, hkind⟩ :=
    lowered_framed hus hguards hw hscoped hp havoids hparts hasked hrun
  rw [henter] at hstart
  have hstocked := hframed.stocked
  have hsound := hstocked.ready.sound
  have hlisted : q₀.Stocked s (withTest s known c true) := hframed.listed true
  -- the start is where nothing is told yet; the step and the body are where the condition holds
  have hss₀ : q₀.Avoids (Stmt.gatherAll (fun _ => []) Expr.ownTests ss) :=
    hframed.avoids.mono fun x hx => List.mem_append_right _ (List.mem_append_left _ hx)
  have hb₀ : q₀.Avoids b.tests :=
    hframed.avoids.mono fun x hx => List.mem_append_right _ (List.mem_append_right _ hx)
  have h₁ := (lowerStmts_runs setting.hierarchy hguards.marking ss hss.fits hscoped.1 hstocked.ready hss₀
    hkind).later hstart
  have h₂ := (lowerExpr?_runs _ c hc.fits hscoped.2.1 (hstocked.later h₁).ready).later hcond
  have h₁₂ := h₁.trans h₂
  have h₃ := (lowerExprs_runs _ es hes.fits hscoped.2.2.1 (hlisted.later h₁₂).ready).later hstep
  have h₁₃ := h₁₂.trans h₃
  obtain ⟨h₄, h₅⟩ := inner_later setting.hierarchy hguards hb.fits hscoped.2.2.2
    (hlisted.later h₁₃).ready (hb₀.later hsound h₁₃) (by rwa [h₁₃.stack]) hlowered hclose
  have hq₆ : q₆.symbols.Evolves setting'.program.symbols := by rwa [← decorateStmt_symbols hdec]
  have hend₃ := (h₄.trans h₅).evolves.trans hq₆
  have hss' := ihss hss hscoped.1 hstocked hss₀ hkind hstart
    ((h₂.trans h₃).evolves.trans hend₃)
  have hc' := lowerExpr?_means twin hus c hc hscoped.2.1 (hstocked.later h₁) (by
    rw [hstocked.tidy.storage_later hsound h₁]
    exact hframed.fits) hcond (h₃.evolves.trans hend₃)
  have hes' := lowerExprs_means twin hus es hes hscoped.2.2.1 (hlisted.later h₁₂) (by
    rw [hstocked.tidy.storage_later hsound h₁₂]
    exact (hframed.avoids.mono fun x hx => List.mem_append_left _ hx).misses hstocked.tidy hsound)
    hstep hend₃
  obtain ⟨_, hb'⟩ := ih hb hscoped.2.2.2 (hlisted.later h₁₃)
    (hb₀.later hsound h₁₃) hlowered (h₅.evolves.trans hq₆)
  have hdo := (hb'.inner hus (hlisted.later h₁₃) hclose).back hlisted h₁₃
  have hends := endsByTest quiet (.forDo i ss c es b) b c fun c' hguard =>
    Stmt.guard?_forDo hguard
  refine ⟨taken, .of_framed hp hframed ((h₁₃.trans h₄).trans h₅) hdec rfl rfl hgains hq
    (.forDo (Q := q₀.at setting s (withTest s known c true)) hss' (rel_imp hc' fun _ _ h => h.back hstocked h₁)
      ?_ rfl (Nat.le_refl _) ?_
      (hes'.imp fun _ _ h => h.back hlisted h₁₂) hdo hends)⟩
  · rintro e rfl
    simp only [Option.toList_some, Expr.gatherAll_cons, suits_append] at hc
    refine (hframed.tells hus hparts rfl hc.1 true).subset ?_
    intro leaf hleaf
    simp only [Stmt.restTests, List.mem_append] at hleaf ⊢
    tauto
  · rintro x ⟨hx, hhas⟩
    cases c with
    | none => exact .inl ⟨hx, hhas⟩
    | some e =>
        simp only [Option.toList_some, Expr.gatherAll_cons, suits_append] at hc
        exact (scope_of_listed twin hus hc.1 hx hhas).imp id fun h => ⟨e, rfl, h⟩

end

/-! ## §8. Statements in statements. -/

section

variable {ss : List Stmt}

/-- A branch that may be missing. -/
theorem doesSameOpt_none : DoesSameOpt setting setting' s marks none := by
  intro known p q w' _ _ _ _ _ hrun _
  obtain ⟨rfl, -⟩ := pure_eq_ok.mp hrun
  exact .none

/-- A branch that is there. -/
theorem doesSameOpt_some (hus : setting.program.symbols.Evolves s) (hguards : Guarding s marks)
    (ih : DoesSame setting setting' s marks w) : DoesSameOpt setting setting' s marks (some w) := by
  intro known p q w' h hscoped hp havoids hkind hrun hq
  obtain ⟨d, q₁, w₁, hlowered, hclose, rfl⟩ := lowerStmt?_some_eq_ok hrun
  obtain ⟨h₁, h₂⟩ := inner_later setting.hierarchy hguards h.fits hscoped hp.ready havoids hkind hlowered hclose
  obtain ⟨taken, hw⟩ := ih h hscoped hp havoids hlowered (h₂.evolves.trans hq)
  exact .some (hw.inner hus hp hclose)

/-- No statement. -/
theorem doSame_nil : DoSame setting setting' s marks [] := by
  intro known p q ss' _ _ _ _ _ hrun _
  obtain ⟨rfl, -⟩ := pure_eq_ok.mp hrun
  exact (Agreeing.pure ()).step rfl (fun _ => rfl) rfl fun _ => rfl

/-- A statement and those behind it. -/
theorem doSame_cons (hus : setting.program.symbols.Evolves s) (hguards : Guarding s marks)
    (ihw : DoesSame setting setting' s marks w) (ihss : DoSame setting setting' s marks ss) : DoSame setting setting' s marks (w :: ss) := by
  intro known p q ss' h hscoped hp havoids hkind hrun hq
  simp only [Stmt.gatherAll_cons, suits_append] at h havoids
  obtain ⟨hw, hss, hcross⟩ := h
  obtain ⟨d, q₁, w', q₂, rest, hlowered, hclose, hrest, rfl⟩ := lowerStmts_cons_eq_ok hrun
  have hw₁ : p.Avoids w.tests := havoids.mono fun b hb => List.mem_append_left _ hb
  obtain ⟨h₁, h₂⟩ := inner_later setting.hierarchy hguards hw.fits hscoped.1 hp.ready hw₁ hkind hlowered hclose
  have hq₂ := hp.later (h₁.trans h₂)
  have hss₂ : q₂.Avoids (Stmt.gatherAll (fun _ => []) Expr.ownTests ss) :=
    (havoids.mono fun b hb => List.mem_append_right _ hb).later hp.ready.sound (h₁.trans h₂)
  have hkind₂ : q₂.stack.current.kind ≠ .block := by
    rw [(h₁.trans h₂).stack]
    exact hkind
  have h₃ := (lowerStmts_runs setting.hierarchy hguards.marking ss hss.fits hscoped.2 hq₂.ready hss₂
    hkind₂).later hrest
  obtain ⟨taken, hw'⟩ := ihw hw hscoped.1 hp hw₁ hlowered
    ((h₂.trans h₃).evolves.trans hq)
  have hss' := ihss hss hscoped.2 hq₂ hss₂ hkind₂ hrest hq
  exact .seq (hw'.inner hus hp hclose) (hss'.back hp (h₁.trans h₂)) (by simp) (by simp) (.refl _ _)
    (Nat.le_refl _) fun _ => .inl

/-- A block of no statement. -/
theorem doSameBlock_nil : DoSameBlock setting setting' s marks [] := by
  intro known p q out _ _ _ _ _ hrun _
  obtain ⟨rfl, -⟩ := pure_eq_ok.mp hrun
  exact (Agreeing.pure ()).step rfl (fun _ => rfl) rfl fun _ => rfl

/-- A statement of a block, which takes over what it leaves, and those behind it. -/
theorem doSameBlock_cons (twin : Twin setting setting') (hus : setting.program.symbols.Evolves s)
    (hguards : Guarding s marks) (ihw : DoesSame setting setting' s marks w)
    (ihss : DoSameBlock setting setting' s marks ss) : DoSameBlock setting setting' s marks (w :: ss) := by
  intro known p q out h hscoped hp havoids hblock hrun hq
  simp only [Stmt.gatherAll_cons, suits_append] at h havoids
  obtain ⟨hw, hss, hcross⟩ := h
  obtain ⟨d, q₁, w', q₂, rest, hlowered, hclose, hrest, rfl⟩ := lowerBlock_cons_eq_ok hrun
  have hw₁ : p.Avoids w.tests := havoids.mono fun b hb => List.mem_append_left _ hb
  have hss₁ := havoids.mono (fun b hb => List.mem_append_right w.tests hb)
  obtain ⟨taken', hgains⟩ := lowered_gains setting.hierarchy hguards hw.fits hscoped.1 hp.ready hw₁ hlowered
  have h₂ := (close_runs hgains.evolves.sound d).later hclose
  have hgains₁ := hgains.before h₂
  have hready := (hgains₁.ready hblock.1 hp.ready (hguards.marking w)).emit
  have havoids₂ : q₂.emit.Avoids (Stmt.gatherAll (fun _ => []) Expr.ownTests ss) :=
    hgains₁.avoids hp.ready.sound hss₁ hcross
  have hblock₂ : q₂.emit.InBlock := ⟨by
    show q₂.stack.current.kind = .block
    rw [hgains₁.stack]
    exact hblock.1, rfl⟩
  obtain ⟨rest', q₄', hrest', hevolves, -⟩ := lowerBlock_runs setting.hierarchy hguards.marking ss hss.fits
    hscoped.2 hready havoids₂ hblock₂.1
  have hend : q₂.symbols.Evolves setting'.program.symbols := by
    rw [hrest] at hrest'
    injection hrest' with _ hq'
    exact (hq' ▸ hevolves).trans hq
  obtain ⟨taken, hw'⟩ := ihw hw hscoped.1 hp hw₁ hlowered
    (h₂.evolves.trans hend)
  have hstocked := ((hw'.behind hp hguards hblock.1).later h₂).emit
  have hss' := ihss hss hscoped.2 hstocked havoids₂ hblock₂ hrest hq
  exact hw'.seq hp twin hus hguards hblock hw hss₁ hcross hclose h₂ hss'

end

/-! ## §9. The induction. -/

mutual
/-- **A lowered statement does the same**, by induction on the statement. -/
theorem lowerParts_performs (twin : Twin setting setting') (hus : setting.program.symbols.Evolves s)
    (quiet : setting.Quiet) (hguards : Guarding s marks) : ∀ w : Stmt, DoesSame setting setting' s marks w
  | .expr _ e => doesSame_expr twin hus e
  | .decl _ _ _ => doesSame_decl twin hus
  | .ret _ _ => doesSame_ret twin hus
  | .brk _ _ => doesSame_brk
  | .cont _ _ => doesSame_cont
  | .block _ ss => doesSame_block hguards (lowerBlock_performs twin hus quiet hguards ss)
  | .labeled _ _ b => doesSame_labeled (lowerParts_performs twin hus quiet hguards b)
  | .ifElse _ _ y n =>
      doesSame_ifElse twin hus quiet hguards (lowerParts_performs twin hus quiet hguards y) (lowerStmt?_performs twin hus quiet hguards n)
  | .whileDo _ _ b => doesSame_whileDo twin hus quiet hguards (lowerParts_performs twin hus quiet hguards b)
  | .doWhile _ b _ => doesSame_doWhile twin hus quiet hguards (lowerParts_performs twin hus quiet hguards b)
  | .forDo _ ss _ _ b =>
      doesSame_forDo twin hus quiet hguards (lowerStmts_performs twin hus quiet hguards ss) (lowerParts_performs twin hus quiet hguards b)
/-- A branch that may be missing. -/
theorem lowerStmt?_performs (twin : Twin setting setting') (hus : setting.program.symbols.Evolves s)
    (quiet : setting.Quiet) (hguards : Guarding s marks) : ∀ w : Option Stmt, DoesSameOpt setting setting' s marks w
  | none => doesSameOpt_none
  | some w => doesSameOpt_some hus hguards (lowerParts_performs twin hus quiet hguards w)
/-- Statements one after the other. -/
theorem lowerStmts_performs (twin : Twin setting setting') (hus : setting.program.symbols.Evolves s)
    (quiet : setting.Quiet) (hguards : Guarding s marks) : ∀ ss : List Stmt, DoSame setting setting' s marks ss
  | [] => doSame_nil
  | w :: ss => doSame_cons hus hguards (lowerParts_performs twin hus quiet hguards w) (lowerStmts_performs twin hus quiet hguards ss)
/-- The statements of a block. -/
theorem lowerBlock_performs (twin : Twin setting setting') (hus : setting.program.symbols.Evolves s)
    (quiet : setting.Quiet) (hguards : Guarding s marks) : ∀ ss : List Stmt, DoSameBlock setting setting' s marks ss
  | [] => doSameBlock_nil
  | w :: ss => doSameBlock_cons twin hus hguards (lowerParts_performs twin hus quiet hguards w) (lowerBlock_performs twin hus quiet hguards ss)
end

end

end Lowering

end PatternIR
