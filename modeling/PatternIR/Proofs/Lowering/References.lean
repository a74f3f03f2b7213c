/-
  PatternIR.Proofs.Lowering.References
  ────────────────────────────────────
  **WHERE REFERENCES TO BINDINGS MAY STAND.**

  A reference is well scoped where the structural oracle, asked about a
  condition around it, lists the binding for the outcome with which the
  reference is evaluated; in a block also behind a statement that marks it.

  When the pass gets there the table has grown, and the oracle may list another
  binding for the same patterns.  Nothing is lost by that: the frame of the
  condition has a slot for an alias of each binding listed, and an alias of one
  is an alias of every other for the same patterns.

    • `Expr.Scoped`, `Stmt.Scoped` — where references may stand;
    • `Answers` — what the oracle lists on a later table;
    • `Pass.Ready` — a state with storage for what is known;
    • `lowerExpr_runs` — from such a state an expression is lowered.
-/
import PatternIR.Proofs.Lowering.Known
import PatternIR.Proofs.Lowering.Scopes

namespace PatternIR

/-! ## §1. Where references may stand. -/

/-- The outcome of the left operand with which the right one is evaluated. -/
def BinOp.passes? : BinOp → Option Bool
  | .and => some true
  | .or => some false
  | _ => none

/-- The bindings known, and those that the oracle lists for an outcome of a
condition, asked on the table `s`. -/
def withListed (s : Symbols) (known : BindingId → Prop) (cond : Expr) (outcome : Bool) :
    BindingId → Prop :=
  fun b => known b ∨ b ∈ (Flow.matchBindings cond outcome s).1

/-- The same for a condition that may be missing. -/
def withTest (s : Symbols) (known : BindingId → Prop) : Option Expr → Bool → BindingId → Prop
  | none, _ => known
  | some cond, outcome => withListed s known cond outcome

namespace Expr

mutual
/-- Each reference to a binding stands where the binding is known.  What the
oracle lists is read on the table `s`. -/
def Scoped (s : Symbols) : (known : BindingId → Prop) → Expr → Prop
  | known, ident _ (.binding b) => known b
  | _, ident _ (.var _) | _, literal _ _ => True
  | known, unary _ _ e | known, cast _ _ e | known, instanceOf _ e _ | known, typeTest _ e _ =>
    e.Scoped s known
  | known, binary _ op l r =>
    l.Scoped s known
      ∧ r.Scoped s fun b => known b ∨ ∃ o ∈ op.passes?, b ∈ (Flow.matchBindings l o s).1
  | known, conditional _ c y n =>
    c.Scoped s known ∧ y.Scoped s (withListed s known c true)
      ∧ n.Scoped s (withListed s known c false)
  | known, assign _ t v => t.Scoped s known ∧ v.Scoped s known
  | known, call _ _ es => ScopedAll s known es
  | known, methodCall _ r _ es => r.Scoped s known ∧ ScopedAll s known es
  | known, letIn _ ds b => ScopedDefs s known ds ∧ b.Scoped s known
/-- The same of several expressions; what one lists is not known in the next. -/
def ScopedAll (s : Symbols) : (known : BindingId → Prop) → List Expr → Prop
  | _, [] => True
  | known, e :: es => e.Scoped s known ∧ ScopedAll s known es
/-- The same of the values of definitions. -/
def ScopedDefs (s : Symbols) : (known : BindingId → Prop) → List (VarId × Expr) → Prop
  | _, [] => True
  | known, (_, e) :: ds => e.Scoped s known ∧ ScopedDefs s known ds
end

/-- The binding a reference is to. -/
def ownRefs : Expr → List BindingId
  | ident _ (.binding b) => [b]
  | _ => []

end Expr

namespace Stmt

mutual
/-- Each reference to a binding stands where the binding is known; `marks` tells
which bindings a statement of a block makes known behind it. -/
def Scoped (s : Symbols) (marks : Stmt → BindingId → Prop) : (known : BindingId → Prop) → Stmt → Prop
  | known, expr _ e => e.Scoped s known
  | known, decl _ _ value | known, ret _ value => Expr.ScopedAll s known value.toList
  | known, block _ stmts => ScopedBlock s marks known stmts
  | known, ifElse _ c yes no =>
    c.Scoped s known ∧ yes.Scoped s marks (withListed s known c true)
      ∧ ScopedOpt s marks (withListed s known c false) no
  | known, whileDo _ c body =>
    c.Scoped s known ∧ body.Scoped s marks (withListed s known c true)
  | known, doWhile _ body c => body.Scoped s marks known ∧ c.Scoped s known
  | known, forDo _ start c step body =>
    ScopedEach s marks known start ∧ Expr.ScopedAll s known c.toList
      ∧ Expr.ScopedAll s (withTest s known c true) step
      ∧ body.Scoped s marks (withTest s known c true)
  | known, labeled _ _ body => body.Scoped s marks known
  | _, brk _ _ | _, cont _ _ => True
/-- In a block, what a statement marks is known in the later ones. -/
def ScopedBlock (s : Symbols) (marks : Stmt → BindingId → Prop) :
    (known : BindingId → Prop) → List Stmt → Prop
  | _, [] => True
  | known, t :: ts => t.Scoped s marks known ∧ ScopedBlock s marks (fun b => known b ∨ marks t b) ts
/-- The same of statements that are no block, such as those that begin a loop. -/
def ScopedEach (s : Symbols) (marks : Stmt → BindingId → Prop) :
    (known : BindingId → Prop) → List Stmt → Prop
  | _, [] => True
  | known, t :: ts => t.Scoped s marks known ∧ ScopedEach s marks known ts
/-- The same of a branch that may be missing. -/
def ScopedOpt (s : Symbols) (marks : Stmt → BindingId → Prop) :
    (known : BindingId → Prop) → Option Stmt → Prop
  | _, none => True
  | known, some t => t.Scoped s marks known
end

end Stmt

namespace Flow

/-- What is asked of an expression wherever it stands: a type test has an
unmerged binding whose storage has a default value, and no list for the
expression has two bindings for one variable; a reference is to a binding of
the table. -/
structure Proper (s : Symbols) (x : Expr) : Prop where
  test : ∀ b ∈ x.ownTests, s.isLeaf b = true ∧ s.Storable b
  ref : ∀ b ∈ x.ownRefs, s.Has b
  apart : ∀ o, (matchBindings x o s).1.Pairwise fun a b =>
    sameVariable (matchBindings x o s).2 a b = false

/-- The nodes of a tree are proper, and each binding is in one type test only. -/
structure Fits (s : Symbols) (nodes : List Expr) (tests : List BindingId) : Prop where
  proper : ∀ x ∈ nodes, Proper s x
  once : tests.Nodup

/-- Two lists fit together if each does and they test for different bindings. -/
theorem fits_append {s : Symbols} {ns ns' : List Expr} {ts ts' : List BindingId} :
    Fits s (ns ++ ns') (ts ++ ts') ↔ Fits s ns ts ∧ Fits s ns' ts' ∧ ∀ b ∈ ts, b ∉ ts' := by
  constructor
  · rintro ⟨hproper, honce⟩
    obtain ⟨h, h', hcross⟩ := List.nodup_append.mp honce
    exact ⟨⟨fun x hx => hproper x (List.mem_append_left _ hx), h⟩,
      ⟨fun x hx => hproper x (List.mem_append_right _ hx), h'⟩,
      fun b hb hb' => hcross b hb b hb' rfl⟩
  · rintro ⟨h, h', hcross⟩
    refine ⟨fun x hx => ?_, List.nodup_append.mpr ⟨h.once, h'.once, ?_⟩⟩
    · rcases List.mem_append.mp hx with hx | hx
      · exact h.proper x hx
      · exact h'.proper x hx
    · rintro a ha b hb rfl
      exact hcross a ha hb

end Flow

/-- An expression as a list of its nodes. -/
def Expr.ownNode (e : Expr) : List Expr := [e]

/-- The nodes of an expression fit. -/
def Expr.Fits (s : Symbols) (e : Expr) : Prop := Flow.Fits s (e.gather Expr.ownNode) e.tests

/-! ## §2. Answers about a condition. -/

namespace Flow

open Symbols (Grows)

/-- The answer to a question about a condition for some outcomes, asked when
the table was `t`: one binding for each group of patterns, and of what `s` has
listed already, the same bindings. -/
structure Answers (s : Symbols) (c : Expr) (outcomes : List Bool) (t : Symbols)
    (answer : List BindingId × Symbols) : Prop where
  evolves : t.Evolves answer.2
  stands : List.Forall₂ (Stands answer.2) answer.1 (outcomes.flatMap (groups s c))
  disjoint : (outcomes.flatMap (groups s c)).Pairwise Disjoint
  again : ∀ o ∈ outcomes, ∀ {ms}, matchBindings c o s = (ms, s) → ∀ m ∈ ms, m ∈ answer.1

variable {s t u : Symbols} {c : Expr}

/-- Nothing is asked. -/
theorem answers_nothing (ht : t.Sound) : Answers s c [] t ([], t) :=
  ⟨.refl ht, .nil, .nil, fun _ h => absurd h List.not_mem_nil⟩

/-- One outcome is asked about. -/
theorem answers_one (hc : Grouped s c) (hleaves : ∀ leaf ∈ c.tests, s.isLeaf leaf = true)
    (hs : s.Sound) (hst : s.Evolves t) (o : Bool) : Answers s c [o] t (matchBindings c o t) := by
  obtain ⟨hsound, hstands⟩ := hc.stands o hst.grows hst.sound
  refine ⟨⟨matchBindings_grows c o t, hsound, ?_⟩, by simpa using hstands, by simpa using hc.disjoint o, ?_⟩
  · intro v x hx
    rw [Symbols.var?, matchBindings_keepsVars]
    exact hx
  · intro o' ho ms hms m hm
    rw [List.mem_singleton.mp ho] at hms
    have hgrows : (matchBindings c o s).2.Grows t := by
      rw [hms]
      exact hst.grows
    rw [matchBindings_stable hst.sound.ordered c o hs.ordered
      (fun b hb _ => .of_isLeaf (hleaves b hb)) hgrows, hms]
    exact hm

/-- Both outcomes, of which one has no groups. -/
theorem answers_all (hc : Grouped s c) (hleaves : ∀ leaf ∈ c.tests, s.isLeaf leaf = true)
    (hs : s.Sound) (hst : s.Evolves t) : Answers s c [true, false] t (Oracle.all matchBindings c t) := by
  have htrue := answers_one hc hleaves hs hst true
  have hfalse := answers_one hc hleaves hs (hst.trans htrue.evolves) false
  have hstands := htrue.stands
  have hstands' := hfalse.stands
  simp only [List.flatMap_singleton] at hstands hstands'
  refine ⟨htrue.evolves.trans hfalse.evolves, ?_, ?_, ?_⟩
  · simp only [List.flatMap_cons, List.flatMap_nil, List.append_nil]
    exact List.rel_append (forall₂_grows htrue.evolves.sound hfalse.evolves.grows hstands) hstands'
  · simp only [List.flatMap_cons, List.flatMap_nil, List.append_nil]
    obtain ⟨o, ho⟩ := groups_one_outcome s c
    cases o with
    | true => rw [ho]; exact hc.disjoint false
    | false => rw [ho, List.append_nil]; exact hc.disjoint true
  · intro o ho ms hms m hm
    refine List.mem_append.mpr ?_
    cases o with
    | true => exact .inl (htrue.again true (by simp) hms m hm)
    | false => exact .inr (hfalse.again false (by simp) hms m hm)

/-- Bindings for which a frame can be entered: their storage has a default
value, they are for patterns of the list, and no two are aliases. -/
structure Storing (t : Symbols) (tests bs : List BindingId) : Prop where
  storable : ∀ b ∈ bs, t.Storable b
  leaves : ∀ b ∈ bs, ∀ leaf ∈ t.leaves b, leaf ∈ tests
  apart : ∀ a ∈ bs, ∀ b ∈ bs, t.isAliasFor a b = true → a = b

/-- Nothing is stored. -/
theorem Storing.nil (tests : List BindingId) : Storing t tests [] :=
  ⟨fun _ h => absurd h List.not_mem_nil, fun _ h => absurd h List.not_mem_nil,
    fun _ h => absurd h List.not_mem_nil⟩

/-- A binding named and typed like one with a default value has one. -/
theorem storable_of_named? {a b : BindingId} (h : s.named? a = t.named? b) (ha : s.Storable a) :
    t.Storable b := by
  obtain ⟨x, v, hx, hv⟩ := ha
  rw [Symbols.named?, hx, Option.map_some] at h
  obtain ⟨y, hy, hxy⟩ := Option.map_eq_some_iff.mp h.symm
  injection hxy with _ hty
  exact ⟨y, v, hy, by rw [hty]; exact hv⟩

/-- Bindings that stand for disjoint groups are no aliases. -/
theorem eq_of_alias (ht : t.Sound) {bs : List BindingId} {gs : List (List BindingId)}
    (hbs : List.Forall₂ (Stands t) bs gs) (hgs : gs.Pairwise Disjoint) :
    ∀ a ∈ bs, ∀ b ∈ bs, t.isAliasFor a b = true → a = b := by
  induction hbs with
  | nil => exact fun _ h => absurd h List.not_mem_nil
  | @cons x g bs gs hxg hrest ih =>
      obtain ⟨hhead, htail⟩ := List.pairwise_cons.mp hgs
      have hother : ∀ y ∈ bs, t.isAliasFor x y = false ∧ t.isAliasFor y x = false := by
        intro y hy
        obtain ⟨h, hh, hyh⟩ := exists_of_forall₂ hrest hy
        have hdisjoint := hhead h hh
        exact ⟨hxg.not_alias ht hyh hdisjoint,
          hyh.not_alias ht hxg fun leaf hl hl' => hdisjoint leaf hl' hl⟩
      intro a ha b hb halias
      rcases List.mem_cons.mp ha with rfl | ha' <;> rcases List.mem_cons.mp hb with rfl | hb'
      · rfl
      · exact absurd halias (by simp [(hother b hb').1])
      · exact absurd halias (by simp [(hother a ha').2])
      · exact ih htail a ha' b hb' halias

/-- What is listed for a condition with proper patterns can be stored. -/
theorem Answers.storing {outcomes : List Bool} {answer : List BindingId × Symbols}
    (h : Answers s c outcomes t answer) (hst : s.Grows t)
    (htests : ∀ leaf ∈ c.tests, s.isLeaf leaf = true ∧ s.Storable leaf) :
    Storing answer.2 c.tests answer.1 := by
  have hmade : Made s (outcomes.flatMap (groups s c)) := by
    intro g hg
    obtain ⟨o, -, hg⟩ := List.mem_flatMap.mp hg
    exact made_groups (fun leaf hleaf => (htests leaf hleaf).1) g hg
  have hsub : ∀ g ∈ outcomes.flatMap (groups s c), ∀ leaf ∈ g, leaf ∈ c.tests := by
    intro g hg
    obtain ⟨o, -, hg⟩ := List.mem_flatMap.mp hg
    exact (groups_tests c o g hg).2
  refine ⟨?_, ?_, ?_⟩
  · intro b hb
    obtain ⟨g, hg, hbg⟩ := exists_of_forall₂ h.stands hb
    have hgroup := hmade g hg
    obtain ⟨leaf, hleaf⟩ := List.exists_mem_of_ne_nil g hgroup.ne
    exact storable_of_named? (hbg.named? (hst.trans h.evolves.grows) h.evolves.sound hgroup hleaf)
      (htests leaf (hsub g hg leaf hleaf)).2
  · intro b hb leaf hleaf
    obtain ⟨g, hg, hbg⟩ := exists_of_forall₂ h.stands hb
    exact hsub g hg leaf ((hbg.2 leaf).mp hleaf)
  · exact eq_of_alias h.evolves.sound h.stands h.disjoint

end Flow

namespace Expr

variable {s : Symbols} {e : Expr}

/-- The nodes gathered are those of the tree. -/
theorem mem_gather_ownNode {x : Expr} : x ∈ e.gather ownNode ↔ x ∈ e.walk := by
  simp [gather, ownNode]

/-- What a fitting expression tests for are leaves that can be stored. -/
theorem Fits.tests (h : e.Fits s) : ∀ leaf ∈ e.tests, s.isLeaf leaf = true ∧ s.Storable leaf := by
  intro leaf hleaf
  obtain ⟨x, hx, hxleaf⟩ := List.mem_flatMap.mp hleaf
  exact (h.proper x (mem_gather_ownNode.mpr hx)).test leaf hxleaf

/-- Its conditions are grouped. -/
theorem Fits.grouped (h : e.Fits s) (hs : s.Sound) : Flow.Grouped s e :=
  Flow.grouped hs e (fun leaf hleaf => (h.tests leaf hleaf).1) h.once
    fun x hx => (h.proper x (mem_gather_ownNode.mpr hx)).apart

/-- The answer for the outcomes of a condition that fits. -/
theorem Fits.all (h : e.Fits s) (hs : s.Sound) {t : Symbols} (hst : s.Evolves t) :
    Flow.Answers s e [true, false] t (Oracle.all Flow.matchBindings e t) :=
  Flow.answers_all (h.grouped hs) (fun leaf hleaf => (h.tests leaf hleaf).1) hs hst

end Expr

namespace Lowering

open PatternIR.Flow

/-! ## §3. States in which a tree can be lowered. -/

variable {s : Symbols} {p q : Pass} {b : BindingId} {known : BindingId → Prop}

/-- There is storage for what is known. -/
structure Pass.Ready (s : Symbols) (known : BindingId → Prop) (p : Pass) : Prop where
  base : s.Sound
  sound : p.Sound s
  knows : ∀ b, known b → s.Has b → p.Knows b

/-- No slot is for a pattern of the list. -/
def Pass.Avoids (tests : List BindingId) (p : Pass) : Prop :=
  ∀ slot ∈ p.stack.slots, ∀ leaf ∈ p.symbols.leaves slot.binding, leaf ∉ tests

/-- A pass that is ready stays so. -/
theorem Pass.Ready.later (h : p.Ready s known) (hlater : p.Later q) : q.Ready s known :=
  ⟨h.base, h.sound.later hlater, fun b hb hhas => (h.knows b hb hhas).later hlater⟩

/-- Less may be asked to be known. -/
theorem Pass.Ready.mono {known' : BindingId → Prop} (h : p.Ready s known)
    (hsub : ∀ b, known' b → known b) : p.Ready s known' :=
  ⟨h.base, h.sound, fun b hb hhas => h.knows b (hsub b hb) hhas⟩

/-- Fewer tests may be asked to be avoided. -/
theorem Pass.Avoids.mono {ts ts' : List BindingId} (h : p.Avoids ts) (hsub : ∀ b ∈ ts', b ∈ ts) :
    p.Avoids ts' :=
  fun slot hslot leaf hleaf hmem => h slot hslot leaf hleaf (hsub leaf hmem)

/-- Tests that are avoided stay so. -/
theorem Pass.Avoids.later {ts : List BindingId} (h : p.Avoids ts) (hp : p.Sound s)
    (hlater : p.Later q) : q.Avoids ts := by
  intro slot hslot leaf hleaf
  rw [hlater.stack] at hslot
  rw [hlater.evolves.grows.leaves_eq hp.evolves.sound.ordered.closed (hp.slots slot hslot).1] at hleaf
  exact h slot hslot leaf hleaf

/-- Of two bindings for the same patterns, both are known or none is. -/
theorem Pass.Knows.congr {a : BindingId} {g : List BindingId} (hp : p.symbols.Sound) (h : p.Knows a)
    (ha : Stands p.symbols a g) (hb : Stands p.symbols b g) : p.Knows b := by
  obtain ⟨slot, hslot, halias⟩ := Pass.knows_iff.mp h
  refine Pass.knows_iff.mpr ⟨slot, hslot, Symbols.isAliasFor_iff.mpr (.inr ?_)⟩
  rcases Symbols.isAliasFor_iff.mp halias with rfl | ⟨leaf, hleaf, hleaf'⟩
  · obtain ⟨leaf, hleaf⟩ := hp.ordered.exists_leaf ha.1
    exact ⟨leaf, hleaf, (hb.2 leaf).mpr ((ha.2 leaf).mp hleaf)⟩
  · exact ⟨leaf, hleaf, (hb.2 leaf).mpr ((ha.2 leaf).mp hleaf')⟩

/-- The state in which a question has been answered. -/
theorem later_answer {answer : List BindingId × Symbols} (h : p.symbols.Evolves answer.2) :
    p.Later { p with symbols := answer.2 } := ⟨rfl, h⟩

section

variable {kind : FrameKind} {bs : List BindingId} {news : List Slot}

/-- A pass is ready inside a frame as well. -/
theorem Pass.Ready.enter (h : p.Ready s known) {tests : List BindingId}
    (hbs : Storing p.symbols tests bs) (hentered : p.Entered kind bs news q) : q.Ready s known :=
  ⟨h.base, hentered.sound h.sound hbs.storable, fun b hb hhas => hentered.keeps (h.knows b hb hhas)⟩

/-- Inside a frame, what the oracle lists for its condition is known. -/
theorem Pass.Ready.listed (h : q.Ready s known) {c : Expr} (hc : c.Fits s)
    {outcomes : List Bool} {t : Symbols} {answer : List BindingId × Symbols}
    (hanswer : Answers s c outcomes t answer)
    (hentered : Pass.Entered { p with symbols := answer.2 } kind answer.1 news q) :
    q.Ready s fun b => known b ∨ ∃ o ∈ outcomes, b ∈ (matchBindings c o s).1 := by
  refine ⟨h.base, h.sound, ?_⟩
  intro b hb hhas
  rcases hb with hb | ⟨o, ho, hb⟩
  · exact h.knows b hb hhas
  · have hgrows := hentered.evolves.grows
    obtain ⟨-, hstands⟩ := (hc.grouped h.base).stands o (.refl s) h.base
    obtain ⟨g, hg, hbg⟩ := exists_of_forall₂ hstands hb
    have hbs : Stands s b g := by
      refine ⟨hhas, fun leaf => ?_⟩
      rw [← (matchBindings_grows c o s).mem_leaves h.base.ordered.closed hhas]
      exact hbg.2 leaf
    -- what is listed now for the same patterns has a slot
    obtain ⟨a, ha, hag⟩ := exists_of_forall₂ hanswer.stands.flip
      (List.mem_flatMap.mpr ⟨o, ho, hg⟩)
    exact (hentered.knows ha).congr h.sound.evolves.sound
      (Stands.grows hanswer.evolves.sound hgrows hag) (hbs.grows h.base h.sound.evolves.grows)

/-- It then knows what the condition lists for either outcome. -/
theorem Pass.Ready.withListed {c : Expr} (o : Bool)
    (h : q.Ready s fun b => known b ∨ ∃ o ∈ [true, false], b ∈ (matchBindings c o s).1) :
    q.Ready s (withListed s known c o) :=
  h.mono fun _ hb => hb.imp id fun hb => ⟨o, by cases o <;> simp, hb⟩

/-- Entering a frame for patterns that do not stand in a tree. -/
theorem Pass.Avoids.enter {tests ts : List BindingId} (h : p.Avoids ts) (hp : p.Sound s)
    (hbs : Storing p.symbols tests bs) (hdisjoint : ∀ b ∈ tests, b ∉ ts)
    (hentered : p.Entered kind bs news q) : q.Avoids ts := by
  intro slot hslot leaf hleaf
  have hgrows := hentered.evolves.grows
  rcases hentered.mem_slots.mp hslot with hslot | hslot
  · have hb := hentered.asked slot hslot
    rw [hgrows.leaves_eq hp.evolves.sound.ordered.closed (hbs.storable _ hb).has] at hleaf
    exact hdisjoint leaf (hbs.leaves _ hb leaf hleaf)
  · rw [hgrows.leaves_eq hp.evolves.sound.ordered.closed (hp.slots slot hslot).1] at hleaf
    exact h slot hslot leaf hleaf

end

/-! ## §4. Expressions. -/

/-- What the right operand is lowered with. -/
theorem operandFacts_answers (op : BinOp) {l : Expr} (hl : l.Fits s) (hs : s.Sound)
    (hp : p.Sound s) :
    ∃ answer, Answers s l op.passes?.toList p.symbols answer
      ∧ operandFacts matchBindings op l p = .ok answer.1 { p with symbols := answer.2 } := by
  have hone := answers_one (hl.grouped hs) (fun leaf hleaf => (hl.tests leaf hleaf).1) hs hp.evolves
  cases op with
  | and => exact ⟨_, hone true, rfl⟩
  | or => exact ⟨_, hone false, rfl⟩
  | _ => exact ⟨_, answers_nothing hp.evolves.sound, rfl⟩

section

variable (hierarchy : Hierarchy)

-- Only a reference can fail, and what it refers to is known by `Scoped`. Each part is
-- lowered later than the one before it, and `Ready.later` takes the storage along.
mutual
/-- **An expression is lowered** where there is storage for what is known. -/
theorem lowerExpr_runs : ∀ (e : Expr) {known : BindingId → Prop} {p : Pass}, e.Fits s →
    e.Scoped s known → p.Ready s known → Runs (lowerExpr ⟨hierarchy, matchBindings⟩ e) p
  | .literal i v, _, p, _, _, hp => .pure hp.sound.evolves.sound _
  | .ident i (.var v), _, p, _, _, hp => .pure hp.sound.evolves.sound _
  | .ident i (.binding b), known, p, h, hscoped, hp => by
      have hhas : s.Has b := (h.proper (.ident i (.binding b)) (by simp [Expr.ownNode])).ref b
        (by simp [Expr.ownRefs])
      exact lowerRef_runs hp.sound.evolves.sound (hp.knows b hscoped hhas) i.ty i.span
  | .unary i op e, known, p, h, hscoped, hp => by
      simp only [Expr.Fits, Expr.tests, Expr.gather_unary, fits_append] at h
      exact (lowerExpr_runs e h.2.1 hscoped hp).bind fun e' q hq =>
        .pure hq.evolves.sound _
  | .binary i op l r, known, p, h, hscoped, hp => by
      simp only [Expr.Fits, Expr.tests, Expr.gather_binary, fits_append] at h
      obtain ⟨-, ⟨hl, hr, -⟩, -⟩ := h
      obtain ⟨answer, hanswer, hasked⟩ := operandFacts_answers op hl hp.base hp.sound
      have hp' := hp.later (later_answer hanswer.evolves)
      have hbs := hanswer.storing hp.sound.evolves.grows (Expr.Fits.tests hl)
      refine .step hasked (later_answer hanswer.evolves)
        (within_runs hp'.sound.evolves.sound hbs.storable ?_)
      intro news q hentered
      have hq := hp'.enter hbs hentered
      refine (lowerExpr_runs l hl hscoped.1 hq).leads fun l' q₁ h₁ => ?_
      -- the right operand may also refer to what the left one's verdict binds
      refine (lowerExpr_runs r hr hscoped.2 ?_).leads fun r' q₂ h₂ => .refl h₂.evolves.sound _
      exact ((hq.listed hl hanswer hentered).mono fun b hb => by simpa using hb).later h₁
  | .conditional i c y n, known, p, h, hscoped, hp => by
      simp only [Expr.Fits, Expr.tests, Expr.gather_conditional, fits_append] at h
      obtain ⟨-, ⟨hc, ⟨hy, hn, -⟩, -⟩, -⟩ := h
      have hanswer := Expr.Fits.all hc hp.base hp.sound.evolves
      have hp' := hp.later (later_answer hanswer.evolves)
      have hbs := hanswer.storing hp.sound.evolves.grows (Expr.Fits.tests hc)
      refine .step rfl (later_answer hanswer.evolves)
        (within_runs hp'.sound.evolves.sound hbs.storable ?_)
      intro news q hentered
      have hq := hp'.enter hbs hentered
      have hlisted := hq.listed hc hanswer hentered
      refine (lowerExpr_runs c hc hscoped.1 hq).leads fun c' q₁ h₁ => ?_
      refine (lowerExpr_runs y hy hscoped.2.1 ?_).leads fun y' q₂ h₂ => ?_
      · exact (hlisted.withListed true).later h₁
      refine (lowerExpr_runs n hn hscoped.2.2 ?_).leads fun n' q₃ h₃ => .refl h₃.evolves.sound _
      exact (hlisted.withListed false).later (h₁.trans h₂)
  | .assign i t v, known, p, h, hscoped, hp => by
      simp only [Expr.Fits, Expr.tests, Expr.gather_assign, fits_append] at h
      obtain ⟨-, ⟨ht, hv, -⟩, -⟩ := h
      refine (lowerExpr_runs t ht hscoped.1 hp).bind fun t' q₁ h₁ => ?_
      exact (lowerExpr_runs v hv hscoped.2 (hp.later h₁)).bind fun v' q₂ h₂ =>
        .pure h₂.evolves.sound _
  | .cast i t e, known, p, h, hscoped, hp => by
      simp only [Expr.Fits, Expr.tests, Expr.gather_cast, fits_append] at h
      exact (lowerExpr_runs e h.2.1 hscoped hp).bind fun e' q hq => .pure hq.evolves.sound _
  | .instanceOf i e t, known, p, h, hscoped, hp => by
      simp only [Expr.Fits, Expr.tests, Expr.gather_instanceOf, fits_append] at h
      exact (lowerExpr_runs e h.2.1 hscoped hp).bind fun e' q hq => .pure hq.evolves.sound _
  | .typeTest i e pattern, known, p, h, hscoped, hp => by
      have hleaf := (Expr.Fits.tests h pattern.binding (by simp)).1
      simp only [Expr.Fits, Expr.tests, Expr.gather_typeTest, fits_append] at h
      refine (lowerExpr_runs e h.2.1 hscoped hp).bind fun e' q hq => ?_
      have hq' := (hp.later hq).sound
      exact lowerTest_runs hq' (hq'.evolves.grows.has (.of_isLeaf hleaf)) e.ty e' i.span
  | .call i f es, known, p, h, hscoped, hp => by
      simp only [Expr.Fits, Expr.tests, Expr.gather_call, fits_append] at h
      exact (lowerExprs_runs es h.2.1 hscoped hp).bind fun es' q hq => .pure hq.evolves.sound _
  | .methodCall i e f es, known, p, h, hscoped, hp => by
      simp only [Expr.Fits, Expr.tests, Expr.gather_methodCall, fits_append] at h
      obtain ⟨-, ⟨he, hes, -⟩, -⟩ := h
      refine (lowerExpr_runs e he hscoped.1 hp).bind fun e' q₁ h₁ => ?_
      exact (lowerExprs_runs es hes hscoped.2 (hp.later h₁)).bind fun es' q₂ h₂ =>
        .pure h₂.evolves.sound _
  | .letIn i ds e, known, p, h, hscoped, hp => by
      simp only [Expr.Fits, Expr.tests, Expr.gather_letIn, fits_append] at h
      obtain ⟨-, ⟨hds, he, -⟩, -⟩ := h
      refine (lowerDefs_runs ds hds hscoped.1 hp).bind fun ds' q₁ h₁ => ?_
      exact (lowerExpr_runs e he hscoped.2 (hp.later h₁)).bind fun e' q₂ h₂ =>
        .pure h₂.evolves.sound _
theorem lowerExprs_runs : ∀ (es : List Expr) {known : BindingId → Prop} {p : Pass},
    Fits s (Expr.gatherAll Expr.ownNode es) (Expr.gatherAll Expr.ownTests es) →
      Expr.ScopedAll s known es → p.Ready s known →
        Runs (lowerExprs ⟨hierarchy, matchBindings⟩ es) p
  | [], _, p, _, _, hp => .pure hp.sound.evolves.sound _
  | e :: es, known, p, h, hscoped, hp => by
      simp only [Expr.gatherAll_cons, fits_append] at h
      refine (lowerExpr_runs e h.1 hscoped.1 hp).bind fun e' q₁ h₁ => ?_
      exact (lowerExprs_runs es h.2.1 hscoped.2 (hp.later h₁)).bind fun es' q₂ h₂ =>
        .pure h₂.evolves.sound _
theorem lowerDefs_runs : ∀ (ds : List (VarId × Expr)) {known : BindingId → Prop} {p : Pass},
    Fits s (Expr.gatherDefs Expr.ownNode ds) (Expr.gatherDefs Expr.ownTests ds) →
      Expr.ScopedDefs s known ds → p.Ready s known →
        Runs (lowerDefs ⟨hierarchy, matchBindings⟩ ds) p
  | [], _, p, _, _, hp => .pure hp.sound.evolves.sound _
  | (v, e) :: ds, known, p, h, hscoped, hp => by
      simp only [Expr.gatherDefs_cons, fits_append] at h
      refine (lowerExpr_runs e h.1 hscoped.1 hp).bind fun e' q₁ h₁ => ?_
      exact (lowerDefs_runs ds h.2.1 hscoped.2 (hp.later h₁)).bind fun ds' q₂ h₂ =>
        .pure h₂.evolves.sound _
end

theorem lowerExpr?_runs (e : Option Expr) {known : BindingId → Prop} {p : Pass}
    (h : Fits s (Expr.gatherAll Expr.ownNode e.toList) (Expr.gatherAll Expr.ownTests e.toList))
    (hscoped : Expr.ScopedAll s known e.toList) (hp : p.Ready s known) :
    Runs (lowerExpr? ⟨hierarchy, matchBindings⟩ e) p := by
  cases e with
  | none => exact .pure hp.sound.evolves.sound _
  | some e =>
      simp only [Option.toList_some, Expr.gatherAll_cons, fits_append] at h
      exact (lowerExpr_runs hierarchy e h.1 hscoped.1 hp).bind fun e' q hq =>
        .pure hq.evolves.sound _

end

end Lowering

end PatternIR
