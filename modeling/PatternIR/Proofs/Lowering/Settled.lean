/-
  PatternIR.Proofs.Lowering.Settled
  ─────────────────────────────────
  **STORAGE THAT HAS BEEN ASSIGNED WHERE IT IS READ, in statements.**

  A block that has taken over the declaration of a statement has the storage
  assigned behind the statement, if it completes only by an outcome that lists
  what is stored.  Lowering keeps the jumps, so this can be told from the
  lowered statement as well.

      String s = null;
      if (!(… (s = (String) t) == (String) t …)) return;
      f(s);                                        settled by the `if`

    • `Settled` — a lowered statement, with what its block has taken over;
    • `Settled.behind` — what is known behind it;
    • `LowersSure` — what is shown of a statement, one lemma for each kind;
    • `lowerParts_settled`, `lowerBlock_sure` — statements and blocks;
    • `lowerMethod_sure` — a method.
-/
import PatternIR.Proofs.Lowering.Definite
import PatternIR.Proofs.Lowering.Jumps

namespace PatternIR

/-! ## §1. Declarations of storage. -/

namespace Stmt

variable {v : VarId} {T : ExprInfo → Prop} {k : Prop}

/-- A declaration settles nothing. -/
theorem IsStorage.behind_iff {var : VarId} {d : Stmt} (h : d.IsStorage var) :
    d.Behind v k ↔ k ∧ v ∉ d.ownDeclared := by
  obtain ⟨i, j, w, rfl⟩ := h
  have hdeclared : (decl i var (some (.literal j w))).declared = [var] := rfl
  constructor
  · rintro (h | ⟨-, -, c, o, hescape, -⟩ | ⟨_, _, _, heq, -⟩)
    · rwa [hdeclared] at h
    · exact absurd hescape nofun
    · exact absurd heq nofun
  · exact .inl

/-- Behind declarations of storage. -/
theorem SureAll.storage {decls ws : List Stmt} : ∀ {k : Prop}, (∀ d ∈ decls, ∃ var, d.IsStorage var) →
    SureAll v T (k ∧ v ∉ decls.flatMap ownDeclared) ws → SureAll v T k (decls ++ ws) := by
  induction decls with
  | nil =>
      intro k _ h
      simpa using h
  | cons d decls ih =>
      intro k hdecls h
      obtain ⟨var, hd⟩ := hdecls d List.mem_cons_self
      have hk : (d.Behind v k ∧ v ∉ decls.flatMap ownDeclared) = (k ∧ v ∉ (d :: decls).flatMap ownDeclared) := by
        rw [hd.behind_iff]
        simp [and_assoc]
      refine ⟨?_, ih (fun x hx => hdecls x (List.mem_cons_of_mem _ hx)) (hk ▸ h)⟩
      obtain ⟨i, j, w, rfl⟩ := hd
      exact ⟨trivial, trivial⟩

end Stmt

/-- What a frame takes over can be told from the frame. -/
theorem Stack.gain_inj {st : Stack} {taken more : List (Slot × Stmt)} (h : st.gain taken = st.gain more) :
    taken = more := by
  have hslots : st.current.slots ++ taken.map Prod.fst = st.current.slots ++ more.map Prod.fst :=
    congrArg (fun st : Stack => st.current.slots) h
  have hhoisted : st.current.hoisted ++ taken.map Prod.snd = st.current.hoisted ++ more.map Prod.snd :=
    congrArg (fun st : Stack => st.current.hoisted) h
  rw [← List.zip_unzip taken, ← List.zip_unzip more, List.unzip_fst, List.unzip_snd, List.unzip_fst,
    List.unzip_snd, List.append_cancel_left hslots, List.append_cancel_left hhoisted]

namespace Lowering

open PatternIR.Flow (listed Stands matchBindings)

variable {s : Symbols} {Q : Span → Prop} {v x : VarId} {leaf : BindingId} {w : Stmt} {p q r : Pass}
  {d : Decorated} {taken : List (Slot × Stmt)} {k : Prop} {G : List Guard} {hierarchy : Hierarchy}

/-- The analysis the command uses adds no variables. -/
theorem flow_keepsVars : (⟨hierarchy, matchBindings⟩ : Rules).flow.KeepsVars := Flow.matchBindings_keepsVars

/-! ## §2. A lowered statement. -/

/-- From `p` to `q`, `w` has been lowered to `d`, and its reads of `v` come after
assignments if the variable is assigned from before, and not declared here.
Where the block has taken it over, outcomes that list what is stored fix it. -/
structure Settled (s : Symbols) (Q : Span → Prop) (v : VarId) (w : Stmt) (p q : Pass) (d : Decorated)
    (taken : List (Slot × Stmt)) (k : Prop) : Prop where
  gained : Pass.Gained s w p q taken
  lowers : LowersStmt s.vars.size p q taken d.declared w.tests.length d.stmt.valueless
    fun vis => d.InScope s.vars.size vis
  redone : w.Redone d.stmt
  sure : d.stmt.Sure v (fun i => Q i.span)
    (k ∧ v ∉ taken.map (·.1.var) ∧ v ∉ d.decls.flatMap Stmt.ownDeclared)
  fixed : ∀ x ∈ taken, x.1.var = v → ∀ c, w.unlabeled.test? = some c →
    ∃ c', d.stmt.unlabeled.test? = some c' ∧ ∀ o, ∀ g ∈ listed s c o,
      (∀ leaf ∈ g, leaf ∈ q.symbols.leaves x.1.binding) → c'.Fixes v o

/-- A pattern is stored as before, or by a slot taken over. -/
theorem Pass.Gained.holds_iff (h : Pass.Gained s w p q taken) (hp : p.Neat s) : q.Holds leaf x ↔
    p.Holds leaf x ∨ ∃ y ∈ taken, leaf ∈ q.symbols.leaves y.1.binding ∧ y.1.var = x := by
  have hleaves : ∀ slot ∈ p.stack.slots, q.symbols.leaves slot.binding = p.symbols.leaves slot.binding :=
    fun slot hslot => h.descends.grows.leaves_eq hp.sound.ordered.closed (hp.has slot hslot)
  unfold Pass.Holds
  rw [h.stack]
  constructor
  · rintro ⟨slot, hslot, hleaf, hvar⟩
    rcases Stack.mem_slots_gain.mp hslot with hslot | hslot
    · exact .inl ⟨slot, hslot, hleaves slot hslot ▸ hleaf, hvar⟩
    · obtain ⟨y, hy, rfl⟩ := List.mem_map.mp hslot
      exact .inr ⟨y, hy, hleaf, hvar⟩
  · rintro (⟨slot, hslot, hleaf, hvar⟩ | ⟨y, hy, hleaf, hvar⟩)
    · exact ⟨slot, Stack.mem_slots_gain.mpr (.inl hslot), (hleaves slot hslot).symm ▸ hleaf, hvar⟩
    · exact ⟨y.1, Stack.mem_slots_gain.mpr (.inr (List.mem_map_of_mem hy)), hleaf, hvar⟩

/-- What is taken over is for patterns of the statement. -/
theorem Pass.Gained.taken_tests (h : Pass.Gained s w p q taken) (hw : w.Attributed s) :
    ∀ y ∈ taken, ∀ leaf ∈ q.symbols.leaves y.1.binding, leaf ∈ w.tests := by
  intro y hy leaf hleaf
  obtain ⟨-, c, o, hc, g, hg, hstands⟩ := h.listed y hy
  have htests := tests_of_test? hc
  exact htests leaf ((Flow.listed_group c o (fun a ha => hw.tested a (htests a ha)) g hg).2 leaf
    ((hstands.2 leaf).mp hleaf))

/-- What is told behind a statement is for patterns of the statement. -/
theorem tests_of_tells {b : BindingId} (hs : s.Sound) (hw : w.Attributed s) (h : (Guard.behind w).Tells s b)
    (hleaf : leaf ∈ s.leaves b) : leaf ∈ w.tests := by
  obtain ⟨-, c, o, hescape, hb⟩ := h
  have htests := tests_of_test? (Flow.test?_of_escape? hescape)
  have hc : ∀ a ∈ c.tests, s.isLeaf a = true := fun a ha => hw.tested a (htests a ha)
  obtain ⟨-, hstands⟩ := Flow.listed_stands c o hc (.refl s) hs
  obtain ⟨g, hg, -, hiff⟩ := exists_of_forall₂ hstands hb
  have hin : leaf ∈ g := (hiff leaf).mp ((Flow.matchBindings_grows c o s).leaves hleaf)
  exact htests leaf ((Flow.listed_group c o hc g hg).2 leaf hin)

namespace Settled

/-- The variables that the block has taken over are not declared in the statement. -/
theorem taken_undeclared (h : Settled s Q v w p q d taken k) (hp : p.Neat s) :
    ∀ y ∈ taken, y.1.var ∉ d.declared := by
  intro y hy hmem
  have hn : s.vars.size ≤ y.1.var.index :=
    Nat.le_trans hp.descends.toEvolves.size_le (h.lowers.fresh y hy)
  have hcount := h.lowers.adds.once y.1.var hn
  rw [List.count_append] at hcount
  have h₁ := List.count_pos_iff.mpr hmem
  have h₂ : 0 < (taken.map fun x => x.1.var).count y.1.var :=
    List.count_pos_iff.mpr (List.mem_map_of_mem (f := fun x : Slot × Stmt => x.1.var) hy)
  split at hcount <;> omega

/-- Storage in use is neither declared in the statement nor taken over. -/
theorem undeclared (h : Settled s Q v w p q d taken k) (hp : p.Neat s) (hv : p.Holds leaf v) :
    v ∉ d.declared ∧ v ∉ taken.map (·.1.var) := by
  have := h.lowers.adds.notMem (hv.range hp).1 (hv.range hp).2
  simpa using this

/-- One statement, behind its declarations. -/
theorem closed {w' : Stmt} (h : Settled s Q v w p q d taken k) (hclose : d.close q = .ok w' r) :
    w'.Sure v (fun i => Q i.span) (k ∧ v ∉ taken.map (·.1.var)) := by
  have hsure := h.sure
  rw [← and_assoc] at hsure
  rcases close_eq_ok hclose with ⟨hnil, rfl, -⟩ | ⟨-, rfl, -⟩
  · simpa [hnil] using hsure
  · exact Stmt.SureAll.storage h.lowers.scope.1 ⟨hsure, trivial⟩

/-- It declares what the statement and its declarations do. -/
theorem closed_declared {w' : Stmt} (h : Settled s Q v w p q d taken k) (hclose : d.close q = .ok w' r) :
    w'.declared = d.declared := by
  rcases close_eq_ok hclose with ⟨hnil, rfl, -⟩ | ⟨-, rfl, -⟩
  · simp [Decorated.declared, hnil]
  · obtain ⟨hgather, -⟩ := Stmt.gatherAll_storage h.lowers.scope.1
    show Stmt.gather Stmt.ownDeclared Expr.ownDeclared _ = _
    rw [Stmt.gather_block, Stmt.gatherAll_append, hgather, Stmt.gatherAll_cons, Stmt.gatherAll_nil,
      List.append_nil]
    rfl

/-- **What a block has taken over is settled**, if what it is for is told behind the statement. -/
theorem settles {w' : Stmt} {b : BindingId} (h : Settled s Q v w p q d taken k) (hw : w.Attributed s)
    (hp : p.Neat s) (hclose : d.close q = .ok w' r) (htells : (Guard.behind w).Tells s b)
    {y : Slot × Stmt} (hy : y ∈ taken) (hvar : y.1.var = v) : w'.Settles v := by
  obtain ⟨hby, c, o, hescape, hb⟩ := htells
  have htest := Flow.test?_of_escape? hescape
  have hc : ∀ leaf ∈ c.tests, s.isLeaf leaf = true := fun a ha => hw.tested a (tests_of_test? htest a ha)
  obtain ⟨-, hstands⟩ := Flow.listed_stands c o hc (.refl s) hp.base
  obtain ⟨g, hg, -, hiff⟩ := exists_of_forall₂ hstands hb
  obtain ⟨-, c₁, o₁, hc₁, g₁, hg₁, hstands₁⟩ := h.gained.listed y hy
  obtain rfl : c = c₁ := Option.some.inj (htest.symm.trans hc₁)
  obtain rfl := Flow.listed_outcome hg hg₁
  obtain ⟨c', htest', hfixes⟩ := h.fixed y hy hvar c htest
  have hguards : d.stmt.Guards v := by
    refine ⟨h.redone.completesByTest.trans hby, fun hdeclared => ?_, c', o,
      h.redone.escape? hescape htest', hfixes o g₁ hg₁ fun a ha => (hstands₁.2 a).mpr ha⟩
    exact h.taken_undeclared hp y hy (hvar ▸ List.mem_append_right _ hdeclared)
  rcases close_eq_ok hclose with ⟨-, rfl, -⟩ | ⟨-, rfl, -⟩
  · exact .inl hguards
  · exact .inr ⟨_, _, _, rfl, hguards⟩

/-- Behind a statement of a block. -/
theorem behind {w' : Stmt} {ts : List BindingId} (h : Settled s Q v w p q d taken k) (hw : w.Attributed s)
    (hp : p.Neat s) (hclose : d.close q = .ok w' r) (hcross : ∀ leaf ∈ w.tests, leaf ∉ ts)
    (havoids : p.Avoids w.tests) (hbacks : Backs s p (w.tests ++ ts) G v k) :
    Backs s q ts (.behind w :: G) v (w'.Behind v (k ∧ v ∉ taken.map (·.1.var))) := by
  constructor
  · intro b hcertain leaf hleaf hmem
    rcases certain_cons.mp hcertain with htells | hcertain
    · exact hcross leaf (tests_of_tells hp.base hw htells hleaf) hmem
    · exact hbacks.apart b hcertain leaf hleaf (List.mem_append_right _ hmem)
  · intro b hcertain leaf hleaf hv
    rcases (h.gained.holds_iff hp).mp hv with hheld | ⟨y, hy, hmem, hvar⟩
    · obtain ⟨hdeclared, htaken⟩ := h.undeclared hp hheld
      rcases certain_cons.mp hcertain with htells | hcertain
      · exact absurd hheld (havoids.not_holds (tests_of_tells hp.base hw htells hleaf))
      · exact .inl ⟨⟨hbacks.known b hcertain leaf hleaf hheld, htaken⟩, by rwa [h.closed_declared hclose]⟩
    · rcases certain_cons.mp hcertain with htells | hcertain
      · exact .inr (h.settles hw hp hclose htells hy hvar)
      · exact absurd (List.mem_append_left _ (h.gained.taken_tests hw y hy leaf hmem))
          (hbacks.apart b hcertain leaf hleaf)

/-- The patterns of other statements are still not stored. -/
theorem avoids {ts : List BindingId} (h : Settled s Q v w p q d taken k) (hw : w.Attributed s) (hp : p.Neat s)
    (hcross : ∀ leaf ∈ w.tests, leaf ∉ ts) (havoids : p.Avoids ts) : q.Avoids ts := by
  refine .of_not_holds fun leaf hleaf x hx => ?_
  rcases (h.gained.holds_iff hp).mp hx with hheld | ⟨y, hy, hmem, -⟩
  · exact havoids.not_holds hleaf hheld
  · exact hcross leaf (h.gained.taken_tests hw y hy leaf hmem) hleaf

/-- A labelled statement takes nothing more. -/
theorem labeled {i : StmtInfo} {l : String} (h : Settled s Q v w p q d taken k) :
    Settled s Q v (.labeled i l w) p q ⟨d.decls, .labeled i l d.stmt⟩ taken k := by
  refine ⟨⟨h.gained.stack, h.gained.descends, h.gained.neat, h.gained.block, h.gained.listed⟩, ?_,
    .labeled i l h.redone, h.sure, h.fixed⟩
  have hdeclared : Decorated.declared ⟨d.decls, .labeled i l d.stmt⟩ = d.declared := by
    simp [Decorated.declared, Stmt.declared, Stmt.ownDeclared]
  have hvalueless : (Stmt.labeled i l d.stmt).valueless = d.stmt.valueless := by
    simp [Stmt.valueless, Stmt.ownValueless]
  rw [hdeclared, Stmt.tests_labeled, hvalueless]
  exact h.lowers

/-- Outside of a block, where nothing is taken over. -/
theorem inner {w' : Stmt} (h : Settled s Q v w p q d taken k) (hclose : d.close q = .ok w' r)
    (hkind : p.stack.current.kind ≠ .block) : w'.Sure v (fun i => Q i.span) k := by
  have hsure := h.closed hclose
  simpa [h.gained.block hkind] using hsure

end Settled

/-- What a run of the pass takes over is what its parts say. -/
theorem settled_of_run (hw : w.Attributed s) (hp : p.Neat s)
    (h : lowerParts ⟨hierarchy, matchBindings⟩ w p = .ok d q) (hstack : q.stack = p.stack.gain taken)
    (hsure : d.stmt.Sure v (fun i => Q i.span)
      (k ∧ v ∉ taken.map (·.1.var) ∧ v ∉ d.decls.flatMap Stmt.ownDeclared))
    (hfixed : ∀ x ∈ taken, x.1.var = v → ∀ c, w.unlabeled.test? = some c →
      ∃ c', d.stmt.unlabeled.test? = some c' ∧ ∀ o, ∀ g ∈ listed s c o,
        (∀ leaf ∈ g, leaf ∈ q.symbols.leaves x.1.binding) → c'.Fixes v o) :
    Settled s Q v w p q d taken k := by
  obtain ⟨taken₁, hgained, -⟩ := (lowerParts_meets hierarchy w hw hp).ok h
  obtain ⟨taken₂, hlow⟩ := lowerParts_lowers flow_keepsVars w hw.declared h
  obtain rfl := Stack.gain_inj (hgained.stack.symm.trans hstack)
  obtain rfl := Stack.gain_inj (hlow.stack.symm.trans hgained.stack)
  exact ⟨hgained, hlow, (lowerParts_redone w h).1, hsure, hfixed⟩

/-- A statement without a frame. -/
theorem settled_plain {stmt : Stmt} (hw : w.Attributed s) (hp : p.Neat s)
    (h : lowerParts ⟨hierarchy, matchBindings⟩ w p = .ok ⟨[], stmt⟩ q) (hstack : q.stack = p.stack)
    (hsure : stmt.Sure v (fun i => Q i.span) k) : ∃ taken, Settled s Q v w p q ⟨[], stmt⟩ taken k := by
  refine ⟨[], settled_of_run hw hp h (by rw [hstack, Stack.gain_nil]) (by simpa using hsure)
    fun x hx => absurd hx List.not_mem_nil⟩

/-! ## §3. Frames of statements. -/

section

variable {c : Expr} {outcomes : List Bool} {bs rest : List BindingId} {stmt : Stmt} {p₁ q₂ q' : Pass}

/-- A statement at the end of the frame for its condition.  The storage of the
frame is what either outcome of the condition binds, so the patterns of the
condition are held inside the frame and the others are still held by none. -/
theorem settled_framed (hw : w.Attributed s) (hc : c.Attributed s) (hp : p.Neat s)
    (hrun : lowerParts ⟨hierarchy, matchBindings⟩ w p = .ok d { q' with stack := q'.stack.pop })
    (havoids : p.Avoids w.tests) (hbacks : Backs s p w.tests G v k) (hunlabeled : w.unlabeled = w)
    (htests : w.tests.Perm (c.tests ++ rest)) (hcross : ∀ leaf ∈ c.tests, leaf ∉ rest)
    (hasked : Pass.Asked s p c outcomes bs p₁) (hdecorate : decorateStmt stmt q₂ = .ok d q')
    (hlabel : stmt.unlabeled = stmt)
    (hbody : (p₁.enter .statement bs).Neat s →
      (p₁.enter .statement bs).stack.current.kind ≠ .block →
      Serves s (p₁.enter .statement bs) c → (p₁.enter .statement bs).Avoids rest →
        (p₁.enter .statement bs).Follows q₂
        ∧ (∀ k₀, Backs s (p₁.enter .statement bs) w.tests (outcomes.map (Guard.within c) ++ G) v k₀ →
            (∀ leaf, (p₁.enter .statement bs).Holds leaf v → v ∉ stmt.declared) →
              stmt.Sure v (fun i => Q i.span) k₀)
        ∧ ∀ c₁, w.test? = some c₁ → c₁ = c ∧ ∃ c' r r', stmt.test? = some c'
            ∧ (p₁.enter .statement bs).Follows r
            ∧ lowerExpr ⟨hierarchy, matchBindings⟩ c r = .ok c' r') :
    ∃ taken, Settled s Q v w p { q' with stack := q'.stack.pop } d taken k := by
  have hp₁ := hp.follows hasked.follows
  have havoids₁ := havoids.follows hp hasked.follows
  obtain ⟨news, hinto⟩ := hp₁.enter .statement hasked.carries
  have hserves : Serves s _ c := (havoids₁.serves fun leaf hleaf =>
    htests.mem_iff.mpr (List.mem_append_left _ hleaf)).enter hinto hp₁ hasked
  have hrest : (p₁.enter .statement bs).Avoids rest := .of_not_holds fun leaf hleaf x hx =>
    havoids₁.not_holds (htests.mem_iff.mpr (List.mem_append_right _ hleaf))
      (hinto.holds_old hp₁ hasked hc.tested (fun hmem => hcross leaf hmem hleaf) hx)
  have hkind : (p₁.enter .statement bs).stack.current.kind ≠ .block := by
    rw [hinto.stack]
    exact FrameKind.noConfusion
  obtain ⟨hfollows, hsure, htest⟩ := hbody hinto.neat hkind hserves hrest
  obtain ⟨refused, taken, hdeclares, rfl, rfl⟩ := decorateStmt_eq_ok hdecorate
  have hstack : q₂.stack = ⟨⟨.statement, news, []⟩, p₁.stack.frames⟩ := hfollows.stack.trans hinto.stack
  have hpop : (q₂.stack.give taken).pop = p.stack.gain taken := by
    rw [hstack, Stack.pop_give, hasked.follows.stack]
  rw [hstack] at hdeclares
  obtain ⟨-, -, hperm⟩ := hdeclares.storage
  obtain ⟨taken', hlow⟩ := lowerParts_lowers flow_keepsVars w hw.declared hrun
  obtain rfl := Stack.gain_inj (hpop.symm.trans hlow.stack)
  have hk : (k ∧ v ∉ news.map (·.var))
      = (k ∧ v ∉ taken.map (·.1.var) ∧ v ∉ refused.flatMap Stmt.ownDeclared) := by
    rw [hperm.mem_iff, List.mem_append, not_or, and_comm (a := v ∉ taken.map (·.1.var))]
  -- what is held in the frame is declared outside of the statement, once
  have hundeclared : ∀ leaf, (p₁.enter .statement bs).Holds leaf v → v ∉ stmt.declared := by
    intro leaf hleaf hmem
    have hcount := hlow.adds.once v (hleaf.range hinto.neat).1
    simp only [Decorated.declared, List.count_append] at hcount
    have hpos := List.count_pos_iff.mpr hmem
    rcases (hinto.holds_iff hp₁).mp hleaf with ⟨slot, hslot, -, rfl⟩ | hold
    · have hnews := List.count_pos_iff.mpr (List.mem_map_of_mem (f := (·.var)) hslot)
      rw [hperm.count_eq, List.count_append] at hnews
      split at hcount <;> omega
    · have hlt := (((Pass.Holds.follows_iff hp hasked.follows).mp hold).range hp).2
      rw [if_neg fun h => Nat.not_lt_of_le h.1 hlt] at hcount
      omega
  refine ⟨taken, settled_of_run hw hp hrun hpop ?_ ?_⟩
  · rw [← hk]
    refine hsure _ (Backs.within ?_) hundeclared
    exact (hbacks.follows hp hasked.follows).enter hinto hp₁ hasked hc.tested fun leaf hleaf =>
      htests.mem_iff.mpr (List.mem_append_left _ hleaf)
  · intro x hx hvar c₁ hc₁
    rw [hunlabeled] at hc₁
    obtain ⟨rfl, c', r, r', htest', hr, hlower⟩ := htest c₁ hc₁
    refine ⟨c', by rw [hlabel]; exact htest', fun o g hg hmem => ?_⟩
    refine lowerExpr_fixes c₁ o hc (hinto.neat.follows hr) hlower g hg fun leaf hleaf => ?_
    have hslot : x.1 ∈ (p₁.enter .statement bs).stack.slots :=
      hinto.mem_slots.mpr (.inl (hdeclares.mem_slots x hx))
    refine (Pass.Holds.follows_iff hinto.neat hr).mpr ⟨x.1, hslot, ?_, hvar⟩
    have hleaves := hfollows.descends.grows.leaves_eq hinto.neat.sound.ordered.closed (hinto.neat.has x.1 hslot)
    exact hleaves ▸ hmem leaf hleaf

end

/-! ## §4. Statements. -/

/-- Closing a statement only makes a node. -/
theorem close_same {w' : Stmt} (h : d.close p = .ok w' q) : p.Same q := by
  rcases close_eq_ok h with ⟨-, -, rfl⟩ | ⟨-, -, rfl⟩ <;> exact ⟨rfl, rfl⟩

/-- What is no temporary behind a statement that is closed was none before it. -/
theorem close_plain {w' : Stmt} (h : d.close p = .ok w' q) (hq : q.Plain v) : p.Plain v := by
  rw [Pass.Plain, (close_same h).symbols] at hq
  exact hq

/-- Nor before one that is decorated. -/
theorem decorateStmt_plain {stmt : Stmt} (h : decorateStmt stmt p = .ok d q) (hq : q.Plain v) : p.Plain v := by
  obtain ⟨_, _, -, -, rfl⟩ := decorateStmt_eq_ok h
  exact hq

/-- A statement that stands directly in a statement other than a block. -/
theorem inner_follows {w' : Stmt} (hw : w.Attributed s) (hp : p.Neat s) (hkind : p.stack.current.kind ≠ .block)
    (h : lowerParts ⟨hierarchy, matchBindings⟩ w p = .ok d q) (hclose : d.close q = .ok w' r) :
    p.Follows r ∧ ∀ leaf, p.Holds leaf v → v ∉ w'.declared := by
  obtain ⟨taken, hgained, -⟩ := (lowerParts_meets hierarchy w hw hp).ok h
  refine ⟨(hgained.before (close_same hclose)).follows hkind, fun leaf hleaf => ?_⟩
  obtain ⟨taken', hlow⟩ := lowerParts_lowers flow_keepsVars w hw.declared h
  exact fun hmem => (close_lowers hlow hclose).adds.notMem (hleaf.range hp).1 (hleaf.range hp).2
    (List.mem_append_left _ hmem)

/-- The reads of such a statement. -/
theorem inner_sure {w' : Stmt} (h : ∃ taken, Settled s Q v w p q d taken k) (hclose : d.close q = .ok w' r)
    (hkind : p.stack.current.kind ≠ .block) : w'.Sure v (fun i => Q i.span) k := by
  obtain ⟨taken, h⟩ := h
  exact h.inner hclose hkind

theorem lowerExpr?_sure (hv : s.vars.size ≤ v.index) {e e' : Option Expr}
    (he : Expr.AttributedAll s e.toList) (hp : p.Neat s)
    (h : lowerExpr? ⟨hierarchy, matchBindings⟩ e p = .ok e' q) (hplain : q.Plain v)
    (hserves : ∀ c ∈ e, Serves s p c) (hbacks : Backs s p (Expr.gatherAll Expr.ownTests e.toList) G v k)
    (href : Expr.EachRefAll (sited s Q) G e.toList) : Expr.SureAll v (fun i => Q i.span) k e'.toList := by
  cases e with
  | none =>
      obtain ⟨rfl, -⟩ := pure_eq_ok.mp h
      trivial
  | some e =>
      obtain ⟨x, hx, rfl⟩ := bind_pure_eq_ok.mp h
      rw [Option.toList_some, Expr.attributedAll_singleton] at he
      rw [Option.toList_some, Expr.gatherAll_singleton] at hbacks
      exact ⟨lowerExpr_sure hv e he hp hx hplain (hserves e rfl) hbacks href.1, trivial⟩

/-- Wherever the statement is lowered, for any guards `G` around it and any `k`
that says that the variable is assigned from before, its reads come after
assignments.  `Backs` ties the two: where a guard tells that a binding has
matched, its storage, if it is this variable, has been assigned. -/
def LowersSure (s : Symbols) (Q : Span → Prop) (v : VarId) (hierarchy : Hierarchy) (w : Stmt) : Prop :=
  ∀ {d : Decorated} {p q : Pass} {G : List Guard} {k : Prop}, w.Attributed s → p.Neat s →
    lowerParts ⟨hierarchy, matchBindings⟩ w p = .ok d q → q.Plain v → p.Avoids w.tests →
      Backs s p w.tests G v k → w.EachRef (sited s Q) G → ∃ taken, Settled s Q v w p q d taken k

/-- So are the reads of an optional statement that stands directly in another one. -/
def LowersSureOpt (s : Symbols) (Q : Span → Prop) (v : VarId) (hierarchy : Hierarchy) (w : Option Stmt) :
    Prop :=
  ∀ {out : Option Stmt} {p q : Pass} {G : List Guard} {k : Prop}, Stmt.AttributedOpt s w →
    p.Neat s → p.stack.current.kind ≠ .block → lowerStmt? ⟨hierarchy, matchBindings⟩ w p = .ok out q →
      q.Plain v → p.Avoids (Stmt.gatherOpt (fun _ => []) Expr.ownTests w) →
      Backs s p (Stmt.gatherOpt (fun _ => []) Expr.ownTests w) G v k →
        Stmt.EachRefOpt (sited s Q) G w → Stmt.SureOpt v (fun i => Q i.span) k out

/-- So are those of statements that stand directly in another one. -/
def LowersSureList (s : Symbols) (Q : Span → Prop) (v : VarId) (hierarchy : Hierarchy) (ws : List Stmt) :
    Prop :=
  ∀ {out : List Stmt} {p q : Pass} {G : List Guard} {k : Prop}, Stmt.AttributedAll s ws →
    p.Neat s → p.stack.current.kind ≠ .block → lowerStmts ⟨hierarchy, matchBindings⟩ ws p = .ok out q →
      q.Plain v → p.Avoids (Stmt.gatherAll (fun _ => []) Expr.ownTests ws) →
      Backs s p (Stmt.gatherAll (fun _ => []) Expr.ownTests ws) G v k →
        Stmt.EachRefList (sited s Q) G ws → Stmt.SureAll v (fun i => Q i.span) k out

/-- So are those of the statements of a block. -/
def LowersSureBlock (s : Symbols) (Q : Span → Prop) (v : VarId) (hierarchy : Hierarchy) (ws : List Stmt) :
    Prop :=
  ∀ {out : List Stmt} {p q : Pass} {G : List Guard} {k : Prop}, Stmt.AttributedAll s ws →
    p.Neat s → p.InBlock → lowerBlock ⟨hierarchy, matchBindings⟩ ws p = .ok out q → q.Plain v →
      p.Avoids (Stmt.gatherAll (fun _ => []) Expr.ownTests ws) →
      Backs s p (Stmt.gatherAll (fun _ => []) Expr.ownTests ws) G v k →
        Stmt.EachRefBlock (sited s Q) G ws → Stmt.SureAll v (fun i => Q i.span) k out

section

variable {i : StmtInfo} {e : Option Expr} {c : Expr} {es : List Expr} {y b : Stmt} {n : Option Stmt}
  {ws ss : List Stmt}

/-! ## §5. Statements without a condition. -/

/-- An expression as a statement. -/
theorem lowersSure_expr (hv : s.vars.size ≤ v.index) (e : Expr) : LowersSure s Q v hierarchy (.expr i e) := by
  intro d p q G k hw hp h hplain havoids hbacks href
  obtain ⟨x, hx, rfl⟩ := bind_pure_eq_ok.mp h
  have he := hw.expr
  rw [Stmt.tests_expr] at havoids hbacks
  exact settled_plain hw hp h (lowerExpr_follows he hp hx).stack
    (lowerExpr_sure hv e he hp hx hplain (havoids.serves fun _ => id) hbacks href)

/-- A declaration. -/
theorem lowersSure_decl (hv : s.vars.size ≤ v.index) {y : VarId} : LowersSure s Q v hierarchy (.decl i y e) := by
  intro d p q G k hw hp h hplain havoids hbacks href
  obtain ⟨x, hx, rfl⟩ := bind_pure_eq_ok.mp h
  have he := hw.decl
  rw [Stmt.tests_decl] at havoids hbacks
  exact settled_plain hw hp h ((lowerExpr?_meets hierarchy e he hp).ok hx).follows.stack
    (lowerExpr?_sure hv he hp hx hplain (fun c hc => havoids.serves fun leaf hleaf => by
      rw [Option.mem_def.mp hc]; simpa using hleaf) hbacks href)

/-- A return. -/
theorem lowersSure_ret (hv : s.vars.size ≤ v.index) : LowersSure s Q v hierarchy (.ret i e) := by
  intro d p q G k hw hp h hplain havoids hbacks href
  obtain ⟨x, hx, rfl⟩ := bind_pure_eq_ok.mp h
  have he := hw.ret
  rw [Stmt.tests_ret] at havoids hbacks
  exact settled_plain hw hp h ((lowerExpr?_meets hierarchy e he hp).ok hx).follows.stack
    (lowerExpr?_sure hv he hp hx hplain (fun c hc => havoids.serves fun leaf hleaf => by
      rw [Option.mem_def.mp hc]; simpa using hleaf) hbacks href)

/-- A jump out of a statement. -/
theorem lowersSure_brk {l : Option String} : LowersSure s Q v hierarchy (.brk i l) := by
  intro d p q G k hw hp h _ _ _ _
  obtain ⟨rfl, rfl⟩ := pure_eq_ok.mp h
  exact settled_plain hw hp h rfl trivial

/-- A jump to the next turn of a loop. -/
theorem lowersSure_cont {l : Option String} : LowersSure s Q v hierarchy (.cont i l) := by
  intro d p q G k hw hp h _ _ _ _
  obtain ⟨rfl, rfl⟩ := pure_eq_ok.mp h
  exact settled_plain hw hp h rfl trivial

/-- A statement under a label. -/
theorem lowersSure_labeled {l : String} (ih : LowersSure s Q v hierarchy b) : LowersSure s Q v hierarchy (.labeled i l b) := by
  intro d p q G k hw hp h hplain havoids hbacks href
  obtain ⟨db, hdb, rfl⟩ := bind_pure_eq_ok.mp h
  rw [Stmt.tests_labeled] at havoids hbacks
  obtain ⟨taken, hsettled⟩ := ih hw.labeled hp hdb hplain havoids hbacks href
  exact ⟨taken, hsettled.labeled⟩

/-- A block. -/
theorem lowersSure_block (ih : LowersSureBlock s Q v hierarchy ss) : LowersSure s Q v hierarchy (.block i ss) := by
  intro d p q G k hw hp h hplain havoids hbacks href
  have hrun := h
  obtain ⟨out, q', hout, rfl, rfl⟩ := lowerParts_block_eq_ok h
  rw [Stmt.tests_block] at havoids hbacks
  have hnone : ∀ b ∈ ([] : List BindingId), s.Carries p.symbols b := fun b hb => absurd hb List.not_mem_nil
  obtain ⟨news, hinto⟩ := hp.enter .block hnone
  -- a block asks for no storage when it is entered
  have hnews : news = [] := List.eq_nil_iff_forall_not_mem.mpr fun slot hslot =>
    absurd (hinto.asked slot hslot) List.not_mem_nil
  subst hnews
  have hold : ∀ {leaf x}, (p.enter .block []).Holds leaf x → p.Holds leaf x := fun hx =>
    ((hinto.holds_iff hp).mp hx).resolve_left fun ⟨_, hslot, _⟩ => absurd hslot List.not_mem_nil
  refine settled_plain hw hp hrun ?_ (ih hw.block hinto.neat ⟨rfl, rfl⟩ hout hplain
    (havoids.of_holds fun _ _ => hold) (hbacks.of_holds fun _ => hold) href)
  obtain ⟨henclosing, -, -⟩ := (lowerBlock_meets hierarchy ss hw.block hinto.neat).ok hout
  rw [hinto.stack] at henclosing
  show Stack.pop _ = p.stack
  rw [Stack.pop, henclosing]
  rfl

/-! ## §6. Statements with a condition. -/

section

variable (hv : s.vars.size ≤ v.index)

include hv

/-- An `if`, one of whose branches is reached by each outcome. -/
theorem lowersSure_ifElse (ihy : LowersSure s Q v hierarchy y) (ihn : LowersSureOpt s Q v hierarchy n) :
    LowersSure s Q v hierarchy (.ifElse i c y n) := by
  intro d p q G k hw hp h hplain havoids hbacks href
  obtain ⟨bs, p₁, c', q₁, dy, q₂, y', q₃, n', q₄, q', hask, hx, hdy, hclose, hz, hdec, rfl⟩ :=
    lowerParts_ifElse_eq_ok h
  have htests := Stmt.tests_ifElse i c y n
  obtain ⟨hc, hy, hn, hcross⟩ := hw.ifElse
  have hasked := (asking_all_meets hp hc.tested).ok hask
  refine settled_framed hw hc hp h havoids hbacks rfl (.of_eq htests) hcross hasked hdec rfl ?_
  intro hq₀ hkind hserves hrest
  have hfollows₁ := lowerExpr_follows hc hq₀ hx
  have hq₁ := hq₀.follows hfollows₁
  have hkind₁ : q₁.stack.current.kind ≠ .block := by rwa [hfollows₁.stack]
  obtain ⟨hfollows₂, -⟩ := inner_follows (v := v) hy hq₁ hkind₁ hdy hclose
  have hq₃ := hq₁.follows hfollows₂
  have hkind₃ : q₃.stack.current.kind ≠ .block := by rwa [hfollows₂.stack]
  have hfollows₃ := ((lowerStmt?_meets hierarchy n hn hq₃ hkind₃).ok hz).follows
  have hplain₄ : q₄.Plain v := decorateStmt_plain hdec hplain
  have hplain₃ := hplain₄.before hfollows₃.descends
  have havoids₁ := hrest.follows hq₀ hfollows₁
  refine ⟨hfollows₁.trans (hfollows₂.trans hfollows₃), fun k₀ hbacks₀ _ => ⟨?_, ?_, ?_⟩,
    fun c₁ hc₁ => ⟨(Option.some.inj hc₁).symm, c', _, q₁, rfl, .refl hq₀.sound, hx⟩⟩
  · exact lowerExpr_sure hv c hc hq₀ hx (hplain₃.before hfollows₂.descends) hserves
      (hbacks₀.sub fun leaf hleaf => htests ▸ List.mem_append_left _ hleaf) href.1
  -- each branch starts from what the condition has told on the way to it
  · refine inner_sure (ihy hy hq₁ hdy (close_plain hclose hplain₃)
      (havoids₁.mono fun leaf => List.mem_append_left _) ?_ href.2.1) hclose hkind₁
    exact hbacks₀.branch hserves hc hq₀ hx
      (fun leaf hleaf => htests ▸ List.mem_append_right _ (List.mem_append_left _ hleaf))
      fun leaf hleaf hmem => hcross leaf hleaf (List.mem_append_left _ hmem)
  · refine ihn hn hq₃ hkind₃ hz hplain₄
      ((havoids₁.mono fun leaf => List.mem_append_right _).follows hq₁ hfollows₂) ?_ href.2.2
    exact (hbacks₀.branch hserves hc hq₀ hx
      (fun leaf hleaf => htests ▸ List.mem_append_right _ (List.mem_append_right _ hleaf))
      fun leaf hleaf hmem => hcross leaf hleaf (List.mem_append_right _ hmem)).follows hq₁ hfollows₂

/-- A `while`, whose body is reached where the condition has held. -/
theorem lowersSure_whileDo (ih : LowersSure s Q v hierarchy b) : LowersSure s Q v hierarchy (.whileDo i c b) := by
  intro d p q G k hw hp h hplain havoids hbacks href
  obtain ⟨bs, p₁, c', q₁, db, q₂, b', q₃, q', hask, hx, hdb, hclose, hdec, rfl⟩ :=
    lowerParts_whileDo_eq_ok h
  have htests := Stmt.tests_whileDo i c b
  obtain ⟨hc, hb, hcross⟩ := hw.whileDo
  have hasked := (asking_all_meets hp hc.tested).ok hask
  refine settled_framed hw hc hp h havoids hbacks rfl (.of_eq htests) hcross hasked hdec rfl ?_
  intro hq₀ hkind hserves hrest
  have hfollows₁ := lowerExpr_follows hc hq₀ hx
  have hq₁ := hq₀.follows hfollows₁
  have hkind₁ : q₁.stack.current.kind ≠ .block := by rwa [hfollows₁.stack]
  obtain ⟨hfollows₂, -⟩ := inner_follows (v := v) hb hq₁ hkind₁ hdb hclose
  have hplain₃ : q₃.Plain v := decorateStmt_plain hdec hplain
  refine ⟨hfollows₁.trans hfollows₂, fun k₀ hbacks₀ hundeclared => ?_,
    fun c₁ hc₁ => ⟨(Option.some.inj hc₁).symm, c', _, q₁, rfl, .refl hq₀.sound, hx⟩⟩
  -- each turn begins with what is assigned in front of the loop, which declares no storage in use
  have hbacks₁ := hbacks₀.and hundeclared
  refine ⟨?_, inner_sure (ih hb hq₁ hdb (close_plain hclose hplain₃)
    (hrest.follows hq₀ hfollows₁) ?_ href.2) hclose hkind₁⟩
  · exact lowerExpr_sure hv c hc hq₀ hx (hplain₃.before hfollows₂.descends) hserves
      (hbacks₁.sub fun leaf hleaf => htests ▸ List.mem_append_left _ hleaf) href.1
  · exact hbacks₁.branch hserves hc hq₀ hx
      (fun leaf hleaf => htests ▸ List.mem_append_right _ hleaf) hcross

/-- A `do`, whose body is reached before the condition. -/
theorem lowersSure_doWhile (ih : LowersSure s Q v hierarchy b) : LowersSure s Q v hierarchy (.doWhile i b c) := by
  intro d p q G k hw hp h hplain havoids hbacks href
  obtain ⟨bs, p₁, db, q₁, b', q₂, c', q₃, q', hask, hdb, hclose, hx, hdec, rfl⟩ :=
    lowerParts_doWhile_eq_ok h
  have htests := Stmt.tests_doWhile i b c
  obtain ⟨hc, hb, hcross⟩ := hw.doWhile
  have hasked := (asking_all_meets hp hc.tested).ok hask
  refine settled_framed hw hc hp h havoids hbacks rfl (.of_eq htests) hcross hasked hdec rfl ?_
  intro hq₀ hkind hserves hrest
  obtain ⟨hfollows₁, -⟩ := inner_follows (v := v) hb hq₀ hkind hdb hclose
  have hq₂ := hq₀.follows hfollows₁
  have hfollows₂ := lowerExpr_follows hc hq₂ hx
  have hplain₃ : q₃.Plain v := decorateStmt_plain hdec hplain
  refine ⟨hfollows₁.trans hfollows₂, fun k₀ hbacks₀ hundeclared => ?_,
    fun c₁ hc₁ => ⟨(Option.some.inj hc₁).symm, c', q₂, q₃, rfl, hfollows₁, hx⟩⟩
  have hbacks₁ := hbacks₀.and hundeclared
  refine ⟨inner_sure (ih hb hq₀ hdb
    (close_plain hclose (hplain₃.before hfollows₂.descends)) hrest
    (hbacks₁.sub fun leaf hleaf => htests ▸ List.mem_append_right _ hleaf) href.1) hclose hkind, ?_⟩
  exact lowerExpr_sure hv c hc hq₂ hx hplain₃ (hserves.follows hq₀ hfollows₁)
    ((hbacks₁.sub fun leaf hleaf => htests ▸ List.mem_append_left _ hleaf).follows hq₀ hfollows₁) href.2

/-- A `for`, whose step and body are reached where the condition, if there is one, has held. -/
theorem lowersSure_forDo {c : Option Expr} (ihss : LowersSureList s Q v hierarchy ss) (ih : LowersSure s Q v hierarchy b) :
    LowersSure s Q v hierarchy (.forDo i ss c es b) := by
  intro d p q G k hw hp h hplain havoids hbacks href
  obtain ⟨bs, p₁, ss', q₁, c', q₂, es', q₃, db, q₄, b', q₅, q', hask, hss', hc', hes', hdb, hclose,
    hdec, rfl⟩ := lowerParts_forDo_eq_ok h
  have htests := Stmt.tests_forDo i ss c es b
  obtain ⟨hc, hes, hss, hb, hcross⟩ := hw.forDo
  -- what is done in the frame, whether there is a condition or not
  have hbody : (p₁.enter .statement bs).Neat s →
      (p₁.enter .statement bs).stack.current.kind ≠ .block →
      (∀ x ∈ c, Serves s (p₁.enter .statement bs) x) →
      (p₁.enter .statement bs).Avoids (Expr.gatherAll Expr.ownTests es
        ++ (Stmt.gatherAll (fun _ => []) Expr.ownTests ss ++ b.tests)) →
      (p₁.enter .statement bs).Follows q₁ ∧ (p₁.enter .statement bs).Follows q₅
        ∧ ∀ k₀, Backs s (p₁.enter .statement bs) (Stmt.forDo i ss c es b).tests
            (Guard.around? c ++ G) v k₀ →
          (∀ leaf, (p₁.enter .statement bs).Holds leaf v →
            v ∉ (Stmt.forDo i ss' c' es' b').declared) →
            (Stmt.forDo i ss' c' es' b').Sure v (fun i => Q i.span) k₀ := by
    intro hq₀ hkind hserves hrest
    have hfollows₁ := ((lowerStmts_meets hierarchy ss hss hq₀ hkind).ok hss').follows
    have hq₁ := hq₀.follows hfollows₁
    have hfollows₂ := ((lowerExpr?_meets hierarchy c hc hq₁).ok hc').follows
    have hq₂ := hq₁.follows hfollows₂
    have hfollows₃ := ((lowerExprs_meets hierarchy es hes hq₂).ok hes').follows
    have hq₃ := hq₂.follows hfollows₃
    have hkind₃ : q₃.stack.current.kind ≠ .block := by
      rwa [hfollows₃.stack, hfollows₂.stack, hfollows₁.stack]
    obtain ⟨hfollows₄, hundeclaredB⟩ := inner_follows (v := v) hb hq₃ hkind₃ hdb hclose
    have hplain₅ : q₅.Plain v := decorateStmt_plain hdec hplain
    have hplain₃ := hplain₅.before hfollows₄.descends
    have hplain₂ := hplain₃.before hfollows₃.descends
    have hserves₁ : ∀ x ∈ c, Serves s q₁ x := fun x hx => (hserves x hx).follows hq₀ hfollows₁
    have havoids₂ := (hrest.follows hq₀ hfollows₁).follows hq₁ hfollows₂
    refine ⟨hfollows₁, hfollows₁.trans (hfollows₂.trans (hfollows₃.trans hfollows₄)),
      fun k₀ hbacks₀ hundeclared => ?_⟩
    rw [htests] at hbacks₀
    have hbacks₁ := (hbacks₀.and hundeclared).follows hq₀ hfollows₁
    have hpassed : ∀ {ts : List BindingId}, (∀ leaf ∈ ts, leaf ∈ Expr.gatherAll Expr.ownTests es
        ++ (Stmt.gatherAll (fun _ => []) Expr.ownTests ss ++ b.tests)) →
          Backs s q₂ ts (Guard.held? c ++ (Guard.around? c ++ G)) v _ := fun hts =>
      hbacks₁.passed? hserves₁ hc hq₁ hc' (fun leaf hleaf => List.mem_append_right _ (hts leaf hleaf))
        fun leaf hleaf hmem => hcross leaf hleaf (hts leaf hmem)
    refine ⟨?_, ?_, ?_, ?_⟩
    · exact ihss hss hq₀ hkind hss' ((hplain₂.before hfollows₂.descends))
        (hrest.mono fun leaf hleaf => List.mem_append_right _ (List.mem_append_left _ hleaf))
        (hbacks₀.sub fun leaf hleaf => List.mem_append_right _ (List.mem_append_right _
          (List.mem_append_left _ hleaf))) href.1
    · exact lowerExpr?_sure hv hc hq₁ hc' hplain₂ hserves₁
        (hbacks₁.sub fun leaf => List.mem_append_left _) href.2.1
    · exact lowerExprs_sure hv es hes hq₂ hes' hplain₃ (havoids₂.mono fun leaf => List.mem_append_left _)
        ((hpassed fun leaf => List.mem_append_left _).and fun leaf hleaf => hundeclaredB leaf
          ((Pass.Holds.follows_iff hq₂ hfollows₃).mpr hleaf)) href.2.2.1
    · exact inner_sure (ih hb hq₃ hdb (close_plain hclose hplain₅)
        ((havoids₂.mono fun leaf hleaf => List.mem_append_right _ (List.mem_append_right _ hleaf)).follows
          hq₂ hfollows₃)
        ((hpassed fun leaf hleaf => List.mem_append_right _ (List.mem_append_right _ hleaf)).follows
          hq₂ hfollows₃) href.2.2.2) hclose hkind₃
  cases c with
  | none =>
      -- as with a condition that tells nothing
      obtain ⟨rfl, rfl⟩ := pure_eq_ok.mp hask
      have hnone : (Expr.literal ⟨0, .void, ⟨0, 0⟩⟩ .null).Attributed s :=
        ⟨by simp [Expr.ownVars], by simp [Expr.ownTests], by simp [Expr.ownTests], by simp [Expr.ownRefs]⟩
      have hasked : Pass.Asked s p₁ (.literal ⟨0, .void, ⟨0, 0⟩⟩ .null) [] [] p₁ :=
        asked_none hp
      refine settled_framed hw hnone hp h havoids hbacks rfl (.of_eq htests)
        (fun leaf hleaf => absurd hleaf (by simp)) hasked hdec rfl ?_
      intro hq₀ hkind _ hrest
      obtain ⟨-, hfollows, hsure⟩ := hbody hq₀ hkind (fun x hx => absurd hx (by simp)) hrest
      exact ⟨hfollows, hsure, fun c₁ hc₁ => absurd hc₁ (by simp [Stmt.test?])⟩
  | some c =>
      rw [Option.toList_some, Expr.attributedAll_singleton] at hc
      rw [Option.toList_some, Expr.gatherAll_singleton] at htests hcross
      have hasked := (asking_all_meets hp hc.tested).ok hask
      refine settled_framed hw hc hp h havoids hbacks rfl (.of_eq htests) hcross hasked hdec rfl ?_
      intro hq₀ hkind hserves hrest
      obtain ⟨hfollows₁, hfollows, hsure⟩ :=
        hbody hq₀ hkind (fun x hx => Option.mem_some.mp hx ▸ hserves) hrest
      obtain ⟨x, hx, rfl⟩ := bind_pure_eq_ok.mp hc'
      exact ⟨hfollows, hsure, fun c₁ hc₁ =>
        ⟨(Option.some.inj hc₁).symm, x, q₁, q₂, rfl, hfollows₁, hx⟩⟩

end

/-! ## §7. Statements in statements. -/

/-- A branch that may be missing. -/
theorem lowersSureOpt_none : LowersSureOpt s Q v hierarchy none := by
  intro out p q G k _ _ _ h _ _ _ _
  obtain ⟨rfl, -⟩ := pure_eq_ok.mp h
  trivial

/-- A branch that is there. -/
theorem lowersSureOpt_some (ih : LowersSure s Q v hierarchy w) : LowersSureOpt s Q v hierarchy (some w) := by
  intro out p q G k hw hp hkind h hplain havoids hbacks href
  obtain ⟨d, p₁, w', hd, hclose, rfl⟩ := lowerStmt?_some_eq_ok h
  simp only [Stmt.gatherOpt_some] at havoids hbacks
  exact inner_sure (ih hw hp hd (close_plain hclose hplain) havoids hbacks href)
    hclose hkind

/-- No statement. -/
theorem lowersSureList_nil : LowersSureList s Q v hierarchy [] := by
  intro out p q G k _ _ _ h _ _ _ _
  obtain ⟨rfl, -⟩ := pure_eq_ok.mp h
  trivial

/-- A statement and those behind it. -/
theorem lowersSureList_cons (ihw : LowersSure s Q v hierarchy w) (ihws : LowersSureList s Q v hierarchy ws) :
    LowersSureList s Q v hierarchy (w :: ws) := by
  intro out p q G k hw hp hkind h hplain havoids hbacks href
  obtain ⟨d, p₁, w', p₂, ws', hd, hclose, hws', rfl⟩ := lowerStmts_cons_eq_ok h
  rw [Stmt.gatherAll_cons] at hbacks havoids
  obtain ⟨hw, hws, -⟩ := Stmt.attributedAll_cons.mp hw
  obtain ⟨hfollows, hundeclared⟩ := inner_follows (v := v) hw hp hkind hd hclose
  have hp₂ := hp.follows hfollows
  have hkind₂ : p₂.stack.current.kind ≠ .block := by rwa [hfollows.stack]
  have hfollows' := ((lowerStmts_meets hierarchy ws hws hp₂ hkind₂).ok hws').follows
  refine ⟨inner_sure (ihw hw hp hd
      (close_plain hclose (hplain.before hfollows'.descends)) (havoids.mono fun leaf => List.mem_append_left _)
      (hbacks.sub fun leaf => List.mem_append_left _) href.1) hclose hkind,
    ihws hws hp₂ hkind₂ hws' hplain
      ((havoids.mono fun leaf => List.mem_append_right _).follows hp hfollows) ?_ href.2⟩
  exact ((hbacks.sub fun leaf => List.mem_append_right _).and hundeclared).imp .inl |>.follows hp hfollows

/-- A block of no statement. -/
theorem lowersSureBlock_nil : LowersSureBlock s Q v hierarchy [] := by
  intro out p q G k _ _ _ h _ _ _ _
  obtain ⟨rfl, -⟩ := pure_eq_ok.mp h
  trivial

/-- A statement of a block, and those behind it, which know what it has settled. -/
theorem lowersSureBlock_cons (ihw : LowersSure s Q v hierarchy w) (ihws : LowersSureBlock s Q v hierarchy ws) :
    LowersSureBlock s Q v hierarchy (w :: ws) := by
  intro out p q G k hw hp hblock h hplain havoids hbacks href
  obtain ⟨d, p₁, lowered, p₂, rest, hd, hclose, hrest, rfl⟩ := lowerBlock_cons_eq_ok h
  rw [Stmt.gatherAll_cons] at hbacks havoids
  obtain ⟨hw, hws, hcross⟩ := Stmt.attributedAll_cons.mp hw
  -- the rest of the block is lowered with what the block has taken over from `w`
  have hsame := close_same hclose
  obtain ⟨taken, hgained, -⟩ := (lowerParts_meets hierarchy w hw hp).ok hd
  have hp₃ : Pass.Neat s p₂.emit := (hgained.before hsame).neat.sub (fun _ => id)
    (.refl (hgained.before hsame).neat.sound)
  have hdescends := ((lowerBlock_meets hierarchy ws hws hp₃).ok hrest).2.1
  have hplain₁ : p₁.Plain v := close_plain hclose (hplain.before hdescends : p₂.emit.Plain v)
  obtain ⟨taken, hsettled⟩ := ihw hw hp hd hplain₁
    (havoids.mono fun leaf => List.mem_append_left _) (hbacks.sub fun leaf => List.mem_append_left _) href.1
  obtain ⟨hhoisted, hblock'⟩ := (close_lowers hsettled.lowers hclose).emit hblock
  have hholds : ∀ {leaf x}, p₂.emit.Holds leaf x → p₁.Holds leaf x := by
    rintro leaf x ⟨slot, hslot, hleaf, hvar⟩
    refine ⟨slot, ?_, hsame.symbols ▸ hleaf, hvar⟩
    rw [← hsame.stack]
    exact hslot
  rw [hhoisted]
  refine Stmt.SureAll.storage ?_ ?_
  · intro y hy
    obtain ⟨z, hz, rfl⟩ := List.mem_map.mp hy
    exact ⟨_, hsettled.lowers.storage z hz⟩
  rw [flatMap_ownDeclared_taken hsettled.lowers.storage]
  refine ⟨hsettled.closed hclose, ihws hws hp₃ hblock' hrest hplain
    ((hsettled.avoids hw hp hcross (havoids.mono fun leaf => List.mem_append_right _)).of_holds
      fun _ _ => hholds) ?_ href.2⟩
  exact (hsettled.behind hw hp hclose hcross (havoids.mono fun leaf => List.mem_append_left _)
    hbacks).of_holds fun _ => hholds

end

/-! ## §8. The induction. -/

mutual
/-- **A statement**: each read of the variable, at a place where references
stand for certain, comes after an assignment. -/
theorem lowerParts_settled (hv : s.vars.size ≤ v.index) : ∀ w : Stmt, LowersSure s Q v hierarchy w
  | .expr _ e => lowersSure_expr hv e
  | .decl _ _ _ => lowersSure_decl hv
  | .ret _ _ => lowersSure_ret hv
  | .brk _ _ => lowersSure_brk
  | .cont _ _ => lowersSure_cont
  | .labeled _ _ b => lowersSure_labeled (lowerParts_settled hv b)
  | .block _ ss => lowersSure_block (lowerBlock_sure hv ss)
  | .ifElse _ _ y n => lowersSure_ifElse hv (lowerParts_settled hv y) (lowerStmt?_sure hv n)
  | .whileDo _ _ b => lowersSure_whileDo hv (lowerParts_settled hv b)
  | .doWhile _ b _ => lowersSure_doWhile hv (lowerParts_settled hv b)
  | .forDo _ ss _ _ b => lowersSure_forDo hv (lowerStmts_sure hv ss) (lowerParts_settled hv b)
/-- A branch that may be missing. -/
theorem lowerStmt?_sure (hv : s.vars.size ≤ v.index) : ∀ w : Option Stmt, LowersSureOpt s Q v hierarchy w
  | none => lowersSureOpt_none
  | some w => lowersSureOpt_some (lowerParts_settled hv w)
/-- Statements one after the other. -/
theorem lowerStmts_sure (hv : s.vars.size ≤ v.index) : ∀ ws : List Stmt, LowersSureList s Q v hierarchy ws
  | [] => lowersSureList_nil
  | w :: ws => lowersSureList_cons (lowerParts_settled hv w) (lowerStmts_sure hv ws)
/-- The statements of a block. -/
theorem lowerBlock_sure (hv : s.vars.size ≤ v.index) : ∀ ws : List Stmt, LowersSureBlock s Q v hierarchy ws
  | [] => lowersSureBlock_nil
  | w :: ws => lowersSureBlock_cons (lowerParts_settled hv w) (lowerBlock_sure hv ws)
end

/-! ## §9. Methods. -/

/-- **A method**: each read of storage, at a place where references stand for
certain, comes after an assignment in the body. -/
theorem FromBare.sure {t : Symbols} {m m' : Method} (h : FromBare hierarchy s t m m') (hm : m.Attributed s)
    (hv : s.vars.size ≤ v.index) (hplain : ∀ sym, t.var? v = some sym → sym.synthetic = false)
    (href : Stmt.EachRefOpt (sited s Q) [] m.body) :
    ∀ body ∈ m'.body, body.Sure v (fun i => Q i.span) False := by
  obtain ⟨q, q', hq, hstack, hrun, hlater⟩ := h
  obtain ⟨out, hout, rfl⟩ := bind_pure_eq_ok.mp hrun
  have hslots : ∀ {leaf x}, ¬ q.Holds leaf x := by
    rintro leaf x ⟨slot, hslot, -⟩
    rw [hstack] at hslot
    exact absurd hslot List.not_mem_nil
  have hbacks : Backs s q (Stmt.gatherOpt (fun _ => []) Expr.ownTests m.body) [] v False :=
    ⟨fun b ⟨_, hg, _⟩ => absurd hg List.not_mem_nil, fun b ⟨_, hg, _⟩ => absurd hg List.not_mem_nil⟩
  have hsure := lowerStmt?_sure hv m.body hm.body hq (by rw [hstack]; exact nofun) hout
    (fun sym hsym => hplain sym (hlater.vars hsym)) (.of_not_holds fun _ _ _ => hslots) hbacks href
  intro body hbody
  have hbody : out = some body := hbody
  rwa [hbody] at hsure

end Lowering

end PatternIR
