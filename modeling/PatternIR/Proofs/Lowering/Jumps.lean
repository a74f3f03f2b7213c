/-
  PatternIR.Proofs.Lowering.Jumps
  ───────────────────────────────
  **LOWERED STATEMENTS JUMP AS BEFORE.**

  Lowering keeps the jumps, the labels and the constant conditions, and what it
  adds are declarations and blocks of them.  So the analyses of jumps say of a
  lowered statement what they say of the statement, and of every statement in
  it what they say of the one that stands for it:

      l: while (true)                  l: while (true) {
           if (o instanceof T x)            T x = null;
             break l;                       if (…) break l;
                                          }

  Here `l` completes because of the `break` in both, and the block completes
  because the `if` does.  None of this depends on what the oracle answers.

    • `Stmt.Counterparts` — the statements of two trees, one beside the other;
    • `Stmt.Redone` — the same statement over parts that end in the same ways;
    • `Stmt.Redone.completesByTest` — whether it completes only by its test;
    • `lowerParts_redone` — lowered statements are so;
    • `lower_keeps_completion` — nothing comes to complete or ceases to.
-/
import PatternIR.Proofs.Flow.Escapes
import PatternIR.Proofs.Lowering.Accepted
import PatternIR.Proofs.Lowering.Discipline

namespace PatternIR

open PatternIR.Flow (completes allComplete breaksTo anyBreaksTo optBreaksTo ends endsAll endsOpt isConstantTrue)

/-! ## §1. Counterparts. -/

namespace Stmt

/-- The statements of a tree beside those of another, both in order.  Each has
the same node over other parts for its counterpart, which completes if it
does.  What else there is declares a variable, or is a block of declarations
and of the counterpart that comes next, which completes if that does. -/
inductive Counterparts : List Stmt → List Stmt → Prop
  | nil : Counterparts [] []
  | kept {t t' : Stmt} {ts ts' : List Stmt} (same : t.SameNode t')
      (completes : t'.canCompleteNormally = t.canCompleteNormally) (rest : Counterparts ts ts') :
      Counterparts (t :: ts) (t' :: ts')
  | declared {d : Stmt} {ts ts' : List Stmt} (hd : d.kind = .decl) (rest : Counterparts ts ts') :
      Counterparts ts (d :: ts')
  | wrapped {t t' : Stmt} {ts ts' decls : List Stmt} (i : StmtInfo) (same : t.SameNode t')
      (hdecls : ∀ d ∈ decls, d.kind = .decl)
      (completes : (block i (decls ++ [t'])).canCompleteNormally = t.canCompleteNormally)
      (rest : Counterparts (t :: ts) ts') :
      Counterparts (t :: ts) (block i (decls ++ [t']) :: ts')

/-- Statements have their counterparts one after the other. -/
theorem Counterparts.append {ts ts' us us' : List Stmt} (h : Counterparts ts ts')
    (hrest : Counterparts us us') : Counterparts (ts ++ us) (ts' ++ us') := by
  induction h with
  | nil => exact hrest
  | kept same completes _ ih => exact .kept same completes ih
  | declared hd _ ih => exact .declared hd ih
  | wrapped i same hdecls completes _ ih => exact .wrapped i same hdecls completes ih

/-- A walk begins at its statement. -/
theorem walk_eq_cons (w : Stmt) : ∃ inner, w.walk = w :: inner := by
  cases w <;> exact ⟨_, rfl⟩

/-- A declaration, with its parts. -/
theorem eq_decl_of_kind {d : Stmt} (h : d.kind = .decl) : ∃ i v value, d = .decl i v value := by
  cases d with
  | decl i v value => exact ⟨i, v, value, rfl⟩
  | _ => exact nomatch h

/-! ## §2. Statements that end in the same ways. -/

/-- The same jumps leave both statements, which do not stand under a label,
and what is nested in them completes alike. -/
structure EndsAlike (w w' : Stmt) : Prop where
  completes : completes none w' = completes none w
  breaks : ∀ label nested, breaksTo label nested w' = breaksTo label nested w
  ends : ∀ e, ends none e w' = ends none e w
  nested : Counterparts w.walk w'.walk

/-- The same jumps leave both lists of statements, and what is nested in them
completes alike. -/
structure AllEndAlike (ws ws' : List Stmt) : Prop where
  complete : allComplete ws' = allComplete ws
  breaks : ∀ label nested, anyBreaksTo label nested ws' = anyBreaksTo label nested ws
  ends : ∀ e, endsAll e ws' = endsAll e ws
  nested : Counterparts (walkAll ws) (walkAll ws')

namespace AllEndAlike

variable {w w' : Stmt} {ws ws' decls : List Stmt}

/-- No statements end alike. -/
theorem nil : AllEndAlike [] [] := ⟨rfl, fun _ _ => rfl, fun _ => rfl, .nil⟩

/-- The first statements, then the others. -/
theorem cons (h : w.EndsAlike w') (hs : AllEndAlike ws ws') : AllEndAlike (w :: ws) (w' :: ws') := by
  refine ⟨?_, fun label nested => ?_, fun e => ?_, h.nested.append hs.nested⟩
  · rw [allComplete, allComplete, h.completes, hs.complete]
  · rw [anyBreaksTo, anyBreaksTo, h.breaks, hs.breaks]
  · rw [endsAll, endsAll, h.ends, h.ends, hs.ends]

/-- Declarations in front do not count. -/
theorem declared (hdecls : ∀ d ∈ decls, d.kind = .decl) (h : AllEndAlike ws ws') :
    AllEndAlike ws (decls ++ ws') := by
  induction decls with
  | nil => exact h
  | cons d decls ih =>
      have hd := hdecls d List.mem_cons_self
      have hrest := ih fun x hx => hdecls x (List.mem_cons_of_mem _ hx)
      obtain ⟨i, v, value, rfl⟩ := eq_decl_of_kind hd
      refine ⟨?_, fun label nested => ?_, fun e => ?_, .declared hd hrest.nested⟩
      · rw [List.cons_append, allComplete, hrest.complete]
        rfl
      · rw [List.cons_append, anyBreaksTo, hrest.breaks]
        rfl
      · rw [List.cons_append, endsAll, hrest.ends]
        by_cases he : e = .done <;> simp [Flow.ends, he]

end AllEndAlike

/-! ## §3. Statements over other parts. -/

/-- The same statement over parts that end in the same ways, with conditions
that are constant alike. -/
inductive Redone : Stmt → Stmt → Prop
  | expr (i : StmtInfo) (e e' : Expr) : Redone (expr i e) (expr i e')
  | decl (i : StmtInfo) (v : VarId) {e e' : Option Expr} (hvalue : e'.isSome = e.isSome) :
      Redone (decl i v e) (decl i v e')
  | block (i : StmtInfo) {ws ws' : List Stmt} (h : AllEndAlike ws ws') : Redone (block i ws) (block i ws')
  | ifThen (i : StmtInfo) (c c' : Expr) {y y' : Stmt} (hy : y.EndsAlike y') :
      Redone (ifElse i c y none) (ifElse i c' y' none)
  | ifElse (i : StmtInfo) (c c' : Expr) {y y' n n' : Stmt} (hy : y.EndsAlike y') (hn : n.EndsAlike n') :
      Redone (ifElse i c y (some n)) (ifElse i c' y' (some n'))
  | whileDo (i : StmtInfo) {c c' : Expr} {b b' : Stmt} (hc : isConstantTrue c' = isConstantTrue c)
      (hb : b.EndsAlike b') : Redone (whileDo i c b) (whileDo i c' b')
  | doWhile (i : StmtInfo) {c c' : Expr} {b b' : Stmt} (hc : isConstantTrue c' = isConstantTrue c)
      (hb : b.EndsAlike b') : Redone (doWhile i b c) (doWhile i b' c')
  | forEver (i : StmtInfo) {ws ws' : List Stmt} {es es' : List Expr} {b b' : Stmt}
      (hstart : ws'.length = ws.length) (hstep : es'.length = es.length)
      (hws : AllEndAlike ws ws') (hb : b.EndsAlike b') :
      Redone (forDo i ws none es b) (forDo i ws' none es' b')
  | forDo (i : StmtInfo) {ws ws' : List Stmt} {c c' : Expr} {es es' : List Expr} {b b' : Stmt}
      (hstart : ws'.length = ws.length) (hstep : es'.length = es.length)
      (hws : AllEndAlike ws ws') (hc : isConstantTrue c' = isConstantTrue c) (hb : b.EndsAlike b') :
      Redone (forDo i ws (some c) es b) (forDo i ws' (some c') es' b')
  | labeled (i : StmtInfo) (l : String) {b b' : Stmt} (hb : Redone b b') :
      Redone (labeled i l b) (labeled i l b')
  | ret (i : StmtInfo) {e e' : Option Expr} (hvalue : e'.isSome = e.isSome) :
      Redone (ret i e) (ret i e')
  | brk (i : StmtInfo) (l : Option String) : Redone (brk i l) (brk i l)
  | cont (i : StmtInfo) (l : Option String) : Redone (cont i l) (cont i l)

namespace Redone

variable {w w' : Stmt}

/-- A loop stays one. -/
theorem isLoop (h : Redone w w') : w'.isLoop = w.isLoop := by
  cases h <;> rfl

/-- It breaks to the same labels. -/
theorem breaks (h : Redone w w') : ∀ label nested, breaksTo label nested w' = breaksTo label nested w := by
  induction h with
  | block i h => exact h.breaks
  | ifThen i c c' hy =>
      intro label nested
      simp only [breaksTo, hy.breaks, optBreaksTo]
  | ifElse i c c' hy hn =>
      intro label nested
      simp only [breaksTo, hy.breaks, optBreaksTo, hn.breaks]
  | whileDo i hc hb | doWhile i hc hb | forEver i hstart hstep hws hb | forDo i hstart hstep hws hc hb =>
      intro label nested
      simp only [breaksTo, hb.breaks]
  | labeled i l hb ih =>
      intro label nested
      simp only [breaksTo, ih]
  | _ => exact fun _ _ => rfl

/-- It completes under the same labels. -/
theorem completes (h : Redone w w') : ∀ label, Flow.completes label w' = Flow.completes label w := by
  induction h with
  | block i h => exact fun _ => h.complete
  | ifThen i c c' hy => exact fun _ => rfl
  | ifElse i c c' hy hn =>
      intro label
      simp only [Flow.completes, hy.completes, hn.completes]
  | whileDo i hc hb | doWhile i hc hb | forDo i hstart hstep hws hc hb =>
      intro label
      simp only [Flow.completes, hb.breaks, hb.completes, hc]
  | forEver i hstart hstep hws hb =>
      intro label
      simp only [Flow.completes, hb.breaks]
  | labeled i l hb ih =>
      intro label
      simp only [Flow.completes, hb.breaks, ih]
  | _ => exact fun _ => rfl

/-- It ends in the same ways under the same labels. -/
theorem ends (h : Redone w w') : ∀ label e, Flow.ends label e w' = Flow.ends label e w := by
  induction h with
  | block i h => exact fun _ => h.ends
  | ifThen i c c' hy =>
      intro label e
      simp only [Flow.ends, hy.ends, endsOpt]
  | ifElse i c c' hy hn =>
      intro label e
      simp only [Flow.ends, hy.ends, endsOpt, hn.ends]
  | whileDo i hc hb | doWhile i hc hb =>
      intro label e
      simp only [Flow.ends, hb.ends, hc]
  | forEver i hstart hstep hws hb =>
      intro label e
      simp only [Flow.ends, hb.ends, hws.ends, Option.any_none]
  | forDo i hstart hstep hws hc hb =>
      intro label e
      simp only [Flow.ends, hb.ends, hws.ends, hc, Option.any_some]
  | labeled i l hb ih =>
      intro label e
      simp only [Flow.ends, hb.isLoop, ih]
  | _ => exact fun _ _ => rfl

/-- It is the same node. -/
theorem sameNode (h : Redone w w') : w.SameNode w' := by
  cases h with
  | ifThen i c c' hy => exact .ifElse i _ _ _ _ rfl
  | ifElse i c c' hy hn => exact .ifElse i _ _ _ _ rfl
  | forEver i hstart hstep hws hb => exact .forDo i _ _ hstart rfl hstep
  | forDo i hstart hstep hws hc hb => exact .forDo i _ _ hstart rfl hstep
  | _ => constructor <;> assumption

/-- What is nested in a statement is nested in its parts. -/
theorem nested : ∀ {w w' : Stmt}, Redone w w' → Counterparts w.walk w'.walk
  | _, _, h@(.block _ hws) => .kept h.sameNode (h.completes none) hws.nested
  | _, _, h@(.ifThen _ _ _ hy) =>
      .kept h.sameNode (h.completes none) (hy.nested.append .nil)
  | _, _, h@(.ifElse _ _ _ hy hn) =>
      .kept h.sameNode (h.completes none) (hy.nested.append hn.nested)
  | _, _, h@(.whileDo _ _ hb) | _, _, h@(.doWhile _ _ hb) =>
      .kept h.sameNode (h.completes none) hb.nested
  | _, _, h@(.forEver _ _ _ hws hb) | _, _, h@(.forDo _ _ _ hws _ hb) =>
      .kept h.sameNode (h.completes none) (hws.nested.append hb.nested)
  | _, _, h@(.labeled _ _ hb) => .kept h.sameNode (h.completes none) hb.nested
  | _, _, h@(.expr _ _ _) | _, _, h@(.decl _ _ _) | _, _, h@(.ret _ _) | _, _, h@(.brk _ _)
  | _, _, h@(.cont _ _) => .kept h.sameNode (h.completes none) .nil

/-- So it ends alike. -/
theorem endsAlike (h : Redone w w') : w.EndsAlike w' :=
  ⟨h.completes none, h.breaks, h.ends none, h.nested⟩

/-- It has the same label. -/
theorem label? (h : Redone w w') : w'.label? = w.label? := by
  induction h with
  | labeled i l hb ih => simp only [Stmt.label?, ih]
  | _ => rfl

/-- Its labels take in the same jumps. -/
theorem catching (h : Redone w w') : w'.catching = w.catching := by
  induction h with
  | labeled i l hb ih => simp only [Stmt.catching, hb.isLoop, ih]
  | _ => rfl

/-- Below its labels it is redone as well. -/
theorem unlabeled (h : Redone w w') : Redone w.unlabeled w'.unlabeled := by
  induction h with
  | labeled i l hb ih => exact ih
  | _ => constructor <;> assumption

/-- The same jumps of a part leave it. -/
theorem breaksOut (h : Redone w w') {part part' : Stmt} (hpart : part.EndsAlike part') :
    w'.breaksOut part' = w.breaksOut part := by
  simp only [Stmt.breaksOut, h.catching, hpart.ends]

/-- The same parts never pass it. -/
theorem neverPasses (h : Redone w w') {part part' : Stmt} (hpart : part.EndsAlike part') :
    w'.neverPasses part' = w.neverPasses part := by
  simp only [Stmt.neverPasses, h.breaksOut hpart, hpart.ends]

/-- The same bodies leave the loop. -/
theorem leavesLoop (h : Redone w w') {body body' : Stmt} (hbody : body.EndsAlike body') :
    w'.leavesLoop body' = w.leavesLoop body := by
  simp only [Stmt.leavesLoop, h.breaksOut hbody, hbody.ends, h.label?]

/-- **Whether it completes only by its test** is as before. -/
theorem completesByTest (h : Redone w w') : w'.completesByTest = w.completesByTest := by
  have hunlabeled := h.unlabeled
  unfold Stmt.completesByTest
  generalize w.unlabeled = u at hunlabeled
  generalize w'.unlabeled = u' at hunlabeled
  cases hunlabeled with
  | ifThen i c c' hy => exact h.neverPasses hy
  | @ifElse i c c' y y' n n' hy hn =>
      have hsame : y'.canCompleteNormally = y.canCompleteNormally := hy.completes
      show (if y'.canCompleteNormally then _ else _) = if y.canCompleteNormally then _ else _
      rw [hsame, h.neverPasses hy, h.neverPasses hn]
  | whileDo i hc hb | doWhile i hc hb => simp only [h.leavesLoop hb]
  | forEver i hstart hstep hws hb | forDo i hstart hstep hws hc hb =>
      simp only [h.leavesLoop hb, h.catching, hws.ends]
  | _ => rfl

/-- What escapes is told by the same outcome of its own condition. -/
theorem escape? (h : Redone w w') {c c' : Expr} {o : Bool} (hescape : Flow.escape? w.label? w.unlabeled = some (c, o))
    (htest : w'.unlabeled.test? = some c') : Flow.escape? w'.label? w'.unlabeled = some (c', o) := by
  have hunlabeled := h.unlabeled
  rw [h.label?]
  generalize w.unlabeled = u at hunlabeled hescape
  generalize w'.unlabeled = u' at hunlabeled htest
  cases hunlabeled with
  | @ifThen i c₁ c₁' y y' hy =>
      injection htest with htest
      subst htest
      have hsame : y'.canCompleteNormally = y.canCompleteNormally := hy.completes
      cases hcomplete : y.canCompleteNormally <;> simp_all [Flow.escape?]
  | @ifElse i c₁ c₁' y y' n n' hy hn =>
      injection htest with htest
      subst htest
      have hsame : y'.canCompleteNormally = y.canCompleteNormally := hy.completes
      have hsame' : n'.canCompleteNormally = n.canCompleteNormally := hn.completes
      cases hcomplete : y.canCompleteNormally <;> cases hcomplete' : n.canCompleteNormally <;>
        simp_all [Flow.escape?]
  | @whileDo i c₁ c₁' b b' hc hb | @doWhile i c₁ c₁' b b' hc hb
  | @forDo i ws ws' c₁ c₁' es es' b b' hstart hstep hws hc hb =>
      injection htest with htest
      subst htest
      cases hbreaks : breaksTo w.label? false b <;> simp_all [Flow.escape?, hb.breaks]
  | _ => injection hescape

end Redone

end Stmt

/-! ## §4. Lowering. -/

namespace Lowering

variable {rules : Rules} {n : Nat} {p q : Pass}

/-- A lowered condition is constant if the condition is. -/
theorem isConstantTrue_lowered : ∀ {e e' : Expr} {p q : Pass}, lowerExpr rules e p = .ok e' q →
    isConstantTrue e' = isConstantTrue e
  | .literal _ _, e', p, q, h | .ident _ (.var _), e', p, q, h => by
      obtain ⟨rfl, -⟩ := pure_eq_ok.mp h
      rfl
  | .ident _ (.binding _), e', p, q, h => by
      obtain ⟨_, -, rfl, -⟩ := lowerRef_eq_ok h
      rfl
  | .unary _ _ _, e', p, q, h | .cast _ _ _, e', p, q, h | .instanceOf _ _ _, e', p, q, h
  | .call _ _ _, e', p, q, h => by
      obtain ⟨_, -, rfl⟩ := bind_pure_eq_ok.mp h
      rfl
  | .assign _ _ _, e', p, q, h | .methodCall _ _ _ _, e', p, q, h | .letIn _ _ _, e', p, q, h => by
      obtain ⟨_, _, _, -, -, rfl⟩ := bind_bind_pure_eq_ok.mp h
      rfl
  | .typeTest _ _ _, e', p, q, h => by
      obtain ⟨_, _, -, htest⟩ := bind_eq_ok.mp h
      obtain ⟨_, _, _, -, -, -, rfl, -⟩ := lowerTest_eq_ok htest
      rfl
  | .binary _ _ _ _, e', p, q, h => by
      obtain ⟨_, _, _, _, _, _, _, -, -, -, hdec, -⟩ := lowerExpr_binary_eq_ok h
      rcases decorateExpr_eq_ok hdec with ⟨-, rfl, -⟩ | ⟨_, -, rfl, -⟩ <;> rfl
  | .conditional _ _ _ _, e', p, q, h => by
      obtain ⟨_, _, _, _, _, _, _, _, _, -, -, -, -, hdec, -⟩ := lowerExpr_conditional_eq_ok h
      rcases decorateExpr_eq_ok hdec with ⟨-, rfl, -⟩ | ⟨_, -, rfl, -⟩ <;> rfl

/-- An expression that is missing stays so. -/
theorem lowerExpr?_isSome {e : Option Expr} {e' : Option Expr} (h : lowerExpr? rules e p = .ok e' q) :
    e'.isSome = e.isSome := by
  cases e with
  | none =>
      obtain ⟨rfl, -⟩ := pure_eq_ok.mp h
      rfl
  | some e =>
      obtain ⟨_, -, rfl⟩ := bind_pure_eq_ok.mp h
      rfl

/-- Expressions stay as many as they are. -/
theorem lowerExprs_length {es es' : List Expr} (h : lowerExprs rules es p = .ok es' q) :
    es'.length = es.length := by
  induction es generalizing es' p q with
  | nil =>
      obtain ⟨rfl, -⟩ := pure_eq_ok.mp h
      rfl
  | cons e es ih =>
      obtain ⟨_, _, _, -, hes, rfl⟩ := bind_bind_pure_eq_ok.mp h
      rw [List.length_cons, List.length_cons, ih hes]

/-- What a statement leaves to be declared in front of it are declarations. -/
theorem DeclaresSlots.kind_refused {s : Symbols} {span : Span} {takes : BindingId → Bool}
    {id : NodeId} {slots : List Slot} {refused : List Stmt} {taken : List (Slot × Stmt)}
    (h : DeclaresSlots s span takes id slots refused taken) : ∀ d ∈ refused, d.kind = .decl := by
  intro d hd
  obtain ⟨var, i, j, v, rfl⟩ := h.storage.1 d hd
  rfl

/-- In a block behind declarations, a statement ends in the same ways. -/
theorem close_endsAlike {d : Decorated} {w w' : Stmt}
    (hparts : w.Redone d.stmt ∧ ∀ x ∈ d.decls, x.kind = .decl)
    (hclose : d.close p = .ok w' q) : w.EndsAlike w' := by
  obtain ⟨h, hdecls⟩ := hparts
  rcases close_eq_ok hclose with ⟨-, rfl, -⟩ | ⟨-, rfl, -⟩
  · exact h.endsAlike
  · have hall : Stmt.AllEndAlike [w] (d.decls ++ [d.stmt]) := .declared hdecls (.cons h.endsAlike .nil)
    have hcompletes : completes none (.block ⟨p.maker.next, d.stmt.span⟩ (d.decls ++ [d.stmt]))
        = completes none w := by
      have := hall.complete
      simpa [Flow.completes, allComplete] using this
    refine ⟨hcompletes, fun label nested => ?_, fun e => ?_, ?_⟩
    · have := hall.breaks label nested
      simpa [breaksTo, anyBreaksTo] using this
    · have := hall.ends e
      cases e <;> simpa [Flow.ends, endsAll] using this
    · -- the block stands in front of the declarations and the statement in the walk
      have hnested := hall.nested
      obtain ⟨inner, hwalk⟩ := w.walk_eq_cons
      simp only [Stmt.walkAll, List.append_nil, hwalk] at hnested
      rw [hwalk]
      exact .wrapped _ h.sameNode hdecls hcompletes hnested

/-- What a block that has emitted its declarations takes over from a statement
are declarations. -/
theorem Sat.kind_hoisted {α : Type} {c : Lowering α} (h : Sat Stack.Gains c) {a : α}
    (hok : c p = .ok a q) (hnone : p.stack.current.hoisted = []) :
    ∀ d ∈ q.stack.current.hoisted, d.kind = .decl := by
  have hgains := h p
  rw [reached_of_ok hok] at hgains
  obtain ⟨taken, hadmits, heq⟩ := hgains.eq
  have hhoisted : q.stack.current.hoisted = taken.map Prod.snd := by
    rw [heq]
    show p.stack.current.hoisted ++ taken.map Prod.snd = _
    rw [hnone, List.nil_append]
  intro d hd
  rw [hhoisted] at hd
  obtain ⟨x, hx, rfl⟩ := List.mem_map.mp hd
  have hvar := hadmits.declares x hx
  cases hdecl : x.2 with
  | decl i v value => rfl
  | _ =>
      rw [hdecl] at hvar
      exact nomatch hvar

mutual
/-- **A lowered statement** is the statement over other parts, behind declarations. -/
theorem lowerParts_redone : ∀ (w : Stmt) {d : Decorated} {p q : Pass},
    lowerParts rules w p = .ok d q → w.Redone d.stmt ∧ ∀ x ∈ d.decls, x.kind = .decl
  | .expr i e, d, p, q, h => by
      obtain ⟨_, -, rfl⟩ := bind_pure_eq_ok.mp h
      exact ⟨.expr i e _, by simp⟩
  | .decl i v e, d, p, q, h => by
      obtain ⟨_, he, rfl⟩ := bind_pure_eq_ok.mp h
      exact ⟨.decl i v (lowerExpr?_isSome he), by simp⟩
  | .ret i e, d, p, q, h => by
      obtain ⟨_, he, rfl⟩ := bind_pure_eq_ok.mp h
      exact ⟨.ret i (lowerExpr?_isSome he), by simp⟩
  | .brk i l, d, p, q, h | .cont i l, d, p, q, h => by
      obtain ⟨rfl, -⟩ := pure_eq_ok.mp h
      exact ⟨by constructor, by simp⟩
  | .block i ss, d, p, q, h => by
      obtain ⟨out, _, hout, rfl, -⟩ := lowerParts_block_eq_ok h
      exact ⟨.block i (lowerBlock_endAlike ss rfl hout), by simp⟩
  | .ifElse i c y z, d, p, q, h => by
      obtain ⟨_, _, c', _, dy, _, y', _, z', _, _, -, -, hdy, hclose, hz, hdec, -⟩ :=
        lowerParts_ifElse_eq_ok h
      -- what is refused by the frame is declarations, in front of the statement and not in it
      obtain ⟨_, _, hdecls, rfl, -⟩ := decorateStmt_eq_ok hdec
      have hy := close_endsAlike (lowerParts_redone y hdy) hclose
      cases z with
      | none =>
          obtain ⟨rfl, -⟩ := pure_eq_ok.mp hz
          exact ⟨.ifThen i _ _ hy, hdecls.kind_refused⟩
      | some z =>
          obtain ⟨dz, _, z', hdz, hclose, rfl⟩ := lowerStmt?_some_eq_ok hz
          have hz := close_endsAlike (lowerParts_redone z hdz) hclose
          exact ⟨.ifElse i _ _ hy hz, hdecls.kind_refused⟩
  | .whileDo i c b, d, p, q, h => by
      obtain ⟨_, _, c', _, db, _, b', _, _, -, hc, hdb, hclose, hdec, -⟩ :=
        lowerParts_whileDo_eq_ok h
      obtain ⟨_, _, hdecls, rfl, -⟩ := decorateStmt_eq_ok hdec
      have hb := close_endsAlike (lowerParts_redone b hdb) hclose
      exact ⟨.whileDo i (isConstantTrue_lowered hc) hb, hdecls.kind_refused⟩
  | .doWhile i b c, d, p, q, h => by
      obtain ⟨_, _, db, _, b', _, c', _, _, -, hdb, hclose, hc, hdec, -⟩ :=
        lowerParts_doWhile_eq_ok h
      obtain ⟨_, _, hdecls, rfl, -⟩ := decorateStmt_eq_ok hdec
      have hb := close_endsAlike (lowerParts_redone b hdb) hclose
      exact ⟨.doWhile i (isConstantTrue_lowered hc) hb, hdecls.kind_refused⟩
  | .forDo i ss c es b, d, p, q, h => by
      obtain ⟨_, _, ss', _, c', _, es', _, db, _, b', _, _, -, hss, hc, hes, hdb, hclose, hdec, -⟩ :=
        lowerParts_forDo_eq_ok h
      obtain ⟨_, _, hdecls, rfl, -⟩ := decorateStmt_eq_ok hdec
      obtain ⟨hstart, hss⟩ := lowerStmts_endAlike ss hss
      have hstep := lowerExprs_length hes
      have hb := close_endsAlike (lowerParts_redone b hdb) hclose
      cases c with
      | none =>
          obtain ⟨rfl, -⟩ := pure_eq_ok.mp hc
          exact ⟨.forEver i hstart hstep hss hb, hdecls.kind_refused⟩
      | some c =>
          obtain ⟨_, hc', rfl⟩ := bind_pure_eq_ok.mp hc
          exact ⟨.forDo i hstart hstep hss (isConstantTrue_lowered hc') hb, hdecls.kind_refused⟩
  | .labeled i l b, d, p, q, h => by
      obtain ⟨_, hdb, rfl⟩ := bind_pure_eq_ok.mp h
      obtain ⟨hredone, hdecls⟩ := lowerParts_redone b hdb
      exact ⟨.labeled i l hredone, hdecls⟩
/-- A block ends as its statements do, since declarations end by being done. -/
theorem lowerBlock_endAlike : ∀ (ws : List Stmt) {out : List Stmt} {p q : Pass},
    p.stack.current.hoisted = [] → lowerBlock rules ws p = .ok out q → Stmt.AllEndAlike ws out
  | [], out, p, q, _, h => by
      obtain ⟨rfl, -⟩ := pure_eq_ok.mp h
      exact .nil
  | w :: ws, out, p, q, hnone, h => by
      obtain ⟨d, q₁, w', q₂, rest, hd, hclose, hrest, rfl⟩ := lowerBlock_cons_eq_ok h
      have hlowered : lowerStmt rules w p = .ok w' q₂ := bind_eq_ok.mpr ⟨d, q₁, hd, hclose⟩
      have hhoisted := (lowerStmt_sat rules w).kind_hoisted hlowered hnone
      have hw := close_endsAlike (lowerParts_redone w hd) hclose
      -- the declarations are emitted, so the block begins the next statement without any
      exact .declared hhoisted (.cons hw (lowerBlock_endAlike ws rfl hrest))
/-- Statements that are no block end alike one by one. -/
theorem lowerStmts_endAlike : ∀ (ws : List Stmt) {out : List Stmt} {p q : Pass},
    lowerStmts rules ws p = .ok out q → out.length = ws.length ∧ Stmt.AllEndAlike ws out
  | [], out, p, q, h => by
      obtain ⟨rfl, -⟩ := pure_eq_ok.mp h
      exact ⟨rfl, .nil⟩
  | w :: ws, out, p, q, h => by
      obtain ⟨d, _, w', _, rest, hd, hclose, hrest, rfl⟩ := lowerStmts_cons_eq_ok h
      obtain ⟨hlength, hends⟩ := lowerStmts_endAlike ws hrest
      refine ⟨?_, .cons (close_endsAlike (lowerParts_redone w hd) hclose) hends⟩
      rw [List.length_cons, List.length_cons, hlength]
end

/-- **Lowering does not change what completes.**  Whatever the oracle answers,
a lowered statement completes normally if the statement does, and so does the
counterpart of every statement nested in it, and the block around a
counterpart that had to be wrapped. -/
theorem lower_keeps_completion {rules : Rules} {s s' : Stmt} {p q : Pass}
    (h : lowerStmt rules s p = .ok s' q) :
    s'.canCompleteNormally = s.canCompleteNormally ∧ Stmt.Counterparts s.walk s'.walk := by
  obtain ⟨d, p₁, hd, hclose⟩ := bind_eq_ok.mp h
  have halike := close_endsAlike (lowerParts_redone s hd) hclose
  exact ⟨halike.completes, halike.nested⟩

/-- `l: while (true) if (o instanceof String s) break l;` -/
def Guarded.search : Stmt :=
  .labeled ⟨7, .nowhere⟩ "l" (.whileDo ⟨6, .nowhere⟩ (.literal ⟨5, .boolean, .nowhere⟩ (.bool true))
    (.ifElse ⟨4, .nowhere⟩ test (.brk ⟨3, .nowhere⟩ (some "l")) none))

/-- The loop gets a block for its body and still completes by the `break` only. -/
theorem lower_keeps_completion_search :
    ∃ s' q, lowerStmt Guarded.rules Guarded.search (.start Guarded.symbols) = .ok s' q
      ∧ s'.canCompleteNormally = true ∧ Stmt.Counterparts Guarded.search.walk s'.walk := by
  obtain ⟨s', q, hrun, -⟩ : ∃ s' q, lowerStmt Guarded.rules Guarded.search
      (.start Guarded.symbols) = .ok s' q ∧ q.symbols.vars.size = 3 :=
    Guarded.size?_eq_some (by decide +kernel)
  obtain ⟨hcompletes, hnested⟩ := lower_keeps_completion hrun
  have hsearch : Guarded.search.canCompleteNormally = true := by decide
  exact ⟨s', q, hrun, hcompletes.trans hsearch, hnested⟩

end Lowering

end PatternIR
