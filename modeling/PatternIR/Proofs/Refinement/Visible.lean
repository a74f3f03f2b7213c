/-
  PatternIR.Proofs.Refinement.Visible
  ───────────────────────────────────
  **WHAT REFERENCES TO BINDINGS SEE.**

  A program is lowered only if each reference stands where there may be storage
  for its binding.  The storage is declared with the default value, and a
  reference that stands where its binding has matched for certain never sees it:

      if (!(o instanceof String s)) return;
      print(s);                            s has matched here

  Between the two are references such as one to `s` in the branch that returns:
  they are lowered, and see the default value.

    • `callEach_shows` — calls from outside that read no declared value;
    • `Program.Attributed` — programs that pass all checks of attribution;
    • `lower_visible` — what is lowered, and what its runs read;
    • `lower_visible_not_all` — references that see the default value.
-/
import PatternIR.Proofs.Eval.Clean
import PatternIR.Proofs.Lowering.Settled
import PatternIR.Proofs.Refinement.Programs

namespace PatternIR

variable {ω : Type}

/-! ## §1. Calls from outside. -/

/-- **Calls from outside are clean** where the text is sure of the reads at a node. -/
theorem callEach_shows {setting : Setting ω} (quiet : setting.Quiet) {node : NodeId} {v : VarId}
    (hbodies : ∀ f ∈ setting.program.methods, ∀ body, f.body = some body →
      body.Sure v (·.id = node) False) (n : Nat) : ∀ calls : List (String × List Value),
    Run.Shows node v False (callEach setting n calls)
  | [] => .pure _
  | (name, args) :: calls =>
      (callNamed_shows quiet hbodies n name args).settle.andThen fun _ =>
        (callEach_shows quiet hbodies n calls).andThen fun _ => .pure _

/-- A machine that calls from outside on a new one can leave, with some fuel,
whether it is enough or not. -/
def Program.Leaves (p : Program) (native? : String → Option (Native ω)) (host : ω)
    (calls : List (String × List Value)) (m : Machine ω) : Prop :=
  ∃ fuel, (∃ rs, callEach (p.setting native?) fuel calls (.start host) = .ok rs m)
    ∨ ∃ e, callEach (p.setting native?) fuel calls (.start host) = .error e m

namespace Program

/-- What was read and written in calls from outside, with some fuel. -/
def history (p : Program) (native? : String → Option (Native Unit)) (fuel : Nat)
    (calls : List (String × List Value)) : List Event :=
  match callEach (p.setting native?) fuel calls (.start ()) with
  | .ok _ m | .error _ m => m.history

/-- The calls leave a machine with their history. -/
theorem leaves_history (p : Program) (native? : String → Option (Native Unit)) (fuel : Nat)
    (calls : List (String × List Value)) :
    ∃ m, p.Leaves native? () calls m ∧ m.history = p.history native? fuel calls := by
  unfold history
  cases h : callEach (p.setting native?) fuel calls (.start ()) with
  | ok rs m => exact ⟨m, ⟨fuel, .inl ⟨rs, h⟩⟩, rfl⟩
  | error e m => exact ⟨m, ⟨fuel, .inr ⟨e, h⟩⟩, rfl⟩

end Program

/-! ## §2. Attributed programs. -/

/-- What attribution sees to. -/
inductive Check where
  /-- The table is one that adding and unifying bindings build. -/
  | table
  /-- The variables mentioned in bodies are in it. -/
  | declared
  /-- Type tests are for unmerged bindings of it. -/
  | tested
  /-- In a method, each is for its own. -/
  | once
  /-- References are to bindings that are in it, at the latest when bindings are preserved. -/
  | referred

namespace Program

/-- What each check asks of a program. -/
def Passes (p : Program) : Check → Prop
  | .table => p.symbols.Sound
  | .declared => ∀ m ∈ p.methods, ∀ body ∈ m.body, ∀ v ∈ body.vars, v.index < p.symbols.vars.size
  | .tested => ∀ b ∈ p.tests, p.symbols.isLeaf b = true
  | .once => ∀ m ∈ p.methods, ∀ body ∈ m.body, body.tests.Nodup
  | .referred => ∀ b ∈ p.refs, p.preserved.Has b

instance (p : Program) : ∀ check, Decidable (p.Passes check)
  | .table => inferInstanceAs (Decidable p.symbols.Sound)
  | .declared => inferInstanceAs (Decidable (∀ m ∈ p.methods, ∀ body ∈ m.body, ∀ v ∈ body.vars,
      v.index < p.symbols.vars.size))
  | .tested => inferInstanceAs (Decidable (∀ b ∈ p.tests, p.symbols.isLeaf b = true))
  | .once => inferInstanceAs (Decidable (∀ m ∈ p.methods, ∀ body ∈ m.body, body.tests.Nodup))
  | .referred => inferInstanceAs (Decidable (∀ b ∈ p.refs, p.preserved.Has b))

/-- An attributed program passes all checks. -/
def Attributed (p : Program) : Prop := ∀ check, p.Passes check

variable {p : Program}

/-- What is found in a body is found in the program. -/
theorem gather_body {own : Expr → List BindingId} {m : Method} (hm : m ∈ p.methods) {body : Stmt}
    (hbody : body ∈ m.body) : ∀ b ∈ body.gather (fun _ => []) own, b ∈ p.gather own := by
  intro b hb
  rw [Stmt.gather_exprs] at hb
  obtain ⟨x, hx, hb⟩ := List.mem_flatMap.mp hb
  exact mem_gather hm hbody hx b hb

namespace Attributed

variable (hp : p.Attributed)

include hp

theorem sound : p.preserved.Sound :=
  preserved_sound (hp .table)

/-- So are its methods, for the table that lowering starts from. -/
theorem methods {m : Method} (hm : m ∈ p.methods) : m.Attributed p.preserved := by
  intro body hbody
  refine ⟨fun v hv => ?_, fun b hb => ?_, hp .once m hm body hbody, fun b hb => ?_⟩
  · rw [p.preserved_vars]
    exact hp .declared m hm body hbody v hv
  · exact p.preserved_grows.isLeaf (hp .tested b (gather_body hm hbody b hb))
  · exact hp .referred b (gather_body hm hbody b hb)

end Attributed

/-- Storage for a binding in the lowered program `p'`: a new variable that is no
temporary. -/
def Stores (p p' : Program) (v : VarId) : Prop :=
  p.symbols.vars.size ≤ v.index ∧ ∀ x ∈ p'.symbols.var? v, x.synthetic = false

instance (p p' : Program) (v : VarId) : Decidable (p.Stores p' v) :=
  inferInstanceAs (Decidable (_ ∧ _))

/-- The reads of the variable at the node are at places in `Q`. -/
def ReadsIn (p : Program) (node : NodeId) (v : VarId) (Q : Span → Prop) : Prop :=
  ∀ m ∈ p.methods, ∀ body ∈ m.body, ∀ i ∈ body.reads v, i.id = node → Q i.span

instance (p : Program) (node : NodeId) (v : VarId) (Q : Span → Prop) [DecidablePred Q] :
    Decidable (p.ReadsIn node v Q) :=
  inferInstanceAs (Decidable (∀ m ∈ p.methods, ∀ body ∈ m.body, ∀ i ∈ body.reads v, i.id = node → Q i.span))

/-- In the lowered program `p'` the node is a read of storage at the place, and
it has been done after `origin` wrote. -/
def sees (p p' : Program) (native? : String → Option (Native Unit)) (calls : List (String × List Value))
    (v : VarId) (node : NodeId) (place : Span) (origin : Origin) : Bool :=
  decide (p.Stores p' v) && decide (p'.ReadsIn node v (· = place))
    && (p'.history native? 60 calls).contains (.read 1 node (.var v) origin)

/-- So it is for the lowered program, which there is. -/
theorem exists_sees (p : Program) (native? : String → Option (Native Unit))
    (calls : List (String × List Value)) (v : VarId) (node : NodeId) (place : Span) (origin : Origin)
    (h : ((p.preserveBindings Flow.matchBindings).lower Flow.matchBindings).toOption.any
      (fun p' => p.sees p' native? calls v node place origin) = true) :
    ∃ p', (p.preserveBindings Flow.matchBindings).lower Flow.matchBindings = .ok p' ∧ p.Stores p' v
      ∧ p'.ReadsIn node v (· = place) ∧ ∃ m, p'.Leaves native? () calls m
        ∧ .read 1 node (.var v) origin ∈ m.history := by
  cases hlower : (p.preserveBindings Flow.matchBindings).lower Flow.matchBindings with
  | error e => simp [hlower, Except.toOption] at h
  | ok p' =>
      rw [hlower] at h
      obtain ⟨⟨hstores, hreads⟩, hmem⟩ : (p.Stores p' v ∧ p'.ReadsIn node v (· = place))
          ∧ Event.read 1 node (.var v) origin ∈ p'.history native? 60 calls := by
        simpa [Except.toOption, sees] using h
      obtain ⟨m, hm, hhistory⟩ := p'.leaves_history native? 60 calls
      exact ⟨p', rfl, hstores, hreads, m, hm, hhistory ▸ hmem⟩

/-- References stand where there may be storage for their bindings. -/
def InReach (p : Program) : Prop :=
  ∀ m ∈ p.methods, Stmt.EachRefOpt (Lowering.inReach p.preserved) [] m.body

/-- References at places in `Q` stand where their bindings have matched for certain. -/
def CertainIn (p : Program) (Q : Span → Prop) : Prop :=
  ∀ m ∈ p.methods, Stmt.EachRefOpt (Lowering.sited p.preserved Q) [] m.body

/-- In a program of one method, what is certain there is certain everywhere. -/
theorem certainIn_of_method {p : Program} {m : Method} {Q : Span → Prop} (hm : p.methods = [m])
    (h : Stmt.EachRefOpt (Lowering.sited p.preserved Q) [] m.body) : p.CertainIn Q := by
  intro x hx
  rw [hm, List.mem_singleton] at hx
  exact hx ▸ h

end Program

namespace Lowering

open PatternIR.Flow

/-! ## §3. Lowered programs. -/

section

variable {p : Program} (hp : p.Attributed)

include hp

/-- An attributed program is lowered with an excuse at most, each method outside all frames. -/
theorem lower_meets :
    (∀ e, (p.preserveBindings matchBindings).lower matchBindings = .error e → Excused p.preserved e)
      ∧ ∀ p', (p.preserveBindings matchBindings).lower matchBindings = .ok p' →
          List.Forall₂ (fun m m' => m ∈ p.methods ∧ FromBare p.hierarchy p.preserved p'.symbols m m')
            p.methods p'.methods := by
  obtain ⟨herror, hok⟩ := lowerClasses_meets p.hierarchy hp.sound p.classes
    (fun c hc m hm => hp.methods (List.mem_flatMap.mpr ⟨c, hc, hm⟩)) (.refl hp.sound)
  constructor
  · intro e h
    refine herror e ?_
    unfold Program.lower at h
    cases hclasses : ((p.preserveBindings matchBindings).lowerClasses matchBindings).error with
    | none =>
        simp only [hclasses] at h
        injection h
    | some e' =>
        simp only [hclasses] at h
        injection h with h
        exact h ▸ hclasses
  · intro p' h
    obtain ⟨hnone, rfl⟩ := lower_eq_ok h
    exact (List.forall₂_and_left _ _).mpr
      ⟨fun _ => id, List.rel_flatMap (hok hnone).2 fun _ _ => id⟩

variable {p' : Program} (h : (p.preserveBindings matchBindings).lower matchBindings = .ok p')

include h

/-- References were in reach. -/
theorem lowered_inReach : p.InReach := by
  intro m hm
  obtain ⟨m', -, -, q, q', hq, hstack, hrun, -⟩ := exists_of_forall₂ ((lower_meets hp).2 p' h) hm
  refine ((lowerMethod_meets p.hierarchy (hp.methods hm) hq hstack).ok hrun).covered [] fun slot hslot => ?_
  rw [hstack] at hslot
  exact absurd hslot List.not_mem_nil

/-- In a body of the lowered program, the reads of storage that are at places
where references stand for certain come after an assignment. -/
theorem lowered_sure {Q : Span → Prop} {v : VarId} (hv : p.Stores p' v)
    (href : p.CertainIn Q) {m' : Method} (hm' : m' ∈ p'.methods) : ∀ body ∈ m'.body, body.Sure v (fun i => Q i.span) False := by
  obtain ⟨m, -, hm, hbare⟩ := exists_of_forall₂ ((lower_meets hp).2 p' h).flip hm'
  refine hbare.sure (hp.methods hm) ?_ hv.2 (href m hm)
  rw [p.preserved_vars]
  exact hv.1

/-- So a run of the lowered program is clean at a node where it reads such a place. -/
theorem lowered_clean {Q : Span → Prop} {v : VarId} {node : NodeId} (hv : p.Stores p' v)
    (href : p.CertainIn Q) (hnode : p'.ReadsIn node v Q) {native? : String → Option (Native ω)} (quiet : (p'.setting native?).Quiet) {host : ω}
    {calls : List (String × List Value)} {m : Machine ω} (hm : p'.Leaves native? host calls m) :
    m.Clean node v := by
  have hshows : ∀ fuel, Run.Shows node v False (callEach (p'.setting native?) fuel calls) := by
    refine fun fuel => callEach_shows quiet (fun m' hm' body hbody => ?_) fuel calls
    exact (lowered_sure hp h hv href hm' body hbody).mono (hnode m' hm' body hbody)
  have hstart : (Machine.start host).Clean node v := fun _ => List.not_mem_nil
  obtain ⟨fuel, ⟨rs, hrun⟩ | ⟨e, hrun⟩⟩ := hm
  · exact (hshows fuel).ok hrun False.elim hstart
  · exact (hshows fuel).error hrun False.elim hstart

end

/-- **What references see.**  An attributed program is not lowered only because
a reference has no storage in scope, or because there is storage of the type
without values.  If it is lowered, each reference stands where there may be
storage for its binding.  And in every run of the lowered program, if natives
throw no jumps, a reference that stands where its binding has matched for
certain reads what a match or an assignment has written: so it is at each node
where all reads of the storage are at places of such references. -/
theorem lower_visible (p : Program) (hp : p.Attributed) :
    (∀ e, (p.preserveBindings matchBindings).lower matchBindings = .error e → Excused p.preserved e)
      ∧ ∀ p', (p.preserveBindings matchBindings).lower matchBindings = .ok p' →
          p.InReach
          ∧ ∀ Q : Span → Prop, p.CertainIn Q →
              ∀ (v : VarId) (node : NodeId), p.Stores p' v → p'.ReadsIn node v Q →
                ∀ {ω : Type} (native? : String → Option (Native ω)), (p'.setting native?).Quiet →
                  ∀ (host : ω) (calls : List (String × List Value)) (m : Machine ω),
                    p'.Leaves native? host calls m → m.Clean node v := by
  refine ⟨(lower_meets hp).1, fun p' h => ⟨lowered_inReach hp h, ?_⟩⟩
  intro Q href v node hv hnode ω native? quiet host calls m hm
  exact lowered_clean hp h hv href hnode quiet hm

namespace Guarded

theorem certain : program.CertainIn (· = .nowhere) := by
  refine Program.certainIn_of_method rfl
    ⟨⟨trivial, trivial, trivial⟩, ⟨fun _ => ⟨_, .head _, rfl, _, _, rfl, ?_⟩, trivial⟩, trivial⟩
  decide +kernel

/-- `print(s);` -/
def unguarded : Program := ⟨[{ guarded with methods := [{ method with body := stmts[1]? }] }], symbols⟩

theorem attributed : program.Attributed ∧ unguarded.Attributed := by
  constructor <;> intro check <;> cases check <;> decide +kernel

end Guarded

/-- A call with a string reads what the test has assigned; without the guard, the
program is not lowered. -/
theorem lower_visible_guarded :
    (Guarded.program.Attributed ∧ Guarded.program.CertainIn (· = .nowhere)
      ∧ ∃ p', (Guarded.program.preserveBindings matchBindings).lower matchBindings = .ok p'
        ∧ Guarded.program.Stores p' ⟨1⟩ ∧ p'.ReadsIn 1000013 ⟨1⟩ (· = .nowhere)
        ∧ (p'.setting (ω := Unit) fun _ => none).Quiet
        ∧ ∃ m, p'.Leaves (fun _ => none) () Guarded.calls m
          ∧ .read 1 1000013 (.var ⟨1⟩) .assigned ∈ m.history ∧ m.Clean 1000013 ⟨1⟩)
      ∧ Guarded.unguarded.Attributed
        ∧ (Guarded.unguarded.preserveBindings matchBindings).lower matchBindings
            = .error (.unresolvedBinding "s" .nowhere)
        ∧ Excused Guarded.unguarded.preserved (.unresolvedBinding "s" .nowhere) := by
  obtain ⟨p', h, hstores, hreads, m, hm, hread⟩ := Guarded.program.exists_sees (fun _ => none)
    Guarded.calls ⟨1⟩ 1000013 .nowhere .assigned (by decide +kernel)
  have hquiet : (p'.setting (ω := Unit) fun _ => none).Quiet := fun _ _ h => by injection h
  have hclean := ((lower_visible Guarded.program Guarded.attributed.1).2 p' h).2 _ Guarded.certain ⟨1⟩
    1000013 hstores hreads (fun _ => none) hquiet () Guarded.calls m hm
  have herror : (Guarded.unguarded.preserveBindings matchBindings).lower matchBindings
      = .error (.unresolvedBinding "s" .nowhere) := Rejected.error?_eq_some (by decide +kernel)
  exact ⟨⟨Guarded.attributed.1, Guarded.certain, p', h, hstores, hreads, hquiet, m, hm, hread, hclean⟩,
    Guarded.attributed.2, herror, (lower_visible Guarded.unguarded Guarded.attributed.2).1 _ herror⟩

end Lowering

/-! ## §4. References that see the default value. -/

namespace Program

/-- In a run of the lowered program, a reference at the place reads the default value. -/
def Defaults (p : Program) (native? : String → Option (Native Unit)) (place : Span) : Prop :=
  ∃ p', (p.preserveBindings Flow.matchBindings).lower Flow.matchBindings = .ok p'
    ∧ ∃ v node, p.Stores p' v ∧ p'.ReadsIn node v (· = place)
      ∧ ∃ calls m, p'.Leaves native? () calls m ∧ ¬ m.Clean node v

/-- A read that sees what a declaration has written shows it. -/
theorem defaults_of_sees {p : Program} {native? : String → Option (Native Unit)}
    (calls : List (String × List Value)) (v : VarId) (node : NodeId) {place : Span}
    (h : ((p.preserveBindings Flow.matchBindings).lower Flow.matchBindings).toOption.any
      (fun p' => p.sees p' native? calls v node place .declared) = true) : p.Defaults native? place := by
  obtain ⟨p', hlower, hstores, hreads, m, hm, hmem⟩ := exists_sees p native? calls v node place .declared h
  exact ⟨p', hlower, v, node, hstores, hreads, calls, m, hm, fun hclean => hclean 1 hmem⟩

end Program

namespace Lowering

open PatternIR.Flow

namespace Early

open Rejected (program binding info test)

/-- Where the references of these programs stand. -/
def place : Span := ⟨1, 2⟩

/-- `print(x);` -/
def print (b : Nat) : Stmt :=
  .expr info (.call ⟨0, .void, .nowhere⟩ "print" [.ident ⟨0, .string, place⟩ (.binding ⟨b⟩)])

/-- `null instanceof String x` -/
def never (b : Nat) : Expr :=
  .typeTest ⟨0, .boolean, .nowhere⟩ (.literal ⟨0, .null, .nowhere⟩ .null) ⟨⟨b⟩, some .string⟩

/-- `l || r` -/
def either (l r : Expr) : Expr := .binary ⟨0, .boolean, .nowhere⟩ .or l r

/-- `if (c) { … } else { … }` -/
def branch (c : Expr) (yes no : List Stmt) : Stmt := .ifElse info c (.block info yes) (some (.block info no))

/-- A binding that stands for others. -/
def unified (b : Nat) (parts : List Nat) : BindingSymbol := { binding b with components := parts.map .mk }

/-- `if (o instanceof String x) { } else { print(x); }` -/
def otherwise : Program := program #[binding 0] [branch (test 0) [] [print 0]]

/-- `while (!(o instanceof String x)) f(); print(x);` -/
def interrupted : Program :=
  program #[binding 0]
    [.whileDo info (.unary ⟨0, .boolean, .nowhere⟩ .not (test 0)) (.expr info (.call ⟨0, .void, .nowhere⟩ "f" [])),
      print 0]

/-- A test for a binding of the type without values, and `print(x);` out of reach. -/
def voided : Program :=
  program #[⟨⟨0⟩, "y", .void, none, false, []⟩, binding 1] [branch (test 0) [] [], print 1]

/-- Programs that do not pass the one check.  A test holds, but the reference
reads storage of an alias; or, with the undeclared variable, the storage has been
declared again. -/
def failing : Check → Program
  -- once there is a next binding, the two unified ones are aliases
  | .table => program #[binding 0, binding 1, binding 2, binding 3, binding 4, binding 5,
      unified 6 [0, 1, 8], unified 7 [2, 3, 8]]
    [branch (either (never 2) (test 3))
      [branch (either (never 0) (never 1)) [] [branch (either (never 4) (never 5)) [] [], print 7]] []]
  -- the variable is the next one, which becomes the storage
  | .declared => program #[binding 0]
    [branch (test 0) [.decl info ⟨1⟩ (some (.literal ⟨0, .null, .nowhere⟩ .null)), print 0] []]
  | .tested => program #[binding 0, binding 1, binding 2, unified 3 [0, 1], unified 4 [0, 2]]
    [branch (never 3) [] [branch (either (never 0) (test 2)) [print 4] []]]
  | .once => program #[binding 0, binding 1, unified 2 [0, 1]]
    [branch (never 0) [] [branch (either (never 0) (test 1)) [print 2] []]]
  -- the reference is to the next binding, which the outer condition makes in lowering
  | .referred => program #[binding 0, binding 1, binding 2, binding 3]
    [branch (either (never 0) (never 1)) [] [branch (either (never 2) (test 3)) [print 4] []]]

/-- Each failing program passes every other check. -/
theorem failing_passes : ∀ check c, c ≠ check → (failing check).Passes c := by
  intro check c h
  cases check <;> cases c <;> first | exact absurd rfl h | decide +kernel

/-- A reference behind an outcome that lists its binding. -/
theorem sited_passed {s : Symbols} {Q : Span → Prop} {G : List Guard} {i : ExprInfo} {c : Expr} {o : Bool}
    {b : BindingId} (h : b ∈ (matchBindings c o s).1) (hG : .passed c o ∈ G) : sited s Q G i b :=
  fun _ => ⟨_, hG, h⟩

/-- In each of them, what is referred to has matched for certain. -/
theorem failing_certain : ∀ check, (failing check).CertainIn (· = place) := by
  intro check
  cases check with
  | table =>
      have h : ⟨7⟩ ∈ (matchBindings (either (never 2) (test 3)) true (failing .table).preserved).1 := by
        decide +kernel
      exact Program.certainIn_of_method rfl ⟨⟨⟨trivial, trivial⟩, ⟨⟨⟨trivial, trivial⟩, trivial,
        ⟨⟨trivial, trivial⟩, trivial, trivial⟩, ⟨sited_passed h (by simp), trivial⟩, trivial⟩, trivial⟩,
        trivial⟩, trivial⟩
  | declared =>
      have h : ⟨0⟩ ∈ (matchBindings (test 0) true (failing .declared).preserved).1 := by decide +kernel
      exact Program.certainIn_of_method rfl ⟨⟨trivial, ⟨⟨trivial, trivial⟩,
        ⟨sited_passed h (by simp), trivial⟩, trivial⟩, trivial⟩, trivial⟩
  | tested =>
      have h : ⟨4⟩ ∈ (matchBindings (either (never 0) (test 2)) true (failing .tested).preserved).1 := by
        decide +kernel
      exact Program.certainIn_of_method rfl ⟨⟨trivial, trivial, ⟨⟨trivial, trivial⟩,
        ⟨⟨sited_passed h (by simp), trivial⟩, trivial⟩, trivial⟩, trivial⟩, trivial⟩
  | once =>
      have h : ⟨2⟩ ∈ (matchBindings (either (never 0) (test 1)) true (failing .once).preserved).1 := by
        decide +kernel
      exact Program.certainIn_of_method rfl ⟨⟨trivial, trivial, ⟨⟨trivial, trivial⟩,
        ⟨⟨sited_passed h (by simp), trivial⟩, trivial⟩, trivial⟩, trivial⟩, trivial⟩
  | referred =>
      have h : ⟨4⟩ ∈ (matchBindings (either (never 2) (test 3)) true (failing .referred).preserved).1 := by
        decide +kernel
      exact Program.certainIn_of_method rfl ⟨⟨⟨trivial, trivial⟩, trivial, ⟨⟨trivial, trivial⟩,
        ⟨⟨sited_passed h (by simp), trivial⟩, trivial⟩, trivial⟩, trivial⟩, trivial⟩

/-- In each of them a read at the place finds a default. -/
theorem failing_defaults : ∀ check, (failing check).Defaults (fun _ => none) place
  | .table => Program.defaults_of_sees [("m", [.str "a"])] ⟨4⟩ 1000066 (by decide +kernel)
  | .declared => Program.defaults_of_sees [("m", [.str "a"])] ⟨1⟩ 1000011 (by decide +kernel)
  | .tested => Program.defaults_of_sees [("m", [.str "a"])] ⟨1⟩ 1000025 (by decide +kernel)
  | .once => Program.defaults_of_sees [("m", [.str "a"])] ⟨1⟩ 1000025 (by decide +kernel)
  | .referred => Program.defaults_of_sees [("m", [.str "a"])] ⟨1⟩ 1000044 (by decide +kernel)

theorem interrupted_certain : interrupted.CertainIn (· = place) := by
  refine Program.certainIn_of_method rfl ?_
  refine ⟨⟨trivial, trivial⟩, ⟨fun _ => ⟨_, .head _, rfl, _, _, rfl, ?_⟩, trivial⟩, trivial⟩
  decide +kernel

theorem otherwise_not_certain : ¬ otherwise.CertainIn (· = place) := by
  intro h
  obtain ⟨g, hg, htells⟩ := (h _ (.head _)).1.2.2.1.1 rfl
  rcases List.mem_cons.mp hg with rfl | hg
  · have hnone : (matchBindings (test 0) false otherwise.preserved).1 = [] := by decide +kernel
    have htells : ⟨0⟩ ∈ (matchBindings (test 0) false otherwise.preserved).1 := htells
    rw [hnone] at htells
    exact absurd htells List.not_mem_nil
  · simp only [Guard.around, List.cons_append, List.nil_append, List.mem_cons, List.not_mem_nil,
      or_false] at hg
    rcases hg with rfl | rfl <;> exact htells

end Early

/-- **References do see the default value**: one in the other branch of a
condition does, where its binding has not matched, and yet it is lowered.  Where
bindings have matched for certain, they do if a program fails any one of the
checks, or if a native function throws a `break`.  And a program with a reference
out of reach may fail to be lowered for another reason. -/
theorem lower_visible_not_all :
    (Early.otherwise.Attributed ∧ ¬ Early.otherwise.CertainIn (· = Early.place)
        ∧ Early.otherwise.Defaults (fun _ => none) Early.place)
      ∧ (∀ check, (∀ c, c ≠ check → (Early.failing check).Passes c)
        ∧ (Early.failing check).CertainIn (· = Early.place)
        ∧ (Early.failing check).Defaults (fun _ => none) Early.place)
      ∧ (Early.interrupted.Attributed ∧ Early.interrupted.CertainIn (· = Early.place)
        ∧ Early.interrupted.Defaults Rejected.breaks Early.place)
      ∧ Early.voided.Attributed
        ∧ (Early.voided.preserveBindings matchBindings).lower matchBindings = .error (.noDefaultValue .void) := by
  have hattributed : Early.otherwise.Attributed ∧ Early.interrupted.Attributed ∧ Early.voided.Attributed := by
    refine ⟨?_, ?_, ?_⟩ <;> intro check <;> cases check <;> decide +kernel
  refine ⟨⟨hattributed.1, Early.otherwise_not_certain, ?_⟩, fun check => ⟨Early.failing_passes check,
    Early.failing_certain check, Early.failing_defaults check⟩, ⟨hattributed.2.1, Early.interrupted_certain, ?_⟩,
    hattributed.2.2, Rejected.error?_eq_some (by decide +kernel)⟩
  · exact Program.defaults_of_sees [("m", [.null])] ⟨1⟩ 1000011 (by decide +kernel)
  · exact Program.defaults_of_sees [("m", [.null])] ⟨1⟩ 1000013 (by decide +kernel)

end Lowering

end PatternIR
