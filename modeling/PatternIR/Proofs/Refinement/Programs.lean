/-
  PatternIR.Proofs.Refinement.Programs
  ────────────────────────────────────
  **LOWERED PROGRAMS DO THE SAME.**

  Each method is lowered on its own, from an empty stack, so at the start of
  its body nothing is in scope and nothing is stored.  Calls of a method and of
  the lowered method agree by induction on the fuel: a body may call whatever
  agrees with less.

    • `Corresponds.call` — one call;
    • `callEach` — calls from outside, one after the other;
    • `Program.WellMatched` — what is asked of a program;
    • `lower_refines` — the program and the lowered one.
-/
import PatternIR.Proofs.Eval.Fuel
import PatternIR.Proofs.Refinement.Statements

namespace PatternIR

variable {ω : Type}

namespace Lowering

open PatternIR.Flow

/-! ## §1. Calls. -/

/-- How a call ends: never with a jump; with a value, in the activations it
was begun in. -/
structure Called (m m' : Machine ω) (r : Except Interrupt Value) (m₁ m₁' : Machine ω) : Prop where
  alike : Alike m₁ m₁'
  ok : ∀ v, r = .ok v → m.Restored m₁ ∧ m'.Restored m₁' ∧ m.env.clock ≤ m₁.env.clock
  error : ∀ i, r = .error i → i.isJump = false

/-- After a call, what was known is known. -/
theorem Called.same {s : Symbols} {callers callers' : List Activation} {K : Facts}
    {m m' m₁ m₁' : Machine ω} {r : Except Interrupt Value} (h : Called m m' r m₁ m₁')
    (hagree : Agree s callers callers' K m m') : Same s callers callers' K (fun _ => K) r m₁ m₁' := by
  cases r with
  | ok v =>
      obtain ⟨hm, hm', hclock⟩ := h.ok v rfl
      exact hagree.restored h.alike hm hm' hclock
  | error i =>
      show if i.isJump then _ else _
      rw [h.error i rfl]
      exact h.alike

/-- Nothing is known, so all that could be asked of it holds. -/
theorem Ready.nothing (s : Symbols) (P : Place) (ts : List BindingId) : Ready s P .none ts :=
  ⟨⟨False.elim, False.elim, False.elim⟩, False.elim, False.elim, False.elim⟩

variable {setting setting' : Setting ω} {f f' : Method} {n : Nat}

/-- A method and one with another body that does the same where nothing is in scope. -/
structure Corresponds (setting setting' : Setting ω) (P : Place) (f f' : Method) : Prop where
  header : f' = { f with body := f'.body }
  params : ∀ v ∈ f.params, v.index < setting.program.symbols.vars.size
  scope : ∀ b, ¬ P.scope b
  body : Option.Rel (Performs setting setting' P none) f.body f'.body

/-- The two are admitted alike. -/
theorem Corresponds.admission {P : Place} (h : Corresponds setting setting' P f f') (depth : Nat)
    (args : List Value) :
    (∃ e, admission depth f args = .error e ∧ admission depth f' args = .error e)
      ∨ ∃ b b', admission depth f args = .ok b ∧ admission depth f' args = .ok b'
        ∧ Performs setting setting' P none b b' := by
  obtain ⟨header, -, -, body⟩ := h
  rw [header]
  unfold PatternIR.admission
  simp only
  split
  · exact .inl ⟨_, rfl, rfl⟩
  · split
    · exact .inl ⟨_, rfl, rfl⟩
    · generalize f.body = w, f'.body = w' at body
      cases body with
      | none => exact .inl ⟨_, rfl, rfl⟩
      | some hbody => exact .inr ⟨_, _, rfl, rfl, hbody⟩

/-- The parameters are bound alike. -/
theorem Agreeing.bindParams (twin : Twin setting setting') {P : Place} {ts : List BindingId} :
    ∀ (params : List VarId) (args : List Value),
      (∀ v ∈ params, v.index < setting.program.symbols.vars.size) →
        Agreeing setting setting' P ts .nothing
          (fun _ => (PatternIR.bindParams setting.program.symbols params args : Run ω Unit))
          fun _ => PatternIR.bindParams setting'.program.symbols params args
  | [], _, _ => .pure ()
  | _ :: _, [], _ => .pure ()
  | v :: params, arg :: args, h =>
      .bind (.declare twin (h v List.mem_cons_self) arg)
        (fun _ => .bindParams twin params args fun w hw => h w (List.mem_cons_of_mem _ hw))
        (fun _ => id) fun _ => id

/-- How a call ends, from how its body did. -/
theorem Called.of_body {m m' m₁ m₂ m₂' : Machine ω} {b : Stmt} {s : Symbols} {K₀ : Facts} {K : Unit → Facts}
    {r : Except Interrupt Unit} (hbegun : m.entered.Later m₁) (hran : execStmt setting n b m₁ = Run.ended r m₂)
    (h : Same s (m.env.current :: m.env.callers) (m'.env.current :: m'.env.callers) K₀ K r m₂ m₂')
    (method : String) : ∃ r', callResult method (Stop.ofExcept r) = Stop.ofExcept r'
      ∧ Called m m' r' (leaveCall m₂) (leaveCall m₂') := by
  have hkept := (Machine.framed_later.kept setting n).stmt b
  have hreturned : ∀ {K : Facts} (v : Value),
      Agree s (m.env.current :: m.env.callers) (m'.env.current :: m'.env.callers) K m₂ m₂' →
        m₁.Later m₂ → Called m m' (.ok v) (leaveCall m₂) (leaveCall m₂') := by
    intro K v hagree hlater
    have hclock : m.env.clock ≤ m₂.env.clock := (hbegun.trans hlater).clock
    exact ⟨hagree.alike.leave, fun _ _ => ⟨Machine.restored_leaveCall hagree.callers,
      Machine.restored_leaveCall hagree.callers', by rwa [Machine.leaveCall_clock]⟩, by simp⟩
  have hfailed : ∀ f, Alike m₂ m₂' → Called m m' (.error (.fault f)) (leaveCall m₂) (leaveCall m₂') :=
    fun f hlike => ⟨hlike.leave, by simp, by rintro _ ⟨⟩; rfl⟩
  cases r with
  | ok u => exact ⟨.ok .null, rfl, hreturned .null h (hkept.ok hran)⟩
  | error i =>
      cases i with
      | returned v => exact ⟨.ok v, rfl, hreturned v h (hkept.jump hran rfl)⟩
      | fault f => exact ⟨_, rfl, hfailed f h⟩
      | broke label => exact ⟨_, rfl, hfailed (.escapedJump label method) (Agree.alike h)⟩
      | continued label => exact ⟨_, rfl, hfailed (.escapedJump label method) (Agree.alike h)⟩

/-- **One call.** -/
theorem Corresponds.call (twin : Twin setting setting') {P : Place} (h : Corresponds setting setting' P f f')
    (calls : Calls setting setting' n) (args : List Value) {m m' : Machine ω} (hlike : Alike m m') :
    Simulates (n + 1) (callMethod setting (n + 1) f args) (fun k => callMethod setting' k f' args) m m'
      (Called m m') := by
  have hdepth : m'.depth = m.depth := (congrArg Prod.fst hlike.visible).symm
  have hname : f'.name = f.name := by rw [h.header]
  have hparams : f'.params = f.params := by rw [h.header]
  refine .step rfl (fun _ => rfl) ?_
  rcases h.admission m.depth args with ⟨e, he, he'⟩ | ⟨b, b', hb, hb', hbody⟩
  · refine .congr (callBy_error he) (fun _ => callBy_error (hdepth.symm ▸ he')) (.interrupt ?_)
    exact ⟨hlike, by simp, by rintro _ ⟨⟩; rfl⟩
  · refine .congr (callBy_ok hb) (fun _ => callBy_ok (hdepth.symm ▸ hb')) ?_
    rw [hname, hparams]
    -- nothing is known in the call, and nothing is in scope
    have hpoint : ∀ (ts : List BindingId) {m₁ m₁' : Machine ω},
        Agree setting.program.symbols (m.env.current :: m.env.callers) (m'.env.current :: m'.env.callers)
          .none m₁ m₁' →
            Point setting.program.symbols P (m.env.current :: m.env.callers)
              (m'.env.current :: m'.env.callers) .none ts m₁ m₁' :=
      fun _ _ _ hagree => ⟨.nothing _ _ _, fun x hx => absurd hx (h.scope x), hagree⟩
    have hbind := Agreeing.bindParams twin f.params args h.params n calls
      (hpoint [] (hlike.enter _))
    have hkept : Run.Keeps Machine.Later
        (PatternIR.bindParams setting.program.symbols f.params args : Run ω Unit) :=
      Machine.framed_later.keeps_bindParams _ _ _
    refine .bind hbind.tracked ?_ ?_
    · rintro ⟨⟩ m₁ m₁' ⟨hran, hagree⟩
      have hrun := hbody n calls (hpoint _ (Agree.weaken hagree .inl))
      exact .bracketCall hrun.tracked fun r m₂ m₂' h₂ =>
        Called.of_body (hkept.ok hran) h₂.1 h₂.2 f.name
    · -- binding parameters only faults
      rintro i m₁ m₁' ⟨hran, hsame⟩
      have hfault := (Run.OnlyFaults.bindParams setting.program.symbols f.params args).fault hran
      refine ⟨?_, by simp, by rintro _ ⟨⟩; exact hfault⟩
      unfold Same at hsame
      simpa [hfault] using hsame

/-- **Calls agree with any fuel.** -/
theorem calls_agree (twin : Twin setting setting') (h : ∀ name,
    Option.Rel (fun f f' => ∃ P, Corresponds setting setting' P f f') (setting.program.method? name)
      (setting'.program.method? name)) (n : Nat) : Calls setting setting' n := by
  induction n using Nat.strong_induction_on with
  | h n ih =>
      intro name
      refine rel_imp (h name) ?_
      rintro f f' ⟨P, hff⟩ k hk args callers callers' K m m' hagree
      cases k with
      | zero => exact .zero rfl
      | succ k => exact (hff.call twin (ih k hk) args hagree.alike).mono fun r m₁ m₁' hcalled =>
          hcalled.same hagree

end Lowering

/-! ## §2. Calls from outside. -/

/-- A result, whatever it is; without fuel there is none. -/
def outcome {α : Type} : Except Stop α → Except Stop (Except Interrupt α)
  | .ok a => .ok (.ok a)
  | .error (.interrupt i) => .ok (.error i)
  | .error .exhausted => .error .exhausted

/-- Calls by name, one after the other on the same machine: what each ends in. -/
def callEach (setting : Setting ω) (fuel : Nat) :
    List (String × List Value) → Run ω (List (Except Interrupt Value))
  | [] => return []
  | (name, args) :: calls => do
    let r ← settle outcome (callNamed setting fuel name args)
    let rs ← callEach setting fuel calls
    return r :: rs

/-- Calls one after the other go at least as far with more fuel. -/
theorem callEach_within (setting : Setting ω) (n more : Nat) : ∀ calls : List (String × List Value),
    Run.Within (callEach setting n calls) (callEach setting (n + more) calls)
  | [] => .refl _
  | (name, args) :: calls => ((callNamed_within setting n more name args).settle rfl).bind fun _ =>
      (callEach_within setting n more calls).bind fun _ => .refl _

/-- With enough fuel, calls from outside on a new machine end in `rs`, and the
machine looks like `seen` in the end. -/
def Program.Yields (p : Program) (native? : String → Option (Native ω)) (host : ω)
    (calls : List (String × List Value)) (rs : List (Except Interrupt Value))
    (seen : Nat × Nat × String × ω) : Prop :=
  ∃ n m, callEach (p.setting native?) n calls (.start host) = .ok rs m ∧ m.visible = seen

/-- What calls yield is determined. -/
theorem Program.Yields.unique {p : Program} {native? : String → Option (Native ω)} {host : ω}
    {calls : List (String × List Value)} {rs rs' : List (Except Interrupt Value)}
    {seen seen' : Nat × Nat × String × ω} (h : p.Yields native? host calls rs seen)
    (h' : p.Yields native? host calls rs' seen') : rs = rs' ∧ seen = seen' := by
  obtain ⟨n, m, hn, rfl⟩ := h
  obtain ⟨k, m', hk, rfl⟩ := h'
  have heq := Run.Within.ends (fun n more => callEach_within (p.setting native?) n more calls)
    (n := n) (k := k) (m := .start host) (by simp [hn]) (by simp [hk])
  rw [hn, hk] at heq
  injection heq with hrs hm
  exact ⟨hrs, by rw [hm]⟩

namespace Lowering

open PatternIR.Flow

/-- Two machines at their start look alike. -/
theorem Alike.start (host : ω) : Alike (Machine.start host) (Machine.start host) := by
  refine ⟨rfl, ?_⟩
  intro a ha sym c hc
  rw [List.mem_singleton.mp ha] at hc
  injection hc

section

variable {setting setting' : Setting ω} (twin : Twin setting setting') (h : ∀ name,
  Option.Rel (fun f f' => ∃ P, Corresponds setting setting' P f f') (setting.program.method? name)
    (setting'.program.method? name))

include twin h

/-- A call by name looks alike from outside. -/
theorem callNamed_alike (n : Nat) (name : String) (args : List Value) {m m' : Machine ω}
    (hlike : Alike m m') : Simulates n (callNamed setting n name args)
      (fun k => callNamed setting' k name args) m m' fun _ m₁ m₁' => Alike m₁ m₁' := by
  have hname := h name
  unfold callNamed
  generalize setting.program.method? name = f, setting'.program.method? name = f' at hname ⊢
  cases hname with
  | none => exact .interrupt hlike
  | some hff =>
      obtain ⟨P, hff⟩ := hff
      cases n with
      | zero => exact .zero rfl
      | succ n => exact (hff.call twin (calls_agree twin h n) args hlike).mono fun _ _ _ hcalled =>
          hcalled.alike

/-- So do calls one after the other. -/
theorem callEach_alike (n : Nat) : ∀ (calls : List (String × List Value)) {m m' : Machine ω},
    Alike m m' → Simulates n (callEach setting n calls) (fun k => callEach setting' k calls) m m'
      fun _ m₁ m₁' => Alike m₁ m₁'
  | [], _, _, hlike => .pure hlike
  | (name, args) :: calls, _, _, hlike => by
      have hcall : Simulates n (settle outcome (callNamed setting n name args))
          (fun k => settle outcome (callNamed setting' k name args)) _ _ fun _ m₁ m₁' => Alike m₁ m₁' :=
        (callNamed_alike twin h n name args hlike).settle rfl fun r _ _ hlike =>
          ⟨.ok r, by cases r <;> rfl, hlike⟩
      refine .bind hcall (fun r m₁ m₁' hlike => ?_) fun _ _ _ => id
      exact .bind (callEach_alike n calls hlike) (fun rs _ _ hlike => .pure hlike) fun _ _ _ => id

end

/-! ## §3. Methods. -/

/-- Between `s` and `t`, a method is lowered to `m'` from an empty stack. -/
def LoweredMethod (rules : Rules) (s t : Symbols) (m m' : Method) : Prop :=
  ∃ q q', s.Evolves q.symbols ∧ q.stack = .bare ∧ lowerMethod rules m q = .ok m' q'
    ∧ q'.symbols.Evolves t

section

variable {s t : Symbols} {marks : Stmt → BindingId → Prop} (hierarchy : Hierarchy)

/-- Each method is lowered on an empty stack. -/
theorem lowerMethods_each (hs : s.Sound) (hmarks : Marking s marks) : ∀ (ms : List Method)
    {p q : Pass} {out : List Method}, (∀ m ∈ ms, Admits s marks m) → s.Evolves p.symbols →
      p.stack = .bare → lowerMethods ⟨hierarchy, matchBindings⟩ ms p = .ok out q → q.symbols.Evolves t →
        List.Forall₂ (LoweredMethod ⟨hierarchy, matchBindings⟩ s t) ms out
  | [], p, q, out, _, _, _, hrun, _ => by
      obtain ⟨rfl, -⟩ := pure_eq_ok.mp hrun
      exact .nil
  | m :: ms, p, q, out, h, hp, hstack, hrun, hq => by
      obtain ⟨m', q₁, ms', hm, hms, rfl⟩ := bind_bind_pure_eq_ok.mp hrun
      have htail : ∀ x ∈ ms, Admits s marks x := fun x hx => h x (List.mem_cons_of_mem _ hx)
      have h₁ := (lowerMethod_runs hierarchy hs hmarks (h m List.mem_cons_self) hp hstack).later hm
      have hp₁ := hp.trans h₁.evolves
      have hstack₁ : q₁.stack = .bare := h₁.stack.trans hstack
      have h₂ := (lowerMethods_runs hierarchy hs hmarks ms htail hp₁ hstack₁).later hms
      exact .cons ⟨p, q₁, hp, hstack, hm, h₂.evolves.trans hq⟩
        (lowerMethods_each hs hmarks ms htail hp₁ hstack₁ hms hq)

/-- Each class is lowered in the table that the ones before leave. -/
theorem lowerClasses_each (hs : s.Sound) (hmarks : Marking s marks) : ∀ (cs : List Class) {t : Symbols},
    (∀ c ∈ cs, ∀ m ∈ c.methods, Admits s marks m) → s.Evolves t →
      t.Evolves (lowerClasses ⟨hierarchy, matchBindings⟩ cs t).symbols
        ∧ List.Forall₂ (fun c c' => List.Forall₂ (LoweredMethod ⟨hierarchy, matchBindings⟩ s
            (lowerClasses ⟨hierarchy, matchBindings⟩ cs t).symbols) c.methods c'.methods)
          cs ((lowerClasses ⟨hierarchy, matchBindings⟩ cs t).done.map Prod.fst)
  | [], t, _, ht => ⟨.refl ht.sound, .nil⟩
  | c :: cs, t, h, ht => by
      have hc := h c List.mem_cons_self
      obtain ⟨c', q, hclass, hlater⟩ := runs_iff.mp (lowerClass_runs hierarchy hs hmarks hc ht)
      obtain ⟨hgrown, hrest⟩ := lowerClasses_each hs hmarks cs
        (fun x hx => h x (List.mem_cons_of_mem _ hx)) (ht.trans hlater.evolves)
      unfold lowerClasses
      rw [hclass]
      refine ⟨hlater.evolves.trans hgrown, .cons ?_ hrest⟩
      obtain ⟨ms, hms, rfl⟩ := bind_pure_eq_ok.mp hclass
      exact lowerMethods_each hierarchy hs hmarks c.methods hc ht rfl hms hgrown

end

/-- Only the body of a method is replaced. -/
theorem LoweredMethod.header {rules : Rules} {s t : Symbols} {m m' : Method}
    (h : LoweredMethod rules s t m m') : m' = { m with body := m'.body } := by
  obtain ⟨q, q', -, -, hm, -⟩ := h
  obtain ⟨body, -, rfl⟩ := bind_pure_eq_ok.mp hm
  rfl

/-- On an empty stack nothing is known, and nothing is stored. -/
theorem Pass.Stocked.bare {s : Symbols} (hs : s.Sound) {q : Pass} (hq : s.Evolves q.symbols)
    (hstack : q.stack = .bare) : q.Stocked s fun _ => False := by
  have hslots : ∀ slot, slot ∉ q.stack.slots := by
    rw [hstack]
    exact fun _ => List.not_mem_nil
  exact ⟨.bare hs hq hstack, ⟨fun a ha => absurd ha (hslots a), fun a ha => absurd ha (hslots a),
    fun a ha => absurd ha (hslots a), fun a ha => absurd ha (hslots a)⟩, fun _ hb => hb.elim⟩

/-- **A method and the lowered one.** -/
theorem LoweredMethod.corresponds {setting setting' : Setting ω} {s : Symbols}
    {marks : Stmt → BindingId → Prop} {m m' : Method} (twin : Twin setting setting')
    (hus : setting.program.symbols.Evolves s) (quiet : setting.Quiet) (hs : s.Sound)
    (hguards : Guarding s marks)
    (hparams : ∀ v ∈ m.params, v.index < setting.program.symbols.vars.size)
    (hbody : ∀ body ∈ m.body, body.Suits setting.program.symbols s setting.hierarchy
      ∧ body.Scoped s marks fun _ => False)
    (h : LoweredMethod ⟨setting.hierarchy, matchBindings⟩ s setting'.program.symbols m m') :
    ∃ P, Corresponds setting setting' P m m' := by
  obtain ⟨q, q', hq, hstack, hm, hq'⟩ := h
  obtain ⟨body, hrun, rfl⟩ := bind_pure_eq_ok.mp hm
  refine ⟨q.at setting s fun _ => False, rfl, hparams, fun b hb => hb.1, ?_⟩
  show Option.Rel _ m.body body
  generalize m.body = w at hbody hrun
  cases w with
  | none =>
      obtain ⟨rfl, -⟩ := pure_eq_ok.mp hrun
      exact .none
  | some w =>
      obtain ⟨hsuits, hscoped⟩ := hbody w rfl
      refine lowerStmt?_performs twin hus quiet hguards (some w) hsuits hscoped (.bare hs hq hstack)
        (Pass.avoids_bare hstack _) ?_ hrun hq'
      rw [hstack]
      simp [Stack.bare]

/-- What is found first on one side has its counterpart found on the other. -/
theorem find?_rel {α : Type} {R : α → α → Prop} {f g : α → Bool} (h : ∀ a b, R a b → g b = f a) :
    ∀ {as bs : List α}, List.Forall₂ R as bs → Option.Rel R (as.find? f) (bs.find? g)
  | [], [], .nil => .none
  | a :: as, b :: bs, .cons hab hrest => by
      rw [List.find?_cons, List.find?_cons, h a b hab]
      cases f a with
      | true => exact .some hab
      | false => exact find?_rel h hrest

/-- Classes with other bodies make the same hierarchy. -/
theorem declare_rebuilt {cs cs' : List Class} (h : List.Forall₂ Class.RebuiltAs cs cs') :
    ∀ hierarchy : Hierarchy,
      cs'.foldl (fun g c => g.declare c.name c.superclass c.interfaces) hierarchy
        = cs.foldl (fun g c => g.declare c.name c.superclass c.interfaces) hierarchy := by
  induction h with
  | nil => exact fun _ => rfl
  | cons hc _ ih =>
      intro hierarchy
      rw [List.foldl_cons, List.foldl_cons, hc.header]
      exact ih _

end Lowering

/-! ## §4. Programs. -/

namespace Program

/-- Behind a guard of the program, what its condition binds when false is known. -/
def Guards (p : Program) (w : Stmt) (b : BindingId) : Prop :=
  w ∈ p.positions ∧ ∃ c, w.guard? = some c ∧ b ∈ (Flow.matchBindings c false p.preserved).1

/-- **Well-matched programs**: variables are those of the table; the nodes suit
(`Expr.suits`); each binding is in one type test only; no list that the oracle
returns for a sub-expression has two bindings of one name and type; and
references stand where their bindings have matched. -/
structure WellMatched (p : Program) : Prop where
  vars : ∀ m ∈ p.methods, ∀ v ∈ m.vars, v.index < p.symbols.vars.size
  nodes : ∀ m ∈ p.methods, ∀ body ∈ m.body, ∀ x ∈ body.walkExprs,
    x.suits p.symbols p.hierarchy = true
  once : p.tests.Nodup
  apart : ∀ m ∈ p.methods, ∀ body ∈ m.body, ∀ x ∈ body.walkExprs, ∀ o,
    (Flow.matchBindings x o p.preserved).1.Pairwise fun a b =>
      Flow.sameVariable (Flow.matchBindings x o p.preserved).2 a b = false
  known : ∀ m ∈ p.methods, ∀ body ∈ m.body, body.Scoped p.preserved p.Guards fun _ => False

namespace WellMatched

variable {p : Program} (hp : p.WellMatched)

include hp

/-- The binding of a type test is a pattern of a reference type. -/
theorem tested {m : Method} (hm : m ∈ p.methods) {body : Stmt} (hbody : body ∈ m.body) {x : Expr}
    (hx : x ∈ body.walkExprs) : ∀ b ∈ x.ownTests, p.symbols.isLeaf b = true ∧ p.symbols.Refers b := by
  intro b hb
  cases x with
  | typeTest i e pattern =>
      obtain ⟨-, -, -, sym, hsym, hcomp, hty, -⟩ := Expr.suits_typeTest (hp.nodes m hm body hbody _ hx)
      rw [List.mem_singleton.mp hb]
      exact ⟨Symbols.isLeaf_iff.mpr ⟨sym, hsym, hcomp⟩, sym, hsym, hty⟩
  | _ => exact absurd hb List.not_mem_nil

theorem has : ∀ b ∈ p.tests, p.symbols.Has b := by
  intro b hb
  obtain ⟨m, hm, hb⟩ := List.mem_flatMap.mp hb
  cases hbody : m.body with
  | none =>
      rw [hbody] at hb
      exact absurd hb List.not_mem_nil
  | some body =>
      rw [hbody, Stmt.gatherOpt_some, Stmt.gather_exprs] at hb
      obtain ⟨x, hx, hb⟩ := List.mem_flatMap.mp hb
      exact (hp.tested hm hbody hx b hb).2.has

/-- The bodies suit the table that lowering starts from. -/
theorem suits (hrefs : ∀ b ∈ p.refs, p.symbols.Has b) {m : Method} (hm : m ∈ p.methods) {body : Stmt} (hbody : body ∈ m.body) :
    body.Suits p.symbols p.preserved p.hierarchy := by
  have hgrows := p.preserved_grows
  have hnode : ∀ x ∈ body.gather (fun _ => []) Expr.ownNode, x ∈ body.walkExprs := by
    intro x hx
    rw [Stmt.gather_exprs] at hx
    simpa [Expr.ownNode] using hx
  have hrefs : ∀ x ∈ body.gather (fun _ => []) Expr.ownNode, ∀ b ∈ x.ownRefs, p.symbols.Has b :=
    fun x hx b hb => hrefs b (mem_gather hm hbody (hnode x hx) b hb)
  refine ⟨⟨?_, ?_⟩, ?_, hrefs, ?_, ?_⟩
  -- of each test: it is a leaf, has a type with a default, and its groups are apart
  · intro x hx
    refine ⟨?_, ?_, hp.apart m hm body hbody x (hnode x hx)⟩
    · intro b hb
      obtain ⟨hleaf, hrefers⟩ := hp.tested hm hbody (hnode x hx) b hb
      obtain ⟨sym, hsym, hty⟩ := hrefers.grows hgrows
      have hvoid : sym.ty ≠ .void := by
        intro hvoid
        rw [hvoid] at hty
        injection hty
      obtain ⟨v, hv⟩ := Lowering.exists_defaultLiteral hvoid
      exact ⟨(hgrows.isLeaf_eq hrefers.has).trans hleaf, sym, v, hsym, hv⟩
    · exact fun b hb => hgrows.has (hrefs x hx b hb)
  · have honce := (List.nodup_flatMap.mp hp.once).1 m hm
    rwa [Option.mem_def.mp hbody, Stmt.gatherOpt_some] at honce
  · exact fun x hx => hp.nodes m hm body hbody x (hnode x hx)
  · intro leaf hleaf
    rw [Stmt.tests, Stmt.gather_exprs] at hleaf
    obtain ⟨x, hx, hleaf⟩ := List.mem_flatMap.mp hleaf
    exact hp.tested hm hbody hx leaf hleaf
  · intro v hv
    refine hp.vars m hm v (List.mem_append_right _ ?_)
    rw [Option.mem_def.mp hbody, Stmt.gatherOpt_some]
    exact hv

variable (hs : p.symbols.Sound)

include hs

/-- What a guard makes known, escapes it. -/
theorem guarding : Lowering.Guarding p.preserved p.Guards := by
  rintro w b ⟨hw, c, hc, hb⟩
  obtain ⟨before, after, hvisit⟩ := List.append_of_mem hw
  obtain ⟨ms, hms, -, hflags⟩ := escaping_kept hs hp.has hvisit (Stmt.escape?_of_guard? hc)
  refine ⟨c, ms, hc, hms, by simpa [hms] using hb, fun m hm => ⟨⟨hw, c, hc, ?_⟩, hflags m hm⟩⟩
  rw [hms]
  exact hm

end WellMatched

end Program

namespace Lowering

open PatternIR.Flow

section

variable {p p' : Program} (hs : p.symbols.Sound) (hp : p.WellMatched)
  (hrefs : ∀ b ∈ p.refs, p.symbols.Has b)

include hp hrefs

/-- The methods of a well matched program are admitted. -/
theorem admits_wellMatched : ∀ c ∈ p.classes, ∀ m ∈ c.methods, Admits p.preserved p.Guards m := by
  intro c hc m hm body hbody
  have hmem : m ∈ p.methods := List.mem_flatMap.mpr ⟨c, hc, hm⟩
  exact ⟨(hp.suits hrefs hmem hbody).fits, hp.known m hmem body hbody⟩

include hs

/-- **A well matched program is lowered.** -/
theorem lower_wellMatched : ∃ p', (p.preserveBindings matchBindings).lower matchBindings = .ok p' := by
  have hbase := Program.preserved_sound hs
  have herror : ((p.preserveBindings matchBindings).lowerClasses matchBindings).error = none :=
    lowerClasses_error p.hierarchy hbase (hp.guarding hs).marking p.classes (admits_wellMatched hp hrefs)
      (.refl hbase)
  unfold Program.lower
  simp only [herror]
  exact ⟨_, rfl⟩

variable (h : (p.preserveBindings matchBindings).lower matchBindings = .ok p')

include h

/-- The methods of the lowered program, which has the table of lowering's end. -/
theorem lowered_methods : p.preserved.Evolves p'.symbols
    ∧ List.Forall₂ (fun m m' => m ∈ p.methods
        ∧ LoweredMethod ⟨p.hierarchy, matchBindings⟩ p.preserved p'.symbols m m') p.methods p'.methods := by
  have hbase := Program.preserved_sound hs
  obtain ⟨-, rfl⟩ := lower_eq_ok h
  obtain ⟨hend, hclasses⟩ := lowerClasses_each p.hierarchy hbase (hp.guarding hs).marking p.classes
    (admits_wellMatched hp hrefs) (.refl hbase)
  exact ⟨hend, (List.forall₂_and_left _ _).mpr ⟨fun _ => id, List.rel_flatMap hclasses fun _ _ => id⟩⟩

/-- Settings of the program and of the lowered one. -/
theorem lowered_twin (native? : String → Option (Native ω)) :
    Twin (p.setting native?) (p'.setting native?) := by
  refine ⟨hs, declare_rebuilt (lower_rebuilt h) _, rfl, ?_⟩
  intro v hv
  have hx : p.symbols.var? v = some p.symbols.vars[v.index] := Array.getElem?_eq_getElem hv
  exact (((Program.preserved_evolves hs).trans (lowered_methods hs hp hrefs h).1).vars hx).trans hx.symm

/-- A name finds methods that correspond, or none on either side. -/
theorem lowered_corresponds (native? : String → Option (Native ω)) (quiet : (p.setting native?).Quiet)
    (name : String) :
    Option.Rel (fun f f' => ∃ P, Corresponds (p.setting native?) (p'.setting native?) P f f')
      (p.method? name) (p'.method? name) := by
  refine rel_imp (find?_rel ?_ (lowered_methods hs hp hrefs h).2) ?_
  · rintro m m' ⟨-, hm⟩
    rw [hm.header]
  · rintro m m' ⟨hmem, hm⟩
    exact hm.corresponds (lowered_twin hs hp hrefs h native?) (Program.preserved_evolves hs) quiet
      (Program.preserved_sound hs) (hp.guarding hs)
      (fun v hv => hp.vars m hmem v (List.mem_append_left _ hv))
      fun body hbody => ⟨hp.suits hrefs hmem hbody, hp.known m hmem body hbody⟩

end

/-- **Lowering preserves behaviour.**  Where the table is one that adding and
unifying bindings build, and references are to bindings of it, a well-matched
program is lowered.  Calls from outside end the same in it and in the lowered
program, in the same values and faults, with the same output, the same number
of objects and the same state of the host, if no native function throws a jump. -/
theorem lower_refines (p : Program) (hs : p.symbols.Sound) (hp : p.WellMatched)
    (hrefs : ∀ b ∈ p.refs, p.symbols.Has b) :
    ∃ p', (p.preserveBindings matchBindings).lower matchBindings = .ok p'
      ∧ ∀ {ω : Type} (native? : String → Option (Native ω)), (p.setting native?).Quiet →
        ∀ (host : ω) (calls : List (String × List Value)) (rs : List (Except Interrupt Value))
          (seen : Nat × Nat × String × ω),
          p.Yields native? host calls rs seen ↔ p'.Yields native? host calls rs seen := by
  obtain ⟨p', h⟩ := lower_wellMatched hs hp hrefs
  refine ⟨p', h, ?_⟩
  intro ω native? quiet host calls rs seen
  exact Simulates.sameEnd
    (fun n => callEach_alike (lowered_twin hs hp hrefs h native?)
      (lowered_corresponds hs hp hrefs h native? quiet) n calls (.start host))
    Machine.visible (fun _ _ _ hlike => hlike.visible) (.ok rs) seen

/-! ## §5. What it takes. -/

end Lowering

/-- What calls yield with some fuel, if it is enough. -/
def Program.yields? (p : Program) (native? : String → Option (Native ω)) (host : ω) (fuel : Nat)
    (calls : List (String × List Value)) :
    Option (List (Except Interrupt Value) × Nat × Nat × String × ω) :=
  match callEach (p.setting native?) fuel calls (.start host) with
  | .ok rs m => some (rs, m.visible)
  | .error _ _ => none

/-- What is computed with some fuel is yielded. -/
theorem Program.yields_of_eq_some {p : Program} {native? : String → Option (Native ω)} {host : ω}
    (fuel : Nat) {calls : List (String × List Value)} {rs : List (Except Interrupt Value)}
    {seen : Nat × Nat × String × ω} (h : p.yields? native? host fuel calls = some (rs, seen)) :
    p.Yields native? host calls rs seen := by
  unfold yields? at h
  split at h
  next rs' m hrun =>
    obtain ⟨rfl, rfl⟩ : rs' = rs ∧ m.visible = seen := by simpa using h
    exact ⟨fuel, m, hrun, rfl⟩
  next => injection h

/-- A program with one method, the body of which fits. -/
theorem Program.wellMatched_of_method {p : Program} {m : Method} {body : Stmt} (hm : p.methods = [m])
    (hbody : m.body = some body) (vars : ∀ v ∈ m.vars, v.index < p.symbols.vars.size)
    (nodes : ∀ x ∈ body.walkExprs, x.suits p.symbols p.hierarchy = true) (once : body.tests.Nodup)
    (apart : ∀ x ∈ body.walkExprs, ∀ o, (Flow.matchBindings x o p.preserved).1.Pairwise fun a b =>
      Flow.sameVariable (Flow.matchBindings x o p.preserved).2 a b = false)
    (known : body.Scoped p.preserved p.Guards fun _ => False) : p.WellMatched := by
  have htests := tests_of_method hm hbody
  refine ⟨?_, forall_bodies hm hbody nodes, htests ▸ once,
    forall_bodies hm hbody apart, forall_bodies hm hbody known⟩
  intro x hx
  rw [hm, List.mem_singleton] at hx
  rw [hx]
  exact vars

namespace Lowering

open PatternIR.Flow

namespace Guarded

theorem wellMatched : program.WellMatched := by
  refine Program.wellMatched_of_method rfl rfl (by decide) (by decide) (by decide) (by decide +kernel) ?_
  exact ⟨⟨trivial, trivial, trivial⟩, ⟨.inr ⟨.tail _ (.head _), _, rfl, by decide +kernel⟩, trivial⟩, trivial⟩

/-- The method is called with a string, then with `null`. -/
def calls : List (String × List Value) := [("m", [.str "a"]), ("m", [.null])]

end Guarded

/-- A call with a string prints it, and one with `null` prints nothing; so it is
in the lowered program. -/
theorem lower_refines_guarded :
    Guarded.program.symbols.Sound ∧ Guarded.program.WellMatched
      ∧ (∀ b ∈ Guarded.program.refs, Guarded.program.symbols.Has b)
      ∧ (Guarded.program.setting (ω := Unit) fun _ => none).Quiet
      ∧ ∃ p', (Guarded.program.preserveBindings matchBindings).lower matchBindings = .ok p'
        ∧ p'.Yields (fun _ => none) () Guarded.calls [.ok .null, .ok .null] (0, 1, "a", ()) := by
  have hrefs : ∀ b ∈ Guarded.program.refs, Guarded.program.symbols.Has b := by decide +kernel
  have hquiet : (Guarded.program.setting (ω := Unit) fun _ => none).Quiet :=
    fun _ _ h => by injection h
  obtain ⟨p', h, hiff⟩ := lower_refines Guarded.program Guarded.sound Guarded.wellMatched hrefs
  have hraw : Guarded.program.Yields (fun _ => none) () Guarded.calls [.ok .null, .ok .null] (0, 1, "a", ()) :=
    Program.yields_of_eq_some 20 (by decide +kernel)
  exact ⟨Guarded.sound, Guarded.wellMatched, hrefs, hquiet, p', h,
    (hiff (fun _ => none) hquiet () _ _ _).mp hraw⟩

/-- The lowered program exists and yields something else. -/
def Differs (p : Program) (native? : String → Option (Native Unit)) : Prop :=
  ∃ p', (p.preserveBindings matchBindings).lower matchBindings = .ok p'
    ∧ ∃ calls rs seen, p.Yields native? () calls rs seen ∧ ¬ p'.Yields native? () calls rs seen

/-- Two runs that end differently. -/
theorem differs_of_yields? {p : Program} {native? : String → Option (Native Unit)} (fuel : Nat)
    (calls : List (String × List Value)) (ran ran' : List (Except Interrupt Value) × Nat × Nat × String × Unit)
    (hne : ran'.1 ≠ ran.1) (hraw : p.yields? native? () fuel calls = some ran)
    (hlowered : ((p.preserveBindings matchBindings).lower matchBindings).toOption.any
      (fun p' => p'.yields? native? () fuel calls == some ran') = true) : Differs p native? := by
  cases h : (p.preserveBindings matchBindings).lower matchBindings with
  | error e => simp [h, Except.toOption] at hlowered
  | ok p' =>
      have hp' : p'.yields? native? () fuel calls = some ran' := by
        simpa [h, Except.toOption] using hlowered
      refine ⟨p', h, calls, ran.1, ran.2, Program.yields_of_eq_some fuel hraw, fun hsame => hne ?_⟩
      exact ((Program.yields_of_eq_some fuel hp').unique hsame).1

namespace Rejected

/-- `if (o instanceof String x || o instanceof String x) return x;`, where the
table has the unified binding as an integer. -/
def mistyped : Program :=
  program #[binding 0, binding 1, ⟨⟨2⟩, "x", .int, none, false, [⟨0⟩, ⟨1⟩]⟩]
    [.ifElse info (either 0 1) (.ret info (some (.ident ⟨0, .string, .nowhere⟩ (.binding ⟨2⟩)))) none]

/-- The conditions hold, since none of them looks at the type of the entry. -/
theorem mistyped_wellMatched : mistyped.WellMatched := by
  refine Program.wellMatched_of_method rfl rfl (by decide) (by decide) (by decide) (by decide +kernel) ?_
  exact ⟨⟨⟨trivial, trivial⟩, ⟨.inr (by decide +kernel), trivial⟩, trivial⟩, trivial⟩

/-- `while (!(o instanceof String x)) f(); return x;` -/
def interrupted : Program :=
  program #[binding 0]
    [.whileDo info (.unary ⟨0, .boolean, .nowhere⟩ .not (test 0)) (.expr info (.call ⟨0, .void, .nowhere⟩ "f" [])),
      .ret info (some (.ident ⟨0, .string, .nowhere⟩ (.binding ⟨0⟩)))]

/-- A native function that throws a `break`. -/
def breaks (name : String) : Option (Native Unit) :=
  if name = "f" then some fun _ host => (.error (.broke none), host) else none

theorem interrupted_wellMatched : interrupted.WellMatched := by
  refine Program.wellMatched_of_method rfl rfl (by decide) (by decide) (by decide) (by decide +kernel) ?_
  exact ⟨⟨trivial, trivial⟩, ⟨.inr ⟨.tail _ (.head _), _, rfl, by decide +kernel⟩, trivial⟩, trivial⟩

theorem interrupted_sound : interrupted.symbols.Sound := by
  have h := (Symbols.Sound.empty.addVar "o" .object none false).addBinding "x" .string none
  have heq : ((Symbols.empty.addVar "o" .object none false).2.addBinding "x" .string none).2
      = interrupted.symbols := by decide +kernel
  rw [← heq]
  exact h

theorem dangling_wellMatched : dangling.WellMatched := by
  refine Program.wellMatched_of_method rfl rfl (by decide) (by decide) (by decide) (by decide +kernel) ?_
  have hlisted : ∀ l ∈ [either 0 1, either 2 3], ⟨4⟩ ∈ (matchBindings l true dangling.preserved).1 := by
    decide +kernel
  exact ⟨⟨⟨trivial, trivial⟩, .inr ⟨true, rfl, hlisted _ (by simp)⟩, trivial⟩,
    ⟨⟨trivial, trivial⟩, .inr ⟨true, rfl, hlisted _ (by simp)⟩, trivial⟩, trivial⟩

end Rejected

/-- **Not every well-matched program is lowered to one that does the same**: not
if a native function throws a `break`, which ends the loop before the pattern
has matched; not if the table has a unified binding of another type than what
it unifies; and if references are to a binding that has yet to be made, it is
not lowered at all. -/
theorem lower_refines_not_all :
    (Rejected.interrupted.WellMatched ∧ Rejected.interrupted.symbols.Sound
        ∧ (∀ b ∈ Rejected.interrupted.refs, Rejected.interrupted.symbols.Has b)
        ∧ Differs Rejected.interrupted Rejected.breaks)
      ∧ (Rejected.mistyped.WellMatched
        ∧ (∀ b ∈ Rejected.mistyped.refs, Rejected.mistyped.symbols.Has b)
        ∧ Differs Rejected.mistyped fun _ => none)
      ∧ Rejected.dangling.WellMatched
        ∧ (Rejected.dangling.preserveBindings matchBindings).lower matchBindings
            = .error (.unresolvedBinding "x" .nowhere) := by
  refine ⟨⟨Rejected.interrupted_wellMatched, Rejected.interrupted_sound, by decide +kernel, ?_⟩,
    ⟨Rejected.mistyped_wellMatched, by decide +kernel, ?_⟩, Rejected.dangling_wellMatched,
    Rejected.error?_eq_some (by decide +kernel)⟩
  · exact differs_of_yields? 20 [("m", [.null])] ([.error (.fault (.undefinedVariable "x"))], 0, 1, "", ())
      ([.ok .null], 0, 1, "", ()) (by decide) (by decide +kernel) (by decide +kernel)
  · exact differs_of_yields? 20 [("m", [.str "a"])] ([.ok (.str "a")], 0, 1, "", ())
      ([.error (.fault (.classCast "String" "int"))], 0, 1, "", ()) (by decide) (by decide +kernel)
      (by decide +kernel)

end Lowering

end PatternIR
