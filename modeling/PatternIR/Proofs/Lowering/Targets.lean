/-
  PatternIR.Proofs.Lowering.Targets
  ─────────────────────────────────
  **WELL-TARGETED JUMPS, BEFORE AND AFTER LOWERING.**

  A body in which every jump has its target ends in no jump, and a lowered body
  ends in what the body ends in.  So no call of a method lets a jump out:

      targets in the text  →  no body ends in a jump
                           →  no lowered body ends in a jump
                           →  no call ends in a jump, or reports one

  Whatever the oracle answers, the declarations and the blocks that lowering
  adds take no jump and make none.

    • `WellTargeted.keepsJumps` — what the text says of the bodies;
    • `lower_keepsJumps` — what it says of the lowered bodies;
    • `wellTargeted_contained` — what follows for every call.
-/
import PatternIR.Proofs.Eval.Contained
import PatternIR.Proofs.Flow.Targets
import PatternIR.Proofs.Lowering.Jumps

namespace PatternIR

variable {ω : Type}

/-! ## §1. Bodies. -/

/-- Where each jump has its target, no body ends in a jump. -/
theorem Program.WellTargeted.keepsJumps {p : Program} (h : p.WellTargeted) : p.KeepsJumps :=
  fun m hm body hbody _ hends =>
    Flow.Targets.eq_done_of_has_outermost (Flow.ends_targeted body (h m hm body hbody) hends)

/-- Marking bindings leaves the jumps as they are. -/
theorem Program.WellTargeted.preserveBindings {p : Program} (h : p.WellTargeted) (flow : Oracle) :
    (p.preserveBindings flow).WellTargeted := h

namespace Lowering

variable {rules : Rules}

/-- A method among the lowered ones is a method, lowered from some state. -/
theorem mem_lowerMethods : ∀ (ms : List Method) {out : List Method} {p q : Pass},
    lowerMethods rules ms p = .ok out q → ∀ m' ∈ out, ∃ m ∈ ms, ∃ p₁ q₁,
      lowerMethod rules m p₁ = .ok m' q₁
  | [], out, p, q, h => by
      obtain ⟨rfl, -⟩ := pure_eq_ok.mp h
      exact fun m' hm' => absurd hm' List.not_mem_nil
  | m :: ms, out, p, q, h => by
      obtain ⟨m₁, q₁, others, hfirst, hothers, rfl⟩ := bind_bind_pure_eq_ok.mp h
      intro m' hm'
      rcases List.mem_cons.mp hm' with rfl | hm'
      · exact ⟨m, List.mem_cons_self, p, q₁, hfirst⟩
      · obtain ⟨m₀, hm₀, hlowered⟩ := mem_lowerMethods ms hothers m' hm'
        exact ⟨m₀, List.mem_cons_of_mem _ hm₀, hlowered⟩

/-- A method of a lowered class was lowered from one of its own. -/
theorem mem_lowerClasses : ∀ (cs : List Class) (s : Symbols),
    ∀ c' ∈ (lowerClasses rules cs s).done.map Prod.fst, ∀ m' ∈ c'.methods,
      ∃ c ∈ cs, ∃ m ∈ c.methods, ∃ p q, lowerMethod rules m p = .ok m' q
  | [], _, c', hc' => absurd hc' List.not_mem_nil
  | c :: cs, s, c', hc' => by
      unfold lowerClasses at hc'
      cases hc : lowerClass rules c (Pass.start s) with
      | error e q =>
          -- neither this class nor one behind it is done
          rw [hc] at hc'
          exact absurd hc' List.not_mem_nil
      | ok c₁ q =>
          rw [hc] at hc'
          intro m' hm'
          rcases List.mem_cons.mp hc' with rfl | hc'
          · obtain ⟨methods, hmethods, rfl⟩ := bind_pure_eq_ok.mp hc
            exact ⟨c, List.mem_cons_self, mem_lowerMethods c.methods hmethods m' hm'⟩
          · obtain ⟨c₀, hc₀, hlowered⟩ := mem_lowerClasses cs q.symbols c' hc' m' hm'
            exact ⟨c₀, List.mem_cons_of_mem _ hc₀, hlowered⟩

/-- The methods of a lowered program are those of the program, lowered. -/
theorem mem_lower_methods {p q : Program} {flow : Oracle} (h : p.lower flow = .ok q) :
    ∀ m' ∈ q.methods, ∃ m ∈ p.methods, ∃ p₁ q₁,
      lowerMethod ⟨p.hierarchy, flow⟩ m p₁ = .ok m' q₁ := by
  obtain ⟨-, rfl⟩ := lower_eq_ok h
  intro m' hm'
  obtain ⟨c', hc', hm'⟩ := List.mem_flatMap.mp hm'
  obtain ⟨c, hc, m, hm, hlowered⟩ := mem_lowerClasses p.classes p.symbols c' hc' m' hm'
  exact ⟨m, List.mem_flatMap.mpr ⟨c, hc, hm⟩, hlowered⟩

/-- The body of a lowered method ends as its body does. -/
theorem lowerMethod_endsAlike {m m' : Method} {p q : Pass} (h : lowerMethod rules m p = .ok m' q) :
    ∀ body' ∈ m'.body, ∃ body ∈ m.body, body.EndsAlike body' := by
  obtain ⟨lowered, hlowered, rfl⟩ := bind_pure_eq_ok.mp h
  intro body' hbody'
  cases hbody : m.body with
  | none =>
      rw [hbody] at hlowered
      obtain ⟨rfl, -⟩ := pure_eq_ok.mp hlowered
      exact nomatch hbody'
  | some body =>
      rw [hbody] at hlowered
      obtain ⟨d, _, s', hd, hclose, rfl⟩ := lowerStmt?_some_eq_ok hlowered
      obtain rfl : s' = body' := Option.mem_some.mp hbody'
      exact ⟨body, rfl, close_endsAlike (lowerParts_redone body hd) hclose⟩

/-- **Lowering lets no jump out of a body.** -/
theorem lower_keepsJumps {p q : Program} {flow : Oracle} (hlower : p.lower flow = .ok q)
    (h : p.KeepsJumps) : q.KeepsJumps := by
  intro m' hm' body' hbody' e hends
  obtain ⟨m, hm, _, _, hlowered⟩ := mem_lower_methods hlower m' hm'
  obtain ⟨body, hbody, halike⟩ := lowerMethod_endsAlike hlowered body' hbody'
  exact h m hm body hbody e (halike.ends e ▸ hends)

end Lowering

/-! ## §2. Calls. -/

/-- **Well-targeted jumps never escape.**  If every jump of a program has its
target and the native functions never fail, then no call of a method of the
program, from any state and with any amount of fuel, ends in a `break` or a
`continue`, or in the report that one escaped; nor does any in the lowered
program, whatever the oracle answered. -/
theorem Program.wellTargeted_contained {p : Program} (h : p.WellTargeted)
    {native? : String → Option (Native ω)} (total : (p.setting native?).Total) :
    (∀ fuel name args, Run.Contained (callNamed (p.setting native?) fuel name args))
      ∧ ∀ flow q, p.lower flow = .ok q → ∀ fuel name args,
        Run.Contained (callNamed (q.setting native?) fuel name args) := by
  constructor
  · exact fun fuel name args => callNamed_contained total h.keepsJumps fuel name args
  · intro flow q hlower fuel name args
    have hkeeps : q.KeepsJumps := Lowering.lower_keepsJumps hlower h.keepsJumps
    have htotal : (q.setting native?).Total := total
    exact callNamed_contained htotal hkeeps fuel name args

namespace Lowering

namespace Retried

/-- Where the nodes stand does not matter. -/
def info : StmtInfo := ⟨0, .nowhere⟩

/-- `while (true) { if (o instanceof String s) break outer; log(); continue outer; }` -/
def inner : Stmt :=
  .whileDo info (.literal ⟨0, .boolean, .nowhere⟩ (.bool true)) (.block info
    [.ifElse info Guarded.test (.brk info (some "outer")) none,
      .expr info (.call ⟨0, .void, .nowhere⟩ "log" []), .cont info (some "outer")])

/-- `outer: do { … } while (false);` -/
def outer : Stmt :=
  .labeled info "outer" (.doWhile info (.block info [inner])
    (.literal ⟨0, .boolean, .nowhere⟩ (.bool false)))

/-- A class with one method, which has the parameter `o`. -/
def program (body : Stmt) : Program :=
  ⟨[⟨0, "C", none, [], [⟨0, "m", [⟨0⟩], .void, some body, .nowhere⟩], .nowhere⟩], Guarded.symbols⟩

/-- A native function that counts its calls. -/
def log (name : String) : Option (Native Nat) :=
  if name = "log" then some fun _ count => (.ok .null, count + 1) else none

/-- The native function of the program never fails. -/
theorem total : ((program outer).setting log).Total := by
  intro name f hf args host
  have hlog : log name = some f := hf
  unfold log at hlog
  split at hlog
  next =>
    injection hlog with hlog
    subst hlog
    exact ⟨.null, rfl⟩
  next => exact nomatch hlog

end Retried

/-- Both jumps leave the inner loop, one for the end of the outer loop and one
for its test; so they do once `s` is marked and its storage is declared. -/
theorem wellTargeted_contained_retried :
    (Retried.program Retried.outer).WellTargeted
      ∧ ((Retried.program Retried.outer).setting Retried.log).Total
      ∧ (∀ fuel name args,
        Run.Contained (callNamed ((Retried.program Retried.outer).setting Retried.log) fuel name args))
      ∧ ∃ q, ((Retried.program Retried.outer).preserveBindings Flow.matchBindings).lower
          Flow.matchBindings = .ok q
        ∧ ∀ fuel name args, Run.Contained (callNamed (q.setting Retried.log) fuel name args) := by
  have htargeted : (Retried.program Retried.outer).WellTargeted := by
    intro m hm body hbody
    obtain rfl := List.mem_singleton.mp hm
    obtain rfl := Option.mem_some.mp hbody
    decide
  have hcalls := (Program.wellTargeted_contained htargeted Retried.total).1
  have hlowered := (Program.wellTargeted_contained
    (htargeted.preserveBindings Flow.matchBindings) Retried.total).2
  have hok : (((Retried.program Retried.outer).preserveBindings Flow.matchBindings).lower
      Flow.matchBindings).isOk = true := by decide +kernel
  obtain ⟨q, hq⟩ := exists_of_isOk hok
  exact ⟨htargeted, Retried.total, hcalls, q, hq, hlowered Flow.matchBindings q hq⟩

/-- In `l: for (break l; ; ) { }` the label is around the jump, but the start
of the loop is not in its body: the jump escapes. -/
example : ∃ m, callNamed ((Retried.program (.labeled Retried.info "l" (.forDo Retried.info
    [.brk Retried.info (some "l")] none [] (.block Retried.info [])))).setting Retried.log)
      9 "m" [.null] (.start 0)
    = .error (.interrupt (.fault (.escapedJump (some "l") "m"))) m :=
  ⟨_, rfl⟩

end Lowering

end PatternIR
