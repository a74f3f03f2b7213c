/-
  PatternIR.Proofs.Cli.Lowered
  ────────────────────────────
  **LOWERED PROGRAMS AS FILES.**

  `lower --json` writes what `lower` and `run` read, so that its output can be
  kept and used in place of the source:

      text ── load ── p ── lower ── p'
                                    │ write
               p' ──── load ──── text'

  The writer and the reader have different bounds, whatever library does the
  work.  Lowering nests a tree deeper than it was, and a number can be out of the
  range of its type from the start.

    • `outcome_lower_json` — what is written;
    • `lower_json_reads_back` — it is read back, within the bounds;
    • `lower_json_loses` — a text out of each bound;
    • `lowered_file_instead` — lowered once more, or run, it is as the source.
-/
import PatternIR.Cli.Command
import PatternIR.Proofs.Json.Drafts
import PatternIR.Proofs.Lowering.Unchanged
import PatternIR.Proofs.Wire.RoundTrip

namespace PatternIR

namespace Cli

/-! ## §1. Load, lower, write. -/

variable {lib : JsonLibrary} {env : Env} {wording : TextFault → String} {path text : String}
variable {colour debug : Bool} {p p' : Program}

/-- A file is loaded as the program that its text is read as. -/
theorem load_eq_ok :
    load lib colour wording path (.ok text) = .ok p ↔ lib.program? text = .ok p := by
  unfold load
  cases hread : lib.program? text <;> simp only [hread] <;> simp

/-- A program that can be lowered is, and shown as asked. -/
theorem lowerLoaded_eq_ok (colour debug : Bool)
    (hlower : (p.preserveBindings Flow.matchBindings).lower Flow.matchBindings = .ok p') :
    ∃ shown, lowerLoaded colour debug p = (shown, .ok p') := by
  obtain ⟨hnone, rfl⟩ := Lowering.lower_eq_ok hlower
  unfold lowerLoaded
  simp only [hnone]
  exact ⟨_, rfl⟩

/-- The JSON form of the lowered program is written, and what lowering has shown. -/
theorem outcome_lower_json (hload : lib.program? text = .ok p)
    (hlower : (p.preserveBindings Flow.matchBindings).lower Flow.matchBindings = .ok p') :
    ∃ shown, Command.outcome lib env wording (.ok text) (.lower path debug true)
      = ⟨0, lib.pretty (Wire.ofProgram p') ++ "\n", shown⟩ := by
  obtain ⟨shown, hlowered⟩ := lowerLoaded_eq_ok (styled env)
    (debug || debugFromEnv (env "KETTLE_DEBUG_PATTERNS")) hlower
  refine ⟨shown, ?_⟩
  unfold Command.outcome
  simp only [load_eq_ok.mpr hload, hlowered, if_true]

/-- A method of the lowered program is run. -/
theorem outcome_run {method : String} (hload : lib.program? text = .ok p)
    (hlower : (p.preserveBindings Flow.matchBindings).lower Flow.matchBindings = .ok p') :
    ∃ shown, Command.outcome lib env wording (.ok text) (.run path method)
      = runLowered (styled env) shown p' method := by
  obtain ⟨shown, hlowered⟩ := lowerLoaded_eq_ok (styled env)
    (debugFromEnv (env "KETTLE_DEBUG_PATTERNS")) hlower
  refine ⟨shown, ?_⟩
  unfold Command.outcome
  simp only [load_eq_ok.mpr hload, hlowered]

/-- What has been shown before matters to the error output only. -/
theorem runLowered_shown (shown before : String) (method : String) :
    (runLowered colour shown p method).code = (runLowered colour before p method).code
      ∧ (runLowered colour shown p method).stdout = (runLowered colour before p method).stdout := by
  unfold runLowered
  cases p.method? method with
  | none => exact ⟨rfl, rfl⟩
  | some m =>
      dsimp only
      split <;> exact ⟨rfl, rfl⟩

/-- A new line is blank. -/
theorem isBlank_newline : ∀ c ∈ "\n".toList, Draft.IsBlank c :=
  List.forall_mem_singleton.mpr (.inr (.inl rfl))

/-- **A program that was written is loaded**, within the bounds. -/
theorem program?_written [lib.Lawful] (hdepth : (Wire.ofProgram p).depth < 128) (hfits : p.Fits)
    (hkeeps : ∀ v ∈ p.literals, lib.Keeps v) :
    lib.program? (lib.pretty (Wire.ofProgram p) ++ "\n") = .ok p :=
  (JsonLibrary.program?_pretty hfits hkeeps isBlank_newline).trans (if_pos hdepth)

/-! ## §2. A method in a file. -/

namespace Bounds

open Reader (Reads Refuses reads_full reads_list reads_option reads_string reads_nat32 refuses_full
  refuses_list refuses_single present_object present_string)
open Reader.Record (Rejects field takes_cons takes_one isField isField_optional isField_fieldOr)
open Wire (toExpr toStmt toMethod toClass toProgram enough)

/-- A parameter `o`, and a binding `s` for a test of it. -/
def symbols : Symbols := ((Symbols.empty.addVar "o" .object none false).2.addBinding "s" .string none).2

/-- `void m(Object o)`, in which an expression is evaluated. -/
def method (e : Expr) : Method :=
  ⟨103, "m", [⟨0⟩], .void, some (.expr ⟨102, .nowhere⟩ e), .nowhere⟩

/-- `class C`, with that method. -/
def cls (e : Expr) : Class := ⟨104, "C", none, [], [method e], .nowhere⟩

/-- A program of that class. -/
def program (e : Expr) : Program := ⟨[cls e], symbols⟩

/-- The form of the method, from a form of the expression. -/
def methodForm (expr : Json) : Json :=
  .object [("id", .nat 103), ("name", .string "m"), ("params", .array [.nat 0]), ("ret", Wire.ofTy .void),
    ("body", Wire.stmtNode ⟨102, .nowhere⟩ (Wire.tagged "Expr" expr)), ("span", Wire.ofSpan .nowhere)]

/-- The form of the class, from a form of the expression. -/
def classForm (expr : Json) : Json :=
  .object [("id", .nat 104), ("name", .string "C"), ("superclass", .null), ("interfaces", .array []),
    ("methods", .array [methodForm expr]), ("span", Wire.ofSpan .nowhere)]

/-- The form of the program, from a form of the expression. -/
def form (expr : Json) : Json :=
  .object [("classes", .array [classForm expr]), ("symbols", Wire.ofSymbols symbols)]

/-- The form with an expression as it is written is what is written for the program. -/
theorem form_ofExpr (e : Expr) : form (Wire.ofExpr e) = Wire.ofProgram (program e) := rfl

/-- Numbers that fit are read back by any library. -/
theorem readsBack_numbers {xs : List Scalar} (h : ∀ x ∈ xs, x.Fits ∧ x.literal? = none) :
    ∀ x ∈ xs, x.ReadsBack lib :=
  fun x hx => .of_fits (h x hx).1 fun _ hv => nomatch (h x hx).2.symm.trans hv

variable {j : Json} {e : Expr}

section

variable [lib.Lawful]

/-- The body of the method is read, if the expression is. -/
theorem reads_body (h : Reads lib lib.room toExpr j e) :
    Reads lib (enough lib) toStmt (Wire.stmtNode ⟨102, .nowhere⟩ (Wire.tagged "Expr" j))
      (.expr ⟨102, .nowhere⟩ e) := by
  show Reads lib (lib.room + 1) (Wire.toStmtOf (lib.room + 1)) _ _
  rw [Wire.toStmtOf]
  exact Wire.reads_stmtNode (b := fun i => .expr i e) (readsBack_numbers (by decide))
    (reads_full rfl rfl (h.map _))

/-- **The program is read from the form**, if the expression is from its own. -/
theorem reads_form (h : Reads lib (enough lib) toExpr j e) :
    Reads lib (enough lib) toProgram (form j) (program e) := by
  have hspan : Reads lib (enough lib) Wire.toSpan (Wire.ofSpan .nowhere) .nowhere :=
    Wire.reads_span (readsBack_numbers (by decide))
  have hbody := reads_body (h.mono (Nat.le_succ _))
  have hparams : Reads lib (enough lib) (Reader.list Wire.toVarId) (.list Wire.ofVarId [⟨0⟩]) [⟨0⟩] :=
    reads_list (List.forall_mem_singleton.mpr (Wire.reads_varId (by decide)))
  have hmethod : Reads lib (enough lib) toMethod (methodForm j) (method e) :=
    (takes_cons (isField _ _) (by simp) (reads_nat32 (by decide)) <|
      takes_cons (isField _ _) (by simp) (reads_string "m") <|
      takes_cons (isField _ _) (by simp) hparams <|
      takes_cons (isField _ _) (by simp) (Wire.reads_type .void (Nat.le_refl _)) <|
      takes_cons (isField_optional _ _) (by simp) (hbody.option (present_object _)) <|
      takes_one (isField _ _) hspan).objectAs _
  have hmethods : Reads lib (enough lib) (Reader.list toMethod)
      (.list (fun _ => methodForm j) [method e]) [method e] :=
    reads_list (List.forall_mem_singleton.mpr hmethod)
  have hinterfaces : Reads lib (enough lib) (Reader.list Reader.string) (.list .string []) [] :=
    reads_list (List.forall_mem_nil _)
  have hclass : Reads lib (enough lib) toClass (classForm j) (cls e) :=
    (takes_cons (isField _ _) (by simp) (reads_nat32 (by decide)) <|
      takes_cons (isField _ _) (by simp) (reads_string "C") <|
      takes_cons (isField_optional _ _) (by simp) (Wire.reads_name none) <|
      takes_cons (isField_fieldOr _ _ _) (by simp) hinterfaces <|
      takes_cons (isField _ _) (by simp) hmethods <|
      takes_one (isField _ _) hspan).objectAs _
  have hclasses : Reads lib (enough lib) (Reader.list toClass) (.list (fun _ => classForm j) [cls e]) [cls e] :=
    reads_list (List.forall_mem_singleton.mpr hclass)
  have hsymbols : Reads lib (enough lib) Wire.toSymbols (Wire.ofSymbols symbols) symbols :=
    Wire.reads_symbols (readsBack_numbers (by decide)) (Nat.le_refl _)
  exact (takes_cons (isField _ _) (by simp) hclasses <| takes_one (isField _ _) hsymbols).objectAs _

end

/-- The body of the method is refused, if the expression is. -/
theorem refuses_body (h : Refuses lib toExpr j) :
    Refuses lib toStmt (Wire.stmtNode ⟨102, .nowhere⟩ (Wire.tagged "Expr" j)) := by
  show Refuses lib (Wire.toStmtOf (lib.room + 1)) _
  rw [Wire.toStmtOf]
  refine Rejects.object (k := "kind") (.right (isField _ _) (by decide) (.left ?_ _))
    (List.mem_cons_of_mem _ List.mem_cons_self) _
  exact (isField _ _).rejects (refuses_full rfl rfl (h.map _))

/-- **No program is read from the form**, if no expression is from its own. -/
theorem refuses_form (h : Refuses lib toExpr j) : Refuses lib toProgram (form j) := by
  have hbody := (refuses_body h).option (present_object _)
  have hmethod : Refuses lib toMethod (methodForm j) :=
    Rejects.object (.right (isField _ _) (by decide) <| .right (isField _ _) (by decide) <|
      .right (isField _ _) (by decide) <| .right (isField _ _) (by decide) <|
      ((isField_optional _ _).rejects hbody).left _) (by simp) _
  have hmethods : Refuses lib (Reader.list toMethod) (.array [methodForm j]) :=
    refuses_list List.mem_cons_self hmethod
  have hclass : Refuses lib toClass (classForm j) :=
    Rejects.object (.right (isField _ _) (by decide) <| .right (isField _ _) (by decide) <|
      .right (isField_optional _ _) (by decide) <| .right (isField_fieldOr _ _ _) (by decide) <|
      ((isField _ _).rejects hmethods).left _) (by simp) _
  have hclasses : Refuses lib (Reader.list toClass) (.array [classForm j]) :=
    refuses_list List.mem_cons_self hclass
  exact Rejects.object (((isField _ _).rejects hclasses).left _) List.mem_cons_self _

/-! ## §3. What is lost. -/

/-- A text is read and lowered, but what is written then is not read as the
lowered program. -/
def Lost (lib : JsonLibrary) (text : String) : Prop :=
  ∃ p p', (p.preserveBindings Flow.matchBindings).lower Flow.matchBindings = .ok p'
    ∧ ∀ (env : Env) (wording : TextFault → String) (path : String) (debug : Bool),
      let out := Command.outcome lib env wording (.ok text) (.lower path debug true)
      load lib (styled env) wording path (.ok text) = .ok p
        ∧ load lib (styled env) wording path (.ok out.stdout) ≠ .ok p'

/-- It is lost if what is written for the lowered program is read as none. -/
theorem lost_of_read (hload : lib.program? text = .ok p)
    (hlower : (p.preserveBindings Flow.matchBindings).lower Flow.matchBindings = .ok p')
    (hback : lib.program? (lib.pretty (Wire.ofProgram p') ++ "\n") ≠ .ok p') : Lost lib text := by
  refine ⟨p, p', hlower, fun env wording path debug => ⟨load_eq_ok.mpr hload, fun hread => ?_⟩⟩
  obtain ⟨shown, hout⟩ := outcome_lower_json hload hlower
  rw [hout, load_eq_ok] at hread
  exact hback hread

/-- A double that is too large for a single. -/
def tooLarge : Double := .ofRatio false (10 ^ 39) 1

/-- The form of a constant that is a single, from the form of the number. -/
def singleForm (number : Json) : Json :=
  Wire.node ⟨1, .prim .float, .nowhere⟩ (Wire.tagged "Literal" (Wire.tagged "Float" number))

/-- An infinite constant. -/
def infinite : Expr := .literal ⟨1, .prim .float, .nowhere⟩ (.float (.infinite false))

/-- A number out of range is read as an infinite constant. -/
theorem reads_tooLarge [lib.Lawful] (h : lib.KeepsDouble tooLarge) :
    Reads lib (enough lib) toExpr (singleForm (.double tooLarge)) infinite := by
  have hsingle : Reads lib lib.room Reader.single (.double tooLarge) (.infinite false) :=
    Reader.reads_narrowed h (by decide +kernel)
  show Reads lib (lib.room + 1) (Wire.toExprOf (lib.room + 1)) _ _
  rw [Wire.toExprOf]
  exact Wire.reads_node (b := fun i => .literal i _) (readsBack_numbers (by decide))
    (reads_full rfl rfl ((reads_full rfl rfl (hsingle.map Literal.float)).map _)) (Nat.le_succ _)

/-- Nothing is read from what is written for an infinite constant. -/
theorem refuses_infinite [lib.Lawful] : Refuses lib toExpr (Wire.ofExpr infinite) := by
  have hsingle : Refuses lib Reader.single (.single (.infinite false)) := refuses_single (by decide)
  show Refuses lib (Wire.toExprOf (lib.room + 1)) _
  rw [Wire.toExprOf]
  refine Rejects.object (k := "kind") (.right (isField _ _) (by decide) (.left ?_ _))
    (List.mem_cons_of_mem _ List.mem_cons_self) _
  exact (isField _ _).rejects (refuses_full rfl rfl ((refuses_full rfl rfl (hsingle.map Literal.float)).map _))

/-- **An infinite constant is lost.** -/
theorem lost_infinite [hlib : lib.Lawful] (h : lib.KeepsDouble tooLarge) :
    Lost lib (lib.pretty (form (singleForm (.double tooLarge))) ++ "\n") := by
  have hplain : ∀ c ∈ (program infinite).classes, ∀ m ∈ c.methods, ∀ s ∈ m.body, s.Plain := by
    decide
  have hlower : ((program infinite).preserveBindings Flow.matchBindings).lower Flow.matchBindings
      = .ok (program infinite) := by
    rw [Program.preserveBindings_plain hplain, Program.lower_plain hplain]
  have hreads : Reads lib (enough lib) toProgram (form (singleForm (.double tooLarge))) (program infinite) :=
    reads_form (reads_tooLarge h)
  have hrefuses : Refuses lib toProgram (form (Wire.ofExpr infinite)) := refuses_form refuses_infinite
  have hdepth : (form (singleForm (.double tooLarge))).depth ≤ lib.room := by
    rw [hlib.room]
    decide +kernel
  have hread := hreads lib.room (Nat.lt_succ_self lib.room)
  rw [if_pos hdepth] at hread
  obtain ⟨fault, hfault⟩ := hrefuses lib.room
  have hload := JsonLibrary.program?_of_scan (hlib.pretty (form (singleForm (.double tooLarge))) _ isBlank_newline)
  have hback := JsonLibrary.program?_of_scan (hlib.pretty (form (Wire.ofExpr infinite)) _ isBlank_newline)
  refine lost_of_read (hload.trans hread) hlower ?_
  rw [← form_ofExpr, hback, hfault]
  exact nofun

/-- `o instanceof String s` behind `n` negations. -/
def negated : Nat → Expr
  | 0 => .typeTest ⟨1, .boolean, .nowhere⟩ (.ident ⟨0, .object, .nowhere⟩ (.var ⟨0⟩)) ⟨⟨0⟩, some .string⟩
  | n + 1 => .unary ⟨n + 2, .boolean, .nowhere⟩ .not (negated n)

/-- The program of an expression, lowered. -/
def lowered (e : Expr) : Except LowerError Program :=
  ((program e).preserveBindings Flow.matchBindings).lower Flow.matchBindings

/-- A program that can be lowered to one with a property, from a check. -/
theorem exists_lowered {e : Expr} {P : Program → Prop} [DecidablePred P]
    (h : (lowered e).toOption.any (fun p => decide (P p)) = true) : ∃ p, lowered e = .ok p ∧ P p := by
  cases hlower : lowered e with
  | error fault =>
      rw [hlower] at h
      exact absurd h Bool.false_ne_true
  | ok p =>
      rw [hlower] at h
      exact ⟨p, rfl, of_decide_eq_true h⟩

/-- The numbers of a program fit, and it has no constant with a floating point. -/
def Whole (p : Program) : Prop := p.Fits ∧ ∀ v ∈ p.literals, v.isExact = true

instance (p : Program) : Decidable (Whole p) := inferInstanceAs (Decidable (_ ∧ _))

/-- **A test behind many negations is lost**: it is lowered to a block in an
expression, which nests deeper than it did. -/
theorem lost_negated [hlib : lib.Lawful] :
    Lost lib (lib.pretty (form (Wire.ofExpr (negated 37))) ++ "\n") := by
  have hwhole : Whole (program (negated 37)) := by decide +kernel
  have hdepth : (Wire.ofProgram (program (negated 37))).depth < 128 := by decide +kernel
  obtain ⟨p', hlower, ⟨hfits, hexact⟩, hdeep⟩ : ∃ p', lowered (negated 37) = .ok p'
      ∧ Whole p' ∧ 128 ≤ (Wire.ofProgram p').depth := exists_lowered (by decide +kernel)
  refine lost_of_read ?_ hlower ?_
  · rw [form_ofExpr]
    exact program?_written hdepth hwhole.1 fun v hv => JsonLibrary.keeps_of_isExact (hwhole.2 v hv)
  · rw [JsonLibrary.program?_pretty hfits (fun v hv => JsonLibrary.keeps_of_isExact (hexact v hv))
      isBlank_newline, if_neg (Nat.not_lt.mpr hdeep)]
    exact nofun

/-- `!!(o instanceof String s) ? 0.1 : 2.5` -/
def choice : Expr :=
  .conditional ⟨6, .prim .double, .nowhere⟩ (negated 2)
    (.literal ⟨4, .prim .double, .nowhere⟩ (.double (.ofRatio false 1 10)))
    (.literal ⟨5, .prim .double, .nowhere⟩ (.double (.ofRatio false 5 2)))

end Bounds

/-! ## §4. Read back. -/

/-- **A lowered program comes back from its file**, if it nests less than 128
deep and its constants are finite, by any library that keeps those. -/
theorem lower_json_reads_back (lib : JsonLibrary) [lib.Lawful]
    (hload : load lib (styled env) wording path (.ok text) = .ok p)
    (hlower : (p.preserveBindings Flow.matchBindings).lower Flow.matchBindings = .ok p')
    (hdepth : (Wire.ofProgram p').depth < 128) (hfits : p'.Fits) (hfinite : ∀ v ∈ p'.literals, v.IsFinite)
    (hkeeps : ∀ v ∈ p'.literals, v.IsFinite → lib.Keeps v) :
    let out := Command.outcome lib env wording (.ok text) (.lower path debug true)
    out.code = 0 ∧ load lib (styled env) wording path (.ok out.stdout) = .ok p' := by
  obtain ⟨shown, hout⟩ := outcome_lower_json (load_eq_ok.mp hload) hlower
  rw [hout]
  exact ⟨rfl, load_eq_ok.mpr (program?_written hdepth hfits fun v hv => hkeeps v hv (hfinite v hv))⟩

/-- A test and two constants, which come back with the library the program runs with. -/
theorem lower_json_reads_back_choice :
    let lib := JsonLibrary.standard
    let p := Bounds.program Bounds.choice
    let text := lib.pretty (Wire.ofProgram p) ++ "\n"
    ∃ p', lib.Lawful ∧ load lib false faultText "C.json" (.ok text) = .ok p
      ∧ (p.preserveBindings Flow.matchBindings).lower Flow.matchBindings = .ok p'
      ∧ (Wire.ofProgram p').depth < 128 ∧ p'.Fits ∧ (∀ v ∈ p'.literals, v.IsFinite ∧ lib.Keeps v)
      ∧ let out := Command.outcome lib (fun _ => none) faultText (.ok text) (.lower "C.json" false true)
        out.code = 0 ∧ load lib false faultText "C.json" (.ok out.stdout) = .ok p' := by
  intro lib p text
  have hlawful : lib.Lawful := JsonLibrary.standard_lawful
  obtain ⟨p', hlower, hdepth, hfits, hliterals⟩ : ∃ p', Bounds.lowered Bounds.choice = .ok p'
      ∧ (Wire.ofProgram p').depth < 128 ∧ p'.Fits
      ∧ ∀ v ∈ p'.literals, v.IsFinite ∧ JsonLibrary.standard.Keeps v :=
    Bounds.exists_lowered (by decide +kernel)
  have hread : lib.program? text = .ok p :=
    program?_written (by decide +kernel) (by decide +kernel)
      (by decide +kernel : ∀ v ∈ (Bounds.program Bounds.choice).literals, JsonLibrary.standard.Keeps v)
  have hload : load lib (styled fun _ => none) faultText "C.json" (.ok text) = .ok p := load_eq_ok.mpr hread
  exact ⟨p', hlawful, hload, hlower, hdepth, hfits, hliterals,
    lower_json_reads_back lib hload hlower hdepth hfits (fun v hv => (hliterals v hv).1)
      fun v hv _ => (hliterals v hv).2⟩

/-- **Out of each bound**, a lowered program does not come back, whatever library
does the work: an infinite constant is written as `null`, and a test behind many
negations is lowered to more than is read.  The library the program runs with is
one of those. -/
theorem lower_json_loses :
    (∀ lib : JsonLibrary, lib.Lawful → lib.KeepsDouble Bounds.tooLarge →
        Bounds.Lost lib (lib.pretty (Bounds.form (Bounds.singleForm (.double Bounds.tooLarge))) ++ "\n"))
      ∧ (∀ lib : JsonLibrary, lib.Lawful →
        Bounds.Lost lib (lib.pretty (Bounds.form (Wire.ofExpr (Bounds.negated 37))) ++ "\n"))
      ∧ JsonLibrary.standard.Lawful ∧ JsonLibrary.standard.KeepsDouble Bounds.tooLarge :=
  ⟨fun _ _ hkeeps => Bounds.lost_infinite hkeeps, fun _ _ => Bounds.lost_negated,
    JsonLibrary.standard_lawful, by decide +kernel⟩

/-! ## §5. In place of the source. -/

/-- A lowered program is lowered to itself. -/
theorem lower_lowered
    (hlower : (p.preserveBindings Flow.matchBindings).lower Flow.matchBindings = .ok p') :
    (p'.preserveBindings Flow.matchBindings).lower Flow.matchBindings = .ok p' := by
  have hplain : ∀ c ∈ p'.classes, ∀ m ∈ c.methods, ∀ s ∈ m.body, s.Plain :=
    fun c hc m hm s hs => Lowering.lowered_plain hlower c hc m hm s hs
  rw [Program.preserveBindings_plain hplain]
  exact Program.lower_plain hplain

/-- **The file can be used in place of the source**: to lower it writes the same
file once more, and a method runs as it does from the source. -/
theorem lowered_file_instead [lib.Lawful] {method : String} (hload : lib.program? text = .ok p)
    (hlower : (p.preserveBindings Flow.matchBindings).lower Flow.matchBindings = .ok p')
    (hdepth : (Wire.ofProgram p').depth < 128) (hfits : p'.Fits) (hkeeps : ∀ v ∈ p'.literals, lib.Keeps v) :
    let out := Command.outcome lib env wording (.ok text) (.lower path debug true)
    let lowered := Command.outcome lib env wording (.ok out.stdout) (.lower path debug true)
    let run := fun file => Command.outcome lib env wording (.ok file) (.run path method)
    (lowered.code = 0 ∧ lowered.stdout = out.stdout)
      ∧ (run out.stdout).code = (run text).code ∧ (run out.stdout).stdout = (run text).stdout := by
  -- the file holds `p'`, which is lowered to itself
  have hback := program?_written hdepth hfits hkeeps
  have hagain := lower_lowered hlower
  obtain ⟨shown, hout⟩ := outcome_lower_json hload hlower
  rw [hout]
  dsimp only
  obtain ⟨shown', hout'⟩ := outcome_lower_json hback hagain
  obtain ⟨before, hrun⟩ := outcome_run hload hlower
  obtain ⟨before', hrun'⟩ := outcome_run hback hagain
  rw [hout', hrun, hrun']
  exact ⟨⟨rfl, rfl⟩, runLowered_shown before' before method⟩

end Cli

end PatternIR
