/-
  PatternIR.Proofs.Wire.Written
  ─────────────────────────────
  **THE WRITTEN FORM OF A PROGRAM LOSES NOTHING.**

  A program is written on one line or over several, and read from either:

      p   ↦   {"classes":[…],"symbols":{…}}   ↦   p

  Its ids have 32 bits and its positions 64, brackets nest in the form less than
  128 deep, and no constant is infinite or a NaN.  Of the JSON library it is
  relied on, as stated in `JsonLibrary.Lawful`, that strings and integers come
  back, and further that the finite constants of the program do.

    • `Program.written_reads_back` — both written forms, and blanks behind them.
-/
import PatternIR.Proofs.Json.Drafts
import PatternIR.Proofs.Wire.RoundTrip

namespace PatternIR

/-- **A program is read from what is written for it**, on one line or over
several, by any library that keeps its finite constants. -/
theorem Program.written_reads_back (lib : JsonLibrary) [lib.Lawful] {p : Program}
    (hdepth : (Wire.ofProgram p).depth < 128) (hfits : p.Fits) (hfinite : ∀ v ∈ p.literals, v.IsFinite)
    (hkeeps : ∀ v ∈ p.literals, v.IsFinite → lib.Keeps v)
    (after : String) (hafter : ∀ c ∈ after.toList, Draft.IsBlank c) :
    lib.program? (lib.compact (Wire.ofProgram p) ++ after) = .ok p
      ∧ lib.program? (lib.pretty (Wire.ofProgram p) ++ after) = .ok p := by
  have hkept : ∀ v ∈ p.literals, lib.Keeps v := fun v hv => hkeeps v hv (hfinite v hv)
  have hcompact := JsonLibrary.program?_compact hfits hkept hafter
  have hpretty := JsonLibrary.program?_pretty hfits hkept hafter
  rw [if_pos hdepth] at hcompact hpretty
  exact ⟨hcompact, hpretty⟩

namespace Sample

/-- A parameter, a temporary, and two bindings unified by a third. -/
def symbols : Symbols where
  vars := #[⟨⟨0⟩, "o", .object, some "f", false⟩,
    ⟨⟨1⟩, "o$temp", .named "List" [.array .int], none, true⟩]
  bindings := #[⟨⟨0⟩, "s", .string, some "f", true, []⟩, ⟨⟨1⟩, "s", .string, some "f", true, []⟩,
    ⟨⟨2⟩, "s", .string, none, true, [⟨0⟩, ⟨1⟩]⟩]

/-- What a node of the given number carries. -/
def info (id : NodeId) (ty : Ty) : ExprInfo := ⟨id, ty, ⟨id, id + 1⟩⟩

/-- A node with its number as its place in the text. -/
def place (id : NodeId) : StmtInfo := ⟨id, ⟨id, id + 1⟩⟩

/-- A constant of each kind: the largest long, 0.1 as a float, 2.5 as a double,
and a string to be escaped. -/
def constants : List Expr :=
  [.literal (info 0 .boolean) (.bool true), .literal (info 1 .int) (.int (-1)),
    .literal (info 2 (.prim .long)) (.long 9223372036854775807),
    .literal (info 3 (.prim .float)) (.float (.ofRatio false 1 10)),
    .literal (info 4 (.prim .double)) (.double (.ofRatio true 5 2)),
    .literal (info 5 (.prim .char)) (.char '\uffff'),
    .literal (info 6 .string) (.string "\"a\\\n\t"), .literal (info 7 .null) .null]

/-- `f() ? !(o instanceof String s) : o instanceof List<int[]> && s.equals(s)` -/
def condition : Expr :=
  let o := .ident (info 8 .object) (.var ⟨0⟩)
  let s := .ident (info 9 .string) (.binding ⟨2⟩)
  .conditional (info 10 .boolean) (.call (info 11 .boolean) "f" constants)
    (.unary (info 12 .boolean) .not (.typeTest (info 13 .boolean) o ⟨⟨0⟩, some .string⟩))
    (.binary (info 14 .boolean) .and (.instanceOf (info 15 .boolean) o (.named "List" [.array .int]))
      (.methodCall (info 16 .boolean) s "equals" [s]))

/-- `(Object) let o$temp = true in o = null` -/
def effect : Expr :=
  let stored := .literal (info 17 .boolean) (.bool true)
  let target := .ident (info 18 .object) (.var ⟨0⟩)
  .cast (info 19 .object) .object (.letIn (info 20 .object) [(⟨1⟩, stored)]
    (.assign (info 21 .object) target (.literal (info 22 .null) .null)))

/-- A loop of each form, one in the other, and a jump out of each. -/
def body : Stmt :=
  .block (place 23) [.labeled (place 24) "l" (.forDo (place 25) [.decl (place 26) ⟨1⟩ none]
    (some condition) [effect] (.whileDo (place 27) condition (.doWhile (place 28)
      (.ifElse (place 29) condition (.cont (place 30) (some "l")) (some (.brk (place 31) none)))
      condition))), .expr (place 32) effect, .ret (place 33) (some condition)]

/-- `class C extends B implements I` with one method that has a body and one that has none. -/
def program : Program where
  classes := [⟨34, "C", some "B", ["I"], [⟨35, "f", [⟨0⟩], .boolean, some body, ⟨35, 36⟩⟩,
    ⟨36, "g", [], .void, none, .nowhere⟩], ⟨34, 40⟩⟩]
  symbols := symbols

end Sample

/-- A program with an expression and a statement of each form, and the library
the program runs with. -/
theorem Program.written_reads_back_sample :
    let lib := JsonLibrary.standard
    lib.Lawful ∧ (Wire.ofProgram Sample.program).depth < 128 ∧ Sample.program.Fits
      ∧ (∀ v ∈ Sample.program.literals, v.IsFinite ∧ lib.Keeps v)
      ∧ lib.program? (lib.compact (Wire.ofProgram Sample.program) ++ "\n") = .ok Sample.program
      ∧ lib.program? (lib.pretty (Wire.ofProgram Sample.program) ++ "\n") = .ok Sample.program := by
  have hdepth : (Wire.ofProgram Sample.program).depth < 128 := by decide +kernel
  have hfits : Sample.program.Fits := by decide +kernel
  have hliterals : ∀ v ∈ Sample.program.literals, v.IsFinite ∧ JsonLibrary.standard.Keeps v := by
    decide +kernel
  have hblank : ∀ c ∈ "\n".toList, Draft.IsBlank c := List.forall_mem_singleton.mpr (.inr (.inl rfl))
  exact ⟨JsonLibrary.standard_lawful, hdepth, hfits, hliterals,
    Program.written_reads_back .standard hdepth hfits (fun v hv => (hliterals v hv).1)
      (fun v hv _ => (hliterals v hv).2) "\n" hblank⟩

end PatternIR
