/-
  PatternIR.Proofs.Printer.Parse
  ──────────────────────────────
  **EXPRESSIONS FROM THEIR TEXT.**

  Behind an operand stands the end of the text, a selector or a word, and the
  word says what the expression is.  One more character, or one more name, says
  what an operand is:

      !…           a negation          name#…    a variable
      (name)…      a cast              name(…    a call
      (name …      a let-expression
      (…           parentheses

  The parser keeps neither names of variables nor types of their declarations: the
  number behind the `#` is all it needs.

    • `Text.isName` — names, without the punctuation of expressions;
    • `Parse.expr` — an expression at the front of a text, and the rest;
    • `Enough` — what holds with any fuel from some amount on.
-/
import PatternIR.Printer
import PatternIR.Proofs.Json.Numerals

namespace PatternIR

/-! ## §1. Names. -/

namespace Text

/-- The characters of names: all but the punctuation of expressions. -/
def isNameChar (c : Char) : Bool := !([' ', '(', ')', ',', ';', '#', '!'].contains c)

/-- Whether a text is a name. -/
def isName (s : String) : Bool := !s.toList.isEmpty && s.toList.all isNameChar

variable {p : Char → Bool} {s : String} {w rest : List Char}

theorem isNameChar_of_isName (h : isName s = true) : ∀ c ∈ s.toList, isNameChar c = true := by
  rw [isName, Bool.and_eq_true, List.all_eq_true] at h
  exact h.2

theorem exists_cons_of_isName (h : isName s = true) : ∃ c cs, s.toList = c :: cs := by
  rw [isName, Bool.and_eq_true, Bool.not_eq_true', List.isEmpty_eq_false_iff] at h
  exact List.exists_cons_of_ne_nil h.1

/-- The characters of a kind at the front of a text, and the rest. -/
def cut (p : Char → Bool) (cs : List Char) : List Char × List Char := (cs.takeWhile p, cs.dropWhile p)

/-- A run of characters ends where another kind of character follows. -/
theorem cut_append (hw : ∀ c ∈ w, p c = true) (hrest : ∀ c ∈ rest.head?, p c = false) :
    cut p (w ++ rest) = (w, rest) := by
  rw [cut, List.takeWhile_append_of_pos hw, List.dropWhile_append_of_pos hw]
  cases rest with
  | nil => simp
  | cons c cs => simp [hrest c rfl]

/-- The digits of a number are read back, up to what is no digit. -/
theorem digits_toDigits (n : Nat) (hrest : ∀ c ∈ rest.head?, c.isDigit = false) :
    digits (Nat.toDigits 10 n ++ rest) = (decimal n, rest) := by
  rw [← written_decimal]
  exact digits_written (areDigits_decimal n).below hrest

end Text

/-! ## §2. Expressions without their attributes. -/

namespace Expr

/-- No attributes. -/
def noInfo : ExprInfo := ⟨NodeId.dummy, .void, .nowhere⟩

mutual
/-- An expression without node ids, static types and positions. -/
def skeleton : Expr → Expr
  | .literal _ v => .literal noInfo v
  | .ident _ sym => .ident noInfo sym
  | .unary _ op e => .unary noInfo op e.skeleton
  | .binary _ op l r => .binary noInfo op l.skeleton r.skeleton
  | .conditional _ c y n => .conditional noInfo c.skeleton y.skeleton n.skeleton
  | .assign _ t v => .assign noInfo t.skeleton v.skeleton
  | .cast _ t e => .cast noInfo t e.skeleton
  | .instanceOf _ e t => .instanceOf noInfo e.skeleton t
  | .typeTest _ e p => .typeTest noInfo e.skeleton p
  | .call _ name args => .call noInfo name (skeletons args)
  | .methodCall _ r m args => .methodCall noInfo r.skeleton m (skeletons args)
  | .letIn _ ds body => .letIn noInfo (skeletonDefs ds) body.skeleton
/-- The skeletons of several expressions. -/
def skeletons : List Expr → List Expr
  | [] => []
  | e :: es => e.skeleton :: skeletons es
/-- The skeletons of the values of definitions. -/
def skeletonDefs : List (VarId × Expr) → List (VarId × Expr)
  | [] => []
  | (var, e) :: ds => (var, e.skeleton) :: skeletonDefs ds
end

end Expr

/-! ## §3. The parser. -/

namespace Parse

open Text (cut isNameChar digits ofDigits)
open PatternIR.Expr (noInfo)

/-- The word between an operand and what belongs to it. -/
inductive Joint where
  | op (op : BinOp)
  | test
  | choice
  | assign

namespace Joint

/-- How it is written. -/
def word : Joint → String
  | op o => o.symbol
  | test => "instanceof"
  | choice => "?"
  | assign => "="

/-- Every joint there is; no two are written alike. -/
def all : List Joint :=
  [test, choice, assign, op .and, op .or, op .eq, op .ne, op .lt, op .gt, op .le, op .ge, op .add,
    op .sub, op .mul, op .div, op .rem]

/-- What a word joins, if it joins anything. -/
def ofWord? (cs : List Char) : Option Joint := all.find? fun j => j.word.toList == cs

/-- What joins two operands is known by its word. -/
theorem ofWord?_word (j : Joint) : ofWord? j.word.toList = some j := by
  cases j with
  | op o => cases o <;> rfl
  | _ => rfl

theorem word_spaceless (j : Joint) : ∀ c ∈ j.word.toList, (c != ' ') = true := by
  rw [← List.all_eq_true]
  cases j with
  | op o => cases o <;> decide
  | _ => decide

end Joint

/-- A text without something fixed at its front. -/
def expect : (text cs : List Char) → Option (List Char)
  | [], cs => some cs
  | _ :: _, [] => none
  | t :: ts, c :: cs => if t = c then expect ts cs else none

/-- A text is met in front of what follows it. -/
theorem expect_append : ∀ (text cs : List Char), expect text (text ++ cs) = some cs
  | [], _ => rfl
  | _ :: ts, cs => by
      rw [List.cons_append, expect, if_pos rfl]
      exact expect_append ts cs

/-- A text without the comma at its front. -/
def afterComma : List Char → List Char
  | ',' :: ' ' :: cs => cs
  | cs => cs

/-- Where the next definition or the body of a let-expression starts: behind the
word `in`, or else at the number of the variable that is declared.  Of a
declaration with the type `in` this is the name, in front of that number. -/
def definition : List Char → List Char
  | 'i' :: 'n' :: ' ' :: cs => cs
  | cs => cs.dropWhile (· != '#')

mutual
/-- An expression at the front of a text, and the rest. -/
def expr : (fuel : Nat) → List Char → Option (Expr × List Char)
  | 0, _ => none
  | fuel + 1, cs => (operand fuel cs).bind fun
    | (first, ' ' :: cs) =>
      match cut (· != ' ') cs with
      | (word, ' ' :: cs) => (Joint.ofWord? word).bind fun joint => behind fuel joint first cs
      | _ => none
    | (e, cs) => some (e, cs)
/-- The rest of an expression behind its first operand and a joint. -/
def behind : (fuel : Nat) → Joint → Expr → List Char → Option (Expr × List Char)
  | 0, _, _, _ => none
  | fuel + 1, .op op, first, cs =>
    (operand fuel cs).map fun (second, cs) => (.binary noInfo op first second, cs)
  | _ + 1, .test, first, cs =>
    let (name, cs) := cut isNameChar cs
    some (.instanceOf noInfo first (.simple (String.ofList name)), cs)
  | fuel + 1, .choice, first, cs =>
    (operand fuel cs).bind fun (yes, cs) => (expect [' ', ':', ' '] cs).bind fun cs =>
      (operand fuel cs).map fun (no, cs) => (.conditional noInfo first yes no, cs)
  | fuel + 1, .assign, first, cs =>
    (expr fuel cs).map fun (value, cs) => (.assign noInfo first value, cs)
/-- An operand. -/
def operand : (fuel : Nat) → List Char → Option (Expr × List Char)
  | 0, _ => none
  | fuel + 1, cs =>
    match cut isNameChar cs with
    | ([], '!' :: cs) => (operand fuel cs).map fun (e, cs) => (.unary noInfo .not e, cs)
    | ([], '(' :: cs) => paren fuel cs
    | (_, '#' :: cs) =>
      let (ds, cs) := digits cs
      selectors fuel (.ident noInfo (.var ⟨ofDigits ds⟩)) cs
    | (name, '(' :: cs) =>
      (args fuel cs).bind fun (es, cs) => selectors fuel (.call noInfo (String.ofList name) es) cs
    | _ => none
/-- An operand behind the parenthesis it begins with. -/
def paren : (fuel : Nat) → List Char → Option (Expr × List Char)
  | 0, _ => none
  | fuel + 1, cs =>
    match cut isNameChar cs with
    | (name, ')' :: cs) =>
      (operand fuel cs).map fun (e, cs) => (.cast noInfo (.simple (String.ofList name)) e, cs)
    | (_, ' ' :: cs) =>
      (defs fuel cs).bind fun (ds, body, cs) => selectors fuel (.letIn noInfo ds body) cs
    | _ => (expr fuel cs).bind fun (e, cs) => (expect [')'] cs).bind fun cs => selectors fuel e cs
/-- The method calls behind their receiver. -/
def selectors : (fuel : Nat) → Expr → List Char → Option (Expr × List Char)
  | 0, _, _ => none
  | fuel + 1, e, '.' :: cs =>
    let (name, cs) := cut isNameChar cs
    (expect ['('] cs).bind fun cs => (args fuel cs).bind fun (es, cs) =>
      selectors fuel (.methodCall noInfo e (String.ofList name) es) cs
  | _ + 1, e, cs => some (e, cs)
/-- Arguments and the parenthesis behind them. -/
def args : (fuel : Nat) → List Char → Option (List Expr × List Char)
  | 0, _ => none
  | _ + 1, ')' :: cs => some ([], cs)
  | fuel + 1, cs => (expr fuel cs).bind fun (e, cs) =>
    (args fuel (afterComma cs)).map fun (es, cs) => (e :: es, cs)
/-- The definitions of a let-expression, its body and the parenthesis behind that. -/
def defs : (fuel : Nat) → List Char → Option (List (VarId × Expr) × Expr × List Char)
  | 0, _ => none
  | fuel + 1, cs => (expr fuel (definition cs)).bind fun
    | (body, ')' :: cs) => some ([], body, cs)
    | (.assign _ (.ident _ (.var x)) value, ';' :: ' ' :: cs) =>
      (defs fuel cs).map fun (ds, body, cs) => ((x, value) :: ds, body, cs)
    | _ => none
end

/-! ## §4. Fuel. -/

/-- What holds with any fuel from some amount on. -/
def Enough (P : Nat → Prop) : Prop := ∃ n, ∀ fuel, n ≤ fuel → P fuel

namespace Enough

variable {P Q : Nat → Prop}

/-- What needs some fuel and what needs some other are met by enough for both. -/
theorem and (hp : Enough P) (hq : Enough Q) : Enough fun fuel => P fuel ∧ Q fuel := by
  obtain ⟨n, hn⟩ := hp
  obtain ⟨k, hk⟩ := hq
  exact ⟨max n k, fun fuel h => ⟨hn fuel (by omega), hk fuel (by omega)⟩⟩

/-- One more unit for one more step. -/
theorem step (h : Enough P) (hstep : ∀ fuel, P fuel → Q (fuel + 1)) : Enough Q := by
  obtain ⟨n, hn⟩ := h
  refine ⟨n + 1, fun fuel hfuel => ?_⟩
  cases fuel with
  | zero => omega
  | succ fuel => exact hstep fuel (hn fuel (by omega))

/-- What holds with one step more holds with enough. -/
theorem of_succ (h : ∀ fuel, Q (fuel + 1)) : Enough Q :=
  step (P := fun _ => True) ⟨0, fun _ _ => trivial⟩ fun fuel _ => h fuel

end Enough

end Parse

end PatternIR
