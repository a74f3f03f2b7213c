/-
  PatternIR.Proofs.Printer.Reading
  ────────────────────────────────
  **PRINTED EXPRESSIONS ARE READ AS THEMSELVES.**

  If the numbers of variables are printed and all names are names, a plain
  expression is what the parser makes of its text.  Negations and casts are printed
  without parentheses, also as receivers, where a method call behind them is read
  as a part of their operand; so no receiver may be one.

    • `Expr.isPlain` — the expressions in question;
    • `Expr.isBare` — no receiver is a negation or a cast;
    • `Readable` — the parser takes the text of an expression, whatever may stand
      behind it;
    • `readable` — plain, bare expressions are readable.
-/
import PatternIR.Proofs.Printer.Parse

namespace PatternIR

open Text (isName isNameChar)

/-! ## §1. Plain expressions. -/

mutual
/-- Whether all classes in a type have names. -/
def Ty.isNamed : Ty → Bool
  | .named name args => isName name && Ty.areNamed args
  | .array elem => elem.isNamed
  | .prim _ | .null | .void => true
/-- The same of type arguments. -/
def Ty.areNamed : List Ty → Bool
  | [] => true
  | t :: ts => t.isNamed && Ty.areNamed ts
end

/-- Whether a type is a class without arguments, under a name. -/
def Ty.isClass : Ty → Bool
  | .named name [] => isName name
  | _ => false

theorem Ty.exists_of_isClass {t : Ty} (h : t.isClass = true) : ∃ name, isName name = true ∧ t = .simple name := by
  unfold Ty.isClass at h
  split at h
  · exact ⟨_, h, rfl⟩
  · exact Bool.noConfusion h

namespace Expr

/-- Whether an expression is a variable. -/
def isVar : Expr → Bool
  | .ident _ (.var _) => true
  | _ => false

theorem exists_of_isVar {e : Expr} (h : e.isVar = true) : ∃ i x, e = .ident i (.var x) := by
  unfold isVar at h
  split at h
  · exact ⟨_, _, rfl⟩
  · exact Bool.noConfusion h

mutual
/-- Variables, negations, casts to classes and tests of them, binary operators,
conditionals, assignments to variables, calls and let-expressions. -/
def isPlain : Expr → Bool
  | .literal _ _ | .typeTest _ _ _ => false
  | .ident i sym => (Expr.ident i sym).isVar
  | .unary _ op e => op = .not && e.isPlain
  | .binary _ _ l r => l.isPlain && r.isPlain
  | .conditional _ c y n => c.isPlain && y.isPlain && n.isPlain
  | .assign _ t v => t.isVar && v.isPlain
  | .cast _ t e | .instanceOf _ e t => t.isClass && e.isPlain
  | .call _ name args => isName name && arePlain args
  | .methodCall _ r m args => r.isPlain && isName m && arePlain args
  | .letIn _ ds body => definePlain ds && body.isPlain
/-- The same of several expressions. -/
def arePlain : List Expr → Bool
  | [] => true
  | e :: es => e.isPlain && arePlain es
/-- The same of the values of definitions. -/
def definePlain : List (VarId × Expr) → Bool
  | [] => true
  | (_, e) :: ds => e.isPlain && definePlain ds
end

/-- Whether an operator stands in front of its operand. -/
def isPrefixed : Expr → Bool
  | .unary _ _ _ | .cast _ _ _ => true
  | _ => false

mutual
/-- Whether no receiver is a negation or a cast. -/
def isBare : Expr → Bool
  | .literal _ _ | .ident _ _ => true
  | .unary _ _ e | .cast _ _ e | .instanceOf _ e _ | .typeTest _ e _ => e.isBare
  | .binary _ _ l r => l.isBare && r.isBare
  | .conditional _ c y n => c.isBare && y.isBare && n.isBare
  | .assign _ t v => t.isBare && v.isBare
  | .call _ _ args => areBare args
  | .methodCall _ r _ args => !r.isPrefixed && r.isBare && areBare args
  | .letIn _ ds body => defineBare ds && body.isBare
/-- The same of several expressions. -/
def areBare : List Expr → Bool
  | [] => true
  | e :: es => e.isBare && areBare es
/-- The same of the values of definitions. -/
def defineBare : List (VarId × Expr) → Bool
  | [] => true
  | (_, e) :: ds => e.isBare && defineBare ds
end

end Expr

/-! ## §2. Texts. -/

namespace Printer

open Text (cut)

/-- Numbers of variables are printed, and all names are names. -/
structure Context.Spelled (cx : Context) : Prop where
  numbered : cx.options.showVarIds = true
  vars : ∀ v ∈ cx.symbols.vars, isName v.name = true ∧ v.ty.isNamed = true

/-- Whether the first space of a text, if there is one, stands behind a comma. -/
def tidy : List Char → Bool
  | [] => true
  | c :: cs => c != ' ' && (c == ',' || tidy cs)

theorem tidy_append : ∀ {s t : List Char}, tidy s = true → tidy t = true → tidy (s ++ t) = true
  | [], _, _, ht => ht
  | c :: cs, t, hs, ht => by
      rw [tidy, Bool.and_eq_true, Bool.or_eq_true] at hs
      rw [List.cons_append, tidy, Bool.and_eq_true, Bool.or_eq_true]
      exact ⟨hs.1, hs.2.imp_right fun h => tidy_append h ht⟩

/-- What texts of types are like: no space in front of the first comma, and no
number signs at all. -/
structure TypeText (cs : List Char) : Prop where
  spaced : tidy cs = true
  unnumbered : cs.all (· != '#') = true

namespace TypeText

variable {s t : List Char}

theorem append (hs : TypeText s) (ht : TypeText t) : TypeText (s ++ t) where
  spaced := tidy_append hs.spaced ht.spaced
  unnumbered := by rw [List.all_append, hs.unnumbered, ht.unnumbered, Bool.and_true]

theorem of_name : ∀ {cs : List Char}, (∀ c ∈ cs, isNameChar c = true) → TypeText cs
  | [], _ => ⟨rfl, rfl⟩
  | c :: cs, h => by
      have hrest := of_name fun d hd => h d (List.mem_cons_of_mem _ hd)
      have hc := h c List.mem_cons_self
      have hspace : (c != ' ') = true := bne_iff_ne.mpr fun heq => absurd (heq ▸ hc) (by decide)
      have hnumber : (c != '#') = true := bne_iff_ne.mpr fun heq => absurd (heq ▸ hc) (by decide)
      refine ⟨?_, ?_⟩
      · rw [tidy, hspace, hrest.spaced, Bool.or_true, Bool.and_true]
      · rw [List.all_cons, hnumber, hrest.unnumbered, Bool.and_true]

end TypeText

mutual
theorem typeText : ∀ {t : Ty}, t.isNamed = true → TypeText t.text.toList
  | .prim kind, _ => by cases kind <;> exact ⟨by decide, by decide⟩
  | .named name [], h => by
      rw [Ty.isNamed, Bool.and_eq_true] at h
      exact .of_name (Text.isNameChar_of_isName h.1)
  | .named name (arg :: args), h => by
      rw [Ty.isNamed, Ty.areNamed, Bool.and_eq_true, Bool.and_eq_true] at h
      rw [Ty.text]
      simp only [String.toList_append]
      have hopen : TypeText "<".toList := ⟨by decide, by decide⟩
      have hclose : TypeText ">".toList := ⟨by decide, by decide⟩
      exact (((TypeText.of_name (Text.isNameChar_of_isName h.1)).append hopen).append
        (typeText h.2.1)).append (typeTexts h.2.2) |>.append hclose
  | .array elem, h => by
      rw [Ty.isNamed] at h
      rw [Ty.text, String.toList_append]
      exact (typeText h).append ⟨by decide, by decide⟩
  | .null, _ => ⟨by decide, by decide⟩
  | .void, _ => ⟨by decide, by decide⟩
theorem typeTexts : ∀ {ts : List Ty}, Ty.areNamed ts = true → TypeText (Ty.textMore ts).toList
  | [], _ => ⟨by decide, by decide⟩
  | t :: ts, h => by
      rw [Ty.areNamed, Bool.and_eq_true] at h
      rw [Ty.textMore, String.toList_append, String.toList_append]
      have hcomma : TypeText ", ".toList := ⟨by decide, by decide⟩
      exact (hcomma.append (typeText h.1)).append (typeTexts h.2)
end

/-! ## §3. The texts of expressions, as characters. -/

open Parse (Joint Enough expect afterComma definition)
open PatternIR.Expr (noInfo)

section Texts

variable (cx : Context)

/-- The text of an expression, character by character. -/
def chars (e : Expr) : List Char := (expr cx e).toList

/-- The text of an expression where an operand stands. -/
def operandChars (e : Expr) : List Char := (operand e (expr cx e)).toList

/-- The text between the parentheses of a call. -/
def argChars (es : List Expr) : List Char := (commas (exprs cx es)).toList

/-- The text of the definitions of a let-expression. -/
def defChars (ds : List (VarId × Expr)) : List Char := (letDefs cx ds).toList

/-- The number behind the name of a variable. -/
def numberChars (x : VarId) : List Char := '#' :: Nat.toDigits 10 x.index

/-- An operand with what a word joins to it. -/
def joined (first : List Char) (joint : Joint) (rest : List Char) : List Char :=
  first ++ ' ' :: (joint.word.toList ++ ' ' :: rest)

theorem joined_append (first more rest : List Char) (joint : Joint) :
    joined first joint more ++ rest = joined first joint (more ++ rest) := by
  simp [joined]

variable {cx} {i : ExprInfo} {e l r c y n v : Expr} {es : List Expr}

attribute [local simp] expr exprs letDefs chars operandChars argChars defChars joined Joint.word

theorem operandChars_of_compound (h : isCompound e = true) :
    operandChars cx e = '(' :: (chars cx e ++ [')']) := by
  simp [operand, h]

theorem operandChars_of_not_compound (h : isCompound e = false) : operandChars cx e = chars cx e := by
  simp [operand, h]

theorem chars_not : chars cx (.unary i .not e) = '!' :: operandChars cx e := by
  simp [unarySymbol]

theorem chars_cast {name : String} :
    chars cx (.cast i (.simple name) e) = '(' :: (name.toList ++ ')' :: operandChars cx e) := by
  simp [Ty.simple, Ty.text]

theorem chars_binary {op : BinOp} :
    chars cx (.binary i op l r) = joined (operandChars cx l) (.op op) (operandChars cx r) := by
  simp

theorem chars_conditional : chars cx (.conditional i c y n)
    = joined (operandChars cx c) .choice (operandChars cx y ++ ([' ', ':', ' '] ++ operandChars cx n)) := by
  simp

theorem chars_instanceOf {name : String} : chars cx (.instanceOf i e (.simple name))
    = joined (operandChars cx e) .test name.toList := by
  simp [Ty.simple, Ty.text]

theorem chars_assign {t : Expr} :
    chars cx (.assign i t v) = joined (chars cx t) .assign (chars cx v) := by
  simp

theorem chars_call {name : String} :
    chars cx (.call i name es) = name.toList ++ '(' :: (argChars cx es ++ [')']) := by
  simp

theorem chars_methodCall {m : String} : chars cx (.methodCall i e m es)
    = operandChars cx e ++ '.' :: (m.toList ++ '(' :: (argChars cx es ++ [')'])) := by
  simp

theorem chars_letIn {ds : List (VarId × Expr)} : chars cx (.letIn i ds e)
    = '(' :: ("let".toList ++ ' ' :: (defChars cx ds ++ ('i' :: 'n' :: ' ' :: (chars cx e ++ [')'])))) := by
  simp

/-- The separator belongs to the argument behind it. -/
theorem afterComma_argChars (cx : Context) (e : Expr) (es : List Expr) (rest : List Char) :
    ∃ more, argChars cx (e :: es) = chars cx e ++ more
      ∧ afterComma (more ++ ')' :: rest) = argChars cx es ++ ')' :: rest
      ∧ ∀ d ∈ (more ++ ')' :: rest).head?, d = ',' ∨ d = ')' := by
  cases es with
  | nil => exact ⟨[], by simp [commas, joinWith], rfl, by simp⟩
  | cons e' es =>
      exact ⟨',' :: ' ' :: argChars cx (e' :: es), by simp [commas, joinWith], rfl,
        by simp⟩

/-- The name of a variable, and its number. -/
theorem chars_var (hcx : cx.Spelled) (x : VarId) :
    ∃ name, (∀ d ∈ name, isNameChar d = true) ∧ (symName cx (.var x)).toList = name ++ numberChars x := by
  refine ⟨((cx.symbols.nameOf? (.var x)).getD "<unknown>").toList, ?_, ?_⟩
  · rw [Symbols.nameOf?, Symbols.var?]
    cases hv : cx.symbols.vars[x.index]? with
    | none => exact List.all_eq_true.mp (by decide)
    | some v => exact Text.isNameChar_of_isName (hcx.vars v (Array.mem_of_getElem? hv)).1
  · simp [symName, hcx.numbered, numberChars, Nat.repr_eq_ofList_toDigits]

/-- A declaration begins with a type. -/
theorem varDecl_chars (hcx : cx.Spelled) (x : VarId) :
    ∃ ty, TypeText ty ∧ (varDecl cx x).toList = ty ++ ' ' :: (symName cx (.var x)).toList := by
  refine ⟨(((cx.symbols.var? x).map (·.ty.text)).getD "var").toList, ?_, ?_⟩
  · rw [Symbols.var?]
    cases hv : cx.symbols.vars[x.index]? with
    | none => exact ⟨by decide, by decide⟩
    | some v => exact typeText (hcx.vars v (Array.mem_of_getElem? hv)).2
  · simp [varDecl]

end Texts

/-! ## §4. What stands behind an expression. -/

/-- A text that is empty or begins with one of some characters. -/
def Before (delimiters rest : List Char) : Prop := ∀ c ∈ rest.head?, c ∈ delimiters

/-- What ends an expression. -/
def ends : List Char := [')', ',', ';']

/-- What ends an operand. -/
def breaks : List Char := ' ' :: ends

/-- What ends an operand, or selects a method of it. -/
def follows : List Char := '.' :: breaks

namespace Before

variable {rest cs ds : List Char}

/-- More characters may end it. -/
theorem mono (h : Before cs rest) (hsub : cs ⊆ ds) : Before ds rest := fun c hc => hsub (h c hc)

theorem nil : Before cs [] := fun _ hc => nomatch hc

theorem cons {c : Char} (h : c ∈ cs) : Before cs (c :: rest) := fun d hd => by
  obtain rfl : c = d := Option.some.inj hd
  exact h

/-- What holds of all the characters holds of the first one. -/
theorem all {p : Char → Bool} (h : Before cs rest) (hp : cs.all p = true) : ∀ c ∈ rest.head?, p c = true :=
  fun c hc => List.all_eq_true.mp hp c (h c hc)

theorem not_nameChar (h : Before ends rest) : ∀ c ∈ rest.head?, isNameChar c = false := fun c hc =>
  Bool.not_eq_eq_eq_not.mp (h.all (p := fun c => !isNameChar c) (by decide) c hc)

theorem not_digit (h : Before follows rest) : ∀ c ∈ rest.head?, c.isDigit = false := fun c hc =>
  Bool.not_eq_eq_eq_not.mp (h.all (p := fun c => !c.isDigit) (by decide) c hc)

end Before

/-- A text whose first character outside a name is one that parentheses and
arguments begin with, or a number. -/
def Opens (cs : List Char) : Prop :=
  ∃ name c more, cs = name ++ c :: more ∧ (∀ d ∈ name, isNameChar d = true) ∧ c ∈ ['!', '(', '#']

theorem Opens.append {cs : List Char} (h : Opens cs) (rest : List Char) : Opens (cs ++ rest) := by
  obtain ⟨name, c, more, rfl, hname, hc⟩ := h
  exact ⟨name, c, more ++ rest, by simp, hname, hc⟩

theorem Opens.cons {c : Char} (h : c ∈ ['!', '(', '#']) (cs : List Char) : Opens (c :: cs) :=
  ⟨[], c, cs, rfl, by simp, h⟩

theorem Opens.not_closed {cs : List Char} (h : Opens cs) : ∀ more, cs ≠ ')' :: more := by
  rintro more rfl
  obtain ⟨name, c, rest, hcs, hname, hc⟩ := h
  cases name with
  | nil =>
      obtain ⟨rfl, -⟩ := List.cons.inj hcs
      exact absurd hc (by decide)
  | cons d ds =>
      obtain ⟨rfl, -⟩ := List.cons.inj hcs
      exact absurd (hname _ List.mem_cons_self) (by decide)

/-! ## §5. Steps of the parser. -/

section Steps

variable {fuel : Nat} {cs rest name : List Char} {e first : Expr} {joint : Joint}

attribute [local simp] Parse.expr Parse.operand Parse.paren Parse.selectors Parse.args

theorem cut_name (hname : ∀ d ∈ name, isNameChar d = true) {c : Char} (hc : isNameChar c = false) :
    cut isNameChar (name ++ c :: rest) = (name, c :: rest) :=
  Text.cut_append hname fun d hd => by
    obtain rfl : c = d := Option.some.inj hd
    exact hc

theorem cut_nameless {c : Char} (hc : isNameChar c = false) : cut isNameChar (c :: rest) = ([], c :: rest) := by
  show cut isNameChar ([] ++ c :: rest) = _
  exact cut_name (by simp) hc

/-- An operand is an expression where nothing joins it to another. -/
theorem expr_of_ends (h : Parse.operand fuel cs = some (e, rest)) (hrest : Before ends rest) :
    Parse.expr (fuel + 1) cs = some (e, rest) := by
  cases rest with
  | nil => simp [h]
  | cons c rest =>
      have hc := hrest c rfl
      simp only [ends, List.mem_cons, List.not_mem_nil, or_false] at hc
      rcases hc with rfl | rfl | rfl <;> simp [h]

/-- Behind a joint the expression goes on. -/
theorem expr_of_joined (h : Parse.operand fuel cs = some (first, joined [] joint rest)) :
    Parse.expr (fuel + 1) cs = Parse.behind fuel joint first rest := by
  have hword : cut (· != ' ') (joint.word.toList ++ ' ' :: rest) = (joint.word.toList, ' ' :: rest) :=
    Text.cut_append joint.word_spaceless (by simp)
  simp [h, joined, hword, Joint.ofWord?_word]

theorem operand_not : Parse.operand (fuel + 1) ('!' :: cs)
    = (Parse.operand fuel cs).map fun (e, cs) => (.unary noInfo .not e, cs) := by
  simp [cut_nameless (by decide : isNameChar '!' = false)]

theorem operand_paren : Parse.operand (fuel + 1) ('(' :: cs) = Parse.paren fuel cs := by
  simp [cut_nameless (by decide : isNameChar '(' = false)]

theorem paren_cast {name : String} (hname : isName name = true) :
    Parse.paren (fuel + 1) (name.toList ++ ')' :: cs)
      = (Parse.operand fuel cs).map fun (e, cs) => (.cast noInfo (.simple name) e, cs) := by
  simp [cut_name (Text.isNameChar_of_isName hname) (by decide : isNameChar ')' = false)]

theorem paren_letIn (hname : ∀ d ∈ name, isNameChar d = true) :
    Parse.paren (fuel + 1) (name ++ ' ' :: cs) = (Parse.defs fuel cs).bind
      fun (ds, body, cs) => Parse.selectors fuel (.letIn noInfo ds body) cs := by
  simp [cut_name hname (by decide : isNameChar ' ' = false)]

/-- A parenthesis with an expression in it. -/
theorem paren_group (h : Opens cs) : Parse.paren (fuel + 1) cs = (Parse.expr fuel cs).bind
    fun (e, cs) => (expect [')'] cs).bind fun cs => Parse.selectors fuel e cs := by
  obtain ⟨name, c, more, rfl, hname, hc⟩ := h
  simp only [List.mem_cons, List.not_mem_nil, or_false] at hc
  rcases hc with rfl | rfl | rfl
  · simp [cut_name hname (by decide : isNameChar '!' = false)]
  · simp [cut_name hname (by decide : isNameChar '(' = false)]
  · simp [cut_name hname (by decide : isNameChar '#' = false)]

theorem operand_var (hname : ∀ d ∈ name, isNameChar d = true) (x : VarId) (hrest : Before follows rest) :
    Parse.operand (fuel + 1) (name ++ (numberChars x ++ rest))
      = Parse.selectors fuel (.ident noInfo (.var x)) rest := by
  simp [numberChars, cut_name hname (by decide : isNameChar '#' = false),
    Text.digits_toDigits x.index hrest.not_digit, Text.ofDigits_decimal]

theorem operand_call {name : String} (hname : isName name = true) :
    Parse.operand (fuel + 1) (name.toList ++ '(' :: cs) = (Parse.args fuel cs).bind
      fun (es, cs) => Parse.selectors fuel (.call noInfo name es) cs := by
  obtain ⟨d, ds, hd⟩ := Text.exists_cons_of_isName hname
  have hback : String.ofList (d :: ds) = name := by rw [← hd, String.ofList_toList]
  have hcut : cut isNameChar (name.toList ++ '(' :: cs) = (name.toList, '(' :: cs) :=
    cut_name (Text.isNameChar_of_isName hname) (by decide)
  rw [hd, List.cons_append] at hcut ⊢
  simp [hcut, hback]

/-- No selector is read from a text that goes on with none. -/
theorem selectors_of_breaks (hrest : Before breaks rest) :
    Parse.selectors (fuel + 1) e rest = some (e, rest) := by
  cases rest with
  | nil => rfl
  | cons c rest =>
      have hc := hrest c rfl
      simp only [breaks, ends, List.mem_cons, List.not_mem_nil, or_false] at hc
      rcases hc with rfl | rfl | rfl | rfl <;> rfl

theorem selectors_method {m : String} (hm : isName m = true) :
    Parse.selectors (fuel + 1) e ('.' :: (m.toList ++ '(' :: cs)) = (Parse.args fuel cs).bind
      fun (es, cs) => Parse.selectors fuel (.methodCall noInfo e m es) cs := by
  simp [cut_name (Text.isNameChar_of_isName hm) (by decide : isNameChar '(' = false), expect]

theorem args_cons (h : Opens cs) : Parse.args (fuel + 1) cs = (Parse.expr fuel cs).bind fun (e, cs) =>
    (Parse.args fuel (afterComma cs)).map fun (es, cs) => (e :: es, cs) := by
  rw [Parse.args]
  exact h.not_closed

/-- Types never look like the word in front of the body, with one exception. -/
theorem definition_of_type {ty : List Char} (hty : TypeText ty) (hin : ty ≠ ['i', 'n']) :
    definition (ty ++ ' ' :: cs) = (ty ++ ' ' :: cs).dropWhile (· != '#') := by
  unfold definition
  split
  · rename_i more heq
    have hspaced := hty.spaced
    -- with more than these two letters the type would have a space behind them
    match ty with
    | [] => simp at heq
    | [_] => simp at heq
    | [_, _] =>
        simp only [List.cons_append, List.cons.injEq] at heq
        exact absurd (by rw [heq.1, heq.2.1]) hin
    | _ :: _ :: _ :: _ =>
        simp only [List.cons_append, List.cons.injEq] at heq
        obtain ⟨rfl, rfl, rfl, -⟩ := heq
        exact absurd hspaced (by simp [tidy])
  · rfl

end Steps

/-! ## §6. Readable expressions. -/

/-- The parser takes the text of an expression for this expression: as a whole, as
an operand, and as a receiver, with the method calls that follow. -/
structure Readable (cx : Context) (e : Expr) : Prop where
  opens : Opens (chars cx e)
  whole : ∀ rest, Before ends rest →
    Enough fun fuel => Parse.expr fuel (chars cx e ++ rest) = some (e.skeleton, rest)
  operand : ∀ rest, Before breaks rest →
    Enough fun fuel => Parse.operand fuel (operandChars cx e ++ rest) = some (e.skeleton, rest)
  /-- Calls are read from left to right, so that reading goes on behind the receiver. -/
  receiver : e.isPrefixed = false → ∀ {rest res}, Before follows rest →
    Enough (fun fuel => Parse.selectors fuel e.skeleton rest = some res) →
    Enough fun fuel => Parse.operand fuel (operandChars cx e ++ rest) = some res

/-- The parser takes arguments, with the parenthesis behind them. -/
def ReadableArgs (cx : Context) (es : List Expr) : Prop := ∀ rest, Enough fun fuel =>
  Parse.args fuel (argChars cx es ++ ')' :: rest) = some (Expr.skeletons es, rest)

/-- The parser takes definitions, with the body and the parenthesis behind that. -/
def ReadableDefs (cx : Context) (ds : List (VarId × Expr)) (body : Expr) : Prop := ∀ rest, Enough fun fuel =>
  Parse.defs fuel (defChars cx ds ++ 'i' :: 'n' :: ' ' :: (chars cx body ++ ')' :: rest))
    = some (Expr.skeletonDefs ds, body.skeleton, rest)

namespace Readable

variable {cx : Context} {i : ExprInfo} {e l r c y n v body : Expr} {es : List Expr} {ds : List (VarId × Expr)}
  {rest : List Char} {joint : Joint}

/-- An operand without parentheses is readable wherever it may stand. -/
theorem of_operand (hc : isCompound e = false) (opens : Opens (chars cx e))
    (operand : ∀ rest, Before breaks rest →
      Enough fun fuel => Parse.operand fuel (chars cx e ++ rest) = some (e.skeleton, rest))
    (receiver : e.isPrefixed = false → ∀ {rest res}, Before follows rest →
      Enough (fun fuel => Parse.selectors fuel e.skeleton rest = some res) →
      Enough fun fuel => Parse.operand fuel (chars cx e ++ rest) = some res) : Readable cx e where
  opens := opens
  whole _ hrest := (operand _ (hrest.mono (by decide))).step fun _ h => expr_of_ends h hrest
  operand rest hrest := by
    rw [operandChars_of_not_compound hc]
    exact operand rest hrest
  receiver hprefixed _ _ hrest h := by
    rw [operandChars_of_not_compound hc]
    exact receiver hprefixed hrest h

/-- An operand without parentheses that can be a receiver. -/
theorem of_receiver (hc : isCompound e = false) (opens : Opens (chars cx e))
    (receiver : ∀ {rest res}, Before follows rest →
      Enough (fun fuel => Parse.selectors fuel e.skeleton rest = some res) →
      Enough fun fuel => Parse.operand fuel (chars cx e ++ rest) = some res) : Readable cx e :=
  of_operand hc opens
    (fun _ hrest => receiver (hrest.mono (by decide)) (.of_succ fun _ => selectors_of_breaks hrest))
    fun _ => receiver

/-- An operand in parentheses. -/
theorem of_compound (hc : isCompound e = true) (opens : Opens (chars cx e))
    (whole : ∀ rest, Before ends rest →
      Enough fun fuel => Parse.expr fuel (chars cx e ++ rest) = some (e.skeleton, rest)) : Readable cx e := by
  have hreceiver : ∀ {rest res}, Before follows rest →
      Enough (fun fuel => Parse.selectors fuel e.skeleton rest = some res) →
      Enough fun fuel => Parse.operand fuel (operandChars cx e ++ rest) = some res := by
    intro rest res _ hsel
    have hboth := (whole (')' :: rest) (.cons (by decide))).and hsel
    have hparen : Enough fun fuel => Parse.paren fuel (chars cx e ++ ')' :: rest) = some res :=
      hboth.step fun fuel ⟨he, hs⟩ => by
        rw [paren_group (opens.append _), he]
        exact hs
    refine hparen.step fun fuel h => ?_
    rw [operandChars_of_compound hc, List.cons_append, operand_paren, List.append_assoc]
    exact h
  exact ⟨opens, whole,
    fun _ hrest => hreceiver (hrest.mono (by decide)) (.of_succ fun _ => selectors_of_breaks hrest),
    fun _ => hreceiver⟩

theorem operand_opens (h : Readable cx e) : Opens (operandChars cx e) := by
  cases hc : isCompound e with
  | true =>
      rw [operandChars_of_compound hc]
      exact .cons (by decide) _
  | false =>
      rw [operandChars_of_not_compound hc]
      exact h.opens

/-! ### Operands. -/

theorem var (hcx : cx.Spelled) (x : VarId) : Readable cx (.ident i (.var x)) := by
  obtain ⟨name, hname, hchars⟩ := chars_var hcx x
  have htext : chars cx (.ident i (.var x)) = name ++ numberChars x := hchars
  refine of_receiver rfl ⟨name, '#', Nat.toDigits 10 x.index, htext, hname, by decide⟩ fun hrest hsel => ?_
  refine hsel.step fun fuel h => ?_
  rw [htext, List.append_assoc, operand_var hname x hrest]
  exact h

theorem not (he : Readable cx e) : Readable cx (.unary i .not e) := by
  refine of_operand rfl (by rw [chars_not]; exact .cons (by decide) _) (fun rest hrest => ?_) nofun
  refine (he.operand rest hrest).step fun fuel h => ?_
  rw [chars_not, List.cons_append, operand_not, h]
  rfl

theorem cast {name : String} (hname : isName name = true) (he : Readable cx e) :
    Readable cx (.cast i (.simple name) e) := by
  refine of_operand rfl (by rw [chars_cast]; exact .cons (by decide) _) (fun rest hrest => ?_) nofun
  have hparen : Enough fun fuel => Parse.paren fuel (name.toList ++ ')' :: (operandChars cx e ++ rest))
      = some (.cast noInfo (.simple name) e.skeleton, rest) :=
    (he.operand rest hrest).step fun fuel h => by
      rw [paren_cast hname, h]
      rfl
  refine hparen.step fun fuel h => ?_
  rw [chars_cast, List.cons_append, operand_paren, List.append_assoc]
  exact h

/-! ### Operands that a word joins. -/

/-- An operand in front of a joint is read, then what is behind it. -/
theorem joins (h : Readable cx e) {res : Expr × List Char}
    (hbehind : Enough fun fuel => Parse.behind fuel joint e.skeleton rest = some res) :
    Enough fun fuel => Parse.expr fuel (joined (operandChars cx e) joint rest) = some res := by
  have hoperand := h.operand (joined [] joint rest) (.cons (by decide))
  refine (hoperand.and hbehind).step fun fuel ⟨ho, hb⟩ => ?_
  rw [← hb]
  exact expr_of_joined ho

theorem binary {op : BinOp} (hl : Readable cx l) (hr : Readable cx r) : Readable cx (.binary i op l r) := by
  refine of_compound rfl (by rw [chars_binary]; exact hl.operand_opens.append _) fun rest hrest => ?_
  rw [chars_binary, joined_append]
  refine hl.joins ((hr.operand rest (hrest.mono (by decide))).step fun fuel h => ?_)
  rw [Parse.behind, h]
  rfl

theorem conditional (hc : Readable cx c) (hy : Readable cx y) (hn : Readable cx n) :
    Readable cx (.conditional i c y n) := by
  refine of_compound rfl (by rw [chars_conditional]; exact hc.operand_opens.append _) fun rest hrest => ?_
  rw [chars_conditional, joined_append, List.append_assoc, List.append_assoc]
  have hyes := hy.operand ([' ', ':', ' '] ++ (operandChars cx n ++ rest)) (.cons (by decide))
  have hno := hn.operand rest (hrest.mono (by decide))
  refine hc.joins ((hyes.and hno).step fun fuel ⟨h, h'⟩ => ?_)
  rw [Parse.behind, h, Option.bind_some]
  simp only [Parse.expect_append, Option.bind_some, h']
  rfl

theorem instanceOf {name : String} (hname : isName name = true) (he : Readable cx e) :
    Readable cx (.instanceOf i e (.simple name)) := by
  refine of_compound rfl (by rw [chars_instanceOf]; exact he.operand_opens.append _) fun rest hrest => ?_
  rw [chars_instanceOf, joined_append]
  have hcut : cut isNameChar (name.toList ++ rest) = (name.toList, rest) :=
    Text.cut_append (Text.isNameChar_of_isName hname) hrest.not_nameChar
  refine he.joins (.of_succ fun fuel => ?_)
  rw [Parse.behind, hcut]
  simp only [String.ofList_toList]
  rfl

theorem assign (hcx : cx.Spelled) (x : VarId) {j : ExprInfo} (hv : Readable cx v) :
    Readable cx (.assign i (.ident j (.var x)) v) := by
  have hx : Readable cx (.ident j (.var x)) := var hcx x
  refine of_compound rfl (by rw [chars_assign]; exact hx.opens.append _) fun rest hrest => ?_
  rw [chars_assign, joined_append]
  refine hx.joins ((hv.whole rest hrest).step fun fuel h => ?_)
  rw [Parse.behind, h]
  rfl

/-! ### Calls. -/

theorem args_nil : ReadableArgs cx [] := fun _ => .of_succ fun _ => rfl

theorem args_cons (he : Readable cx e) (hes : ReadableArgs cx es) : ReadableArgs cx (e :: es) := fun rest => by
  obtain ⟨more, htext, hmore, hdelimited⟩ := afterComma_argChars cx e es rest
  have hends : Before ends (more ++ ')' :: rest) := fun d hd =>
    (hdelimited d hd).elim (fun h => h ▸ by decide) fun h => h ▸ by decide
  refine ((he.whole _ hends).and (hes rest)).step fun fuel ⟨h, h'⟩ => ?_
  rw [htext, List.append_assoc, Printer.args_cons (he.opens.append _), h, Option.bind_some]
  simp only [hmore, h']
  rfl

theorem call {name : String} (hname : isName name = true) (hes : ReadableArgs cx es) :
    Readable cx (.call i name es) := by
  have hopens : Opens (chars cx (.call i name es)) :=
    ⟨name.toList, '(', _, chars_call, Text.isNameChar_of_isName hname, by decide⟩
  refine of_receiver rfl hopens fun {rest _} _ hsel => ((hes rest).and hsel).step fun fuel ⟨h, h'⟩ => ?_
  rw [chars_call, List.append_assoc, List.cons_append, List.append_assoc, operand_call hname]
  exact h ▸ h'

theorem methodCall {m : String} (hm : isName m = true) (hr : Readable cx r) (hprefixed : r.isPrefixed = false)
    (hes : ReadableArgs cx es) : Readable cx (.methodCall i r m es) := by
  refine of_receiver rfl (by rw [chars_methodCall]; exact hr.operand_opens.append _) fun {rest res} _ hsel => ?_
  have hselected : Enough fun fuel => Parse.selectors fuel r.skeleton
      ('.' :: (m.toList ++ '(' :: (argChars cx es ++ ')' :: rest))) = some res :=
    ((hes rest).and hsel).step fun fuel ⟨h, h'⟩ => by
      rw [selectors_method hm, h]
      exact h'
  have hread := hr.receiver hprefixed (.cons (by decide)) hselected
  rw [chars_methodCall]
  simpa using hread

/-! ### Let-expressions. -/

/-- The parser sees a declaration as an assignment, under some name. -/
theorem definition_declaration (hcx : cx.Spelled) (x : VarId) (v : Expr) (ds : List (VarId × Expr))
    (rest : List Char) : ∃ name, (∀ d ∈ name, isNameChar d = true)
      ∧ definition (defChars cx ((x, v) :: ds) ++ rest)
        = joined (name ++ numberChars x) .assign (chars cx v ++ ';' :: ' ' :: (defChars cx ds ++ rest)) := by
  obtain ⟨ty, hty, hdecl⟩ := varDecl_chars hcx x
  obtain ⟨name, hname, hsym⟩ := chars_var hcx x
  have htext : defChars cx ((x, v) :: ds) ++ rest = ty ++ ' ' :: (name ++ (numberChars x
      ++ ' ' :: (Joint.assign.word.toList ++ ' ' :: (chars cx v ++ ';' :: ' ' :: (defChars cx ds ++ rest))))) := by
    simp [defChars, letDefs, hdecl, hsym, chars, Joint.word]
  by_cases hin : ty = ['i', 'n']
  · refine ⟨name, hname, ?_⟩
    rw [htext, hin]
    simp [definition, joined]
  · refine ⟨[], by simp, ?_⟩
    have hunnumbered : ∀ d ∈ ty ++ ' ' :: name, (d != '#') = true := fun d hd => by
      rcases List.mem_append.mp hd with hd | hd
      · exact List.all_eq_true.mp hty.unnumbered d hd
      · rcases List.mem_cons.mp hd with rfl | hd
        · rfl
        · exact List.all_eq_true.mp (TypeText.of_name hname).unnumbered d hd
    rw [htext, definition_of_type hty hin, ← List.cons_append, ← List.append_assoc,
      List.dropWhile_append_of_pos hunnumbered]
    rfl

/-- An assignment to a variable under any name. -/
theorem assignment (hv : Readable cx v) {name : List Char} (hname : ∀ d ∈ name, isNameChar d = true) (x : VarId)
    (rest : List Char) (hrest : Before ends rest) :
    Enough fun fuel => Parse.expr fuel (joined (name ++ numberChars x) .assign (chars cx v ++ rest))
      = some (.assign noInfo (.ident noInfo (.var x)) v.skeleton, rest) := by
  have hspaced : Before breaks (joined [] .assign (chars cx v ++ rest)) := .cons (by decide)
  have hselected : Enough fun fuel => Parse.selectors fuel (.ident noInfo (.var x))
      (joined [] .assign (chars cx v ++ rest)) = some (.ident noInfo (.var x), joined [] .assign (chars cx v ++ rest)) :=
    .of_succ fun _ => selectors_of_breaks hspaced
  have hvar : Enough fun fuel => Parse.operand fuel (joined (name ++ numberChars x) .assign (chars cx v ++ rest))
      = some (.ident noInfo (.var x), joined [] .assign (chars cx v ++ rest)) :=
    hselected.step fun fuel h => by
      rw [← h, ← operand_var hname x (hspaced.mono (by decide)), joined, List.append_assoc]
      rfl
  have hvalue : Enough fun fuel => Parse.behind fuel .assign (.ident noInfo (.var x)) (chars cx v ++ rest)
      = some (.assign noInfo (.ident noInfo (.var x)) v.skeleton, rest) :=
    (hv.whole rest hrest).step fun fuel h => by
      rw [Parse.behind, h]
      rfl
  exact (hvar.and hvalue).step fun fuel ⟨h, h'⟩ => (expr_of_joined h).trans h'

theorem defs_nil (hbody : Readable cx body) : ReadableDefs cx [] body := fun rest =>
  (hbody.whole (')' :: rest) (.cons (by decide))).step fun fuel h => by
    rw [Parse.defs]
    show Option.bind (Parse.expr fuel (chars cx body ++ ')' :: rest)) _ = _
    rw [h]
    rfl

theorem defs_cons (hcx : cx.Spelled) (x : VarId) (hv : Readable cx v) (hds : ReadableDefs cx ds body) :
    ReadableDefs cx ((x, v) :: ds) body := fun rest => by
  obtain ⟨name, hname, hdefinition⟩ := definition_declaration hcx x v ds
    ('i' :: 'n' :: ' ' :: (chars cx body ++ ')' :: rest))
  have hread := assignment hv hname x (';' :: ' ' :: (defChars cx ds
    ++ 'i' :: 'n' :: ' ' :: (chars cx body ++ ')' :: rest))) (.cons (by decide))
  refine (hread.and (hds rest)).step fun fuel ⟨h, h'⟩ => ?_
  rw [Parse.defs, hdefinition, h, Option.bind_some]
  simp only [h']
  rfl

theorem letIn (hds : ReadableDefs cx ds body) : Readable cx (.letIn i ds body) := by
  refine of_receiver rfl (by rw [chars_letIn]; exact .cons (by decide) _) fun {rest res} _ hsel => ?_
  have hparen : Enough fun fuel => Parse.paren fuel ("let".toList ++ ' ' :: (defChars cx ds
      ++ 'i' :: 'n' :: ' ' :: (chars cx body ++ ')' :: rest))) = some res :=
    ((hds rest).and hsel).step fun fuel ⟨h, h'⟩ => by
      rw [paren_letIn (List.all_eq_true.mp (by decide)), h]
      exact h'
  refine hparen.step fun fuel h => ?_
  rw [chars_letIn, List.cons_append, operand_paren, ← h]
  simp

end Readable

/-! ### All plain, bare expressions. -/

section

variable {cx : Context}

mutual
/-- **Plain, bare expressions are read as themselves.** -/
theorem readable (hcx : cx.Spelled) : ∀ {e : Expr}, e.isPlain = true → e.isBare = true → Readable cx e
  | .literal _ _, hp, _ | .typeTest _ _ _, hp, _ => Bool.noConfusion hp
  | .ident _ _, hp, _ => by
      obtain ⟨i, x, heq⟩ := Expr.exists_of_isVar hp
      exact heq ▸ .var hcx x
  | .unary _ op e, hp, hb => by
      rw [Expr.isPlain, Bool.and_eq_true, decide_eq_true_eq] at hp
      obtain ⟨rfl, hp⟩ := hp
      exact (readable hcx hp hb).not
  | .binary _ _ l r, hp, hb => by
      rw [Expr.isPlain, Bool.and_eq_true] at hp
      rw [Expr.isBare, Bool.and_eq_true] at hb
      exact (readable hcx hp.1 hb.1).binary (readable hcx hp.2 hb.2)
  | .conditional _ c y n, hp, hb => by
      rw [Expr.isPlain, Bool.and_eq_true, Bool.and_eq_true] at hp
      rw [Expr.isBare, Bool.and_eq_true, Bool.and_eq_true] at hb
      exact (readable hcx hp.1.1 hb.1.1).conditional (readable hcx hp.1.2 hb.1.2) (readable hcx hp.2 hb.2)
  | .assign _ t v, hp, hb => by
      rw [Expr.isPlain, Bool.and_eq_true] at hp
      rw [Expr.isBare, Bool.and_eq_true] at hb
      obtain ⟨j, x, rfl⟩ := Expr.exists_of_isVar hp.1
      exact (readable hcx hp.2 hb.2).assign hcx x
  | .cast _ t e, hp, hb => by
      rw [Expr.isPlain, Bool.and_eq_true] at hp
      obtain ⟨name, hname, rfl⟩ := Ty.exists_of_isClass hp.1
      exact (readable hcx hp.2 hb).cast hname
  | .instanceOf _ e t, hp, hb => by
      rw [Expr.isPlain, Bool.and_eq_true] at hp
      obtain ⟨name, hname, rfl⟩ := Ty.exists_of_isClass hp.1
      exact (readable hcx hp.2 hb).instanceOf hname
  | .call _ _ es, hp, hb => by
      rw [Expr.isPlain, Bool.and_eq_true] at hp
      exact .call hp.1 (readable_args hcx hp.2 hb)
  | .methodCall _ r _ es, hp, hb => by
      rw [Expr.isPlain, Bool.and_eq_true, Bool.and_eq_true] at hp
      rw [Expr.isBare, Bool.and_eq_true, Bool.and_eq_true, Bool.not_eq_true'] at hb
      -- a receiver in front of a dot is read as it is: it is no compound and has no prefix
      exact .methodCall hp.1.2 (readable hcx hp.1.1 hb.1.2) hb.1.1 (readable_args hcx hp.2 hb.2)
  | .letIn _ ds body, hp, hb => by
      rw [Expr.isPlain, Bool.and_eq_true] at hp
      rw [Expr.isBare, Bool.and_eq_true] at hb
      exact .letIn (readable_defs hcx (readable hcx hp.2 hb.2) hp.1 hb.1)
/-- The same of the arguments of a call. -/
theorem readable_args (hcx : cx.Spelled) :
    ∀ {es : List Expr}, Expr.arePlain es = true → Expr.areBare es = true → ReadableArgs cx es
  | [], _, _ => Readable.args_nil
  | e :: es, hp, hb => by
      rw [Expr.arePlain, Bool.and_eq_true] at hp
      rw [Expr.areBare, Bool.and_eq_true] at hb
      exact (readable hcx hp.1 hb.1).args_cons (readable_args hcx hp.2 hb.2)
/-- The same of the definitions of a let-expression. -/
theorem readable_defs (hcx : cx.Spelled) {body : Expr} (hbody : Readable cx body) :
    ∀ {ds : List (VarId × Expr)}, Expr.definePlain ds = true → Expr.defineBare ds = true → ReadableDefs cx ds body
  | [], _, _ => hbody.defs_nil
  | (x, v) :: ds, hp, hb => by
      rw [Expr.definePlain, Bool.and_eq_true] at hp
      rw [Expr.defineBare, Bool.and_eq_true] at hb
      exact (readable hcx hp.1 hb.1).defs_cons hcx x (readable_defs hcx hbody hp.2 hb.2)
end

end

end Printer

end PatternIR
