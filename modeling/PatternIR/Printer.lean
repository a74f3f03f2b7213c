/-
  PatternIR.Printer
  ─────────────────
  **TREES AS PROGRAM TEXT.**

  Classes, statements and expressions in a brace language.  A let-expression,
  which has no source form, is written `(let T x = e; in body)`.

    • `Printer.expr` — an expression on one line; compound operands stand in
      parentheses;
    • `Printer.stmt` — a statement from the current position on, without a
      newline at the end;
    • `Printer.klass`, `Printer.program` — declarations, a newline after each line;
    • `Printer.literal` — constants; characters that would not survive in a
      source text are escaped.
-/
import PatternIR.Float.Shortest
import PatternIR.Text.Digits
import PatternIR.Text.Quoted
import PatternIR.Tree.Basic

namespace PatternIR

namespace Printer

/-! ## §1. Options. -/

/-- How a tree is printed. -/
structure Options where
  /-- The width of one level of indentation. -/
  indentWidth : Nat
  /-- Whether the number of a variable follows its name, behind a `#`. -/
  showVarIds : Bool

/-- Four columns a level, names only. -/
def Options.standard : Options := ⟨4, false⟩

/-- What printing looks things up in. -/
structure Context where
  symbols : Symbols
  options : Options

/-- The parts with a separator between them. -/
def joinWith (sep : String) : List String → String
  | [] => ""
  | [s] => s
  | s :: ss => s ++ sep ++ joinWith sep ss

/-- The parts with commas between them. -/
def commas : List String → String := joinWith ", "

/-! ## §2. Constants. -/

/-- The control characters: those below the space, and from DEL to `U+009F`. -/
def isControl (c : Char) : Bool := c.toNat < 0x20 || (0x7f ≤ c.toNat && c.toNat ≤ 0x9f)

/-- A character as it is written between quotes. -/
def escape (c : Char) : List Char :=
  if c = '\n' then ['\\', 'n']
  else if c = '\t' then ['\\', 't']
  else if c = '\r' then ['\\', 'r']
  else if c = '\\' then ['\\', '\\']
  else if c = '\'' then ['\\', '\'']
  else if c = '\"' then ['\\', '\"']
  else if isControl c then '\\' :: 'u' :: Text.hex 4 c.toNat
  else [c]

/-- A string constant, with its quotes. -/
def quoted (s : String) : String := Text.quotedBy escape s

/-- A constant. -/
def literal : Literal → String
  | .bool b => if b then "true" else "false"
  | .int n => toString n.toInt
  | .long n => toString n.toInt ++ "L"
  | .float x => x.display ++ "f"
  | .double x => x.display
  | .char c => String.ofList ('\'' :: (escape c ++ ['\'']))
  | .string s => quoted s
  | .null => "null"

/-! ## §3. Names. -/

/-- The name behind an identifier. -/
def symName (cx : Context) (sym : Sym) : String :=
  let name := (cx.symbols.nameOf? sym).getD "<unknown>"
  match sym with
  | .var id => if cx.options.showVarIds then name ++ "#" ++ toString id.index else name
  | .binding _ => name

/-- A variable with its type in front. -/
def varDecl (cx : Context) (var : VarId) : String :=
  let ty := ((cx.symbols.var? var).map (·.ty.text)).getD "var"
  ty ++ " " ++ symName cx (.var var)

/-! ## §4. Expressions. -/

/-- Whether an expression stands in parentheses as an operand. -/
def isCompound : Expr → Bool
  | .binary _ _ _ _ | .conditional _ _ _ _ | .assign _ _ _ | .instanceOf _ _ _
  | .typeTest _ _ _ => true
  | .literal _ _ | .ident _ _ | .unary _ _ _ | .cast _ _ _ | .call _ _ _
  | .methodCall _ _ _ _ | .letIn _ _ _ => false

/-- The text of an operand. -/
def operand (e : Expr) (text : String) : String :=
  if isCompound e then "(" ++ text ++ ")" else text

/-- How an operator stands before its operand. -/
def unarySymbol : UnOp → String
  | .not => "!"
  | .neg => "-"

mutual
/-- An expression on one line. -/
def expr (cx : Context) : Expr → String
  | .literal _ v => literal v
  | .ident _ sym => symName cx sym
  | .unary _ op e => unarySymbol op ++ operand e (expr cx e)
  | .binary _ op l r =>
    operand l (expr cx l) ++ " " ++ op.symbol ++ " " ++ operand r (expr cx r)
  | .conditional _ c y n =>
    operand c (expr cx c) ++ " ? " ++ operand y (expr cx y) ++ " : " ++ operand n (expr cx n)
  | .assign _ t v => expr cx t ++ " = " ++ expr cx v
  | .cast _ t e => "(" ++ t.text ++ ")" ++ operand e (expr cx e)
  | .instanceOf _ e t => operand e (expr cx e) ++ " instanceof " ++ t.text
  | .typeTest _ e p =>
    operand e (expr cx e) ++ " instanceof " ++ (p.declared.map Ty.text).getD "var" ++ " "
      ++ symName cx (.binding p.binding)
  | .call _ name args => name ++ "(" ++ commas (exprs cx args) ++ ")"
  | .methodCall _ r m args =>
    operand r (expr cx r) ++ "." ++ m ++ "(" ++ commas (exprs cx args) ++ ")"
  | .letIn _ ds body => "(let " ++ letDefs cx ds ++ "in " ++ expr cx body ++ ")"
/-- The texts of several expressions. -/
def exprs (cx : Context) : List Expr → List String
  | [] => []
  | e :: es => expr cx e :: exprs cx es
/-- The definitions of a let-expression, each closed by a semicolon. -/
def letDefs (cx : Context) : List (VarId × Expr) → String
  | [] => ""
  | (var, e) :: ds => varDecl cx var ++ " = " ++ expr cx e ++ "; " ++ letDefs cx ds
end

/-! ## §5. Statements. -/

/-- The blanks in front of a line at a level. -/
def indent (cx : Context) (level : Nat) : String :=
  String.ofList (List.replicate (level * cx.options.indentWidth) ' ')

/-- A local declaration without its semicolon; nothing for other statements. -/
def localText (cx : Context) : Stmt → String
  | .decl _ var (some e) => varDecl cx var ++ " = " ++ expr cx e
  | .decl _ var none => varDecl cx var
  | _ => ""

/-- What stands in the head of a `for` before the first semicolon. -/
def forStart (cx : Context) : Stmt → String
  | .expr _ e => expr cx e
  | s => localText cx s

/-- Text that follows the body of a statement: after a brace on the same line,
otherwise on a line of its own. -/
def following (cx : Context) (level : Nat) (body : Stmt) (text : String) : String :=
  if body.isBlock then " " ++ text else "\n" ++ indent cx level ++ text

/-- A word with an optional label behind it. -/
def jump (word : String) : Option String → String
  | none => word ++ ";"
  | some label => word ++ " " ++ label ++ ";"

mutual
/-- A statement from the current position on. -/
def stmt (cx : Context) (level : Nat) : Stmt → String
  | .expr _ e => expr cx e ++ ";"
  | .decl i var value => localText cx (.decl i var value) ++ ";"
  | .block _ ss => "\x7b\n" ++ lines cx (level + 1) ss ++ indent cx level ++ "\x7d"
  | .ifElse _ c y no =>
    "if (" ++ expr cx c ++ ")"
      ++ (if y.isBlock then " " ++ stmt cx level y
          else "\n" ++ indent cx (level + 1) ++ stmt cx (level + 1) y)
      ++ elsePart cx level y no
  | .whileDo _ c b =>
    "while (" ++ expr cx c ++ ")"
      ++ (if b.isBlock then " " ++ stmt cx level b
          else "\n" ++ indent cx (level + 1) ++ stmt cx (level + 1) b)
  | .doWhile _ b c =>
    "do"
      ++ (if b.isBlock then " " ++ stmt cx level b
          else "\n" ++ indent cx (level + 1) ++ stmt cx (level + 1) b)
      ++ following cx level b ("while (" ++ expr cx c ++ ");")
  | .forDo _ ss c es b =>
    "for (" ++ commas (ss.map (forStart cx)) ++ "; " ++ (c.map (expr cx)).getD "" ++ "; "
      ++ commas (exprs cx es) ++ ")"
      ++ (if b.isBlock then " " ++ stmt cx level b
          else "\n" ++ indent cx (level + 1) ++ stmt cx (level + 1) b)
  | .labeled _ label b => label ++ ": " ++ stmt cx level b
  | .ret _ none => "return;"
  | .ret _ (some e) => "return " ++ expr cx e ++ ";"
  | .brk _ label => jump "break" label
  | .cont _ label => jump "continue" label
/-- Statements on lines of their own. -/
def lines (cx : Context) (level : Nat) : List Stmt → String
  | [] => ""
  | s :: ss => indent cx level ++ stmt cx level s ++ "\n" ++ lines cx level ss
/-- The `else` of an `if` whose other branch is `yes`. -/
def elsePart (cx : Context) (level : Nat) (yes : Stmt) : Option Stmt → String
  | none => ""
  | some no =>
    following cx level yes <| "else" ++
      -- an `else if` stays on its line
      if no.isIf || no.isBlock then " " ++ stmt cx level no
      else "\n" ++ indent cx (level + 1) ++ stmt cx (level + 1) no
end

/-! ## §6. Declarations. -/

/-- A method on lines of its own. -/
def method (cx : Context) (level : Nat) (m : Method) : String :=
  let head := indent cx level ++ m.ret.text ++ " " ++ m.name
    ++ "(" ++ commas (m.params.map (varDecl cx)) ++ ")"
  match m.body with
  | some body => head ++ " " ++ stmt cx level body ++ "\n"
  | none => head ++ ";\n"

/-- A class, its methods with blank lines between them. -/
def klass (cx : Context) (c : Class) : String :=
  "class " ++ c.name
    ++ (match c.superclass with
        | some name => " extends " ++ name
        | none => "")
    ++ (match c.interfaces with
        | [] => ""
        | names => " implements " ++ commas names)
    ++ " \x7b\n" ++ joinWith "\n" (c.methods.map (method cx 1)) ++ "\x7d\n"

/-- A program, its classes with blank lines between them. -/
def program (options : Options) (p : Program) : String :=
  joinWith "\n" (p.classes.map (klass ⟨p.symbols, options⟩))

/-- A class in the standard form. -/
def showClass (symbols : Symbols) (c : Class) : String := klass ⟨symbols, .standard⟩ c

/-- A statement in the standard form, on lines of its own. -/
def showStmt (symbols : Symbols) (s : Stmt) : String := stmt ⟨symbols, .standard⟩ 0 s ++ "\n"

/-- An expression in the standard form. -/
def showExpr (symbols : Symbols) (e : Expr) : String := expr ⟨symbols, .standard⟩ e

end Printer

end PatternIR
