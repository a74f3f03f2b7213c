/-
  PatternIR.Cli.Style
  ───────────────────
  **TERMINAL STYLES.**

  A styled text stands between an escape sequence that turns the style on and
  one that turns it off.  Whether styles are used at all is decided once,
  from the variables of the environment.
-/

namespace PatternIR

namespace Cli

/-- The variables of the environment. -/
abbrev Env := String → Option String

/-- Whether output that is not a terminal is styled. -/
def styled (env : Env) : Bool :=
  if (env "NO_COLOR").isSome then false
  else (env "FORCE_COLOR").isSome || (env "CLICOLOR_FORCE").any fun v => v ≠ "0"

/-- A style: the codes of its parts. -/
inductive Style where
  | bold
  | dimmed
  | underlined
  | green
  | cyan
  | boldRed
  | boldGreen
  | boldYellow
deriving DecidableEq

namespace Style

/-- The sequence that turns styles off. -/
def off : String := "\x1b[0m"

/-- The sequence that turns a style on. -/
def on : Style → String
  | .bold => "\x1b[1m"
  | .dimmed => "\x1b[2m"
  | .underlined => "\x1b[4m"
  | .green => "\x1b[32m"
  | .cyan => "\x1b[36m"
  | .boldRed => "\x1b[1;31m"
  | .boldGreen => "\x1b[1;32m"
  | .boldYellow => "\x1b[1;33m"

end Style

/-- A text in a style.  Where the text itself turns styles off, the style is
turned on again. -/
def paint (colour : Bool) (style : Style) (text : String) : String :=
  if colour then style.on ++ text.replace Style.off (Style.off ++ style.on) ++ Style.off
  else text

/-- The line that closes the report on a phase. -/
def banner (colour : Bool) (style : Style) (text : String) : String :=
  let bar := paint colour .dimmed "==="
  bar ++ " " ++ paint colour style text ++ " " ++ bar

end Cli

end PatternIR
