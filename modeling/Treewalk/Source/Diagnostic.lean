import Treewalk.Source.Position
import Treewalk.Text.Quoted

/-!
# Lexical diagnostics

What can be wrong with the characters of a source. None of it stops the scan: every problem is
noted with its place, and the scan goes on behind it.

## Main definitions

* `Problem`, the causes, and `Problem.message`, their wording
* `Diagnostic`, a problem and its place

## Implementation notes

A problem carries only what its wording cannot do without, and the place stands beside it. The same
problem is noted at different places by different tokens, and most statements about diagnostics are
about the places alone.
-/

namespace Treewalk

/-- A cause of a lexical diagnostic. -/
inductive Problem where
  /-- The source holds the character zero. -/
  | nul
  /-- A byte that starts no character. -/
  | badEncoding
  /-- A byte order mark behind the start. -/
  | strayMark
  /-- A character that starts no token. -/
  | illegal (c : Char)
  /-- A radix sign with no digit behind it. -/
  | noRadixDigits
  /-- A point with no digit behind it. -/
  | noFraction
  /-- An exponent sign with no digit behind it. -/
  | noExponent
  /-- Two quotes with nothing between them. -/
  | emptyChar
  /-- A character literal that does not end. -/
  | openChar
  /-- A string that does not end on its line. -/
  | openString
  deriving DecidableEq

/-- The wording of a problem. -/
def Problem.message : Problem → String
  | .nul => "illegal character NUL"
  | .badEncoding => "illegal UTF-8 encoding"
  | .strayMark => "illegal byte order mark"
  | .illegal c =>
    "illegal character U+" ++ (Text.hexText 4 c.toNat).map Char.toUpper ++ " "
      ++ Text.quoted (String.singleton c)
  | .noRadixDigits => "invalid integer literal: no digits after radix prefix"
  | .noFraction => "invalid floating-point literal: no fraction"
  | .noExponent => "invalid floating-point literal: incomplete exponent"
  | .emptyChar => "illegal char literal: empty"
  | .openChar => "char literal not terminated"
  | .openString => "string literal not terminated"

/-- A problem and its place. -/
structure Diagnostic where
  pos : Pos
  problem : Problem
  deriving DecidableEq

/-- One line about a problem, with its place in front. -/
def Diagnostic.text (d : Diagnostic) (source : Option String) : String :=
  d.pos.located source ++ ": " ++ d.problem.message

end Treewalk
