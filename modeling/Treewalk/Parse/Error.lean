import Treewalk.Token.Basic

/-!
# Syntax errors

The reader of programs stops at the first token that fits nowhere. The error says which place and
why; the wording is made from the cause alone.

## Main definitions

* `Parse.Cause`, and `Parse.Cause.message`, its wording
* `Parse.Error`, a cause and its place

## Implementation notes

An error is a place and a cause, and the wording is a function of the cause. A parser that raised
texts could not be compared with a grammar: that the blamed token is the first that fits nowhere is
a statement about `pos`, and that the message names it is one about `got`.

`tooDeep` is a cause like the others because the readers have to do something when their bound is
used up. That they never come to it is proved of whole programs, so no caller has to handle it.
-/

namespace Treewalk.Parse

/-- Why a token does not fit. -/
inductive Cause where
  /-- One kind is wanted and another token stands there. -/
  | expected (kind : Kind) (got : Token)
  /-- The caller has its own words for what is wanted. -/
  | stated (message : String)
  /-- A print statement without its format. -/
  | formatExpected (got : Token)
  /-- A token that starts no expression. -/
  | unexpected (got : Token)
  /-- An `else` without its `if`. -/
  | danglingElse
  /-- The source ends inside a block. -/
  | openBlock
  /-- There is no token to step back to. -/
  | nothingBehind
  /-- Two parameters of one name. -/
  | repeatedParam (name : String)
  /-- An integer literal that stands for no number. -/
  | badInt (text : String)
  /-- A decimal literal that stands for no number. -/
  | badFloat (text : String)
  /-- A character literal that holds no single character. -/
  | badChar (text : String)
  /-- The bound on nesting is too small for the source; `Parse.bound` is not. -/
  | tooDeep
  deriving DecidableEq

/-- The wording of a cause. -/
def Cause.message : Cause → String
  | .expected kind got => "expected " ++ kind.name ++ ", got " ++ got.describe
  | .stated message => message
  | .formatExpected got => "print expects a format STRING, got " ++ got.describe
  | .unexpected got => "unexpected " ++ got.describe
  | .danglingElse => "dangling else"
  | .openBlock => "unexpected EOF, expected RBRACE"
  | .nothingBehind => "nothing to backtrack to"
  | .repeatedParam name => "duplicate parameter " ++ Text.quoted name
  | .badInt text => "malformed integer literal " ++ Text.quoted text
  | .badFloat text => "malformed floating-point literal " ++ Text.quoted text
  | .badChar text => "malformed char literal " ++ Text.quoted text
  | .tooDeep => "nesting too deep"

/-- A cause and the place of the token that it blames. -/
structure Error where
  pos : Pos
  cause : Cause
  deriving DecidableEq

/-- One line about an error, with its place in front. -/
def Error.message (e : Error) (source : Option String) : String :=
  e.pos.located source ++ ": " ++ e.cause.message

end Treewalk.Parse
