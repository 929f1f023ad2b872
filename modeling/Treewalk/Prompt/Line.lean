import Treewalk.Token.Lexeme

/-!
# Typed text

What the prompt finds out about a text before it runs it: which characters are dropped because they
cannot be seen, how many brackets are open, and whether more has to be typed.

## Main definitions

* `normalize`, the text without invisible characters
* `openDepth`, the number of brackets left open
* `wantsMore`, whether Enter starts a new line instead of submitting

## Implementation notes

The depth counts round brackets and braces alike and does not check that they match; a closing
bracket too many is forgotten at once. The count is a reason to wait, not a judgement. What does not
match is rejected by the parser as soon as the text is submitted, and its error is a better one.
-/

namespace Treewalk.Prompt

/-- Characters that a terminal or a paste brings along unseen: zero-width space and joiners, the
byte order mark, the no-break space and carriage returns. -/
def isInvisible (c : Char) : Bool :=
  ['\u200B', '\u200C', '\u200D', '\uFEFF', '\u00A0', '\r'].contains c

/-- The text without invisible characters. -/
def normalize (text : String) : String :=
  String.ofList (text.toList.filter fun c => !isInvisible c)

/-- One more token: an opening bracket adds one, a closing one takes one away if there is one. -/
def depthStep (depth : Nat) (kind : Kind) : Nat :=
  match kind with
  | .lparen | .lbrace => depth + 1
  | .rparen | .rbrace => depth - 1
  | _ => depth

/-- The number of brackets left open by tokens. -/
def depthOf (kinds : List Kind) : Nat :=
  kinds.foldl depthStep 0

/-- The number of brackets left open in a text. -/
def openDepth (text : String) : Nat :=
  depthOf ((scan (Utf8.encode text)).lexemes.map Lexeme.kind)

/-- A text that starts with a slash is a command. -/
def isCommand (text : String) : Bool :=
  text.toList.head? = some '/'

/-- A command is complete on its line; a program is not while brackets are open. -/
def wantsMore (text : String) : Bool :=
  if isCommand text then false else 0 < openDepth text

end Treewalk.Prompt
