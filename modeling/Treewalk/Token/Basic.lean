import Treewalk.Source.Position
import Treewalk.Text.Quoted
import Treewalk.Token.Kind

/-!
# Tokens

A token is a kind, the text it stands for and the place of its first character.

## Main definitions

* `Token`, and `Token.endOfSource`, what the end of a source yields
* `Token.describe`, how a message about an unwelcome token calls it
* `Token.listing`, a one-line rendering for inspection

## Implementation notes

A token does not keep the glyphs that it was made of. The parser needs the kind, messages need the
text and the place, and the rest stays with the lexeme, which is where results about bytes are
stated.
-/

namespace Treewalk

/-- A kind, the text it stands for and the place where that text starts. -/
structure Token where
  kind : Kind
  text : String
  pos : Pos
  deriving DecidableEq

namespace Token

/-- What the end of a source yields, as often as it is asked. -/
def endOfSource (p : Pos) : Token := ⟨.eof, "", p⟩

/-- How a message calls an unwelcome token: an invalid one by its text alone, one without a text
by its kind, and any other by both. -/
def describe (t : Token) : String :=
  if t.kind = .invalid then "invalid token " ++ Text.quoted t.text
  else if t.kind = .eof ∨ t.text.isEmpty then t.kind.name
  else t.kind.name ++ " " ++ Text.quoted t.text

/-- Kind, quoted text and any line and column on one line. -/
def listingAt (kind : Kind) (text : String) (line column : Int) : String :=
  "Tok(" ++ kind.name ++ ", " ++ Text.quoted text ++ ", " ++ lineColumn line column ++ ")"

/-- Kind, quoted text and place on one line. -/
def listing (t : Token) : String :=
  listingAt t.kind t.text t.pos.line t.pos.column

end Token

end Treewalk
