import Treewalk.Source.Glyph
import Treewalk.Token.Basic
import Treewalk.Token.Shape

/-!
# Lexemes

A lexeme is a stretch of glyphs: the spaces in front of a token and the token's own run. It keeps
the glyphs, so that its text, its bytes and its place can all be read off it.

The scan looks one glyph ahead, and a fault is noted when its glyph comes into view. So a lexeme
notes the faults of its run behind the first glyph and of the glyph that follows; the first
glyph's own fault is noted here only if spaces stood before it, for otherwise the lexeme before
(or the opening of the scan) has seen it. A problem of the token as a whole is noted behind the
token, an invalid character where it stands, and only if nothing else is wrong with it.

## Main definitions

* `Lexeme`, `Lexeme.text`, `Lexeme.pos`, `Lexeme.token`
* `Lexeme.notes`, the diagnostics that arise while it is scanned
* `Scan`, the lexemes of a source with its end, and `scan`, which finds them
* `Scan.tokens`, `Scan.diagnostics`, `Scan.notesThrough`

## Implementation notes

Cutting and placing are two passes. `slots` cuts a list of characters and never sees a byte, and
`fill` lays the cuts over the glyphs. So whatever is proved of the cutting holds for all sources
with the same characters, however these are encoded and wherever they stand.

Notes are computed from the lexeme by itself. The one glyph of lookahead is a field of it, which
makes the rule local: without it, notes would have to be collected by a second walk over the glyphs
in step with the lexemes.
-/

namespace Treewalk

/-- The spaces in front of a token, its own glyphs, and the glyph that follows. -/
structure Lexeme where
  gap : List Glyph
  run : List Glyph
  next : Option Glyph
  kind : Kind
  problem : Option Problem

namespace Lexeme

/-- The bytes of a token. -/
def bytes (l : Lexeme) : List UInt8 :=
  l.run.flatMap Glyph.bytes

/-- The text of a token: its bytes decoded, malformed pieces replaced. There is one rule for all
kinds. For a sign this is the text that it has in the lexicon, and for an invalid token the
character that was looked at. -/
def text (l : Lexeme) : String :=
  Utf8.decode l.bytes

/-- The place of the first character. -/
def pos (l : Lexeme) : Pos :=
  (l.run.head?.map Glyph.pos).getD .start

/-- The place behind the last character. -/
def finish (l : Lexeme) : Pos :=
  Treewalk.finish l.run

/-- The token of a lexeme. -/
def token (l : Lexeme) : Token :=
  ⟨l.kind, l.text, l.pos⟩

/-- The diagnostic of an invalid character, unless its glyph has a fault of its own. -/
def illegal (l : Lexeme) : List Diagnostic :=
  match l.kind, l.run with
  | .invalid, g :: _ => if g.fault.isNone then [⟨g.pos, .illegal g.char⟩] else []
  | _, _ => []

/-- The diagnostics that arise while a lexeme is scanned, in order. -/
def notes (l : Lexeme) : List Diagnostic :=
  (if l.gap.isEmpty then [] else (l.run.take 1).filterMap Glyph.fault)
    ++ l.illegal
    ++ (l.run.drop 1 ++ l.next.toList).filterMap Glyph.fault
    ++ l.problem.toList.map fun problem => ⟨l.finish, problem⟩

end Lexeme

/-- Lays slots over the glyphs that they were cut from. -/
def fill : List Slot → List Glyph → List Lexeme
  | [], _ => []
  | slot :: more, gs =>
    let start := gs.drop slot.gap
    let rest := start.drop slot.shape.size
    ⟨gs.take slot.gap, start.take slot.shape.size, rest.head?, slot.shape.kind, slot.shape.problem⟩
      :: fill more rest

/-! ## Scanning a source -/

/-- What a scan finds: the faults in view at the start, the lexemes, and the place of the end. -/
structure Scan where
  opening : List Diagnostic
  lexemes : List Lexeme
  finish : Pos

/-- Scans a source given by its bytes. -/
def scan (source : List UInt8) : Scan :=
  let gs := glyphs source
  { opening := (gs.take 1).filterMap Glyph.fault
    lexemes := fill (slots (gs.map Glyph.char)) gs
    finish := finish gs }

namespace Scan

/-- The tokens of a scan, without the end. -/
def tokens (s : Scan) : List Token :=
  s.lexemes.map Lexeme.token

/-- The token at the end. -/
def endToken (s : Scan) : Token :=
  .endOfSource s.finish

/-- The diagnostics noted by the time a number of lexemes is scanned. -/
def notesThrough (s : Scan) (n : Nat) : List Diagnostic :=
  s.opening ++ (s.lexemes.take n).flatMap Lexeme.notes

/-- All diagnostics, in the order of their discovery. -/
def diagnostics (s : Scan) : List Diagnostic :=
  s.notesThrough s.lexemes.length

end Scan

@[simp] theorem length_fill (ss : List Slot) (gs : List Glyph) :
    (fill ss gs).length = ss.length := by
  induction ss generalizing gs with
  | nil => rfl
  | cons slot more ih => simp [fill, ih]

end Treewalk
