import Treewalk.Source.Diagnostic
import Treewalk.Text.Utf8

/-!
# Glyphs

A source is a list of bytes. Decoding turns it into glyphs: characters that know their bytes,
their place and what is wrong with them. A malformed byte becomes one glyph, so the glyphs cover
the bytes exactly.

A byte order mark at the very start is no part of the text: it yields no glyph and takes no
column. It does displace one report: a fault of the glyph right behind the mark is noted one
column further on, where that glyph would stand if the mark took a column.

## Implementation notes

The displaced report is a matter of the order in which a scan opens. It decodes the mark at the
start, moves on and decodes the next glyph behind it, and only then sets the column back. Decoding
notes what is wrong with a glyph at once, so the note is taken before the glyph has come to its
place. `glyphs` follows these steps: the glyph is decoded at the place behind the mark and moved to
the start, and its fault stays where it was noted.

## Main definitions

* `Glyph`, and `Glyph.after`, the place behind it
* `Glyph.moveTo`, a glyph set to another place
* `glyphs`, the glyphs of a source
* `finish`, where the end of the source stands

## Main results

* `flatMap_bytes_place`: placing keeps every byte
-/

namespace Treewalk

/-- A decoded character with its bytes, its place and what is wrong with it. -/
structure Glyph where
  char : Char
  bytes : List UInt8
  pos : Pos
  fault : Option Diagnostic

namespace Glyph

/-- The place behind a glyph. -/
def after (g : Glyph) : Pos :=
  g.pos.after g.char

/-- The glyph at another place; what has been noted about it stays where it was noted. -/
def moveTo (g : Glyph) (p : Pos) : Glyph :=
  { g with pos := p }

end Glyph

/-- The byte order mark. -/
def byteOrderMark : Char := '\uFEFF'

/-- What is wrong with a decoding step that is not the first of its source. -/
def stepFault (step : Utf8.Step) : Option Problem :=
  match step.char with
  | none => some .badEncoding
  | some c =>
    if c = '\x00' then some .nul else if c = byteOrderMark then some .strayMark else none

/-- The glyph of a decoding step at a place. -/
def glyphAt (p : Pos) (step : Utf8.Step) : Glyph :=
  ⟨step.char.getD Utf8.replacement, step.bytes, p, (stepFault step).map fun problem => ⟨p, problem⟩⟩

/-- The glyphs of decoding steps, one behind the other from a place on. -/
def place : Pos → List Utf8.Step → List Glyph
  | _, [] => []
  | p, step :: rest =>
    let g := glyphAt p step
    g :: place g.after rest

/-- The glyphs of a source, without the byte order mark that may lead it. -/
def glyphs (source : List UInt8) : List Glyph :=
  match Utf8.steps source with
  | [] => []
  | first :: rest =>
    if first.char = some byteOrderMark then
      match rest with
      | [] => []
      | step :: more =>
        let g := (glyphAt (Pos.start.after byteOrderMark) step).moveTo .start
        g :: place g.after more
    else place .start (first :: rest)

/-- Where the end stands behind the glyphs of a source. -/
def finish (gs : List Glyph) : Pos :=
  match gs.getLast? with
  | none => .start
  | some g => g.after

/-- Placing keeps every byte. -/
theorem flatMap_bytes_place (p : Pos) (steps : List Utf8.Step) :
    (place p steps).flatMap Glyph.bytes = steps.flatMap Utf8.Step.bytes := by
  induction steps generalizing p with
  | nil => rfl
  | cons step rest ih => simp [place, glyphAt, ih]

@[simp] theorem length_place (p : Pos) (steps : List Utf8.Step) :
    (place p steps).length = steps.length := by
  induction steps generalizing p with
  | nil => rfl
  | cons step rest ih => simp [place, ih]

end Treewalk
