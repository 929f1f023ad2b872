import Treewalk.Eval.Fault
import Treewalk.Value

/-!
# Formats

A format is a text with placeholders `{}`. They are found from left to right and do not overlap, so
a format has one reading as a list of pieces; filling it in puts the arguments between the pieces
and looks at nothing twice. Arguments without a placeholder are ignored.

## Main definitions

* `Template`, the piece before the first placeholder and a piece behind each
* `Template.ofText`, the reading of a format
* `Template.fill`, the text with arguments put in
* `checkTexts`, the fault of showing what has no text
* `render`, reading and filling at once, with the fault if arguments are missing

## Implementation notes

A format is read once, before any argument is shown. Replacing placeholders one after another in a
growing text would find braces in the arguments as well; here the text of an argument is put between
two pieces and never read.

Too few arguments are found by counting, before any of them is looked at. Arguments beyond the last
placeholder are not looked at either, so they may be anything.
-/

namespace Treewalk

/-- The piece before the first placeholder, and a piece behind each. -/
structure Template where
  first : List Char
  more : List (List Char)
  deriving DecidableEq

namespace Template

/-- The reading of a format. -/
def ofChars : List Char → Template
  | [] => ⟨[], []⟩
  | '{' :: '}' :: rest =>
    let t := ofChars rest
    ⟨[], t.first :: t.more⟩
  | c :: rest =>
    let t := ofChars rest
    ⟨c :: t.first, t.more⟩

/-- The reading of a format given as a text. -/
def ofText (format : String) : Template :=
  ofChars format.toList

/-- The number of placeholders. -/
def holes (t : Template) : Nat :=
  t.more.length

/-- Texts and pieces in turn, as long as there are both. -/
def interleave : List (List Char) → List (List Char) → List Char
  | text :: texts, piece :: pieces => text ++ piece ++ interleave texts pieces
  | _, _ => []

/-- The pieces with texts put between them. -/
def fill (t : Template) (texts : List (List Char)) : List Char :=
  t.first ++ interleave texts t.more

end Template

/-- Whether all values have a text to show; the places of the values, for the message, start at a
number and go on in steps. -/
def checkTexts (place step : Nat) : List Value → Except Fault Unit
  | [] => .ok ()
  | v :: rest =>
    match v.untextual? with
    | some sort => .error (.misuse (.untextual place sort))
    | none => checkTexts (place + step) step rest

/-- A format with values put in; the context is for the message if some are missing. -/
def render (context format : String) (args : List Value) : Except Fault String :=
  let t := Template.ofText format
  if args.length < t.holes then .error (.placeholders context t.holes args.length)
  else (checkTexts 1 2 (args.take t.holes)).map fun _ =>
    String.ofList (t.fill (args.map fun v => v.display.toList))

end Treewalk
