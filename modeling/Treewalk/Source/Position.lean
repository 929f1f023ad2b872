/-!
# Positions in a source

Lines and columns count from one. A column counts decoded characters, not bytes, so that it is
what a reader of the source would count.

## Main definitions

* `Pos`, a line and a column, and `Pos.after`, the place behind a character
* `Mark`, what a node of the syntax tree knows about its place
* `sourceLabel`, how a message calls a source
* `located`, `Pos.located`, the text that stands in front of a message

## Implementation notes

A position is a pair of counts and not an offset. An offset would be easier to compare, but no
message shows one, and it would have to be turned into a line by going over the source again.

Marks are wider than positions in two directions. They may be absent, because some nodes have no
token, and they may be any integers, because a tree made by hand says what it likes. What comes from
a source has a `Mark.pos`, which results about parsing say.
-/

namespace Treewalk

/-- A line and a column, both from one. -/
structure Pos where
  line : Nat
  column : Nat
  deriving DecidableEq

namespace Pos

/-- Where every source starts. -/
def start : Pos := ⟨1, 1⟩

/-- The place behind a character: a line feed starts a line, all else takes one column. -/
def after (p : Pos) (c : Char) : Pos :=
  if c = '\n' then ⟨p.line + 1, 1⟩ else ⟨p.line, p.column + 1⟩

@[simp] theorem after_newline (p : Pos) : p.after '\n' = ⟨p.line + 1, 1⟩ := rfl

theorem after_of_ne {p : Pos} {c : Char} (h : c ≠ '\n') : p.after c = ⟨p.line, p.column + 1⟩ := by
  simp [after, h]

end Pos

/-- How a message calls a source; one without a name, or with an empty one, is unknown. -/
def sourceLabel (name : Option String) : String :=
  match name with
  | some text => if text.isEmpty then "<unknown>" else text
  | none => "<unknown>"

/-- A line and a column as messages and listings write them. They need not be those of a source, so
any numbers will do. -/
def lineColumn (line column : Int) : String :=
  toString line ++ ":" ++ toString column

/-- The place of a message: source, line and column. -/
def located (source : Option String) (line column : Int) : String :=
  sourceLabel source ++ ":" ++ lineColumn line column

/-- The place of a message about a position in a source. -/
def Pos.located (p : Pos) (source : Option String) : String :=
  Treewalk.located source p.line p.column

/-- What a node knows about its place: nothing, its line, or its line and column. Trees from the
reader of sources carry positions, and nothing for parts that no token stands for; a tree made by
hand may carry any numbers. -/
inductive Mark where
  | absent
  | line (number : Int)
  | place (line column : Int)
  deriving DecidableEq

/-- The mark of a position in a source. -/
def Mark.pos (p : Pos) : Mark :=
  .place p.line p.column

/-- The text in front of a message about a marked node, if the mark says anything. -/
def Mark.located? (mark : Mark) (source : Option String) : Option String :=
  match mark with
  | .absent => none
  | .line number => some (sourceLabel source ++ ":" ++ toString number)
  | .place number column => some (Treewalk.located source number column)

@[simp] theorem Mark.located?_pos (p : Pos) (source : Option String) :
    (Mark.pos p).located? source = some (p.located source) := rfl

end Treewalk
