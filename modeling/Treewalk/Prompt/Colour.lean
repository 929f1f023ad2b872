import Treewalk.Text.Lines
import Treewalk.Token.Lexeme

/-!
# Colouring

While a line is typed its tokens are shown in styles. A line is cut into fragments that make it up
again: tokens with their style, and what stands between them without one.

A token's column is taken for its place in the line. That is right for a line by itself; for a text
of several lines, or one that starts with a byte order mark, tokens that do not fit are passed over,
so that the fragments still make up the text.

## Main definitions

* `Group`, the groups of tokens that have a style
* `Fragment`, `fragments`, `colourLine`
* `colourDocument?`, a line of a text by its number

## Implementation notes

`fragments` walks over the tokens with the offset of the rest of the line. So the fragments make
up the rest at every step and nothing has to be sorted or merged afterwards. It takes a token only
as far as the line goes. A text with malformed bytes cannot occur here, since what is typed is a
text; what may occur is a token whose column is that of another line, and it is dropped rather than
drawn in a wrong place.

Styles are texts as the terminal library takes them. They are compared nowhere but in listings of
fragments.
-/

namespace Treewalk.Prompt

/-- Groups of tokens that are shown alike. -/
inductive Group where
  | keyword | literal | number | text | call | comment | error | plain
  deriving DecidableEq

/-- The style of a group. -/
def Group.style : Group → String
  | keyword => "bold ansicyan"
  | literal => "ansicyan"
  | number => "ansimagenta"
  | text => "ansigreen"
  | call => "bold ansiyellow"
  | comment => "italic ansibrightblack"
  | error => "bold ansired"
  | plain => ""

/-- The group of a kind by itself. -/
def Group.ofKind (kind : Kind) : Group :=
  match kind with
  | .trueKw | .falseKw | .nilKw => .literal
  | .int | .float => .number
  | .char | .string => .text
  | .comment => .comment
  | .invalid => .error
  | kind => if kind.isReserved then .keyword else .plain

/-- The group of a token, given the kind of the next: a name right before a bracket is a call. -/
def Group.ofToken (kind : Kind) (next : Option Kind) : Group :=
  if kind = .ident ∧ next = some .lparen then .call else .ofKind kind

/-- A piece of a line and its style. -/
structure Fragment where
  style : String
  text : String
  deriving DecidableEq

/-- The fragments of the rest of a line, whose first character has the given offset. A token that
starts before it, or behind the end of the line, is passed over. -/
def fragments : List Token → Nat → List Char → List Fragment
  | [], _, rest => if rest.isEmpty then [] else [⟨"", String.ofList rest⟩]
  | t :: more, offset, rest =>
    let start := t.pos.column - 1
    let gap := start - offset
    let piece := (rest.drop gap).take t.text.length
    if start < offset ∨ piece.isEmpty then fragments more offset rest
    else
      let style := (Group.ofToken t.kind (more.head?.map Token.kind)).style
      (if gap = 0 then [] else [⟨"", String.ofList (rest.take gap)⟩]) ++
        ⟨style, String.ofList piece⟩ ::
          fragments more (start + piece.length) (rest.drop (gap + piece.length))

/-- The fragments of a line; an empty line has one empty fragment. -/
def colourLine (line : String) : List Fragment :=
  if line.isEmpty then [⟨"", ""⟩]
  else fragments (scan (Utf8.encode line)).tokens 0 line.toList

/-- The fragments of a line of a text, by its number from zero; beyond the last line there is
nothing to show. A negative number counts from the end, and may not go beyond the first line. -/
def colourDocument? (text : String) (number : Int) : Option (List Fragment) :=
  let lines := Text.lines text.toList
  let index := if number < 0 then lines.length + number else number
  if index < 0 then none
  else
    match lines[index.toNat]? with
    | some line => some (colourLine (String.ofList line))
    | none => some [⟨"", ""⟩]

end Treewalk.Prompt
