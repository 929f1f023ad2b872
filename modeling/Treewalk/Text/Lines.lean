/-!
# Lines of a text

A text is cut at its line feeds and nowhere else. Joined by line feeds, the lines are the text
again.

## Main definitions

* `lines`, the lines of a text, of which there is at least one
* `lastLine`, the text behind the last line feed

## Main results

* `intercalate_lines`: the lines make up the text

## Implementation notes

A text has one line more than it has line feeds, so a line feed at the end makes an empty line
behind it. This is the convention under which `intercalate_lines` holds without a side condition,
and it fits the prompt, where the cursor stands on that line.

The empty text has one empty line for the same reason, which is why `lines` is a pair put together
and not a list that might be empty.
-/

namespace Treewalk.Text

/-- The first line and the lines behind it. -/
def splitLines : List Char → List Char × List (List Char)
  | [] => ([], [])
  | c :: cs =>
    let (first, more) := splitLines cs
    if c = '\n' then ([], first :: more) else (c :: first, more)

/-- The lines of a text. -/
def lines (cs : List Char) : List (List Char) :=
  (splitLines cs).1 :: (splitLines cs).2

/-- The text behind the last line feed, or the whole if there is none. -/
def lastLine (cs : List Char) : List Char :=
  (lines cs).getLastD []

/-- The lines make up the text. -/
theorem intercalate_lines (cs : List Char) : ['\n'].intercalate (lines cs) = cs := by
  induction cs with
  | nil => rfl
  | cons c cs ih =>
    simp only [lines, splitLines] at ih ⊢
    split
    · rename_i h
      subst h
      simpa [List.intercalate, List.intersperse] using ih
    · rcases hm : (splitLines cs).2 with _ | ⟨next, more⟩
      · simpa [hm, List.intercalate] using ih
      · simpa [hm, List.intercalate, List.intersperse] using ih

end Treewalk.Text
