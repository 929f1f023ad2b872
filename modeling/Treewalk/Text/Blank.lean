/-!
# Blank text

Unicode white space, and the text left when it is cut off at the ends. A source file has its own,
narrower notion of blank between tokens; the one here is for what a user types at the prompt and
for settings.

## Main definitions

* `isBlank`, the class of white space
* `trimStart`, `trimEnd`, `trim`, cutting at the ends
* `isBlankText`, a text of nothing else

## Implementation notes

The class is written out as comparisons and not as a table: its members are few and fixed. The
controls between `0x1C` and `0x1F` belong to it, although the standard files them under control
characters, because the text functions that users know treat them as white space.
-/

namespace Treewalk.Text

/-- White space of any script: controls, separators and the no-break spaces. -/
def isBlank (c : Char) : Bool :=
  let n := c.toNat
  (0x09 ≤ n && n ≤ 0x0D) || (0x1C ≤ n && n ≤ 0x20) || n = 0x85 || n = 0xA0 || n = 0x1680 ||
    (0x2000 ≤ n && n ≤ 0x200A) || n = 0x2028 || n = 0x2029 || n = 0x202F || n = 0x205F ||
    n = 0x3000

/-- Cuts leading white space off. -/
def trimStart (s : String) : String :=
  String.ofList (s.toList.dropWhile isBlank)

/-- Cuts trailing white space off. -/
def trimEnd (s : String) : String :=
  String.ofList (s.toList.reverse.dropWhile isBlank).reverse

/-- Cuts white space off at both ends. -/
def trim (s : String) : String :=
  trimEnd (trimStart s)

/-- Nothing but white space. -/
def isBlankText (s : String) : Bool :=
  s.toList.all isBlank

end Treewalk.Text
