import Treewalk.Text.Printable

/-!
# Quoted text

How a message shows a text: between quotes, on one line, in printable characters only. The single
quote is used unless the text holds one and holds no double quote. The quote in use and the
backslash get a backslash; line feed, carriage return and tab have short escapes; every other
unprintable character is written by its code point, in two, four or eight hexadecimal digits.

## Main definitions

* `hexText`, a number in lowercase hexadecimal, padded with zeros
* `quoteMark`, the quote that fits a text
* `quoted`, the quoted text

## Implementation notes

The width of a code escape is the least of three that holds the code point, and the digits are in
lower case. The choice of the quote looks at the whole text before anything is written; a text that
holds both quotes is put between single ones and escapes those within it.
-/

namespace Treewalk.Text

/-- A number in hexadecimal, with zeros in front up to the width. -/
def hexText (width n : Nat) : String :=
  let digits := Nat.toDigits 16 n
  String.ofList (List.replicate (width - digits.length) '0' ++ digits)

/-- The number of hexadecimal digits depends on the size of the code point. -/
def escapedCode (c : Char) : String :=
  let n := c.toNat
  if n < 0x100 then "\\x" ++ hexText 2 n
  else if n < 0x10000 then "\\u" ++ hexText 4 n
  else "\\U" ++ hexText 8 n

/-- One character between quotes of the given kind. -/
def escaped (mark c : Char) : String :=
  if c = mark ∨ c = '\\' then String.ofList ['\\', c]
  else if c = '\n' then "\\n"
  else if c = '\r' then "\\r"
  else if c = '\t' then "\\t"
  else if isPrintable c then String.singleton c
  else escapedCode c

/-- The double quote only where it spares escapes. -/
def quoteMark (s : String) : Char :=
  if s.toList.contains '\'' && !s.toList.contains '"' then '"' else '\''

/-- The text as a message shows it. -/
def quoted (s : String) : String :=
  let mark := quoteMark s
  String.singleton mark ++ String.join (s.toList.map (escaped mark)) ++ String.singleton mark

end Treewalk.Text
