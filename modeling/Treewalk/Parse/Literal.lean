import Treewalk.Decimal.Text

/-!
# Literals

The values of literal tokens. A scan may have cut a literal short; then it has no value, and that
is a syntax error.

## Implementation notes

What is read here are the texts that a scan makes. The conversion of the host that integer literals
go through would take more: blanks and a sign in front, single underscores between digits, digits of
other scripts. No scan puts these into an integer token, and `intValue?` refuses them. The host also
refuses integers of more than 4300 decimal digits until a session has lifted that limit. It is left
out: integers have no bound here, and a listing of the syntax tree, which the host makes without a
session, shows them at any length.

## Main definitions

* `intValue?`, digits in the radix that the text announces
* `floatValue?`, a decimal numeral that ends in a digit
* `charValue?`, one character between quotes
* `stringValue`, the text between the quotes
-/

namespace Treewalk.Parse

/-- The radix that a text announces, and its digits. -/
def radixOf (cs : List Char) : Nat × List Char :=
  match cs with
  | '0' :: 'b' :: digits => (2, digits)
  | '0' :: 'o' :: digits => (8, digits)
  | '0' :: 'x' :: digits => (16, digits)
  | digits => (10, digits)

/-- A digit of a radix: a decimal digit or a letter whose value is below the radix. -/
def isDigitOf (radix : Nat) (c : Char) : Bool :=
  (c.isDigit || ('a' ≤ c && c ≤ 'z') || ('A' ≤ c && c ≤ 'Z')) && Decimal.digitValue c < radix

/-- The value of an integer literal: there has to be a digit, and nothing but digits of the
radix. -/
def intValue? (text : String) : Option Nat :=
  let (radix, digits) := radixOf text.toList
  if digits.isEmpty || !digits.all (isDigitOf radix) then none
  else some (Decimal.digitsValue radix digits)

/-- The value of a decimal literal, which has to end in a digit. -/
def floatValue? (text : String) : Option Decimal :=
  match text.toList.getLast? with
  | none => none
  | some c => if c.isDigit then Decimal.ofNumeral? text.toList else none

/-- The character of a character literal. -/
def charValue? (text : String) : Option String :=
  match text.toList with
  | ['\'', c, '\''] => some (String.singleton c)
  | _ => none

/-- The text of a string literal, without the quotes that it has. -/
def stringValue (text : String) : String :=
  let opened := match text.toList with
    | '"' :: rest => rest
    | cs => cs
  String.ofList (if opened.getLast? = some '"' then opened.dropLast else opened)

end Treewalk.Parse
