import Treewalk.Decimal.Basic
import Treewalk.Text.Blank
import Treewalk.Text.Digit

/-!
# The text of a decimal

A decimal is written with all its digits. If its exponent is not positive and its first digit
stands no further right than the sixth place behind the point, it is written plainly; otherwise
with one digit before the point and an exponent. The letter of the exponent is the only choice of
the caller: displays use a small one, listings a capital.

Reading takes a text of the same make, and refuses exponents beyond eighteen digits. It is lenient
about blanks at the ends, underscores, digits of other scripts and the case of letters.

## Main definitions

* `text`, the text with a given letter for the exponent
* `ofText`, `ofText?`, the decimal that a text stands for
* `ofNumeral`, `ofNumeral?`, the same for a plain numeral: no sign, and finite

## Implementation notes

There are two readers, since there are two sources of text. A numeral comes from the scanner, which
has seen to its form, and it is never signed and never infinite. Any other text may be anything; it
is brought to the form of a numeral by dropping and replacing characters first, and is then read by
the same function. Reasons for a refusal are kept apart because a literal
with too large an exponent is well formed, and its message is not the same.
-/

namespace Treewalk.Decimal

/-! ## Writing -/

/-- Digits with a point behind the given number of them; places to the left are filled up with
zeros, and no point is written behind the last digit. -/
def pointed (digits : List Char) (place : Int) : List Char :=
  if place ≤ 0 then '0' :: '.' :: List.replicate (-place).toNat '0' ++ digits
  else if place.toNat < digits.length then
    digits.take place.toNat ++ '.' :: digits.drop place.toNat
  else digits

/-- An exponent with its sign, which is written in any case. -/
def exponentText (letter : Char) (n : Int) : List Char :=
  letter :: (if n < 0 then '-' else '+') :: Nat.toDigits 10 n.natAbs

/-- The text of a magnitude. -/
def magnitudeText (letter : Char) (coefficient : Nat) (exponent : Int) : List Char :=
  let digits := Nat.toDigits 10 coefficient
  let place := exponent + digits.length
  if exponent ≤ 0 ∧ -6 < place then pointed digits place
  else pointed digits 1 ++ exponentText letter (place - 1)

/-- The text of a decimal, with a given letter for the exponent. -/
def text (letter : Char) : Decimal → String
  | .finite negative coefficient exponent =>
    String.ofList ((if negative then ['-'] else []) ++ magnitudeText letter coefficient exponent)
  | .infinite negative => if negative then "-Infinity" else "Infinity"
  | .nan signalling negative payload =>
    (if negative then "-" else "") ++ (if signalling then "sNaN" else "NaN")
      ++ (if payload = 0 then "" else toString payload)

/-- The text of a decimal where a program shows it. -/
def display (d : Decimal) : String :=
  d.text 'e'

/-- The text of a decimal in listings of a syntax tree. -/
def listing (d : Decimal) : String :=
  d.text 'E'

/-! ## Reading -/

/-- The number that a digit stands for: letters go on where the decimal digits end. Other characters
count by their distance from these, which no caller lets happen. -/
def digitValue (c : Char) : Nat :=
  if 'a' ≤ c then c.toNat - 'a'.toNat + 10
  else if 'A' ≤ c then c.toNat - 'A'.toNat + 10
  else c.toNat - '0'.toNat

/-- The number that digits stand for in a base. -/
def digitsValue (base : Nat) (digits : List Char) : Nat :=
  digits.foldl (fun n c => n * base + digitValue c) 0

/-- The largest exponent of a leading digit that a text may have. -/
def maxAdjusted : Int := 999999999999999999

/-- The smallest exponent that a text may have. -/
def minExponent : Int := -1999999999999999997

/-- The exponent behind its letter: digits with an optional sign. -/
def exponentOf? (cs : List Char) : Option Int :=
  let (negative, digits) := match cs with
    | '-' :: rest => (true, rest)
    | '+' :: rest => (false, rest)
    | rest => (false, rest)
  if digits.isEmpty || !digits.all Char.isDigit then none
  else
    let n := digitsValue 10 digits
    some (if negative then -(n : Int) else n)

/-- Why a text is no decimal. -/
inductive TextIssue where
  /-- It does not have the form of one. -/
  | malformed
  /-- Its exponent is out of range. -/
  | beyond
  deriving DecidableEq

/-- A numeral without sign: digits, an optional fraction, an optional exponent. -/
def ofNumeral (cs : List Char) : Except TextIssue Decimal :=
  let whole := cs.takeWhile Char.isDigit
  let (fraction, rest) := match cs.dropWhile Char.isDigit with
    | '.' :: more => (more.takeWhile Char.isDigit, more.dropWhile Char.isDigit)
    | more => ([], more)
  let digits := whole ++ fraction
  let power? := match rest with
    | [] => some 0
    | letter :: more => if letter = 'e' ∨ letter = 'E' then exponentOf? more else none
  match power? with
  | none => .error .malformed
  | some power =>
    let coefficient := digitsValue 10 digits
    let exponent := power - fraction.length
    if digits.isEmpty then .error .malformed
    else if maxAdjusted < adjusted coefficient exponent ∨ exponent < minExponent then .error .beyond
    else .ok (.finite false coefficient exponent)

/-- The decimal of a numeral, if it is one and in range. -/
def ofNumeral? (cs : List Char) : Option Decimal :=
  (ofNumeral cs).toOption

/-- The characters of a text that count for its reading: blanks at the ends and underscores do not,
and a digit of any script counts as that of ASCII. -/
def countingChars (s : String) : List Char :=
  ((Text.trim s).toList.filter (· ≠ '_')).map fun c =>
    match Text.decimalValue? c with
    | some n => Nat.digitChar n
    | none => c

/-- A payload behind the word for no number; without digits it is zero. -/
def payloadOf? (cs : List Char) : Option Nat :=
  if cs.all Char.isDigit then some (digitsValue 10 cs) else none

/-- What letters without a sign stand for: an infinity or no number. -/
def ofWord? (negative : Bool) (cs : List Char) : Option Decimal :=
  match cs.map Char.toLower with
  | 'n' :: 'a' :: 'n' :: rest => (payloadOf? rest).map (.nan false negative)
  | 's' :: 'n' :: 'a' :: 'n' :: rest => (payloadOf? rest).map (.nan true negative)
  | word =>
    if word = "inf".toList ∨ word = "infinity".toList then some (.infinite negative) else none

/-- The decimal that a text stands for: a sign, and a numeral or a word. -/
def ofText (s : String) : Except TextIssue Decimal :=
  let (negative, cs) := match countingChars s with
    | '-' :: rest => (true, rest)
    | '+' :: rest => (false, rest)
    | rest => (false, rest)
  match ofNumeral cs, ofWord? negative cs with
  | .ok (.finite _ coefficient exponent), _ => .ok (.finite negative coefficient exponent)
  | .ok other, _ => .ok other
  | .error _, some d => .ok d
  | .error issue, none => .error issue

/-- The decimal that a text stands for, if it stands for one. -/
def ofText? (s : String) : Option Decimal :=
  (ofText s).toOption

end Treewalk.Decimal
