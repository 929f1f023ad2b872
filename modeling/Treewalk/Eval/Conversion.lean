import Treewalk.Decimal.Rounding
import Treewalk.Syntax.Tree

/-!
# Conversions

A text may hold conversions: a percent sign, flags, a width, a precision and a letter. Filling it
in puts the one argument that there is in the place of a conversion, written as the letter asks.
Two percent signs are one of the text.

| letters | argument | written as |
|---|---|---|
| `s`, `r`, `a` | any | its text, its text in quotes, the same in ASCII |
| `d`, `i`, `u` | integer | decimal digits |
| `o`, `x`, `X` | integer | octal or hexadecimal digits |
| `e`, `E`, `f`, `F`, `g`, `G` | integer | the nearest double in scientific, plain or short form |
| `c` | integer or character | the character |

A pattern that asks for more than the argument, or does not ask for it, is refused; so is an
argument that a letter does not take. The first refusal from the left decides.

## Main definitions

* `Conversion`, and `Conversion.Issue`, why a pattern cannot be filled in
* `Conversion.read`, a conversion at the head of a text
* `Conversion.apply`, the text of an argument
* `Conversion.fill`, a text with its conversions carried out

## Implementation notes

Reading and writing are separate: `read` turns the characters behind a percent sign into a
`Conversion` and says what is left, and `apply` writes an argument without knowing where it came
from. Whether the one argument has been used up is threaded through as a flag. A star may take it as
a width, and then nothing is left for the letter to write.

Doubles are not modelled. Only integers ever come to the letters that ask for one, so the nearest
double is an integer as well, and `nearestDouble?` computes it by rounding to fifty-three binary
digits. All forms of output then work on the digits of a natural number.

The limits on sizes are those of the host, and they are checked where the host checks them: a width
is refused when it is read, a result that is too long when it is built.
-/

namespace Treewalk

/-- How an argument is written: flags, least width, precision and the letter of the form. -/
structure Conversion where
  flags : List Char
  width : Option Nat
  precision : Option Nat
  letter : Char

namespace Conversion

/-- Why a pattern cannot be filled in. -/
inductive Issue where
  /-- A conversion by name, for which there would have to be names. -/
  | named
  /-- More conversions than arguments. -/
  | tooFew
  /-- An argument without a conversion. -/
  | leftOver
  /-- A width or precision taken from an argument that is no integer. -/
  | starred
  /-- A width taken from an integer that is too large. -/
  | starredWidth
  /-- A precision taken from an integer that is too large. -/
  | starredPrecision
  /-- The text ends inside a conversion. -/
  | incomplete
  /-- A width that is too large. -/
  | width
  /-- A precision that is too large. -/
  | precision
  /-- A precision that is too large for an integer. -/
  | integerPrecision
  /-- A letter that is none of a conversion, and its place. -/
  | letter (letter : Char) (index : Nat)
  /-- Digits of something else than an integer. -/
  | digits (letter : Char) (sort : PartSort)
  /-- A double of something else than a number. -/
  | double (sort : PartSort)
  /-- A double of an integer beyond all doubles. -/
  | doubleRange
  /-- A character of something else than an integer or a character. -/
  | character
  /-- A character of an integer that is no code point. -/
  | characterRange
  /-- A result beyond all memory. -/
  | oversized
  deriving DecidableEq

/-- The letters that ask for digits in a base other than ten. -/
def isBased (letter : Char) : Bool :=
  letter = 'o' || letter = 'x' || letter = 'X'

/-- The wording of an issue. -/
def Issue.message : Issue → String
  | named => "format requires a mapping"
  | tooFew => "not enough arguments for format string"
  | leftOver => "not all arguments converted during string formatting"
  | starred => "* wants int"
  | starredWidth => "Python int too large to convert to C ssize_t"
  | starredPrecision => "Python int too large to convert to C int"
  | incomplete => "incomplete format"
  | width => "width too big"
  | precision => "precision too big"
  | integerPrecision => "precision too large"
  | letter c index =>
    let shown := if 31 ≤ c.toNat ∧ c.toNat < 127 then c else '?'
    "unsupported format character '" ++ String.singleton shown ++ "' (0x" ++ Text.hexText 1 c.toNat
      ++ ") at index " ++ toString index
  | digits c sort =>
    "%" ++ String.singleton c ++ " format: "
      ++ (if isBased c then "an integer" else "a real number") ++ " is required, not "
      ++ sort.fullName
  | double sort => "must be real number, not " ++ sort.fullName
  | doubleRange => "int too large to convert to float"
  | character => "%c requires int or char"
  | characterRange => "%c arg not in range(0x110000)"
  | oversized => ""

/-! ## Reading -/

/-- The largest size of a text, and so of a width. -/
def maxSize : Int := 9223372036854775807

/-- The largest precision. -/
def maxPrecision : Int := 2147483647

/-- The number that digits stand for. -/
def number (digits : List Char) : Nat :=
  digits.foldl (fun n c => 10 * n + (c.toNat - '0'.toNat)) 0

/-- The integer that a star takes from the argument. -/
def star (arg : Tree) (taken : Bool) : Except Issue Int :=
  if taken then .error .tooFew
  else
    match arg with
    | .int n => .ok n
    | _ => .error .starred

/-- What has been read of a conversion, what follows, and whether the argument has been taken. -/
structure Progress where
  conversion : Conversion
  taken : Bool
  rest : List Char

/-- Reads the flags. -/
def readFlags (taken : Bool) (cs : List Char) : Progress :=
  let isFlag (c : Char) : Bool := c = '-' || c = '+' || c = ' ' || c = '#' || c = '0'
  ⟨⟨cs.takeWhile isFlag, none, none, ' '⟩, taken, cs.dropWhile isFlag⟩

/-- Reads the width; a negative one from a star moves the text to the left. -/
def readWidth (arg : Tree) (p : Progress) : Except Issue Progress :=
  match p.rest with
  | '*' :: rest => do
    let n ← star arg p.taken
    if n < -maxSize - 1 ∨ maxSize < n then throw .starredWidth
    let flags := if n < 0 then '-' :: p.conversion.flags else p.conversion.flags
    return ⟨{ p.conversion with flags := flags, width := some n.natAbs }, true, rest⟩
  | cs =>
    let digits := cs.takeWhile Char.isDigit
    if digits.isEmpty then .ok p
    else if maxSize < number digits then .error .width
    else
      .ok ⟨{ p.conversion with width := some (number digits) }, p.taken, cs.dropWhile Char.isDigit⟩

/-- Reads the precision; a negative one from a star is zero. -/
def readPrecision (arg : Tree) (p : Progress) : Except Issue Progress :=
  match p.rest with
  | '.' :: '*' :: rest => do
    let n ← star arg p.taken
    if n < -maxPrecision - 1 ∨ maxPrecision < n then throw .starredPrecision
    return ⟨{ p.conversion with precision := some n.toNat }, true, rest⟩
  | '.' :: cs =>
    let n := number (cs.takeWhile Char.isDigit)
    if maxPrecision < n then .error .precision
    else .ok ⟨{ p.conversion with precision := some n }, p.taken, cs.dropWhile Char.isDigit⟩
  | _ => .ok p

/-- Passes over one mark of a length, which means nothing here. -/
def skipLength : List Char → List Char
  | c :: rest => if c = 'h' ∨ c = 'l' ∨ c = 'L' then rest else c :: rest
  | [] => []

/-- Reads the conversion behind a percent sign, up to its letter. -/
def read (arg : Tree) (taken : Bool) (cs : List Char) : Except Issue Progress := do
  if cs.head? = some '(' then throw .named
  let p ← readPrecision arg (← readWidth arg (readFlags taken cs))
  match skipLength p.rest with
  | [] => throw .incomplete
  | letter :: rest => return ⟨{ p.conversion with letter := letter }, p.taken, rest⟩

/-! ## Writing -/

/-- The longest text that is ever built. -/
def maxLength : Nat := 1099511627776

/-- Text in a field of the least width: a front that stays in front, and a body. Zeros may fill the
field between the two; blanks stand before both, or behind if the text is moved to the left. -/
def layOut (c : Conversion) (numeric : Bool) (front body : List Char) : Except Issue (List Char) :=
  let room := c.width.getD 0 - (front.length + body.length)
  if maxLength < room then .error .oversized
  else if c.flags.contains '-' then .ok (front ++ body ++ List.replicate room ' ')
  else if numeric && c.flags.contains '0' then .ok (front ++ List.replicate room '0' ++ body)
  else .ok (List.replicate room ' ' ++ front ++ body)

/-- The sign of a number; one that is not negative shows it only on demand. -/
def signText (c : Conversion) (negative : Bool) : List Char :=
  if negative then ['-']
  else if c.flags.contains '+' then ['+']
  else if c.flags.contains ' ' then [' ']
  else []

/-- A text, cut at the precision. -/
def textField (c : Conversion) (text : String) : Except Issue (List Char) :=
  c.layOut false [] (match c.precision with
    | some n => text.toList.take n
    | none => text.toList)

/-- A text with every character beyond ASCII written by its code point. -/
def ascii (text : String) : String :=
  String.join (text.toList.map fun c =>
    if c.toNat < 128 then String.singleton c else Text.escapedCode c)

/-- An integer in digits; the precision is the least number of them. -/
def integerField (c : Conversion) (n : Int) : Except Issue (List Char) :=
  if (c.precision.map fun p => decide (maxPrecision - 3 < p)) = some true then
    .error .integerPrecision
  else
    let base := if c.letter = 'o' then 8 else if isBased c.letter then 16 else 10
    let digits := Nat.toDigits base n.natAbs
    let digits := List.replicate (c.precision.getD 0 - digits.length) '0' ++ digits
    let digits := if c.letter = 'X' then digits.map Char.toUpper else digits
    let base := if isBased c.letter && c.flags.contains '#' then ['0', c.letter] else []
    c.layOut true (c.signText (n < 0) ++ base) digits

/-- The double nearest to a natural number, a half to the even neighbour, as the natural number that
it is; the largest doubles end below two to the power of 1024. -/
def nearestDouble? (n : Nat) : Option Nat :=
  let shift := Nat.log2 n - 52
  let unit := 1 <<< shift
  let quotient := n / unit
  let twice := 2 * (n % unit)
  let up := twice > unit ∨ (twice = unit ∧ quotient % 2 = 1)
  let rounded := (if up then quotient + 1 else quotient) * unit
  if rounded < 1 <<< 1024 then some rounded else none

/-- The first digits of a number, rounded, and the exponent of the leading one. -/
def leading (count n : Nat) : List Char × Nat :=
  let size := Decimal.digitCount n
  if size ≤ count then (Nat.toDigits 10 n ++ List.replicate (count - size) '0', size - 1)
  else
    let digits := Nat.toDigits 10 (Decimal.roundOff n (size - count))
    if digits.length ≤ count then (digits, size - 1) else (digits.take count, size)

/-- Digits with a point behind the given number of them; the point is left out if nothing follows,
unless it is asked for. -/
def pointed (alternate : Bool) (whole fraction : List Char) : List Char :=
  if fraction.isEmpty && !alternate then whole else whole ++ '.' :: fraction

/-- The exponent of a scientific form, of two digits at least. -/
def exponentText (letter : Char) (n : Nat) : List Char :=
  letter :: '+' :: (List.replicate (2 - Decimal.digitCount n) '0' ++ Nat.toDigits 10 n)

/-- Cuts zeros off at the end. -/
def trimZeros (digits : List Char) : List Char :=
  (digits.reverse.dropWhile (· = '0')).reverse

/-- A natural number in one of the forms of doubles. -/
def doubleText (c : Conversion) (n : Nat) : List Char :=
  let alternate := c.flags.contains '#'
  let precision := c.precision.getD 6
  let mark := if c.letter.isUpper then 'E' else 'e'
  if c.letter = 'f' ∨ c.letter = 'F' then
    pointed alternate (Nat.toDigits 10 n) (List.replicate precision '0')
  else if c.letter = 'e' ∨ c.letter = 'E' then
    let (digits, exponent) := leading (precision + 1) n
    pointed alternate (digits.take 1) (digits.drop 1) ++ exponentText mark exponent
  else
    let count := max precision 1
    let (digits, exponent) := leading count n
    let place := if exponent < count then exponent + 1 else 1
    let fraction := digits.drop place
    let fraction := if alternate then fraction else trimZeros fraction
    pointed alternate (digits.take place) fraction
      ++ (if exponent < count then [] else exponentText mark exponent)

/-- An integer as the double nearest to it. -/
def doubleField (c : Conversion) (n : Int) : Except Issue (List Char) :=
  match nearestDouble? n.natAbs with
  | some m => c.layOut true (c.signText (n < 0)) (c.doubleText m)
  | none => .error .doubleRange

/-- The character that an argument stands for. -/
def characterOf (arg : Tree) : Except Issue Char :=
  match arg with
  | .int n => if n < 0 ∨ 0x10FFFF < n then .error .characterRange else .ok (Char.ofNat n.toNat)
  | other =>
    match other.words?.map String.toList with
    | some [c] => .ok c
    | _ => .error .character

/-- An argument as a conversion asks for it; the place of the letter is for the message. -/
def apply (c : Conversion) (index : Nat) (arg : Tree) : Except Issue (List Char) :=
  if c.letter = 's' then c.textField arg.plain
  else if c.letter = 'r' then c.textField arg.shown
  else if c.letter = 'a' then c.textField (ascii arg.shown)
  else if ['d', 'i', 'u', 'o', 'x', 'X'].contains c.letter then
    match arg with
    | .int n => c.integerField n
    | other => .error (.digits c.letter other.sort)
  else if ['e', 'E', 'f', 'F', 'g', 'G'].contains c.letter then
    match arg with
    | .int n => c.doubleField n
    | other => .error (.double other.sort)
  else if c.letter = 'c' then do
    c.layOut false [] [← characterOf arg]
  else .error (.letter c.letter index)

/-! ## Filling in -/

/-- The rest of a text with its conversions carried out. The bound is on the number of steps, each
of which takes at least one character; the size is that of the whole text. -/
def fillFrom (arg : Tree) (size : Nat) : Nat → Bool → List Char → Except Issue (List Char)
  | _, taken, [] => if taken then .ok [] else .error .leftOver
  | 0, _, _ :: _ => .error .incomplete
  | n + 1, taken, '%' :: '%' :: rest => do
    return '%' :: (← fillFrom arg size n taken rest)
  | n + 1, taken, '%' :: rest => do
    let p ← read arg taken rest
    if p.taken then throw .tooFew
    let text ← p.conversion.apply (size - p.rest.length - 1) arg
    return text ++ (← fillFrom arg size n true p.rest)
  | n + 1, taken, c :: rest => do
    return c :: (← fillFrom arg size n taken rest)

/-- A text with its conversions carried out on one argument. -/
def fill (pattern : String) (arg : Tree) : Except Issue String :=
  let cs := pattern.toList
  (fillFrom arg cs.length cs.length false cs).map String.ofList

end Conversion

end Treewalk
