import Treewalk.Source.Diagnostic
import Treewalk.Text.Letter
import Treewalk.Token.Kind

/-!
# Shapes of tokens

Where tokens begin and end depends on characters alone, so this module works on lists of
characters and knows neither bytes nor places. `shapeAt` looks at the characters from the first of
a token on and says how many belong to it, of which kind it is, and what is wrong with it.
Scanning never fails: a malformed literal is cut where it stops making sense and carries its
problem, and a character that starts nothing is a token of its own.

## Main definitions

* `isSpace`, what may stand between tokens
* `Shape`, kind, size and problem of a token
* `shapeAt`, the shape of the token that a character starts
* `Slot`, a gap of spaces and the shape behind it
* `slots`, the cutting of a whole text

## Main results

* `shapeAt_size_pos`: every token has at least one character

## Implementation notes

A shape is a size and not a pair of texts. The text in front is recovered by taking so many
characters, and what is left by dropping them, so no lemma has to relate two lists that were split
by different functions.

Every literal that is malformed still has a kind and a size. Where it is cut decides which
characters start the next token, and this is part of what a source means, for scanning goes on.
-/

namespace Treewalk

/-! ## Classes of characters -/

/-- What may stand between tokens. -/
def isSpace (c : Char) : Bool :=
  c = ' ' || c = '\t' || c = '\r' || c = '\n'

/-- A decimal digit of a literal. -/
def isDecimalDigit (c : Char) : Bool :=
  '0' ≤ c && c ≤ '9'

/-- A character that may start a name. -/
def isNameStart (c : Char) : Bool :=
  c = '_' || Text.isLetter c

/-- A character that may continue a name. -/
def isNamePart (c : Char) : Bool :=
  isNameStart c || isDecimalDigit c

/-- A name may end in one of these. -/
def isNameEnd (c : Char) : Bool :=
  c = '!' || c = '?'

/-- The digits of a radix, by the letter that announces it. -/
def radixDigit? (letter : Char) : Option (Char → Bool) :=
  if letter = 'b' then some fun c => c = '0' || c = '1'
  else if letter = 'o' then some fun c => '0' ≤ c && c ≤ '7'
  else if letter = 'x' then
    some fun c => isDecimalDigit c || ('a' ≤ c && c ≤ 'f') || ('A' ≤ c && c ≤ 'F')
  else none

/-! ## Shapes -/

/-- The kind of a token, the number of its characters and what is wrong with it. -/
structure Shape where
  kind : Kind
  size : Nat
  problem : Option Problem
  deriving DecidableEq

namespace Shape

/-- The number of characters at the front that satisfy a test. -/
def span (p : Char → Bool) (cs : List Char) : Nat :=
  (cs.takeWhile p).length

/-- A name or a reserved word, with at most one sign at its end. -/
def word (c : Char) (cs : List Char) : Shape :=
  let part := cs.takeWhile isNamePart
  let sign := ((cs.dropWhile isNamePart).take 1).filter isNameEnd
  let text := c :: part ++ sign
  ⟨Kind.ofWord (String.ofList text), text.length, none⟩

/-- The exponent that may follow the digits of a number; what stands before it is given by its
kind and size. -/
def exponent (kind : Kind) (size : Nat) (cs : List Char) : Shape :=
  match cs with
  | [] => ⟨kind, size, none⟩
  | e :: rest =>
    if e = 'e' ∨ e = 'E' then
      let sign := ((rest.take 1).filter fun c => c = '+' || c = '-').length
      let digits := span isDecimalDigit (rest.drop sign)
      ⟨.float, size + 1 + sign + digits, if digits = 0 then some .noExponent else none⟩
    else ⟨kind, size, none⟩

/-- A number in decimal digits, with an optional fraction and an optional exponent. -/
def decimal (cs : List Char) : Shape :=
  let whole := span isDecimalDigit cs
  match cs.drop whole with
  | '.' :: rest =>
    let digits := span isDecimalDigit rest
    if digits = 0 then ⟨.float, whole + 1, some .noFraction⟩
    else exponent .float (whole + 1 + digits) (rest.drop digits)
  | rest => exponent .int whole rest

/-- A number: a zero and a radix letter start an integer in that radix, all else is decimal. -/
def number (c : Char) (cs : List Char) : Shape :=
  match if c = '0' then cs.head?.bind radixDigit? else none with
  | some digit =>
    let digits := span digit (cs.drop 1)
    ⟨.int, 2 + digits, if digits = 0 then some .noRadixDigits else none⟩
  | none => decimal (c :: cs)

/-- A character literal, behind its opening quote. -/
def charLiteral (cs : List Char) : Shape :=
  match cs with
  | [] => ⟨.char, 1, some .openChar⟩
  | c :: rest =>
    if c = '\'' then ⟨.char, 2, some .emptyChar⟩
    else if c = '\n' then ⟨.char, 1, some .openChar⟩
    else if rest.head? = some '\'' then ⟨.char, 3, none⟩
    else ⟨.char, 2, some .openChar⟩

/-- A string literal, behind its opening quote; it ends with its line at the latest. -/
def stringLiteral (cs : List Char) : Shape :=
  let size := span (fun c => c ≠ '"' && c ≠ '\n') cs
  if (cs.drop size).head? = some '"' then ⟨.string, size + 2, none⟩
  else ⟨.string, size + 1, some .openString⟩

/-- A comment, behind its sign; the end of the line is no part of it. -/
def comment (cs : List Char) : Shape :=
  ⟨.comment, 1 + span (fun c => c ≠ '\n') cs, none⟩

/-- The kind of an operator of two characters. -/
def pairKind? (c d : Char) : Option Kind :=
  [(('=', '='), Kind.equal), (('=', '>'), .arrow), (('/', '='), .unequal),
    (('>', '='), .greaterEqual), (('<', '='), .lessEqual)].lookup (c, d)

/-- The kind of an operator of one character. -/
def signKind? (c : Char) : Option Kind :=
  [('+', Kind.plus), ('-', .minus), ('*', .star), ('/', .slash), ('%', .percent), ('=', .assign),
    ('>', .greater), ('<', .less), ('(', .lparen), (')', .rparen), ('{', .lbrace), ('}', .rbrace),
    (';', .semicolon), (',', .comma)].lookup c

/-- An operator, the longer reading first; a character that is none stands alone as invalid. -/
def operator (c : Char) (cs : List Char) : Shape :=
  match cs.head?.bind (pairKind? c) with
  | some kind => ⟨kind, 2, none⟩
  | none => ⟨(signKind? c).getD .invalid, 1, none⟩

end Shape

/-- The shape of the token that a character starts, given the characters behind it. -/
def shapeAt (c : Char) (cs : List Char) : Shape :=
  if isNameStart c then .word c cs
  else if isDecimalDigit c then .number c cs
  else if c = '"' then .stringLiteral cs
  else if c = '\'' then .charLiteral cs
  else if c = '#' then .comment cs
  else .operator c cs

/-! ## Cutting a text -/

/-- A number of spaces and the shape of the token behind them. -/
structure Slot where
  gap : Nat
  shape : Shape
  deriving DecidableEq

/-- The slots behind a gap that is already counted and a number of characters that belong to the
token before. -/
def slotsFrom : Nat → Nat → List Char → List Slot
  | _, _, [] => []
  | gap, n + 1, _ :: cs => slotsFrom gap n cs
  | gap, 0, c :: cs =>
    if isSpace c then slotsFrom (gap + 1) 0 cs
    else
      let shape := shapeAt c cs
      ⟨gap, shape⟩ :: slotsFrom 0 (shape.size - 1) cs

/-- The cutting of a text into spaces and tokens. -/
def slots (cs : List Char) : List Slot :=
  slotsFrom 0 0 cs

/-! ## Progress -/

theorem Shape.exponent_size_le (kind : Kind) (size : Nat) (cs : List Char) :
    size ≤ (exponent kind size cs).size := by
  unfold exponent
  split
  · exact Nat.le_refl _
  · split
    · simp only
      omega
    · exact Nat.le_refl _

/-- Every token has at least one character. -/
theorem shapeAt_size_pos (c : Char) (cs : List Char) : 0 < (shapeAt c cs).size := by
  unfold shapeAt
  split
  · simp [Shape.word]
  split
  · rename_i h
    unfold Shape.number
    split
    · simp only
      omega
    · unfold Shape.decimal
      have hw : 0 < Shape.span isDecimalDigit (c :: cs) := by simp [Shape.span, h]
      simp only
      split
      · split
        · simp
        · exact Nat.lt_of_lt_of_le (by omega) (Shape.exponent_size_le _ _ _)
      · exact Nat.lt_of_lt_of_le hw (Shape.exponent_size_le _ _ _)
  split
  · unfold Shape.stringLiteral
    simp only
    split <;> simp
  split
  · unfold Shape.charLiteral
    split
    · simp
    · split
      · simp
      · split
        · simp
        · split <;> simp
  split
  · simp only [Shape.comment]
    omega
  · unfold Shape.operator
    split <;> simp

end Treewalk
