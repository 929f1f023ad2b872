import Treewalk.Decimal.Basic

/-!
# Rounding decimals

Every operation computes an exact coefficient and exponent and then fits them into a format: a
number of digits and a range of exponents. Digits that do not fit are rounded off, a half to the
even neighbour. A value too large for the format is refused; one too small for a full coefficient
keeps as many digits as the lowest exponent allows, possibly none.

## Main definitions

* `Format`, and `Format.standard`, the one that the language uses
* `roundOff`, dropping digits to the nearest, a half to even
* `Format.fit`, the value of the format for an exact result

## Implementation notes

A format is an argument everywhere, so the number of digits occurs in no definition. It is one
record because digits and range belong together: the lowest exponent depends on both.

`roundOff` answers zero at once if more digits are dropped than there are. The general branch would
give the same, but it would write out a power of ten whose size is that of an exponent.
-/

namespace Treewalk.Decimal

/-- Why an operation has no result. -/
inductive Issue where
  /-- The result is too large. -/
  | overflow
  /-- The operands have no result, such as the difference of infinities. -/
  | invalid
  deriving DecidableEq

/-- A number of digits, and the range of the leading digit's exponent. -/
structure Format where
  digits : Nat
  maxExponent : Int
  minExponent : Int

namespace Format

/-- Twenty-eight digits, with exponents of six digits. -/
def standard : Format := ⟨28, 999999, -999999⟩

/-- The lowest exponent of all, where a single digit is left. -/
def tiny (f : Format) : Int :=
  f.minExponent - f.digits + 1

end Format

/-- Divides by a power of ten and rounds to the nearest, a half to the even neighbour. A number
with fewer digits than are dropped is less than a half. -/
def roundOff (n drop : Nat) : Nat :=
  if digitCount n < drop then 0
  else
    let unit := tenTo drop
    let quotient := n / unit
    let twice := 2 * (n % unit)
    if twice > unit ∨ (twice = unit ∧ quotient % 2 = 1) then quotient + 1 else quotient

namespace Format

/-- The value of the format for an exact sign, coefficient and exponent. A zero keeps its
exponent as far as the range allows. Rounding up to a power of ten may give one digit too many,
which is then a zero and goes. -/
def fit (f : Format) (negative : Bool) (coefficient : Nat) (exponent : Int) :
    Except Issue Decimal :=
  if coefficient = 0 then .ok (.finite negative 0 (min (max exponent f.tiny) f.maxExponent))
  else if adjusted coefficient exponent > f.maxExponent then .error .overflow
  else
    let lowest := max (exponent + digitCount coefficient - f.digits) f.tiny
    if lowest ≤ exponent then .ok (.finite negative coefficient exponent)
    else
      let rounded := roundOff coefficient (lowest - exponent).toNat
      if digitCount rounded ≤ f.digits then .ok (.finite negative rounded lowest)
      else if adjusted (rounded / 10) (lowest + 1) > f.maxExponent then .error .overflow
      else .ok (.finite negative (rounded / 10) (lowest + 1))

end Format

end Treewalk.Decimal
