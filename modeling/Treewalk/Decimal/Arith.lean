import Treewalk.Decimal.Rounding

/-!
# Decimal arithmetic

Sum, difference, product, quotient and negation. Each computes the exact result, or a stand-in
that rounds the same way, and fits it into the format.

Two results cannot be written out in full. A sum of operands that lie very far apart would need a
coefficient of astronomic length; there the smaller operand is moved up to just below the last
digit that matters, where it still decides the rounding. A quotient need not end; it is cut one
digit behind the last one that is kept, and a remainder is recorded in that digit.

An operand that is no number is passed on as the result, unless it is signalling.

## Main definitions

* `add`, `sub`, `mul`, `div`, `neg`

## Implementation notes

The result of an operation is an exact sign, coefficient and exponent, and `Format.fit` is the only
place where digits are lost. So an operation is right if what it hands over is exact, or rounds like
what is exact, and it need not know how the format rounds.

Bounding the work is part of the definitions. `horizon` keeps a sum from being as long as the
distance of the exponents, `dropZeros` counts down the digits that there can be at most, and
`scaled` leaves a zero alone however large the shift is.
-/

namespace Treewalk.Decimal

/-- A coefficient with its sign. -/
def signed (negative : Bool) (coefficient : Nat) : Int :=
  if negative then -coefficient else coefficient

/-- A coefficient with zeros behind it; a zero needs none, however many are asked for. -/
def scaled (coefficient places : Nat) : Nat :=
  if coefficient = 0 then 0 else coefficient * tenTo places

@[simp] theorem scaled_eq (coefficient places : Nat) :
    scaled coefficient places = coefficient * tenTo places := by
  unfold scaled
  split <;> simp_all

/-! ## Operands that are no number -/

/-- The result of an operation with an operand that is no number: the first such operand, with as
much of its payload as the format has digits. A signalling one is refused, and so are two operands
that are numbers. -/
def passOn (f : Format) (a b : Decimal) : Except Issue Decimal :=
  if a.isSignalling || b.isSignalling then .error .invalid
  else
    match a, b with
    | .nan _ negative payload, _ => .ok (.nan false negative (payload % tenTo f.digits))
    | _, .nan _ negative payload => .ok (.nan false negative (payload % tenTo f.digits))
    | _, _ => .error .invalid

/-! ## Sum and difference -/

/-- The exponent to which a small operand is moved up beside a large one: below the last digit
that the format keeps of the sum, with room for a carry and for a borrow. -/
def horizon (f : Format) (coefficient : Nat) (exponent : Int) : Int :=
  exponent + min (-1) ((digitCount coefficient : Int) - f.digits - 2)

/-- The small operand beside a large one: itself if it reaches the horizon, otherwise a unit (or a
zero) there. -/
def nearby (f : Format) (coefficient : Nat) (exponent : Int) (small : Nat) (smallExponent : Int) :
    Nat × Int :=
  let cut := horizon f coefficient exponent
  if coefficient ≠ 0 ∧ adjusted small smallExponent < cut then (min small 1, cut)
  else (small, smallExponent)

/-- The sum of two finite operands, the first of which has the larger exponent. A sum of zero is
positive unless both operands are negative. -/
def addAligned (f : Format) (n₁ : Bool) (c₁ : Nat) (e₁ : Int) (n₂ : Bool) (c₂ : Nat) (e₂ : Int) :
    Except Issue Decimal :=
  let (small, low) := nearby f c₁ e₁ c₂ e₂
  let total := signed n₁ (scaled c₁ (e₁ - low).toNat) + signed n₂ small
  f.fit (if total = 0 then n₁ && n₂ else total < 0) total.natAbs low

/-- The sum, rounded to the format. -/
def add (f : Format) (a b : Decimal) : Except Issue Decimal :=
  match a, b with
  | .infinite n₁, .infinite n₂ => if n₁ = n₂ then .ok (.infinite n₁) else .error .invalid
  | .infinite n, .finite _ _ _ => .ok (.infinite n)
  | .finite _ _ _, .infinite n => .ok (.infinite n)
  | .finite n₁ c₁ e₁, .finite n₂ c₂ e₂ =>
    if e₂ ≤ e₁ then addAligned f n₁ c₁ e₁ n₂ c₂ e₂ else addAligned f n₂ c₂ e₂ n₁ c₁ e₁
  | a, b => passOn f a b

/-- The value with the other sign, unrounded; what is no number keeps its own. -/
def flip : Decimal → Decimal
  | .finite negative coefficient exponent => .finite (!negative) coefficient exponent
  | .infinite negative => .infinite (!negative)
  | .nan signalling negative payload => .nan signalling negative payload

/-- The difference, rounded to the format. -/
def sub (f : Format) (a b : Decimal) : Except Issue Decimal :=
  add f a b.flip

/-- The negation, rounded to the format; that of a zero is positive. -/
def neg (f : Format) (a : Decimal) : Except Issue Decimal :=
  match a with
  | .infinite negative => .ok (.infinite (!negative))
  | .finite negative coefficient exponent =>
    f.fit (coefficient ≠ 0 && !negative) coefficient exponent
  | .nan _ _ _ => passOn f a a

/-! ## Product and quotient -/

/-- The product, rounded to the format. -/
def mul (f : Format) (a b : Decimal) : Except Issue Decimal :=
  match a, b with
  | .finite n₁ c₁ e₁, .finite n₂ c₂ e₂ => f.fit (n₁ != n₂) (c₁ * c₂) (e₁ + e₂)
  | .infinite n₁, .infinite n₂ => .ok (.infinite (n₁ != n₂))
  | .infinite n₁, .finite n₂ c _ => if c = 0 then .error .invalid else .ok (.infinite (n₁ != n₂))
  | .finite n₁ c _, .infinite n₂ => if c = 0 then .error .invalid else .ok (.infinite (n₁ != n₂))
  | a, b => passOn f a b

/-- Drops zeros at the end of a coefficient while its exponent stays below a goal; the number of
zeros to drop is bounded first. -/
def dropZeros : Nat → Nat → Int → Int → Nat × Int
  | 0, coefficient, exponent, _ => (coefficient, exponent)
  | n + 1, coefficient, exponent, goal =>
    if exponent < goal ∧ coefficient % 10 = 0 then
      dropZeros n (coefficient / 10) (exponent + 1) goal
    else (coefficient, exponent)

/-- The quotient of nonzero coefficients to one digit more than the format keeps. A remainder is
recorded by making a last digit of zero or five odd, so that rounding sees that something follows;
an exact quotient comes as close to the difference of the exponents as it can. -/
def divideFinite (f : Format) (c₁ : Nat) (e₁ : Int) (c₂ : Nat) (e₂ : Int) : Nat × Int :=
  let shift : Int := (digitCount c₂ : Int) - digitCount c₁ + f.digits + 1
  let dividend := c₁ * tenTo shift.toNat
  let divisor := c₂ * tenTo (-shift).toNat
  let quotient := dividend / divisor
  let exponent := e₁ - e₂ - shift
  if dividend % divisor = 0 then dropZeros (digitCount quotient) quotient exponent (e₁ - e₂)
  else if quotient % 5 = 0 then (quotient + 1, exponent)
  else (quotient, exponent)

/-- The quotient, rounded to the format. A divisor of zero is the caller's to refuse; here it has
no result. -/
def div (f : Format) (a b : Decimal) : Except Issue Decimal :=
  match a, b with
  | .infinite _, .infinite _ => .error .invalid
  | .infinite n₁, .finite n₂ _ _ => .ok (.infinite (n₁ != n₂))
  | .finite n₁ _ _, .infinite n₂ => .ok (.finite (n₁ != n₂) 0 f.tiny)
  | .finite n₁ c₁ e₁, .finite n₂ c₂ e₂ =>
    if c₂ = 0 then .error .invalid
    else if c₁ = 0 then f.fit (n₁ != n₂) 0 (e₁ - e₂)
    else
      let (coefficient, exponent) := divideFinite f c₁ e₁ c₂ e₂
      f.fit (n₁ != n₂) coefficient exponent
  | a, b => passOn f a b

end Treewalk.Decimal
