/-!
# Decimal numbers

A finite decimal keeps its sign, a coefficient and an exponent of ten. The three are kept as they
are, so `1.5` and `1.50` are equal in value and still distinct, and zero has a sign and an
exponent too. Infinities and results that are no number exist as values, though no source can write
one.

## Main definitions

* `Decimal`
* `Decimal.digitCount`, the number of decimal digits, and `Decimal.tenTo`, a power of ten
* `Decimal.adjusted`, the exponent of the leading digit
* `Decimal.compare`, the order of exact values, which never expands a large exponent, and
  `Decimal.compare?`, `Decimal.equal?`, which know what is no number
* `Decimal.ofInt`, the exact conversion

## Implementation notes

Coefficient and exponent are not normalised, since both are observable: a display shows the zeros
at the end of a coefficient. A structure with a normal form would have to keep the lost zeros
somewhere else.

Infinities and what is no number take part in all definitions. No program comes to them, but a tree
made by hand may have a text in the place of a number, and a text may spell one of them. The order
and the sign give them arbitrary values where they have none; `compare?` and `equal?` are what
callers use.
-/

namespace Treewalk

/-- A signed coefficient times a power of ten, an infinity, or no number at all. The last has a sign
and a payload too; a signalling one may not take part in any operation. -/
inductive Decimal where
  | finite (negative : Bool) (coefficient : Nat) (exponent : Int)
  | infinite (negative : Bool)
  | nan (signalling negative : Bool) (payload : Nat)
  deriving DecidableEq

namespace Decimal

/-- The number of decimal digits of a coefficient; zero has one. -/
def digitCount (n : Nat) : Nat :=
  (Nat.toDigits 10 n).length

/-- A power of ten. -/
def tenTo (n : Nat) : Nat :=
  Nat.pow 10 n

/-- The exponent of the leading digit. -/
def adjusted (coefficient : Nat) (exponent : Int) : Int :=
  exponent + digitCount coefficient - 1

/-- An integer is a decimal with exponent zero. -/
def ofInt (n : Int) : Decimal :=
  .finite (n < 0) n.natAbs 0

/-- Value zero, whatever the sign and the exponent. -/
def isZero : Decimal → Bool
  | .finite _ coefficient _ => coefficient = 0
  | .infinite _ | .nan _ _ _ => false

/-- Neither an infinity nor without a number. -/
def isFinite : Decimal → Bool
  | .finite _ _ _ => true
  | .infinite _ | .nan _ _ _ => false

/-- No number. -/
def isNan : Decimal → Bool
  | .nan _ _ _ => true
  | .finite _ _ _ | .infinite _ => false

/-- No number, and not to be operated on. -/
def isSignalling : Decimal → Bool
  | .nan signalling _ _ => signalling
  | .finite _ _ _ | .infinite _ => false

/-! ## Order -/

/-- The order of two magnitudes that are not zero. Unless the leading digits have the same place,
the places decide; if they have, the exponents differ by less than the digits do, and the
coefficients are brought to one exponent. -/
def compareMagnitude (c₁ : Nat) (e₁ : Int) (c₂ : Nat) (e₂ : Int) : Ordering :=
  if adjusted c₁ e₁ = adjusted c₂ e₂ then
    Ord.compare (c₁ * tenTo (e₁ - e₂).toNat) (c₂ * tenTo (e₂ - e₁).toNat)
  else Ord.compare (adjusted c₁ e₁) (adjusted c₂ e₂)

/-- The class of a value by its sign: below zero, zero, above zero. What is no number has no class,
and counts as zero here. -/
def sign : Decimal → Int
  | .finite negative coefficient _ => if coefficient = 0 then 0 else if negative then -1 else 1
  | .infinite negative => if negative then -1 else 1
  | .nan _ _ _ => 0

/-- The order of the magnitudes of two values, neither of which is zero. -/
def compareAbs : Decimal → Decimal → Ordering
  | .finite _ c₁ e₁, .finite _ c₂ e₂ => compareMagnitude c₁ e₁ c₂ e₂
  | .finite _ _ _, .infinite _ => .lt
  | .infinite _, .finite _ _ _ => .gt
  | .infinite _, .infinite _ => .eq
  | .nan _ _ _, _ | _, .nan _ _ _ => .eq

/-- The order of exact values, both of which are numbers. -/
def compare (a b : Decimal) : Ordering :=
  if a.sign = b.sign then
    if a.sign = 0 then .eq else if a.sign = 1 then compareAbs a b else compareAbs b a
  else Ord.compare a.sign b.sign

/-- The order of exact values, if both are numbers. -/
def compare? (a b : Decimal) : Option Ordering :=
  if a.isNan || b.isNan then none else some (a.compare b)

/-- Equality of exact values. What is no number differs from all, and may not even be asked about if
it is signalling. -/
def equal? (a b : Decimal) : Option Bool :=
  if a.isSignalling || b.isSignalling then none else some (a.compare? b = some .eq)

@[simp] theorem isFinite_ofInt (n : Int) : (ofInt n).isFinite = true := rfl

theorem exists_finite {d : Decimal} (h : d.isFinite = true) : ∃ n c e, d = .finite n c e := by
  cases d with
  | finite n c e => exact ⟨n, c, e, rfl⟩
  | infinite | nan => cases h

end Decimal

end Treewalk
