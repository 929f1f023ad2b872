import Mathlib.Data.Rat.Floor

/-!
# Formulas over the integers

What arithmetic on integers is meant to be, with no mention of how it is written or computed. A
formula is a tree of numbers, negations and operations. Its value is an integer of any size, and it
has none if a division within it has a divisor that is zero.

The quotient is the floor of the exact quotient, and the remainder is what the quotient leaves. So
the remainder is zero or has the sign of the divisor, and is smaller.

## Main definitions

* `quotient`, `remainder`
* `Op`, the five operations, and `Formula`
* `Formula.value`, and `Formula.DividesByZero`

## Main results

* `quotient_eq_fdiv`, `remainder_eq_fmod`: the division that rounds to the floor
* `remainder_bounds`: sign and size of a remainder
* `Formula.value_eq_none_iff`: only a division by zero has no value

## Implementation notes

The quotient is defined by the floor of a rational number and not by one of the integer divisions
of the library, of which there are several that differ for negative numbers. A reader need not
know which of them rounds how; `quotient_eq_fdiv` says afterwards which one it is, and evaluation is
compared with that one.

`Formula.value` is partial and `DividesByZero` is a second description of where it is undefined. The
two are kept apart because the second is the one that a user would give: it names a divisor and
says that its value is zero. An operand that has no value itself makes the formula `DividesByZero`
through the first two disjuncts, so the last may ask for a value.
-/

namespace Treewalk.Arithmetic

/-! ## Division -/

/-- The floor of the exact quotient. -/
def quotient (a b : ℤ) : ℤ :=
  ⌊(a : ℚ) / b⌋

/-- What the quotient leaves. -/
def remainder (a b : ℤ) : ℤ :=
  a - quotient a b * b

/-- A quotient is rounded down and not towards zero, for all signs of the operands. -/
theorem quotient_eq_fdiv (a b : ℤ) : quotient a b = a.fdiv b := by
  have hnonneg : ∀ (a : ℤ) (n : ℕ), ⌊(a : ℚ) / (n : ℤ)⌋ = a.fdiv n := by
    intro a n
    rw [Int.fdiv_eq_ediv_of_nonneg a (Int.natCast_nonneg n), Int.cast_natCast]
    exact Rat.floor_intCast_div_natCast a n
  -- A negative divisor changes the signs of both numbers, and the quotient is the same.
  rcases Int.eq_nat_or_neg b with ⟨n, rfl | rfl⟩
  · exact hnonneg a n
  · have h := hnonneg (-a) n
    rw [quotient, Int.cast_neg, div_neg, ← neg_div, ← Int.cast_neg, h, ← Int.neg_fdiv_neg, neg_neg]

/-- A remainder goes with the quotient that is rounded down. -/
theorem remainder_eq_fmod (a b : ℤ) : remainder a b = a.fmod b := by
  rw [remainder, quotient_eq_fdiv, Int.fmod_def, mul_comm]

/-- A remainder is zero or has the sign of the divisor, and it is smaller. -/
theorem remainder_bounds (a : ℤ) {b : ℤ} (hb : b ≠ 0) :
    (remainder a b = 0 ∨ (remainder a b).sign = b.sign) ∧ |remainder a b| < |b| := by
  rw [remainder_eq_fmod]
  have hpos : ∀ (a : ℤ) {b : ℤ}, 0 < b → 0 ≤ a.fmod b ∧ a.fmod b < b := fun a b h =>
    ⟨Int.fmod_nonneg_of_pos a h, Int.fmod_lt_of_pos a h⟩
  obtain hneg | hzero | hb := lt_trichotomy b 0
  · have h := hpos (-a) (Int.neg_pos.mpr hneg)
    rw [Int.neg_fmod_neg] at h
    constructor
    · obtain heq | hlt := eq_or_lt_of_le h.1
      · exact .inl (by omega)
      · exact .inr (by rw [Int.sign_eq_neg_one_of_neg hneg, Int.sign_eq_neg_one_of_neg (by omega)])
    · rw [abs_lt, abs_of_neg hneg]
      omega
  · exact absurd hzero hb
  · have h := hpos a hb
    constructor
    · obtain heq | hlt := eq_or_lt_of_le h.1
      · exact .inl heq.symm
      · exact .inr (by rw [Int.sign_eq_one_of_pos hlt, Int.sign_eq_one_of_pos hb])
    · rw [abs_lt, abs_of_pos hb]
      omega

/-! ## Formulas -/

/-- The operations on two integers. -/
inductive Op where
  | add | sub | mul | div | mod
  deriving DecidableEq

namespace Op

/-- What an operation gives; a division by zero gives nothing. -/
def apply : Op → ℤ → ℤ → Option ℤ
  | add, a, b => some (a + b)
  | sub, a, b => some (a - b)
  | mul, a, b => some (a * b)
  | div, a, b => if b = 0 then none else some (quotient a b)
  | mod, a, b => if b = 0 then none else some (remainder a b)

/-- Whether the second operand is a divisor. -/
def Divides : Op → Prop
  | div | mod => True
  | add | sub | mul => False

theorem apply_eq_none_iff (op : Op) (a b : ℤ) : op.apply a b = none ↔ op.Divides ∧ b = 0 := by
  cases op <;> simp [apply, Divides]

end Op

/-- A tree of numbers, negations and operations. -/
inductive Formula where
  | literal (n : ℕ)
  | neg (t : Formula)
  | binary (op : Op) (lhs rhs : Formula)

namespace Formula

/-- The integer that a formula stands for, if it stands for one. -/
def value : Formula → Option ℤ
  | literal n => some n
  | neg t => t.value.map fun a => -a
  | binary op lhs rhs => lhs.value.bind fun a => rhs.value.bind fun b => op.apply a b

/-- Somewhere in a formula there is a divisor whose value is zero. -/
def DividesByZero : Formula → Prop
  | literal _ => False
  | neg t => t.DividesByZero
  | binary op lhs rhs =>
    lhs.DividesByZero ∨ rhs.DividesByZero ∨ op.Divides ∧ rhs.value = some 0

/-- Only a division by zero has no value. -/
theorem value_eq_none_iff (t : Formula) : t.value = none ↔ t.DividesByZero := by
  induction t with
  | literal n => simp [value, DividesByZero]
  | neg t ih => rw [value, DividesByZero, Option.map_eq_none_iff, ih]
  | binary op lhs rhs ihl ihr =>
    rw [value, DividesByZero, ← ihl, ← ihr]
    cases hl : lhs.value with
    | none => simp
    | some a =>
      cases hr : rhs.value with
      | none => simp
      | some b => simp [Op.apply_eq_none_iff]

end Formula

end Treewalk.Arithmetic
