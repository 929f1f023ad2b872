import Treewalk.Decimal.Arith
import Treewalk.Proofs.Decimal.Nearest

/-!
# Fitting into a format

A format has a number of digits and a range of exponents. What a number becomes in it can be said of
the number alone: it is rounded to as many significant digits as there are, unless it is below the
range, where all numbers have the same unit; and if the rounded number is above the range, there is
none. `Format.fit` finds this out by counting digits of coefficients.

## Why the result is said of the value

What `Format.fit` does is told by digits: they are counted, dropped, and one is dropped once more if
rounding has carried. A statement in these terms could only repeat the definition. `Format.nearest`
and `Format.Overflows` do not mention coefficients at all, so they can be read without knowing how
decimals are represented, and two representations of one value trivially give the same.

There are two regimes and hence an `if` in `nearest`. At or above the lowest exponent the unit
follows the number, so that as many digits are significant as the format has. Below it all numbers
share one unit. Overflow is decided by the first regime only, since a number below the lowest
exponent cannot be too large; and it is decided after rounding, for rounding may carry past the end
of the range.

## Main definitions

* `Decimal.value`, the exact value of a decimal
* `Format.significant`, `Format.nearest`, what a number is rounded to
* `Format.Overflows`, the numbers that are too large for the format
* `Format.Rounds`, `Format.Keeps`, what is said of a computation

## Main results

* `Format.fit_rounds`: fitting rounds the exact value
* `Format.fit_keeps`: what fits is kept as it is

## Implementation notes

`Format.Valid` holds what the proofs need of a format: a digit to keep, and a range that is not
empty and reaches the point. `carried` is the one place where a digit too many is dropped. It shows
that the rounded coefficient is then a power of ten, so that dropping its last zero loses nothing,
and that it decides overflow by the place of this one digit.

Negative numbers are reduced to positive ones by `fit_not`, once; every lemma on coefficients is
about magnitudes.
-/

namespace Treewalk.Decimal

/-! ## Signs -/

@[simp] theorem signed_false (c : ℕ) : signed false c = c := rfl

@[simp] theorem signed_true (c : ℕ) : signed true c = -c := rfl

@[simp] theorem signed_zero (negative : Bool) : signed negative 0 = 0 := by
  cases negative <;> rfl

@[simp] theorem natAbs_signed (negative : Bool) (c : ℕ) : (signed negative c).natAbs = c := by
  cases negative <;> simp

theorem signed_natAbs (negative : Bool) {n : ℤ} (h : n ≠ 0 → negative = decide (n < 0)) :
    signed negative n.natAbs = n := by
  by_cases hn : n = 0
  · rw [hn, Int.natAbs_zero, signed_zero]
  · rw [h hn, signed]
    by_cases hlt : n < 0
    · rw [decide_eq_true hlt, if_pos rfl]
      omega
    · rw [decide_eq_false hlt, if_neg Bool.false_ne_true]
      omega

theorem signed_eq_mul (negative : Bool) (c : ℕ) :
    (signed negative c : ℚ) = signed negative 1 * c := by
  cases negative <;> simp

theorem signed_mul (n₁ n₂ : Bool) (c₁ c₂ : ℕ) :
    signed (n₁ != n₂) (c₁ * c₂) = signed n₁ c₁ * signed n₂ c₂ := by
  cases n₁ <;> cases n₂ <;> simp

/-! ## Values -/

/-- The exact value of a decimal; what is no finite number counts as zero. -/
def value : Decimal → ℚ
  | .finite negative coefficient exponent => signed negative coefficient * 10 ^ exponent
  | .infinite _ | .nan _ _ _ => 0

/-- The exponent of a finite decimal. -/
def exponent : Decimal → ℤ
  | .finite _ _ exponent => exponent
  | .infinite _ | .nan _ _ _ => 0

@[simp] theorem value_flip (d : Decimal) : d.flip.value = -d.value := by
  cases d with
  | finite negative coefficient exponent => cases negative <;> simp [flip, value]
  | infinite | nan => simp [flip, value]

@[simp] theorem exponent_flip (d : Decimal) : d.flip.exponent = d.exponent := by
  cases d <;> rfl

@[simp] theorem isFinite_flip (d : Decimal) : d.flip.isFinite = d.isFinite := by
  cases d <;> rfl

@[simp] theorem value_ofInt (n : ℤ) : (ofInt n).value = n := by
  rw [ofInt, value, signed_natAbs _ fun _ => rfl, zpow_zero, mul_one]

/-! ## Digits -/

theorem tenTo_eq (n : ℕ) : tenTo n = 10 ^ n := rfl

theorem lt_pow_digitCount (n : ℕ) : n < 10 ^ digitCount n :=
  (Nat.length_toDigits_le_iff (by decide) Nat.length_toDigits_pos).mp (Nat.le_refl _)

theorem digitCount_pos (n : ℕ) : 0 < digitCount n :=
  Nat.length_toDigits_pos

theorem digitCount_le_iff {n k : ℕ} (hk : 0 < k) : digitCount n ≤ k ↔ n < 10 ^ k :=
  Nat.length_toDigits_le_iff (by decide) hk

theorem pow_le_of_digitCount {n : ℕ} (hn : n ≠ 0) : 10 ^ (digitCount n - 1) ≤ n := by
  by_contra hlt
  rcases Nat.eq_zero_or_pos (digitCount n - 1) with hzero | hpos
  · rw [hzero] at hlt
    omega
  · have := (digitCount_le_iff hpos).mpr (not_le.mp hlt)
    omega

/-- The leading digit of a coefficient times a power of ten is where `adjusted` says. -/
theorem log_eq_adjusted {c : ℕ} (hc : c ≠ 0) (e : ℤ) :
    Int.log 10 ((c : ℚ) * 10 ^ e) = adjusted c e := by
  have hpos : (0 : ℚ) < c * 10 ^ e := by
    have := ten_zpow_pos e
    have : (0 : ℚ) < c := by exact_mod_cast Nat.pos_of_ne_zero hc
    positivity
  have hcount := digitCount_pos c
  have hscale : ∀ k : ℕ, (10 : ℚ) ^ (e + k) = (10 ^ k : ℕ) * 10 ^ e := by
    intro k
    rw [add_comm, zpow_add₀ (by norm_num), zpow_natCast]
    push_cast
    rfl
  refine le_antisymm (Int.lt_add_one_iff.mp ?_) ?_
  · rw [← lt_zpow_iff_log_lt hpos, show adjusted c e + 1 = e + digitCount c by rw [adjusted]; ring,
      hscale]
    exact mul_lt_mul_of_pos_right (by exact_mod_cast lt_pow_digitCount c) (ten_zpow_pos e)
  · rw [← zpow_le_iff_le_log hpos,
      show adjusted c e = e + (digitCount c - 1 : ℕ) by rw [adjusted]; omega, hscale]
    exact mul_le_mul_of_nonneg_right (by exact_mod_cast pow_le_of_digitCount hc) (ten_zpow_pos e).le

/-- Digits are rounded off to the nearest. -/
theorem roundOff_eq_nearestEven (n drop : ℕ) :
    (roundOff n drop : ℤ) = nearestEven ((n : ℚ) / (tenTo drop : ℕ)) := by
  have hunit : 0 < tenTo drop := Nat.pow_pos (by decide)
  have hcast : (n : ℚ) / (tenTo drop : ℕ) = ((n : ℤ) : ℚ) / ((tenTo drop : ℕ) : ℤ) := by
    push_cast
    rfl
  rw [hcast, eq_comm, roundOff]
  split
  · next hlt =>
    -- So few digits are less than a tenth of the unit.
    have hn : n < 10 ^ (drop - 1) :=
      (digitCount_le_iff (by have := digitCount_pos n; omega)).mp (by omega)
    have hten : tenTo drop = 10 * 10 ^ (drop - 1) := by
      rw [tenTo_eq, ← Nat.pow_succ']
      congr 1
      omega
    refine nearestEven_div_eq (by exact_mod_cast hunit) ?_ fun h => ?_
    · rw [abs_le]; constructor <;> push_cast <;> omega
    · exact ⟨0, rfl⟩
  · dsimp only
    have hdiv := Nat.div_add_mod n (tenTo drop)
    have hmod := Nat.mod_lt n hunit
    generalize tenTo drop = d at *
    generalize n / d = m at *
    generalize n % d = r at *
    subst hdiv
    split
    · next h =>
      have hdistance : 2 * (((d * m + r : ℕ) : ℤ) - ((m + 1 : ℕ) : ℤ) * d) = 2 * (r - d) := by
        push_cast
        ring
      refine nearestEven_div_eq (by exact_mod_cast hunit) ?_ fun htie => ?_
      · rw [hdistance, abs_le]
        omega
      · rw [hdistance, abs_of_neg (by omega)] at htie
        rw [Int.even_coe_nat, Nat.even_iff]
        omega
    · next h =>
      have hdistance : 2 * (((d * m + r : ℕ) : ℤ) - (m : ℤ) * d) = 2 * r := by
        push_cast
        ring
      refine nearestEven_div_eq (by exact_mod_cast hunit) ?_ fun htie => ?_
      · rw [hdistance, abs_le]
        omega
      · rw [hdistance, abs_of_nonneg (by omega)] at htie
        rw [Int.even_coe_nat, Nat.even_iff]
        omega

/-! ## What a format makes of a number -/

namespace Format

/-- There is a digit, and numbers that have their leading digit before or behind the point. -/
structure Valid (f : Format) : Prop where
  digits_pos : 0 < f.digits
  min_le_max : f.minExponent ≤ f.maxExponent
  max_nonneg : 0 ≤ f.maxExponent

theorem standard_valid : standard.Valid := by
  constructor <;> decide

/-- The place of the last significant digit of a number. -/
def unit (f : Format) (q : ℚ) : ℤ :=
  Int.log 10 |q| - f.digits + 1

/-- The number with as many significant digits as the format has, whatever its size. -/
def significant (f : Format) (q : ℚ) : ℚ :=
  roundTo q (f.unit q)

/-- With so many digits, the number is too large for the format. It is asked of the number when it
has been rounded to the digits that there are, since rounding may carry into a further digit. -/
def Overflows (f : Format) (q : ℚ) : Prop :=
  f.maxExponent < Int.log 10 |f.significant q|

/-- The nearest number of the format. Below the range of exponents all numbers have one unit. -/
def nearest (f : Format) (q : ℚ) : ℚ :=
  if |q| < 10 ^ f.minExponent then roundTo q f.tiny else f.significant q

/-- The computation gives the nearest number, or it overflows where the number does. -/
def Rounds (f : Format) (q : ℚ) : Except Issue Decimal → Prop
  | .error issue => issue = .overflow ∧ f.Overflows q
  | .ok d => d.isFinite = true ∧ ¬ f.Overflows q ∧ d.value = f.nearest q

variable {f : Format} {q : ℚ}

/-! ### Signs -/

theorem significant_neg : f.significant (-q) = -f.significant q := by
  rw [significant, unit, abs_neg, roundTo_neg, significant, unit]

theorem overflows_neg : f.Overflows (-q) ↔ f.Overflows q := by
  rw [Overflows, significant_neg, abs_neg, Overflows]

theorem nearest_neg : f.nearest (-q) = -f.nearest q := by
  rw [nearest, nearest, abs_neg, roundTo_neg, significant_neg]
  split <;> rfl

theorem Rounds.flip {x : Except Issue Decimal} (h : f.Rounds q x) :
    f.Rounds (-q) (x.map Decimal.flip) := by
  cases x with
  | error issue => exact ⟨h.1, overflows_neg.mpr h.2⟩
  | ok d =>
    obtain ⟨hfinite, hrange, hvalue⟩ := h
    refine ⟨(isFinite_flip d).trans hfinite, fun ho => hrange (overflows_neg.mp ho), ?_⟩
    rw [value_flip, hvalue, nearest_neg]

theorem fit_not (f : Format) (negative : Bool) (c : ℕ) (e : ℤ) :
    f.fit (!negative) c e = (f.fit negative c e).map Decimal.flip := by
  unfold fit
  dsimp only
  split_ifs <;> rfl

/-! ### Positive numbers -/

/-- Rounding keeps the leading digit where it is, or it gives the next power of ten. -/
theorem significant_bounds (hf : f.Valid) (hq : 0 < q) :
    (10 : ℚ) ^ Int.log 10 q ≤ f.significant q ∧ f.significant q ≤ 10 ^ (Int.log 10 q + 1) := by
  have hdigits := hf.digits_pos
  have hunit : f.unit q ≤ Int.log 10 q := by
    rw [unit, abs_of_pos hq]
    omega
  refine ⟨le_roundTo hunit ((zpow_le_iff_le_log hq).mpr le_rfl), roundTo_le (by omega) ?_⟩
  exact ((lt_zpow_iff_log_lt hq).mpr (Int.lt_succ_self _)).le

theorem significant_pos (hf : f.Valid) (hq : 0 < q) : 0 < f.significant q :=
  (ten_zpow_pos _).trans_le (significant_bounds hf hq).1

theorem overflows_iff (hf : f.Valid) (hq : 0 < q) :
    f.Overflows q ↔ (10 : ℚ) ^ (f.maxExponent + 1) ≤ f.significant q := by
  have hpos := significant_pos hf hq
  rw [Overflows, abs_of_pos hpos, zpow_le_iff_le_log hpos, Int.add_one_le_iff]

theorem overflows_of_lt_log (hf : f.Valid) (hq : 0 < q) (h : f.maxExponent < Int.log 10 q) :
    f.Overflows q := by
  rw [overflows_iff hf hq]
  exact (zpow_le_zpow_right₀ (by norm_num) h).trans (significant_bounds hf hq).1

/-- The unit is that of the last significant digit, unless the format has no such. -/
theorem nearest_eq_roundTo (hq : 0 < q) : f.nearest q = roundTo q (max (f.unit q) f.tiny) := by
  have hunit : f.unit q = Int.log 10 q - f.digits + 1 := by rw [unit, abs_of_pos hq]
  have htiny : f.tiny = f.minExponent - f.digits + 1 := rfl
  have hsmall := lt_zpow_iff_log_lt (e := f.minExponent) hq
  rw [nearest, abs_of_pos hq]
  split
  · next h => rw [max_eq_right (by have := hsmall.mp h; omega)]
  · next h => rw [max_eq_left (by have := mt hsmall.mpr h; omega), significant]

/-! ### Coefficients -/

section

variable {c : ℕ} (hc : c ≠ 0) (e : ℤ)
include hc

theorem coefficient_pos : (0 : ℚ) < c * 10 ^ e :=
  mul_pos (by exact_mod_cast Nat.pos_of_ne_zero hc) (ten_zpow_pos e)

theorem unit_coefficient : f.unit (c * 10 ^ e) = e + digitCount c - f.digits := by
  rw [unit, abs_of_pos (coefficient_pos hc e), log_eq_adjusted hc, adjusted]
  ring

/-- A coefficient that needs no rounding keeps its value, and its exponent. -/
theorem kept (hf : f.Valid) (hrange : adjusted c e ≤ f.maxExponent)
    (hlowest : max (e + digitCount c - f.digits) f.tiny ≤ e) :
    ¬ f.Overflows (c * 10 ^ e) ∧ f.nearest (c * 10 ^ e) = c * 10 ^ e := by
  have hq := coefficient_pos hc e
  have hround : ∀ u ≤ e, roundTo ((c : ℚ) * 10 ^ e) u = c * 10 ^ e :=
    fun u hu => by exact_mod_cast roundTo_of_multiple (m := c) hu
  constructor
  · rw [overflows_iff hf hq, significant, unit_coefficient hc, hround _ (le_of_max_le_left hlowest),
      zpow_le_iff_le_log hq, log_eq_adjusted hc]
    omega
  · rw [nearest_eq_roundTo hq, unit_coefficient hc, hround _ hlowest]

omit hc in
theorem roundTo_coefficient (c : ℕ) {e u : ℤ} (h : e ≤ u) :
    roundTo ((c : ℚ) * 10 ^ e) u = (roundOff c (u - e).toNat : ℕ) * 10 ^ u := by
  have hpos := (ten_zpow_pos e).ne'
  have hquotient : (c : ℚ) * 10 ^ e / 10 ^ u = (c : ℚ) / (tenTo (u - e).toNat : ℕ) := by
    rw [ten_zpow_eq h, tenTo_eq]
    push_cast
    field_simp
  rw [roundTo, hquotient, ← roundOff_eq_nearestEven, Int.cast_natCast]

/-- Rounding gives one digit too many only by giving the next power of ten. -/
theorem roundOff_of_carry (hf : f.Valid)
    (hcarry : f.digits < digitCount (roundOff c (max (f.unit (c * 10 ^ e)) f.tiny - e).toNat))
    (hlowest : e < max (f.unit (c * 10 ^ e)) f.tiny) :
    max (f.unit (c * 10 ^ e)) f.tiny = f.unit (c * 10 ^ e) ∧
      roundOff c (max (f.unit (c * 10 ^ e)) f.tiny - e).toNat = 10 ^ f.digits := by
  have hq := coefficient_pos hc e
  have hdigits := hf.digits_pos
  generalize hu : max (f.unit (c * 10 ^ e)) f.tiny = u at *
  have hround := roundTo_coefficient c (Int.le_of_lt hlowest)
  generalize roundOff c (u - e).toNat = m at *
  have hm : 10 ^ f.digits ≤ m := not_lt.mp fun h => by
    have := (digitCount_le_iff hdigits).mpr h
    omega
  have hunit : f.unit (c * 10 ^ e) = Int.log 10 ((c : ℚ) * 10 ^ e) - f.digits + 1 := by
    rw [unit, abs_of_pos hq]
  have hle : f.unit (c * 10 ^ e) ≤ u := hu ▸ le_max_left _ _
  -- The number is below the next power of ten, which is `10 ^ f.digits` units or less.
  have hbound : ∀ k : ℕ, Int.log 10 ((c : ℚ) * 10 ^ e) + 1 ≤ u + k → m ≤ 10 ^ k := by
    intro k hk
    have hlt := (lt_zpow_iff_log_lt hq).mpr (Int.lt_iff_add_one_le.mpr hk)
    have := roundTo_le (by omega : u ≤ u + k) hlt.le
    rw [hround, add_comm, zpow_add₀ (by norm_num), zpow_natCast] at this
    have := le_of_mul_le_mul_right this (ten_zpow_pos u)
    exact_mod_cast this
  constructor
  · by_contra hne
    have := hbound (f.digits - 1) (by omega)
    have : 10 ^ (f.digits - 1) < 10 ^ f.digits := Nat.pow_lt_pow_right (by decide) (by omega)
    omega
  · exact le_antisymm (hbound f.digits (by omega)) hm

end

/-! ### Fitting -/

theorem fit_zero (hf : f.Valid) (negative : Bool) (e : ℤ) :
    f.Rounds 0 (f.fit negative 0 e) := by
  have hsignificant : f.significant 0 = 0 := roundTo_zero _
  have hnearest : f.nearest 0 = 0 := by
    rw [nearest, roundTo_zero, hsignificant, ite_self]
  refine ⟨rfl, ?_, ?_⟩
  · rw [Overflows, hsignificant, abs_zero, Int.log_zero_right]
    exact not_lt.mpr hf.max_nonneg
  · rw [hnearest, value, signed_zero, Int.cast_zero, zero_mul]

/-- A rounded coefficient of no more digits than there are does not make a number too large. -/
theorem not_overflows_of_rounded (hf : f.Valid) (hq : 0 < q) {m : ℕ}
    (hrange : Int.log 10 q ≤ f.maxExponent) (hm : digitCount m ≤ f.digits)
    (hround : roundTo q (max (f.unit q) f.tiny) = m * 10 ^ max (f.unit q) f.tiny) :
    ¬ f.Overflows q := by
  intro ho
  rw [overflows_iff hf hq] at ho
  have hunit : f.unit q = Int.log 10 q - f.digits + 1 := by rw [unit, abs_of_pos hq]
  have htiny : f.tiny = f.minExponent - f.digits + 1 := rfl
  -- Only a number at the upper end of the range could round to one above it.
  have hlog : f.maxExponent + 1 ≤ Int.log 10 q + 1 :=
    (zpow_le_zpow_iff_right₀ (by norm_num)).mp (ho.trans (significant_bounds hf hq).2)
  have hmax : max (f.unit q) f.tiny = f.unit q :=
    max_eq_left (by have := hf.min_le_max; omega)
  rw [hmax] at hround
  rw [significant, hround] at ho
  have hlt : (m : ℚ) * 10 ^ f.unit q < 10 ^ f.digits * 10 ^ f.unit q :=
    mul_lt_mul_of_pos_right (by exact_mod_cast (digitCount_le_iff hf.digits_pos).mp hm)
      (ten_zpow_pos _)
  rw [← zpow_natCast, ← zpow_add₀ (by norm_num)] at hlt
  have := (zpow_lt_zpow_iff_right₀ (by norm_num)).mp (ho.trans_lt hlt)
  omega

theorem pow_succ_mul_zpow (k : ℕ) (u : ℤ) :
    ((10 ^ (k + 1) : ℕ) : ℚ) * 10 ^ u = (10 ^ k : ℕ) * 10 ^ (u + 1) := by
  rw [zpow_add_one₀ (by norm_num)]
  push_cast
  ring

/-- A rounded coefficient of one digit too many is a power of ten, and its last zero goes. -/
theorem carried (hf : f.Valid) {c : ℕ} (hc : c ≠ 0) {e : ℤ}
    (hlowest : e < max (f.unit (c * 10 ^ e)) f.tiny)
    (hcarry : f.digits < digitCount (roundOff c (max (f.unit (c * 10 ^ e)) f.tiny - e).toNat)) :
    ∃ k : ℕ, roundOff c (max (f.unit (c * 10 ^ e)) f.tiny - e).toNat / 10 = 10 ^ k ∧
      (f.Overflows (c * 10 ^ e) ↔
        f.maxExponent < adjusted (10 ^ k) (max (f.unit (c * 10 ^ e)) f.tiny + 1)) ∧
      f.nearest (c * 10 ^ e) = (10 ^ k : ℕ) * 10 ^ (max (f.unit (c * 10 ^ e)) f.tiny + 1) := by
  have hq := coefficient_pos hc e
  obtain ⟨hmax, hpow⟩ := roundOff_of_carry hc e hf hcarry hlowest
  have hround := roundTo_coefficient c (Int.le_of_lt hlowest)
  obtain ⟨k, hk⟩ : ∃ k, f.digits = k + 1 := ⟨f.digits - 1, by have := hf.digits_pos; omega⟩
  rw [hpow, hk, pow_succ_mul_zpow] at hround
  refine ⟨k, ?_, ?_, (nearest_eq_roundTo hq).trans hround⟩
  · rw [hpow, hk, Nat.pow_succ, Nat.mul_div_cancel _ (by decide)]
  · have hsignificant := (congrArg (roundTo (c * 10 ^ e)) hmax.symm).trans hround
    rw [Overflows, abs_of_pos (significant_pos hf hq), significant, hsignificant,
      log_eq_adjusted (pow_ne_zero k (by decide))]

theorem fit_positive (hf : f.Valid) {c : ℕ} (hc : c ≠ 0) (e : ℤ) :
    f.Rounds (c * 10 ^ e) (f.fit false c e) := by
  have hq := coefficient_pos hc e
  have hlog := log_eq_adjusted hc e
  have hunit := unit_coefficient (f := f) hc e
  unfold fit
  rw [if_neg hc]
  dsimp only
  split
  case isTrue hlarge => exact ⟨rfl, overflows_of_lt_log hf hq (hlog ▸ hlarge)⟩
  case isFalse hrange =>
  rw [← hunit]
  split
  case isTrue hkept =>
    obtain ⟨hin, hkept⟩ := kept hc e hf (by omega) (hunit ▸ hkept)
    exact ⟨rfl, hin, hkept.symm⟩
  case isFalse hlowest =>
  have hlowest := not_le.mp hlowest
  split
  case isTrue hfew =>
    have hround := roundTo_coefficient c (Int.le_of_lt hlowest)
    refine ⟨rfl, not_overflows_of_rounded hf hq (by omega) hfew hround, ?_⟩
    exact ((nearest_eq_roundTo hq).trans hround).symm
  case isFalse hmany =>
    obtain ⟨k, htenth, hover, hnearest⟩ := carried hf hc hlowest (not_le.mp hmany)
    rw [htenth]
    split
    case isTrue hlarge => exact ⟨rfl, hover.mpr hlarge⟩
    case isFalse hsmall => exact ⟨rfl, fun ho => hsmall (hover.mp ho), hnearest.symm⟩

/-- **Fitting rounds.** Whatever coefficient and exponent an operation computes, the format makes of
them what it makes of their value. -/
theorem fit_rounds (hf : f.Valid) (negative : Bool) (c : ℕ) (e : ℤ) :
    f.Rounds (signed negative c * 10 ^ e) (f.fit negative c e) := by
  by_cases hc : c = 0
  · rw [hc, signed_zero, Int.cast_zero, zero_mul]
    exact fit_zero hf negative e
  · have hpositive := fit_positive hf hc e
    cases negative with
    | false => exact hpositive
    | true =>
      have := hpositive.flip
      rw [← fit_not] at this
      simpa using this

/-- What has no more digits than there are and an exponent in the range is kept as it is. -/
theorem fit_exact (hf : f.Valid) (negative : Bool) {c : ℕ} {e : ℤ} (hc : c < 10 ^ f.digits)
    (htiny : f.tiny ≤ e) (hmax : e ≤ f.maxExponent)
    (hrange : ¬ f.Overflows (signed negative c * 10 ^ e)) :
    f.fit negative c e = .ok (.finite negative c e) := by
  unfold fit
  split
  · next hzero => rw [hzero, max_eq_left htiny, min_eq_left hmax]
  next hzero =>
  have hq := coefficient_pos hzero e
  have hcount := (digitCount_le_iff hf.digits_pos).mpr hc
  have hsmall : ¬ adjusted c e > f.maxExponent := by
    intro hlarge
    refine hrange ?_
    have ho := overflows_of_lt_log hf hq (log_eq_adjusted hzero e ▸ hlarge)
    cases negative with
    | false => exact ho
    | true => simpa [overflows_neg] using ho
  rw [if_neg hsmall]
  dsimp only
  rw [if_pos (by omega)]

/-- What can be written with the given exponent, in the range and with no more digits than there
are, is the result as it is. Nearest is said of values only, so without this the zeros at the end of
a result, which are shown, would be left open. -/
def Keeps (f : Format) (q : ℚ) (ideal : ℤ) (x : Except Issue Decimal) : Prop :=
  (∃ m : ℤ, q = m * 10 ^ ideal ∧ |m| < 10 ^ f.digits) → f.tiny ≤ ideal → ideal ≤ f.maxExponent →
    ¬ f.Overflows q → ∃ negative c, x = .ok (.finite negative c ideal) ∧
      value (.finite negative c ideal) = q

/-- A result that needs no rounding is not changed at all, neither in its value nor in its
exponent. -/
theorem fit_keeps (hf : f.Valid) (negative : Bool) (c : ℕ) (e : ℤ) :
    f.Keeps (signed negative c * 10 ^ e) e (f.fit negative c e) := by
  rintro ⟨m, hm, hdigits⟩ htiny hmax hrange
  have hm : signed negative c = m := by
    exact_mod_cast mul_right_cancel₀ (ten_zpow_pos e).ne' hm
  have hc : c < 10 ^ f.digits := by
    rw [← hm, ← Int.natCast_natAbs, natAbs_signed] at hdigits
    exact_mod_cast hdigits
  exact ⟨negative, c, fit_exact hf negative hc htiny hmax hrange, rfl⟩

end Format

end Treewalk.Decimal
