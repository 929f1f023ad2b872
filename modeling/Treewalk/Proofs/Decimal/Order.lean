import Mathlib.Data.Sign.Basic
import Treewalk.Proofs.Decimal.Arith

/-!
# The order of decimals

Decimals are compared by their signs, then by the places of their leading digits, and by
coefficients brought to one exponent if these places are the same. Coefficients only ever grow by as
many zeros as one of them has more digits than the other, so no exponent is ever expanded. The
answer is the order of the exact values all the same.

## Main results

* `Decimal.compareMagnitude_eq_cmp`: magnitudes
* `Decimal.compare_eq_cmp`: finite decimals

## Implementation notes

The order of the values is `cmp` on rational numbers, and `Decimal.compare` is proved equal to it.
So the laws of an order hold of decimals without being proved again: they are those of the rational
numbers, read through the value. This also settles that equality of decimals ignores the exponent,
which the definition would say only in the branch where the leading digits agree.

Zero has no leading digit and is excluded from the lemmas on magnitudes. In `compare` it is caught
by the sign before magnitudes are looked at.
-/

namespace Treewalk.Decimal

/-! ## Magnitudes -/

/-- A coefficient brought to a smaller exponent. -/
theorem coefficient_mul_tenTo (c : ℕ) {e low : ℤ} (h : low ≤ e) :
    (c : ℚ) * 10 ^ e = ((c * tenTo (e - low).toNat : ℕ) : ℚ) * 10 ^ low := by
  rw [ten_zpow_eq h, tenTo_eq]
  push_cast
  ring

theorem cmp_natCast (m n : ℕ) : cmp (m : ℚ) n = Ord.compare m n := by
  rw [← cmp_eq_compare]
  exact Nat.strictMono_cast.cmp_map_eq m n

theorem cmp_intCast (m n : ℤ) : cmp (m : ℚ) n = Ord.compare m n := by
  rw [← cmp_eq_compare]
  exact Int.cast_strictMono.cmp_map_eq m n

/-- Magnitudes that are not zero, by the places of their leading digits, or by their digits. -/
theorem compareMagnitude_eq_cmp {c₁ c₂ : ℕ} (hc₁ : c₁ ≠ 0) (hc₂ : c₂ ≠ 0) (e₁ e₂ : ℤ) :
    compareMagnitude c₁ e₁ c₂ e₂ = cmp ((c₁ : ℚ) * 10 ^ e₁) (c₂ * 10 ^ e₂) := by
  rw [compareMagnitude]
  by_cases hplace : adjusted c₁ e₁ = adjusted c₂ e₂
  · have hleft : (e₁ - min e₁ e₂).toNat = (e₁ - e₂).toNat := by omega
    have hright : (e₂ - min e₁ e₂).toNat = (e₂ - e₁).toNat := by omega
    rw [if_pos hplace, coefficient_mul_tenTo c₁ (min_le_left e₁ e₂),
      coefficient_mul_tenTo c₂ (min_le_right e₁ e₂), hleft, hright,
      cmp_mul_pos_right (ten_zpow_pos _), cmp_natCast]
  · rw [if_neg hplace]
    rcases lt_or_gt_of_ne hplace with hlt | hgt
    · have hvalue := (magnitude_lt hlt).trans_le (le_magnitude hc₂ e₂)
      rw [compare_lt_iff_lt.mpr hlt, (cmp_eq_lt_iff _ _).mpr hvalue]
    · have hvalue := (magnitude_lt hgt).trans_le (le_magnitude hc₁ e₁)
      rw [compare_gt_iff_gt.mpr hgt, (cmp_eq_gt_iff _ _).mpr hvalue]

/-! ## Signs -/

variable {a b : Decimal}

/-- The class of a finite decimal is the sign of its value. -/
theorem sign_eq_sign (ha : a.isFinite = true) : a.sign = (SignType.sign a.value : ℤ) := by
  obtain ⟨n, c, e, rfl⟩ := exists_finite ha
  rw [sign, value]
  split
  · next hc =>
    rw [hc, signed_zero, Int.cast_zero, zero_mul, sign_zero]
    rfl
  · next hc =>
    have hpos := Format.coefficient_pos hc e
    cases n with
    | false =>
      rw [signed_false, Int.cast_natCast, sign_pos hpos]
      rfl
    | true =>
      rw [signed_true, Int.cast_neg, Int.cast_natCast, neg_mul, sign_neg (neg_neg_of_pos hpos)]
      rfl

theorem compareAbs_eq_cmp (ha : a.isFinite = true) (hb : b.isFinite = true) (hva : a.value ≠ 0)
    (hvb : b.value ≠ 0) : compareAbs a b = cmp |a.value| |b.value| := by
  obtain ⟨n₁, c₁, e₁, rfl⟩ := exists_finite ha
  obtain ⟨n₂, c₂, e₂, rfl⟩ := exists_finite hb
  have hnonzero : ∀ {n : Bool} {c : ℕ} {e : ℤ}, value (.finite n c e) ≠ 0 → c ≠ 0 := by
    rintro n c e h rfl
    rw [value, signed_zero, Int.cast_zero, zero_mul] at h
    exact h rfl
  rw [value, value, abs_signed_mul, abs_signed_mul]
  exact compareMagnitude_eq_cmp (hnonzero hva) (hnonzero hvb) e₁ e₂

theorem value_lt_of_sign_lt (ha : a.isFinite = true) (hb : b.isFinite = true)
    (h : a.sign < b.sign) : a.value < b.value := by
  have hcast : ∀ s t : SignType, t ≤ s → ¬ (s : ℤ) < t := by decide
  rw [sign_eq_sign ha, sign_eq_sign hb] at h
  by_contra hle
  exact hcast _ _ (SignType.sign.monotone (not_lt.mp hle)) h

/-- Two decimals of the same class are both zero, or both above it, or both below. -/
theorem compare_of_sign_eq (ha : a.isFinite = true) (hb : b.isFinite = true)
    (h : a.sign = b.sign) :
    (if a.sign = 0 then .eq else if a.sign = 1 then compareAbs a b else compareAbs b a) =
      cmp a.value b.value := by
  have hclass : ∀ {d : Decimal} (s : SignType), d.isFinite = true → d.sign = s →
      SignType.sign d.value = s := by
    intro d s hd hs
    have hcast : ∀ s t : SignType, (s : ℤ) = t → s = t := by decide
    exact hcast _ _ ((sign_eq_sign hd).symm.trans hs)
  have hs := sign_eq_sign ha
  rcases (SignType.sign a.value).trichotomy with hneg | hzero | hpos
  · rw [hneg] at hs
    have hva := sign_eq_neg_one_iff.mp hneg
    have hvb := sign_eq_neg_one_iff.mp (hclass (-1) hb (h.symm.trans hs))
    rw [hs, if_neg (by decide), if_neg (by decide), compareAbs_eq_cmp hb ha hvb.ne hva.ne,
      abs_of_neg hva, abs_of_neg hvb]
    exact strictMono_id.neg.cmp_map_eq b.value a.value
  · rw [hzero] at hs
    have hva := sign_eq_zero_iff.mp hzero
    have hvb := sign_eq_zero_iff.mp (hclass 0 hb (h.symm.trans hs))
    rw [hs, if_pos SignType.coe_zero, hva, hvb, cmp_self_eq_eq]
  · rw [hpos] at hs
    have hva := sign_eq_one_iff.mp hpos
    have hvb := sign_eq_one_iff.mp (hclass 1 hb (h.symm.trans hs))
    rw [hs, if_neg (by decide), if_pos SignType.coe_one, compareAbs_eq_cmp ha hb hva.ne' hvb.ne',
      abs_of_pos hva, abs_of_pos hvb]

/-- **The order of decimals.** Finite decimals are ordered by their exact values, whatever their
exponents. -/
theorem compare_eq_cmp (ha : a.isFinite = true) (hb : b.isFinite = true) :
    a.compare b = cmp a.value b.value := by
  rw [compare]
  by_cases hsign : a.sign = b.sign
  · rw [if_pos hsign]
    exact compare_of_sign_eq ha hb hsign
  · rw [if_neg hsign]
    rcases lt_or_gt_of_ne hsign with hlt | hgt
    · have hvalue := value_lt_of_sign_lt ha hb hlt
      rw [compare_lt_iff_lt.mpr hlt, (cmp_eq_lt_iff _ _).mpr hvalue]
    · have hvalue := value_lt_of_sign_lt hb ha hgt
      rw [compare_gt_iff_gt.mpr hgt, (cmp_eq_gt_iff _ _).mpr hvalue]

end Treewalk.Decimal
