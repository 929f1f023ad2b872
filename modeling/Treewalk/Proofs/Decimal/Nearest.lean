import Mathlib.Data.Int.Log
import Mathlib.Data.Rat.Floor
import Mathlib.Tactic.FieldSimp
import Mathlib.Tactic.Linarith
import Mathlib.Tactic.Ring

/-!
# Rounding to the nearest

What rounding means is said of rational numbers, without digits: the nearest integer is at most a
half away, and if it is just a half away it is even. There is one such integer for every number.
Rounding to a multiple of a power of ten is the same after a change of the unit.

## Stand-ins

Where an exact result has too many digits to be written out, another number stands in for it. That
one rounds alike as long as no number where rounding changes its mind lies between the two, and
these are all multiples of half a unit. So it is enough that both lie strictly between the same two
neighbours among the multiples of half a unit, which is what `SameCell` says; and it is enough for
all larger units, too, because these have fewer such multiples.

## Main definitions

* `Decimal.nearestEven`, `Decimal.roundTo`
* `Decimal.SameCell`

## Main results

* `Decimal.nearestEven_eq_iff`: what the nearest integer is
* `Decimal.SameCell.roundTo_eq`, `Decimal.SameCell.log_eq`: a stand-in rounds alike

## Implementation notes

`nearestEven` is computed from the floor and the fraction, and `IsNearest` says what is meant. The
first is what rewriting needs, the second is what a reader should check, and `nearestEven_eq_iff` is
the bridge between them; afterwards the definition is not unfolded again. That there is only one
nearest integer is part of the bridge: without the clause on even integers, two would qualify.

`SameCell` asks for strict inequalities. With weak ones a number on the border of a cell would
belong to two cells, and this is just where rounding changes its mind.
-/

namespace Treewalk.Decimal

/-! ## Integers -/

/-- The nearest integer, and the even one of two that are equally near. -/
def nearestEven (x : ℚ) : ℤ :=
  if 2 * Int.fract x < 1 ∨ 2 * Int.fract x = 1 ∧ Even ⌊x⌋ then ⌊x⌋ else ⌊x⌋ + 1

/-- The integer is at most a half away, and even if it is just a half away. There is exactly one
such integer, so an algorithm that finds one has found `nearestEven`. -/
structure IsNearest (x : ℚ) (m : ℤ) : Prop where
  near : |x - m| ≤ 1 / 2
  even : |x - m| = 1 / 2 → Even m

theorem isNearest_nearestEven (x : ℚ) : IsNearest x (nearestEven x) := by
  have hx := Int.floor_add_fract x
  have hnonneg := Int.fract_nonneg x
  have hlt := Int.fract_lt_one x
  unfold nearestEven
  split
  · next h =>
    have hdistance : |x - (⌊x⌋ : ℤ)| = Int.fract x := by
      rw [← Int.self_sub_floor, abs_of_nonneg (by simp)]
    refine ⟨?_, fun htie => ?_⟩
    · rcases h with h | ⟨h, -⟩ <;> linarith
    · rcases h with h | ⟨-, heven⟩
      · linarith
      · exact heven
  · next h =>
    have hdistance : |x - ((⌊x⌋ + 1 : ℤ) : ℚ)| = 1 - Int.fract x := by
      push_cast
      rw [abs_sub_comm, abs_of_nonneg (by linarith [Int.lt_floor_add_one x])]
      linarith
    rw [not_or, not_and, not_lt] at h
    refine ⟨by linarith [h.1], fun htie => ?_⟩
    have hodd : ¬ Even ⌊x⌋ := h.2 (by linarith)
    rw [Int.even_add_one]
    exact hodd

/-- Two integers that are nearest lie less than one apart, unless both are a half away. -/
theorem IsNearest.eq {x : ℚ} {m n : ℤ} (hm : IsNearest x m) (hn : IsNearest x n) : m = n := by
  wlog hle : m ≤ n generalizing m n
  · exact (this hn hm (Int.le_of_not_le hle)).symm
  have hnear := abs_le.mp hm.near
  have hnear' := abs_le.mp hn.near
  have hdistance : (n : ℚ) ≤ ((m + 1 : ℤ) : ℚ) := by
    push_cast
    linarith [hnear.2, hnear'.1]
  rcases Int.lt_or_eq_of_le hle with hlt | heq
  · obtain rfl : n = m + 1 := le_antisymm (Int.cast_le.mp hdistance) hlt
    push_cast at hnear'
    have hx : x = m + 1 / 2 := by linarith [hnear.2, hnear'.1]
    have heven : Even m := hm.even (by rw [hx]; norm_num)
    have heven' : Even (m + 1) := hn.even (by rw [hx]; push_cast; norm_num)
    exact absurd heven (Int.even_add_one.mp heven')
  · exact heq

/-- **The nearest integer.** It is at most a half away, even if it is just a half away, and the only
one of that kind. -/
theorem nearestEven_eq_iff {x : ℚ} {m : ℤ} : nearestEven x = m ↔ IsNearest x m := by
  constructor
  · rintro rfl
    exact isNearest_nearestEven x
  · exact (isNearest_nearestEven x).eq

/-- The nearest integer to a fraction, by the distance between numerators. -/
theorem nearestEven_div_eq {n d m : ℤ} (hd : 0 < d) (hnear : |2 * (n - m * d)| ≤ d)
    (heven : |2 * (n - m * d)| = d → Even m) : nearestEven ((n : ℚ) / d) = m := by
  have hd' : (0 : ℚ) < d := by exact_mod_cast hd
  have hdistance : |(n : ℚ) / d - m| * (2 * d) = (|2 * (n - m * d)| : ℤ) := by
    have hclear : ((n : ℚ) / d - m) * (2 * d) = (2 * (n - m * d) : ℤ) := by
      push_cast
      field_simp
    rw [Int.cast_abs, ← hclear, abs_mul, abs_of_pos (by positivity : (0 : ℚ) < 2 * d)]
  refine nearestEven_eq_iff.mpr ⟨?_, fun htie => heven ?_⟩
  · have hnear : ((|2 * (n - m * d)| : ℤ) : ℚ) ≤ d := by exact_mod_cast hnear
    rw [← hdistance] at hnear
    nlinarith
  · have : ((|2 * (n - m * d)| : ℤ) : ℚ) = d := by
      rw [← hdistance, htie]
      ring
    exact_mod_cast this

@[simp] theorem nearestEven_intCast (m : ℤ) : nearestEven m = m :=
  nearestEven_eq_iff.mpr ⟨by simp, fun h => absurd h (by simp)⟩

theorem nearestEven_neg (x : ℚ) : nearestEven (-x) = -nearestEven x := by
  obtain ⟨hnear, heven⟩ := isNearest_nearestEven x
  have hdistance : |-x - ((-nearestEven x : ℤ) : ℚ)| = |x - nearestEven x| := by
    rw [← abs_neg]
    push_cast
    congr 1
    ring
  refine nearestEven_eq_iff.mpr ⟨hdistance ▸ hnear, fun h => ?_⟩
  exact (heven (hdistance ▸ h)).neg

theorem le_nearestEven {x : ℚ} {m : ℤ} (h : (m : ℚ) ≤ x) : m ≤ nearestEven x := by
  have hnear := (abs_le.mp (isNearest_nearestEven x).near).2
  have hlt : ((m - 1 : ℤ) : ℚ) < (nearestEven x : ℚ) := by
    push_cast
    linarith
  exact Int.sub_one_lt_iff.mp (Int.cast_lt.mp hlt)

theorem nearestEven_le {x : ℚ} {m : ℤ} (h : x ≤ m) : nearestEven x ≤ m := by
  have := le_nearestEven (x := -x) (m := -m) (by push_cast; linarith)
  rw [nearestEven_neg] at this
  linarith

/-- Strictly between two neighbouring halves, the nearest integer is the one of the two that is an
integer. -/
theorem nearestEven_of_cell {x : ℚ} {k : ℤ} (hlow : (k : ℚ) < 2 * x) (hhigh : 2 * x < k + 1) :
    nearestEven x = (k + 1) / 2 := by
  have hdistance : |x - ((k + 1) / 2 : ℤ)| < 1 / 2 := by
    rcases Int.even_or_odd' k with ⟨j, rfl | rfl⟩
    · have hhalf : (2 * j + 1) / 2 = j := by omega
      rw [hhalf]
      push_cast at hlow hhigh
      rw [abs_lt]
      constructor <;> linarith
    · have hhalf : (2 * j + 1 + 1) / 2 = j + 1 := by omega
      rw [hhalf]
      push_cast at hlow hhigh ⊢
      rw [abs_lt]
      constructor <;> linarith
  exact nearestEven_eq_iff.mpr ⟨hdistance.le, fun h => absurd h hdistance.ne⟩

/-! ## Multiples of a power of ten -/

/-- The nearest multiple of a power of ten, and the even one of two that are equally near. -/
def roundTo (q : ℚ) (unit : ℤ) : ℚ :=
  nearestEven (q / 10 ^ unit) * 10 ^ unit

theorem ten_zpow_pos (e : ℤ) : (0 : ℚ) < 10 ^ e :=
  zpow_pos (by norm_num) e

/-- A power of ten is a multiple of any smaller one. -/
theorem ten_zpow_eq {u v : ℤ} (h : u ≤ v) :
    (10 : ℚ) ^ v = ((10 ^ (v - u).toNat : ℕ) : ℤ) * 10 ^ u := by
  have hsub : ((v - u).toNat : ℤ) = v - u := Int.toNat_of_nonneg (by omega)
  push_cast
  rw [← zpow_natCast, hsub, ← zpow_add₀ (by norm_num)]
  congr 1
  omega

theorem zpow_le_iff_le_log {q : ℚ} {e : ℤ} (hq : 0 < q) : (10 : ℚ) ^ e ≤ q ↔ e ≤ Int.log 10 q := by
  have := Int.zpow_le_iff_le_log (b := 10) (by decide) (x := e) hq
  exact_mod_cast this

theorem lt_zpow_iff_log_lt {q : ℚ} {e : ℤ} (hq : 0 < q) : q < (10 : ℚ) ^ e ↔ Int.log 10 q < e := by
  rw [← not_le, zpow_le_iff_le_log hq, not_le]

theorem roundTo_neg (q : ℚ) (unit : ℤ) : roundTo (-q) unit = -roundTo q unit := by
  rw [roundTo, neg_div, nearestEven_neg, roundTo]
  push_cast
  ring

/-- A multiple of the unit, or of a larger one, is not changed. -/
theorem roundTo_of_multiple {m u v : ℤ} (h : u ≤ v) :
    roundTo ((m : ℚ) * 10 ^ v) u = (m : ℚ) * 10 ^ v := by
  have hu := (ten_zpow_pos u).ne'
  have hquotient : (m : ℚ) * 10 ^ v / 10 ^ u = ((m * (10 ^ (v - u).toNat : ℕ) : ℤ) : ℚ) := by
    rw [ten_zpow_eq h]
    push_cast
    field_simp
  rw [roundTo, hquotient, nearestEven_intCast, ← hquotient, div_mul_cancel₀ _ hu]

theorem roundTo_zero (u : ℤ) : roundTo 0 u = 0 := by
  have h : roundTo ((0 : ℤ) * 10 ^ u) u = (0 : ℤ) * 10 ^ u := roundTo_of_multiple (Int.le_refl u)
  simpa using h

/-- Rounding does not pass a power of ten that is a multiple of the unit. -/
theorem le_roundTo {q : ℚ} {u v : ℤ} (hu : u ≤ v) (h : (10 : ℚ) ^ v ≤ q) :
    (10 : ℚ) ^ v ≤ roundTo q u := by
  have hpos := ten_zpow_pos u
  rw [ten_zpow_eq hu] at h ⊢
  exact mul_le_mul_of_nonneg_right (Int.cast_le.mpr (le_nearestEven ((le_div_iff₀ hpos).mpr h)))
    hpos.le

theorem roundTo_le {q : ℚ} {u v : ℤ} (hu : u ≤ v) (h : q ≤ (10 : ℚ) ^ v) :
    roundTo q u ≤ (10 : ℚ) ^ v := by
  have hpos := ten_zpow_pos u
  rw [ten_zpow_eq hu] at h ⊢
  exact mul_le_mul_of_nonneg_right (Int.cast_le.mpr (nearestEven_le ((div_le_iff₀ hpos).mpr h)))
    hpos.le

/-! ## Stand-ins -/

/-- Both numbers lie strictly between the same two neighbours among the multiples of half a power of
ten. Halves are among the multiples because rounding has to tell on which side of the middle a
number lies, and strictly, because in the middle it makes a difference on which side. -/
def SameCell (w : ℤ) (q q' : ℚ) : Prop :=
  ∃ k : ℤ, (k * 10 ^ w < 2 * q ∧ 2 * q < (k + 1) * 10 ^ w) ∧
    (k * 10 ^ w < 2 * q' ∧ 2 * q' < (k + 1) * 10 ^ w)

theorem SameCell.symm {w : ℤ} {q q' : ℚ} (h : SameCell w q q') : SameCell w q' q :=
  have ⟨k, hq, hq'⟩ := h
  ⟨k, hq', hq⟩

theorem SameCell.neg {w : ℤ} {q q' : ℚ} (h : SameCell w q q') : SameCell w (-q) (-q') := by
  obtain ⟨k, ⟨hlow, hhigh⟩, hlow', hhigh'⟩ := h
  refine ⟨-k - 1, ⟨?_, ?_⟩, ?_, ?_⟩ <;> push_cast <;> linarith

/-- A cell lies within one cell of every larger power of ten. -/
theorem SameCell.mono {w u : ℤ} {q q' : ℚ} (h : SameCell w q q') (hu : w ≤ u) :
    SameCell u q q' := by
  obtain ⟨k, ⟨hlow, hhigh⟩, hlow', hhigh'⟩ := h
  have hw := ten_zpow_pos w
  have hN : (0 : ℤ) < (10 ^ (u - w).toNat : ℕ) := Int.natCast_pos.mpr (Nat.pow_pos (by decide))
  generalize hn : ((10 ^ (u - w).toNat : ℕ) : ℤ) = n at hN
  have hcell : k / n * n ≤ k ∧ k + 1 ≤ (k / n + 1) * n := by
    have hdiv := Int.emod_add_mul_ediv k n
    have hnonneg := Int.emod_nonneg k hN.ne'
    have hlt := Int.emod_lt_of_pos k hN
    constructor <;> nlinarith
  have hunder : ((k / n : ℤ) : ℚ) * n ≤ k := by exact_mod_cast hcell.1
  have hover : (k : ℚ) + 1 ≤ (((k / n : ℤ) : ℚ) + 1) * n := by exact_mod_cast hcell.2
  have hbelow := mul_le_mul_of_nonneg_right hunder hw.le
  have habove := mul_le_mul_of_nonneg_right hover hw.le
  refine ⟨k / n, ⟨?_, ?_⟩, ?_, ?_⟩ <;> rw [ten_zpow_eq hu, hn, ← mul_assoc] <;> linarith

/-- A stand-in rounds alike. Between two neighbours among the halves there is nothing at which
rounding could change its mind. -/
theorem SameCell.roundTo_eq {w u : ℤ} {q q' : ℚ} (h : SameCell w q q') (hu : w ≤ u) :
    roundTo q u = roundTo q' u := by
  obtain ⟨k, ⟨hlow, hhigh⟩, hlow', hhigh'⟩ := h.mono hu
  have hpos := ten_zpow_pos u
  have hnearest : ∀ {x : ℚ}, k * 10 ^ u < 2 * x → 2 * x < (k + 1) * 10 ^ u →
      nearestEven (x / 10 ^ u) = (k + 1) / 2 := by
    intro x hx hx'
    refine nearestEven_of_cell ?_ ?_
    · rwa [← mul_div_assoc, lt_div_iff₀ hpos]
    · rwa [← mul_div_assoc, div_lt_iff₀ hpos]
  rw [roundTo, roundTo, hnearest hlow hhigh, hnearest hlow' hhigh']

/-- A stand-in reaches the unit, if the number does. -/
theorem SameCell.zpow_le {w : ℤ} {q q' : ℚ} (h : SameCell w q q') (hq : (10 : ℚ) ^ w ≤ q) :
    (10 : ℚ) ^ w ≤ q' := by
  obtain ⟨k, ⟨-, hhigh⟩, hlow', -⟩ := h
  have hpos := ten_zpow_pos w
  have hk : (1 : ℚ) < k := by nlinarith
  have hk : (1 : ℤ) + 1 ≤ k := by exact_mod_cast hk
  have hk : (1 : ℚ) + 1 ≤ k := by exact_mod_cast hk
  nlinarith

theorem SameCell.log_le {w : ℤ} {q q' : ℚ} (h : SameCell w q q') (hq : (10 : ℚ) ^ w ≤ q) :
    Int.log 10 q ≤ Int.log 10 q' := by
  have hpos := (ten_zpow_pos w).trans_le hq
  have hpos' := (ten_zpow_pos w).trans_le (h.zpow_le hq)
  rw [← zpow_le_iff_le_log hpos']
  exact (h.mono ((zpow_le_iff_le_log hpos).mp hq)).zpow_le ((zpow_le_iff_le_log hpos).mpr le_rfl)

/-- A stand-in for a number that reaches the unit has its leading digit at the same place. -/
theorem SameCell.log_eq {w : ℤ} {q q' : ℚ} (h : SameCell w q q') (hq : (10 : ℚ) ^ w ≤ q) :
    Int.log 10 q' = Int.log 10 q :=
  le_antisymm (h.symm.log_le (h.zpow_le hq)) (h.log_le hq)

end Treewalk.Decimal
