import Mathlib.Data.Nat.Cast.Field
import Treewalk.Proofs.Decimal.Fit

/-!
# Decimal operations round exact results

Each operation has an exact result, and what it hands to its format is as good as that. For a
product and for a negation it is the exact result itself. A sum of operands that lie far apart and a
quotient that does not end are not written out; a stand-in is, and the format makes the same of
both, for they lie in one cell of a unit below the last digit that is kept.

## Why a stand-in is judged by the format

`horizon_alike` does not say that the stand-in is close to the exact result, which would be true and
useless: however close two numbers are, a half may lie between them. It says that the format makes
the same of both, and the proof goes through a cell that holds both and is smaller than what the
format tells apart. So nothing about rounding is used in the operations, and nothing about the
operations in the results about rounding.

For a sum the cell is the one next to the large operand, on the side of the small one. The horizon
lies far enough down that the sum cannot lose so many leading digits as to make the unit smaller
than the cell, which is `le_abs_add`. For a quotient the cell is found by making a last digit of
zero or five odd: multiples of half a unit end in one of these, so the digit says on which side of
them the exact quotient is.

## Main definitions

* `Format.Alike`, two numbers of which a format makes the same

## Main results

* `Format.alike_of_sameCell`: a stand-in in the same cell
* `horizon_alike`, `divideFinite_alike`: the stand-ins of sums and of quotients
* `add_rounds`, `sub_rounds`, `mul_rounds`, `div_rounds`, `neg_rounds`

## Implementation notes

The results come in two kinds. `Rounds` speaks of the value alone, and every operation has it.
`Keeps` speaks of the exponent of a result that needs no rounding, and a quotient has no such
result: its ideal exponent is approached by dropping zeros, and may not be reached.

Everything is proved for any valid format and for finite operands, never for the one format in use.
With numerals for the number of digits the proofs would be longer, for the arithmetic of exponents
would be hidden in closed terms.
-/

namespace Treewalk.Decimal

namespace Format

variable {f : Format} {q q' : ℚ}

/-! ## Stand-ins -/

/-- The format makes the same of two numbers. A sum or a quotient is computed with a number in place
of the exact one that has fewer digits. What this must not change is whether there is an overflow
and which decimal is nearest. -/
structure Alike (f : Format) (q q' : ℚ) : Prop where
  significant : f.significant q = f.significant q'
  nearest : f.nearest q = f.nearest q'

theorem Alike.refl (f : Format) (q : ℚ) : f.Alike q q :=
  ⟨rfl, rfl⟩

theorem Alike.neg (h : f.Alike q q') : f.Alike (-q) (-q') := by
  constructor
  · rw [significant_neg, significant_neg, h.significant]
  · rw [nearest_neg, nearest_neg, h.nearest]

theorem Alike.signed_mul (h : f.Alike q q') (negative : Bool) :
    f.Alike (signed negative 1 * q) (signed negative 1 * q') := by
  cases negative with
  | false => simpa using h
  | true => simpa using h.neg

theorem Alike.rounds (h : f.Alike q q') {x : Except Issue Decimal} (hx : f.Rounds q' x) :
    f.Rounds q x := by
  have hover : f.Overflows q ↔ f.Overflows q' := by rw [Overflows, h.significant, Overflows]
  cases x with
  | error issue => exact ⟨hx.1, hover.mpr hx.2⟩
  | ok d => exact ⟨hx.1, fun ho => hx.2.1 (hover.mp ho), h.nearest ▸ hx.2.2⟩

theorem alike_of_sameCell_of_pos (hf : f.Valid) {w : ℤ} (hq : 0 < q) (h : SameCell w q q')
    (hw : w ≤ f.unit q) : f.Alike q q' := by
  have hdigits := hf.digits_pos
  have hunit : f.unit q = Int.log 10 q - f.digits + 1 := by rw [unit, abs_of_pos hq]
  have hreach : (10 : ℚ) ^ w ≤ q := (zpow_le_iff_le_log hq).mpr (by omega)
  have hq' : 0 < q' := (ten_zpow_pos w).trans_le (h.zpow_le hreach)
  have hunit' : f.unit q' = f.unit q := by rw [unit, abs_of_pos hq', h.log_eq hreach, hunit]
  constructor
  · rw [Format.significant, Format.significant, hunit', h.roundTo_eq hw]
  · rw [nearest_eq_roundTo hq, nearest_eq_roundTo hq', hunit', h.roundTo_eq (le_max_of_le_left hw)]

/-- A stand-in within the same cell of a unit small enough. For a number and a stand-in on the same
side of every multiple of half the unit it makes no difference which of them is rounded. -/
theorem alike_of_sameCell (hf : f.Valid) {w : ℤ} (hq : q ≠ 0) (h : SameCell w q q')
    (hw : w ≤ f.unit q) : f.Alike q q' := by
  rcases lt_or_gt_of_ne hq with hneg | hpos
  · have hw : w ≤ f.unit (-q) := by rwa [unit, abs_neg]
    have := (alike_of_sameCell_of_pos hf (neg_pos.mpr hneg) h.neg hw).neg
    rwa [neg_neg, neg_neg] at this
  · exact alike_of_sameCell_of_pos hf hpos h hw

end Format

/-! ## Sums -/

section

variable {f : Format} {c₁ c₂ : ℕ} {e₁ e₂ : ℤ}

theorem magnitude_lt {c : ℕ} {e v : ℤ} (h : adjusted c e < v) : (c : ℚ) * 10 ^ e < 10 ^ v := by
  by_cases hc : c = 0
  · rw [hc, Nat.cast_zero, zero_mul]
    exact ten_zpow_pos v
  · rwa [lt_zpow_iff_log_lt (Format.coefficient_pos hc e), log_eq_adjusted hc]

theorem le_magnitude {c : ℕ} (hc : c ≠ 0) (e : ℤ) : (10 : ℚ) ^ adjusted c e ≤ c * 10 ^ e := by
  rw [zpow_le_iff_le_log (Format.coefficient_pos hc e), log_eq_adjusted hc]

theorem horizon_lt (f : Format) (c : ℕ) (e : ℤ) : horizon f c e < e := by
  unfold horizon
  omega

theorem horizon_le (f : Format) (c : ℕ) (e : ℤ) : horizon f c e ≤ adjusted c e - f.digits - 1 := by
  unfold horizon adjusted
  omega

theorem abs_signed_mul (negative : Bool) (c : ℕ) (e : ℤ) :
    |(signed negative c : ℚ) * 10 ^ e| = c * 10 ^ e := by
  rw [abs_mul, abs_of_pos (ten_zpow_pos e)]
  cases negative <;> simp

/-- A summand below the horizon of the other hardly changes it. -/
theorem le_abs_add (n₁ : Bool) (hc : c₁ ≠ 0) {b : ℚ} (hb : |b| < 10 ^ horizon f c₁ e₁) :
    (10 : ℚ) ^ (adjusted c₁ e₁ - 1) ≤ |signed n₁ c₁ * 10 ^ e₁ + b| := by
  have hle := le_magnitude hc e₁
  have hhorizon := horizon_le f c₁ e₁
  have hsmall : (10 : ℚ) ^ horizon f c₁ e₁ ≤ 10 ^ (adjusted c₁ e₁ - 1) :=
    zpow_le_zpow_right₀ (by norm_num) (by omega)
  have hten : (10 : ℚ) ^ adjusted c₁ e₁ = 10 ^ (adjusted c₁ e₁ - 1) * 10 := by
    rw [← zpow_add_one₀ (by norm_num), sub_add_cancel]
  have hpos := ten_zpow_pos (adjusted c₁ e₁ - 1)
  have htriangle := abs_sub_abs_le_abs_add (signed n₁ c₁ * 10 ^ e₁ : ℚ) b
  rw [abs_signed_mul] at htriangle
  linarith

/-- Two summands of less than half a unit, on the same side of zero, make sums in the same cell. -/
theorem sameCell_add (m : ℤ) {w : ℤ} {b b' : ℚ} (hb : 0 < b) (hb' : 0 < b') (h : 2 * b < 10 ^ w)
    (h' : 2 * b' < 10 ^ w) (negative : Bool) :
    SameCell w (m * 10 ^ w + signed negative 1 * b) (m * 10 ^ w + signed negative 1 * b') := by
  cases negative with
  | false =>
    rw [signed_false]
    refine ⟨2 * m, ⟨?_, ?_⟩, ?_, ?_⟩ <;> push_cast <;> linarith
  | true =>
    rw [signed_true]
    refine ⟨2 * m - 1, ⟨?_, ?_⟩, ?_, ?_⟩ <;> push_cast <;> linarith

/-- The format does not tell a small summand from what stands in for it at the horizon. A summand
that lies entirely behind the last digit that could matter is replaced by a single unit there, with
its sign. -/
theorem horizon_alike (hf : f.Valid) (hc₁ : c₁ ≠ 0) (hc₂ : c₂ ≠ 0)
    (hfar : adjusted c₂ e₂ < horizon f c₁ e₁) (n₁ n₂ : Bool) :
    f.Alike (signed n₁ c₁ * 10 ^ e₁ + signed n₂ c₂ * 10 ^ e₂)
      (signed n₁ c₁ * 10 ^ e₁ + signed n₂ 1 * 10 ^ horizon f c₁ e₁) := by
  have hhorizon := horizon_lt f c₁ e₁
  have hsmall := magnitude_lt hfar
  have hpos := Format.coefficient_pos hc₂ e₂
  have hunit := ten_zpow_pos (horizon f c₁ e₁)
  have hsum := le_abs_add n₁ hc₁ (b := signed n₂ c₂ * 10 ^ e₂) (by rwa [abs_signed_mul])
  have hne : (signed n₁ c₁ : ℚ) * 10 ^ e₁ + signed n₂ c₂ * 10 ^ e₂ ≠ 0 :=
    abs_pos.mp ((ten_zpow_pos _).trans_le hsum)
  have hten : (10 : ℚ) ^ (horizon f c₁ e₁ + 1) = 10 ^ horizon f c₁ e₁ * 10 :=
    zpow_add_one₀ (by norm_num) _
  refine Format.alike_of_sameCell hf hne (w := horizon f c₁ e₁ + 1) ?_ ?_
  · have hlarge : (signed n₁ c₁ : ℚ) * 10 ^ e₁ =
        ((signed n₁ c₁ * (10 ^ (e₁ - (horizon f c₁ e₁ + 1)).toNat : ℕ) : ℤ) : ℚ) *
          10 ^ (horizon f c₁ e₁ + 1) := by
      rw [ten_zpow_eq (Int.add_one_le_of_lt hhorizon)]
      push_cast
      ring
    rw [hlarge, signed_eq_mul n₂ c₂, mul_assoc]
    exact sameCell_add _ hpos hunit (by linarith) (by linarith) n₂
  · have hlog := (zpow_le_iff_le_log (abs_pos.mpr hne)).mp hsum
    have := horizon_le f c₁ e₁
    rw [Format.unit]
    omega

theorem nearby_alike (hf : f.Valid) (n₁ n₂ : Bool) :
    f.Alike (signed n₁ c₁ * 10 ^ e₁ + signed n₂ c₂ * 10 ^ e₂)
      (signed n₁ c₁ * 10 ^ e₁ +
        signed n₂ (nearby f c₁ e₁ c₂ e₂).1 * 10 ^ (nearby f c₁ e₁ c₂ e₂).2) := by
  unfold nearby
  dsimp only
  split
  case isFalse => exact Format.Alike.refl f _
  case isTrue hfar =>
    by_cases hc₂ : c₂ = 0
    · rw [hc₂, Nat.zero_min, signed_zero, Int.cast_zero, zero_mul, zero_mul]
      exact Format.Alike.refl f _
    · rw [min_eq_right (Nat.pos_of_ne_zero hc₂)]
      exact horizon_alike hf hfar.1 hc₂ hfar.2 n₁ n₂

theorem nearby_le (he : e₂ ≤ e₁) : (nearby f c₁ e₁ c₂ e₂).2 ≤ e₁ := by
  unfold nearby
  dsimp only
  split
  · exact (horizon_lt f c₁ e₁).le
  · exact he

/-- The total of two aligned coefficients. -/
theorem total_mul {n₁ n₂ : Bool} {low : ℤ} {small : ℕ} (h : low ≤ e₁) :
    ((signed n₁ (scaled c₁ (e₁ - low).toNat) + signed n₂ small : ℤ) : ℚ) * 10 ^ low =
      signed n₁ c₁ * 10 ^ e₁ + signed n₂ small * 10 ^ low := by
  have hscaled : (signed n₁ (scaled c₁ (e₁ - low).toNat) : ℚ) =
      signed n₁ c₁ * (10 ^ (e₁ - low).toNat : ℕ) := by
    rw [scaled_eq, tenTo_eq]
    cases n₁ <;> simp
  push_cast at hscaled ⊢
  rw [hscaled, ten_zpow_eq h]
  push_cast
  ring

theorem addAligned_rounds (hf : f.Valid) (he : e₂ ≤ e₁) (n₁ n₂ : Bool) :
    f.Rounds (signed n₁ c₁ * 10 ^ e₁ + signed n₂ c₂ * 10 ^ e₂)
      (addAligned f n₁ c₁ e₁ n₂ c₂ e₂) := by
  refine (nearby_alike hf n₁ n₂).rounds ?_
  unfold addAligned
  rw [← total_mul (nearby_le he)]
  dsimp only
  generalize signed n₁ (scaled c₁ _) + signed n₂ _ = total
  have hfit := Format.fit_rounds hf (if total = 0 then n₁ && n₂ else total < 0) total.natAbs
    (nearby f c₁ e₁ c₂ e₂).2
  rwa [signed_natAbs _ fun h => by rw [if_neg h]] at hfit

/-- An operand that something stands in for makes a sum of too many digits. -/
theorem nearby_eq_of_digits {n₁ n₂ : Bool} {m : ℤ} (hm : |m| < 10 ^ f.digits)
    (hsum : (signed n₁ c₁ : ℚ) * 10 ^ e₁ + signed n₂ c₂ * 10 ^ e₂ = m * 10 ^ e₂) :
    nearby f c₁ e₁ c₂ e₂ = (c₂, e₂) := by
  unfold nearby
  refine if_neg ?_
  rintro ⟨hc₁, hfar⟩
  have hle := le_abs_add n₁ hc₁ (b := signed n₂ c₂ * 10 ^ e₂)
    (by rw [abs_signed_mul]; exact magnitude_lt hfar)
  have hlt : |(m : ℚ) * 10 ^ e₂| < 10 ^ (f.digits + e₂) := by
    rw [abs_mul, abs_of_pos (ten_zpow_pos e₂), zpow_add₀ (by norm_num), zpow_natCast]
    exact mul_lt_mul_of_pos_right (by exact_mod_cast hm) (ten_zpow_pos e₂)
  have hexponent := (zpow_lt_zpow_iff_right₀ (by norm_num)).mp (hle.trans_lt (hsum ▸ hlt))
  have hhorizon := horizon_le f c₁ e₁
  have hcount := digitCount_pos c₂
  unfold adjusted at *
  omega

theorem addAligned_keeps (hf : f.Valid) (he : e₂ ≤ e₁) (n₁ n₂ : Bool) :
    f.Keeps (signed n₁ c₁ * 10 ^ e₁ + signed n₂ c₂ * 10 ^ e₂) e₂
      (addAligned f n₁ c₁ e₁ n₂ c₂ e₂) := by
  rintro ⟨m, hm, hdigits⟩
  unfold addAligned
  rw [nearby_eq_of_digits hdigits hm, ← total_mul he]
  dsimp only
  generalize htotal : signed n₁ (scaled c₁ _) + signed n₂ _ = total
  have hfit := Format.fit_keeps hf (if total = 0 then n₁ && n₂ else total < 0) total.natAbs e₂
  rw [signed_natAbs _ fun h => by rw [if_neg h]] at hfit
  exact hfit ⟨m, by rw [← htotal, total_mul he, hm], hdigits⟩

end

/-! ## Quotients -/

/-- Zeros are dropped without a change of the value. -/
theorem dropZeros_mul (n c : ℕ) (e goal : ℤ) :
    ((dropZeros n c e goal).1 : ℚ) * 10 ^ (dropZeros n c e goal).2 = c * 10 ^ e := by
  induction n generalizing c e with
  | zero => rfl
  | succ n ih =>
    rw [dropZeros]
    split
    · next h =>
      have hc : c = c / 10 * 10 := by omega
      rw [ih, zpow_add_one₀ (by norm_num)]
      conv_rhs => rw [hc]
      push_cast
      ring
    · rfl

section

variable {f : Format} {c₁ c₂ : ℕ}

theorem tenTo_div (k : ℤ) : ((tenTo k.toNat : ℕ) : ℚ) / (tenTo (-k).toNat : ℕ) = 10 ^ k := by
  rw [tenTo_eq, tenTo_eq]
  push_cast
  rw [← zpow_natCast, ← zpow_natCast, ← zpow_sub₀ (by norm_num)]
  congr 1
  omega

/-- Strictly between two neighbouring multiples of five, in some unit, two numbers are in one
cell. -/
theorem sameCell_of_five {k : ℕ} {x y : ℚ} (hx : (k : ℚ) * 5 < x ∧ x < (k + 1) * 5)
    (hy : (k : ℚ) * 5 < y ∧ y < (k + 1) * 5) (e : ℤ) :
    SameCell (e + 1) (x * 10 ^ e) (y * 10 ^ e) := by
  have hcell : ∀ z : ℚ, (k : ℚ) * 5 < z ∧ z < (k + 1) * 5 →
      (k : ℤ) * (10 : ℚ) ^ (e + 1) < 2 * (z * 10 ^ e) ∧
        2 * (z * 10 ^ e) < ((k : ℤ) + 1) * (10 : ℚ) ^ (e + 1) := by
    intro z hz
    have hlow := mul_lt_mul_of_pos_right hz.1 (ten_zpow_pos e)
    have hhigh := mul_lt_mul_of_pos_right hz.2 (ten_zpow_pos e)
    rw [zpow_add_one₀ (by norm_num), Int.cast_natCast]
    constructor <;> linarith
  exact ⟨k, hcell x hx, hcell y hy⟩

/-- A quotient that is cut where something follows has a stand-in in the same cell: it is moved off
the ends of the cell. -/
theorem sameCell_quotient {n d : ℕ} {e : ℤ} (hd : 0 < d) (hrest : n % d ≠ 0) :
    SameCell (e + 1) ((n : ℚ) / d * 10 ^ e)
      ((if n / d % 5 = 0 then n / d + 1 else n / d : ℕ) * 10 ^ e) := by
  have hd' : (0 : ℚ) < d := by exact_mod_cast hd
  have hdiv := Nat.div_add_mod' n d
  have hmod := Nat.mod_lt n hd
  have hlow : ((n / d : ℕ) : ℚ) < n / d := by
    rw [lt_div_iff₀ hd']
    exact_mod_cast (by omega : n / d * d < n)
  have hhigh : (n : ℚ) / d < (n / d : ℕ) + 1 := by
    rw [div_lt_iff₀ hd']
    exact_mod_cast (by rw [Nat.add_mul]; omega : n < (n / d + 1) * d)
  generalize n / d = m at *
  obtain ⟨k, hk, hk', hs, hs'⟩ : ∃ k, k * 5 ≤ m ∧ m + 1 ≤ (k + 1) * 5 ∧
      k * 5 < (if m % 5 = 0 then m + 1 else m) ∧
      (if m % 5 = 0 then m + 1 else m) < (k + 1) * 5 :=
    ⟨m / 5, by omega, by omega, by split <;> omega, by split <;> omega⟩
  have hk : (k : ℚ) * 5 ≤ m := by exact_mod_cast hk
  have hk' : (m : ℚ) + 1 ≤ (k + 1) * 5 := by exact_mod_cast hk'
  exact sameCell_of_five ⟨hk.trans_lt hlow, hhigh.trans_le hk'⟩
    ⟨by exact_mod_cast hs, by exact_mod_cast hs'⟩ e

/-- The leading digit of a quotient is where those of the operands say, or one place behind. -/
theorem le_log_quotient (hc₁ : c₁ ≠ 0) (hc₂ : c₂ ≠ 0) (e₁ e₂ : ℤ) :
    adjusted c₁ e₁ - (adjusted c₂ e₂ + 1) ≤
      Int.log 10 ((c₁ : ℚ) * 10 ^ e₁ / (c₂ * 10 ^ e₂)) := by
  have hq₂ := Format.coefficient_pos hc₂ e₂
  rw [← zpow_le_iff_le_log (div_pos (Format.coefficient_pos hc₁ e₁) hq₂),
    zpow_sub₀ (by norm_num)]
  exact div_le_div₀ (Format.coefficient_pos hc₁ e₁).le (le_magnitude hc₁ e₁) hq₂
    (magnitude_lt (Int.lt_succ_self _)).le

/-- What a quotient of coefficients is computed to is as good as the quotient. Division stops after
the digits that count and leaves a last digit that tells whether something remains. -/
theorem divideFinite_alike (hf : f.Valid) (hc₁ : c₁ ≠ 0) (hc₂ : c₂ ≠ 0) (e₁ e₂ : ℤ) :
    f.Alike ((c₁ : ℚ) * 10 ^ e₁ / (c₂ * 10 ^ e₂))
      ((divideFinite f c₁ e₁ c₂ e₂).1 * 10 ^ (divideFinite f c₁ e₁ c₂ e₂).2) := by
  have hq₁ := Format.coefficient_pos hc₁ e₁
  have hq₂ := Format.coefficient_pos hc₂ e₂
  have hq : (0 : ℚ) < c₁ * 10 ^ e₁ / (c₂ * 10 ^ e₂) := div_pos hq₁ hq₂
  unfold divideFinite
  dsimp only
  generalize hshift : (digitCount c₂ : ℤ) - digitCount c₁ + f.digits + 1 = shift
  have hd : 0 < c₂ * tenTo (-shift).toNat :=
    Nat.mul_pos (Nat.pos_of_ne_zero hc₂) (Nat.pow_pos (by decide))
  have hquotient : (c₁ : ℚ) * 10 ^ e₁ / (c₂ * 10 ^ e₂) =
      ((c₁ * tenTo shift.toNat : ℕ) : ℚ) / (c₂ * tenTo (-shift).toNat : ℕ) *
        10 ^ (e₁ - e₂ - shift) := by
    push_cast
    rw [mul_div_mul_comm, mul_div_mul_comm, tenTo_div, mul_assoc, ← zpow_add₀ (by norm_num),
      ← zpow_sub₀ (by norm_num)]
    congr 2
    ring
  split
  case isTrue hexact =>
    rw [dropZeros_mul, Nat.cast_div_charZero (Nat.dvd_of_mod_eq_zero hexact), ← hquotient]
    exact Format.Alike.refl f _
  case isFalse hrest =>
    have hcell := sameCell_quotient (e := e₁ - e₂ - shift) hd hrest
    rw [← hquotient] at hcell
    have halike := Format.alike_of_sameCell hf hq.ne' hcell (by
      have := le_log_quotient hc₁ hc₂ e₁ e₂
      rw [Format.unit, abs_of_pos hq]
      unfold adjusted at this
      omega)
    split <;> next h => simpa only [h, if_true, if_false] using halike

end

/-! ## Operations -/

section

variable {f : Format} (hf : f.Valid) {a b : Decimal} (ha : a.isFinite = true)
  (hb : b.isFinite = true)
include hf ha hb

/-- A sum of finite decimals is the exact sum, rounded once, with the smaller of the two exponents
where it fits. -/
theorem add_rounds : f.Rounds (a.value + b.value) (a.add f b) ∧
    f.Keeps (a.value + b.value) (min a.exponent b.exponent) (a.add f b) := by
  obtain ⟨n₁, c₁, e₁, rfl⟩ := exists_finite ha
  obtain ⟨n₂, c₂, e₂, rfl⟩ := exists_finite hb
  change f.Rounds (signed n₁ c₁ * 10 ^ e₁ + signed n₂ c₂ * 10 ^ e₂) _ ∧
    f.Keeps (signed n₁ c₁ * 10 ^ e₁ + signed n₂ c₂ * 10 ^ e₂) (min e₁ e₂) _
  rw [add]
  split
  · next he =>
    rw [min_eq_right he]
    exact ⟨addAligned_rounds hf he n₁ n₂, addAligned_keeps hf he n₁ n₂⟩
  · next he =>
    have he := Int.le_of_not_le he
    rw [min_eq_left he, add_comm]
    exact ⟨addAligned_rounds hf he n₂ n₁, addAligned_keeps hf he n₂ n₁⟩

theorem sub_rounds : f.Rounds (a.value - b.value) (a.sub f b) ∧
    f.Keeps (a.value - b.value) (min a.exponent b.exponent) (a.sub f b) := by
  have h := add_rounds hf ha ((isFinite_flip b).trans hb)
  rwa [value_flip, ← sub_eq_add_neg, exponent_flip] at h

theorem mul_rounds : f.Rounds (a.value * b.value) (a.mul f b) ∧
    f.Keeps (a.value * b.value) (a.exponent + b.exponent) (a.mul f b) := by
  obtain ⟨n₁, c₁, e₁, rfl⟩ := exists_finite ha
  obtain ⟨n₂, c₂, e₂, rfl⟩ := exists_finite hb
  have hvalue : value (.finite n₁ c₁ e₁) * value (.finite n₂ c₂ e₂) =
      signed (n₁ != n₂) (c₁ * c₂) * 10 ^ (e₁ + e₂) := by
    rw [value, value, signed_mul, zpow_add₀ (by norm_num)]
    push_cast
    ring
  rw [hvalue]
  exact ⟨Format.fit_rounds hf _ _ _, Format.fit_keeps hf _ _ _⟩

theorem div_rounds (hzero : b.isZero = false) : f.Rounds (a.value / b.value) (a.div f b) := by
  obtain ⟨n₁, c₁, e₁, rfl⟩ := exists_finite ha
  obtain ⟨n₂, c₂, e₂, rfl⟩ := exists_finite hb
  have hc₂ : c₂ ≠ 0 := by simpa [isZero] using hzero
  rw [div]
  dsimp only
  rw [if_neg hc₂]
  split
  case isTrue hc₁ =>
    rw [hc₁, value, signed_zero, Int.cast_zero, zero_mul, zero_div]
    exact Format.fit_zero hf _ _
  case isFalse hc₁ =>
    have halike := divideFinite_alike hf hc₁ hc₂ e₁ e₂
    have hfit := Format.fit_rounds hf (n₁ != n₂) (divideFinite f c₁ e₁ c₂ e₂).1
      (divideFinite f c₁ e₁ c₂ e₂).2
    have hvalue : value (.finite n₁ c₁ e₁) / value (.finite n₂ c₂ e₂) =
        signed (n₁ != n₂) 1 * (c₁ * 10 ^ e₁ / (c₂ * 10 ^ e₂)) := by
      cases n₁ <;> cases n₂ <;> simp [value, div_neg, neg_div]
    rw [signed_eq_mul, mul_assoc] at hfit
    rw [hvalue]
    exact (halike.signed_mul _).rounds hfit

omit hb in
theorem neg_rounds : f.Rounds (-a.value) (a.neg f) := by
  obtain ⟨n, c, e, rfl⟩ := exists_finite ha
  have hvalue : -value (.finite n c e) = signed (c ≠ 0 && !n) c * 10 ^ e := by
    by_cases hc : c = 0
    · simp [hc, value]
    · cases n <;> simp [hc, value]
  rw [hvalue]
  exact Format.fit_rounds hf _ _ _

end

end Treewalk.Decimal
