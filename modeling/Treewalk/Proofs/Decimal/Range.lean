import Treewalk.Proofs.Decimal.Reading

/-!
# The range of decimals

A text stands for a decimal only if its exponent and the place of its leading digit are in a range.
Results of operations are in a range too, and that one is far smaller. So whatever a program comes
to could have been written as a literal.

## Why the two ranges are compared

A text with an exponent of more than eighteen digits is refused, while arithmetic never leaves six
digits. So there are decimals that a source can write and no operation can give, and the other way
round none. The second half is what reading back needs: whatever is shown could have been typed. It
is proved operation by operation, because an operand may come from a literal and lie far outside the
smaller range; only what an operation has fitted lies in it.

The property is about exponents alone, and infinities and what is no number have it for want of an
exponent. That no program comes to these is proved elsewhere.

## Main definitions

* `Decimal.InRange`, decimals that a text may stand for

## Main results

* `Decimal.inRange_ofNumeral`: literals
* `Decimal.inRange_add` and its like: results of operations
-/

namespace Treewalk.Decimal

/-- A text may stand for the decimal, as far as its exponent goes. -/
def InRange : Decimal → Prop
  | .finite _ coefficient exponent =>
    minExponent ≤ exponent ∧ adjusted coefficient exponent ≤ maxAdjusted
  | .infinite _ | .nan _ _ _ => True

theorem inRange_ofNumeral {cs : List Char} {d : Decimal} (h : ofNumeral cs = .ok d) :
    d.InRange := by
  rw [ofNumeral_eq] at h
  generalize afterWhole (cs.dropWhile Char.isDigit) = parts at h
  obtain ⟨fraction, rest⟩ := parts
  dsimp only at h
  generalize powerOf? rest = power? at h
  cases power? with
  | none => cases h
  | some power =>
    dsimp only at h
    split at h
    · cases h
    · split at h
      · cases h
      · next hrange =>
        cases h
        rw [not_or, not_lt, not_lt] at hrange
        exact ⟨hrange.2, hrange.1⟩

/-! ## Formats -/

namespace Format

variable {f : Format} {negative : Bool} {c : ℕ} {e : ℤ} {d : Decimal}

/-- What fits has an exponent and a leading digit in the range of the format. -/
theorem fit_range (hf : f.Valid) (h : f.fit negative c e = .ok d) :
    ∃ c' e', d = .finite negative c' e' ∧ f.tiny ≤ e' ∧ adjusted c' e' ≤ f.maxExponent := by
  have hdigits := hf.digits_pos
  have hmin := hf.min_le_max
  have htiny : f.tiny = f.minExponent - f.digits + 1 := rfl
  have hcount := digitCount_pos c
  unfold fit at h
  split at h
  · cases h
    refine ⟨0, _, rfl, by omega, ?_⟩
    have hzero : digitCount 0 = 1 := rfl
    rw [adjusted, hzero]
    omega
  · split at h
    · cases h
    · next hsmall =>
      dsimp only at h
      split at h
      · cases h
        exact ⟨c, e, rfl, by omega, not_lt.mp hsmall⟩
      · split at h
        · next hfew =>
          cases h
          refine ⟨_, _, rfl, le_max_right _ _, ?_⟩
          rw [adjusted] at hsmall ⊢
          omega
        · split at h
          · cases h
          · next hcarried =>
            cases h
            exact ⟨_, _, rfl, by omega, not_lt.mp hcarried⟩

/-- The format that the language uses has no exponents that cannot be written. -/
theorem inRange_fit (h : standard.fit negative c e = .ok d) : d.InRange := by
  obtain ⟨c', e', rfl, htiny, hmax⟩ := fit_range standard_valid h
  have hlow : Decimal.minExponent ≤ standard.tiny := by decide
  have hhigh : standard.maxExponent ≤ maxAdjusted := by decide
  exact ⟨hlow.trans htiny, hmax.trans hhigh⟩

end Format

/-! ## Operations -/

variable {a b d : Decimal}

theorem inRange_passOn (h : passOn .standard a b = .ok d) : d.InRange := by
  unfold passOn at h
  split at h
  · cases h
  · split at h <;> cases h <;> trivial

theorem inRange_add (h : a.add .standard b = .ok d) : d.InRange := by
  unfold add at h
  split at h
  · split at h <;> cases h
    trivial
  · cases h
    trivial
  · cases h
    trivial
  · split at h <;> exact Format.inRange_fit h
  · exact inRange_passOn h

theorem inRange_sub (h : a.sub .standard b = .ok d) : d.InRange :=
  inRange_add h

theorem inRange_mul (h : a.mul .standard b = .ok d) : d.InRange := by
  unfold mul at h
  split at h
  · exact Format.inRange_fit h
  · cases h
    trivial
  · split at h <;> cases h
    trivial
  · split at h <;> cases h
    trivial
  · exact inRange_passOn h

/-- A quotient with an infinite divisor is a zero, with the lowest exponent that there is. -/
theorem inRange_div (h : a.div .standard b = .ok d) : d.InRange := by
  unfold div at h
  split at h
  · cases h
  · cases h
    trivial
  · cases h
    exact ⟨by decide, by decide⟩
  · split at h
    · cases h
    · split at h
      · exact Format.inRange_fit h
      · exact Format.inRange_fit h
  · exact inRange_passOn h

theorem inRange_neg (h : a.neg .standard = .ok d) : d.InRange := by
  unfold neg at h
  split at h
  · cases h
    trivial
  · exact Format.inRange_fit h
  · exact inRange_passOn h

end Treewalk.Decimal
