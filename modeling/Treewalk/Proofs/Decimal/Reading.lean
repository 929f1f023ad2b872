import Treewalk.Proofs.Decimal.Fit
import Treewalk.Decimal.Text

/-!
# Reading a display

The text that a program shows of a decimal has one of two forms, and which one it has, how many
zeros are filled in and where the point stands depends on coefficient and exponent. Whichever it is,
the text is a numeral: digits, possibly a fraction, possibly a power of ten. What is read from a
numeral is told by these parts, and it is the coefficient and the exponent that were shown.

## Main definitions

* `Decimal.Parts`, the parts of a numeral

## Main results

* `Decimal.Parts.ofNumeral_chars`: what is read from a numeral
* `Decimal.exists_parts`: what is shown is a numeral with the same coefficient and exponent

## Implementation notes

A numeral is taken apart into `Parts`, whose fields carry the conditions that make the parts those
that a reader finds: something before the point, only digits around it. Reading and writing are then
compared through the parts and not with each other. `ofNumeral_chars` reads any parts, whoever
wrote them, and `exists_parts` finds the parts of a display. The forms of a display, with all their
zeros, occur in the second only.

The last clause of `exists_parts` tells when the text can be mistaken for that of an integer, which
is just when the exponent is zero. Whoever reads a display back as a token needs it to know the kind
of the token.
-/

namespace Treewalk.Decimal

/-! ## Digits -/

/-- A decimal digit is no letter, so it counts from zero. -/
theorem digitValue_of_isDigit {c : Char} (h : c.isDigit = true) :
    digitValue c = c.toNat - '0'.toNat := by
  obtain ⟨-, hnine⟩ := Char.isDigit_iff_toNat.mp h
  have hletters : ¬ 'a' ≤ c ∧ ¬ 'A' ≤ c := by
    constructor
    · exact fun ha => absurd (Nat.le_trans ha hnine) (by decide)
    · exact fun ha => absurd (Nat.le_trans ha hnine) (by decide)
  rw [digitValue, if_neg hletters.1, if_neg hletters.2]

theorem digitValue_lt_of_isDigit {c : Char} (h : c.isDigit = true) : digitValue c < 10 := by
  obtain ⟨-, hnine⟩ := Char.isDigit_iff_toNat.mp h
  rw [digitValue_of_isDigit h]
  have hzero : '0'.toNat = 48 := rfl
  have hlast : '9'.toNat = 57 := rfl
  omega

theorem digitsValue_of_isDigit {ds : List Char} (h : ∀ c ∈ ds, c.isDigit = true) :
    digitsValue 10 ds = Nat.ofDigitChars 10 ds 0 := by
  refine List.foldl_ext _ _ 0 fun n c hc => ?_
  rw [digitValue_of_isDigit (h c hc), Nat.mul_comm]

theorem isDigit_of_mem_toDigits {n : ℕ} {c : Char} (h : c ∈ Nat.toDigits 10 n) :
    c.isDigit = true :=
  Nat.isDigit_of_mem_toDigits (by decide) (by decide) h

theorem digitsValue_toDigits (n : ℕ) : digitsValue 10 (Nat.toDigits 10 n) = n := by
  rw [digitsValue_of_isDigit fun c hc => isDigit_of_mem_toDigits hc]
  exact Nat.ofDigitChars_toDigits (by decide) (by decide)

/-- Zeros in front do not count. -/
theorem digitsValue_replicate (k : ℕ) (ds : List Char) :
    digitsValue 10 (List.replicate k '0' ++ ds) = digitsValue 10 ds := by
  induction k with
  | zero => rfl
  | succ k ih => exact ih

/-! ## Reading in parts -/

/-- What stands behind the first digits: those behind a point, and the rest. -/
def afterWhole : List Char → List Char × List Char
  | '.' :: more => (more.takeWhile Char.isDigit, more.dropWhile Char.isDigit)
  | more => ([], more)

/-- The power of ten at the end. -/
def powerOf? : List Char → Option ℤ
  | [] => some 0
  | letter :: more => if letter = 'e' ∨ letter = 'E' then exponentOf? more else none

/-- A numeral is read part by part. -/
theorem ofNumeral_eq (cs : List Char) : ofNumeral cs =
    match afterWhole (cs.dropWhile Char.isDigit) with
    | (fraction, rest) =>
      match powerOf? rest with
      | none => .error .malformed
      | some power =>
        let digits := cs.takeWhile Char.isDigit ++ fraction
        let exponent := power - fraction.length
        if digits.isEmpty then .error .malformed
        else if maxAdjusted < adjusted (digitsValue 10 digits) exponent ∨
            exponent < minExponent then
          .error .beyond
        else .ok (.finite false (digitsValue 10 digits) exponent) :=
  rfl

/-- A power of ten is read as it was written. -/
theorem powerOf?_exponentText (n : ℤ) : powerOf? (exponentText 'e' n) = some n := by
  have hdigits : ((Nat.toDigits 10 n.natAbs).isEmpty ||
      !(Nat.toDigits 10 n.natAbs).all Char.isDigit) = false := by
    have hall : (Nat.toDigits 10 n.natAbs).all Char.isDigit = true :=
      List.all_eq_true.mpr fun c hc => isDigit_of_mem_toDigits hc
    rw [hall, List.isEmpty_eq_false_iff.mpr Nat.toDigits_ne_nil]
    rfl
  have hvalue := digitsValue_toDigits n.natAbs
  change exponentOf? ((if n < 0 then '-' else '+') :: Nat.toDigits 10 n.natAbs) = some n
  by_cases hn : n < 0
  · rw [if_pos hn, exponentOf?]
    dsimp only
    rw [hdigits, hvalue]
    simp only [Bool.false_eq_true, if_false, if_true, Option.some.injEq]
    omega
  · rw [if_neg hn, exponentOf?]
    dsimp only
    rw [hdigits, hvalue]
    simp only [Bool.false_eq_true, if_false, Option.some.injEq]
    omega

/-! ## Numerals -/

/-- The parts of a numeral: digits, those behind a point, and a power of ten. There is no point
without a digit behind it. -/
structure Parts where
  whole : List Char
  fraction : List Char
  power? : Option ℤ
  whole_ne_nil : whole ≠ []
  isDigit_whole : ∀ c ∈ whole, c.isDigit = true
  isDigit_fraction : ∀ c ∈ fraction, c.isDigit = true

namespace Parts

/-- The digits behind the point, and the point before them. -/
def pointText (p : Parts) : List Char :=
  if p.fraction = [] then [] else '.' :: p.fraction

/-- The power of ten. -/
def powerText (p : Parts) : List Char :=
  match p.power? with
  | none => []
  | some n => exponentText 'e' n

/-- How the numeral is written. -/
def chars (p : Parts) : List Char :=
  p.whole ++ (p.pointText ++ p.powerText)

def coefficient (p : Parts) : ℕ :=
  digitsValue 10 (p.whole ++ p.fraction)

def exponent (p : Parts) : ℤ :=
  p.power?.getD 0 - p.fraction.length

variable (p : Parts)

theorem powerOf?_powerText : powerOf? p.powerText = some (p.power?.getD 0) := by
  rw [powerText]
  cases p.power? with
  | none => rfl
  | some n => exact powerOf?_exponentText n

/-- The power of ten starts with a letter, where the digits before it end. -/
theorem span_powerText : p.powerText.takeWhile Char.isDigit = [] ∧
    p.powerText.dropWhile Char.isDigit = p.powerText := by
  rw [powerText]
  cases p.power? <;> exact ⟨rfl, rfl⟩

theorem dropWhile_pointText : (p.pointText ++ p.powerText).takeWhile Char.isDigit = [] ∧
    (p.pointText ++ p.powerText).dropWhile Char.isDigit = p.pointText ++ p.powerText := by
  rw [pointText]
  split
  · exact p.span_powerText
  · exact ⟨rfl, rfl⟩

theorem afterWhole_pointText :
    afterWhole (p.pointText ++ p.powerText) = (p.fraction, p.powerText) := by
  obtain ⟨htake, hdrop⟩ := p.span_powerText
  rw [pointText]
  split
  · next hf =>
    rw [hf, List.nil_append, powerText]
    cases p.power? <;> rfl
  · rw [List.cons_append, afterWhole, List.takeWhile_append_of_pos p.isDigit_fraction,
      List.dropWhile_append_of_pos p.isDigit_fraction, htake, hdrop, List.append_nil]

/-- What is read from a numeral: its coefficient and its exponent, if these are in the range. A
point moves the exponent down by the digits behind it, and a power of ten moves it by as much as it
says. -/
theorem ofNumeral_chars (hmin : minExponent ≤ p.exponent)
    (hmax : adjusted p.coefficient p.exponent ≤ maxAdjusted) :
    ofNumeral p.chars = .ok (.finite false p.coefficient p.exponent) := by
  have hne : (p.whole ++ p.fraction).isEmpty = false := by
    simp [p.whole_ne_nil]
  have hrange : ¬ (maxAdjusted < adjusted p.coefficient p.exponent ∨ p.exponent < minExponent) := by
    omega
  obtain ⟨htake, hdrop⟩ := p.dropWhile_pointText
  rw [ofNumeral_eq, chars, List.takeWhile_append_of_pos p.isDigit_whole,
    List.dropWhile_append_of_pos p.isDigit_whole, htake, hdrop, List.append_nil,
    p.afterWhole_pointText]
  dsimp only
  rw [p.powerOf?_powerText]
  dsimp only
  rw [hne]
  exact if_neg hrange

end Parts

/-! ## Displays -/

/-- Digits with a point are the front of a numeral, with as many digits behind the point as there
are behind the place. -/
theorem exists_pointed (c : ℕ) {place : ℤ} (hplace : place ≤ (Nat.toDigits 10 c).length)
    (power? : Option ℤ) :
    ∃ p : Parts, p.power? = power? ∧ pointed (Nat.toDigits 10 c) place = p.whole ++ p.pointText ∧
      p.coefficient = c ∧ (p.fraction.length : ℤ) = (Nat.toDigits 10 c).length - place := by
  have hdigits : ∀ d ∈ Nat.toDigits 10 c, d.isDigit = true := fun d hd =>
    isDigit_of_mem_toDigits hd
  have hvalue := digitsValue_toDigits c
  have hne : Nat.toDigits 10 c ≠ [] := Nat.toDigits_ne_nil
  generalize Nat.toDigits 10 c = ds at *
  unfold pointed
  split
  · next hzero =>
    have hzeros : ∀ d ∈ List.replicate (-place).toNat '0' ++ ds, d.isDigit = true := by
      refine List.forall_mem_append.mpr ⟨fun d hd => ?_, hdigits⟩
      rw [List.eq_of_mem_replicate hd]
      rfl
    have hpoint : List.replicate (-place).toNat '0' ++ ds ≠ [] := by simp [hne]
    refine ⟨⟨['0'], _, power?, by simp, by simp [Char.isDigit], hzeros⟩, rfl, ?_, ?_, ?_⟩
    · rw [Parts.pointText, if_neg hpoint]
      rfl
    · exact (digitsValue_replicate ((-place).toNat + 1) ds).trans hvalue
    · rw [List.length_append, List.length_replicate]
      omega
  · next hpos =>
    split
    · next hlt =>
      have htake : ds.take place.toNat ≠ [] := by
        rw [ne_eq, List.take_eq_nil_iff, or_iff_left hne]
        omega
      have hdrop : ds.drop place.toNat ≠ [] := by
        rw [ne_eq, List.drop_eq_nil_iff]
        omega
      refine ⟨⟨ds.take place.toNat, ds.drop place.toNat, power?, htake,
        fun d hd => hdigits d (List.mem_of_mem_take hd),
        fun d hd => hdigits d (List.mem_of_mem_drop hd)⟩, rfl, ?_, ?_, ?_⟩
      · rw [Parts.pointText, if_neg hdrop]
      · rw [Parts.coefficient, List.take_append_drop, hvalue]
      · rw [List.length_drop]
        omega
    · refine ⟨⟨ds, [], power?, hne, hdigits, by simp⟩, rfl, ?_, ?_, ?_⟩
      · rw [Parts.pointText, if_pos rfl, List.append_nil]
      · rw [Parts.coefficient, List.append_nil, hvalue]
      · rw [List.length_nil]
        omega

/-- What is shown is a numeral with the same coefficient and the same exponent, in either form. It
has a point or a power of ten unless the exponent is zero. -/
theorem exists_parts (c : ℕ) (e : ℤ) : ∃ p : Parts, magnitudeText 'e' c e = p.chars ∧
    p.coefficient = c ∧ p.exponent = e ∧ (e ≠ 0 → p.fraction ≠ [] ∨ p.power?.isSome = true) := by
  have hpos : 0 < (Nat.toDigits 10 c).length := Nat.length_toDigits_pos
  rw [magnitudeText]
  split
  · next hplain =>
    obtain ⟨p, hpower, htext, hcoefficient, hlength⟩ := exists_pointed c
      (show e + (Nat.toDigits 10 c).length ≤ (Nat.toDigits 10 c).length by omega) none
    refine ⟨p, ?_, hcoefficient, ?_, fun he => .inl ?_⟩
    · rw [htext, Parts.chars, Parts.powerText, hpower, List.append_nil]
    · rw [Parts.exponent, hpower, hlength, Option.getD_none]
      omega
    · intro hf
      rw [hf, List.length_nil] at hlength
      omega
  · obtain ⟨p, hpower, htext, hcoefficient, hlength⟩ := exists_pointed c
      (show (1 : ℤ) ≤ (Nat.toDigits 10 c).length by omega)
      (some (e + (Nat.toDigits 10 c).length - 1))
    refine ⟨p, ?_, hcoefficient, ?_, fun _ => .inr (by rw [hpower]; rfl)⟩
    · rw [htext, Parts.chars, Parts.powerText, hpower, List.append_assoc]
    · rw [Parts.exponent, hpower, hlength, Option.getD_some]
      omega

/-- Without a power of ten only the digits are shown. -/
theorem magnitudeText_zero (letter : Char) (c : ℕ) :
    magnitudeText letter c 0 = Nat.toDigits 10 c := by
  have hpos : 0 < (Nat.toDigits 10 c).length := Nat.length_toDigits_pos
  rw [magnitudeText]
  rw [if_pos (by omega), pointed, if_neg (by omega), if_neg (by omega)]

end Treewalk.Decimal
