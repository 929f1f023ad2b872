import Treewalk.Eval.Operator
import Treewalk.Parse.Literal
import Treewalk.Proofs.Decimal.Range
import Treewalk.Proofs.Scan.RoundTrip

/-!
# Floats are shown as literals

What a program shows of a float that is not negative is a text of the lexicon. It is scanned as one
token: a float, from which the parser makes the float that was shown, with all its zeros, or an
integer if the exponent is zero.

## Main definitions

* `Decimal.Made`, the decimals that literals and operations make
* `Value.InRange`, computations whose result a text may stand for

## Main results

* `Decimal.Parts.spelling`: a numeral with a point or a power of ten is a float of the lexicon
* `Decimal.display_reads_back`

## Implementation notes

There are two chains. The text is one of the lexicon, so that the scanner takes it as one token; and
the parser makes the decimal of the token that was shown. They meet in `Parts`, which the display is
cut into once. Neither chain looks at the display again.

The exponent has to be in the range of readable exponents, and this is where it matters by what a
decimal was made. `Made` says it without an evaluation: a literal has passed the same check, and the
results of operations are in a smaller range. A decimal with any exponent whatsoever would be
displayed just as well and not read back.
-/

namespace Treewalk

/-! ## Decimals of a program -/

section

variable {kind : Kind} {op : String} {d : Decimal}

/-- A decimal that a literal stands for, or that an operator makes of its operands. -/
inductive Decimal.Made : Decimal → Prop where
  | literal {text : String} {d : Decimal} (h : Parse.floatValue? text = some d) : Made d
  | arith {kind : Kind} {op : String} {a b : Value} {d : Decimal}
    (h : a.arith kind op b = .ok (.float d)) : Made d
  | negation {a : Value} {d : Decimal} (h : a.negate = .ok (.float d)) : Made d

namespace Value

/-- If the result is a decimal, a text may stand for it. -/
def InRange (result : Except Fault Value) : Prop :=
  ∀ d, result = .ok (float d) → d.InRange

/-- Only the last step of a computation makes its result. -/
theorem InRange.bind {α : Type} {result : Except Fault α} {f : α → Except Fault Value}
    (hf : ∀ a, InRange (f a)) : InRange (result >>= f) := by
  cases result with
  | error cause =>
    intro d h
    cases h
  | ok a => exact hf a

theorem inRange_error (cause : Fault) : InRange (.error cause) := by
  intro d h
  cases h

theorem inRange_ofDecimal {result : Except Decimal.Issue Decimal}
    (hr : ∀ d, result = .ok d → d.InRange) : InRange (ofDecimal op result) := by
  intro d h
  cases result with
  | error issue => cases h
  | ok d' =>
    cases h
    exact hr d rfl

theorem inRange_floatArith (x y : Decimal) : InRange (floatArith kind op x y) := by
  unfold floatArith
  split
  · exact inRange_ofDecimal fun _ => Decimal.inRange_add
  · exact inRange_ofDecimal fun _ => Decimal.inRange_sub
  · exact inRange_ofDecimal fun _ => Decimal.inRange_mul
  · split
    · exact inRange_error _
    · exact inRange_ofDecimal fun _ => Decimal.inRange_div
  · exact inRange_error _
  · exact inRange_error _

theorem inRange_intArith (i j : ℤ) : InRange (intArith kind i j) := by
  intro d h
  unfold intArith at h
  repeat' split at h
  all_goals cases h

/-- What operators make of texts is a text. -/
theorem inRange_partArith (m n : Number) : InRange (m.partArith kind n) := by
  have hrepeated : ∀ text times d, Number.repeated text times ≠ .ok (.float d) := by
    intro text times d h
    unfold Number.repeated at h
    repeat' split at h
    all_goals cases h
  intro d h
  unfold Number.partArith Number.partAdd Number.partMul Number.partMod at h
  repeat' split at h
  all_goals first
    | exact absurd h (hrepeated _ _ d)
    | cases h

theorem inRange_arith (a b : Value) : InRange (a.arith kind op b) := by
  refine InRange.bind fun m => InRange.bind fun n => ?_
  split
  · exact inRange_intArith _ _
  · split
    · exact InRange.bind fun x => InRange.bind fun y => inRange_floatArith x y
    · exact inRange_partArith m n

theorem inRange_negate (a : Value) : InRange a.negate := by
  refine InRange.bind fun m => ?_
  cases m with
  | int n =>
    intro d h
    cases h
  | float x => exact inRange_ofDecimal fun _ => Decimal.inRange_neg
  | part tree => exact inRange_error _

end Value

theorem Decimal.inRange_of_floatValue? {text : String} (h : Parse.floatValue? text = some d) :
    d.InRange := by
  rw [Parse.floatValue?] at h
  split at h
  · cases h
  · split at h
    · rw [ofNumeral?] at h
      cases hread : ofNumeral text.toList with
      | error issue =>
        rw [hread] at h
        cases h
      | ok d' =>
        rw [hread] at h
        cases h
        exact inRange_ofNumeral hread
    · cases h

theorem Decimal.Made.inRange (h : d.Made) : d.InRange := by
  cases h with
  | literal h => exact inRange_of_floatValue? h
  | arith h => exact Value.inRange_arith _ _ d h
  | negation h => exact Value.inRange_negate _ d h

end

namespace Decimal

/-! ## Displays as texts of the lexicon -/

open Lexicon

theorem isDecimalDigit_iff_isDigit {c : Char} : isDecimalDigit c = true ↔ c.isDigit = true := by
  rw [isDecimalDigit_iff, Char.isDigit_iff_toNat]
  rfl

theorem mem_decimals {ds : List Char} (hne : ds ≠ []) (h : ∀ c ∈ ds, c.isDigit = true) :
    ds ∈ decimals :=
  mem_decimals_iff.mpr ⟨hne, fun c hc => isDecimalDigit_iff_isDigit.mpr (h c hc)⟩

theorem ascii_digits {ds : List Char} (h : ∀ c ∈ ds, c.isDigit = true) : Utf8.Ascii ds := by
  intro c hc
  obtain ⟨hzero, hnine⟩ := Char.isDigit_iff_toNat.mp (h c hc)
  have hbounds : 0 < '0'.toNat ∧ '9'.toNat < 0x80 := by decide
  omega

theorem exponentText_mem (n : ℤ) : exponentText 'e' n ∈ Lexicon.exponent := by
  have hdigits : Nat.toDigits 10 n.natAbs ∈ decimals :=
    mem_decimals Nat.toDigits_ne_nil fun c hc => isDigit_of_mem_toDigits hc
  refine mem_exponent_iff.mpr ⟨'e', [if n < 0 then '-' else '+'], _, .inl rfl, ?_, hdigits, rfl⟩
  split <;> simp

namespace Parts

variable (p : Parts)

theorem powerText_mem : p.powerText ∈ 1 + Lexicon.exponent := by
  rw [powerText]
  cases p.power? with
  | none => exact .inl rfl
  | some n => exact .inr (exponentText_mem n)

/-- A numeral with a point or a power of ten is a float. -/
theorem spelling (h : p.fraction ≠ [] ∨ p.power?.isSome = true) : Spelling .float p.chars := by
  have hwhole := mem_decimals p.whole_ne_nil p.isDigit_whole
  refine .float (mem_float_iff.mpr ?_)
  rw [chars, pointText]
  by_cases hf : p.fraction = []
  · obtain ⟨n, hn⟩ := Option.isSome_iff_exists.mp (h.resolve_left (absurd hf))
    refine .inr ⟨p.whole, exponentText 'e' n, hwhole, exponentText_mem n, ?_⟩
    rw [if_pos hf, List.nil_append, powerText, hn]
  · refine .inl ⟨p.whole, p.fraction, p.powerText, hwhole, mem_decimals hf p.isDigit_fraction,
      p.powerText_mem, ?_⟩
    rw [if_neg hf, List.cons_append]

theorem ascii : Utf8.Ascii p.chars := by
  have hpoint : Utf8.Ascii p.pointText := by
    rw [pointText]
    split
    · exact List.forall_mem_nil _
    · exact List.forall_mem_cons.mpr ⟨by decide, ascii_digits p.isDigit_fraction⟩
  have hpower : Utf8.Ascii p.powerText := by
    rw [powerText]
    cases p.power? with
    | none => exact List.forall_mem_nil _
    | some n =>
      have hsign : Utf8.Ascii ['e', if n < 0 then '-' else '+'] := by split <;> decide
      exact hsign.append (ascii_digits fun c hc => isDigit_of_mem_toDigits hc)
  exact (ascii_digits p.isDigit_whole).append (hpoint.append hpower)

/-- The parser makes of a numeral what its parts say. -/
theorem floatValue?_chars (h : p.fraction ≠ [] ∨ p.power?.isSome = true)
    (hr : (finite false p.coefficient p.exponent).InRange) :
    Parse.floatValue? (String.ofList p.chars) = some (.finite false p.coefficient p.exponent) := by
  have hfloat := spelling_float_iff.mp (p.spelling h)
  rw [Parse.floatValue?, String.toList_ofList]
  cases hlast : p.chars.getLast? with
  | none => exact absurd (List.getLast?_eq_none_iff.mp hlast) (p.spelling h).ne_nil
  | some c =>
    have hdigit := isDecimalDigit_iff_isDigit.mp (isDecimalDigit_of_mem_float hfloat hlast)
    dsimp only
    rw [if_pos hdigit, ofNumeral?, p.ofNumeral_chars hr.1 hr.2]
    rfl

end Parts

/-! ## Integers -/

/-- Digits alone announce no radix. -/
theorem radixOf_of_isDigit {ds : List Char} (h : ∀ c ∈ ds, c.isDigit = true) :
    Parse.radixOf ds = (10, ds) := by
  rw [Parse.radixOf.eq_def]
  split
  · exact absurd (h 'b' (by simp)) (by decide)
  · exact absurd (h 'o' (by simp)) (by decide)
  · exact absurd (h 'x' (by simp)) (by decide)
  · rfl

theorem isDigitOf_ten {c : Char} (h : c.isDigit = true) : Parse.isDigitOf 10 c = true := by
  rw [Parse.isDigitOf, h, decide_eq_true (digitValue_lt_of_isDigit h)]
  rfl

theorem intValue?_toDigits (n : ℕ) :
    Parse.intValue? (String.ofList (Nat.toDigits 10 n)) = some n := by
  have hdigits : ∀ c ∈ Nat.toDigits 10 n, c.isDigit = true := fun c hc =>
    isDigit_of_mem_toDigits hc
  have hall : (Nat.toDigits 10 n).all (Parse.isDigitOf 10) = true :=
    List.all_eq_true.mpr fun c hc => isDigitOf_ten (hdigits c hc)
  rw [Parse.intValue?, String.toList_ofList, radixOf_of_isDigit hdigits]
  dsimp only
  rw [List.isEmpty_eq_false_iff.mpr Nat.toDigits_ne_nil, hall, digitsValue_toDigits]
  rfl

/-! ## Reading back -/

/-- **Reading back.** Take any decimal without a sign that a literal or an operation can make, with
any number of digits and zeros, and whatever form its display has. That text is scanned as one token
and nothing is noted. If the exponent is not zero it is a float, and the parser makes the same
coefficient and the same exponent of it; otherwise it is an integer, and that is the coefficient. -/
theorem display_reads_back {c : ℕ} {e : ℤ} (h : Made (.finite false c e)) :
    let text := (finite false c e).display
    (scan (Utf8.encode text)).diagnostics = [] ∧
    (e ≠ 0 → (scan (Utf8.encode text)).tokens = [⟨.float, text, .start⟩] ∧
      Parse.floatValue? text = some (.finite false c e)) ∧
    (e = 0 → (scan (Utf8.encode text)).tokens = [⟨.int, text, .start⟩] ∧
      Parse.intValue? text = some c) := by
  intro text
  have htext : text = String.ofList (magnitudeText 'e' c e) := rfl
  have hscan {kind : Kind} (hspelling : Spelling kind (magnitudeText 'e' c e))
      (hascii : Utf8.Ascii (magnitudeText 'e' c e)) :
      (scan (Utf8.encode text)).tokens = [⟨kind, text, .start⟩] ∧
        (scan (Utf8.encode text)).diagnostics = [] := by
    rw [htext]
    apply Source.scan_spelling
    · rwa [String.toList_ofList]
    · rw [String.toList_ofList]
      exact hascii.plain
  by_cases he : e = 0
  · subst he
    have hdigits : ∀ d ∈ Nat.toDigits 10 c, d.isDigit = true := fun d hd =>
      isDigit_of_mem_toDigits hd
    rw [magnitudeText_zero] at hscan htext
    obtain ⟨htokens, hdiagnostics⟩ := hscan
      (.int (mem_int_iff.mpr (.inl (mem_decimals Nat.toDigits_ne_nil hdigits))))
      (ascii_digits hdigits)
    refine ⟨hdiagnostics, absurd rfl, fun _ => ⟨htokens, ?_⟩⟩
    rw [htext]
    exact intValue?_toDigits c
  · obtain ⟨p, hp, rfl, rfl, hform⟩ := exists_parts c e
    rw [hp] at hscan htext
    obtain ⟨htokens, hdiagnostics⟩ := hscan (p.spelling (hform he)) p.ascii
    refine ⟨hdiagnostics, fun _ => ⟨htokens, ?_⟩, fun hzero => absurd hzero he⟩
    rw [htext]
    exact p.floatValue?_chars (hform he) h.inRange

/-- The product of `1.5` and `0.000000002` is shown with a power of ten and keeps its zero, and
`1.00e2` is shown as an integer. -/
theorem display_reads_back_zeros :
    (scan (Utf8.encode "3.0e-9")).tokens = [⟨.float, "3.0e-9", .start⟩] ∧
      Parse.floatValue? "3.0e-9" = some (.finite false 30 (-10)) ∧
    (scan (Utf8.encode "100")).tokens = [⟨.int, "100", .start⟩] ∧
      Parse.intValue? "100" = some 100 := by
  have hproduct : (Value.float (.finite false 15 (-1))).arith .star "*"
      (.float (.finite false 2 (-9))) = .ok (.float (.finite false 30 (-10))) := rfl
  have hliteral : Parse.floatValue? "1.00e2" = some (.finite false 100 0) := rfl
  obtain ⟨-, hfloat, -⟩ := display_reads_back (.arith hproduct)
  obtain ⟨-, -, hint⟩ := display_reads_back (.literal hliteral)
  obtain ⟨htokens, hvalue⟩ := hfloat (by decide)
  obtain ⟨htokens', hvalue'⟩ := hint rfl
  exact ⟨htokens, hvalue, htokens', hvalue'⟩

end Decimal

end Treewalk
