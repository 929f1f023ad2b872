import Treewalk.Eval.Operator
import Treewalk.Proofs.Decimal.Arith

/-!
# Float arithmetic is correctly rounded

Arithmetic with a float among its operands is exact arithmetic on rational numbers, rounded once. An
integer counts as the number that it is, and so does a truth value. The exact result is rounded to
twenty-eight significant digits, a half to the even neighbour; it is too large if what it is rounded
to has its leading digit above the place 999999, and below the place -999999 all numbers have one
unit. Nothing else can happen to finite operands, but that a divisor is zero.

## Main definitions

* `Value.amount?`, the number that an operand is, and `Value.ideal`, the exponent that it has
* `Kind.exact`, the exact result of an operator, and `Kind.ideal?`, the exponent that it should have
* `Value.Rounded`, `Value.KeptAs`, what an evaluation gives

## Main results

* `Value.arith_correctly_rounded`

## Implementation notes

The statement is split in two by what it speaks of. `Rounded` is about values and has the two
outcomes that there are; `KeptAs` is about the exponent, which two equal values need not share, and
applies only where the exact result can be written at all. A quotient has no exponent that it ought
to have, which is why `ideal?` is partial.

The operands are given by `amount?`, exactly, so that integers and truth values need no statement of
their own. An operand has to be a float for this to apply: two integers are divided with the floor.
-/

namespace Treewalk

open Decimal (Format)

/-- The exact result of an operator. -/
def Kind.exact (kind : Kind) (p q : ℚ) : ℚ :=
  match kind with
  | .plus => p + q
  | .minus => p - q
  | .star => p * q
  | .slash => p / q
  | _ => 0

/-- The exponent that the result of an operator should have, if it can be written with it. A
quotient may have any. -/
def Kind.ideal? (kind : Kind) (d e : ℤ) : Option ℤ :=
  match kind with
  | .plus | .minus => some (min d e)
  | .star => some (d + e)
  | _ => none

namespace Value

/-- The exact number that an operand is: an integer, a truth value or a finite float. -/
def amount? : Value → Option ℚ
  | bool value => some (if value then 1 else 0)
  | int value => some value
  | float value => if value.isFinite then some value.value else none
  | _ => none

/-- The exponent of an operand; an integer has none, which counts as zero. -/
def ideal : Value → ℤ
  | float value => value.exponent
  | _ => 0

/-- The value is a float. -/
def isFloat : Value → Bool
  | float _ => true
  | _ => false

/-- The evaluation of an operator gives the float nearest to an exact result. Where that would be
too large, and only there, it fails, and says so. -/
structure Rounded (op : String) (q : ℚ) (result : Except Fault Value) : Prop where
  overflow : Format.standard.Overflows q ↔ ∃ fault, result = .error fault ∧
    fault.message = "float overflow in '" ++ op ++ "'" ∧ fault.category = .general
  nearest : ¬ Format.standard.Overflows q → ∃ d, result = .ok (.float d) ∧ d.isFinite = true ∧
    d.value = Format.standard.nearest q

/-- An exact result that is not too large, and that can be written with an exponent in the range and
with no more digits than there are, is given exactly and with that exponent. -/
def KeptAs (q : ℚ) (e : ℤ) (result : Except Fault Value) : Prop :=
  (∃ m : ℤ, q = m * 10 ^ e ∧ |m| < 10 ^ Format.standard.digits) →
    Format.standard.tiny ≤ e → e ≤ Format.standard.maxExponent → ¬ Format.standard.Overflows q →
    ∃ d, result = .ok (.float d) ∧ d.value = q ∧ d.exponent = e

variable {op : String} {p q : ℚ} {a b : Value}

/-! ## Decimal operations -/

theorem rounded_ofDecimal {x : Except Decimal.Issue Decimal} (h : Format.standard.Rounds q x) :
    Rounded op q (ofDecimal op x) := by
  cases x with
  | error issue =>
    obtain ⟨rfl, ho⟩ := h
    exact ⟨⟨fun _ => ⟨_, rfl, rfl, rfl⟩, fun _ => ho⟩, fun hrange => absurd ho hrange⟩
  | ok d =>
    obtain ⟨hfinite, hrange, hvalue⟩ := h
    refine ⟨⟨fun ho => absurd ho hrange, fun hfault => ?_⟩, fun _ => ⟨d, rfl, hfinite, hvalue⟩⟩
    obtain ⟨fault, herror, -⟩ := hfault
    cases herror

theorem kept_ofDecimal {x : Except Decimal.Issue Decimal} {e : ℤ}
    (h : Format.standard.Keeps q e x) : KeptAs q e (ofDecimal op x) := by
  intro hm htiny hmax hrange
  obtain ⟨negative, c, rfl, hvalue⟩ := h hm htiny hmax hrange
  exact ⟨_, rfl, hvalue, rfl⟩

theorem floatArith_rounded {kind : Kind} {x y : Decimal}
    (hk : kind ∈ [Kind.plus, .minus, .star, .slash]) (hx : x.isFinite = true)
    (hy : y.isFinite = true) (hz : kind = .slash → y.isZero = false) :
    Rounded op (kind.exact x.value y.value) (floatArith kind op x y) ∧
      ∀ e, kind.ideal? x.exponent y.exponent = some e →
        KeptAs (kind.exact x.value y.value) e (floatArith kind op x y) := by
  have hf := Format.standard_valid
  simp only [List.mem_cons, List.not_mem_nil, or_false] at hk
  rcases hk with rfl | rfl | rfl | rfl
  · obtain ⟨hrounds, hkeeps⟩ := Decimal.add_rounds hf hx hy
    exact ⟨rounded_ofDecimal hrounds, fun e he => by cases he; exact kept_ofDecimal hkeeps⟩
  · obtain ⟨hrounds, hkeeps⟩ := Decimal.sub_rounds hf hx hy
    exact ⟨rounded_ofDecimal hrounds, fun e he => by cases he; exact kept_ofDecimal hkeeps⟩
  · obtain ⟨hrounds, hkeeps⟩ := Decimal.mul_rounds hf hx hy
    exact ⟨rounded_ofDecimal hrounds, fun e he => by cases he; exact kept_ofDecimal hkeeps⟩
  · have hzero := hz rfl
    have hdivide : floatArith .slash op x y = ofDecimal op (x.div .standard y) := by
      rw [floatArith, hzero]
      rfl
    rw [hdivide]
    exact ⟨rounded_ofDecimal (Decimal.div_rounds hf hx hy hzero), fun e he => by cases he⟩

/-! ## Operands -/

/-- An operand is converted exactly. -/
theorem exists_operand (ha : a.amount? = some p) (op : String) :
    ∃ n d, a.number op = .ok n ∧ n.toDecimal = .ok d ∧ d.isFinite = true ∧ d.value = p ∧
      d.exponent = a.ideal ∧ n.isFloat = a.isFloat := by
  cases a with
  | bool value =>
    obtain rfl := Option.some.inj ha
    refine ⟨_, _, rfl, rfl, rfl, ?_, rfl, rfl⟩
    rw [Decimal.value_ofInt]
    cases value <;> simp
  | int value =>
    obtain rfl := Option.some.inj ha
    exact ⟨_, _, rfl, rfl, rfl, Decimal.value_ofInt value, rfl, rfl⟩
  | float value =>
    rw [amount?] at ha
    split at ha
    · next hfinite => exact ⟨_, _, rfl, rfl, hfinite, Option.some.inj ha, rfl, rfl⟩
    · cases ha
  | _ => cases ha

/-- With a float among the operands, both are converted. -/
theorem arith_eq_floatArith {kind : Kind} {m n : Number} {x y : Decimal}
    (ha : a.number op = .ok m) (hb : b.number op = .ok n) (hx : m.toDecimal = .ok x)
    (hy : n.toDecimal = .ok y) (hfloat : m.isFloat = true ∨ n.isFloat = true) :
    a.arith kind op b = floatArith kind op x y := by
  have hconvert : (do floatArith kind op (← m.toDecimal) (← n.toDecimal)) =
      floatArith kind op x y := by
    rw [hx, hy]
    rfl
  rw [arith, ha, hb, ← hconvert]
  cases m with
  | float => cases n <;> rfl
  | int =>
    cases n with
    | float => rfl
    | int | part => rcases hfloat with h | h <;> cases h
  | part =>
    cases n with
    | float => rfl
    | int | part => rcases hfloat with h | h <;> cases h

theorem isZero_of_value_ne_zero {d : Decimal} (h : d.value ≠ 0) : d.isZero = false := by
  cases d with
  | finite negative c e =>
    refine decide_eq_false fun hc => h ?_
    rw [hc, Decimal.value, Decimal.signed_zero, Int.cast_zero, zero_mul]
  | infinite | nan => rfl

/-- **Float arithmetic is correctly rounded.** A sum, a difference, a product or a quotient of
numbers, with a float among them and no divisor of zero, is the float nearest to the exact result,
or it fails because that is too large. Sums, differences and products that fit are exact and have
the exponent that they should have. The negation of a float is rounded as well. -/
theorem arith_correctly_rounded :
    (∀ (kind : Kind) (op : String) (a b : Value) (p q : ℚ),
      kind ∈ [Kind.plus, .minus, .star, .slash] → a.amount? = some p → b.amount? = some q →
      a.isFloat = true ∨ b.isFloat = true → (kind = .slash → q ≠ 0) →
      Rounded op (kind.exact p q) (a.arith kind op b) ∧
        ∀ e, kind.ideal? a.ideal b.ideal = some e → KeptAs (kind.exact p q) e (a.arith kind op b)) ∧
    ∀ d : Decimal, d.isFinite = true → Rounded "-" (-d.value) (float d).negate := by
  refine ⟨fun kind op a b p q hk ha hb hfloat hz => ?_, fun d hd => ?_⟩
  · obtain ⟨m, x, hm, hx, hxfinite, rfl, hxideal, hxfloat⟩ := exists_operand ha op
    obtain ⟨n, y, hn, hy, hyfinite, rfl, hyideal, hyfloat⟩ := exists_operand hb op
    rw [arith_eq_floatArith hm hn hx hy (by rwa [hxfloat, hyfloat]), ← hxideal, ← hyideal]
    exact floatArith_rounded hk hxfinite hyfinite fun h => isZero_of_value_ne_zero (hz h)
  · exact rounded_ofDecimal (Decimal.neg_rounds Format.standard_valid hd)

theorem arith_third : (float (.finite false 1 0)).arith .slash "/" (int 3) =
    .ok (.float (.finite false 3333333333333333333333333333 (-28))) := rfl

theorem negate_many : (float (.finite false 99999999999999999999999999995 999971)).negate =
    .error (.float .overflow "-") := rfl

/-- A third has twenty-eight digits, and a number just below `1E+1000000` has no negation. -/
theorem arith_correctly_rounded_third :
    (¬ Format.standard.Overflows (1 / 3) ∧
      Format.standard.nearest (1 / 3) = 3333333333333333333333333333 * 10 ^ (-28 : ℤ)) ∧
    Format.standard.Overflows (-(99999999999999999999999999995 * 10 ^ (999971 : ℤ))) := by
  constructor
  · obtain ⟨hrounded, -⟩ := arith_correctly_rounded.1 .slash "/" (float (.finite false 1 0)) (int 3)
      1 3 (by decide) (by simp [amount?, Decimal.isFinite, Decimal.value, Decimal.signed])
      (by simp [amount?]) (.inl rfl) (fun _ => by norm_num)
    rw [arith_third] at hrounded
    have hrange : ¬ Format.standard.Overflows (1 / 3) := fun ho => by
      obtain ⟨fault, herror, -⟩ := hrounded.overflow.mp ho
      cases herror
    obtain ⟨d, hd, -, hvalue⟩ := hrounded.nearest hrange
    cases hd
    refine ⟨hrange, hvalue.symm.trans ?_⟩
    simp [Decimal.value, Decimal.signed]
  · have hrounded := arith_correctly_rounded.2
      (.finite false 99999999999999999999999999995 999971) rfl
    rw [negate_many] at hrounded
    have := hrounded.overflow.mpr ⟨_, rfl, rfl, rfl⟩
    simpa [Decimal.value, Decimal.signed] using this

end Value

end Treewalk
