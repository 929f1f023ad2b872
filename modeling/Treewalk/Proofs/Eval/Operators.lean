import Treewalk.Eval.Operator

/-!
# What operators answer

Operators compute numbers and truth values. Whatever is said about functions, their frames, their
bodies or their identities, operators have no part in it, nor do they make texts. And what they
complain about goes with their kind: equality takes all operands, only quotients and remainders
refuse a divisor, and only arithmetic runs out of decimals.

## Main definitions

* `Value.isClosure`, `Value.isScalar`
* `Fault.OfOperator`, the faults that an operator of a kind may have
* `Value.Answers`, a computation with a result or a fault as described

## Main results

* `Value.answers_applyUnary`, `Value.answers_applyBinary`
* `Value.Answers.map_eq`: what changes functions alone does not change an answer

## Implementation notes

The faults of an operator are described by its kind and not by its operands. This is coarser than
what the definitions say and just what the callers can use: a node knows the kind of its operator
when it is parsed, and the values only when it runs.

Everything here holds of all values, those of trees made by hand included, since none of the
invariants that rely on it can rule these out everywhere. That is why `Misuse` is allowed to every
kind; programs from a source do not come to it, which is the matter of `proper`.
-/

namespace Treewalk

/-- The value is a function made by a program. -/
def Value.isClosure : Value → Bool
  | closure _ => true
  | _ => false

/-- The value is a truth value, a number, or what a mixed literal holds in place of one. -/
def Value.isScalar : Value → Bool
  | bool _ | int _ | float _ | mixed _ _ => true
  | _ => false

theorem Value.isClosure_of_isScalar {v : Value} (h : v.isScalar = true) : v.isClosure = false := by
  cases v <;> first
    | rfl
    | cases h

/-- The faults that an operator of a kind may have, among them those that only operators and
operands of trees made by hand have. -/
def Fault.OfOperator (kind : Kind) : Fault → Prop
  | .operand _ _ => kind ≠ .equal ∧ kind ≠ .unequal
  | .float _ _ => kind.isArithmetic = true
  | .divisionByZero => kind = .slash
  | .moduloByZero | .floatModulo => kind = .percent
  | .unknownUnary _ | .unknownBinary _ | .unknownComparison _ | .misuse _ => True
  | _ => False

namespace Value

/-- The result is as described, or the fault is one that an operator of the kind may have. -/
def Answers {α : Type} (kind : Kind) (x : Except Fault α) (Q : α → Prop) : Prop :=
  match x with
  | .ok a => Q a
  | .error cause => cause.OfOperator kind

/-- The computation of an operator, which does not result in a text or a function. That is why
operators cannot break a property of texts or of functions. -/
abbrev Operates (kind : Kind) (x : Except Fault Value) : Prop :=
  Answers kind x fun v => v.isScalar = true

variable {kind : Kind}

/-- What changes functions alone does not change an answer. -/
theorem Answers.map_eq {x : Except Fault Value} (h : Operates kind x) {f : Value → Value}
    (hf : ∀ v, v.isClosure = false → f v = v) : x.map f = x := by
  cases x with
  | error cause => rfl
  | ok v => exact congrArg Except.ok (hf v (isClosure_of_isScalar h))

theorem Answers.bind {α β : Type} {x : Except Fault α} {f : α → Except Fault β} {Q : β → Prop}
    (hx : Answers kind x fun _ => True) (hf : ∀ a, Answers kind (f a) Q) :
    Answers kind (x >>= f) Q := by
  cases x with
  | error cause => exact hx
  | ok a => exact hf a

/-! ## Operands -/

theorem answers_number (hk : kind ≠ .equal ∧ kind ≠ .unequal) (v : Value) (op : String) :
    Answers kind (v.number op) fun _ => True := by
  rw [number]
  split
  · trivial
  · exact hk

theorem answers_number_of_isSome {v : Value} (h : v.number?.isSome = true) (op : String) :
    Answers kind (v.number op) fun _ => True := by
  rw [number]
  split
  · trivial
  · next hnone =>
    rw [hnone] at h
    cases h

theorem answers_toDecimal (n : Number) : Answers kind n.toDecimal fun _ => True := by
  rw [Number.toDecimal.eq_def]
  split
  · trivial
  · trivial
  · split
    · trivial
    · split <;> trivial

/-! ## Arithmetic -/

theorem operates_ofDecimal (hk : kind.isArithmetic = true) (op : String)
    (x : Except Decimal.Issue Decimal) : Operates kind (ofDecimal op x) := by
  cases x with
  | ok d => rfl
  | error issue => exact hk

theorem operates_intArith (a b : Int) : Operates kind (intArith kind a b) := by
  cases kind <;> first
    | rfl
    | trivial
    | (rw [intArith]; split <;> rfl)

theorem operates_floatArith (op : String) (a b : Decimal) :
    Operates kind (floatArith kind op a b) := by
  cases kind <;> first
    | exact operates_ofDecimal rfl _ _
    | rfl
    | trivial
    | (rw [floatArith]; split <;> first | rfl | exact operates_ofDecimal rfl _ _)

theorem operates_repeated (text : String) (times : Int) :
    Operates kind (Number.repeated text times) := by
  rw [Number.repeated]
  repeat' split
  all_goals first
    | rfl
    | trivial

theorem operates_partArith (a b : Number) : Operates kind (a.partArith kind b) := by
  rw [Number.partArith.eq_def]
  split
  · rw [Number.partAdd]
    split <;> trivial
  · trivial
  · rw [Number.partMul.eq_def]
    split <;> first
      | exact operates_repeated _ _
      | trivial
  · split <;> trivial
  · split
    · rfl
    · rw [Number.partMod]
      split
      · split <;> trivial
      · trivial
  · trivial

theorem operates_arith (hk : kind ≠ .equal ∧ kind ≠ .unequal) (op : String) (v w : Value) :
    Operates kind (v.arith kind op w) := by
  refine (answers_number hk v op).bind fun a => (answers_number hk w op).bind fun b => ?_
  split
  · exact operates_intArith _ _
  · split
    · refine (answers_toDecimal _).bind fun x => (answers_toDecimal _).bind fun y => ?_
      exact operates_floatArith op x y
    · exact operates_partArith _ _

theorem operates_negate (v : Value) : Operates .minus v.negate := by
  refine (answers_number (by decide) v "-").bind fun n => ?_
  cases n with
  | int n => rfl
  | float d => exact operates_ofDecimal rfl _ _
  | part tree => trivial

/-! ## Comparison -/

theorem operates_ofOrder (kind' : Kind) (order : Ordering) :
    Operates kind (ofOrder kind' order) := by
  rw [ofOrder]
  split <;> trivial

theorem operates_answered (answer : Option Bool) : Operates kind (answered answer) := by
  cases answer <;> trivial

theorem operates_partCompare (a b : Number) : Operates kind (a.partCompare kind b) := by
  rw [Number.partCompare.eq_def]
  split
  · split <;> trivial
  · split
    · exact operates_answered _
    · exact operates_answered _
    · trivial

theorem operates_compareDecimals (a b : Decimal) : Operates kind (compareDecimals kind a b) := by
  rw [compareDecimals]
  split
  · exact operates_ofOrder _ _
  · rw [ofOrder]
    cases holds kind .lt with
    | none => trivial
    | some distinct =>
      change Operates kind (if _ then _ else _)
      split <;> trivial

/-- Operands are compared as numbers if they are, or if an order is asked for. -/
theorem operates_compareAsNumbers (op : String) {v w : Value}
    (hv : Answers kind (v.number op) fun _ => True)
    (hw : Answers kind (w.number op) fun _ => True) :
    Operates kind (v.compareAsNumbers kind op w) := by
  refine hv.bind fun a => hw.bind fun b => ?_
  split
  · exact operates_ofOrder _ _
  · split
    · exact (answers_toDecimal _).bind fun x => (answers_toDecimal _).bind fun y =>
        operates_compareDecimals x y
    · exact operates_partCompare _ _

theorem operates_compare (op : String) (v w : Value) : Operates kind (v.compare kind op w) := by
  rw [compare]
  split
  · next hnumbers =>
    obtain ⟨hv, hw⟩ := Bool.and_eq_true_iff.mp hnumbers
    exact operates_compareAsNumbers op (answers_number_of_isSome hv op)
      (answers_number_of_isSome hw op)
  split
  · exact operates_answered _
  split
  · exact operates_answered _
  · next hequal hunequal =>
    have hk : kind ≠ .equal ∧ kind ≠ .unequal := ⟨hequal, hunequal⟩
    exact operates_compareAsNumbers op (answers_number hk v op) (answers_number hk w op)

/-! ## Operators -/

theorem operates_applyUnary (kind : Kind) (v : Value) : Operates kind (v.applyUnary kind) := by
  cases kind <;> first
    | exact operates_negate v
    | trivial

theorem operates_applyBinary (op : Operator) (v w : Value) :
    Operates op.kind (v.applyBinary op w) := by
  rw [applyBinary]
  split
  · exact operates_compare _ _ _
  · next hcomparison =>
    refine operates_arith ⟨fun hk => hcomparison ?_, fun hk => hcomparison ?_⟩ _ _ _
    · rw [hk]; rfl
    · rw [hk]; rfl

end Value

end Treewalk
