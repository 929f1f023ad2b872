import Treewalk.Proofs.Eval.Invariant
import Treewalk.Proofs.Scope.Store
import Treewalk.Proofs.Syntax.Derived

/-!
# Proper values

A program that was read from a source can only make some of the values that exist: its decimals are
finite, nothing in it is mixed, and the bodies of its functions were read from a source too. On such
values every operator that a source can write either has a result of the same kind or a fault that
a program can be told about; a decimal operation lacks a result only if it would be too large.

## Main definitions

* `Value.Proper`, `Store.Proper`, `Fault.Proper`
* `proper`, the invariant that everything is proper

## Main results

* `Value.applyUnary_yields`, `Value.applyBinary_yields`: operators on proper values
* `proper_stable`: evaluation keeps everything proper

## Implementation notes

Improper values exist because trees may be made by hand, and the evaluator gives them a meaning. For
programs from a source they are excluded once and for all here, so that no later statement has to
mention mixed literals or infinite decimals. The condition on closures is about the body: a closure
made of proper code is proper even if it has not been called.

Operators are treated before evaluation, and by `Yields` of the invariant, so that what is proved of
an operator is literally the field that `Stable` asks for. A division needs that the divisor is not
zero, which is checked by the operator itself before the decimals come in.
-/

namespace Treewalk

/-! ## Finite decimals -/

namespace Decimal

/-- A result is finite, and if there is none it would have been too large. -/
def Finite : Except Issue Decimal → Prop
  | .ok d => d.isFinite = true
  | .error issue => issue = .overflow

/-- Rounding gives a finite value, unless it would be too large. -/
theorem finite_fit (f : Format) (negative : Bool) (coefficient : Nat) (exponent : Int) :
    Finite (f.fit negative coefficient exponent) := by
  rw [Format.fit]
  simp only
  repeat' split
  all_goals rfl

variable {a b : Decimal}

theorem finite_add (f : Format) (ha : a.isFinite = true) (hb : b.isFinite = true) :
    Finite (a.add f b) := by
  obtain ⟨n₁, c₁, e₁, rfl⟩ := exists_finite ha
  obtain ⟨n₂, c₂, e₂, rfl⟩ := exists_finite hb
  simp only [add]
  split
  · exact finite_fit _ _ _ _
  · exact finite_fit _ _ _ _

theorem finite_sub (f : Format) (ha : a.isFinite = true) (hb : b.isFinite = true) :
    Finite (a.sub f b) := by
  obtain ⟨n, c, e, rfl⟩ := exists_finite hb
  exact finite_add f ha rfl

theorem finite_mul (f : Format) (ha : a.isFinite = true) (hb : b.isFinite = true) :
    Finite (a.mul f b) := by
  obtain ⟨n₁, c₁, e₁, rfl⟩ := exists_finite ha
  obtain ⟨n₂, c₂, e₂, rfl⟩ := exists_finite hb
  exact finite_fit _ _ _ _

theorem finite_div (f : Format) (ha : a.isFinite = true) (hb : b.isFinite = true)
    (hz : b.isZero = false) : Finite (a.div f b) := by
  obtain ⟨n₁, c₁, e₁, rfl⟩ := exists_finite ha
  obtain ⟨n₂, c₂, e₂, rfl⟩ := exists_finite hb
  have hc : c₂ ≠ 0 := by simpa [isZero] using hz
  simp only [div, if_neg hc]
  split
  · exact finite_fit _ _ _ _
  · exact finite_fit _ _ _ _

theorem finite_neg (f : Format) (ha : a.isFinite = true) : Finite (a.neg f) := by
  obtain ⟨n, c, e, rfl⟩ := exists_finite ha
  exact finite_fit _ _ _ _

/-- Finite decimals have an order. -/
theorem compare?_of_finite (ha : a.isFinite = true) (hb : b.isFinite = true) :
    a.compare? b = some (a.compare b) := by
  obtain ⟨n₁, c₁, e₁, rfl⟩ := exists_finite ha
  obtain ⟨n₂, c₂, e₂, rfl⟩ := exists_finite hb
  rfl

end Decimal

/-! ## Proper values -/

/-- A value that the code of a source can make. -/
def Value.Proper : Value → Prop
  | .float d => d.isFinite = true
  | .mixed _ _ => False
  | .closure c => Code.All Code.Proper (.stmt c.body)
  | _ => True

/-- All values that are bound are proper. -/
def Store.Proper (s : Store) : Prop :=
  ∀ g, ∀ entry ∈ s.vars g, entry.2.Proper

/-- An operand that a proper value is. -/
def Number.Proper : Number → Prop
  | .int _ => True
  | .float d => d.isFinite = true
  | .part _ => False

/-- A fault that proper values lead to: one of a program, and of the decimal operations only that of
a result that is too large. -/
structure Fault.Proper (f : Fault) : Prop where
  ordinary : f.isOrdinary = true
  issue : f.issue? ≠ some .invalid

/-- A fault that is not about a decimal operation. -/
theorem Fault.proper_of_issue? {f : Fault} (h : f.isOrdinary = true) (hi : f.issue? = none) :
    f.Proper :=
  ⟨h, by simp [hi]⟩

/-- Everything is proper, every fault too. -/
def proper : Invariant where
  state m := m.store.Proper
  grows _ _ := True
  value _ v := v.Proper
  frame _ _ := True
  owned _ _ := True
  code _ _ := Code.All Code.Proper
  fault f := f.Proper

namespace Store

variable {s : Store}

theorem Proper.define (hs : s.Proper) {v : Value} (hv : v.Proper) (f : FrameId) (x : String) :
    (s.define f x v).Proper :=
  Holds.define hs hv f x

theorem Proper.addChild (hs : s.Proper) {vars : Bindings} (hv : ∀ entry ∈ vars, entry.2.Proper)
    (p : FrameId) (source : Option String) : (s.addChild p source vars).Proper :=
  Holds.addChild hs hv p source

theorem Proper.get? (hs : s.Proper) {f : FrameId} {x : String} {v : Value}
    (h : s.get? f x = some v) : v.Proper :=
  Holds.get? hs h

end Store

/-! ## Operators -/

namespace Value

variable {v w : Value} {kind : Kind}

theorem ofDecimal_yields (op : String) {x : Except Decimal.Issue Decimal} (hx : Decimal.Finite x) :
    proper.Yields (ofDecimal op x) Proper := by
  cases x with
  | ok d => exact hx
  | error issue =>
    obtain rfl : issue = .overflow := hx
    exact ⟨rfl, by simp [Fault.issue?]⟩

theorem number_yields (hv : v.Proper) (op : String) :
    proper.Yields (v.number op) Number.Proper := by
  cases v with
  | bool | int => trivial
  | float d => exact hv
  | mixed => exact hv.elim
  | _ => exact Fault.proper_of_issue? rfl rfl

theorem toDecimal_yields {n : Number} (hn : n.Proper) :
    proper.Yields n.toDecimal fun d => d.isFinite = true := by
  cases n with
  | int n => rfl
  | float d => exact hn
  | part => exact hn.elim

theorem intArith_yields (hk : kind.isArithmetic = true) (a b : Int) :
    proper.Yields (intArith kind a b) Proper := by
  cases kind <;> try exact absurd hk (by decide)
  case plus | minus | star => trivial
  case slash | percent =>
    simp only [intArith]
    split
    · exact Fault.proper_of_issue? rfl rfl
    · trivial

theorem floatArith_yields (hk : kind.isArithmetic = true) (op : String) {a b : Decimal}
    (ha : a.isFinite = true) (hb : b.isFinite = true) :
    proper.Yields (floatArith kind op a b) Proper := by
  cases kind <;> try exact absurd hk (by decide)
  case plus => exact ofDecimal_yields op (Decimal.finite_add _ ha hb)
  case minus => exact ofDecimal_yields op (Decimal.finite_sub _ ha hb)
  case star => exact ofDecimal_yields op (Decimal.finite_mul _ ha hb)
  case slash =>
    simp only [floatArith]
    split
    · exact Fault.proper_of_issue? rfl rfl
    · next hz => exact ofDecimal_yields op (Decimal.finite_div _ ha hb (by simpa using hz))
  case percent => exact Fault.proper_of_issue? rfl rfl

/-- Two proper operands are integers both, or else one is a decimal. -/
theorem isFloat_of_proper {a b : Number} (ha : a.Proper) (hb : b.Proper)
    (hne : ∀ m n, a = .int m → b ≠ .int n) : (a.isFloat || b.isFloat) = true := by
  cases a with
  | float => rfl
  | part => exact ha.elim
  | int m =>
    cases b with
    | float => rfl
    | part => exact hb.elim
    | int n => exact absurd rfl (hne m n rfl)

theorem arith_yields (hk : kind.isArithmetic = true) (op : String) (hv : v.Proper) (hw : w.Proper) :
    proper.Yields (v.arith kind op w) Proper := by
  refine (number_yields hv op).bind fun a ha => (number_yields hw op).bind fun b hb => ?_
  split
  · exact intArith_yields hk _ _
  · next hne =>
    rw [if_pos (isFloat_of_proper ha hb fun m n hm hn => hne m n hm hn)]
    refine (toDecimal_yields ha).bind fun x hx => (toDecimal_yields hb).bind fun y hy => ?_
    exact floatArith_yields hk op hx hy

theorem ofOrder_yields (hk : kind.isComparison = true) (order : Ordering) :
    proper.Yields (ofOrder kind order) Proper := by
  cases kind <;> first
    | exact absurd hk (by decide)
    | trivial

theorem compareAsNumbers_yields (hk : kind.isComparison = true) (op : String) (hv : v.Proper)
    (hw : w.Proper) : proper.Yields (v.compareAsNumbers kind op w) Proper := by
  refine (number_yields hv op).bind fun a ha => (number_yields hw op).bind fun b hb => ?_
  split
  · exact ofOrder_yields hk _
  · next hne =>
    rw [if_pos (isFloat_of_proper ha hb fun m n hm hn => hne m n hm hn)]
    refine (toDecimal_yields ha).bind fun x hx => (toDecimal_yields hb).bind fun y hy => ?_
    rw [compareDecimals, Decimal.compare?_of_finite hx hy]
    exact ofOrder_yields hk _

/-- Whether two proper values are the same has an answer. -/
theorem same?_of_proper (hv : v.Proper) (hw : w.Proper) : ∃ b, v.same? w = some b := by
  cases v <;> cases w <;> first
    | exact hv.elim
    | exact hw.elim
    | exact ⟨_, rfl⟩

theorem compare_yields (hk : kind.isComparison = true) (op : String) (hv : v.Proper)
    (hw : w.Proper) : proper.Yields (v.compare kind op w) Proper := by
  obtain ⟨b, hb⟩ := same?_of_proper hv hw
  rw [compare, hb]
  split
  · exact compareAsNumbers_yields hk op hv hw
  split
  · trivial
  split
  · trivial
  · exact compareAsNumbers_yields hk op hv hw

theorem negate_yields (hv : v.Proper) : proper.Yields v.negate Proper := by
  refine (number_yields hv "-").bind fun n hn => ?_
  cases n with
  | int n => trivial
  | float d => exact ofDecimal_yields "-" (Decimal.finite_neg _ hn)
  | part => exact hn.elim

theorem applyUnary_yields (hk : kind.isUnary = true) (hv : v.Proper) :
    proper.Yields (v.applyUnary kind) Proper := by
  cases kind <;> try exact absurd hk (by decide)
  case minus => exact negate_yields hv
  case notKw => trivial

theorem applyBinary_yields {op : Operator} (hk : op.kind.isBinary = true) (ha : op.kind ≠ .andKw)
    (ho : op.kind ≠ .orKw) (hv : v.Proper) (hw : w.Proper) :
    proper.Yields (v.applyBinary op w) Proper := by
  rw [applyBinary]
  split
  · next hc => exact compare_yields hc op.text hv hw
  · next hc =>
    have har : op.kind.isArithmetic = true := by
      simpa [Kind.isBinary, hc, ha, ho] using hk
    exact arith_yields har op.text hv hw

theorem untextual?_of_proper (hv : v.Proper) : v.untextual? = none := by
  cases v with
  | mixed => exact hv.elim
  | _ => rfl

end Value

/-! ## Evaluation -/

theorem proper_stable : proper.Stable where
  refl _ := trivial
  trans _ _ := trivial
  value_grows _ hv := hv
  frame_grows _ _ := trivial
  owned_grows _ _ := trivial
  part hc hd := hc.part hd
  literal := by
    intro m f e v hc hv
    have hp : Code.Proper (.expr e) := hc.here
    cases e <;> cases hv
    all_goals trivial
  nil _ := trivial
  lookup hm _ hv := hm.get? hv
  assign hm _ _ hv := ⟨hm.define hv _ _, trivial⟩
  declare name hm _ _ hv := ⟨hm.define hv _ _, trivial⟩
  enter hm _ hv := ⟨⟨hm.addChild hv _ _, trivial⟩, trivial, trivial⟩
  close := by
    intro m f c name params body hm _ hc hp
    refine ⟨⟨hm, trivial⟩, ?_⟩
    exact hc.part (Code.mem_parts_of_function? hp)
  called hv := ⟨hv, trivial⟩
  outside hm hs _ := by
    refine ⟨?_, trivial⟩
    change Store.Proper _
    rw [hs]
    exact hm
  unary hc hv := Value.applyUnary_yields hc.here hv
  binary hc hv hw ha ho := Value.applyBinary_yields hc.here ha ho hv hw
  untextual _ hv hs := by
    rw [Value.untextual?_of_proper hv] at hs
    exact absurd hs (by simp)
  words hv _ := hv.elim
  wordless hv _ := hv.elim
  formatted _ _ _ := trivial
  line _ := trivial
  ordinary := Fault.proper_of_issue?
  misfit := by
    intro m f c cause hc hm
    have hp := hc.here
    rcases c with e | s
    · cases e <;> cases hm
      exact hp.elim
    · cases s <;> cases hm
      exact hp.elim

end Treewalk
