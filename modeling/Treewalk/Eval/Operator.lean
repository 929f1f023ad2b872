import Treewalk.Decimal.Arith
import Treewalk.Eval.Number

/-!
# Operators on values

Arithmetic and comparison. Truth values count as zero and one; if one operand is a decimal, the
other is converted exactly. Quotient and remainder of integers go to the floor. Equality is defined
for all values, order for numbers alone.

## Main definitions

* `Value.number`, the operand that a value is
* `Value.arith`, `Value.compare`, `Value.negate`

## Implementation notes

An operator first turns its operands into numbers and then looks at them, and not the other way
round. So the first operand that is none is reported, even if the second is none either, and a
truth value needs no case of its own.

Equality comes before numbers are asked for: it is defined for all values, and only two numbers are
compared as such. Order asks for numbers and fails where there are none. Both share
`compareAsNumbers`, so equal and not less than cannot come apart for numbers.
-/

namespace Treewalk

namespace Value

/-- The number that a value counts as. -/
def number? : Value → Option Number
  | bool value => some (.int (if value then 1 else 0))
  | int value => some (.int value)
  | float value => some (.float value)
  | mixed .int part | mixed .float part => some (.ofTree part)
  | _ => none

/-- The number that a value counts as, or the fault of an operator that wants one. -/
def number (v : Value) (op : String) : Except Fault Number :=
  match v.number? with
  | some n => .ok n
  | none => .error (.operand v.sort op)

/-- The value of a decimal operation. -/
def ofDecimal (op : String) : Except Decimal.Issue Decimal → Except Fault Value
  | .ok d => .ok (.float d)
  | .error issue => .error (.float issue op)

/-- Arithmetic on integers. -/
def intArith (kind : Kind) (a b : Int) : Except Fault Value :=
  match kind with
  | .plus => .ok (.int (a + b))
  | .minus => .ok (.int (a - b))
  | .star => .ok (.int (a * b))
  | .slash => if b = 0 then .error .divisionByZero else .ok (.int (a.fdiv b))
  | .percent => if b = 0 then .error .moduloByZero else .ok (.int (a.fmod b))
  | _ => .error (.unknownBinary kind)

/-- Arithmetic on decimals. -/
def floatArith (kind : Kind) (op : String) (a b : Decimal) : Except Fault Value :=
  match kind with
  | .plus => ofDecimal op (a.add .standard b)
  | .minus => ofDecimal op (a.sub .standard b)
  | .star => ofDecimal op (a.mul .standard b)
  | .slash => if b.isZero then .error .divisionByZero else ofDecimal op (a.div .standard b)
  | .percent => .error .floatModulo
  | _ => .error (.unknownBinary kind)

/-- Arithmetic on values; the text of the operator is for messages. -/
def arith (kind : Kind) (op : String) (lhs rhs : Value) : Except Fault Value := do
  let a ← lhs.number op
  let b ← rhs.number op
  match a, b with
  | .int a, .int b => intArith kind a b
  | a, b =>
    if a.isFloat || b.isFloat then floatArith kind op (← a.toDecimal) (← b.toDecimal)
    else a.partArith kind b

/-- The value of a comparison whose operands have an order. -/
def ofOrder (kind : Kind) (order : Ordering) : Except Fault Value :=
  match holds kind order with
  | some result => .ok (.bool result)
  | none => .error (.unknownComparison kind)

/-- Comparison of decimals by their exact values. One that is no number differs from all, has no
order, and may not even be asked about if it is signalling. -/
def compareDecimals (kind : Kind) (a b : Decimal) : Except Fault Value :=
  match a.compare? b with
  | some order => ofOrder kind order
  | none => do
    let distinct ← ofOrder kind .lt
    if a.isSignalling || b.isSignalling || (kind ≠ .equal ∧ kind ≠ .unequal) then
      throw (.misuse .unordered)
    return distinct

/-- Comparison of numbers. -/
def compareAsNumbers (kind : Kind) (op : String) (lhs rhs : Value) : Except Fault Value := do
  let a ← lhs.number op
  let b ← rhs.number op
  match a, b with
  | .int a, .int b => ofOrder kind (Ord.compare a b)
  | a, b =>
    if a.isFloat || b.isFloat then compareDecimals kind (← a.toDecimal) (← b.toDecimal)
    else a.partCompare kind b

/-- Comparison of values: of numbers by value, and equality of all others too. -/
def compare (kind : Kind) (op : String) (lhs rhs : Value) : Except Fault Value :=
  if lhs.number?.isSome && rhs.number?.isSome then compareAsNumbers kind op lhs rhs
  else if kind = .equal then answered (lhs.same? rhs)
  else if kind = .unequal then answered ((lhs.same? rhs).map not)
  else compareAsNumbers kind op lhs rhs

/-- The negation of a number. -/
def negate (v : Value) : Except Fault Value := do
  match ← v.number "-" with
  | .int n => return .int (-n)
  | .float d => ofDecimal "-" (d.neg .standard)
  | .part part => throw (.misuse (.negated part.sort))

/-- An operator in front of an operand. -/
def applyUnary (kind : Kind) (v : Value) : Except Fault Value :=
  match kind with
  | .notKw => .ok (.bool (!v.truthy))
  | .minus => v.negate
  | _ => .error (.unknownUnary kind)

/-- An operator between two operands that are both evaluated. -/
def applyBinary (op : Operator) (lhs rhs : Value) : Except Fault Value :=
  if op.kind.isComparison then lhs.compare op.kind op.text rhs
  else lhs.arith op.kind op.text rhs

end Value

end Treewalk
