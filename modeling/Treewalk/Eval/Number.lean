import Treewalk.Eval.Fault
import Treewalk.Value

/-!
# Operands of arithmetic

An operand is an integer, a decimal, or what a mixed literal holds in place of one. The first two
are numbers, and `Operator` says what they do. Here is what the third does: texts can be put behind
each other, repeated, filled in and compared, a text that reads as a decimal counts as one beside a
decimal, and all else is a misuse with a wording of its own.

## Main definitions

* `Number`, an operand, and `Number.toDecimal`, its exact decimal
* `holds`, whether an order satisfies a comparison
* `Number.partArith`, `Number.partCompare`, operators on parts

## Implementation notes

The third constructor exists for trees made by hand. A literal in such a tree may say that it holds
an integer and hold a text, and arithmetic then does what the host does with that text. Keeping
these operands in a type of their own leaves the two ordinary cases free of them: `Operator` matches
on a pair of integers first, on a decimal second, and hands over whatever is left.

`holds` is partial although every caller passes a comparison. The alternative would be a default,
and then a wrong kind would quietly compare as something.
-/

namespace Treewalk

/-- A numeric operand. -/
inductive Number where
  | int (value : Int)
  | float (value : Decimal)
  /-- What a mixed literal holds, if it is no number. -/
  | part (tree : Tree)

/-- Whether an order satisfies a comparison. -/
def holds (kind : Kind) (order : Ordering) : Option Bool :=
  match kind with
  | .equal => some (order = .eq)
  | .unequal => some (order ≠ .eq)
  | .less => some (order = .lt)
  | .greater => some (order = .gt)
  | .lessEqual => some (order ≠ .gt)
  | .greaterEqual => some (order ≠ .lt)
  | _ => none

/-- The value of a question that a signalling decimal may leave without an answer. -/
def answered : Option Bool → Except Fault Value
  | some answer => .ok (.bool answer)
  | none => .error (.misuse .unordered)

namespace Number

/-- The operand that a part of a tree is. -/
def ofTree : Tree → Number
  | .int value => .int value
  | .float value _ => .float value
  | other => .part other

/-- The operand as a part of a tree. -/
def toTree : Number → Tree
  | int value => .int value
  | float value => .float value none
  | part tree => tree

/-- The sort of an operand. -/
def sort (a : Number) : PartSort :=
  a.toTree.sort

/-- The characters of an operand that is a text. -/
def words? (a : Number) : Option String :=
  a.toTree.words?

/-- Whether the operand is a decimal, to which others are then converted. -/
def isFloat : Number → Bool
  | float _ => true
  | int _ | part _ => false

/-- The exact decimal of an operand. -/
def toDecimal : Number → Except Fault Decimal
  | int value => .ok (.ofInt value)
  | float value => .ok value
  | part tree =>
    match tree.words? with
    | none => .error (.misuse (.inconvertible tree.sort))
    | some text =>
      match Decimal.ofText text with
      | .ok d => .ok d
      | .error issue => .error (.misuse (.unreadable issue))

/-! ## Operators on parts -/

/-- A text over and over; less than once is not at all. Counts and lengths have limits. -/
def repeated (text : String) (times : Int) : Except Fault Value :=
  if times < -Conversion.maxSize - 1 ∨ Conversion.maxSize < times then .error (.misuse .count)
  else if 2 ≤ times ∧ Conversion.maxSize < text.length * times then .error (.misuse .length)
  else if Conversion.maxLength < text.length * times then .error (.misuse .memory)
  else if text.isEmpty then .ok (.mixed .int (.text ""))
  else .ok (.mixed .int (.text (String.join (List.replicate times.toNat text))))

/-- The product with a part: a text is repeated, whichever side it stands on. -/
def partMul (a b : Number) : Except Fault Value :=
  match a.words?, a, b.words?, b with
  | some text, _, _, .int times => repeated text times
  | some _, _, _, b => .error (.misuse (.repeated b.sort))
  | none, .int times, some text, _ => repeated text times
  | none, a, some _, _ => .error (.misuse (.repeated a.sort))
  | none, a, none, b => .error (.misuse (.operands "*" a.sort b.sort))

/-- The sum with a part: two texts are put behind each other. -/
def partAdd (a b : Number) : Except Fault Value :=
  match a.words?, b.words? with
  | some front, some back => .ok (.mixed .int (.text (front ++ back)))
  | some _, none => .error (.misuse (.appended b.sort))
  | none, _ => .error (.misuse (.operands "+" a.sort b.sort))

/-- The remainder of a part: a text is filled in with the other operand. -/
def partMod (a b : Number) : Except Fault Value :=
  match a.words? with
  | some pattern =>
    match Conversion.fill pattern b.toTree with
    | .ok text => .ok (.mixed .int (.text text))
    | .error issue => .error (.misuse (.conversion issue))
  | none => .error (.misuse (.operands "%" a.sort b.sort))

/-- Whether an operand is the integer zero. -/
def isZero : Number → Bool
  | int value => value = 0
  | float _ | part _ => false

/-- Arithmetic on two operands of which none is a decimal and one is a part. A divisor of zero is
refused before anything else. -/
def partArith (kind : Kind) (a b : Number) : Except Fault Value :=
  match kind with
  | .plus => partAdd a b
  | .minus => .error (.misuse (.operands "-" a.sort b.sort))
  | .star => partMul a b
  | .slash =>
    if b.isZero then .error .divisionByZero else .error (.misuse (.operands "//" a.sort b.sort))
  | .percent => if b.isZero then .error .moduloByZero else partMod a b
  | _ => .error (.unknownBinary kind)

/-- How messages about operands without an order write a comparison. -/
def orderSymbol? : Kind → Option String
  | .less => some "<"
  | .greater => some ">"
  | .lessEqual => some "<="
  | .greaterEqual => some ">="
  | _ => none

/-- Comparison of two operands of which none is a decimal and one is a part. Equality is defined for
all, and texts have an order. -/
def partCompare (kind : Kind) (a b : Number) : Except Fault Value :=
  match orderSymbol? kind with
  | some symbol =>
    match a.words?, b.words? with
    | some front, some back =>
      .ok (.bool ((holds kind (Ord.compare front back)).getD false))
    | _, _ => .error (.misuse (.ordered symbol a.sort b.sort))
  | none =>
    match kind with
    | .equal => answered (a.toTree.alike? b.toTree)
    | .unequal => answered (a.toTree.differ? b.toTree)
    | _ => .error (.unknownComparison kind)

end Number

end Treewalk
