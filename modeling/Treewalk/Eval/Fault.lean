import Treewalk.Eval.Conversion
import Treewalk.Source.Position
import Treewalk.Syntax.Basic
import Treewalk.Text.Quoted

/-!
# Failures at run time

A fault is why an evaluation failed; it knows nothing of places. A failure is a fault with the
place that it is blamed on: that of the innermost node around it that carries a mark, in the source
whose name the frame of that node has.

## Main definitions

* `Misuse`, what the parts of trees made by hand cannot do in place of numbers and texts
* `Fault`, `Fault.message`, `Fault.category`
* `Failure`, `Failure.blame`, `Failure.message`

## Implementation notes

A fault is a constructor with the data that its wording needs, and never a text. Two failures can
then be compared, a family can be read off, and a statement about messages is one about `message`.

Blaming is separate from failing. An action that fails does not know its node; the nodes around it
are asked from the inside out, and the first that has a mark is blamed for good. `blame` is
idempotent for this reason, which `blame_placed` says, and evaluation may call it at every level
without keeping track of whether it has been called before.
-/

namespace Treewalk

/-- What a literal with a part of another sort cannot do, and what cannot be done with a decimal
that is no number. -/
inductive Misuse where
  /-- A part that is negated. -/
  | negated (sort : PartSort)
  /-- Operands that an operator does not take together. -/
  | operands (symbol : String) (lhs rhs : PartSort)
  /-- Something else than a text that is put behind a text. -/
  | appended (sort : PartSort)
  /-- Something else than an integer that says how often a text is repeated. -/
  | repeated (sort : PartSort)
  /-- Operands that have no order. -/
  | ordered (symbol : String) (lhs rhs : PartSort)
  /-- A text over and over, too often for any count. -/
  | count
  /-- A text over and over that is longer than any text. -/
  | length
  /-- A text over and over that no memory holds. -/
  | memory
  /-- A text that cannot be filled in. -/
  | conversion (issue : Conversion.Issue)
  /-- A part that is never a decimal. -/
  | inconvertible (sort : PartSort)
  /-- A text that is no decimal. -/
  | unreadable (issue : Decimal.TextIssue)
  /-- The order of a decimal that is no number, or the equality of a signalling one. -/
  | unordered
  /-- The part of a character or string that is no text, by its place in what is shown. -/
  | untextual (index : Nat) (sort : PartSort)
  deriving DecidableEq

/-- Why an evaluation failed. -/
inductive Fault where
  /-- A name that no frame around binds. -/
  | undefined (name : String)
  /-- An assignment to such a name. -/
  | assignUndefined (name : String)
  /-- An operand that is no number. -/
  | operand (sort op : String)
  | divisionByZero
  | moduloByZero
  /-- A remainder of decimals. -/
  | floatModulo
  /-- A decimal operation without a result. -/
  | float (issue : Decimal.Issue) (op : String)
  /-- A call with the wrong number of arguments. -/
  | arity (label : String) (expected got : Nat)
  /-- A call of something else than a function. -/
  | notCallable (shown : String)
  /-- The function `format` without a string to start with. -/
  | noFormat
  /-- A format with more placeholders than arguments. -/
  | placeholders (context : String) (needed got : Nat)
  /-- Calls nested too deeply. -/
  | callDepth (label : String)
  | unknownUnary (kind : Kind)
  | unknownBinary (kind : Kind)
  | unknownComparison (kind : Kind)
  /-- A part of a tree that is no expression or statement. -/
  | misfit (cause : Misfit)
  /-- A part of a tree in the place of a number or a text. -/
  | misuse (cause : Misuse)
  deriving DecidableEq

/-- The wording of a misfit. -/
def Misfit.message : Misfit → String
  | .leaf sort => "Unsupported node type: " ++ sort.name
  | .expression label => "Unknown expression type: " ++ label
  | .statement label => "Unknown statement type: " ++ label
  | .count expected got =>
    if got < expected then
      "not enough values to unpack (expected " ++ toString expected ++ ", got " ++ toString got
        ++ ")"
    else "too many values to unpack (expected " ++ toString expected ++ ")"
  | .childless => "list index out of range"
  | .operator kind => Text.quoted kind
  | .lacking sort feature =>
    "'" ++ sort.fullName ++ "' object has no attribute '" ++ feature ++ "'"
  | .declared => "Declaration target must be an identifier"
  | .assigned => "Assignment target must be an identifier"
  | .defined => "Function name must be an identifier"
  | .called => "Callee must be an identifier"

/-- The wording of a misuse. -/
def Misuse.message : Misuse → String
  | .negated sort => "bad operand type for unary -: '" ++ sort.fullName ++ "'"
  | .operands symbol lhs rhs =>
    "unsupported operand type(s) for " ++ symbol ++ ": '" ++ lhs.fullName ++ "' and '"
      ++ rhs.fullName ++ "'"
  | .appended sort => "can only concatenate str (not \"" ++ sort.fullName ++ "\") to str"
  | .repeated sort => "can't multiply sequence by non-int of type '" ++ sort.fullName ++ "'"
  | .ordered symbol lhs rhs =>
    "'" ++ symbol ++ "' not supported between instances of '" ++ lhs.fullName ++ "' and '"
      ++ rhs.fullName ++ "'"
  | .count => "cannot fit 'int' into an index-sized integer"
  | .length => "repeated string is too long"
  | .memory => ""
  | .conversion issue => issue.message
  | .inconvertible sort => "conversion from " ++ sort.fullName ++ " to Decimal is not supported"
  | .unreadable .malformed => "[<class 'decimal.ConversionSyntax'>]"
  | .unreadable .beyond | .unordered => "[<class 'decimal.InvalidOperation'>]"
  | .untextual index sort =>
    "sequence item " ++ toString index ++ ": expected str instance, " ++ sort.fullName ++ " found"

/-- Families of faults. Each has an error class of its own, but for those of layout: they are
faults of a tree made by hand, not of a program, and what reports them is the host. -/
inductive Category where
  | general | name | type | arity | zeroDivision | unimplemented | recursion | layout
  deriving DecidableEq

/-- The family of a misfit: children that do not fit are a matter of layout. -/
def Misfit.category : Misfit → Category
  | .count _ _ | .childless | .operator _ | .lacking _ _ => .layout
  | .leaf _ | .expression _ | .statement _ | .declared | .assigned | .defined | .called => .general

namespace Fault

/-- The wording of a fault. -/
def message : Fault → String
  | undefined name => "undefined variable '" ++ name ++ "'"
  | assignUndefined name => "assignment to undefined variable '" ++ name ++ "'"
  | operand sort op => "unsupported operand type " ++ sort ++ " for '" ++ op ++ "'"
  | divisionByZero => "division by zero"
  | moduloByZero => "modulo by zero"
  | floatModulo => "modulo is not implemented for float operands"
  | float .overflow op => "float overflow in '" ++ op ++ "'"
  | float .invalid op => "invalid float operation in '" ++ op ++ "'"
  | arity label expected got =>
    label ++ " expects " ++ toString expected ++ " args; got " ++ toString got
  | notCallable shown => shown ++ " is not callable"
  | noFormat => "format expects a format string as its first argument"
  | placeholders context needed got =>
    context ++ ": format has " ++ toString needed ++ " placeholder(s) but got " ++ toString got
      ++ " argument(s)"
  | callDepth label => "maximum call depth exceeded in " ++ label
  | unknownUnary kind => "unknown unary operator " ++ kind.name
  | unknownBinary kind => "unknown binary operator " ++ kind.name
  | unknownComparison kind => "unknown comparison operator " ++ kind.name
  | misfit cause => cause.message
  | misuse cause => cause.message

/-- The family of a fault. -/
def category : Fault → Category
  | undefined _ | assignUndefined _ => .name
  | operand _ _ | notCallable _ | noFormat => .type
  | arity _ _ _ => .arity
  | divisionByZero | moduloByZero => .zeroDivision
  | floatModulo => .unimplemented
  | callDepth _ => .recursion
  | float _ _ | placeholders _ _ _ | unknownUnary _ | unknownBinary _ | unknownComparison _ =>
    .general
  | misfit cause => cause.category
  | misuse _ => .layout

/-- The name that a fault is about, if it is about one. -/
def name? : Fault → Option String
  | undefined name | assignUndefined name => some name
  | _ => none

end Fault

/-- A fault and, once it is known, the place that it is blamed on. -/
structure Failure where
  fault : Fault
  place : Option (Mark × Option String)
  deriving DecidableEq

namespace Failure

/-- A failure that no node has been blamed for yet. -/
def ofFault (fault : Fault) : Failure := ⟨fault, none⟩

/-- Blames a node, unless one further in is blamed already or the node has no mark. Only errors of
the language carry a place; what the host reports about a tree made by hand passes by all nodes. -/
def blame (f : Failure) (mark : Mark) (source : Option String) : Failure :=
  if f.fault.category = .layout then f
  else
    match f.place, mark with
    | some _, _ => f
    | none, .absent => f
    | none, mark => ⟨f.fault, some (mark, source)⟩

/-- The wording, with the place in front. -/
def message (f : Failure) : String :=
  match f.place.bind fun place => place.1.located? place.2 with
  | some place => place ++ ": " ++ f.fault.message
  | none => f.fault.message

@[simp] theorem blame_fault (f : Failure) (mark : Mark) (source : Option String) :
    (f.blame mark source).fault = f.fault := by
  unfold blame
  split
  · rfl
  · split <;> rfl

@[simp] theorem blame_absent (f : Failure) (source : Option String) :
    f.blame .absent source = f := by
  unfold blame
  split
  · rfl
  · split <;> simp_all

/-- A failure of the host stays without a place. -/
theorem blame_layout {f : Failure} (h : f.fault.category = .layout) (mark : Mark)
    (source : Option String) : f.blame mark source = f :=
  if_pos h

/-- Nobody else is blamed once somebody is. -/
theorem blame_placed {f : Failure} {place : Mark × Option String} (h : f.place = some place)
    (mark : Mark) (source : Option String) : f.blame mark source = f := by
  unfold blame
  rw [h]
  exact ite_self _

/-- The first node with a mark is blamed for an error of the language. -/
theorem blame_unplaced {fault : Fault} (h : fault.category ≠ .layout) {mark : Mark}
    (hm : mark ≠ .absent) (source : Option String) :
    (ofFault fault).blame mark source = ⟨fault, some (mark, source)⟩ := by
  refine (if_neg h).trans ?_
  cases mark with
  | absent => exact absurd rfl hm
  | line | place => rfl

end Failure

end Treewalk
