import Treewalk.Eval.Machine
import Treewalk.Eval.Operator

/-!
# Evaluation

The meaning of expressions and statements on a machine, in a frame. Evaluation descends with a
bound on nesting, which every expression and statement uses up by one; loops are bounded by a number
of rounds. Both bounds are arguments, and neither is ever part of a result: with larger bounds an
evaluation that has ended ends the same way.

The bound on nesting stands for the stack of the host, which a program can exhaust: by calls, and
then the innermost call that is left fails with a fault of its own, or by the nesting of its source,
and then nothing in between turns that into an error of the language. The number of rounds stands
for nothing. It makes evaluation a total function, and `Limits.standard` has more rounds than
anybody waits for.

Operands and arguments are evaluated from left to right, the callee of a call before its arguments.
A block runs in a frame of its own, and so does the body of a call, inside the frame that the
closure was made in.

## Main definitions

* `Limits`, the two bounds, and `Limits.standard`
* `Flow`, how a statement ends
* `each`, `inOrder`, `rounds`, the shapes of iteration
* `eval`, `exec`, expressions and statements
* `apply`, calls

## Implementation notes

The evaluator is structural in the bound on nesting, not in the tree: a call evaluates a body that
is no part of the expression that calls it. The other bound cannot be merged into the first, since a
loop of many rounds is not nested. Iteration over lists is by functions of its own, `each` and
`inOrder`, which take the action as an argument; so whatever an action preserves, they preserve, and
this is proved once and not inside the recursion.

Both operators with a short cut are cases of `binary`, and the value of the left operand is returned
as it is, whatever its sort. A block is also an expression, and then stands for what it returns.

A malformed part evaluates what stands before the misfit, because a host that walks a tree finds
the misfit only when it comes to it.
-/

namespace Treewalk

/-- How deeply evaluations may nest, and how often a loop may run. -/
structure Limits where
  nesting : Nat
  rounds : Nat

/-- Bounds like those of the host: it allows thirty thousand calls of its own, and an expression or
a statement takes four of them. -/
def Limits.standard : Limits := ⟨7500, 1000000000000⟩

/-- How a statement ends: the next one follows, or the function around gives a value. -/
inductive Flow where
  | next
  | give (value : Value)

/-- The value that a body gives; one that runs to its end gives nil. -/
def Flow.value : Flow → Value
  | .next => .nil
  | .give value => value

namespace Run

/-! ## Iteration -/

/-- Runs an action for each item and collects the results. -/
def each (action : α → Run β) : List α → Run (List β)
  | [] => return []
  | a :: rest => do
    let b ← action a
    return b :: (← each action rest)

/-- Runs statements one after another until one gives a value. -/
def inOrder (action : α → Run Flow) : List α → Run Flow
  | [] => return .next
  | a :: rest => do
    match ← action a with
    | .give value => return .give value
    | .next => inOrder action rest

/-- Runs a body as long as a test holds and the body gives no value. -/
def rounds (test : Run Bool) (body : Run Flow) : Nat → Run Flow
  | 0 => throw .endless
  | n + 1 => do
    if ← test then
      match ← body with
      | .give value => return .give value
      | .next => rounds test body n
    else return .next

/-! ## Calls -/

/-- Calls a closure: its body runs in a new frame with the parameters bound. Nesting that goes too
far inside the body is blamed on the call. -/
def applyClosure (exec : Stmt → FrameId → Run Flow) (c : Closure) (args : List Value) :
    Run Value := do
  if args.length = c.params.length then
    let frame ← enter c.frame
      ((c.params.zip args).foldl (fun vars entry => vars.put entry.1 entry.2) ([] : Bindings))
    let flow ← catchDepth (.callDepth c.label) (exec c.body frame)
    return flow.value
  else fail (.arity c.label c.params.length args.length)

/-- Calls a value. -/
def apply (exec : Stmt → FrameId → Run Flow) (callee : Value) (args : List Value) : Run Value :=
  match callee with
  | .closure c => applyClosure exec c args
  | .builtin b => b.call args
  | other => fail (.notCallable other.inspect)

/-! ## Expressions and statements -/

mutual

/-- The value of an expression in a frame. -/
def eval (limit : Nat) : Nat → Expr → FrameId → Run Value
  | 0, _, _ => throw .tooDeep
  | n + 1, e, frame => blaming e.mark frame <|
    match e with
    | .int _ value => return .int value
    | .float _ value => return .float value
    | .char _ text => return .char text
    | .string _ text => return .string text
    | .mixed _ sort part => return .mixed sort part
    | .bool _ value => return .bool value
    | .nil _ => return .nil
    | .var _ name => lookup frame name
    | .unary _ op operand => do
      lift ((← eval limit n operand frame).applyUnary op.kind)
    | .binary _ lhs op rhs => do
      let a ← eval limit n lhs frame
      match op.kind with
      | .andKw => if a.truthy then eval limit n rhs frame else return a
      | .orKw => if a.truthy then return a else eval limit n rhs frame
      | _ => lift (a.applyBinary op (← eval limit n rhs frame))
    | .group _ inner => eval limit n inner frame
    | .call _ name args => do
      let callee ← lookup frame name
      let values ← each (fun arg => eval limit n arg frame) args
      apply (exec limit n) callee values
    | .lambda _ params body => close none params body frame
    | .block _ body => do
      let inner ← enter frame []
      return (← inOrder (fun s => exec limit n s inner) body).value
    | .malformed _ before misfit => do
      let _ ← each (fun e => eval limit n e frame) before
      fail (.misfit misfit)

/-- Runs a statement in a frame. -/
def exec (limit : Nat) : Nat → Stmt → FrameId → Run Flow
  | 0, _, _ => throw .tooDeep
  | n + 1, s, frame => blaming s.mark frame <|
    match s with
    | .declare _ name init => do
      declare frame name (← eval limit n init frame)
      return .next
    | .assign _ name value => do
      assign frame name (← eval limit n value frame)
      return .next
    | .eval _ value => do
      let _ ← eval limit n value frame
      return .next
    | .branch _ test yes no => do
      if (← eval limit n test frame).truthy then exec limit n yes frame
      else exec limit n no frame
    | .loop _ test body =>
      rounds (return (← eval limit n test frame).truthy) (exec limit n body frame) limit
    | .define _ name params body => do
      declare frame name (← close (some name) params body frame)
      return .next
    | .give _ value => return .give (← eval limit n value frame)
    | .print _ format args => do
      let values ← each (fun arg => eval limit n arg frame) args
      emit (← lift (printText format values))
      return .next
    | .empty _ => return .next
    | .block _ body => do
      let inner ← enter frame []
      inOrder (fun s => exec limit n s inner) body
    | .malformed _ before misfit => do
      let _ ← each (fun e => eval limit n e frame) before
      fail (.misfit misfit)

end

/-- Evaluates an expression within limits. -/
def evalIn (limits : Limits) (e : Expr) (frame : FrameId) : Run Value :=
  eval limits.rounds limits.nesting e frame

/-- Runs a statement within limits. -/
def execIn (limits : Limits) (s : Stmt) (frame : FrameId) : Run Flow :=
  exec limits.rounds limits.nesting s frame

/-- Runs the statements of a unit in a frame and gives its value. -/
def unit (limits : Limits) (statements : List Stmt) (frame : FrameId) : Run Value := do
  return (← inOrder (fun s => execIn limits s frame) statements).value

/-- Calls a value within limits. -/
def applyIn (limits : Limits) (callee : Value) (args : List Value) : Run Value :=
  apply (exec limits.rounds limits.nesting) callee args

end Run

end Treewalk
