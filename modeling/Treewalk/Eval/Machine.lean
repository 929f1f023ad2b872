import Treewalk.Eval.Fault
import Treewalk.Eval.Template
import Treewalk.Scope

/-!
# The machine

A program runs on a machine: the store of frames, the text that is still to be read and the text
that has been written. An action may stop with a failure; the machine stays as it is at that point,
so nothing that happened before is undone.

Two more ways to stop are no failures of the program. An evaluation nested more deeply than allowed
stops as too deep, which the innermost call turns into a fault of its own; a loop that runs more
often than allowed stops as endless.

## Main definitions

* `Machine`, `Stop`, `Run`
* `fail`, `blaming`, raising a fault and blaming a node
* `lookup`, `assign`, `declare`, `enter`, scope as actions
* `emit`, `readLine`, output and input as actions
* `Builtin.call`, the built-in functions

## Implementation notes

`Run` keeps the state of a computation that stops. This is the reason for `EStateM` and against a
transformer over `Except`, which would forget the machine: output that was written before a failure
has been written.

Failing, being too deep and being endless are three constructors of `Stop`, for they are caught in
different places. A failure is caught by nobody inside a run, and is only given its place; being too
deep is caught by calls and by nothing else; being endless is not caught at all.

Each action on scope has an equation, `lookup_eq` or `assign_eq`, that says what it is in terms of
the store. Proofs use these and do not open the monad.
-/

namespace Treewalk

/-- Frames, the number of closures made so far, unread input and written output. -/
structure Machine where
  store : Store
  closures : Nat
  input : List Char
  output : String

/-- Why an action stopped. -/
inductive Stop where
  | failure (failure : Failure)
  | tooDeep
  | endless

/-- An action on a machine that may stop; what it did until then stays done. -/
abbrev Run := EStateM Stop Machine

namespace Run

/-- Raises a fault. -/
def fail (fault : Fault) : Run α :=
  throw (.failure (.ofFault fault))

/-- The outcome of a pure computation. -/
def lift : Except Fault α → Run α
  | .ok a => pure a
  | .error fault => fail fault

/-- Blames a node for a failure that has no place yet. -/
def blaming (mark : Mark) (frame : FrameId) (action : Run α) : Run α := fun m =>
  match action m with
  | .error (.failure f) m' => .error (.failure (f.blame mark (m'.store.source? frame))) m'
  | result => result

/-- Turns an evaluation that is too deep into a fault. -/
def catchDepth (fault : Fault) (action : Run α) : Run α := fun m =>
  match action m with
  | .error .tooDeep m' => .error (.failure (.ofFault fault)) m'
  | result => result

/-! ## Scope -/

/-- The value of a name. -/
def lookup (frame : FrameId) (name : String) : Run Value := do
  match (← get).store.get? frame name with
  | some value => return value
  | none => fail (.undefined name)

/-- Changes the binding of a name. -/
def assign (frame : FrameId) (name : String) (value : Value) : Run Unit := fun m =>
  match m.store.owner? frame name with
  | some owner => .ok () { m with store := m.store.define owner name value }
  | none => fail (.assignUndefined name) m

/-- Binds a name in a frame itself. -/
def declare (frame : FrameId) (name : String) (value : Value) : Run Unit :=
  modify fun m => { m with store := m.store.define frame name value }

/-- A new frame inside another, with bindings to start with. -/
def enter (parent : FrameId) (vars : Bindings) : Run FrameId :=
  modifyGet fun m => (m.store.next, { m with store := m.store.addChild parent none vars })

/-- A new closure, distinct from all before. -/
def close (name : Option String) (params : List String) (body : Stmt) (frame : FrameId) :
    Run Value :=
  modifyGet fun m =>
    (.closure ⟨m.closures, name, params, body, frame⟩, { m with closures := m.closures + 1 })

/-- Looking up a name is what `Store.get?` says, and it changes nothing. -/
theorem lookup_eq (frame : FrameId) (name : String) (m : Machine) :
    lookup frame name m =
      match m.store.get? frame name with
      | some value => .ok value m
      | none => .error (.failure (.ofFault (.undefined name))) m := by
  change (match m.store.get? frame name with
    | some value => pure value
    | none => fail (.undefined name) : Run Value) m = _
  cases m.store.get? frame name <;> rfl

/-- Assignment is what `Store.set?` says, and without a binding nothing changes. -/
theorem assign_eq (frame : FrameId) (name : String) (value : Value) (m : Machine) :
    assign frame name value m =
      match m.store.set? frame name value with
      | some store => .ok () { m with store := store }
      | none => .error (.failure (.ofFault (.assignUndefined name))) m := by
  unfold assign Store.set?
  cases m.store.owner? frame name <;> rfl

/-! ## Output and input -/

/-- Writes a text. -/
def emit (text : String) : Run Unit :=
  modify fun m => { m with output := m.output ++ text }

/-- A line without its end: up to a line feed, and without a carriage return before it. -/
def lineOf (input : List Char) : List Char :=
  let line := input.takeWhile (· ≠ '\n')
  if line.getLast? = some '\r' then line.dropLast else line

/-- Reads a line; at the end of the input it is empty. -/
def readLine : Run String :=
  modifyGet fun m =>
    (String.ofList (lineOf m.input), { m with input := (m.input.dropWhile (· ≠ '\n')).drop 1 })

end Run

/-! ## Built-in functions -/

/-- The text of a line made of values. -/
def joined (separator : String) (values : List Value) : String :=
  String.ofList (separator.toList.intercalate (values.map fun v => v.display.toList))

/-- The text of a print statement: the filled-in format on a line of its own. An empty format puts
the arguments side by side. -/
def printText (format : String) (args : List Value) : Except Fault String :=
  if format.isEmpty then (checkTexts 0 1 args).map fun _ => joined " " args ++ "\n"
  else do
    let text ← render "print" format args
    return if format.toList.getLast? = some '\n' then text else text ++ "\n"

/-- Calls a built-in function. -/
def Builtin.call (b : Builtin) (args : List Value) : Run Value :=
  match b with
  | .write => do
    Run.lift (checkTexts 0 1 args)
    Run.emit (joined "" args)
    return .nil
  | .writeln => do
    Run.lift (checkTexts 0 1 args)
    Run.emit (joined " " args ++ "\n")
    return .nil
  | .format =>
    match args with
    | .string pattern :: rest => do
      return .string (← Run.lift (render "format" pattern rest))
    | .mixed .string part :: rest =>
      match part.words? with
      | some pattern => do
        return .string (← Run.lift (render "format" pattern rest))
      | none => Run.fail (.misfit (.lacking part.sort "split"))
    | _ => Run.fail .noFormat
  | .getline => do
    if args.isEmpty then return .string (← Run.readLine)
    else Run.fail (.arity "getline" 0 args.length)

end Treewalk
