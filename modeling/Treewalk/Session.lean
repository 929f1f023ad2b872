import Treewalk.Eval.Basic
import Treewalk.Program

/-!
# Sessions

A session runs units of source one after another on one machine. The root frame, which is the first
frame of the store, keeps what a unit binds for the units after it. A unit that fails keeps what it
did before; nothing is undone.

Between units nothing refers to a frame but the root, so forgetting everything is starting with a
new store. What is left of the input and what has been written stay.

## Main definitions

* `Session`, `Session.start`, `Session.reset`
* `Trouble`, why a unit has no value
* `Session.evaluate`, running statements, and `Session.run`, running a source

## Implementation notes

The result of a unit and the session after it come as a pair, not as one or the other: a unit that
fails still has printed and bound. Acceptance is separate from evaluation, so that a prompt, which
logs what it reads, and a plain run share `runAccepted`.

The name of a unit replaces that of the root frame before anything is evaluated, and stays when the
unit has ended. Frames that were made earlier keep the name they were made with.
-/

namespace Treewalk

/-- The store of a session that has run nothing. -/
def Store.initial (name : Option String) : Store :=
  Store.empty.addRoot name

/-- A name for messages and the machine that all units run on. -/
structure Session where
  name : Option String
  machine : Machine

/-- Why a unit has no value. -/
inductive Trouble where
  | rejected (rejection : Rejection)
  | stopped (stop : Stop)

/-- The wording of a stop. One that is too deep outside of calls is worded by the host, whose error
it is; no error of the language stands for it. -/
def Stop.message : Stop → String
  | .failure f => f.message
  | .tooDeep => "maximum recursion depth exceeded"
  | .endless => "maximum number of rounds exceeded"

/-- The wording of a trouble with a source of the given name. -/
def Trouble.message (t : Trouble) (source : Option String) : String :=
  match t with
  | .rejected rejection => rejection.message source
  | .stopped stop => stop.message

namespace Session

/-- The frame that keeps bindings between units. -/
def root : FrameId := 0

/-- A session that has run nothing, with input to read. -/
def start (name : Option String) (input : String) : Session :=
  ⟨name, ⟨.initial name, 0, input.toList, ""⟩⟩

/-- Forgets every binding. -/
def reset (s : Session) : Session :=
  { s with machine := { s.machine with store := .initial s.name, closures := 0 } }

/-- Writes a text to the output. -/
def emit (s : Session) (text : String) : Session :=
  { s with machine := { s.machine with output := s.machine.output ++ text } }

/-- The bindings of the root frame. -/
def vars (s : Session) : Bindings :=
  s.machine.store.vars root

/-- The machine at the start of a unit: a name of the unit, if it has one, is from then on the name
of the root frame's source. -/
def entering (s : Session) (unit : Option String) : Machine :=
  match unit with
  | none => s.machine
  | some name => { s.machine with store := s.machine.store.rename root name }

/-- Runs statements as a unit and gives its value. -/
def evaluate (limits : Limits) (s : Session) (unit : Option String) (statements : List Stmt) :
    Except Stop Value × Session :=
  match Run.unit limits statements root (s.entering unit) with
  | .ok value machine => (.ok value, { s with machine := machine })
  | .error stop machine => (.error stop, { s with machine := machine })

/-- Runs statements that were accepted, or reports why they were not. -/
def runAccepted (limits : Limits) (s : Session) (unit : Option String) :
    Except Rejection (List Stmt) → Except Trouble Value × Session
  | .error rejection => (.error (.rejected rejection), s)
  | .ok statements =>
    match evaluate limits s unit statements with
    | (.ok value, s) => (.ok value, s)
    | (.error stop, s) => (.error (.stopped stop), s)

/-- Runs a source as a unit and gives its value. -/
def run (limits : Limits) (s : Session) (unit : Option String) (source : List UInt8) :
    Except Trouble Value × Session :=
  runAccepted limits s unit (Source.program source)

end Session

end Treewalk
