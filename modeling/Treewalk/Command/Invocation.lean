import Treewalk.Command.Path
import Treewalk.Prompt.Keys
import Treewalk.Syntax.Form

/-!
# The command line

The program takes a script, or nothing and then shows its prompt. A script is run, or its syntax
tree is listed. What the arguments ask for is settled first; then the script is read, and the rest
is a function of its content.

## Main definitions

* `Plan`, `Plan.ofArguments`, what the arguments ask for
* `Exit`, `Outcome`, how a run ends and what it writes
* `Outcome.ofScript`, `Outcome.ofPlan`

## Implementation notes

Everything up to the content of the script is data: a plan says what to do, an outcome what has come
of it. The script is handed over as a function from paths, so that a plan without a script reads
nothing, and so that the outer layer and a test can supply different files to the same code.

The order of the checks is visible from outside and is kept. A level of logging that makes no sense
ends the run before the arguments are honoured, help included. A path with the character zero in it
is refused without a status of its own, whereas any other fault of reading is an ordinary error.

Listing a tree parses and does not run, so it takes no limits and no input.
-/

namespace Treewalk.Command

open Prompt

/-- What the arguments ask for. -/
inductive Plan where
  | help
  | misuse
  | prompt
  | script (path : Path) (listing : Bool)

/-- How the program is used. -/
def usage : String := "usage: naive [--dump-ast] [script]\n"

/-- Goes through the arguments: help is given at once, and all that is no option counts as a
script. -/
def Plan.scan : List String → Bool → List String → Plan
  | [], false, [] => .prompt
  | [], true, [] => .misuse
  | [], listing, [name] => .script (.ofText name) listing
  | [], _, _ => .misuse
  | argument :: rest, listing, scripts =>
    if argument = "--dump-ast" then scan rest true scripts
    else if argument = "-h" ∨ argument = "--help" then .help
    else scan rest listing (scripts ++ [argument])

/-- What the arguments ask for. -/
def Plan.ofArguments (arguments : List String) : Plan :=
  scan arguments false []

/-- How a run ends: with a status, or broken off with a message before it has done anything. -/
inductive Exit where
  | status (number : Nat)
  | aborted (message : String)

/-- How a run ends, its output and its error output. -/
structure Outcome where
  exit : Exit
  output : String
  errors : String

namespace Outcome

/-- The outcome of a console that leaves with a status. -/
def ofConsole (status : Nat) (c : Console) : Outcome :=
  ⟨.status status, c.session.machine.output, c.errors⟩

/-- A run that is broken off at once. -/
def abort (message : String) : Outcome :=
  ⟨.aborted message, "", ""⟩

/-- Runs a script that has been read. -/
def ofRun (limits : Limits) (name : String) (source : List UInt8) (input : String)
    (settings : Settings) (logging : Bool) : Outcome :=
  let c := Console.start (some name) input settings logging
  match c.runUnit limits (some name) source with
  | (.ok _, c) => ofConsole 0 c
  | (.error trouble, c) => ofConsole 1 (c.report (trouble.message (some name)))

/-- Lists the syntax tree of a script that has been read. -/
def ofListing (name : String) (source : List UInt8) (settings : Settings) (logging : Bool) :
    Outcome :=
  let c := Console.start (some name) "" settings logging
  match c.read (some name) source with
  | (.ok statements, c) => ofConsole 0 (c.say (Tree.outlines 0 (Stmt.toTrees statements)))
  | (.error rejection, c) => ofConsole 1 (c.report (rejection.message (some name)))

/-- Runs or lists a script, or reports that it cannot be read. -/
def ofScript (limits : Limits) (path : Path) (listing : Bool)
    (content : Except ReadFault (List UInt8)) (input : String) (settings : Settings)
    (logging : Bool) : Outcome :=
  match content with
  | .error .nullByte => abort ReadFault.nullByte.message
  | .error fault =>
    ⟨.status 1, "", "Error: cannot read " ++ path.text ++ ": " ++ fault.message ++ "\n"⟩
  | .ok source =>
    if listing then ofListing path.text source settings logging
    else ofRun limits path.text source input settings logging

/-- Carries out a plan; `read` gives the content of a script, and `keys` is what is typed at the
prompt. A level of logging that makes no sense breaks the run off before the plan is looked at. -/
def ofPlan (limits : Limits) (plan : Plan) (read : Path → Except ReadFault (List UInt8))
    (keys input : String) (settings : Settings) : Outcome :=
  match settings.level Settings.defaultLevel with
  | .error bad => abort bad.message
  | .ok level =>
    let logging := Settings.showsDetail level
    match plan with
    | .help => ⟨.status 0, usage, ""⟩
    | .misuse => ⟨.status 1, "", usage⟩
    | .prompt => ofConsole 0 (Prompt.session limits keys input settings logging)
    | .script path listing => ofScript limits path listing (read path) input settings logging

end Outcome

end Treewalk.Command
