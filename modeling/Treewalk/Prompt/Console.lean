import Treewalk.Prompt.Line
import Treewalk.Session
import Treewalk.Settings

/-!
# The console

A session together with the settings and with what has been reported as errors. Text that is
submitted is a command if it starts with a slash, and a unit of source otherwise. The value of a
unit is shown unless it is nil; trouble is reported, and the session goes on.

## Main definitions

* `Console`, `Console.report`, `Console.runUnit`
* `Command`, the commands, with `Command.help` and `completions`
* `Console.slash?`, running a command, and `Console.submit`, running any text

## Implementation notes

A console adds to a session what a prompt has besides: settings that a command can change, and a
place for errors. Errors are collected in a text of their own because they go to another stream.
Everything else is written through the session, so a value that is shown stands behind what its unit
has printed.

Names of commands are compared with the word up to the first space and not by prefix. Completion is
by prefix, and is only ever an offer.
-/

namespace Treewalk.Prompt

/-- A session, the settings, whether details are logged, and the error output. -/
structure Console where
  session : Session
  settings : Settings
  logging : Bool
  errors : String

namespace Console

/-- A console whose session has run nothing. -/
def start (name : Option String) (input : String) (settings : Settings) (logging : Bool) :
    Console :=
  ⟨.start name input, settings, logging, ""⟩

/-- Writes a text to the output. -/
def say (c : Console) (text : String) : Console :=
  { c with session := c.session.emit text }

/-- Writes a text to the error output. -/
def complain (c : Console) (text : String) : Console :=
  { c with errors := c.errors ++ text }

/-- Reports an error, with the heading of a trace if traces are on. -/
def report (c : Console) (message : String) : Console :=
  let c := c.complain ("Error: " ++ message ++ "\n")
  if c.settings.tracing then c.complain "\nPython traceback:\n" else c

/-- The lines that the log has about a reading. -/
def logLines (r : Source.Reading) (name : Option String) : List String :=
  (r.notes.map fun d => "DEBUG naive_ref.lexer_rd: " ++ d.text name) ++
    match r.accepted with
    | .error _ => []
    | .ok statements =>
      ["DEBUG naive_ref.runner: parsed " ++ toString statements.length ++ " statement(s) from "
        ++ sourceLabel name]

/-- Reads a source, and logs it if details are logged. -/
def read (c : Console) (name : Option String) (source : List UInt8) :
    Except Rejection (List Stmt) × Console :=
  let r := Source.read source
  let lines := (logLines r name).map (· ++ "\n")
  (r.accepted, if c.logging then c.complain (String.join lines) else c)

/-- Runs a source as a unit and gives its value. -/
def runUnit (limits : Limits) (c : Console) (name : Option String) (source : List UInt8) :
    Except Trouble Value × Console :=
  let (accepted, c) := c.read name source
  let (result, session) := c.session.runAccepted limits name accepted
  (result, { c with session := session })

end Console

/-! ## Commands -/

/-- The commands of the prompt. -/
inductive Command where
  | clear | trace | reset
  deriving DecidableEq

namespace Command

/-- All commands, in the order of listing. -/
def all : List Command := [clear, trace, reset]

/-- What is typed for a command. -/
def name : Command → String
  | clear => "/clear"
  | trace => "/py-traceback"
  | reset => "/reset"

/-- What a command is for. -/
def help : Command → String
  | clear => "clear the screen"
  | trace => "show Python tracebacks for errors"
  | reset => "forget every binding made in this session"

/-- The command of a name. -/
def ofName? (text : String) : Option Command :=
  all.find? fun c => c.name = text

end Command

/-- The commands that typed text may become; none unless it starts with a slash. -/
def completions (typed : String) : List Command :=
  if isCommand typed then
    Command.all.filter fun c => typed.toList.isPrefixOf c.name.toList
  else []

/-- What the word behind the trace command asks for: on, off, or the other one if it is empty. -/
def traceWish (word : String) (now : Bool) : Option Bool :=
  if Settings.onWords.contains word then some true
  else if Settings.offWords.contains word then some false
  else if word.isEmpty then some (!now)
  else none

namespace Console

/-- Runs a command with the text behind its name. Clearing the screen is up to the terminal. -/
def command (c : Console) (cmd : Command) (argument : String) : Console :=
  match cmd with
  | .clear => c
  | .reset => { c with session := c.session.reset }.say "Environment reset.\n"
  | .trace =>
    match traceWish (Settings.folded argument) c.settings.tracing with
    | some on =>
      { c with settings := c.settings.setTracing on }.say
        ("Python traceback: " ++ (if on then "on" else "off") ++ "\n")
    | none => c.complain "usage: /py-traceback [on|off]\n"

/-- Runs a line as a command, if it starts with a slash. -/
def slash? (c : Console) (line : String) : Option Console :=
  let text := Text.trim line
  if isCommand text then
    let cs := text.toList
    let name := String.ofList (cs.takeWhile (· ≠ ' '))
    let argument := Text.trim (String.ofList ((cs.dropWhile (· ≠ ' ')).drop 1))
    match Command.ofName? name with
    | some cmd => some (c.command cmd argument)
    | none => some (c.complain ("Unknown command: " ++ name ++ "\n"))
  else none

/-- What the prompt calls the source of a submission. -/
def sourceName : String := "<repl>"

/-- Runs a text as a unit, shows its value and reports trouble. -/
def runText (limits : Limits) (c : Console) (text : String) : Console :=
  match c.runUnit limits (some sourceName) (Utf8.encode text) with
  | (.ok .nil, c) => c
  | (.ok value, c) => c.say (value.inspect ++ "\n")
  | (.error trouble, c) => c.report (trouble.message (some sourceName))

/-- Runs a submission: nothing if it is blank, a command, or a unit. -/
def submit (limits : Limits) (c : Console) (text : String) : Console :=
  let text := normalize text
  if Text.isBlankText text then c else (c.slash? text).getD (c.runText limits text)

end Console

end Treewalk.Prompt
