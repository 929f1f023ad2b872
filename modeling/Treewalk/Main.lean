import Treewalk.Command.Invocation

/-!
# The program

The outer layer: arguments, environment, files and streams. It decides nothing; what is run and
what is written is settled by `Command.Plan` and `Command.Outcome`, and at the prompt by
`Prompt.Desk`.

## Implementation notes

The two partial functions of the project are here, and nothing is proved of them: one waits for a
stream to end and the other for a user to leave. What they call is total. Standard input is read as
a whole before a script runs, since a session takes its input as a text.
-/

open Treewalk

/-- All that a stream still holds. -/
partial def readAll (stream : IO.FS.Stream) (soFar : String) : IO String := do
  let line ← stream.getLine
  if line.isEmpty then return soFar else readAll stream (soFar ++ line)

/-- The content of a file. -/
def readScript (path : Path) : IO (Except ReadFault (List UInt8)) := do
  if path.text.toList.contains '\x00' then return .error .nullByte
  try
    return .ok (← IO.FS.readBinFile path.text).toList
  catch
    | .noFileOrDirectory .. => return .error .missing
    | .inappropriateType .. => return .error .isDirectory
    | e => return .error (.other (toString e))

/-- Writes what the console holds, and empties it. -/
def flushConsole (c : Prompt.Console) : IO Prompt.Console := do
  let machine := c.session.machine
  (← IO.getStdout).putStr machine.output
  (← IO.getStdout).flush
  (← IO.getStderr).putStr c.errors
  let session := { c.session with machine := { machine with output := "" } }
  return { c with errors := "", session := session }

/-- The prompt on lines of standard input; each line ends with Enter, and the last with leaving. -/
partial def converse (d : Prompt.Desk) : IO Unit := do
  let d := { d with console := ← flushConsole d.console }
  unless d.left do
    let out ← IO.getStdout
    out.putStr (if d.buffer.isEmpty then "naive> " else "...... ")
    out.flush
    let line ← (← IO.getStdin).getLine
    let keys := if line.isEmpty then [.interrupt, .leave]
      else (line.toList.filter (· ≠ '\n')).map Prompt.Key.char ++ [.enter]
    converse (d.pressAll .standard keys)

/-- Writes an outcome and gives its status. -/
def conclude (o : Command.Outcome) : IO UInt32 := do
  (← IO.getStdout).putStr o.output
  (← IO.getStderr).putStr o.errors
  match o.exit with
  | .status n => return n.toUInt32
  | .aborted message =>
    (← IO.getStderr).putStr (message ++ "\n")
    return 1

/-- The command line. -/
def main (arguments : List String) : IO UInt32 := do
  let names := [Settings.traceVariable, Settings.levelVariable]
  let env ← names.filterMapM fun name => do return (← IO.getEnv name).map (name, ·)
  let settings := Settings.ofEnvironment env
  let plan := Command.Plan.ofArguments arguments
  match plan, settings.level Settings.defaultLevel with
  | .prompt, .ok level =>
    converse (Prompt.Desk.start "" settings (Settings.showsDetail level))
    return 0
  | .script path listing, .ok _ =>
    let content ← readScript path
    let input ← if listing then pure "" else readAll (← IO.getStdin) ""
    conclude (.ofPlan .standard plan (fun _ => content) "" input settings)
  | plan, _ => conclude (.ofPlan .standard plan (fun _ => .error .missing) "" "" settings)
