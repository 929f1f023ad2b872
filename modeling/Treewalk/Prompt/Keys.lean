import Treewalk.Prompt.Console
import Treewalk.Text.Lines

/-!
# Keys

The prompt as a machine that eats keys. Keys fill a buffer; Enter submits it, or starts a new line
while brackets are open, indented by four spaces for each. An empty line ends a text of several
lines even with brackets open.

## Main definitions

* `Key`, `Key.ofChar`
* `onEnter`, what Enter does with a buffer
* `Desk`, `Desk.press`, the prompt at work
* `session`, a whole run of the prompt

## Implementation notes

The editor is reduced to what decides about submission: a buffer that grows and shrinks at its end.
Moving within the buffer, history and completion change what is in the buffer when Enter is pressed,
and Enter does not ask how it got there.

Leaving is a state and not the end of a list of keys. Keys behind it are taken and ignored, so a
whole run is a fold, and runs can be put together by `pressAll_append`.
-/

namespace Treewalk.Prompt

/-- A key of the prompt. -/
inductive Key where
  | enter | backspace | interrupt | leave
  | char (c : Char)

/-- The key that sends a character. -/
def Key.ofChar (c : Char) : Key :=
  if c = '\r' then .enter
  else if c = '\x7F' then .backspace
  else if c = '\x03' then .interrupt
  else if c = '\x04' then .leave
  else .char c

/-- What Enter does: hand a text over, or put text behind the buffer. -/
inductive Enter where
  | submit (text : String)
  | insert (text : String)

/-- What Enter does with a buffer. -/
def onEnter (buffer : String) : Enter :=
  if buffer.toList.contains '\n' && (Text.lastLine buffer.toList).all Text.isBlank then
    .submit (Text.trimEnd buffer)
  else if wantsMore buffer then
    .insert ("\n" ++ String.ofList (List.replicate (4 * openDepth buffer) ' '))
  else .submit buffer

/-- The prompt at work: the buffer, the console, and whether the prompt has been left. -/
structure Desk where
  buffer : String
  console : Console
  left : Bool

namespace Desk

/-- One more key. The prompt can be left with an empty buffer only, and then takes no more keys. -/
def press (limits : Limits) (d : Desk) (key : Key) : Desk :=
  if d.left then d
  else
    match key with
    | .enter =>
      match onEnter d.buffer with
      | .submit text => { d with buffer := "", console := d.console.submit limits text }
      | .insert text => { d with buffer := d.buffer ++ text }
    | .backspace => { d with buffer := String.ofList d.buffer.toList.dropLast }
    | .interrupt => { d with buffer := "" }
    | .leave =>
      if d.buffer.isEmpty then { d with console := d.console.say "\n", left := true } else d
    | .char c => { d with buffer := d.buffer.push c }

/-- Keys one after another. -/
def pressAll (limits : Limits) (d : Desk) (keys : List Key) : Desk :=
  keys.foldl (press limits) d

@[simp] theorem pressAll_append (limits : Limits) (d : Desk) (ks ls : List Key) :
    d.pressAll limits (ks ++ ls) = (d.pressAll limits ks).pressAll limits ls :=
  List.foldl_append

/-- The first line that the prompt shows. -/
def banner : String := "naive repl, Ctrl-D to exit, type / for commands\n"

/-- A prompt that nothing has been typed at. -/
def start (input : String) (settings : Settings) (logging : Bool) : Desk :=
  ⟨"", (Console.start (some Console.sourceName) input settings logging).say banner, false⟩

end Desk

/-- A whole run of the prompt: what is typed, and then an interrupt and the way out. -/
def session (limits : Limits) (keys : String) (input : String) (settings : Settings)
    (logging : Bool) : Console :=
  ((Desk.start input settings logging).pressAll limits
    ((keys.toList ++ ['\x03', '\x04']).map Key.ofChar)).console

end Treewalk.Prompt
