import Treewalk.Text.Blank
import Treewalk.Text.Digit
import Treewalk.Text.Quoted

/-!
# Settings

Two variables of the environment steer the program: whether an error is followed by a trace, and
how much is logged. A level is given by its name, in any case, or by its number.

## Main definitions

* `Settings`, `Settings.ofEnvironment`
* `Settings.tracing`, `Settings.setTracing`
* `Settings.level`, the level of logging, and `Settings.showsDetail`

## Implementation notes

Both variables are kept as they are in the environment and are read when they are asked for. A
command can set one of them, and then the other keeps its text, even one that makes no sense.

A number of digits that are no decimal digits is the one setting that is an error. The class of
digits that decides whether a text looks like a number is wider than the class that has place
values, and what falls between the two is refused by the conversion.
-/

namespace Treewalk

/-- The variables of the environment that matter, as they are. -/
structure Settings where
  trace : Option String
  logLevel : Option String
  deriving DecidableEq

/-- A text of digits that makes no number. -/
structure BadLevel where
  text : String
  deriving DecidableEq

/-- The wording of a bad level; of the quoted text, two hundred characters are shown at most. -/
def BadLevel.message (b : BadLevel) : String :=
  "invalid literal for int() with base 10: " ++ String.ofList ((Text.quoted b.text).toList.take 200)

namespace Settings

/-- The name of the variable that asks for traces. -/
def traceVariable : String := "NAIVE_DEBUG_PY_TRACE"

/-- The name of the variable that sets the level of logging. -/
def levelVariable : String := "NAIVE_LOG_LEVEL"

/-- The settings in an environment. -/
def ofEnvironment (env : List (String × String)) : Settings :=
  ⟨env.lookup traceVariable, env.lookup levelVariable⟩

/-- The words that switch something on. -/
def onWords : List String := ["1", "true", "yes", "on"]

/-- The words that switch something off. -/
def offWords : List String := ["0", "false", "no", "off"]

/-- A word without regard to case; only the letters of ASCII have one here. -/
def folded (word : String) : String :=
  word.map Char.toLower

/-- Whether errors are followed by a trace. -/
def tracing (s : Settings) : Bool :=
  onWords.contains (folded (Text.trim (s.trace.getD "")))

/-- Switches traces on or off. -/
def setTracing (s : Settings) (on : Bool) : Settings :=
  { s with trace := if on then some "1" else none }

@[simp] theorem tracing_setTracing_false (s : Settings) : (s.setTracing false).tracing = false := by
  cbv

/-! ## Levels -/

/-- The levels that have a name. -/
def levelNames : List (String × Int) :=
  [("CRITICAL", 50), ("FATAL", 50), ("ERROR", 40), ("WARNING", 30), ("WARN", 30), ("INFO", 20),
    ("DEBUG", 10), ("NOTSET", 0)]

/-- The level of a program that is told nothing. -/
def defaultLevel : Int := 30

/-- The capital of a letter, as far as names of levels go: of ASCII, and of the two letters beyond
it whose capitals are in ASCII. -/
def capital (c : Char) : Char :=
  if c = 'ı' then 'I' else if c = 'ſ' then 'S' else c.toUpper

/-- The number that digits of any script stand for, if they all have a place value. -/
def numeral? (cs : List Char) : Option Nat :=
  cs.foldlM (fun n c => (Text.decimalValue? c).map (10 * n + ·)) 0

/-- The level of logging, by number or by name; a name that is none counts as no setting. -/
def level (s : Settings) (default : Int) : Except BadLevel Int :=
  match s.logLevel with
  | none => .ok default
  | some raw =>
    let word := Text.trim raw
    if !word.isEmpty && word.toList.all Text.isDigit then
      match numeral? word.toList with
      | some n => .ok n
      | none => .error ⟨word⟩
    else .ok ((levelNames.lookup (word.map capital)).getD default)

/-- Whether a log of some level shows every detail. -/
def showsDetail (level : Int) : Bool :=
  level ≤ 10

end Settings

end Treewalk
