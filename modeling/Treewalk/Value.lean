import Treewalk.Decimal.Text
import Treewalk.Syntax.Basic

/-!
# Values

What expressions evaluate to. A function that a program makes is a closure: parameters, a body and
the frame that it was made in. Two closures are the same function only if they were made by the
same evaluation, which their identity records. The built-in functions are a fixed list.

A mixed value is that of a mixed literal: its sort is that of the label, and it shows what it holds.
Only trees made by hand give such values.

## Main definitions

* `Builtin`, `Closure`, `Value`
* `Value.truthy`, what counts as true
* `Value.display`, the text that output shows, and `Value.inspect`, with quotes
* `Value.same?`, equality apart from numbers

## Implementation notes

A closure has a number of its own. Two closures may agree in everything else and still be different
functions to a program, which can compare them; and the number does not show in any output, so it
may be changed throughout without changing what a program does.

A value refers to frames by number and holds none. So values are finite trees even if a frame binds
a function that was made in it.
-/

namespace Treewalk

/-- The functions that every root frame knows. -/
inductive Builtin where
  | write | writeln | format | getline
  deriving DecidableEq

namespace Builtin

/-- The name that a built-in function is bound to. -/
def name : Builtin → String
  | write => "write"
  | writeln => "writeln"
  | format => "format"
  | getline => "getline"

/-- All built-in functions. -/
def all : List Builtin := [write, writeln, format, getline]

/-- The built-in function of a name. -/
def ofName? (text : String) : Option Builtin :=
  all.find? fun b => b.name = text

end Builtin

/-- A frame, by its place in the store. -/
abbrev FrameId := Nat

/-- A function made by a program. A lambda has no name. -/
structure Closure where
  id : Nat
  name : Option String
  params : List String
  body : Stmt
  frame : FrameId

/-- How messages and output call a closure. -/
def Closure.label (c : Closure) : String :=
  match c.name with
  | some name => if name.isEmpty then "lambda" else name
  | none => "lambda"

/-- A value. -/
inductive Value where
  | nil
  | bool (value : Bool)
  | int (value : Int)
  | float (value : Decimal)
  | char (text : String)
  | string (text : String)
  | mixed (sort : LiteralSort) (part : Tree)
  | closure (value : Closure)
  | builtin (value : Builtin)

namespace Value

/-- How messages about operands call the sort of a value. -/
def sort : Value → String
  | nil => "nil"
  | bool _ => "bool"
  | int _ => "int"
  | float _ => "float"
  | char _ => "char"
  | string _ => "string"
  | mixed sort _ => sort.name
  | closure _ | builtin _ => "function"

/-- All but `false` and `nil` count as true. -/
def truthy : Value → Bool
  | bool value => value
  | nil => false
  | _ => true

/-- The text of a part where output shows it; the exponent of a float has a small letter. -/
def partText (sort : LiteralSort) (part : Tree) : String :=
  match sort with
  | .float => part.plain.map fun c => if c = 'E' then 'e' else c
  | .int | .char | .string => part.plain

/-- The text that output shows. -/
def display : Value → String
  | nil => "nil"
  | bool value => if value then "true" else "false"
  | int value => toString value
  | float value => value.display
  | char text => text
  | string text => text
  | mixed sort part => partText sort part
  | closure value => "<fn " ++ value.label ++ ">"
  | builtin value => "<builtin " ++ value.name ++ ">"

/-- The text that stands for a value by itself: characters and strings in quotes. -/
def inspect : Value → String
  | char text => "'" ++ text ++ "'"
  | string text => "\"" ++ text ++ "\""
  | mixed .char part => "'" ++ part.plain ++ "'"
  | mixed .string part => "\"" ++ part.plain ++ "\""
  | value => value.display

/-- What a character or a string holds. -/
def content? : Value → Option (LiteralSort × Tree)
  | char text => some (.char, .text text)
  | string text => some (.string, .text text)
  | mixed .char part => some (.char, part)
  | mixed .string part => some (.string, part)
  | _ => none

/-- The sort of what a character or a string holds, if it is no text. -/
def untextual? : Value → Option PartSort
  | mixed .char part | mixed .string part => if part.words?.isSome then none else some part.sort
  | _ => none

/-- Equality apart from numbers: characters and strings by what they hold, functions by identity.
There is an answer unless a mixed value holds a signalling decimal. -/
def same? : Value → Value → Option Bool
  | nil, nil => some true
  | char a, char b => some (a = b)
  | string a, string b => some (a = b)
  | closure a, closure b => some (a.id = b.id)
  | builtin a, builtin b => some (a = b)
  | a, b =>
    match a.content?, b.content? with
    | some (sort, part), some (sort', part') =>
      if sort = sort' then part.alike? part' else some false
    | _, _ => some false

@[simp] theorem truthy_nil : truthy nil = false := rfl
@[simp] theorem truthy_bool (b : Bool) : truthy (bool b) = b := rfl

end Value

end Treewalk
