import Treewalk.Parse.Error

/-!
# Reading tokens

A reader stands at a current token. It remembers the token before, so that one step can be taken
back; tokens that were stepped back over are staged and come again before new ones. Behind the
last token of a source the end is read for ever.

What is still to be read is `Reader.ahead`: the current token, the staged ones and the upcoming
ones. Every move is a move along that list.

## Implementation notes

A reader of sources calls itself for every bracket, so in practice the stack of the host bounds how
deeply a source may nest: about nine calls of the host lie between one open bracket and the next.
That bound depends on the machine and on who called the reader, not on the tokens, and no reader
looks at it or reports it. It is left out here: readers descend with a number of their own, which
`Parse.bound` chooses so large that it is never used up, whatever the tokens are.

## Main definitions

* `Reader`, `Reader.ofTokens`, `Reader.ahead`
* `Parse`, an action that reads tokens, may fail, and leaves the reader where it stopped
* `advance`, `goBack`, `check`, `accept`, `expect`, the moves

## Main results

* `Reader.ahead_stepped`: one step drops the first token ahead
-/

namespace Treewalk

/-- The current token, the one before, those to come again and those not read yet. -/
structure Reader where
  current : Token
  previous : Option Token
  /-- Tokens that were stepped back over, the next one first. -/
  staged : List Token
  upcoming : List Token
  /-- What stands behind the last token. -/
  eof : Token
  deriving DecidableEq

namespace Reader

/-- A reader at the first of some tokens. -/
def ofTokens (tokens : List Token) (eof : Token) : Reader :=
  match tokens with
  | [] => ⟨eof, none, [], [], eof⟩
  | t :: rest => ⟨t, none, [], rest, eof⟩

/-- The tokens from the current one to the last before the end. -/
def ahead (r : Reader) : List Token :=
  r.current :: (r.staged ++ r.upcoming)

/-- The next token becomes the current one; the token before is not touched. -/
def stepped (r : Reader) : Reader :=
  match r.staged, r.upcoming with
  | t :: staged, _ => { r with current := t, staged := staged }
  | [], t :: upcoming => { r with current := t, upcoming := upcoming }
  | [], [] => { r with current := r.eof }

/-- One step that remembers where it came from. -/
def advanced (r : Reader) : Reader :=
  { r with previous := some r.current }.stepped

/-- One step back, if the token before is still known. -/
def back? (r : Reader) : Option Reader :=
  r.previous.map fun t =>
    { r with current := t, previous := none, staged := r.current :: r.staged }

/-- The number of tokens ahead, the current one included. -/
def size (r : Reader) : Nat :=
  r.ahead.length

/-- The current token is of one of the kinds. -/
def at? (r : Reader) (kinds : List Kind) : Bool :=
  kinds.contains r.current.kind

/-- One step drops the first token ahead, and stays at the end. -/
theorem ahead_stepped (r : Reader) :
    r.stepped.ahead = if r.ahead.tail = [] then [r.eof] else r.ahead.tail := by
  unfold stepped
  split <;> simp_all [ahead]

@[simp] theorem stepped_previous (r : Reader) : r.stepped.previous = r.previous := by
  unfold stepped
  split <;> rfl

@[simp] theorem stepped_eof (r : Reader) : r.stepped.eof = r.eof := by
  unfold stepped
  split <;> rfl

end Reader

/-- An action on a reader that may fail; a failure leaves the reader where it happened. -/
abbrev Parse := EStateM Parse.Error Reader

namespace Parse

/-- Fails at the current token. -/
def failHere (cause : Reader → Cause) : Parse α := do
  let r ← get
  throw ⟨r.current.pos, cause r⟩

/-- Takes the current token. -/
def advance : Parse Token := do
  let r ← get
  set r.advanced
  return r.current

/-- Moves on without remembering the token before. -/
def skip : Parse Unit :=
  modify Reader.stepped

/-- Takes the last step back. -/
def goBack : Parse Unit := do
  match (← get).back? with
  | some r => set r
  | none => failHere fun _ => .nothingBehind

/-- Whether the current token is of one of the kinds. -/
def check (kinds : List Kind) : Parse Bool := do
  return (← get).at? kinds

/-- Takes the current token if it is of one of the kinds, and says whether it did. -/
def accept (kinds : List Kind) : Parse Bool := do
  if ← check kinds then
    let _ ← advance
    return true
  else return false

/-- Takes a token of a kind, or fails with the caller's cause. -/
def expectOr (kind : Kind) (cause : Reader → Cause) : Parse Token := do
  if ← check [kind] then advance else failHere cause

/-- Takes a token of a kind, or fails. -/
def expect (kind : Kind) : Parse Token :=
  expectOr kind fun r => .expected kind r.current

end Parse

end Treewalk
