import Treewalk.Parse.Grammar
import Treewalk.Token.Lexeme

/-!
# Reading a source

A source is scanned and parsed in one pass: the parser asks for tokens one at a time, so when it
stops at an error only part of the source has been scanned, and only the diagnostics of that part
are known.

A program is accepted if it parses and nothing is wrong with its tokens. A syntax error is reported
before any lexical one.

## Main definitions

* `Source.reader`, the reader at the start of a source
* `Source.read`, the outcome of parsing together with the diagnostics noted on the way
* `Source.parse`, the statements of a source whose lexical problems are tolerated
* `Rejection`, why a source is no program
* `Source.program`, the statements of a source that is beyond reproach

## Implementation notes

`Source.read` keeps the diagnostics also if parsing fails. They are of no use to a caller who wants
a program, but a log shows them, and then it matters that they are only those up to the token where
parsing stopped, together with the one in view behind it.

Scanning is modelled as a whole and not on demand. What a scan on demand would not have seen is cut
off afterwards by counting the tokens that the reader has not taken, which is `notesAt`.
-/

namespace Treewalk

namespace Source

/-- A reader at the start of a scanned source. -/
def reader (s : Scan) : Reader :=
  .ofTokens s.tokens s.endToken

/-- What parsing gives, and the diagnostics noted by the time it stops. -/
structure Reading where
  result : Except Parse.Error (List Stmt)
  notes : List Diagnostic

/-- The diagnostics that a reader of the scan has come past. -/
def notesAt (s : Scan) (r : Reader) : List Diagnostic :=
  s.notesThrough (s.lexemes.length - r.upcoming.length)

/-- Parses a source given by its bytes. -/
def read (source : List UInt8) : Reading :=
  let s := scan source
  match Parse.program (reader s) with
  | .ok statements r => ⟨.ok statements, notesAt s r⟩
  | .error e r => ⟨.error e, notesAt s r⟩

/-- The statements of a source; lexical problems are not counted against it. -/
def parse (source : List UInt8) : Except Parse.Error (List Stmt) :=
  (read source).result

end Source

/-- Why a source is no program. -/
inductive Rejection where
  | syntactic (error : Parse.Error)
  | lexical (first : Diagnostic) (more : List Diagnostic)

namespace Rejection

/-- The place of the first error. -/
def pos : Rejection → Pos
  | .syntactic error => error.pos
  | .lexical first _ => first.pos

/-- The wording: a syntax error has one line, lexical errors have a line each. -/
def message (r : Rejection) (source : Option String) : String :=
  match r with
  | .syntactic error => error.message source
  | .lexical first more => "\n".intercalate ((first :: more).map fun d => d.text source)

end Rejection

namespace Source

/-- Whether a reading is of a program. -/
def Reading.accepted (r : Reading) : Except Rejection (List Stmt) :=
  match r.result, r.notes with
  | .error e, _ => .error (.syntactic e)
  | .ok _, first :: more => .error (.lexical first more)
  | .ok statements, [] => .ok statements

/-- The statements of a source that parses and has no lexical problem. -/
def program (source : List UInt8) : Except Rejection (List Stmt) :=
  (read source).accepted

end Source

end Treewalk
