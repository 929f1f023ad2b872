import Treewalk.Parse.Literal
import Treewalk.Parse.Reader
import Treewalk.Syntax.Basic

/-!
# The grammar

Programs are read by recursive descent. Two constructions cannot be told apart by their first
token and are settled by taking it, looking at the next, and stepping back if need be: a name
starts an assignment or an expression, and `fn` starts a definition or a lambda.

Each construction is a function of the readers of its parts, so the recursion itself is confined to
`expr`, `unary`, `block`, `branch` and `stmt` at the end. These descend with a bound on nesting;
`Parse.bound` is a bound that a reader cannot exhaust, since three calls in a row always take a
token. It makes the recursion structural and nothing else. The limit that a stack sets to recursion
is not modelled here: sources that nest too deeply for the stack of some host are read all the same.

Binary operators come in levels, the loosest first. On each level operands of the next tighter
level are joined to the left.

## Main definitions

* `levels`, the binary operators by precedence
* `climb`, operands joined level by level
* `expr`, `unary`, `block`, `branch`, `stmt`, the recursive readers
* `program`, the statements of a whole source

## Implementation notes

The readers of the parts are arguments for the sake of proofs as much as of recursion. A property of
all readers is shown construction by construction, each time from the same property of the parts,
and is tied together by one induction on the bound at the end. No construction mentions the bound on
nesting, so none of these steps depends on it.

Repetition has a bound too, which is asked for where a repetition starts. It would be natural to
hand one number down through everything; then a long list would use up what nesting needs, and the
bound would have to be the product of both.

Loops carry what they have collected only if they must. `paramsFrom` does, since a name has to be
compared with those before it, and `joinFrom` does, since what stands on the left is an operand of
the next operator; the others build their lists on the way back.
-/

namespace Treewalk.Parse

/-- The mark of a token. -/
def markOf (t : Token) : Mark :=
  .pos t.pos

/-- A bound on nesting, and on repetition, that a reader cannot exhaust. -/
def bound : Parse Nat := do
  return 4 * (← get).size + 4

/-! ## Names and arguments -/

/-- Parameter names up to the closing bracket, all distinct; `seen` holds those before. -/
def paramsFrom : Nat → List String → Parse (List String)
  | 0, _ => failHere fun _ => .tooDeep
  | n + 1, seen => do
    let name ← expect .ident
    if seen.contains name.text then throw ⟨name.pos, .repeatedParam name.text⟩
    if ← accept [.comma] then paramsFrom n (seen ++ [name.text])
    else return seen ++ [name.text]

/-- A list of parameters in brackets. -/
def paramList : Parse (List String) := do
  let _ ← expect .lparen
  let names ← if ← check [.rparen] then pure [] else paramsFrom (← bound) []
  let _ ← expect .rparen
  return names

/-- Arguments with commas between them, one at least. -/
def argsFrom (expr : Parse Expr) : Nat → Parse (List Expr)
  | 0 => failHere fun _ => .tooDeep
  | n + 1 => do
    let first ← expr
    if ← accept [.comma] then return first :: (← argsFrom expr n)
    else return [first]

/-- Arguments up to the closing bracket, which is left. -/
def argList (expr : Parse Expr) : Parse (List Expr) := do
  if ← check [.rparen] then return [] else argsFrom expr (← bound)

/-! ## Expressions -/

/-- The value of a literal, or the error of its token. -/
def literal (t : Token) (cause : Cause) : Option α → Parse α
  | some value => return value
  | none => throw ⟨t.pos, cause⟩

/-- A literal or an expression in brackets. -/
def primary (expr : Parse Expr) : Parse Expr := do
  let t := (← get).current
  let mark := markOf t
  match t.kind with
  | .int =>
    let _ ← advance
    return .int mark (← literal t (.badInt t.text) (intValue? t.text))
  | .float =>
    let _ ← advance
    return .float mark (← literal t (.badFloat t.text) (floatValue? t.text))
  | .char =>
    let _ ← advance
    return .char mark (← literal t (.badChar t.text) (charValue? t.text))
  | .string =>
    let _ ← advance
    return .string mark (stringValue t.text)
  | .trueKw =>
    let _ ← advance
    return .bool mark true
  | .falseKw =>
    let _ ← advance
    return .bool mark false
  | .nilKw =>
    let _ ← advance
    return .nil mark
  | .lparen =>
    let _ ← advance
    let inner ← expr
    let _ ← expect .rparen
    return .group mark inner
  | _ => failHere fun r => .unexpected r.current

/-- A call of a name, a name alone, or a primary expression. -/
def operand (expr : Parse Expr) : Parse Expr := do
  if ← check [.ident] then
    let name ← advance
    if ← accept [.lparen] then
      let args ← argList expr
      let _ ← expect .rparen
      return .call (markOf name) name.text args
    else return .var (markOf name) name.text
  else primary expr

/-- An operator in front of what `deeper` reads, or an operand. -/
def signed (expr deeper : Parse Expr) : Parse Expr := do
  if ← check [.minus, .notKw] then
    let op ← advance
    return .unary (markOf op) ⟨op.kind, op.text⟩ (← deeper)
  else operand expr

/-- The binary operators by precedence, the loosest level first. -/
def levels : List (List Kind) :=
  [[.orKw], [.andKw],
   [.equal, .unequal, .less, .greater, .lessEqual, .greaterEqual],
   [.plus, .minus],
   [.star, .slash, .percent]]

/-- Joins further operands of one level to what stands on the left. -/
def joinFrom (ops : List Kind) (tighter : Parse Expr) : Nat → Expr → Parse Expr
  | 0, _ => failHere fun _ => .tooDeep
  | n + 1, left => do
    if ← check ops then
      let op ← advance
      let right ← tighter
      joinFrom ops tighter n (.binary (markOf op) left ⟨op.kind, op.text⟩ right)
    else return left

/-- Operands of the given levels, the loosest first. -/
def climb : List (List Kind) → Parse Expr → Parse Expr
  | [], tightest => tightest
  | ops :: more, tightest => do
    let left ← climb more tightest
    joinFrom ops (climb more tightest) (← bound) left

/-- A lambda: parameters, then an arrow and the value, or a block. -/
def lambda (expr : Parse Expr) (block : Parse Stmt) : Parse Expr := do
  let start ← expect .fnKw
  let params ← paramList
  if ← check [.arrow] then
    let arrow ← advance
    let value ← expr
    return .lambda (markOf start) params (.block (markOf arrow) [.give (markOf arrow) value])
  else return .lambda (markOf start) params (← block)

/-- An expression: a lambda, or operands of all levels. -/
def expression (expr : Parse Expr) (block : Parse Stmt) (unary : Parse Expr) : Parse Expr := do
  if ← check [.fnKw] then lambda expr block else climb levels unary

/-! ## Statements -/

/-- An expression as a statement, blamed on the same token. -/
def evalStmt (expr : Parse Expr) : Parse Stmt := do
  let value ← expr
  let _ ← expect .semicolon
  return .eval value.mark value

/-- A declaration; without a value the name is bound to nil. -/
def declareStmt (expr : Parse Expr) : Parse Stmt := do
  let start ← expect .letKw
  let name ← expect .ident
  let init ← if ← accept [.assign] then expr else pure (.nil (markOf start))
  let _ ← expect .semicolon
  return .declare (markOf start) name.text init

/-- An assignment, or an expression that starts with a name. -/
def assignStmt (expr : Parse Expr) : Parse Stmt := do
  let name ← advance
  if ← accept [.assign] then
    let value ← expr
    let _ ← expect .semicolon
    return .assign (markOf name) name.text value
  else
    goBack
    evalStmt expr

/-- A loop. -/
def loopStmt (expr : Parse Expr) (block : Parse Stmt) : Parse Stmt := do
  let start ← expect .whileKw
  let test ← expr
  return .loop (markOf start) test (← block)

/-- A definition of a function, or an expression that starts with a lambda. -/
def defineStmt (expr : Parse Expr) (block : Parse Stmt) : Parse Stmt := do
  let start ← advance
  if ← check [.ident] then
    let name ← advance
    let params ← paramList
    return .define (markOf start) name.text params (← block)
  else
    goBack
    evalStmt expr

/-- A return; without a value it gives nil. -/
def giveStmt (expr : Parse Expr) : Parse Stmt := do
  let start ← expect .returnKw
  let value ← if ← check [.semicolon] then pure (.nil (markOf start)) else expr
  let _ ← expect .semicolon
  return .give (markOf start) value

/-- Further arguments, each behind a comma. -/
def moreArgsFrom (expr : Parse Expr) : Nat → Parse (List Expr)
  | 0 => failHere fun _ => .tooDeep
  | n + 1 => do
    if ← accept [.comma] then return (← expr) :: (← moreArgsFrom expr n)
    else return []

/-- A print statement: a format and its arguments. -/
def printStmt (expr : Parse Expr) : Parse Stmt := do
  let start ← expect .printKw
  let _ ← expect .lparen
  let format ← expectOr .string fun r => .formatExpected r.current
  let args ← moreArgsFrom expr (← bound)
  let _ ← expect .rparen
  let _ ← expect .semicolon
  return .print (markOf start) (stringValue format.text) args

/-- A conditional; what follows `else` is another one or a block. -/
def branchStmt (expr : Parse Expr) (block branch : Parse Stmt) : Parse Stmt := do
  let start ← expect .ifKw
  let test ← expr
  let yes ← block
  let no ← if ← accept [.elseKw] then
      if ← check [.ifKw] then branch else block
    else pure (.empty .absent)
  return .branch (markOf start) test yes no

/-- A statement, by its first token. -/
def statement (expr : Parse Expr) (block branch : Parse Stmt) : Parse Stmt := do
  match (← get).current.kind with
  | .semicolon => return .empty (markOf (← advance))
  | .letKw => declareStmt expr
  | .ident => assignStmt expr
  | .lbrace => block
  | .ifKw => branch
  | .elseKw => failHere fun _ => .danglingElse
  | .whileKw => loopStmt expr block
  | .fnKw => defineStmt expr block
  | .returnKw => giveStmt expr
  | .printKw => printStmt expr
  | _ => evalStmt expr

/-- Statements until the end is reached; comments between them are passed over. -/
def statementsFrom (atEnd : Parse Bool) (stmt : Parse Stmt) : Nat → Parse (List Stmt)
  | 0 => failHere fun _ => .tooDeep
  | n + 1 => do
    if ← atEnd then return []
    else if ← accept [.comment] then statementsFrom atEnd stmt n
    else return (← stmt) :: (← statementsFrom atEnd stmt n)

/-- Whether a block is at its closing brace; the end of the source may not come first. -/
def atClosingBrace : Parse Bool := do
  if ← check [.rbrace] then return true
  else if ← check [.eof] then failHere fun _ => .openBlock
  else return false

/-- Statements in braces. -/
def blockStmt (stmt : Parse Stmt) : Parse Stmt := do
  let start ← expect .lbrace
  let body ← statementsFrom atClosingBrace stmt (← bound)
  let _ ← expect .rbrace
  return .block (markOf start) body

/-! ## Recursion -/

mutual

/-- An expression, nested no deeper than the bound. -/
def expr : Nat → Parse Expr
  | 0 => failHere fun _ => .tooDeep
  | n + 1 => expression (expr n) (block n) (unary n)

/-- An operand with the operators in front of it. -/
def unary : Nat → Parse Expr
  | 0 => failHere fun _ => .tooDeep
  | n + 1 => signed (expr n) (unary n)

/-- A block. -/
def block : Nat → Parse Stmt
  | 0 => failHere fun _ => .tooDeep
  | n + 1 => blockStmt (stmt n)

/-- A conditional. -/
def branch : Nat → Parse Stmt
  | 0 => failHere fun _ => .tooDeep
  | n + 1 => branchStmt (expr n) (block n) (branch n)

/-- A statement. -/
def stmt : Nat → Parse Stmt
  | 0 => failHere fun _ => .tooDeep
  | n + 1 => statement (expr n) (block n) (branch n)

end

/-- The statements of a whole source. -/
def program : Parse (List Stmt) := do
  statementsFrom (check [.eof]) (stmt (← bound)) (← bound)

end Treewalk.Parse
