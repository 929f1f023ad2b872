import Treewalk.Syntax.Basic

/-!
# Programs as labelled trees

Each form of expression and statement has a label and an arrangement of children. `toTree` lays a
program out that way; `ofTree` reads a tree back, puts a malformed leaf for whatever does not fit,
and a mixed literal where only what it holds does not.

| label | children |
|---|---|
| `int`, `float`, `char`, `string` | the value |
| `true`, `false`, `nil` | none |
| `var` | name |
| `unary` | operator, operand |
| `binary` | operand, operator, operand |
| `group` | expression |
| `call` | name, `args` |
| `lambda` | `params`, body |
| `let`, `assign` | name, expression |
| `exprstmt`, `return` | expression |
| `if` | expression, statement, statement |
| `while` | expression, body |
| `fndef` | name, `params`, body |
| `print` | text, `args` |
| `empty` | none |
| `block` | statements |

## Main definitions

* `ExprForm`, `StmtForm`, the labels
* `Expr.toTree`, `Stmt.toTree`
* `Expr.ofTree`, `Stmt.ofTree`

## Implementation notes

Labels are enumerated by two types, so that a match on a form is checked for completeness and the
texts occur in one table. `block` is in both, since a block can stand for either.

The two directions are not inverse. A tree made by hand may hold more than a program keeps, and a
malformed leaf does not remember the tree that it was. In the other direction nothing is lost for
programs that come from a source.
-/

namespace Treewalk

/-! ## Labels -/

/-- The forms of expressions that have a label. -/
inductive ExprForm where
  | int | float | char | string | true | false | nil | var | unary | binary | group | call
  | lambda | block
  deriving DecidableEq

/-- The forms of statements that have a label. -/
inductive StmtForm where
  | declare | assign | eval | branch | loop | define | give | print | empty | block
  deriving DecidableEq

/-- The form of expression that a label names. -/
def ExprForm.ofLabel? (label : String) : Option ExprForm :=
  [("int", ExprForm.int), ("float", .float), ("char", .char), ("string", .string),
    ("true", .true), ("false", .false), ("nil", .nil), ("var", .var), ("unary", .unary),
    ("binary", .binary), ("group", .group), ("call", .call), ("lambda", .lambda),
    ("block", .block)].lookup label

/-- The form of statement that a label names. -/
def StmtForm.ofLabel? (label : String) : Option StmtForm :=
  [("let", StmtForm.declare), ("assign", .assign), ("exprstmt", .eval), ("if", .branch),
    ("while", .loop), ("fndef", .define), ("return", .give), ("print", .print),
    ("empty", .empty), ("block", .block)].lookup label

namespace Tree

/-- The tree has the label of an expression. -/
def isExpr (t : Tree) : Bool :=
  (t.label?.bind ExprForm.ofLabel?).isSome

/-- The tree has the label of a statement. -/
def isStmt (t : Tree) : Bool :=
  (t.label?.bind StmtForm.ofLabel?).isSome

/-- A name as a leaf. -/
def name (text : String) : Tree :=
  .token Kind.ident.name text

/-- The name that a leaf holds. -/
def name? : Tree → Option String
  | .token kind spelling => if kind = Kind.ident.name then some spelling else none
  | _ => none

/-- Parameter names below their own node. -/
def params (names : List String) : Tree :=
  .node "params" .absent (names.map name)

/-- An operator as a leaf. -/
def operator (op : Operator) : Tree :=
  .token op.kind.name op.text

/-- The operator that a leaf holds. -/
def operator? : Tree → Except Misfit Operator
  | .token kind spelling =>
    match Kind.ofName? kind with
    | some k => .ok ⟨k, spelling⟩
    | none => .error (.operator kind)
  | other => .error (.lacking other.sort "type")

end Tree

/-! ## Laying out -/

mutual

/-- An expression as a tree. -/
def Expr.toTree : Expr → Tree
  | .int mark value => .node "int" mark [.int value]
  | .float mark value => .node "float" mark [.float value none]
  | .char mark text => .node "char" mark [.text text]
  | .string mark text => .node "string" mark [.text text]
  | .mixed mark sort part => .node sort.name mark [part]
  | .bool mark value => .node (if value then "true" else "false") mark []
  | .nil mark => .node "nil" mark []
  | .var mark name => .node "var" mark [.name name]
  | .unary mark op operand => .node "unary" mark [.operator op, operand.toTree]
  | .binary mark lhs op rhs => .node "binary" mark [lhs.toTree, .operator op, rhs.toTree]
  | .group mark inner => .node "group" mark [inner.toTree]
  | .call mark callee args =>
    .node "call" mark [.name callee, .node "args" .absent (Expr.toTrees args)]
  | .lambda mark params body => .node "lambda" mark [.params params, body.toTree]
  | .block mark body => .node "block" mark (Stmt.toTrees body)
  | .malformed mark _ _ => .node "malformed" mark []

/-- Expressions as trees. -/
def Expr.toTrees : List Expr → List Tree
  | [] => []
  | e :: rest => e.toTree :: Expr.toTrees rest

/-- A statement as a tree. -/
def Stmt.toTree : Stmt → Tree
  | .declare mark name init => .node "let" mark [.name name, init.toTree]
  | .assign mark name value => .node "assign" mark [.name name, value.toTree]
  | .eval mark value => .node "exprstmt" mark [value.toTree]
  | .branch mark test yes no => .node "if" mark [test.toTree, yes.toTree, no.toTree]
  | .loop mark test body => .node "while" mark [test.toTree, body.toTree]
  | .define mark name params body => .node "fndef" mark [.name name, .params params, body.toTree]
  | .give mark value => .node "return" mark [value.toTree]
  | .print mark format args =>
    .node "print" mark [.text format, .node "args" .absent (Expr.toTrees args)]
  | .empty mark => .node "empty" mark []
  | .block mark body => .node "block" mark (Stmt.toTrees body)
  | .malformed mark _ _ => .node "malformed" mark []

/-- Statements as trees. -/
def Stmt.toTrees : List Stmt → List Tree
  | [] => []
  | s :: rest => s.toTree :: Stmt.toTrees rest

end

/-! ## Reading back -/

mutual

/-- The expression that a tree stands for. Where a label has one child, further ones are passed
over. -/
def Expr.ofTree : Tree → Expr
  | .node label mark children =>
    match ExprForm.ofLabel? label with
    | none => .malformed mark [] (.expression label)
    | some .true => .bool mark true
    | some .false => .bool mark false
    | some .nil => .nil mark
    | some .block => .block mark (Stmt.ofTrees children)
    | some .int =>
      match children with
      | [] => .malformed mark [] .childless
      | .int value :: _ => .int mark value
      | part :: _ => .mixed mark .int part
    | some .float =>
      match children with
      | [] => .malformed mark [] .childless
      | .float value _ :: _ => .float mark value
      | part :: _ => .mixed mark .float part
    | some .char =>
      match children with
      | [] => .malformed mark [] .childless
      | .text value :: _ => .char mark value
      | part :: _ => .mixed mark .char part
    | some .string =>
      match children with
      | [] => .malformed mark [] .childless
      | .text value :: _ => .string mark value
      | part :: _ => .mixed mark .string part
    | some .var =>
      match children with
      | [] => .malformed mark [] .childless
      | leaf :: _ => .var mark leaf.plain
    | some .unary =>
      match children with
      | [op, operand] =>
        match op.operator? with
        | .ok op => .unary mark op (Expr.ofTree operand)
        | .error misfit => .malformed mark [Expr.ofTree operand] misfit
      | _ => .malformed mark [] (.count 2 children.length)
    | some .binary =>
      match children with
      | [lhs, op, rhs] =>
        match op.operator? with
        | .ok op => .binary mark (Expr.ofTree lhs) op (Expr.ofTree rhs)
        | .error misfit => .malformed mark [] misfit
      | _ => .malformed mark [] (.count 3 children.length)
    | some .group =>
      match children with
      | [] => .malformed mark [] .childless
      | inner :: _ => .group mark (Expr.ofTree inner)
    | some .call =>
      match children with
      | [callee, args] =>
        match callee.name?, args with
        | none, _ => .malformed mark [] .called
        | some name, .node _ _ args => .call mark name (Expr.ofTrees args)
        | some name, leaf => .malformed mark [.var .absent name] (.lacking leaf.sort "children")
      | _ => .malformed mark [] (.count 2 children.length)
    | some .lambda =>
      match children with
      | [.node _ _ params, body] => .lambda mark (params.map Tree.plain) (Stmt.ofTree body)
      | [leaf, _] => .malformed mark [] (.lacking leaf.sort "children")
      | _ => .malformed mark [] (.count 2 children.length)
  | leaf => .malformed .absent [] (.leaf leaf.sort)

/-- The expressions that trees stand for. -/
def Expr.ofTrees : List Tree → List Expr
  | [] => []
  | t :: rest => Expr.ofTree t :: Expr.ofTrees rest

/-- The statement that a tree stands for. -/
def Stmt.ofTree : Tree → Stmt
  | .node label mark children =>
    match StmtForm.ofLabel? label with
    | none => .malformed mark [] (.statement label)
    | some .empty => .empty mark
    | some .block => .block mark (Stmt.ofTrees children)
    | some .declare =>
      match children with
      | [target, init] =>
        match target.name? with
        | some name => .declare mark name (Expr.ofTree init)
        | none => .malformed mark [] .declared
      | _ => .malformed mark [] (.count 2 children.length)
    | some .assign =>
      match children with
      | [target, value] =>
        match target.name? with
        | some name => .assign mark name (Expr.ofTree value)
        | none => .malformed mark [] .assigned
      | _ => .malformed mark [] (.count 2 children.length)
    | some .eval =>
      match children with
      | [] => .malformed mark [] .childless
      | value :: _ => .eval mark (Expr.ofTree value)
    | some .branch =>
      match children with
      | [test, yes, no] => .branch mark (Expr.ofTree test) (Stmt.ofTree yes) (Stmt.ofTree no)
      | _ => .malformed mark [] (.count 3 children.length)
    | some .loop =>
      match children with
      | [test, body] => .loop mark (Expr.ofTree test) (Stmt.ofTree body)
      | _ => .malformed mark [] (.count 2 children.length)
    | some .define =>
      match children with
      | [target, params, body] =>
        match target.name?, params with
        | none, _ => .malformed mark [] .defined
        | some name, .node _ _ params =>
          .define mark name (params.map Tree.plain) (Stmt.ofTree body)
        | some _, leaf => .malformed mark [] (.lacking leaf.sort "children")
      | _ => .malformed mark [] (.count 3 children.length)
    | some .give =>
      match children with
      | [] => .malformed mark [] .childless
      | value :: _ => .give mark (Expr.ofTree value)
    | some .print =>
      match children with
      | [format, .node _ _ args] =>
        match format.words? with
        | some format => .print mark format (Expr.ofTrees args)
        | none => .malformed mark (Expr.ofTrees args) (.lacking format.sort "split")
      | [_, leaf] => .malformed mark [] (.lacking leaf.sort "children")
      | _ => .malformed mark [] (.count 2 children.length)
  | leaf => .malformed .absent [] (.leaf leaf.sort)

/-- The statements that trees stand for. -/
def Stmt.ofTrees : List Tree → List Stmt
  | [] => []
  | t :: rest => Stmt.ofTree t :: Stmt.ofTrees rest

end

theorem Expr.toTrees_eq_map (es : List Expr) : Expr.toTrees es = es.map Expr.toTree := by
  induction es with
  | nil => rfl
  | cons e rest ih => simp [Expr.toTrees, ih]

theorem Stmt.toTrees_eq_map (ss : List Stmt) : Stmt.toTrees ss = ss.map Stmt.toTree := by
  induction ss with
  | nil => rfl
  | cons s rest ih => simp [Stmt.toTrees, ih]

end Treewalk
