import Treewalk.Syntax.Tree
import Treewalk.Token.Kind

/-!
# Programs

Expressions and statements. Every node carries the mark of the token that it is blamed on. A block
of statements is a statement; as an expression it stands for what it returns.

Trees made by hand may hold things that are neither. Such a part becomes a `malformed` leaf, which
is harmless until it is evaluated, and which may hold expressions that are evaluated before the
fault shows. A literal that holds something of another sort than its label says becomes a `mixed`
one, which goes by its label and acts by what it holds. The reader of sources makes neither.

## Main definitions

* `Operator`, a kind and the text that messages show
* `LiteralSort`, the sorts of literals that hold something
* `Misfit`, why a tree is no expression or statement
* `Expr`, `Stmt`, and their marks
* `Expr.makeUnary`, `Expr.makeBinary`, the checked constructors

## Implementation notes

Marks are arguments of the constructors and not a wrapper around each node. A pattern on a node then
sees its mark, and forgetting all marks is one recursion that changes nothing else.

Names are texts, and operators are kinds with their text. The text of an operator repeats what its
kind says when it comes from a source; it is kept because messages quote it, and a tree made by hand
may have the two disagree.

`malformed` and `mixed` let every tree be evaluated. With a partial conversion instead, a tree with
one wrong leaf would have no meaning at all, while in fact it runs up to that leaf.
-/

namespace Treewalk

/-- An operator: what it does, and how the source writes it. -/
structure Operator where
  kind : Kind
  text : String
  deriving DecidableEq

/-- The sorts of literals that hold something. -/
inductive LiteralSort where
  | int | float | char | string
  deriving DecidableEq

/-- How a listing and a message call a sort of literal. -/
def LiteralSort.name : LiteralSort → String
  | .int => "int"
  | .float => "float"
  | .char => "char"
  | .string => "string"

/-- Why a tree is no expression or statement. -/
inductive Misfit where
  /-- A leaf where a node is wanted. -/
  | leaf (sort : PartSort)
  /-- A label that no expression has. -/
  | expression (label : String)
  /-- A label that no statement has. -/
  | statement (label : String)
  /-- More or fewer children than the label has. -/
  | count (expected got : Nat)
  /-- No child where the label has one. -/
  | childless
  /-- An operator of a kind that does not exist. -/
  | operator (kind : String)
  /-- A part that is of the wrong sort, and so lacks what is wanted of it. -/
  | lacking (sort : PartSort) (feature : String)
  /-- Something else than a name where one is declared. -/
  | declared
  /-- Something else than a name where one is assigned. -/
  | assigned
  /-- Something else than a name where a function is defined. -/
  | defined
  /-- Something else than a name where one is called. -/
  | called
  deriving DecidableEq

mutual

/-- An expression. -/
inductive Expr where
  | int (mark : Mark) (value : Int)
  | float (mark : Mark) (value : Decimal)
  | char (mark : Mark) (text : String)
  | string (mark : Mark) (text : String)
  | mixed (mark : Mark) (sort : LiteralSort) (part : Tree)
  | bool (mark : Mark) (value : Bool)
  | nil (mark : Mark)
  | var (mark : Mark) (name : String)
  | unary (mark : Mark) (op : Operator) (operand : Expr)
  | binary (mark : Mark) (lhs : Expr) (op : Operator) (rhs : Expr)
  | group (mark : Mark) (inner : Expr)
  | call (mark : Mark) (callee : String) (args : List Expr)
  | lambda (mark : Mark) (params : List String) (body : Stmt)
  | block (mark : Mark) (body : List Stmt)
  | malformed (mark : Mark) (before : List Expr) (misfit : Misfit)

/-- A statement. -/
inductive Stmt where
  | declare (mark : Mark) (name : String) (init : Expr)
  | assign (mark : Mark) (name : String) (value : Expr)
  | eval (mark : Mark) (value : Expr)
  | branch (mark : Mark) (test : Expr) (yes no : Stmt)
  | loop (mark : Mark) (test : Expr) (body : Stmt)
  | define (mark : Mark) (name : String) (params : List String) (body : Stmt)
  | give (mark : Mark) (value : Expr)
  | print (mark : Mark) (format : String) (args : List Expr)
  | empty (mark : Mark)
  | block (mark : Mark) (body : List Stmt)
  | malformed (mark : Mark) (before : List Expr) (misfit : Misfit)

end

/-- The mark of an expression. -/
def Expr.mark : Expr → Mark
  | .int mark _ | .float mark _ | .char mark _ | .string mark _ | .mixed mark _ _ | .bool mark _
  | .nil mark | .var mark _ | .unary mark _ _ | .binary mark _ _ _ | .group mark _ | .call mark _ _
  | .lambda mark _ _ | .block mark _ | .malformed mark _ _ => mark

/-- The mark of a statement. -/
def Stmt.mark : Stmt → Mark
  | .declare mark _ _ | .assign mark _ _ | .eval mark _ | .branch mark _ _ _ | .loop mark _ _
  | .define mark _ _ _ | .give mark _ | .print mark _ _ | .empty mark | .block mark _
  | .malformed mark _ _ => mark

/-- An operator of a kind that cannot stand where it is put. -/
inductive Unfit where
  | unary (kind : Kind)
  | binary (kind : Kind)
  deriving DecidableEq

/-- The text of a complaint about an operator. -/
def Unfit.message : Unfit → String
  | .unary kind => "not a unary operator: " ++ kind.name
  | .binary kind => "not a binary operator: " ++ kind.name

/-- An operator in front of an operand, if its kind allows it. -/
def Expr.makeUnary (mark : Mark) (op : Operator) (operand : Expr) : Except Unfit Expr :=
  if op.kind.isUnary then .ok (.unary mark op operand) else .error (.unary op.kind)

/-- An operator between two operands, if its kind allows it. -/
def Expr.makeBinary (mark : Mark) (lhs : Expr) (op : Operator) (rhs : Expr) : Except Unfit Expr :=
  if op.kind.isBinary then .ok (.binary mark lhs op rhs) else .error (.binary op.kind)

end Treewalk
