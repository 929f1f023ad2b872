/-!
# Kinds of tokens

The closed list of token kinds, the words that are reserved, and the classes that the prompt and
the reader ask about.

## Main definitions

* `Kind`, the kinds, and `Kind.name`, how messages and listings call them
* `Kind.ofName?`, the kind with a given name
* `Kind.ofWord`, the kind of a word: a reserved word has its own, any other is an identifier

## Implementation notes

Classes of kinds are lists and not predicates by cases, so membership is decided by evaluation and a
fact about a class is one about finitely many kinds.

Reserved words are looked up after a word has been cut. So a word that merely begins like a reserved
one is a name, and nothing has to be checked behind it.
-/

namespace Treewalk

/-- The kind of a token. -/
inductive Kind where
  | invalid | eof | comment
  | int | float | char | string | ident
  | plus | minus | star | slash | percent
  | lparen | rparen | lbrace | rbrace | semicolon | comma
  | equal | unequal | greater | greaterEqual | less | lessEqual
  | assign | arrow
  | letKw | ifKw | elseKw | whileKw | fnKw | returnKw | printKw
  | trueKw | falseKw | nilKw
  | andKw | orKw | notKw
  deriving DecidableEq

namespace Kind

/-- Every kind, in the order of listing. -/
def all : List Kind :=
  [invalid, eof, comment, int, float, char, string, ident, plus, minus, star, slash, percent,
   lparen, rparen, lbrace, rbrace, semicolon, comma, equal, unequal, greater, greaterEqual, less,
   lessEqual, assign, arrow, letKw, ifKw, elseKw, whileKw, fnKw, returnKw, printKw, trueKw,
   falseKw, nilKw, andKw, orKw, notKw]

/-- How messages and listings call a kind. -/
def name : Kind → String
  | invalid => "INVALID"
  | eof => "EOF"
  | comment => "COMMENT"
  | int => "INT"
  | float => "FLOAT"
  | char => "CHAR"
  | string => "STRING"
  | ident => "IDENT"
  | plus => "PLUS"
  | minus => "MINUS"
  | star => "STAR"
  | slash => "SLASH"
  | percent => "MOD"
  | lparen => "LPAR"
  | rparen => "RPAR"
  | lbrace => "LBRACE"
  | rbrace => "RBRACE"
  | semicolon => "SEMI"
  | comma => "COMMA"
  | equal => "EQ"
  | unequal => "NEQ"
  | greater => "GT"
  | greaterEqual => "GTE"
  | less => "LT"
  | lessEqual => "LTE"
  | assign => "ASSIGN"
  | arrow => "ARROW"
  | letKw => "LET"
  | ifKw => "IF"
  | elseKw => "ELSE"
  | whileKw => "WHILE"
  | fnKw => "FN"
  | returnKw => "RETURN"
  | printKw => "PRINT"
  | trueKw => "TRUE"
  | falseKw => "FALSE"
  | nilKw => "NIL"
  | andKw => "AND"
  | orKw => "OR"
  | notKw => "NOT"

/-- The kind with a given name. -/
def ofName? (text : String) : Option Kind :=
  all.find? fun k => k.name = text

/-! ## Words -/

/-- The reserved words and their kinds. -/
def reserved : List (String × Kind) :=
  [("let", letKw), ("if", ifKw), ("else", elseKw), ("while", whileKw), ("fn", fnKw),
   ("return", returnKw), ("print", printKw), ("true", trueKw), ("false", falseKw), ("nil", nilKw),
   ("and", andKw), ("or", orKw), ("not", notKw)]

/-- The kind of a word: its own if it is reserved, otherwise identifier. -/
def ofWord (word : String) : Kind :=
  (reserved.lookup word).getD ident

/-! ## Classes -/

/-- Kinds whose tokens carry a text of their own choice. -/
def isLiteral (k : Kind) : Bool :=
  [int, float, char, string, ident].contains k

/-- Operators, brackets and separators. -/
def isOperator (k : Kind) : Bool :=
  [plus, minus, star, slash, percent, lparen, rparen, lbrace, rbrace, semicolon, comma, equal,
   unequal, greater, greaterEqual, less, lessEqual, assign, arrow].contains k

/-- Kinds of reserved words. -/
def isReserved (k : Kind) : Bool :=
  reserved.any fun entry => entry.2 = k

/-- Kinds that may stand in front of one operand. -/
def isUnary (k : Kind) : Bool :=
  [minus, notKw].contains k

/-- Kinds of comparison. -/
def isComparison (k : Kind) : Bool :=
  [equal, unequal, less, greater, lessEqual, greaterEqual].contains k

/-- Kinds of arithmetic on two operands. -/
def isArithmetic (k : Kind) : Bool :=
  [plus, minus, star, slash, percent].contains k

/-- Kinds that may stand between two operands. -/
def isBinary (k : Kind) : Bool :=
  k.isArithmetic || k.isComparison || [andKw, orKw].contains k

end Kind

end Treewalk
