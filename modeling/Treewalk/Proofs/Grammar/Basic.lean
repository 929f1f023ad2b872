import Treewalk.Parse.Grammar

/-!
# The grammar

What a sequence of tokens has to be in order to stand for a tree. The rules know nothing of
readers, of lookahead or of bounds on nesting; each says of a whole sequence which tree it derives.

```
program := (COMMENT | stmt)* EOF
block   := '{' (COMMENT | stmt)* '}'
stmt    := ';' | 'let' IDENT ['=' expr] ';' | IDENT '=' expr ';' | block | if
         | 'while' expr block | 'fn' IDENT params block | 'return' [expr] ';'
         | 'print' '(' STRING (',' expr)* ')' ';' | expr ';'
if      := 'if' expr block ['else' (if | block)]
expr    := 'fn' params ('=>' expr | block) | or
or      := and ('or' and)*
and     := cmp ('and' cmp)*
cmp     := add (('==' | '/=' | '<' | '>' | '<=' | '>=') add)*
add     := mul (('+' | '-') mul)*
mul     := unary (('*' | '/' | '%') unary)*
unary   := ('-' | 'not') unary | IDENT ['(' [expr (',' expr)*] ')'] | literal | '(' expr ')'
params  := '(' [IDENT (',' IDENT)*] ')'
```

The five rules from `or` to `mul` differ in their operators alone. `Level` is all of them: it is
indexed by the operators of its own rule and of the rules below it.

## Scope

Trees carry marks, so a rule also says which token a node is blamed on. A literal derives a tree
only if its text stands for a value, and parameters only if their names are distinct.

## Main definitions

* `precedence`, the operators of `or`, `and`, `cmp`, `add` and `mul`
* `Expression`, `Level`, `Unary`, `Arguments`, `Block`, `Items`, `Branch`, `Statement`
* `Program`, a whole sequence with its end

## Implementation notes

The rules are relations between a sequence and a tree, not functions and not sets of sequences. A
parser that accepted the right sequences and built the wrong trees would satisfy a grammar of
sequences alone.

There is no ambiguity to be resolved by a convention outside of the rules. `else` belongs to the
nearest `if` because a branch ends in a block, and `join` is left recursive, so it nests to the
left. That each sequence has one tree at most is a theorem, and not part of the rules.

Optional parts are written as two rules, one with the part and one without. Rules with options
inside would need a sum in the tree or a default in the statement; two rules say what is built in
each case.
-/

namespace Treewalk.Grammar

open Parse

/-- The operators of `or`, `and`, `cmp`, `add` and `mul`, in this order. -/
def precedence : List (List Kind) :=
  [[.orKw], [.andKw], [.equal, .unequal, .less, .greater, .lessEqual, .greaterEqual],
   [.plus, .minus], [.star, .slash, .percent]]

/-! ## Parameters -/

/-- Names with commas between them: `IDENT (',' IDENT)*`. -/
inductive Names : List Token → List String → Prop where
  | one {x : Token} (hx : x.kind = .ident) : Names [x] [x.text]
  | more {x c : Token} {s : List Token} {names : List String} (hx : x.kind = .ident)
      (hc : c.kind = .comma) (hs : Names s names) : Names (x :: c :: s) (x.text :: names)

/-- Parameters: `'(' [IDENT (',' IDENT)*] ')'`, the names pairwise distinct. -/
inductive Params : List Token → List String → Prop where
  | none {l r : Token} (hl : l.kind = .lparen) (hr : r.kind = .rparen) : Params [l, r] []
  | some {l r : Token} {s : List Token} {names : List String} (hl : l.kind = .lparen)
      (hs : Names s names) (hd : names.Nodup) (hr : r.kind = .rparen) :
      Params (l :: (s ++ [r])) names

/-! ## Expressions and statements -/

mutual

/-- An expression: `'fn' params ('=>' expr | block) | or`. -/
inductive Expression : List Token → Expr → Prop where
  | arrow {a f : Token} {p s : List Token} {names : List String} {e : Expr} (hf : f.kind = .fnKw)
      (hp : Params p names) (ha : a.kind = .arrow) (he : Expression s e) :
      Expression (f :: (p ++ a :: s))
        (.lambda (markOf f) names (.block (markOf a) [.give (markOf a) e]))
  | lambda {f : Token} {p b : List Token} {names : List String} {body : Stmt} (hf : f.kind = .fnKw)
      (hp : Params p names) (hb : Block b body) :
      Expression (f :: (p ++ b)) (.lambda (markOf f) names body)
  | level {s : List Token} {e : Expr} (h : Level precedence s e) : Expression s e

/-- The rules with binary operators. With no operators left this is `unary`; otherwise operands of
the next rule, joined to the left by the operators of the first. -/
inductive Level : List (List Kind) → List Token → Expr → Prop where
  | unary {s : List Token} {e : Expr} (h : Unary s e) : Level [] s e
  | single {s : List Token} {ops : List Kind} {more : List (List Kind)} {e : Expr}
      (h : Level more s e) : Level (ops :: more) s e
  | join {op : Token} {s s' : List Token} {ops : List Kind} {more : List (List Kind)}
      {lhs rhs : Expr} (hl : Level (ops :: more) s lhs) (ho : op.kind ∈ ops)
      (hr : Level more s' rhs) :
      Level (ops :: more) (s ++ op :: s') (.binary (markOf op) lhs ⟨op.kind, op.text⟩ rhs)

/-- Unary operators in front of a name, a call, a literal or a bracketed expression. -/
inductive Unary : List Token → Expr → Prop where
  | signed {op : Token} {s : List Token} {e : Expr} (ho : op.kind = .minus ∨ op.kind = .notKw)
      (h : Unary s e) : Unary (op :: s) (.unary (markOf op) ⟨op.kind, op.text⟩ e)
  | var {x : Token} (hx : x.kind = .ident) : Unary [x] (.var (markOf x) x.text)
  | callNone {l r x : Token} (hx : x.kind = .ident) (hl : l.kind = .lparen)
      (hr : r.kind = .rparen) : Unary [x, l, r] (.call (markOf x) x.text [])
  | call {l r x : Token} {s : List Token} {args : List Expr} (hx : x.kind = .ident)
      (hl : l.kind = .lparen) (ha : Arguments s args) (hr : r.kind = .rparen) :
      Unary (x :: l :: (s ++ [r])) (.call (markOf x) x.text args)
  | int {t : Token} {v : Nat} (ht : t.kind = .int) (hv : intValue? t.text = some v) :
      Unary [t] (.int (markOf t) v)
  | float {t : Token} {v : Decimal} (ht : t.kind = .float) (hv : floatValue? t.text = some v) :
      Unary [t] (.float (markOf t) v)
  | char {t : Token} {v : String} (ht : t.kind = .char) (hv : charValue? t.text = some v) :
      Unary [t] (.char (markOf t) v)
  | string {t : Token} (ht : t.kind = .string) : Unary [t] (.string (markOf t) (stringValue t.text))
  | true {t : Token} (ht : t.kind = .trueKw) : Unary [t] (.bool (markOf t) true)
  | false {t : Token} (ht : t.kind = .falseKw) : Unary [t] (.bool (markOf t) false)
  | nil {t : Token} (ht : t.kind = .nilKw) : Unary [t] (.nil (markOf t))
  | group {l r : Token} {s : List Token} {e : Expr} (hl : l.kind = .lparen) (he : Expression s e)
      (hr : r.kind = .rparen) : Unary (l :: (s ++ [r])) (.group (markOf l) e)

/-- Arguments, one at least: `expr (',' expr)*`. -/
inductive Arguments : List Token → List Expr → Prop where
  | one {s : List Token} {e : Expr} (he : Expression s e) : Arguments s [e]
  | more {c : Token} {s s' : List Token} {e : Expr} {args : List Expr} (he : Expression s e)
      (hc : c.kind = .comma) (ha : Arguments s' args) : Arguments (s ++ c :: s') (e :: args)

/-- A block: `'{' (COMMENT | stmt)* '}'`. -/
inductive Block : List Token → Stmt → Prop where
  | braces {l r : Token} {s : List Token} {body : List Stmt} (hl : l.kind = .lbrace)
      (hb : Items s body) (hr : r.kind = .rbrace) : Block (l :: (s ++ [r])) (.block (markOf l) body)

/-- Statements and comments, of which only the statements count: `(COMMENT | stmt)*`. -/
inductive Items : List Token → List Stmt → Prop where
  | nil : Items [] []
  | comment {c : Token} {s : List Token} {body : List Stmt} (hc : c.kind = .comment)
      (hb : Items s body) : Items (c :: s) body
  | stmt {s s' : List Token} {st : Stmt} {body : List Stmt} (hs : Statement s st)
      (hb : Items s' body) : Items (s ++ s') (st :: body)

/-- A conditional: `'if' expr block ['else' (if | block)]`. -/
inductive Branch : List Token → Stmt → Prop where
  | plain {i : Token} {s b : List Token} {test : Expr} {yes : Stmt} (hi : i.kind = .ifKw)
      (ht : Expression s test) (hy : Block b yes) :
      Branch (i :: (s ++ b)) (.branch (markOf i) test yes (.empty .absent))
  | block {i k : Token} {s b s' : List Token} {test : Expr} {yes no : Stmt} (hi : i.kind = .ifKw)
      (ht : Expression s test) (hy : Block b yes) (hk : k.kind = .elseKw) (hn : Block s' no) :
      Branch (i :: (s ++ (b ++ k :: s'))) (.branch (markOf i) test yes no)
  | chain {i k : Token} {s b s' : List Token} {test : Expr} {yes no : Stmt} (hi : i.kind = .ifKw)
      (ht : Expression s test) (hy : Block b yes) (hk : k.kind = .elseKw) (hn : Branch s' no) :
      Branch (i :: (s ++ (b ++ k :: s'))) (.branch (markOf i) test yes no)

/-- A statement. -/
inductive Statement : List Token → Stmt → Prop where
  | empty {q : Token} (hq : q.kind = .semicolon) : Statement [q] (.empty (markOf q))
  | declareNil {l x q : Token} (hl : l.kind = .letKw) (hx : x.kind = .ident)
      (hq : q.kind = .semicolon) :
      Statement [l, x, q] (.declare (markOf l) x.text (.nil (markOf l)))
  | declare {l x a q : Token} {s : List Token} {e : Expr} (hl : l.kind = .letKw)
      (hx : x.kind = .ident) (ha : a.kind = .assign) (he : Expression s e)
      (hq : q.kind = .semicolon) :
      Statement (l :: x :: a :: (s ++ [q])) (.declare (markOf l) x.text e)
  | assign {x a q : Token} {s : List Token} {e : Expr} (hx : x.kind = .ident)
      (ha : a.kind = .assign) (he : Expression s e) (hq : q.kind = .semicolon) :
      Statement (x :: a :: (s ++ [q])) (.assign (markOf x) x.text e)
  | block {s : List Token} {st : Stmt} (h : Block s st) : Statement s st
  | branch {s : List Token} {st : Stmt} (h : Branch s st) : Statement s st
  | loop {k : Token} {s b : List Token} {test : Expr} {body : Stmt} (hk : k.kind = .whileKw)
      (ht : Expression s test) (hb : Block b body) :
      Statement (k :: (s ++ b)) (.loop (markOf k) test body)
  | define {x f : Token} {p b : List Token} {names : List String} {body : Stmt}
      (hf : f.kind = .fnKw) (hx : x.kind = .ident) (hp : Params p names) (hb : Block b body) :
      Statement (f :: x :: (p ++ b)) (.define (markOf f) x.text names body)
  | giveNil {k q : Token} (hk : k.kind = .returnKw) (hq : q.kind = .semicolon) :
      Statement [k, q] (.give (markOf k) (.nil (markOf k)))
  | give {k q : Token} {s : List Token} {e : Expr} (hk : k.kind = .returnKw) (he : Expression s e)
      (hq : q.kind = .semicolon) : Statement (k :: (s ++ [q])) (.give (markOf k) e)
  | printNone {l r k t q : Token} (hk : k.kind = .printKw) (hl : l.kind = .lparen)
      (ht : t.kind = .string) (hr : r.kind = .rparen) (hq : q.kind = .semicolon) :
      Statement [k, l, t, r, q] (.print (markOf k) (stringValue t.text) [])
  | print {l r c k t q : Token} {s : List Token} {args : List Expr} (hk : k.kind = .printKw)
      (hl : l.kind = .lparen) (ht : t.kind = .string) (hc : c.kind = .comma) (ha : Arguments s args)
      (hr : r.kind = .rparen) (hq : q.kind = .semicolon) :
      Statement (k :: l :: t :: c :: (s ++ [r, q])) (.print (markOf k) (stringValue t.text) args)
  | eval {q : Token} {s : List Token} {e : Expr} (he : Expression s e) (hq : q.kind = .semicolon) :
      Statement (s ++ [q]) (.eval e.mark e)

end

/-- A whole program: `(COMMENT | stmt)* EOF`. -/
inductive Program : List Token → List Stmt → Prop where
  | ended {q : Token} {s : List Token} {body : List Stmt} (hb : Items s body) (hq : q.kind = .eof) :
      Program (s ++ [q]) body

end Treewalk.Grammar
