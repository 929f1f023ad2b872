import Treewalk.Decimal.Text
import Treewalk.Source.Position
import Treewalk.Text.Quoted

/-!
# Labelled trees

The uniform view of a program: nodes with a label, a mark and children, and four sorts of leaves.
It is what listings show and what trees made by hand are given in; programs themselves are
`Stmt` and `Expr`.

## Main definitions

* `Tree`, `Tree.label?`, and `PartSort`, `Tree.sort`, what sort of part a tree is
* `Tree.words?`, the characters of a leaf that has some
* `Tree.numbered`, the tree with its decimals told apart
* `Tree.alike?`, `Tree.differ?`, equality of the values that trees hold
* `Tree.leafText?`, the text of a leaf in an outline
* `Tree.shown`, the text of a whole tree on one line
* `Tree.outline`, one line per node, two spaces per level

## Implementation notes

Equality of trees is a partial function with an order of evaluation, because that is what the host
has: equality may raise an error on a signalling number, and whether it is reached depends on what
was compared before. Two leaves that are one object are not compared at all. This can be seen only
where a number differs from itself, and `numbered` exists to tell it.

`outline` and `shown` are the two texts of a tree, one for listings and one for messages that quote
a part. They differ in nearly everything, the letter of an exponent apart.
-/

namespace Treewalk

/-- A labelled node with a mark and children, or a leaf: a token with the name of its kind, a
number or a text. A decimal may have a serial number, which tells whether two leaves are one and the
same; that matters where the decimal is no number, and so not equal to itself. -/
inductive Tree where
  | node (label : String) (mark : Mark) (children : List Tree)
  | token (kind : String) (text : String)
  | int (value : Int)
  | float (value : Decimal) (serial : Option Nat)
  | text (value : String)

/-- The sorts of parts of a tree. -/
inductive PartSort where
  | node | text | token | int | float
  deriving DecidableEq

/-- How messages call the sort of a part. -/
def PartSort.name : PartSort → String
  | .node => "Tree"
  | .text => "str"
  | .token => "Token"
  | .int => "int"
  | .float => "Decimal"

/-- How messages about what a part lacks, or cannot do, call its sort. -/
def PartSort.fullName : PartSort → String
  | .float => "decimal.Decimal"
  | other => other.name

namespace Tree

/-- The sort of a tree. -/
def sort : Tree → PartSort
  | .node _ _ _ => .node
  | .token _ _ => .token
  | .int _ => .int
  | .float _ _ => .float
  | .text _ => .text

/-- The label of a node. -/
def label? : Tree → Option String
  | .node label _ _ => some label
  | _ => none

/-- The characters that a leaf holds. -/
def words? : Tree → Option String
  | .text value => some value
  | .token _ spelling => some spelling
  | _ => none

/-- The text of a leaf in an outline. -/
def leafText? : Tree → Option String
  | .node _ _ _ => none
  | .token _ spelling => some spelling
  | .int value => some (toString value)
  | .float value _ => some value.listing
  | .text value => some value

mutual

/-- A tree on one line, with its texts in quotes. -/
def shown : Tree → String
  | .node label _ children => "Tree(" ++ Text.quoted label ++ ", [" ++ shownAll children ++ "])"
  | .token kind spelling =>
    "Token(" ++ Text.quoted kind ++ ", " ++ Text.quoted spelling ++ ")"
  | .int value => toString value
  | .float value _ => "Decimal('" ++ value.listing ++ "')"
  | .text value => Text.quoted value

/-- Trees on one line, with commas between them. -/
def shownAll : List Tree → String
  | [] => ""
  | [tree] => shown tree
  | tree :: rest => shown tree ++ ", " ++ shownAll rest

end

/-- The text that a tree gives where a name is wanted. -/
def plain (t : Tree) : String :=
  t.leafText?.getD t.shown

/-! ## Equality -/

/-- Whether two leaves are one and the same, as far as that makes a difference. -/
def identical : Tree → Tree → Bool
  | .float _ (some serial), .float _ (some serial') => serial = serial'
  | _, _ => false

mutual

/-- A tree whose decimals are numbered from a number on, and the number behind the last. -/
def numberedFrom (n : Nat) : Tree → Tree × Nat
  | .node label mark children =>
    let (children, n) := allNumberedFrom n children
    (.node label mark children, n)
  | .float value _ => (.float value (some n), n + 1)
  | other => (other, n)

/-- Trees whose decimals are numbered from a number on, and the number behind the last. -/
def allNumberedFrom (n : Nat) : List Tree → List Tree × Nat
  | [] => ([], n)
  | tree :: rest =>
    let (tree, n) := numberedFrom n tree
    let (rest, n) := allNumberedFrom n rest
    (tree :: rest, n)

end

/-- A tree with all its decimals told apart. -/
def numbered (t : Tree) : Tree :=
  (t.numberedFrom 0).1

mutual

/-- Whether two trees hold equal values: numbers by value, nodes by labels and children, marks left
aside. A token equals a text of the same characters, and another token if the kinds agree too. There
is no answer if a signalling decimal has to be asked about; children are asked about in order, as
long as they are equal and if there are as many, and not at all where they are one and the same. -/
def alike? : Tree → Tree → Option Bool
  | .node label _ children, other =>
    match other with
    | .node label' _ children' =>
      if label = label' ∧ children.length = children'.length then alikeAll? children children'
      else some false
    | _ => some false
  | .token kind spelling, other =>
    match other with
    | .token kind' spelling' => some (kind = kind' && spelling = spelling')
    | .text value => some (spelling = value)
    | _ => some false
  | .text value, other => some (other.words? = some value)
  | .int value, other =>
    match other with
    | .int value' => some (value = value')
    | .float value' _ => (Decimal.ofInt value).equal? value'
    | _ => some false
  | .float value _, other =>
    match other with
    | .int value' => value.equal? (.ofInt value')
    | .float value' _ => value.equal? value'
    | _ => some false

/-- Whether two lists of the same length hold equal values. -/
def alikeAll? : List Tree → List Tree → Option Bool
  | a :: as, b :: bs =>
    if identical a b then alikeAll? as bs
    else
      match alike? a b with
      | some true => alikeAll? as bs
      | other => other
  | _, _ => some true

end

/-- Whether two trees hold different values. Two tokens differ by their characters alone, so tokens
of different kinds may be neither alike nor different. -/
def differ? : Tree → Tree → Option Bool
  | .token _ spelling, .token _ spelling' => some (spelling ≠ spelling')
  | a, b => (a.alike? b).map not

/-! ## Outlines -/

/-- Two spaces for each level. -/
def indent (level : Nat) : String :=
  String.ofList (List.replicate (2 * level) ' ')

mutual

/-- A node on a line of its own, its children one level deeper; a single leaf stands behind the
label on the same line. -/
def outline (level : Nat) : Tree → String
  | .node label _ children =>
    indent level ++ label ++
      match children with
      | [child] =>
        match child.leafText? with
        | some leaf => "\t" ++ leaf ++ "\n"
        | none => "\n" ++ outlines (level + 1) [child]
      | children => "\n" ++ outlines (level + 1) children
  | .token _ spelling => indent level ++ spelling ++ "\n"
  | .int value => indent level ++ toString value ++ "\n"
  | .float value _ => indent level ++ value.listing ++ "\n"
  | .text value => indent level ++ value ++ "\n"

/-- Outlines one below the other. -/
def outlines (level : Nat) : List Tree → String
  | [] => ""
  | tree :: rest => outline level tree ++ outlines level rest

end

end Tree

end Treewalk
