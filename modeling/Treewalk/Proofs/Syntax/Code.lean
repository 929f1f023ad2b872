import Treewalk.Syntax.Basic

/-!
# Code and its parts

Expressions contain statements and the other way round, so what is said about all nodes of a program
is said about `Code`, which is either. A node is described by itself, by a property that looks at
no more than the node and the shape of its parts; `Code.All` extends the property to everything
within. Nothing that is said this way has to be repeated for each constructor.

## Why one type for both

A lambda is an expression whose body is a statement, and every statement has expressions in it. A
property of all nodes would otherwise be two properties, each in terms of the other, and each
induction would have four cases more for lists. With `Code` a node has a list of parts, whatever it
is, and being somewhere within is the closure of being a part.

## What is deliberately absent

There is no induction on the size of code here and no well-founded recursion. `Within` is a relation
with two rules, so what holds of everything within is taken from the outside to the inside, which is
the direction in which evaluation goes.

## Main definitions

* `Code`, `Code.parts`, `Code.Within`, `Code.All`
* `Code.Proper`, what the nodes of a program that was read from a source satisfy
* `Stmt.introduces`, the names that a statement may bind in the frame that it runs in

## Main results

* `Code.all_iff`: a property holds of all nodes if it holds of this one and of all nodes of its
  parts
* `Stmt.introduces_of_proper`: a proper statement introduces a name only by being a declaration

## Implementation notes

`All` is defined from `Within` and not by recursion on the code. Then a property of all nodes is
inherited by parts for a trivial reason, whatever the property, and `all_iff` says that it can be
checked node by node. The lemmas for nodes with one part, two parts or a list of parts are for
derivations, which build code from the inside.
-/

namespace Treewalk

/-- An expression or a statement. -/
inductive Code where
  | expr (e : Expr)
  | stmt (s : Stmt)

namespace Code

/-- The nodes that a node is put together from. -/
def parts : Code → List Code
  | .expr (.unary _ _ operand) => [.expr operand]
  | .expr (.binary _ lhs _ rhs) => [.expr lhs, .expr rhs]
  | .expr (.group _ inner) => [.expr inner]
  | .expr (.call _ _ args) => args.map .expr
  | .expr (.lambda _ _ body) => [.stmt body]
  | .expr (.block _ body) => body.map .stmt
  | .expr (.malformed _ before _) => before.map .expr
  | .expr _ => []
  | .stmt (.declare _ _ e) | .stmt (.assign _ _ e) | .stmt (.eval _ e) | .stmt (.give _ e) =>
    [.expr e]
  | .stmt (.branch _ test yes no) => [.expr test, .stmt yes, .stmt no]
  | .stmt (.loop _ test body) => [.expr test, .stmt body]
  | .stmt (.define _ _ _ body) => [.stmt body]
  | .stmt (.print _ _ args) => args.map .expr
  | .stmt (.empty _) => []
  | .stmt (.block _ body) => body.map .stmt
  | .stmt (.malformed _ before _) => before.map .expr

/-- The first node is the second or stands somewhere within it. -/
inductive Within : Code → Code → Prop where
  | refl (c : Code) : Within c c
  | part {c d e : Code} (h : Within c d) (hd : d ∈ e.parts) : Within c e

/-- All nodes within satisfy a property. -/
def All (P : Code → Prop) (c : Code) : Prop :=
  ∀ d : Code, d.Within c → P d

variable {P : Code → Prop} {c d : Code}

theorem All.here (h : All P c) : P c :=
  h c (.refl c)

theorem All.part (h : All P c) (hd : d ∈ c.parts) : All P d :=
  fun e he => h e (.part he hd)

theorem Within.trans {e : Code} (h : c.Within d) (h' : d.Within e) : c.Within e := by
  induction h' with
  | refl => exact h
  | part _ hd ih => exact .part ih hd

theorem All.imp {Q : Code → Prop} (h : All P c) (hpq : ∀ d, P d → Q d) : All Q c :=
  fun d hd => hpq d (h d hd)

theorem All.within (h : All P c) (hd : d.Within c) : All P d :=
  fun e he => h e (he.trans hd)

/-- A property holds of all nodes if it holds of this one and of all nodes of its parts. With it a
property of everything within is shown one node at a time. -/
theorem all_iff : All P c ↔ P c ∧ ∀ d ∈ c.parts, All P d := by
  refine ⟨fun h => ⟨h.here, fun d hd => h.part hd⟩, fun ⟨hc, hp⟩ e he => ?_⟩
  cases he with
  | refl => exact hc
  | part h hd => exact hp _ hd e h

theorem All.leaf (h : P c) (hc : c.parts = []) : All P c :=
  all_iff.mpr ⟨h, by simp [hc]⟩

theorem All.one (h : P c) (hc : c.parts = [d]) (hd : All P d) : All P c :=
  all_iff.mpr ⟨h, by simpa [hc] using hd⟩

theorem All.two {e : Code} (h : P c) (hc : c.parts = [d, e]) (hd : All P d) (he : All P e) :
    All P c :=
  all_iff.mpr ⟨h, by simpa [hc] using ⟨hd, he⟩⟩

theorem All.exprs {es : List Expr} (h : P c) (hc : c.parts = es.map .expr)
    (hes : ∀ e ∈ es, All P (.expr e)) : All P c :=
  all_iff.mpr ⟨h, by simpa [hc] using hes⟩

theorem All.stmts {ss : List Stmt} (h : P c) (hc : c.parts = ss.map .stmt)
    (hss : ∀ s ∈ ss, All P (.stmt s)) : All P c :=
  all_iff.mpr ⟨h, by simpa [hc] using hss⟩

end Code

/-! ## Proper nodes -/

namespace Stmt

/-- Statements in braces. -/
def isBlock : Stmt → Bool
  | .block _ _ => true
  | _ => false

/-- What may stand where the alternative of a conditional is: a block, another conditional, or the
statement that does nothing, with no mark, if there is none. -/
def isAlternative : Stmt → Bool
  | .block _ _ | .branch _ _ _ _ | .empty .absent => true
  | _ => false

end Stmt

/-- What the nodes of a program satisfy that was read from a source: no leftovers of trees made by
hand, operators where they belong, and braces around everything that runs under a condition or in a
call. -/
def Code.Proper : Code → Prop
  | .expr (.float _ value) => value.isFinite = true
  | .expr (.mixed _ _ _) => False
  | .expr (.unary _ op _) => op.kind.isUnary = true
  | .expr (.binary _ _ op _) => op.kind.isBinary = true
  | .expr (.lambda _ params body) => params.Nodup ∧ body.isBlock = true
  | .expr (.block _ _) => False
  | .expr (.malformed _ _ _) => False
  | .expr _ => True
  | .stmt (.branch _ _ yes no) => yes.isBlock = true ∧ no.isAlternative = true
  | .stmt (.loop _ _ body) => body.isBlock = true
  | .stmt (.define _ _ params body) => params.Nodup ∧ body.isBlock = true
  | .stmt (.malformed _ _ _) => False
  | .stmt _ => True

/-! ## Names that a statement introduces -/

/-- The names that a statement may bind in the frame that it runs in. A block has a frame of its
own, so what it declares is not seen here; a body without braces would be. -/
def Stmt.introduces : Stmt → List String
  | .declare _ name _ | .define _ name _ _ => [name]
  | .branch _ _ yes no => yes.introduces ++ no.introduces
  | .loop _ _ body => body.introduces
  | _ => []

namespace Stmt

/-- The statement is itself a declaration of the name, by value or as a function. -/
def Declares (s : Stmt) (name : String) : Prop :=
  (∃ mark init, s = .declare mark name init) ∨ ∃ mark params body, s = .define mark name params body

theorem introduces_of_isBlock {s : Stmt} (h : s.isBlock = true) : s.introduces = [] := by
  cases s <;> simp_all [isBlock, introduces]

/-- An alternative introduces nothing, however long the chain of conditionals. -/
theorem introduces_of_isAlternative :
    ∀ {s : Stmt}, Code.All Code.Proper (.stmt s) → s.isAlternative = true → s.introduces = []
  | .block _ _, _, _ => rfl
  | .empty _, _, _ => rfl
  | .branch _ _ yes no, h, _ => by
    have hp : yes.isBlock = true ∧ no.isAlternative = true := h.here
    rw [introduces, introduces_of_isBlock hp.1,
      introduces_of_isAlternative (h.part (by simp [Code.parts])) hp.2, List.nil_append]

/-- A proper statement introduces a name only by being a declaration of it. -/
theorem introduces_of_proper {s : Stmt} (h : Code.All Code.Proper (.stmt s)) :
    s.introduces = [] ∨ ∃ name, s.introduces = [name] ∧ s.Declares name := by
  cases s with
  | declare mark name init => exact .inr ⟨name, rfl, .inl ⟨mark, init, rfl⟩⟩
  | define mark name params body => exact .inr ⟨name, rfl, .inr ⟨mark, params, body, rfl⟩⟩
  | branch => exact .inl (introduces_of_isAlternative h rfl)
  | loop mark test body =>
    have hb : body.isBlock = true := h.here
    exact .inl (by rw [introduces, introduces_of_isBlock hb])
  | _ => exact .inl rfl

end Stmt

end Treewalk
