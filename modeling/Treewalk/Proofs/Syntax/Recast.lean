import Treewalk.Syntax.Basic

/-!
# Rewriting code

Two things can be done to code without a change of what it does. It can be moved to another place,
or its places can be forgotten: then it is the same code with other marks. And what stands behind a
statement that gives a value on every path can be dropped, since it is never reached. A `Recast`
says which of the two is done, and it goes through the whole of the code, the bodies of functions
included.

## Implementation notes

Both rewritings are one definition because whatever holds code, a value, a frame or a machine, is
rewritten with the code, and evaluation has to be followed through every construct to see that this
makes no difference. Following it once is enough: the two differ in a single place, the list of
statements, and there in a single case.

Statements are dropped from the lists in `recastAll`, so these functions are no instances of
`List.map`. Where nothing is dropped they are (`Stmt.recastAll_eq_map`), and expressions, of which
none is ever dropped, are always mapped (`Expr.recastAll_eq_map`).

## Main definitions

* `Stmt.alwaysGives`, statements that give a value on every path
* `Recast`, `Expr.recast`, `Stmt.recast`, a way to rewrite code and the code that is rewritten
* `Expr.remark`, `Stmt.remark`, the same code with other marks
* `Recast.trim`, which drops what is never reached

## Main results

* `Stmt.alwaysGives_recast`: a rewritten statement gives on every path if the statement does
* `Stmt.recast_id`: rewriting that does nothing
* `Stmt.recast_recast`: rewriting twice is rewriting once
-/

namespace Treewalk

/-! ## Giving on every path -/

mutual

/-- Whatever path is taken, a value is given: the statement gives one itself, or it is a block with
such a statement in it, or a conditional with two such branches. -/
def Stmt.alwaysGives : Stmt → Bool
  | .give _ _ => true
  | .block _ body => Stmt.anyAlwaysGives body
  | .branch _ _ yes no => yes.alwaysGives && no.alwaysGives
  | _ => false

/-- One of the statements gives a value on every path. -/
def Stmt.anyAlwaysGives : List Stmt → Bool
  | [] => false
  | s :: rest => s.alwaysGives || Stmt.anyAlwaysGives rest

end

theorem Stmt.anyAlwaysGives_iff {ss : List Stmt} :
    Stmt.anyAlwaysGives ss = true ↔ ∃ s ∈ ss, s.alwaysGives = true := by
  induction ss with
  | nil => simp [Stmt.anyAlwaysGives]
  | cons s rest ih =>
    simp only [Stmt.anyAlwaysGives, Bool.or_eq_true, ih, List.mem_cons, exists_eq_or_imp]

/-! ## Rewriting -/

/-- What is done to code: every mark is replaced, and the statements behind one that gives on every
path may be dropped. -/
structure Recast where
  mark : Mark → Mark
  trims : Bool

mutual

/-- An expression that is rewritten. -/
def Expr.recast (c : Recast) : Expr → Expr
  | .int mark value => .int (c.mark mark) value
  | .float mark value => .float (c.mark mark) value
  | .char mark text => .char (c.mark mark) text
  | .string mark text => .string (c.mark mark) text
  | .mixed mark sort part => .mixed (c.mark mark) sort part
  | .bool mark value => .bool (c.mark mark) value
  | .nil mark => .nil (c.mark mark)
  | .var mark name => .var (c.mark mark) name
  | .unary mark op operand => .unary (c.mark mark) op (operand.recast c)
  | .binary mark lhs op rhs => .binary (c.mark mark) (lhs.recast c) op (rhs.recast c)
  | .group mark inner => .group (c.mark mark) (inner.recast c)
  | .call mark callee args => .call (c.mark mark) callee (Expr.recastAll c args)
  | .lambda mark params body => .lambda (c.mark mark) params (body.recast c)
  | .block mark body => .block (c.mark mark) (Stmt.recastAll c body)
  | .malformed mark before misfit => .malformed (c.mark mark) (Expr.recastAll c before) misfit

/-- Expressions that are rewritten one by one. -/
def Expr.recastAll (c : Recast) : List Expr → List Expr
  | [] => []
  | e :: rest => e.recast c :: Expr.recastAll c rest

/-- A statement that is rewritten. -/
def Stmt.recast (c : Recast) : Stmt → Stmt
  | .declare mark name e => .declare (c.mark mark) name (e.recast c)
  | .assign mark name e => .assign (c.mark mark) name (e.recast c)
  | .eval mark e => .eval (c.mark mark) (e.recast c)
  | .branch mark test yes no =>
    .branch (c.mark mark) (test.recast c) (yes.recast c) (no.recast c)
  | .loop mark test body => .loop (c.mark mark) (test.recast c) (body.recast c)
  | .define mark name params body => .define (c.mark mark) name params (body.recast c)
  | .give mark e => .give (c.mark mark) (e.recast c)
  | .print mark format args => .print (c.mark mark) format (Expr.recastAll c args)
  | .empty mark => .empty (c.mark mark)
  | .block mark body => .block (c.mark mark) (Stmt.recastAll c body)
  | .malformed mark before misfit => .malformed (c.mark mark) (Expr.recastAll c before) misfit

/-- Statements that are rewritten, possibly no further than to the first that gives on every
path. -/
def Stmt.recastAll (c : Recast) : List Stmt → List Stmt
  | [] => []
  | s :: rest =>
    if c.trims && s.alwaysGives then [s.recast c] else s.recast c :: Stmt.recastAll c rest

end

/-- An expression with other marks. -/
abbrev Expr.remark (f : Mark → Mark) (e : Expr) : Expr :=
  e.recast ⟨f, false⟩

/-- A statement with other marks. -/
abbrev Stmt.remark (f : Mark → Mark) (s : Stmt) : Stmt :=
  s.recast ⟨f, false⟩

/-- Everything behind a statement that gives on every path is dropped. -/
def Recast.trim : Recast :=
  ⟨id, true⟩

variable (c d : Recast)

@[simp] theorem Expr.mark_recast (e : Expr) : (e.recast c).mark = c.mark e.mark := by
  cases e <;> rfl

@[simp] theorem Stmt.mark_recast (s : Stmt) : (s.recast c).mark = c.mark s.mark := by
  cases s <;> rfl

theorem Expr.recastAll_eq_map (es : List Expr) : Expr.recastAll c es = es.map (Expr.recast c) := by
  induction es with
  | nil => rfl
  | cons e rest ih => rw [Expr.recastAll, ih, List.map_cons]

theorem Stmt.recastAll_eq_map (f : Mark → Mark) (ss : List Stmt) :
    Stmt.recastAll ⟨f, false⟩ ss = ss.map (Stmt.remark f) := by
  induction ss with
  | nil => rfl
  | cons s rest ih =>
    rw [Stmt.recastAll, ih]
    rfl

/-! The statement that gives is never among those that are dropped. -/

mutual

@[simp] theorem Stmt.alwaysGives_recast (s : Stmt) :
    (s.recast c).alwaysGives = s.alwaysGives := by
  cases s with
  | block mark body =>
    rw [Stmt.recast, Stmt.alwaysGives, Stmt.alwaysGives, Stmt.anyAlwaysGives_recastAll]
  | branch mark test yes no =>
    rw [Stmt.recast, Stmt.alwaysGives, Stmt.alwaysGives, yes.alwaysGives_recast,
      no.alwaysGives_recast]
  | _ => rfl

theorem Stmt.anyAlwaysGives_recastAll (ss : List Stmt) :
    Stmt.anyAlwaysGives (Stmt.recastAll c ss) = Stmt.anyAlwaysGives ss := by
  cases ss with
  | nil => rfl
  | cons s rest =>
    have hs := s.alwaysGives_recast
    rw [Stmt.recastAll, Stmt.anyAlwaysGives]
    split
    · next h =>
      have hgives : s.alwaysGives = true := (Bool.and_eq_true_iff.mp h).2
      rw [Stmt.anyAlwaysGives, hs, hgives, Bool.true_or, Bool.true_or]
    · rw [Stmt.anyAlwaysGives, hs, Stmt.anyAlwaysGives_recastAll rest]

end

/-! ## Rewriting that does nothing -/

mutual

theorem Expr.recast_id (e : Expr) : e.recast ⟨id, false⟩ = e := by
  cases e with
  | int | float | char | string | mixed | bool | nil | var => rfl
  | unary mark op operand => simp only [Expr.recast, operand.recast_id, id]
  | binary mark lhs op rhs => simp only [Expr.recast, lhs.recast_id, rhs.recast_id, id]
  | group mark inner => simp only [Expr.recast, inner.recast_id, id]
  | call mark callee args => simp only [Expr.recast, Expr.recastAll_id args, id]
  | lambda mark params body => simp only [Expr.recast, body.recast_id, id]
  | block mark body => simp only [Expr.recast, Stmt.recastAll_id body, id]
  | malformed mark before misfit => simp only [Expr.recast, Expr.recastAll_id before, id]

theorem Expr.recastAll_id (es : List Expr) : Expr.recastAll ⟨id, false⟩ es = es := by
  cases es with
  | nil => rfl
  | cons e rest => rw [Expr.recastAll, e.recast_id, Expr.recastAll_id rest]

theorem Stmt.recast_id (s : Stmt) : s.recast ⟨id, false⟩ = s := by
  cases s with
  | empty => rfl
  | declare mark name e => simp only [Stmt.recast, e.recast_id, id]
  | assign mark name e => simp only [Stmt.recast, e.recast_id, id]
  | eval mark e => simp only [Stmt.recast, e.recast_id, id]
  | give mark e => simp only [Stmt.recast, e.recast_id, id]
  | branch mark test yes no =>
    simp only [Stmt.recast, test.recast_id, yes.recast_id, no.recast_id, id]
  | loop mark test body => simp only [Stmt.recast, test.recast_id, body.recast_id, id]
  | define mark name params body => simp only [Stmt.recast, body.recast_id, id]
  | print mark format args => simp only [Stmt.recast, Expr.recastAll_id args, id]
  | block mark body => simp only [Stmt.recast, Stmt.recastAll_id body, id]
  | malformed mark before misfit => simp only [Stmt.recast, Expr.recastAll_id before, id]

theorem Stmt.recastAll_id (ss : List Stmt) : Stmt.recastAll ⟨id, false⟩ ss = ss := by
  cases ss with
  | nil => rfl
  | cons s rest =>
    rw [Stmt.recastAll, s.recast_id, Stmt.recastAll_id rest]
    rfl

end

/-! ## Rewriting twice -/

/-- One rewriting after another: something is dropped if either of them drops it. -/
def Recast.comp (d c : Recast) : Recast :=
  ⟨d.mark ∘ c.mark, c.trims || d.trims⟩

@[simp] theorem Recast.mark_comp (mark : Mark) : (d.comp c).mark mark = d.mark (c.mark mark) := rfl

mutual

theorem Expr.recast_recast (e : Expr) : (e.recast c).recast d = e.recast (d.comp c) := by
  cases e with
  | int | float | char | string | mixed | bool | nil | var => rfl
  | unary mark op operand => simp only [Expr.recast, operand.recast_recast, Recast.mark_comp]
  | binary mark lhs op rhs =>
    simp only [Expr.recast, lhs.recast_recast, rhs.recast_recast, Recast.mark_comp]
  | group mark inner => simp only [Expr.recast, inner.recast_recast, Recast.mark_comp]
  | call mark callee args =>
    simp only [Expr.recast, Expr.recastAll_recastAll args, Recast.mark_comp]
  | lambda mark params body => simp only [Expr.recast, body.recast_recast, Recast.mark_comp]
  | block mark body => simp only [Expr.recast, Stmt.recastAll_recastAll body, Recast.mark_comp]
  | malformed mark before misfit =>
    simp only [Expr.recast, Expr.recastAll_recastAll before, Recast.mark_comp]

theorem Expr.recastAll_recastAll (es : List Expr) :
    Expr.recastAll d (Expr.recastAll c es) = Expr.recastAll (d.comp c) es := by
  cases es with
  | nil => rfl
  | cons e rest => simp only [Expr.recastAll, e.recast_recast, Expr.recastAll_recastAll rest]

theorem Stmt.recast_recast (s : Stmt) : (s.recast c).recast d = s.recast (d.comp c) := by
  cases s with
  | empty => rfl
  | declare mark name e => simp only [Stmt.recast, e.recast_recast, Recast.mark_comp]
  | assign mark name e => simp only [Stmt.recast, e.recast_recast, Recast.mark_comp]
  | eval mark e => simp only [Stmt.recast, e.recast_recast, Recast.mark_comp]
  | give mark e => simp only [Stmt.recast, e.recast_recast, Recast.mark_comp]
  | branch mark test yes no =>
    simp only [Stmt.recast, test.recast_recast, yes.recast_recast, no.recast_recast,
      Recast.mark_comp]
  | loop mark test body =>
    simp only [Stmt.recast, test.recast_recast, body.recast_recast, Recast.mark_comp]
  | define mark name params body => simp only [Stmt.recast, body.recast_recast, Recast.mark_comp]
  | print mark format args =>
    simp only [Stmt.recast, Expr.recastAll_recastAll args, Recast.mark_comp]
  | block mark body => simp only [Stmt.recast, Stmt.recastAll_recastAll body, Recast.mark_comp]
  | malformed mark before misfit =>
    simp only [Stmt.recast, Expr.recastAll_recastAll before, Recast.mark_comp]

theorem Stmt.recastAll_recastAll (ss : List Stmt) :
    Stmt.recastAll d (Stmt.recastAll c ss) = Stmt.recastAll (d.comp c) ss := by
  cases ss with
  | nil => rfl
  | cons s rest =>
    have hs := s.recast_recast
    have hrest := Stmt.recastAll_recastAll rest
    cases hg : s.alwaysGives with
    | false => simp [Stmt.recastAll, hg, hs, hrest]
    | true => cases hc : c.trims <;> simp [Stmt.recastAll, Recast.comp, hg, hc, hs, hrest]

end

end Treewalk
