import Treewalk.Proofs.Syntax.Recast

/-!
# Statements behind a statement that gives

A statement that gives a value on every path ends the list of statements that it stands in. What
stands behind it in the list can be deleted, and this may be done in any block, in the body of any
function and in the unit itself, as often as one likes and at any depth. A relation says which code
comes of which code by such deletions.

## Implementation notes

The relation leaves it open what is deleted, and a proof that followed it through evaluation would
have to speak of two machines whose functions differ here and there. Trimming deletes everything of
this kind. Deleting less does not change what the trimmed code is, so trimming decides whether two
programs differ in such statements alone, and it is a function, which can be applied to a whole
machine.

## Main definitions

* `Expr.Cut`, `Stmt.Cut`, `Stmt.CutAll`, code and what comes of it by deletions

## Main results

* `Stmt.CutAll.behind`: what stands behind a statement that gives can be deleted
* `Stmt.CutAll.trimAll_eq`: deletions do not change what the trimmed code is
-/

namespace Treewalk

/-! ## Deletions -/

mutual

/-- The second expression comes of the first by deletions in the bodies of its functions. -/
inductive Expr.Cut : Expr → Expr → Prop where
  | refl (e : Expr) : Expr.Cut e e
  | unary {e e' : Expr} (mark : Mark) (op : Operator) (h : Expr.Cut e e') :
    Expr.Cut (.unary mark op e) (.unary mark op e')
  | binary {l l' r r' : Expr} (mark : Mark) (op : Operator) (hl : Expr.Cut l l')
    (hr : Expr.Cut r r') : Expr.Cut (.binary mark l op r) (.binary mark l' op r')
  | group {e e' : Expr} (mark : Mark) (h : Expr.Cut e e') :
    Expr.Cut (.group mark e) (.group mark e')
  | call {args args' : List Expr} (mark : Mark) (name : String) (h : Expr.CutAll args args') :
    Expr.Cut (.call mark name args) (.call mark name args')
  | lambda {body body' : Stmt} (mark : Mark) (params : List String) (h : Stmt.Cut body body') :
    Expr.Cut (.lambda mark params body) (.lambda mark params body')

/-- The same for expressions one by one. -/
inductive Expr.CutAll : List Expr → List Expr → Prop where
  | nil : Expr.CutAll [] []
  | cons {e e' : Expr} {rest rest' : List Expr} (h : Expr.Cut e e')
    (hrest : Expr.CutAll rest rest') : Expr.CutAll (e :: rest) (e' :: rest')

/-- The second statement comes of the first by deletions in its blocks and functions. -/
inductive Stmt.Cut : Stmt → Stmt → Prop where
  | refl (s : Stmt) : Stmt.Cut s s
  | declare {e e' : Expr} (mark : Mark) (name : String) (h : Expr.Cut e e') :
    Stmt.Cut (.declare mark name e) (.declare mark name e')
  | assign {e e' : Expr} (mark : Mark) (name : String) (h : Expr.Cut e e') :
    Stmt.Cut (.assign mark name e) (.assign mark name e')
  | eval {e e' : Expr} (mark : Mark) (h : Expr.Cut e e') : Stmt.Cut (.eval mark e) (.eval mark e')
  | give {e e' : Expr} (mark : Mark) (h : Expr.Cut e e') : Stmt.Cut (.give mark e) (.give mark e')
  | print {args args' : List Expr} (mark : Mark) (format : String) (h : Expr.CutAll args args') :
    Stmt.Cut (.print mark format args) (.print mark format args')
  | branch {test test' : Expr} {yes yes' no no' : Stmt} (mark : Mark) (ht : Expr.Cut test test')
    (hy : Stmt.Cut yes yes') (hn : Stmt.Cut no no') :
    Stmt.Cut (.branch mark test yes no) (.branch mark test' yes' no')
  | loop {test test' : Expr} {body body' : Stmt} (mark : Mark) (ht : Expr.Cut test test')
    (hb : Stmt.Cut body body') : Stmt.Cut (.loop mark test body) (.loop mark test' body')
  | define {body body' : Stmt} (mark : Mark) (name : String) (params : List String)
    (h : Stmt.Cut body body') :
    Stmt.Cut (.define mark name params body) (.define mark name params body')
  | block {body body' : List Stmt} (mark : Mark) (h : Stmt.CutAll body body') :
    Stmt.Cut (.block mark body) (.block mark body')

/-- The second list comes of the first by deletions within its statements, and possibly of all
statements behind one that gives on every path. -/
inductive Stmt.CutAll : List Stmt → List Stmt → Prop where
  | nil : Stmt.CutAll [] []
  | cons {s s' : Stmt} {rest rest' : List Stmt} (h : Stmt.Cut s s')
    (hrest : Stmt.CutAll rest rest') : Stmt.CutAll (s :: rest) (s' :: rest')
  | stop {s s' : Stmt} {rest : List Stmt} (h : Stmt.Cut s s') (hs : s.alwaysGives = true) :
    Stmt.CutAll (s :: rest) [s']

end

theorem Stmt.CutAll.refl (ss : List Stmt) : Stmt.CutAll ss ss := by
  induction ss with
  | nil => exact .nil
  | cons s rest ih => exact .cons (.refl s) ih

/-- What stands behind a statement that gives on every path can be deleted. -/
theorem Stmt.CutAll.behind {s : Stmt} (hs : s.alwaysGives = true) (before after : List Stmt) :
    Stmt.CutAll (before ++ s :: after) (before ++ [s]) := by
  induction before with
  | nil => exact .stop (.refl s) hs
  | cons first rest ih => exact .cons (.refl first) ih

/-! ## Deletions and trimming -/

mutual

theorem Expr.Cut.trim_eq {e e' : Expr} : Expr.Cut e e' → e.recast .trim = e'.recast .trim
  | .refl _ => rfl
  | .unary _ _ h => by rw [Expr.recast, Expr.recast, h.trim_eq]
  | .binary _ _ hl hr => by rw [Expr.recast, Expr.recast, hl.trim_eq, hr.trim_eq]
  | .group _ h => by rw [Expr.recast, Expr.recast, h.trim_eq]
  | .call _ _ h => by rw [Expr.recast, Expr.recast, h.trimAll_eq]
  | .lambda _ _ h => by rw [Expr.recast, Expr.recast, h.trim_eq]

theorem Expr.CutAll.trimAll_eq {es es' : List Expr} :
    Expr.CutAll es es' → Expr.recastAll .trim es = Expr.recastAll .trim es'
  | .nil => rfl
  | .cons h hrest => by rw [Expr.recastAll, Expr.recastAll, h.trim_eq, hrest.trimAll_eq]

theorem Stmt.Cut.trim_eq {s s' : Stmt} : Stmt.Cut s s' → s.recast .trim = s'.recast .trim
  | .refl _ => rfl
  | .declare _ _ h => by rw [Stmt.recast, Stmt.recast, h.trim_eq]
  | .assign _ _ h => by rw [Stmt.recast, Stmt.recast, h.trim_eq]
  | .eval _ h => by rw [Stmt.recast, Stmt.recast, h.trim_eq]
  | .give _ h => by rw [Stmt.recast, Stmt.recast, h.trim_eq]
  | .print _ _ h => by rw [Stmt.recast, Stmt.recast, h.trimAll_eq]
  | .branch _ ht hy hn => by
    rw [Stmt.recast, Stmt.recast, ht.trim_eq, hy.trim_eq, hn.trim_eq]
  | .loop _ ht hb => by rw [Stmt.recast, Stmt.recast, ht.trim_eq, hb.trim_eq]
  | .define _ _ _ h => by rw [Stmt.recast, Stmt.recast, h.trim_eq]
  | .block _ h => by rw [Stmt.recast, Stmt.recast, h.trimAll_eq]

/-- Deletions do not change what the trimmed code is. What has been deleted would have been trimmed,
and what has not been deleted is trimmed as before. -/
theorem Stmt.CutAll.trimAll_eq {ss ss' : List Stmt} :
    Stmt.CutAll ss ss' → Stmt.recastAll .trim ss = Stmt.recastAll .trim ss'
  | .nil => rfl
  | @Stmt.CutAll.cons s s' _ _ h hrest => by
    have hs : s.alwaysGives = s'.alwaysGives := by
      rw [← s.alwaysGives_recast .trim, h.trim_eq, s'.alwaysGives_recast]
    rw [Stmt.recastAll, Stmt.recastAll, hs, h.trim_eq, hrest.trimAll_eq]
  | @Stmt.CutAll.stop s s' _ h hs => by
    have htrims : (Recast.trim.trims && s.alwaysGives) = true := hs
    rw [Stmt.recastAll, if_pos htrims, h.trim_eq, Stmt.recastAll, Stmt.recastAll, ite_self]

end

end Treewalk
