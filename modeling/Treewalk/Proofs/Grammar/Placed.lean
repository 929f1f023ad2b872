import Treewalk.Proofs.Grammar.Exact
import Treewalk.Proofs.Syntax.Code

/-!
# Marks of nodes

Every node that can fail carries the mark of the token that a reader would point at: a name the mark
of the name, an operator that of its sign, a call that of the name it calls, an assignment that of
the name it assigns, and a print statement that of its keyword. The grammar says so rule by rule,
and the token says what the node says: every name and every text in a node is that of a token.

## Main definitions

* `Code.Placed`, the node carries the mark of one of the tokens, which agrees with it

## Main results

* `Grammar.Items.placed`: derived statements are placed on the tokens that they are derived from

## Implementation notes

The tokens are those of the whole sequence and stay the same throughout the induction; each phrase
is known to be made of some of them. If every node were placed on its own phrase only, then the
property would have to be weakened at each step upwards.

Nodes that cannot fail are not placed on anything. Their marks are seen nowhere but in listings.
-/

namespace Treewalk

open Parse

/-- A node that can fail carries the mark of one of the tokens: of the name that it looks up,
assigns or calls, of the operator that it applies, or of the keyword that it starts with. A
character, a string, a format and the name of a function are what one of the tokens says. -/
def Code.Placed (ts : List Token) : Code → Prop
  | .expr (.var mark name) | .expr (.call mark name _) | .stmt (.assign mark name _) =>
    ∃ t ∈ ts, mark = markOf t ∧ t.kind = .ident ∧ t.text = name
  | .expr (.unary mark op _) | .expr (.binary mark _ op _) =>
    ∃ t ∈ ts, mark = markOf t ∧ op = ⟨t.kind, t.text⟩
  | .stmt (.print mark format _) => (∃ t ∈ ts, mark = markOf t ∧ t.kind = .printKw) ∧
    ∃ t ∈ ts, t.kind = .string ∧ stringValue t.text = format
  | .expr (.char mark text) => ∃ t ∈ ts, mark = markOf t ∧ charValue? t.text = some text
  | .expr (.string mark text) =>
    ∃ t ∈ ts, mark = markOf t ∧ t.kind = .string ∧ stringValue t.text = text
  | .stmt (.define _ name _ _) => ∃ t ∈ ts, t.kind = .ident ∧ t.text = name
  | _ => True

namespace Grammar

open Code

variable {ts : List Token}

/-- The node is placed on tokens and everything within it. -/
abbrev PlacedExpr (ts : List Token) (e : Expr) : Prop := All (Placed ts) (.expr e)

/-- The node is placed on tokens and everything within it. -/
abbrev PlacedStmt (ts : List Token) (s : Stmt) : Prop := All (Placed ts) (.stmt s)

theorem placedStmt_branch {mark : Mark} {test : Expr} {yes no : Stmt} (ht : PlacedExpr ts test)
    (hy : PlacedStmt ts yes) (hn : PlacedStmt ts no) :
    PlacedStmt ts (.branch mark test yes no) := by
  refine all_iff.mpr ⟨trivial, ?_⟩
  simp only [parts, List.forall_mem_cons]
  exact ⟨ht, hy, hn, List.forall_mem_nil _⟩

mutual

theorem Expression.placed {s : List Token} {e : Expr} :
    Expression s e → (∀ t ∈ s, t ∈ ts) → PlacedExpr ts e
  | .arrow _ _ _ he, h => by
    refine .one trivial rfl (.one trivial rfl (.one trivial rfl (he.placed fun t ht => h t ?_)))
    simp [ht]
  | .lambda _ _ hb, h => .one trivial rfl (hb.placed fun t ht => h t (by simp [ht]))
  | .level hl, h => hl.placed h

theorem Level.placed {ls : List (List Kind)} {s : List Token} {e : Expr} :
    Level ls s e → (∀ t ∈ s, t ∈ ts) → PlacedExpr ts e
  | .unary hu, h => hu.placed h
  | .single hl, h => hl.placed h
  | .join hl _ hr, h =>
    .two ⟨_, h _ (by simp), rfl, rfl⟩ rfl (hl.placed fun t ht => h t (by simp [ht]))
      (hr.placed fun t ht => h t (by simp [ht]))

theorem Unary.placed {s : List Token} {e : Expr} :
    Unary s e → (∀ t ∈ s, t ∈ ts) → PlacedExpr ts e
  | .signed _ hu, h =>
    .one ⟨_, h _ (by simp), rfl, rfl⟩ rfl (hu.placed fun t ht => h t (by simp [ht]))
  | .var hx, h => .leaf ⟨_, h _ (by simp), rfl, hx, rfl⟩ rfl
  | .callNone hx _ _, h => .leaf ⟨_, h _ (by simp), rfl, hx, rfl⟩ rfl
  | .call hx _ ha _, h =>
    .exprs ⟨_, h _ (by simp), rfl, hx, rfl⟩ rfl (ha.placed fun t ht => h t (by simp [ht]))
  | .group _ he _, h => .one trivial rfl (he.placed fun t ht => h t (by simp [ht]))
  | .char _ hv, h => .leaf ⟨_, h _ (by simp), rfl, hv⟩ rfl
  | .string ht, h => .leaf ⟨_, h _ (by simp), rfl, ht, rfl⟩ rfl
  | .int _ _, _ | .float _ _, _ | .true _, _ | .false _, _ | .nil _, _ => .leaf trivial rfl

theorem Arguments.placed {s : List Token} {args : List Expr} :
    Arguments s args → (∀ t ∈ s, t ∈ ts) → ∀ e ∈ args, PlacedExpr ts e
  | .one he, h => List.forall_mem_singleton.mpr (he.placed h)
  | .more he _ ha, h => List.forall_mem_cons.mpr
      ⟨he.placed fun t ht => h t (by simp [ht]), ha.placed fun t ht => h t (by simp [ht])⟩

theorem Block.placed {s : List Token} {st : Stmt} :
    Block s st → (∀ t ∈ s, t ∈ ts) → PlacedStmt ts st
  | .braces _ hb _, h => .stmts trivial rfl (hb.placed fun t ht => h t (by simp [ht]))

theorem Items.placed {s : List Token} {body : List Stmt} :
    Items s body → (∀ t ∈ s, t ∈ ts) → ∀ st ∈ body, PlacedStmt ts st
  | .nil, _ => List.forall_mem_nil _
  | .comment _ hb, h => hb.placed fun t ht => h t (by simp [ht])
  | .stmt hs hb, h => List.forall_mem_cons.mpr
      ⟨hs.placed fun t ht => h t (by simp [ht]), hb.placed fun t ht => h t (by simp [ht])⟩

theorem Branch.placed {s : List Token} {st : Stmt} :
    Branch s st → (∀ t ∈ s, t ∈ ts) → PlacedStmt ts st
  | .plain _ ht hy, h => placedStmt_branch (ht.placed fun t hm => h t (by simp [hm]))
      (hy.placed fun t hm => h t (by simp [hm])) (.leaf trivial rfl)
  | .block _ ht hy _ hn, h => placedStmt_branch (ht.placed fun t hm => h t (by simp [hm]))
      (hy.placed fun t hm => h t (by simp [hm])) (hn.placed fun t hm => h t (by simp [hm]))
  | .chain _ ht hy _ hn, h => placedStmt_branch (ht.placed fun t hm => h t (by simp [hm]))
      (hy.placed fun t hm => h t (by simp [hm])) (hn.placed fun t hm => h t (by simp [hm]))

theorem Statement.placed {s : List Token} {st : Stmt} :
    Statement s st → (∀ t ∈ s, t ∈ ts) → PlacedStmt ts st
  | .empty _, _ => .leaf trivial rfl
  | .declareNil _ _ _, _ | .giveNil _ _, _ => .one trivial rfl (.leaf trivial rfl)
  | .declare _ _ _ he _, h | .give _ he _, h | .eval he _, h =>
    .one trivial rfl (he.placed fun t ht => h t (by simp [ht]))
  | .assign hx _ he _, h =>
    .one ⟨_, h _ (by simp), rfl, hx, rfl⟩ rfl (he.placed fun t ht => h t (by simp [ht]))
  | .block hb, h => hb.placed h
  | .branch hb, h => hb.placed h
  | .loop _ ht hb, h => .two trivial rfl (ht.placed fun t hm => h t (by simp [hm]))
      (hb.placed fun t hm => h t (by simp [hm]))
  | .define _ hx _ hb, h =>
    .one ⟨_, h _ (by simp), hx, rfl⟩ rfl (hb.placed fun t ht => h t (by simp [ht]))
  | .printNone hk _ ht _ _, h =>
    .leaf ⟨⟨_, h _ (by simp), rfl, hk⟩, _, h _ (by simp), ht, rfl⟩ rfl
  | .print hk _ ht _ ha _ _, h => .exprs ⟨⟨_, h _ (by simp), rfl, hk⟩, _, h _ (by simp), ht, rfl⟩
      rfl (ha.placed fun t ht => h t (by simp [ht]))

end

end Grammar

/-- Everything within an accepted source is placed on its tokens. -/
theorem Source.placed_of_program {source : List UInt8} {body : List Stmt}
    (h : Source.program source = .ok body) :
    ∀ st ∈ body, Code.All (Code.Placed (scan source).tokens) (.stmt st) :=
  (Source.items_of_program h).placed fun _ ht => ht

end Treewalk
