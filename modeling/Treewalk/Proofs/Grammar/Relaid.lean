import Treewalk.Proofs.Grammar.Basic
import Treewalk.Proofs.Syntax.Recast

/-!
# Tokens laid out differently

Tokens can be put to other places, and comments can be changed or taken out, without any rule of the
grammar noticing: what was derived is derived again, with the marks of the new places. A `Relaying`
says how places and marks go together and what becomes of comments. Forgetting places is one, and
moving a source further down is another.

## Main definitions

* `Relaying`, `Relaying.tokens`

## Main results

* `Grammar.Items.relaid`: laying tokens out differently commutes with deriving
* `Grammar.Items.append`: items behind items are items

## Implementation notes

Comments are the difficulty. They are tokens, and they may stand between any two statements but
nowhere else, so a sequence with its comments taken out is not related to the original by a map on
tokens. `Relaying` therefore acts on sequences and says what becomes of a comment, which may be
nothing; every other token is moved and kept.

Only derivations are considered, in one direction. For the converse one would have to put comments
back, and uniqueness of derivations makes it unnecessary.
-/

namespace Treewalk

open Parse

/-- A way to lay tokens out differently: where to put them, what becomes of the marks that come from
them, and what becomes of comments. Comments may be changed or dropped because the grammar passes
over them; marks are changed along with places, so that what is derived is the same but for its
marks. -/
structure Relaying where
  comment : Token → Option Token
  pos : Pos → Pos
  mark : Mark → Mark
  comment_kind {t u : Token} (ht : t.kind = .comment) (h : comment t = some u) : u.kind = .comment
  mark_pos (p : Pos) : mark (.pos p) = .pos (pos p)
  mark_absent : mark .absent = .absent

namespace Relaying

variable (R : Relaying)

/-- A token at its new place. -/
def token (t : Token) : Token :=
  { t with pos := R.pos t.pos }

/-- What becomes of a token. -/
def token? (t : Token) : Option Token :=
  if t.kind = .comment then R.comment t else some (R.token t)

/-- What becomes of tokens. -/
def tokens (ts : List Token) : List Token :=
  ts.filterMap R.token?

theorem token?_of_ne {t : Token} (h : t.kind ≠ .comment) : R.token? t = some (R.token t) :=
  if_neg h

theorem tokens_append (s s' : List Token) : R.tokens (s ++ s') = R.tokens s ++ R.tokens s' :=
  List.filterMap_append

theorem tokens_cons {t : Token} {k : Kind} (s : List Token) (h : t.kind = k)
    (hk : k ≠ .comment := by decide) : R.tokens (t :: s) = R.token t :: R.tokens s :=
  List.filterMap_cons_some (R.token?_of_ne (h ▸ hk))

theorem tokens_comment {c : Token} (hc : c.kind = .comment) (s : List Token) :
    R.tokens (c :: s) = R.tokens s ∨
      ∃ d : Token, d.kind = .comment ∧ R.tokens (c :: s) = d :: R.tokens s := by
  have htoken : R.token? c = R.comment c := if_pos hc
  rw [tokens, List.filterMap_cons, htoken]
  cases h : R.comment c with
  | none => exact .inl rfl
  | some d => exact .inr ⟨d, R.comment_kind hc h, rfl⟩

theorem mark_markOf (t : Token) : R.mark (markOf t) = markOf (R.token t) :=
  R.mark_pos t.pos

end Relaying

/-! ## Derivations -/

namespace Grammar

theorem Items.append {s s' : List Token} {body body' : List Stmt} : Items s body →
    Items s' body' → Items (s ++ s') (body ++ body')
  | .nil, h' => h'
  | .comment hc hb, h' => .comment hc (hb.append h')
  | .stmt hs hb, h' => by
    rw [List.append_assoc]
    exact .stmt hs (hb.append h')

variable (R : Relaying)

theorem Names.relaid {s : List Token} {names : List String} : Names s names →
    Names (R.tokens s) names
  | .one hx => by
    rw [R.tokens_cons [] hx]
    exact .one hx
  | .more hx hc hs => by
    rw [R.tokens_cons _ hx, R.tokens_cons _ hc]
    exact .more hx hc hs.relaid

theorem Params.relaid {s : List Token} {names : List String} (h : Params s names) :
    Params (R.tokens s) names := by
  cases h with
  | none hl hr =>
    rw [R.tokens_cons _ hl, R.tokens_cons _ hr]
    exact .none hl hr
  | some hl hs hd hr =>
    rw [R.tokens_cons _ hl, R.tokens_append, R.tokens_cons _ hr]
    exact .some hl (hs.relaid R) hd hr

theorem comment_notMem_precedence : ∀ ops ∈ precedence, ∀ k ∈ ops, k ≠ .comment := by decide

mutual

theorem Expression.relaid {s : List Token} {e : Expr} : Expression s e →
    Expression (R.tokens s) (e.remark R.mark)
  | .arrow hf hp ha he => by
    rw [R.tokens_cons _ hf, R.tokens_append, R.tokens_cons _ ha]
    simp only [Expr.recast, Stmt.recast, Stmt.recastAll_eq_map, List.map_cons, List.map_nil,
      R.mark_markOf]
    exact .arrow hf (hp.relaid R) ha he.relaid
  | .lambda hf hp hb => by
    rw [R.tokens_cons _ hf, R.tokens_append]
    simp only [Expr.recast, R.mark_markOf]
    exact .lambda hf (hp.relaid R) hb.relaid
  | .level h => .level (h.relaid comment_notMem_precedence)

theorem Level.relaid {ls : List (List Kind)} {s : List Token} {e : Expr} : Level ls s e →
    (∀ ops ∈ ls, ∀ k ∈ ops, k ≠ .comment) → Level ls (R.tokens s) (e.remark R.mark)
  | .unary h, _ => .unary h.relaid
  | .single h, hls => .single (h.relaid fun ops hops => hls ops (List.mem_cons_of_mem _ hops))
  | .join hl ho hr, hls => by
    rw [R.tokens_append, R.tokens_cons _ rfl (hls _ List.mem_cons_self _ ho)]
    simp only [Expr.recast, R.mark_markOf]
    exact .join (hl.relaid hls) ho (hr.relaid fun ops hops => hls ops (List.mem_cons_of_mem _ hops))

theorem Unary.relaid {s : List Token} {e : Expr} : Unary s e → Unary (R.tokens s) (e.remark R.mark)
  | .signed ho h => by
    rw [R.tokens_cons _ rfl (by rcases ho with ho | ho <;> simp [ho])]
    simp only [Expr.recast, R.mark_markOf]
    exact .signed ho h.relaid
  | .var hx => by
    rw [R.tokens_cons _ hx]
    simp only [Expr.recast, R.mark_markOf]
    exact .var hx
  | .callNone hx hl hr => by
    rw [R.tokens_cons _ hx, R.tokens_cons _ hl, R.tokens_cons _ hr]
    simp only [Expr.recast, Expr.recastAll_eq_map, R.mark_markOf]
    exact .callNone hx hl hr
  | .call hx hl ha hr => by
    rw [R.tokens_cons _ hx, R.tokens_cons _ hl, R.tokens_append, R.tokens_cons _ hr]
    simp only [Expr.recast, Expr.recastAll_eq_map, R.mark_markOf]
    exact .call hx hl ha.relaid hr
  | .int ht hv => by
    rw [R.tokens_cons _ ht]
    simp only [Expr.recast, R.mark_markOf]
    exact .int ht hv
  | .float ht hv => by
    rw [R.tokens_cons _ ht]
    simp only [Expr.recast, R.mark_markOf]
    exact .float ht hv
  | .char ht hv => by
    rw [R.tokens_cons _ ht]
    simp only [Expr.recast, R.mark_markOf]
    exact .char ht hv
  | .string ht => by
    rw [R.tokens_cons _ ht]
    simp only [Expr.recast, R.mark_markOf]
    exact .string ht
  | .true ht => by
    rw [R.tokens_cons _ ht]
    simp only [Expr.recast, R.mark_markOf]
    exact .true ht
  | .false ht => by
    rw [R.tokens_cons _ ht]
    simp only [Expr.recast, R.mark_markOf]
    exact .false ht
  | .nil ht => by
    rw [R.tokens_cons _ ht]
    simp only [Expr.recast, R.mark_markOf]
    exact .nil ht
  | .group hl he hr => by
    rw [R.tokens_cons _ hl, R.tokens_append, R.tokens_cons _ hr]
    simp only [Expr.recast, R.mark_markOf]
    exact .group hl he.relaid hr

theorem Arguments.relaid {s : List Token} {args : List Expr} : Arguments s args →
    Arguments (R.tokens s) (args.map (Expr.remark R.mark))
  | .one he => .one he.relaid
  | .more he hc ha => by
    rw [R.tokens_append, R.tokens_cons _ hc]
    exact .more he.relaid hc ha.relaid

theorem Block.relaid {s : List Token} {st : Stmt} : Block s st →
    Block (R.tokens s) (st.remark R.mark)
  | .braces hl hb hr => by
    rw [R.tokens_cons _ hl, R.tokens_append, R.tokens_cons _ hr]
    simp only [Stmt.recast, Stmt.recastAll_eq_map, R.mark_markOf]
    exact .braces hl hb.relaid hr

theorem Items.relaid {s : List Token} {body : List Stmt} : Items s body →
    Items (R.tokens s) (body.map (Stmt.remark R.mark))
  | .nil => .nil
  | .comment hc hb => by
    obtain hdrop | ⟨d, hd, hkeep⟩ := R.tokens_comment hc _
    · rw [hdrop]
      exact hb.relaid
    · rw [hkeep]
      exact .comment hd hb.relaid
  | .stmt hs hb => by
    rw [R.tokens_append]
    exact .stmt hs.relaid hb.relaid

theorem Branch.relaid {s : List Token} {st : Stmt} : Branch s st →
    Branch (R.tokens s) (st.remark R.mark)
  | .plain hi ht hy => by
    rw [R.tokens_cons _ hi, R.tokens_append]
    simp only [Stmt.recast, R.mark_markOf, R.mark_absent]
    exact .plain hi ht.relaid hy.relaid
  | .block hi ht hy hk hn => by
    rw [R.tokens_cons _ hi, R.tokens_append, R.tokens_append, R.tokens_cons _ hk]
    simp only [Stmt.recast, R.mark_markOf]
    exact .block hi ht.relaid hy.relaid hk hn.relaid
  | .chain hi ht hy hk hn => by
    rw [R.tokens_cons _ hi, R.tokens_append, R.tokens_append, R.tokens_cons _ hk]
    simp only [Stmt.recast, R.mark_markOf]
    exact .chain hi ht.relaid hy.relaid hk hn.relaid

theorem Statement.relaid {s : List Token} {st : Stmt} : Statement s st →
    Statement (R.tokens s) (st.remark R.mark)
  | .empty hq => by
    rw [R.tokens_cons _ hq]
    simp only [Stmt.recast, R.mark_markOf]
    exact .empty hq
  | .declareNil hl hx hq => by
    rw [R.tokens_cons _ hl, R.tokens_cons _ hx, R.tokens_cons _ hq]
    simp only [Stmt.recast, Expr.recast, R.mark_markOf]
    exact .declareNil hl hx hq
  | .declare hl hx ha he hq => by
    rw [R.tokens_cons _ hl, R.tokens_cons _ hx, R.tokens_cons _ ha, R.tokens_append,
      R.tokens_cons _ hq]
    simp only [Stmt.recast, R.mark_markOf]
    exact .declare hl hx ha he.relaid hq
  | .assign hx ha he hq => by
    rw [R.tokens_cons _ hx, R.tokens_cons _ ha, R.tokens_append, R.tokens_cons _ hq]
    simp only [Stmt.recast, R.mark_markOf]
    exact .assign hx ha he.relaid hq
  | .block h => .block h.relaid
  | .branch h => .branch h.relaid
  | .loop hk ht hb => by
    rw [R.tokens_cons _ hk, R.tokens_append]
    simp only [Stmt.recast, R.mark_markOf]
    exact .loop hk ht.relaid hb.relaid
  | .define hf hx hp hb => by
    rw [R.tokens_cons _ hf, R.tokens_cons _ hx, R.tokens_append]
    simp only [Stmt.recast, R.mark_markOf]
    exact .define hf hx (hp.relaid R) hb.relaid
  | .giveNil hk hq => by
    rw [R.tokens_cons _ hk, R.tokens_cons _ hq]
    simp only [Stmt.recast, Expr.recast, R.mark_markOf]
    exact .giveNil hk hq
  | .give hk he hq => by
    rw [R.tokens_cons _ hk, R.tokens_append, R.tokens_cons _ hq]
    simp only [Stmt.recast, R.mark_markOf]
    exact .give hk he.relaid hq
  | .printNone hk hl ht hr hq => by
    rw [R.tokens_cons _ hk, R.tokens_cons _ hl, R.tokens_cons _ ht, R.tokens_cons _ hr,
      R.tokens_cons _ hq]
    simp only [Stmt.recast, Expr.recastAll_eq_map, R.mark_markOf]
    exact .printNone hk hl ht hr hq
  | .print hk hl ht hc ha hr hq => by
    rw [R.tokens_cons _ hk, R.tokens_cons _ hl, R.tokens_cons _ ht, R.tokens_cons _ hc,
      R.tokens_append, R.tokens_cons _ hr, R.tokens_cons _ hq]
    simp only [Stmt.recast, Expr.recastAll_eq_map, R.mark_markOf]
    exact .print hk hl ht hc ha.relaid hr hq
  | @Statement.eval q _ _ he hq => by
    rw [R.tokens_append, R.tokens_cons _ hq]
    have heval := Statement.eval he.relaid (q := R.token q) hq
    rwa [Expr.mark_recast] at heval

end

end Grammar

end Treewalk
