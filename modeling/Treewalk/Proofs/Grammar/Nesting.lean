import Treewalk.Proofs.Grammar.Basic

/-!
# Brackets match

Every rule of the grammar that opens a bracket closes it again, with a bracket of the same sort and
with whole phrases in between. So the tokens of a phrase are nested: an opening bracket and its
closing one enclose tokens that are nested themselves, and what stands outside of brackets is none
and is not the end either.

The rules are walked through once, in `Items.nested` and the theorems that it rests on. What else is
to be known about the tokens of phrases is proved by induction on `Nested`.

## Main definitions

* `Kind.isFlat`, the kinds that neither open nor close
* `Nested`, tokens whose brackets match

## Main results

* `Items.nested`: statements and comments are nested
* `Nested.kind_ne_eof`: no end stands among nested tokens

## Implementation notes

`Nested` has two constructors for brackets and not one with a relation between kinds. So a proof by
induction has the two sorts as two cases, each with a fixed depth, and never an opening bracket
whose closing one is of unknown sort.

The constructors put tokens in front. Nesting is then read from the left, as the depth of brackets
is counted by the prompt, and `append` is a theorem.
-/

namespace Treewalk

/-- Neither a bracket nor the end. -/
def Kind.isFlat (kind : Kind) : Bool :=
  !List.contains [.lparen, .rparen, .lbrace, .rbrace, .eof] kind

namespace Grammar

/-- Tokens whose brackets match, sort by sort. There is no rule that puts two sequences side by
side; instead each rule ends in one, so that a sequence is nested in one way. -/
inductive Nested : List Token → Prop where
  | nil : Nested []
  | flat {t : Token} {s : List Token} (ht : t.kind.isFlat = true) (hs : Nested s) : Nested (t :: s)
  | parens {l r : Token} {s s' : List Token} (hl : l.kind = .lparen) (hs : Nested s)
      (hr : r.kind = .rparen) (hs' : Nested s') : Nested (l :: (s ++ r :: s'))
  | braces {l r : Token} {s s' : List Token} (hl : l.kind = .lbrace) (hs : Nested s)
      (hr : r.kind = .rbrace) (hs' : Nested s') : Nested (l :: (s ++ r :: s'))

namespace Nested

variable {s s' : List Token}

theorem append (hs : Nested s) (hs' : Nested s') : Nested (s ++ s') := by
  induction hs with
  | nil => exact hs'
  | flat ht _ ih => exact .flat ht ih
  | parens hl hs hr _ _ ih =>
    rw [List.cons_append, List.append_assoc]
    exact .parens hl hs hr ih
  | braces hl hs hr _ _ ih =>
    rw [List.cons_append, List.append_assoc]
    exact .braces hl hs hr ih

/-- A token of a flat kind in front. -/
theorem cons {t : Token} {kind : Kind} (ht : t.kind = kind) (hs : Nested s)
    (hkind : kind.isFlat = true := by rfl) : Nested (t :: s) :=
  .flat (ht ▸ hkind) hs

/-- No end stands among nested tokens. The end is neither a bracket nor one of the tokens that may
stand between brackets. -/
theorem kind_ne_eof (h : Nested s) : ∀ t ∈ s, t.kind ≠ .eof := by
  induction h with
  | nil => simp
  | flat ht _ ih =>
    refine List.forall_mem_cons.mpr ⟨?_, ih⟩
    intro heof
    rw [heof] at ht
    cases ht
  | parens hl _ hr _ ih ih' =>
    simp only [List.forall_mem_cons, List.forall_mem_append]
    exact ⟨by simp [hl], ih, by simp [hr], ih'⟩
  | braces hl _ hr _ ih ih' =>
    simp only [List.forall_mem_cons, List.forall_mem_append]
    exact ⟨by simp [hl], ih, by simp [hr], ih'⟩

end Nested

/-! ## Phrases -/

theorem Names.nested {s : List Token} {names : List String} (h : Names s names) : Nested s := by
  induction h with
  | one hx => exact .cons hx .nil
  | more hx hc _ ih => exact .cons hx (.cons hc ih)

theorem Params.nested {s : List Token} {names : List String} (h : Params s names) : Nested s := by
  cases h with
  | none hl hr => exact .parens hl .nil hr .nil
  | some hl hs _ hr => exact .parens hl hs.nested hr .nil

theorem isFlat_of_precedence : ∀ ops ∈ precedence, ∀ k ∈ ops, k.isFlat = true := by decide

mutual

theorem Expression.nested {s : List Token} {e : Expr} : Expression s e → Nested s
  | .arrow hf hp ha he => .cons hf (hp.nested.append (.cons ha he.nested))
  | .lambda hf hp hb => .cons hf (hp.nested.append hb.nested)
  | .level h => h.nested isFlat_of_precedence

theorem Level.nested {ls : List (List Kind)} {s : List Token} {e : Expr} :
    Level ls s e → (∀ ops ∈ ls, ∀ k ∈ ops, k.isFlat = true) → Nested s
  | .unary h, _ => h.nested
  | .single h, hls => h.nested fun ops hops => hls ops (List.mem_cons_of_mem _ hops)
  | .join hl ho hr, hls =>
    (hl.nested hls).append (.flat (hls _ List.mem_cons_self _ ho)
      (hr.nested fun ops hops => hls ops (List.mem_cons_of_mem _ hops)))

theorem Unary.nested {s : List Token} {e : Expr} : Unary s e → Nested s
  | .signed ho h => .flat (by rcases ho with ho | ho <;> rw [ho] <;> rfl) h.nested
  | .var hx => .cons hx .nil
  | .callNone hx hl hr => .cons hx (.parens hl .nil hr .nil)
  | .call hx hl ha hr => .cons hx (.parens hl ha.nested hr .nil)
  | .group hl he hr => .parens hl he.nested hr .nil
  | .int ht _ | .float ht _ | .char ht _ | .string ht | .true ht | .false ht | .nil ht =>
    .cons ht .nil

theorem Arguments.nested {s : List Token} {args : List Expr} : Arguments s args → Nested s
  | .one he => he.nested
  | .more he hc ha => he.nested.append (.cons hc ha.nested)

theorem Block.nested {s : List Token} {st : Stmt} : Block s st → Nested s
  | .braces hl hb hr => .braces hl hb.nested hr .nil

/-- Statements and comments are nested. -/
theorem Items.nested {s : List Token} {body : List Stmt} : Items s body → Nested s
  | .nil => .nil
  | .comment hc hb => .cons hc hb.nested
  | .stmt hs hb => hs.nested.append hb.nested

theorem Branch.nested {s : List Token} {st : Stmt} : Branch s st → Nested s
  | .plain hi ht hy => .cons hi (ht.nested.append hy.nested)
  | .block hi ht hy hk hn =>
    .cons hi (ht.nested.append (hy.nested.append (.cons hk hn.nested)))
  | .chain hi ht hy hk hn =>
    .cons hi (ht.nested.append (hy.nested.append (.cons hk hn.nested)))

theorem Statement.nested {s : List Token} {st : Stmt} : Statement s st → Nested s
  | .empty hq => .cons hq .nil
  | .declareNil hl hx hq => .cons hl (.cons hx (.cons hq .nil))
  | .declare hl hx ha he hq => .cons hl (.cons hx (.cons ha (he.nested.append (.cons hq .nil))))
  | .assign hx ha he hq => .cons hx (.cons ha (he.nested.append (.cons hq .nil)))
  | .block h => h.nested
  | .branch h => h.nested
  | .loop hk ht hb => .cons hk (ht.nested.append hb.nested)
  | .define hf hx hp hb => .cons hf (.cons hx (hp.nested.append hb.nested))
  | .giveNil hk hq => .cons hk (.cons hq .nil)
  | .give hk he hq => .cons hk (he.nested.append (.cons hq .nil))
  | .printNone hk hl ht hr hq => .cons hk (.parens hl (.cons ht .nil) hr (.cons hq .nil))
  | .print hk hl ht hc ha hr hq => by
    have hargs := Nested.parens hl (.cons ht (.cons hc ha.nested)) hr (.cons hq .nil)
    exact .cons hk hargs
  | .eval he hq => he.nested.append (.cons hq .nil)

end

end Grammar

end Treewalk
