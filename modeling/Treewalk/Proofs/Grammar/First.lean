import Treewalk.Proofs.Grammar.Reading

/-!
# How phrases start

A reader chooses a rule by the first token, and in two places by the second. Here is what these
tokens can be. The lists are those of the grammar, and no token stands on two of them that a reader
has to tell apart.

## Main results

* `Expression.kindAt_mem`, `Statement.kindAt_mem`: the kinds that start a phrase
* `Expression.kindAt_tail_ne_assign`: an expression that starts with a name is no assignment

## Implementation notes

The lists are found by reading the rules, and the theorems confirm them by induction on derivations.
Only one direction is proved, that a phrase starts with a kind of the list; that each kind of the
list starts a phrase is used by nobody.

Comparing two lists is a matter of evaluation. A reader that decides by the first token is right if
the two lists are disjoint, and `decide` settles that, so a new kind of token would be noticed here.
-/

namespace Treewalk.Grammar

variable {s : List Token} {e : Expr} {st : Stmt}

/-- What starts an operand. -/
def unaryStarts : List Kind :=
  [.minus, .notKw, .ident, .int, .float, .char, .string, .trueKw, .falseKw, .nilKw, .lparen]

/-- What starts an expression. -/
def exprStarts : List Kind :=
  .fnKw :: unaryStarts

/-- What starts a statement. -/
def stmtStarts : List Kind :=
  [.semicolon, .letKw, .lbrace, .ifKw, .whileKw, .returnKw, .printKw] ++ exprStarts

theorem ne_nil_of_kindAt_mem {ks : List Kind} (h : kindAt s ∈ ks) (hk : .eof ∉ ks) : s ≠ [] := by
  rintro rfl
  exact hk h

theorem Unary.kindAt_mem (h : Unary s e) : kindAt s ∈ unaryStarts := by
  cases h with
  | signed ho _ => rcases ho with ho | ho <;> simp [ho, unaryStarts]
  | var hx | callNone hx _ _ | call hx _ _ _ => simp [hx, unaryStarts]
  | int ht _ | float ht _ | char ht _ | string ht | true ht | false ht | nil ht =>
    simp [ht, unaryStarts]
  | group hl _ _ => simp [hl, unaryStarts]

theorem Level.kindAt_mem {ls : List (List Kind)} {s : List Token} {e : Expr} :
    Level ls s e → kindAt s ∈ unaryStarts
  | .unary h => h.kindAt_mem
  | .single h => h.kindAt_mem
  | .join hl _ _ => by
    have hs := hl.kindAt_mem
    rwa [kindAt_append_of_ne_nil (ne_nil_of_kindAt_mem hs (by decide))]

theorem Expression.kindAt_mem (h : Expression s e) : kindAt s ∈ exprStarts := by
  cases h with
  | arrow hf _ _ _ => simp [hf, exprStarts]
  | lambda hf _ _ => simp [hf, exprStarts]
  | level h => exact List.mem_cons_of_mem _ h.kindAt_mem

theorem Expression.ne_nil (h : Expression s e) : s ≠ [] :=
  ne_nil_of_kindAt_mem h.kindAt_mem (by decide)

theorem Arguments.kindAt_mem {args : List Expr} (h : Arguments s args) :
    kindAt s ∈ exprStarts := by
  cases h with
  | one he => exact he.kindAt_mem
  | more he _ _ =>
    rw [kindAt_append_of_ne_nil he.ne_nil]
    exact he.kindAt_mem

theorem Arguments.ne_nil {args : List Expr} (h : Arguments s args) : s ≠ [] :=
  ne_nil_of_kindAt_mem h.kindAt_mem (by decide)

theorem Block.kindAt_eq (h : Block s st) : kindAt s = .lbrace := by
  cases h with
  | braces hl _ _ => simpa using hl

theorem Branch.kindAt_eq (h : Branch s st) : kindAt s = .ifKw := by
  cases h with
  | plain hi _ _ | block hi _ _ _ _ | chain hi _ _ _ _ => simpa using hi

theorem Statement.kindAt_mem (h : Statement s st) : kindAt s ∈ stmtStarts := by
  cases h with
  | empty hq => simp [hq, stmtStarts]
  | declareNil hl _ _ | declare hl _ _ _ _ => simp [hl, stmtStarts]
  | assign hx _ _ _ => simp [hx, stmtStarts, exprStarts, unaryStarts]
  | block h => simp [h.kindAt_eq, stmtStarts]
  | branch h => simp [h.kindAt_eq, stmtStarts]
  | loop hk _ _ | giveNil hk _ | give hk _ _ | printNone hk _ _ _ _ | print hk _ _ _ _ _ _ =>
    simp [hk, stmtStarts]
  | define hf _ _ _ => simp [hf, stmtStarts, exprStarts]
  | eval he _ =>
    rw [kindAt_append_of_ne_nil he.ne_nil]
    exact List.mem_append_right _ he.kindAt_mem

theorem Statement.ne_nil (h : Statement s st) : s ≠ [] :=
  ne_nil_of_kindAt_mem h.kindAt_mem (by decide)

theorem Items.kindAt_mem {body : List Stmt} (h : Items s body) :
    s = [] ∨ kindAt s ∈ .comment :: stmtStarts := by
  cases h with
  | nil => exact .inl rfl
  | comment hc _ => exact .inr (by simp [hc])
  | stmt hs _ =>
    refine .inr (List.mem_cons_of_mem _ ?_)
    rw [kindAt_append_of_ne_nil hs.ne_nil]
    exact hs.kindAt_mem

/-! ## Second tokens -/

theorem Unary.kindAt_tail_ne_assign (h : Unary s e) (hx : kindAt s = .ident) :
    kindAt s.tail ≠ .assign := by
  cases h with
  | signed ho _ => rcases ho with ho | ho <;> simp [ho] at hx
  | callNone _ hl _ | call _ hl _ _ => simp [hl]
  | group hl _ _ => simp [hl] at hx
  | _ => simp

theorem Level.kindAt_tail_ne_assign {ls : List (List Kind)} {s : List Token} {e : Expr}
    (ho : ∀ ops ∈ ls, .assign ∉ ops) :
    Level ls s e → kindAt s = .ident → kindAt s.tail ≠ .assign
  | .unary h, hx => h.kindAt_tail_ne_assign hx
  | .single h, hx =>
    h.kindAt_tail_ne_assign (fun ops hops => ho ops (List.mem_cons_of_mem _ hops)) hx
  | .join hl hop _, hx => by
    have hne := ne_nil_of_kindAt_mem hl.kindAt_mem (by decide)
    obtain ⟨t, s, rfl⟩ := List.exists_cons_of_ne_nil hne
    have ih := hl.kindAt_tail_ne_assign ho hx
    cases s with
    | nil => exact fun h => ho _ List.mem_cons_self (h ▸ hop)
    | cons u s => exact ih

/-- An expression that starts with a name is not continued as an assignment is. So a name and an
equals sign can be told from an expression by their second token, and the parser that steps back
makes no mistake. -/
theorem Expression.kindAt_tail_ne_assign (h : Expression s e) (hx : kindAt s = .ident) :
    kindAt s.tail ≠ .assign := by
  cases h with
  | arrow hf _ _ _ | lambda hf _ _ => simp [hf] at hx
  | level h => exact h.kindAt_tail_ne_assign (by decide) hx

theorem Params.kindAt_eq {names : List String} (h : Params s names) : kindAt s = .lparen := by
  cases h with
  | none hl _ | some hl _ _ _ => simpa using hl

/-- What follows the `fn` of a lambda is no name. -/
theorem Expression.kindAt_tail_of_fn (h : Expression s e) (hf : kindAt s = .fnKw) :
    kindAt s.tail = .lparen := by
  cases h with
  | arrow _ hp _ _ | lambda _ hp _ =>
    have hne := ne_nil_of_kindAt_mem (List.mem_singleton.mpr hp.kindAt_eq) (by decide)
    rw [List.tail_cons, kindAt_append_of_ne_nil hne, hp.kindAt_eq]
  | level h =>
    have := h.kindAt_mem
    rw [hf] at this
    exact absurd this (by decide)

end Treewalk.Grammar
