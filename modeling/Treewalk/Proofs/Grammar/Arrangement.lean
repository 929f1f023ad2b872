import Treewalk.Proofs.Grammar.FirstError
import Treewalk.Proofs.Grammar.Ranked

/-!
# One arrangement for each reading

An expression is an arrangement of leaves, groups and operators. Read from left to right it loses
its nesting, all but the brackets, and the ranks of the operators are what brings the nesting back:
no other ranked arrangement has the same reading.

## Why the reading is unique

An arrangement is a chain: an operand, and then operators with an operand each, where an operand is
a leaf, a group or a sign in front of an operand. What the chain is can be read off from the left,
because behind an operand there is either an operator of the chain or the end, and what an operand
is can be told from how it starts. How the chain is nested follows from the ranks: the outermost
operator is the last one of the lowest rank.

## Main definitions

* `Arrangement`, `Arrangement.expr`, its tree, and `Arrangement.reading`, its pieces in order
* `Arrangement.Parsed`, each leaf is what the parser makes of its tokens
* `Arrangement.chain`, operands and operators without their nesting

## Main results

* `Arrangement.eq_of_reading`: a reading is that of one ranked arrangement at most
* `Parse.expr_arranged`: what the parser gives is the only ranked arrangement of what it took

## Implementation notes

An arrangement keeps with each leaf the tokens that it stands for. Trees would not do: the tree of a
call has lost its brackets and commas, so what was read could not be compared with what was taken. A
lambda is a leaf as well. It reaches as far to the right as it can, and its own parts are arranged
inside it.

That a leaf is parsed is said with the least bound on nesting that its tokens need, and for every
larger one. The bound is linear in the number of tokens because three calls in a row always take
one.

`Clear` is the statement that is proved by induction, with arbitrary pieces behind both readings.
Without them the step for a chain would fail: behind the first operand of one reading there stands
more of the same expression.
-/

namespace Treewalk

open Grammar Code

/-- A literal, a variable, a call or a lambda. -/
def Expr.isLeaf : Expr → Bool
  | .int _ _ | .float _ _ | .char _ _ | .string _ _ | .bool _ _ | .nil _ | .var _ _ | .call _ _ _
  | .lambda _ _ _ => true
  | _ => false

theorem Expr.joint?_of_isLeaf {e : Expr} (h : e.isLeaf = true) : e.joint? = none := by
  cases e <;> first | rfl | cases h

/-- An arrangement of leaves, groups and operators. A leaf comes with the tokens that it stands
for. -/
inductive Arrangement where
  | leaf (tokens : List Token) (e : Expr) (he : e.isLeaf = true)
  | group (l : Token) (inner : Arrangement) (r : Token)
  | unary (op : Token) (operand : Arrangement)
  | binary (lhs : Arrangement) (op : Token) (rhs : Arrangement)

/-- A piece of a reading. -/
inductive Piece where
  | leaf (tokens : List Token) (e : Expr)
  | left (t : Token)
  | right (t : Token)
  | op (t : Token)

/-- The tokens of a piece. -/
def Piece.tokens : Piece → List Token
  | .leaf tokens _ => tokens
  | .left t | .right t | .op t => [t]

namespace Arrangement

/-- The tree of an arrangement. -/
def expr : Arrangement → Expr
  | .leaf _ e _ => e
  | .group l inner _ => .group (Parse.markOf l) inner.expr
  | .unary op operand => .unary (Parse.markOf op) ⟨op.kind, op.text⟩ operand.expr
  | .binary lhs op rhs => .binary (Parse.markOf op) lhs.expr ⟨op.kind, op.text⟩ rhs.expr

/-- The pieces of an arrangement from left to right. -/
def reading : Arrangement → List Piece
  | .leaf tokens e _ => [.leaf tokens e]
  | .group l inner r => .left l :: (inner.reading ++ [.right r])
  | .unary op operand => .op op :: operand.reading
  | .binary lhs op rhs => lhs.reading ++ .op op :: rhs.reading

/-- The tokens of an arrangement from left to right. -/
def tokens (a : Arrangement) : List Token :=
  a.reading.flatMap Piece.tokens

/-- A leaf is what the parser makes of its tokens and takes them all, and a group stands between
brackets. -/
def Parsed : Arrangement → Prop
  | .leaf tokens e _ => ∀ n, 3 * tokens.length + 2 ≤ n → Parse.Takes (Parse.expr n) tokens e []
  | .group l inner r => l.kind = .lparen ∧ r.kind = .rparen ∧ inner.Parsed
  | .unary _ operand => operand.Parsed
  | .binary lhs _ rhs => lhs.Parsed ∧ rhs.Parsed

variable {a b : Arrangement}

/-! ## Chains -/

/-- The first operand, and the operators with the operands behind them. -/
def chain : Arrangement → Arrangement × List (Token × Arrangement)
  | .binary lhs op rhs => (lhs.chain.1, lhs.chain.2 ++ (op, rhs.chain.1) :: rhs.chain.2)
  | a => (a, [])

@[simp] theorem chain_leaf (tokens : List Token) (e : Expr) (he : e.isLeaf = true) :
    (leaf tokens e he).chain = (leaf tokens e he, []) := rfl

@[simp] theorem chain_group (l r : Token) (inner : Arrangement) :
    (group l inner r).chain = (group l inner r, []) := rfl

@[simp] theorem chain_unary (op : Token) (operand : Arrangement) :
    (unary op operand).chain = (unary op operand, []) := rfl

/-- The arrangement is a single operand, ranked throughout. -/
structure Operand (a : Arrangement) : Prop where
  single : a.expr.joint? = none
  ranked : RankedExpr a.expr

theorem chain_of_single (h : a.expr.joint? = none) : a.chain = (a, []) := by
  cases a with
  | binary => cases h
  | _ => rfl

theorem ranked_binary {lhs rhs : Arrangement} {op : Token}
    (h : RankedExpr (binary lhs op rhs).expr) : RankedExpr lhs.expr ∧ RankedExpr rhs.expr :=
  ⟨h.part (List.mem_cons_self), h.part (List.mem_cons_of_mem _ List.mem_cons_self)⟩

/-- Whatever stands in the chain of a ranked arrangement is an operand. -/
theorem operand_chain (h : RankedExpr a.expr) :
    a.chain.1.Operand ∧ ∀ p ∈ a.chain.2, p.2.Operand := by
  induction a with
  | leaf _ _ he => exact ⟨⟨Expr.joint?_of_isLeaf he, h⟩, List.forall_mem_nil _⟩
  | group | unary => exact ⟨⟨rfl, h⟩, List.forall_mem_nil _⟩
  | binary lhs op rhs hl hr =>
    obtain ⟨hlhs, hrhs⟩ := ranked_binary h
    obtain ⟨hl₁, hl₂⟩ := hl hlhs
    exact ⟨hl₁, List.forall_mem_append.mpr ⟨hl₂, List.forall_mem_cons.mpr (hr hrhs)⟩⟩

/-- No operator in the chain is weaker than the outermost one. -/
theorem le_rank_of_mem_chain {m : Nat} (h : RankedExpr a.expr)
    (hm : ∀ o, a.expr.joint? = some o → m ≤ o.kind.rank) : ∀ p ∈ a.chain.2, m ≤ p.1.kind.rank := by
  induction a generalizing m with
  | leaf | group | unary => exact List.forall_mem_nil _
  | binary lhs op rhs hl hr =>
    obtain ⟨hlhs, hrhs⟩ := ranked_binary h
    have hop : m ≤ op.kind.rank := hm _ rfl
    obtain ⟨-, hleft, hright, -⟩ : Ranked (.expr (binary lhs op rhs).expr) := h.here
    refine List.forall_mem_append.mpr ⟨?_, List.forall_mem_cons.mpr ⟨hop, ?_⟩⟩
    · exact hl hlhs fun o ho => hop.trans (hleft o ho)
    · exact hr hrhs fun o ho => hop.trans (hright o ho).le

/-- A list has one last element of the lowest rank. -/
theorem split_unique {α : Type} {f : α → Nat} {x x' : α} {front front' back back' : List α}
    (h : front ++ x :: back = front' ++ x' :: back') (hf : ∀ p ∈ front, f x ≤ f p)
    (hb : ∀ p ∈ back, f x < f p) (hf' : ∀ p ∈ front', f x' ≤ f p) (hb' : ∀ p ∈ back', f x' < f p) :
    front = front' ∧ x = x' ∧ back = back' := by
  rcases List.append_eq_append_iff.mp h with ⟨mid, rfl, hmid⟩ | ⟨mid, rfl, hmid⟩
  · cases mid with
    | nil => simpa using hmid
    | cons p mid =>
      -- The element that the first split is at stands in front of that of the second.
      obtain ⟨rfl, rfl⟩ := List.cons.inj hmid
      have h₁ : f x' ≤ f x := hf' x (by simp)
      have h₂ : f x < f x' := hb x' (by simp)
      omega
  · cases mid with
    | nil => simpa [eq_comm] using hmid
    | cons p mid =>
      obtain ⟨rfl, rfl⟩ := List.cons.inj hmid
      have h₁ : f x ≤ f x' := hf x' (by simp)
      have h₂ : f x' < f x := hb' x (by simp)
      omega

/-- The outermost operator of a ranked arrangement is the last one of the lowest rank in the
chain. -/
theorem ranks_of_binary {lhs rhs : Arrangement} {op : Token}
    (h : RankedExpr (binary lhs op rhs).expr) :
    (∀ p ∈ lhs.chain.2, op.kind.rank ≤ p.1.kind.rank) ∧
      ∀ p ∈ rhs.chain.2, op.kind.rank < p.1.kind.rank := by
  obtain ⟨hlhs, hrhs⟩ := ranked_binary h
  obtain ⟨-, hleft, hright, -⟩ : Ranked (.expr (binary lhs op rhs).expr) := h.here
  exact ⟨le_rank_of_mem_chain hlhs hleft, le_rank_of_mem_chain hrhs hright⟩

theorem eq_of_chain_of_single (ha : a.expr.joint? = none) (h : a.chain = b.chain) : a = b := by
  rw [chain_of_single ha] at h
  cases b with
  | leaf | group | unary => exact (Prod.mk.inj h).1
  | binary => exact absurd (Prod.mk.inj h).2 (by simp)

/-- A chain is nested in one way only. -/
theorem eq_of_chain (ha : RankedExpr a.expr) (hb : RankedExpr b.expr) (h : a.chain = b.chain) :
    a = b := by
  induction a generalizing b with
  | leaf _ _ he => exact eq_of_chain_of_single (Expr.joint?_of_isLeaf he) h
  | group | unary => exact eq_of_chain_of_single rfl h
  | binary lhs op rhs hl hr =>
    cases b with
    | leaf | group | unary => exact absurd (Prod.mk.inj h).2 (by simp)
    | binary lhs' op' rhs' =>
      obtain ⟨hfirst, hrest⟩ := Prod.mk.inj h
      obtain ⟨hleft, hright⟩ := ranks_of_binary ha
      obtain ⟨hleft', hright'⟩ := ranks_of_binary hb
      obtain ⟨hfront, hmid, hback⟩ :=
        split_unique (f := fun p => p.1.kind.rank) hrest hleft hright hleft' hright'
      obtain ⟨rfl, hnext⟩ := Prod.mk.inj hmid
      obtain ⟨hlhs, hrhs⟩ := ranked_binary ha
      obtain ⟨hlhs', hrhs'⟩ := ranked_binary hb
      rw [hl hlhs hlhs' (Prod.ext hfirst hfront), hr hrhs hrhs' (Prod.ext hnext hback)]

/-! ## Readings -/

/-- The reading of operators with the operands behind them. -/
def links (ps : List (Token × Arrangement)) : List Piece :=
  ps.flatMap fun p => .op p.1 :: p.2.reading

@[simp] theorem links_cons (p : Token × Arrangement) (ps : List (Token × Arrangement)) :
    links (p :: ps) = .op p.1 :: (p.2.reading ++ links ps) := rfl

theorem reading_eq_chain (a : Arrangement) : a.reading = a.chain.1.reading ++ links a.chain.2 := by
  induction a with
  | leaf | group | unary => simp [chain, links]
  | binary lhs op rhs hl hr =>
    rw [reading, hl, hr]
    simp [chain, links]

/-- No operator comes next. -/
def Stops (x : List Piece) : Prop :=
  ∀ t, x.head? ≠ some (.op t)

/-- Where the arrangement is read, no other operand can be read. With it an induction can go from
left to right: what the arrangement takes of a reading, every other takes too. -/
def Clear (a : Arrangement) : Prop :=
  ∀ b x y, b.Operand → a.reading ++ x = b.reading ++ y → a = b ∧ x = y

theorem links_unique {ps qs : List (Token × Arrangement)} {x y : List Piece}
    (hp : ∀ p ∈ ps, p.2.Clear) (hq : ∀ q ∈ qs, q.2.Operand) (hx : Stops x) (hy : Stops y)
    (h : links ps ++ x = links qs ++ y) : ps = qs ∧ x = y := by
  induction ps generalizing qs with
  | nil =>
    cases qs with
    | nil => exact ⟨rfl, h⟩
    | cons q qs => exact absurd (congrArg List.head? h) (hx q.1)
  | cons p ps ih =>
    cases qs with
    | nil => exact absurd (congrArg List.head? h).symm (hy p.1)
    | cons q qs =>
      obtain ⟨t, a⟩ := p
      obtain ⟨u, b⟩ := q
      rw [List.forall_mem_cons] at hp hq
      simp only [links_cons, List.cons_append, List.append_assoc, List.cons.injEq,
        Piece.op.injEq] at h
      obtain ⟨rfl, h⟩ := h
      obtain ⟨hab, hlinks⟩ := hp.1 _ _ _ hq.1 h
      obtain ⟨hpq, hxy⟩ := ih hp.2 hq.2 hlinks
      obtain rfl : a = b := hab
      exact ⟨congrArg _ hpq, hxy⟩

/-- A whole arrangement can be read in one way, if its operands can. -/
theorem unique_of_clear (ha : RankedExpr a.expr) (hb : RankedExpr b.expr)
    (hc : a.chain.1.Clear ∧ ∀ p ∈ a.chain.2, p.2.Clear) {x y : List Piece} (hx : Stops x)
    (hy : Stops y) (h : a.reading ++ x = b.reading ++ y) : a = b ∧ x = y := by
  obtain ⟨hfirst, hrest⟩ := operand_chain hb
  rw [reading_eq_chain a, reading_eq_chain b, List.append_assoc, List.append_assoc] at h
  obtain ⟨hchain, h⟩ := hc.1 _ _ _ hfirst h
  obtain ⟨hlinks, hxy⟩ := links_unique hc.2 hrest hx hy h
  exact ⟨eq_of_chain ha hb (Prod.ext hchain hlinks), hxy⟩

/-- The operands of a ranked arrangement can be read in one way: each can be told from how it
starts. -/
theorem clear_chain (h : RankedExpr a.expr) :
    a.chain.1.Clear ∧ ∀ p ∈ a.chain.2, p.2.Clear := by
  induction a with
  | leaf tokens e he =>
    refine ⟨fun b x y hb h => ?_, List.forall_mem_nil _⟩
    cases b with
    | leaf => simpa [reading, and_assoc] using h
    | group | unary => simp [reading] at h
    | binary => cases hb.single
  | group l inner r ih =>
    refine ⟨fun b x y hb h' => ?_, List.forall_mem_nil _⟩
    cases b with
    | leaf | unary => simp [reading] at h'
    | binary => cases hb.single
    | group l' inner' r' =>
      simp only [chain_group, reading, List.cons_append, List.append_assoc, List.cons.injEq,
        Piece.left.injEq, List.nil_append] at h'
      obtain ⟨rfl, h'⟩ := h'
      have hinner : RankedExpr inner.expr := h.part List.mem_cons_self
      have hinner' : RankedExpr inner'.expr := hb.ranked.part List.mem_cons_self
      -- The closing bracket ends both expressions, so neither goes on with an operator.
      have hstops : ∀ (t : Token) (z : List Piece), Stops (.right t :: z) := fun t z u hu => by
        cases hu
      obtain ⟨rfl, hclose⟩ :=
        unique_of_clear hinner hinner' (ih hinner) (hstops _ _) (hstops _ _) h'
      obtain ⟨hr, rfl⟩ := List.cons.inj hclose
      obtain rfl := Piece.right.inj hr
      exact ⟨rfl, rfl⟩
  | unary op operand ih =>
    refine ⟨fun b x y hb h' => ?_, List.forall_mem_nil _⟩
    cases b with
    | leaf | group => simp [reading] at h'
    | binary => cases hb.single
    | unary op' operand' =>
      simp only [chain_unary, reading, List.cons_append, List.cons.injEq, Piece.op.injEq] at h'
      obtain ⟨rfl, h'⟩ := h'
      have hoperand : RankedExpr operand.expr := h.part List.mem_cons_self
      have hsingle : operand.expr.joint? = none := h.here.1
      have hclear := (ih hoperand).1
      rw [chain_of_single hsingle] at hclear
      obtain ⟨rfl, rfl⟩ := hclear _ _ _ ⟨hb.ranked.here.1, hb.ranked.part List.mem_cons_self⟩ h'
      exact ⟨rfl, rfl⟩
  | binary lhs op rhs hl hr =>
    obtain ⟨hlhs, hrhs⟩ := ranked_binary h
    obtain ⟨hl₁, hl₂⟩ := hl hlhs
    exact ⟨hl₁, List.forall_mem_append.mpr ⟨hl₂, List.forall_mem_cons.mpr (hr hrhs)⟩⟩

/-- **Unique reading.** Two ranked arrangements with the same reading are the same. Their operands
and operators are the same, one after the other, and those can be arranged by rank in one way. -/
theorem eq_of_reading (ha : RankedExpr a.expr) (hb : RankedExpr b.expr)
    (h : a.reading = b.reading) : a = b := by
  have hnil : Stops [] := fun t ht => by cases ht
  exact (unique_of_clear ha hb (clear_chain ha) hnil hnil (by rw [h])).1

end Arrangement

/-! ## What the parser gives -/

namespace Grammar

open Arrangement

/-- A leaf is read from just the tokens that it is derived from. -/
theorem Expression.takes {s : List Token} {e : Expr} (h : Expression s e) {n : Nat}
    (hn : 3 * s.length + 2 ≤ n) : Parse.Takes (Parse.expr n) s e [] := by
  have hc := (Parse.recursion Parse.complete_passes (s.length + 1)).1 n (by omega)
  have := hc s [] e (by simp) h ⟨by decide, by decide⟩
  rwa [List.append_nil] at this

theorem exists_arrangement_leaf {s : List Token} {e : Expr} (h : Expression s e)
    (he : e.isLeaf = true) : ∃ a : Arrangement, a.tokens = s ∧ a.expr = e ∧ a.Parsed :=
  ⟨.leaf s e he, by simp [tokens, reading, Piece.tokens], rfl, fun _ hn => h.takes hn⟩

theorem Level.of_unary {s : List Token} {e : Expr} (h : Unary s e) :
    ∀ ls : List (List Kind), Level ls s e
  | [] => .unary h
  | _ :: ls => .single (Level.of_unary h ls)

mutual

/-- What is derived is an arrangement of leaves that are parsed from their tokens. -/
theorem Expression.exists_arrangement {s : List Token} {e : Expr} :
    Expression s e → ∃ a : Arrangement, a.tokens = s ∧ a.expr = e ∧ a.Parsed
  | .arrow hf hp ha he => exists_arrangement_leaf (.arrow hf hp ha he) rfl
  | .lambda hf hp hb => exists_arrangement_leaf (.lambda hf hp hb) rfl
  | .level h => h.exists_arrangement

theorem Level.exists_arrangement {ls : List (List Kind)} {s : List Token} {e : Expr} :
    Level ls s e → ∃ a : Arrangement, a.tokens = s ∧ a.expr = e ∧ a.Parsed
  | .unary h => h.exists_arrangement
  | .single h => h.exists_arrangement
  | .join hl _ hr => by
    obtain ⟨a, rfl, rfl, ha⟩ := hl.exists_arrangement
    obtain ⟨b, rfl, rfl, hb⟩ := hr.exists_arrangement
    exact ⟨.binary a _ b, by simp [tokens, reading, Piece.tokens], rfl, ha, hb⟩

theorem Unary.exists_arrangement {s : List Token} {e : Expr} :
    Unary s e → ∃ a : Arrangement, a.tokens = s ∧ a.expr = e ∧ a.Parsed
  | .signed _ h => by
    obtain ⟨a, rfl, rfl, ha⟩ := h.exists_arrangement
    exact ⟨.unary _ a, by simp [tokens, reading, Piece.tokens], rfl, ha⟩
  | .group (l := l) (r := r) hl he hr => by
    obtain ⟨a, rfl, rfl, ha⟩ := he.exists_arrangement
    exact ⟨.group l a r, by simp [tokens, reading, Piece.tokens], rfl, hl, hr, ha⟩
  | .var hx => exists_arrangement_leaf (.level (.of_unary (.var hx) _)) rfl
  | .callNone hx hl hr => exists_arrangement_leaf (.level (.of_unary (.callNone hx hl hr) _)) rfl
  | .call hx hl ha hr => exists_arrangement_leaf (.level (.of_unary (.call hx hl ha hr) _)) rfl
  | .int ht hv => exists_arrangement_leaf (.level (.of_unary (.int ht hv) _)) rfl
  | .float ht hv => exists_arrangement_leaf (.level (.of_unary (.float ht hv) _)) rfl
  | .char ht hv => exists_arrangement_leaf (.level (.of_unary (.char ht hv) _)) rfl
  | .string ht => exists_arrangement_leaf (.level (.of_unary (.string ht) _)) rfl
  | .true ht => exists_arrangement_leaf (.level (.of_unary (.true ht) _)) rfl
  | .false ht => exists_arrangement_leaf (.level (.of_unary (.false ht) _)) rfl
  | .nil ht => exists_arrangement_leaf (.level (.of_unary (.nil ht) _)) rfl

end

end Grammar

/-- **Precedence and associativity.** An expression that the parser gives is an arrangement of
leaves that the parser makes of their tokens, of groups in brackets and of operators; the tokens
that it took are the reading of that arrangement; everything within the expression is ranked; and no
other ranked arrangement has the same reading. -/
theorem Parse.expr_arranged {ts : List Token} {r r' : Reader} {n : Nat} {e : Expr}
    (hr : r.Before ts) (h : expr n r = .ok e r') :
    ∃ (a : Arrangement) (rest : List Token), ts = a.tokens ++ rest ∧ r'.Before rest ∧ a.expr = e ∧
      a.Parsed ∧ RankedExpr e ∧
        ∀ b : Arrangement, b.reading = a.reading → RankedExpr b.expr → b = a := by
  -- With any bound on nesting, what is given is derived from the tokens that are used up.
  have htook := (recursive_pinpoint n).1.on ts r hr
  rw [h] at htook
  obtain ⟨_, rest, -, rfl, he, hrest, -⟩ := htook
  obtain ⟨a, rfl, rfl, ha⟩ := he.exists_arrangement
  exact ⟨a, rest, rfl, hrest, rfl, ha, he.ranked, fun b hb hranked =>
    Arrangement.eq_of_reading hranked he.ranked hb⟩

/-- The tokens of `-a * b + c;`. -/
def Parse.mixedTokens : List Token :=
  [⟨.minus, "-", ⟨1, 1⟩⟩, ⟨.ident, "a", ⟨1, 2⟩⟩, ⟨.star, "*", ⟨1, 4⟩⟩, ⟨.ident, "b", ⟨1, 6⟩⟩,
    ⟨.plus, "+", ⟨1, 8⟩⟩, ⟨.ident, "c", ⟨1, 10⟩⟩, ⟨.semicolon, ";", ⟨1, 11⟩⟩]

/-- The tree of `-a * b + c`. -/
def Parse.mixedExpr : Expr :=
  .binary (.place 1 8)
    (.binary (.place 1 4) (.unary (.place 1 1) ⟨.minus, "-"⟩ (.var (.place 1 2) "a")) ⟨.star, "*"⟩
      (.var (.place 1 6) "b"))
    ⟨.plus, "+"⟩ (.var (.place 1 10) "c")

/-- `-a * b + c` is read in one way. -/
theorem Parse.expr_arranged_mixed :
    ∃ r', expr 23 (.ofTokens mixedTokens (.endOfSource ⟨1, 12⟩)) = .ok mixedExpr r' ∧
      ∃ (a : Arrangement) (rest : List Token), mixedTokens = a.tokens ++ rest ∧ r'.Before rest ∧
        a.expr = mixedExpr ∧ a.Parsed ∧ RankedExpr mixedExpr ∧
        ∀ b : Arrangement, b.reading = a.reading → RankedExpr b.expr → b = a := by
  have hbefore : (Reader.ofTokens mixedTokens (.endOfSource ⟨1, 12⟩)).Before mixedTokens :=
    Reader.before_ofTokens rfl (by decide)
  have hexpr : ∃ r', expr 23 (.ofTokens mixedTokens (.endOfSource ⟨1, 12⟩)) = .ok mixedExpr r' :=
    ⟨_, rfl⟩
  obtain ⟨r', h⟩ := hexpr
  exact ⟨r', h, Parse.expr_arranged hbefore h⟩

end Treewalk
