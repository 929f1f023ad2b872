import Treewalk.Proofs.Grammar.Basic
import Treewalk.Proofs.Syntax.Code

/-!
# Precedence and associativity

Operators are ranked by how tightly they bind. What the ranks mean is said of trees alone: an
operator takes a weaker one as an operand only in brackets, one of its own rank only on the left,
and an operator in front of an operand, which binds tighter than all of them, takes none. A lambda
reaches as far to the right as it can, so it is no operand at all.

## Main definitions

* `Kind.rank`, how tightly a binary operator binds
* `Code.Ranked`, the operands of a node are as its operator wants them

## Main results

* `Grammar.Expression.ranked`: everything within a derived expression is ranked

## Implementation notes

Ranks are a function on kinds, not the place in the list of precedences. The list belongs to the
grammar, and a statement about trees should be readable without it; that the two agree is used only
in the proof for `Level`.

The property is said of one node and its immediate operands and is then asked of everything within
an expression. So it need not be recursive, and what is within an expression is defined only once,
for this and for all other properties of nodes.
-/

namespace Treewalk

/-- How tightly a binary operator binds; what is none has rank zero. -/
def Kind.rank : Kind → Nat
  | .orKw => 1
  | .andKw => 2
  | .equal | .unequal | .less | .greater | .lessEqual | .greaterEqual => 3
  | .plus | .minus => 4
  | .star | .slash | .percent => 5
  | _ => 0

namespace Expr

/-- The operator of a binary expression that stands without brackets. -/
def joint? : Expr → Option Operator
  | .binary _ _ op _ => some op
  | _ => none

/-- A lambda that stands without brackets. -/
def isLambda : Expr → Bool
  | .lambda _ _ _ => true
  | _ => false

end Expr

/-- The operands of a node are as its operator, which has a rank, wants them: to the left no weaker
operator, to the right only tighter ones, behind a sign none, and a lambda nowhere. -/
def Code.Ranked : Code → Prop
  | .expr (.unary _ _ operand) => operand.joint? = none ∧ operand.isLambda = false
  | .expr (.binary _ lhs op rhs) =>
    0 < op.kind.rank ∧ (∀ o, lhs.joint? = some o → op.kind.rank ≤ o.kind.rank) ∧
      (∀ o, rhs.joint? = some o → op.kind.rank < o.kind.rank) ∧
      lhs.isLambda = false ∧ rhs.isLambda = false
  | _ => True

namespace Grammar

open Code

/-- The operators of a level have the rank of the level, and the rules below are the next level. -/
theorem rank_of_level {i : Nat} {ops : List Kind} {more : List (List Kind)}
    (h : precedence.drop i = ops :: more) :
    precedence.drop (i + 1) = more ∧ ∀ k ∈ ops, k.rank = i + 1 := by
  refine ⟨by rw [← List.tail_drop, h, List.tail_cons], ?_⟩
  have hi : i < precedence.length := by
    refine Nat.lt_of_not_le fun hlong => ?_
    rw [List.drop_eq_nil_of_le hlong] at h
    cases h
  have key : ∀ j < precedence.length, ∀ k ∈ (precedence[j]?).getD [], k.rank = j + 1 := by decide
  have hops : (precedence[i]?).getD [] = ops := by
    rw [← Nat.add_zero i, ← List.getElem?_drop, h]
    rfl
  exact hops ▸ key i hi

/-- An expression that stands at a level: no lambda, and joined by no operator of a looser level.
Brackets, calls and literals have no operator that joins them, so they stand at every level. -/
structure Stands (i : Nat) (e : Expr) : Prop where
  joint : ∀ o, e.joint? = some o → i < o.kind.rank
  unlambda : e.isLambda = false

theorem Stands.of_unary {e : Expr} {s : List Token} (h : Unary s e) :
    e.joint? = none ∧ e.isLambda = false := by
  cases h <;> exact ⟨rfl, rfl⟩

theorem Level.stands {i : Nat} {s : List Token} {e : Expr} {ls : List (List Kind)} :
    Level ls s e → precedence.drop i = ls → Stands i e
  | .unary h, _ => by
    obtain ⟨hj, hl⟩ := Stands.of_unary h
    exact ⟨fun o ho => by simp [hj] at ho, hl⟩
  | .single h, hls => by
    have hs := h.stands (rank_of_level hls).1
    exact ⟨fun o ho => Nat.lt_of_succ_lt (hs.joint o ho), hs.unlambda⟩
  | .join _ ho _, hls => by
    refine ⟨fun o hj => ?_, rfl⟩
    obtain rfl := Option.some.inj hj
    exact ((rank_of_level hls).2 _ ho).symm ▸ Nat.lt_succ_self i

/-- The node is ranked and everything within it. -/
abbrev RankedExpr (e : Expr) : Prop := All Ranked (.expr e)

/-- The node is ranked and everything within it. -/
abbrev RankedStmt (s : Stmt) : Prop := All Ranked (.stmt s)

theorem rankedStmt_branch {mark : Mark} {test : Expr} {yes no : Stmt} (ht : RankedExpr test)
    (hy : RankedStmt yes) (hn : RankedStmt no) : RankedStmt (.branch mark test yes no) := by
  refine all_iff.mpr ⟨trivial, ?_⟩
  simp only [parts, List.forall_mem_cons]
  exact ⟨ht, hy, hn, List.forall_mem_nil _⟩

mutual

theorem Expression.ranked {s : List Token} {e : Expr} : Expression s e → RankedExpr e
  | .arrow _ _ _ he => .one trivial rfl (.one trivial rfl (.one trivial rfl he.ranked))
  | .lambda _ _ hb => .one trivial rfl hb.ranked
  | .level h => h.ranked (i := 0) rfl

theorem Level.ranked {i : Nat} {s : List Token} {e : Expr} {ls : List (List Kind)} :
    Level ls s e → precedence.drop i = ls → RankedExpr e
  | .unary h, _ => h.ranked
  | .single h, hls => h.ranked (rank_of_level hls).1
  | .join hl ho hr, hls => by
    obtain ⟨hmore, hrank⟩ := rank_of_level hls
    have hlhs := hl.stands hls
    have hrhs := hr.stands hmore
    have hop := hrank _ ho
    refine .two
      ⟨hop ▸ Nat.succ_pos i, fun o h => ?_, fun o h => ?_, hlhs.unlambda, hrhs.unlambda⟩
      rfl (hl.ranked hls) (hr.ranked hmore)
    · rw [hop]
      exact hlhs.joint o h
    · rw [hop]
      exact hrhs.joint o h

theorem Unary.ranked {s : List Token} {e : Expr} : Unary s e → RankedExpr e
  | .signed _ h => .one (Stands.of_unary h) rfl h.ranked
  | .call _ _ ha _ => .exprs trivial rfl ha.ranked
  | .group _ he _ => .one trivial rfl he.ranked
  | .var _ | .callNone _ _ _ | .int _ _ | .float _ _ | .char _ _ | .string _ | .true _ | .false _
  | .nil _ => .leaf trivial rfl

theorem Arguments.ranked {s : List Token} {args : List Expr} :
    Arguments s args → ∀ e ∈ args, RankedExpr e
  | .one he => List.forall_mem_singleton.mpr he.ranked
  | .more he _ ha => List.forall_mem_cons.mpr ⟨he.ranked, ha.ranked⟩

theorem Block.ranked {s : List Token} {st : Stmt} : Block s st → RankedStmt st
  | .braces _ hb _ => .stmts trivial rfl hb.ranked

theorem Items.ranked {s : List Token} {body : List Stmt} : Items s body → ∀ st ∈ body, RankedStmt st
  | .nil => List.forall_mem_nil _
  | .comment _ hb => hb.ranked
  | .stmt hs hb => List.forall_mem_cons.mpr ⟨hs.ranked, hb.ranked⟩

theorem Branch.ranked {s : List Token} {st : Stmt} : Branch s st → RankedStmt st
  | .plain _ ht hy => rankedStmt_branch ht.ranked hy.ranked (.leaf trivial rfl)
  | .block _ ht hy _ hn => rankedStmt_branch ht.ranked hy.ranked hn.ranked
  | .chain _ ht hy _ hn => rankedStmt_branch ht.ranked hy.ranked hn.ranked

theorem Statement.ranked {s : List Token} {st : Stmt} : Statement s st → RankedStmt st
  | .empty _ | .printNone _ _ _ _ _ => .leaf trivial rfl
  | .declareNil _ _ _ | .giveNil _ _ => .one trivial rfl (.leaf trivial rfl)
  | .declare _ _ _ he _ | .assign _ _ he _ | .give _ he _ | .eval he _ =>
    .one trivial rfl he.ranked
  | .block h => h.ranked
  | .branch h => h.ranked
  | .loop _ ht hb => .two trivial rfl ht.ranked hb.ranked
  | .define _ _ _ hb => .one trivial rfl hb.ranked
  | .print _ _ _ _ ha _ _ => .exprs trivial rfl ha.ranked

end

end Grammar

end Treewalk
