import Treewalk.Proofs.Grammar.Exact
import Treewalk.Proofs.Syntax.Code

/-!
# Code that was read is proper

Every rule of the grammar makes proper nodes out of proper parts, so everything within an accepted
source is proper. Decimal literals are finite because a numeral has no way to write anything else.

## Why it is asked of derivations

The parser is a program with a position and with errors, and a property of what it returns would
have to be followed through all of that. A derivation has one rule for each construct and no other
data than tokens and code. Since the parser accepts exactly what derives, what holds of derived code
holds of parsed code.

## Main results

* `Grammar.Items.proper`: derived statements are proper throughout
* `Source.proper_of_program`: so is everything within an accepted source

## Implementation notes

The rules are mutually inductive, so there is one lemma for each of them and they call one another.
What they need of the tokens is little: a level of operators has binary operators only, which is a
matter of the table, and parameters are distinct, which is a condition of the rule. The rest is in
the shape of the conclusions: where braces are wanted the rule asks for a block.
-/

namespace Treewalk

theorem Decimal.isFinite_of_ofNumeral {cs : List Char} {d : Decimal}
    (h : Decimal.ofNumeral cs = .ok d) : d.isFinite = true := by
  rw [Decimal.ofNumeral] at h
  simp only at h
  repeat' split at h
  all_goals cases h
  all_goals rfl

theorem Parse.isFinite_of_floatValue? {text : String} {v : Decimal}
    (h : Parse.floatValue? text = some v) : v.isFinite = true := by
  rw [Parse.floatValue?] at h
  split at h
  · exact absurd h (by simp)
  · split at h
    · unfold Decimal.ofNumeral? at h
      cases hd : Decimal.ofNumeral text.toList with
      | error issue => simp [hd, Except.toOption] at h
      | ok d =>
        simp only [hd, Except.toOption, Option.some.injEq] at h
        exact h ▸ Decimal.isFinite_of_ofNumeral hd
    · exact absurd h (by simp)

namespace Grammar

open Code

/-- The node is proper and everything within it. -/
abbrev ProperExpr (e : Expr) : Prop := All Proper (.expr e)

/-- The node is proper and everything within it. -/
abbrev ProperStmt (s : Stmt) : Prop := All Proper (.stmt s)

theorem isUnary_of_signed {k : Kind} (h : k = .minus ∨ k = .notKw) : k.isUnary = true := by
  rcases h with rfl | rfl <;> rfl

theorem isBinary_of_precedence :
    ∀ ops ∈ precedence, ∀ k ∈ ops, k.isBinary = true := by decide

theorem Block.isBlock {s : List Token} {st : Stmt} (h : Block s st) : st.isBlock = true := by
  cases h with
  | braces => rfl

theorem Branch.isAlternative {s : List Token} {st : Stmt} (h : Branch s st) :
    st.isAlternative = true := by
  cases h <;> rfl

theorem Block.isAlternative {s : List Token} {st : Stmt} (h : Block s st) :
    st.isAlternative = true := by
  cases h with
  | braces => rfl

theorem Params.nodup {s : List Token} {names : List String} (h : Params s names) :
    names.Nodup := by
  cases h with
  | none => exact List.nodup_nil
  | some _ _ hd _ => exact hd

theorem properStmt_branch {mark : Mark} {test : Expr} {yes no : Stmt} (ht : ProperExpr test)
    (hy : yes.isBlock = true) (hys : ProperStmt yes) (hn : no.isAlternative = true)
    (hns : ProperStmt no) : ProperStmt (.branch mark test yes no) := by
  refine all_iff.mpr ⟨⟨hy, hn⟩, ?_⟩
  simp only [parts, List.forall_mem_cons]
  exact ⟨ht, hys, hns, List.forall_mem_nil _⟩

mutual

theorem Expression.proper {s : List Token} {e : Expr} : Expression s e → ProperExpr e
  | .arrow _ hp _ he => by
    refine .one ⟨hp.nodup, rfl⟩ rfl ?_
    refine .one trivial rfl ?_
    exact .one trivial rfl he.proper
  | .lambda _ hp hb => .one ⟨hp.nodup, hb.isBlock⟩ rfl hb.proper
  | .level h => h.proper fun _ hops => isBinary_of_precedence _ hops

theorem Level.proper {ls : List (List Kind)} {s : List Token} {e : Expr} :
    Level ls s e → (∀ ops ∈ ls, ∀ k ∈ ops, k.isBinary = true) → ProperExpr e
  | .unary h, _ => h.proper
  | .single h, hls => h.proper fun ops hops => hls ops (List.mem_cons_of_mem _ hops)
  | .join hl ho hr, hls =>
    .two (hls _ List.mem_cons_self _ ho) rfl (hl.proper hls)
      (hr.proper fun ops hops => hls ops (List.mem_cons_of_mem _ hops))

theorem Unary.proper {s : List Token} {e : Expr} : Unary s e → ProperExpr e
  | .signed ho h => .one (isUnary_of_signed ho) rfl h.proper
  | .call _ _ ha _ => .exprs trivial rfl ha.proper
  | .group _ he _ => .one trivial rfl he.proper
  | .float _ hv => .leaf (Parse.isFinite_of_floatValue? hv) rfl
  | .var _ | .callNone _ _ _ | .int _ _ | .char _ _ | .string _ | .true _ | .false _ | .nil _ =>
    .leaf trivial rfl

theorem Arguments.proper {s : List Token} {args : List Expr} :
    Arguments s args → ∀ e ∈ args, ProperExpr e
  | .one he => List.forall_mem_singleton.mpr he.proper
  | .more he _ ha => List.forall_mem_cons.mpr ⟨he.proper, ha.proper⟩

theorem Block.proper {s : List Token} {st : Stmt} : Block s st → ProperStmt st
  | .braces _ hb _ => .stmts trivial rfl hb.proper

theorem Items.proper {s : List Token} {body : List Stmt} : Items s body → ∀ st ∈ body, ProperStmt st
  | .nil => List.forall_mem_nil _
  | .comment _ hb => hb.proper
  | .stmt hs hb => List.forall_mem_cons.mpr ⟨hs.proper, hb.proper⟩

theorem Branch.proper {s : List Token} {st : Stmt} : Branch s st → ProperStmt st
  | .plain _ ht hy => properStmt_branch ht.proper hy.isBlock hy.proper rfl (.leaf trivial rfl)
  | .block _ ht hy _ hn =>
    properStmt_branch ht.proper hy.isBlock hy.proper hn.isAlternative hn.proper
  | .chain _ ht hy _ hn =>
    properStmt_branch ht.proper hy.isBlock hy.proper hn.isAlternative hn.proper

theorem Statement.proper {s : List Token} {st : Stmt} : Statement s st → ProperStmt st
  | .empty _ | .printNone _ _ _ _ _ => .leaf trivial rfl
  | .declareNil _ _ _ | .giveNil _ _ => .one trivial rfl (.leaf trivial rfl)
  | .declare _ _ _ he _ | .assign _ _ he _ | .give _ he _ | .eval he _ =>
    .one trivial rfl he.proper
  | .block h => h.proper
  | .branch h => h.proper
  | .loop _ ht hb => .two hb.isBlock rfl ht.proper hb.proper
  | .define _ _ hp hb => .one ⟨hp.nodup, hb.isBlock⟩ rfl hb.proper
  | .print _ _ _ _ ha _ _ => .exprs trivial rfl ha.proper

end

end Grammar

/-- Everything within an accepted source is proper. -/
theorem Source.proper_of_program {source : List UInt8} {body : List Stmt}
    (h : Source.program source = .ok body) : ∀ st ∈ body, Code.All Code.Proper (.stmt st) :=
  (Source.items_of_program h).proper

end Treewalk
