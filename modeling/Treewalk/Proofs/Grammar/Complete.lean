import Mathlib.Data.List.Nodup
import Treewalk.Proofs.Grammar.First

/-!
# What is derived is read

A reader that stands before a derived sequence takes exactly that sequence and gives its tree,
provided that what follows does not continue it. A conditional goes on at an `else`, a name at an
opening bracket, and an operand at an operator of its own level or a tighter one; nothing else can
be continued.

## Why completeness needs what follows

A reader takes as much as it can. So a phrase is taken as it was derived only if the rest could not
have been part of it, and the condition on the rest is what differs between the constructions.
`Follow` is that condition for operands of given levels, `NoElse` for conditionals, and a block
needs none since it ends with its brace. In each rule the conditions of the parts have to be met by
what the rule puts behind them, and this is where it is used which tokens start which phrases.

## Implementation notes

The five levels of operators are one proof. It is by induction on the list of levels, and all that
it needs to know of the operators is that no two levels share one and that an opening bracket is
none of them. Within a level the rules nest to the left while a reader goes from left to right,
which `Spine` reconciles: it lists the operators and operands behind the first one in the order of
reading.

`Complete` is restricted to fewer than `k` tokens, for the recursive readers have a bound on
nesting, and it counts the rest too. A reader does not know where its phrase ends, so it chooses its
bounds by all the tokens ahead.
-/

namespace Treewalk.Parse

open Grammar

variable {α : Type} {expr deeper : Parse Expr} {block branch stmt : Parse Stmt} {k : Nat}
  {rest : List Token}

/-- What may follow operands of the given levels: no bracket and none of their operators. -/
def Follow (ls : List (List Kind)) (rest : List Token) : Prop :=
  kindAt rest ≠ .lparen ∧ kindAt rest ∉ ls.flatten

/-- What may follow a conditional. -/
def NoElse (rest : List Token) : Prop :=
  kindAt rest ≠ .elseKw

/-- On fewer than `k` tokens, the action takes whatever `D` derives and `F` lets follow. What may
follow is a parameter because the parser takes as much as it can: a sum that is followed by another
sign is not where it stops. -/
def Complete (p : Parse α) (D : List Token → α → Prop) (F : List Token → Prop) (k : Nat) : Prop :=
  ∀ (s rest : List Token) (a : α), (s ++ rest).length < k → D s a → F rest →
    Takes p (s ++ rest) a rest

theorem follow_precedence {t : Token} (ts : List Token) {k : Kind} (h : t.kind = k)
    (hk : k ∈ [Kind.semicolon, .comma, .rparen, .lbrace]) : Follow precedence (t :: ts) := by
  have key : ∀ k ∈ [Kind.semicolon, .comma, .rparen, .lbrace],
      k ≠ .lparen ∧ k ∉ precedence.flatten := by decide
  rw [Follow, kindAt_cons, h]
  exact key k hk

theorem follow_block {b : List Token} {st : Stmt} (h : Block b st) :
    Follow precedence (b ++ rest) := by
  obtain ⟨l, b, rfl, hl⟩ := exists_cons_of_kindAt h.kindAt_eq (by decide)
  exact follow_precedence _ hl (by decide)

/-! ## Names and arguments -/

theorem contains_eq_false_of_nodup {seen more : List String} {name : String}
    (h : (seen ++ name :: more).Nodup) : seen.contains name = false := by
  have hd := (List.nodup_append.mp h).2.2
  rw [List.contains_eq_mem, decide_eq_false_iff_not]
  exact fun hm => hd _ hm _ List.mem_cons_self rfl

theorem paramsFrom_takes {s : List Token} {more : List String} (h : Names s more)
    (hrest : kindAt rest ≠ .comma) :
    ∀ (n : Nat) (seen : List String), s.length < n → (seen ++ more).Nodup →
      Takes (paramsFrom n seen) (s ++ rest) (seen ++ more) rest := by
  induction h with
  | @one x hx =>
    intro n seen hn hd
    obtain ⟨n, rfl⟩ := Nat.exists_eq_succ_of_ne_zero (Nat.ne_zero_of_lt hn)
    rw [paramsFrom]
    refine (Takes.expect hx).bind ?_
    simp only [contains_eq_false_of_nodup hd]
    exact Takes.unaccept hrest Takes.pure
  | @more x c s names hx hc _ ih =>
    intro n seen hn hd
    obtain ⟨n, rfl⟩ := Nat.exists_eq_succ_of_ne_zero (Nat.ne_zero_of_lt hn)
    rw [paramsFrom]
    refine (Takes.expect hx).bind ?_
    simp only [contains_eq_false_of_nodup hd]
    refine Takes.accept hc ?_
    have := ih n (seen ++ [x.text]) (by simp at hn; omega) (by simpa using hd)
    simpa using this

theorem paramList_takes {s : List Token} {names : List String} (h : Params s names) :
    Takes paramList (s ++ rest) names rest := by
  rw [paramList]
  cases h with
  | none hl hr =>
    refine (Takes.expect hl).bind (Takes.check (by simpa using hr) ?_)
    exact (Takes.expect hr).bind Takes.pure
  | @some l r s _ hl hs hd hr =>
    have hne : s ≠ [] := by cases hs <;> simp
    have hstart : kindAt s = .ident := by cases hs <;> assumption
    rw [List.cons_append, List.append_assoc]
    refine (Takes.expect hl).bind (Takes.uncheck ?_ (Takes.bound fun n hn => ?_))
    · rw [kindAt_append_of_ne_nil hne, hstart]
      decide
    · refine (paramsFrom_takes hs (by simp [hr]) n [] ?_ hd).bind ?_
      · simp only [List.length_append] at hn
        omega
      · exact (Takes.expect hr).bind Takes.pure

theorem argsFrom_takes {s : List Token} {args : List Expr}
    (he : Complete expr Expression (Follow precedence) k) (hrest : kindAt rest = .rparen) :
    Arguments s args → ∀ n : Nat, (s ++ rest).length < k → s.length < n →
      Takes (argsFrom expr n) (s ++ rest) args rest
  | .one h, n, hk, hn => by
    obtain ⟨n, rfl⟩ := Nat.exists_eq_succ_of_ne_zero (Nat.ne_zero_of_lt hn)
    obtain ⟨r, rest, rfl, hr⟩ := exists_cons_of_kindAt hrest (by decide)
    rw [argsFrom]
    refine (he _ _ _ hk h (follow_precedence _ hr (by decide))).bind ?_
    exact Takes.unaccept (by simp [hr]) Takes.pure
  | .more h hc ha, n, hk, hn => by
    obtain ⟨n, rfl⟩ := Nat.exists_eq_succ_of_ne_zero (Nat.ne_zero_of_lt hn)
    simp only [List.append_assoc, List.cons_append, List.length_append, List.length_cons] at hk hn
    rw [argsFrom, List.append_assoc, List.cons_append]
    refine (he _ _ _ (by simpa using hk) h (follow_precedence _ hc (by decide))).bind ?_
    refine Takes.accept hc ?_
    refine (argsFrom_takes he hrest ha n ?_ (by omega)).bind Takes.pure
    simp only [List.length_append]
    omega

/-- No kind that starts an expression is one that a reader looks for in its place. -/
theorem kindAt_append_notMem {s : List Token} {ks : List Kind} (h : kindAt s ∈ exprStarts)
    (hks : ∀ k ∈ exprStarts, k ∉ ks) : kindAt (s ++ rest) ∉ ks := by
  rw [kindAt_append_of_ne_nil (ne_nil_of_kindAt_mem h (by decide))]
  exact hks _ h

theorem argList_takes {s : List Token} {args : List Expr}
    (he : Complete expr Expression (Follow precedence) k) (h : Arguments s args)
    (hrest : kindAt rest = .rparen) (hk : (s ++ rest).length < k) :
    Takes (argList expr) (s ++ rest) args rest := by
  rw [argList]
  refine Takes.uncheck (kindAt_append_notMem h.kindAt_mem (by decide)) ?_
  refine Takes.bound fun n hn => argsFrom_takes he hrest h n hk ?_
  simp only [List.length_append] at hn
  omega

/-! ## Expressions -/

theorem primary_takes {s : List Token} {e : Expr}
    (he : Complete expr Expression (Follow precedence) k) (h : Unary s e)
    (hx : kindAt s ∉ [Kind.minus, .notKw, .ident]) (hk : (s ++ rest).length < k + 1) :
    Takes (primary expr) (s ++ rest) e rest := by
  rw [primary]
  refine Takes.get fun r hr => ?_
  cases h with
  | signed ho _ => rcases ho with ho | ho <;> simp [ho] at hx
  | var h | callNone h _ _ | call h _ _ _ => simp [h] at hx
  | int ht hv | float ht hv | char ht hv =>
    simp only [hr.current, ht, hv]
    exact Takes.advance.bind Takes.pure
  | string ht | true ht | false ht | nil ht =>
    simp only [hr.current, ht]
    exact Takes.advance.bind Takes.pure
  | group hl h hq =>
    rw [List.cons_append, List.append_assoc] at hr hk ⊢
    simp only [hr.current, hl]
    refine Takes.advance.bind ?_
    refine (he _ _ _ (by simpa using hk) h (follow_precedence _ hq (by decide))).bind ?_
    exact (Takes.expect hq).bind Takes.pure

theorem operand_takes {s : List Token} {e : Expr}
    (he : Complete expr Expression (Follow precedence) k) (h : Unary s e)
    (hx : kindAt s ∉ [Kind.minus, .notKw]) (hk : (s ++ rest).length < k + 1)
    (hrest : kindAt rest ≠ .lparen) : Takes (operand expr) (s ++ rest) e rest := by
  rw [operand]
  by_cases hid : kindAt s = .ident
  · cases h with
    | var hi =>
      refine Takes.check (by simp [hi]) (Takes.advance.bind ?_)
      exact Takes.unaccept hrest Takes.pure
    | callNone hi hl hr =>
      refine Takes.check (by simp [hi]) (Takes.advance.bind (Takes.accept hl ?_))
      refine Takes.bind (Takes.check (by simp [hr]) Takes.pure) ?_
      exact (Takes.expect hr).bind Takes.pure
    | call hi hl ha hr =>
      rw [List.cons_append, List.cons_append, List.append_assoc] at hk ⊢
      refine Takes.check (by simp [hi]) (Takes.advance.bind (Takes.accept hl ?_))
      refine (argList_takes he ha (by simp [hr]) (by simp at hk ⊢; omega)).bind ?_
      exact (Takes.expect hr).bind Takes.pure
    | signed ho _ => rcases ho with ho | ho <;> simp [ho] at hx
    | int ht _ | float ht _ | char ht _ | string ht | true ht | false ht | nil ht =>
      simp [ht] at hid
    | group hl _ _ => simp [hl] at hid
  · have hne := ne_nil_of_kindAt_mem h.kindAt_mem (by decide)
    refine Takes.uncheck ?_ (primary_takes he h ?_ hk)
    · simpa [kindAt_append_of_ne_nil hne] using hid
    · simpa [hid] using hx

theorem signed_complete (he : Complete expr Expression (Follow precedence) k)
    (hu : Complete deeper Unary (Follow []) k) :
    Complete (signed expr deeper) Unary (Follow []) (k + 1) := by
  intro s rest e hk h hf
  rw [signed]
  by_cases ho : kindAt s ∈ [Kind.minus, .notKw]
  · cases h with
    | signed hop h =>
      refine Takes.check (by simpa using hop) (Takes.advance.bind ?_)
      exact (hu _ _ _ (by simpa using hk) h hf).bind Takes.pure
    | var hi | callNone hi _ _ | call hi _ _ _ => simp [hi] at ho
    | int ht _ | float ht _ | char ht _ | string ht | true ht | false ht | nil ht =>
      simp [ht] at ho
    | group hl _ _ => simp [hl] at ho
  · have hne := ne_nil_of_kindAt_mem h.kindAt_mem (by decide)
    refine Takes.uncheck ?_ (operand_takes he h ho hk hf.1)
    rwa [kindAt_append_of_ne_nil hne]

/-! ## Levels

A chain of operands is derived from its end, and read from its start. `Spine` lists what follows
the first operand in the order of reading. -/

/-- Operators and operands that take one expression to another when they are joined to it. The
grammar derives a chain of operators from the right end and the parser reads it from the left. This
is the chain from the left. -/
inductive Spine (ops : List Kind) (more : List (List Kind)) :
    Expr → List Token → Expr → Prop where
  | nil {e : Expr} : Spine ops more e [] e
  | cons {op : Token} {s s' : List Token} {lhs rhs e : Expr} (ho : op.kind ∈ ops)
      (hr : Level more s rhs)
      (hs : Spine ops more (.binary (markOf op) lhs ⟨op.kind, op.text⟩ rhs) s' e) :
      Spine ops more lhs (op :: (s ++ s')) e

theorem Spine.snoc {ops : List Kind} {more : List (List Kind)} {op : Token} {s s' : List Token}
    {e₀ lhs rhs : Expr} (h : Spine ops more e₀ s lhs) (ho : op.kind ∈ ops)
    (hr : Level more s' rhs) :
    Spine ops more e₀ (s ++ op :: s') (.binary (markOf op) lhs ⟨op.kind, op.text⟩ rhs) := by
  induction h with
  | nil => simpa using Spine.cons ho hr .nil
  | cons ho' hr' _ ih => simpa using Spine.cons ho' hr' ih

theorem exists_spine {ops : List Kind} {more : List (List Kind)} {s : List Token} {e : Expr} :
    Level (ops :: more) s e →
      ∃ s₀ e₀ s', s = s₀ ++ s' ∧ Level more s₀ e₀ ∧ Spine ops more e₀ s' e
  | .single h => ⟨s, e, [], by simp, h, .nil⟩
  | .join hl ho hr => by
    obtain ⟨s₀, e₀, s', rfl, h₀, hs⟩ := exists_spine hl
    exact ⟨s₀, e₀, _, by simp, h₀, hs.snoc ho hr⟩

/-- What follows an operand in a chain does not continue the operand itself. -/
theorem Spine.follow {ops : List Kind} {more : List (List Kind)} {s : List Token} {e₀ e : Expr}
    (h : Spine ops more e₀ s e) (hd : (ops :: more).flatten.Nodup) (hl : .lparen ∉ ops)
    (hf : Follow (ops :: more) rest) : Follow more (s ++ rest) := by
  cases h with
  | nil => exact ⟨hf.1, fun hm => hf.2 (List.mem_append_right _ hm)⟩
  | cons ho _ _ =>
    refine ⟨fun h => hl (h ▸ ho), fun hm => ?_⟩
    exact (List.disjoint_of_nodup_append hd) ho hm

theorem joinFrom_takes {ops : List Kind} {more : List (List Kind)} {tighter : Parse Expr}
    {s : List Token} {e₀ e : Expr} (hd : (ops :: more).flatten.Nodup) (hl : .lparen ∉ ops)
    (hm : Complete tighter (Level more) (Follow more) k) (hf : Follow (ops :: more) rest)
    (h : Spine ops more e₀ s e) :
    ∀ n : Nat, (s ++ rest).length < k → s.length < n →
      Takes (joinFrom ops tighter n e₀) (s ++ rest) e rest := by
  induction h with
  | nil =>
    intro n _ hn
    obtain ⟨n, rfl⟩ := Nat.exists_eq_succ_of_ne_zero (Nat.ne_zero_of_lt hn)
    rw [joinFrom]
    exact Takes.uncheck (fun h => hf.2 (List.mem_append_left _ h)) Takes.pure
  | cons ho hr hs ih =>
    intro n hk hn
    obtain ⟨n, rfl⟩ := Nat.exists_eq_succ_of_ne_zero (Nat.ne_zero_of_lt hn)
    simp only [List.cons_append, List.append_assoc, List.length_cons, List.length_append] at hk hn
    rw [joinFrom, List.cons_append, List.append_assoc]
    refine Takes.check ho (Takes.advance.bind ?_)
    refine (hm _ _ _ ?_ hr (hs.follow hd hl hf)).bind (ih n ?_ (by omega)) <;>
      simp only [List.length_append] <;> omega

theorem climb_complete {tightest : Parse Expr} (hu : Complete tightest Unary (Follow []) k) :
    ∀ ls : List (List Kind), ls.flatten.Nodup → .lparen ∉ ls.flatten →
      Complete (climb ls tightest) (Level ls) (Follow ls) k
  | [], _, _ => by
    intro s rest e hk h hf
    cases h with
    | unary h => exact hu s rest e hk h hf
  | ops :: more, hd, hl => by
    rw [List.flatten_cons, List.mem_append, not_or] at hl
    have hm : Complete (climb more tightest) (Level more) (Follow more) k :=
      climb_complete hu more (List.Nodup.of_append_right hd) hl.2
    intro s rest e hk h hf
    obtain ⟨s₀, e₀, s', rfl, h₀, hs⟩ := exists_spine h
    rw [climb]
    rw [List.append_assoc] at hk ⊢
    refine (hm _ _ _ hk h₀ (hs.follow hd hl.1 hf)).bind (Takes.bound fun n hn => ?_)
    refine joinFrom_takes hd hl.1 hm hf hs n ?_ ?_ <;>
      simp only [List.length_append] at hk hn ⊢ <;> omega

theorem lambda_takes {s : List Token} {e : Expr}
    (he : Complete expr Expression (Follow precedence) k)
    (hb : Complete block Block (fun _ => True) k) (h : Expression s e) (hfn : kindAt s = .fnKw)
    (hk : (s ++ rest).length < k + 1) (hf : Follow precedence rest) :
    Takes (lambda expr block) (s ++ rest) e rest := by
  rw [lambda]
  cases h with
  | arrow hfn hp ha h =>
    rw [List.cons_append, List.append_assoc, List.cons_append] at hk ⊢
    refine (Takes.expect hfn).bind ((paramList_takes hp).bind ?_)
    refine Takes.check (by simp [ha]) (Takes.advance.bind ?_)
    refine (he _ _ _ ?_ h hf).bind Takes.pure
    simp only [List.length_cons, List.length_append] at hk ⊢
    omega
  | lambda hfn hp h =>
    rw [List.cons_append, List.append_assoc] at hk ⊢
    have hne := ne_nil_of_kindAt_mem (List.mem_singleton.mpr h.kindAt_eq) (by decide)
    refine (Takes.expect hfn).bind ((paramList_takes hp).bind ?_)
    refine Takes.uncheck (by simp [kindAt_append_of_ne_nil hne, h.kindAt_eq]) ?_
    refine (hb _ _ _ ?_ h trivial).bind Takes.pure
    simp only [List.length_cons, List.length_append] at hk ⊢
    omega
  | level h =>
    have := h.kindAt_mem
    rw [hfn] at this
    exact absurd this (by decide)

theorem expression_complete (he : Complete expr Expression (Follow precedence) k)
    (hb : Complete block Block (fun _ => True) k) (hu : Complete deeper Unary (Follow []) (k + 1)) :
    Complete (expression expr block deeper) Expression (Follow precedence) (k + 1) := by
  intro s rest e hk h hf
  rw [expression]
  by_cases hfn : kindAt s = .fnKw
  · have hs : kindAt (s ++ rest) = .fnKw := by rw [kindAt_append_of_ne_nil h.ne_nil, hfn]
    exact Takes.check (by simp [hs]) (lambda_takes he hb h hfn hk hf)
  · refine Takes.uncheck (by simpa [kindAt_append_of_ne_nil h.ne_nil] using hfn) ?_
    cases h with
    | arrow h _ _ _ | lambda h _ _ => simp [h] at hfn
    | level h => exact climb_complete hu levels (by decide) (by decide) s rest e hk h hf

/-! ## Statements -/

theorem evalStmt_takes {s : List Token} {e : Expr} {q : Token}
    (he : Complete expr Expression (Follow precedence) k) (h : Expression s e)
    (hq : q.kind = .semicolon) (hk : (s ++ q :: rest).length < k) :
    Takes (evalStmt expr) (s ++ q :: rest) (.eval e.mark e) rest := by
  rw [evalStmt]
  refine (he _ _ _ hk h (follow_precedence _ hq (by decide))).bind ?_
  exact (Takes.expect hq).bind Takes.pure

/-- An expression statement that starts with a name is not taken for an assignment. -/
theorem assignStmt_takes_eval {s : List Token} {e : Expr} {q : Token}
    (he : Complete expr Expression (Follow precedence) k) (h : Expression s e)
    (hq : q.kind = .semicolon) (hx : kindAt s = .ident) (hk : (s ++ q :: rest).length < k) :
    Takes (assignStmt expr) (s ++ q :: rest) (.eval e.mark e) rest := by
  have heval := evalStmt_takes he h hq hk
  have htail := h.kindAt_tail_ne_assign hx
  obtain ⟨x, s, rfl⟩ := List.exists_cons_of_ne_nil h.ne_nil
  refine Takes.stepBack (misses_accept ?_) heval
  cases s with
  | nil => simp [hq]
  | cons t s => exact htail

/-- An expression statement that starts with a lambda is not taken for a definition. -/
theorem defineStmt_takes_eval {s : List Token} {e : Expr} {q : Token}
    (he : Complete expr Expression (Follow precedence) k) (h : Expression s e)
    (hq : q.kind = .semicolon) (hf : kindAt s = .fnKw) (hk : (s ++ q :: rest).length < k) :
    Takes (defineStmt expr block) (s ++ q :: rest) (.eval e.mark e) rest := by
  have heval := evalStmt_takes he h hq hk
  have htail := h.kindAt_tail_of_fn hf
  obtain ⟨f, s, rfl⟩ := List.exists_cons_of_ne_nil h.ne_nil
  refine Takes.stepBack (misses_check ?_) heval
  obtain ⟨l, s, rfl, hl⟩ := exists_cons_of_kindAt htail (by decide)
  simp [hl]

theorem moreArgsFrom_takes {s : List Token} {args : List Expr} {c : Token}
    (he : Complete expr Expression (Follow precedence) k) (hrest : kindAt rest = .rparen)
    (hc : c.kind = .comma) :
    Arguments s args → ∀ n : Nat, (c :: (s ++ rest)).length < k → s.length + 1 < n →
      Takes (moreArgsFrom expr n) (c :: (s ++ rest)) args rest
  | .one h, n, hk, hn => by
    obtain ⟨n, rfl⟩ := Nat.exists_eq_add_of_le' (show 2 ≤ n by omega)
    obtain ⟨r, rest, rfl, hr⟩ := exists_cons_of_kindAt hrest (by decide)
    rw [moreArgsFrom]
    refine Takes.accept hc ((he _ _ _ (by simp at hk ⊢; omega) h
      (follow_precedence _ hr (by decide))).bind ?_)
    refine Takes.bind ?_ Takes.pure
    rw [moreArgsFrom]
    exact Takes.unaccept (by simp [hr]) Takes.pure
  | .more h hc' ha, n, hk, hn => by
    obtain ⟨n, rfl⟩ := Nat.exists_eq_add_of_le' (show 1 ≤ n by omega)
    simp only [List.append_assoc, List.cons_append, List.length_append, List.length_cons] at hk hn
    rw [moreArgsFrom, List.append_assoc, List.cons_append]
    refine Takes.accept hc ((he _ _ _ ?_ h (follow_precedence _ hc' (by decide))).bind ?_)
    · simp only [List.length_append, List.length_cons]
      omega
    · refine (moreArgsFrom_takes he hrest hc' ha n ?_ (by omega)).bind Takes.pure
      simp only [List.length_append, List.length_cons]
      omega

theorem branchStmt_complete (he : Complete expr Expression (Follow precedence) k)
    (hb : Complete block Block (fun _ => True) k) (hr : Complete branch Branch NoElse k) :
    Complete (branchStmt expr block branch) Branch NoElse (k + 1) := by
  intro s rest st hk h hf
  rw [branchStmt]
  cases h with
  | plain hi ht hy =>
    rw [List.cons_append, List.append_assoc] at hk ⊢
    refine (Takes.expect hi).bind ((he _ _ _ (by simpa using hk) ht (follow_block hy)).bind ?_)
    refine (hb _ _ _ (by simp at hk ⊢; omega) hy trivial).bind ?_
    exact Takes.unaccept hf Takes.pure
  | block hi ht hy he' hn =>
    simp only [List.cons_append, List.append_assoc] at hk ⊢
    have hne := ne_nil_of_kindAt_mem (List.mem_singleton.mpr hn.kindAt_eq) (by decide)
    refine (Takes.expect hi).bind ((he _ _ _ (by simpa using hk) ht (follow_block hy)).bind ?_)
    refine (hb _ _ _ (by simp at hk ⊢; omega) hy trivial).bind (Takes.accept he' ?_)
    refine Takes.uncheck (by simp [kindAt_append_of_ne_nil hne, hn.kindAt_eq]) ?_
    exact (hb _ _ _ (by simp at hk ⊢; omega) hn trivial).bind Takes.pure
  | chain hi ht hy he' hn =>
    simp only [List.cons_append, List.append_assoc] at hk ⊢
    have hne := ne_nil_of_kindAt_mem (List.mem_singleton.mpr hn.kindAt_eq) (by decide)
    refine (Takes.expect hi).bind ((he _ _ _ (by simpa using hk) ht (follow_block hy)).bind ?_)
    refine (hb _ _ _ (by simp at hk ⊢; omega) hy trivial).bind (Takes.accept he' ?_)
    refine Takes.check (by simp [kindAt_append_of_ne_nil hne, hn.kindAt_eq]) ?_
    exact (hr _ _ _ (by simp at hk ⊢; omega) hn hf).bind Takes.pure

/-- Of the tokens that start an expression, only a name and `fn` start another statement too. -/
theorem statement_takes_eval {s : List Token} {e : Expr} {q : Token}
    (he : Complete expr Expression (Follow precedence) k) (h : Expression s e)
    (hq : q.kind = .semicolon) (hk : (s ++ q :: rest).length < k) :
    Takes (statement expr block branch) (s ++ q :: rest) (.eval e.mark e) rest := by
  rw [statement]
  refine Takes.get fun r hbefore => ?_
  have hkind : r.current.kind = kindAt s := by
    rw [hbefore.kind_current, kindAt_append_of_ne_nil h.ne_nil]
  have hs := h.kindAt_mem
  rw [← hkind] at hs
  split
  case h_3 hx => exact assignStmt_takes_eval he h hq (hkind ▸ hx) hk
  case h_8 hf => exact defineStmt_takes_eval he h hq (hkind ▸ hf) hk
  case h_11 => exact evalStmt_takes he h hq hk
  all_goals
    rename_i hother
    rw [hother] at hs
    exact absurd hs (by decide)

theorem statement_complete (he : Complete expr Expression (Follow precedence) k)
    (hb : Complete block Block (fun _ => True) k) (hr : Complete branch Branch NoElse k) :
    Complete (statement expr block branch) Statement NoElse k := by
  intro s rest st hk h hf
  cases h
  case eval h hq =>
    rw [List.append_assoc] at hk ⊢
    exact statement_takes_eval he h hq hk
  all_goals
    rw [statement]
    refine Takes.get fun r hbefore => ?_
    have hkind := hbefore.kind_current
  case empty hq =>
    simp only [hkind, List.cons_append, kindAt_cons, hq]
    exact Takes.advance.bind Takes.pure
  case declareNil hl hx hq =>
    simp only [hkind, List.cons_append, kindAt_cons, hl]
    refine (Takes.expect hl).bind ((Takes.expect hx).bind (Takes.unaccept (by simp [hq]) ?_))
    exact (Takes.expect hq).bind Takes.pure
  case declare hl hx ha h hq =>
    simp only [List.cons_append, List.append_assoc] at hk hkind ⊢
    simp only [hkind, kindAt_cons, hl]
    refine (Takes.expect hl).bind ((Takes.expect hx).bind (Takes.accept ha ?_))
    refine (he _ _ _ (by simp at hk ⊢; omega) h (follow_precedence _ hq (by decide))).bind ?_
    exact (Takes.expect hq).bind Takes.pure
  case assign hx ha h hq =>
    simp only [List.cons_append, List.append_assoc] at hk hkind ⊢
    simp only [hkind, kindAt_cons, hx]
    refine Takes.advance.bind (Takes.accept ha ?_)
    refine (he _ _ _ (by simp at hk ⊢; omega) h (follow_precedence _ hq (by decide))).bind ?_
    exact (Takes.expect hq).bind Takes.pure
  case block h =>
    have hne := ne_nil_of_kindAt_mem (List.mem_singleton.mpr h.kindAt_eq) (by decide)
    simp only [hkind, kindAt_append_of_ne_nil hne, h.kindAt_eq]
    exact hb _ _ _ hk h trivial
  case branch h =>
    have hne := ne_nil_of_kindAt_mem (List.mem_singleton.mpr h.kindAt_eq) (by decide)
    simp only [hkind, kindAt_append_of_ne_nil hne, h.kindAt_eq]
    exact hr _ _ _ hk h hf
  case loop hw ht hy =>
    simp only [List.cons_append, List.append_assoc] at hk hkind ⊢
    simp only [hkind, kindAt_cons, hw]
    refine (Takes.expect hw).bind ((he _ _ _ (by simp at hk ⊢; omega) ht (follow_block hy)).bind ?_)
    exact (hb _ _ _ (by simp at hk ⊢; omega) hy trivial).bind Takes.pure
  case define hfn hx hp hy =>
    simp only [List.cons_append, List.append_assoc] at hk hkind ⊢
    simp only [hkind, kindAt_cons, hfn]
    refine Takes.advance.bind (Takes.check (by simp [hx]) (Takes.advance.bind ?_))
    refine (paramList_takes hp).bind ?_
    exact (hb _ _ _ (by simp at hk ⊢; omega) hy trivial).bind Takes.pure
  case giveNil hg hq =>
    simp only [hkind, List.cons_append, kindAt_cons, hg]
    refine (Takes.expect hg).bind (Takes.check (by simp [hq]) ?_)
    exact (Takes.expect hq).bind Takes.pure
  case give hg h hq =>
    simp only [List.cons_append, List.append_assoc] at hk hkind ⊢
    simp only [hkind, kindAt_cons, hg]
    refine (Takes.expect hg).bind ?_
    refine Takes.uncheck (kindAt_append_notMem h.kindAt_mem (by decide)) ?_
    refine (he _ _ _ (by simp at hk ⊢; omega) h (follow_precedence _ hq (by decide))).bind ?_
    exact (Takes.expect hq).bind Takes.pure
  case printNone hp hl ht hr hq =>
    simp only [hkind, List.cons_append, kindAt_cons, hp]
    refine (Takes.expect hp).bind ((Takes.expect hl).bind ((Takes.expectOr ht).bind ?_))
    refine Takes.bound fun n hn => ?_
    obtain ⟨n, rfl⟩ := Nat.exists_eq_add_of_le' (show 1 ≤ n by omega)
    refine Takes.bind ?_ ((Takes.expect hr).bind ((Takes.expect hq).bind Takes.pure))
    rw [moreArgsFrom]
    exact Takes.unaccept (by simp [hr]) Takes.pure
  case print hp hl ht hc ha hr hq =>
    simp only [List.cons_append, List.append_assoc] at hk hkind ⊢
    simp only [hkind, kindAt_cons, hp]
    refine (Takes.expect hp).bind ((Takes.expect hl).bind ((Takes.expectOr ht).bind ?_))
    refine Takes.bound fun n hn => ?_
    refine (moreArgsFrom_takes he (by simp [hr]) hc ha n ?_ ?_).bind ?_
    · simp only [List.length_cons, List.length_append] at hk ⊢
      omega
    · simp only [List.length_cons, List.length_append] at hn
      omega
    · exact (Takes.expect hr).bind ((Takes.expect hq).bind Takes.pure)

/-! ## Sequences of statements -/

/-- A test that finds the end of a sequence at `stop`, and none where an item starts. The two fields
do not cover all tokens, and need not: at any other token the sequence can be neither over nor
continued. -/
structure Finds (atEnd : Parse Bool) (stop : Kind) : Prop where
  stops : ∀ {ts}, kindAt ts = stop → Takes atEnd ts true ts
  goes : ∀ {ts}, kindAt ts ∈ .comment :: stmtStarts → Takes atEnd ts false ts

theorem finds_atClosingBrace : Finds atClosingBrace .rbrace where
  stops h := Takes.check (by simp [h]) Takes.pure
  goes h := by
    have hks : ∀ k ∈ .comment :: stmtStarts, k ∉ [Kind.rbrace] ∧ k ∉ [Kind.eof] := by decide
    exact Takes.uncheck (hks _ h).1 (Takes.uncheck (hks _ h).2 Takes.pure)

theorem finds_check_eof : Finds (check [.eof]) .eof where
  stops h r hr := by
    have hat : r.at? [.eof] = true := by
      simp [Reader.at?, hr.kind_current, h]
    refine ⟨r, ?_, hr⟩
    change EStateM.Result.ok (r.at? [.eof]) r = _
    rw [hat]
  goes h := by
    have hks : ∀ k ∈ .comment :: stmtStarts, k ≠ .eof := by decide
    exact fun r hr => ⟨r, misses_check (hks _ h) r hr, hr⟩

/-- No item starts with `else`, so a conditional inside a sequence ends where it should. -/
theorem noElse_items {s : List Token} {body : List Stmt} (h : Items s body) (hrest : NoElse rest) :
    NoElse (s ++ rest) := by
  rcases h.kindAt_mem with rfl | hs
  · exact hrest
  · have hks : ∀ k ∈ .comment :: stmtStarts, k ≠ .elseKw := by decide
    rw [NoElse, kindAt_append_of_ne_nil (ne_nil_of_kindAt_mem hs (by decide))]
    exact hks _ hs

theorem statementsFrom_takes {atEnd : Parse Bool} {stop : Kind} {s : List Token}
    {body : List Stmt} (hat : Finds atEnd stop) (hs : Complete stmt Statement NoElse k)
    (hstop : stop ≠ .elseKw) (hrest : kindAt rest = stop) :
    Items s body → ∀ n : Nat, (s ++ rest).length < k → s.length < n →
      Takes (statementsFrom atEnd stmt n) (s ++ rest) body rest
  | .nil, n, _, hn => by
    obtain ⟨n, rfl⟩ := Nat.exists_eq_succ_of_ne_zero (Nat.ne_zero_of_lt hn)
    rw [statementsFrom]
    exact (hat.stops hrest).bind Takes.pure
  | .comment hc h, n, hk, hn => by
    obtain ⟨n, rfl⟩ := Nat.exists_eq_succ_of_ne_zero (Nat.ne_zero_of_lt hn)
    simp only [List.cons_append, List.length_cons] at hk hn
    rw [statementsFrom, List.cons_append]
    refine (hat.goes (by simp [hc])).bind (Takes.accept hc ?_)
    exact statementsFrom_takes hat hs hstop hrest h n (by omega) (by omega)
  | .stmt hst h, n, hk, hn => by
    obtain ⟨n, rfl⟩ := Nat.exists_eq_succ_of_ne_zero (Nat.ne_zero_of_lt hn)
    have hpos := List.length_pos_of_ne_nil hst.ne_nil
    have hstart := hst.kindAt_mem
    have hks : ∀ k ∈ stmtStarts, k ≠ .comment := by decide
    have hno : NoElse rest := by rw [NoElse, hrest]; exact hstop
    rw [List.append_assoc] at hk ⊢
    simp only [List.length_append] at hk hn
    rw [← kindAt_append_of_ne_nil hst.ne_nil] at hstart
    rw [statementsFrom]
    refine (hat.goes (List.mem_cons_of_mem _ hstart)).bind (Takes.unaccept (hks _ hstart) ?_)
    refine (hs _ _ _ (by simpa using hk) hst (noElse_items h hno)).bind ?_
    refine (statementsFrom_takes hat hs hstop hrest h n ?_ (by omega)).bind Takes.pure
    simp only [List.length_append]
    omega

theorem blockStmt_complete (hs : Complete stmt Statement NoElse k) :
    Complete (blockStmt stmt) Block (fun _ => True) (k + 1) := by
  intro s rest st hk h _
  rw [blockStmt]
  cases h with
  | braces hl hb hr =>
    rw [List.cons_append, List.append_assoc] at hk ⊢
    refine (Takes.expect hl).bind (Takes.bound fun n hn => ?_)
    refine (statementsFrom_takes finds_atClosingBrace hs (by decide) (by simpa using hr) hb n
      (by simpa using hk) ?_).bind ((Takes.expect hr).bind Takes.pure)
    simp only [List.length_append] at hn
    omega

/-! ## Programs -/

theorem complete_passes : Passes (Complete · Expression (Follow precedence))
    (Complete · Unary (Follow [])) (Complete · Block fun _ => True) (Complete · Branch NoElse)
    (Complete · Statement NoElse) where
  none := by simp [Complete]
  unary he hu := signed_complete he hu
  expr he hb hu := expression_complete he hb hu
  block hs := blockStmt_complete hs
  branch he hb hr := branchStmt_complete he hb hr
  stmt he hb hr := statement_complete he hb hr

/-- **Completeness.** A derived sequence is read to its end. -/
theorem program_complete {s : List Token} {body : List Stmt} (h : Items s body) :
    Takes program s body [] := by
  rw [program]
  refine Takes.bound fun n hn => Takes.bound fun n' hn' => ?_
  have hs : Complete (Parse.stmt n) Statement NoElse (s.length + 1) :=
    (recursion complete_passes (s.length + 1)).2.2.2.2 n (by omega)
  have := statementsFrom_takes finds_check_eof hs (by decide) kindAt_nil h n' (by simp) (by omega)
  rwa [List.append_nil] at this

end Treewalk.Parse
