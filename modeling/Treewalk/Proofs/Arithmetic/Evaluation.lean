import Treewalk.Proofs.Arithmetic.Written
import Treewalk.Proofs.Eval.Action
import Treewalk.Proofs.Grammar.Exact
import Treewalk.Proofs.Scan.Faults
import Treewalk.Session

/-!
# Formulas evaluated

An expression of the shape of a formula evaluates to the value of the formula. Where there is none,
it fails with a division by zero, and wherever it was too deep, the bound on nesting was not above
its depth. From this and from the words of a text follows what a session makes of a text.

The bound does matter: a formula whose first operands are nested more deeply than it is too deep,
whatever else is in the formula, because these are evaluated before anything can fail.

## Why the bound is in the statement

Evaluation has one more way to end than a formula has: it can be nested too deeply. A statement
that left this out would be false for every fixed bound, and a hypothesis that the bound is large
enough would have to be discharged by every caller, who does not see the tree. So `Ends` carries the
bound as a disjunct that says when it can apply: only if the bound is below the depth `k`. Both
sides of the disjunction pass through `blaming` and through `bind` without being looked at, and the
depth is compared with the bound once, at the very end, where it is known that a tree is not
deeper than its text is long.

The disjunct is not idle: `run_spine` says of which formulas it is the one that holds.

## Main definitions

* `Settled`, how evaluation ends where a formula has a value, and where it has none
* `Ends`, the same, or a bound on nesting that was too small
* `Formula.spine`, how deeply the first operands are nested

## Main results

* `ends_eval`: evaluation of an expression of the shape of a formula
* `Session.run_formula`
* `Session.run_spine`: formulas that are too deep

## Implementation notes

The induction of `ends_eval` is on the derivation of `Denotes`, so there is one case for a number,
for brackets, for a negation and for an operation, each with the bound as an arbitrary number. The
session comes in last and only once: a source of one statement is parsed, and its tree is one that
`Written.derives` gives, since a text has only one.

`Settled` says nothing about the place and the message of a division by zero. These are the
business of the results about failures, which hold of every program.
-/

namespace Treewalk.Arithmetic

open Grammar

/-! ## Ends of an evaluation -/

/-- The integer is the result, or a division by zero is the failure; the machine stays as it is.
Which division it is and where the failure is placed is left open, since the formula does not say
where its parts stand. -/
def Settled (m : Machine) : Option ℤ → EStateM.Result Stop Machine Value → Prop
  | some v, r => r = .ok (.int v) m
  | none, r => ∃ f, r = .error (.failure f) m ∧ f.fault.category = .zeroDivision

/-- The evaluation is settled, or it was too deep because the bound was too small. The formula has a
depth `k`, and with a bound of at least `k` the second case is excluded; so this holds of all bounds
and can be shown by an induction that does not look at them. -/
def Ends (k n : ℕ) (m : Machine) (o : Option ℤ) (r : EStateM.Result Stop Machine Value) : Prop :=
  Settled m o r ∨ n < k ∧ r = .error .tooDeep m

section

variable {k n : ℕ} {m : Machine} {o o' : Option ℤ} {p : Run Value}

theorem Ends.blaming (h : Ends k n m o (p m)) (mark : Mark) (frame : FrameId) :
    Ends (k + 1) (n + 1) m o (Run.blaming mark frame p m) := by
  rw [Run.blaming]
  obtain h | ⟨hn, h⟩ := h
  · refine .inl ?_
    cases o with
    | some v =>
      change p m = .ok (.int v) m at h
      rw [h]
      rfl
    | none =>
      obtain ⟨f, h, hf⟩ := h
      rw [h]
      exact ⟨_, rfl, by rwa [Failure.blame_fault]⟩
  · rw [h]
    exact .inr ⟨Nat.succ_lt_succ hn, rfl⟩

/-- What follows an evaluation runs if there is a value. -/
theorem Ends.bind {q : Value → Run Value} (h : Ends k n m o (p m))
    (hq : ∀ v, o = some v → Ends k n m o' (q (.int v) m)) (hnone : o = none → o' = none) :
    Ends k n m o' ((p >>= q) m) := by
  change Ends k n m o' (EStateM.bind p q m)
  rw [EStateM.bind]
  obtain h | ⟨hn, h⟩ := h
  · cases o with
    | some v =>
      change p m = .ok (.int v) m at h
      rw [h]
      exact hq v rfl
    | none =>
      obtain ⟨f, h, hf⟩ := h
      rw [h, hnone rfl]
      exact .inl ⟨f, rfl, hf⟩
  · rw [h]
    exact .inr ⟨hn, rfl⟩

end

/-! ## Operators -/

theorem settled_negate {sign : Operator} (hs : sign.kind = .minus) (m : Machine) (v : ℤ) :
    Settled m (some (-v)) (Run.lift ((Value.int v).applyUnary sign.kind) m) := by
  rw [hs]
  rfl

theorem settled_apply {op : Op} {sign : Operator} (hs : sign.kind = op.kind) (m : Machine)
    (a b : ℤ) :
    Settled m (op.apply a b) (Run.lift ((Value.int a).applyBinary sign (.int b)) m) := by
  have harith : (Value.int a).applyBinary sign (.int b) = Value.intArith op.kind a b := by
    rw [Value.applyBinary, hs]
    cases op <;> rfl
  rw [harith]
  cases op with
  | add | sub | mul => rfl
  | div =>
    by_cases hb : b = 0
    · rw [Op.apply, if_pos hb, Op.kind, Value.intArith, if_pos hb]
      exact ⟨_, rfl, rfl⟩
    · rw [Op.apply, if_neg hb, Op.kind, Value.intArith, if_neg hb, quotient_eq_fdiv]
      rfl
  | mod =>
    by_cases hb : b = 0
    · rw [Op.apply, if_pos hb, Op.kind, Value.intArith, if_pos hb]
      exact ⟨_, rfl, rfl⟩
    · rw [Op.apply, if_neg hb, Op.kind, Value.intArith, if_neg hb, remainder_eq_fmod]
      rfl

/-! ## Expressions -/

/-- With no nesting allowed, every evaluation is too deep. -/
theorem ends_zero (limit k : ℕ) (m : Machine) (o : Option ℤ) (e : Expr) (f : FrameId) :
    Ends (k + 1) 0 m o (Run.eval limit 0 e f m) := by
  rw [Run.eval]
  exact .inr ⟨Nat.succ_pos k, rfl⟩

/-- **An expression of the shape of a formula evaluates to its value.** The induction is on the
shape. Brackets only pass on what is inside them, and at an operation the left operand either fails,
and then nothing else is evaluated, or leaves the machine as it was. -/
theorem ends_eval (limit : ℕ) {k : ℕ} {t : Formula} {e : Expr} (h : Denotes k t e) (n : ℕ)
    (f : FrameId) (m : Machine) : Ends k n m t.value (Run.eval limit n e f m) := by
  induction h generalizing n with
  | literal =>
    cases n with
    | zero => exact ends_zero ..
    | succ n =>
      rw [Run.eval]
      exact .inl rfl
  | group h ih =>
    cases n with
    | zero => exact ends_zero ..
    | succ n =>
      rw [Run.eval]
      exact (ih n).blaming _ f
  | neg hs h ih =>
    cases n with
    | zero => exact ends_zero ..
    | succ n =>
      rw [Run.eval]
      refine Ends.blaming (Ends.bind (ih n) (fun v hv => .inl ?_) fun hnone => ?_) _ f
      · rw [Formula.value, hv]
        exact settled_negate hs m v
      · rw [Formula.value, hnone]
        rfl
  | @binary k op lhs rhs e e' mark sign hs hl hr ihl ihr =>
    cases n with
    | zero => exact ends_zero ..
    | succ n =>
      rw [Run.eval]
      refine Ends.blaming (Ends.bind (ihl n) (fun a ha => ?_) fun hnone => ?_) _ f
      · -- None of the operations is one of truth values, so the right operand is evaluated too.
        have hboth : Ends k n m (Formula.binary op lhs rhs).value
            ((Run.eval limit n e' f >>= fun b =>
              Run.lift ((Value.int a).applyBinary sign b)) m) := by
          rw [Formula.value, ha]
          refine Ends.bind (ihr n) (fun b hb => .inl ?_) fun hnone => ?_
          · rw [hb]
            exact settled_apply hs m a b
          · rw [hnone]
            rfl
        rw [hs]
        cases op <;> exact hboth
      · rw [Formula.value, hnone]
        rfl

theorem inOrder_singleton {α : Type} (action : α → Run Flow) (a : α) :
    Run.inOrder action [a] = action a := by
  funext m
  change EStateM.bind (action a) _ m = action a m
  rw [EStateM.bind]
  cases action a m with
  | error stop m' => rfl
  | ok flow m' => cases flow <;> rfl

/-- A unit that gives an expression is the expression, blamed on the statement. -/
theorem unit_give (limit n : ℕ) (mark : Mark) (e : Expr) (f : FrameId) :
    Run.unit ⟨n + 1, limit⟩ [.give mark e] f = Run.blaming mark f (Run.eval limit n e f) := by
  funext m
  rw [Run.unit, inOrder_singleton, Run.execIn, Run.exec]
  change EStateM.bind (Run.blaming mark f (EStateM.bind (Run.eval limit n e f)
    fun v => pure (Flow.give v))) (fun flow : Flow => pure flow.value) m = _
  rw [EStateM.bind, Run.blaming, EStateM.bind, Run.blaming]
  cases Run.eval limit n e f m with
  | ok v m' => rfl
  | error stop m' => cases stop <;> rfl

theorem ends_unit (limits : Limits) {k : ℕ} {t : Formula} {e : Expr} (h : Denotes k t e)
    (mark : Mark) (f : FrameId) (m : Machine) :
    Ends (k + 1) limits.nesting m t.value (Run.unit limits [.give mark e] f m) := by
  obtain ⟨nesting, limit⟩ := limits
  cases nesting with
  | zero =>
    refine .inr ⟨Nat.succ_pos k, ?_⟩
    rw [Run.unit, inOrder_singleton, Run.execIn, Run.exec]
    rfl
  | succ n =>
    rw [unit_give]
    exact (ends_eval limit h n f m).blaming mark f

/-! ## Nesting -/

/-- How many nodes of a formula stand one inside the other along the first operands. -/
def Formula.spine : Formula → ℕ
  | literal _ => 1
  | neg t => t.spine + 1
  | binary _ lhs _ => lhs.spine + 1

/-- First operands that are nested too deeply are all that is evaluated. -/
theorem eval_spine (limit : ℕ) {k : ℕ} {t : Formula} {e : Expr} (h : Denotes k t e) {n : ℕ}
    (hn : n < t.spine) (f : FrameId) (m : Machine) :
    Run.eval limit n e f m = .error .tooDeep m := by
  induction h generalizing n with
  | literal =>
    obtain rfl : n = 0 := Nat.lt_one_iff.mp hn
    rw [Run.eval]
    rfl
  | group h ih =>
    cases n with
    | zero =>
      rw [Run.eval]
      rfl
    | succ n =>
      rw [Run.eval, Run.blaming, ih (Nat.lt_of_succ_lt hn)]
  | neg hs h ih | binary hs h hr ih =>
    cases n with
    | zero =>
      rw [Run.eval]
      rfl
    | succ n =>
      rw [Run.eval, Run.blaming, Run.bind_of_error (ih (Nat.lt_of_succ_lt_succ hn))]

theorem unit_spine {limits : Limits} {k : ℕ} {t : Formula} {e : Expr} (h : Denotes k t e)
    (hn : limits.nesting ≤ t.spine) (mark : Mark) (f : FrameId) (m : Machine) :
    Run.unit limits [.give mark e] f m = .error .tooDeep m := by
  obtain ⟨nesting, limit⟩ := limits
  cases nesting with
  | zero =>
    rw [Run.unit, inOrder_singleton, Run.execIn, Run.exec]
    rfl
  | succ n =>
    rw [unit_give, Run.blaming, eval_spine limit h hn]

/-! ## Sources -/

/-- The keyword of the statement, up to a space. -/
theorem words_return (rest : List Char) :
    words ("return".toList ++ ' ' :: rest) = ⟨.returnKw, "return".toList, none⟩ :: words rest := by
  have hshape : shapeAt 'r' ("eturn".toList ++ ' ' :: rest) = ⟨.returnKw, 6, none⟩ := by
    rw [shapeAt, if_pos (by decide), Shape.word_break (by decide) (by decide)]
    rfl
  have hspace : ∀ c ∈ [' '], isSpace c = true := List.forall_mem_singleton.mpr (by decide)
  rw [← words_spaces hspace rest]
  exact words_cons (by decide) hshape

/-- A statement that gives a formula, as a source. -/
theorem exists_program {t : Formula} {text : String} (h : Written 0 t text.toList) :
    ∃ mark e, Source.program (Utf8.encode ("return " ++ text ++ ";")) = .ok [.give mark e] ∧
      Denotes text.length t e := by
  obtain ⟨ws, hws⟩ := h.derives
  let cs := "return".toList ++ ' ' :: (text.toList ++ [';'])
  have hencode : Utf8.encode ("return " ++ text ++ ";") = cs.flatMap String.utf8EncodeChar := by
    rw [Utf8.encode_eq, String.toList_append, String.toList_append, List.append_assoc]
    rfl
  have hplain : Plain cs := by
    have hword : Utf8.Ascii "return".toList := by decide
    exact (hword.append (List.forall_mem_cons.mpr ⟨by decide, h.ascii.append (by decide)⟩)).plain
  have hwords : words cs =
      ⟨.returnKw, "return".toList, none⟩ :: (ws ++ [⟨.semicolon, [';'], none⟩]) := by
    have hstops : Stops [';'] := by
      rintro c ⟨⟩
      decide
    rw [words_return, hws.words hstops]
    rfl
  have hspells : Spells (scan (Utf8.encode ("return " ++ text ++ ";"))).tokens
      (⟨.returnKw, "return".toList, none⟩ :: (ws ++ [⟨.semicolon, [';'], none⟩])) := by
    rw [hencode, ← hwords]
    exact Source.tokens_encode hplain
  have hsound : (scan (Utf8.encode ("return " ++ text ++ ";"))).diagnostics = [] := by
    rw [hencode]
    refine Source.diagnostics_encode hplain ?_
    rw [hwords]
    refine List.forall_mem_cons.mpr ⟨by decide, List.forall_mem_append.mpr ⟨hws.sound, ?_⟩⟩
    simp
  obtain ⟨r, us, htokens, hr, -, hus⟩ := hspells.cons
  obtain ⟨ts, qs, rfl, hts, hqs⟩ := hus.append
  obtain ⟨q, qs, rfl, hq, -, hqs⟩ := hqs.cons
  obtain rfl := hqs.nil
  obtain ⟨e, he, hdenotes⟩ := hws.tree hts
  have hexpr : Expression ts e := .level (.single (.single (.single he)))
  have hitems : Items (r :: (ts ++ [q])) [.give (Parse.markOf r) e] := by
    have hgive : Items (r :: (ts ++ [q]) ++ []) [.give (Parse.markOf r) e] :=
      .stmt (.give hr hexpr hq) .nil
    rwa [List.append_nil] at hgive
  rw [← htokens] at hitems
  exact ⟨_, e, Source.program_of_parse (Source.parse_of_items hitems) hsound, hdenotes⟩

end Treewalk.Arithmetic

namespace Treewalk.Session

open Arithmetic

/-- **Arithmetic on integers.** Whatever text writes a formula, running a statement that returns it
gives the value of the formula, at any size; and it fails with a division by zero exactly if a
divisor within the formula has the value zero, which is exactly if the formula has no value. Only if
the bound on nesting is no larger than the text can the run be too deep, and then it gives nothing.
A quotient is the floor of the exact quotient and a remainder what is left, so a remainder is zero
or has the sign of the divisor, and is smaller. -/
theorem run_formula {t : Formula} {text : String} (h : Written 0 t text.toList) (limits : Limits)
    (s : Session) (unit : Option String) :
    let outcome := (s.run limits unit (Utf8.encode ("return " ++ text ++ ";"))).1
    (limits.nesting ≤ text.length ∧ outcome = .error (.stopped .tooDeep) ∨
      (∀ v, t.value = some v → outcome = .ok (.int v)) ∧
        ((∃ f, outcome = .error (.stopped (.failure f)) ∧ f.fault.category = .zeroDivision) ↔
          t.DividesByZero)) ∧
      (t.value = none ↔ t.DividesByZero) ∧
      ∀ a b : ℤ, b ≠ 0 → (remainder a b = 0 ∨ (remainder a b).sign = b.sign) ∧
        |remainder a b| < |b| := by
  obtain ⟨mark, e, hprogram, hdenotes⟩ := exists_program h
  refine ⟨?_, t.value_eq_none_iff, fun a b hb => remainder_bounds a hb⟩
  rw [run, hprogram, runAccepted, evaluate]
  obtain hsettled | ⟨hnesting, hdeep⟩ := ends_unit limits hdenotes mark root (s.entering unit)
  · right
    rw [← t.value_eq_none_iff]
    cases hvalue : t.value with
    | some v =>
      rw [hvalue] at hsettled
      change Run.unit limits [.give mark e] root (s.entering unit) = .ok (.int v) _ at hsettled
      rw [hsettled]
      simp
    | none =>
      rw [hvalue] at hsettled
      obtain ⟨f, hfails, hf⟩ := hsettled
      rw [hfails]
      simp [hf]
  · left
    rw [hdeep]
    exact ⟨Nat.le_of_lt_succ hnesting, rfl⟩

/-- Minus thirty-one by two, in hexadecimal and with a zero in front, rounds to the floor. -/
theorem run_formula_floor :
    ((start none "").run ⟨99, 99⟩ none (Utf8.encode ("return " ++ "-0x1F / 02" ++ ";"))).1 =
      .ok (.int (-16)) := by
  let hexadecimal : Numeral := ⟨.hexadecimal, [⟨1, false⟩, ⟨15, true⟩], by simp, by decide⟩
  let decimal : Numeral := ⟨.decimal, [⟨0, false⟩, ⟨2, false⟩], by simp, by decide⟩
  have hquotient : Written 1 (.binary .div (.neg (.literal 31)) (.literal 2))
      ("-0x1F ".toList ++ '/' :: " 02".toList) := by
    have hnumber : Written 2 (.literal 31) "0x1F".toList := .literal hexadecimal
    have hlhs : Written 1 (.neg (.literal 31)) ("-0x1F".toList ++ [' ']) :=
      .behind rfl (.looser (.neg hnumber))
    have hrhs : Written 2 (.literal 2) (' ' :: "02".toList) := .before rfl (.literal decimal)
    exact @Written.binary .div _ _ _ _ hlhs hrhs
  have hwritten : Written 0 (.binary .div (.neg (.literal 31)) (.literal 2)) "-0x1F / 02".toList :=
    .looser hquotient
  obtain ⟨hdeep, -⟩ | ⟨hvalue, -⟩ := (run_formula hwritten ⟨99, 99⟩ (start none "") none).1
  · exact absurd hdeep (by decide)
  · refine hvalue (-16) ?_
    change Op.apply .div (-31) 2 = some (-16)
    rw [Op.apply, if_neg (by decide), quotient_eq_fdiv]
    rfl

/-- A formula whose first operands are nested as deeply as the bound allows is too deep together
with the statement that returns it, whatever its value is. -/
theorem run_spine {t : Formula} {text : String} (h : Written 0 t text.toList) {limits : Limits}
    (hlimit : limits.nesting ≤ t.spine) (s : Session) (unit : Option String) :
    (s.run limits unit (Utf8.encode ("return " ++ text ++ ";"))).1 =
      .error (.stopped .tooDeep) := by
  obtain ⟨mark, e, hprogram, hdenotes⟩ := exists_program h
  rw [run, hprogram, runAccepted, evaluate, unit_spine hdenotes hlimit]

end Treewalk.Session
