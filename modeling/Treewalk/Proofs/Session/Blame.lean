import Treewalk.Proofs.Eval.Functions
import Treewalk.Proofs.Eval.Origin
import Treewalk.Proofs.Grammar.Placed
import Treewalk.Proofs.Session.Reachable

/-!
# Failures point at the right token

A failure carries the mark of the node that raised it. In a session that has run nothing else that
node stands in the source, also if it stands in a function, so its mark is that of a token of the
source. Which faults a node raises itself depends on the node alone, and so does which token it is
placed on; together they say which token a fault is blamed on.

## Why the session must be new

In a session that has run other units, the node that fails may stand in a function of an earlier
one, and its position is one in the source of that unit. The position is still right for that
source; `failure_titled` follows it there. Here there is one source, and every node that can run
stands in it.

## Main definitions

* `written`, the invariant that all code comes from one place
* `Token.Explains`, a token that says what a fault is about

## Main results

* `Code.Raises.explained`: a node is placed on a token that explains what it raises
* `Session.failure_placed`

## Implementation notes

Two things are put together, and neither knows of the other. Which faults a node raises is a
question about evaluation, answered by `Code.Raises` without a source. Which token a node is placed
on is a question about the grammar, answered by `Code.Placed` without evaluation. `explained` goes
through the nodes once and compares the two.

The invariant is about an arbitrary kind of code that is closed under parts, so that it can be used
with the code of one source here, and with other kinds of code elsewhere.
-/

namespace Treewalk

open Parse

/-! ## Code of one source -/

/-- The body of the value, if it is a function, is code of a certain kind. -/
def Value.WrittenIn (C : Code → Prop) : Value → Prop
  | .closure c => C (.stmt c.body)
  | _ => True

/-- All code that runs is of a certain kind, and so are the bodies of all functions. -/
def written (C : Code → Prop) : Invariant where
  state m := m.store.Holds (Value.WrittenIn C)
  grows _ _ := True
  value _ v := v.WrittenIn C
  frame _ _ := True
  owned _ _ := True
  code _ _ := C
  fault _ := True

theorem written_ofFunctions {C : Code → Prop} (hC : ∀ c d, C c → d ∈ c.parts → C d) :
    (written C).OfFunctions where
  plain _ v hv := by
    cases v with
    | closure c => cases hv
    | _ => trivial
  fault _ := trivial
  refl _ := trivial
  trans _ _ := trivial
  value_grows _ hv := hv
  frame_grows _ _ := trivial
  owned_grows _ _ := trivial
  part hc hd := hC _ _ hc hd
  lookup hm _ hv := hm.get? hv
  assign hm _ _ hv := ⟨hm.define hv _ _, trivial⟩
  declare _ hm _ _ hv := ⟨hm.define hv _ _, trivial⟩
  enter hm _ hv := ⟨⟨hm.addChild hv _ _, trivial⟩, trivial, trivial⟩
  close hm _ hc hp := ⟨⟨hm, trivial⟩, hC _ _ hc (Code.mem_parts_of_function? hp)⟩
  called hv := ⟨hv, trivial⟩
  outside hm hs _ := by
    refine ⟨?_, trivial⟩
    change Store.Holds _ _
    rw [hs]
    exact hm

/-! ## Tokens that explain faults -/

/-- Kinds of comparison that ask for an order. -/
def Kind.isOrdering (k : Kind) : Bool :=
  [less, lessEqual, greater, greaterEqual].contains k

/-- The token says what a fault of a node is about: the name that is not bound, the function that is
called with the wrong number of arguments or too deeply, the quotient or remainder that does not
exist, or else the operator, the function or the statement that was given something it cannot
take. -/
def Token.Explains (t : Token) (c : Code) (f : Fault) : Prop :=
  match f.category with
  | .name => t.kind = .ident ∧ f.name? = some t.text
  | .arity | .recursion => t.kind = .ident ∧ ∃ args, c = .expr (.call (markOf t) t.text args)
  | .zeroDivision => t.kind = .slash ∨ t.kind = .percent
  | .unimplemented => t.kind = .percent
  | .type => t.kind.isArithmetic = true ∨ t.kind.isOrdering = true ∨ t.kind = .ident
  | .general => t.kind.isArithmetic = true ∨ t.kind = .ident ∨ t.kind = .printKw
  | .layout => False

theorem Fault.category_ne_layout {f : Fault} (h : f.isOrdinary = true) : f.category ≠ .layout := by
  cases f <;> first
    | (cases h; done)
    | simp [category]

variable {t : Token} {c : Code} {cause : Fault}

/-- A sign explains what its operator complains about. -/
theorem Fault.OfOperator.explains (h : cause.OfOperator t.kind)
    (hk : t.kind ≠ .equal → t.kind ≠ .unequal →
      t.kind.isArithmetic = true ∨ t.kind.isOrdering = true)
    (ho : cause.isOrdinary = true) : t.Explains c cause := by
  cases cause with
  | operand sort op => exact (hk h.1 h.2).imp_right .inl
  | float issue op => exact .inl h
  | divisionByZero => exact .inl h
  | moduloByZero => exact .inr h
  | floatModulo => exact h
  | unknownUnary | unknownBinary | unknownComparison | misfit | misuse => cases ho
  | _ => exact h.elim

theorem arithmetic_or_ordering {k : Kind} (hb : k.isBinary = true) (ha : k ≠ .andKw)
    (ho : k ≠ .orKw) (he : k ≠ .equal) (hu : k ≠ .unequal) :
    k.isArithmetic = true ∨ k.isOrdering = true := by
  cases k <;> simp_all +decide

/-- A call is explained by its name, whatever it complains about. -/
theorem explains_call {args : List Expr} (ht : t.kind = .ident) (ho : cause.isOrdinary = true)
    (hc : cause.category ∈ [.general, .type, .arity, .recursion, .layout]) :
    t.Explains (.expr (.call (markOf t) t.text args)) cause := by
  have hl := Fault.category_ne_layout ho
  rw [Token.Explains]
  cases hcat : cause.category with
  | general => exact .inr (.inl ht)
  | type => exact .inr (.inr ht)
  | arity | recursion => exact ⟨ht, args, rfl⟩
  | layout => exact absurd hcat hl
  | name | zeroDivision | unimplemented => simp [hcat] at hc

/-- A node is placed on a token that explains what it raises. Which fault it is decides which token
is wanted, and where the node stands decides which it has; the cases are those of the faults that a
node raises. -/
theorem Code.Raises.explained {ts : List Token} (h : c.Raises cause) (hplaced : c.Placed ts)
    (hproper : c.Proper) (ho : cause.isOrdinary = true) :
    ∃ t ∈ ts, c.mark = markOf t ∧ t.Explains c cause := by
  cases h with
  | name mark name | target mark name e =>
    obtain ⟨t, ht, rfl, hident, rfl⟩ := hplaced
    exact ⟨t, ht, rfl, hident, rfl⟩
  | callee mark name args =>
    obtain ⟨t, ht, rfl, hident, rfl⟩ := hplaced
    exact ⟨t, ht, rfl, hident, rfl⟩
  | @unary _ op v mark operand h =>
    obtain ⟨t, ht, rfl, rfl⟩ := hplaced
    have hanswers := Value.operates_applyUnary t.kind v
    rw [h] at hanswers
    refine ⟨t, ht, rfl, hanswers.explains (fun _ _ => ?_) ho⟩
    have hunary : t.kind = .minus ∨ t.kind = .notKw := by
      have hk : t.kind.isUnary = true := hproper
      simpa [Kind.isUnary] using hk
    rcases hunary with hminus | hnot
    · exact .inl (by rw [hminus]; rfl)
    · rw [hnot] at h
      cases h
  | @binary _ op v w mark lhs rhs ha hor h =>
    obtain ⟨t, ht, rfl, rfl⟩ := hplaced
    have hanswers := Value.operates_applyBinary ⟨t.kind, t.text⟩ v w
    rw [h] at hanswers
    exact ⟨t, ht, rfl, hanswers.explains (arithmetic_or_ordering hproper ha hor) ho⟩
  | arity mark name args | depth mark name args | uncallable mark name args =>
    obtain ⟨t, ht, rfl, hident, rfl⟩ := hplaced
    exact ⟨t, ht, rfl, explains_call hident ho (by simp [Fault.category])⟩
  | @builtin _ b vs m m' mark name args h =>
    obtain ⟨t, ht, rfl, hident, rfl⟩ := hplaced
    obtain ⟨cause', hcause, hcat⟩ := (b.call_quiet vs).fault h
    cases hcause
    refine ⟨t, ht, rfl, explains_call hident ho ?_⟩
    revert hcat
    cases cause.category <;> decide
  | print mark args h =>
    obtain ⟨⟨t, ht, rfl, hprint⟩, -⟩ := hplaced
    refine ⟨t, ht, rfl, ?_⟩
    have hcat := category_of_printText h
    have hl := Fault.category_ne_layout ho
    rw [Token.Explains]
    cases hc : cause.category with
    | general => exact .inr (.inr hprint)
    | _ => simp_all
  | expression | statement => cases ho

namespace Session

/-- **Failures point at the right token.** Run a source in a session that has run nothing, with any
input. If it fails, then some moment of the run raised the fault, and the failure carries the line
and column of a token of the source, that of the node at that moment, which explains the fault. -/
theorem failure_placed (source : List UInt8) (name unit : Option String) (input : String)
    (limits : Limits) {f : Failure}
    (h : ((start name input).run limits unit source).1 = .error (.stopped (.failure f))) :
    ∃ t ∈ (scan source).tokens, ∃ (b : Moment) (title : Option String),
      (start name input).Passes limits unit source b ∧ b.code.Raises f.fault ∧
      f.place = some (.place t.pos.line t.pos.column, title) ∧ t.Explains b.code f.fault := by
  obtain ⟨body, m, hp, hu⟩ := exists_of_run_stopped h
  obtain ⟨b, hpass, horigin⟩ := Run.exists_origin_unit hu
  -- the node at that moment stands in the source, whatever function it is in
  have hstable := (written_ofFunctions (C := fun c => ∃ st ∈ body, c.Within (.stmt st))
    fun c d ⟨st, hst, hc⟩ hd => ⟨st, hst, (Code.Within.part (.refl d) hd).trans hc⟩).stable
  have hentering : ((start name input).entering unit).store.Holds
      (Value.WrittenIn fun c => ∃ st ∈ body, c.Within (.stmt st)) := by
    have hstart := Store.holds_initial (P := Value.WrittenIn fun c =>
      ∃ st ∈ body, c.Within (.stmt st)) name fun _ => trivial
    cases unit with
    | none => exact hstart
    | some title => exact hstart.rename _ _
  obtain ⟨st, hst, hwithin⟩ := (hstable.passes hentering (fun st hst => ⟨st, hst, .refl _⟩) trivial
    trivial hpass).1.code
  have hordinary := ((proper_rooted.run_keeps proper_stable (s := start name input)
    (Store.holds_initial name fun _ => trivial) limits unit source).2 f h).ordinary
  obtain ⟨t, ht, hmark, hexplains⟩ := horigin.raises.explained
    (Source.placed_of_program hp st hst _ hwithin) (Source.proper_of_program hp st hst _ hwithin)
    hordinary
  refine ⟨t, ht, b, m.store.source? b.frame, ⟨body, hp, hpass⟩, horigin.raises, ?_, hexplains⟩
  have hplace := horigin.place (Fault.category_ne_layout hordinary)
    (by rw [hmark]; exact Mark.noConfusion)
  rw [hplace, hmark]
  rfl

/-- The failure of a call is that of the name in the body of the function. -/
theorem failure_placed_body :
    let source := "fn f() \x7b return y; \x7d f();".toList.flatMap String.utf8EncodeChar
    ∃ t ∈ (scan source).tokens, ∃ (b : Moment) (title : Option String),
      (start none "").Passes ⟨9, 9⟩ none source b ∧ b.code.Raises (.undefined "y") ∧
      some (Mark.place 1 17, none) = some (.place t.pos.line t.pos.column, title) ∧
      t.Explains b.code (.undefined "y") := by
  have hp : Source.program ("fn f() \x7b return y; \x7d f();".toList.flatMap
      String.utf8EncodeChar) =
      .ok [.define (.place 1 1) "f" [] (.block (.place 1 8)
          [.give (.place 1 10) (.var (.place 1 17) "y")]),
        .eval (.place 1 22) (.call (.place 1 22) "f" [])] := rfl
  refine failure_placed _ none none "" ⟨9, 9⟩ (f := ⟨.undefined "y", some (.place 1 17, none)⟩) ?_
  rw [run, hp]
  rfl

end Session

end Treewalk
