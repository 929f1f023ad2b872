import Treewalk.Proofs.Session.Reachable

/-!
# Decimals stay finite

Infinities and results that are no number exist as decimals, but no session comes to one: a literal
is finite however large its exponent, an integer that meets a decimal is converted exactly, and an
operation on finite operands gives a finite result or, if that would be too large, none. So two
numbers always have an order, and a decimal operation fails for no other reason than size.

## Why the results of operations are finite

An infinity comes from an overflow, and an overflow is a fault. A result that is no number comes
from an infinity, or from a division of zero by zero, and a division by zero is a fault as well. So
there is nothing that a program could compute to get at either, as long as nothing of the kind is
there at the beginning; and numerals cannot denote it. The one way that would be left, a constant
put into a tree by hand, is closed by reading the tree from a source.

## Main definitions

* `Value.Finite`
* `Moment.Finite`, what this says about code that is about to run

## Main results

* `Session.decimals_finite`

## Implementation notes

`Finite` is weaker than `Proper`, from which it follows. It is stated on its own because it is what
the arithmetic needs, and because it can be checked on a value without knowing anything else.

The moment is described by four properties and not by one about steps in between, since there are no
steps in between: an operation takes values that expressions have had at other moments, and each of
these moments is described for itself.
-/

namespace Treewalk

/-! ## Values -/

namespace Value

/-- Any decimal that the value holds is finite. A mixed literal may hold something else. -/
def Finite : Value → Prop
  | float d => d.isFinite = true
  | mixed _ _ => False
  | _ => True

variable {v w : Value} {kind : Kind}

theorem Proper.finite (h : v.Proper) : v.Finite := by
  cases v with
  | float d => exact h
  | mixed => exact h
  | _ => trivial

/-- An operator of comparison has an answer for every order. -/
theorem exists_ofOrder (hk : kind.isComparison = true) (order : Ordering) :
    ∃ answer, ofOrder kind order = .ok (.bool answer) := by
  cases kind <;> first
    | exact absurd hk (by decide)
    | exact ⟨_, rfl⟩

/-- A proper value that counts as a number is an integer or a finite decimal. -/
theorem exists_number (hv : v.Proper) (hn : v.number?.isSome = true) (op : String) :
    ∃ n, v.number op = .ok n ∧ n.Proper := by
  have hy := number_yields hv op
  obtain ⟨n, hn⟩ := Option.isSome_iff_exists.mp hn
  have hok : v.number op = .ok n := by rw [number, hn]
  rw [hok] at hy
  exact ⟨n, hok, hy⟩

theorem exists_toDecimal {n : Number} (hn : n.Proper) :
    ∃ d, n.toDecimal = .ok d ∧ d.isFinite = true := by
  cases n with
  | int n => exact ⟨.ofInt n, rfl, rfl⟩
  | float d => exact ⟨d, rfl, hn⟩
  | part => exact hn.elim

/-- Proper values that count as numbers have an order. -/
theorem exists_compare (hk : kind.isComparison = true) (op : String) (hv : v.Proper)
    (hw : w.Proper) (hvn : v.number?.isSome = true) (hwn : w.number?.isSome = true) :
    ∃ answer, v.compare kind op w = .ok (.bool answer) := by
  obtain ⟨a, ha, hpa⟩ := exists_number hv hvn op
  obtain ⟨b, hb, hpb⟩ := exists_number hw hwn op
  rw [compare, hvn, hwn, Bool.and_self, if_pos rfl, compareAsNumbers, ha, hb]
  dsimp only [bind, Except.bind]
  split
  · exact exists_ofOrder hk _
  · next hne =>
    obtain ⟨x, hx, hfx⟩ := exists_toDecimal hpa
    obtain ⟨y, hy, hfy⟩ := exists_toDecimal hpb
    rw [if_pos (isFloat_of_proper hpa hpb fun m n hm hn => hne m n hm hn), hx, hy]
    change ∃ answer, compareDecimals kind x y = .ok (.bool answer)
    rw [compareDecimals, Decimal.compare?_of_finite hfx hfy]
    exact exists_ofOrder hk _

end Value

/-! ## Moments -/

/-- An operator that evaluates both of its operands is applied to their values. -/
theorem Run.eval_binary {limit n : Nat} {f : FrameId} {m m' m'' : Machine} (mark : Mark)
    {lhs rhs : Expr} {op : Operator} {u v w : Value} (ha : op.kind ≠ .andKw) (ho : op.kind ≠ .orKw)
    (hl : eval limit n lhs f m = .ok v m') (hr : eval limit n rhs f m' = .ok w m'')
    (hu : v.applyBinary op w = .ok u) :
    eval limit (n + 1) (.binary mark lhs op rhs) f m = .ok u m'' := by
  have hright : (eval limit n rhs f >>= fun w => lift (v.applyBinary op w)) m' = .ok u m'' :=
    (bind_of_ok hr).trans (by rw [hu]; rfl)
  rw [eval.eq_def]
  refine blaming_of_ok _ _ ((bind_of_ok hl).trans ?_)
  cases hk : op.kind <;> first
    | exact hright
    | exact absurd hk ha
    | exact absurd hk ho

/-- A comparison of values that both count as numbers has an answer. -/
def Moment.Compares (limit : Nat) (b : Moment) : Prop :=
  ∀ (n : Nat) (mark : Mark) (lhs rhs : Expr) (op : Operator) (v w : Value) (m m' : Machine),
    b.nesting = n + 1 → b.code = .expr (.binary mark lhs op rhs) → op.kind.isComparison = true →
    Run.eval limit n lhs b.frame b.machine = .ok v m → v.number?.isSome = true →
    Run.eval limit n rhs b.frame m = .ok w m' → w.number?.isSome = true →
      ∃ answer, b.run limit b.machine = .ok (.bool answer) m'

/-- A moment at which all decimals are finite: those that are bound when it comes and when it is
over, and that of its value. Nothing in it fails for want of a result but for the size of it, and
numbers are compared with success. -/
structure Moment.Finite (limit : Nat) (b : Moment) : Prop where
  before : b.machine.store.Holds Value.Finite
  after : ((b.run limit).after b.machine).store.Holds Value.Finite
  value : ∀ v m, b.run limit b.machine = .ok v m → v.Finite
  fault : ∀ f m op, b.run limit b.machine = .error (.failure f) m → f.fault ≠ .float .invalid op
  compares : b.Compares limit

theorem Store.Proper.finite {s : Store} (h : s.Proper) : s.Holds Value.Finite :=
  fun g entry he => (h g entry he).finite

theorem Fault.Proper.ne_invalid {f : Fault} (h : f.Proper) (op : String) : f ≠ .float .invalid op :=
  fun hf => h.issue (by rw [hf]; rfl)

namespace Moment

variable {limit : Nat} {b : Moment}

theorem compares_of_proper (h : proper.At b) : b.Compares limit := by
  obtain ⟨_, _, f, m₀⟩ := b
  rintro n mark lhs rhs op v w m m' rfl rfl hk hl hvn hr hwn
  obtain ⟨he, -⟩ := proper_stable.keeps limit n
  have hlhs : Code.All Code.Proper (.expr lhs) := h.code.part (by simp [Code.parts])
  have hrhs : Code.All Code.Proper (.expr rhs) := h.code.part (by simp [Code.parts])
  obtain ⟨hn, hv⟩ := (he (m := m₀) (f := f) hlhs trivial).of_ok h.state hl
  obtain ⟨-, hw⟩ := (he (m := m) (f := f) hrhs trivial).of_ok hn.state hr
  obtain ⟨answer, ha⟩ := Value.exists_compare hk op.text hv hw hvn hwn
  have hkind : op.kind ≠ .andKw ∧ op.kind ≠ .orKw := by
    constructor <;> rintro hc <;> simp [hc, Kind.isComparison] at hk
  refine ⟨answer, Run.eval_binary mark hkind.1 hkind.2 hl hr ?_⟩
  rw [Value.applyBinary, if_pos hk, ha]

/-- Where everything is proper all decimals are finite. -/
theorem finite_of_proper (h : proper.At b) : b.Finite limit := by
  have hk := proper_stable.run_keeps h limit
  have hkeeps := hk h.state
  refine ⟨h.state.finite, (hk.next_after h.state).state.finite,
    fun v m hr => (hk.of_ok h.state hr).2.finite, fun f m op hr => ?_, compares_of_proper h⟩
  rw [hr] at hkeeps
  exact (hkeeps.2 f rfl).ne_invalid op

end Moment

/-! ## Sessions -/

/-- **Decimals stay finite.** Take any session, whatever units, resets and calls of built-in
functions it has seen and whatever its input. All decimals that are bound are finite, and so they
are at every moment of one more unit, with those that are only intermediate values; the value of the
unit is finite too. Neither at any moment nor in the end does a decimal operation fail but for the
size of its result, and any two numbers that are compared have an order. -/
theorem Session.decimals_finite (name : Option String) (input : String) (events : List Event) :
    let s := (start name input).meetAll events
    s.machine.store.Holds Value.Finite ∧
    ∀ (limits : Limits) (unit : Option String) (source : List UInt8),
      (∀ b, s.Passes limits unit source b → b.Finite limits.rounds) ∧
      (∀ v, (s.run limits unit source).1 = .ok v → v.Finite) ∧
      ∀ f op, (s.run limits unit source).1 = .error (.stopped (.failure f)) →
        f.fault ≠ .float .invalid op := by
  have hs := proper_rooted.state_meetAll (s := start name input) proper_stable
    (Store.holds_initial name fun _ => trivial) events
  refine ⟨Store.Proper.finite hs, fun limits unit source => ⟨fun b hb => ?_, fun v hv => ?_,
    fun f op hf => ?_⟩⟩
  · exact Moment.finite_of_proper (proper_rooted.at_passes proper_stable hs hb).1
  · exact (proper_rooted.value_of_run proper_stable hs hv).finite
  · exact ((proper_rooted.run_keeps proper_stable hs limits unit source).2 f hf).ne_invalid op

/-- A literal may lie beyond all results. It is finite, but its negation has none. -/
example :
    let source := "return -1e9999999;".toList.flatMap String.utf8EncodeChar
    ((Session.start none "").run ⟨9, 9⟩ none source).1 =
      .error (.stopped (.failure ⟨.float .overflow "-", some (.place 1 8, none)⟩)) := by
  rfl

end Treewalk
