import Treewalk.Proofs.Decimal.Order
import Treewalk.Proofs.Eval.Rounding
import Treewalk.Proofs.Session.Decimals

/-!
# Comparison

A comparison of numbers answers what is true of the exact numbers, whether they are integers, truth
values or floats, and nothing is rounded on the way. Equality is asked of all values. What a value
is taken for is a number, a text of its sort, a function that was made once, a built-in function or
nil, and two values are equal if they are taken for the same. So equality is an equivalence however
the kinds of the values are mixed, and the order of numbers is total.

Decimals that are no numbers would spoil this, and so would what trees made by hand put in place of
a number. No session comes to such a value.

## Why equality is described by what values are taken for

One could say for each pair of kinds when two values are equal, and then prove for each triple of
kinds that equality is transitive. `identity?` replaces this by a map to one type with an equality
of its own, and equivalence is inherited. It also shows the two places where kinds are mixed: truth
values, integers and floats are all numbers, and a character and a string of one character are
different.

## What is deliberately absent

Results that are no number are excluded by the hypothesis that values are finite, and not given some
place in the order. As decimals they exist, and the arithmetic knows how to treat them; equality
would not be reflexive with them, and the order would not be total.

## Main definitions

* `Kind.relates`, the relation that a comparison asks about
* `Identity`, `Value.identity?`, what a value is taken for
* `Value.Arises`, the values that sessions come to

## Main results

* `Value.compare_of_amount`: comparisons of numbers are exact
* `Value.compare_equal`: equality is that of what the values are taken for
* `Value.comparison_coherent`

## Implementation notes

Comparing two floats, or a float and an integer, goes through decimals with exponents, and the exact
numbers are rationals. The step from one to the other is the only arithmetic here and is made in
`compare_of_amount`, for all six operators at once. Everything after it is about rationals, where
the laws of an order are those of the library.
-/

namespace Treewalk

/-- The relation of numbers that a comparison asks about. -/
def Kind.relates (kind : Kind) (p q : ℚ) : Bool :=
  match kind with
  | .equal => p = q
  | .unequal => p ≠ q
  | .less => p < q
  | .greater => q < p
  | .lessEqual => p ≤ q
  | .greaterEqual => q ≤ p
  | _ => false

/-- What a value is taken for when it is compared. -/
inductive Identity where
  | nil
  | number (value : ℚ)
  | char (text : String)
  | string (text : String)
  | closure (id : Nat)
  | builtin (value : Builtin)
  deriving DecidableEq

namespace Value

/-- What a value is taken for when it is compared; a decimal that is no number and what a mixed
literal holds are left out. -/
def identity? (v : Value) : Option Identity :=
  match v with
  | nil => some .nil
  | bool _ | int _ | float _ => v.amount?.map .number
  | char text => some (.char text)
  | string text => some (.string text)
  | closure c => some (.closure c.id)
  | builtin b => some (.builtin b)
  | mixed _ _ => none

/-- The value is an integer, a truth value or a float. -/
def isNumeric : Value → Bool
  | bool _ | int _ | float _ => true
  | _ => false

variable {kind : Kind} {a b v w : Value} {p q : ℚ}

/-! ## Numbers -/

theorem ofOrder_cmp (hk : kind.isComparison = true) (p q : ℚ) :
    ofOrder kind (cmp p q) = .ok (.bool (kind.relates p q)) := by
  have hlt : cmp p q = .lt ↔ p < q := cmp_eq_lt_iff p q
  have heq : cmp p q = .eq ↔ p = q := cmp_eq_eq_iff p q
  have hgt : cmp p q = .gt ↔ q < p := cmp_eq_gt_iff p q
  generalize cmp p q = order at *
  cases kind <;> first
    | exact absurd hk (by decide)
    | simp [ofOrder, holds, Kind.relates, hlt, heq, hgt]

theorem proper_of_amount? (ha : a.amount? = some p) : a.Proper := by
  cases a with
  | bool | int => trivial
  | float d =>
    rw [amount?] at ha
    split at ha
    · next hd => exact hd
    · cases ha
  | _ => cases ha

theorem isSome_number?_of_amount? (ha : a.amount? = some p) : a.number?.isSome = true := by
  cases a with
  | bool | int | float => rfl
  | _ => cases ha

/-- **Comparisons of numbers are exact.** Two integers are compared as such; if there is a float,
both are decimals, and the order of those is that of their values. -/
theorem compare_of_amount (hk : kind.isComparison = true) (op : String) (ha : a.amount? = some p)
    (hb : b.amount? = some q) : a.compare kind op b = .ok (.bool (kind.relates p q)) := by
  obtain ⟨m, x, hm, hx, hxfinite, rfl, -, -⟩ := exists_operand ha op
  obtain ⟨n, y, hn, hy, hyfinite, rfl, -, -⟩ := exists_operand hb op
  have hmproper := number_yields (proper_of_amount? ha) op
  have hnproper := number_yields (proper_of_amount? hb) op
  rw [hm] at hmproper
  rw [hn] at hnproper
  rw [compare, isSome_number?_of_amount? ha, isSome_number?_of_amount? hb, Bool.and_self,
    if_pos rfl, compareAsNumbers, hm, hn]
  dsimp only [bind, Except.bind]
  split
  · next i j =>
    cases hx
    cases hy
    rw [Decimal.value_ofInt, Decimal.value_ofInt, ← Decimal.cmp_intCast]
    exact ofOrder_cmp hk i j
  · next hne =>
    rw [if_pos (isFloat_of_proper hmproper hnproper fun i j hi hj => hne i j hi hj), hx, hy]
    change compareDecimals kind x y = _
    rw [compareDecimals, Decimal.compare?_of_finite hxfinite hyfinite,
      Decimal.compare_eq_cmp hxfinite hyfinite]
    exact ofOrder_cmp hk x.value y.value

/-! ## Kinds of values -/

theorem isSome_amount? (hv : v.Finite) : v.amount?.isSome = v.isNumeric := by
  cases v with
  | float d => rw [amount?, if_pos (show d.isFinite = true from hv)]; rfl
  | mixed => exact hv.elim
  | _ => rfl

theorem isSome_number? (hv : v.Finite) : v.number?.isSome = v.isNumeric := by
  cases v with
  | mixed => exact hv.elim
  | _ => rfl

theorem exists_amount (hv : v.Finite) (hn : v.isNumeric = true) : ∃ p, v.amount? = some p :=
  Option.isSome_iff_exists.mp ((isSome_amount? hv).trans hn)

/-- A number is taken for the number that it is. -/
theorem identity?_of_amount (ha : a.amount? = some p) : a.identity? = some (.number p) := by
  cases a with
  | bool | int | float => exact congrArg (Option.map Identity.number) ha
  | _ => cases ha

theorem not_both_number? (hv : v.Finite) (hw : w.Finite)
    (hn : (v.isNumeric && w.isNumeric) = false) :
    ¬ (v.number?.isSome && w.number?.isSome) = true := by
  rw [isSome_number? hv, isSome_number? hw, hn]
  exact Bool.false_ne_true

/-- Values that are not both numbers are compared by what they hold, or by what function they
are. -/
theorem same?_eq (hv : v.Finite) (hw : w.Finite) (hn : (v.isNumeric && w.isNumeric) = false) :
    v.same? w = some (decide (v.identity? = w.identity?)) := by
  cases v <;> cases w <;> first
    | exact hv.elim
    | exact hw.elim
    | exact Bool.noConfusion hn
    | simp [same?, content?, identity?, amount?]

/-- **Equality** is that of what the values are taken for, and inequality is its negation. Numbers
are taken for what they are worth, whatever their kind, and everything else for itself. -/
theorem compare_equal (hv : v.Finite) (hw : w.Finite) (op : String) :
    v.compare .equal op w = .ok (.bool (decide (v.identity? = w.identity?))) ∧
      v.compare .unequal op w = .ok (.bool !decide (v.identity? = w.identity?)) := by
  by_cases hn : (v.isNumeric && w.isNumeric) = true
  · obtain ⟨hnv, hnw⟩ := Bool.and_eq_true_iff.mp hn
    obtain ⟨p, hp⟩ := exists_amount hv hnv
    obtain ⟨q, hq⟩ := exists_amount hw hnw
    rw [compare_of_amount rfl op hp hq, compare_of_amount rfl op hp hq, identity?_of_amount hp,
      identity?_of_amount hq]
    simp [Kind.relates]
  · have hn := Bool.eq_false_iff.mpr hn
    have hnumber := not_both_number? hv hw hn
    rw [compare, compare, if_neg hnumber, if_neg hnumber, same?_eq hv hw hn]
    exact ⟨rfl, rfl⟩

theorem compare_equal_iff (hv : v.Finite) (hw : w.Finite) (op : String) :
    v.compare .equal op w = .ok (.bool true) ↔ v.identity? = w.identity? := by
  rw [(compare_equal hv hw op).1]
  simp

theorem number_of_not_numeric (hv : v.Finite) (hn : v.isNumeric = false) (op : String) :
    v.number op = .error (.operand v.sort op) := by
  have hnumber := isSome_number? hv
  rw [hn, Option.isSome_eq_false_iff, Option.isNone_iff_eq_none] at hnumber
  rw [number, hnumber]

/-- An ordering that is asked of something else than two numbers is refused. -/
theorem compare_refused (hk : kind ≠ .equal ∧ kind ≠ .unequal) (hv : v.Finite) (hw : w.Finite)
    (hn : (v.isNumeric && w.isNumeric) = false) (op : String) :
    ∃ sort, v.compare kind op w = .error (.operand sort op) := by
  rw [compare, if_neg (not_both_number? hv hw hn), if_neg hk.1, if_neg hk.2, compareAsNumbers]
  cases hnv : v.isNumeric with
  | false => exact ⟨_, by rw [number_of_not_numeric hv hnv]; rfl⟩
  | true =>
    rw [hnv, Bool.true_and] at hn
    obtain ⟨p, hp⟩ := exists_amount hv hnv
    obtain ⟨m, -, hm, -⟩ := exists_operand hp op
    exact ⟨_, by rw [hm, number_of_not_numeric hw hn]; rfl⟩

/-! ## Values of sessions -/

/-- The values that sessions come to: those that are bound between units or at any moment of a unit,
and those that an expression has or a statement gives at such a moment. -/
inductive Arises : Value → Prop where
  | bound (name : Option String) (input : String) (events : List Session.Event) {f : FrameId}
    {entry : String × Value}
    (h : entry ∈ ((Session.start name input).meetAll events).machine.store.vars f) :
    Arises entry.2
  | met (name : Option String) (input : String) (events : List Session.Event) {limits : Limits}
    {unit : Option String} {source : List UInt8} {b : Moment} {f : FrameId} {entry : String × Value}
    (hb : ((Session.start name input).meetAll events).Passes limits unit source b)
    (h : entry ∈ b.machine.store.vars f) : Arises entry.2
  | outcome (name : Option String) (input : String) (events : List Session.Event) {limits : Limits}
    {unit : Option String} {source : List UInt8} {b : Moment} {v : Value} {m : Machine}
    (hb : ((Session.start name input).meetAll events).Passes limits unit source b)
    (h : b.run limits.rounds b.machine = .ok v m) : Arises v

/-- Sessions come to finite decimals only, and to nothing mixed. -/
theorem Arises.finite (h : v.Arises) : v.Finite := by
  have hs (name : Option String) (input : String) (events : List Session.Event) :
      proper.state ((Session.start name input).meetAll events).machine :=
    proper_rooted.state_meetAll (s := .start name input) proper_stable
      (Store.holds_initial name fun _ => trivial) events
  cases h with
  | bound name input events h => exact (hs name input events _ _ h).finite
  | @met name input events limits unit source b f entry hb h =>
    have hmoment := proper_rooted.at_passes proper_stable (hs name input events) hb
    have hfinite : b.Finite limits.rounds := Moment.finite_of_proper hmoment.1
    exact hfinite.before f entry h
  | outcome name input events hb h =>
    have hmoment := proper_rooted.at_passes proper_stable (hs name input events) hb
    exact (Moment.finite_of_proper hmoment.1).value _ _ h

/-! ## Coherence -/

/-- The comparison of two values holds. -/
def Holds (kind : Kind) (op : String) (v w : Value) : Prop :=
  v.compare kind op w = .ok (.bool true)

theorem holds_iff (hk : kind.isComparison = true) (op : String) (ha : a.amount? = some p)
    (hb : b.amount? = some q) : Holds kind op a b ↔ kind.relates p q = true := by
  rw [Holds, compare_of_amount hk op ha hb]
  simp

/-- What a total order says of three values, in terms of what comparisons answer. -/
structure Ordered (op : String) (a b c : Value) : Prop where
  total : Holds .lessEqual op a b ∨ Holds .lessEqual op b a
  trans : Holds .lessEqual op a b → Holds .lessEqual op b c → Holds .lessEqual op a c
  antisymm : Holds .lessEqual op a b → Holds .lessEqual op b a → Holds .equal op a b
  strict : Holds .less op a b ↔ Holds .lessEqual op a b ∧ ¬ Holds .equal op a b
  trans_strict : Holds .less op a b → Holds .less op b c → Holds .less op a c

theorem ordered {r : ℚ} {c : Value} (ha : a.amount? = some p) (hb : b.amount? = some q)
    (hc : c.amount? = some r) (op : String) : Ordered op a b c := by
  have hle {a b : Value} {p q : ℚ} (ha : a.amount? = some p) (hb : b.amount? = some q) :
      Holds .lessEqual op a b ↔ p ≤ q := by
    rw [holds_iff rfl op ha hb, Kind.relates, decide_eq_true_iff]
  have hlt {a b : Value} {p q : ℚ} (ha : a.amount? = some p) (hb : b.amount? = some q) :
      Holds .less op a b ↔ p < q := by
    rw [holds_iff rfl op ha hb, Kind.relates, decide_eq_true_iff]
  have heq : Holds .equal op a b ↔ p = q := by
    rw [holds_iff rfl op ha hb, Kind.relates, decide_eq_true_iff]
  constructor
  · rw [hle ha hb, hle hb ha]
    exact le_total p q
  · rw [hle ha hb, hle hb hc, hle ha hc]
    exact le_trans
  · rw [hle ha hb, hle hb ha, heq]
    exact le_antisymm
  · rw [hlt ha hb, hle ha hb, heq]
    exact lt_iff_le_and_ne
  · rw [hlt ha hb, hlt hb hc, hlt ha hc]
    exact lt_trans

/-- Equality is an equivalence, whatever kinds of values meet. -/
theorem equivalence_equal (op : String) :
    Equivalence fun v w : { v : Value // v.Finite } => Holds .equal op v.1 w.1 := by
  constructor
  · intro v
    exact (compare_equal_iff v.2 v.2 op).mpr rfl
  · intro v w h
    exact (compare_equal_iff w.2 v.2 op).mpr ((compare_equal_iff v.2 w.2 op).mp h).symm
  · intro u v w h h'
    have huv := (compare_equal_iff u.2 v.2 op).mp h
    have hvw := (compare_equal_iff v.2 w.2 op).mp h'
    exact (compare_equal_iff u.2 w.2 op).mpr (huv.trans hvw)

/-- An ordering has an answer for two numbers, and is otherwise a fault about the sort of a
value. -/
theorem compare_ordering (hk : kind ∈ [Kind.less, .greater, .lessEqual, .greaterEqual])
    (hv : v.Finite) (hw : w.Finite) (op : String) :
    (∃ fault, v.compare kind op w = .error fault ∧ fault.category = .type) ↔
      v.isNumeric = false ∨ w.isNumeric = false := by
  have hkind : kind.isComparison = true ∧ kind ≠ .equal ∧ kind ≠ .unequal := by
    simp only [List.mem_cons, List.not_mem_nil, or_false] at hk
    rcases hk with rfl | rfl | rfl | rfl <;> decide
  rw [← Bool.and_eq_false_iff]
  constructor
  · rintro ⟨fault, hfault, -⟩
    by_contra hn
    obtain ⟨hnv, hnw⟩ := Bool.and_eq_true_iff.mp (Bool.eq_true_of_not_eq_false hn)
    obtain ⟨p, hp⟩ := exists_amount hv hnv
    obtain ⟨q, hq⟩ := exists_amount hw hnw
    rw [compare_of_amount hkind.1 op hp hq] at hfault
    cases hfault
  · intro hn
    obtain ⟨sort, hsort⟩ := compare_refused hkind.2 hv hw hn op
    exact ⟨_, hsort, rfl⟩

/-- **Comparison.** A comparison of integers, truth values and finite floats answers what is true of
their exact values, so these are totally ordered even where their kinds are mixed. Over all values
that sessions come to, equality is an equivalence with inequality as its negation, and it always has
an answer; an ordering is a fault about the sort of a value if one of the two is no number, and only
then. -/
theorem comparison_coherent :
    (∀ (kind : Kind) (op : String) (a b : Value) (p q : ℚ), kind.isComparison = true →
      a.amount? = some p → b.amount? = some q →
      a.compare kind op b = .ok (.bool (kind.relates p q))) ∧
    (∀ (op : String) (a b c : Value) (p q r : ℚ), a.amount? = some p → b.amount? = some q →
      c.amount? = some r → Ordered op a b c) ∧
    (∀ op : String, Equivalence fun v w : { v : Value // v.Finite } => Holds .equal op v.1 w.1) ∧
    (∀ (op : String) (v w : Value), v.Finite → w.Finite →
      ∃ answer, v.compare .equal op w = .ok (.bool answer) ∧
        v.compare .unequal op w = .ok (.bool !answer)) ∧
    (∀ (kind : Kind) (op : String) (v w : Value),
      kind ∈ [Kind.less, .greater, .lessEqual, .greaterEqual] → v.Finite → w.Finite →
      ((∃ fault, v.compare kind op w = .error fault ∧ fault.category = .type) ↔
        v.isNumeric = false ∨ w.isNumeric = false)) ∧
    ∀ v : Value, v.Arises → v.Finite := by
  refine ⟨?_, ?_, equivalence_equal, ?_, ?_, fun v => Arises.finite⟩
  · intro kind op a b p q hk ha hb
    exact compare_of_amount hk op ha hb
  · intro op a b c p q r ha hb hc
    exact ordered ha hb hc op
  · intro op v w hv hw
    exact ⟨_, compare_equal hv hw op⟩
  · intro kind op v w hk hv hw
    exact compare_ordering hk hv hw op

/-- Here `true`, `1.0` and `1` are all the same number, a character is no string, and a built-in
function, which every session knows, has no order. -/
theorem comparison_coherent_mixed :
    let one : Value := float (.finite false 10 (-1))
    (bool true).compare .equal "==" one = .ok (.bool (Kind.equal.relates 1 1)) ∧
    Ordered "<=" (bool true) one (int 1) ∧
    (∃ answer, (char "a").compare .equal "==" (string "a") = .ok (.bool answer) ∧
      (char "a").compare .unequal "==" (string "a") = .ok (.bool !answer)) ∧
    (builtin .write).Finite ∧
    ∃ fault, (builtin .write).compare .less "<" one = .error fault ∧ fault.category = .type := by
  intro one
  obtain ⟨hexact, hordered, -, hequal, hordering, harises⟩ := comparison_coherent
  have htrue : (bool true).amount? = some 1 := rfl
  have hone : one.amount? = some 1 := by
    simp [one, amount?, Decimal.isFinite, Decimal.value, Decimal.signed]
  have hint : (int 1).amount? = some 1 := rfl
  have hwrite : (builtin .write).Arises :=
    @Arises.bound none "" [] Session.root ("write", builtin .write) List.mem_cons_self
  refine ⟨hexact _ _ _ _ _ _ rfl htrue hone, hordered _ _ _ _ _ _ _ htrue hone hint,
    hequal _ _ _ trivial trivial, harises _ hwrite, ?_⟩
  exact (hordering .less "<" _ one List.mem_cons_self (harises _ hwrite) rfl).mpr (.inl rfl)

end Value

end Treewalk
