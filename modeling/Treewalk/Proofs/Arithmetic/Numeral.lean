import Mathlib.Data.List.Induction
import Mathlib.Data.Nat.Digits.Defs
import Treewalk.Parse.Literal
import Treewalk.Proofs.Scan.Shapes
import Treewalk.Proofs.Scan.Words
import Treewalk.Proofs.Text.Encoding

/-!
# Numerals

The ways to write a number: in one of four radixes, with any number of zeros in front, and with
either case of the letters that stand for digits above nine. A numeral is one word wherever
something stands behind it that no number continues with, and the parser reads the number from it.

## What may stand behind a number

A number is scanned as far as it goes, so whether a numeral is a word depends on what stands behind
it. `Stops` is the weakest condition that formulas need, not the weakest there is: the characters
that a formula can put behind a number, or nothing. It is a predicate on the rest of the text rather
than an argument of every lemma, because the rest changes as formulas are put together while the
condition on its first character is all that any of them looks at.

## Main definitions

* `Digit`, `Radix`, `Numeral`
* `Numeral.value`, `Numeral.chars`
* `Stops`, what may stand behind a number

## Main results

* `Numeral.words_append`: a numeral is one word
* `Numeral.intValue?_chars`: the value of a numeral is read from its text

## Implementation notes

A `Digit` knows whether it is written as a capital, although its value does not depend on it. So
the texts of a formula really are all its texts, and `0xfF` is among them. The bounds on the digits
are fields of `Numeral`: a digit above the radix cannot be written down, and no lemma needs to
assume that there is none.
-/

namespace Treewalk.Arithmetic

/-! ## Digits -/

/-- A digit, and whether the letter is a capital that stands for one above nine. -/
structure Digit where
  value : ℕ
  capital : Bool

/-- The character of a digit. -/
def Digit.char (d : Digit) : Char :=
  if d.value < 10 then Char.ofNat ('0'.toNat + d.value)
  else if d.capital then Char.ofNat ('A'.toNat + (d.value - 10))
  else Char.ofNat ('a'.toNat + (d.value - 10))

/-- What a decimal digit is taken for: a digit, and neither a space nor a radix. -/
theorem Digit.decimal_char {d : Digit} (h : d.value < 10) :
    isDecimalDigit d.char = true ∧ isSpace d.char = false ∧
      radixDigit? d.char = none ∧ d.char ≠ 'b' ∧ d.char ≠ 'o' ∧ d.char ≠ 'x' :=
  (by decide : ∀ v < 10, ∀ capital,
    let c := Digit.char ⟨v, capital⟩
    isDecimalDigit c = true ∧ isSpace c = false ∧
      radixDigit? c = none ∧ c ≠ 'b' ∧ c ≠ 'o' ∧ c ≠ 'x') d.value h d.capital

/-! ## Numerals -/

/-- The radixes that a number can be written in. -/
inductive Radix where
  | binary | octal | decimal | hexadecimal
  deriving DecidableEq

namespace Radix

def base : Radix → ℕ
  | binary => 2
  | octal => 8
  | decimal => 10
  | hexadecimal => 16

/-- What stands in front of the digits. -/
def sign : Radix → List Char
  | binary => ['0', 'b']
  | octal => ['0', 'o']
  | decimal => []
  | hexadecimal => ['0', 'x']

theorem base_le (r : Radix) : r.base ≤ 16 := by
  cases r <;> decide

end Radix

/-- Digits of a radix, one at least. -/
structure Numeral where
  radix : Radix
  digits : List Digit
  digits_ne_nil : digits ≠ []
  lt_base : ∀ d ∈ digits, d.value < radix.base

namespace Numeral

/-- The number that a numeral stands for. -/
def value (n : Numeral) : ℕ :=
  Nat.ofDigits n.radix.base (n.digits.map Digit.value).reverse

/-- How a numeral is written. -/
def chars (n : Numeral) : List Char :=
  n.radix.sign ++ n.digits.map Digit.char

end Numeral

/-- The characters of a numeral are in ASCII. -/
theorem Numeral.ascii (n : Numeral) : Utf8.Ascii n.chars := by
  have hdigits : ∀ v < 16, ∀ capital,
      0 < (Digit.char ⟨v, capital⟩).toNat ∧ (Digit.char ⟨v, capital⟩).toNat < 0x80 := by decide
  have hsign : Utf8.Ascii n.radix.sign := by cases n.radix <;> decide
  refine hsign.append fun c hc => ?_
  obtain ⟨d, hd, rfl⟩ := List.mem_map.mp hc
  exact hdigits d.value (Nat.lt_of_lt_of_le (n.lt_base d hd) n.radix.base_le) d.capital

/-- A numeral starts with a decimal digit. -/
theorem Numeral.exists_chars_cons (n : Numeral) :
    ∃ c cs, n.chars = c :: cs ∧ isDecimalDigit c = true := by
  obtain ⟨radix, ds, hne, hlt⟩ := n
  cases radix with
  | binary | octal | hexadecimal => exact ⟨'0', _, rfl, by decide⟩
  | decimal =>
    obtain ⟨d, ds, rfl⟩ := List.exists_cons_of_ne_nil hne
    exact ⟨d.char, _, rfl, (Digit.decimal_char (hlt d List.mem_cons_self)).1⟩

/-! ## Reading the value -/

theorem digitValue_char {d : Digit} (hd : d.value < 16) : Decimal.digitValue d.char = d.value :=
  (by decide : ∀ v < 16, ∀ capital, Decimal.digitValue (Digit.char ⟨v, capital⟩) = v)
    d.value hd d.capital

theorem isDigitOf_char {radix : ℕ} {d : Digit} (hd : d.value < radix) (hradix : radix ≤ 16) :
    Parse.isDigitOf radix d.char = true := by
  have hclass := (by decide : ∀ v < 16, ∀ capital,
    let c := Digit.char ⟨v, capital⟩
    (c.isDigit || ('a' ≤ c && c ≤ 'z') || ('A' ≤ c && c ≤ 'Z')) = true)
    d.value (Nat.lt_of_lt_of_le hd hradix) d.capital
  rw [Parse.isDigitOf, digitValue_char (Nat.lt_of_lt_of_le hd hradix), decide_eq_true hd,
    Bool.and_true]
  exact hclass

theorem digitsValue_append_singleton (base : ℕ) (cs : List Char) {d : Digit} (hd : d.value < 16) :
    Decimal.digitsValue base (cs ++ [d.char]) = Decimal.digitsValue base cs * base + d.value := by
  rw [Decimal.digitsValue, List.foldl_append, List.foldl_cons, List.foldl_nil, digitValue_char hd]
  rfl

theorem digitsValue_map_char (base : ℕ) {ds : List Digit} (h : ∀ d ∈ ds, d.value < 16) :
    Decimal.digitsValue base (ds.map Digit.char) =
      Nat.ofDigits base (ds.map Digit.value).reverse := by
  induction ds using List.reverseRecOn with
  | nil => rfl
  | append_singleton ds d ih =>
    obtain ⟨hds, hd⟩ := List.forall_mem_append.mp h
    rw [List.map_append, List.map_append, List.map_singleton, List.map_singleton,
      digitsValue_append_singleton base _ (hd d List.mem_cons_self), ih hds, List.reverse_append,
      List.reverse_singleton, List.singleton_append, Nat.ofDigits_cons, mul_comm, add_comm]

/-- A radix is announced by the second character, so digits alone are decimal. -/
theorem radixOf_of_digits {ds : List Digit} (h : ∀ d ∈ ds, d.value < 10) :
    Parse.radixOf (ds.map Digit.char) = (10, ds.map Digit.char) := by
  rcases ds with _ | ⟨d, _ | ⟨e, ds⟩⟩
  · rfl
  · rw [Parse.radixOf] <;> simp
  · obtain ⟨-, -, -, he⟩ := Digit.decimal_char (h e (by simp))
    rw [List.map_cons, List.map_cons, Parse.radixOf.eq_def]
    split
    · next heq => exact absurd (List.cons.inj (List.cons.inj heq).2).1 he.1
    · next heq => exact absurd (List.cons.inj (List.cons.inj heq).2).1 he.2.1
    · next heq => exact absurd (List.cons.inj (List.cons.inj heq).2).1 he.2.2
    · rfl

theorem Numeral.radixOf_chars (n : Numeral) :
    Parse.radixOf n.chars = (n.radix.base, n.digits.map Digit.char) := by
  obtain ⟨radix, ds, hne, hlt⟩ := n
  cases radix with
  | binary | octal | hexadecimal => rfl
  | decimal => exact radixOf_of_digits hlt

/-- The value of a numeral is read from its text. -/
theorem Numeral.intValue?_chars (n : Numeral) :
    Parse.intValue? (String.ofList n.chars) = some n.value := by
  have hdigits : ∀ d ∈ n.digits, d.value < 16 := fun d hd =>
    Nat.lt_of_lt_of_le (n.lt_base d hd) n.radix.base_le
  have hne : (n.digits.map Digit.char).isEmpty = false := by
    simpa using n.digits_ne_nil
  have hall : (n.digits.map Digit.char).all (Parse.isDigitOf n.radix.base) = true := by
    rw [List.all_map, List.all_eq_true]
    exact fun d hd => isDigitOf_char (n.lt_base d hd) n.radix.base_le
  rw [Parse.intValue?, String.toList_ofList, n.radixOf_chars]
  dsimp only
  rw [hne, hall, digitsValue_map_char _ hdigits]
  rfl

/-! ## One word -/

/-- What may stand behind a number within a formula. -/
def stops : List Char :=
  [' ', '\t', '\r', '\n', '+', '-', '*', '/', '%', ')', ';']

/-- Nothing stands at the front, or something that no number continues with. A numeral is read as
far as it goes, so what it is read as depends on what comes next. -/
def Stops (rest : List Char) : Prop :=
  ∀ c ∈ rest.head?, c ∈ stops

theorem stops_of_isSpace {c : Char} (h : isSpace c = true) (rest : List Char) :
    Stops (c :: rest) := by
  rintro d ⟨⟩
  simp only [isSpace, Bool.or_eq_true, decide_eq_true_eq] at h
  obtain ((rfl | rfl) | rfl) | rfl := h <;> decide

/-- What is false of all that may stand behind a number is false of what does. -/
theorem Stops.forall_head {rest : List Char} (h : Stops rest) {p : Char → Bool}
    (hp : stops.any p = false) : ∀ c ∈ rest.head?, p c = false := by
  intro c hc
  exact Bool.eq_false_iff.mpr (List.any_eq_false.mp hp c (h c hc))

/-- Nothing that stops a number is an exponent. -/
theorem exponent_of_stops {kind : Kind} {size : ℕ} {rest : List Char} (h : Stops rest) :
    Shape.exponent kind size rest = ⟨kind, size, none⟩ := by
  cases rest with
  | nil => rfl
  | cons c rest =>
    have hc := h.forall_head (p := fun c => c = 'e' ∨ c = 'E') (by decide) c rfl
    rw [Shape.exponent, if_neg (of_decide_eq_false hc)]

/-- Decimal digits up to something that stops a number. -/
theorem decimal_of_stops {cs rest : List Char} (hcs : ∀ c ∈ cs, isDecimalDigit c = true)
    (h : Stops rest) : Shape.decimal (cs ++ rest) = ⟨.int, cs.length, none⟩ := by
  have hspan := Shape.span_append hcs (h.forall_head (by decide))
  have hpoint : rest.head? ≠ some '.' := by
    intro hhead
    exact absurd (h '.' hhead) (by decide)
  rw [Shape.decimal_of_no_point (by rwa [hspan, List.drop_left]), hspan, List.drop_left,
    exponent_of_stops h]

/-- Digits alone announce no radix. -/
theorem number_of_digits {d : Digit} {ds : List Digit} (hd : d.value < 10)
    (hds : ∀ e ∈ ds, e.value < 10) {rest : List Char} (h : Stops rest) :
    Shape.number d.char (ds.map Digit.char ++ rest) = ⟨.int, ds.length + 1, none⟩ := by
  have hradix : (ds.map Digit.char ++ rest).head?.bind radixDigit? = none := by
    cases ds with
    | cons e ds => exact (Digit.decimal_char (hds e List.mem_cons_self)).2.2.1
    | nil =>
      cases rest with
      | nil => rfl
      | cons c rest =>
        have hc := h.forall_head (p := fun c => (radixDigit? c).isSome) (by decide) c rfl
        exact Option.not_isSome_iff_eq_none.mp (Bool.eq_false_iff.mp hc)
  have hall : ∀ c ∈ (d :: ds).map Digit.char, isDecimalDigit c = true := by
    intro c hc
    obtain ⟨e, he, rfl⟩ := List.mem_map.mp hc
    obtain rfl | he := List.mem_cons.mp he
    · exact (Digit.decimal_char hd).1
    · exact (Digit.decimal_char (hds e he)).1
  have hdecimal := decimal_of_stops hall h
  rw [Shape.number, hradix, ite_self]
  rwa [List.map_cons, List.cons_append, List.length_cons, List.length_map] at hdecimal

/-- The digits of the other radixes. -/
theorem Radix.exists_letter {r : Radix} (h : r ≠ .decimal) :
    ∃ letter digit, r.sign = ['0', letter] ∧ radixDigit? letter = some digit ∧
      (∀ d : Digit, d.value < r.base → digit d.char = true) ∧ stops.any digit = false := by
  cases r with
  | decimal => exact absurd rfl h
  | binary =>
    let digit := fun c : Char => (c = '0' || c = '1' : Bool)
    have hdigits : ∀ v < 2, ∀ capital, digit (Digit.char ⟨v, capital⟩) = true := by decide
    exact ⟨'b', digit, rfl, rfl, fun d hd => hdigits d.value hd d.capital, by decide⟩
  | octal =>
    let digit := fun c : Char => ('0' ≤ c && c ≤ '7' : Bool)
    have hdigits : ∀ v < 8, ∀ capital, digit (Digit.char ⟨v, capital⟩) = true := by decide
    exact ⟨'o', digit, rfl, rfl, fun d hd => hdigits d.value hd d.capital, by decide⟩
  | hexadecimal =>
    let digit := fun c : Char =>
      (isDecimalDigit c || ('a' ≤ c && c ≤ 'f') || ('A' ≤ c && c ≤ 'F') : Bool)
    have hdigits : ∀ v < 16, ∀ capital, digit (Digit.char ⟨v, capital⟩) = true := by decide
    exact ⟨'x', digit, rfl, rfl, fun d hd => hdigits d.value hd d.capital, by decide⟩

/-- A numeral is one word. It ends where something stands that no numeral continues with, which is
what `Stops` asks for. -/
theorem Numeral.words_append (n : Numeral) {rest : List Char} (h : Stops rest) :
    words (n.chars ++ rest) = ⟨.int, n.chars, none⟩ :: words rest := by
  obtain ⟨radix, ds, hne, hlt⟩ := n
  by_cases hr : radix = .decimal
  · subst hr
    obtain ⟨d, ds, rfl⟩ := List.exists_cons_of_ne_nil hne
    obtain ⟨hd, hds⟩ := List.forall_mem_cons.mp hlt
    obtain ⟨hdigit, hspace, -⟩ := Digit.decimal_char hd
    refine words_cons hspace ?_
    rw [shapeAt_digit hdigit, number_of_digits hd hds h, List.length_map]
  · obtain ⟨letter, digit, hsign, hletter, hdigits, hstops⟩ := Radix.exists_letter hr
    have hall : ∀ c ∈ ds.map Digit.char, digit c = true := by
      intro c hc
      obtain ⟨d, hd, rfl⟩ := List.mem_map.mp hc
      exact hdigits d (hlt d hd)
    have hshape : shapeAt '0' ((letter :: ds.map Digit.char) ++ rest) =
        ⟨.int, (letter :: ds.map Digit.char).length + 1, none⟩ := by
      rw [shapeAt_digit (by decide), List.cons_append,
        Shape.number_of_radix hletter (by simpa using hne) hall (h.forall_head hstops),
        List.length_cons]
      congr 1
      omega
    have hwords := words_cons (by decide) hshape
    rw [chars, hsign]
    exact hwords

end Treewalk.Arithmetic
