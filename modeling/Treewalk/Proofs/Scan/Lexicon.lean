import Mathlib.Computability.Language
import Treewalk.Token.Shape

/-!
# The lexicon

The texts that each kind of token is written with, as languages over characters. Nothing here says
how a text is found: a grammar is put together from classes of characters, and the operators and
reserved words stand in tables.

The scanner decides with tests of its own. The lemmas about membership say the same in its tests, so
that no proof about the scanner has to take a product of languages apart.

## Why languages

The texts of a token could be described by a predicate on lists that follows the scanner. It would
be easy to compare with the scanner and hard to compare with a reference, which gives regular
expressions. Here the grammars are products, sums and stars of classes, written with Mathlib's
operations on languages, so each definition can be read next to the reference; and what they mean in
terms of the tests of the scanner is proved, once for each kind.

## Main definitions

* `Lexicon.int`, `Lexicon.float`, `Lexicon.char`, `Lexicon.string`, the grammars of the literals
* `Lexicon.comment`, `Lexicon.word`, those of comments and of names
* `Lexicon.table`, the operators and the reserved words
* `Lexicon.Spelling`, the texts of a kind

## Main results

* `mem_int_iff`, `mem_exponent_iff`, `mem_word_iff`: the grammars in the tests of the scanner
* `isDecimalDigit_of_mem_float`: a float ends in a digit
* `spelling_int_iff` and its like: a kind with a grammar has no other texts

## Implementation notes

Reserved words are names by their form. `Spelling` excludes them from the names and takes them from
the table, so a text has one kind. That it does is not part of the definition; it follows from the
scanner, which gives one.

`Spelling.fixed` covers signs and reserved words alike, since all of them have exactly one text.
-/

namespace Treewalk.Lexicon

/-! ## Grammars -/

/-- Texts of one character of a class. -/
def one (p : Char → Prop) : Language Char := {cs | ∃ c, p c ∧ cs = [c]}

/-- Texts of any number of characters of a class. -/
def zeroOrMore (p : Char → Prop) : Language Char := {cs | ∀ c ∈ cs, p c}

/-- Texts of characters of a class, with one at least. -/
def oneOrMore (p : Char → Prop) : Language Char := {cs | cs ≠ [] ∧ ∀ c ∈ cs, p c}

/-- Decimal digits. -/
def decimals : Language Char := oneOrMore fun c => '0' ≤ c ∧ c ≤ '9'

/-- Integers in decimal, binary, octal and hexadecimal digits. -/
def int : Language Char :=
  decimals +
  {['0', 'b']} * oneOrMore (fun c => c = '0' ∨ c = '1') +
  {['0', 'o']} * oneOrMore (fun c => '0' ≤ c ∧ c ≤ '7') +
  {['0', 'x']} * oneOrMore fun c => '0' ≤ c ∧ c ≤ '9' ∨ 'a' ≤ c ∧ c ≤ 'f' ∨ 'A' ≤ c ∧ c ≤ 'F'

def fraction : Language Char := {['.']} * decimals

def exponent : Language Char := ({['e']} + {['E']}) * (1 + {['+']} + {['-']}) * decimals

/-- Digits with a fraction, an exponent or both. -/
def float : Language Char := decimals * (fraction * (1 + exponent) + exponent)

/-- One character between quotes. -/
def char : Language Char := {['\'']} * one (fun c => c ≠ '\'' ∧ c ≠ '\n') * {['\'']}

/-- A string is closed on its line. -/
def string : Language Char := {['"']} * zeroOrMore (fun c => c ≠ '"' ∧ c ≠ '\n') * {['"']}

def comment : Language Char := {['#']} * zeroOrMore fun c => c ≠ '\n'

/-- Names and reserved words: letters, digits and underscores, and one sign at the end. -/
def word : Language Char :=
  one (fun c => c = '_' ∨ Text.isLetter c) *
    zeroOrMore (fun c => c = '_' ∨ Text.isLetter c ∨ '0' ≤ c ∧ c ≤ '9') * (1 + {['!']} + {['?']})

/-- The operators, brackets and separators. -/
def signs : List (List Char × Kind) :=
  [(['=', '='], .equal), (['=', '>'], .arrow), (['/', '='], .unequal), (['>', '='], .greaterEqual),
   (['<', '='], .lessEqual), (['+'], .plus), (['-'], .minus), (['*'], .star), (['/'], .slash),
   (['%'], .percent), (['='], .assign), (['>'], .greater), (['<'], .less), (['('], .lparen),
   ([')'], .rparen), (['{'], .lbrace), (['}'], .rbrace), ([';'], .semicolon), ([','], .comma)]

/-- The kinds that have one text each: those of signs and of reserved words. -/
def table : List (List Char × Kind) :=
  signs ++ Kind.reserved.map fun entry => (entry.1.toList, entry.2)

/-- The texts of a kind. There are none for what is invalid and for the end. -/
inductive Spelling : Kind → List Char → Prop
  | int {cs} (h : cs ∈ int) : Spelling .int cs
  | float {cs} (h : cs ∈ float) : Spelling .float cs
  | char {cs} (h : cs ∈ char) : Spelling .char cs
  | string {cs} (h : cs ∈ string) : Spelling .string cs
  | comment {cs} (h : cs ∈ comment) : Spelling .comment cs
  | ident {cs} (h : cs ∈ word) (hfree : ∀ kind, (String.ofList cs, kind) ∉ Kind.reserved) :
      Spelling .ident cs
  | fixed {kind cs} (h : (cs, kind) ∈ table) : Spelling kind cs

/-! ## Numbers -/

theorem isDecimalDigit_iff {c : Char} : isDecimalDigit c = true ↔ '0' ≤ c ∧ c ≤ '9' := by
  simp [isDecimalDigit]

theorem mem_decimals_iff {cs : List Char} :
    cs ∈ decimals ↔ cs ≠ [] ∧ ∀ c ∈ cs, isDecimalDigit c = true := by
  simp only [isDecimalDigit_iff]
  rfl

/-- A radix other than ten is known by its letter. -/
theorem mem_int_iff {cs : List Char} :
    cs ∈ int ↔ cs ∈ decimals ∨ ∃ letter digit ds, radixDigit? letter = some digit ∧ ds ≠ [] ∧
      (∀ c ∈ ds, digit c = true) ∧ cs = '0' :: letter :: ds := by
  constructor
  · rintro (((h | ⟨_, rfl, ds, ⟨hne, hds⟩, rfl⟩) | ⟨_, rfl, ds, ⟨hne, hds⟩, rfl⟩) |
      ⟨_, rfl, ds, ⟨hne, hds⟩, rfl⟩)
    · exact .inl h
    · exact .inr ⟨'b', _, ds, rfl, hne, fun c hc => by simpa using hds c hc, rfl⟩
    · exact .inr ⟨'o', _, ds, rfl, hne, fun c hc => by simpa using hds c hc, rfl⟩
    · exact .inr ⟨'x', _, ds, rfl, hne,
        fun c hc => by simpa [isDecimalDigit, or_assoc] using hds c hc, rfl⟩
  · rintro (h | ⟨letter, digit, ds, hletter, hne, hds, rfl⟩)
    · exact .inl (.inl (.inl h))
    · rw [radixDigit?] at hletter
      split at hletter
      · next hb =>
        obtain rfl := Option.some.inj hletter
        subst hb
        exact .inl (.inl (.inr ⟨_, rfl, ds, ⟨hne, fun c hc => by simpa using hds c hc⟩, rfl⟩))
      split at hletter
      · next ho =>
        obtain rfl := Option.some.inj hletter
        subst ho
        exact .inl (.inr ⟨_, rfl, ds, ⟨hne, fun c hc => by simpa using hds c hc⟩, rfl⟩)
      split at hletter
      · next hx =>
        obtain rfl := Option.some.inj hletter
        subst hx
        exact .inr ⟨_, rfl, ds,
          ⟨hne, fun c hc => by simpa [isDecimalDigit, or_assoc] using hds c hc⟩, rfl⟩
      · cases hletter

/-- The sign that may stand behind something is nothing or one of two characters. -/
theorem mem_sign_iff {a b : Char} {cs : List Char} :
    cs ∈ (1 + {[a]} + {[b]} : Language Char) ↔ cs ∈ [[], [a], [b]] := by
  rw [List.mem_cons, List.mem_cons, List.mem_singleton, ← or_assoc]
  rfl

theorem mem_exponent_iff {cs : List Char} :
    cs ∈ exponent ↔ ∃ e sign ds, (e = 'e' ∨ e = 'E') ∧ sign ∈ [[], ['+'], ['-']] ∧
      ds ∈ decimals ∧ cs = e :: (sign ++ ds) := by
  constructor
  · rintro ⟨_, ⟨e, he, sign, hsign, rfl⟩, ds, hds, rfl⟩
    obtain rfl | rfl := he
    · exact ⟨'e', sign, ds, .inl rfl, mem_sign_iff.mp hsign, hds, rfl⟩
    · exact ⟨'E', sign, ds, .inr rfl, mem_sign_iff.mp hsign, hds, rfl⟩
  · rintro ⟨e, sign, ds, he, hsign, hds, rfl⟩
    have he' : [e] ∈ ({['e']} + {['E']} : Language Char) := by
      obtain rfl | rfl := he
      · exact .inl rfl
      · exact .inr rfl
    exact ⟨_, ⟨[e], he', sign, mem_sign_iff.mpr hsign, rfl⟩, ds, hds, rfl⟩

/-- What a float has behind its digits: a fraction and at most one exponent, or an exponent. -/
theorem mem_float_iff {cs : List Char} :
    cs ∈ float ↔
      (∃ whole ds e, whole ∈ decimals ∧ ds ∈ decimals ∧ e ∈ 1 + exponent ∧
        cs = whole ++ '.' :: (ds ++ e)) ∨
      ∃ whole e, whole ∈ decimals ∧ e ∈ exponent ∧ cs = whole ++ e := by
  constructor
  · rintro ⟨whole, hwhole, _, ⟨_, ⟨_, rfl, ds, hds, rfl⟩, e, he, rfl⟩ | he, rfl⟩
    · exact .inl ⟨whole, ds, e, hwhole, hds, he, rfl⟩
    · exact .inr ⟨whole, _, hwhole, he, rfl⟩
  · rintro (⟨whole, ds, e, hwhole, hds, he, rfl⟩ | ⟨whole, e, hwhole, he, rfl⟩)
    · exact ⟨whole, hwhole, _, .inl ⟨_, ⟨_, rfl, ds, hds, rfl⟩, e, he, rfl⟩, rfl⟩
    · exact ⟨whole, hwhole, e, .inr he, rfl⟩

theorem isDecimalDigit_of_mem_decimals (init : List Char) {ds : List Char} (h : ds ∈ decimals)
    {c : Char} (hc : c ∈ (init ++ ds).getLast?) : isDecimalDigit c = true := by
  obtain ⟨hne, hdigits⟩ := mem_decimals_iff.mp h
  rw [List.getLast?_append_of_ne_nil _ hne] at hc
  exact hdigits c (List.mem_of_getLast? hc)

/-- A float ends in a digit. -/
theorem isDecimalDigit_of_mem_float {cs : List Char} (h : cs ∈ float) {c : Char}
    (hc : c ∈ cs.getLast?) : isDecimalDigit c = true := by
  have hexponent : ∀ (init : List Char) {e : List Char}, e ∈ exponent →
      c ∈ (init ++ e).getLast? → isDecimalDigit c = true := by
    intro init e he hc
    obtain ⟨m, sign, ds, -, -, hds, rfl⟩ := mem_exponent_iff.mp he
    exact isDecimalDigit_of_mem_decimals (init ++ m :: sign) hds (by simpa using hc)
  obtain ⟨whole, ds, e, -, hds, he, rfl⟩ | ⟨whole, e, -, he, rfl⟩ := mem_float_iff.mp h
  · obtain rfl | he := he
    · exact isDecimalDigit_of_mem_decimals (whole ++ ['.']) hds (by simpa using hc)
    · exact hexponent (whole ++ '.' :: ds) he (by simpa using hc)
  · exact hexponent whole he hc

/-! ## Words and quotes -/

theorem mem_word_iff {cs : List Char} :
    cs ∈ word ↔ ∃ c part sign, isNameStart c = true ∧ (∀ d ∈ part, isNamePart d = true) ∧
      sign ∈ [[], ['!'], ['?']] ∧ cs = c :: (part ++ sign) := by
  have hstart : ∀ c, isNameStart c = true ↔ c = '_' ∨ Text.isLetter c = true := by
    intro c
    simp [isNameStart]
  have hpart : ∀ c, isNamePart c = true ↔
      c = '_' ∨ Text.isLetter c = true ∨ '0' ≤ c ∧ c ≤ '9' := by
    intro c
    simp [isNamePart, isNameStart, isDecimalDigit, or_assoc]
  simp only [hstart, hpart]
  constructor
  · rintro ⟨_, ⟨_, ⟨c, hc, rfl⟩, part, hparts, rfl⟩, sign, hsign, rfl⟩
    exact ⟨c, part, sign, hc, hparts, mem_sign_iff.mp hsign, rfl⟩
  · rintro ⟨c, part, sign, hc, hparts, hsign, rfl⟩
    exact ⟨_, ⟨[c], ⟨c, hc, rfl⟩, part, hparts, rfl⟩, sign, mem_sign_iff.mpr hsign, rfl⟩

theorem mem_char_iff {cs : List Char} :
    cs ∈ char ↔ ∃ c, c ≠ '\'' ∧ c ≠ '\n' ∧ cs = ['\'', c, '\''] := by
  constructor
  · rintro ⟨_, ⟨_, rfl, _, ⟨c, ⟨hquote, hnewline⟩, rfl⟩, rfl⟩, _, rfl, rfl⟩
    exact ⟨c, hquote, hnewline, rfl⟩
  · rintro ⟨c, hquote, hnewline, rfl⟩
    exact ⟨_, ⟨_, rfl, _, ⟨c, ⟨hquote, hnewline⟩, rfl⟩, rfl⟩, _, rfl, rfl⟩

theorem mem_string_iff {cs : List Char} :
    cs ∈ string ↔ ∃ inner, (∀ c ∈ inner, c ≠ '"' ∧ c ≠ '\n') ∧ cs = '"' :: (inner ++ ['"']) := by
  constructor
  · rintro ⟨_, ⟨_, rfl, inner, hinner, rfl⟩, _, rfl, rfl⟩
    exact ⟨inner, hinner, rfl⟩
  · rintro ⟨inner, hinner, rfl⟩
    exact ⟨_, ⟨_, rfl, inner, hinner, rfl⟩, _, rfl, rfl⟩

theorem mem_comment_iff {cs : List Char} :
    cs ∈ comment ↔ ∃ inner, (∀ c ∈ inner, c ≠ '\n') ∧ cs = '#' :: inner := by
  constructor
  · rintro ⟨_, rfl, inner, hinner, rfl⟩
    exact ⟨inner, hinner, rfl⟩
  · rintro ⟨inner, hinner, rfl⟩
    exact ⟨_, rfl, inner, hinner, rfl⟩

/-! ## Kinds -/

section

variable {cs : List Char}

/-- The tables hold no kind that has a grammar of its own. -/
theorem not_fixed {kind : Kind}
    (hkind : kind ∈ [Kind.invalid, .eof, .comment, .int, .float, .char, .string, .ident]) :
    (cs, kind) ∉ table := by
  have hall : ∀ entry ∈ table,
      entry.2 ∉ [Kind.invalid, .eof, .comment, .int, .float, .char, .string, .ident] := by decide
  exact fun h => hall _ h hkind

theorem not_spelling_invalid : ¬ Spelling .invalid cs := by
  rintro (_ | _ | _ | _ | _ | _ | h)
  exact not_fixed (by decide) h

theorem spelling_int_iff : Spelling .int cs ↔ cs ∈ int := by
  refine ⟨?_, .int⟩
  rintro (h | _ | _ | _ | _ | _ | h)
  · exact h
  · exact absurd h (not_fixed (by decide))

theorem spelling_float_iff : Spelling .float cs ↔ cs ∈ float := by
  refine ⟨?_, .float⟩
  rintro (_ | h | _ | _ | _ | _ | h)
  · exact h
  · exact absurd h (not_fixed (by decide))

theorem spelling_char_iff : Spelling .char cs ↔ cs ∈ char := by
  refine ⟨?_, .char⟩
  rintro (_ | _ | h | _ | _ | _ | h)
  · exact h
  · exact absurd h (not_fixed (by decide))

theorem spelling_string_iff : Spelling .string cs ↔ cs ∈ string := by
  refine ⟨?_, .string⟩
  rintro (_ | _ | _ | h | _ | _ | h)
  · exact h
  · exact absurd h (not_fixed (by decide))

theorem spelling_comment_iff : Spelling .comment cs ↔ cs ∈ comment := by
  refine ⟨?_, .comment⟩
  rintro (_ | _ | _ | _ | h | _ | h)
  · exact h
  · exact absurd h (not_fixed (by decide))

/-- A sign has one text. -/
theorem Spelling.eq_of_sign {kind : Kind} {sign : List Char} (h : Spelling kind cs)
    (hsign : (sign, kind) ∈ signs) : cs = sign := by
  have htable : (sign, kind) ∈ table := List.mem_append_left _ hsign
  cases h with
  | fixed h =>
    have hall : ∀ entry ∈ table, ∀ entry' ∈ signs, entry.2 = entry'.2 → entry.1 = entry'.1 := by
      decide
    exact hall _ h _ hsign rfl
  | _ => exact absurd htable (not_fixed (by decide))

/-- What holds of every entry of a table holds of what is found in it. -/
theorem of_lookup {α β : Type*} [BEq α] [LawfulBEq α] {P : α × β → Prop} {table : List (α × β)}
    (hall : ∀ entry ∈ table, P entry) {a : α} {b : β} (h : table.lookup a = some b) : P (a, b) := by
  obtain ⟨front, back, hsplit, -⟩ := List.lookup_eq_some_iff.mp h
  refine hall _ ?_
  rw [hsplit]
  exact List.mem_append_right _ List.mem_cons_self

/-- A word is a text of the kind that the reserved words give it. -/
theorem spelling_ofWord (h : cs ∈ word) : Spelling (Kind.ofWord (String.ofList cs)) cs := by
  cases hlookup : Kind.reserved.lookup (String.ofList cs) with
  | none =>
    rw [Kind.ofWord, hlookup]
    refine .ident h fun kind hmem => ?_
    simpa using List.lookup_eq_none_iff.mp hlookup _ hmem
  | some kind =>
    rw [Kind.ofWord, hlookup]
    have hmem : (String.ofList cs, kind) ∈ Kind.reserved := of_lookup (fun _ => id) hlookup
    refine .fixed (List.mem_append_right _ (List.mem_map.mpr ⟨_, hmem, ?_⟩))
    rw [String.toList_ofList]
    rfl

theorem Spelling.ne_nil {kind : Kind} (h : Spelling kind cs) : cs ≠ [] := by
  rintro rfl
  cases h with
  | int h =>
    obtain ⟨hne, -⟩ | ⟨_, _, _, -, -, -, heq⟩ := mem_int_iff.mp h
    · exact hne rfl
    · cases heq
  | float h =>
    obtain ⟨_, _, _, -, -, -, heq⟩ | ⟨whole, _, hwhole, -, heq⟩ := mem_float_iff.mp h
    · simp at heq
    · exact (mem_decimals_iff.mp hwhole).1 (List.append_eq_nil_iff.mp heq.symm).1
  | char h => obtain ⟨_, -, -, heq⟩ := mem_char_iff.mp h; cases heq
  | string h => obtain ⟨_, -, heq⟩ := mem_string_iff.mp h; cases heq
  | comment h => obtain ⟨_, -, heq⟩ := mem_comment_iff.mp h; cases heq
  | ident h => obtain ⟨_, _, _, -, -, -, heq⟩ := mem_word_iff.mp h; cases heq
  | fixed h =>
    have hall : ∀ entry ∈ table, entry.1 ≠ [] := by decide
    exact hall _ h rfl

end

end Treewalk.Lexicon
