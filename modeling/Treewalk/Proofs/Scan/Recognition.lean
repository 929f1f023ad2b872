import Treewalk.Proofs.Scan.Lexicon
import Treewalk.Proofs.Scan.Shapes

/-!
# What the scanner takes

The scanner and the lexicon agree. A text of the lexicon that stands alone is taken whole and as
the kind that it is a text of. Whatever stands in a source, nothing is wrong with the token that a
character starts exactly if the characters taken are a text of the token's kind.

The second is no consequence of the first, for a malformed literal is cut off somewhere, and what
is left of it might happen to be well formed. There is one lemma of each sort for each scanner.

## Main definitions

* `Shape.Exact`, that a shape has no problem exactly if it takes a text of its kind

## Main results

* `shapeAt_of_spelling`: a text of the lexicon is taken whole
* `shapeAt_exact`: the shapes without a problem are those of the lexicon
* `Lexicon.spelling_iff_shapeAt`: so the scanner decides the lexicon

## Implementation notes

For each scanner there are two lemmas. One takes a text of the lexicon and computes what the scanner
makes of it, when nothing stands behind; the other takes any text and reads off what has been taken
if there is no problem. The scanners for numbers call each other, and their lemmas follow these
calls.

`Exact` is about all characters that may stand behind, for it is used in the middle of sources. The
first lemma is about texts that stand alone, and what may stand behind them without a difference is
the matter of `Lookahead`.
-/

namespace Treewalk

namespace Shape

open Lexicon

/-! ## Texts of the lexicon -/

theorem exponent_of_mem (kind : Kind) (size : Nat) {cs : List Char} (h : cs ∈ Lexicon.exponent) :
    exponent kind size cs = ⟨.float, size + cs.length, none⟩ := by
  obtain ⟨e, sign, ds, he, hsign, hds, rfl⟩ := mem_exponent_iff.mp h
  obtain ⟨hne, hdigits⟩ := mem_decimals_iff.mp hds
  have hsize : ((sign ++ ds).take 1).filter (fun c => c = '+' || c = '-') = sign := by
    simp only [List.mem_cons, List.not_mem_nil, or_false] at hsign
    obtain rfl | rfl | rfl := hsign
    · obtain ⟨d, ds, rfl⟩ := List.exists_cons_of_ne_nil hne
      have hd := isDecimalDigit_iff.mp (hdigits d List.mem_cons_self)
      have hplus : d ≠ '+' := by rintro rfl; exact absurd hd (by decide)
      have hminus : d ≠ '-' := by rintro rfl; exact absurd hd (by decide)
      simp [hplus, hminus]
    · rfl
    · rfl
  rw [exponent]
  dsimp only
  rw [if_pos he, hsize, List.drop_left, span_eq_length hdigits, if_neg (by simpa using hne),
    List.length_cons, List.length_append]
  congr 1
  omega

theorem exponent_of_optional {size : Nat} {e : List Char} (h : e ∈ 1 + Lexicon.exponent) :
    exponent .float size e = ⟨.float, size + e.length, none⟩ := by
  obtain rfl | h := h
  · rfl
  · exact exponent_of_mem _ _ h

/-- An exponent does not start like anything else that may follow digits. -/
theorem head_of_optional {e : List Char} (h : e ∈ 1 + Lexicon.exponent) :
    ∀ c ∈ e.head?, isDecimalDigit c = false ∧ c ≠ '.' ∧ radixDigit? c = none := by
  obtain rfl | h := h
  · rintro c ⟨⟩
  · obtain ⟨m, sign, ds, hm, -, -, rfl⟩ := mem_exponent_iff.mp h
    rintro c ⟨⟩
    obtain rfl | rfl := hm <;> exact ⟨by decide, by decide, rfl⟩

theorem decimal_of_decimals {cs : List Char} (h : cs ∈ decimals) :
    decimal cs = ⟨.int, cs.length, none⟩ := by
  have hspan := span_eq_length (mem_decimals_iff.mp h).2
  rw [decimal_of_no_point (by simp [hspan]), hspan, List.drop_length]
  rfl

theorem decimal_of_float {cs : List Char} (h : cs ∈ Lexicon.float) :
    decimal cs = ⟨.float, cs.length, none⟩ := by
  obtain ⟨whole, ds, e, hwhole, hds, he, rfl⟩ | ⟨whole, e, hwhole, he, rfl⟩ := mem_float_iff.mp h
  · obtain ⟨-, hdigits⟩ := mem_decimals_iff.mp hwhole
    obtain ⟨hne, hfraction⟩ := mem_decimals_iff.mp hds
    have hspan : span isDecimalDigit (whole ++ '.' :: (ds ++ e)) = whole.length :=
      span_append hdigits (by rintro c ⟨⟩; decide)
    have hdrop : (whole ++ '.' :: (ds ++ e)).drop
        (span isDecimalDigit (whole ++ '.' :: (ds ++ e))) = '.' :: (ds ++ e) := by
      rw [hspan, List.drop_left]
    have hspan' : span isDecimalDigit (ds ++ e) = ds.length :=
      span_append hfraction fun c hc => (head_of_optional he c hc).1
    rw [decimal_of_point hdrop, hspan, hspan', List.drop_left, if_neg (by simpa using hne),
      exponent_of_optional he]
    simp only [List.length_append, List.length_cons]
    congr 1
    omega
  · obtain ⟨-, hdigits⟩ := mem_decimals_iff.mp hwhole
    have hhead := head_of_optional (.inr he)
    have hspan : span isDecimalDigit (whole ++ e) = whole.length :=
      span_append hdigits fun c hc => (hhead c hc).1
    have hdrop : (whole ++ e).drop (span isDecimalDigit (whole ++ e)) = e := by
      rw [hspan, List.drop_left]
    have hpoint : e.head? ≠ some '.' := fun h => (hhead '.' h).2.1 rfl
    rw [decimal_of_no_point (by rwa [hdrop]), hdrop, hspan, exponent_of_mem _ _ he,
      List.length_append]

theorem number_of_int {c : Char} {cs : List Char} (h : c :: cs ∈ Lexicon.int) :
    isDecimalDigit c = true ∧ number c cs = ⟨.int, cs.length + 1, none⟩ := by
  obtain h | ⟨letter, digit, ds, hletter, hne, hds, heq⟩ := mem_int_iff.mp h
  · obtain ⟨hc, hcs⟩ := List.forall_mem_cons.mp (mem_decimals_iff.mp h).2
    refine ⟨hc, ?_⟩
    rw [number_eq_decimal fun d hd => radixDigit?_of_digit (hcs d (List.mem_of_mem_head? hd)),
      decimal_of_decimals h, List.length_cons]
  · obtain ⟨rfl, rfl⟩ := List.cons.inj heq
    have hnumber : number '0' (letter :: (ds ++ [])) = ⟨.int, 2 + ds.length, none⟩ :=
      number_of_radix hletter hne hds (by simp)
    rw [List.append_nil] at hnumber
    refine ⟨by decide, ?_⟩
    rw [hnumber, List.length_cons]
    congr 1
    omega

theorem number_of_float {c : Char} {cs : List Char} (h : c :: cs ∈ Lexicon.float) :
    isDecimalDigit c = true ∧ number c cs = ⟨.float, cs.length + 1, none⟩ := by
  -- Behind the first digit stands a digit, a point or an exponent.
  have hsplit : ∃ whole tail, whole ∈ decimals ∧ c :: cs = whole ++ tail ∧
      ∀ d ∈ tail.head?, radixDigit? d = none := by
    obtain ⟨whole, ds, e, hwhole, -, -, heq⟩ | ⟨whole, e, hwhole, he, heq⟩ := mem_float_iff.mp h
    · exact ⟨whole, _, hwhole, heq, by rintro d ⟨⟩; rfl⟩
    · exact ⟨whole, e, hwhole, heq, fun d hd => (head_of_optional (.inr he) d hd).2.2⟩
  obtain ⟨whole, tail, hwhole, heq, htail⟩ := hsplit
  obtain ⟨hne, hdigits⟩ := mem_decimals_iff.mp hwhole
  obtain ⟨d, ds, rfl⟩ := List.exists_cons_of_ne_nil hne
  obtain ⟨rfl, rfl⟩ := List.cons.inj heq
  obtain ⟨hc, hds⟩ := List.forall_mem_cons.mp hdigits
  refine ⟨hc, ?_⟩
  rw [number_eq_decimal, decimal_of_float h, List.length_cons]
  cases ds with
  | nil => exact htail
  | cons d' ds =>
    rintro _ ⟨⟩
    exact radixDigit?_of_digit (hds d' List.mem_cons_self)

theorem word_of_mem {c : Char} {cs : List Char} (h : c :: cs ∈ Lexicon.word) :
    isNameStart c = true ∧
      word c cs = ⟨Kind.ofWord (String.ofList (c :: cs)), cs.length + 1, none⟩ := by
  obtain ⟨c', part, sign, hstart, hpart, hsign, heq⟩ := mem_word_iff.mp h
  obtain ⟨rfl, rfl⟩ := List.cons.inj heq
  have hends : sign.takeWhile isNamePart = [] ∧ sign.dropWhile isNamePart = sign ∧
      (sign.take 1).filter isNameEnd = sign := by
    simp only [List.mem_cons, List.not_mem_nil, or_false] at hsign
    obtain rfl | rfl | rfl := hsign <;> decide
  obtain ⟨htake, hdrop, hfilter⟩ := hends
  refine ⟨hstart, ?_⟩
  rw [word, List.takeWhile_append_of_pos hpart, List.dropWhile_append_of_pos hpart, htake, hdrop,
    hfilter, List.append_nil]
  rfl

theorem charLiteral_of_mem {c : Char} {cs : List Char} (h : c :: cs ∈ Lexicon.char) :
    c = '\'' ∧ charLiteral cs = ⟨.char, cs.length + 1, none⟩ := by
  obtain ⟨d, hquote, hnewline, heq⟩ := mem_char_iff.mp h
  obtain ⟨rfl, rfl⟩ := List.cons.inj heq
  exact ⟨rfl, charLiteral_closed hquote hnewline []⟩

theorem stringLiteral_of_mem {c : Char} {cs : List Char} (h : c :: cs ∈ Lexicon.string) :
    c = '"' ∧ stringLiteral cs = ⟨.string, cs.length + 1, none⟩ := by
  obtain ⟨inner, hinner, heq⟩ := mem_string_iff.mp h
  obtain ⟨rfl, rfl⟩ := List.cons.inj heq
  refine ⟨rfl, ?_⟩
  rw [stringLiteral_closed hinner [], List.length_append]
  rfl

theorem comment_of_mem {c : Char} {cs : List Char} (h : c :: cs ∈ Lexicon.comment) :
    c = '#' ∧ comment cs = ⟨.comment, cs.length + 1, none⟩ := by
  obtain ⟨inner, hinner, heq⟩ := mem_comment_iff.mp h
  obtain ⟨rfl, rfl⟩ := List.cons.inj heq
  have hcomment : comment (cs ++ []) = _ := comment_closed (fun hc => hinner _ hc rfl) (by simp)
  rw [List.append_nil] at hcomment
  exact ⟨rfl, hcomment⟩

end Shape

open Lexicon in
/-- **A text of the lexicon that stands alone is taken whole, as the kind that it is a text of.**
The lexicon says which texts there are and nothing about how they are found; this is where the two
meet. -/
theorem shapeAt_of_spelling {kind : Kind} {c : Char} {cs : List Char}
    (h : Spelling kind (c :: cs)) : shapeAt c cs = ⟨kind, cs.length + 1, none⟩ := by
  cases h with
  | int h =>
    obtain ⟨hc, hnumber⟩ := Shape.number_of_int h
    rw [shapeAt_digit hc, hnumber]
  | float h =>
    obtain ⟨hc, hnumber⟩ := Shape.number_of_float h
    rw [shapeAt_digit hc, hnumber]
  | char h =>
    obtain ⟨rfl, hshape⟩ := Shape.charLiteral_of_mem h
    exact hshape
  | string h =>
    obtain ⟨rfl, hshape⟩ := Shape.stringLiteral_of_mem h
    exact hshape
  | comment h =>
    obtain ⟨rfl, hshape⟩ := Shape.comment_of_mem h
    exact hshape
  | ident h hfree =>
    obtain ⟨hc, hword⟩ := Shape.word_of_mem h
    have hlookup : Kind.reserved.lookup (String.ofList (c :: cs)) = none := by
      refine List.lookup_eq_none_iff.mpr fun entry hentry => ?_
      simp only [bne_iff_ne]
      intro heq
      exact hfree entry.2 (by rw [heq]; exact hentry)
    rw [shapeAt, if_pos hc, hword, Kind.ofWord, hlookup]
    rfl
  | fixed h =>
    have hall : ∀ entry ∈ table, (entry.1.head?.map fun c => shapeAt c entry.1.tail) =
        some ⟨entry.2, entry.1.length, none⟩ := by decide
    exact Option.some.inj (hall _ h)

/-- The characters that a token may start with. -/
def startsToken (c : Char) : Bool :=
  isNameStart c || isDecimalDigit c ||
    ['"', '\'', '#', '+', '-', '*', '/', '%', '=', '>', '<', '(', ')', '{', '}', ';',
      ','].contains c

/-- Any other character is a token of its own, an invalid one. -/
theorem shapeAt_of_not_startsToken {c : Char} (h : startsToken c = false) (cs : List Char) :
    (shapeAt c cs).kind = .invalid := by
  simp only [startsToken, Bool.or_eq_false_iff, List.contains_eq_mem, decide_eq_false_iff_not,
    List.mem_cons, List.not_mem_nil, or_false, not_or] at h
  obtain ⟨⟨hname, hdigit⟩, hquote, hchar, hcomment, hsigns⟩ := h
  have hpair : ∀ d, Shape.pairKind? c d = none := by
    intro d
    simp [Shape.pairKind?, hsigns]
  have hsign : Shape.signKind? c = none := by simp [Shape.signKind?, hsigns]
  have hbind : cs.head?.bind (Shape.pairKind? c) = none := by
    cases cs with
    | nil => rfl
    | cons d cs => exact hpair d
  rw [shapeAt, if_neg (by simp [hname]), if_neg (by simp [hdigit]), if_neg hquote, if_neg hchar,
    if_neg hcomment, Shape.operator, hbind, hsign]
  rfl

theorem ofWord_ne_invalid (word : String) : Kind.ofWord word ≠ .invalid := by
  rw [Kind.ofWord]
  cases hlookup : Kind.reserved.lookup word with
  | none => decide
  | some kind => exact Lexicon.of_lookup (P := fun entry => entry.2 ≠ .invalid) (by decide) hlookup

theorem Shape.number_ne_invalid (c : Char) (cs : List Char) : (number c cs).kind ≠ .invalid := by
  have hexponent : ∀ {kind : Kind} (size : Nat) (cs : List Char), kind ≠ .invalid →
      (exponent kind size cs).kind ≠ .invalid := by
    intro kind size cs hkind
    unfold exponent
    split
    · exact hkind
    split
    · exact nofun
    · exact hkind
  unfold number
  split
  · exact nofun
  unfold decimal
  dsimp only
  split
  · split
    · exact nofun
    · exact hexponent _ _ nofun
  · exact hexponent _ _ nofun

/-- An invalid token is a single character. -/
theorem shapeAt_size_of_invalid {c : Char} {cs : List Char} (h : (shapeAt c cs).kind = .invalid) :
    (shapeAt c cs).size = 1 := by
  unfold shapeAt at h ⊢
  split at h
  · exact absurd h (ofWord_ne_invalid _)
  split at h
  · exact absurd h (Shape.number_ne_invalid c cs)
  split at h
  · rw [Shape.stringLiteral_kind] at h
    cases h
  split at h
  · rw [Shape.charLiteral_kind] at h
    cases h
  split at h
  · cases h
  rw [if_neg ‹_›, if_neg ‹_›, if_neg ‹_›, if_neg ‹_›, if_neg ‹_›]
  unfold Shape.operator at h ⊢
  split at h
  · next kind hpair =>
    obtain ⟨d, -, hkind⟩ := Option.bind_eq_some_iff.mp hpair
    exact absurd h (Lexicon.of_lookup (P := fun entry => entry.2 ≠ .invalid) (by decide) hkind)
  · rfl

theorem Lexicon.Spelling.startsToken {kind : Kind} {c : Char} {cs : List Char}
    (h : Spelling kind (c :: cs)) : startsToken c = true := by
  by_contra hnot
  have hkind := shapeAt_of_not_startsToken (by simpa using hnot) cs
  rw [shapeAt_of_spelling h] at hkind
  obtain rfl : kind = .invalid := hkind
  exact not_spelling_invalid h

/-- No token starts with a space. -/
theorem Lexicon.Spelling.isSpace_eq_false {kind : Kind} {c : Char} {cs : List Char}
    (h : Spelling kind (c :: cs)) : isSpace c = false := by
  refine Bool.eq_false_iff.mpr fun hspace => ?_
  have hstart := h.startsToken
  rw [of_isSpace Treewalk.startsToken (by decide) c hspace] at hstart
  cases hstart

/-! ## Shapes without a problem -/

namespace Shape

open Lexicon

/-- Nothing is wrong with a shape exactly if the characters that it takes are a text of its kind. -/
def Exact (s : Shape) (cs : List Char) : Prop :=
  s.kind ≠ .invalid ∧ s.problem = none ↔ Spelling s.kind (cs.take s.size)

theorem exact_of_spelling {kind : Kind} {text : List Char} (h : Spelling kind text)
    (rest : List Char) : Exact ⟨kind, text.length, none⟩ (text ++ rest) := by
  have hkind : kind ≠ .invalid := by
    rintro rfl
    exact not_spelling_invalid h
  rw [Exact, List.take_left]
  exact iff_of_true ⟨hkind, rfl⟩ h

theorem exact_of_not_spelling {kind : Kind} (text : List Char) (h : ¬ Spelling kind text)
    (problem : Problem) (rest : List Char) :
    Exact ⟨kind, text.length, some problem⟩ (text ++ rest) := by
  rw [Exact, List.take_left]
  exact iff_of_false (fun hs => nomatch hs.2) h

/-- A span with what it covers and what stops it. -/
theorem exists_span (p : Char → Bool) (cs : List Char) :
    ∃ front rest, cs = front ++ rest ∧ span p cs = front.length ∧ (∀ c ∈ front, p c = true) ∧
      ∀ c ∈ rest.head?, p c = false := by
  refine ⟨cs.takeWhile p, cs.dropWhile p, List.takeWhile_append_dropWhile.symm, rfl,
    fun c hc => ?_, fun c hc => ?_⟩
  · exact List.all_eq_true.mp List.all_takeWhile c hc
  · have h := List.head?_dropWhile_not p cs
    rw [Option.mem_def.mp hc] at h
    simpa using h

/-- A sign that is looked for and what stands behind it. -/
theorem exists_sign (p : Char → Bool) (cs : List Char) :
    ∃ sign rest, cs = sign ++ rest ∧ (cs.take 1).filter p = sign ∧
      (sign = [] ∨ ∃ c, p c = true ∧ sign = [c]) := by
  cases cs with
  | nil => exact ⟨[], [], rfl, rfl, .inl rfl⟩
  | cons c cs =>
    by_cases h : p c = true
    · exact ⟨[c], cs, rfl, by simp [h], .inr ⟨c, h, rfl⟩⟩
    · exact ⟨[], c :: cs, rfl, by simp [h], .inl rfl⟩

/-- What ends in something else than a digit is no float. -/
theorem not_spelling_float (init : List Char) {c : Char} (h : isDecimalDigit c = false) :
    ¬ Spelling .float (init ++ [c]) := by
  intro hs
  have hlast := isDecimalDigit_of_mem_float (spelling_float_iff.mp hs) (c := c) (by simp)
  rw [h] at hlast
  cases hlast

theorem exponent_exact {kind : Kind} {before : List Char} (hbefore : Spelling kind before)
    (hfloat : ∀ e ∈ Lexicon.exponent, before ++ e ∈ Lexicon.float) (cs : List Char) :
    (exponent kind before.length cs).Exact (before ++ cs) := by
  cases cs with
  | nil => exact exact_of_spelling hbefore []
  | cons e rest =>
    rw [exponent]
    dsimp only
    split
    case isFalse => exact exact_of_spelling hbefore _
    next he =>
    obtain ⟨sign, rest, rfl, hsign, hcases⟩ := exists_sign (fun c => c = '+' || c = '-') rest
    obtain ⟨ds, rest, rfl, hspan, hds, -⟩ := exists_span isDecimalDigit rest
    have hlength : before.length + 1 + sign.length + ds.length =
        (before ++ e :: (sign ++ ds)).length := by
      simp only [List.length_append, List.length_cons]
      omega
    have hsplit : before ++ e :: (sign ++ (ds ++ rest)) =
        before ++ e :: (sign ++ ds) ++ rest := by simp
    rw [hsign, List.drop_left, hspan, hlength, hsplit]
    split
    · next hempty =>
      obtain rfl := List.length_eq_zero_iff.mp hempty
      refine exact_of_not_spelling _ ?_ _ rest
      -- The text ends in the letter or in the sign, and a float ends in a digit.
      obtain rfl | ⟨c, hc, rfl⟩ := hcases
      · refine not_spelling_float before ?_
        obtain rfl | rfl := he <;> rfl
      · have hdigit : isDecimalDigit c = false := by
          simp only [Bool.or_eq_true, decide_eq_true_eq] at hc
          obtain rfl | rfl := hc <;> rfl
        simpa using not_spelling_float (before ++ [e]) hdigit
    · next hne =>
      have hmem : sign ∈ [[], ['+'], ['-']] := by
        obtain rfl | ⟨c, hc, rfl⟩ := hcases
        · simp
        · simpa using hc
      exact exact_of_spelling (.float (hfloat _ (mem_exponent_iff.mpr ⟨e, sign, ds, he, hmem,
        mem_decimals_iff.mpr ⟨by simpa using hne, hds⟩, rfl⟩))) rest

theorem decimal_exact {c : Char} (hc : isDecimalDigit c = true) (cs : List Char) :
    (decimal (c :: cs)).Exact (c :: cs) := by
  obtain ⟨whole, rest, hsplit, hspan, hwhole, hstop⟩ := exists_span isDecimalDigit (c :: cs)
  have hdecimals : whole ∈ decimals := by
    refine mem_decimals_iff.mpr ⟨?_, hwhole⟩
    rintro rfl
    have hfirst := hstop c (by rw [← List.nil_append rest, ← hsplit]; rfl)
    rw [hc] at hfirst
    cases hfirst
  have hdrop : (c :: cs).drop (span isDecimalDigit (c :: cs)) = rest := by
    rw [hspan, hsplit, List.drop_left]
  by_cases hpoint : rest.head? = some '.'
  · obtain ⟨rest, rfl⟩ := List.head?_eq_some_iff.mp hpoint
    obtain ⟨ds, rest, rfl, hspan', hds, -⟩ := exists_span isDecimalDigit rest
    rw [decimal_of_point hdrop, hspan, hspan', List.drop_left, hsplit]
    split
    · next hempty =>
      obtain rfl := List.length_eq_zero_iff.mp hempty
      have hexact := exact_of_not_spelling _ (not_spelling_float whole (c := '.') rfl) .noFraction
        rest
      simpa using hexact
    · next hne =>
      have hfraction : ds ∈ decimals := mem_decimals_iff.mpr ⟨by simpa using hne, hds⟩
      have hfloat : ∀ e ∈ 1 + Lexicon.exponent, whole ++ '.' :: ds ++ e ∈ Lexicon.float :=
        fun e he => mem_float_iff.mpr (.inl ⟨whole, ds, e, hdecimals, hfraction, he, by simp⟩)
      have hbefore : Spelling .float (whole ++ '.' :: ds) := .float (by
        simpa using hfloat [] (.inl rfl))
      have hexact := exponent_exact hbefore (fun e he => hfloat e (.inr he)) rest
      have hlength : whole.length + 1 + ds.length = (whole ++ '.' :: ds).length := by
        simp only [List.length_append, List.length_cons]
        omega
      rw [hlength]
      simpa using hexact
  · rw [decimal_of_no_point (by rwa [hdrop]), hdrop, hspan, hsplit]
    exact exponent_exact (.int (mem_int_iff.mpr (.inl hdecimals)))
      (fun e he => mem_float_iff.mpr (.inr ⟨whole, e, hdecimals, he, rfl⟩)) rest

theorem number_exact {c : Char} (hc : isDecimalDigit c = true) (cs : List Char) :
    (number c cs).Exact (c :: cs) := by
  rw [number]
  split
  case h_2 => exact decimal_exact hc cs
  next digit h =>
  split at h
  case isFalse => cases h
  next hzero =>
  obtain ⟨letter, hhead, hletter⟩ := Option.bind_eq_some_iff.mp h
  obtain ⟨rest, rfl⟩ := List.head?_eq_some_iff.mp hhead
  obtain ⟨ds, rest, rfl, hspan, hds, -⟩ := exists_span digit rest
  subst hzero
  have hlength : 2 + ds.length = ('0' :: letter :: ds).length := by
    rw [List.length_cons, List.length_cons]
    omega
  rw [List.drop_one, List.tail_cons, hspan, ← List.cons_append, ← List.cons_append]
  dsimp only
  rw [hlength]
  split
  · next hempty =>
    obtain rfl := List.length_eq_zero_iff.mp hempty
    refine exact_of_not_spelling _ (fun hs => ?_) _ rest
    -- Zero and a letter are neither digits of ten nor a radix with a digit.
    obtain hdecimals | ⟨letter', digit', ds', -, hne, -, heq⟩ :=
      mem_int_iff.mp (spelling_int_iff.mp hs)
    · have hdigit := (mem_decimals_iff.mp hdecimals).2 letter (by simp)
      rw [radixDigit?_of_digit hdigit] at hletter
      cases hletter
    · obtain ⟨-, -, rfl⟩ := heq
      exact hne rfl
  · next hne =>
    exact exact_of_spelling (.int (mem_int_iff.mpr (.inr ⟨letter, digit, ds, hletter,
      by simpa using hne, hds, rfl⟩))) rest

theorem word_exact {c : Char} (hc : isNameStart c = true) (cs : List Char) :
    (word c cs).Exact (c :: cs) := by
  obtain ⟨sign, rest, hrest, hsign, hcases⟩ := exists_sign isNameEnd (cs.dropWhile isNamePart)
  have hsplit : c :: cs = c :: cs.takeWhile isNamePart ++ sign ++ rest := by
    rw [List.append_assoc, ← hrest, List.cons_append, List.takeWhile_append_dropWhile]
  have hmem : sign ∈ [[], ['!'], ['?']] := by
    obtain rfl | ⟨d, hd, rfl⟩ := hcases
    · simp
    · simpa [isNameEnd] using hd
  rw [word, hsign, hsplit]
  exact exact_of_spelling (spelling_ofWord (mem_word_iff.mpr ⟨c, cs.takeWhile isNamePart, sign, hc,
    fun d hd => List.all_eq_true.mp List.all_takeWhile d hd, hmem, rfl⟩)) rest

theorem charLiteral_exact (cs : List Char) : (charLiteral cs).Exact ('\'' :: cs) := by
  have hshort : ∀ text : List Char, text.length ≠ 3 → ¬ Spelling .char text := by
    intro text hlength hs
    obtain ⟨_, -, -, rfl⟩ := mem_char_iff.mp (spelling_char_iff.mp hs)
    exact hlength rfl
  cases cs with
  | nil => exact exact_of_not_spelling ['\''] (hshort _ (by simp)) _ []
  | cons c rest =>
    rw [charLiteral]
    split
    · exact exact_of_not_spelling ['\'', c] (hshort _ (by simp)) _ rest
    split
    · exact exact_of_not_spelling ['\''] (hshort _ (by simp)) _ (c :: rest)
    split
    · next hquote hnewline hhead =>
      obtain ⟨rest, rfl⟩ := List.head?_eq_some_iff.mp hhead
      exact exact_of_spelling (.char (mem_char_iff.mpr ⟨c, hquote, hnewline, rfl⟩)) rest
    · exact exact_of_not_spelling ['\'', c] (hshort _ (by simp)) _ rest

theorem stringLiteral_exact (cs : List Char) : (stringLiteral cs).Exact ('"' :: cs) := by
  obtain ⟨inner, rest, rfl, hspan, hinner, -⟩ := exists_span (fun c => c ≠ '"' && c ≠ '\n') cs
  replace hinner : ∀ c ∈ inner, c ≠ '"' ∧ c ≠ '\n' := fun c hc => by simpa using hinner c hc
  rw [stringLiteral, hspan, List.drop_left]
  split
  · next hhead =>
    obtain ⟨rest, rfl⟩ := List.head?_eq_some_iff.mp hhead
    have hexact := exact_of_spelling (.string (mem_string_iff.mpr ⟨inner, hinner, rfl⟩)) rest
    simpa using hexact
  · refine exact_of_not_spelling ('"' :: inner) (fun hs => ?_) _ rest
    obtain ⟨inner', -, heq⟩ := mem_string_iff.mp (spelling_string_iff.mp hs)
    obtain ⟨-, rfl⟩ := List.cons.inj heq
    exact (hinner '"' (by simp)).1 rfl

theorem comment_exact (cs : List Char) : (comment cs).Exact ('#' :: cs) := by
  obtain ⟨inner, rest, rfl, hspan, hinner, -⟩ := exists_span (fun c => c ≠ '\n') cs
  have hs : Spelling .comment ('#' :: inner) :=
    .comment (mem_comment_iff.mpr ⟨inner, fun c hc => by simpa using hinner c hc, rfl⟩)
  rw [comment, hspan, Nat.add_comm]
  exact exact_of_spelling hs rest

theorem spelling_of_pairKind? {c d : Char} {kind : Kind} (h : pairKind? c d = some kind) :
    Spelling kind [c, d] := by
  rw [pairKind?] at h
  refine .fixed (of_lookup (P := fun entry => ([entry.1.1, entry.1.2], entry.2) ∈ table) ?_ h)
  decide

theorem spelling_of_signKind? {c : Char} {kind : Kind} (h : signKind? c = some kind) :
    Spelling kind [c] := by
  rw [signKind?] at h
  refine .fixed (of_lookup (P := fun entry => ([entry.1], entry.2) ∈ table) ?_ h)
  decide

theorem operator_exact (c : Char) (cs : List Char) : (operator c cs).Exact (c :: cs) := by
  rw [operator]
  split
  · next kind h =>
    obtain ⟨d, hhead, hkind⟩ := Option.bind_eq_some_iff.mp h
    obtain ⟨rest, rfl⟩ := List.head?_eq_some_iff.mp hhead
    exact exact_of_spelling (spelling_of_pairKind? hkind) rest
  · cases hkind : signKind? c with
    | none => exact iff_of_false (fun hs => hs.1 rfl) not_spelling_invalid
    | some kind => exact exact_of_spelling (spelling_of_signKind? hkind) cs

end Shape

/-- **Nothing is wrong with a token exactly if it is a text of its kind.** The one direction says
that what is let through is in the lexicon, the other that nothing in the lexicon is refused. -/
theorem shapeAt_exact (c : Char) (cs : List Char) : (shapeAt c cs).Exact (c :: cs) := by
  rw [shapeAt]
  split
  · next h => exact Shape.word_exact h cs
  split
  · next h => exact Shape.number_exact h cs
  split
  · next h => exact h ▸ Shape.stringLiteral_exact cs
  split
  · next h => exact h ▸ Shape.charLiteral_exact cs
  split
  · next h => exact h ▸ Shape.comment_exact cs
  · exact Shape.operator_exact c cs

namespace Lexicon

/-- A text is of a kind exactly if all of it is taken as that kind. -/
theorem spelling_iff_shapeAt {kind : Kind} {c : Char} {cs : List Char} :
    Spelling kind (c :: cs) ↔
      kind ≠ .invalid ∧ shapeAt c cs = ⟨kind, cs.length + 1, none⟩ := by
  constructor
  · intro h
    refine ⟨?_, shapeAt_of_spelling h⟩
    rintro rfl
    exact not_spelling_invalid h
  · rintro ⟨hkind, hshape⟩
    have hexact := shapeAt_exact c cs
    rw [hshape, Shape.Exact, List.take_succ_cons, List.take_length] at hexact
    exact hexact.mp ⟨hkind, rfl⟩

instance (kind : Kind) (cs : List Char) : Decidable (Spelling kind cs) :=
  match cs with
  | [] => isFalse fun h => h.ne_nil rfl
  | _ :: _ => decidable_of_iff _ spelling_iff_shapeAt.symm

end Lexicon

end Treewalk
