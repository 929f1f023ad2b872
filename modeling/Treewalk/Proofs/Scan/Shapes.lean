import Treewalk.Token.Shape

/-!
# Shapes end with their line

Every scanner stops at a line feed as it stops at the end of the text, and none takes more than
there is. There is one lemma of each sort for each scanner, and `shapeAt` puts them together.

## Main results

* `shapeAt_newline`: what stands behind a line feed has no say in a token before it
* `shapeAt_size_le`: a token does not reach past the end

## Implementation notes

The lemmas on line feeds compare a text with a text that goes on behind a line feed. Stated this way
they need no notion of the line that a character is on, and they can be used by rewriting from left
to right, which drops everything behind the line feed.

That no scanner goes past the end is proved for arbitrary texts. It is not evident from the
definitions, because sizes are computed and not measured: a literal that is left open takes one
character less than it would have if it were closed.
-/

namespace Treewalk

/-- A test that none of the four spaces passes. -/
theorem of_isSpace (p : Char → Bool) (h : [' ', '\t', '\r', '\n'].any p = false) (d : Char)
    (hd : isSpace d = true) : p d = false := by
  simp only [isSpace, Bool.or_eq_true, decide_eq_true_eq] at hd
  refine Bool.eq_false_iff.mpr (List.any_eq_false.mp h d ?_)
  obtain ((rfl | rfl) | rfl) | rfl := hd <;> simp

namespace Shape

section

variable {p : Char → Bool} {d : Char} (hd : p d = false)
include hd

theorem takeWhile_break (cs ds : List Char) : (cs ++ d :: ds).takeWhile p = cs.takeWhile p := by
  induction cs with
  | nil => rw [List.nil_append, List.takeWhile_cons_of_neg (by simp [hd]), List.takeWhile_nil]
  | cons c cs ih => rw [List.cons_append, List.takeWhile_cons, List.takeWhile_cons, ih]

theorem dropWhile_break (cs ds : List Char) :
    (cs ++ d :: ds).dropWhile p = cs.dropWhile p ++ d :: ds := by
  induction cs with
  | nil => rw [List.nil_append, List.dropWhile_cons_of_neg (by simp [hd])]; rfl
  | cons c cs ih =>
    rw [List.cons_append, List.dropWhile_cons, List.dropWhile_cons, ih]
    split <;> rfl

theorem span_break (cs ds : List Char) : span p (cs ++ d :: ds) = span p cs :=
  congrArg List.length (takeWhile_break hd cs ds)

/-- A sign is not looked for behind the break. -/
theorem take_one_filter_break (cs ds : List Char) :
    ((cs ++ d :: ds).take 1).filter p = (cs.take 1).filter p := by
  cases cs with
  | nil => simp [hd]
  | cons c cs => rfl

end

theorem span_le (p : Char → Bool) (cs : List Char) : span p cs ≤ cs.length :=
  (List.takeWhile_prefix p).length_le

theorem drop_span_break {p : Char → Bool} {d : Char} (hd : p d = false) (cs ds : List Char) :
    (cs ++ d :: ds).drop (span p (cs ++ d :: ds)) = cs.drop (span p cs) ++ d :: ds := by
  rw [span_break hd, List.drop_append_of_le_length (span_le p cs)]

/-- A name ends before a character that neither continues nor ends one. -/
theorem word_break {d : Char} (hpart : isNamePart d = false) (hend : isNameEnd d = false) (c : Char)
    (cs ds : List Char) : word c (cs ++ d :: ds) = word c cs := by
  rw [word, word, takeWhile_break hpart, dropWhile_break hpart, take_one_filter_break hend]

theorem word_newline (c : Char) (cs ds : List Char) : word c (cs ++ '\n' :: ds) = word c cs :=
  word_break (by decide) (by decide) c cs ds

theorem exponent_newline (kind : Kind) (size : Nat) (cs ds : List Char) :
    exponent kind size (cs ++ '\n' :: ds) = exponent kind size cs := by
  cases cs with
  | nil =>
    rw [List.nil_append, exponent, exponent]
    exact if_neg (by decide)
  | cons e rest =>
    have hsign : ((rest.take 1).filter fun c => c = '+' || c = '-').length ≤ rest.length :=
      ((List.filter_sublist).trans (List.take_sublist 1 rest)).length_le
    rw [List.cons_append, exponent, exponent]
    dsimp only
    rw [take_one_filter_break (by decide), List.drop_append_of_le_length hsign,
      span_break (by decide)]

/-- Digits with no point behind them. -/
theorem decimal_of_no_point {cs : List Char}
    (h : (cs.drop (span isDecimalDigit cs)).head? ≠ some '.') :
    decimal cs = exponent .int (span isDecimalDigit cs) (cs.drop (span isDecimalDigit cs)) := by
  rw [decimal]
  dsimp only
  split
  · next heq => exact absurd (congrArg List.head? heq) h
  · rfl

/-- Digits, a point and what stands behind it. -/
theorem decimal_of_point {cs rest : List Char}
    (h : cs.drop (span isDecimalDigit cs) = '.' :: rest) :
    decimal cs = if span isDecimalDigit rest = 0
      then ⟨.float, span isDecimalDigit cs + 1, some .noFraction⟩
      else exponent .float (span isDecimalDigit cs + 1 + span isDecimalDigit rest)
        (rest.drop (span isDecimalDigit rest)) := by
  rw [decimal, h]
  rfl

theorem decimal_newline (cs ds : List Char) : decimal (cs ++ '\n' :: ds) = decimal cs := by
  have hdigit : isDecimalDigit '\n' = false := by decide
  have hdrop := drop_span_break hdigit cs ds
  rcases hrest : cs.drop (span isDecimalDigit cs) with _ | ⟨c, rest⟩
  · rw [hrest] at hdrop
    rw [decimal_of_no_point (by simp [hdrop]), decimal_of_no_point (by simp [hrest]), hdrop, hrest,
      span_break hdigit, exponent_newline]
  · rw [hrest, List.cons_append] at hdrop
    by_cases hc : c = '.'
    · subst hc
      rw [decimal_of_point hdrop, decimal_of_point hrest, drop_span_break hdigit,
        span_break hdigit, span_break hdigit, exponent_newline]
    · rw [decimal_of_no_point (by simpa [hdrop] using hc),
        decimal_of_no_point (by simpa [hrest] using hc), hdrop, hrest, span_break hdigit,
        ← List.cons_append, exponent_newline]

/-- No radix has a line feed among its digits. -/
theorem radixDigit?_newline {letter : Char} {digit : Char → Bool}
    (h : radixDigit? letter = some digit) : digit '\n' = false := by
  rw [radixDigit?] at h
  split at h
  · rw [← Option.some.inj h]; decide
  split at h
  · rw [← Option.some.inj h]; decide
  split at h
  · rw [← Option.some.inj h]; decide
  · cases h

theorem number_newline (c : Char) (cs ds : List Char) :
    number c (cs ++ '\n' :: ds) = number c cs := by
  have hhead : (cs ++ '\n' :: ds).head?.bind radixDigit? = cs.head?.bind radixDigit? := by
    cases cs <;> rfl
  rw [number, number, hhead]
  split
  · next digit h =>
    obtain ⟨letter, rest, rfl⟩ : ∃ letter rest, cs = letter :: rest := by
      cases cs with
      | nil => simp at h
      | cons letter rest => exact ⟨letter, rest, rfl⟩
    have hdigit : digit '\n' = false := by
      split at h
      · exact radixDigit?_newline h
      · cases h
    change Shape.mk _ (2 + span digit (rest ++ '\n' :: ds)) _ = Shape.mk _ (2 + span digit rest) _
    rw [List.cons_append, List.drop_one, List.tail_cons, List.drop_one, List.tail_cons,
      span_break hdigit]
  · exact decimal_newline (c :: cs) ds

theorem charLiteral_newline (cs ds : List Char) :
    charLiteral (cs ++ '\n' :: ds) = charLiteral cs := by
  rcases cs with _ | ⟨c, _ | ⟨d, rest⟩⟩
  · rfl
  · rfl
  · rfl

theorem stringLiteral_newline (cs ds : List Char) :
    stringLiteral (cs ++ '\n' :: ds) = stringLiteral cs := by
  have hbreak : (fun c => (c ≠ '"' && c ≠ '\n' : Bool)) '\n' = false := by decide
  rw [stringLiteral, stringLiteral, drop_span_break hbreak, span_break hbreak]
  cases cs.drop (span (fun c => c ≠ '"' && c ≠ '\n') cs) <;> rfl

theorem comment_newline (cs ds : List Char) : comment (cs ++ '\n' :: ds) = comment cs := by
  rw [comment, comment, span_break (by decide)]

/-- No operator ends in a line feed. -/
theorem pairKind?_newline (c : Char) : pairKind? c '\n' = none := by
  rw [pairKind?]
  simp

theorem operator_newline (c : Char) (cs ds : List Char) :
    operator c (cs ++ '\n' :: ds) = operator c cs := by
  have hpair : (cs ++ '\n' :: ds).head?.bind (pairKind? c) = cs.head?.bind (pairKind? c) := by
    cases cs with
    | nil => exact pairKind?_newline c
    | cons d cs => rfl
  rw [operator, operator, hpair]

/-! ## Numbers -/

/-- A span ends where it is stopped. -/
theorem span_append {p : Char → Bool} {cs rest : List Char} (hcs : ∀ c ∈ cs, p c = true)
    (hrest : ∀ c ∈ rest.head?, p c = false) : span p (cs ++ rest) = cs.length := by
  have hnone : rest.takeWhile p = [] := by
    cases rest with
    | nil => rfl
    | cons c rest => exact List.takeWhile_cons_of_neg (by simp [hrest c rfl])
  rw [span, List.takeWhile_append_of_pos hcs, hnone, List.append_nil]

/-- A span of a text that is all of one class. -/
theorem span_eq_length {p : Char → Bool} {cs : List Char} (h : ∀ c ∈ cs, p c = true) :
    span p cs = cs.length := by
  have hspan : span p (cs ++ []) = cs.length := span_append h (by simp)
  rwa [List.append_nil] at hspan

theorem radixDigit?_of_digit {c : Char} (h : isDecimalDigit c = true) : radixDigit? c = none := by
  have hne : ∀ d, isDecimalDigit d = false → c ≠ d := by
    rintro d hd rfl
    rw [h] at hd
    cases hd
  rw [radixDigit?, if_neg (hne _ rfl), if_neg (hne _ rfl), if_neg (hne _ rfl)]

/-- A number is decimal if no radix is announced. -/
theorem number_eq_decimal {c : Char} {cs : List Char} (h : ∀ d ∈ cs.head?, radixDigit? d = none) :
    number c cs = decimal (c :: cs) := by
  have hradix : cs.head?.bind radixDigit? = none := by
    cases cs with
    | nil => rfl
    | cons d cs => exact h d rfl
  rw [number, hradix, ite_self]

/-- A radix, its digits, and something that stops a number. -/
theorem number_of_radix {letter : Char} {digit : Char → Bool} (hr : radixDigit? letter = some digit)
    {cs rest : List Char} (hne : cs ≠ []) (hcs : ∀ c ∈ cs, digit c = true)
    (hrest : ∀ c ∈ rest.head?, digit c = false) :
    number '0' (letter :: (cs ++ rest)) = ⟨.int, 2 + cs.length, none⟩ := by
  have hspan := span_append hcs hrest
  have hpos : cs.length ≠ 0 := by simpa using hne
  rw [number, List.head?_cons, Option.bind_some, if_pos rfl, hr]
  dsimp only
  rw [List.drop_one, List.tail_cons, hspan, if_neg hpos]

/-! ## Literals -/

theorem stringLiteral_kind (cs : List Char) : (stringLiteral cs).kind = .string := by
  unfold stringLiteral
  simp only
  split <;> rfl

theorem charLiteral_kind (cs : List Char) : (charLiteral cs).kind = .char := by
  unfold charLiteral
  repeat' split
  all_goals rfl

/-- What stands behind the closing quote has no say in a string. -/
theorem stringLiteral_closed {inner : List Char} (h : ∀ c ∈ inner, c ≠ '"' ∧ c ≠ '\n')
    (rest : List Char) :
    stringLiteral (inner ++ '"' :: rest) = ⟨.string, inner.length + 2, none⟩ := by
  have hspan : span (fun c => c ≠ '"' && c ≠ '\n') (inner ++ '"' :: rest) = inner.length :=
    span_append (fun c hc => by simpa using h c hc) (by rintro c ⟨⟩; decide)
  rw [stringLiteral, hspan, List.drop_left, List.head?_cons, if_pos rfl]

theorem charLiteral_closed {c : Char} (hquote : c ≠ '\'') (hnewline : c ≠ '\n')
    (rest : List Char) : charLiteral (c :: '\'' :: rest) = ⟨.char, 3, none⟩ := by
  rw [charLiteral, if_neg hquote, if_neg hnewline]
  rfl

/-- A comment ends with its line. -/
theorem comment_closed {inner rest : List Char} (h : '\n' ∉ inner)
    (hrest : ∀ d ∈ rest.head?, d = '\n') :
    comment (inner ++ rest) = ⟨.comment, inner.length + 1, none⟩ := by
  have hspan : span (fun c => c ≠ '\n') (inner ++ rest) = inner.length :=
    span_append (fun c hc => by simpa using ne_of_mem_of_not_mem hc h)
      (fun d hd => by simpa using hrest d hd)
  rw [comment, hspan, Nat.add_comm]

/-! ## Sizes -/

theorem exponent_size_add_le (kind : Kind) (size : Nat) (cs : List Char) :
    (exponent kind size cs).size ≤ size + cs.length := by
  unfold exponent
  split
  · exact Nat.le_add_right _ _
  · next e rest =>
    split
    · let sign := ((rest.take 1).filter fun c => c = '+' || c = '-').length
      have hsign : sign ≤ rest.length :=
        (List.filter_sublist.trans (List.take_sublist 1 rest)).length_le
      have hdigits := span_le isDecimalDigit (rest.drop sign)
      change size + 1 + sign + span isDecimalDigit (rest.drop sign) ≤ size + (rest.length + 1)
      rw [List.length_drop] at hdigits
      omega
    · exact Nat.le_add_right _ _

theorem decimal_size_le (cs : List Char) : (decimal cs).size ≤ cs.length := by
  have hwhole := span_le isDecimalDigit cs
  by_cases h : (cs.drop (span isDecimalDigit cs)).head? = some '.'
  · obtain ⟨rest, hrest⟩ := List.head?_eq_some_iff.mp h
    have hlen := congrArg List.length hrest
    have hdigits := span_le isDecimalDigit rest
    rw [List.length_drop, List.length_cons] at hlen
    rw [decimal_of_point hrest]
    split
    · change span isDecimalDigit cs + 1 ≤ cs.length
      omega
    · refine Nat.le_trans (exponent_size_add_le _ _ _) ?_
      rw [List.length_drop]
      omega
  · rw [decimal_of_no_point h]
    refine Nat.le_trans (exponent_size_add_le _ _ _) ?_
    rw [List.length_drop]
    omega

theorem number_size_le (c : Char) (cs : List Char) : (number c cs).size ≤ cs.length + 1 := by
  rw [number]
  split
  · next digit h =>
    cases cs with
    | nil => simp at h
    | cons letter rest =>
      have hdigits := span_le digit rest
      change 2 + span digit rest ≤ rest.length + 1 + 1
      omega
  · exact decimal_size_le (c :: cs)

theorem word_size_le (c : Char) (cs : List Char) : (word c cs).size ≤ cs.length + 1 := by
  have hsplit := congrArg List.length (cs.takeWhile_append_dropWhile (p := isNamePart))
  have hsign := (List.filter_sublist (p := isNameEnd) |>.trans
    (List.take_sublist 1 (cs.dropWhile isNamePart))).length_le
  rw [word]
  simp only [List.length_append, List.length_cons] at hsplit ⊢
  omega

theorem stringLiteral_size_le (cs : List Char) : (stringLiteral cs).size ≤ cs.length + 1 := by
  have hspan := span_le (fun c => c ≠ '"' && c ≠ '\n') cs
  rw [stringLiteral]
  split
  · next h =>
    obtain ⟨rest, hrest⟩ := List.head?_eq_some_iff.mp h
    have hlen := congrArg List.length hrest
    rw [List.length_drop, List.length_cons] at hlen
    change span _ cs + 2 ≤ _
    omega
  · exact Nat.succ_le_succ hspan

theorem charLiteral_size_le (cs : List Char) : (charLiteral cs).size ≤ cs.length + 1 := by
  rcases cs with _ | ⟨c, _ | ⟨d, rest⟩⟩
  · exact Nat.le_refl _
  · rw [charLiteral]
    repeat' split
    all_goals simp_all
  · rw [charLiteral]
    repeat' split
    all_goals simp

theorem operator_size_le (c : Char) (cs : List Char) : (operator c cs).size ≤ cs.length + 1 := by
  rw [operator]
  split
  · next h =>
    cases cs with
    | nil => simp at h
    | cons d cs => simp
  · simp

end Shape

/-- No name starts with a decimal digit. -/
theorem isNameStart_of_isDecimalDigit {c : Char} (h : isDecimalDigit c = true) :
    isNameStart c = false := by
  have hascii : c.toNat < 0x80 := by
    simp only [isDecimalDigit, Bool.and_eq_true, decide_eq_true_eq, Char.le_def,
      UInt32.le_iff_toNat_le] at h
    exact Nat.lt_of_le_of_lt h.2 (by decide)
  have hall : ∀ n < 0x80, isDecimalDigit (Char.ofNat n) = true →
      isNameStart (Char.ofNat n) = false := by decide
  have hc := hall c.toNat hascii
  rw [Char.ofNat_toNat] at hc
  exact hc h

/-- What starts with a decimal digit is a number. -/
theorem shapeAt_digit {c : Char} (h : isDecimalDigit c = true) (cs : List Char) :
    shapeAt c cs = Shape.number c cs := by
  rw [shapeAt, isNameStart_of_isDecimalDigit h, h]
  rfl

/-- What stands behind a line feed has no say in a token before it. No shape goes past a line feed,
and none looks at what is behind one. -/
theorem shapeAt_newline (c : Char) (cs ds : List Char) :
    shapeAt c (cs ++ '\n' :: ds) = shapeAt c cs := by
  rw [shapeAt, shapeAt, Shape.word_newline, Shape.number_newline, Shape.stringLiteral_newline,
    Shape.charLiteral_newline, Shape.comment_newline, Shape.operator_newline]

/-- A token does not reach past the end. -/
theorem shapeAt_size_le (c : Char) (cs : List Char) : (shapeAt c cs).size ≤ cs.length + 1 := by
  rw [shapeAt]
  split
  · exact Shape.word_size_le c cs
  split
  · exact Shape.number_size_le c cs
  split
  · exact Shape.stringLiteral_size_le cs
  split
  · exact Shape.charLiteral_size_le cs
  split
  · have hspan := Shape.span_le (fun c => c ≠ '\n') cs
    rw [Shape.comment]
    dsimp only
    omega
  · exact Shape.operator_size_le c cs

end Treewalk
