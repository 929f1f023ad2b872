import Treewalk.Proofs.Scan.Recognition

/-!
# One character of lookahead

Whether a token ends where it does is decided by the characters that it takes and by the one behind
them, and of that one it does not matter which space it is. So a token is taken again, as the same,
wherever its characters stand before something that looks the same from behind them. A comment is
the exception: it ends before a line feed and before no other space.

The scanners are gone through one by one. Each gets a bound on what it takes, namely the characters
that are known, and so it does not come to see more than one of those behind.

## Main definitions

* `behind`, what the scanner sees of the characters behind a token

## Main results

* `shapeAt_congr`: what it does not see has no say in the token
* `newline_behind_comment`: a comment goes on to the end of its line

## Implementation notes

The hypothesis of every lemma is a bound on the size of the token and not a statement about the
characters behind. That is how it is known in applications: the token was taken from a text in which
these characters stand, and it had that size.

`behind` forgets which space it sees, which makes the lemmas true of all tokens but comments. The
price is that comments have to be excluded, and `newline_behind_comment` says for them what is
needed instead.

`fraction` is a name for a part of `decimal`, so that what stands behind the digits can be treated
by a lemma of its own.
-/

namespace Treewalk

/-- What is seen of the characters behind a token: the first one, unless it is a space. -/
def behind (rest : List Char) : Option Char :=
  rest.head?.filter fun d => !isSpace d

theorem behind_cons {d : Char} (hd : isSpace d = false) (rest : List Char) :
    behind (d :: rest) = some d := by
  simp [behind, hd]

theorem behind_space {d : Char} (hd : isSpace d = true) (rest : List Char) :
    behind (d :: rest) = none := by
  simp [behind, hd]

namespace Shape

/-! ## Tests -/

section

variable {p : Char → Bool} {rest rest' : List Char}

theorem takeWhile_stop (h : ∀ d ∈ rest.head?, p d = false) : rest.takeWhile p = [] := by
  cases rest with
  | nil => rfl
  | cons d rest => exact List.takeWhile_cons_of_neg (by simp [h d rfl])

theorem take_one_filter_stop (h : ∀ d ∈ rest.head?, p d = false) :
    (rest.take 1).filter p = [] := by
  cases rest with
  | nil => rfl
  | cons d rest => simp [h d rfl]

theorem head?_bind_stop {β : Type} {f : Char → Option β}
    (h : ∀ d ∈ rest.head?, (f d).isSome = false) : rest.head?.bind f = none := by
  cases rest with
  | nil => rfl
  | cons d rest => simpa using h d rfl

/-- Nothing passes where passing would be too much. -/
theorem stop_of (rest : List Char) (p : Char → Bool) (h : ∀ d ds, rest = d :: ds → p d ≠ true) :
    ∀ d ∈ rest.head?, p d = false := by
  intro d hd
  obtain ⟨ds, hds⟩ := List.head?_eq_some_iff.mp hd
  exact Bool.eq_false_iff.mpr (h d ds hds)

variable (hp : ∀ d, isSpace d = true → p d = false) (hb : behind rest' = behind rest)
include hp hb

/-- A test that no space passes stops at all that looks the same. -/
theorem stop_congr (h : ∀ d ∈ rest.head?, p d = false) : ∀ d ∈ rest'.head?, p d = false := by
  intro d hd
  obtain ⟨ds, rfl⟩ := List.head?_eq_some_iff.mp hd
  by_cases hspace : isSpace d = true
  · exact hp d hspace
  · rw [behind_cons (by simpa using hspace), eq_comm, behind, Option.filter_eq_some_iff] at hb
    exact h d hb.1

/-- A span that does not go on behind the token does not go on there. -/
theorem takeWhile_congr (cs : List Char) (h : span p (cs ++ rest) ≤ cs.length) :
    (cs ++ rest).takeWhile p = cs.takeWhile p ∧ (cs ++ rest').takeWhile p = cs.takeWhile p := by
  rw [span, List.takeWhile_append] at h
  rw [List.takeWhile_append, List.takeWhile_append]
  split
  · next hall =>
    rw [if_pos hall, List.length_append] at h
    have hstop := stop_of rest p fun d ds hds hpd => by
      rw [hds, List.takeWhile_cons_of_pos hpd, List.length_cons] at h
      omega
    rw [takeWhile_stop hstop, takeWhile_stop (stop_congr hp hb hstop), List.append_nil,
      (List.takeWhile_prefix p).eq_of_length hall]
    exact ⟨rfl, rfl⟩
  · exact ⟨rfl, rfl⟩

theorem span_congr (cs : List Char) (h : span p (cs ++ rest) ≤ cs.length) :
    span p (cs ++ rest) = span p cs ∧ span p (cs ++ rest') = span p cs := by
  obtain ⟨h₁, h₂⟩ := takeWhile_congr hp hb cs h
  exact ⟨congrArg List.length h₁, congrArg List.length h₂⟩

/-- A sign that is not found behind the token is not found there. -/
theorem sign_congr (cs : List Char)
    (h : (((cs ++ rest).take 1).filter p).length ≤ cs.length) :
    ((cs ++ rest).take 1).filter p = (cs.take 1).filter p ∧
      ((cs ++ rest').take 1).filter p = (cs.take 1).filter p := by
  cases cs with
  | cons c cs => exact ⟨rfl, rfl⟩
  | nil =>
    have hstop := stop_of rest p fun d ds hds hpd => by simp [hds, hpd] at h
    exact ⟨take_one_filter_stop hstop, take_one_filter_stop (stop_congr hp hb hstop)⟩

end

theorem dropWhile_of_takeWhile {p : Char → Bool} {cs rest : List Char}
    (h : (cs ++ rest).takeWhile p = cs.takeWhile p) :
    (cs ++ rest).dropWhile p = cs.dropWhile p ++ rest := by
  have hall := (cs ++ rest).takeWhile_append_dropWhile (p := p)
  have hfront := cs.takeWhile_append_dropWhile (p := p)
  rw [h] at hall
  conv_rhs at hall => rw [← hfront, List.append_assoc]
  exact List.append_cancel_left hall

/-! ## Radixes -/

/-- Characters that are no digit in any radix. -/
theorem radixDigit?_stop {stops : List Char}
    (hstops : (['b', 'o', 'x'].all fun letter =>
      (radixDigit? letter).all fun digit => !stops.any digit) = true)
    {letter : Char} {digit : Char → Bool} (h : radixDigit? letter = some digit) :
    stops.any digit = false := by
  have hletter : letter ∈ ['b', 'o', 'x'] := by
    by_contra hnot
    simp only [List.mem_cons, List.not_mem_nil, or_false, not_or] at hnot
    rw [radixDigit?, if_neg hnot.1, if_neg hnot.2.1, if_neg hnot.2.2] at h
    cases h
  have hdigit := List.all_eq_true.mp hstops letter hletter
  rw [h] at hdigit
  exact Bool.not_eq_eq_eq_not.mp hdigit

/-! ## Scanners -/

section

variable {rest rest' : List Char} (hb : behind rest' = behind rest)
include hb

theorem word_congr {c : Char} {cs : List Char}
    (h : (word c (cs ++ rest)).size ≤ cs.length + 1) :
    word c (cs ++ rest') = word c (cs ++ rest) := by
  have hsize : ((cs ++ rest).takeWhile isNamePart).length +
      ((((cs ++ rest).dropWhile isNamePart).take 1).filter isNameEnd).length ≤ cs.length := by
    simp only [word, List.length_append, List.length_cons] at h
    omega
  obtain ⟨hpart, hpart'⟩ := takeWhile_congr (of_isSpace isNamePart (by decide)) hb cs
    (Nat.le_trans (Nat.le_add_right _ _) hsize)
  have hsplit := congrArg List.length (cs.takeWhile_append_dropWhile (p := isNamePart))
  rw [hpart, dropWhile_of_takeWhile hpart] at hsize
  rw [List.length_append] at hsplit
  obtain ⟨hsign, hsign'⟩ := sign_congr (of_isSpace isNameEnd (by decide)) hb
    (cs.dropWhile isNamePart) (by omega)
  rw [word, word, hpart, hpart', dropWhile_of_takeWhile hpart, dropWhile_of_takeWhile hpart',
    hsign, hsign']

theorem exponent_congr {kind : Kind} {size : Nat} (cs : List Char)
    (h : (exponent kind size (cs ++ rest)).size ≤ size + cs.length) :
    exponent kind size (cs ++ rest') = exponent kind size (cs ++ rest) := by
  cases cs with
  | nil =>
    have hnone : ∀ ds : List Char, (∀ d ∈ ds.head?, (d = 'e' || d = 'E' : Bool) = false) →
        exponent kind size ds = ⟨kind, size, none⟩ := by
      rintro (_ | ⟨d, ds⟩) hds
      · rfl
      · exact if_neg (by simpa using hds d rfl)
    have hstop := stop_of rest (fun d => d = 'e' || d = 'E') fun d ds hds hpd => by
      rw [List.nil_append, hds, exponent] at h
      dsimp only at h
      rw [if_pos (by simpa using hpd)] at h
      dsimp only [List.length_nil] at h
      omega
    rw [List.nil_append, List.nil_append, hnone rest hstop, hnone rest' (stop_congr
      (of_isSpace (fun d => d = 'e' || d = 'E') (by decide)) hb hstop)]
  | cons e cs =>
    rw [List.cons_append, exponent] at h
    rw [List.cons_append, List.cons_append, exponent, exponent]
    dsimp only at h ⊢
    split
    case isFalse => rfl
    next he =>
    rw [if_pos he] at h
    dsimp only [List.length_cons] at h
    obtain ⟨hsign, hsign'⟩ := sign_congr
      (of_isSpace (fun c => c = '+' || c = '-') (by decide)) hb cs (by omega)
    have hle : ((cs.take 1).filter fun c => c = '+' || c = '-').length ≤ cs.length :=
      (List.filter_sublist.trans (List.take_sublist 1 cs)).length_le
    rw [hsign, List.drop_append_of_le_length hle] at h
    rw [hsign, hsign', List.drop_append_of_le_length hle, List.drop_append_of_le_length hle]
    obtain ⟨hdigits, hdigits'⟩ := span_congr
      (of_isSpace isDecimalDigit (by decide)) hb
      (cs.drop ((cs.take 1).filter fun c => c = '+' || c = '-').length)
      (by rw [List.length_drop]; omega)
    rw [hdigits, hdigits']

/-- What may follow the digits of a whole number, whose count is given. -/
def fraction (whole : Nat) (cs : List Char) : Shape :=
  match cs with
  | '.' :: rest =>
    let digits := span isDecimalDigit rest
    if digits = 0 then ⟨.float, whole + 1, some .noFraction⟩
    else exponent .float (whole + 1 + digits) (rest.drop digits)
  | rest => exponent .int whole rest

omit hb in
theorem decimal_eq_fraction (cs : List Char) :
    decimal cs = fraction (span isDecimalDigit cs) (cs.drop (span isDecimalDigit cs)) := rfl

omit hb in
theorem fraction_of_point (whole : Nat) (cs : List Char) :
    fraction whole ('.' :: cs) = if span isDecimalDigit cs = 0
      then ⟨.float, whole + 1, some .noFraction⟩
      else exponent .float (whole + 1 + span isDecimalDigit cs)
        (cs.drop (span isDecimalDigit cs)) := rfl

omit hb in
theorem fraction_of_no_point (whole : Nat) {cs : List Char} (h : cs.head? ≠ some '.') :
    fraction whole cs = exponent .int whole cs := by
  unfold fraction
  split
  · exact absurd rfl h
  · rfl

omit hb in
/-- The point and the digits behind it belong to the number. -/
theorem point_le_fraction_size (whole : Nat) (cs : List Char) :
    whole + 1 + span isDecimalDigit cs ≤ (fraction whole ('.' :: cs)).size := by
  rw [fraction_of_point]
  split
  · next h => rw [h]
  · exact exponent_size_le _ _ _

omit hb in
theorem le_fraction_size (whole : Nat) (cs : List Char) : whole ≤ (fraction whole cs).size := by
  by_cases h : cs.head? = some '.'
  · obtain ⟨ds, rfl⟩ := List.head?_eq_some_iff.mp h
    exact Nat.le_trans (by omega) (point_le_fraction_size whole ds)
  · rw [fraction_of_no_point whole h]
    exact exponent_size_le _ _ _

theorem fraction_congr {whole : Nat} (cs : List Char)
    (h : (fraction whole (cs ++ rest)).size ≤ whole + cs.length) :
    fraction whole (cs ++ rest') = fraction whole (cs ++ rest) := by
  cases cs with
  | nil =>
    rw [List.nil_append] at h
    -- the number would take a point behind it, and that is one character more than it takes
    have hstop := stop_of rest (fun d => d = '.') fun d ds hds hpoint => by
      obtain rfl : d = '.' := by simpa using hpoint
      rw [hds, List.length_nil] at h
      have hmore := Nat.le_trans (point_le_fraction_size whole ds) h
      omega
    have hstop' := stop_congr (of_isSpace (fun d => d = '.') (by decide)) hb hstop
    have hpoint : ∀ ds : List Char, (∀ d ∈ ds.head?, (d = '.' : Bool) = false) →
        ds.head? ≠ some '.' := fun ds hds hd => by simpa using hds '.' hd
    rw [fraction_of_no_point whole (hpoint rest hstop)] at h
    rw [List.nil_append, List.nil_append, fraction_of_no_point whole (hpoint rest hstop),
      fraction_of_no_point whole (hpoint rest' hstop')]
    exact exponent_congr hb [] h
  | cons c cs =>
    rw [List.cons_append] at h
    rw [List.cons_append, List.cons_append]
    by_cases hc : c = '.'
    · subst hc
      have hmore := Nat.le_trans (point_le_fraction_size whole _) h
      rw [List.length_cons] at h hmore
      obtain ⟨hdigits, hdigits'⟩ := span_congr (of_isSpace isDecimalDigit (by decide)) hb
        cs (by omega)
      have hfront := span_le isDecimalDigit cs
      rw [fraction_of_point, hdigits, List.drop_append_of_le_length hfront] at h
      rw [fraction_of_point, fraction_of_point, hdigits, hdigits',
        List.drop_append_of_le_length hfront, List.drop_append_of_le_length hfront]
      split
      · rfl
      · next hsome =>
        rw [if_neg hsome] at h
        refine exponent_congr hb _ (Nat.le_trans h ?_)
        rw [List.length_drop]
        omega
    · have hpoint : ∀ ds : List Char, (c :: ds).head? ≠ some '.' := by simpa using hc
      rw [fraction_of_no_point whole (hpoint _)] at h
      rw [fraction_of_no_point whole (hpoint _), fraction_of_no_point whole (hpoint _)]
      exact exponent_congr hb (c :: cs) h

theorem decimal_congr (cs : List Char) (h : (decimal (cs ++ rest)).size ≤ cs.length) :
    decimal (cs ++ rest') = decimal (cs ++ rest) := by
  have hfront := span_le isDecimalDigit cs
  have hle : span isDecimalDigit (cs ++ rest) ≤ (decimal (cs ++ rest)).size := by
    rw [decimal_eq_fraction]
    exact le_fraction_size _ _
  obtain ⟨hwhole, hwhole'⟩ := span_congr (of_isSpace isDecimalDigit (by decide)) hb cs
    (Nat.le_trans hle h)
  rw [decimal_eq_fraction, hwhole, List.drop_append_of_le_length hfront] at h
  rw [decimal_eq_fraction, decimal_eq_fraction, hwhole, hwhole',
    List.drop_append_of_le_length hfront, List.drop_append_of_le_length hfront]
  refine fraction_congr hb _ (Nat.le_trans h ?_)
  rw [List.length_drop]
  omega

omit hb in
theorem number_of_radix? (c : Char) (cs : List Char) : number c cs =
    match if c = '0' then cs.head?.bind radixDigit? else none with
    | some digit => ⟨.int, 2 + span digit (cs.drop 1),
        if span digit (cs.drop 1) = 0 then some .noRadixDigits else none⟩
    | none => decimal (c :: cs) := rfl

theorem number_congr {c : Char} {cs : List Char}
    (h : (number c (cs ++ rest)).size ≤ cs.length + 1) :
    number c (cs ++ rest') = number c (cs ++ rest) := by
  cases cs with
  | nil =>
    rw [List.nil_append] at h
    by_cases hc : c = '0'
    · -- the letter of a radix would be taken too
      have hstop := stop_of rest (fun d => (radixDigit? d).isSome) fun d ds hds hradix => by
        obtain ⟨digit, hdigit⟩ := Option.isSome_iff_exists.mp hradix
        rw [number_of_radix?, if_pos hc, hds, List.head?_cons, Option.bind_some, hdigit] at h
        dsimp only [List.length_nil] at h
        omega
      have hspace := of_isSpace (fun d => (radixDigit? d).isSome) (by decide)
      rw [number_of_radix?, if_pos hc, head?_bind_stop hstop] at h
      rw [List.nil_append, List.nil_append, number_of_radix?, number_of_radix?, if_pos hc,
        if_pos hc, head?_bind_stop hstop, head?_bind_stop (stop_congr hspace hb hstop)]
      exact decimal_congr hb [c] h
    · rw [number_of_radix?, if_neg hc] at h
      rw [List.nil_append, List.nil_append, number_of_radix?, number_of_radix?, if_neg hc,
        if_neg hc]
      exact decimal_congr hb [c] h
  | cons letter cs =>
    have hdrop : ∀ ds : List Char, (letter :: cs ++ ds).drop 1 = cs ++ ds := fun _ => rfl
    have hhead : ∀ ds : List Char, (letter :: cs ++ ds).head? = some letter := fun _ => rfl
    rw [number_of_radix?, hhead, hdrop] at h
    rw [number_of_radix?, number_of_radix?, hhead, hhead, hdrop, hdrop]
    cases hradix : if c = '0' then (some letter).bind radixDigit? else none with
    | none =>
      rw [hradix] at h
      exact decimal_congr hb (c :: letter :: cs) h
    | some digit =>
      rw [hradix] at h
      dsimp only [List.length_cons] at h ⊢
      have hr : radixDigit? letter = some digit := by
        split at hradix
        · exact hradix
        · cases hradix
      obtain ⟨hspan, hspan'⟩ := span_congr (of_isSpace digit (radixDigit?_stop (by decide) hr)) hb
        cs (by omega)
      rw [hspan, hspan']

theorem operator_congr {c : Char} {cs : List Char}
    (h : (operator c (cs ++ rest)).size ≤ cs.length + 1) :
    operator c (cs ++ rest') = operator c (cs ++ rest) := by
  cases cs with
  | cons d cs => rfl
  | nil =>
    rw [List.nil_append] at h
    have hstop := stop_of rest (fun d => (pairKind? c d).isSome) fun d ds hds hpair => by
      obtain ⟨kind, hkind⟩ := Option.isSome_iff_exists.mp hpair
      rw [hds, operator, List.head?_cons, Option.bind_some, hkind] at h
      exact absurd h (by simp)
    have hspace : ∀ d, isSpace d = true → (pairKind? c d).isSome = false := by
      refine of_isSpace (fun d => (pairKind? c d).isSome) ?_
      simp [pairKind?]
    rw [List.nil_append, List.nil_append, operator, operator, head?_bind_stop hstop,
      head?_bind_stop (stop_congr hspace hb hstop)]

end

end Shape

open Lexicon

/-- Nothing is wrong with a token that the scanner takes from a text whose kind is known. -/
theorem spelling_of_shapeAt {kind : Kind} {c : Char} {cs rest : List Char}
    (h : shapeAt c (cs ++ rest) = ⟨kind, cs.length + 1, none⟩) (hk : kind ≠ .invalid) :
    Spelling kind (c :: cs) := by
  have hexact := (shapeAt_exact c (cs ++ rest)).mp (by rw [h]; exact ⟨hk, rfl⟩)
  rw [h] at hexact
  simpa using hexact

/-- **One character of lookahead.** A token that is no comment is taken again before all that looks
the same from behind it. -/
theorem shapeAt_congr {kind : Kind} {c : Char} {cs rest rest' : List Char}
    (h : shapeAt c (cs ++ rest) = ⟨kind, cs.length + 1, none⟩) (hcomment : kind ≠ .comment)
    (hb : behind rest' = behind rest) :
    shapeAt c (cs ++ rest') = ⟨kind, cs.length + 1, none⟩ := by
  have hsize : (shapeAt c (cs ++ rest)).size ≤ cs.length + 1 := by rw [h]
  have hs := spelling_of_shapeAt h
  rw [shapeAt] at h hsize
  rw [shapeAt]
  split
  · next hc =>
    rw [if_pos hc] at h hsize
    rw [Shape.word_congr hb hsize, h]
  next hname =>
  rw [if_neg hname] at h hsize
  split
  · next hc =>
    rw [if_pos hc] at h hsize
    rw [Shape.number_congr hb hsize, h]
  next hdigit =>
  rw [if_neg hdigit] at h hsize
  split
  · next hc =>
    -- a closed literal does not look behind itself at all
    rw [if_pos hc] at h
    obtain rfl : .string = kind := (Shape.stringLiteral_kind _).symm.trans (congrArg Shape.kind h)
    obtain ⟨inner, hinner, heq⟩ := mem_string_iff.mp (spelling_string_iff.mp (hs (by decide)))
    obtain ⟨rfl, rfl⟩ := List.cons.inj heq
    rw [List.append_assoc, List.length_append]
    exact Shape.stringLiteral_closed hinner rest'
  next hquote =>
  rw [if_neg hquote] at h hsize
  split
  · next hc =>
    rw [if_pos hc] at h
    obtain rfl : .char = kind := (Shape.charLiteral_kind _).symm.trans (congrArg Shape.kind h)
    obtain ⟨d, hd, hd', heq⟩ := mem_char_iff.mp (spelling_char_iff.mp (hs (by decide)))
    obtain ⟨rfl, rfl⟩ := List.cons.inj heq
    exact Shape.charLiteral_closed hd hd' rest'
  next hchar =>
  rw [if_neg hchar] at h hsize
  split
  · next hc =>
    rw [if_pos hc] at h
    exact absurd (congrArg Shape.kind h).symm hcomment
  next hsign =>
  rw [if_neg hsign] at h hsize
  rw [Shape.operator_congr hb hsize, h]

/-- A comment goes on to the end of its line. So nothing else stands behind it on its line. -/
theorem newline_behind_comment {c : Char} {cs rest : List Char}
    (h : shapeAt c (cs ++ rest) = ⟨.comment, cs.length + 1, none⟩) :
    ∀ d ∈ rest.head?, d = '\n' := by
  intro d hd
  obtain ⟨ds, rfl⟩ := List.head?_eq_some_iff.mp hd
  obtain ⟨inner, hinner, heq⟩ := mem_comment_iff.mp (spelling_comment_iff.mp
    (spelling_of_shapeAt h (by decide)))
  obtain ⟨rfl, rfl⟩ := List.cons.inj heq
  by_contra hne
  have hspan : cs.length + 1 ≤ Shape.span (fun c => c ≠ '\n') (cs ++ d :: ds) := by
    rw [Shape.span, List.takeWhile_append_of_pos fun c hc => by simpa using hinner c hc,
      List.takeWhile_cons_of_pos (by simpa using hne), List.length_append, List.length_cons]
    omega
  have hsize : 1 + Shape.span (fun c => c ≠ '\n') (cs ++ d :: ds) = cs.length + 1 :=
    congrArg Shape.size h
  omega

end Treewalk
