import Mathlib.Data.List.Chain
import Treewalk.Prompt.Line
import Treewalk.Proofs.Layout.Accepted
import Treewalk.Proofs.Scan.Lookahead
import Treewalk.Proofs.Scan.WellFormed

/-!
# Text without invisible characters

The prompt drops invisible characters before it reads a text. Of these only a carriage return is a
space, and only literals in quotes and comments can have one inside. So a token is taken as before
if it is no literal that loses a character, and if there is still a space behind it or it needs none
to end where it does. The scan is followed lexeme by lexeme, as it goes, and each lexeme is found
again without its invisible characters.

## Why lexemes and not characters

Dropping characters commutes with nothing that scanning does. A token may be cut at another place,
because the character behind it has changed, and then all the rest would be cut differently. What is
used is that every token is followed by something that the scanner reacts to in the same way: by the
same character, or by a space instead of another space. `behind` makes this precise, and the one
case that it does not cover is that of two tokens with nothing but carriage returns between them,
for which `Apart` is asked.

## Main definitions

* `Prompt.visible`, the characters that are left
* `Prompt.Legible`, nothing in a literal is dropped
* `Prompt.Apart`, two lexemes that dropping carriage returns between them does not join

## Main results

* `Prompt.words_visible`: the words that are left of legible lexemes that are apart
* `Prompt.diagnostics_normalize`: nothing is wrong with what is left
* `Prompt.akin_normalize`: it has the same tokens, except for the texts of comments

## Implementation notes

`Legible` and `Apart` are hypotheses that a program may violate, and then what runs differs from
what was typed; `submit_program_differs` has an example for each. Both are decidable, so whether a
given text is affected can be computed.

`Apart` is stated by scanning the two words without a space between them. A description by cases,
which kinds may stand next to which, would repeat the scanner in other words, and would have to be
changed with it.

Comments need no condition. Their texts may lose characters, and no rule of the grammar looks at
them.
-/

namespace Treewalk.Prompt

open Lexicon

/-! ## Characters -/

/-- The characters that can be seen. -/
def visible (cs : List Char) : List Char :=
  cs.filter fun c => !isInvisible c

theorem toList_normalize (text : String) : (normalize text).toList = visible text.toList :=
  String.toList_ofList

theorem visible_append (cs ds : List Char) : visible (cs ++ ds) = visible cs ++ visible ds :=
  List.filter_append ..

theorem visible_eq_self {cs : List Char} (h : ∀ c ∈ cs, isInvisible c = false) : visible cs = cs :=
  List.filter_eq_self.mpr fun c hc => by simp [h c hc]

theorem visible_cons {c : Char} (h : isInvisible c = false) (cs : List Char) :
    visible (c :: cs) = c :: visible cs :=
  List.filter_cons_of_pos (by simp [h])

theorem mem_visible {c : Char} {cs : List Char} (h : c ∈ visible cs) :
    c ∈ cs ∧ isInvisible c = false := by
  simpa [visible] using h

/-- The invisible characters. -/
def invisibles : List Char :=
  ['\u200B', '\u200C', '\u200D', '\uFEFF', '\u00A0', '\r']

/-- A test that no invisible character passes. -/
theorem isInvisible_eq_false {p : Char → Bool} (h : invisibles.any p = false) {c : Char}
    (hc : p c = true) : isInvisible c = false := by
  refine Bool.eq_false_iff.mpr fun hmem => ?_
  exact List.any_eq_false.mp h c (by simpa [isInvisible, invisibles] using hmem) hc

/-- The only space that cannot be seen is a carriage return. -/
theorem eq_return_of_isSpace {c : Char} (h : isSpace c = true) (hc : isInvisible c = true) :
    c = '\r' := by
  have hall : (invisibles.all fun d => !isSpace d || d = '\r') = true := by decide
  have hc' := List.all_eq_true.mp hall c (by simpa [isInvisible, invisibles] using hc)
  simpa [h] using hc'

/-- The characters of a fixed text. -/
theorem isInvisible_of_mem {texts : List (List Char)}
    (hall : (texts.all fun cs => !cs.any isInvisible) = true) {cs : List Char} (h : cs ∈ texts) :
    ∀ c ∈ cs, isInvisible c = false := by
  intro c hc
  have hcs : cs.any isInvisible = false := by simpa using List.all_eq_true.mp hall cs h
  exact Bool.eq_false_iff.mpr (List.any_eq_false.mp hcs c hc)

theorem isInvisible_of_digit {c : Char} : isDecimalDigit c = true → isInvisible c = false :=
  isInvisible_eq_false (by decide)

theorem isInvisible_of_float {cs : List Char} (h : cs ∈ Lexicon.float) :
    ∀ c ∈ cs, isInvisible c = false := by
  have hdecimals : ∀ {ds : List Char}, ds ∈ decimals → ∀ c ∈ ds, isInvisible c = false :=
    fun hds c hc => isInvisible_of_digit ((mem_decimals_iff.mp hds).2 c hc)
  have hexponent : ∀ {e : List Char}, e ∈ Lexicon.exponent → ∀ c ∈ e, isInvisible c = false := by
    intro e he
    obtain ⟨m, sign, ds, hm, hsign, hds, rfl⟩ := mem_exponent_iff.mp he
    have hmark : isInvisible m = false := by obtain rfl | rfl := hm <;> decide
    exact List.forall_mem_cons.mpr ⟨hmark,
      List.forall_mem_append.mpr ⟨isInvisible_of_mem (by decide) hsign, hdecimals hds⟩⟩
  obtain ⟨whole, ds, e, hwhole, hds, he, rfl⟩ | ⟨whole, e, hwhole, he, rfl⟩ := mem_float_iff.mp h
  · refine List.forall_mem_append.mpr ⟨hdecimals hwhole, List.forall_mem_cons.mpr ⟨by decide, ?_⟩⟩
    refine List.forall_mem_append.mpr ⟨hdecimals hds, ?_⟩
    obtain rfl | he := he
    · exact fun c hc => nomatch hc
    · exact hexponent he
  · exact List.forall_mem_append.mpr ⟨hdecimals hwhole, hexponent he⟩

theorem isInvisible_of_int {cs : List Char} (h : cs ∈ Lexicon.int) :
    ∀ c ∈ cs, isInvisible c = false := by
  obtain h | ⟨letter, digit, ds, hletter, -, hds, rfl⟩ := mem_int_iff.mp h
  · exact fun c hc => isInvisible_of_digit ((mem_decimals_iff.mp h).2 c hc)
  · have hradix : (radixDigit? letter).isSome = true := by rw [hletter]; rfl
    have hstop : invisibles.any digit = false := Shape.radixDigit?_stop (by decide) hletter
    exact List.forall_mem_cons.mpr ⟨by decide, List.forall_mem_cons.mpr
      ⟨isInvisible_eq_false (p := fun d => (radixDigit? d).isSome) (by decide) hradix,
        fun c hc => isInvisible_eq_false hstop (hds c hc)⟩⟩

theorem isInvisible_of_word {cs : List Char} (h : cs ∈ Lexicon.word) :
    ∀ c ∈ cs, isInvisible c = false := by
  obtain ⟨c, part, sign, hstart, hpart, hsign, rfl⟩ := mem_word_iff.mp h
  have hname {d : Char} : isNamePart d = true → isInvisible d = false :=
    isInvisible_eq_false (by decide +kernel)
  refine List.forall_mem_cons.mpr ⟨hname (by rw [isNamePart, hstart, Bool.true_or]), ?_⟩
  exact List.forall_mem_append.mpr ⟨fun d hd => hname (hpart d hd),
    isInvisible_of_mem (by decide) hsign⟩

/-- The characters of a token can be seen, unless it is a literal in quotes or a comment. -/
theorem isInvisible_of_spelling {kind : Kind} {cs : List Char} (h : Spelling kind cs)
    (hk : kind ∉ [Kind.char, .string, .comment]) : ∀ c ∈ cs, isInvisible c = false := by
  cases h with
  | int h => exact isInvisible_of_int h
  | float h => exact isInvisible_of_float h
  | char h | string h | comment h => simp at hk
  | ident h => exact isInvisible_of_word h
  | fixed h =>
    have hmem : cs ∈ table.map Prod.fst := List.mem_map_of_mem h
    exact isInvisible_of_mem (by decide) hmem

/-- The first character of a token can be seen. -/
theorem isInvisible_head_of_spelling {kind : Kind} {c : Char} {cs : List Char}
    (h : Spelling kind (c :: cs)) : isInvisible c = false :=
  isInvisible_eq_false (p := startsToken) (by decide +kernel) h.startsToken

/-! ## Behind a token -/

/-- What a token has behind it when the invisible characters are gone: the same, or only carriage
returns have gone that stood before another one. -/
theorem behind_visible {gap rest : List Char} (hgap : ∀ c ∈ gap, isSpace c = true)
    (hrest : ∀ c ∈ rest.head?, isInvisible c = false) :
    behind (visible (gap ++ rest)) = behind (gap ++ rest) ∨
      gap ≠ [] ∧ (∀ c ∈ gap, c = '\r') ∧ visible (gap ++ rest) = visible rest := by
  rw [visible_append]
  cases gap with
  | nil =>
    refine .inl ?_
    cases rest with
    | nil => rfl
    | cons c rest => rw [List.nil_append, visible_cons (hrest c rfl)]; rfl
  | cons d gap =>
    by_cases hall : ∀ c ∈ d :: gap, isInvisible c = true
    · have hnone : visible (d :: gap) = [] :=
        List.filter_eq_nil_iff.mpr fun c hc => by simp [hall c hc]
      refine .inr ⟨List.cons_ne_nil d gap, fun c hc => ?_, by rw [hnone, List.nil_append]⟩
      exact eq_return_of_isSpace (hgap c hc) (hall c hc)
    · -- a space stands behind the token before and after
      refine .inl ?_
      obtain ⟨v, vs, hv⟩ : ∃ v vs, visible (d :: gap) = v :: vs := by
        refine List.exists_cons_of_ne_nil fun hnone => hall fun c hc => ?_
        simpa using List.filter_eq_nil_iff.mp hnone c hc
      have hmem : v ∈ visible (d :: gap) := hv ▸ List.mem_cons_self
      have hspace : isSpace v = true := hgap v (mem_visible hmem).1
      rw [hv, List.cons_append, List.cons_append, behind_space hspace,
        behind_space (hgap d List.mem_cons_self)]

/-! ## Words -/

/-- The word that is taken first from a text decides its first token. -/
theorem shapeAt_of_words {kind : Kind} {c : Char} {cs ds : List Char} {ws : List Word}
    {problem : Option Problem} (hs : Spelling kind (c :: cs))
    (h : words (c :: (cs ++ ds)) = ⟨kind, c :: cs, problem⟩ :: ws) :
    shapeAt c (cs ++ ds) = ⟨kind, cs.length + 1, none⟩ := by
  have hnone : ∀ d ∈ ([] : List Char), isSpace d = true := by simp
  have htoken := words_token hnone hs.isSpace_eq_false (cs ++ ds)
  rw [List.nil_append, h] at htoken
  obtain ⟨hkind, hchars, -⟩ := Word.mk.inj (List.cons.inj htoken).1
  have hsize : (shapeAt c (cs ++ ds)).size = cs.length + 1 := by
    have hlength := congrArg List.length hchars
    rw [List.length_take, List.length_cons, List.length_cons,
      Nat.min_eq_left (shapeAt_size_le c (cs ++ ds))] at hlength
    exact hlength.symm
  have hexact := (shapeAt_exact c (cs ++ ds)).mpr
    (by rw [← hkind, ← hchars]; exact hs)
  rcases hshape : shapeAt c (cs ++ ds) with ⟨kind', size, problem'⟩
  rw [hshape] at hkind hsize hexact
  dsimp only at hkind hsize hexact
  rw [← hkind, hsize, hexact.2]

/-- Nothing in a token is invisible if that is said of literals and if it is no comment. -/
theorem isInvisible_of_legible {kind : Kind} {cs : List Char} (h : Spelling kind cs)
    (hlegible : kind = .char ∨ kind = .string → ∀ c ∈ cs, isInvisible c = false)
    (hcomment : kind ≠ .comment) : ∀ c ∈ cs, isInvisible c = false := by
  by_cases hquoted : kind = .char ∨ kind = .string
  · exact hlegible hquoted
  · refine isInvisible_of_spelling h ?_
    simpa [not_or, hcomment] using hquoted

/-- A token is taken without invisible characters as it is taken with them, if none of them stands
in a literal and if it does not need one to be kept apart from what follows. -/
theorem shapeAt_visible {kind : Kind} {c : Char} {cs gap rest : List Char} (hk : kind ≠ .invalid)
    (h : shapeAt c (cs ++ (gap ++ rest)) = ⟨kind, cs.length + 1, none⟩)
    (hlegible : kind = .char ∨ kind = .string → ∀ d ∈ c :: cs, isInvisible d = false)
    (hgap : ∀ d ∈ gap, isSpace d = true) (hrest : ∀ d ∈ rest.head?, isInvisible d = false)
    (hapart : gap ≠ [] → (∀ d ∈ gap, d = '\r') → ∃ ds, behind ds = behind rest ∧
      shapeAt c (cs ++ ds) = ⟨kind, cs.length + 1, none⟩) :
    shapeAt c (visible cs ++ visible (gap ++ rest)) = ⟨kind, (visible cs).length + 1, none⟩ := by
  have hs := spelling_of_shapeAt h hk
  by_cases hcomment : kind = .comment
  · -- it may lose characters itself, and still goes on to the end of its line
    subst hcomment
    obtain ⟨inner, hinner, heq⟩ := mem_comment_iff.mp (spelling_comment_iff.mp hs)
    obtain ⟨rfl, rfl⟩ := List.cons.inj heq
    refine Shape.comment_closed (fun hc => hinner _ (mem_visible hc).1 rfl) fun d hd => ?_
    cases hbehind : gap ++ rest with
    | nil => rw [hbehind] at hd; cases hd
    | cons e ds =>
      obtain rfl := newline_behind_comment h e (by rw [hbehind]; rfl)
      rw [hbehind, visible_cons (by decide)] at hd
      exact (Option.some.inj hd).symm
  · have hall := isInvisible_of_legible hs hlegible hcomment
    rw [visible_eq_self fun d hd => hall d (List.mem_cons_of_mem c hd)]
    obtain hbehind | ⟨hne, hreturns, hbehind⟩ := behind_visible hgap hrest
    · exact shapeAt_congr h hcomment hbehind
    · obtain ⟨ds, hds, hshape⟩ := hapart hne hreturns
      refine shapeAt_congr hshape hcomment ?_
      rw [hbehind, hds]
      cases rest with
      | nil => rfl
      | cons d rest => rw [visible_cons (hrest d rfl)]; rfl

/-! ## Lexemes -/

/-- A lexeme is legible if nothing in a literal is invisible. -/
def Legible (l : Lexeme) : Prop :=
  l.kind = .char ∨ l.kind = .string → ∀ c ∈ l.word.chars, isInvisible c = false

/-- Two lexemes next to each other are apart if they are read as two also without the carriage
returns between them. -/
def Apart (l l' : Lexeme) : Prop :=
  l'.gap ≠ [] → (∀ g ∈ l'.gap, g.char = '\r') →
    words (l.word.chars ++ l'.word.chars) = [l.word, l'.word]

instance (l : Lexeme) : Decidable (Legible l) :=
  haveI : Decidable (∀ c ∈ l.word.chars, isInvisible c = false) := List.decidableBAll _ _
  inferInstanceAs (Decidable (_ → _))

instance : DecidableRel Apart := fun l l' =>
  decidable_of_iff (l'.gap.isEmpty = true ∨ ¬ (∀ g ∈ l'.gap, g.char = '\r') ∨
    words (l.word.chars ++ l'.word.chars) = [l.word, l'.word]) (by
      rw [Apart, List.isEmpty_iff, ← imp_iff_not_or, ← or_iff_not_imp_left])

/-- A list of glyphs is all spaces, or spaces with something else behind them. -/
theorem spaces_or_token (gs : List Glyph) :
    (∀ g ∈ gs, isSpace g.char = true) ∨ ∃ gap g rest, (∀ g ∈ gap, isSpace g.char = true) ∧
      isSpace g.char = false ∧ gs = gap ++ g :: rest := by
  induction gs using cutInduction with
  | spaces gap hgap => exact .inl hgap
  | token gap g rest hgap hg _ => exact .inr ⟨gap, g, rest, hgap, hg, rfl⟩

/-- The characters that a lexeme takes, and those behind them. -/
theorem exists_word_lexemeAt (gap : List Glyph) (g : Glyph) (rest : List Glyph) :
    ∃ cs, (lexemeAt gap g rest).word.chars = g.char :: cs ∧
      (g :: rest).map Glyph.char =
        g.char :: (cs ++ ((g :: rest).drop (shapeOf g rest).size).map Glyph.char) ∧
      shapeAt g.char (cs ++ ((g :: rest).drop (shapeOf g rest).size).map Glyph.char) =
        ⟨(lexemeAt gap g rest).kind, cs.length + 1, (lexemeAt gap g rest).problem⟩ := by
  obtain ⟨k, hk⟩ := Nat.exists_eq_add_one.mpr (shapeOf_size_pos g rest)
  have hle := shapeOf_size_le g rest
  rw [hk, List.length_cons] at hle
  have hsplit : rest.map Glyph.char =
      (rest.take k).map Glyph.char ++ (rest.drop k).map Glyph.char := by
    rw [← List.map_append, List.take_append_drop]
  refine ⟨(rest.take k).map Glyph.char, ?_, ?_, ?_⟩
  · change ((g :: rest).take (shapeOf g rest).size).map Glyph.char = _
    rw [hk, List.take_succ_cons, List.map_cons]
  · rw [hk, List.drop_succ_cons, ← hsplit, List.map_cons]
  · have hsize : (shapeOf g rest).size = ((rest.take k).map Glyph.char).length + 1 := by
      rw [List.length_map, List.length_take, hk, Nat.min_eq_left (by omega)]
    rw [hk, List.drop_succ_cons, ← hsplit, ← hsize]
    rfl

/-- A lexeme is taken as before if it and the next one allow it. -/
theorem shapeAt_visible_of_next {l : Lexeme} {c : Char} {cs : List Char} {tail : List Glyph}
    (hkind : l.kind ≠ .invalid) (hchars : l.word.chars = c :: cs)
    (hshape : shapeAt c (cs ++ tail.map Glyph.char) = ⟨l.kind, cs.length + 1, none⟩)
    (hlegible : Legible l) (hvalid : ∀ l' ∈ lexemes tail, l'.kind ≠ .invalid ∧ l'.problem = none)
    (hnext : ∀ l' ∈ (lexemes tail).head?, Apart l l') :
    shapeAt c (visible cs ++ visible (tail.map Glyph.char)) =
      ⟨l.kind, (visible cs).length + 1, none⟩ := by
  have hs := spelling_of_shapeAt hshape hkind
  have hseen : l.kind = .char ∨ l.kind = .string → ∀ d ∈ c :: cs, isInvisible d = false :=
    hchars ▸ hlegible
  obtain hspaces | ⟨gap, g, rest, hgap, hg, rfl⟩ := spaces_or_token tail
  · rw [← List.append_nil (tail.map Glyph.char)] at hshape ⊢
    exact shapeAt_visible hkind hshape hseen (by simpa using hspaces) (by simp)
      fun _ _ => ⟨[], rfl, by rw [List.append_nil, shapeAt_of_spelling hs]⟩
  · rw [lexemes_token hgap hg] at hvalid hnext
    obtain ⟨⟨hkind', hproblem'⟩, -⟩ := List.forall_mem_cons.mp hvalid
    have hapart := hnext _ rfl
    obtain ⟨cs', hchars', hsplit, hshape'⟩ := exists_word_lexemeAt gap g rest
    rw [hproblem'] at hshape'
    have hs' := spelling_of_shapeAt hshape' hkind'
    rw [List.map_append, hsplit] at hshape ⊢
    refine shapeAt_visible hkind hshape hseen (by simpa using hgap) ?_ fun hne hreturns => ?_
    · rintro d ⟨⟩
      exact isInvisible_head_of_spelling hs'
    · have hgap' : (lexemeAt gap g rest).gap = gap := rfl
      have hword : l.word = ⟨l.kind, c :: cs, l.problem⟩ := hchars ▸ rfl
      have hwords := hapart (by simpa [hgap'] using hne) (by simpa [hgap'] using hreturns)
      rw [hchars, hchars', List.cons_append, hword] at hwords
      refine ⟨g.char :: cs', ?_, shapeAt_of_words hs hwords⟩
      rw [behind_cons hg, behind_cons hg]

/-- **Words without invisible characters.** Where words are apart, taking invisible characters out
between them joins no two of them, and legible words have none inside. -/
theorem words_visible {gs : List Glyph}
    (hvalid : ∀ l ∈ lexemes gs, l.kind ≠ .invalid ∧ l.problem = none)
    (hlegible : ∀ l ∈ lexemes gs, Legible l) (hapart : (lexemes gs).IsChain Apart) :
    words (visible (gs.map Glyph.char)) =
      (lexemes gs).map fun l => ⟨l.kind, visible l.word.chars, none⟩ := by
  have hspaces : ∀ gap : List Glyph, (∀ g ∈ gap, isSpace g.char = true) →
      ∀ c ∈ visible (gap.map Glyph.char), isSpace c = true := by
    intro gap hgap c hc
    obtain ⟨g, hg, rfl⟩ := List.mem_map.mp (mem_visible hc).1
    exact hgap g hg
  induction gs using cutInduction with
  | spaces gap hgap =>
    rw [lexemes_spaces hgap, words_of_spaces (hspaces gap hgap)]
    rfl
  | token gap g rest hgap hg ih =>
    rw [lexemes_token hgap hg] at hvalid hlegible hapart ⊢
    obtain ⟨⟨hkind, hproblem⟩, hvalid⟩ := List.forall_mem_cons.mp hvalid
    obtain ⟨hseen, hlegible⟩ := List.forall_mem_cons.mp hlegible
    obtain ⟨hnext, hapart⟩ := List.isChain_cons.mp hapart
    replace ih := ih hvalid hlegible hapart
    -- the scan of what is left comes to the same place, as this lexeme is found again in it
    obtain ⟨cs, hchars, hsplit, hshape⟩ := exists_word_lexemeAt gap g rest
    rw [hproblem] at hshape
    have hs := spelling_of_shapeAt hshape hkind
    have hvisible := shapeAt_visible_of_next hkind hchars hshape hseen hvalid hnext
    rw [List.map_append, hsplit, visible_append, words_spaces (hspaces gap hgap),
      visible_cons (isInvisible_head_of_spelling hs), visible_append, words_cons hg hvisible, ih,
      List.map_cons, hchars, visible_cons (isInvisible_head_of_spelling hs)]

/-! ## Sources -/

open Source

/-- A byte order mark at the start is invisible, so it does not matter that it is no glyph. -/
theorem visible_glyphs (text : String) :
    visible ((glyphs (Utf8.encode text)).map Glyph.char) = visible text.toList := by
  rw [Utf8.encode_eq]
  by_cases hmark : text.toList.head? = some byteOrderMark
  · obtain ⟨cs, hcs⟩ := List.head?_eq_some_iff.mp hmark
    have hbody : body ((byteOrderMark :: cs).flatMap String.utf8EncodeChar) =
        cs.flatMap String.utf8EncodeChar := body_of_mark _
    rw [hcs, map_char_of_body hbody]
    exact (List.filter_cons_of_neg (by decide)).symm
  · rw [map_char_of_body (body_of_unmarked (unmarked_encode hmark))]

section

variable {text : String} (hd : (scan (Utf8.encode text)).diagnostics = [])
include hd

theorem plain_visible : Plain (visible text.toList) := by
  obtain ⟨hfaultless, -⟩ := (diagnostics_eq_nil_iff _).mp hd
  obtain ⟨cs, hplain, hbody⟩ := (faultless_iff _).mp hfaultless
  rw [← visible_glyphs, map_char_of_body hbody]
  exact fun c hc => hplain c (mem_visible hc).1

variable (hlegible : ∀ l ∈ (scan (Utf8.encode text)).lexemes, Legible l)
  (hapart : (scan (Utf8.encode text)).lexemes.IsChain Apart)
include hlegible hapart

theorem words_normalize :
    words (visible text.toList) =
      (scan (Utf8.encode text)).lexemes.map fun l => ⟨l.kind, visible l.word.chars, none⟩ := by
  obtain ⟨-, hvalid⟩ := (diagnostics_eq_nil_iff _).mp hd
  rw [← visible_glyphs]
  exact words_visible hvalid hlegible hapart

theorem diagnostics_normalize : (scan (Utf8.encode (normalize text))).diagnostics = [] := by
  obtain ⟨-, hvalid⟩ := (diagnostics_eq_nil_iff _).mp hd
  rw [Utf8.encode_eq, toList_normalize]
  refine diagnostics_encode (plain_visible hd) ?_
  rw [words_normalize hd hlegible hapart, List.forall_mem_map]
  exact fun l hl => ⟨(hvalid l hl).1, rfl⟩

/-- **Tokens without invisible characters.** -/
theorem akin_normalize :
    List.Forall₂ Token.Akin (scan (Utf8.encode text)).tokens
      (scan (Utf8.encode (normalize text))).tokens := by
  obtain ⟨hfaultless, hvalid⟩ := (diagnostics_eq_nil_iff _).mp hd
  have htokens := tokens_encode (plain_visible hd)
  rw [words_normalize hd hlegible hapart, List.map_map, ← toList_normalize, ← Utf8.encode_eq,
    ← List.forall₂_eq_eq_eq, List.forall₂_map_left_iff, List.forall₂_map_right_iff] at htokens
  rw [Scan.tokens, List.forall₂_map_left_iff]
  refine ((List.forall₂_and_left _ _).mpr ⟨fun _ hl => hl, htokens.flip⟩).imp ?_
  rintro l t ⟨hl, hface⟩
  obtain ⟨hkind, htext⟩ := Prod.mk.inj hface
  refine ⟨hkind, fun hcomment => ?_⟩
  have hshown : l.text = String.ofList l.word.chars := hfaultless.text hl
  have hs : Spelling l.kind l.word.chars := by
    have hspelling := (spelling_iff hfaultless hl).mpr (hvalid l hl)
    rwa [hshown, String.toList_ofList] at hspelling
  change t.text = l.text
  rw [htext, hshown]
  dsimp only
  rw [visible_eq_self (isInvisible_of_legible hs (hlegible l hl) hcomment)]

end

end Treewalk.Prompt
