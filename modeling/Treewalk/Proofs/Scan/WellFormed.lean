import Treewalk.Proofs.Grammar.Exact
import Treewalk.Proofs.Scan.Faults
import Treewalk.Proofs.Scan.Recognition

/-!
# Sources without a diagnostic

A source has two ways to go wrong, by its bytes and by its tokens, and both leave a diagnostic. The
bytes are beyond reproach if they are those of a text that has no character zero and, behind its
start, no byte order mark. A token is beyond reproach if its text is one of the lexicon. So there is
no diagnostic exactly if no byte and no token is to blame, wherever in the source they stand: in a
comment, in a string or one character ahead of what is being scanned.

## Implementation notes

Whether a token is well formed is asked of its text, and the text is decoded from the bytes of the
token. For a sign, and for a character that starts no token, there is another candidate: the entry
of the lexicon that was recognised, and the character that was looked at. The scan has both at hand,
and `text_of_sign` and `text_of_invalid` say that they are the same. They need no hypothesis about
the source. That a byte was replaced in front of a sign or behind it does not matter, and an invalid
token may even be such a byte.

Where bytes may have been replaced, the text of a longer token is not what its glyphs show, for two
glyphs can stand for one malformed piece. That is why everything else here is about faultless
sources.

## Main definitions

* `Source.Clean`, a source with nothing wrong in its bytes
* `Token.WellFormed`, a token with nothing wrong in its text

## Main results

* `Source.clean_iff_faultless`: the clean sources are those whose glyphs have no fault
* `Source.text_of_sign`, `Source.text_of_invalid`: the texts that need no decoding
* `Source.wellFormed_iff`: a token is well formed exactly if its shape has no problem
* `Source.diagnostics_exact`: there is nothing to note exactly about clean sources of well-formed
  tokens, and a program is one of these
-/

namespace Treewalk

/-- Not cut off for want of something better: the token is valid, and if it is a literal its text is
one of the grammar. -/
structure Token.WellFormed (t : Token) : Prop where
  valid : t.kind ≠ .invalid
  int : t.kind = .int → t.text.toList ∈ Lexicon.int
  float : t.kind = .float → t.text.toList ∈ Lexicon.float
  char : t.kind = .char → t.text.toList ∈ Lexicon.char
  string : t.kind = .string → t.text.toList ∈ Lexicon.string

namespace Source

/-- The source is a text in UTF-8 without the character zero, and without the byte order mark except
at its start. -/
def Clean (source : List UInt8) : Prop :=
  ∃ text : String, source = Utf8.encode text ∧ '\x00' ∉ text.toList ∧
    byteOrderMark ∉ text.toList.tail

theorem clean_iff_faultless (source : List UInt8) : Clean source ↔ Faultless source := by
  rw [faultless_iff]
  constructor
  · rintro ⟨text, rfl, hnul, hmark⟩
    rw [Utf8.encode_eq]
    rcases hcs : text.toList with _ | ⟨c, cs⟩
    · exact ⟨[], by simp [Plain], body_of_unmarked (unmarked_encode (by simp))⟩
    rw [hcs, List.mem_cons, not_or] at hnul
    rw [hcs, List.tail_cons] at hmark
    have htail : Plain cs := plain_iff.mpr ⟨hnul.2, hmark⟩
    by_cases hc : c = byteOrderMark
    · subst hc
      exact ⟨cs, htail, body_of_mark _⟩
    · refine ⟨c :: cs, List.forall_mem_cons.mpr ⟨⟨Ne.symm hnul.1, hc⟩, htail⟩, ?_⟩
      exact body_of_unmarked (unmarked_encode (by simpa using hc))
  · rintro ⟨cs, hplain, hbody⟩
    obtain ⟨hnul, hmark⟩ := plain_iff.mp hplain
    by_cases hm : markBytes <+: source
    · obtain ⟨bytes, rfl⟩ := hm
      rw [body_of_mark] at hbody
      refine ⟨String.ofList (byteOrderMark :: cs), ?_, ?_, ?_⟩
      · rw [Utf8.encode_eq, String.toList_ofList, hbody]
        rfl
      · rw [String.toList_ofList, List.mem_cons, not_or]
        exact ⟨by decide, hnul⟩
      · rwa [String.toList_ofList]
    · rw [body_of_unmarked hm] at hbody
      refine ⟨String.ofList cs, ?_, ?_, ?_⟩
      · rw [Utf8.encode_eq, String.toList_ofList, hbody]
      · rwa [String.toList_ofList]
      · rw [String.toList_ofList]
        exact fun h => hmark (List.mem_of_mem_tail h)

section

variable {source : List UInt8} (h : Faultless source) {l : Lexeme}
  (hl : l ∈ lexemes (glyphs source))
include h hl

/-- Where no glyph is at fault, the text of a token decides whether something is wrong with it. -/
theorem spelling_iff :
    Lexicon.Spelling l.kind l.text.toList ↔ l.kind ≠ .invalid ∧ l.problem = none := by
  rw [h.text hl, String.toList_ofList]
  obtain ⟨gap, g, rest, -, rfl⟩ := exists_lexemeAt hl
  have hrun : (lexemeAt gap g rest).run.map Glyph.char =
      (g.char :: rest.map Glyph.char).take (shapeOf g rest).size := List.map_take
  rw [hrun]
  exact (shapeAt_exact g.char (rest.map Glyph.char)).symm

theorem wellFormed_iff : l.token.WellFormed ↔ l.kind ≠ .invalid ∧ l.problem = none := by
  rw [← spelling_iff h hl]
  constructor
  · intro hw
    cases hproblem : l.problem with
    | none => exact (spelling_iff h hl).mpr ⟨hw.valid, hproblem⟩
    | some problem =>
      -- Only a literal can have a problem, and the grammar has the texts of literals.
      have hliteral : problem.literal? = some l.kind := by
        obtain ⟨gap, g, rest, -, rfl⟩ := exists_lexemeAt hl
        exact apt_shapeAt g.char (rest.map Glyph.char) problem hproblem
      obtain hkind | hkind | hkind | hkind := kind_of_literal? hliteral
      · exact hkind ▸ .int (hw.int hkind)
      · exact hkind ▸ .float (hw.float hkind)
      · exact hkind ▸ .char (hw.char hkind)
      · exact hkind ▸ .string (hw.string hkind)
  · intro hs
    refine ⟨((spelling_iff h hl).mp hs).1, fun hkind => ?_, fun hkind => ?_, fun hkind => ?_,
      fun hkind => ?_⟩
    · exact Lexicon.spelling_int_iff.mp (hkind ▸ hs)
    · exact Lexicon.spelling_float_iff.mp (hkind ▸ hs)
    · exact Lexicon.spelling_char_iff.mp (hkind ▸ hs)
    · exact Lexicon.spelling_string_iff.mp (hkind ▸ hs)

end

/-! ## Texts of signs and of single characters -/

section

variable {source : List UInt8} {l : Lexeme} (hl : l ∈ lexemes (glyphs source))
include hl

/-- What a sign shows is its text in the lexicon, whatever else is wrong with the source. -/
theorem map_char_of_sign {sign : List Char} (hsign : (sign, l.kind) ∈ Lexicon.signs) :
    l.run.map Glyph.char = sign := by
  have hkinds : ∀ entry ∈ Lexicon.signs,
      entry.2 ∉ [Kind.invalid, .int, .float, .char, .string] := by decide
  have hkind := hkinds _ hsign
  simp only [List.mem_cons, List.not_mem_nil, or_false, not_or] at hkind
  obtain ⟨hvalid, hint, hfloat, hchar, hstring⟩ := hkind
  obtain ⟨gap, g, rest, -, rfl⟩ := exists_lexemeAt hl
  have hproblem : (lexemeAt gap g rest).problem = none := by
    rw [Option.eq_none_iff_forall_ne_some]
    intro problem h
    have hliteral := apt_shapeAt g.char (rest.map Glyph.char) problem h
    obtain hkind | hkind | hkind | hkind := kind_of_literal? hliteral
    exacts [hint hkind, hfloat hkind, hchar hkind, hstring hkind]
  have hspelling := (shapeAt_exact g.char (rest.map Glyph.char)).mp ⟨hvalid, hproblem⟩
  have hrun : (lexemeAt gap g rest).run.map Glyph.char =
      (g.char :: rest.map Glyph.char).take (shapeOf g rest).size := List.map_take
  rw [hrun]
  exact hspelling.eq_of_sign hsign

/-- So the text of a sign can be read off the lexicon as well as off the source. -/
theorem text_of_sign {sign : List Char} (hsign : (sign, l.kind) ∈ Lexicon.signs) :
    l.text = String.ofList sign := by
  have hchars := map_char_of_sign hl hsign
  have hplain : ∀ entry ∈ Lexicon.signs, Utf8.replacement ∉ entry.1 := by decide
  rw [← hchars]
  refine Lexeme.text_of_bytes fun g hg => ?_
  have hglyph := mem_of_mem_lexemes hl g (List.mem_append_left _ hg)
  refine (bytes_of_mem_glyphs hglyph).resolve_right fun hreplaced => ?_
  exact hplain _ hsign (hreplaced.1 ▸ hchars ▸ List.mem_map_of_mem hg)

/-- An invalid token is one glyph, and its text is the character that the glyph shows. If that
character stands for a byte that starts none, decoding the byte once more shows it again. -/
theorem text_of_invalid (hkind : l.kind = .invalid) :
    ∃ g, l.run = [g] ∧ l.text = String.singleton g.char := by
  obtain ⟨gap, g, rest, -, hlexeme⟩ := exists_lexemeAt hl
  have hrun : l.run = [g] := by
    rw [hlexeme] at hkind ⊢
    change (g :: rest).take (shapeOf g rest).size = [g]
    rw [shapeOf, shapeAt_size_of_invalid hkind]
    rfl
  refine ⟨g, hrun, ?_⟩
  have hglyph : g ∈ glyphs source :=
    mem_of_mem_lexemes hl g (List.mem_append_left _ (hrun ▸ List.mem_singleton_self g))
  obtain henc | ⟨hchar, b, hbytes, hb⟩ := bytes_of_mem_glyphs hglyph
  · have htext := Lexeme.text_of_bytes (l := l) (by simpa [hrun] using henc)
    rw [htext, hrun]
    rfl
  · rw [Lexeme.text, Lexeme.bytes, hrun, List.flatMap_singleton, hbytes, hchar,
      Utf8.decode_single hb]

end

/-- **The sources without a diagnostic.** Nothing is noted about a source exactly if it is clean and
all its tokens are well formed. In particular no token of a program has been cut off. -/
theorem diagnostics_exact (source : List UInt8) :
    ((scan source).diagnostics = [] ↔
      Clean source ∧ ∀ t ∈ (scan source).tokens, t.WellFormed) ∧
    ∀ statements, program source = .ok statements →
      Clean source ∧ ∀ t ∈ (scan source).tokens, t.WellFormed := by
  have hiff : (scan source).diagnostics = [] ↔
      Clean source ∧ ∀ t ∈ (scan source).tokens, t.WellFormed := by
    rw [diagnostics_eq_nil_iff, clean_iff_faultless, Scan.tokens, List.forall_mem_map,
      scan_lexemes]
    refine and_congr_right fun h => forall₂_congr fun l hl => ?_
    exact (wellFormed_iff h hl).symm
  exact ⟨hiff, fun _ h => hiff.mp (diagnostics_of_program h)⟩

end Source

end Treewalk
