import Treewalk.Proofs.Scan.Faults
import Treewalk.Proofs.Scan.Recognition

/-!
# From texts to tokens and back

A text of the lexicon is scanned as one token of its kind. The scan does not look across a line
feed, so texts that stand on lines of their own are scanned one by one, and each is found at the
start of its line.

## Main results

* `words_of_spelling`: a text of the lexicon is one word
* `Source.scan_spelling`: alone, it is one token at the start, and nothing is noted
* `Source.scan_spellings`: so are texts on lines of their own

## Implementation notes

Texts are put on lines of their own because a line feed separates any two tokens. A single space
would do for most of them and not for a comment, which would take what follows.

The result is an equation for the whole scan, with kinds, texts, places and the end, and with no
diagnostics. So it also says that there are no tokens but these.
-/

namespace Treewalk

open Lexicon

/-- A text of the lexicon is one word. It is taken whole, so nothing is left for another. -/
theorem words_of_spelling {kind : Kind} {cs : List Char} (h : Spelling kind cs) :
    words cs = [⟨kind, cs, none⟩] := by
  obtain ⟨c, cs, rfl⟩ := List.exists_cons_of_ne_nil h.ne_nil
  have hshape : shapeAt c (cs ++ []) = ⟨kind, cs.length + 1, none⟩ := by
    rw [List.append_nil, shapeAt_of_spelling h]
  have hwords := words_cons h.isSpace_eq_false hshape
  rwa [List.append_nil] at hwords

/-- The first glyph of a source stands at its start. -/
theorem pos_of_mem_head? {source : List UInt8} {g : Glyph} (h : g ∈ (glyphs source).head?) :
    g.pos = .start := by
  have hplace : ∀ {steps : List Utf8.Step} {g : Glyph}, g ∈ (place .start steps).head? →
      g.pos = .start := by
    intro steps g h
    cases steps with
    | nil => cases h
    | cons step rest =>
      obtain rfl := Option.some.inj h
      rfl
  by_cases hm : markBytes <+: source
  · obtain ⟨bytes, rfl⟩ := hm
    rw [glyphs_of_mark, List.head?_modifyHead, Option.mem_map] at h
    obtain ⟨g, hg, rfl⟩ := h
    rw [Glyph.noteAt_pos, hplace hg]
  · rw [glyphs_of_unmarked hm] at h
    exact hplace h

namespace Source

/-- If a source does not start with a space, its first token starts where the source does. -/
theorem pos_of_mem_head?_tokens {source : List UInt8}
    (hspace : ∀ c ∈ ((glyphs source).map Glyph.char).head?, isSpace c = false) {t : Token}
    (h : t ∈ (scan source).tokens.head?) : t.pos = .start := by
  rw [scan_tokens] at h
  cases hgs : glyphs source with
  | nil =>
    rw [hgs] at h
    cases h
  | cons g rest =>
    have hg : isSpace g.char = false := hspace g.char (by rw [hgs]; rfl)
    have hnone : ∀ g ∈ ([] : List Glyph), isSpace g.char = true := by simp
    have hlexemes := lexemes_token hnone hg rest
    rw [List.nil_append] at hlexemes
    rw [hgs, tokensOf, hlexemes] at h
    obtain rfl := Option.some.inj h
    obtain ⟨more, hrun⟩ := exists_run_lexemeAt [] g rest
    rw [Lexeme.token, Lexeme.pos, hrun]
    exact pos_of_mem_head? (by rw [hgs]; rfl)

/-- A text of the lexicon alone is one token at the start. -/
theorem scan_spelling {kind : Kind} {text : String} (hs : Spelling kind text.toList)
    (hplain : Plain text.toList) :
    (scan (Utf8.encode text)).tokens = [⟨kind, text, .start⟩] ∧
      (scan (Utf8.encode text)).diagnostics = [] := by
  rw [Utf8.encode_eq]
  have hwords := words_of_spelling hs
  constructor
  · have hmap := tokens_encode hplain
    rw [hwords, List.map_singleton, String.ofList_toList, List.map_eq_singleton_iff] at hmap
    obtain ⟨t, htokens, ht⟩ := hmap
    have hpos : t.pos = .start := by
      refine pos_of_mem_head?_tokens (fun c hc => ?_) (by rw [htokens]; rfl)
      rw [map_char_of_body (body_encode hplain)] at hc
      obtain ⟨cs, hcs⟩ := List.head?_eq_some_iff.mp hc
      exact Spelling.isSpace_eq_false (hcs ▸ hs)
    obtain ⟨kind', text', pos⟩ := t
    obtain ⟨rfl, rfl⟩ := Prod.mk.inj ht
    rw [htokens, ← hpos]
  · refine diagnostics_encode hplain ?_
    rw [hwords, List.forall_mem_singleton]
    refine ⟨?_, rfl⟩
    rintro rfl
    exact not_spelling_invalid hs

/-! ## Line by line -/

/-- The source that has some texts on its lines. -/
def ofLines (texts : List String) : List UInt8 :=
  Utf8.encode ("\n".intercalate texts)

theorem ofLines_cons (text : String) {texts : List String} (h : texts ≠ []) :
    ofLines (text :: texts) = Utf8.encode text ++ 0x0A :: ofLines texts := by
  have hnewline : "\n".toList.flatMap String.utf8EncodeChar = [0x0A] := rfl
  rw [ofLines, String.intercalate_cons_of_ne_nil h, ofLines, Utf8.encode_eq, Utf8.encode_eq,
    Utf8.encode_eq, String.toList_append, String.toList_append, List.flatMap_append,
    List.flatMap_append, hnewline, List.append_assoc]
  rfl

/-- A text without a line feed has no byte of one. -/
theorem count_newline_encode {text : String} (h : '\n' ∉ text.toList) :
    (Utf8.encode text).count 0x0A = 0 := by
  rw [Utf8.encode_eq, List.count_eq_zero]
  intro hmem
  obtain ⟨c, hc, hmem⟩ := List.mem_flatMap.mp hmem
  have hnewline : c = '\n' :=
    Char.toNat_inj.mp (Utf8.encode_eq_of_mem hmem (by decide)).2.symm
  exact h (hnewline ▸ hc)

theorem unmarked_ofLines {texts : List String} (h : ∀ text ∈ texts, Plain text.toList) :
    ¬ markBytes <+: ofLines texts := by
  have hfirst : ∀ {text : String}, Plain text.toList → ¬ markBytes <+: Utf8.encode text := by
    intro text hplain
    rw [Utf8.encode_eq]
    exact unmarked_of_plain hplain
  cases texts with
  | nil => exact hfirst (by simp [Plain])
  | cons text texts =>
    have htext := hfirst (h text List.mem_cons_self)
    by_cases hne : texts = []
    · subst hne
      rwa [ofLines, String.intercalate_singleton]
    · rw [ofLines_cons text hne]
      exact fun hmark => htext (markBytes_prefix_of_append hmark)

/-- **Round trip.** Texts of the lexicon on lines of their own are scanned as tokens of their kinds,
each at the start of its line, with the end behind them and nothing to note. -/
theorem scan_spellings (items : List (Kind × String))
    (h : ∀ item ∈ items, Spelling item.1 item.2.toList ∧
      '\x00' ∉ item.2.toList ∧ '\n' ∉ item.2.toList ∧ byteOrderMark ∉ item.2.toList) :
    (∃ p, (scan (ofLines (items.map Prod.snd))).tokens ++
        [(scan (ofLines (items.map Prod.snd))).endToken] =
      (items.mapIdx fun i item => ⟨item.1, item.2, ⟨i + 1, 1⟩⟩) ++ [Token.endOfSource p]) ∧
    (scan (ofLines (items.map Prod.snd))).diagnostics = [] := by
  suffices hscan : (scan (ofLines (items.map Prod.snd))).tokens =
      (items.mapIdx fun i item => ⟨item.1, item.2, ⟨i + 1, 1⟩⟩) ∧
      (scan (ofLines (items.map Prod.snd))).diagnostics = [] from
    ⟨⟨_, congrArg (· ++ _) hscan.1⟩, hscan.2⟩
  induction items with
  | nil =>
    rw [List.map_nil, ofLines, String.intercalate_nil, Utf8.encode_eq]
    exact ⟨rfl, rfl⟩
  | cons item items ih =>
    obtain ⟨⟨hspelling, hnul, hnewline, hmark⟩, hitems⟩ := List.forall_mem_cons.mp h
    obtain ⟨htokens, hdiagnostics⟩ := ih hitems
    obtain ⟨htoken, hquiet⟩ := scan_spelling hspelling (plain_iff.mpr ⟨hnul, hmark⟩)
    by_cases hne : items = []
    · subst hne
      rw [List.map_singleton, ofLines, String.intercalate_singleton]
      exact ⟨htoken, hquiet⟩
    · have hunmarked : ¬ markBytes <+: ofLines (items.map Prod.snd) := by
        refine unmarked_ofLines (List.forall_mem_map.mpr fun item hitem => ?_)
        obtain ⟨-, hnul, -, hmark⟩ := hitems item hitem
        exact plain_iff.mpr ⟨hnul, hmark⟩
      rw [List.map_cons, ofLines_cons _ (by simpa using hne), tokens_append _ hunmarked,
        diagnostics_append _ hunmarked, count_newline_encode hnewline, htoken, hquiet, htokens,
        hdiagnostics]
      -- The other texts are scanned as if alone, one line further down.
      refine ⟨?_, rfl⟩
      rw [List.mapIdx_cons]
      simp only [List.mapIdx_eq_zipIdx_map, List.map_map]
      rfl

theorem scan_spellings_four :
    (∃ p, (scan (ofLines ["größe!", "1.5e-3", "# \"λ", "=>"])).tokens ++
        [(scan (ofLines ["größe!", "1.5e-3", "# \"λ", "=>"])).endToken] =
      [⟨.ident, "größe!", ⟨1, 1⟩⟩, ⟨.float, "1.5e-3", ⟨2, 1⟩⟩, ⟨.comment, "# \"λ", ⟨3, 1⟩⟩,
        ⟨.arrow, "=>", ⟨4, 1⟩⟩] ++ [Token.endOfSource p]) ∧
    (scan (ofLines ["größe!", "1.5e-3", "# \"λ", "=>"])).diagnostics = [] :=
  scan_spellings [(.ident, "größe!"), (.float, "1.5e-3"), (.comment, "# \"λ"), (.arrow, "=>")]
    (by decide)

end Source

end Treewalk
