import Treewalk.Prompt.Colour
import Treewalk.Proofs.Scan.Positions
import Treewalk.Proofs.Scan.RoundTrip

/-!
# Line by line

A scan splits at line feeds: behind one it goes on as if it had just begun, only further down. So no
token has a line feed among its bytes, and the tokens of a text are those of its lines, each line
scanned by itself. That is why a text can be coloured line by line.

A byte order mark is the one thing that a line may start with and that does depend on what stands
before it. At the start of a source it is passed over, and elsewhere it is an invalid token.

## Main results

* `Source.endToken_append`: the end of two sources in one
* `Source.newline_notMem_lexeme`: no token has a line feed among its bytes, and none in its text
* `Source.tokens_ofLines`: the tokens of lines
* `Source.filter_line_tokens`: the tokens on one line of a text
* `Source.scan_line_by_line`: all of it, and what it means for colours

## Implementation notes

A source is cut at one line feed first, and lines come by induction from that. The two parts are
arbitrary bytes; in particular a character may have been cut in two by the line feed, and then each
half is malformed, in one source as in two.

The condition on the second part is that it does not start with a byte order mark. It cannot be
dropped: alone, the mark is passed over, and behind a line feed it is a token.

What a prompt does with a line is colour it by itself. The last part of the result says that this
gives the fragments that the line has within the text.
-/

namespace Treewalk

theorem Token.below_below (m n : Nat) (t : Token) : (t.below m).below n = t.below (m + n) := by
  rw [below, below, below, Pos.below, Pos.below, Pos.below, Nat.add_assoc]

/-! ## No token goes past a line feed -/

/-- The glyphs up to a line feed, and the others. -/
theorem exists_line_append (gs : List Glyph) :
    ∃ line behind, gs = line ++ behind ∧ (∀ g ∈ line, g.char ≠ '\n') ∧
      ∀ nl ∈ behind.head?, nl.char = '\n' := by
  let inLine : Glyph → Bool := fun g => g.char ≠ '\n'
  refine ⟨gs.takeWhile inLine, gs.dropWhile inLine, List.takeWhile_append_dropWhile.symm, ?_, ?_⟩
  · intro g hg
    simpa [inLine] using List.mem_takeWhile_imp hg
  · intro nl hnl
    have hstop := List.head?_dropWhile_not inLine gs
    rw [Option.mem_def.mp hnl] at hstop
    simpa [inLine] using hstop

/-- The run of a lexeme has no line feed. -/
theorem char_ne_newline_of_mem_run (gap : List Glyph) {g : Glyph} (hg : isSpace g.char = false)
    (rest : List Glyph) : ∀ g' ∈ (lexemeAt gap g rest).run, g'.char ≠ '\n' := by
  obtain ⟨line, behind, rfl, hline, hbehind⟩ := exists_line_append rest
  have hfirst : g.char ≠ '\n' := by
    intro h
    rw [h] at hg
    cases hg
  -- The rest of the line is enough to know the size of the token.
  have hshape : shapeOf g (line ++ behind) = shapeOf g line := by
    cases behind with
    | nil => rw [List.append_nil]
    | cons nl behind => exact shapeOf_newline (hbehind nl rfl) g line behind
  intro g' hmem
  have hmem : g' ∈ (g :: line).take (shapeOf g line).size := by
    rwa [lexemeAt, hshape, ← List.cons_append,
      List.take_append_of_le_length (shapeOf_size_le g line)] at hmem
  obtain rfl | hmem := List.mem_cons.mp (List.mem_of_mem_take hmem)
  · exact hfirst
  · exact hline g' hmem

namespace Source

/-- No token has a line feed among its bytes. A literal that is not closed ends in front of the line
feed, and a comment does as well. -/
theorem newline_notMem_lexeme {source : List UInt8} {l : Lexeme}
    (h : l ∈ (scan source).lexemes) : (0x0A : UInt8) ∉ l.bytes := by
  rw [scan_lexemes] at h
  intro hmem
  obtain ⟨g, hg, hmem⟩ := List.mem_flatMap.mp hmem
  have hchar : g.char ≠ '\n' := by
    obtain ⟨gap, g₀, rest, hg₀, rfl⟩ := exists_lexemeAt h
    exact char_ne_newline_of_mem_run gap hg₀ rest g hg
  obtain hbytes | ⟨-, b, hbytes, hb⟩ :=
    bytes_of_mem_glyphs (mem_of_mem_lexemes h g (List.mem_append_left _ hg))
  · rw [hbytes] at hmem
    exact hchar (Char.toNat_inj.mp (Utf8.encode_eq_of_mem hmem (by decide)).2.symm)
  · rw [hbytes, List.mem_singleton] at hmem
    exact hb (hmem ▸ by decide)

/-- The text of a token has no line feed, if nothing is wrong with the source. -/
theorem Faultless.newline_notMem_text {source : List UInt8} (h : Faultless source) {t : Token}
    (ht : t ∈ (scan source).tokens) : '\n' ∉ t.text.toList := by
  obtain ⟨l, hl, rfl⟩ := List.mem_map.mp ht
  intro hmem
  have htext : l.token.text = String.ofList (l.run.map Glyph.char) := h.text hl
  rw [htext, String.toList_ofList] at hmem
  obtain ⟨g, hg, hchar⟩ := List.mem_map.mp hmem
  obtain ⟨gap, g₀, rest, hg₀, rfl⟩ := exists_lexemeAt hl
  exact char_ne_newline_of_mem_run gap hg₀ rest g hg hchar

/-- What the cursor passes with a token has no line feed. -/
theorem newline_notMem_token (source : List UInt8) (n : Nat) :
    (0x0A : UInt8) ∉
      (source.drop (start source n)).take (offset source (n + 1) - start source n) := by
  cases hl : (scan source).lexemes[n]? with
  | none =>
    rw [start_of_le source n (List.getElem?_eq_none_iff.mp hl), List.drop_length, List.take_nil]
    exact List.not_mem_nil
  | some l =>
    rw [(bytes_of_token source n hl).2]
    exact newline_notMem_lexeme (List.mem_of_getElem? hl)

/-! ## Two sources in one -/

theorem glyphs_eq_nil {source : List UInt8} (hm : ¬ markBytes <+: source)
    (h : glyphs source = []) : source = [] := by
  have hbytes := flatMap_bytes_glyphs source
  rw [h, if_neg hm] at hbytes
  exact hbytes.symm

/-- The end of two sources in one is the end of the second, further down by the lines of the
first. -/
theorem endToken_append (a : List UInt8) {b : List UInt8} (hb : ¬ markBytes <+: b) :
    (scan (a ++ 0x0A :: b)).endToken = (scan b).endToken.below (a.count 0x0A + 1) := by
  obtain ⟨p, hglyphs⟩ := glyphs_append_newline a hb
  have hfinish : finish (glyphs (a ++ 0x0A :: b)) =
      (finish (glyphs b)).below (a.count 0x0A + 1) := by
    by_cases hempty : glyphs b = []
    · -- Nothing stands behind the line feed, so its own line is the one to know.
      obtain rfl := glyphs_eq_nil hb hempty
      have hend : finish (glyphs (a ++ [0x0A])) = ⟨p.line + 1, 1⟩ := by
        rw [hglyphs, hempty, finish, List.map_nil, List.getLast?_concat]
        rfl
      have hline := congrArg Pos.line (finish_glyphs (a ++ [0x0A]))
      rw [posAt, List.take_length, List.count_append, hend] at hline
      rw [hend, hempty]
      exact congrArg (Pos.mk · 1) hline
    · have hne : (glyphs b).map (Glyph.below (a.count 0x0A + 1)) ≠ [] := by simpa using hempty
      rw [hglyphs, ← finish_below _ hempty, finish, finish, List.getLast?_append,
        List.getLast?_cons_of_ne_nil hne, List.getLast?_eq_some_getLast hne]
      rfl
  exact congrArg Token.endOfSource hfinish

/-! ## The lines of a text -/

theorem unmarked_ofLines_of_head? {texts : List String}
    (h : ∀ text ∈ texts.head?, text.toList.head? ≠ some byteOrderMark) :
    ¬ markBytes <+: ofLines texts := by
  have hfirst : ∀ {text : String}, text.toList.head? ≠ some byteOrderMark →
      ¬ markBytes <+: Utf8.encode text := by
    intro text htext
    rw [Utf8.encode_eq]
    exact unmarked_encode htext
  rcases texts with _ | ⟨text, _ | ⟨next, texts⟩⟩
  · exact hfirst (by simp)
  · rw [ofLines, String.intercalate_singleton]
    exact hfirst (h text rfl)
  · rw [ofLines_cons text (List.cons_ne_nil _ _)]
    exact fun hmark => hfirst (h text rfl) (markBytes_prefix_of_append hmark)

/-- The tokens of a source are on its lines. -/
theorem line_of_mem_tokens {source : List UInt8} {t : Token} (h : t ∈ (scan source).tokens) :
    1 ≤ t.pos.line ∧ t.pos.line ≤ 1 + source.count 0x0A := by
  obtain ⟨n, hn⟩ := List.getElem?_of_mem h
  have htoken : token source n = t := by rw [token, endless, hn]; rfl
  have hbefore := (List.take_sublist (start source n) source).count_le 0x0A
  have hline := (position_exact source n).1
  rw [htoken] at hline
  omega

theorem tokens_ofLines_nil : (scan (ofLines [])).tokens = [] := by
  rw [ofLines, String.intercalate_nil, Utf8.encode_eq]
  rfl

/-- One line more in front. -/
theorem tokens_ofLines_cons {text : String} (hline : '\n' ∉ text.toList) {texts : List String}
    (hmark : ∀ text ∈ texts.head?, text.toList.head? ≠ some byteOrderMark) :
    (scan (ofLines (text :: texts))).tokens =
      (scan (Utf8.encode text)).tokens ++ (scan (ofLines texts)).tokens.map (Token.below 1) := by
  by_cases hne : texts = []
  · subst hne
    rw [tokens_ofLines_nil, ofLines, String.intercalate_singleton]
    exact (List.append_nil _).symm
  · rw [ofLines_cons text hne, tokens_append _ (unmarked_ofLines_of_head? hmark),
      count_newline_encode hline]

section

variable {texts : List String} (hlines : ∀ text ∈ texts, '\n' ∉ text.toList)
  (hmarks : ∀ text ∈ texts.tail, text.toList.head? ≠ some byteOrderMark)
include hlines hmarks

/-- **The tokens of lines.** A text is scanned as its lines are, each of them moved down to its
place. -/
theorem tokens_ofLines :
    (scan (ofLines texts)).tokens =
      (texts.mapIdx fun i text =>
        (scan (Utf8.encode text)).tokens.map (Token.below i)).flatten := by
  induction texts with
  | nil => exact tokens_ofLines_nil
  | cons text texts ih =>
    obtain ⟨hline, hlines⟩ := List.forall_mem_cons.mp hlines
    have hhead : ∀ text ∈ texts.head?, text.toList.head? ≠ some byteOrderMark :=
      fun text htext => hmarks text (List.mem_of_mem_head? htext)
    have hbelow : Token.below 0 = id := rfl
    rw [tokens_ofLines_cons hline hhead, ih hlines fun text htext =>
      hmarks text (List.mem_of_mem_tail htext), List.mapIdx_cons, List.flatten_cons, hbelow,
      List.map_id, List.map_flatten]
    simp only [List.mapIdx_eq_zipIdx_map, List.map_map, Function.comp_def, Token.below_below]

/-- The tokens of a text on one of its lines are those of that line. -/
theorem filter_line_tokens {i : Nat} {text : String} (h : texts[i]? = some text) :
    (scan (ofLines texts)).tokens.filter (fun t => t.pos.line = i + 1) =
      (scan (Utf8.encode text)).tokens.map (Token.below i) := by
  induction texts generalizing i with
  | nil => cases h
  | cons first texts ih =>
    obtain ⟨hline, hlines⟩ := List.forall_mem_cons.mp hlines
    have hhead : ∀ text ∈ texts.head?, text.toList.head? ≠ some byteOrderMark :=
      fun text htext => hmarks text (List.mem_of_mem_head? htext)
    have hfirst : ∀ t ∈ (scan (Utf8.encode first)).tokens, t.pos.line = 1 := by
      intro t ht
      have hbounds := line_of_mem_tokens ht
      rw [count_newline_encode hline] at hbounds
      omega
    rw [tokens_ofLines_cons hline hhead, List.filter_append, List.filter_map]
    cases i with
    | zero =>
      obtain rfl := Option.some.inj h
      have hothers : ∀ t ∈ (scan (ofLines texts)).tokens, ¬ (t.below 1).pos.line = 0 + 1 := by
        intro t ht
        have hbounds := line_of_mem_tokens ht
        change ¬ t.pos.line + 1 = 0 + 1
        omega
      have hbelow : Token.below 0 = id := rfl
      rw [List.filter_eq_self.mpr (by simpa using hfirst),
        List.filter_eq_nil_iff.mpr (by simpa using hothers), hbelow, List.map_id]
      exact List.append_nil _
    | succ i =>
      have hpassed : ∀ t ∈ (scan (Utf8.encode first)).tokens, ¬ t.pos.line = i + 1 + 1 := by
        intro t ht
        have hline := hfirst t ht
        omega
      have hmoved : (fun t : Token => decide (t.pos.line = i + 1 + 1)) ∘ Token.below 1 =
          fun t => decide (t.pos.line = i + 1) := by
        funext t
        exact decide_eq_decide.mpr Nat.succ_inj
      rw [List.filter_eq_nil_iff.mpr (by simpa using hpassed), hmoved,
        ih hlines (fun text htext => hmarks text (List.mem_of_mem_tail htext)) h, List.map_map]
      rfl

end

/-- The lines of a text make up its source. -/
theorem ofLines_lines (text : String) :
    ofLines ((Text.lines text.toList).map String.ofList) = Utf8.encode text := by
  rw [ofLines]
  refine congrArg Utf8.encode (String.toList_inj.mp ?_)
  rw [String.toList_intercalate, List.map_map]
  have hlist : String.toList ∘ String.ofList = id := funext fun _ => String.toList_ofList
  rw [hlist, List.map_id]
  exact Text.intercalate_lines text.toList

end Source

/-- No line has a line feed. -/
theorem Text.newline_notMem_lines {cs line : List Char} (h : line ∈ Text.lines cs) :
    '\n' ∉ line := by
  induction cs generalizing line with
  | nil =>
    obtain rfl := List.mem_singleton.mp h
    exact List.not_mem_nil
  | cons c cs ih =>
    rw [lines, splitLines] at h
    dsimp only at h
    split at h
    · obtain rfl | h := List.mem_cons.mp h
      · exact List.not_mem_nil
      · exact ih h
    · next hc =>
      obtain rfl | h := List.mem_cons.mp h
      · exact fun hmem => (List.mem_cons.mp hmem).elim (hc ·.symm) (ih List.mem_cons_self)
      · exact ih (List.mem_cons_of_mem _ h)

namespace Prompt

/-- Fragments depend on columns, not on lines. -/
theorem fragments_below (n : Nat) (ts : List Token) (offset : Nat) (rest : List Char) :
    fragments (ts.map (Token.below n)) offset rest = fragments ts offset rest := by
  induction ts generalizing offset rest with
  | nil => rfl
  | cons t ts ih =>
    have hnext : ((ts.map (Token.below n)).head?.map Token.kind) = ts.head?.map Token.kind := by
      cases ts <;> rfl
    rw [List.map_cons, fragments, fragments]
    dsimp only
    rw [hnext, ih, ih]
    rfl

/-- A line of a text is coloured by itself. -/
theorem colourDocument?_line {text : String} {i : Nat} {line : List Char}
    (h : (Text.lines text.toList)[i]? = some line) :
    colourDocument? text i = some (colourLine (String.ofList line)) := by
  have hindex : ¬ (i : Int) < 0 := by omega
  rw [colourDocument?, if_neg hindex, if_neg hindex, Int.toNat_natCast, h]

end Prompt

namespace Source

open Prompt

/-- **A scan splits at line feeds.** Two sources with a line feed between them have the tokens, the
end and the diagnostics that they have apart, those of the second further down by the lines of the
first. No token has a line feed among its bytes. And a text is scanned as its lines are, so that
colouring a line by itself shows the tokens that the text has on that line. -/
theorem scan_line_by_line :
    (∀ a b : List UInt8, ¬ markBytes <+: b →
      (scan (a ++ 0x0A :: b)).tokens ++ [(scan (a ++ 0x0A :: b)).endToken] =
          (scan a).tokens ++
            ((scan b).tokens ++ [(scan b).endToken]).map (Token.below (a.count 0x0A + 1)) ∧
        (scan (a ++ 0x0A :: b)).diagnostics =
          (scan a).diagnostics ++
            (scan b).diagnostics.map (Diagnostic.below (a.count 0x0A + 1))) ∧
    (∀ (source : List UInt8) (n : Nat), (0x0A : UInt8) ∉
      (source.drop (start source n)).take (offset source (n + 1) - start source n)) ∧
    ∀ text : String,
      (∀ line ∈ (Text.lines text.toList).tail, line.head? ≠ some byteOrderMark) →
      (scan (Utf8.encode text)).tokens =
          ((Text.lines text.toList).mapIdx fun i line =>
            (scan (Utf8.encode (String.ofList line))).tokens.map (Token.below i)).flatten ∧
        ∀ (i : Nat) (line : List Char), (Text.lines text.toList)[i]? = some line →
          colourDocument? text i = some (if line.isEmpty then [⟨"", ""⟩] else
            fragments ((scan (Utf8.encode text)).tokens.filter fun t => t.pos.line = i + 1)
              0 line) := by
  refine ⟨?_, newline_notMem_token, ?_⟩
  · intro a b hb
    rw [tokens_append a hb, endToken_append a hb, List.map_append, List.append_assoc]
    exact ⟨rfl, diagnostics_append a hb⟩
  · intro text hmarks
    let texts := (Text.lines text.toList).map String.ofList
    have hlines : ∀ text ∈ texts, '\n' ∉ text.toList := by
      intro _ htext
      obtain ⟨line, hline, rfl⟩ := List.mem_map.mp htext
      rw [String.toList_ofList]
      exact Text.newline_notMem_lines hline
    have hmarks : ∀ text ∈ texts.tail, text.toList.head? ≠ some byteOrderMark := by
      intro _ htext
      rw [← List.map_tail] at htext
      obtain ⟨line, hline, rfl⟩ := List.mem_map.mp htext
      rw [String.toList_ofList]
      exact hmarks line hline
    rw [← ofLines_lines text]
    constructor
    · refine (tokens_ofLines hlines hmarks).trans ?_
      simp only [texts, List.mapIdx_eq_zipIdx_map, List.zipIdx_map, List.map_map]
      rfl
    · intro i line hline
      have htext : texts[i]? = some (String.ofList line) := by
        rw [List.getElem?_map, hline]
        rfl
      rw [colourDocument?_line hline, filter_line_tokens hlines hmarks htext, fragments_below,
        colourLine, String.toList_ofList]
      simp

/-- A string that its line leaves open in the midst of a character, and a text of two lines. -/
theorem scan_line_by_line_cut_off :
    (¬ markBytes <+: [0xAC, 0x22] ∧
      (scan ([0x22, 0xE2, 0x82] ++ 0x0A :: [0xAC, 0x22])).diagnostics =
        (scan [0x22, 0xE2, 0x82]).diagnostics ++
          (scan [0xAC, 0x22]).diagnostics.map (Diagnostic.below 1)) ∧
    (∀ line ∈ (Text.lines "f(1)\n\"é".toList).tail, line.head? ≠ some byteOrderMark) ∧
      colourDocument? "f(1)\n\"é" 1 = some (fragments
        ((scan (Utf8.encode "f(1)\n\"é")).tokens.filter fun t => t.pos.line = 2) 0 "\"é".toList) :=
  ⟨⟨by decide, (scan_line_by_line.1 _ _ (by decide)).2⟩, by decide,
    (scan_line_by_line.2.2 "f(1)\n\"é" (by decide)).2 1 "\"é".toList rfl⟩

end Source

end Treewalk
