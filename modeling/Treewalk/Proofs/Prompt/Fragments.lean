import Treewalk.Prompt.Colour
import Treewalk.Proofs.Scan.Faults

/-!
# Colouring is faithful

The fragments of a text make it up again, whatever the columns of its tokens are: a token that
starts too early or behind the end is passed over, one that is too long is cut off, and what stands
between two tokens is kept. So much holds of any list of tokens.

In a text of one line without a byte order mark in front, the column of a token is its place, and
its text is what stands there. Then nothing is passed over and nothing is cut off: there is one
fragment for each token, with its text, and between them there is only space. This is proved along
the cutting of the glyphs, whose columns say how many of them stand in front.

## Main definitions

* `Woven`, the fragments of tokens with space between them
* `Aligned`, glyphs one column after another

## Main results

* `flatMap_fragments`, `text_ne_empty_of_mem_fragments`: fragments of any tokens
* `woven_fragments`: fragments of the tokens of a line
* `colour_faithful`

## Implementation notes

Two statements are proved because two things can go wrong. Whatever the columns are, no character is
lost or shown twice, which follows from how `fragments` cuts the rest of the line; it needs no
hypothesis on tokens. That styles stand where they belong needs the columns to be right, and then a
text of one line is assumed.

`Woven` says how fragments and tokens go together without numbers: a token has one fragment, with
its style and its text, and the others show space. A statement with offsets would have to count
characters on both sides.
-/

namespace Treewalk.Prompt

/-- The style of a token in front of others. -/
def tokenStyle (t : Token) (more : List Token) : String :=
  (Group.ofToken t.kind (more.head?.map Token.kind)).style

/-- Fragments that tokens are woven into: one for each token, in order, with its style and its text;
all others are spaces, tabs and carriage returns without a style. -/
inductive Woven : List Token → List Fragment → Prop where
  | nil : Woven [] []
  | space {ts : List Token} {fs : List Fragment} {gap : List Char}
    (h : ∀ c ∈ gap, c = ' ' ∨ c = '\t' ∨ c = '\r') (more : Woven ts fs) :
    Woven ts (⟨"", String.ofList gap⟩ :: fs)
  | token {t : Token} {ts : List Token} {fs : List Fragment} (more : Woven ts fs) :
    Woven (t :: ts) (⟨tokenStyle t ts, t.text⟩ :: fs)

/-- Glyphs one column after another, behind a number of columns. -/
def Aligned : Nat → List Glyph → Prop
  | _, [] => True
  | n, g :: gs => g.pos.column = n + 1 ∧ Aligned (n + 1) gs

/-! ## Any tokens -/

/-- What stands in front of a token, unless it is nothing. -/
theorem flatMap_gap (n : Nat) (rest : List Char) :
    (if n = 0 then [] else [Fragment.mk "" (String.ofList (rest.take n))]).flatMap
      (fun f => f.text.toList) = rest.take n := by
  by_cases hn : n = 0
  · rw [if_pos hn, hn]
    rfl
  · rw [if_neg hn, List.flatMap_singleton, String.toList_ofList]

/-- The fragments make up the rest of the line. -/
theorem flatMap_fragments (ts : List Token) (offset : Nat) (rest : List Char) :
    (fragments ts offset rest).flatMap (fun f => f.text.toList) = rest := by
  induction ts generalizing offset rest with
  | nil => cases rest <;> simp [fragments]
  | cons t more ih =>
    rw [fragments]
    dsimp only
    generalize t.pos.column - 1 - offset = gap
    split
    · exact ih offset rest
    · have hpiece := List.prefix_iff_eq_append.mp (List.take_prefix t.text.length (rest.drop gap))
      rw [List.flatMap_append, List.flatMap_cons, flatMap_gap, ih, String.toList_ofList,
        ← List.drop_drop, hpiece, List.take_append_drop]

/-- No fragment is empty. -/
theorem text_ne_empty_of_mem_fragments {ts : List Token} {offset : Nat} {rest : List Char}
    {f : Fragment} (h : f ∈ fragments ts offset rest) : f.text ≠ "" := by
  induction ts generalizing offset rest with
  | nil =>
    cases rest with
    | nil => cases h
    | cons c rest =>
      rw [fragments, if_neg (by simp), List.mem_singleton] at h
      rw [h]
      simp
  | cons t more ih =>
    rw [fragments] at h
    dsimp only at h
    split at h
    · exact ih h
    · next hfits =>
      obtain ⟨-, hpiece⟩ := not_or.mp hfits
      rcases List.mem_append.mp h with h | h
      · split at h
        · cases h
        · next hgap =>
          rw [List.mem_singleton] at h
          rw [h]
          -- What is left of the line goes on behind the gap, so it is not nothing before it.
          have hrest : rest ≠ [] := by
            rintro rfl
            simp at hpiece
          simpa [hgap] using hrest
      · rcases List.mem_cons.mp h with rfl | h
        · simpa using hpiece
        · exact ih h

/-! ## The tokens of a line -/

theorem aligned_append {n : Nat} {gs hs : List Glyph} :
    Aligned n (gs ++ hs) ↔ Aligned n gs ∧ Aligned (n + gs.length) hs := by
  induction gs generalizing n with
  | nil => simp [Aligned]
  | cons g gs ih =>
    rw [List.cons_append, Aligned, Aligned, ih, List.length_cons, Nat.add_right_comm, and_assoc]
    rfl

/-- Without a line feed, glyphs are placed one column after another. -/
theorem aligned_place {p : Pos} {n : Nat} (hp : p.column = n + 1) {steps : List Utf8.Step}
    (h : ∀ step ∈ steps, step.char.getD Utf8.replacement ≠ '\n') : Aligned n (place p steps) := by
  induction steps generalizing p n with
  | nil => trivial
  | cons step steps ih =>
    rw [List.forall_mem_cons] at h
    refine ⟨hp, ih ?_ h.2⟩
    have hafter : (glyphAt p step).after = ⟨p.line, p.column + 1⟩ := Pos.after_of_ne h.1
    rw [hafter, hp]

/-- A token that stands where its column says, with its text, has its own fragment. -/
theorem fragments_token {t : Token} {offset : Nat} {gap piece : List Char}
    (hcolumn : t.pos.column = offset + gap.length + 1) (htext : t.text = String.ofList piece)
    (hpiece : piece ≠ []) (more : List Token) (behind : List Char) :
    fragments (t :: more) offset (gap ++ piece ++ behind) =
      (if gap.length = 0 then [] else [⟨"", String.ofList gap⟩]) ++
        ⟨tokenStyle t more, t.text⟩ ::
          fragments more (offset + (gap ++ piece).length) behind := by
  have hgap : t.pos.column - 1 - offset = gap.length := by omega
  have hstart : ¬ t.pos.column - 1 < offset := by omega
  have hlength : t.text.length = piece.length := by
    rw [htext, String.length_ofList]
  have hcut : (((gap ++ piece ++ behind).drop gap.length).take piece.length) = piece := by
    rw [List.append_assoc, List.drop_left, List.take_left]
  have hrest : (gap ++ piece ++ behind).drop (gap.length + piece.length) = behind := by
    rw [← List.length_append, List.drop_left]
  have hfirst : (gap ++ piece ++ behind).take gap.length = gap := by
    rw [List.append_assoc, List.take_left]
  have hnext : t.pos.column - 1 + piece.length = offset + (gap ++ piece).length := by
    rw [List.length_append]
    omega
  have hfits : ¬ (t.pos.column - 1 < offset ∨ piece.isEmpty = true) :=
    not_or.mpr ⟨hstart, by simpa using hpiece⟩
  rw [fragments]
  dsimp only
  rw [hgap, hlength, hcut, if_neg hfits, hrest, hfirst, hnext, ← htext]
  rfl

/-- Spaces without a line feed show spaces, tabs and carriage returns. -/
theorem shown_of_isSpace {gap : List Glyph} (hgap : ∀ g ∈ gap, isSpace g.char = true)
    (hline : ∀ g ∈ gap, g.char ≠ '\n') :
    ∀ c ∈ gap.map Glyph.char, c = ' ' ∨ c = '\t' ∨ c = '\r' := by
  rw [List.forall_mem_map]
  intro g hg
  simpa [isSpace, hline g hg, or_assoc] using hgap g hg

/-- The tokens of a line are woven into its fragments. -/
theorem woven_fragments {gs : List Glyph}
    (hbytes : ∀ g ∈ gs, g.bytes = String.utf8EncodeChar g.char)
    (hline : ∀ g ∈ gs, g.char ≠ '\n') {offset : Nat} (haligned : Aligned offset gs) :
    Woven (tokensOf gs) (fragments (tokensOf gs) offset (gs.map Glyph.char)) := by
  induction gs using cutInduction generalizing offset with
  | spaces gap hgap =>
    rw [tokensOf, lexemes_spaces hgap, List.map_nil, fragments]
    split
    · exact .nil
    · exact .space (shown_of_isSpace hgap hline) .nil
  | token gap g rest hgap hg ih =>
    let l := lexemeAt gap g rest
    let behind := (g :: rest).drop (shapeOf g rest).size
    obtain ⟨run, hrun⟩ := exists_run_lexemeAt gap g rest
    have hsplit : g :: rest = l.run ++ behind := (List.take_append_drop _ _).symm
    have htokens : tokensOf (gap ++ g :: rest) = l.token :: tokensOf behind := by
      rw [tokensOf, lexemes_token hgap hg, List.map_cons]
      rfl
    rw [htokens]
    rw [hsplit, ← List.append_assoc] at hbytes hline haligned ⊢
    obtain ⟨hfront, hbehind⟩ := aligned_append.mp haligned
    have hcolumn : l.token.pos.column = offset + (gap.map Glyph.char).length + 1 := by
      have hhead := (aligned_append.mp hfront).2
      rw [hrun] at hhead
      have hpos : l.pos = g.pos := by
        rw [Lexeme.pos, hrun]
        rfl
      rw [List.length_map]
      exact (congrArg Pos.column hpos).trans hhead.1
    have htext : l.token.text = String.ofList (l.run.map Glyph.char) :=
      Lexeme.text_of_bytes fun g hg =>
        hbytes g (List.mem_append_left _ (List.mem_append_right _ hg))
    have hpiece : l.run.map Glyph.char ≠ [] := by
      rw [hrun]
      simp
    have hmore : Woven (tokensOf behind)
        (fragments (tokensOf behind) (offset + (gap.map Glyph.char ++ l.run.map Glyph.char).length)
          (behind.map Glyph.char)) := by
      rw [← List.map_append, List.length_map]
      exact ih (fun g hg => hbytes g (List.mem_append_right _ hg))
        (fun g hg => hline g (List.mem_append_right _ hg)) hbehind
    rw [List.map_append, List.map_append, fragments_token hcolumn htext hpiece]
    split
    · exact .token hmore
    · refine .space (shown_of_isSpace hgap fun g hg => hline g ?_) (.token hmore)
      exact List.mem_append_left _ (List.mem_append_left _ hg)

theorem colourLine_of_ne {line : String} (hne : line ≠ "") :
    colourLine line = fragments (scan (Utf8.encode line)).tokens 0 line.toList := by
  rw [colourLine, if_neg (by simpa using hne)]

/-- The tokens of a text of one line without a mark are woven into its fragments. -/
theorem woven_colourLine {line : String} (hne : line ≠ "") (hline : '\n' ∉ line.toList)
    (hmark : line.toList.head? ≠ some byteOrderMark) :
    Woven (scan (Utf8.encode line)).tokens (colourLine line) := by
  have hunmarked := Source.unmarked_encode hmark
  have hbody := Source.body_of_unmarked hunmarked
  have hchars := Source.map_char_of_body hbody
  have haligned : Aligned 0 (glyphs (line.toList.flatMap String.utf8EncodeChar)) := by
    rw [glyphs_of_unmarked hunmarked, Utf8.steps_encode]
    refine aligned_place rfl (List.forall_mem_map.mpr fun c hc => ?_)
    rintro rfl
    exact hline hc
  have hglyphs : ∀ g ∈ glyphs (line.toList.flatMap String.utf8EncodeChar), g.char ≠ '\n' := by
    intro g hg hchar
    rw [← hchars] at hline
    exact hline (hchar ▸ List.mem_map_of_mem hg)
  have hwoven := woven_fragments (fun _ => Source.bytes_of_body hbody) hglyphs haligned
  rwa [hchars, ← scan_tokens, ← Utf8.encode_eq, ← colourLine_of_ne hne] at hwoven

/-- **Colouring is faithful.** The fragments of a text that is not empty are not empty either, and
one after another they are the text, also if it has several lines or a mark in front. If it has
neither, there is one fragment for each token, in order, with the text of the token, and what the
other fragments show is spaces, tabs and carriage returns. -/
theorem colour_faithful (line : String) (hne : line ≠ "") :
    (∀ f ∈ colourLine line, f.text ≠ "") ∧
      String.join ((colourLine line).map Fragment.text) = line ∧
      ('\n' ∉ line.toList → line.toList.head? ≠ some byteOrderMark →
        Woven (scan (Utf8.encode line)).tokens (colourLine line)) := by
  refine ⟨?_, ?_, woven_colourLine hne⟩
  · rw [colourLine_of_ne hne]
    exact fun _ => text_ne_empty_of_mem_fragments
  · rw [colourLine_of_ne hne, ← String.toList_inj, String.toList_join, List.flatMap_map]
    exact flatMap_fragments _ _ _

/-- A call with a text of more bytes than characters, and behind a tab a literal left open. -/
theorem colour_faithful_call :
    colourLine "f(\"ä\")\t'" =
        [⟨"bold ansiyellow", "f"⟩, ⟨"", "("⟩, ⟨"ansigreen", "\"ä\""⟩, ⟨"", ")"⟩, ⟨"", "\t"⟩,
          ⟨"ansigreen", "'"⟩] ∧
      Woven (scan (Utf8.encode "f(\"ä\")\t'")).tokens (colourLine "f(\"ä\")\t'") :=
  ⟨by decide +kernel, (colour_faithful _ (by decide)).2.2 (by decide) (by decide)⟩

-- The token of the second line starts in the first column again, and is passed over.
example : colourLine "1\n2" = [⟨"ansimagenta", "1"⟩, ⟨"", "\n2"⟩] := by
  decide +kernel

end Treewalk.Prompt
