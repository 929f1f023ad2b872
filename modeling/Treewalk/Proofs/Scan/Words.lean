import Treewalk.Proofs.Scan.Cut

/-!
# Tokens as characters

Where tokens begin and end depends on characters alone. So the tokens of a text can be told from its
characters, without bytes and places: `words` does that.

## Main definitions

* `Word`, a token without its place, and `words`, the words of a list of characters

## Main results

* `words_spaces`, `words_cons`: one word after another
* `map_word_lexemes`: the words of glyphs are those of their characters

## Implementation notes

Words leave out bytes and places and keep all else. Results on the texts of tokens are proved of
words, where a proof is about lists of characters, and are carried over to sources by
`map_word_lexemes` and the fact that faultless sources are texts.
-/

namespace Treewalk

/-- A token as its characters show it, and what is wrong with it. Places are left out, so that the
words of a text are the same wherever it stands. -/
structure Word where
  kind : Kind
  chars : List Char
  problem : Option Problem
  deriving DecidableEq

/-- Lays slots over the characters that they were cut from. -/
def fillWords : List Slot → List Char → List Word
  | [], _ => []
  | slot :: more, cs =>
    let start := cs.drop slot.gap
    ⟨slot.shape.kind, start.take slot.shape.size, slot.shape.problem⟩ ::
      fillWords more (start.drop slot.shape.size)

/-- The words of a list of characters. -/
def words (cs : List Char) : List Word :=
  fillWords (slots cs) cs

/-! ## One word after another -/

theorem words_of_spaces {gap : List Char} (hgap : ∀ c ∈ gap, isSpace c = true) :
    words gap = [] := by
  have hslots := slotsFrom_spaces 0 hgap []
  rw [List.append_nil] at hslots
  rw [words, slots, hslots]
  rfl

theorem words_token {gap : List Char} (hgap : ∀ c ∈ gap, isSpace c = true) {c : Char}
    (hc : isSpace c = false) (cs : List Char) :
    words (gap ++ c :: cs) =
      ⟨(shapeAt c cs).kind, (c :: cs).take (shapeAt c cs).size, (shapeAt c cs).problem⟩ ::
        words ((c :: cs).drop (shapeAt c cs).size) := by
  rw [words, slots_token hgap hc, fillWords, List.drop_left]
  rfl

/-- Spaces before words yield nothing. -/
theorem words_spaces {gap : List Char} (hgap : ∀ c ∈ gap, isSpace c = true) (cs : List Char) :
    words (gap ++ cs) = words cs := by
  have hfront : ∀ c ∈ cs.takeWhile isSpace, isSpace c = true :=
    fun c hc => List.mem_takeWhile_imp hc
  have hboth := List.forall_mem_append.mpr ⟨hgap, hfront⟩
  have hsplit := cs.takeWhile_append_dropWhile (p := isSpace)
  rcases hrest : cs.dropWhile isSpace with _ | ⟨c, rest⟩
  · rw [hrest, List.append_nil] at hsplit
    rw [← hsplit, words_of_spaces hboth, words_of_spaces hfront]
  · have hc : isSpace c = false := by
      have hhead := List.head?_dropWhile_not isSpace cs
      rw [hrest] at hhead
      simpa using hhead
    rw [hrest] at hsplit
    rw [← hsplit, ← List.append_assoc, words_token hboth hc, words_token hfront hc]

/-- A character, those that belong to its token, and the words behind them. -/
theorem words_cons {c : Char} {cs rest : List Char} {kind : Kind} (hc : isSpace c = false)
    (h : shapeAt c (cs ++ rest) = ⟨kind, cs.length + 1, none⟩) :
    words (c :: (cs ++ rest)) = ⟨kind, c :: cs, none⟩ :: words rest := by
  have hnone : ∀ d ∈ ([] : List Char), isSpace d = true := by simp
  have hstep := words_token hnone hc (cs ++ rest)
  rw [h, List.nil_append] at hstep
  rw [hstep, List.take_succ_cons, List.drop_succ_cons, List.take_left, List.drop_left]

/-! ## Lexemes -/

/-- The word of a lexeme. -/
def Lexeme.word (l : Lexeme) : Word :=
  ⟨l.kind, l.run.map Glyph.char, l.problem⟩

/-- The words of glyphs are those of their characters. So everything that does not depend on bytes
and places can be said about words. -/
theorem map_word_lexemes (gs : List Glyph) :
    (lexemes gs).map Lexeme.word = words (gs.map Glyph.char) := by
  have hfill : ∀ (ss : List Slot) (gs : List Glyph),
      (fill ss gs).map Lexeme.word = fillWords ss (gs.map Glyph.char) := by
    intro ss
    induction ss with
    | nil => intro gs; rfl
    | cons slot more ih =>
      intro gs
      rw [fill, List.map_cons, ih, fillWords, Lexeme.word, List.map_take, List.map_drop,
        List.map_drop, List.map_drop]
  exact hfill _ gs

end Treewalk
