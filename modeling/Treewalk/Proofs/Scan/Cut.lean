import Mathlib.Data.List.TakeWhile
import Treewalk.Token.Lexeme

/-!
# One lexeme after another

A scan cuts all characters into slots first and then lays the slots over the glyphs. Seen from the
outside it does one thing over and over: it passes the spaces at the front, takes as many glyphs as
the shape of the next token says, and goes on behind them. `lexemes_token` is that step, and
`cutInduction` the induction along such steps; everything about the tokens of a source is proved
through these two.

## Main definitions

* `lexemes`, the lexemes of a list of glyphs
* `lexemeAt`, the lexeme that a glyph starts

## Main results

* `lexemes_spaces`, `lexemes_token`: spaces yield nothing, a glyph behind them yields a lexeme
* `cutInduction`: induction along the cutting

## Implementation notes

`slotsFrom` counts down the characters that a token has taken, because that makes the recursion
structural. An induction along it would have a step for each character, most of which do nothing.
`cutInduction` has one step for each token instead and states it in glyphs; the number of glyphs
decreases because every token has at least one, and this is the only place where it is used.

Properties of a scan are proved of `lexemes` for arbitrary glyphs. That these come from a source is
assumed only where it matters, mostly for what a single glyph can be.
-/

namespace Treewalk

/-- The lexemes of glyphs. -/
def lexemes (gs : List Glyph) : List Lexeme :=
  fill (slots (gs.map Glyph.char)) gs

theorem scan_lexemes (source : List UInt8) : (scan source).lexemes = lexemes (glyphs source) := rfl

/-- The shape of the token that a glyph starts. -/
def shapeOf (g : Glyph) (rest : List Glyph) : Shape :=
  shapeAt g.char (rest.map Glyph.char)

/-- The lexeme that a glyph starts, with the spaces in front of it. -/
def lexemeAt (gap : List Glyph) (g : Glyph) (rest : List Glyph) : Lexeme :=
  let shape := shapeOf g rest
  ⟨gap, (g :: rest).take shape.size, ((g :: rest).drop shape.size).head?, shape.kind,
    shape.problem⟩

theorem shapeOf_size_pos (g : Glyph) (rest : List Glyph) : 0 < (shapeOf g rest).size :=
  shapeAt_size_pos _ _

/-- A lexeme has at least one glyph. -/
theorem exists_run_lexemeAt (gap : List Glyph) (g : Glyph) (rest : List Glyph) :
    ∃ more, (lexemeAt gap g rest).run = g :: more := by
  obtain ⟨k, hk⟩ := Nat.exists_eq_add_one.mpr (shapeOf_size_pos g rest)
  refine ⟨rest.take k, ?_⟩
  change (g :: rest).take (shapeOf g rest).size = g :: rest.take k
  rw [hk, List.take_succ_cons]

/-! ## Slots -/

theorem slotsFrom_drop (gap n : Nat) (cs : List Char) :
    slotsFrom gap n cs = slotsFrom gap 0 (cs.drop n) := by
  induction cs generalizing n with
  | nil => cases n <;> rfl
  | cons c cs ih =>
    cases n with
    | zero => rfl
    | succ n => exact ih n

theorem slotsFrom_spaces (gap : Nat) {spaces : List Char} (h : ∀ c ∈ spaces, isSpace c = true)
    (cs : List Char) : slotsFrom gap 0 (spaces ++ cs) = slotsFrom (gap + spaces.length) 0 cs := by
  induction spaces generalizing gap with
  | nil => rfl
  | cons c spaces ih =>
    rw [List.forall_mem_cons] at h
    rw [List.cons_append, slotsFrom, if_pos h.1, ih _ h.2, List.length_cons]
    congr 1
    omega

theorem slots_token {spaces : List Char} (h : ∀ c ∈ spaces, isSpace c = true) {c : Char}
    (hc : isSpace c = false) (cs : List Char) :
    slots (spaces ++ c :: cs) =
      ⟨spaces.length, shapeAt c cs⟩ :: slots ((c :: cs).drop (shapeAt c cs).size) := by
  have hdrop : (c :: cs).drop (shapeAt c cs).size = cs.drop ((shapeAt c cs).size - 1) := by
    obtain ⟨n, hn⟩ := Nat.exists_eq_add_one.mpr (shapeAt_size_pos c cs)
    rw [hn, List.drop_succ_cons, Nat.add_sub_cancel]
  rw [slots, slotsFrom_spaces 0 h, slotsFrom, if_neg (by simp [hc]), Nat.zero_add, hdrop]
  dsimp only
  rw [slotsFrom_drop]
  rfl

/-! ## Lexemes -/

section

variable {gap : List Glyph} (hgap : ∀ g ∈ gap, isSpace g.char = true)
include hgap

theorem lexemes_spaces : lexemes gap = [] := by
  have hchars : ∀ c ∈ gap.map Glyph.char, isSpace c = true := by simpa using hgap
  have hslots := slotsFrom_spaces 0 hchars []
  rw [List.append_nil] at hslots
  rw [lexemes, slots, hslots]
  rfl

/-- Spaces and then a glyph of another kind yield the lexeme that the glyph starts, and the lexemes
behind it. -/
theorem lexemes_token {g : Glyph} (hg : isSpace g.char = false) (rest : List Glyph) :
    lexemes (gap ++ g :: rest) =
      lexemeAt gap g rest :: lexemes ((g :: rest).drop (shapeOf g rest).size) := by
  have hchars : ∀ c ∈ gap.map Glyph.char, isSpace c = true := by simpa using hgap
  have hmap : (gap ++ g :: rest).map Glyph.char =
      gap.map Glyph.char ++ g.char :: rest.map Glyph.char := by simp
  rw [lexemes, hmap, slots_token hchars hg, fill, List.length_map, List.drop_left, List.take_left,
    ← List.map_cons, ← List.map_drop]
  rfl

end

/-- **Induction along the cutting.** A property of lists of glyphs holds of all of them if it holds
of spaces, and of spaces before a token as soon as it holds behind the token. -/
theorem cutInduction {P : List Glyph → Prop}
    (spaces : ∀ gap : List Glyph, (∀ g ∈ gap, isSpace g.char = true) → P gap)
    (token : ∀ (gap : List Glyph) (g : Glyph) (rest : List Glyph),
      (∀ g ∈ gap, isSpace g.char = true) → isSpace g.char = false →
      P ((g :: rest).drop (shapeOf g rest).size) → P (gap ++ g :: rest)) (gs : List Glyph) :
    P gs := by
  induction hn : gs.length using Nat.strong_induction_on generalizing gs with
  | _ n ih =>
    have hgap : ∀ g ∈ gs.takeWhile fun g => isSpace g.char, isSpace g.char = true :=
      fun g hg => List.mem_takeWhile_imp (p := fun g : Glyph => isSpace g.char) hg
    have hsplit := gs.takeWhile_append_dropWhile (p := fun g => isSpace g.char)
    rcases hrest : gs.dropWhile fun g => isSpace g.char with _ | ⟨g, rest⟩
    · rw [hrest, List.append_nil] at hsplit
      rw [← hsplit]
      exact spaces _ hgap
    · have hg : isSpace g.char = false := by
        have := List.head?_dropWhile_not (fun g => isSpace g.char) gs
        rw [hrest] at this
        simpa using this
      rw [hrest] at hsplit
      rw [← hsplit]
      have hpos := shapeOf_size_pos g rest
      have hlen := congrArg List.length hsplit
      refine token _ g rest hgap hg (ih _ ?_ _ rfl)
      simp only [List.length_append, List.length_cons, List.length_drop] at hlen ⊢
      omega

/-- Every lexeme starts at a glyph that is no space. -/
theorem exists_lexemeAt {gs : List Glyph} {l : Lexeme} (h : l ∈ lexemes gs) :
    ∃ gap g rest, isSpace g.char = false ∧ l = lexemeAt gap g rest := by
  induction gs using cutInduction with
  | spaces gap hgap =>
    rw [lexemes_spaces hgap] at h
    cases h
  | token gap g rest hgap hg ih =>
    rw [lexemes_token hgap hg] at h
    obtain rfl | h := List.mem_cons.mp h
    · exact ⟨gap, g, rest, hg, rfl⟩
    · exact ih h

end Treewalk
