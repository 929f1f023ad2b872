import Treewalk.Proofs.Scan.Lines

/-!
# Tokens stand in order

A glyph stands behind the one before it: further right on its line, or on a later line. A token
stands where its first glyph does, and so tokens stand in order too. In particular no two of them
stand at one place, and what a place says about a token it says about no other.

## Main definitions

* `Pos.Before`, one place before another in the order of reading

## Main results

* `Source.tokens_ordered`: the tokens of a source stand one behind the other
* `Source.nodup_pos_tokens`: no two of them stand at one place

## Implementation notes

Order is proved of glyphs, where it is a property of `Pos.after`, and then inherited: the first
glyphs of the tokens are a sublist of all glyphs. A direct proof on tokens would have to go through
the cutting again.
-/

namespace Treewalk

/-- One place comes before another as a source is read. -/
def Pos.Before (p q : Pos) : Prop :=
  p.line < q.line ∨ p.line = q.line ∧ p.column < q.column

namespace Pos

theorem before_after (p : Pos) (c : Char) : p.Before (p.after c) := by
  rw [after]
  split
  · exact .inl (Nat.lt_succ_self _)
  · exact .inr ⟨rfl, Nat.lt_succ_self _⟩

theorem Before.trans {p q r : Pos} (h : p.Before q) (h' : q.Before r) : p.Before r := by
  rw [Before] at *
  omega

theorem Before.ne {p q : Pos} (h : p.Before q) : p ≠ q := by
  rintro rfl
  rw [Before] at h
  omega

end Pos

/-- Glyphs that are placed from somewhere on stand there or behind it, and in order. -/
theorem place_ordered (p : Pos) (steps : List Utf8.Step) :
    (∀ q ∈ (place p steps).map Glyph.pos, q = p ∨ p.Before q) ∧
      ((place p steps).map Glyph.pos).Pairwise Pos.Before := by
  induction steps generalizing p with
  | nil => exact ⟨by simp [place], .nil⟩
  | cons step rest ih =>
    obtain ⟨hbehind, hordered⟩ := ih (glyphAt p step).after
    have hnext : p.Before (glyphAt p step).after := p.before_after _
    have hlater : ∀ q ∈ (place (glyphAt p step).after rest).map Glyph.pos, p.Before q := by
      intro q hq
      obtain rfl | hq := hbehind q hq
      · exact hnext
      · exact hnext.trans hq
    rw [place, List.map_cons]
    exact ⟨List.forall_mem_cons.mpr ⟨.inl rfl, fun q hq => .inr (hlater q hq)⟩,
      .cons hlater hordered⟩

/-- Tokens stand where some of the glyphs do. -/
theorem tokensOf_pos_sublist (gs : List Glyph) :
    ((tokensOf gs).map Token.pos).Sublist (gs.map Glyph.pos) := by
  induction gs using cutInduction with
  | spaces gap hgap =>
    rw [tokensOf, lexemes_spaces hgap]
    exact List.nil_sublist _
  | token gap g rest hgap hg ih =>
    obtain ⟨k, hk⟩ := Nat.exists_eq_add_one.mpr (shapeOf_size_pos g rest)
    obtain ⟨more, hrun⟩ := exists_run_lexemeAt gap g rest
    have hpos : (lexemeAt gap g rest).token.pos = g.pos := by
      rw [Lexeme.token, Lexeme.pos, hrun]
      rfl
    rw [tokensOf, lexemes_token hgap hg, List.map_cons, List.map_cons, hpos, List.map_append,
      List.map_cons]
    rw [hk, List.drop_succ_cons] at ih ⊢
    exact ((ih.trans ((List.drop_sublist k rest).map _)).cons_cons _).trans
      (List.sublist_append_right _ _)

namespace Source

/-- **Tokens stand in order.** A token takes one character at least, so the next one stands behind
it, on the same line or further down. -/
theorem tokens_ordered (source : List UInt8) :
    ((scan source).tokens.map Token.pos).Pairwise Pos.Before := by
  have hglyphs : ((glyphs source).map Glyph.pos).Pairwise Pos.Before := by
    rw [map_glyphs_place fun _ _ => rfl]
    exact (place_ordered .start _).2
  exact hglyphs.sublist (tokensOf_pos_sublist _)

theorem nodup_pos_tokens (source : List UInt8) : ((scan source).tokens.map Token.pos).Nodup :=
  (tokens_ordered source).imp Pos.Before.ne

end Source

end Treewalk
