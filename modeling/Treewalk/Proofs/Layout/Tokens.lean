import Treewalk.Proofs.Grammar.Exact
import Treewalk.Proofs.Grammar.Relaid
import Treewalk.Proofs.Layout.Bare

/-!
# Sources that differ in layout

Two sources differ in layout only if the same tokens are left of both when comments and places are
forgotten. To forget these is to lay the tokens out differently, which every rule of the grammar
survives: a derivation of a program is a derivation of the bare program from its bare tokens. As a
sequence derives at most one program, sources that differ in layout are the same program up to
places.

## Main definitions

* `Token.bare`, `bareTokens`, tokens without places and without comments
* `Source.significant`, kinds and texts of the tokens that count

## Main results

* `Grammar.Items.bare`: forgetting commutes with deriving
* `Source.map_bare_eq`: sources that differ in layout give the same bare program

## Implementation notes

That two sources differ in layout only is said of kinds and texts of their tokens, comments left
out. It is said of the tokens of a scan and not of the characters, so what counts as layout is not
defined separately: it is whatever the scanner does not turn into a token.

The proof uses uniqueness of derivations. Both sources derive their bare programs from the same bare
tokens, and without uniqueness one would have to know that the parser chooses alike.
-/

namespace Treewalk

/-- A token without its place. -/
def Token.bare (t : Token) : Token :=
  { t with pos := ⟨0, 0⟩ }

/-- The tokens that are no comments, without their places. -/
def bareTokens (ts : List Token) : List Token :=
  (ts.filter fun t => t.kind ≠ .comment).map Token.bare

/-! ## Forgetting as a layout -/

/-- No comments, and all tokens at one place. -/
def Relaying.bare : Relaying where
  comment _ := none
  pos _ := ⟨0, 0⟩
  mark := Mark.bare
  comment_kind _ h := nomatch h
  mark_pos _ := rfl
  mark_absent := rfl

theorem Relaying.tokens_bare (ts : List Token) : Relaying.bare.tokens ts = bareTokens ts := by
  have htoken : Relaying.bare.token? = fun t =>
      if t.kind ≠ .comment then some t.bare else none := by
    funext t
    rw [token?, ite_not]
    rfl
  rw [tokens, htoken, bareTokens, ← List.filterMap_eq_map, List.filterMap_filter]
  simp

theorem Grammar.Items.bare {s : List Token} {body : List Stmt} (h : Items s body) :
    Items (bareTokens s) (body.map Stmt.bare) := by
  rw [← Relaying.tokens_bare]
  exact h.relaid .bare

/-! ## Sources -/

/-- Kinds and texts of the tokens of a source that are no comments. -/
def Source.significant (source : List UInt8) : List (Kind × String) :=
  ((scan source).tokens.filter fun t => t.kind ≠ .comment).map fun t => (t.kind, t.text)

theorem Source.bareTokens_eq (source : List UInt8) :
    bareTokens (scan source).tokens =
      (Source.significant source).map fun entry => ⟨entry.1, entry.2, ⟨0, 0⟩⟩ := by
  rw [bareTokens, Source.significant, List.map_map]
  rfl

theorem bareTokens_kind_ne_eof {ts : List Token} (h : ∀ t ∈ ts, t.kind ≠ .eof) :
    ∀ t ∈ bareTokens ts, t.kind ≠ .eof := by
  intro t ht
  obtain ⟨u, hu, rfl⟩ := List.mem_map.mp ht
  exact h u (List.mem_of_mem_filter hu)

/-- Sources that differ in layout give the same program up to places. The tokens without their
places are the same, and what tokens derive depends on their places only in its marks. -/
theorem Source.map_bare_eq {source source' : List UInt8} {body body' : List Stmt}
    (h : Source.program source = .ok body) (h' : Source.program source' = .ok body')
    (hs : Source.significant source = Source.significant source') :
    body.map Stmt.bare = body'.map Stmt.bare := by
  have hb := (Source.items_of_program h).bare
  have hb' := (Source.items_of_program h').bare
  rw [Source.bareTokens_eq, ← hs, ← Source.bareTokens_eq] at hb'
  have hne := bareTokens_kind_ne_eof (scan_tokens_kind_ne_eof source)
  exact hb.unique hne hb'

end Treewalk
