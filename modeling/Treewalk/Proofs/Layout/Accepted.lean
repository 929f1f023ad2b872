import Mathlib.Data.List.Forall2
import Treewalk.Proofs.Layout.Tokens
import Treewalk.Proofs.Scan.Order

/-!
# Layout does not change acceptance

A source that shows the tokens of a program, its comments where the program has them but with
whatever text, is a program too if nothing is wrong with it. Its statements are those of the other,
at other places. Tokens stand in order, so what the place of a token tells is which token it is, and
moving the tokens of one source to the places of the other is a `Relaying`.

## Main definitions

* `Token.Akin`, tokens that show the same or are both comments
* `Relaying.onto`, each token at the place of another

## Main results

* `Source.program_of_akin`

## Implementation notes

A source that is relaid need not be a permutation of the other's characters; the two have the same
tokens in the same order, apart from comments. `Akin` compares tokens one by one, so comments have
to stand in the same places in both sequences. This is weaker than what forgetting comments allows,
and it is the case that the prompt needs, which changes characters and drops no token.

`Relaying.onto` is a function on positions. It exists because no two tokens of a source share one:
the place of a token determines its number, and the number determines the place in the other source.
For places where no token stands the value does not matter.
-/

namespace Treewalk

/-- Two tokens are akin if they show the same, comments aside. The text of a comment has no part in
what is derived, and where a token stands has none either. -/
structure Token.Akin (t u : Token) : Prop where
  kind : u.kind = t.kind
  text : t.kind ≠ .comment → u.text = t.text

/-- Each token at the place of the one that is assigned to its place, and each comment with the text
of that one. -/
def Relaying.onto (other : Pos → Token) : Relaying where
  comment t := some { other t.pos with kind := .comment }
  pos p := (other p).pos
  mark
    | .place line column => .pos (other ⟨line.toNat, column.toNat⟩).pos
    | mark => mark
  comment_kind _ h := Option.some.inj h ▸ rfl
  mark_pos _ := rfl
  mark_absent := rfl

theorem Relaying.token?_onto {other : Pos → Token} {t : Token} (h : t.Akin (other t.pos)) :
    (onto other).token? t = some (other t.pos) := by
  obtain ⟨hkind, htext⟩ := h
  rw [token?]
  split
  · next ht =>
    change some { other t.pos with kind := .comment } = _
    rw [← ht, ← hkind]
  · next ht =>
    change some { t with pos := (other t.pos).pos } = _
    rw [← htext ht, ← hkind]

theorem Relaying.tokens_onto {other : Pos → Token} {ts : List Token}
    (h : ∀ t ∈ ts, t.Akin (other t.pos)) :
    (onto other).tokens ts = ts.map fun t => other t.pos := by
  rw [tokens, ← List.filterMap_eq_map]
  exact List.filterMap_congr fun t ht => token?_onto (h t ht)

theorem Mark.bare_onto (other : Pos → Token) (mark : Mark) :
    ((Relaying.onto other).mark mark).bare = mark.bare := by
  cases mark <;> rfl

/-- A list of values for different keys is a function on the keys. -/
theorem exists_assignment {α β : Type} [DecidableEq α] (d : β) {keys : List α} (hk : keys.Nodup)
    (values : List β) (hlength : values.length = keys.length) :
    ∃ f : α → β, keys.map f = values := by
  refine ⟨fun k => values[keys.idxOf k]?.getD d, List.ext_getElem (by simp [hlength]) ?_⟩
  intro i hi hi'
  rw [List.getElem_map, hk.idxOf_getElem, List.getElem?_eq_getElem hi', Option.getD_some]

namespace Source

/-- **Layout does not change acceptance.** A source without a diagnostic whose tokens are akin to
those of a program is the same program up to places. -/
theorem program_of_akin {source source' : List UInt8} {body : List Stmt}
    (h : program source = .ok body) (hd : (scan source').diagnostics = [])
    (hakin : List.Forall₂ Token.Akin (scan source).tokens (scan source').tokens) :
    ∃ body', program source' = .ok body' ∧ body'.map Stmt.bare = body.map Stmt.bare := by
  -- which token stands at a place of the one source decides which one of the other it becomes
  obtain ⟨other, hother⟩ := exists_assignment (scan source').endToken (nodup_pos_tokens source)
    (scan source').tokens (by rw [List.length_map, hakin.length_eq])
  rw [List.map_map] at hother
  rw [← hother, List.forall₂_map_right_iff, List.forall₂_same] at hakin
  have hitems := (items_of_program h).relaid (.onto other)
  rw [Relaying.tokens_onto hakin] at hitems
  have hparse : parse source' = .ok _ := parse_of_items (hother ▸ hitems)
  refine ⟨_, program_of_parse hparse hd, ?_⟩
  rw [List.map_map]
  exact List.map_congr_left fun s _ => s.bare_remark (Mark.bare_onto other)

end Source

end Treewalk
