import Treewalk.Program
import Treewalk.Proofs.Grammar.Complete
import Treewalk.Proofs.Grammar.Sound
import Treewalk.Proofs.Scan.Shapes

/-!
# The parser and the grammar agree

Soundness and completeness of the readers, put together for a whole sequence of tokens and then for
a source. That a sequence derives one tree at most is not proved by looking at the rules: it follows
from completeness, because the parser gives one answer.

## Main results

* `Parse.program_exact`: the parser accepts what the grammar derives, gives the only tree, and
  reports a syntax error on everything else
* `Grammar.Items.unique`: a sequence derives at most one list of statements
* `Source.items_of_program`: an accepted source is derived from its tokens

## Implementation notes

The sequence of tokens is arbitrary, but for the end, which stands behind the others and only there.
No scan is assumed; what a scan makes is shown to be of this form, and this is all that is needed to
carry the result over to sources.

The third part excludes an error about the bound. Without it the statement could be satisfied by a
parser that gives up on long inputs, and exactness would say nothing about them.
-/

namespace Treewalk

open Grammar

theorem Grammar.program_iff_items {ts : List Token} {eof : Token} {body : List Stmt}
    (heof : eof.kind = .eof) : Program (ts ++ [eof]) body ↔ Items ts body := by
  constructor
  · intro h
    generalize hs : ts ++ [eof] = s at h
    cases h with
    | ended hb _ =>
      obtain ⟨rfl, -⟩ := List.append_inj' hs rfl
      exact hb
  · exact fun h => .ended h heof

namespace Parse

variable {ts : List Token} {eof : Token} {body : List Stmt}

theorem program_of_items (hts : ∀ t ∈ ts, t.kind ≠ .eof) (heof : eof.kind = .eof)
    (h : Items ts body) : ∃ r, program (.ofTokens ts eof) = .ok body r := by
  obtain ⟨r, hr, -⟩ := program_complete h _ (Reader.before_ofTokens heof hts)
  exact ⟨r, hr⟩

theorem items_of_program (hts : ∀ t ∈ ts, t.kind ≠ .eof) (heof : eof.kind = .eof) {r : Reader}
    (h : program (.ofTokens ts eof) = .ok body r) : Items ts body := by
  have hs := program_sound ts _ (Reader.before_ofTokens heof hts)
  rw [h] at hs
  obtain ⟨rest, hb, ⟨s, rfl, hi⟩, hk⟩ := hs
  cases rest with
  | nil => simpa using hi
  | cons t rest => exact absurd hk hb.kind_ne_eof

/-- A program that is read has been asked for to its last token. -/
theorem upcoming_of_program (hts : ∀ t ∈ ts, t.kind ≠ .eof) (heof : eof.kind = .eof) {r : Reader}
    (h : program (.ofTokens ts eof) = .ok body r) : r.upcoming = [] := by
  have hs := program_sound ts _ (Reader.before_ofTokens heof hts)
  rw [h] at hs
  obtain ⟨rest, hb, -, hk⟩ := hs
  cases rest with
  | nil => exact (List.append_eq_nil_iff.mp hb.unread).2
  | cons t rest => exact absurd hk hb.kind_ne_eof

theorem program_error_ne_tooDeep (hts : ∀ t ∈ ts, t.kind ≠ .eof) (heof : eof.kind = .eof)
    {e : Error} {r : Reader} (h : program (.ofTokens ts eof) = .error e r) :
    e.cause ≠ .tooDeep := by
  have hs := program_sound ts _ (Reader.before_ofTokens heof hts)
  rwa [h] at hs

end Parse

/-- A sequence derives at most one list of statements. The parser settles it: it accepts what
derives and gives what is derived, and it gives one thing. -/
theorem Grammar.Items.unique {ts : List Token} {body body' : List Stmt}
    (hts : ∀ t ∈ ts, t.kind ≠ .eof) (h : Items ts body) (h' : Items ts body') : body = body' := by
  have heof : (Token.endOfSource .start).kind = .eof := rfl
  obtain ⟨r, hr⟩ := Parse.program_of_items hts heof h
  obtain ⟨r', hr'⟩ := Parse.program_of_items hts heof h'
  rw [hr] at hr'
  exact (EStateM.Result.ok.inj hr').1

/-- **Exactness.** On a sequence of tokens that has its end where it ends, the parser gives the
statements that the grammar derives from it; no sequence derives two lists of statements; and where
nothing is derived the parser reports a syntax error, which is never one about its own bound. -/
theorem Parse.program_exact {ts : List Token} {eof : Token} (hts : ∀ t ∈ ts, t.kind ≠ .eof)
    (heof : eof.kind = .eof) :
    (∀ body, (∃ r, Parse.program (.ofTokens ts eof) = .ok body r) ↔ Program (ts ++ [eof]) body) ∧
      (∀ body body', Program (ts ++ [eof]) body → Program (ts ++ [eof]) body' → body = body') ∧
      ((¬ ∃ body, Program (ts ++ [eof]) body) →
        ∃ e r, Parse.program (.ofTokens ts eof) = .error e r ∧ e.cause ≠ .tooDeep) := by
  have hiff : ∀ body,
      (∃ r, Parse.program (.ofTokens ts eof) = .ok body r) ↔ Program (ts ++ [eof]) body := by
    intro body
    rw [program_iff_items heof]
    exact ⟨fun ⟨_, hr⟩ => Parse.items_of_program hts heof hr, Parse.program_of_items hts heof⟩
  refine ⟨hiff, fun body body' h h' => ?_, fun hnone => ?_⟩
  · exact ((program_iff_items heof).mp h).unique hts ((program_iff_items heof).mp h')
  · cases hp : Parse.program (.ofTokens ts eof) with
    | ok body r => exact absurd ⟨body, (hiff body).mp ⟨r, hp⟩⟩ hnone
    | error e r => exact ⟨e, r, rfl, Parse.program_error_ne_tooDeep hts heof hp⟩

/-- The parser reads `x = -y;`. -/
theorem Parse.program_exact_assign :
    ∃ r, Parse.program (.ofTokens
        [⟨.ident, "x", ⟨1, 1⟩⟩, ⟨.assign, "=", ⟨1, 3⟩⟩, ⟨.minus, "-", ⟨1, 5⟩⟩,
          ⟨.ident, "y", ⟨1, 6⟩⟩, ⟨.semicolon, ";", ⟨1, 7⟩⟩] (.endOfSource ⟨1, 8⟩)) =
      .ok [.assign (.place 1 1) "x" (.unary (.place 1 5) ⟨.minus, "-"⟩ (.var (.place 1 6) "y"))]
        r := by
  refine ((Parse.program_exact (by decide) rfl).1 _).mpr ?_
  have hy : Unary [⟨.minus, "-", ⟨1, 5⟩⟩, ⟨.ident, "y", ⟨1, 6⟩⟩] _ :=
    .signed (.inl rfl) (.var rfl)
  have he := Expression.level (.single (.single (.single (.single (.single (.unary hy))))))
  exact .ended (.stmt (.assign rfl rfl he rfl) .nil) rfl

/-! ## Sources

The end is no shape of characters, so it is behind the tokens of a source and nowhere else. -/

/-- A table without the end leads to no end. -/
theorem lookup_ne_eof {α : Type} [BEq α] [LawfulBEq α] {table : List (α × Kind)}
    (h : ∀ entry ∈ table, entry.2 ≠ .eof) {a : α} {k : Kind} (hk : table.lookup a = some k) :
    k ≠ .eof := by
  obtain ⟨before, after, rfl, -⟩ := List.lookup_eq_some_iff.mp hk
  exact h (a, k) (by simp)

theorem Kind.ofWord_ne_eof (word : String) : Kind.ofWord word ≠ .eof := by
  rw [Kind.ofWord]
  cases h : Kind.reserved.lookup word with
  | none => decide
  | some k => exact lookup_ne_eof (by decide) h

namespace Shape

theorem exponent_kind_ne_eof {kind : Kind} (h : kind ≠ .eof) (size : Nat) (cs : List Char) :
    (exponent kind size cs).kind ≠ .eof := by
  unfold exponent
  split
  · exact h
  · split
    · exact Kind.noConfusion
    · exact h

theorem number_kind_ne_eof (c : Char) (cs : List Char) : (number c cs).kind ≠ .eof := by
  rw [number]
  split
  · exact Kind.noConfusion
  · unfold decimal
    simp only
    split
    · split
      · exact Kind.noConfusion
      · exact exponent_kind_ne_eof (by decide) _ _
    · exact exponent_kind_ne_eof (by decide) _ _

theorem operator_kind_ne_eof (c : Char) (cs : List Char) : (operator c cs).kind ≠ .eof := by
  rw [operator]
  split
  · next hk =>
    obtain ⟨d, -, hd⟩ := Option.bind_eq_some_iff.mp hk
    exact lookup_ne_eof (by decide) hd
  · cases hk : signKind? c with
    | none => exact Kind.noConfusion
    | some k => exact lookup_ne_eof (by decide) hk

end Shape

theorem shapeAt_kind_ne_eof (c : Char) (cs : List Char) : (shapeAt c cs).kind ≠ .eof := by
  rw [shapeAt]
  split
  · exact Kind.ofWord_ne_eof _
  split
  · exact Shape.number_kind_ne_eof c cs
  split
  · simp [Shape.stringLiteral_kind]
  split
  · simp [Shape.charLiteral_kind]
  split
  · exact Kind.noConfusion
  · exact Shape.operator_kind_ne_eof c cs

theorem slotsFrom_kind_ne_eof (gap n : Nat) (cs : List Char) :
    ∀ slot ∈ slotsFrom gap n cs, slot.shape.kind ≠ .eof := by
  fun_induction slotsFrom gap n cs with
  | case1 => simp
  | case2 gap n c cs ih => exact ih
  | case3 gap c cs _ ih => exact ih
  | case4 gap c cs _ shape ih =>
    rw [List.forall_mem_cons]
    exact ⟨shapeAt_kind_ne_eof c cs, ih⟩

theorem fill_kind_ne_eof {ss : List Slot} (h : ∀ slot ∈ ss, slot.shape.kind ≠ .eof)
    (gs : List Glyph) : ∀ l ∈ fill ss gs, l.kind ≠ .eof := by
  induction ss generalizing gs with
  | nil => simp [fill]
  | cons slot more ih =>
    rw [List.forall_mem_cons] at h
    rw [fill, List.forall_mem_cons]
    exact ⟨h.1, ih h.2 _⟩

/-- No token of a source is an end. -/
theorem scan_tokens_kind_ne_eof (source : List UInt8) :
    ∀ t ∈ (scan source).tokens, t.kind ≠ .eof := by
  intro t ht
  obtain ⟨l, hl, rfl⟩ := List.mem_map.mp ht
  exact fill_kind_ne_eof (slotsFrom_kind_ne_eof 0 0 _) _ l hl

/-- A source that parses is derived from its tokens. -/
theorem Source.items_of_parse {source : List UInt8} {body : List Stmt}
    (h : Source.parse source = .ok body) : Items (scan source).tokens body := by
  rw [Source.parse, Source.read] at h
  simp only [Source.reader] at h
  split at h
  · next hp =>
    obtain rfl := Except.ok.inj h
    exact Parse.items_of_program (scan_tokens_kind_ne_eof source) rfl hp
  · exact absurd h (by simp)

/-- A source parses as what is derived from its tokens. -/
theorem Source.parse_of_items {source : List UInt8} {body : List Stmt}
    (h : Items (scan source).tokens body) : Source.parse source = .ok body := by
  have heof : (scan source).endToken.kind = .eof := rfl
  obtain ⟨r, hr⟩ := Parse.program_of_items (scan_tokens_kind_ne_eof source) heof h
  rw [Source.parse, Source.read]
  simp only [Source.reader, hr]

/-- A source that parses and has no diagnostics is accepted. -/
theorem Source.program_of_parse {source : List UInt8} {body : List Stmt}
    (h : Source.parse source = .ok body) (hd : (scan source).diagnostics = []) :
    Source.program source = .ok body := by
  have hnotes : ∀ n, (scan source).notesThrough n = [] := by
    intro n
    rw [Scan.diagnostics, Scan.notesThrough, List.take_length, List.append_eq_nil_iff,
      List.flatMap_eq_nil_iff] at hd
    rw [Scan.notesThrough, List.append_eq_nil_iff, List.flatMap_eq_nil_iff]
    exact ⟨hd.1, fun l hl => hd.2 l (List.mem_of_mem_take hl)⟩
  have hread : (Source.read source).notes = [] := by
    rw [Source.read]
    split <;> exact hnotes _
  rw [Source.parse] at h
  rw [Source.program, Source.Reading.accepted, h, hread]

theorem Source.parse_of_program {source : List UInt8} {body : List Stmt}
    (h : Source.program source = .ok body) : Source.parse source = .ok body := by
  rw [Source.program, Source.Reading.accepted] at h
  split at h
  · exact absurd h (by simp)
  · exact absurd h (by simp)
  · next hr _ => rw [Source.parse, hr, Except.ok.inj h]

/-- Nothing has been noted about a source that is accepted. -/
theorem Source.diagnostics_of_program {source : List UInt8} {body : List Stmt}
    (h : Source.program source = .ok body) : (scan source).diagnostics = [] := by
  rw [Source.program, Source.Reading.accepted] at h
  split at h
  · cases h
  · cases h
  next hresult hnotes =>
  rw [Source.read] at hresult hnotes
  simp only [Source.reader] at hresult hnotes
  split at hresult
  · next r hp =>
    have hdone := Parse.upcoming_of_program (scan_tokens_kind_ne_eof source) rfl hp
    simp only [hp] at hnotes
    rwa [Source.notesAt, hdone] at hnotes
  · cases hresult

/-- A source that is accepted is derived from its tokens. -/
theorem Source.items_of_program {source : List UInt8} {body : List Stmt}
    (h : Source.program source = .ok body) : Items (scan source).tokens body :=
  items_of_parse (parse_of_program h)

end Treewalk
