import Treewalk.Proofs.Scan.Cut
import Treewalk.Proofs.Scan.Glyphs
import Treewalk.Proofs.Scan.Shapes

/-!
# Tokens on both sides of a line feed

No token goes past a line feed, and what stands behind it has no say in the tokens before it. So
glyphs with a line feed between them yield the tokens of the first part and then those of the
second, and the same diagnostics, in the same order.

Behind the line feed there is something to see to. The line feed is one more space there: the gap of
the first lexeme grows. A gap is looked at for one purpose, to tell whether the fault of the first
glyph has been noted already. The second part alone notes that fault at its opening, so both ways to
note it give the same list.

## Main definitions

* `tokensOf`, `notesOf`, the tokens and the diagnostics of glyphs
* `Lexeme.report`, what a lexeme adds to both
* `Token.below`, `Lexeme.below`, the same some lines further down

## Main results

* `tokensOf_newline`, `notesOf_newline`: the two sides of a line feed
* `tokensOf_below`, `notesOf_below`: glyphs further down
* `Source.tokens_append`, `Source.diagnostics_append`: two sources in one

## Implementation notes

Tokens and diagnostics are treated by one lemma on lexemes. `Lexeme.report` is what a lexeme adds to
both, and it is the same for a lexeme with a longer gap once the fault of its first glyph is taken
care of. The equation for diagnostics therefore has the opening on both sides; without it the
induction would not go through, since a part in the middle of a source has been looked into by the
lexeme before it.
-/

namespace Treewalk

/-! ## Lexemes -/

/-- The tokens of glyphs. -/
def tokensOf (gs : List Glyph) : List Token :=
  (lexemes gs).map Lexeme.token

/-- The diagnostics of glyphs. -/
def notesOf (gs : List Glyph) : List Diagnostic :=
  (gs.take 1).filterMap Glyph.fault ++ (lexemes gs).flatMap Lexeme.notes

theorem scan_tokens (source : List UInt8) : (scan source).tokens = tokensOf (glyphs source) := rfl

theorem scan_diagnostics (source : List UInt8) :
    (scan source).diagnostics = notesOf (glyphs source) := by
  rw [Scan.diagnostics, Scan.notesThrough, List.take_length]
  rfl

/-- What a lexeme adds to the tokens and to the diagnostics. -/
def Lexeme.report (l : Lexeme) : Token × List Diagnostic :=
  (l.token, l.notes)

theorem tokensOf_eq_map_report (gs : List Glyph) :
    tokensOf gs = ((lexemes gs).map Lexeme.report).map Prod.fst := by
  rw [List.map_map]
  rfl

theorem flatMap_notes_eq_report (ls : List Lexeme) :
    ls.flatMap Lexeme.notes = (ls.map Lexeme.report).flatMap Prod.snd := by
  rw [List.flatMap_map]
  rfl

theorem shapeOf_size_le (g : Glyph) (rest : List Glyph) :
    (shapeOf g rest).size ≤ (g :: rest).length := by
  have h := shapeAt_size_le g.char (rest.map Glyph.char)
  rwa [List.length_map] at h

/-- The diagnostics of a lexeme but for the fault of its first glyph. -/
def Lexeme.laterNotes (l : Lexeme) : List Diagnostic :=
  l.illegal ++ ((l.run.drop 1 ++ l.next.toList).filterMap Glyph.fault
    ++ l.problem.toList.map fun problem => ⟨l.finish, problem⟩)

theorem notes_lexemeAt (gap : List Glyph) (g : Glyph) (rest : List Glyph) :
    (lexemeAt gap g rest).notes =
      (if gap.isEmpty then [] else [g].filterMap Glyph.fault) ++
        (lexemeAt [] g rest).laterNotes := by
  have hfirst : (lexemeAt gap g rest).run.take 1 = [g] := by
    obtain ⟨more, hrun⟩ := exists_run_lexemeAt gap g rest
    rw [hrun]
    rfl
  rw [Lexeme.notes, hfirst, List.append_assoc, List.append_assoc]
  rfl

/-- The fault of the first glyph of a lexeme is noted once, be it before the lexeme or with it. -/
theorem notesOf_token {gap : List Glyph} (hgap : ∀ g ∈ gap, isSpace g.char = true)
    (hfaults : ∀ g ∈ gap, g.fault = none) {g : Glyph} (hg : isSpace g.char = false)
    (rest : List Glyph) :
    notesOf (gap ++ g :: rest) =
      [g].filterMap Glyph.fault ++ (lexemeAt [] g rest).laterNotes ++
        (lexemes ((g :: rest).drop (shapeOf g rest).size)).flatMap Lexeme.notes := by
  rw [notesOf, lexemes_token hgap hg, List.flatMap_cons, notes_lexemeAt, ← List.append_assoc,
    ← List.append_assoc]
  cases gap with
  | nil => simp
  | cons s gap => simp [hfaults s List.mem_cons_self]

/-- Of a gap only matters whether there is one. -/
theorem report_lexemeAt_gap {gap gap' : List Glyph} (h : gap.isEmpty = gap'.isEmpty) (g : Glyph)
    (rest : List Glyph) : (lexemeAt gap g rest).report = (lexemeAt gap' g rest).report := by
  rw [Lexeme.report, Lexeme.report, notes_lexemeAt, notes_lexemeAt, h]
  rfl

section

variable {nl : Glyph} (hchar : nl.char = '\n') (hfault : nl.fault = none)
include hchar

theorem shapeOf_newline (g : Glyph) (rest hs : List Glyph) :
    shapeOf g (rest ++ nl :: hs) = shapeOf g rest := by
  rw [shapeOf, List.map_append, List.map_cons, hchar]
  exact shapeAt_newline _ _ _

/-- More spaces before a line feed make no difference. -/
theorem map_report_lexemes_spaces {gap : List Glyph} (hgap : ∀ g ∈ gap, isSpace g.char = true)
    (hs : List Glyph) :
    (lexemes (gap ++ nl :: hs)).map Lexeme.report = (lexemes (nl :: hs)).map Lexeme.report := by
  have hnl : isSpace nl.char = true := by rw [hchar]; rfl
  induction hs using cutInduction with
  | spaces gap' hgap' =>
    have hboth : ∀ g ∈ nl :: gap', isSpace g.char = true := List.forall_mem_cons.mpr ⟨hnl, hgap'⟩
    rw [lexemes_spaces (List.forall_mem_append.mpr ⟨hgap, hboth⟩), lexemes_spaces hboth]
  | token gap' g rest hgap' hg _ =>
    have hboth : ∀ g ∈ nl :: gap', isSpace g.char = true := List.forall_mem_cons.mpr ⟨hnl, hgap'⟩
    have hempty : (gap ++ nl :: gap').isEmpty = (nl :: gap').isEmpty := by simp
    rw [← List.cons_append, ← List.append_assoc,
      lexemes_token (List.forall_mem_append.mpr ⟨hgap, hboth⟩) hg, lexemes_token hboth hg,
      List.map_cons, List.map_cons, report_lexemeAt_gap hempty]

include hfault

/-- A lexeme before a line feed is what it would be at the end. -/
theorem report_lexemeAt_newline (gap : List Glyph) (g : Glyph) (rest hs : List Glyph) :
    (lexemeAt gap g (rest ++ nl :: hs)).report = (lexemeAt gap g rest).report := by
  rw [lexemeAt, lexemeAt, shapeOf_newline hchar, ← List.cons_append,
    List.take_append_of_le_length (shapeOf_size_le g rest),
    List.drop_append_of_le_length (shapeOf_size_le g rest)]
  cases (g :: rest).drop (shapeOf g rest).size with
  | cons g' behind => rfl
  | nil =>
    -- The line feed comes into view behind the lexeme, but it has no fault to be noted.
    refine congrArg (Prod.mk _) ?_
    rw [Lexeme.notes, Lexeme.notes, List.filterMap_append, List.filterMap_append]
    have hnext : ((([] : List Glyph) ++ nl :: hs).head?.toList).filterMap Glyph.fault = [] := by
      simp [hfault]
    rw [hnext]
    rfl

theorem map_report_lexemes_newline (gs hs : List Glyph) :
    (lexemes (gs ++ nl :: hs)).map Lexeme.report =
      (lexemes gs).map Lexeme.report ++ (lexemes (nl :: hs)).map Lexeme.report := by
  induction gs using cutInduction with
  | spaces gap hgap =>
    rw [map_report_lexemes_spaces hchar hgap, lexemes_spaces hgap]
    rfl
  | token gap g rest hgap hg ih =>
    rw [List.append_assoc, List.cons_append, lexemes_token hgap hg, lexemes_token hgap hg,
      List.map_cons, List.map_cons, report_lexemeAt_newline hchar hfault, shapeOf_newline hchar,
      ← List.cons_append, List.drop_append_of_le_length (shapeOf_size_le g rest), ih]
    rfl

omit hfault in
theorem tokensOf_cons_newline (hs : List Glyph) : tokensOf (nl :: hs) = tokensOf hs := by
  have hnl : isSpace nl.char = true := by rw [hchar]; rfl
  induction hs using cutInduction with
  | spaces gap hgap =>
    rw [tokensOf, tokensOf, lexemes_spaces (List.forall_mem_cons.mpr ⟨hnl, hgap⟩),
      lexemes_spaces hgap]
  | token gap g rest hgap hg _ =>
    rw [tokensOf, tokensOf, ← List.cons_append,
      lexemes_token (List.forall_mem_cons.mpr ⟨hnl, hgap⟩) hg, lexemes_token hgap hg]
    rfl

omit hfault in
/-- What the opening of a source notes is noted behind a line feed by the first lexeme. -/
theorem flatMap_notes_cons_newline {hs : List Glyph}
    (hspaces : ∀ g ∈ hs, isSpace g.char = true → g.fault = none) :
    (lexemes (nl :: hs)).flatMap Lexeme.notes = notesOf hs := by
  have hnl : isSpace nl.char = true := by rw [hchar]; rfl
  induction hs using cutInduction with
  | spaces gap hgap =>
    have hopening : (gap.take 1).filterMap Glyph.fault = [] := by
      rw [List.filterMap_eq_nil_iff]
      intro g hg
      have hg := List.mem_of_mem_take hg
      exact hspaces g hg (hgap g hg)
    rw [notesOf, lexemes_spaces (List.forall_mem_cons.mpr ⟨hnl, hgap⟩), lexemes_spaces hgap,
      hopening]
    rfl
  | token gap g rest hgap hg _ =>
    have hfaults : ∀ g ∈ gap, g.fault = none :=
      fun g hg => hspaces g (List.mem_append_left _ hg) (hgap g hg)
    rw [notesOf_token hgap hfaults hg, ← List.cons_append,
      lexemes_token (List.forall_mem_cons.mpr ⟨hnl, hgap⟩) hg, List.flatMap_cons, notes_lexemeAt]
    rfl

theorem tokensOf_newline (gs hs : List Glyph) :
    tokensOf (gs ++ nl :: hs) = tokensOf gs ++ tokensOf hs := by
  rw [tokensOf_eq_map_report, map_report_lexemes_newline hchar hfault, List.map_append,
    ← tokensOf_eq_map_report, ← tokensOf_eq_map_report, tokensOf_cons_newline hchar]

theorem notesOf_newline (gs : List Glyph) {hs : List Glyph}
    (hspaces : ∀ g ∈ hs, isSpace g.char = true → g.fault = none) :
    notesOf (gs ++ nl :: hs) = notesOf gs ++ notesOf hs := by
  have hopening : ((gs ++ nl :: hs).take 1).filterMap Glyph.fault =
      (gs.take 1).filterMap Glyph.fault := by
    cases gs with
    | nil => simp [hfault]
    | cons g gs => rfl
  rw [notesOf, hopening, flatMap_notes_eq_report, map_report_lexemes_newline hchar hfault,
    List.flatMap_append, ← flatMap_notes_eq_report, ← flatMap_notes_eq_report,
    flatMap_notes_cons_newline hchar hspaces, ← List.append_assoc]
  rfl

end

/-! ## Further down -/

/-- A token some lines further down. -/
def Token.below (n : Nat) (t : Token) : Token :=
  { t with pos := t.pos.below n }

/-- A report some lines further down. -/
def belowReport (n : Nat) (report : Token × List Diagnostic) : Token × List Diagnostic :=
  (report.1.below n, report.2.map (Diagnostic.below n))

section

variable (n : Nat)

theorem filterMap_fault_below (gs : List Glyph) :
    (gs.map (Glyph.below n)).filterMap Glyph.fault =
      (gs.filterMap Glyph.fault).map (Diagnostic.below n) := by
  rw [List.filterMap_map, List.map_filterMap]
  rfl

theorem shapeOf_below (g : Glyph) (rest : List Glyph) :
    shapeOf (g.below n) (rest.map (Glyph.below n)) = shapeOf g rest := by
  rw [shapeOf, List.map_map]
  rfl

theorem finish_below {gs : List Glyph} (h : gs ≠ []) :
    finish (gs.map (Glyph.below n)) = (finish gs).below n := by
  rw [finish, finish, List.getLast?_map, List.getLast?_eq_some_getLast h]
  exact Pos.after_below n _ _

/-- A lexeme some lines further down. -/
def Lexeme.below (l : Lexeme) : Lexeme :=
  { l with
    gap := l.gap.map (Glyph.below n)
    run := l.run.map (Glyph.below n)
    next := l.next.map (Glyph.below n) }

theorem lexemeAt_below (gap : List Glyph) (g : Glyph) (rest : List Glyph) :
    lexemeAt (gap.map (Glyph.below n)) (g.below n) (rest.map (Glyph.below n)) =
      (lexemeAt gap g rest).below n := by
  rw [lexemeAt, lexemeAt, shapeOf_below, ← List.map_cons, ← List.map_take, ← List.map_drop,
    List.head?_map]
  rfl

theorem Lexeme.token_below {l : Lexeme} (h : l.run ≠ []) : (l.below n).token = l.token.below n := by
  have htext : (l.below n).text = l.text := by
    rw [text, bytes, below, List.flatMap_map]
    rfl
  have hpos : (l.below n).pos = l.pos.below n := by
    rw [pos, pos, below, List.head?_map]
    obtain ⟨g, more, hrun⟩ := List.exists_cons_of_ne_nil h
    rw [hrun]
    rfl
  rw [token, htext, hpos]
  rfl

omit n in
theorem Lexeme.illegal_of_run {l : Lexeme} {g : Glyph} {more : List Glyph} (h : l.run = g :: more) :
    l.illegal = if l.kind = .invalid ∧ g.fault.isNone then [⟨g.pos, .illegal g.char⟩] else [] := by
  rw [illegal, h]
  split
  · next hk heq =>
    obtain ⟨rfl, -⟩ := List.cons.inj heq
    simp [hk]
  · next hne => rw [if_neg fun ⟨hk, _⟩ => hne g more hk rfl]

theorem Lexeme.notes_below {l : Lexeme} (h : l.run ≠ []) :
    (l.below n).notes = l.notes.map (Diagnostic.below n) := by
  have hillegal : (l.below n).illegal = l.illegal.map (Diagnostic.below n) := by
    obtain ⟨g, more, hrun⟩ := List.exists_cons_of_ne_nil h
    have hrun' : (l.below n).run = g.below n :: more.map (Glyph.below n) := by
      rw [below, hrun, List.map_cons]
    have hfault : (g.below n).fault.isNone = g.fault.isNone := Option.isNone_map
    rw [illegal_of_run hrun, illegal_of_run hrun', hfault, apply_ite (List.map _)]
    rfl
  have hopening : (l.below n).run.take 1 = (l.run.take 1).map (Glyph.below n) := List.map_take.symm
  have hlater : (l.below n).run.drop 1 ++ (l.below n).next.toList =
      (l.run.drop 1 ++ l.next.toList).map (Glyph.below n) := by
    rw [List.map_append, List.map_drop, below]
    cases l.next <;> rfl
  have hfinish : (l.below n).finish = l.finish.below n := finish_below n h
  have hgap : (l.below n).gap.isEmpty = l.gap.isEmpty := List.isEmpty_map
  rw [notes, notes, hillegal, hopening, hlater, hfinish, hgap, filterMap_fault_below,
    filterMap_fault_below, List.map_append, List.map_append, List.map_append, List.map_map]
  split <;> rfl

theorem report_lexemeAt_below (gap : List Glyph) (g : Glyph) (rest : List Glyph) :
    (lexemeAt (gap.map (Glyph.below n)) (g.below n) (rest.map (Glyph.below n))).report =
      belowReport n (lexemeAt gap g rest).report := by
  have hrun : (lexemeAt gap g rest).run ≠ [] := by
    obtain ⟨more, hrun⟩ := exists_run_lexemeAt gap g rest
    rw [hrun]
    exact List.cons_ne_nil _ _
  rw [lexemeAt_below, Lexeme.report, Lexeme.token_below n hrun, Lexeme.notes_below n hrun]
  rfl

theorem map_report_lexemes_below (gs : List Glyph) :
    (lexemes (gs.map (Glyph.below n))).map Lexeme.report =
      ((lexemes gs).map Lexeme.report).map (belowReport n) := by
  induction gs using cutInduction with
  | spaces gap hgap =>
    rw [lexemes_spaces hgap, lexemes_spaces (by simpa using hgap)]
    rfl
  | token gap g rest hgap hg ih =>
    have hgap' : ∀ g ∈ gap.map (Glyph.below n), isSpace g.char = true := by simpa using hgap
    have hg' : isSpace (g.below n).char = false := hg
    rw [List.map_append, List.map_cons, lexemes_token hgap hg, lexemes_token hgap' hg',
      List.map_cons, List.map_cons, List.map_cons, ← ih, shapeOf_below, report_lexemeAt_below,
      List.map_drop, List.map_cons]

theorem tokensOf_below (gs : List Glyph) :
    tokensOf (gs.map (Glyph.below n)) = (tokensOf gs).map (Token.below n) := by
  rw [tokensOf_eq_map_report, map_report_lexemes_below, tokensOf_eq_map_report, List.map_map,
    List.map_map (g := Token.below n)]
  rfl

theorem notesOf_below (gs : List Glyph) :
    notesOf (gs.map (Glyph.below n)) = (notesOf gs).map (Diagnostic.below n) := by
  rw [notesOf, notesOf, flatMap_notes_eq_report, map_report_lexemes_below, flatMap_notes_eq_report,
    List.map_append, ← List.map_take, filterMap_fault_below, List.flatMap_map, List.map_flatMap]
  rfl

end

/-! ## Sources -/

/-- What is wrong with a glyph is never that it is a space. -/
theorem fault_of_isSpace {source : List UInt8} {g : Glyph} (h : g ∈ glyphs source)
    (hg : isSpace g.char = true) : g.fault = none := by
  have hne : ∀ c : Char, isSpace c = false → g.char ≠ c := by
    rintro c hc rfl
    exact absurd hg (by simp [hc])
  exact fault_eq_none h (hne _ (by decide)) (hne _ (by decide)) (hne _ (by decide))

namespace Source

variable (a : List UInt8) {b : List UInt8} (hb : ¬ markBytes <+: b)
include hb

/-- The tokens of two sources in one. Both are scanned on their own, because a token that ends at a
line feed would end there whatever follows. -/
theorem tokens_append :
    (scan (a ++ 0x0A :: b)).tokens =
      (scan a).tokens ++ (scan b).tokens.map (Token.below (a.count 0x0A + 1)) := by
  obtain ⟨p, hglyphs⟩ := glyphs_append_newline a hb
  rw [scan_tokens, scan_tokens, scan_tokens, hglyphs, tokensOf_newline rfl rfl, tokensOf_below]

/-- The diagnostics of two sources in one. -/
theorem diagnostics_append :
    (scan (a ++ 0x0A :: b)).diagnostics =
      (scan a).diagnostics ++ (scan b).diagnostics.map (Diagnostic.below (a.count 0x0A + 1)) := by
  obtain ⟨p, hglyphs⟩ := glyphs_append_newline a hb
  have hspaces : ∀ g ∈ (glyphs b).map (Glyph.below (a.count 0x0A + 1)),
      isSpace g.char = true → g.fault = none := by
    intro g hg hspace
    obtain ⟨g', hg', rfl⟩ := List.mem_map.mp hg
    rw [Glyph.below, fault_of_isSpace hg' hspace]
    rfl
  rw [scan_diagnostics, scan_diagnostics, scan_diagnostics, hglyphs,
    notesOf_newline rfl rfl _ hspaces, notesOf_below]

end Source

end Treewalk
