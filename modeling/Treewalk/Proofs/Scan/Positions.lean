import Mathlib.Data.List.DropRight
import Treewalk.Proofs.Scan.Faults
import Treewalk.Proofs.Scan.Lossless

/-!
# Positions are exact

A scan counts lines and columns as it goes, from the character that it leaves. Here a position is
read off the bytes instead: `posAt` counts line feeds before an offset and decoding steps since the
start of the line, and knows nothing of glyphs or tokens. Both agree at every boundary between two
steps (`past_eq_posAt`), so glyphs, tokens and the end stand where their first bytes do.

Faults of decoding are noted at the place of their byte, with one exception. The scan looks at the
character behind a byte order mark while the mark still counts as a column, and it is only then that
the column is set right; so a fault of that character is noted one column too far.

## Main definitions

* `Utf8.offsets`, the offsets at which steps start
* `Source.posAt`, the position of an offset, with `Source.lineStart` and `Source.stepsBetween`
* `Source.faults`, the faulty steps of a source, and `Source.notedAt`, where they are noted

## Main results

* `Source.past_eq_posAt`: the place behind some steps is that of the offset behind them
* `Source.position_exact`: lines and columns of tokens
* `Source.decoding_noted`: the places of the diagnostics of decoding

## Implementation notes

`posAt` is a function of the source and an offset, and uses the decoding steps of the whole source.
It does not decode from the start of the line, although this would come to the same, so that there
is no question in which state decoding is there.

A byte order mark shifts offsets and not columns. It is passed by `markSize` at the front and is in
the definition of `lineStart` for the first line, and there only.

The place where a fault is noted is given by `notedAt`, with the exception written into it. That it
is an exception, and not another reading of the same rule, is the last part of `decoding_noted`: the
diagnostics are at the places of their bytes exactly if no fault stands right behind a mark.
-/

namespace Treewalk

/-! ## Steps and their offsets -/

namespace Utf8

/-- The number of bytes that steps take. -/
def extent (steps : List Step) : Nat :=
  (steps.flatMap Step.bytes).length

theorem extent_cons (step : Step) (steps : List Step) :
    extent (step :: steps) = step.bytes.length + extent steps :=
  List.length_append

theorem extent_append (a b : List Step) : extent (a ++ b) = extent a + extent b := by
  rw [extent, List.flatMap_append, List.length_append]
  rfl

/-- The offsets at which steps start, if the first starts at a given one. -/
def offsets : Nat → List Step → List Nat
  | _, [] => []
  | offset, step :: rest => offset :: offsets (offset + step.bytes.length) rest

@[simp] theorem length_offsets (offset : Nat) (steps : List Step) :
    (offsets offset steps).length = steps.length := by
  induction steps generalizing offset with
  | nil => rfl
  | cons step rest ih => rw [offsets, List.length_cons, List.length_cons, ih]

theorem offsets_append (offset : Nat) (a b : List Step) :
    offsets offset (a ++ b) = offsets offset a ++ offsets (offset + extent a) b := by
  induction a generalizing offset with
  | nil => rfl
  | cons step a ih =>
    rw [List.cons_append, offsets, offsets, ih, extent_cons, Nat.add_assoc]
    rfl

theorem Step.bytes_ne_nil {bytes : List UInt8} {step : Step} (h : step ∈ steps bytes) :
    step.bytes ≠ [] := by
  obtain ⟨b, rest, rfl⟩ := exists_stepAt h
  obtain ⟨n, -, hbytes⟩ := stepAt_bytes b rest
  rw [hbytes]
  exact List.cons_ne_nil _ _

theorem mem_offsets {steps : List Step} (hne : ∀ step ∈ steps, step.bytes ≠ []) {offset k : Nat}
    (h : k ∈ offsets offset steps) : offset ≤ k ∧ k < offset + extent steps := by
  induction steps generalizing offset with
  | nil => cases h
  | cons step rest ih =>
    rw [List.forall_mem_cons] at hne
    have hpos : 0 < step.bytes.length := List.length_pos_iff.mpr hne.1
    rw [extent_cons]
    obtain rfl | h := List.mem_cons.mp h
    · omega
    · have := ih hne.2 h
      omega

/-- A step over a line feed. -/
def Step.breaks (step : Step) : Bool :=
  step.char.getD replacement = '\n'

theorem Step.bytes_of_breaks {bytes : List UInt8} {step : Step} (h : step ∈ steps bytes)
    (hbreaks : step.breaks = true) : step.bytes = [0x0A] := by
  rw [breaks, decide_eq_true_eq] at hbreaks
  cases hc : step.char with
  | none =>
    rw [hc] at hbreaks
    exact absurd hbreaks (by decide)
  | some c =>
    rw [hc, Option.getD_some] at hbreaks
    rw [bytes_of_char h hc, hbreaks]
    rfl

theorem newline_notMem_of_unbroken {bytes : List UInt8} {s : List Step} (h : s ⊆ steps bytes)
    (hbreaks : ∀ step ∈ s, step.breaks = false) : (0x0A : UInt8) ∉ s.flatMap Step.bytes := by
  intro hmem
  obtain ⟨step, hstep, hmem⟩ := List.mem_flatMap.mp hmem
  have hcount := count_newline_step (h hstep)
  rw [if_neg (by simpa [Step.breaks] using hbreaks step hstep), List.count_eq_zero] at hcount
  exact hcount hmem

/-- The steps behind the last line feed, if there is one. -/
theorem unbroken_or_break (s : List Step) :
    (∀ step ∈ s, step.breaks = false) ∨
      ∃ front step back, s = front ++ step :: back ∧ step.breaks = true ∧
        ∀ step ∈ back, step.breaks = false := by
  induction s using List.reverseRecOn with
  | nil => exact .inl (by simp)
  | append_singleton s last ih =>
    cases hlast : last.breaks with
    | true => exact .inr ⟨s, last, [], rfl, hlast, by simp⟩
    | false =>
      have hlast' : ∀ step ∈ [last], step.breaks = false := by simpa using hlast
      obtain h | ⟨front, step, back, rfl, hstep, hback⟩ := ih
      · exact .inl (List.forall_mem_append.mpr ⟨h, hlast'⟩)
      · exact .inr ⟨front, step, back ++ [last], by simp, hstep,
          List.forall_mem_append.mpr ⟨hback, hlast'⟩⟩

end Utf8

theorem Pos.past_append (p : Pos) (a b : List Utf8.Step) :
    p.past (a ++ b) = (p.past a).past b :=
  List.foldl_append

/-- Without a line feed, every step takes one column. -/
theorem Pos.column_past (p : Pos) {s : List Utf8.Step} (h : ∀ step ∈ s, step.breaks = false) :
    (p.past s).column = p.column + s.length := by
  induction s generalizing p with
  | nil => rfl
  | cons step s ih =>
    rw [List.forall_mem_cons] at h
    have hne : step.char.getD Utf8.replacement ≠ '\n' := by simpa [Utf8.Step.breaks] using h.1
    change ((p.after (step.char.getD Utf8.replacement)).past s).column = _
    rw [after_of_ne hne, ih _ h.2, List.length_cons]
    change p.column + 1 + s.length = _
    omega

namespace Source

open Utf8

/-! ## The position of an offset -/

/-- The number of decoding steps that start in a stretch of the source. -/
def stepsBetween (source : List UInt8) (i j : Nat) : Nat :=
  (offsets 0 (steps source)).countP fun k => i ≤ k && k < j

/-- The offset behind the last line feed before an offset. On the first line it is the start of the
source, behind a byte order mark. -/
def lineStart (source : List UInt8) (b : Nat) : Nat :=
  max (markSize source) (b - ((source.take b).rtakeWhile (· ≠ 0x0A)).length)

/-- The line and the column of an offset: one more than the line feeds before it, and one more than
the decoding steps between the start of the line and it. -/
def posAt (source : List UInt8) (b : Nat) : Pos :=
  ⟨1 + (source.take b).count 0x0A, 1 + stepsBetween source (lineStart source b) b⟩

/-- A mark is one step of its own, and it holds no line feed. -/
theorem exists_lead (source : List UInt8) :
    ∃ lead, steps source = lead ++ steps (body source) ∧ extent lead = markSize source ∧
      (0x0A : UInt8) ∉ source.take (markSize source) := by
  by_cases hm : markBytes <+: source
  · obtain ⟨bytes, rfl⟩ := hm
    refine ⟨[⟨some byteOrderMark, markBytes⟩], ?_, ?_, ?_⟩
    · rw [steps_mark, body_of_mark]
      rfl
    · rw [markSize, if_pos (List.prefix_append _ _)]
      rfl
    · rw [markSize, if_pos (List.prefix_append _ _), List.take_left]
      decide
  · refine ⟨[], ?_, ?_, ?_⟩
    · rw [body_of_unmarked hm, List.nil_append]
    · rw [markSize, if_neg hm]
      rfl
    · rw [markSize, if_neg hm]
      simp

/-- Between two boundaries of steps there are the steps between them. -/
theorem stepsBetween_eq {source : List UInt8} {a b c : List Step} (h : steps source = a ++ b ++ c) :
    stepsBetween source (extent a) (extent (a ++ b)) = b.length := by
  have hne : ∀ step ∈ a ++ b ++ c, step.bytes ≠ [] := by
    rw [← h]
    exact fun step => Step.bytes_ne_nil
  simp only [List.forall_mem_append] at hne
  obtain ⟨⟨ha, hb⟩, hc⟩ := hne
  let within : Nat → Bool := fun k => extent a ≤ k && k < extent (a ++ b)
  have hbefore : (offsets 0 a).countP within = 0 := by
    refine List.countP_eq_zero.mpr fun k hk => ?_
    have := mem_offsets ha hk
    simp only [within, Bool.and_eq_true, decide_eq_true_eq]
    omega
  have hbetween : (offsets (extent a) b).countP within = b.length := by
    rw [← length_offsets (extent a) b, List.countP_eq_length]
    intro k hk
    have := mem_offsets hb hk
    simp only [within, Bool.and_eq_true, decide_eq_true_eq, extent_append]
    omega
  have hbehind : (offsets (extent (a ++ b)) c).countP within = 0 := by
    refine List.countP_eq_zero.mpr fun k hk => ?_
    have := mem_offsets hc hk
    simp only [within, Bool.and_eq_true, decide_eq_true_eq]
    omega
  change (offsets 0 (steps source)).countP within = b.length
  rw [h, offsets_append, offsets_append, List.countP_append, List.countP_append, Nat.zero_add,
    Nat.zero_add, hbefore, hbetween, hbehind, Nat.zero_add, Nat.add_zero]

theorem rtakeWhile_newline (front : List UInt8) {back : List UInt8} (h : (0x0A : UInt8) ∉ back) :
    (front ++ 0x0A :: back).rtakeWhile (· ≠ 0x0A) = back := by
  have hback : ∀ b ∈ back.reverse, decide (b ≠ 0x0A) = true := by
    intro b hb
    simp only [decide_eq_true_eq]
    rintro rfl
    exact h (List.mem_reverse.mp hb)
  rw [List.rtakeWhile, List.reverse_append, List.reverse_cons, List.append_assoc,
    List.takeWhile_append_of_pos hback]
  simp

section

variable {source : List UInt8} {pre post : List Step} (h : steps (body source) = pre ++ post)
include h

theorem take_markSize_add :
    source.take (markSize source + extent pre) =
      source.take (markSize source) ++ pre.flatMap Step.bytes := by
  have hbody : source.drop (markSize source) =
      pre.flatMap Step.bytes ++ post.flatMap Step.bytes := by
    rw [← List.flatMap_append, ← h, flatMap_bytes_steps]
    rfl
  rw [List.take_add, hbody, extent, List.take_left]

/-- The steps since the last line feed give the column, and they start where the line does. -/
theorem exists_line :
    ∃ front back, pre = front ++ back ∧ (Pos.start.past pre).column = 1 + back.length ∧
      lineStart source (markSize source + extent pre) = markSize source + extent front := by
  have hpre : pre ⊆ steps (body source) := by
    rw [h]
    exact List.subset_append_left _ _
  have htake := take_markSize_add h
  obtain ⟨lead, -, -, hlead⟩ := exists_lead source
  have hlength : (source.take (markSize source)).length = markSize source :=
    List.length_take_of_le (offset_le_length source 0)
  obtain hunbroken | ⟨front, step, back, rfl, hstep, hback⟩ := unbroken_or_break pre
  -- Without a line feed the bytes reach back to the start of the source, over the mark; hence the
  -- maximum in `lineStart`.
  · refine ⟨[], pre, rfl, Pos.column_past _ hunbroken, ?_⟩
    have hall : ∀ b ∈ source.take (markSize source) ++ pre.flatMap Step.bytes,
        decide (b ≠ 0x0A) = true := by
      intro b hb
      simp only [decide_eq_true_eq]
      rintro rfl
      obtain hb | hb := List.mem_append.mp hb
      · exact hlead hb
      · exact newline_notMem_of_unbroken hpre hunbroken hb
    rw [lineStart, htake, List.rtakeWhile_eq_self_iff.mpr hall, List.length_append, hlength]
    change max (markSize source) (markSize source + extent pre - (markSize source + extent pre)) = _
    rw [Nat.sub_self, Nat.max_zero]
    rfl
  · have hbytes : step.bytes = [0x0A] := Step.bytes_of_breaks (hpre (by simp)) hstep
    have hfree := newline_notMem_of_unbroken
      (fun step hstep => hpre (List.mem_append_right front (List.mem_cons_of_mem _ hstep))) hback
    refine ⟨front ++ [step], back, by simp, ?_, ?_⟩
    · have hchar : step.char.getD replacement = '\n' := by simpa [Step.breaks] using hstep
      rw [Pos.past_append]
      change (((Pos.start.past front).after (step.char.getD replacement)).past back).column = _
      rw [hchar, Pos.column_past _ hback]
      rfl
    · rw [lineStart, htake, List.flatMap_append, List.flatMap_cons, hbytes, ← List.append_assoc,
        List.singleton_append, rtakeWhile_newline _ hfree, extent_append, extent_append,
        extent_cons, extent_cons, hbytes]
      change max _ (markSize source + (extent front + (1 + extent back)) - extent back) =
        markSize source + (extent front + 1)
      omega

/-- The place behind some steps is that of the offset behind them. The one goes from glyph to glyph,
and the other is read off the bytes and knows of no glyphs. -/
theorem past_eq_posAt : Pos.start.past pre = posAt source (markSize source + extent pre) := by
  have htake := take_markSize_add h
  obtain ⟨lead, hsteps, hextent, hlead⟩ := exists_lead source
  obtain ⟨front, back, rfl, hcolumn, hstart⟩ := exists_line h
  have hbetween : stepsBetween source (markSize source + extent front)
      (markSize source + extent (front ++ back)) = back.length := by
    have hsplit : steps source = lead ++ front ++ back ++ post := by
      rw [hsteps, h, List.append_assoc, List.append_assoc, List.append_assoc]
    have hcount := stepsBetween_eq hsplit
    rwa [List.append_assoc, extent_append, extent_append, hextent] at hcount
  have hline : (Pos.start.past (front ++ back)).line =
      1 + (source.take (markSize source + extent (front ++ back))).count 0x0A := by
    rw [htake, List.count_append, List.count_eq_zero.mpr hlead, Nat.zero_add]
    have hmem : ∀ step ∈ front ++ back, step ∈ steps (body source) := by
      rw [h]
      exact fun step => List.mem_append_left _
    exact line_past .start fun step hstep => count_newline_step (hmem step hstep)
  rw [posAt, hstart, hbetween, ← hline, ← hcolumn]

end

/-! ## Glyphs and tokens -/

/-- Glyphs that are placed come from steps that can be parted as they are. -/
theorem place_eq_append {p : Pos} {s : List Step} {front back : List Glyph}
    (h : place p s = front ++ back) :
    ∃ pre post, s = pre ++ post ∧ front = place p pre ∧ back = place (p.past pre) post := by
  have hlength : front.length ≤ s.length := by
    rw [← length_place p s, h, List.length_append]
    exact Nat.le_add_right _ _
  have hsplit := (List.take_append_drop front.length s).symm
  refine ⟨s.take front.length, s.drop front.length, hsplit, ?_⟩
  rw [hsplit, place_append] at h
  refine List.append_inj h.symm ?_
  rw [length_place, List.length_take_of_le hlength]

/-- A glyph stands at the place of its first byte. -/
theorem pos_of_glyphs {source : List UInt8} {front rest : List Glyph} {g : Glyph}
    (h : glyphs source = front ++ g :: rest) :
    g.pos = posAt source (markSize source + (front.flatMap Glyph.bytes).length) := by
  let f := fun g : Glyph => (g.pos, g.bytes)
  have hmap := map_glyphs_place (f := f) (fun _ _ => rfl) source
  rw [h, List.map_append, List.map_cons, eq_comm, List.map_eq_append_iff] at hmap
  obtain ⟨front', back', hplace, hfront, hback⟩ := hmap
  obtain ⟨g', rest', rfl, hg, -⟩ := List.map_eq_cons_iff.mp hback
  obtain ⟨pre, post, hsteps, rfl, hpost⟩ := place_eq_append hplace
  have hpos : g.pos = Pos.start.past pre := by
    cases post with
    | nil => cases hpost
    | cons step post =>
      obtain ⟨rfl, -⟩ := List.cons.inj hpost
      exact (Prod.mk.inj hg).1.symm
  have hbytes : front.flatMap Glyph.bytes = pre.flatMap Step.bytes := by
    have hsnd := congrArg (List.flatMap Prod.snd) hfront
    rw [List.flatMap_map, List.flatMap_map] at hsnd
    exact hsnd.symm.trans (flatMap_bytes_place .start pre)
  rw [hpos, past_eq_posAt hsteps, hbytes]
  rfl

/-- The end stands at the place behind the last byte. -/
theorem finish_glyphs (source : List UInt8) :
    finish (glyphs source) = posAt source source.length := by
  have hfinish : ∀ gs, finish gs = ((gs.map Glyph.after).getLast?).getD .start := by
    intro gs
    rw [finish, List.getLast?_map]
    cases gs.getLast? <;> rfl
  have hplace : ∀ s, finish (place .start s) = Pos.start.past s := by
    intro s
    rcases List.eq_nil_or_concat s with rfl | ⟨s, step, rfl⟩
    · rfl
    · have hlast : place (Pos.start.past s) [step] = [glyphAt (Pos.start.past s) step] := rfl
      rw [List.concat_eq_append, place_append, Pos.past_append, hlast, finish,
        List.getLast?_concat]
      rfl
  have hlength : source.length = markSize source + extent (steps (body source)) := by
    have hbody := List.length_drop (i := markSize source) (l := source)
    have hle := offset_le_length source 0
    rw [extent, flatMap_bytes_steps]
    change markSize source ≤ source.length at hle
    change (body source).length = _ at hbody
    omega
  rw [hfinish, map_glyphs_place (fun _ _ => rfl), ← hfinish, hplace, hlength]
  exact past_eq_posAt (List.append_nil _).symm

/-- A token, the end included, stands at the place of its first byte. -/
theorem pos_token (source : List UInt8) (n : Nat) :
    (token source n).pos = posAt source (start source n) := by
  obtain ⟨rest, hcursor⟩ := exists_cursor source n
  induction rest using cutInduction with
  | spaces gap hgap =>
    obtain ⟨hdone, hstart, -⟩ := hcursor.spaces hgap
    rw [token_of_le source n hdone, hstart]
    exact finish_glyphs source
  | token gap g rest hgap hg _ =>
    obtain ⟨hget, -⟩ := hcursor.token hgap hg
    obtain ⟨front, hfront⟩ := hcursor.suffix
    have hstart : start source n =
        markSize source + ((front ++ gap).flatMap Glyph.bytes).length := by
      have hbehind := congrArg List.length (hcursor.drop_start hgap (by simpa using hg))
      have hall := congrArg List.length (flatMap_bytes_glyphs source)
      have hle := (start_le_offset_succ source n).trans (offset_le_length source (n + 1))
      have hle' : markSize source ≤ source.length := offset_le_length source 0
      change _ = (source.drop (markSize source)).length at hall
      rw [← hfront, ← List.append_assoc, List.flatMap_append, List.length_append,
        List.length_drop] at hall
      rw [List.length_drop] at hbehind
      omega
    obtain ⟨more, hrun⟩ := exists_run_lexemeAt gap g rest
    rw [token_of_getElem? source n hget, Lexeme.token, Lexeme.pos, hrun, hstart]
    exact pos_of_glyphs (by rw [← hfront, List.append_assoc])

/-- **Positions are exact.** The line of a token, the end included, is one more than the line feeds
before its first byte, and its column one more than the decoding steps since the start of the
line. -/
theorem position_exact (source : List UInt8) (n : Nat) :
    (token source n).pos.line = 1 + (source.take (start source n)).count 0x0A ∧
      (token source n).pos.column =
        1 + stepsBetween source (lineStart source (start source n)) (start source n) := by
  rw [pos_token]
  exact ⟨rfl, rfl⟩

-- A mark, a letter of two bytes and a line feed; then a byte that starts nothing, and a letter.
example : posAt [0xEF, 0xBB, 0xBF, 0xC3, 0xA9, 0x0A, 0xFF, 0x61] 5 = ⟨1, 2⟩ ∧
    posAt [0xEF, 0xBB, 0xBF, 0xC3, 0xA9, 0x0A, 0xFF, 0x61] 7 = ⟨2, 2⟩ := by decide

/-! ## Where faults are noted -/

/-- The faulty steps, if the first step starts at a given offset: the offset and the problem of
each. -/
def faultsFrom (offset : Nat) (s : List Step) : List (Nat × Problem) :=
  ((offsets offset s).zip s).filterMap fun entry => (stepFault entry.2).map (Prod.mk entry.1)

/-- The faulty steps of a source, behind a byte order mark at its start. -/
def faults (source : List UInt8) : List (Nat × Problem) :=
  faultsFrom (markSize source) (steps (body source))

theorem faultsFrom_cons (offset : Nat) (step : Step) (s : List Step) :
    faultsFrom offset (step :: s) =
      ((stepFault step).map (Prod.mk offset)).toList ++
        faultsFrom (offset + step.bytes.length) s := by
  rw [faultsFrom, offsets, List.zip_cons_cons, List.filterMap_cons]
  dsimp only
  cases stepFault step <;> rfl

theorem le_of_mem_faultsFrom {bytes : List UInt8} {offset : Nat} {s : List Step}
    (hs : s ⊆ steps bytes) {f : Nat × Problem} (h : f ∈ faultsFrom offset s) : offset ≤ f.1 := by
  obtain ⟨⟨b, step⟩, hmem, hf⟩ := List.mem_filterMap.mp h
  obtain ⟨problem, -, rfl⟩ := Option.map_eq_some_iff.mp hf
  exact (mem_offsets (fun step hstep => Step.bytes_ne_nil (hs hstep)) (List.of_mem_zip hmem).1).1

/-- As glyphs are placed, their faults are at the places of their first bytes. -/
theorem filterMap_fault_place {source : List UInt8} {pre post : List Step}
    (h : steps (body source) = pre ++ post) :
    (place (Pos.start.past pre) post).filterMap Glyph.fault =
      (faultsFrom (markSize source + extent pre) post).map fun f => ⟨posAt source f.1, f.2⟩ := by
  induction post generalizing pre with
  | nil => rfl
  | cons step post ih =>
    have hnext : (glyphAt (Pos.start.past pre) step).after = Pos.start.past (pre ++ [step]) := by
      rw [Pos.past_append]
      rfl
    have hextent : markSize source + extent pre + step.bytes.length =
        markSize source + extent (pre ++ [step]) := by
      rw [extent_append, extent_cons, Nat.add_assoc]
      rfl
    have hfault : (glyphAt (Pos.start.past pre) step).fault =
        (stepFault step).map fun problem =>
          ⟨posAt source (markSize source + extent pre), problem⟩ := by
      rw [← past_eq_posAt h]
      rfl
    rw [place, List.filterMap_cons, faultsFrom_cons, hnext, ih (by simpa using h), hextent, hfault]
    cases stepFault step <;> rfl

/-- Where the fault of a step is noted: at its place, except right behind the mark. -/
def notedAt (source : List UInt8) (b : Nat) : Pos :=
  if markBytes <+: source ∧ b = markSize source then ⟨1, 2⟩ else posAt source b

/-- The start of the text has the first position. -/
theorem posAt_markSize (source : List UInt8) : posAt source (markSize source) = .start :=
  (past_eq_posAt (List.nil_append (steps (body source))).symm).symm

/-- Only the fault of the first glyph can be noted elsewhere than at its place. -/
theorem glyphs_of_steps {source : List UInt8} {step : Step} {s : List Step}
    (h : steps (body source) = step :: s) :
    ∃ g, glyphs source = g :: place (Pos.start.past [step]) s ∧
      g.fault = (stepFault step).map fun problem =>
        ⟨notedAt source (markSize source), problem⟩ := by
  by_cases hm : markBytes <+: source
  · have hnoted : notedAt source (markSize source) = ⟨1, 2⟩ := if_pos ⟨hm, rfl⟩
    obtain ⟨bytes, rfl⟩ := hm
    rw [body_of_mark] at h
    refine ⟨(glyphAt .start step).noteAt ⟨1, 2⟩, ?_, ?_⟩
    · rw [glyphs_of_mark, h]
      rfl
    · rw [hnoted, Glyph.noteAt, glyphAt, Option.map_map]
      rfl
  · have hnoted : notedAt source (markSize source) = .start :=
      (if_neg fun h => hm h.1).trans (posAt_markSize source)
    rw [body_of_unmarked hm] at h
    refine ⟨glyphAt .start step, ?_, ?_⟩
    · rw [glyphs_of_unmarked hm, h]
      rfl
    · rw [hnoted]
      rfl

theorem filterMap_fault_glyphs (source : List UInt8) :
    (glyphs source).filterMap Glyph.fault =
      (faults source).map fun f => ⟨notedAt source f.1, f.2⟩ := by
  cases hsteps : steps (body source) with
  | nil =>
    have hnone : glyphs source = [] := by
      rw [← List.map_eq_nil_iff (f := Glyph.char), map_char_glyphs, hsteps]
      rfl
    rw [hnone, faults, hsteps]
    rfl
  | cons step s =>
    obtain ⟨g, hglyphs, hg⟩ := glyphs_of_steps hsteps
    have hs : s ⊆ steps (body source) := hsteps ▸ List.subset_cons_self step s
    have hpos : 0 < step.bytes.length :=
      List.length_pos_iff.mpr (Step.bytes_ne_nil (hsteps ▸ List.mem_cons_self))
    -- Behind the first step, faults are noted where they are.
    have hlater : (place (Pos.start.past [step]) s).filterMap Glyph.fault =
        (faultsFrom (markSize source + step.bytes.length) s).map
          fun f => ⟨notedAt source f.1, f.2⟩ := by
      have hsplit : steps (body source) = [step] ++ s := hsteps
      rw [filterMap_fault_place hsplit, extent_cons]
      refine List.map_congr_left fun f hf => ?_
      have hle : markSize source + step.bytes.length ≤ f.1 := le_of_mem_faultsFrom hs hf
      rw [notedAt, if_neg (by omega)]
    rw [hglyphs, List.filterMap_cons, hg, hlater, faults, hsteps, faultsFrom_cons, List.map_append]
    cases stepFault step <;> rfl

/-- **Where decoding is blamed.** The diagnostics of decoding are noted at the places of the bytes
that they are about, and so at the places of the tokens that start with these bytes, unless such a
byte stands right behind a byte order mark. In that case, and in no other, they are not. -/
theorem decoding_noted (source : List UInt8) :
    (scan source).diagnostics.filter (fun d => d.problem.isDecoding) =
        (faults source).map (fun f => ⟨notedAt source f.1, f.2⟩) ∧
      (∀ n problem, (start source n, problem) ∈ faults source →
        ¬ (markBytes <+: source ∧ start source n = markSize source) →
          ⟨(token source n).pos, problem⟩ ∈ (scan source).diagnostics) ∧
      ((scan source).diagnostics.filter (fun d => d.problem.isDecoding) =
          (faults source).map (fun f => ⟨posAt source f.1, f.2⟩) ↔
        ¬ (markBytes <+: source ∧ ∃ problem, (markSize source, problem) ∈ faults source)) := by
  have hnotes := filter_isDecoding_diagnostics source
  rw [filterMap_fault_glyphs] at hnotes
  refine ⟨hnotes, ?_, ?_⟩
  · intro n problem hmem hmark
    have hnoted := List.mem_map_of_mem (f := fun f => (⟨notedAt source f.1, f.2⟩ : Diagnostic)) hmem
    rw [← hnotes, notedAt, if_neg hmark, ← pos_token] at hnoted
    exact List.mem_of_mem_filter hnoted
  rw [hnotes, List.map_inj_left]
  constructor
  · rintro h ⟨hm, problem, hmem⟩
    have hpos := congrArg Diagnostic.pos (h _ hmem)
    dsimp only at hpos
    rw [notedAt, if_pos ⟨hm, rfl⟩, posAt_markSize] at hpos
    cases hpos
  · intro h f hf
    rw [notedAt, if_neg]
    rintro ⟨hm, hb⟩
    exact h ⟨hm, f.2, hb ▸ hf⟩

/-- A mark and the character zero: the fault of the zero is noted one column behind its token. -/
theorem decoding_noted_behind_mark :
    faults [0xEF, 0xBB, 0xBF, 0x00] = [(3, .nul)] ∧ start [0xEF, 0xBB, 0xBF, 0x00] 0 = 3 ∧
      token [0xEF, 0xBB, 0xBF, 0x00] 0 = ⟨.invalid, "\x00", ⟨1, 1⟩⟩ ∧
      (scan [0xEF, 0xBB, 0xBF, 0x00]).diagnostics = [⟨⟨1, 2⟩, .nul⟩] := by
  decide

end Source

end Treewalk
