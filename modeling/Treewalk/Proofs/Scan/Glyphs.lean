import Mathlib.Data.List.Count
import Treewalk.Proofs.Text.Utf8
import Treewalk.Source.Glyph

/-!
# Glyphs of a source

What the glyphs of a source keep of its bytes, and what becomes of them when sources are put
together. A glyph has the bytes of its decoding step, so it encodes its character unless it stands
for a malformed byte. Two sources with a line feed between them have the glyphs of the first, the
line feed, and the glyphs of the second moved down by the lines of the first.

## Main definitions

* `markBytes`, the bytes of the byte order mark
* `Glyph.noteAt`, a glyph whose fault is noted elsewhere
* `Glyph.Shows`, what a glyph keeps of the step over the bytes that it comes from
* `Source.body`, the bytes behind a mark at the start
* `Pos.below`, `Glyph.below`, the same column some lines further down

## Main results

* `glyphs_of_mark`, `glyphs_of_unmarked`: the glyphs of a source with and without a mark
* `bytes_of_mem_glyphs`: the bytes of a glyph
* `map_glyphs`: what can be read off the steps
* `glyphs_append_newline`: the glyphs of two sources in one

## Implementation notes

A byte order mark at the start makes one glyph differ from what `place` would give, and this only in
where its fault is noted. Nearly all of what is said of glyphs does not depend on that.
`map_glyphs_place` collects it into one lemma: a function of glyphs that does not see where faults
are noted can be computed as if there were no mark. The few results that do depend on it use
`glyphs_of_mark` directly.

Moving down by lines is a function on places that leaves columns alone, and it commutes with
`Pos.after`. That is all that is used of it, so the same lemmas could serve for any such function.
-/

namespace Treewalk

/-! ## The byte order mark -/

/-- The bytes of the byte order mark. -/
def markBytes : List UInt8 := [0xEF, 0xBB, 0xBF]

theorem steps_mark (bytes : List UInt8) :
    Utf8.steps (markBytes ++ bytes) = ⟨some byteOrderMark, markBytes⟩ :: Utf8.steps bytes := rfl

/-- A source whose first character is the mark starts with the bytes of the mark. -/
theorem markBytes_prefix_of_steps {source : List UInt8} {step : Utf8.Step} {rest : List Utf8.Step}
    (h : Utf8.steps source = step :: rest) (hc : step.char = some byteOrderMark) :
    markBytes <+: source := by
  have hbytes : step.bytes = markBytes :=
    Utf8.Step.bytes_of_char (h ▸ List.mem_cons_self) hc
  have hsource := Utf8.flatMap_bytes_steps source
  rw [h, List.flatMap_cons, hbytes] at hsource
  exact ⟨_, hsource⟩

/-- A line feed is none of the bytes of the mark, so the mark is complete before it. -/
theorem markBytes_prefix_of_append {a b : List UInt8} (h : markBytes <+: a ++ 0x0A :: b) :
    markBytes <+: a := by
  obtain ha | ⟨tail, htail⟩ := List.prefix_or_prefix_of_prefix h (List.prefix_append a _)
  · exact ha
  · rw [← htail, List.prefix_append_right_inj] at h
    rcases tail with _ | ⟨x, tail⟩
    · exact ⟨[], by rw [← htail, List.append_nil, List.append_nil]⟩
    · obtain rfl := (List.cons_prefix_cons.mp h).1
      have hmem : (0x0A : UInt8) ∈ markBytes := htail ▸ List.mem_append_right a List.mem_cons_self
      exact absurd hmem (by decide)

namespace Glyph

/-- A glyph whose fault is noted at another place. -/
def noteAt (g : Glyph) (p : Pos) : Glyph :=
  { g with fault := g.fault.map fun d => ⟨p, d.problem⟩ }

@[simp] theorem noteAt_char (g : Glyph) (p : Pos) : (g.noteAt p).char = g.char := rfl
@[simp] theorem noteAt_bytes (g : Glyph) (p : Pos) : (g.noteAt p).bytes = g.bytes := rfl
@[simp] theorem noteAt_pos (g : Glyph) (p : Pos) : (g.noteAt p).pos = g.pos := rfl

/-- A glyph that is moved once it is decoded has its fault noted where it was decoded. -/
theorem moveTo_glyphAt (p q : Pos) (step : Utf8.Step) :
    (glyphAt q step).moveTo p = (glyphAt p step).noteAt q := by
  rw [noteAt, glyphAt, glyphAt, Option.map_map]
  rfl

end Glyph

/-- Behind a mark the glyphs are those of a source of their own, but for where the fault of the
first is noted: one column on, where the scan stood when it met it. -/
theorem glyphs_of_mark (bytes : List UInt8) :
    glyphs (markBytes ++ bytes) =
      (place .start (Utf8.steps bytes)).modifyHead
        (Glyph.noteAt · (Pos.start.after byteOrderMark)) := by
  rw [glyphs, steps_mark]
  dsimp only
  rw [if_pos rfl]
  cases Utf8.steps bytes with
  | nil => rfl
  | cons step more =>
    dsimp only
    rw [Glyph.moveTo_glyphAt]
    rfl

theorem glyphs_of_unmarked {source : List UInt8} (h : ¬ markBytes <+: source) :
    glyphs source = place .start (Utf8.steps source) := by
  rw [glyphs]
  split
  · next hs => rw [hs]; rfl
  · next step rest hs =>
    rw [if_neg fun hc => h (markBytes_prefix_of_steps hs hc), hs]

/-! ## Bytes -/

/-- A glyph shows what its step over the bytes found: the character, the bytes and the problem.
Where the glyph stands is not part of it, because that depends on the glyphs before. -/
structure Glyph.Shows (g : Glyph) (step : Utf8.Step) : Prop where
  char : g.char = step.char.getD Utf8.replacement
  bytes : g.bytes = step.bytes
  problem : g.fault.map Diagnostic.problem = stepFault step

theorem shows_glyphAt (p : Pos) (step : Utf8.Step) : (glyphAt p step).Shows step where
  char := rfl
  bytes := rfl
  problem := by
    rw [glyphAt, Option.map_map]
    exact Option.map_id'

theorem Glyph.Shows.noteAt {g : Glyph} {step : Utf8.Step} (h : g.Shows step) (p : Pos) :
    (g.noteAt p).Shows step where
  char := h.char
  bytes := h.bytes
  problem := by
    rw [← h.problem, Glyph.noteAt, Option.map_map]
    rfl

theorem exists_shows_of_mem_place {p : Pos} {steps : List Utf8.Step} {g : Glyph}
    (h : g ∈ place p steps) : ∃ step ∈ steps, g.Shows step := by
  induction steps generalizing p with
  | nil => cases h
  | cons step rest ih =>
    obtain rfl | h := List.mem_cons.mp h
    · exact ⟨step, List.mem_cons_self, shows_glyphAt p step⟩
    · obtain ⟨step', hstep', hg⟩ := ih h
      exact ⟨step', List.mem_cons_of_mem _ hstep', hg⟩

theorem exists_shows_of_mem_glyphs {source : List UInt8} {g : Glyph} (h : g ∈ glyphs source) :
    ∃ step ∈ Utf8.steps source, g.Shows step := by
  by_cases hm : markBytes <+: source
  · obtain ⟨bytes, rfl⟩ := hm
    rw [glyphs_of_mark] at h
    rw [steps_mark]
    have hplace : ∃ step ∈ Utf8.steps bytes, g.Shows step := by
      have hshows := @exists_shows_of_mem_place .start (Utf8.steps bytes)
      rcases hp : place .start (Utf8.steps bytes) with _ | ⟨g', more⟩ <;> rw [hp] at h hshows
      · cases h
      · -- Only the first glyph is not as it was placed: its fault is noted elsewhere.
        obtain rfl | h := List.mem_cons.mp h
        · obtain ⟨step, hstep, hg⟩ := hshows List.mem_cons_self
          exact ⟨step, hstep, hg.noteAt _⟩
        · exact hshows (List.mem_cons_of_mem _ h)
    obtain ⟨step, hstep, hg⟩ := hplace
    exact ⟨step, List.mem_cons_of_mem _ hstep, hg⟩
  · rw [glyphs_of_unmarked hm] at h
    exact exists_shows_of_mem_place h

/-- Nothing is wrong with a glyph unless it shows one of three characters. -/
theorem fault_eq_none {source : List UInt8} {g : Glyph} (h : g ∈ glyphs source)
    (hreplacement : g.char ≠ Utf8.replacement) (hnul : g.char ≠ '\x00')
    (hmark : g.char ≠ byteOrderMark) : g.fault = none := by
  obtain ⟨step, -, hshows⟩ := exists_shows_of_mem_glyphs h
  have hchar := hshows.char
  have hproblem := hshows.problem
  cases hc : step.char with
  | none =>
    rw [hc] at hchar
    exact absurd hchar hreplacement
  | some c =>
    rw [hc, Option.getD_some] at hchar
    rw [stepFault, hc, ← hchar] at hproblem
    dsimp only at hproblem
    rwa [if_neg hnul, if_neg hmark, Option.map_eq_none_iff] at hproblem

/-- A glyph encodes its character, or it is one byte that is no ASCII byte. So a byte that is an
ASCII character is never part of something else. -/
theorem bytes_of_mem_glyphs {source : List UInt8} {g : Glyph} (h : g ∈ glyphs source) :
    g.bytes = String.utf8EncodeChar g.char ∨
      g.char = Utf8.replacement ∧ ∃ b, g.bytes = [b] ∧ ¬ b < 0x80 := by
  obtain ⟨step, hstep, hg⟩ := exists_shows_of_mem_glyphs h
  rw [hg.char, hg.bytes]
  cases hc : step.char with
  | none => exact .inr ⟨rfl, Utf8.Step.bytes_of_none hstep hc⟩
  | some c => exact .inl (Utf8.Step.bytes_of_char hstep hc)

/-- The glyphs keep every byte but those of the mark. -/
theorem flatMap_bytes_glyphs (source : List UInt8) :
    (glyphs source).flatMap Glyph.bytes =
      source.drop (if markBytes <+: source then markBytes.length else 0) := by
  split
  · next hm =>
    obtain ⟨bytes, rfl⟩ := hm
    rw [List.drop_left, glyphs_of_mark]
    refine Eq.trans ?_ (Utf8.flatMap_bytes_steps bytes)
    rw [← flatMap_bytes_place .start]
    cases place .start (Utf8.steps bytes) <;> rfl
  · next hm =>
    rw [List.drop_zero, glyphs_of_unmarked hm, flatMap_bytes_place, Utf8.flatMap_bytes_steps]

/-! ## Steps -/

/-- The bytes of a source behind a mark at its start. -/
def Source.body (source : List UInt8) : List UInt8 :=
  source.drop (if markBytes <+: source then markBytes.length else 0)

theorem Source.body_of_mark (bytes : List UInt8) : body (markBytes ++ bytes) = bytes := by
  rw [body, if_pos (List.prefix_append _ _), List.drop_left]

theorem Source.body_of_unmarked {source : List UInt8} (h : ¬ markBytes <+: source) :
    body source = source := by
  rw [body, if_neg h, List.drop_zero]

section

variable {β : Type} {f : Glyph → β} {r : Utf8.Step → β}

/-- What does not depend on where a fault is noted can be read off the glyphs as they are placed. -/
theorem map_glyphs_place (hnote : ∀ g p, f (g.noteAt p) = f g) (source : List UInt8) :
    (glyphs source).map f = (place .start (Utf8.steps (Source.body source))).map f := by
  by_cases hm : markBytes <+: source
  · obtain ⟨bytes, rfl⟩ := hm
    rw [glyphs_of_mark, Source.body_of_mark]
    cases place .start (Utf8.steps bytes) with
    | nil => rfl
    | cons g more => exact congrArg (· :: more.map f) (hnote g _)
  · rw [glyphs_of_unmarked hm, Source.body_of_unmarked hm]

theorem map_place (hplace : ∀ p step, f (glyphAt p step) = r step) (p : Pos)
    (steps : List Utf8.Step) : (place p steps).map f = steps.map r := by
  induction steps generalizing p with
  | nil => rfl
  | cons step rest ih => rw [place, List.map_cons, List.map_cons, hplace, ih]

/-- What depends neither on the place of a glyph nor on that of its fault can be read off the
steps. -/
theorem map_glyphs (hplace : ∀ p step, f (glyphAt p step) = r step)
    (hnote : ∀ g p, f (g.noteAt p) = f g) (source : List UInt8) :
    (glyphs source).map f = (Utf8.steps (Source.body source)).map r := by
  rw [map_glyphs_place hnote, map_place hplace]

end

/-- A glyph is at fault if its step is. -/
theorem map_problem_glyphs (source : List UInt8) :
    (glyphs source).map (fun g => g.fault.map Diagnostic.problem) =
      (Utf8.steps (Source.body source)).map stepFault :=
  map_glyphs (fun p step => (shows_glyphAt p step).problem)
    (fun g p => by rw [Glyph.noteAt, Option.map_map]; rfl) source

theorem map_char_glyphs (source : List UInt8) :
    (glyphs source).map Glyph.char =
      (Utf8.steps (Source.body source)).map fun step => step.char.getD Utf8.replacement :=
  map_glyphs (fun _ _ => rfl) (fun _ _ => rfl) source

/-! ## Places -/

/-- The same column some lines further down. -/
def Pos.below (n : Nat) (p : Pos) : Pos := ⟨p.line + n, p.column⟩

/-- A diagnostic some lines further down. -/
def Diagnostic.below (n : Nat) (d : Diagnostic) : Diagnostic := ⟨d.pos.below n, d.problem⟩

/-- A glyph some lines further down. -/
def Glyph.below (n : Nat) (g : Glyph) : Glyph :=
  ⟨g.char, g.bytes, g.pos.below n, g.fault.map (Diagnostic.below n)⟩

@[simp] theorem Glyph.below_char (n : Nat) (g : Glyph) : (g.below n).char = g.char := rfl

theorem Pos.after_below (n : Nat) (p : Pos) (c : Char) :
    (p.below n).after c = (p.after c).below n := by
  rw [after, after]
  split
  · exact congrArg (Pos.mk · 1) (Nat.add_right_comm p.line n 1)
  · rfl

theorem glyphAt_below (n : Nat) (p : Pos) (step : Utf8.Step) :
    glyphAt (p.below n) step = (glyphAt p step).below n := by
  rw [glyphAt, glyphAt, Glyph.below, Option.map_map]
  rfl

theorem place_below (n : Nat) (p : Pos) (steps : List Utf8.Step) :
    place (p.below n) steps = (place p steps).map (Glyph.below n) := by
  induction steps generalizing p with
  | nil => rfl
  | cons step rest ih =>
    have hafter : (glyphAt (p.below n) step).after = (glyphAt p step).after.below n :=
      Pos.after_below n p _
    rw [place, place, List.map_cons, hafter, ih, glyphAt_below]

/-- The place behind some steps. -/
def Pos.past (p : Pos) (steps : List Utf8.Step) : Pos :=
  steps.foldl (fun p step => p.after (step.char.getD Utf8.replacement)) p

theorem place_append (p : Pos) (steps steps' : List Utf8.Step) :
    place p (steps ++ steps') = place p steps ++ place (p.past steps) steps' := by
  induction steps generalizing p with
  | nil => rfl
  | cons step rest ih =>
    rw [List.cons_append, place, place, ih]
    rfl

/-- A step holds a line feed if it is one, and otherwise none of its bytes is one. -/
theorem count_newline_step {bytes : List UInt8} {step : Utf8.Step} (h : step ∈ Utf8.steps bytes) :
    step.bytes.count 0x0A = if step.char.getD Utf8.replacement = '\n' then 1 else 0 := by
  cases hc : step.char with
  | none =>
    obtain ⟨b, hb, hascii⟩ := Utf8.Step.bytes_of_none h hc
    rw [hb, Option.getD_none, if_neg (by decide), List.count_eq_zero]
    intro hmem
    obtain rfl := List.mem_singleton.mp hmem
    exact hascii (by decide)
  | some c =>
    rw [Utf8.Step.bytes_of_char h hc, Option.getD_some]
    split
    · next hnl => rw [hnl]; rfl
    · next hnl =>
      rw [List.count_eq_zero]
      intro hmem
      have hcode := (Utf8.encode_eq_of_mem hmem (by decide)).2
      exact hnl (Char.toNat_inj.mp hcode.symm)

/-- A place moves down by the line feeds that it passes. -/
theorem line_past (p : Pos) {steps : List Utf8.Step}
    (h : ∀ step ∈ steps, step.bytes.count 0x0A =
      if step.char.getD Utf8.replacement = '\n' then 1 else 0) :
    (p.past steps).line = p.line + (steps.flatMap Utf8.Step.bytes).count 0x0A := by
  induction steps generalizing p with
  | nil => rfl
  | cons step rest ih =>
    rw [List.forall_mem_cons] at h
    rw [List.flatMap_cons, List.count_append, h.1]
    refine (ih (p.after (step.char.getD Utf8.replacement)) h.2).trans ?_
    rw [Pos.after]
    split
    · exact Nat.add_assoc _ _ _
    · simp

theorem line_past_steps (bytes : List UInt8) :
    (Pos.start.past (Utf8.steps bytes)).line = 1 + bytes.count 0x0A := by
  have h := line_past .start fun step hstep => @count_newline_step bytes step hstep
  rwa [Utf8.flatMap_bytes_steps] at h

/-- The glyphs behind a line feed stand where they would stand alone, but further down. -/
theorem place_newline (p : Pos) (steps : List Utf8.Step) :
    place p (⟨some '\n', [0x0A]⟩ :: steps) =
      ⟨'\n', [0x0A], p, none⟩ :: (place .start steps).map (Glyph.below p.line) := by
  rw [← place_below, place]
  congr 2
  exact congrArg (Pos.mk · 1) (Nat.add_comm p.line 1)

/-- **Two sources in one.** With a line feed between them, the second one has its glyphs where it
would have them alone, but further down by the lines of the first. A byte order mark does that only
at the very start, so the second source must not have one. -/
theorem glyphs_append_newline (a : List UInt8) {b : List UInt8} (hb : ¬ markBytes <+: b) :
    ∃ p, glyphs (a ++ 0x0A :: b) = glyphs a ++
      ⟨'\n', [0x0A], p, none⟩ :: (glyphs b).map (Glyph.below (a.count 0x0A + 1)) := by
  have hsteps : ∀ bytes : List UInt8, Utf8.steps (bytes ++ 0x0A :: b) =
      Utf8.steps bytes ++ ⟨some '\n', [0x0A]⟩ :: Utf8.steps b :=
    fun bytes => Utf8.steps_append_cons (by decide) b bytes
  have hplace : ∀ bytes : List UInt8, place .start (Utf8.steps (bytes ++ 0x0A :: b)) =
      place .start (Utf8.steps bytes) ++ ⟨'\n', [0x0A], Pos.start.past (Utf8.steps bytes), none⟩ ::
        (glyphs b).map (Glyph.below (bytes.count 0x0A + 1)) := by
    intro bytes
    rw [hsteps, place_append, place_newline, line_past_steps, Nat.add_comm, glyphs_of_unmarked hb]
  by_cases ha : markBytes <+: a
  · obtain ⟨bytes, rfl⟩ := ha
    refine ⟨Pos.start.past (Utf8.steps bytes), ?_⟩
    have hcount : (markBytes ++ bytes).count 0x0A = bytes.count 0x0A := by
      rw [List.count_append]
      exact Nat.zero_add _
    rw [List.append_assoc, glyphs_of_mark, glyphs_of_mark, hplace, hcount]
    cases place .start (Utf8.steps bytes) <;> rfl
  · have hjoined : ¬ markBytes <+: a ++ 0x0A :: b := fun h => ha (markBytes_prefix_of_append h)
    exact ⟨_, by rw [glyphs_of_unmarked hjoined, glyphs_of_unmarked ha, hplace]⟩

end Treewalk
