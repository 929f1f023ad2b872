import Treewalk.Proofs.Scan.Positions

/-!
# Decoding is strict

Bytes are well formed where the encoding of a character starts, and nowhere else: the encodings of
all characters are taken as the measure, so that truncated and overlong sequences, surrogates and
numbers past the last code point need no mention. A decoding step agrees with that measure at every
offset that the scan comes to. It takes a whole character where one starts, and otherwise one byte,
which is shown as a replacement and noted.

A source is a text in UTF-8 exactly if no byte of it has to be replaced, and so exactly if no
diagnostic says so.

## Implementation notes

There are two ways to come to a character. One follows the bytes and the bounds that each of them
sets to the next, and `Utf8.stepAt` does that. The other guesses from the first byte how many bytes
there will be, takes as many as there are, and has them decoded strictly, as a text. The guess is
loose: it trusts bytes that only overlong forms and numbers past the last code point start with, and
near the end it is given fewer bytes than it asks for. `Utf8.stepAt_width` says that the two ways
are one. What saves the guess is that it is right for every byte that does start a character
(`Utf8.length_encode_eq_width`), and that a text of that many bytes which starts with one can be no
more than this character.

Everything else here is about `Utf8.StartsChar`, which speaks of encodings and not of bytes, so that
neither of the two ways is part of what `Source.Strict` says.

## Main definitions

* `Utf8.StartsChar`, bytes with a well-formed character at the front
* `Utf8.width`, how many bytes a first byte asks for
* `Utf8.visits`, decoding steps with the offsets at which they are taken
* `Source.Strict`, what strict decoding means for a source

## Main results

* `Utf8.stepAt_of_prefix`, `Utf8.stepAt_of_not_startsChar`: the step at any bytes
* `Utf8.stepAt_width`: the step as a guess that is decoded strictly
* `Source.filter_badEncoding_diagnostics`: which diagnostics say that a byte starts no character
* `Source.decoding_strict`
-/

namespace Treewalk

namespace Utf8

/-! ## One step -/

/-- A well-formed character stands at the front. -/
def StartsChar (bytes : List UInt8) : Prop :=
  ∃ c : Char, String.utf8EncodeChar c <+: bytes

/-- Where a character starts, the step takes it. What stands behind the character has no say in it,
for the first byte says how many follow. -/
theorem stepAt_of_prefix {b : UInt8} {rest : List UInt8} {c : Char}
    (h : String.utf8EncodeChar c <+: b :: rest) :
    stepAt b rest = ⟨some c, String.utf8EncodeChar c⟩ := by
  obtain ⟨behind, hbehind⟩ := h
  obtain ⟨b', tail, hbytes, hreading⟩ := reading_encode c behind
  rw [hbytes, List.cons_append] at hbehind
  obtain ⟨rfl, rfl⟩ := List.cons.inj hbehind
  rw [stepAt, hreading, hbytes]
  dsimp only
  rw [List.take_left]

/-- Where none starts, the step gives one byte up. More than one byte is never given up at once, not
even where several of them look like the start of a character. -/
theorem stepAt_of_not_startsChar {b : UInt8} {rest : List UInt8} (h : ¬ StartsChar (b :: rest)) :
    stepAt b rest = ⟨none, [b]⟩ := by
  rw [stepAt]
  split
  · next c n hreading =>
    refine absurd ⟨c, ?_⟩ h
    rw [encode_of_reading hreading, List.prefix_cons_inj]
    exact List.take_prefix n rest
  · rfl

/-! ## Guessing a width -/

/-- Bytes are a text in UTF-8 if they are the encodings of characters, one behind the other. -/
theorem isValidUTF8_iff_flatMap (bytes : List UInt8) :
    bytes.toByteArray.IsValidUTF8 ↔ ∃ cs : List Char, bytes = cs.flatMap String.utf8EncodeChar := by
  constructor
  · rintro ⟨cs, hcs⟩
    have hdata := congrArg (fun array => array.data.toList) hcs
    rw [List.utf8Encode, List.data_toByteArray, List.data_toByteArray] at hdata
    exact ⟨cs, hdata⟩
  · rintro ⟨cs, rfl⟩
    exact ⟨cs, rfl⟩

/-- How many bytes the first byte of a character asks for. It is a guess: some of the bytes that ask
for two or four start no character at all. -/
def width (b : UInt8) : Nat :=
  if 0xC0 ≤ b ∧ b ≤ 0xDF then 2
  else if 0xE0 ≤ b ∧ b ≤ 0xEF then 3
  else if 0xF0 ≤ b ∧ b ≤ 0xF7 then 4
  else 1

theorem width_of_lead? {b : UInt8} {lead : Lead} (h : lead? b = some lead) :
    width b = lead.count + 1 := by
  unfold lead? at h
  simp only [UInt8.lt_iff_toNat_lt, UInt8.reduceToNat] at h
  simp only [width, UInt8.le_iff_toNat_le, UInt8.reduceToNat]
  split at h
  · obtain rfl := Option.some.inj h
    rw [if_neg (by omega), if_neg (by omega), if_neg (by omega)]
  split at h
  · cases h
  split at h
  · obtain rfl := Option.some.inj h
    rw [if_pos (by omega)]
  split at h
  · obtain rfl := Option.some.inj h
    rw [if_neg (by omega), if_pos (by omega)]
  split at h
  · obtain rfl := Option.some.inj h
    rw [if_neg (by omega), if_neg (by omega), if_pos (by omega)]
  · cases h

/-- For the bytes of a character the guess is right. -/
theorem length_encode_eq_width {c : Char} {b : UInt8} {tail : List UInt8}
    (h : String.utf8EncodeChar c = b :: tail) : (b :: tail).length = width b := by
  obtain ⟨b', tail', hbytes, hreading⟩ := reading_encode c []
  rw [h] at hbytes
  obtain ⟨rfl, rfl⟩ := List.cons.inj hbytes
  rw [reading] at hreading
  cases hlead : lead? b with
  | none =>
    rw [hlead] at hreading
    cases hreading
  | some lead =>
    rw [hlead] at hreading
    dsimp only at hreading
    split at hreading
    · have hcount : lead.count = tail.length := (Prod.mk.inj hreading).2
      rw [width_of_lead? hlead, hcount, List.length_cons]
    · cases hreading

/-- The step at any bytes, told by the first of them and by strict decoding: as many bytes are taken
as it asks for, or as many as there are. If they are a text in UTF-8, it is one character, and the
step takes it. If they are none, the step gives one byte up. -/
theorem stepAt_width (b : UInt8) (rest : List UInt8) :
    let slice := (b :: rest).take (width b)
    if slice.toByteArray.IsValidUTF8 then
      ∃ c, slice = String.utf8EncodeChar c ∧ stepAt b rest = ⟨some c, slice⟩
    else stepAt b rest = ⟨none, [b]⟩ := by
  intro slice
  by_cases hstarts : StartsChar (b :: rest)
  · obtain ⟨c, hc⟩ := hstarts
    obtain ⟨b', tail, hbytes, -⟩ := reading_encode c []
    have hslice : slice = String.utf8EncodeChar c := by
      obtain ⟨rfl, -⟩ : b' = b ∧ tail <+: rest := by rwa [hbytes, List.cons_prefix_cons] at hc
      rw [List.prefix_iff_eq_take.mp hc, hbytes, length_encode_eq_width hbytes]
    rw [if_pos ((isValidUTF8_iff_flatMap slice).mpr ⟨[c], by rw [hslice]; simp⟩)]
    exact ⟨c, hslice, hslice ▸ stepAt_of_prefix hc⟩
  · -- a text at the front would start with a character
    have hvalid : ¬ slice.toByteArray.IsValidUTF8 := by
      rw [isValidUTF8_iff_flatMap]
      rintro ⟨cs, hcs⟩
      cases cs with
      | nil =>
        have hwidth : width b ≠ 0 := by
          unfold width
          split_ifs <;> decide
        exact hwidth (List.take_eq_nil_iff.mp hcs |>.resolve_right (List.cons_ne_nil _ _))
      | cons c cs =>
        refine hstarts ⟨c, List.IsPrefix.trans ?_ (List.take_prefix (width b) (b :: rest))⟩
        exact ⟨cs.flatMap String.utf8EncodeChar, hcs.symm⟩
    rw [if_neg hvalid]
    exact stepAt_of_not_startsChar hstarts

/-! ## Steps and where they are taken -/

/-- Steps with the offsets at which they are taken, if the first is taken at a given one. -/
def visits (offset : Nat) (s : List Step) : List (Nat × Step) :=
  (offsets offset s).zip s

theorem visits_cons (offset : Nat) (step : Step) (s : List Step) :
    visits offset (step :: s) = (offset, step) :: visits (offset + step.bytes.length) s := rfl

theorem visits_append (offset : Nat) (a b : List Step) :
    visits offset (a ++ b) = visits offset a ++ visits (offset + extent a) b := by
  rw [visits, offsets_append, List.zip_append (length_offsets offset a)]
  rfl

theorem exists_split_of_mem_visits {offset : Nat} {s : List Step} {v : Nat × Step}
    (h : v ∈ visits offset s) : ∃ pre post, s = pre ++ v.2 :: post ∧ v.1 = offset + extent pre := by
  induction s generalizing offset with
  | nil => cases h
  | cons step s ih =>
    rw [visits_cons] at h
    obtain rfl | h := List.mem_cons.mp h
    · exact ⟨[], s, rfl, rfl⟩
    · obtain ⟨pre, post, rfl, hv⟩ := ih h
      exact ⟨step :: pre, post, rfl, by rw [hv, extent_cons, Nat.add_assoc]⟩

theorem exists_mem_visits (offset : Nat) {s : List Step} {step : Step} (h : step ∈ s) :
    ∃ k, (k, step) ∈ visits offset s := by
  obtain ⟨pre, post, rfl⟩ := List.append_of_mem h
  refine ⟨offset + extent pre, ?_⟩
  rw [visits_append, visits_cons]
  exact List.mem_append_right _ List.mem_cons_self

/-- Behind some steps, the others are the steps over the bytes that are left. -/
theorem steps_drop {bytes : List UInt8} {pre post : List Step} (h : steps bytes = pre ++ post) :
    steps (bytes.drop (extent pre)) = post := by
  induction pre generalizing bytes with
  | nil => exact h
  | cons step pre ih =>
    cases bytes with
    | nil => cases h
    | cons b rest =>
      have hsteps : steps (b :: rest) =
          stepAt b rest :: steps (rest.drop ((stepAt b rest).bytes.length - 1)) :=
        congrArg (stepAt b rest :: ·) (stepsFrom_eq_drop _ rest)
      rw [hsteps, List.cons_append] at h
      obtain ⟨rfl, hrest⟩ := List.cons.inj h
      obtain ⟨n, -, hbytes⟩ := stepAt_bytes b rest
      rw [extent_cons, ← ih hrest, List.drop_drop]
      rw [hbytes, List.length_cons, Nat.add_sub_cancel, Nat.succ_add, List.drop_succ_cons]

/-- A step is the one at the bytes that it comes to. -/
theorem exists_stepAt_of_mem_visits {bytes : List UInt8} {v : Nat × Step}
    (h : v ∈ visits 0 (steps bytes)) :
    ∃ b rest, bytes.drop v.1 = b :: rest ∧ v.2 = stepAt b rest := by
  obtain ⟨pre, post, hsteps, hv⟩ := exists_split_of_mem_visits h
  have hdrop := steps_drop hsteps
  rw [← Nat.zero_add (extent pre), ← hv] at hdrop
  cases hbytes : bytes.drop v.1 with
  | nil =>
    rw [hbytes] at hdrop
    cases hdrop
  | cons b rest =>
    rw [hbytes] at hdrop
    exact ⟨b, rest, rfl, (List.cons.inj hdrop).1.symm⟩

/-- Bytes are a text in UTF-8 if every step over them yields a character, and only then. -/
theorem isValidUTF8_iff (bytes : List UInt8) :
    bytes.toByteArray.IsValidUTF8 ↔ ∀ step ∈ steps bytes, step.char ≠ none := by
  rw [isValidUTF8_iff_flatMap]
  constructor
  · rintro ⟨cs, rfl⟩
    rw [steps_encode, List.forall_mem_map]
    exact fun c _ => Option.some_ne_none c
  · intro h
    refine ⟨(steps bytes).map fun step => step.char.getD replacement, ?_⟩
    conv_lhs => rw [← flatMap_bytes_steps bytes]
    rw [List.flatMap_map, List.flatMap_def, List.flatMap_def]
    refine congrArg List.flatten (List.map_congr_left fun step hstep => ?_)
    obtain ⟨c, hc⟩ := Option.ne_none_iff_exists'.mp (h step hstep)
    rw [Step.bytes_of_char hstep hc, hc]
    rfl

end Utf8

namespace Source

open Utf8

/-! ## Diagnostics -/

theorem stepFault_eq_badEncoding_iff {step : Step} :
    stepFault step = some .badEncoding ↔ step.char = none := by
  rw [stepFault]
  cases step.char with
  | none => simp
  | some c =>
    dsimp only
    split
    · simp
    split <;> simp

theorem filter_badEncoding_faultsFrom (offset : Nat) (s : List Step) :
    (faultsFrom offset s).filter (fun f => f.2 = .badEncoding) =
      ((visits offset s).filter fun v => v.2.char.isNone).map fun v => (v.1, .badEncoding) := by
  induction s generalizing offset with
  | nil => rfl
  | cons step s ih =>
    rw [faultsFrom_cons, List.filter_append, ih, visits_cons, List.filter_cons]
    cases hc : step.char with
    | none =>
      rw [stepFault_eq_badEncoding_iff.mpr hc]
      rfl
    | some c =>
      have hother : stepFault step ≠ some .badEncoding := by
        rw [Ne, stepFault_eq_badEncoding_iff, hc]
        exact Option.some_ne_none c
      cases hfault : stepFault step with
      | none => rfl
      | some problem =>
        have hproblem : problem ≠ .badEncoding := fun h => hother (hfault.trans (congrArg some h))
        simp [hproblem]

/-- A mark is a character, so the steps that yield none are behind it. -/
theorem filter_isNone_visits (source : List UInt8) :
    (visits 0 (steps source)).filter (fun v => v.2.char.isNone) =
      (visits (markSize source) (steps (body source))).filter fun v => v.2.char.isNone := by
  by_cases hm : markBytes <+: source
  · rw [markSize, if_pos hm]
    obtain ⟨bytes, rfl⟩ := hm
    rw [steps_mark, body_of_mark]
    rfl
  · rw [markSize, if_neg hm, body_of_unmarked hm]

/-- The diagnostics about bytes that start no character are those of the steps that yield none, one
for each and in their order. -/
theorem filter_badEncoding_diagnostics (source : List UInt8) :
    (scan source).diagnostics.filter (fun d => d.problem = .badEncoding) =
      ((visits 0 (steps source)).filter fun v => v.2.char.isNone).map
        fun v => ⟨notedAt source v.1, .badEncoding⟩ := by
  have hdecoding : (scan source).diagnostics.filter (fun d => d.problem = .badEncoding) =
      ((scan source).diagnostics.filter (fun d => d.problem.isDecoding)).filter
        fun d => d.problem = .badEncoding := by
    rw [List.filter_filter]
    refine List.filter_congr fun d _ => ?_
    by_cases hd : d.problem = .badEncoding
    · rw [hd]
      rfl
    · simp [hd]
  rw [hdecoding, filter_isDecoding_diagnostics, filterMap_fault_glyphs, List.filter_map]
  change ((faults source).filter fun f => f.2 = .badEncoding).map _ = _
  rw [faults, filter_badEncoding_faultsFrom, filter_isNone_visits, List.map_map]
  rfl

/-! ## Strictness -/

/-- What strict decoding means for a source. -/
structure Strict (source : List UInt8) : Prop where
  /-- The steps lead from the first byte to the last. -/
  covers : (steps source).flatMap Step.bytes = source
  /-- Where a character starts, the step takes all of it. -/
  well : ∀ v ∈ visits 0 (steps source), ∀ c : Char,
    String.utf8EncodeChar c <+: source.drop v.1 → v.2 = ⟨some c, String.utf8EncodeChar c⟩
  /-- Where none starts, the step takes one byte. -/
  ill : ∀ v ∈ visits 0 (steps source),
    ¬ StartsChar (source.drop v.1) → v.2 = ⟨none, (source.drop v.1).take 1⟩
  /-- Such a byte is shown as a replacement, and a character as itself. -/
  shown : (glyphs source).map Glyph.char =
    (steps (body source)).map fun step => step.char.getD replacement
  /-- Such a byte is noted once, and nothing else is noted in this way. -/
  noted : (scan source).diagnostics.filter (fun d => d.problem = .badEncoding) =
    ((visits 0 (steps source)).filter fun v => v.2.char.isNone).map
      fun v => ⟨notedAt source v.1, .badEncoding⟩
  /-- There is none to be noted exactly in a text in UTF-8. -/
  valid : (∃ d ∈ (scan source).diagnostics, d.problem = .badEncoding) ↔
    ¬ source.toByteArray.IsValidUTF8

theorem exists_badEncoding_iff (source : List UInt8) :
    (∃ d ∈ (scan source).diagnostics, d.problem = .badEncoding) ↔
      ∃ step ∈ steps source, step.char = none := by
  have hnoted := filter_badEncoding_diagnostics source
  constructor
  · rintro ⟨d, hd, hproblem⟩
    have hmem : d ∈ (scan source).diagnostics.filter fun d => d.problem = .badEncoding :=
      List.mem_filter.mpr ⟨hd, by simpa using hproblem⟩
    rw [hnoted] at hmem
    obtain ⟨v, hv, -⟩ := List.mem_map.mp hmem
    obtain ⟨hv, hnone⟩ := List.mem_filter.mp hv
    exact ⟨v.2, (List.of_mem_zip hv).2, by simpa using hnone⟩
  · rintro ⟨step, hstep, hnone⟩
    obtain ⟨k, hk⟩ := exists_mem_visits 0 hstep
    have hv : (k, step) ∈ (visits 0 (steps source)).filter fun v => v.2.char.isNone :=
      List.mem_filter.mpr ⟨hk, by simpa using hnone⟩
    have hmem := List.mem_map_of_mem
      (f := fun v => (⟨notedAt source v.1, .badEncoding⟩ : Diagnostic)) hv
    rw [← hnoted] at hmem
    exact ⟨_, List.mem_of_mem_filter hmem, rfl⟩

/-- **Decoding is strict.** The steps over the bytes of a text are its characters, one step for
each. Over any bytes, a step takes a well-formed character where one starts, and where none starts
it takes one byte, shows a replacement and notes it; so a source is a text in UTF-8 if and only if
nothing is noted in this way. -/
theorem decoding_strict :
    (∀ text : String, steps (encode text) =
      text.toList.map fun c => ⟨some c, String.utf8EncodeChar c⟩) ∧
    ∀ source, Strict source := by
  refine ⟨fun text => by rw [encode_eq, steps_encode], fun source => ?_⟩
  constructor
  case covers => exact flatMap_bytes_steps source
  case well =>
    intro v hv c hc
    obtain ⟨b, rest, hbytes, hstep⟩ := exists_stepAt_of_mem_visits hv
    rw [hbytes] at hc
    rw [hstep, stepAt_of_prefix hc]
  case ill =>
    intro v hv hnone
    obtain ⟨b, rest, hbytes, hstep⟩ := exists_stepAt_of_mem_visits hv
    rw [hbytes] at hnone ⊢
    rw [hstep, stepAt_of_not_startsChar hnone]
    rfl
  case shown => exact map_char_glyphs source
  case noted => exact filter_badEncoding_diagnostics source
  case valid =>
    rw [exists_badEncoding_iff, isValidUTF8_iff]
    push Not
    rfl

-- Overlong, a surrogate, past the last code point, and cut off by a line feed.
example : (steps [0xC0, 0x80, 0xED, 0xA0, 0x80, 0xF4, 0x90, 0x80, 0x80, 0xE2, 0x82, 0x0A]).map
    Step.char = List.replicate 11 none ++ [some '\n'] := by decide

end Source

end Treewalk
