import Mathlib.Data.List.TakeWhile
import Treewalk.Text.Utf8

/-!
# Decoding undoes encoding

A step over bytes that yields a character has taken exactly the bytes that encode the character, and
a byte that yields none is no ASCII byte. So the bytes of a step can be read off its character.

An ASCII byte is a step of its own wherever it stands. No attempt to read a character reaches over
one, because continuation bytes are all larger; so bytes on both sides of an ASCII byte are decoded
as if the other side were not there.

## Main results

* `encode_of_reading`: what is read as a character is its encoding
* `Step.bytes_of_char`, `Step.bytes_of_none`: what a step has taken
* `steps_append_cons`: decoding on both sides of an ASCII byte

## Implementation notes

Two facts about bytes carry everything. A continuation byte is not an ASCII byte, so an attempt to
read a character stops before one; and a leading byte with its continuation bytes can be computed
from the character, so what was taken is the encoding. The second goes through the code point, whose
digits in base sixty-four are the payloads.

Decoding on both sides of an ASCII byte is stated for steps, from which the statements about glyphs,
lines and texts follow without another look at bytes.
-/

namespace Treewalk.Utf8

/-! ## The bytes of a character -/

theorem utf8EncodeChar_ofNat {v : Nat} (h : v.isValidChar) :
    String.utf8EncodeChar (Char.ofNat v) =
      if v ≤ 127 then [UInt8.ofNat v]
      else if v ≤ 2047 then [UInt8.ofNat (v / 64 % 32 + 192), UInt8.ofNat (v % 64 + 128)]
      else if v ≤ 65535 then
        [UInt8.ofNat (v / 4096 % 16 + 224), UInt8.ofNat (v / 64 % 64 + 128),
          UInt8.ofNat (v % 64 + 128)]
      else
        [UInt8.ofNat (v / 262144 % 8 + 240), UInt8.ofNat (v / 4096 % 64 + 128),
          UInt8.ofNat (v / 64 % 64 + 128), UInt8.ofNat (v % 64 + 128)] := by
  have hv : (Char.ofNat v).val.toNat = v := by
    rw [Char.ofNat, dif_pos h]
    rfl
  simp only [String.utf8EncodeChar, hv]

theorem encode_one {b : UInt8} (hb : b < 0x80) :
    String.utf8EncodeChar (Char.ofNat b.toNat) = [b] := by
  simp only [UInt8.lt_iff_toNat_lt, UInt8.reduceToNat] at hb
  rw [utf8EncodeChar_ofNat (.inl (by omega)), if_pos (by omega), UInt8.ofNat_toNat]

theorem encode_two {b x : UInt8} (hb : ¬ b < 0xC2) (hb' : b < 0xE0) (hx : 0x80 ≤ x)
    (hx' : x ≤ 0xBF) :
    String.utf8EncodeChar (Char.ofNat (codePoint (b.toNat - 0xC0) [x])) = [b, x] := by
  simp only [UInt8.lt_iff_toNat_lt, UInt8.le_iff_toNat_le, UInt8.reduceToNat] at hb hb' hx hx'
  have hv : codePoint (b.toNat - 0xC0) [x] = (b.toNat - 192) * 64 + (x.toNat - 128) := rfl
  generalize codePoint (b.toNat - 0xC0) [x] = v at hv
  rw [utf8EncodeChar_ofNat (.inl (by omega)), if_neg (by omega), if_pos (by omega)]
  simp only [List.cons.injEq, and_true, ← UInt8.toNat_inj, UInt8.toNat_ofNat']
  omega

-- The bounds of the first continuation byte keep out overlong forms (below 2048, or below 65536 for
-- four bytes), surrogates and numbers past the last code point.
theorem encode_three {b x y : UInt8} (hb : ¬ b < 0xE0) (hb' : b < 0xF0)
    (hx : (if b = 0xE0 then 0xA0 else 0x80) ≤ x) (hx' : x ≤ if b = 0xED then 0x9F else 0xBF)
    (hy : 0x80 ≤ y) (hy' : y ≤ 0xBF) :
    String.utf8EncodeChar (Char.ofNat (codePoint (b.toNat - 0xE0) [x, y])) = [b, x, y] := by
  simp only [UInt8.lt_iff_toNat_lt, UInt8.le_iff_toNat_le, ← UInt8.toNat_inj, apply_ite UInt8.toNat,
    UInt8.reduceToNat] at hb hb' hx hx' hy hy'
  have hv : codePoint (b.toNat - 0xE0) [x, y] =
    ((b.toNat - 224) * 64 + (x.toNat - 128)) * 64 + (y.toNat - 128) := rfl
  generalize codePoint (b.toNat - 0xE0) [x, y] = v at hv
  have hxs : 128 ≤ x.toNat ∧ x.toNat ≤ 191 :=
    ⟨by split at hx <;> omega, by split at hx' <;> omega⟩
  have hlow : 2047 < v := by split at hx <;> omega
  have hvalid : v.isValidChar := by
    rw [Nat.isValidChar]
    split at hx' <;> omega
  rw [utf8EncodeChar_ofNat hvalid, if_neg (by omega), if_neg (by omega), if_pos (by omega)]
  simp only [List.cons.injEq, and_true, ← UInt8.toNat_inj, UInt8.toNat_ofNat']
  omega

theorem encode_four {b x y z : UInt8} (hb : ¬ b < 0xF0) (hb' : b < 0xF5)
    (hx : (if b = 0xF0 then 0x90 else 0x80) ≤ x) (hx' : x ≤ if b = 0xF4 then 0x8F else 0xBF)
    (hy : 0x80 ≤ y) (hy' : y ≤ 0xBF) (hz : 0x80 ≤ z) (hz' : z ≤ 0xBF) :
    String.utf8EncodeChar (Char.ofNat (codePoint (b.toNat - 0xF0) [x, y, z])) = [b, x, y, z] := by
  simp only [UInt8.lt_iff_toNat_lt, UInt8.le_iff_toNat_le, ← UInt8.toNat_inj, apply_ite UInt8.toNat,
    UInt8.reduceToNat] at hb hb' hx hx' hy hy' hz hz'
  have hv : codePoint (b.toNat - 0xF0) [x, y, z] =
    (((b.toNat - 240) * 64 + (x.toNat - 128)) * 64 + (y.toNat - 128)) * 64 + (z.toNat - 128) := rfl
  generalize codePoint (b.toNat - 0xF0) [x, y, z] = v at hv
  have hxs : 128 ≤ x.toNat ∧ x.toNat ≤ 191 :=
    ⟨by split at hx <;> omega, by split at hx' <;> omega⟩
  have hlow : 65535 < v := by split at hx <;> omega
  have hvalid : v.isValidChar := by
    rw [Nat.isValidChar]
    split at hx' <;> omega
  rw [utf8EncodeChar_ofNat hvalid, if_neg (by omega), if_neg (by omega), if_neg (by omega)]
  simp only [List.cons.injEq, and_true, ← UInt8.toNat_inj, UInt8.toNat_ofNat']
  omega

/-- An ASCII byte in the encoding of a character is all of it. -/
theorem encode_eq_of_mem {c : Char} {b : UInt8} (h : b ∈ String.utf8EncodeChar c) (hb : b < 0x80) :
    String.utf8EncodeChar c = [b] ∧ b.toNat = c.toNat := by
  have hv : c.toNat = c.val.toNat := rfl
  simp only [UInt8.lt_iff_toNat_lt, UInt8.reduceToNat] at hb
  simp only [String.utf8EncodeChar, ← hv] at h ⊢
  split at h
  · next hc =>
    obtain rfl := List.mem_singleton.mp h
    refine ⟨if_pos hc, ?_⟩
    rw [UInt8.toNat_ofNat']
    omega
  -- Every byte of a longer encoding is 128 at least.
  · exfalso
    repeat' split at h
    all_goals
      simp only [List.mem_cons, List.not_mem_nil, or_false, ← UInt8.toNat_inj,
        UInt8.toNat_ofNat'] at h
      omega

/-- As many continuation bytes as were announced: the first within its bounds, then the others. -/
theorem continuations_full {n : Nat} {low high : UInt8} {bytes : List UInt8}
    (h : (continuations (n + 1) low high bytes).length = n + 1) :
    ∃ x rest, bytes = x :: rest ∧ low ≤ x ∧ x ≤ high ∧
      continuations (n + 1) low high bytes = x :: continuations n 0x80 0xBF rest ∧
      (continuations n 0x80 0xBF rest).length = n := by
  cases bytes with
  | nil => simp [continuations] at h
  | cons x rest =>
    rw [continuations] at h ⊢
    split at h
    · next hx =>
      rw [if_pos hx]
      exact ⟨x, rest, rfl, hx.1, hx.2, rfl, by simpa using h⟩
    · simp at h

/-- What is read as a character is the encoding of the character. -/
theorem encode_of_reading {b : UInt8} {rest : List UInt8} {c : Char} {n : Nat}
    (h : reading b rest = (some c, n)) : String.utf8EncodeChar c = b :: rest.take n := by
  rw [reading] at h
  split at h
  · simp at h
  next lead hlead =>
  dsimp only at h
  split at h
  case isFalse => simp at h
  next hfull =>
  obtain ⟨hc, rfl⟩ := Prod.mk.inj h
  obtain rfl := Option.some.inj hc
  rw [lead?] at hlead
  split at hlead
  · next hb =>
    obtain rfl := Option.some.inj hlead
    exact encode_one hb
  split at hlead
  · simp at hlead
  next hb =>
  split at hlead
  · next hb' =>
    obtain rfl := Option.some.inj hlead
    obtain ⟨x, rest, rfl, hx, hx', htail, -⟩ := continuations_full hfull
    rw [htail]
    exact encode_two hb hb' hx hx'
  next hb =>
  split at hlead
  · next hb' =>
    obtain rfl := Option.some.inj hlead
    obtain ⟨x, rest, rfl, hx, hx', htail, hfull⟩ := continuations_full hfull
    obtain ⟨y, rest, rfl, hy, hy', htail', -⟩ := continuations_full hfull
    rw [htail, htail']
    exact encode_three hb hb' hx hx' hy hy'
  next hb =>
  split at hlead
  · next hb' =>
    obtain rfl := Option.some.inj hlead
    obtain ⟨x, rest, rfl, hx, hx', htail, hfull⟩ := continuations_full hfull
    obtain ⟨y, rest, rfl, hy, hy', htail', hfull⟩ := continuations_full hfull
    obtain ⟨z, rest, rfl, hz, hz', htail'', -⟩ := continuations_full hfull
    rw [htail, htail', htail'']
    exact encode_four hb hb' hx hx' hy hy' hz hz'
  · simp at hlead

/-! ## Steps -/

theorem reading_ascii {b : UInt8} (hb : b < 0x80) (rest : List UInt8) :
    reading b rest = (some (Char.ofNat b.toNat), 0) := by
  rw [reading, lead?, if_pos hb]
  rfl

theorem stepAt_ascii {b : UInt8} (hb : b < 0x80) (rest : List UInt8) :
    stepAt b rest = ⟨some (Char.ofNat b.toNat), [b]⟩ := by
  rw [stepAt, reading_ascii hb]
  rfl

/-- Every step over bytes is the step at one of them. -/
theorem exists_stepAt {bytes : List UInt8} {step : Step} (h : step ∈ steps bytes) :
    ∃ b rest, step = stepAt b rest := by
  have hfrom : ∀ n, step ∈ stepsFrom n bytes → ∃ b rest, step = stepAt b rest := by
    clear h
    induction bytes with
    | nil => intro n h; cases n <;> cases h
    | cons b rest ih =>
      intro n h
      cases n with
      | succ n => exact ih n h
      | zero =>
        obtain rfl | h := List.mem_cons.mp h
        · exact ⟨b, rest, rfl⟩
        · exact ih _ h
  exact hfrom 0 h

/-- A step that yields a character has taken its encoding. -/
theorem Step.bytes_of_char {bytes : List UInt8} {step : Step} (h : step ∈ steps bytes) {c : Char}
    (hc : step.char = some c) : step.bytes = String.utf8EncodeChar c := by
  obtain ⟨b, rest, rfl⟩ := exists_stepAt h
  rw [stepAt] at hc ⊢
  split at hc
  · next hr =>
    obtain rfl := Option.some.inj hc
    exact (encode_of_reading hr).symm
  · cases hc

/-- A step that yields none has taken one byte, which is no ASCII byte. A byte of ASCII is a
character by itself. -/
theorem Step.bytes_of_none {bytes : List UInt8} {step : Step} (h : step ∈ steps bytes)
    (hc : step.char = none) : ∃ b, step.bytes = [b] ∧ ¬ b < 0x80 := by
  obtain ⟨b, rest, rfl⟩ := exists_stepAt h
  by_cases hb : b < 0x80
  · rw [stepAt_ascii hb] at hc
    cases hc
  · rw [stepAt] at hc ⊢
    split at hc
    · cases hc
    · exact ⟨b, rfl, hb⟩

/-! ## Around an ASCII byte -/

theorem continuations_append_cons {x : UInt8} (hx : x < 0x80) (more : List UInt8) (n : Nat)
    {low high : UInt8} (hlow : 0x80 ≤ low) (bytes : List UInt8) :
    continuations n low high (bytes ++ x :: more) = continuations n low high bytes := by
  induction bytes generalizing n low high with
  | nil =>
    cases n with
    | zero => rfl
    | succ n =>
      have hout : ¬ (low ≤ x ∧ x ≤ high) := fun h =>
        absurd (UInt8.le_trans hlow h.1) (UInt8.not_le.mpr hx)
      exact if_neg hout
  | cons b bytes ih =>
    cases n with
    | zero => rfl
    | succ n => simp only [List.cons_append, continuations, @ih n 0x80 0xBF (by decide)]

theorem low_of_lead? {b : UInt8} {lead : Lead} (h : lead? b = some lead) : 0x80 ≤ lead.low := by
  rw [lead?] at h
  split at h
  · obtain rfl := Option.some.inj h
    exact UInt8.le_refl _
  split at h
  · cases h
  split at h
  · obtain rfl := Option.some.inj h
    exact UInt8.le_refl _
  split at h
  · obtain rfl := Option.some.inj h
    dsimp only
    split <;> decide
  split at h
  · obtain rfl := Option.some.inj h
    dsimp only
    split <;> decide
  · cases h

/-- An attempt to read a character does not reach over an ASCII byte. -/
theorem reading_append_cons {x : UInt8} (hx : x < 0x80) (more : List UInt8) (b : UInt8)
    (rest : List UInt8) : reading b (rest ++ x :: more) = reading b rest := by
  rw [reading, reading]
  cases hl : lead? b with
  | none => rfl
  | some lead =>
    dsimp only
    rw [continuations_append_cons hx more _ (low_of_lead? hl)]

theorem stepAt_append_cons {x : UInt8} (hx : x < 0x80) (more : List UInt8) (b : UInt8)
    (rest : List UInt8) : stepAt b (rest ++ x :: more) = stepAt b rest := by
  have hle := reading_snd_le b rest
  rw [stepAt, stepAt, reading_append_cons hx]
  split
  · next n hn =>
    rw [hn] at hle
    rw [List.take_append_of_le_length hle]
  · rfl

/-- Decoding on both sides of an ASCII byte. An ASCII byte is part of no longer character, so what
is in front of it is decoded as if nothing followed. -/
theorem steps_append_cons {x : UInt8} (hx : x < 0x80) (more bytes : List UInt8) :
    steps (bytes ++ x :: more) =
      steps bytes ++ ⟨some (Char.ofNat x.toNat), [x]⟩ :: steps more := by
  suffices h : ∀ n ≤ bytes.length, stepsFrom n (bytes ++ x :: more) =
      stepsFrom n bytes ++ ⟨some (Char.ofNat x.toNat), [x]⟩ :: steps more from
    h 0 (Nat.zero_le _)
  induction bytes with
  | nil =>
    intro n hn
    obtain rfl : n = 0 := Nat.le_zero.mp hn
    have hcons : steps (x :: more) = stepAt x more :: stepsFrom _ more := rfl
    rw [stepAt_ascii hx] at hcons
    exact hcons
  | cons b rest ih =>
    intro n hn
    cases n with
    | succ n => exact ih n (Nat.le_of_succ_le_succ hn)
    | zero =>
      obtain ⟨k, hk, hb⟩ := stepAt_bytes b rest
      have hlen : (stepAt b rest).bytes.length - 1 ≤ rest.length := by
        rw [hb, List.length_cons, List.length_take]
        omega
      rw [List.cons_append, stepsFrom, stepsFrom, stepAt_append_cons hx, ih _ hlen]
      rfl

end Treewalk.Utf8
