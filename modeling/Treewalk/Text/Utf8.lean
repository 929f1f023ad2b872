/-!
# Bytes and characters

Strict UTF-8 on lists of bytes, and the reading that puts a replacement character for what is
malformed. Both come from one function, `reading`, which looks at the bytes at hand and says which
character they start with, if any, and how many continuation bytes belong to the attempt.

The two readings differ in how far a failed attempt goes: `steps` gives up one byte at a time,
while `decode` swallows the longest piece that could have started a character (the maximal
subpart) and writes one replacement for it.

## Implementation notes

A character is read by the bounds that each byte sets to the next, and not by handing a guessed
number of bytes to a strict decoder. Both come to the same, which is a theorem about `stepAt` and
not part of its definition; here only the first has a form that an induction over the bytes can
follow.

## Main definitions

* `reading`, the attempt to read one character
* `Step`, one step over the bytes: a character, or one byte that starts none
* `steps`, the steps over a list of bytes
* `decode`, the text with replacements

## Main results

* `flatMap_bytes_steps`: the steps cover the bytes without loss or repetition
-/

namespace Treewalk.Utf8

/-! ## One character -/

/-- What a leading byte announces: its own payload, the number of continuation bytes, and the
bounds of the first of them, which exclude overlong forms, surrogates and too large numbers. -/
structure Lead where
  payload : Nat
  count : Nat
  low : UInt8
  high : UInt8

/-- The announcement of a byte, if it can lead at all. -/
def lead? (b : UInt8) : Option Lead :=
  if b < 0x80 then some ⟨b.toNat, 0, 0x80, 0xBF⟩
  else if b < 0xC2 then none
  else if b < 0xE0 then some ⟨b.toNat - 0xC0, 1, 0x80, 0xBF⟩
  else if b < 0xF0 then
    some ⟨b.toNat - 0xE0, 2, if b = 0xE0 then 0xA0 else 0x80, if b = 0xED then 0x9F else 0xBF⟩
  else if b < 0xF5 then
    some ⟨b.toNat - 0xF0, 3, if b = 0xF0 then 0x90 else 0x80, if b = 0xF4 then 0x8F else 0xBF⟩
  else none

/-- The continuation bytes at the front, at most the given number; the bounds hold for the first,
and the later ones have the full range. -/
def continuations : Nat → UInt8 → UInt8 → List UInt8 → List UInt8
  | 0, _, _, _ => []
  | _ + 1, _, _, [] => []
  | n + 1, low, high, b :: rest =>
    if low ≤ b ∧ b ≤ high then b :: continuations n 0x80 0xBF rest else []

/-- The code point of a payload and its continuation bytes, six bits each. -/
def codePoint (payload : Nat) (bytes : List UInt8) : Nat :=
  bytes.foldl (fun n b => n * 64 + (b.toNat - 0x80)) payload

/-- The character that starts at a byte, or none if the bytes are malformed there, together with
the number of continuation bytes that the attempt covers. -/
def reading (b : UInt8) (rest : List UInt8) : Option Char × Nat :=
  match lead? b with
  | none => (none, 0)
  | some lead =>
    let tail := continuations lead.count lead.low lead.high rest
    if tail.length = lead.count then (some (Char.ofNat (codePoint lead.payload tail)), lead.count)
    else (none, tail.length)

theorem continuations_length_le_bytes (n : Nat) (low high : UInt8) (bytes : List UInt8) :
    (continuations n low high bytes).length ≤ bytes.length := by
  induction n generalizing low high bytes with
  | zero => simp [continuations]
  | succ n ih =>
    cases bytes with
    | nil => simp [continuations]
    | cons b rest =>
      simp only [continuations]
      split
      · simpa using ih 0x80 0xBF rest
      · simp

/-- An attempt never reaches past the end. -/
theorem reading_snd_le (b : UInt8) (rest : List UInt8) : (reading b rest).2 ≤ rest.length := by
  unfold reading
  split
  · simp
  · rename_i lead _
    have h := continuations_length_le_bytes lead.count lead.low lead.high rest
    dsimp only
    split <;> simp_all

/-! ## Steps -/

/-- One step over the bytes: a character with its bytes, or one byte that starts none. -/
structure Step where
  char : Option Char
  bytes : List UInt8

/-- The step at a byte. -/
def stepAt (b : UInt8) (rest : List UInt8) : Step :=
  match reading b rest with
  | (some c, n) => ⟨some c, b :: rest.take n⟩
  | (none, _) => ⟨none, [b]⟩

/-- The steps after a number of bytes that an earlier step has taken. -/
def stepsFrom : Nat → List UInt8 → List Step
  | _, [] => []
  | n + 1, _ :: rest => stepsFrom n rest
  | 0, b :: rest =>
    let step := stepAt b rest
    step :: stepsFrom (step.bytes.length - 1) rest

/-- The steps over a list of bytes. -/
def steps (bytes : List UInt8) : List Step :=
  stepsFrom 0 bytes

theorem stepAt_bytes (b : UInt8) (rest : List UInt8) :
    ∃ n, n ≤ rest.length ∧ (stepAt b rest).bytes = b :: rest.take n := by
  unfold stepAt
  have h := reading_snd_le b rest
  split
  · rename_i n hn
    exact ⟨n, by simpa [hn] using h, rfl⟩
  · exact ⟨0, Nat.zero_le _, by simp⟩

theorem stepsFrom_eq_drop (n : Nat) (bytes : List UInt8) :
    stepsFrom n bytes = steps (bytes.drop n) := by
  induction bytes generalizing n with
  | nil => cases n <;> rfl
  | cons b rest ih =>
    cases n with
    | zero => rfl
    | succ n => simpa [stepsFrom] using ih n

/-- The steps cover the bytes without loss or repetition. -/
theorem flatMap_bytes_steps (bytes : List UInt8) : (steps bytes).flatMap Step.bytes = bytes := by
  suffices h : ∀ n, (stepsFrom n bytes).flatMap Step.bytes = bytes.drop n by
    simpa [steps] using h 0
  induction bytes with
  | nil => intro n; cases n <;> rfl
  | cons b rest ih =>
    intro n
    cases n with
    | zero =>
      obtain ⟨k, hk, hb⟩ := stepAt_bytes b rest
      simp [stepsFrom, hb, ih, Nat.min_eq_left hk]
    | succ n => simpa [stepsFrom] using ih n

/-! ## Text with replacements -/

/-- What stands for malformed bytes. -/
def replacement : Char := '\uFFFD'

/-- The characters after a number of bytes that an earlier attempt has taken. -/
def charsFrom : Nat → List UInt8 → List Char
  | _, [] => []
  | n + 1, _ :: rest => charsFrom n rest
  | 0, b :: rest =>
    let (c, n) := reading b rest
    c.getD replacement :: charsFrom n rest

/-- The text of the bytes, with one replacement for each maximal malformed piece. -/
def decode (bytes : List UInt8) : String :=
  String.ofList (charsFrom 0 bytes)

/-- The bytes of a text. -/
def encode (s : String) : List UInt8 :=
  s.toUTF8.toList

end Treewalk.Utf8
