import Treewalk.Proofs.Text.Utf8

/-!
# Texts and their bytes

The encoding of a character is read as that character, whatever stands behind it. So both readings
of the bytes of a text give the text back: the steps over them are its characters, and decoding them
needs no replacement.

## Main definitions

* `Ascii`, characters of ASCII other than zero

## Main results

* `reading_encode`: the encoding of a character is read as the character
* `steps_encode`, `decode_encode`: a text is read back from its bytes
* `encode_eq`: the bytes of a text are the bytes of its characters

## Implementation notes

The encoding is that of the library, `String.utf8EncodeChar`, and the decoder is the one of this
project. There are four cases by the number of bytes, and each is arithmetic on six bits at a time,
with the bounds that exclude overlong forms and surrogates.

`Ascii` leaves out the character zero because texts that are known to be in ASCII are mostly meant
to be sources, and in a source that character is a fault.
-/

namespace Treewalk.Utf8

/-! ## One character -/

/-- A byte and all the continuation bytes that it announces are read as a character. -/
theorem reading_of_continuations (tail : List UInt8) {b : UInt8} {lead : Lead} {rest : List UInt8}
    {v : Nat} (hlead : lead? b = some lead) (hlength : tail.length = lead.count)
    (htail : continuations lead.count lead.low lead.high (tail ++ rest) = tail)
    (hcode : codePoint lead.payload tail = v) :
    reading b (tail ++ rest) = (some (Char.ofNat v), tail.length) := by
  rw [reading, hlead]
  dsimp only
  rw [htail, if_pos hlength, hlength, hcode]

theorem continuations_cons {n : Nat} {low high x : UInt8} (hlow : low.toNat ≤ x.toNat)
    (hhigh : x.toNat ≤ high.toNat) (rest : List UInt8) :
    continuations (n + 1) low high (x :: rest) = x :: continuations n 0x80 0xBF rest := by
  rw [continuations, if_pos ⟨UInt8.le_iff_toNat_le.mpr hlow, UInt8.le_iff_toNat_le.mpr hhigh⟩]

/-- A continuation byte holds six bits. -/
theorem toNat_continuation (n : Nat) : (UInt8.ofNat (n % 64 + 128)).toNat = n % 64 + 128 :=
  UInt8.toNat_ofNat_of_lt (Nat.lt_of_lt_of_le (Nat.add_lt_add_right (Nat.mod_lt n (by decide)) 128)
    (by decide))

theorem reading_two {v : Nat} (hlow : 127 < v) (hhigh : v ≤ 2047) (rest : List UInt8) :
    reading (UInt8.ofNat (v / 64 % 32 + 192)) (UInt8.ofNat (v % 64 + 128) :: rest) =
      (some (Char.ofNat v), 1) := by
  have hb : (UInt8.ofNat (v / 64 % 32 + 192)).toNat = v / 64 % 32 + 192 :=
    UInt8.toNat_ofNat_of_lt (by change _ < 256; omega)
  have hx := toNat_continuation v
  generalize UInt8.ofNat (v / 64 % 32 + 192) = b at hb
  generalize UInt8.ofNat (v % 64 + 128) = x at hx
  have hlead : lead? b = some ⟨b.toNat - 0xC0, 1, 0x80, 0xBF⟩ := by
    simp only [lead?, UInt8.lt_iff_toNat_lt, UInt8.reduceToNat]
    rw [if_neg (by omega), if_neg (by omega), if_pos (by omega)]
  have htail : continuations 1 0x80 0xBF (x :: rest) = [x] :=
    continuations_cons (by simp only [UInt8.reduceToNat]; omega)
      (by simp only [UInt8.reduceToNat]; omega) rest
  refine reading_of_continuations [x] hlead rfl htail ?_
  change (b.toNat - 192) * 64 + (x.toNat - 128) = v
  omega

theorem reading_three {v : Nat} (hvalid : v.isValidChar) (hlow : 2047 < v) (hhigh : v ≤ 65535)
    (rest : List UInt8) :
    reading (UInt8.ofNat (v / 4096 % 16 + 224))
      (UInt8.ofNat (v / 64 % 64 + 128) :: UInt8.ofNat (v % 64 + 128) :: rest) =
      (some (Char.ofNat v), 2) := by
  have hb : (UInt8.ofNat (v / 4096 % 16 + 224)).toNat = v / 4096 % 16 + 224 :=
    UInt8.toNat_ofNat_of_lt (by change _ < 256; omega)
  have hx := toNat_continuation (v / 64)
  have hy := toNat_continuation v
  generalize UInt8.ofNat (v / 4096 % 16 + 224) = b at hb
  generalize UInt8.ofNat (v / 64 % 64 + 128) = x at hx
  generalize UInt8.ofNat (v % 64 + 128) = y at hy
  have hlead : lead? b = some ⟨b.toNat - 0xE0, 2, if b = 0xE0 then 0xA0 else 0x80,
      if b = 0xED then 0x9F else 0xBF⟩ := by
    simp only [lead?, UInt8.lt_iff_toNat_lt, UInt8.reduceToNat]
    rw [if_neg (by omega), if_neg (by omega), if_neg (by omega), if_pos (by omega)]
  -- Below 2048 the form would be overlong, and the code points of surrogates are no characters.
  have htail : continuations 2 (if b = 0xE0 then 0xA0 else 0x80) (if b = 0xED then 0x9F else 0xBF)
      (x :: y :: rest) = [x, y] := by
    rw [Nat.isValidChar] at hvalid
    rw [continuations_cons, continuations_cons, continuations]
    all_goals
      simp only [← UInt8.toNat_inj, apply_ite UInt8.toNat, UInt8.reduceToNat]
    all_goals repeat' split
    all_goals omega
  refine reading_of_continuations [x, y] hlead rfl htail ?_
  change ((b.toNat - 224) * 64 + (x.toNat - 128)) * 64 + (y.toNat - 128) = v
  omega

theorem reading_four {v : Nat} (hvalid : v.isValidChar) (hlow : 65535 < v) (rest : List UInt8) :
    reading (UInt8.ofNat (v / 262144 % 8 + 240))
      (UInt8.ofNat (v / 4096 % 64 + 128) :: UInt8.ofNat (v / 64 % 64 + 128) ::
        UInt8.ofNat (v % 64 + 128) :: rest) =
      (some (Char.ofNat v), 3) := by
  rw [Nat.isValidChar] at hvalid
  have hb : (UInt8.ofNat (v / 262144 % 8 + 240)).toNat = v / 262144 % 8 + 240 :=
    UInt8.toNat_ofNat_of_lt (by change _ < 256; omega)
  have hx := toNat_continuation (v / 4096)
  have hy := toNat_continuation (v / 64)
  have hz := toNat_continuation v
  generalize UInt8.ofNat (v / 262144 % 8 + 240) = b at hb
  generalize UInt8.ofNat (v / 4096 % 64 + 128) = x at hx
  generalize UInt8.ofNat (v / 64 % 64 + 128) = y at hy
  generalize UInt8.ofNat (v % 64 + 128) = z at hz
  have hlead : lead? b = some ⟨b.toNat - 0xF0, 3, if b = 0xF0 then 0x90 else 0x80,
      if b = 0xF4 then 0x8F else 0xBF⟩ := by
    simp only [lead?, UInt8.lt_iff_toNat_lt, UInt8.reduceToNat]
    rw [if_neg (by omega), if_neg (by omega), if_neg (by omega), if_neg (by omega),
      if_pos (by omega)]
  have htail : continuations 3 (if b = 0xF0 then 0x90 else 0x80) (if b = 0xF4 then 0x8F else 0xBF)
      (x :: y :: z :: rest) = [x, y, z] := by
    rw [continuations_cons, continuations_cons, continuations_cons, continuations]
    all_goals
      simp only [← UInt8.toNat_inj, apply_ite UInt8.toNat, UInt8.reduceToNat]
    all_goals repeat' split
    all_goals omega
  refine reading_of_continuations [x, y, z] hlead rfl htail ?_
  change (((b.toNat - 240) * 64 + (x.toNat - 128)) * 64 + (y.toNat - 128)) * 64 +
    (z.toNat - 128) = v
  omega

/-- The encoding of a character is read as the character, whatever stands behind it. There are as
many cases as lengths of an encoding, and in each the bits of the character are put together
again. -/
theorem reading_encode (c : Char) (rest : List UInt8) :
    ∃ b tail, String.utf8EncodeChar c = b :: tail ∧
      reading b (tail ++ rest) = (some c, tail.length) := by
  obtain ⟨v, hvalid, rfl⟩ : ∃ v : Nat, v.isValidChar ∧ Char.ofNat v = c :=
    ⟨c.toNat, c.valid, Char.ofNat_toNat c⟩
  rw [utf8EncodeChar_ofNat hvalid]
  split
  · next hone =>
    have hb : (UInt8.ofNat v).toNat = v := UInt8.toNat_ofNat_of_lt (by change v < 256; omega)
    have hascii : UInt8.ofNat v < 0x80 := by
      rw [UInt8.lt_iff_toNat_lt, hb]
      exact Nat.lt_succ_of_le hone
    have hreading := reading_ascii hascii rest
    rw [hb] at hreading
    exact ⟨_, [], rfl, hreading⟩
  split
  · next hone htwo => exact ⟨_, _, rfl, reading_two (Nat.not_le.mp hone) htwo rest⟩
  split
  · next htwo hthree => exact ⟨_, _, rfl, reading_three hvalid (Nat.not_le.mp htwo) hthree rest⟩
  · next hthree => exact ⟨_, _, rfl, reading_four hvalid (Nat.not_le.mp hthree) rest⟩

/-! ## Texts -/

theorem steps_encode_cons (c : Char) (rest : List UInt8) :
    steps (String.utf8EncodeChar c ++ rest) = ⟨some c, String.utf8EncodeChar c⟩ :: steps rest := by
  obtain ⟨b, tail, hbytes, hreading⟩ := reading_encode c rest
  have hstep : stepAt b (tail ++ rest) = ⟨some c, b :: tail⟩ := by
    rw [stepAt, hreading]
    dsimp only
    rw [List.take_left]
  have hsteps : steps (b :: (tail ++ rest)) = stepAt b (tail ++ rest) ::
      stepsFrom ((stepAt b (tail ++ rest)).bytes.length - 1) (tail ++ rest) := rfl
  rw [hbytes, List.cons_append, hsteps, hstep, stepsFrom_eq_drop]
  exact congrArg (_ :: steps ·) List.drop_left

/-- The steps over the bytes of a text are its characters. It is an induction on the characters, of
which the first is read whatever stands behind it. -/
theorem steps_encode (cs : List Char) :
    steps (cs.flatMap String.utf8EncodeChar) =
      cs.map fun c => ⟨some c, String.utf8EncodeChar c⟩ := by
  induction cs with
  | nil => rfl
  | cons c rest ih => rw [List.flatMap_cons, steps_encode_cons, ih, List.map_cons]

theorem charsFrom_eq_drop (n : Nat) (bytes : List UInt8) :
    charsFrom n bytes = charsFrom 0 (bytes.drop n) := by
  induction bytes generalizing n with
  | nil => cases n <;> rfl
  | cons b rest ih =>
    cases n with
    | zero => rfl
    | succ n => exact ih n

/-- The bytes of a text are decoded without a replacement. -/
theorem decode_encode (cs : List Char) :
    decode (cs.flatMap String.utf8EncodeChar) = String.ofList cs := by
  suffices hchars : charsFrom 0 (cs.flatMap String.utf8EncodeChar) = cs by rw [decode, hchars]
  induction cs with
  | nil => rfl
  | cons c rest ih =>
    obtain ⟨b, tail, hbytes, hreading⟩ := reading_encode c (rest.flatMap String.utf8EncodeChar)
    rw [List.flatMap_cons, hbytes, List.cons_append, charsFrom, hreading]
    dsimp only
    rw [charsFrom_eq_drop, List.drop_left, ih, Option.getD_some]

/-- A byte past ASCII announces more bytes, if it announces anything. -/
theorem count_ne_zero_of_lead? {b : UInt8} {lead : Lead} (hb : ¬ b < 0x80)
    (h : lead? b = some lead) : lead.count ≠ 0 := by
  rw [lead?, if_neg hb] at h
  split at h
  · cases h
  split at h
  · obtain rfl := Option.some.inj h
    exact Nat.one_ne_zero
  split at h
  · obtain rfl := Option.some.inj h
    exact Nat.succ_ne_zero 1
  split at h
  · obtain rfl := Option.some.inj h
    exact Nat.succ_ne_zero 2
  · cases h

/-- Such a byte alone is replaced. -/
theorem decode_single {b : UInt8} (hb : ¬ b < 0x80) :
    decode [b] = String.singleton replacement := by
  have hreading : (reading b []).1 = none := by
    rw [reading]
    cases hlead : lead? b with
    | none => rfl
    | some lead =>
      have htail : continuations lead.count lead.low lead.high [] = [] := by
        cases lead.count <;> rfl
      have hcount : ([] : List UInt8).length ≠ lead.count :=
        (count_ne_zero_of_lead? hb hlead).symm
      dsimp only
      rw [htail, if_neg hcount]
  rw [decode, charsFrom]
  dsimp only
  rw [hreading]
  cases (reading b []).2 <;> rfl

/-! ## Strings -/

theorem toList_loop (bytes : ByteArray) (i : Nat) (before : List UInt8) :
    ByteArray.toList.loop bytes i before = before.reverse ++ bytes.data.toList.drop i := by
  fun_induction ByteArray.toList.loop bytes i before with
  | case1 i before h ih =>
    have hi : i < bytes.data.toList.length := h
    have hget : bytes.get! i = bytes.data.toList[i] := getElem!_pos bytes.data i h
    rw [ih, List.drop_eq_getElem_cons hi, hget, List.reverse_cons, List.append_assoc]
    rfl
  | case2 i before h =>
    rw [List.drop_eq_nil_of_le (Nat.not_lt.mp h), List.append_nil]

/-- The bytes of a text are those of its characters. -/
theorem encode_eq (s : String) : encode s = s.toList.flatMap String.utf8EncodeChar := by
  have hbytes : s.toUTF8 = s.toList.utf8Encode := by
    rw [← String.toByteArray_ofList, String.ofList_toList]
    rfl
  rw [encode, ByteArray.toList, toList_loop, hbytes, List.utf8Encode, List.data_toByteArray]
  rfl

/-! ## ASCII -/

/-- Characters of ASCII, and none of them is zero. -/
def Ascii (cs : List Char) : Prop :=
  ∀ c ∈ cs, 0 < c.toNat ∧ c.toNat < 0x80

-- Decided along the list: a quantifier over characters can also be decided by running through all
-- characters there are.
instance (cs : List Char) : Decidable (Ascii cs) :=
  List.decidableBAll _ cs

theorem Ascii.append {cs ds : List Char} (hcs : Ascii cs) (hds : Ascii ds) : Ascii (cs ++ ds) :=
  List.forall_mem_append.mpr ⟨hcs, hds⟩

end Treewalk.Utf8
