import Treewalk.Proofs.Grammar.Exact
import Treewalk.Proofs.Reader.Place
import Treewalk.Proofs.Scan.Cut
import Treewalk.Proofs.Scan.Glyphs

/-!
# Nothing is lost in a scan

A scan can be followed on the bytes of its source with a cursor. Before each token the cursor passes
the space bytes in front of it, and with the token it passes the bytes of the token. `Source.offset`
and `Source.start` say where it stands; they look at the bytes of the source and at the number of
bytes of a token, and at nothing else that the scan has found.

The cursor and the scan stay together (`Cursor`): what the cursor has not passed yet are the bytes
of the glyphs that the scan has not cut yet. So every token is what the source holds between the two
offsets, and what lies between tokens is space.

## Why there is a cursor

To say that a token is a stretch of the source one needs offsets, and a scan has none: it works on
glyphs. Adding offsets to tokens would put into the definition what is to be proved. The cursor
computes them from the outside. It sees the bytes of the source and how many bytes each token has,
and from these alone it follows where a token must be if nothing is lost; then the text is compared
with what stands there.

## Main definitions

* `isSpaceByte`, the bytes that may stand between tokens
* `Source.offset`, `Source.start`, the cursor behind a number of tokens, and before the next one
* `Source.Cursor`, the agreement of the cursor with the scan
* `Source.Lossless`, what the cursor finds about the tokens of a source

## Main results

* `Source.exists_cursor`: cursor and scan agree after any number of tokens
* `Source.scan_lossless`: tokens are the stretches of the source that they say, in order, with only
  space between them

## Implementation notes

Numbers of tokens go on behind the last one, where the token is the end for ever. So `Lossless`
needs no bound on numbers, and what is asked of the end is asked of every number from some point on.

The fields of `Lossless` are stated in terms of `offset` and `start` only. Whether the cursor is the
right one can be seen from its definition: it passes spaces, then a token.
-/

namespace Treewalk

/-- The bytes that may stand between tokens: space, tab, carriage return and line feed. -/
def isSpaceByte (b : UInt8) : Bool :=
  b = 0x20 || b = 0x09 || b = 0x0D || b = 0x0A

/-! ## Spaces as bytes and as glyphs -/

/-- A space is one space byte, and all else starts with another byte. -/
def Glyph.Spaced (g : Glyph) : Prop :=
  ∃ b rest, g.bytes = b :: rest ∧ isSpaceByte b = isSpace g.char ∧
    (isSpace g.char = true → rest = [])

theorem isSpace_of_isSpaceByte {b : UInt8} {c : Char} (h : b.toNat = c.toNat) :
    isSpaceByte b = isSpace c := by
  have hchar : ∀ d : Char, (c = d) = (b.toNat = d.toNat) := fun d => by
    rw [h, Char.toNat_inj]
  have hbyte : ∀ x : UInt8, (b = x) = (b.toNat = x.toNat) := fun x => by rw [UInt8.toNat_inj]
  simp only [isSpaceByte, isSpace, hchar, hbyte]
  rfl

theorem ascii_of_isSpaceByte {b : UInt8} (h : isSpaceByte b = true) : b < 0x80 := by
  simp only [isSpaceByte, Bool.or_eq_true, decide_eq_true_eq] at h
  obtain ((rfl | rfl) | rfl) | rfl := h <;> decide

theorem spaced_of_mem_glyphs {source : List UInt8} {g : Glyph} (h : g ∈ glyphs source) :
    g.Spaced := by
  obtain henc | ⟨hchar, b, hb, hascii⟩ := bytes_of_mem_glyphs h
  · obtain ⟨b, rest, hb⟩ := List.exists_cons_of_ne_nil
      (List.ne_nil_of_length_pos (String.length_utf8EncodeChar g.char ▸ g.char.utf8Size_pos))
    refine ⟨b, rest, henc.trans hb, ?_⟩
    have hmem : b ∈ String.utf8EncodeChar g.char := hb ▸ List.mem_cons_self
    cases hs : isSpace g.char with
    | true =>
      -- A space is an ASCII character, whose encoding is one byte.
      simp only [isSpace, Bool.or_eq_true, decide_eq_true_eq] at hs
      obtain ((hs | hs) | hs) | hs := hs <;> rw [hs] at hb <;> cases hb <;>
        exact ⟨rfl, fun _ => rfl⟩
    | false =>
      refine ⟨Bool.eq_false_iff.mpr fun hspace => ?_, fun h => absurd h (by decide)⟩
      have hcode := (Utf8.encode_eq_of_mem hmem (ascii_of_isSpaceByte hspace)).2
      rw [isSpace_of_isSpaceByte hcode, hs] at hspace
      exact absurd hspace (by decide)
  · refine ⟨b, [], hb, ?_, fun _ => rfl⟩
    rw [hchar]
    exact Bool.eq_false_iff.mpr fun hspace => hascii (ascii_of_isSpaceByte hspace)

/-- The space bytes at the front are those of the space glyphs at the front. -/
theorem takeWhile_isSpaceByte {gap rest : List Glyph} (hgap : ∀ g ∈ gap, isSpace g.char = true)
    (hrest : ∀ g ∈ rest.head?, isSpace g.char = false) (hspaced : ∀ g ∈ gap ++ rest, g.Spaced) :
    ((gap ++ rest).flatMap Glyph.bytes).takeWhile isSpaceByte = gap.flatMap Glyph.bytes := by
  have hfront : ∀ b ∈ gap.flatMap Glyph.bytes, isSpaceByte b = true := by
    intro b hb
    obtain ⟨g, hg, hb⟩ := List.mem_flatMap.mp hb
    obtain ⟨b', tail, hbytes, hspace, htail⟩ := hspaced g (List.mem_append_left _ hg)
    rw [hbytes, htail (hgap g hg), List.mem_singleton] at hb
    rw [hb, hspace, hgap g hg]
  rw [List.flatMap_append, List.takeWhile_append_of_pos hfront]
  rcases rest with _ | ⟨g, rest⟩
  · simp
  · obtain ⟨b, tail, hbytes, hspace, -⟩ := hspaced g (by simp)
    rw [hrest g rfl] at hspace
    rw [List.flatMap_cons, hbytes, List.cons_append, List.takeWhile_cons_of_neg (by simp [hspace]),
      List.append_nil]

/-! ## The cursor -/

namespace Source

/-- The number of bytes of a byte order mark at the start. -/
def markSize (source : List UInt8) : Nat :=
  if markBytes <+: source then markBytes.length else 0

/-- The offset behind the space bytes that stand at an offset. -/
def skip (source : List UInt8) (offset : Nat) : Nat :=
  offset + ((source.drop offset).takeWhile isSpaceByte).length

/-- The number of bytes of the token with a number; the end has none. -/
def width (source : List UInt8) (n : Nat) : Nat :=
  ((scan source).lexemes[n]?.map fun l => l.bytes.length).getD 0

/-- The cursor behind a number of tokens: it passes the mark at first, and then spaces and a token
at a time. -/
def offset (source : List UInt8) : Nat → Nat
  | 0 => markSize source
  | n + 1 => skip source (offset source n) + width source n

/-- The cursor at the start of the token with a number. -/
def start (source : List UInt8) (n : Nat) : Nat :=
  skip source (offset source n)

theorem offset_le_start (source : List UInt8) (n : Nat) : offset source n ≤ start source n :=
  Nat.le_add_right _ _

theorem start_le_offset_succ (source : List UInt8) (n : Nat) :
    start source n ≤ offset source (n + 1) :=
  Nat.le_add_right _ _

theorem offset_mono (source : List UInt8) {m n : Nat} (h : m ≤ n) :
    offset source m ≤ offset source n := by
  induction h with
  | refl => exact Nat.le_refl _
  | @step n _ ih =>
    exact ih.trans ((offset_le_start source n).trans (start_le_offset_succ source n))

/-- What lies between a token and the next is space. -/
theorem isSpaceByte_of_lt_start {source : List UInt8} {n i : Nat} {b : UInt8}
    (hle : offset source n ≤ i) (hlt : i < start source n) (hb : source[i]? = some b) :
    isSpaceByte b = true := by
  let front := (source.drop (offset source n)).takeWhile isSpaceByte
  have hi : i - offset source n < front.length := by
    change i < offset source n + front.length at hlt
    omega
  have hget : front[i - offset source n]? = some b := by
    obtain ⟨back, hback⟩ : front <+: source.drop (offset source n) := List.takeWhile_prefix _
    rw [← List.getElem?_append_left hi, hback, List.getElem?_drop, Nat.add_sub_cancel' hle, hb]
  exact List.mem_takeWhile_imp (List.mem_of_getElem? hget)

/-! ## The cursor and the scan -/

/-- Cursor and scan agree behind a number of tokens: the bytes not passed are those of the last
glyphs, and these yield the tokens to come. It is the invariant of a walk along the tokens, and
holds at the start with no token passed and in the end with all of them. -/
structure Cursor (source : List UInt8) (n : Nat) (rest : List Glyph) : Prop where
  bytes : source.drop (offset source n) = rest.flatMap Glyph.bytes
  ahead : lexemes rest = (scan source).lexemes.drop n
  within : offset source n ≤ source.length
  suffix : rest <:+ glyphs source

theorem Cursor.spaced {source : List UInt8} {n : Nat} {rest : List Glyph}
    (h : Cursor source n rest) : ∀ g ∈ rest, g.Spaced :=
  fun _ hg => spaced_of_mem_glyphs (h.suffix.mem hg)

theorem cursor_zero (source : List UInt8) : Cursor source 0 (glyphs source) where
  bytes := (flatMap_bytes_glyphs source).symm
  ahead := scan_lexemes source
  within := by
    rw [offset, markSize]
    split
    · next hm => exact hm.length_le
    · exact Nat.zero_le _
  suffix := List.suffix_refl _

section

variable {source : List UInt8} {n : Nat} {gap : List Glyph}

/-- The cursor passes exactly the space glyphs at the front. -/
theorem Cursor.start_eq {rest : List Glyph} (h : Cursor source n (gap ++ rest))
    (hgap : ∀ g ∈ gap, isSpace g.char = true) (hrest : ∀ g ∈ rest.head?, isSpace g.char = false) :
    start source n = offset source n + (gap.flatMap Glyph.bytes).length := by
  rw [start, skip, h.bytes, takeWhile_isSpaceByte hgap hrest h.spaced]

theorem Cursor.drop_start {rest : List Glyph} (h : Cursor source n (gap ++ rest))
    (hgap : ∀ g ∈ gap, isSpace g.char = true) (hrest : ∀ g ∈ rest.head?, isSpace g.char = false) :
    source.drop (start source n) = rest.flatMap Glyph.bytes := by
  rw [h.start_eq hgap hrest, ← List.drop_drop, h.bytes, List.flatMap_append, List.drop_left]

/-- In front of the last spaces, the cursor passes them and is at the end. -/
theorem Cursor.spaces (h : Cursor source n gap) (hgap : ∀ g ∈ gap, isSpace g.char = true) :
    (scan source).lexemes.length ≤ n ∧ start source n = source.length ∧
      Cursor source (n + 1) [] := by
  have hdone : (scan source).lexemes.length ≤ n := by
    rw [← List.drop_eq_nil_iff, ← h.ahead, lexemes_spaces hgap]
  have hrest : ∀ g ∈ ([] : List Glyph).head?, isSpace g.char = false := by simp
  have hstart : start source n = source.length := by
    have hle : source.length ≤ start source n := by
      have hdrop := Cursor.drop_start (gap.append_nil.symm ▸ h) hgap hrest
      exact List.drop_eq_nil_iff.mp hdrop
    have hlen := congrArg List.length h.bytes
    rw [Cursor.start_eq (gap.append_nil.symm ▸ h) hgap hrest] at hle ⊢
    have hwithin := h.within
    rw [List.length_drop] at hlen
    omega
  have hwidth : width source n = 0 := by
    rw [width, List.getElem?_eq_none hdone]
    rfl
  have hoffset : offset source (n + 1) = source.length := by
    rw [offset, hwidth]
    exact hstart
  refine ⟨hdone, hstart, ?_, ?_, Nat.le_of_eq hoffset, List.nil_suffix⟩
  · rw [hoffset, List.drop_length]
    rfl
  · rw [List.drop_eq_nil_of_le (by omega)]
    rfl

/-- In front of a token, the cursor passes the spaces, and then the bytes of the token. -/
theorem Cursor.token {g : Glyph} {rest : List Glyph} (h : Cursor source n (gap ++ g :: rest))
    (hgap : ∀ g ∈ gap, isSpace g.char = true) (hg : isSpace g.char = false) :
    (scan source).lexemes[n]? = some (lexemeAt gap g rest) ∧
      start source n < offset source (n + 1) ∧
      (source.drop (start source n)).take (offset source (n + 1) - start source n) =
        (lexemeAt gap g rest).bytes ∧
      Cursor source (n + 1) ((g :: rest).drop (shapeOf g rest).size) := by
  let l := lexemeAt gap g rest
  let behind := (g :: rest).drop (shapeOf g rest).size
  have hlexemes : (scan source).lexemes.drop n = l :: lexemes behind := by
    rw [← h.ahead, lexemes_token hgap hg]
  have hget : (scan source).lexemes[n]? = some l := by
    rw [← List.head?_drop, hlexemes]
    rfl
  have hoffset : offset source (n + 1) = start source n + l.bytes.length := by
    rw [offset, width, hget]
    rfl
  have hsplit : source.drop (start source n) = l.bytes ++ behind.flatMap Glyph.bytes := by
    rw [h.drop_start hgap (by simpa using hg),
      ← List.take_append_drop (shapeOf g rest).size (g :: rest), List.flatMap_append]
    rfl
  have hpos : 0 < l.bytes.length := by
    obtain ⟨more, hrun⟩ := exists_run_lexemeAt gap g rest
    obtain ⟨b, tail, hb, -⟩ := h.spaced g (by simp)
    rw [Lexeme.bytes, hrun, List.flatMap_cons, hb]
    exact Nat.succ_pos _
  refine ⟨hget, by omega, ?_, ?_, ?_, ?_, ?_⟩
  · rw [hsplit, hoffset, Nat.add_sub_cancel_left, List.take_left]
  · rw [hoffset, ← List.drop_drop, hsplit, List.drop_left]
  · rw [← List.drop_drop, hlexemes]
    rfl
  · have hlen := congrArg List.length hsplit
    rw [List.length_drop, List.length_append] at hlen
    omega
  · exact (List.drop_suffix _ _).trans ((List.suffix_append gap _).trans h.suffix)

end

/-- **Cursor and scan agree after any number of tokens.** The induction is on the number of tokens:
passing one token takes the glyphs of its space and those that are its own. -/
theorem exists_cursor (source : List UInt8) (n : Nat) : ∃ rest, Cursor source n rest := by
  induction n with
  | zero => exact ⟨_, cursor_zero source⟩
  | succ n ih =>
    obtain ⟨rest, h⟩ := ih
    induction rest using cutInduction with
    | spaces gap hgap => exact ⟨_, (h.spaces hgap).2.2⟩
    | token gap g rest hgap hg _ => exact ⟨_, (h.token hgap hg).2.2.2⟩

/-- A byte that the cursor passes is passed between two tokens or within one. -/
theorem exists_offset_le (source : List UInt8) {i n : Nat} (hle : offset source 0 ≤ i)
    (hlt : i < offset source n) : ∃ k, offset source k ≤ i ∧ i < offset source (k + 1) := by
  induction n with
  | zero => exact absurd hlt (Nat.not_lt.mpr hle)
  | succ n ih =>
    by_cases h : i < offset source n
    · exact ih h
    · exact ⟨n, Nat.not_lt.mp h, hlt⟩

/-! ## Tokens -/

section

variable (source : List UInt8) (n : Nat)

/-- The token with a number, the end for ever behind the last. -/
def token : Token :=
  endless (scan source).tokens (scan source).endToken n

/-- Past the last lexeme, the end. -/
theorem token_of_le (h : (scan source).lexemes.length ≤ n) :
    token source n = (scan source).endToken := by
  rw [token, endless, List.getElem?_eq_none (by simpa [Scan.tokens] using h)]
  rfl

theorem token_of_getElem? {l : Lexeme} (h : (scan source).lexemes[n]? = some l) :
    token source n = l.token := by
  rw [token, endless, Scan.tokens, List.getElem?_map, h]
  rfl

theorem token_kind_eq_eof_iff :
    (token source n).kind = .eof ↔ (scan source).lexemes.length ≤ n := by
  constructor
  · intro hkind
    by_contra hlt
    have hget := List.getElem?_eq_getElem (Nat.not_le.mp hlt)
    rw [token_of_getElem? source n hget] at hkind
    exact scan_tokens_kind_ne_eof source _ (List.mem_map_of_mem (List.mem_of_getElem? hget)) hkind
  · intro hle
    rw [token_of_le source n hle]
    rfl

/-- A token has the bytes that the cursor passes with it. -/
theorem bytes_of_token {l : Lexeme} (h : (scan source).lexemes[n]? = some l) :
    start source n < offset source (n + 1) ∧
      (source.drop (start source n)).take (offset source (n + 1) - start source n) = l.bytes := by
  obtain ⟨rest, hcursor⟩ := exists_cursor source n
  induction rest using cutInduction with
  | spaces gap hgap =>
    rw [List.getElem?_eq_none (hcursor.spaces hgap).1] at h
    cases h
  | token gap g rest hgap hg _ =>
    obtain ⟨hget, hlt, hbytes, -⟩ := hcursor.token hgap hg
    rw [hget] at h
    obtain rfl := Option.some.inj h
    exact ⟨hlt, hbytes⟩

/-- Past the last lexeme the cursor is at the end. -/
theorem start_of_le (h : (scan source).lexemes.length ≤ n) : start source n = source.length := by
  obtain ⟨rest, hcursor⟩ := exists_cursor source n
  induction rest using cutInduction with
  | spaces gap hgap => exact (hcursor.spaces hgap).2.1
  | token gap g rest hgap hg _ =>
    have hget := (hcursor.token hgap hg).1
    rw [List.getElem?_eq_none h] at hget
    cases hget

theorem offset_le_length : offset source n ≤ source.length := by
  obtain ⟨rest, hcursor⟩ := exists_cursor source n
  exact hcursor.within

end

/-- A scan of a source, as a cursor over its bytes sees it. -/
structure Lossless (source : List UInt8) : Prop where
  /-- The end comes after finitely many tokens. -/
  ends : ∃ n, (token source n).kind = .eof
  /-- The bytes of a token are behind those of the tokens before it. -/
  ordered : ∀ {m n}, m < n → offset source (m + 1) ≤ start source n
  /-- They are bytes of the source. -/
  within : ∀ n, start source n ≤ offset source (n + 1) ∧ offset source (n + 1) ≤ source.length
  /-- Every token but the end takes some. -/
  progress : ∀ n, (token source n).kind ≠ .eof → start source n < offset source (n + 1)
  /-- The text of a token is what its bytes say. -/
  text : ∀ n, (token source n).text =
    Utf8.decode ((source.drop (start source n)).take (offset source (n + 1) - start source n))
  /-- Between tokens there is nothing but space, and a mark at the start. -/
  between : ∀ i b, source[i]? = some b → (∀ n, ¬ (start source n ≤ i ∧ i < offset source (n + 1))) →
    i < markSize source ∨ isSpaceByte b = true
  /-- The end is found where the source ends, and only there. -/
  eof : ∀ n, (token source n).kind = .eof ↔ start source n = source.length
  /-- Behind the end there is only the end again, and no more to note. -/
  repeats : ∀ {m n}, (token source m).kind = .eof → m ≤ n → token source n = token source m ∧
    (scan source).notesThrough n = (scan source).notesThrough m

/-- **Nothing is lost in a scan.** -/
theorem scan_lossless (source : List UInt8) : Lossless source := by
  let last := (scan source).lexemes.length
  have hlast : start source last = source.length := start_of_le source last (Nat.le_refl _)
  -- A token is past the last lexeme, or it is a lexeme.
  have htoken : ∀ n, last ≤ n ∨ ∃ l, (scan source).lexemes[n]? = some l := by
    intro n
    by_cases h : n < last
    · exact .inr ⟨_, List.getElem?_eq_getElem h⟩
    · exact .inl (Nat.not_lt.mp h)
  constructor
  case ends => exact ⟨last, (token_kind_eq_eof_iff source last).mpr (Nat.le_refl _)⟩
  case ordered =>
    intro m n h
    exact (offset_mono source h).trans (offset_le_start source n)
  case within => exact fun n => ⟨start_le_offset_succ source n, offset_le_length source (n + 1)⟩
  case progress =>
    intro n hkind
    obtain hle | ⟨l, hl⟩ := htoken n
    · exact absurd ((token_kind_eq_eof_iff source n).mpr hle) hkind
    · exact (bytes_of_token source n hl).1
  case text =>
    intro n
    obtain hle | ⟨l, hl⟩ := htoken n
    · rw [token_of_le source n hle, start_of_le source n hle, List.drop_length, List.take_nil]
      rfl
    · rw [token_of_getElem? source n hl, (bytes_of_token source n hl).2]
      rfl
  case between =>
    intro i b hb hout
    by_cases hmark : i < markSize source
    · exact .inl hmark
    · have hi : i < offset source (last + 1) := by
        have hlen := (List.getElem?_eq_some_iff.mp hb).1
        have := start_le_offset_succ source last
        omega
      obtain ⟨n, hle, hlt⟩ := exists_offset_le source (Nat.not_lt.mp hmark) hi
      exact .inr (isSpaceByte_of_lt_start hle (Nat.not_le.mp fun h => hout n ⟨h, hlt⟩) hb)
  case eof =>
    intro n
    rw [token_kind_eq_eof_iff]
    constructor
    · exact start_of_le source n
    · intro hstart
      obtain hle | ⟨l, hl⟩ := htoken n
      · exact hle
      · have hlt := (bytes_of_token source n hl).1
        have hle := offset_le_length source (n + 1)
        omega
  case repeats =>
    intro m n hkind hmn
    have hm := (token_kind_eq_eof_iff source m).mp hkind
    have hn := hm.trans hmn
    rw [token_of_le source m hm, token_of_le source n hn, Scan.notesThrough, Scan.notesThrough,
      List.take_of_length_le hm, List.take_of_length_le hn]
    exact ⟨rfl, rfl⟩

end Source

end Treewalk
