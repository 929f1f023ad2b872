import Mathlib.Logic.ExistsUnique
import Treewalk.Proofs.Eval.Builtin
import Treewalk.Session

/-!
# Formats have one reading

A format is a list of pieces with placeholders between them. Braces of the pieces may stand next to
those of a placeholder, and still no other cut is possible: a placeholder cannot begin with the last
character of a piece, because an opening brace follows, nor end with the first character of one,
because a closing brace comes before. So reading a format and putting its pieces together again are
inverse to each other, and filling it in is a matter of the pieces alone. What is put in is never
read.

A print statement and the built-in `format` fill in the same text.

## Main definitions

* `Template.placeholder`, `Template.Solid`, a piece without a placeholder
* `Template.Filled`, what filling in the pieces of a format gives
* `Template.Printed`, printing a format and calling `format`

## Main results

* `Template.ofChars_intercalate`, `Template.solid_ofChars`, `Template.intercalate_ofChars`: reading
  a format and putting its pieces together
* `Template.format_positional`

## Implementation notes

Uniqueness is reduced to reading: if a format is put together from solid pieces, then reading it
gives these pieces, so any two ways to put it together agree. The alternative would be to compare
two lists of pieces directly, by induction on both with the placeholder at different places, and
this is the argument that the reader already makes.

That a piece is solid is a statement about infixes and not about the reader. So the result can be
understood, and a piece be checked, without reading how a format is read.

`Printed` compares results and not texts alone. Both runs may stop, and for the same reason, while
the wording names the one or the other.
-/

namespace Treewalk

namespace Template

/-- What a value takes the place of. -/
def placeholder : String := "\x7b\x7d"

/-- A piece of text without a placeholder. -/
def Solid (piece : List Char) : Prop :=
  ¬ placeholder.toList <:+: piece

instance (piece : List Char) : Decidable (Solid piece) :=
  inferInstanceAs (Decidable (¬ placeholder.toList <:+: piece))

/-- The pieces of a format. -/
def pieces (t : Template) : List (List Char) :=
  t.first :: t.more

variable {cs piece rest : List Char} {c : Char}

theorem toList_placeholder : placeholder.toList = ['{', '}'] := by decide

/-! ## Pieces -/

theorem solid_nil : Solid [] := by
  rw [Solid, List.infix_nil, toList_placeholder]
  exact List.cons_ne_nil _ _

/-- A character may be put in front of a piece unless the two brace a placeholder. -/
theorem solid_cons : Solid (c :: piece) ↔ ¬ (c = '{' ∧ piece.head? = some '}') ∧ Solid piece := by
  rw [Solid, List.infix_cons_iff, not_or, toList_placeholder, List.cons_prefix_cons]
  refine and_congr (not_congr (and_congr eq_comm ?_)) (by rw [Solid, toList_placeholder])
  cases piece with
  | nil => simp
  | cons d piece => simp [eq_comm]

theorem ofChars_cons (h : ¬ (c = '{' ∧ rest.head? = some '}')) :
    ofChars (c :: rest) = ⟨c :: (ofChars rest).first, (ofChars rest).more⟩ := by
  rw [ofChars]
  rintro rest' rfl rfl
  exact h ⟨rfl, rfl⟩

/-- A piece without a placeholder is read to its end. -/
theorem ofChars_solid (h : Solid piece) : ofChars piece = ⟨piece, []⟩ := by
  induction piece with
  | nil => rfl
  | cons c piece ih =>
    obtain ⟨hc, hsolid⟩ := solid_cons.mp h
    rw [ofChars_cons hc, ih hsolid]

/-- And so it is in front of a placeholder. -/
theorem ofChars_append (h : Solid piece) (rest : List Char) :
    ofChars (piece ++ placeholder.toList ++ rest) = ⟨piece, (ofChars rest).pieces⟩ := by
  rw [toList_placeholder]
  induction piece with
  | nil => rfl
  | cons c piece ih =>
    obtain ⟨hc, hsolid⟩ := solid_cons.mp h
    have hnext : ¬ (c = '{' ∧ (piece ++ ['{', '}'] ++ rest).head? = some '}') := by
      rintro ⟨rfl, hhead⟩
      cases piece with
      | nil => cases hhead
      | cons d piece => exact hc ⟨rfl, hhead⟩
    rw [List.cons_append, List.cons_append, ofChars_cons hnext, ih hsolid]

/-- The pieces that a format is put together from are read in it. Pieces that have no placeholder
cannot be cut further, and none can come about where two of them meet with a placeholder between
them. -/
theorem ofChars_intercalate {first : List Char} {more : List (List Char)}
    (h : ∀ p ∈ first :: more, Solid p) :
    ofChars (placeholder.toList.intercalate (first :: more)) = ⟨first, more⟩ := by
  induction more generalizing first with
  | nil =>
    rw [List.intercalate_singleton]
    exact ofChars_solid (h first List.mem_cons_self)
  | cons second more ih =>
    rw [List.forall_mem_cons] at h
    rw [List.intercalate_cons_cons, ofChars_append h.1, ih h.2]
    rfl

theorem intercalate_cons_first (separator : List Char) (c : Char) (first : List Char)
    (more : List (List Char)) : separator.intercalate ((c :: first) :: more) =
      c :: separator.intercalate (first :: more) := by
  cases more with
  | nil => rw [List.intercalate_singleton, List.intercalate_singleton]
  | cons second more =>
    rw [List.intercalate_cons_cons, List.intercalate_cons_cons, List.cons_append, List.cons_append]

/-- A format is put together from the pieces that are read in it. -/
theorem intercalate_ofChars (cs : List Char) :
    placeholder.toList.intercalate (ofChars cs).pieces = cs := by
  rw [toList_placeholder]
  fun_induction ofChars cs with
  | case1 => rfl
  | case2 rest t ih =>
    rw [pieces, List.intercalate_cons_cons]
    exact congrArg (['{', '}'] ++ ·) ih
  | case3 c rest _ t ih =>
    rw [pieces, intercalate_cons_first]
    exact congrArg (c :: ·) ih

/-- The first piece is what the format starts with. -/
theorem head?_first (h : (ofChars cs).first.head? = some c) : cs.head? = some c := by
  fun_cases ofChars cs with
  | case1 => exact h
  | case2 rest => cases h
  | case3 d rest hc =>
    rw [ofChars] at h
    · exact h
    · exact hc

/-- The pieces that are read in a format have no placeholder. -/
theorem solid_ofChars (cs : List Char) : ∀ p ∈ (ofChars cs).pieces, Solid p := by
  fun_induction ofChars cs with
  | case1 => exact List.forall_mem_singleton.mpr solid_nil
  | case2 rest t ih => exact List.forall_mem_cons.mpr ⟨solid_nil, ih⟩
  | case3 c rest hc t ih =>
    obtain ⟨hfirst, hmore⟩ := List.forall_mem_cons.mp ih
    refine List.forall_mem_cons.mpr ⟨solid_cons.mpr ⟨?_, hfirst⟩, hmore⟩
    rintro ⟨rfl, hhead⟩
    obtain ⟨rest', rfl⟩ := List.head?_eq_some_iff.mp (head?_first hhead)
    exact hc rest' rfl rfl

/-! ## Texts -/

/-- A format is read as its pieces, if none of them has a placeholder. -/
theorem ofText_intercalate {first : String} {more : List String}
    (h : ∀ p ∈ first :: more, Solid p.toList) :
    ofText (placeholder.intercalate (first :: more)) = ⟨first.toList, more.map String.toList⟩ := by
  rw [ofText, String.toList_intercalate, List.map_cons]
  exact ofChars_intercalate (by simpa using h)

/-- **One reading.** Every format is put together from one list of pieces without a placeholder. -/
theorem existsUnique_pieces (format : String) : ∃! pieces : List String,
    pieces ≠ [] ∧ (∀ p ∈ pieces, Solid p.toList) ∧ format = placeholder.intercalate pieces := by
  refine ⟨(ofText format).pieces.map String.ofList, ⟨List.cons_ne_nil _ _, ?_, ?_⟩, ?_⟩
  · simpa [ofText] using solid_ofChars format.toList
  · rw [← String.toList_inj, String.toList_intercalate, List.map_map]
    simpa [Function.comp_def, ofText] using (intercalate_ofChars format.toList).symm
  · rintro pieces ⟨hne, hsolid, rfl⟩
    obtain ⟨first, more, rfl⟩ := List.exists_cons_of_ne_nil hne
    rw [ofText_intercalate hsolid, Template.pieces, List.map_cons, String.ofList_toList,
      List.map_map]
    simp [Function.comp_def]

/-- Values and pieces in turn, as texts. -/
theorem interleave_eq (args : List Value) (more : List String) :
    interleave (args.map fun v => v.display.toList) (more.map String.toList) =
      (String.join (List.zipWith (fun v p => v.display ++ p) args more)).toList := by
  rw [String.toList_join]
  induction args generalizing more with
  | nil => rfl
  | cons v args ih =>
    cases more with
    | nil => rfl
    | cons p more =>
      rw [List.map_cons, List.map_cons, interleave, ih, List.zipWith_cons_cons, List.flatMap_cons,
        String.toList_append]

/-! ## Filling in -/

/-- What filling in the pieces of a format with values gives. -/
structure Filled (context first : String) (more : List String) (args : List Value) : Prop where
  /-- With too few values it fails, and says how many there should be. -/
  short : args.length < more.length →
    render context (placeholder.intercalate (first :: more)) args =
      .error (.placeholders context more.length args.length)
  /-- With enough of them the values stand between the pieces, in their order and as they are; what
  is left of them is not shown. -/
  filled : more.length ≤ args.length → (∀ v ∈ args.take more.length, v.untextual? = none) →
    render context (placeholder.intercalate (first :: more)) args =
      .ok (first ++ String.join (List.zipWith (fun v p => v.display ++ p) args more))
  /-- It can only fail then if one of them has no text, which is no fault of a program. -/
  enough : more.length ≤ args.length → ∀ cause,
    render context (placeholder.intercalate (first :: more)) args = .error cause →
      cause.category = .layout

theorem filled_of_solid (context : String) {first : String} {more : List String}
    (h : ∀ p ∈ first :: more, Solid p.toList) (args : List Value) :
    Filled context first more args := by
  have hreading := ofText_intercalate h
  have hholes : holes ⟨first.toList, more.map String.toList⟩ = more.length := List.length_map _
  constructor
  · intro hlt
    unfold render
    simp only [hreading, hholes]
    rw [if_pos hlt]
  · intro hle htexts
    unfold render
    simp only [hreading, hholes]
    rw [if_neg (Nat.not_lt.mpr hle), checkTexts_of_textual htexts, fill, interleave_eq,
      ← String.toList_append, String.ofList_toList]
    rfl
  · intro hle cause hcause
    unfold render at hcause
    simp only [hreading, hholes] at hcause
    rw [if_neg (Nat.not_lt.mpr hle)] at hcause
    exact category_of_checkTexts (error_of_map hcause)

/-! ## Printing -/

/-- What a print statement adds to a format that does not end its line. -/
def lineEnd (format : String) : String :=
  if format.toList.getLast? = some '\n' then "" else "\n"

/-- A call of `format` and a print statement that come to the same: the text of the one is written
by the other, with a line feed at the end, or both fail and nothing is written. -/
def Printed (format : String) (m : Machine) (called : EStateM.Result Stop Machine Value)
    (printed : EStateM.Result Stop Machine Flow) : Prop :=
  (∃ text, called = .ok (.string text) m ∧
    printed = .ok .next { m with output := m.output ++ (text ++ lineEnd format) }) ∨
  ∃ stop stop', called = .error stop m ∧ printed = .error stop' m

/-- The context of a format matters to the message alone. -/
theorem render_cases (format : String) (args : List Value) :
    (∃ text, ∀ context, render context format args = .ok text) ∨
      ∀ context, ∃ cause, render context format args = .error cause := by
  unfold render
  simp only
  split
  · exact .inr fun context => ⟨_, rfl⟩
  · cases checkTexts 1 2 (args.take (ofText format).holes) with
    | ok => exact .inl ⟨_, fun _ => rfl⟩
    | error cause => exact .inr fun _ => ⟨cause, rfl⟩

theorem printText_of_render {format text : String} (hf : format ≠ "") {args : List Value}
    (h : render "print" format args = .ok text) :
    printText format args = .ok (text ++ lineEnd format) := by
  have hempty : ¬ format.isEmpty = true := by simpa using hf
  rw [printText, if_neg hempty, h, lineEnd]
  change Except.ok (if _ then _ else _) = _
  split
  · rw [String.append_empty]
  · rfl

theorem printText_of_render_error {format : String} (hf : format ≠ "") {args : List Value}
    {cause : Fault} (h : render "print" format args = .error cause) :
    printText format args = .error cause := by
  have hempty : ¬ format.isEmpty = true := by simpa using hf
  rw [printText, if_neg hempty, h]
  rfl

/-- When its arguments have values, a print statement comes to the same as a call of `format`. -/
theorem printed_of_each {format : String} (hf : format ≠ "") {limit n : Nat} {f : FrameId}
    {m m' : Machine} {args : List Expr} {vs : List Value} (mark : Mark)
    (h : Run.each (fun e => Run.eval limit n e f) args m = .ok vs m') :
    Printed format m' (Builtin.format.call (.string format :: vs) m')
      (Run.exec limit (n + 1) (.print mark format args) f m) := by
  have hcall : Builtin.format.call (.string format :: vs) = do
      return .string (← Run.lift (render "format" format vs)) := rfl
  rw [hcall, Run.exec_print mark format h]
  obtain ⟨text, htext⟩ | herror := render_cases format vs
  · rw [htext, printText_of_render hf (htext "print")]
    exact .inl ⟨text, rfl, rfl⟩
  · obtain ⟨cause, hcause⟩ := herror "format"
    obtain ⟨cause', hcause'⟩ := herror "print"
    rw [hcause, printText_of_render_error hf hcause']
    exact .inr ⟨_, _, rfl, rfl⟩

/-- **Formats are filled in by position, and once.** Every format is put together in one way from
pieces without a placeholder. Filling it in fails for want of values if there are fewer of them than
placeholders; otherwise it gives the pieces with the values between them, in their order, whatever
the texts of the values contain. A print statement with a format that is not empty writes what
`format` gives for the same values, and a line feed. -/
theorem format_positional :
    (∀ format : String, ∃! pieces : List String,
      pieces ≠ [] ∧ (∀ p ∈ pieces, Solid p.toList) ∧ format = placeholder.intercalate pieces) ∧
    (∀ (context first : String) (more : List String) (args : List Value),
      (∀ p ∈ first :: more, Solid p.toList) → Filled context first more args) ∧
    ∀ (format : String) (limit n : Nat) (f : FrameId) (m m' : Machine) (args : List Expr)
      (vs : List Value) (mark : Mark), format ≠ "" →
      Run.each (fun e => Run.eval limit n e f) args m = .ok vs m' →
        Printed format m' (Builtin.format.call (.string format :: vs) m')
          (Run.exec limit (n + 1) (.print mark format args) f m) :=
  ⟨existsUnique_pieces, fun context _ _ args h => filled_of_solid context h args,
    fun _ _ _ _ _ _ _ _ mark hf h => printed_of_each hf mark h⟩

/-- An opening and a closing brace around a placeholder stay, and a placeholder that is put in is
not one of the format. -/
theorem format_positional_braces :
    render "format" "\x7b\x7b\x7d\x7d" [.string "\x7b\x7d", .nil] =
        .ok "\x7b\x7b\x7d\x7d" ∧
      Printed "\x7b\x7d!" (Session.start none "").machine
        (Builtin.format.call [.string "\x7b\x7d!", .nil] (Session.start none "").machine)
        (Run.exec 9 9 (.print .absent "\x7b\x7d!" [.nil .absent]) 0
          (Session.start none "").machine) := by
  obtain ⟨-, hfilled, hprinted⟩ := format_positional
  refine ⟨?_, hprinted _ 9 8 0 _ _ [.nil .absent] [.nil] .absent (by decide) rfl⟩
  refine (hfilled "format" "\x7b" ["\x7d"] [.string "\x7b\x7d", .nil] ?_).filled (by decide) ?_
  · decide
  · decide

end Template

end Treewalk
