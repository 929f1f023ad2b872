import Treewalk.Proofs.Eval.Operators
import Treewalk.Proofs.Eval.Proper

/-!
# Texts on one line

A text in a program is a part of a line of its source or a line of its input, so no character and no
string has a line feed in it. Filling in a format puts such texts together and nothing else, and the
ways in which values of other sorts are shown have no line feed either. So there is none in anything
that a program can show.

## Main definitions

* `Value.Unbroken`, the value is shown on one line
* `Code.Unbroken`, the texts and names in a node have no line feed
* `unbroken`, the invariant that everything is proper and on one line

## Main results

* `newline_notMem_render`, `newline_notMem_joined`: texts that are shown together
* `unbroken_stable`: evaluation keeps everything on one line

## Implementation notes

The invariant includes `proper`, for it could not be kept without it: what an operator gives is on
one line because it is a truth value or a finite number, and that it is finite is what `proper`
says. Proofs about operators are then those of the other invariant, together with the fact that
operators make no texts.

A closure is shown by its name, so a name is one of the texts that must not be broken; and it makes
values when it is called, so its body has to consist of such code. Both are in `Value.Lined`, which
is why it is not simply a statement about what is shown.

The lemmas on texts track characters and not line feeds: a filled-in format is made of the
characters of its parts, whichever character is asked for.
-/

namespace Treewalk

/-! ## Numbers -/

namespace Decimal

theorem newline_notMem_digits (n : Nat) : '\n' ∉ Nat.toDigits 10 n := fun h =>
  absurd (Nat.isDigit_of_mem_toDigits (by decide) (by decide) h) (by decide)

theorem newline_notMem_pointed {digits : List Char} (h : '\n' ∉ digits) (place : Int) :
    '\n' ∉ pointed digits place := by
  have htake (n : Nat) : '\n' ∉ digits.take n := fun hmem => h (List.mem_of_mem_take hmem)
  have hdrop (n : Nat) : '\n' ∉ digits.drop n := fun hmem => h (List.mem_of_mem_drop hmem)
  unfold pointed
  split
  · simp [h]
  · split
    · simp [htake, hdrop]
    · exact h

theorem newline_notMem_exponentText {letter : Char} (h : letter ≠ '\n') (n : Int) :
    '\n' ∉ exponentText letter n := by
  have hsign : (if n < 0 then '-' else '+') ≠ '\n' := by split <;> decide
  simp [exponentText, h.symm, hsign.symm, newline_notMem_digits]

theorem newline_notMem_magnitudeText {letter : Char} (h : letter ≠ '\n') (coefficient : Nat)
    (exponent : Int) : '\n' ∉ magnitudeText letter coefficient exponent := by
  have hpointed := newline_notMem_pointed (newline_notMem_digits coefficient)
  unfold magnitudeText
  simp only
  split
  · exact hpointed _
  · rw [List.mem_append]
    exact not_or_intro (hpointed _) (newline_notMem_exponentText h _)

/-- A finite decimal is shown on one line. -/
theorem newline_notMem_display {d : Decimal} (h : d.isFinite = true) :
    '\n' ∉ d.display.toList := by
  obtain ⟨negative, coefficient, exponent, rfl⟩ := exists_finite h
  have hsign : '\n' ∉ if negative then ['-'] else [] := by cases negative <;> decide
  rw [display, text, String.toList_ofList, List.mem_append]
  exact not_or_intro hsign (newline_notMem_magnitudeText (by decide) _ _)

end Decimal

theorem newline_notMem_toString (n : Int) : '\n' ∉ (toString n).toList := by
  rw [Int.toString_eq_repr, Int.repr_eq_if]
  split
  · rw [Nat.toList_repr]
    exact Decimal.newline_notMem_digits _
  · rw [String.toList_append, Nat.toList_repr, List.mem_append]
    exact not_or_intro (by decide) (Decimal.newline_notMem_digits _)

/-! ## Texts that are put together -/

namespace Template

variable {c : Char}

/-- The pieces of a format are made of its characters. -/
theorem mem_of_mem_pieces {cs : List Char} :
    (c ∈ (ofChars cs).first → c ∈ cs) ∧ ∀ piece ∈ (ofChars cs).more, c ∈ piece → c ∈ cs := by
  induction cs using ofChars.induct with
  | case1 => simp [ofChars]
  | case2 rest ih =>
    rw [ofChars]
    simp only [List.forall_mem_cons]
    refine ⟨fun h => absurd h List.not_mem_nil, fun h => ?_, fun piece hp hc => ?_⟩
    · exact List.mem_cons_of_mem _ (List.mem_cons_of_mem _ (ih.1 h))
    · exact List.mem_cons_of_mem _ (List.mem_cons_of_mem _ (ih.2 piece hp hc))
  | case3 c' rest hbrace ih =>
    rw [ofChars]
    · refine ⟨fun h => ?_, fun piece hp hc => List.mem_cons_of_mem _ (ih.2 piece hp hc)⟩
      rcases List.mem_cons.mp h with rfl | h
      · exact List.mem_cons_self
      · exact List.mem_cons_of_mem _ (ih.1 h)
    · exact hbrace

theorem mem_of_mem_interleave {texts pieces : List (List Char)} (h : c ∈ interleave texts pieces) :
    (∃ text ∈ texts, c ∈ text) ∨ ∃ piece ∈ pieces, c ∈ piece := by
  induction texts generalizing pieces with
  | nil => exact absurd h List.not_mem_nil
  | cons text texts ih =>
    cases pieces with
    | nil => exact absurd h List.not_mem_nil
    | cons piece pieces =>
      rw [interleave, List.mem_append, List.mem_append] at h
      rcases h with (h | h) | h
      · exact .inl ⟨text, List.mem_cons_self, h⟩
      · exact .inr ⟨piece, List.mem_cons_self, h⟩
      · rcases ih h with ⟨text', ht, hc⟩ | ⟨piece', hp, hc⟩
        · exact .inl ⟨text', List.mem_cons_of_mem _ ht, hc⟩
        · exact .inr ⟨piece', List.mem_cons_of_mem _ hp, hc⟩

/-- A format that is filled in is made of its own characters and those of what is put in. -/
theorem mem_of_mem_fill {cs : List Char} {texts : List (List Char)}
    (h : c ∈ (ofChars cs).fill texts) : c ∈ cs ∨ ∃ text ∈ texts, c ∈ text := by
  rw [fill, List.mem_append] at h
  rcases h with h | h
  · exact .inl (mem_of_mem_pieces.1 h)
  · rcases mem_of_mem_interleave h with htext | ⟨piece, hp, hc⟩
    · exact .inr htext
    · exact .inl (mem_of_mem_pieces.2 piece hp hc)

end Template

/-- The value is shown on one line; a character or a string is shown as it is. -/
def Value.Unbroken (v : Value) : Prop :=
  '\n' ∉ v.display.toList

theorem newline_notMem_displays {args : List Value} (h : ∀ v ∈ args, v.Unbroken) :
    ¬ ∃ text ∈ args.map fun v => v.display.toList, '\n' ∈ text := by
  rintro ⟨_, hmem, hc⟩
  obtain ⟨v, hv, rfl⟩ := List.mem_map.mp hmem
  exact h v hv hc

theorem newline_notMem_render {context pattern text : String} {args : List Value}
    (hp : '\n' ∉ pattern.toList) (ha : ∀ v ∈ args, v.Unbroken)
    (ht : render context pattern args = .ok text) : '\n' ∉ text.toList := by
  intro hc
  unfold render at ht
  simp only at ht
  split at ht
  · cases ht
  · cases hcheck : checkTexts 1 2 (args.take (Template.ofText pattern).holes) with
    | error cause =>
      rw [hcheck] at ht
      cases ht
    | ok _ =>
      rw [hcheck] at ht
      cases ht
      rw [String.toList_ofList] at hc
      exact (Template.mem_of_mem_fill hc).elim hp (newline_notMem_displays ha)

theorem mem_of_mem_intercalate {c : Char} {separator : List Char} {texts : List (List Char)}
    (h : c ∈ separator.intercalate texts) : c ∈ separator ∨ ∃ text ∈ texts, c ∈ text := by
  induction texts with
  | nil => exact absurd h List.not_mem_nil
  | cons text texts ih =>
    rw [List.exists_mem_cons_iff]
    cases texts with
    | nil =>
      rw [List.intercalate_singleton] at h
      exact .inr (.inl h)
    | cons text' texts =>
      rw [List.intercalate_cons_cons, List.mem_append, List.mem_append] at h
      rcases h with (h | h) | h
      · exact .inr (.inl h)
      · exact .inl h
      · exact (ih h).imp_right .inr

theorem newline_notMem_joined {separator : String} (hs : '\n' ∉ separator.toList)
    {args : List Value} (ha : ∀ v ∈ args, v.Unbroken) :
    '\n' ∉ (joined separator args).toList := by
  rw [joined, String.toList_ofList]
  exact fun hc => (mem_of_mem_intercalate hc).elim hs (newline_notMem_displays ha)

/-- A line of input has no line feed. -/
theorem newline_notMem_lineOf (input : List Char) : '\n' ∉ Run.lineOf input := by
  have hline : '\n' ∉ input.takeWhile (· ≠ '\n') := fun h => by
    simpa using List.mem_takeWhile_imp h
  unfold Run.lineOf
  simp only
  split
  · exact fun h => hline ((List.dropLast_sublist _).subset h)
  · exact hline

/-! ## Values and code -/

/-- The texts in a node and the name of the function that it makes have no line feed. -/
def Code.Unbroken : Code → Prop
  | .expr (.char _ text) | .expr (.string _ text) | .stmt (.print _ text _)
  | .stmt (.define _ text _ _) => '\n' ∉ text.toList
  | _ => True

/-- A node of a source. -/
structure Code.Lined (c : Code) : Prop where
  proper : c.Proper
  unbroken : c.Unbroken

/-- A value that the code of a source can make: it is shown on one line, and so is whatever its body
makes if it is a function. -/
structure Value.Lined (v : Value) : Prop where
  proper : v.Proper
  unbroken : v.Unbroken
  body {c : Closure} (hc : v = .closure c) : Code.All Code.Lined (.stmt c.body)

namespace Value

variable {v : Value}

/-- A proper truth value or number is shown on one line. -/
theorem lined_of_isScalar (hv : v.Proper) (hs : v.isScalar = true) : v.Lined := by
  refine ⟨hv, ?_, fun hc => by rw [hc] at hs; cases hs⟩
  rw [Unbroken]
  cases v with
  | bool value => cases value <;> decide
  | int value => exact newline_notMem_toString value
  | float value => exact Decimal.newline_notMem_display hv
  | mixed => exact hv.elim
  | _ => cases hs

theorem lined_nil : Value.nil.Lined :=
  ⟨trivial, by rw [Unbroken]; decide, fun hc => by cases hc⟩

theorem lined_char {text : String} (h : '\n' ∉ text.toList) : (char text).Lined :=
  ⟨trivial, h, fun hc => by cases hc⟩

theorem lined_string {text : String} (h : '\n' ∉ text.toList) : (string text).Lined :=
  ⟨trivial, h, fun hc => by cases hc⟩

theorem lined_builtin (b : Builtin) : (builtin b).Lined :=
  ⟨trivial, by cases b <;> (rw [Unbroken]; decide), fun hc => by cases hc⟩

/-- A function is called by its name, which has no line feed, or has none. -/
theorem lined_closure {c : Code} {name : Option String} {params : List String} {body : Stmt}
    (hc : Code.All Code.Lined c) (hp : c.function? = some (name, params, body)) (id : Nat)
    (f : FrameId) : (closure ⟨id, name, params, body, f⟩).Lined := by
  have hbody := hc.part (Code.mem_parts_of_function? hp)
  refine ⟨hbody.imp fun _ => Code.Lined.proper, ?_, fun h => by cases h; exact hbody⟩
  have hname : ∀ n ∈ name, '\n' ∉ n.toList := by
    rcases c with e | s
    · cases e <;> cases hp
      exact fun n hn => by cases hn
    · cases s <;> cases hp
      rintro n ⟨⟩
      exact hc.here.unbroken
  have hlabel : '\n' ∉ (Closure.label ⟨id, name, params, body, f⟩).toList := by
    cases name with
    | none =>
      change '\n' ∉ "lambda".toList
      decide
    | some n =>
      rw [Closure.label]
      simp only
      split
      · decide
      · exact hname n rfl
  rw [Unbroken, display]
  simpa using hlabel

end Value

/-! ## Evaluation -/

/-- Everything is proper and on one line. -/
def unbroken : Invariant where
  state m := m.store.Holds Value.Lined
  grows _ _ := True
  value _ v := v.Lined
  frame _ _ := True
  owned _ _ := True
  code _ _ := Code.All Code.Lined
  fault _ := True

/-- The result of an operator is no text. -/
theorem unbroken_yields {m : Machine} {kind : Kind} {x : Except Fault Value}
    (hx : proper.Yields x Value.Proper) (ho : Value.Operates kind x) :
    unbroken.Yields x (unbroken.value m) := by
  cases x with
  | ok v => exact Value.lined_of_isScalar hx ho
  | error cause => trivial

theorem unbroken_stable : unbroken.Stable where
  refl _ := trivial
  trans _ _ := trivial
  value_grows _ hv := hv
  frame_grows _ _ := trivial
  owned_grows _ _ := trivial
  part hc hd := hc.part hd
  literal := by
    intro m f e v hc hv
    have hl : Code.Lined (.expr e) := hc.here
    cases e <;> cases hv
    case char => exact Value.lined_char hl.unbroken
    case string => exact Value.lined_string hl.unbroken
    case nil => exact Value.lined_nil
    case mixed => exact hl.proper.elim
    case float => exact Value.lined_of_isScalar hl.proper rfl
    all_goals exact Value.lined_of_isScalar trivial rfl
  nil _ := Value.lined_nil
  lookup hm _ hv := hm.get? hv
  assign hm _ _ hv := ⟨hm.define hv _ _, trivial⟩
  declare name hm _ _ hv := ⟨hm.define hv _ _, trivial⟩
  enter hm _ hv := ⟨⟨hm.addChild hv _ _, trivial⟩, trivial, trivial⟩
  close hm _ hc hp := ⟨⟨hm, trivial⟩, Value.lined_closure hc hp _ _⟩
  called hv := ⟨hv.body rfl, trivial⟩
  outside hm hs _ := by
    refine ⟨?_, trivial⟩
    change Store.Holds _ _
    rw [hs]
    exact hm
  unary hc hv := unbroken_yields (Value.applyUnary_yields hc.here.proper hv.proper)
    (Value.operates_applyUnary _ _)
  binary hc hv hw ha ho :=
    unbroken_yields (Value.applyBinary_yields hc.here.proper ha ho hv.proper hw.proper)
      (Value.operates_applyBinary _ _ _)
  untextual _ _ _ := trivial
  words hv _ := hv.proper.elim
  wordless _ _ := trivial
  formatted hp ha ht :=
    Value.lined_string (newline_notMem_render hp.unbroken (fun v hv => (ha v hv).unbroken) ht)
  line m := Value.lined_string (by
    rw [String.toList_ofList]
    exact newline_notMem_lineOf m.input)
  ordinary _ _ := trivial
  misfit _ _ := trivial

end Treewalk
