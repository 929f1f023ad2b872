import Treewalk.Proofs.Eval.Action
import Treewalk.Proofs.Eval.Operators

/-!
# Built-in functions

The built-in functions deal with texts, the input and the output, and with nothing else: they make
no frames and no functions, bind no names, and what they give is no function that a program made.
What they complain about is their arguments.

## Main definitions

* `Run.Quiet`, an action that leaves frames and functions alone

## Main results

* `printText_map`, `render_map`: values that show alike are printed alike
* `Run.exec_print`, `Run.eval_call_builtin`: nodes whose arguments have values
* `Builtin.call_quiet`

## Implementation notes

`Quiet` bundles four statements about an action, since all four have the same proof: they hold of a
pure action and pass through `bind`. The result and the fault are described by predicates. Whoever
wants to know something about built-in functions can then instantiate these once, and need not go
through the functions again.

Blame is not among the four. A built-in function raises a fault without a place, and it is the node
of the call that gets it.

The lemmas on texts are about a map of values that is arbitrary but for what they show. Moving a
store changes closures, forgetting marks changes their bodies, and neither is seen in a text.
-/

namespace Treewalk

namespace Run

/-- An action that makes no frames and no functions and binds nothing, and whose result or fault, if
it has one, is as described. Everything that a built-in function does is quiet, so an invariant that
does not look at input and output needs to know no more of built-in functions than this. -/
structure Quiet {α : Type} (p : Run α) (Q : α → Prop) (F : Fault → Prop) : Prop where
  store (m : Machine) : (p.after m).store = m.store
  closures (m : Machine) : (p.after m).closures = m.closures
  result {m m' : Machine} {a : α} (h : p m = .ok a m') : Q a
  fault {m m' : Machine} {stop : Stop} (h : p m = .error stop m') :
    ∃ cause, stop = .failure (.ofFault cause) ∧ F cause

variable {α β : Type} {p : Run α} {Q : α → Prop} {R : β → Prop} {F : Fault → Prop}

theorem Quiet.pure {a : α} (ha : Q a) : Quiet (Pure.pure a) Q F :=
  ⟨fun _ => rfl, fun _ => rfl, fun h => by cases h; exact ha, fun h => by cases h⟩

theorem Quiet.bind {f : α → Run β} (hp : p.Quiet Q F) (hf : ∀ a, (f a).Quiet R F) :
    (p >>= f).Quiet R F := by
  refine ⟨fun m => ?_, fun m => ?_, fun h => ?_, fun h => ?_⟩
  · cases hr : p m with
    | error stop m' => rw [after_bind_of_error hr, ← after_of_error hr, hp.store]
    | ok a m' => rw [after_bind_of_ok hr, (hf a).store, ← after_of_ok hr, hp.store]
  · cases hr : p m with
    | error stop m' => rw [after_bind_of_error hr, ← after_of_error hr, hp.closures]
    | ok a m' => rw [after_bind_of_ok hr, (hf a).closures, ← after_of_ok hr, hp.closures]
  · obtain ⟨a, m₁, -, h⟩ := exists_of_bind_ok h
    exact (hf a).result h
  · rcases or_of_bind_error h with h | ⟨a, m₁, -, h⟩
    · exact hp.fault h
    · exact (hf a).fault h

theorem quiet_fail {cause : Fault} (hc : F cause) : (Run.fail cause : Run α).Quiet Q F :=
  ⟨fun _ => rfl, fun _ => rfl, (fun h => by cases h), fun h => by cases h; exact ⟨cause, rfl, hc⟩⟩

theorem Quiet.lift {x : Except Fault α} (hx : ∀ cause, x = .error cause → F cause) :
    (Run.lift x).Quiet (fun _ => True) F := by
  cases x with
  | ok a => exact .pure trivial
  | error cause => exact quiet_fail (hx cause rfl)

theorem quiet_emit (text : String) : (emit text).Quiet (fun _ => True) F :=
  ⟨fun _ => rfl, fun _ => rfl, fun _ => trivial, fun h => by cases h⟩

theorem quiet_readLine : readLine.Quiet (fun _ => True) F :=
  ⟨fun _ => rfl, fun _ => rfl, fun _ => trivial, fun h => by cases h⟩

end Run

/-! ## Texts

What is shown of values depends on the text of each of them alone. -/

section

variable {k : Value → Value}

theorem checkTexts_map (hk : ∀ v, (k v).untextual? = v.untextual?) (place step : Nat)
    (args : List Value) : checkTexts place step (args.map k) = checkTexts place step args := by
  induction args generalizing place with
  | nil => rfl
  | cons v rest ih => rw [List.map_cons, checkTexts, checkTexts, hk, ih]

theorem map_display_map (hk : ∀ v, (k v).display = v.display) (args : List Value) :
    (args.map k).map (fun v => v.display.toList) = args.map fun v => v.display.toList := by
  rw [List.map_map]
  exact List.map_congr_left fun v _ => congrArg String.toList (hk v)

theorem joined_map (hk : ∀ v, (k v).display = v.display) (separator : String) (args : List Value) :
    joined separator (args.map k) = joined separator args := by
  rw [joined, joined, map_display_map hk]

theorem render_map (hk : ∀ v, (k v).untextual? = v.untextual?) (hd : ∀ v, (k v).display = v.display)
    (context pattern : String) (args : List Value) :
    render context pattern (args.map k) = render context pattern args := by
  rw [render, render, List.length_map, ← List.map_take, checkTexts_map hk, map_display_map hd]

theorem printText_map (hk : ∀ v, (k v).untextual? = v.untextual?)
    (hd : ∀ v, (k v).display = v.display) (format : String) (args : List Value) :
    printText format (args.map k) = printText format args := by
  rw [printText, printText, checkTexts_map hk, joined_map hd, render_map hk hd]

end

/-- Values that have texts can be shown. -/
theorem checkTexts_of_textual {args : List Value} (h : ∀ v ∈ args, v.untextual? = none)
    (place step : Nat) : checkTexts place step args = .ok () := by
  induction args generalizing place with
  | nil => rfl
  | cons v rest ih =>
    rw [List.forall_mem_cons] at h
    rw [checkTexts, h.1]
    exact ih h.2 _

/-! ## Nodes -/

namespace Run

variable {limit n : Nat} {f : FrameId} {m m' : Machine} {args : List Expr} {vs : List Value}

/-- What a print statement does when its arguments are evaluated. -/
theorem exec_print (mark : Mark) (format : String)
    (h : each (fun e => eval limit n e f) args m = .ok vs m') :
    exec limit (n + 1) (.print mark format args) f m =
      blaming mark f (do
        emit (← lift (printText format vs))
        return .next) m' := by
  rw [exec.eq_def]
  exact blaming_congr mark f ((bind_of_ok h).trans rfl)

/-- What a call of a built-in function does when its arguments are evaluated. -/
theorem eval_call_builtin (mark : Mark) {name : String} {b : Builtin}
    (hb : m.store.get? f name = some (.builtin b))
    (h : each (fun e => eval limit n e f) args m = .ok vs m') {v : Value} {m'' : Machine}
    (hc : b.call vs m' = .ok v m'') :
    eval limit (n + 1) (.call mark name args) f m = .ok v m'' := by
  have hlookup : lookup f name m = .ok (.builtin b) m := by rw [lookup_eq, hb]
  rw [eval.eq_def]
  refine blaming_of_ok _ _ ((bind_of_ok hlookup).trans ((bind_of_ok h).trans ?_))
  exact hc

end Run

/-! ## Complaints -/

variable {args : List Value} {cause : Fault}

theorem category_of_checkTexts {place step : Nat} (h : checkTexts place step args = .error cause) :
    cause.category = .layout := by
  induction args generalizing place with
  | nil => cases h
  | cons v rest ih =>
    rw [checkTexts] at h
    split at h
    · cases h
      rfl
    · exact ih h

theorem error_of_map {α β : Type} {x : Except Fault α} {f : α → β} (h : x.map f = .error cause) :
    x = .error cause := by
  cases x with
  | ok a => cases h
  | error other => exact congrArg Except.error (Except.error.inj h)

/-- A format is filled in, unless arguments are missing or have no text. -/
theorem category_of_render {context pattern : String}
    (h : render context pattern args = .error cause) : cause.category ∈ [.general, .layout] := by
  rw [render] at h
  split at h
  · cases h
    exact List.mem_cons_self
  · rw [category_of_checkTexts (error_of_map h)]
    decide

theorem category_of_printText {format : String} (h : printText format args = .error cause) :
    cause.category ∈ [.general, .layout] := by
  rw [printText] at h
  split at h
  · rw [category_of_checkTexts (error_of_map h)]
    decide
  · exact category_of_render (error_of_map h)

/-- Built-in functions have nothing to do with frames, give no functions that a program made, and
complain about nothing but the arguments. -/
theorem Builtin.call_quiet (b : Builtin) (args : List Value) :
    (b.call args).Quiet (fun v => v.isClosure = false)
      fun cause => cause.category ∈ [.general, .type, .arity, .layout] := by
  have hshow (text : String) : Run.Quiet (do
      Run.lift (checkTexts 0 1 args)
      Run.emit text
      return Value.nil) (fun v => v.isClosure = false)
      fun cause => cause.category ∈ [.general, .type, .arity, .layout] := by
    refine (Run.Quiet.lift fun cause h => ?_).bind fun _ =>
      (Run.quiet_emit _).bind fun _ => .pure rfl
    rw [category_of_checkTexts h]
    decide
  have hrender (pattern : String) (rest : List Value) :
      Run.Quiet (do return Value.string (← Run.lift (render "format" pattern rest)))
        (fun v => v.isClosure = false)
        fun cause => cause.category ∈ [.general, .type, .arity, .layout] := by
    refine (Run.Quiet.lift fun cause h => ?_).bind fun _ => .pure rfl
    have hc := category_of_render h
    simp only [List.mem_cons, List.not_mem_nil, or_false] at hc ⊢
    exact hc.elim .inl fun hl => .inr (.inr (.inr hl))
  unfold Builtin.call
  cases b with
  | write => exact hshow _
  | writeln => exact hshow _
  | format =>
    simp only
    split
    · exact hrender _ _
    · split
      · exact hrender _ _
      · exact Run.quiet_fail (by simp [Fault.category, Misfit.category])
    · exact Run.quiet_fail (by simp [Fault.category])
  | getline =>
    simp only
    split
    · exact Run.quiet_readLine.bind fun _ => .pure rfl
    · exact Run.quiet_fail (by simp [Fault.category])

end Treewalk
