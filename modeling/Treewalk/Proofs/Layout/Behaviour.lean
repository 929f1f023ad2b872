import Treewalk.Proofs.Layout.Tokens
import Treewalk.Proofs.Session.InPlace

/-!
# Layout does not change behaviour

Sources that differ in layout are the same bare program, new sessions are the same bare machine, and
evaluation tracks itself without places. So two runs agree in everything that does not mention a
place: what they write, what they leave unread, what they bind, and how they end.

## Why bare machines are compared

Two runs of sources that differ in layout are never on the same machine: closures hold bodies, and
the marks in these differ. Nor is there one run of which the other is an image, for neither source
is prior to the other. Both have the same image, though, when places are forgotten, and the image of
a run is the run of the image. So it is enough to compare the images, which are equal, and to know
what can be seen of a machine after places are gone.

## Main definitions

* `Session.shown`, the bindings of a session as a program would show them
* `Session.Alike`, outcomes that differ at most in the place of a failure

## Main results

* `Session.layout_irrelevant`

## Implementation notes

The bound on nesting and that on rounds are the same for both runs, and forgetting places does not
change how deeply code is nested. So two runs also agree in whether they are too deep.

Failures are compared by their faults, which hold no place. The places themselves are the only thing
that differs, and `Alike` leaves them open.
-/

namespace Treewalk

/-! ## New sessions -/

theorem Relocation.bare_inPlace : bare.InPlace :=
  rfl

theorem Relocation.bare_initial (name : Option String) :
    bare.store (.initial name) = bare.store (.initial none) := by
  simp only [store, Store.initial, Store.addRoot, Store.add, Array.map_push]
  rfl

namespace Session

/-- What a unit is called makes no difference but in places. -/
theorem bare_entering (s : Session) (unit : Option String) :
    (s.entering unit).bare = s.machine.bare := by
  cases unit with
  | none => rfl
  | some name =>
    rw [entering, Machine.bare, Relocation.machine, Relocation.rename_bare]
    rfl

/-- Neither does what a session is called. -/
theorem bare_start (name : Option String) (input : String) :
    (start name input).machine.bare = (start none input).machine.bare := by
  rw [start, start, Machine.bare, Machine.bare, Relocation.machine, Relocation.machine,
    Relocation.bare_initial]

/-! ## Outcomes -/

/-- The names that a session binds, each with the text that stands for its value. -/
def shown (s : Session) : List (String × String) :=
  s.vars.map fun entry => (entry.1, entry.2.inspect)

/-- Values that show alike, the same fault at whatever place, or the same bound exceeded. -/
def Alike : Except Trouble Value → Except Trouble Value → Prop
  | .ok v, .ok w => v.inspect = w.inspect
  | .error (.stopped (.failure f)), .error (.stopped (.failure g)) => f.fault = g.fault
  | .error (.stopped .tooDeep), .error (.stopped .tooDeep) => True
  | .error (.stopped .endless), .error (.stopped .endless) => True
  | _, _ => False

/-- Outcomes of statements that agree without places. -/
theorem alike_of_bare {x y : Except Stop Value}
    (h : Relocation.bare.outcome x = Relocation.bare.outcome y) :
    Alike (x.mapError .stopped) (y.mapError .stopped) := by
  cases x with
  | ok v =>
    cases y with
    | error stop' => cases h
    | ok w =>
      change v.inspect = w.inspect
      rw [← Relocation.bare.inspect_value v, Except.ok.inj h, Relocation.inspect_value]
  | error stop =>
    cases y with
    | ok w => cases h
    | error stop' =>
      have hstop : Relocation.bare.stop stop = Relocation.bare.stop stop' := Except.error.inj h
      cases stop with
      | failure f =>
        cases stop' with
        | failure g =>
          have hfailure : Relocation.bare.failure f = Relocation.bare.failure g :=
            Stop.failure.inj hstop
          change (Relocation.bare.failure f).fault = (Relocation.bare.failure g).fault
          rw [hfailure]
        | tooDeep | endless => cases hstop
      | tooDeep =>
        cases stop' with
        | tooDeep => trivial
        | failure | endless => cases hstop
      | endless =>
        cases stop' with
        | endless => trivial
        | failure | tooDeep => cases hstop

/-- Statements that are the same without places, evaluated on machines that are the same without
places. -/
theorem evaluate_bare (limits : Limits) {s s' : Session} (unit unit' : Option String)
    {body body' : List Stmt} (hbody : body.map Stmt.bare = body'.map Stmt.bare)
    (hmachine : s.machine.bare = s'.machine.bare) :
    let r := s.evaluate limits unit body
    let r' := s'.evaluate limits unit' body'
    Relocation.bare.outcome r.1 = Relocation.bare.outcome r'.1 ∧
      r.2.machine.bare = r'.2.machine.bare := by
  rw [← Relocation.recastAll_bare, ← Relocation.recastAll_bare] at hbody
  rw [← s.bare_entering unit, ← s'.bare_entering unit'] at hmachine
  exact evaluate_agree limits Relocation.bare_inPlace hbody hmachine

/-- **Layout.** Two accepted sources whose tokens, comments aside, agree in kind and text are the
same program up to places. Run in new sessions on the same input, under whatever names, they write
the same, leave the same input unread, bind the same names to values that show alike, and end with
values that show alike or with the same fault. -/
theorem layout_irrelevant {source source' : List UInt8} {body body' : List Stmt}
    (h : Source.program source = .ok body) (h' : Source.program source' = .ok body')
    (hs : Source.significant source = Source.significant source') :
    body.map Stmt.bare = body'.map Stmt.bare ∧
      ∀ (name name' unit unit' : Option String) (input : String) (limits : Limits),
        let run := (start name input).run limits unit source
        let run' := (start name' input).run limits unit' source'
        run.2.machine.output = run'.2.machine.output ∧
          run.2.machine.input = run'.2.machine.input ∧
          run.2.shown = run'.2.shown ∧ Alike run.1 run'.1 := by
  have hbody := Source.map_bare_eq h h' hs
  refine ⟨hbody, fun name name' unit unit' input limits => ?_⟩
  have hstart : (start name input).machine.bare = (start name' input).machine.bare :=
    (bare_start name input).trans (bare_start name' input).symm
  obtain ⟨houtcome, hmachine⟩ := evaluate_bare limits unit unit' hbody hstart
  obtain ⟨houtput, hinput, hshown⟩ := Relocation.bare.seen_of_machine hmachine
  rw [run, run, h, h', runAccepted_ok, runAccepted_ok]
  exact ⟨houtput, hinput, hshown root, alike_of_bare houtcome⟩

/-- A comment and some spaces do not change what `return y;` fails with. -/
theorem layout_irrelevant_comment :
    Alike
      ((start none "").run ⟨9, 9⟩ none
        ("return y;".toList.flatMap String.utf8EncodeChar)).1
      ((start (some "b") "").run ⟨9, 9⟩ (some "c")
        ("# now\n  return  y ;".toList.flatMap String.utf8EncodeChar)).1 := by
  have h : Source.program ("return y;".toList.flatMap String.utf8EncodeChar) =
      .ok [.give (.place 1 1) (.var (.place 1 8) "y")] := rfl
  have h' : Source.program ("# now\n  return  y ;".toList.flatMap String.utf8EncodeChar) =
      .ok [.give (.place 2 3) (.var (.place 2 11) "y")] := rfl
  have hs : Source.significant ("return y;".toList.flatMap String.utf8EncodeChar) =
      [(.returnKw, "return"), (.ident, "y"), (.semicolon, ";")] := rfl
  have hs' : Source.significant ("# now\n  return  y ;".toList.flatMap String.utf8EncodeChar) =
      [(.returnKw, "return"), (.ident, "y"), (.semicolon, ";")] := rfl
  have hruns := (layout_irrelevant h h' (hs.trans hs'.symm)).2
  exact (hruns none (some "b") none (some "c") "" ⟨9, 9⟩).2.2.2

end Session

end Treewalk
