import Treewalk.Proofs.Arithmetic.Evaluation
import Treewalk.Proofs.Eval.Depth
import Treewalk.Proofs.Eval.Origin
import Treewalk.Proofs.Eval.Proper

/-!
# What can go wrong in a session

A session runs sources one after another and may be reset in between. Whatever it did before, the
machine holds proper values only, so running one more source either works or fails for a reason that
a program can have. The faults that are about trees made by hand do not arise, in any order of units
and whichever of them failed before.

One thing can escape that is no fault of the language, and that is the stack of the host running
out. A call turns it into a fault, but nothing does outside of calls, so a source that is nested too
deeply on its own is stopped by an error of the host. How much is too deep depends on the host; that
some sources are, on every host, is shown by signs in front of a number.

That is all. A run also ends when a loop has gone round as often as a loop may, but there is no such
bound for a program, and the end of its rounds stands for a loop that goes on.

## Why there is a bound that is deep enough

That an error of the host escapes only from what is nested too deeply would be an empty excuse if
any source could be too deep for any host. But how deep a source is, outside of the bodies of its
functions, is a number that can be read off it. It does not depend on the session, on what has been
run before or on what the functions do. So there is one bound for each source, and above it nothing
but faults can escape, whatever the session.

The bodies of functions are left out because they run in calls, and a call turns what is too deep
for it into a fault of the language.

## Main definitions

* `Session.Act`, `Session.performAll`, the sessions that can be reached
* `Invariant.Rooted`, what an invariant has to satisfy in order to hold of all of them
* `Fault.Expected`, the reasons that a program can have to fail
* `Source.Exceeds`, a source that is nested more deeply than a bound
* `Session.Spins`, a unit that comes to a loop which goes on for all rounds that there are

## Main results

* `Invariant.Rooted.state_performAll`: the machine of a session that can be reached
* `Session.exists_of_run_stopped`: a unit that stops is a program whose statements do
* `Session.run_faults`: what can escape from a session
* `Session.run_signs`: sources that are too deep for a given host

## Implementation notes

Faults are sorted into families by an invariant, which is about values: as long as all of them are
proper, the checks that would refuse something improper are never reached. That the host is not
exhausted is no invariant of this kind, for it is a matter of the code that is about to run and of
how much stack is left. It is shown by going through the code, with the depth that remains, in the
same cases as evaluation.

The bound on nesting is a parameter of a run. `Limits.standard` has one like that of the host, and
`run_faults_signs` shows that it can be exceeded; no other result here depends on what it is.
-/

namespace Treewalk

namespace Session

/-- What can be done to a session. -/
inductive Act where
  | run (limits : Limits) (unit : Option String) (source : List UInt8)
  | reset

/-- The session behind an act. -/
def perform (s : Session) : Act → Session
  | .run limits unit source => (s.run limits unit source).2
  | .reset => s.reset

/-- The session behind a number of acts. -/
def performAll (s : Session) (acts : List Act) : Session :=
  acts.foldl perform s

end Session

/-! ## Invariants of sessions -/

namespace Invariant

/-- An invariant of evaluation holds of new machines, of the code of sources, and of the root frame,
whose source may be renamed. -/
structure Rooted (I : Invariant) : Prop where
  code {source : List UInt8} {body : List Stmt} {s : Stmt} {m : Machine} (hm : I.state m)
    (h : Source.program source = .ok body) (hs : s ∈ body) : I.code m Session.root (.stmt s)
  root {m : Machine} (hm : I.state m) : I.frame m Session.root ∧ I.owned m Session.root
  rename {m : Machine} (name : String) (hm : I.state m) :
    I.state { m with store := m.store.rename Session.root name }
  initial (name : Option String) (input : List Char) (output : String) :
    I.state ⟨.initial name, 0, input, output⟩

variable {I : Invariant} {s : Session}

theorem Rooted.state_entering (hr : I.Rooted) (hs : I.state s.machine) (unit : Option String) :
    I.state (s.entering unit) := by
  cases unit with
  | none => exact hs
  | some name => exact hr.rename name hs

/-- Running a source keeps an invariant and raises no other faults. -/
theorem Rooted.run_keeps (h : I.Stable) (hr : I.Rooted) (hs : I.state s.machine) (limits : Limits)
    (unit : Option String) (source : List UInt8) :
    I.state (s.run limits unit source).2.machine ∧
      ∀ f, (s.run limits unit source).1 = .error (.stopped (.failure f)) → I.fault f.fault := by
  rw [Session.run]
  cases hp : Source.program source with
  | error rejection => exact ⟨hs, fun f hf => by cases hf⟩
  | ok body =>
    have hm := hr.state_entering hs unit
    have hroot := hr.root hm
    have hk := h.unit_keeps limits (fun st hst => hr.code hm hp hst) hroot.1 hroot.2 hm
    rw [Session.runAccepted, Session.evaluate]
    cases hu : Run.unit limits body Session.root (s.entering unit) with
    | ok v m' =>
      rw [hu] at hk
      exact ⟨hk.1.state, fun f hf => by cases hf⟩
    | error stop m' =>
      rw [hu] at hk
      refine ⟨hk.1.state, fun f hf => hk.2 f ?_⟩
      cases hf
      rfl

/-- An invariant holds of every session that can be reached. -/
theorem Rooted.state_performAll (h : I.Stable) (hr : I.Rooted) (name : Option String)
    (input : String) (acts : List Session.Act) :
    I.state ((Session.start name input).performAll acts).machine := by
  suffices hall : ∀ s : Session, I.state s.machine → I.state (s.performAll acts).machine from
    hall _ (hr.initial name _ _)
  induction acts with
  | nil => exact fun _ hs => hs
  | cons act rest ih =>
    intro s hs
    refine ih (s.perform act) ?_
    cases act with
    | run limits unit source => exact (hr.run_keeps h hs limits unit source).1
    | reset => exact hr.initial _ _ _

end Invariant

/-! ## Faults that can escape -/

theorem Store.vars_initial (name : Option String) (g : FrameId) :
    (Store.initial name).vars g = if g = 0 then Bindings.builtins else [] := by
  rw [vars, initial, addRoot, add, empty, Array.getElem?_push]
  split
  · next hg => rw [if_pos (show g = 0 from hg)]; rfl
  · next hg => rw [if_neg (show ¬g = 0 from hg)]; rfl

/-- At the start the built-in functions are bound and nothing else. -/
theorem Store.holds_initial {P : Value → Prop} (name : Option String) (h : ∀ b, P (.builtin b)) :
    (Store.initial name).Holds P := by
  intro g entry he
  rw [vars_initial] at he
  split at he
  · obtain ⟨b, -, rfl⟩ := List.mem_map.mp he
    exact h b
  · exact absurd he List.not_mem_nil

theorem proper_rooted : proper.Rooted where
  code _ h hs := Source.proper_of_program h _ hs
  root _ := ⟨trivial, trivial⟩
  rename _ hm := Store.Holds.rename hm _ _
  initial name _ _ := Store.holds_initial name fun _ => trivial

/-- The reasons that a program can have to fail: one of the families that have a class of their own,
a decimal operation without a result, or a format with too few arguments. -/
def Fault.Expected (f : Fault) : Prop :=
  f.category ∈ [.name, .type, .arity, .zeroDivision, .unimplemented, .recursion] ∨
    f.category = .general ∧
      ((∃ op, f.message = "float overflow in '" ++ op ++ "'") ∨
        (∃ op, f.message = "invalid float operation in '" ++ op ++ "'") ∨
        ∃ (context : String) (needed got : Nat), f.message =
          context ++ ": format has " ++ toString needed ++ " placeholder(s) but got "
            ++ toString got ++ " argument(s)")

theorem Fault.expected_of_isOrdinary {f : Fault} (h : f.isOrdinary = true) : f.Expected := by
  cases f with
  | unknownUnary | unknownBinary | unknownComparison | misfit | misuse => cases h
  | float issue op =>
    refine .inr ⟨rfl, ?_⟩
    cases issue with
    | overflow => exact .inl ⟨op, rfl⟩
    | invalid => exact .inr (.inl ⟨op, rfl⟩)
  | placeholders context needed got => exact .inr ⟨rfl, .inr (.inr ⟨context, needed, got, rfl⟩)⟩
  | _ => exact .inl (by simp [category])

/-! ## Units that stop -/

/-- A unit that stops is a program whose statements do. -/
theorem Session.exists_of_run_stopped {limits : Limits} {s : Session} {unit : Option String}
    {source : List UInt8} {stop : Stop}
    (h : (s.run limits unit source).1 = .error (.stopped stop)) :
    ∃ body m, Source.program source = .ok body ∧
      Run.unit limits body root (s.entering unit) = .error stop m := by
  rw [run] at h
  cases hp : Source.program source with
  | error rejection =>
    rw [hp] at h
    cases h
  | ok body =>
    rw [hp, runAccepted, evaluate] at h
    cases hu : Run.unit limits body root (s.entering unit) with
    | ok v m =>
      rw [hu] at h
      cases h
    | error stop m =>
      rw [hu] at h
      cases h
      exact ⟨body, m, rfl, hu⟩

/-! ## Loops that go on -/

/-- Running a source as a unit comes to a loop that goes round as often as a loop may, and every one
of these rounds comes to its end. -/
def Session.Spins (limits : Limits) (s : Session) (unit : Option String) (source : List UInt8) :
    Prop :=
  ∃ body b m, Source.program source = .ok body ∧
    Run.Passes limits body root (s.entering unit) b ∧ Run.Spent limits.rounds b m

/-- A unit is endless for no other reason than a loop that goes on. -/
theorem Session.spins_of_endless {source : List UInt8} {s : Session} {limits : Limits}
    {unit : Option String} (h : (s.run limits unit source).1 = .error (.stopped .endless)) :
    s.Spins limits unit source := by
  obtain ⟨body, m, hp, hu⟩ := exists_of_run_stopped h
  obtain ⟨b, hpass, hspent⟩ := Run.exists_origin_unit hu
  exact ⟨body, b, m, hp, hpass, hspent⟩

/-! ## Nesting that goes too far -/

/-- The source is a program, and some statement of it is nested more deeply than a bound, outside of
the bodies of functions. -/
def Source.Exceeds (source : List UInt8) (bound : Nat) : Prop :=
  ∃ body, Source.program source = .ok body ∧ ∃ st ∈ body, ¬ Code.Fits bound (.stmt st)

/-- Some bound is large enough for a source. -/
theorem Source.exists_lt_of_exceeds (source : List UInt8) :
    ∃ depth : Nat, ∀ bound, Source.Exceeds source bound → bound < depth := by
  cases hp : Source.program source with
  | error rejection =>
    refine ⟨0, ?_⟩
    rintro bound ⟨body, hb, -⟩
    rw [hp] at hb
    cases hb
  | ok body =>
    obtain ⟨depth, hd⟩ := Code.exists_fits body
    refine ⟨depth, ?_⟩
    rintro bound ⟨body', hb, st, hst, hnot⟩
    rw [hp] at hb
    cases hb
    exact Nat.lt_of_not_le fun hle => hnot ((hd st hst).mono hle)

/-- Nothing but the nesting of the source itself makes a run too deep: calls keep to themselves how
deep they went. -/
theorem Session.exceeds_of_tooDeep {source : List UInt8} (s : Session) {limits : Limits}
    (unit : Option String) (h : (s.run limits unit source).1 = .error (.stopped .tooDeep)) :
    Source.Exceeds source limits.nesting := by
  obtain ⟨body, m, hp, hu⟩ := exists_of_run_stopped h
  refine ⟨body, hp, ?_⟩
  by_contra hfits
  have hshallow : (Run.unit limits body root).Shallow :=
    Run.shallow_unit limits root fun st hst => by
      by_contra hnot
      exact hfits ⟨st, hst, hnot⟩
  exact hshallow _ _ hu

/-- A number behind signs is a formula, as deep as there are signs. -/
theorem Session.run_signs (signs : Nat) {limits : Limits} (h : limits.nesting ≤ signs + 1)
    (s : Session) (unit : Option String) :
    (s.run limits unit (Utf8.encode
      ("return " ++ String.ofList (List.replicate signs '-' ++ ['1']) ++ ";"))).1 =
      .error (.stopped .tooDeep) := by
  obtain ⟨t, hwritten, hspine⟩ : ∃ t : Arithmetic.Formula,
      Arithmetic.Written 2 t (List.replicate signs '-' ++ ['1']) ∧ t.spine = signs + 1 := by
    clear h
    induction signs with
    | zero =>
      let one : Arithmetic.Numeral := ⟨.decimal, [⟨1, false⟩], by simp, by decide⟩
      exact ⟨_, .literal one, rfl⟩
    | succ signs ih =>
      obtain ⟨t, hwritten, hspine⟩ := ih
      exact ⟨.neg t, .neg hwritten, congrArg (· + 1) hspine⟩
  refine run_spine ?_ (hspine ▸ h) s unit
  rw [String.toList_ofList]
  exact .looser (.looser hwritten)

/-! ## What can escape -/

/-- **What can escape.** In any session, whatever units it ran and however often it was reset, a
source that fails at run time fails with an ordinary fault: never with one about the shape of a
tree, an operator that does not exist or a part that is no number, and if the fault has no class of
its own it is about a decimal operation or a format. Apart from faults, the host may run out of
stack. That escapes only if the source that is run is nested more deeply than the host allows, and
not for what the functions do that it calls; so for every source there is a stack that is deep
enough. And what is called endless is a loop that has gone through all the rounds there are. -/
theorem Session.run_faults (source : List UInt8) :
    ∃ depth : Nat, ∀ (name : Option String) (input : String) (acts : List Act) (limits : Limits)
      (unit : Option String),
      let session := (start name input).performAll acts
      let outcome := (session.run limits unit source).1
      (∀ f, outcome = .error (.stopped (.failure f)) →
        f.fault.isOrdinary = true ∧ f.fault.Expected) ∧
      (outcome = .error (.stopped .tooDeep) →
        Source.Exceeds source limits.nesting ∧ limits.nesting < depth) ∧
      (outcome = .error (.stopped .endless) → session.Spins limits unit source) := by
  obtain ⟨depth, hdepth⟩ := Source.exists_lt_of_exceeds source
  refine ⟨depth, fun name input acts limits unit =>
    ⟨fun f hf => ?_, fun hdeep => ?_, spins_of_endless⟩⟩
  · have hs := proper_rooted.state_performAll proper_stable name input acts
    have hord := ((proper_rooted.run_keeps proper_stable hs limits unit source).2 f hf).ordinary
    exact ⟨hord, Fault.expected_of_isOrdinary hord⟩
  · have hexceeds := exceeds_of_tooDeep _ unit hdeep
    exact ⟨hexceeds, hdepth _ hexceeds⟩

/-- Fifteen thousand signs in front of a number are too many for the host, and no fault of the
language says so. -/
theorem Session.run_faults_signs :
    ((start none "").run .standard none (Utf8.encode
      ("return " ++ String.ofList (List.replicate 15000 '-' ++ ['1']) ++ ";"))).1 =
      .error (.stopped .tooDeep) :=
  run_signs 15000 (by decide) _ none

end Treewalk
