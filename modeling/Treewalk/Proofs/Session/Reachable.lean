import Treewalk.Proofs.Eval.Builtin
import Treewalk.Proofs.Eval.Moment
import Treewalk.Proofs.Session.Faults

/-!
# What a session can come to

An invariant that a session starts with, that evaluation keeps and that survives the naming of a
unit holds whenever one looks: between units, at every moment of a unit, and after a call of a
built-in function from outside.

## Why calls from outside

A program that embeds the interpreter may call a built-in function with values of its own, at any
time between units. What it passes need not be proper, and what it gets back is its own affair. But
such a call writes and reads, and an invariant of sessions should survive it. Built-in functions
bind nothing, so any invariant about stores does.

## Main definitions

* `Session.Event`, `Session.meetAll`, the sessions that can be reached, calls from outside included
* `Session.Passes`, the moments of a unit

## Main results

* `Invariant.Rooted.state_meetAll`: an invariant holds of every session that can be reached
* `Invariant.Rooted.at_passes`: and at every moment of its units
* `Session.exists_of_run_ok`: a unit with a value is a program whose statements have it

## Implementation notes

An invariant is shown to hold of evaluation once, as `Stable`, and of sessions once, as `Rooted`.
Everything that is true of all moments then follows from `at_passes` alone, and the modules on top
say what the invariant means at a moment and nothing about runs. There is no induction over a run in
any of them.

`exists_of_run_ok` is to units with a value what `Session.exists_of_run_stopped` is to those that
stop. Only these two open `Session.run`; what is said elsewhere about outcomes starts from a program
and the machine at which its statements begin.
-/

namespace Treewalk

namespace Session

/-- What can happen to a session: an act, or a call of a built-in function from outside. -/
inductive Event where
  | act (act : Act)
  | call (b : Builtin) (args : List Value)

/-- The session behind an event. -/
def meet (s : Session) : Event → Session
  | .act act => s.perform act
  | .call b args => { s with machine := (b.call args).after s.machine }

/-- The session behind a number of events. -/
def meetAll (s : Session) (events : List Event) : Session :=
  events.foldl meet s

/-- The moments of running a source as a unit. -/
def Passes (limits : Limits) (s : Session) (unit : Option String) (source : List UInt8)
    (b : Moment) : Prop :=
  ∃ body, Source.program source = .ok body ∧ Run.Passes limits body root (s.entering unit) b

theorem machine_run_of_program {source : List UInt8} {body : List Stmt}
    (h : Source.program source = .ok body) (limits : Limits) (s : Session) (unit : Option String) :
    (s.run limits unit source).2.machine =
      (Run.unit limits body root).after (s.entering unit) := by
  rw [run, h, runAccepted, evaluate, Run.after]
  cases Run.unit limits body root (s.entering unit) <;> rfl

/-- A unit with a value is a program whose statements have it. -/
theorem exists_of_run_ok {limits : Limits} {s : Session} {unit : Option String}
    {source : List UInt8} {v : Value} (h : (s.run limits unit source).1 = .ok v) :
    ∃ body m, Source.program source = .ok body ∧
      Run.unit limits body root (s.entering unit) = .ok v m := by
  rw [run] at h
  cases hp : Source.program source with
  | error rejection =>
    rw [hp] at h
    cases h
  | ok body =>
    rw [hp, runAccepted, evaluate] at h
    cases hu : Run.unit limits body root (s.entering unit) with
    | ok w m =>
      rw [hu] at h
      cases h
      exact ⟨body, m, rfl, hu⟩
    | error stop m =>
      rw [hu] at h
      cases h

end Session

namespace Invariant

variable {I : Invariant} {s : Session}

/-- An invariant is kept by whatever happens to a session. -/
theorem Rooted.state_meet (h : I.Stable) (hr : I.Rooted) (hs : I.state s.machine)
    (event : Session.Event) : I.state (s.meet event).machine := by
  cases event with
  | act act =>
    cases act with
    | run limits unit source => exact (hr.run_keeps h hs limits unit source).1
    | reset => exact hr.initial _ _ _
  | call b args =>
    have hquiet := b.call_quiet args
    exact (h.outside hs (hquiet.store s.machine) (hquiet.closures s.machine)).state

/-- An invariant holds of every session that can be reached. -/
theorem Rooted.state_meetAll (h : I.Stable) (hr : I.Rooted) (hs : I.state s.machine)
    (events : List Session.Event) : I.state (s.meetAll events).machine := by
  induction events generalizing s with
  | nil => exact hs
  | cons event rest ih => exact ih (hr.state_meet h hs event)

/-- The value of a unit is a good one on the machine that it leaves behind. -/
theorem Rooted.value_of_run (h : I.Stable) (hr : I.Rooted) (hs : I.state s.machine)
    {limits : Limits} {unit : Option String} {source : List UInt8} {v : Value}
    (hv : (s.run limits unit source).1 = .ok v) :
    I.value (s.run limits unit source).2.machine v := by
  obtain ⟨body, m, hp, hu⟩ := Session.exists_of_run_ok hv
  have hm := hr.state_entering hs unit
  obtain ⟨hframe, howned⟩ := hr.root hm
  have hk := h.unit_keeps limits (fun st hst => hr.code hm hp hst) hframe howned
  rw [Session.machine_run_of_program hp, Run.after_of_ok hu]
  exact (hk.of_ok hm hu).2

/-- An invariant holds at every moment of a unit. -/
theorem Rooted.at_passes (h : I.Stable) (hr : I.Rooted) (hs : I.state s.machine) {limits : Limits}
    {unit : Option String} {source : List UInt8} {b : Moment}
    (hb : s.Passes limits unit source b) :
    I.At b ∧ I.grows (s.entering unit) b.machine := by
  obtain ⟨body, hp, hpass⟩ := hb
  have hm := hr.state_entering hs unit
  obtain ⟨hframe, howned⟩ := hr.root hm
  exact h.passes hm (fun st hst => hr.code hm hp hst) hframe howned hpass

end Invariant

end Treewalk
