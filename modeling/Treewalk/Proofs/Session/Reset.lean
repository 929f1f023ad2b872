import Treewalk.Proofs.Eval.Relocation
import Treewalk.Proofs.Layout.Behaviour
import Treewalk.Proofs.Scope.WellFormed

/-!
# Nothing is left after a reset

A reset starts with a new store. One may as well leave everything where it is and go on with a new
root frame: frames of before, functions of before and what their names stand for are still there,
but no unit that comes later gets hold of them. Both times the machine is that of a new session,
behind what was there before, and evaluation does on a moved store what it does where the store was.
So whatever the session has been through, from then on it says what a new session says that has the
rest of the input to read.

## Why a second kind of reset

That a reset which starts with an empty store forgets everything can be seen from what it does. That
it would be the same to leave all frames and functions where they are is not obvious at all, and it
is the more telling statement: nothing that a unit can do depends on how many frames there have
been, on the numbers of functions, or on what can no longer be reached. Both are one theorem because
both are a new session on a moved machine.

## What is deliberately absent

Values are compared by what they show and not as values. A function that is made after the reset
captures a frame with another number and has another number itself, and these can be told apart in
the model but not by a program.

## Main definitions

* `Session.Job`, `Session.Report`, a unit that is to be run and what there is to see of it
* `Session.reports`, the reports of a number of units
* `Session.renew`, a reset that keeps everything

## Main results

* `Session.runAt_moved`: running a unit behind what was there before
* `Session.reset_forgets`

## Implementation notes

A relocation moves a machine behind what was there before, and evaluation commutes with it. The
proof is then about sessions only: a reset session is a new session that has been moved, running a
unit on it is running the unit and moving the result, and the report of a moved result is the
report, behind the text that was written before.

It needs well-formed stores, because a search for a name on the moved store must not come to the
frames that were there before. The new session has such a store, and keeps it from unit to unit.
-/

namespace Treewalk

/-! ## Behind what was there before -/

/-- All that a machine holds is there before, and no place changes. -/
def Relocation.past (m : Machine) : Relocation where
  frames := m.store.frames
  closures := m.closures
  output := m.output
  mark := id
  trims := false
  source := id
  mark_eq_absent := .rfl
  source_none := rfl

namespace Relocation

theorem stop_past (m : Machine) (stop : Stop) : (past m).stop stop = stop := by
  cases stop with
  | failure f =>
    obtain ⟨fault, place⟩ := f
    cases place <;> rfl
  | tooDeep => rfl
  | endless => rfl

/-- In well-formed stores names are resolved as before. -/
theorem fits_of_wellFormed (R : Relocation) (m : Machine) (hm : wellFormed.state m) :
    R.Fits m.store :=
  .inr hm.ordered

/-- The first frame of a new store is made behind all frames. -/
theorem store_past_initial (m : Machine) (name : Option String) :
    (past m).store (Store.initial name) = m.store.addRoot name := by
  have hnone : (past m).frames ++ Store.empty.frames.map (past m).framed = m.store.frames := by
    simp [past, Store.empty]
  rw [store, Store.initial, Store.addRoot, Store.addRoot, Store.add, Store.add, Array.map_push,
    Array.append_push, hnone]
  rfl

end Relocation

namespace Session

/-! ## Units at any root frame -/

/-- A unit that is to be run. -/
structure Job where
  limits : Limits
  name : Option String
  source : List UInt8

/-- The machine at the start of a unit that runs in some frame. -/
def enteringAt (root : FrameId) (s : Session) (unit : Option String) : Machine :=
  match unit with
  | none => s.machine
  | some name => { s.machine with store := s.machine.store.rename root name }

/-- Runs a unit in some frame. -/
def runAt (root : FrameId) (s : Session) (job : Job) : Except Trouble Value × Session :=
  match Source.program job.source with
  | .error rejection => (.error (.rejected rejection), s)
  | .ok body =>
    match Run.unit job.limits body root (s.enteringAt root job.name) with
    | .ok v m => (.ok v, { s with machine := m })
    | .error stop m => (.error (.stopped stop), { s with machine := m })

theorem runAt_root (s : Session) (job : Job) :
    s.runAt root job = s.run job.limits job.name job.source := by
  have hentering : s.enteringAt root job.name = s.entering job.name := rfl
  rw [runAt, run]
  cases Source.program job.source with
  | error rejection => rfl
  | ok body =>
    rw [runAccepted, evaluate, hentering]
    dsimp only
    cases Run.unit job.limits body root (s.entering job.name) <;> rfl

/-! ## Reports -/

/-- What there is to see when a unit is over: its value as a text, or why it has none; all that has
been written by then; what has not been read; and the names that are bound, each with the text that
stands for its value. -/
structure Report where
  outcome : Except Trouble String
  output : String
  input : List Char
  shown : List (String × String)

/-- The report of a unit that has run in some frame. -/
def Report.of (root : FrameId) (r : Except Trouble Value × Session) : Report where
  outcome := r.1.map Value.inspect
  output := r.2.machine.output
  input := r.2.machine.input
  shown := (r.2.machine.store.vars root).map fun entry => (entry.1, entry.2.inspect)

/-- The same report where something had been written before. -/
def Report.behind (text : String) (report : Report) : Report :=
  { report with output := text ++ report.output }

/-- The reports of units, one after another. -/
def reports (s : Session) : List Job → List Report
  | [] => []
  | job :: rest =>
    let r := s.run job.limits job.name job.source
    .of root r :: reports r.2 rest

/-- The reports of units that run in some frame. -/
def reportsAt (root : FrameId) (s : Session) : List Job → List Report
  | [] => []
  | job :: rest =>
    let r := s.runAt root job
    .of root r :: reportsAt root r.2 rest

theorem reportsAt_root (s : Session) (jobs : List Job) :
    s.reportsAt root jobs = s.reports jobs := by
  induction jobs generalizing s with
  | nil => rfl
  | cons job rest ih => rw [reportsAt, reports, runAt_root, ih]

/-! ## Running behind what was there before -/

/-- A session on a moved machine. -/
def moved (R : Relocation) (s : Session) : Session :=
  { s with machine := R.machine s.machine }

variable {s : Session} {m : Machine}

theorem enteringAt_moved (s : Session) (m : Machine) (root : FrameId) (unit : Option String) :
    (s.moved (.past m)).enteringAt ((Relocation.past m).frame root) unit =
      (Relocation.past m).machine (s.enteringAt root unit) := by
  cases unit with
  | none => rfl
  | some name =>
    exact congrArg (fun store => Machine.mk store _ _ _)
      (((Relocation.past m).rename_store s.machine.store root rfl).symm)

/-- A unit does on a moved machine what it does on the machine. Parsing knows nothing of machines,
and the statements of the unit follow the relocation. -/
theorem runAt_moved (hs : s.machine.store.WellFormed) (job : Job) :
    (s.moved (.past m)).runAt ((Relocation.past m).frame root) job =
      ((s.runAt root job).1.map (Relocation.past m).value,
        (s.runAt root job).2.moved (.past m)) := by
  rw [runAt, runAt]
  cases hp : Source.program job.source with
  | error rejection => rfl
  | ok body =>
    have hm : wellFormed.state (s.entering job.name) := wellFormed_rooted.state_entering hs job.name
    obtain ⟨hframe, howned⟩ := wellFormed_rooted.root hm
    have hfollows := (Relocation.past m).follows_unit wellFormed_ofFunctions.stable
      (Relocation.fits_of_wellFormed _) job.limits (fun st hst => wellFormed_rooted.code hm hp hst)
      hframe howned hm
    rw [show Stmt.recastAll (Relocation.past m).toRecast body = body from Stmt.recastAll_id body]
      at hfollows
    have hentering : s.enteringAt root job.name = s.entering job.name := rfl
    simp only [enteringAt_moved, hentering]
    rw [hfollows]
    cases Run.unit job.limits body root (s.entering job.name) with
    | ok v m' => rfl
    | error stop m' =>
      simp only [Relocation.result, Relocation.stop_past]
      rfl

/-- What there is to see is the same, but for what was written before. -/
theorem report_moved (r : Except Trouble Value × Session) (root : FrameId) :
    Report.of ((Relocation.past m).frame root)
        (r.1.map (Relocation.past m).value, r.2.moved (.past m)) =
      (Report.of root r).behind m.output := by
  obtain ⟨outcome, s⟩ := r
  have houtcome : (outcome.map (Relocation.past m).value).map Value.inspect =
      outcome.map Value.inspect := by
    cases outcome with
    | error trouble => rfl
    | ok v => exact congrArg Except.ok (Relocation.inspect_value _ v)
  have hshown : ((s.moved (.past m)).machine.store.vars ((Relocation.past m).frame root)).map
      (fun entry => (entry.1, entry.2.inspect)) =
        (s.machine.store.vars root).map fun entry => (entry.1, entry.2.inspect) :=
    Relocation.inspect_vars_store _ s.machine.store root
  rw [Report.of, houtcome, hshown]
  rfl

/-- Units one after another, behind what was there before. -/
theorem reportsAt_moved (hs : s.machine.store.WellFormed) (jobs : List Job) :
    (s.moved (.past m)).reportsAt ((Relocation.past m).frame root) jobs =
      (s.reports jobs).map (.behind m.output) := by
  induction jobs generalizing s with
  | nil => rfl
  | cons job rest ih =>
    have hnext : (s.run job.limits job.name job.source).2.machine.store.WellFormed :=
      (wellFormed_rooted.run_keeps wellFormed_ofFunctions.stable hs job.limits job.name
        job.source).1
    rw [reportsAt, reports, List.map_cons, runAt_moved hs, runAt_root, report_moved, ih hnext]

/-! ## Resets -/

/-- A reset that keeps everything: there is a new root frame, and what was there before is there
still. -/
def renew (s : Session) : Session :=
  { s with machine := { s.machine with store := s.machine.store.addRoot s.name } }

theorem name_meet (s : Session) (event : Event) : (s.meet event).name = s.name := by
  cases event with
  | call b args => rfl
  | act act =>
    cases act with
    | reset => rfl
    | run limits unit source =>
      rw [meet, perform, ← runAt_root s ⟨limits, unit, source⟩, runAt]
      dsimp only
      split
      · rfl
      · split <;> rfl

/-- What a session is called stays the same. -/
theorem name_meetAll (s : Session) (events : List Event) : (s.meetAll events).name = s.name := by
  induction events generalizing s with
  | nil => rfl
  | cons event rest ih => exact (ih (s.meet event)).trans (s.name_meet event)

/-- After a reset a session is a new one behind the text that was written before. -/
theorem reset_eq_moved (s : Session) :
    s.reset = (start s.name (String.ofList s.machine.input)).moved
      (.past ⟨.empty, 0, [], s.machine.output⟩) := by
  have hinput : (String.ofList s.machine.input).toList = s.machine.input := String.toList_ofList
  rw [reset, start, moved, Relocation.machine, Relocation.store_past_initial, hinput]
  simp [Relocation.past, Store.initial]

/-- And one that keeps everything makes it a new one behind all that was there. -/
theorem renew_eq_moved (s : Session) :
    s.renew = (start s.name (String.ofList s.machine.input)).moved (.past s.machine) := by
  have hinput : (String.ofList s.machine.input).toList = s.machine.input := String.toList_ofList
  rw [renew, start, moved, Relocation.machine, Relocation.store_past_initial, hinput]
  simp [Relocation.past]

/-- **A reset forgets everything.** Whatever a session has been through, units that run after a
reset have the same values, or fail with the same fault at the same place, write the same behind
what was written before, read the same and bind the same as in a new session of the same name that
has the rest of the input to read. This is so whether a reset does away with frames and functions or
keeps all of them and goes on with a new root frame. -/
theorem reset_forgets (s : Session) (events : List Event) (jobs : List Job) :
    let before := s.meetAll events
    let fresh := start s.name (String.ofList before.machine.input)
    before.reset.reports jobs = (fresh.reports jobs).map (.behind before.machine.output) ∧
      before.renew.reportsAt before.machine.store.next jobs =
        (fresh.reports jobs).map (.behind before.machine.output) := by
  intro before fresh
  have hname : before.name = s.name := s.name_meetAll events
  have hfresh : fresh.machine.store.WellFormed := Store.wellFormed_initial s.name
  constructor
  · rw [reset_eq_moved, hname, ← reportsAt_root]
    exact reportsAt_moved (m := ⟨.empty, 0, [], before.machine.output⟩) hfresh jobs
  · rw [renew_eq_moved, hname]
    exact reportsAt_moved (m := before.machine) hfresh jobs

end Session

end Treewalk
