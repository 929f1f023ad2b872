import Treewalk.Proofs.Session.InPlace
import Treewalk.Proofs.Syntax.Cut

/-!
# Statements that are never reached

What stands behind a statement that gives on every path is never reached, so nothing is lost if it
is deleted. Trimmed code on a trimmed machine does what the code does on the machine, and deleting
some of these statements does not change what the trimmed code is. So two programs that differ in
such statements do the same, in blocks, in functions that have been made and are called later, and
in the unit itself.

## Implementation notes

Statements are deleted from the code of functions too, and functions live on in the store, so a
session goes on with other functions than it would have had. That they are the same when trimmed is
what two sessions have in common from then on, and `EndAlike` hands it on from unit to unit. What is
seen of a session does not tell them apart, and `EndAlike` says so in plain words besides: what was
written and read, and how every bound value shows.

A value that a unit gives may be a function with a trimmed body. All others are the very same.

## Main definitions

* `Relocation.trim`, which drops what is never reached
* `Machine.trim`, `Value.trim`, machines and values all of whose functions are trimmed
* `Session.SameTrimmed`, sessions that differ in statements that are never reached
* `Session.EndAlike`, units that have ended alike

## Main results

* `Session.endAlike_evaluate`: units that are the same when trimmed
* `Session.return_discipline`
-/

namespace Treewalk

/-- Nothing stands before, and statements that are never reached are dropped. -/
def Relocation.trim : Relocation where
  toRecast := .trim
  frames := #[]
  closures := 0
  output := ""
  source := id
  mark_eq_absent := .rfl
  source_none := id_eq none

/-- A value whose function, if it is one, is trimmed. -/
def Value.trim (v : Value) : Value :=
  Relocation.trim.value v

/-- A machine all of whose functions are trimmed. -/
def Machine.trim (m : Machine) : Machine :=
  Relocation.trim.machine m

namespace Relocation

theorem trim_inPlace : trim.InPlace :=
  rfl

/-- Failures are blamed on the same node of the same source. -/
theorem stop_trim (stop : Stop) : trim.stop stop = stop := by
  rcases stop with ⟨_, _ | _⟩ | _ | _ <;> rfl

theorem outcome_trim (x : Except Stop Value) : trim.outcome x = x.map Value.trim := by
  cases x with
  | ok v => rfl
  | error stop => exact congrArg Except.error (stop_trim stop)

theorem rename_trim (s : Store) (f : FrameId) (name : String) :
    trim.store (s.rename f name) = (trim.store s).rename f name := by
  rw [trim.rename_store s f rfl, trim_inPlace.frame]

end Relocation

namespace Session

/-! ## Sessions -/

/-- Sessions that differ in statements that are never reached, in the functions that they know, and
in nothing else. -/
structure SameTrimmed (s s' : Session) : Prop where
  name : s.name = s'.name
  machine : s.machine.trim = s'.machine.trim

/-- Units that have ended alike: with the same stop, or with values that show alike and are even the
same if they are no functions. What has been written, what is still to be read and what every frame
binds is the same, and so are the sessions, up to statements that are never reached. -/
structure EndAlike (r r' : Except Stop Value × Session) : Prop where
  result : r.1.map Value.trim = r'.1.map Value.trim
  shown : r.1.map Value.inspect = r'.1.map Value.inspect
  output : r.2.machine.output = r'.2.machine.output
  input : r.2.machine.input = r'.2.machine.input
  bindings (f : FrameId) : (r.2.machine.store.vars f).map (fun e => (e.1, e.2.inspect)) =
    (r'.2.machine.store.vars f).map fun e => (e.1, e.2.inspect)
  session : r.2.SameTrimmed r'.2

theorem SameTrimmed.refl (s : Session) : s.SameTrimmed s :=
  ⟨rfl, rfl⟩

theorem SameTrimmed.entering {s s' : Session} (h : s.SameTrimmed s') (unit : Option String) :
    (s.entering unit).trim = (s'.entering unit).trim := by
  cases unit with
  | none => exact h.machine
  | some text =>
    have hrename (s : Session) : (s.entering (some text)).trim =
        { s.machine.trim with store := s.machine.trim.store.rename root text } :=
      congrArg (fun store => { s.machine.trim with store })
        (Relocation.rename_trim s.machine.store root text)
    rw [hrename, hrename, h.machine]

theorem map_inspect_trim (x : Except Stop Value) :
    (x.map Value.trim).map Value.inspect = x.map Value.inspect := by
  cases x with
  | error stop => rfl
  | ok v => exact congrArg Except.ok (Relocation.trim.inspect_value v)

/-- Two units with the same trimmed code, from two sessions that are the same when trimmed. Both are
compared with the trimmed code on the trimmed machine, which is the same for the two. -/
theorem endAlike_evaluate (limits : Limits) (unit : Option String) {p q : List Stmt}
    {s s' : Session} (hpq : Stmt.recastAll .trim p = Stmt.recastAll .trim q)
    (h : s.SameTrimmed s') :
    EndAlike (s.evaluate limits unit p) (s'.evaluate limits unit q) := by
  obtain ⟨houtcome, hmachine⟩ := evaluate_agree limits Relocation.trim_inPlace hpq
    (h.entering unit)
  obtain ⟨houtput, hinput, hbindings⟩ := Relocation.trim.seen_of_machine hmachine
  rw [Relocation.outcome_trim, Relocation.outcome_trim] at houtcome
  have hshown := congrArg (Except.map Value.inspect) houtcome
  rw [map_inspect_trim, map_inspect_trim] at hshown
  have hname : (s.evaluate limits unit p).2.name = (s'.evaluate limits unit q).2.name := by
    rw [name_evaluate, name_evaluate, h.name]
  exact ⟨houtcome, hshown, houtput, hinput, hbindings, hname, hmachine⟩

/-- **Giving a value.** Whatever the machine and the frame, a statement that gives on every path has
given when it comes to its end, and one in which no value is given, but in the bodies of functions,
has not, whatever functions it has called. So what stands behind a statement that gives on every
path can be deleted, in blocks, in the bodies of functions and in the unit itself, as often as one
likes: the unit ends alike, from sessions with functions from which other such statements have been
deleted before. -/
theorem return_discipline (limits : Limits) :
    (∀ (s : Stmt) (f : FrameId) (m m' : Machine) (fl : Flow), s.alwaysGives = true →
      Run.execIn limits s f m = .ok fl m' → fl.isGive = true) ∧
    (∀ (s : Stmt) (f : FrameId) (m m' : Machine) (fl : Flow), Code.GiveFree (.stmt s) →
      Run.execIn limits s f m = .ok fl m' → fl.isGive = false) ∧
    (∀ (p q : List Stmt) (unit : Option String) (s s' : Session), Stmt.CutAll p q →
      s.SameTrimmed s' → EndAlike (s.evaluate limits unit p) (s'.evaluate limits unit q)) := by
  refine ⟨?_, ?_, ?_⟩
  · intro s f m m' fl hs h
    exact Run.exec_alwaysGives limits.rounds limits.nesting f hs m m' fl h
  · intro s f m m' fl hs h
    exact Run.exec_giveFree limits.rounds limits.nesting f hs m m' fl h
  · intro p q unit s s' hpq h
    exact endAlike_evaluate limits unit hpq.trimAll_eq h

/-- In `fn f() { return 1; print "x"; } return f(); print "y";` neither text is ever printed, in the
function nor behind its call. Making the function gives nothing, although its body does. -/
theorem return_discipline_unprinted :
    let m := (start none "").machine
    let body : Stmt := .block .absent [.give .absent (.int .absent 1), .print .absent "x" []]
    let f : Stmt := .define .absent "f" [] body
    let f' : Stmt := .define .absent "f" [] (.block .absent [.give .absent (.int .absent 1)])
    let call : Stmt := .give .absent (.call .absent "f" [])
    (∃ fl m', Run.execIn ⟨9, 9⟩ body root m = .ok fl m' ∧ fl.isGive = true) ∧
    (∃ fl m', Run.execIn ⟨9, 9⟩ f root m = .ok fl m' ∧ fl.isGive = false) ∧
    EndAlike ((start none "").evaluate ⟨9, 9⟩ none [f, call, .print .absent "y" []])
      ((start none "").evaluate ⟨9, 9⟩ none [f', call]) := by
  intro m body f f' call
  have hfree : Code.GiveFree (.stmt f) := Code.allInline_iff.mpr ⟨rfl, List.forall_mem_nil _⟩
  have hcut : Stmt.CutAll [f, call, .print .absent "y" []] [f', call] :=
    .cons (.define .absent "f" [] (.block .absent (.stop (.refl _) rfl))) (.stop (.refl _) rfl)
  obtain ⟨hgive, hnext, halike⟩ := return_discipline ⟨9, 9⟩
  refine ⟨⟨_, _, rfl, ?_⟩, ⟨_, _, rfl, ?_⟩, ?_⟩
  · exact hgive body root m _ _ rfl rfl
  · exact hnext f root m _ _ hfree rfl
  · exact halike _ _ none _ _ hcut (.refl _)

end Session

end Treewalk
