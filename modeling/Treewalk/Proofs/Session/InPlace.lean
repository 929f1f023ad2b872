import Treewalk.Proofs.Eval.Functions
import Treewalk.Proofs.Eval.Relocation
import Treewalk.Session

/-!
# Rewriting in place

A relocation that has no frames before it leaves all frames where they are and rewrites what is in
them: code, the bodies of functions, the names of sources. Evaluation of the rewritten code on the
rewritten machine then is evaluation of the code on the machine, rewritten in the end, and nothing
has to be known of the machine.

So units of two sessions can be compared by rewriting both. If there is a relocation in place that
makes one code of their code and one machine of their machines, then it makes one outcome of their
outcomes. To forget places is such a relocation, and so is to drop statements that are never
reached.

## Implementation notes

Two programs that differ in what a relocation rewrites are both compared with the rewritten program,
and not with each other. That needs a relocation to be a function, but it does away with a relation
between two machines, two stores and two values, which would have to be followed through evaluation
once more. It also says more: which of two outcomes is the rewritten one does not matter, so being
rewritten to the same is symmetric and transitive for free.

## Main definitions

* `anything`, the invariant that asks for nothing
* `Relocation.InPlace`, no frames stand before
* `Relocation.outcome`, what becomes of the outcome of a unit

## Main results

* `Relocation.InPlace.unit`: rewritten statements on the rewritten machine
* `Session.evaluate_agree`: units that are rewritten to the same
-/

namespace Treewalk

/-- Nothing is asked for. -/
def anything : Invariant where
  state _ := True
  grows _ _ := True
  value _ _ := True
  frame _ _ := True
  owned _ _ := True
  code _ _ _ := True
  fault _ := True

theorem anything_ofFunctions : anything.OfFunctions where
  plain _ _ _ := trivial
  fault _ := trivial
  refl _ := trivial
  trans _ _ := trivial
  value_grows _ _ := trivial
  frame_grows _ _ := trivial
  owned_grows _ _ := trivial
  part _ _ := trivial
  lookup _ _ _ := trivial
  assign _ _ _ _ := ⟨trivial, trivial⟩
  declare _ _ _ _ _ := ⟨trivial, trivial⟩
  enter _ _ _ := ⟨⟨trivial, trivial⟩, trivial, trivial⟩
  close _ _ _ _ := ⟨⟨trivial, trivial⟩, trivial⟩
  called _ := ⟨trivial, trivial⟩
  outside _ _ _ := ⟨trivial, trivial⟩

namespace Relocation

/-- No frames stand before, and all frames stay where they are. -/
def InPlace (R : Relocation) : Prop :=
  R.frames = #[]

/-- The outcome of a unit, rewritten. -/
def outcome (R : Relocation) : Except Stop Value → Except Stop Value
  | .ok v => .ok (R.value v)
  | .error stop => .error (R.stop stop)

namespace InPlace

variable {R : Relocation} (h : R.InPlace)
include h

theorem frame (f : FrameId) : R.frame f = f := by
  rw [Relocation.frame, h, Array.size_empty, Nat.zero_add]

theorem fits (s : Store) : R.Fits s :=
  .inl (by rw [h, Array.size_empty])

/-- Statements one after another. -/
theorem inOrder (limits : Limits) (ss : List Stmt) (f : FrameId) (m : Machine) :
    Run.inOrder (fun s => Run.execIn limits s f) (Stmt.recastAll R.toRecast ss) (R.machine m) =
      R.result R.flow (Run.inOrder (fun s => Run.execIn limits s f) ss m) := by
  have hstable := anything_ofFunctions.stable
  obtain ⟨-, hx⟩ := R.follows_eval_exec hstable (fun m _ => h.fits m.store) limits.rounds
    limits.nesting
  have hcode : ∀ s ∈ ss, anything.code m f (.stmt s) := fun _ _ => trivial
  have hfollows := hx.inOrder hstable hcode trivial trivial trivial
  rwa [h.frame] at hfollows

/-- The statements of a unit. -/
theorem unit (limits : Limits) (ss : List Stmt) (f : FrameId) (m : Machine) :
    Run.unit limits (Stmt.recastAll R.toRecast ss) f (R.machine m) =
      R.result R.value (Run.unit limits ss f m) := by
  have hcode : ∀ s ∈ ss, anything.code m f (.stmt s) := fun _ _ => trivial
  have hfollows := R.follows_unit anything_ofFunctions.stable (fun m _ => h.fits m.store) limits
    hcode trivial trivial trivial
  rwa [h.frame] at hfollows

end InPlace

end Relocation

namespace Session

variable {R : Relocation} {limits : Limits} {s s' : Session} {unit unit' : Option String}
  {p q : List Stmt}

/-- Runs that are rewritten to the same give outcomes that are rewritten to the same. -/
theorem evaluate_of_result
    (h : R.result R.value (Run.unit limits p root (s.entering unit)) =
      R.result R.value (Run.unit limits q root (s'.entering unit'))) :
    let r := s.evaluate limits unit p
    let r' := s'.evaluate limits unit' q
    R.outcome r.1 = R.outcome r'.1 ∧ R.machine r.2.machine = R.machine r'.2.machine := by
  rw [evaluate, evaluate]
  revert h
  cases Run.unit limits p root (s.entering unit) with
  | ok v m =>
    cases Run.unit limits q root (s'.entering unit') with
    | error stop' m' => intro h; cases h
    | ok w m' =>
      intro h
      obtain ⟨hvalue, hmachine⟩ := EStateM.Result.ok.inj h
      exact ⟨congrArg Except.ok hvalue, hmachine⟩
  | error stop m =>
    cases Run.unit limits q root (s'.entering unit') with
    | ok w m' => intro h; cases h
    | error stop' m' =>
      intro h
      obtain ⟨hstop, hmachine⟩ := EStateM.Result.error.inj h
      exact ⟨congrArg Except.error hstop, hmachine⟩

/-- Units whose code is rewritten to the same, on machines that are rewritten to the same: both do
what the rewritten code does on the rewritten machine. -/
theorem evaluate_agree (limits : Limits) (hR : R.InPlace)
    (hcode : Stmt.recastAll R.toRecast p = Stmt.recastAll R.toRecast q)
    (hmachine : R.machine (s.entering unit) = R.machine (s'.entering unit')) :
    let r := s.evaluate limits unit p
    let r' := s'.evaluate limits unit' q
    R.outcome r.1 = R.outcome r'.1 ∧ R.machine r.2.machine = R.machine r'.2.machine := by
  refine evaluate_of_result ?_
  rw [← hR.unit, hcode, hmachine, hR.unit]

theorem name_evaluate (limits : Limits) (s : Session) (unit : Option String) (p : List Stmt) :
    (s.evaluate limits unit p).2.name = s.name := by
  rw [evaluate]
  split <;> rfl

/-- Accepted statements are evaluated, and a stop is what the trouble is. -/
theorem runAccepted_ok (limits : Limits) (s : Session) (unit : Option String) (p : List Stmt) :
    s.runAccepted limits unit (.ok p) =
      ((s.evaluate limits unit p).1.mapError .stopped, (s.evaluate limits unit p).2) := by
  rw [runAccepted]
  rcases s.evaluate limits unit p with ⟨_ | _, _⟩ <;> rfl

end Session

end Treewalk
