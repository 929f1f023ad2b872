import Treewalk.Proofs.Eval.Action
import Treewalk.Proofs.Syntax.Cut
import Treewalk.Proofs.Syntax.Inline

/-!
# How statements end

A statement that comes to its end either hands on to the next one or gives a value to the function
around it. Which of the two it does can be told from its form in two cases. One that gives on every
path gives, however deep in blocks and branches the value is given. One in which no value is given
hands on, whatever functions it calls, for what their bodies give ends with the call.

## Why only results are described

`Run.Ends` says nothing of an action that stops. A statement that gives on every path may well fail
before it does, or never end, and no form of a statement could rule this out. The results that are
left suffice for what is done with them: statements behind one that gives can be dropped, since
either it gives and they are not run, or it stops and they are not run.

## Main definitions

* `Flow.isGive`, the end of a statement that gives a value
* `Run.Ends`, an action all of whose results are as described

## Main results

* `Run.exec_alwaysGives`: statements that give on every path
* `Run.exec_giveFree`: statements in which no value is given

## Implementation notes

Both properties of statements are read off the form alone, without a machine. A loop therefore never
counts as giving on every path, whatever its test is, for it may run no round. That a value is given
inside a function which is called is no exception to the second property: what its body gives is the
value of the call, so the induction stops at expressions and does not need to enter any body.
-/

namespace Treewalk

/-- The statement has given a value. -/
def Flow.isGive : Flow → Bool
  | .next => false
  | .give _ => true

namespace Run

/-! ## Results -/

/-- Whatever result the action has is as described. Nothing is said of an action that fails, so an
action that always fails ends in any way one likes. -/
def Ends {α : Type} (P : α → Prop) (p : Run α) : Prop :=
  ∀ (m m' : Machine) (a : α), p m = .ok a m' → P a

section

variable {α β : Type} {P : α → Prop} {Q : β → Prop} {p : Run α} {f : α → Run β}

theorem ends_any (p : Run α) : Ends (fun _ => True) p :=
  fun _ _ _ _ => trivial

theorem ends_pure {a : α} (ha : P a) : Ends P (pure a) := by
  intro m m' b h
  cases h
  exact ha

theorem ends_throw (stop : Stop) : Ends P (throw stop : Run α) := by
  intro m m' a h
  cases h

theorem Ends.bind (hp : Ends P p) (hf : ∀ a, P a → Ends Q (f a)) : Ends Q (p >>= f) := by
  intro m m' b h
  obtain ⟨a, m₁, ha, hb⟩ := exists_of_bind_ok h
  exact hf a (hp m m₁ a ha) m₁ m' b hb

/-- What comes before the last action does not matter for its result. -/
theorem ends_bind (hf : ∀ a, Ends Q (f a)) : Ends Q (p >>= f) :=
  (ends_any p).bind fun a _ => hf a

theorem Ends.blaming (hp : Ends P p) (mark : Mark) (frame : FrameId) :
    Ends P (Run.blaming mark frame p) := by
  intro m m' a h
  rw [Run.blaming] at h
  rcases hr : p m with ⟨b, m₁⟩ | ⟨_ | _ | _, m₁⟩ <;> rw [hr] at h <;> cases h
  exact hp m m' a hr

/-- One statement that gives is enough: those before it give too, or hand on to it. -/
theorem ends_inOrder_give {action : α → Run Flow} {as : List α}
    (h : ∃ a ∈ as, Ends (fun fl => fl.isGive = true) (action a)) :
    Ends (fun fl => fl.isGive = true) (inOrder action as) := by
  induction as with
  | nil =>
    obtain ⟨a, ha, -⟩ := h
    cases ha
  | cons b rest ih =>
    simp only [List.mem_cons, exists_eq_or_imp] at h
    rcases h with hb | hrest
    · refine hb.bind fun fl hfl => ?_
      cases fl with
      | next => cases hfl
      | give v => exact ends_pure rfl
    · refine ends_bind fun fl => ?_
      cases fl with
      | next => exact ih hrest
      | give v => exact ends_pure rfl

theorem ends_inOrder_next {action : α → Run Flow} {as : List α}
    (h : ∀ a ∈ as, Ends (fun fl => fl.isGive = false) (action a)) :
    Ends (fun fl => fl.isGive = false) (inOrder action as) := by
  induction as with
  | nil => exact ends_pure rfl
  | cons b rest ih =>
    rw [List.forall_mem_cons] at h
    refine h.1.bind fun fl hfl => ?_
    cases fl with
    | next => exact ih h.2
    | give v => cases hfl

theorem ends_rounds {test : Run Bool} {body : Run Flow}
    (hb : Ends (fun fl => fl.isGive = false) body) (n : Nat) :
    Ends (fun fl => fl.isGive = false) (rounds test body n) := by
  induction n with
  | zero => exact ends_throw .endless
  | succ n ih =>
    refine ends_bind fun holds => ?_
    split
    · refine hb.bind fun fl hfl => ?_
      cases fl with
      | next => exact ih
      | give v => cases hfl
    · exact ends_pure rfl

end

/-! ## Statements -/

variable (limit n : Nat) {s : Stmt} (f : FrameId)

/-- A statement that gives on every path has given when it has come to its end. The cases are those
of `Stmt.alwaysGives`. -/
theorem exec_alwaysGives (hs : s.alwaysGives = true) :
    Ends (fun fl => fl.isGive = true) (exec limit n s f) := by
  induction n generalizing s f with
  | zero =>
    rw [exec]
    exact ends_throw .tooDeep
  | succ n ih =>
    rw [exec.eq_def]
    refine Ends.blaming ?_ s.mark f
    cases s with
    | give mark e => exact ends_bind fun v => ends_pure rfl
    | block mark body =>
      obtain ⟨s, hm, hs⟩ := Stmt.anyAlwaysGives_iff.mp hs
      exact ends_bind fun inner => ends_inOrder_give ⟨s, hm, ih inner hs⟩
    | branch mark test yes no =>
      obtain ⟨hyes, hno⟩ := Bool.and_eq_true_iff.mp hs
      refine ends_bind fun v => ?_
      split
      · exact ih f hyes
      · exact ih f hno
    | _ => cases hs

/-- A statement in which no value is given, but in the bodies of functions, hands on when it has
come to its end. Calls are not looked into: they stand in expressions, and those have values and do
not end the statement around them. -/
theorem exec_giveFree (hs : Code.GiveFree (.stmt s)) :
    Ends (fun fl => fl.isGive = false) (exec limit n s f) := by
  induction n generalizing s f with
  | zero =>
    rw [exec]
    exact ends_throw .tooDeep
  | succ n ih =>
    have hpart : ∀ d : Stmt, .stmt d ∈ (Code.stmt s).own → ∀ f, Ends (fun fl => fl.isGive = false)
        (exec limit n d f) := fun d hd f => ih f (hs.part hd)
    rw [exec.eq_def]
    refine Ends.blaming ?_ s.mark f
    cases s with
    | declare | assign | define => exact ends_bind fun v => ends_bind fun _ => ends_pure rfl
    | print mark format args =>
      exact ends_bind fun vs => ends_bind fun text => ends_bind fun _ => ends_pure rfl
    | eval mark e => exact ends_bind fun v => ends_pure rfl
    | empty mark => exact ends_pure rfl
    | branch mark test yes no =>
      refine ends_bind fun v => ?_
      split
      · exact hpart yes (by simp [Code.own, Code.parts]) f
      · exact hpart no (by simp [Code.own, Code.parts]) f
    | loop mark test body =>
      exact ends_rounds (hpart body (by simp [Code.own, Code.parts]) f) limit
    | block mark body =>
      refine ends_bind fun inner => ends_inOrder_next fun s hs => ?_
      exact hpart s (by simpa [Code.own, Code.parts] using hs) inner
    | malformed mark before misfit => exact ends_bind fun _ => ends_throw _
    | give => exact absurd hs.here Bool.noConfusion

end Run

end Treewalk
