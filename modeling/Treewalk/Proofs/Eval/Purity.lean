import Treewalk.Proofs.Eval.Action
import Treewalk.Proofs.Syntax.Derived
import Treewalk.Proofs.Syntax.Inline
import Treewalk.Session

/-!
# Expressions without calls

All that an expression can do to a machine it does by calling a function. Without a call it looks up
names, applies operators and makes functions, and none of this shows in the frames, in the input or
in the output, whether it comes to a value or fails on the way. A statement that consists of such
expressions does one thing at most, and does it last, so it is done as a whole or not at all.

## Main definitions

* `Machine.Untouched`, machines that differ in the number of functions made at most
* `Run.Idle`, an action that leaves every machine untouched
* `Stmt.isSimple`, a statement that runs no other statement, and `Stmt.Completes`, what it has done
  when it has come to its end

## Main results

* `Run.idle_eval`: an expression without calls is idle
* `Run.exec_simple`: a simple statement without calls completes or leaves the machine untouched
* `Run.call_free_atomic`

## Implementation notes

`Untouched` leaves out the count of closures. Making a function is the one thing besides a call by
which an expression changes the machine, and the count is seen in no frame and no output: it only
keeps functions apart.

Code has to be proper for this to hold. An expression may be a block in a tree made by hand,
and a block makes a frame; the reader of sources puts blocks only into lambdas, whose bodies do not
run.

For statements the order matters and not only the parts. `Atomic.bind` lets an idle action come
first, and the last action is the only one that may touch the machine; a statement that first
bound a name and then evaluated something could fail in between.
-/

namespace Treewalk

/-- Frames and their bindings, input and output are the same. -/
structure Machine.Untouched (m m' : Machine) : Prop where
  store : m'.store = m.store
  input : m'.input = m.input
  output : m'.output = m.output

namespace Machine.Untouched

theorem refl (m : Machine) : m.Untouched m :=
  ⟨rfl, rfl, rfl⟩

theorem trans {m₁ m₂ m₃ : Machine} (h : m₁.Untouched m₂) (h' : m₂.Untouched m₃) :
    m₁.Untouched m₃ :=
  ⟨h'.store.trans h.store, h'.input.trans h.input, h'.output.trans h.output⟩

end Machine.Untouched

namespace Run

/-! ## Idle actions -/

/-- An action that leaves every machine untouched, whatever its outcome. -/
def Idle {α : Type} (p : Run α) : Prop :=
  ∀ m : Machine, m.Untouched (p.after m)

section

variable {α β : Type} {p : Run α} {f : α → Run β} {m m' : Machine} {stop : Stop}

theorem Idle.of_ok {a : α} (hp : Idle p) (h : p m = .ok a m') : m.Untouched m' := by
  have hm := hp m
  rwa [after_of_ok h] at hm

theorem Idle.of_error (hp : Idle p) (h : p m = .error stop m') : m.Untouched m' := by
  have hm := hp m
  rwa [after_of_error h] at hm

theorem idle_pure (a : α) : Idle (pure a) := by
  intro m
  exact .refl m

theorem idle_fail (cause : Fault) : Idle (fail cause : Run α) := by
  intro m
  exact .refl m

theorem idle_lift (x : Except Fault α) : Idle (lift x) := by
  cases x with
  | ok a => exact idle_pure a
  | error cause => exact idle_fail cause

theorem Idle.bind (hp : Idle p) (hf : ∀ a, Idle (f a)) : Idle (p >>= f) := by
  intro m
  cases hr : p m with
  | ok a m' =>
    rw [after_bind_of_ok hr]
    exact (hp.of_ok hr).trans (hf a m')
  | error stop m' =>
    rw [after_bind_of_error hr]
    exact hp.of_error hr

theorem Idle.blaming (hp : Idle p) (mark : Mark) (frame : FrameId) :
    Idle (Run.blaming mark frame p) := by
  intro m
  rw [after_blaming]
  exact hp m

theorem idle_lookup (frame : FrameId) (name : String) : Idle (lookup frame name) := by
  intro m
  rw [after, lookup_eq]
  cases m.store.get? frame name <;> exact .refl m

/-- Making a function is not seen in the frames. -/
theorem idle_close (name : Option String) (params : List String) (body : Stmt) (frame : FrameId) :
    Idle (close name params body frame) := by
  intro m
  exact ⟨rfl, rfl, rfl⟩

theorem idle_each {action : α → Run β} {as : List α} (ha : ∀ a ∈ as, Idle (action a)) :
    Idle (each action as) := by
  induction as with
  | nil => exact idle_pure []
  | cons a rest ih =>
    rw [List.forall_mem_cons] at ha
    exact ha.1.bind fun b => (ih ha.2).bind fun bs => idle_pure (b :: bs)

end

/-! ## Expressions -/

/-- An expression without calls is idle. The induction is on the nesting that is left, so it passes
through every part that is evaluated, but never into the body of a function. -/
theorem idle_eval (limit : Nat) {n : Nat} {e : Expr} (hp : Code.All Code.Proper (.expr e))
    (hc : Code.CallFree (.expr e)) (f : FrameId) : Idle (eval limit n e f) := by
  induction n generalizing e with
  | zero =>
    intro m
    rw [eval]
    exact .refl m
  | succ n ih =>
    have hpart : ∀ d : Expr, .expr d ∈ (Code.expr e).parts → .expr d ∈ (Code.expr e).own →
        Idle (eval limit n d f) := fun d hd ho => ih (hp.part hd) (hc.part ho)
    rw [eval.eq_def]
    refine Idle.blaming ?_ e.mark f
    cases e with
    | int | float | char | string | mixed | bool | nil => exact idle_pure _
    | var mark name => exact idle_lookup f name
    | unary mark op operand =>
      have hoperand := hpart operand (by simp [Code.parts]) (by simp [Code.own, Code.parts])
      exact hoperand.bind fun v => idle_lift (v.applyUnary op.kind)
    | binary mark lhs op rhs =>
      have hlhs := hpart lhs (by simp [Code.parts]) (by simp [Code.own, Code.parts])
      have hrhs := hpart rhs (by simp [Code.parts]) (by simp [Code.own, Code.parts])
      refine hlhs.bind fun v => ?_
      split
      · split
        · exact hrhs
        · exact idle_pure v
      · split
        · exact idle_pure v
        · exact hrhs
      · exact hrhs.bind fun w => idle_lift (v.applyBinary op w)
    | group mark inner =>
      exact hpart inner (by simp [Code.parts]) (by simp [Code.own, Code.parts])
    | lambda mark params body => exact idle_close none params body f
    | call => exact absurd hc.here Bool.noConfusion
    | block | malformed => exact hp.here.elim

theorem idle_arguments (limit n : Nat) {args : List Expr}
    (hp : ∀ a ∈ args, Code.All Code.Proper (.expr a)) (hc : ∀ a ∈ args, Code.CallFree (.expr a))
    (f : FrameId) : Idle (each (fun a => eval limit n a f) args) :=
  idle_each fun a ha => idle_eval limit (hp a ha) (hc a ha) f

end Run

/-! ## Statements -/

namespace Stmt

/-- The statement binds, assigns, prints, gives or drops a value, and runs no other statement. -/
def isSimple : Stmt → Bool
  | .declare _ _ _ | .assign _ _ _ | .print _ _ _ | .give _ _ | .eval _ _ => true
  | _ => false

/-- What a simple statement has done when it has come to its end: the one thing that it is for. -/
inductive Completes (f : FrameId) (m : Machine) : Stmt → Flow → Machine → Prop where
  | declare {mark : Mark} {x : String} {e : Expr} {m₁ m' : Machine} (v : Value)
    (h : m.Untouched m₁) (hm : m' = { m₁ with store := m.store.define f x v }) :
    Completes f m (.declare mark x e) .next m'
  | assign {mark : Mark} {x : String} {e : Expr} {m₁ m' : Machine} {store : Store} (v : Value)
    (h : m.Untouched m₁) (hs : m.store.set? f x v = some store)
    (hm : m' = { m₁ with store := store }) : Completes f m (.assign mark x e) .next m'
  | print {mark : Mark} {format : String} {args : List Expr} {m₁ m' : Machine} (text : String)
    (h : m.Untouched m₁) (hm : m' = { m₁ with output := m.output ++ text }) :
    Completes f m (.print mark format args) .next m'
  | give {mark : Mark} {e : Expr} {m' : Machine} (v : Value) (h : m.Untouched m') :
    Completes f m (.give mark e) (.give v) m'
  | eval {mark : Mark} {e : Expr} {m' : Machine} (h : m.Untouched m') :
    Completes f m (.eval mark e) .next m'

end Stmt

namespace Run

/-- A statement has come to its end and done what it is for, or it has stopped and done nothing. -/
def Atomic (f : FrameId) (s : Stmt) (m : Machine) : EStateM.Result Stop Machine Flow → Prop
  | .ok flow m' => s.Completes f m flow m'
  | .error _ m' => m.Untouched m'

section

variable {f : FrameId} {s : Stmt} {m : Machine}

theorem Atomic.blaming {p : Run Flow} (h : Atomic f s m (p m)) (mark : Mark) (frame : FrameId) :
    Atomic f s m (Run.blaming mark frame p m) := by
  rw [Run.blaming]
  rcases hr : p m with ⟨flow, m'⟩ | ⟨_ | _ | _, m'⟩ <;> rw [hr] at h <;> exact h

/-- An idle action may come first. -/
theorem Atomic.bind {α : Type} {p : Run α} {q : α → Run Flow} (hp : Idle p)
    (hq : ∀ a m₁, m.Untouched m₁ → Atomic f s m (q a m₁)) : Atomic f s m ((p >>= q) m) := by
  cases hr : p m with
  | ok a m₁ =>
    rw [bind_of_ok hr]
    exact hq a m₁ (hp.of_ok hr)
  | error stop m₁ =>
    rw [bind_of_error hr]
    exact hp.of_error hr

end

/-- A simple statement without calls is done as a whole or not at all. Its expressions are evaluated
first and leave the machine as it was. What it does then is one step, which is made or not. -/
theorem exec_simple (limit n : Nat) {s : Stmt} (hs : s.isSimple = true)
    (hp : Code.All Code.Proper (.stmt s)) (hc : Code.CallFree (.stmt s)) (f : FrameId)
    (m : Machine) : Atomic f s m (exec limit n s f m) := by
  cases n with
  | zero =>
    rw [exec]
    exact .refl m
  | succ n =>
    have hpart : ∀ e : Expr, .expr e ∈ (Code.stmt s).parts → .expr e ∈ (Code.stmt s).own →
        Idle (eval limit n e f) := fun e he ho => idle_eval limit (hp.part he) (hc.part ho) f
    rw [exec.eq_def]
    refine Atomic.blaming ?_ s.mark f
    cases s with
    | declare mark x e =>
      have hidle := hpart e (by simp [Code.parts]) (by simp [Code.own, Code.parts])
      refine Atomic.bind hidle fun v m₁ h => ?_
      exact .declare v h (by rw [← h.store])
    | assign mark x e =>
      have hidle := hpart e (by simp [Code.parts]) (by simp [Code.own, Code.parts])
      refine Atomic.bind hidle fun v m₁ h => ?_
      -- The name is resolved when the value is there, and nothing has changed until then.
      cases hset : m₁.store.set? f x v with
      | none =>
        have hassign := assign_eq f x v m₁
        rw [hset] at hassign
        rw [bind_of_error hassign]
        exact h
      | some store =>
        have hassign := assign_eq f x v m₁
        rw [hset] at hassign
        rw [bind_of_ok hassign]
        rw [h.store] at hset
        exact .assign v h hset rfl
    | print mark format args =>
      have hproper : ∀ a ∈ args, Code.All Code.Proper (.expr a) := fun a ha =>
        hp.part (by simpa [Code.parts] using ha)
      have hfree : ∀ a ∈ args, Code.CallFree (.expr a) := fun a ha =>
        hc.part (by simpa [Code.own, Code.parts] using ha)
      have hidle := idle_arguments limit n hproper hfree f
      refine Atomic.bind hidle fun vs m₁ h => ?_
      -- The whole text is there before any of it is written.
      cases ht : printText format vs with
      | error cause => exact h
      | ok text => exact .print text h (by rw [← h.output])
    | give mark e =>
      have hidle := hpart e (by simp [Code.parts]) (by simp [Code.own, Code.parts])
      exact Atomic.bind hidle fun v m₁ h => .give v h
    | eval mark e =>
      have hidle := hpart e (by simp [Code.parts]) (by simp [Code.own, Code.parts])
      exact Atomic.bind hidle fun v m₁ h => .eval h
    | branch | loop | define | empty | block | malformed => cases hs

/-- **Expressions without calls.** Take any expression within a source that parses, with no call but
in the bodies of functions, and evaluate it in any frame of any machine; whatever the outcome, no
binding changes, nothing is written and nothing is read. So a statement that binds, assigns, prints,
gives or drops the values of such expressions has done what it is for when it comes to its end, and
if it stops, it has done nothing. -/
theorem call_free_atomic {source : List UInt8} {body : List Stmt}
    (h : Source.parse source = .ok body) {st : Stmt} (hst : st ∈ body) (limits : Limits)
    (f : FrameId) (m : Machine) :
    (∀ e : Expr, Code.Within (.expr e) (.stmt st) → Code.CallFree (.expr e) →
      m.Untouched ((evalIn limits e f).after m)) ∧
    (∀ s : Stmt, Code.Within (.stmt s) (.stmt st) → s.isSimple = true → Code.CallFree (.stmt s) →
      Atomic f s m (execIn limits s f m)) := by
  have hproper := (Source.items_of_parse h).proper st hst
  constructor
  · intro e he hc
    exact idle_eval limits.rounds (hproper.within he) hc f m
  · intro s hs hsimple hc
    exact exec_simple limits.rounds limits.nesting hsimple (hproper.within hs) hc f m

/-- In `x = fn() => f();` nothing is called. The function has been made when it turns out that there
is no `x`, and still no frame has changed. -/
theorem call_free_atomic_closure :
    let m := (Session.start none "").machine
    let body : Stmt := .block (.place 1 10) [.give (.place 1 10) (.call (.place 1 13) "f" [])]
    let s : Stmt := .assign (.place 1 1) "x" (.lambda (.place 1 5) [] body)
    ∃ stop m', execIn ⟨9, 9⟩ s 0 m = .error stop m' ∧ m'.closures = 1 ∧ m.Untouched m' := by
  intro m body s
  have hp : Source.parse ("x = fn() => f();".toList.flatMap String.utf8EncodeChar) = .ok [s] := rfl
  have hlambda : Code.CallFree (.expr (.lambda (.place 1 5) [] body)) :=
    Code.allInline_iff.mpr ⟨rfl, List.forall_mem_nil _⟩
  have hfree : Code.CallFree (.stmt s) :=
    Code.allInline_iff.mpr ⟨rfl, List.forall_mem_singleton.mpr hlambda⟩
  have hatomic := (call_free_atomic hp List.mem_cons_self ⟨9, 9⟩ 0 m).2 s (.refl _) rfl hfree
  exact ⟨_, _, rfl, rfl, hatomic⟩

end Run

end Treewalk
