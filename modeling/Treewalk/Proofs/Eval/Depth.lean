import Treewalk.Eval.Basic
import Treewalk.Proofs.Syntax.Inline

/-!
# Nesting

Evaluation stops as too deep when the bound on nesting is used up. A call turns that into a fault of
its own, so only the nesting of the code at hand can make an evaluation stop this way, never that
of the functions it calls. The nesting of code is a number of the code alone, so a bound that is
large enough for a source can be chosen before anything runs.

## Implementation notes

The bound stands for the stack of the host. Where that runs out is nothing that a program can know,
so no result is about a certain bound: each says what is true of every bound, or that there is one
from which on it is true.

`Code.Fits` counts only the nodes that run when the code does. The body of a function is no part of
that, wherever the function stands: code that makes a function with a deep body and never calls it
is not deep, and code that does call it reaches the body through a call, where nesting that goes too
far has become a fault already. So `Shallow` is preserved by `catchDepth` for all actions, and the
body of a callee needs no hypothesis in `shallow_apply`.

## Main definitions

* `Code.Fits`, code that nests at most so deeply
* `Run.Shallow`, an action that never stops as too deep

## Main results

* `Code.exists_fits`: all code fits some bound
* `Run.shallow_eval_exec`, `Run.shallow_unit`: code that fits the bound does not stop as too deep
-/

namespace Treewalk

/-! ## The nesting of code -/

namespace Code

/-- Code with at most so many nodes one inside the other, not counting those in the bodies of
functions. -/
inductive Fits : Nat → Code → Prop where
  | node {n : Nat} {c : Code} (h : ∀ d ∈ c.own, Fits n d) : Fits (n + 1) c

theorem Fits.part {n : Nat} {c d : Code} (h : Fits (n + 1) c) (hd : d ∈ c.own) : Fits n d := by
  cases h with
  | node hp => exact hp d hd

theorem Fits.mono {n n' : Nat} {c : Code} (h : Fits n c) (hn : n ≤ n') : Fits n' c := by
  induction h generalizing n' with
  | node _ ih =>
    obtain ⟨k, rfl⟩ := Nat.exists_eq_succ_of_ne_zero (Nat.ne_zero_of_lt hn)
    exact .node fun d hd => ih d hd (Nat.le_of_succ_le_succ hn)

theorem sizeOf_lt_of_mem_map_expr {es : List Expr} {d : Code} (hd : d ∈ es.map Code.expr) :
    sizeOf d < 1 + sizeOf es := by
  obtain ⟨e, he, rfl⟩ := List.mem_map.mp hd
  have := List.sizeOf_lt_of_mem he
  rw [Code.expr.sizeOf_spec]
  omega

theorem sizeOf_lt_of_mem_map_stmt {ss : List Stmt} {d : Code} (hd : d ∈ ss.map Code.stmt) :
    sizeOf d < 1 + sizeOf ss := by
  obtain ⟨s, hs, rfl⟩ := List.mem_map.mp hd
  have := List.sizeOf_lt_of_mem hs
  rw [Code.stmt.sizeOf_spec]
  omega

/-- Parts are smaller. -/
theorem sizeOf_lt_of_mem_parts {c d : Code} (hd : d ∈ c.parts) : sizeOf d < sizeOf c := by
  rcases c with e | s
  · rw [Code.expr.sizeOf_spec]
    cases e <;> simp only [parts, List.mem_cons, List.not_mem_nil, or_false] at hd
    case call | malformed =>
      have := sizeOf_lt_of_mem_map_expr hd
      simp only [Expr.call.sizeOf_spec, Expr.malformed.sizeOf_spec]
      omega
    case block =>
      have := sizeOf_lt_of_mem_map_stmt hd
      rw [Expr.block.sizeOf_spec]
      omega
    case binary =>
      rw [Expr.binary.sizeOf_spec]
      rcases hd with rfl | rfl <;> rw [Code.expr.sizeOf_spec] <;> omega
    case unary | group | lambda =>
      subst hd
      simp only [Code.expr.sizeOf_spec, Code.stmt.sizeOf_spec, Expr.unary.sizeOf_spec,
        Expr.group.sizeOf_spec, Expr.lambda.sizeOf_spec]
      omega
  · rw [Code.stmt.sizeOf_spec]
    cases s <;> simp only [parts, List.mem_cons, List.not_mem_nil, or_false] at hd
    case print | malformed =>
      have := sizeOf_lt_of_mem_map_expr hd
      simp only [Stmt.print.sizeOf_spec, Stmt.malformed.sizeOf_spec]
      omega
    case block =>
      have := sizeOf_lt_of_mem_map_stmt hd
      rw [Stmt.block.sizeOf_spec]
      omega
    case branch =>
      rw [Stmt.branch.sizeOf_spec]
      rcases hd with rfl | rfl | rfl <;>
        simp only [Code.expr.sizeOf_spec, Code.stmt.sizeOf_spec] <;> omega
    case loop =>
      rw [Stmt.loop.sizeOf_spec]
      rcases hd with rfl | rfl <;>
        simp only [Code.expr.sizeOf_spec, Code.stmt.sizeOf_spec] <;> omega
    case declare | assign | eval | define | give =>
      subst hd
      simp only [Code.expr.sizeOf_spec, Code.stmt.sizeOf_spec, Stmt.declare.sizeOf_spec,
        Stmt.assign.sizeOf_spec, Stmt.eval.sizeOf_spec, Stmt.define.sizeOf_spec,
        Stmt.give.sizeOf_spec]
      omega

theorem fits_of_sizeOf_lt {n : Nat} : ∀ {c : Code}, sizeOf c < n → Fits n c := by
  induction n with
  | zero => exact fun hc => absurd hc (Nat.not_lt_zero _)
  | succ n ih =>
    intro c hc
    refine .node fun d hd => ih ?_
    have := sizeOf_lt_of_mem_parts (mem_parts_of_mem_own hd)
    omega

/-- Some bound is enough for a whole list of statements. -/
theorem exists_fits (ss : List Stmt) : ∃ n, ∀ s ∈ ss, Fits n (.stmt s) := by
  refine ⟨sizeOf ss + 1, fun s hs => fits_of_sizeOf_lt ?_⟩
  have := List.sizeOf_lt_of_mem hs
  rw [Code.stmt.sizeOf_spec]
  omega

end Code

/-! ## Actions -/

namespace Run

/-- The action never stops as too deep. The machine is arbitrary, with whatever functions it
holds. -/
def Shallow {α : Type} (p : Run α) : Prop :=
  ∀ m m' : Machine, p m ≠ .error .tooDeep m'

variable {α β : Type} {p : Run α} {f : α → Run β}

theorem Shallow.pure (a : α) : Shallow (Pure.pure a) :=
  fun _ _ h => by cases h

theorem Shallow.bind (hp : Shallow p) (hf : ∀ a, Shallow (f a)) : Shallow (p >>= f) := by
  intro m m' h
  change EStateM.bind p f m = _ at h
  rw [EStateM.bind] at h
  cases hr : p m with
  | ok a m₁ =>
    rw [hr] at h
    exact hf a m₁ m' h
  | error stop m₁ =>
    rw [hr] at h
    obtain ⟨rfl, rfl⟩ := EStateM.Result.error.inj h
    exact hp m m₁ hr

theorem Shallow.fail (cause : Fault) : Shallow (Run.fail cause : Run α) :=
  fun _ _ h => by cases h

theorem Shallow.lift (x : Except Fault α) : Shallow (Run.lift x) := by
  cases x with
  | ok a => exact Shallow.pure a
  | error cause => exact Shallow.fail cause

theorem Shallow.blaming (mark : Mark) (frame : FrameId) (hp : Shallow p) :
    Shallow (Run.blaming mark frame p) := by
  intro m m' h
  rw [Run.blaming] at h
  split at h
  · cases h
  · exact hp m m' h

/-- A call keeps to itself how deep it went. -/
theorem Shallow.catchDepth (cause : Fault) (p : Run α) : Shallow (Run.catchDepth cause p) := by
  intro m m' h
  rw [Run.catchDepth] at h
  split at h
  · cases h
  · next hne => exact hne m' h

theorem shallow_lookup (frame : FrameId) (name : String) : Shallow (lookup frame name) := by
  intro m m' h
  rw [lookup_eq] at h
  split at h <;> cases h

theorem shallow_assign (frame : FrameId) (name : String) (v : Value) :
    Shallow (assign frame name v) := by
  intro m m' h
  rw [assign_eq] at h
  split at h <;> cases h

theorem shallow_modifyGet (g : Machine → α × Machine) : Shallow (modifyGet g : Run α) :=
  fun _ _ h => by cases h

theorem shallow_each {action : β → Run α} {bs : List β} (h : ∀ b ∈ bs, Shallow (action b)) :
    Shallow (each action bs) := by
  induction bs with
  | nil => exact Shallow.pure _
  | cons b rest ih =>
    rw [List.forall_mem_cons] at h
    exact h.1.bind fun _ => (ih h.2).bind fun _ => Shallow.pure _

theorem shallow_inOrder {action : β → Run Flow} {bs : List β} (h : ∀ b ∈ bs, Shallow (action b)) :
    Shallow (inOrder action bs) := by
  induction bs with
  | nil => exact Shallow.pure _
  | cons b rest ih =>
    rw [List.forall_mem_cons] at h
    refine h.1.bind fun flow => ?_
    cases flow with
    | give v => exact Shallow.pure _
    | next => exact ih h.2

theorem shallow_rounds {test : Run Bool} {body : Run Flow} (ht : Shallow test)
    (hb : Shallow body) (n : Nat) : Shallow (rounds test body n) := by
  induction n with
  | zero => exact fun _ _ h => by cases h
  | succ n ih =>
    refine ht.bind fun b => ?_
    cases b with
    | false => exact Shallow.pure _
    | true =>
      refine hb.bind fun flow => ?_
      cases flow with
      | give v => exact Shallow.pure _
      | next => exact ih

theorem shallow_builtin (b : Builtin) (args : List Value) : Shallow (b.call args) := by
  rw [Builtin.call.eq_def]
  cases b with
  | write | writeln =>
    exact (Shallow.lift _).bind fun _ => (shallow_modifyGet _).bind fun _ => Shallow.pure _
  | format =>
    simp only
    split
    · exact (Shallow.lift _).bind fun _ => Shallow.pure _
    · split
      · exact (Shallow.lift _).bind fun _ => Shallow.pure _
      · exact Shallow.fail _
    · exact Shallow.fail _
  | getline =>
    simp only
    split
    · exact (shallow_modifyGet _).bind fun _ => Shallow.pure _
    · exact Shallow.fail _

theorem shallow_apply (exec : Stmt → FrameId → Run Flow) (callee : Value) (args : List Value) :
    Shallow (apply exec callee args) := by
  rw [apply.eq_def]
  split
  · rw [applyClosure]
    split
    · refine (shallow_modifyGet _).bind fun _ => ?_
      exact (Shallow.catchDepth _ _).bind fun _ => Shallow.pure _
    · exact Shallow.fail _
  · exact shallow_builtin _ _
  · exact Shallow.fail _

/-! ## Expressions and statements -/

section

open Code

variable {limit n : Nat}

theorem shallow_eval_step (he : ∀ e f, Fits n (.expr e) → Shallow (eval limit n e f))
    (hx : ∀ s f, Fits n (.stmt s) → Shallow (exec limit n s f)) (e : Expr) (f : FrameId)
    (h : Fits (n + 1) (.expr e)) : Shallow (eval limit (n + 1) e f) := by
  rw [eval.eq_def]
  refine Shallow.blaming _ _ ?_
  cases e with
  | int | float | char | string | mixed | bool | nil => exact Shallow.pure _
  | var => exact shallow_lookup _ _
  | unary mark op operand =>
    exact (he _ _ (h.part (by simp [own, parts]))).bind fun _ => Shallow.lift _
  | binary mark lhs op rhs =>
    have hr := he rhs f (h.part (by simp [own, parts]))
    refine (he _ _ (h.part (by simp [own, parts]))).bind fun v => ?_
    split
    · split
      · exact hr
      · exact Shallow.pure _
    · split
      · exact Shallow.pure _
      · exact hr
    · exact hr.bind fun _ => Shallow.lift _
  | group mark inner => exact he _ _ (h.part (by simp [own, parts]))
  | call mark name args =>
    refine (shallow_lookup _ _).bind fun _ => Shallow.bind (shallow_each fun a ha => ?_) ?_
    · exact he _ _ (h.part (by simpa [own, parts] using ha))
    · exact fun _ => shallow_apply _ _ _
  | lambda => exact shallow_modifyGet _
  | block mark body =>
    refine (shallow_modifyGet _).bind fun _ => Shallow.bind (shallow_inOrder fun s hs => ?_) ?_
    · exact hx _ _ (h.part (by simpa [own, parts] using hs))
    · exact fun _ => Shallow.pure _
  | malformed mark before misfit =>
    refine Shallow.bind (shallow_each fun a ha => ?_) fun _ => Shallow.fail _
    exact he _ _ (h.part (by simpa [own, parts] using ha))

theorem shallow_exec_step (he : ∀ e f, Fits n (.expr e) → Shallow (eval limit n e f))
    (hx : ∀ s f, Fits n (.stmt s) → Shallow (exec limit n s f)) (s : Stmt) (f : FrameId)
    (h : Fits (n + 1) (.stmt s)) : Shallow (exec limit (n + 1) s f) := by
  rw [exec.eq_def]
  refine Shallow.blaming _ _ ?_
  cases s with
  | declare mark name e =>
    refine (he _ _ (h.part (by simp [own, parts]))).bind fun _ => ?_
    exact (shallow_modifyGet _).bind fun _ => Shallow.pure _
  | assign mark name e =>
    refine (he _ _ (h.part (by simp [own, parts]))).bind fun _ => ?_
    exact (shallow_assign _ _ _).bind fun _ => Shallow.pure _
  | eval mark e | give mark e =>
    exact (he _ _ (h.part (by simp [own, parts]))).bind fun _ => Shallow.pure _
  | branch mark test yes no =>
    refine (he _ _ (h.part (by simp [own, parts]))).bind fun _ => ?_
    split
    · exact hx _ _ (h.part (by simp [own, parts]))
    · exact hx _ _ (h.part (by simp [own, parts]))
  | loop mark test body =>
    refine shallow_rounds ?_ (hx _ _ (h.part (by simp [own, parts]))) _
    exact (he _ _ (h.part (by simp [own, parts]))).bind fun _ => Shallow.pure _
  | define mark name params body =>
    refine (shallow_modifyGet _).bind fun _ => ?_
    exact (shallow_modifyGet _).bind fun _ => Shallow.pure _
  | print mark format args =>
    refine Shallow.bind (shallow_each fun a ha => ?_) fun _ => (Shallow.lift _).bind fun _ => ?_
    · exact he _ _ (h.part (by simpa [own, parts] using ha))
    · exact (shallow_modifyGet _).bind fun _ => Shallow.pure _
  | empty => exact Shallow.pure _
  | block mark body =>
    refine (shallow_modifyGet _).bind fun _ => shallow_inOrder fun s hs => ?_
    exact hx _ _ (h.part (by simpa [own, parts] using hs))
  | malformed mark before misfit =>
    refine Shallow.bind (shallow_each fun a ha => ?_) fun _ => Shallow.fail _
    exact he _ _ (h.part (by simpa [own, parts] using ha))

/-- Code that fits the bound does not stop as too deep. The induction is on the bound, in the cases
of evaluation. The body of a function that is called is not among the cases, since a call does not
let it stop as too deep. -/
theorem shallow_eval_exec (limit n : Nat) :
    (∀ e f, Fits n (.expr e) → Shallow (eval limit n e f)) ∧
      ∀ s f, Fits n (.stmt s) → Shallow (exec limit n s f) := by
  induction n with
  | zero => exact ⟨fun _ _ h => (nomatch h), fun _ _ h => (nomatch h)⟩
  | succ n ih => exact ⟨shallow_eval_step ih.1 ih.2, shallow_exec_step ih.1 ih.2⟩

end

/-- A unit whose statements fit the bound does not stop as too deep. -/
theorem shallow_unit (limits : Limits) {statements : List Stmt} (f : FrameId)
    (h : ∀ s ∈ statements, Code.Fits limits.nesting (.stmt s)) :
    Shallow (unit limits statements f) := by
  refine Shallow.bind (shallow_inOrder fun s hs => ?_) fun _ => Shallow.pure _
  exact (shallow_eval_exec limits.rounds limits.nesting).2 s f (h s hs)

end Run

end Treewalk
