import Treewalk.Proofs.Eval.Action
import Treewalk.Proofs.Scope.Store
import Treewalk.Proofs.Syntax.Code

/-!
# Invariants of evaluation

Many statements about running programs have one proof: something holds of the machine, of the values
in it and of the code that runs, and whatever evaluation does keeps it so. That proof is given here
once. An `Invariant` names the properties; `Invariant.Stable` asks of each thing that evaluation can
do, and of nothing else, that it keeps them; and the conclusion is about every expression, every
statement, every call and every loop, whether it ends well or stops.

## Growth

Properties of values and frames may depend on the machine, so they have to survive whatever happens
later. `grows` relates a machine to any later one, and they are asked to be monotone along it. An
invariant that has no use for this takes `grows` to be always true.

## Declarations

A statement binds names in the frame that it runs in. `owned` are the frames where this is allowed;
a frame made on the way always is. In any other frame only statements that introduce nothing may
run.

## Why the properties are parameters

An evaluation touches the machine in a dozen places, and a direct proof about it has a case for
every node with the same few steps in each. With the properties as parameters this case analysis is
done once, and an instance consists of what is particular to it: what it means for a state and for a
value to be good, and why the primitive steps keep it so. The fields of `Stable` are these steps and
nothing else. None of them mentions the evaluator, so an instance can be checked against the store
alone.

## Main definitions

* `Invariant`, `Invariant.Stable`
* `Invariant.Keeps`, what an action does to a machine that satisfies the invariant

## Main results

* `Invariant.Stable.eval_keeps`, `Invariant.Stable.exec_keeps`
* `Invariant.Stable.unit_keeps`, the same for the statements of a unit

## Implementation notes

`Keeps` speaks of both outcomes, and of a run that stops it says as much about the machine as of one
that does not. An invariant that held only of successful runs would be lost at the first failure,
and a session goes on after one. Stops that are no failures raise no fault, so the clause on faults
is about failures alone; that is how running out of nesting or of rounds gets by without a field.

The induction of `Stable.keeps` is on the bound on nesting and proves the two statements together.
Its step is split into `eval_step` and `exec_step`, one case for each constructor. Iteration over
lists and rounds is no part of the induction: `each_keeps` and its like take the property of the
action as a hypothesis at every later machine, which is the reason for `grows` in them.

`code` depends on a machine and a frame, although many instances ignore both. Those that do not are
about names that are bound around the code, and have to know where it runs.
-/

namespace Treewalk

/-- Faults of a program, as opposed to those of a tree that was made by hand. -/
def Fault.isOrdinary : Fault → Bool
  | unknownUnary _ | unknownBinary _ | unknownComparison _ | misfit _ | misuse _ => false
  | _ => true

/-- Why a decimal operation has no result. -/
def Fault.issue? : Fault → Option Decimal.Issue
  | float issue _ => some issue
  | _ => none

/-- The value of a literal. -/
def Expr.literal? : Expr → Option Value
  | .int _ value => some (.int value)
  | .float _ value => some (.float value)
  | .char _ text => some (.char text)
  | .string _ text => some (.string text)
  | .mixed _ sort part => some (.mixed sort part)
  | .bool _ value => some (.bool value)
  | .nil _ => some .nil
  | _ => none

/-- The name, the parameters and the body of the function that a node makes. -/
def Code.function? : Code → Option (Option String × List String × Stmt)
  | .expr (.lambda _ params body) => some (none, params, body)
  | .stmt (.define _ name params body) => some (some name, params, body)
  | _ => none

/-- The body of a function is a part of the node that makes it. -/
theorem Code.mem_parts_of_function? {c : Code} {name : Option String} {params : List String}
    {body : Stmt} (h : c.function? = some (name, params, body)) : .stmt body ∈ c.parts := by
  rcases c with e | s
  · cases e <;> cases h
    simp [parts]
  · cases s <;> cases h
    simp [parts]

/-- The cause of what a misfit leaf is evaluated to. -/
def Code.misfit? : Code → Option Misfit
  | .expr (.malformed _ _ misfit) | .stmt (.malformed _ _ misfit) => some misfit
  | _ => none

/-- Properties of all that an evaluation deals with. They depend on the machine because functions
refer to its frames, and a frame means something on a machine only. What holds of a value has to go
on holding when the machine has grown, and `grows` is what growing means. -/
structure Invariant where
  /-- Machines between any two actions. -/
  state : Machine → Prop
  /-- A machine and a later one. -/
  grows : Machine → Machine → Prop
  /-- Values at hand. -/
  value : Machine → Value → Prop
  /-- Frames that code runs in or was made in. -/
  frame : Machine → FrameId → Prop
  /-- Frames in which names may be declared. -/
  owned : Machine → FrameId → Prop
  /-- Code that may run in a frame. -/
  code : Machine → FrameId → Code → Prop
  /-- Faults that may be raised. -/
  fault : Fault → Prop

namespace Invariant

/-- A machine that satisfies the invariant and is later than another. -/
structure Next (I : Invariant) (m m' : Machine) : Prop where
  state : I.state m'
  grows : I.grows m m'

/-- An action leads to a machine that satisfies the invariant, with a result as described or with a
fault that may be raised. The machine behind a failure satisfies the invariant too, since a session
goes on with it. Running out of stack is no fault and nothing is asked of it but that. -/
def Keeps (I : Invariant) {α : Type} (p : Run α) (m : Machine) (Q : α → Machine → Prop) : Prop :=
  I.state m →
    match p m with
    | .ok a m' => I.Next m m' ∧ Q a m'
    | .error stop m' => I.Next m m' ∧ ∀ f, stop = .failure f → I.fault f.fault

/-- A computation gives a result as described or a fault that may be raised. Such a computation does
not change the machine, so nothing is said about one. -/
def Yields (I : Invariant) {α : Type} (x : Except Fault α) (Q : α → Prop) : Prop :=
  match x with
  | .ok a => Q a
  | .error f => I.fault f

/-- A value that is given is a good one. -/
def flow (I : Invariant) (fl : Flow) (m : Machine) : Prop :=
  I.value m fl.value

/-- What evaluation can do keeps the invariant. There is a field for everything that evaluation does
in one place and none for constructs as such: a loop, a conditional and a list of statements are put
together from actions and keep what these keep. -/
structure Stable (I : Invariant) : Prop where
  refl (m : Machine) : I.grows m m
  trans {m₁ m₂ m₃ : Machine} (h : I.grows m₁ m₂) (h' : I.grows m₂ m₃) : I.grows m₁ m₃
  value_grows {m m' : Machine} {v : Value} (h : I.grows m m') (hv : I.value m v) : I.value m' v
  frame_grows {m m' : Machine} {f : FrameId} (h : I.grows m m') (hf : I.frame m f) : I.frame m' f
  owned_grows {m m' : Machine} {f : FrameId} (h : I.grows m m') (hf : I.owned m f) : I.owned m' f
  code_grows {m m' : Machine} {f : FrameId} {c : Code} (h : I.grows m m') (hc : I.code m f c) :
    I.code m' f c := by intros; assumption
  /-- Code is made of code. -/
  part {m : Machine} {f : FrameId} {c d : Code} (hc : I.code m f c) (hd : d ∈ c.parts) :
    I.code m f d
  literal {m : Machine} {f : FrameId} {e : Expr} {v : Value} (hc : I.code m f (.expr e))
    (hv : e.literal? = some v) : I.value m v
  nil (m : Machine) : I.value m .nil
  lookup {m : Machine} {f : FrameId} {name : String} {v : Value} (hm : I.state m)
    (hf : I.frame m f) (hv : m.store.get? f name = some v) : I.value m v
  /-- A name is assigned in the frame that binds it. -/
  assign {m : Machine} {f g : FrameId} {name : String} {v : Value} (hm : I.state m)
    (hf : I.frame m f) (hg : m.store.owner? f name = some g) (hv : I.value m v) :
    I.Next m { m with store := m.store.define g name v }
  declare {m : Machine} {f : FrameId} {v : Value} (name : String) (hm : I.state m)
    (hf : I.frame m f) (ho : I.owned m f) (hv : I.value m v) :
    I.Next m { m with store := m.store.define f name v }
  /-- A new frame is owned. -/
  enter {m : Machine} {f : FrameId} {vars : Bindings} (hm : I.state m) (hf : I.frame m f)
    (hv : ∀ entry ∈ vars, I.value m entry.2) :
    let m' : Machine := { m with store := m.store.addChild f none vars }
    I.Next m m' ∧ I.frame m' m.store.next ∧ I.owned m' m.store.next
  /-- What may run in a frame may run in a new one inside it. -/
  inside {m : Machine} {f : FrameId} {c : Code} (vars : Bindings) (hm : I.state m)
    (hf : I.frame m f) (hc : I.code m f c) :
    I.code { m with store := m.store.addChild f none vars } m.store.next c := by intros; assumption
  close {m : Machine} {f : FrameId} {c : Code} {name : Option String} {params : List String}
    {body : Stmt} (hm : I.state m) (hf : I.frame m f) (hc : I.code m f c)
    (hp : c.function? = some (name, params, body)) :
    let m' : Machine := { m with closures := m.closures + 1 }
    I.Next m m' ∧ I.value m' (.closure ⟨m.closures, name, params, body, f⟩)
  /-- A closure that is at hand can be called. -/
  called {m : Machine} {c : Closure} (hv : I.value m (.closure c)) :
    I.code m c.frame (.stmt c.body) ∧ I.frame m c.frame
  /-- Input and output are of no account. -/
  outside {m m' : Machine} (hm : I.state m) (hs : m'.store = m.store)
    (hc : m'.closures = m.closures) : I.Next m m'
  unary {m : Machine} {f : FrameId} {mark : Mark} {op : Operator} {e : Expr} {v : Value}
    (hc : I.code m f (.expr (.unary mark op e))) (hv : I.value m v) :
    I.Yields (v.applyUnary op.kind) (I.value m)
  binary {m : Machine} {f : FrameId} {mark : Mark} {op : Operator} {lhs rhs : Expr} {v w : Value}
    (hc : I.code m f (.expr (.binary mark lhs op rhs))) (hv : I.value m v) (hw : I.value m w)
    (ha : op.kind ≠ .andKw) (ho : op.kind ≠ .orKw) :
    I.Yields (v.applyBinary op w) (I.value m)
  /-- A value without a text is shown. -/
  untextual {m : Machine} {v : Value} {sort : PartSort} (place : Nat) (hv : I.value m v)
    (hs : v.untextual? = some sort) : I.fault (.misuse (.untextual place sort))
  /-- A part of a tree is taken for a format. -/
  words {m : Machine} {part : Tree} {pattern : String} (hv : I.value m (.mixed .string part))
    (hp : part.words? = some pattern) : I.value m (.string pattern)
  wordless {m : Machine} {part : Tree} (hv : I.value m (.mixed .string part))
    (hp : part.words? = none) : I.fault (.misfit (.lacking part.sort "split"))
  formatted {m : Machine} {context pattern text : String} {args : List Value}
    (hp : I.value m (.string pattern)) (hv : ∀ v ∈ args, I.value m v)
    (ht : render context pattern args = .ok text) : I.value m (.string text)
  line (m : Machine) : I.value m (.string (String.ofList (Run.lineOf m.input)))
  ordinary {f : Fault} (hf : f.isOrdinary = true) (hi : f.issue? = none) : I.fault f
  misfit {m : Machine} {f : FrameId} {c : Code} {cause : Misfit} (hc : I.code m f c)
    (hm : c.misfit? = some cause) : I.fault (.misfit cause)

variable {I : Invariant} {α β : Type} {p : Run α} {f : α → Run β} {m : Machine}
  {Q : α → Machine → Prop} {R : β → Machine → Prop}

/-! ## Actions -/

theorem Next.trans (h : I.Stable) {m₁ m₂ m₃ : Machine} (h₁ : I.Next m₁ m₂) (h₂ : I.Next m₂ m₃) :
    I.Next m₁ m₃ :=
  ⟨h₂.state, h.trans h₁.grows h₂.grows⟩

theorem Keeps.pure (h : I.Stable) {a : α} (ha : Q a m) : I.Keeps (Pure.pure a) m Q :=
  fun hm => ⟨⟨hm, h.refl m⟩, ha⟩

theorem Keeps.bind (h : I.Stable) (hp : I.Keeps p m Q)
    (hf : ∀ a m', I.Next m m' → Q a m' → I.Keeps (f a) m' R) : I.Keeps (p >>= f) m R := by
  intro hm
  have hpm := hp hm
  change match EStateM.bind p f m with
    | .ok a m' => _
    | .error stop m' => _
  rw [EStateM.bind]
  cases hr : p m with
  | error stop m' =>
    rw [hr] at hpm
    exact hpm
  | ok a m' =>
    rw [hr] at hpm
    have hfm := hf a m' hpm.1 hpm.2 hpm.1.state
    simp only
    cases hr' : f a m' with
    | error stop m'' =>
      rw [hr'] at hfm
      exact ⟨hpm.1.trans h hfm.1, hfm.2⟩
    | ok b m'' =>
      rw [hr'] at hfm
      exact ⟨hpm.1.trans h hfm.1, hfm.2⟩

theorem Keeps.fail (h : I.Stable) {cause : Fault} (hf : I.fault cause) :
    I.Keeps (Run.fail cause) m Q := by
  refine fun hm => ⟨⟨hm, h.refl m⟩, ?_⟩
  rintro f hff
  obtain rfl := Stop.failure.inj hff
  exact hf

/-- A stop that is no failure raises no fault. -/
theorem Keeps.throw (h : I.Stable) {stop : Stop} (hs : ∀ f, stop ≠ .failure f) :
    I.Keeps (MonadExcept.throw stop : Run α) m Q :=
  fun hm => ⟨⟨hm, h.refl m⟩, fun f hf => absurd hf (hs f)⟩

theorem Keeps.lift (h : I.Stable) {x : Except Fault α} (hx : I.Yields x fun a => Q a m) :
    I.Keeps (Run.lift x) m Q := by
  cases x with
  | ok a => exact Keeps.pure h hx
  | error f => exact Keeps.fail h hx

theorem Keeps.blaming {mark : Mark} {frame : FrameId} (hp : I.Keeps p m Q) :
    I.Keeps (Run.blaming mark frame p) m Q := by
  intro hm
  have hpm := hp hm
  rw [Run.blaming]
  cases hr : p m with
  | ok a m' => rwa [hr] at hpm
  | error stop m' =>
    rw [hr] at hpm
    cases stop with
    | failure f =>
      refine ⟨hpm.1, ?_⟩
      rintro f' hf'
      obtain rfl := Stop.failure.inj hf'
      rw [Failure.blame_fault]
      exact hpm.2 f rfl
    | tooDeep => exact ⟨hpm.1, hpm.2⟩
    | endless => exact ⟨hpm.1, hpm.2⟩

theorem Keeps.catchDepth {cause : Fault} (hc : I.fault cause) (hp : I.Keeps p m Q) :
    I.Keeps (Run.catchDepth cause p) m Q := by
  intro hm
  have hpm := hp hm
  rw [Run.catchDepth]
  cases hr : p m with
  | ok a m' => rwa [hr] at hpm
  | error stop m' =>
    rw [hr] at hpm
    cases stop with
    | failure f => exact ⟨hpm.1, hpm.2⟩
    | tooDeep =>
      refine ⟨hpm.1, ?_⟩
      rintro f hf
      obtain rfl := Stop.failure.inj hf
      exact hc
    | endless => exact ⟨hpm.1, hpm.2⟩

/-- Whatever an action leaves behind satisfies the invariant. -/
theorem Keeps.next_after (hp : I.Keeps p m Q) (hm : I.state m) : I.Next m (p.after m) := by
  have hpm := hp hm
  rw [Run.after]
  split <;> next hr => rw [hr] at hpm; exact hpm.1

theorem Keeps.of_ok {a : α} {m' : Machine} (hp : I.Keeps p m Q) (hm : I.state m)
    (hr : p m = .ok a m') : I.Next m m' ∧ Q a m' := by
  have hpm := hp hm
  rwa [hr] at hpm

/-! ## Scope -/

theorem lookup_keeps (h : I.Stable) {frame : FrameId} (hf : I.frame m frame) (name : String) :
    I.Keeps (Run.lookup frame name) m fun v m' => I.value m' v := by
  intro hm
  rw [Run.lookup_eq]
  cases hv : m.store.get? frame name with
  | none => exact Keeps.fail (Q := fun v m' => I.value m' v) h (h.ordinary rfl rfl) hm
  | some v => exact ⟨⟨hm, h.refl m⟩, h.lookup hm hf hv⟩

theorem assign_keeps (h : I.Stable) {frame : FrameId} {v : Value} (hf : I.frame m frame)
    (hv : I.value m v) (name : String) :
    I.Keeps (Run.assign frame name v) m fun _ _ => True := by
  intro hm
  rw [Run.assign]
  cases hg : m.store.owner? frame name with
  | none => exact Keeps.fail (Q := fun (_ : Unit) _ => True) h (h.ordinary rfl rfl) hm
  | some g => exact ⟨h.assign hm hf hg hv, trivial⟩

theorem declare_keeps (h : I.Stable) {frame : FrameId} {v : Value} (hf : I.frame m frame)
    (ho : I.owned m frame) (hv : I.value m v) (name : String) :
    I.Keeps (Run.declare frame name v) m fun _ _ => True :=
  fun hm => ⟨h.declare name hm hf ho hv, trivial⟩

theorem enter_keeps (h : I.Stable) {frame : FrameId} {vars : Bindings} (hf : I.frame m frame)
    (hv : ∀ entry ∈ vars, I.value m entry.2) :
    I.Keeps (Run.enter frame vars) m fun inner m' =>
      (I.frame m' inner ∧ I.owned m' inner) ∧ ∀ {c : Code}, I.code m frame c → I.code m' inner c :=
  fun hm =>
    have hn := h.enter hm hf hv
    ⟨hn.1, hn.2, h.inside vars hm hf⟩

theorem close_keeps (h : I.Stable) {frame : FrameId} {c : Code} {name : Option String}
    {params : List String} {body : Stmt} (hf : I.frame m frame) (hc : I.code m frame c)
    (hp : c.function? = some (name, params, body)) :
    I.Keeps (Run.close name params body frame) m fun v m' => I.value m' v :=
  fun hm => h.close hm hf hc hp

theorem emit_keeps (h : I.Stable) (text : String) :
    I.Keeps (Run.emit text) m fun _ _ => True :=
  fun hm => ⟨h.outside hm rfl rfl, trivial⟩

/-! ## Texts -/

theorem Yields.bind {Q : α → Prop} {R : β → Prop} {x : Except Fault α} {f : α → Except Fault β}
    (hx : I.Yields x Q) (hf : ∀ a, Q a → I.Yields (f a) R) : I.Yields (x >>= f) R := by
  cases x with
  | ok a => exact hf a hx
  | error cause => exact hx

theorem Yields.map {x : Except Fault α} (hx : I.Yields x fun _ => True) (f : α → β) :
    I.Yields (x.map f) fun _ => True := by
  cases x with
  | ok a => trivial
  | error cause => exact hx

theorem checkTexts_yields (h : I.Stable) (place step : Nat) {args : List Value}
    (ha : ∀ v ∈ args, I.value m v) : I.Yields (checkTexts place step args) fun _ => True := by
  induction args generalizing place with
  | nil => trivial
  | cons v rest ih =>
    rw [List.forall_mem_cons] at ha
    rw [checkTexts]
    cases hs : v.untextual? with
    | none => exact ih (place + step) ha.2
    | some sort => exact h.untextual place ha.1 hs

theorem render_yields (h : I.Stable) (context pattern : String) {args : List Value}
    (ha : ∀ v ∈ args, I.value m v) : I.Yields (render context pattern args) fun _ => True := by
  unfold render
  simp only
  split
  · exact h.ordinary rfl rfl
  · exact (checkTexts_yields h 1 2 fun v hv => ha v (List.mem_of_mem_take hv)).map _

theorem printText_yields (h : I.Stable) (format : String) {args : List Value}
    (ha : ∀ v ∈ args, I.value m v) : I.Yields (printText format args) fun _ => True := by
  rw [printText]
  split
  · exact (checkTexts_yields h 0 1 ha).map _
  · exact (render_yields h "print" format ha).map _

theorem render_keeps (h : I.Stable) {pattern : String} {args : List Value}
    (hp : I.value m (.string pattern)) (ha : ∀ v ∈ args, I.value m v) :
    I.Keeps (do return .string (← Run.lift (render "format" pattern args))) m
      fun v m' => I.value m' v := by
  refine Keeps.bind h (Q := fun text m' => I.value m' (.string text)) (Keeps.lift h ?_)
    fun _ _ _ ht => Keeps.pure h ht
  have hy := render_yields h "format" pattern ha
  cases hr : render "format" pattern args with
  | ok text => exact h.formatted hp ha hr
  | error f => rwa [hr] at hy

theorem builtin_keeps (h : I.Stable) (b : Builtin) {args : List Value}
    (ha : ∀ v ∈ args, I.value m v) : I.Keeps (b.call args) m fun v m' => I.value m' v := by
  have hshow : ∀ text, I.Keeps
      (do Run.lift (checkTexts 0 1 args)
          Run.emit text
          return Value.nil) m fun v m' => I.value m' v := by
    intro text
    refine Keeps.bind (Q := fun _ _ => True) h (Keeps.lift h (checkTexts_yields h 0 1 ha)) ?_
    exact fun _ _ _ _ => Keeps.bind h (emit_keeps h text) fun _ _ _ _ => Keeps.pure h (h.nil _)
  unfold Builtin.call
  cases b with
  | write => exact hshow _
  | writeln => exact hshow _
  | format =>
    simp only
    split
    · rw [List.forall_mem_cons] at ha
      exact render_keeps h ha.1 ha.2
    · rw [List.forall_mem_cons] at ha
      split
      · next hw => exact render_keeps h (h.words ha.1 hw) ha.2
      · next hw => exact Keeps.fail h (h.wordless ha.1 hw)
    · exact Keeps.fail h (h.ordinary rfl rfl)
  | getline =>
    simp only
    split
    · intro hm
      have hn : I.Next m { m with input := (m.input.dropWhile (· ≠ '\n')).drop 1 } :=
        h.outside hm rfl rfl
      exact ⟨hn, h.value_grows hn.grows (h.line m)⟩
    · exact Keeps.fail h (h.ordinary rfl rfl)

/-! ## Iteration -/

theorem each_keeps (h : I.Stable) {action : α → Run Value} {as : List α}
    (ha : ∀ a ∈ as, ∀ m', I.grows m m' → I.Keeps (action a) m' fun v m'' => I.value m'' v) :
    I.Keeps (Run.each action as) m fun vs m' => ∀ v ∈ vs, I.value m' v := by
  induction as generalizing m with
  | nil => exact Keeps.pure h (by simp)
  | cons a rest ih =>
    rw [List.forall_mem_cons] at ha
    refine Keeps.bind h (ha.1 m (h.refl m)) fun v m' hn hv => ?_
    refine Keeps.bind h (ih fun b hb m'' hg => ha.2 b hb m'' (h.trans hn.grows hg)) ?_
    intro vs m'' hn' hvs
    refine Keeps.pure h ?_
    rw [List.forall_mem_cons]
    exact ⟨h.value_grows hn'.grows hv, hvs⟩

theorem inOrder_keeps (h : I.Stable) {action : α → Run Flow} {as : List α}
    (ha : ∀ a ∈ as, ∀ m', I.grows m m' → I.Keeps (action a) m' I.flow) :
    I.Keeps (Run.inOrder action as) m I.flow := by
  induction as generalizing m with
  | nil => exact Keeps.pure h (h.nil m)
  | cons a rest ih =>
    rw [List.forall_mem_cons] at ha
    refine Keeps.bind h (ha.1 m (h.refl m)) fun fl m' hn hfl => ?_
    cases fl with
    | give v => exact Keeps.pure h hfl
    | next => exact ih fun b hb m'' hg => ha.2 b hb m'' (h.trans hn.grows hg)

theorem rounds_keeps (h : I.Stable) {test : Run Bool} {body : Run Flow}
    (ht : ∀ m', I.grows m m' → I.Keeps test m' fun _ _ => True)
    (hb : ∀ m', I.grows m m' → I.Keeps body m' I.flow) (n : Nat) :
    I.Keeps (Run.rounds test body n) m I.flow := by
  induction n generalizing m with
  | zero => exact Keeps.throw h fun _ => Stop.noConfusion
  | succ n ih =>
    refine Keeps.bind h (ht m (h.refl m)) fun b m' hn _ => ?_
    cases b with
    | false => exact Keeps.pure h (h.nil m')
    | true =>
      refine Keeps.bind h (hb m' hn.grows) fun fl m'' hn' hfl => ?_
      have hg := h.trans hn.grows hn'.grows
      cases fl with
      | give v => exact Keeps.pure h hfl
      | next => exact ih (fun m₁ h₁ => ht m₁ (h.trans hg h₁)) fun m₁ h₁ => hb m₁ (h.trans hg h₁)

/-! ## Calls -/

/-- Code runs in a frame and gives good values. -/
def EvalKeeps (I : Invariant) (eval : Expr → FrameId → Run Value) : Prop :=
  ∀ {e : Expr} {f : FrameId} {m : Machine}, I.code m f (.expr e) → I.frame m f →
    I.Keeps (eval e f) m fun v m' => I.value m' v

/-- Code runs in a frame that is owned, or in any frame if it introduces nothing. A statement that
introduces nothing may run in a frame that is not owned, as the body of a loop does in whatever
frame the loop is in. -/
def ExecKeeps (I : Invariant) (exec : Stmt → FrameId → Run Flow) : Prop :=
  ∀ {s : Stmt} {f : FrameId} {m : Machine}, I.code m f (.stmt s) → I.frame m f →
    I.owned m f ∨ s.introduces = [] → I.Keeps (exec s f) m I.flow

/-- Operands one after another. -/
theorem EvalKeeps.each (h : I.Stable) {eval : Expr → FrameId → Run Value} (he : I.EvalKeeps eval)
    {es : List Expr} {f : FrameId} (hc : ∀ e ∈ es, I.code m f (.expr e)) (hf : I.frame m f) :
    I.Keeps (Run.each (fun e => eval e f) es) m fun vs m' => ∀ v ∈ vs, I.value m' v :=
  each_keeps h fun e hm _ hg => he (h.code_grows hg (hc e hm)) (h.frame_grows hg hf)

/-- Statements one after another in a frame that is owned. -/
theorem ExecKeeps.inOrder (h : I.Stable) {exec : Stmt → FrameId → Run Flow} (hx : I.ExecKeeps exec)
    {ss : List Stmt} {f : FrameId} (hc : ∀ s ∈ ss, I.code m f (.stmt s)) (hf : I.frame m f)
    (ho : I.owned m f) : I.Keeps (Run.inOrder (fun s => exec s f) ss) m I.flow :=
  inOrder_keeps h fun s hm _ hg =>
    hx (h.code_grows hg (hc s hm)) (h.frame_grows hg hf) (.inl (h.owned_grows hg ho))

theorem applyClosure_keeps (h : I.Stable) {exec : Stmt → FrameId → Run Flow} (hx : I.ExecKeeps exec)
    {c : Closure} {args : List Value} (hc : I.value m (.closure c)) (ha : ∀ v ∈ args, I.value m v) :
    I.Keeps (Run.applyClosure exec c args) m fun v m' => I.value m' v := by
  obtain ⟨hcode, hframe⟩ := h.called hc
  rw [Run.applyClosure]
  split
  · refine Keeps.bind h (enter_keeps h hframe fun entry he => ?_) ?_
    · rcases Bindings.mem_foldl_put he with hz | hn
      · exact ha _ (List.of_mem_zip hz).2
      · exact absurd hn List.not_mem_nil
    rintro inner m' - ⟨⟨hin, hown⟩, hinside⟩
    refine Keeps.bind h
      (Keeps.catchDepth (h.ordinary rfl rfl) (hx (hinside hcode) hin (.inl hown))) ?_
    exact fun fl m'' _ hfl => Keeps.pure h hfl
  · exact Keeps.fail h (h.ordinary rfl rfl)

theorem apply_keeps (h : I.Stable) {exec : Stmt → FrameId → Run Flow} (hx : I.ExecKeeps exec)
    {callee : Value} {args : List Value} (hc : I.value m callee) (ha : ∀ v ∈ args, I.value m v) :
    I.Keeps (Run.apply exec callee args) m fun v m' => I.value m' v := by
  unfold Run.apply
  split
  · exact applyClosure_keeps h hx hc ha
  · exact builtin_keeps h _ ha
  · exact Keeps.fail h (h.ordinary rfl rfl)

/-! ## Expressions and statements -/

theorem eval_step (h : I.Stable) {limit n : Nat} (he : I.EvalKeeps (Run.eval limit n))
    (hx : I.ExecKeeps (Run.exec limit n)) : I.EvalKeeps (Run.eval limit (n + 1)) := by
  intro e f m hc hf
  rw [Run.eval.eq_def]
  refine Keeps.blaming ?_
  cases e with
  | int | float | char | string | mixed | bool | nil => exact Keeps.pure h (h.literal hc rfl)
  | var mark name => exact lookup_keeps h hf name
  | unary mark op operand =>
    refine Keeps.bind h (he (h.part hc (by simp [Code.parts])) hf) fun v m' hn hv => ?_
    exact Keeps.lift h (h.unary (h.code_grows hn.grows hc) hv)
  | binary mark lhs op rhs =>
    refine Keeps.bind h (he (h.part hc (by simp [Code.parts])) hf) fun v m' hn hv => ?_
    have hr := he (h.code_grows hn.grows (h.part hc (d := .expr rhs) (by simp [Code.parts])))
      (h.frame_grows hn.grows hf)
    split
    · split
      · exact hr
      · exact Keeps.pure h hv
    · split
      · exact Keeps.pure h hv
      · exact hr
    · next ha ho =>
      refine Keeps.bind h hr fun w m'' hn' hw => ?_
      have hc'' := h.code_grows hn'.grows (h.code_grows hn.grows hc)
      exact Keeps.lift h (h.binary hc'' (h.value_grows hn'.grows hv) hw ha ho)
  | group mark inner => exact he (h.part hc (by simp [Code.parts])) hf
  | call mark name args =>
    refine Keeps.bind h (lookup_keeps h hf name) fun callee m' hn hcallee => ?_
    refine Keeps.bind h (he.each h (fun a ha => ?_) (h.frame_grows hn.grows hf)) ?_
    · exact h.code_grows hn.grows (h.part hc (by simpa [Code.parts] using ha))
    · exact fun vs m'' hn' hvs => apply_keeps h hx (h.value_grows hn'.grows hcallee) hvs
  | lambda mark params body => exact close_keeps h hf hc rfl
  | block mark body =>
    refine Keeps.bind h (enter_keeps h hf (by simp)) ?_
    rintro inner m' - ⟨⟨hin, hown⟩, hinside⟩
    refine Keeps.bind h (hx.inOrder h (fun s hs => ?_) hin hown) fun _ _ _ hfl => Keeps.pure h hfl
    exact hinside (h.part hc (by simpa [Code.parts] using hs))
  | malformed mark before misfit =>
    refine Keeps.bind h (he.each h (fun a ha => ?_) hf) fun _ _ _ _ =>
      Keeps.fail h (h.misfit hc rfl)
    exact h.part hc (by simpa [Code.parts] using ha)

theorem exec_step (h : I.Stable) {limit n : Nat} (he : I.EvalKeeps (Run.eval limit n))
    (hx : I.ExecKeeps (Run.exec limit n)) : I.ExecKeeps (Run.exec limit (n + 1)) := by
  intro s f m hc hf ho
  rw [Run.exec.eq_def]
  refine Keeps.blaming ?_
  cases s with
  | declare mark name e =>
    have ho : I.owned m f := ho.resolve_right (by simp [Stmt.introduces])
    refine Keeps.bind h (he (h.part hc (by simp [Code.parts])) hf) fun v m' hn hv => ?_
    refine Keeps.bind h (declare_keeps h (h.frame_grows hn.grows hf)
      (h.owned_grows hn.grows ho) hv name) fun _ _ _ _ => Keeps.pure h (h.nil _)
  | assign mark name e =>
    refine Keeps.bind h (he (h.part hc (by simp [Code.parts])) hf) fun v m' hn hv => ?_
    exact Keeps.bind h (assign_keeps h (h.frame_grows hn.grows hf) hv name)
      fun _ _ _ _ => Keeps.pure h (h.nil _)
  | eval mark e =>
    exact Keeps.bind h (he (h.part hc (by simp [Code.parts])) hf)
      fun _ _ _ _ => Keeps.pure h (h.nil _)
  | branch mark test yes no =>
    have hi : I.owned m f ∨ yes.introduces = [] ∧ no.introduces = [] := by
      simpa [Stmt.introduces] using ho
    refine Keeps.bind h (he (h.part hc (by simp [Code.parts])) hf) fun v m' hn hv => ?_
    have hf' := h.frame_grows hn.grows hf
    have hyes := h.code_grows hn.grows (h.part hc (d := .stmt yes) (by simp [Code.parts]))
    have hno := h.code_grows hn.grows (h.part hc (d := .stmt no) (by simp [Code.parts]))
    split
    · exact hx hyes hf' (hi.imp (h.owned_grows hn.grows) And.left)
    · exact hx hno hf' (hi.imp (h.owned_grows hn.grows) And.right)
  | loop mark test body =>
    have htest := h.part hc (d := .expr test) (by simp [Code.parts])
    have hbody := h.part hc (d := .stmt body) (by simp [Code.parts])
    refine rounds_keeps h (fun m' hg => ?_) (fun m' hg => ?_) limit
    · exact Keeps.bind h (he (h.code_grows hg htest) (h.frame_grows hg hf))
        fun _ _ _ _ => Keeps.pure h trivial
    · exact hx (h.code_grows hg hbody) (h.frame_grows hg hf) (ho.imp (h.owned_grows hg) id)
  | define mark name params body =>
    have ho : I.owned m f := ho.resolve_right (by simp [Stmt.introduces])
    refine Keeps.bind h (close_keeps h hf hc rfl) fun v m' hn hv => ?_
    exact Keeps.bind h (declare_keeps h (h.frame_grows hn.grows hf) (h.owned_grows hn.grows ho) hv
      name) fun _ _ _ _ => Keeps.pure h (h.nil _)
  | give mark e =>
    exact Keeps.bind h (he (h.part hc (by simp [Code.parts])) hf) fun _ _ _ hv => Keeps.pure h hv
  | print mark format args =>
    refine Keeps.bind h (he.each h (fun a ha => ?_) hf) fun vs m' hn hvs => ?_
    · exact h.part hc (by simpa [Code.parts] using ha)
    · refine Keeps.bind (Q := fun _ _ => True) h (Keeps.lift h (printText_yields h format hvs)) ?_
      intro text _ _ _
      exact Keeps.bind h (emit_keeps h text) fun _ _ _ _ => Keeps.pure h (h.nil _)
  | empty mark => exact Keeps.pure h (h.nil m)
  | block mark body =>
    refine Keeps.bind h (enter_keeps h hf (by simp)) ?_
    rintro inner m' - ⟨⟨hin, hown⟩, hinside⟩
    refine hx.inOrder h (fun s hs => hinside (h.part hc ?_)) hin hown
    simpa [Code.parts] using hs
  | malformed mark before misfit =>
    refine Keeps.bind h (he.each h (fun a ha => ?_) hf) fun _ _ _ _ =>
      Keeps.fail h (h.misfit hc rfl)
    exact h.part hc (by simpa [Code.parts] using ha)

/-- **Invariance.** What is kept by everything that evaluation can do is kept by evaluation, at any
depth and whatever the outcome. -/
theorem Stable.keeps (h : I.Stable) (limit n : Nat) :
    I.EvalKeeps (Run.eval limit n) ∧ I.ExecKeeps (Run.exec limit n) := by
  induction n with
  | zero =>
    constructor
    · intro e f m _ _
      rw [Run.eval]
      exact Keeps.throw h fun _ => Stop.noConfusion
    · intro s f m _ _ _
      rw [Run.exec]
      exact Keeps.throw h fun _ => Stop.noConfusion
  | succ n ih => exact ⟨eval_step h ih.1 ih.2, exec_step h ih.1 ih.2⟩

theorem Stable.eval_keeps (h : I.Stable) (limits : Limits) {e : Expr} {f : FrameId}
    (hc : I.code m f (.expr e)) (hf : I.frame m f) :
    I.Keeps (Run.evalIn limits e f) m fun v m' => I.value m' v :=
  (h.keeps limits.rounds limits.nesting).1 hc hf

theorem Stable.exec_keeps (h : I.Stable) (limits : Limits) {s : Stmt} {f : FrameId}
    (hc : I.code m f (.stmt s)) (hf : I.frame m f) (ho : I.owned m f ∨ s.introduces = []) :
    I.Keeps (Run.execIn limits s f) m I.flow :=
  (h.keeps limits.rounds limits.nesting).2 hc hf ho

/-- The statements of a unit run in an owned frame one after another. A value that is given ends the
unit, and one that runs out gives nil; both are good values. -/
theorem Stable.unit_keeps (h : I.Stable) (limits : Limits) {statements : List Stmt} {f : FrameId}
    (hc : ∀ s ∈ statements, I.code m f (.stmt s)) (hf : I.frame m f) (ho : I.owned m f) :
    I.Keeps (Run.unit limits statements f) m fun v m' => I.value m' v := by
  obtain ⟨-, hx⟩ := h.keeps limits.rounds limits.nesting
  exact Keeps.bind h (hx.inOrder h hc hf ho) fun fl _ _ hfl => Keeps.pure h hfl

end Invariant

end Treewalk
