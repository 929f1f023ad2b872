import Treewalk.Proofs.Eval.Invariant
import Mathlib.Logic.Relation

/-!
# Moments of an evaluation

An evaluation is one action, and what an action says is how a machine looks before and after it.
What happens in between is told here. A moment is code that is about to run: a node, the frame it
runs in, the machine at that time and the nesting that is left. Running it leads to the moments at
which its parts are about to run, to the body of a function that it calls and to every round of a
loop, and to nothing else. The moments that can be reached this way are all those of the evaluation,
so a value that is produced on the way is the outcome of one of them.

Every step to a part uses up nesting, so moments are finitely many along any path.

## Why moments are given by a relation

One could instrument the evaluator to record what it passes through. Then every statement about
moments would be about the instrumented evaluator, and it would have to be shown that this one does
the same as the other. `Leads` is a relation over the evaluator as it is: each constructor says
which runs have to go well before a part is reached, and its premises are equations about `eval` and
`exec` themselves.

The relation is also where completeness shows. A statement about all moments is only as good as the
list of constructors, so they follow the definition of the evaluator branch by branch, the right
operand only where no short cut is taken, and a round of a loop only behind full rounds. For runs
that stop, that none is missing is a theorem: whatever stops a run originates at a moment of the
relation.

## Main definitions

* `Moment`, `Moment.run`
* `Run.Turns`, a number of full rounds of a loop
* `Run.Leads`, `Run.Visits`, the moments that come of a moment
* `Run.Passes`, the moments that come of the statements of a unit

## Main results

* `Invariant.Stable.leads`, `Invariant.Stable.visits`, `Invariant.Stable.passes`: an invariant holds
  at every moment
* `Invariant.Stable.run_keeps`: and what a moment runs keeps it

## Implementation notes

A loop is the one node that leads to unboundedly many moments with the same nesting. `Turns` counts
the rounds before, so that the moment of a round is reached in one step from the loop and not from
the round before it; otherwise nesting would not decrease along a path.

`Code.Ready` is the condition that a call has found its function before its arguments run. Without
it a call of an unknown name would lead to its arguments, which it does not.
-/

namespace Treewalk

/-! ## Code that is about to run -/

namespace Code

/-- The outcome of an expression, or the value that a statement gives. -/
def run (limit n : Nat) (c : Code) (f : FrameId) : Run Value :=
  match c with
  | .expr e => Run.eval limit n e f
  | .stmt s => do return (← Run.exec limit n s f).value

/-- The expressions that a node evaluates first, one after another and in its own frame. -/
def operands : Code → List Expr
  | .expr (.unary _ _ operand) => [operand]
  | .expr (.binary _ lhs _ _) => [lhs]
  | .expr (.group _ inner) => [inner]
  | .expr (.call _ _ args) => args
  | .expr (.malformed _ before _) => before
  | .stmt (.declare _ _ e) | .stmt (.assign _ _ e) | .stmt (.eval _ e) | .stmt (.give _ e) => [e]
  | .stmt (.branch _ test _ _) => [test]
  | .stmt (.print _ _ args) => args
  | .stmt (.malformed _ before _) => before
  | _ => []

/-- The statements that a node runs in a frame of their own. -/
def block? : Code → Option (List Stmt)
  | .expr (.block _ body) | .stmt (.block _ body) => some body
  | _ => none

/-- A node comes to its operands; a call has to find its function first. -/
def Ready (s : Store) (f : FrameId) : Code → Prop
  | .expr (.call _ name _) => (s.get? f name).isSome = true
  | _ => True

theorem mem_parts_of_mem_operands {c : Code} {e : Expr} (he : e ∈ c.operands) :
    .expr e ∈ c.parts := by
  rcases c with e' | s
  · cases e' <;> simp_all [operands, parts]
  · cases s <;> simp_all [operands, parts]

theorem mem_parts_of_block? {c : Code} {body : List Stmt} {s : Stmt} (hc : c.block? = some body)
    (hs : s ∈ body) : .stmt s ∈ c.parts := by
  rcases c with e | s'
  · cases e <;> cases hc
    exact List.mem_map_of_mem hs
  · cases s' <;> cases hc
    exact List.mem_map_of_mem hs

end Code

/-- Code that is about to run in a frame, with the nesting that is left. It holds all that what
happens next depends on, but for the bound on rounds. -/
structure Moment where
  nesting : Nat
  code : Code
  frame : FrameId
  machine : Machine

namespace Moment

/-- What is about to run. -/
def run (limit : Nat) (a : Moment) : Run Value :=
  a.code.run limit a.nesting a.frame

/-- The body of a function is about to run, in a new frame with the parameters bound. -/
def calling (n : Nat) (c : Closure) (args : List Value) (m : Machine) : Moment :=
  let vars : Bindings :=
    (c.params.zip args).foldl (fun vars entry => vars.put entry.1 entry.2) ([] : Bindings)
  ⟨n, .stmt c.body, m.store.next, { m with store := m.store.addChild c.frame none vars }⟩

end Moment

namespace Run

/-- So many rounds of a loop that all came to their end. -/
inductive Turns (test : Run Bool) (body : Run Flow) : Nat → Machine → Machine → Prop where
  | start (m : Machine) : Turns test body 0 m m
  | turn {k : Nat} {m m₁ m₂ m₃ : Machine} (h : Turns test body k m m₁)
    (ht : test m₁ = .ok true m₂) (hb : body m₂ = .ok .next m₃) : Turns test body (k + 1) m m₃

/-- The test of a loop as `exec` takes it. -/
def holds (limit n : Nat) (test : Expr) (f : FrameId) : Run Bool := do
  return (← eval limit n test f).truthy

/-- The moments that a moment leads to, with whatever has to go well before them. What has gone well
before is part of it because it determines the machine: that of a moment is the one that the
operands to the left, the statements before or the rounds before have left behind. -/
inductive Leads (limit : Nat) : Moment → Moment → Prop where
  | operand {n : Nat} {c : Code} {f : FrameId} {m m' : Machine} {before after : List Expr}
    {e : Expr} {vs : List Value} (hc : c.operands = before ++ e :: after) (hr : c.Ready m.store f)
    (hb : each (fun e => eval limit n e f) before m = .ok vs m') :
    Leads limit ⟨n + 1, c, f, m⟩ ⟨n, .expr e, f, m'⟩
  | right {n : Nat} {f : FrameId} {m m' : Machine} {mark : Mark} {lhs rhs : Expr} {op : Operator}
    {v : Value} (hv : eval limit n lhs f m = .ok v m') (ha : op.kind = .andKw → v.truthy = true)
    (ho : op.kind = .orKw → v.truthy = false) :
    Leads limit ⟨n + 1, .expr (.binary mark lhs op rhs), f, m⟩ ⟨n, .expr rhs, f, m'⟩
  | body {n : Nat} {f : FrameId} {m m' : Machine} {mark : Mark} {name : String} {args : List Expr}
    {c : Closure} {vs : List Value} (hc : m.store.get? f name = some (.closure c))
    (hb : each (fun e => eval limit n e f) args m = .ok vs m') (hl : vs.length = c.params.length) :
    Leads limit ⟨n + 1, .expr (.call mark name args), f, m⟩ (.calling n c vs m')
  | choice {n : Nat} {f : FrameId} {m m' : Machine} {mark : Mark} {test : Expr} {yes no : Stmt}
    {v : Value} (hv : eval limit n test f m = .ok v m') :
    Leads limit ⟨n + 1, .stmt (.branch mark test yes no), f, m⟩
      ⟨n, .stmt (if v.truthy then yes else no), f, m'⟩
  | test {n k : Nat} {f : FrameId} {m m' : Machine} {mark : Mark} {test : Expr} {body : Stmt}
    (hk : k < limit) (ht : Turns (holds limit n test f) (exec limit n body f) k m m') :
    Leads limit ⟨n + 1, .stmt (.loop mark test body), f, m⟩ ⟨n, .expr test, f, m'⟩
  | round {n k : Nat} {f : FrameId} {m m' m'' : Machine} {mark : Mark} {test : Expr} {body : Stmt}
    (hk : k < limit) (ht : Turns (holds limit n test f) (exec limit n body f) k m m')
    (hv : holds limit n test f m' = .ok true m'') :
    Leads limit ⟨n + 1, .stmt (.loop mark test body), f, m⟩ ⟨n, .stmt body, f, m''⟩
  | statement {n : Nat} {c : Code} {f : FrameId} {m m' : Machine} {before after : List Stmt}
    {s : Stmt} (hc : c.block? = some (before ++ s :: after))
    (hb : inOrder (fun s => exec limit n s m.store.next) before
      { m with store := m.store.addChild f none [] } = .ok .next m') :
    Leads limit ⟨n + 1, c, f, m⟩ ⟨n, .stmt s, m.store.next, m'⟩

/-- The moments of running a moment. -/
abbrev Visits (limit : Nat) : Moment → Moment → Prop :=
  Relation.ReflTransGen (Leads limit)

/-- The moments of running the statements of a unit. -/
def Passes (limits : Limits) (statements : List Stmt) (f : FrameId) (m : Machine) (b : Moment) :
    Prop :=
  ∃ before s after m', statements = before ++ s :: after ∧
    inOrder (fun s => execIn limits s f) before m = .ok .next m' ∧
    Visits limits.rounds ⟨limits.nesting, .stmt s, f, m'⟩ b

end Run

/-- Calling a function is running its body at a moment of its own. -/
theorem Run.applyClosure_eq (limit n : Nat) {c : Closure} {args : List Value}
    (hl : args.length = c.params.length) (m : Machine) :
    applyClosure (exec limit n) c args m =
      (do
        let flow ← catchDepth (.callDepth c.label) (exec limit n c.body m.store.next)
        return flow.value) (Moment.calling n c args m).machine := by
  rw [applyClosure, if_pos hl]
  rfl

/-! ## Invariants at every moment -/

namespace Invariant

/-- A moment that an invariant holds at. These are the hypotheses of `EvalKeeps` and `ExecKeeps` in
one, so that a moment can be passed on as a whole. -/
structure At (I : Invariant) (a : Moment) : Prop where
  state : I.state a.machine
  code : I.code a.machine a.frame a.code
  frame : I.frame a.machine a.frame
  owned (s : Stmt) (hs : a.code = .stmt s) : I.owned a.machine a.frame ∨ s.introduces = []

variable {I : Invariant} {limit : Nat} {a b : Moment}

/-- An expression has no use for a frame that is owned. -/
theorem At.expr {n : Nat} {e : Expr} {f : FrameId} {m : Machine} (hm : I.state m)
    (hc : I.code m f (.expr e)) (hf : I.frame m f) : I.At ⟨n, .expr e, f, m⟩ :=
  ⟨hm, hc, hf, fun _ hs => by cases hs⟩

theorem At.stmt {n : Nat} {s : Stmt} {f : FrameId} {m : Machine} (hm : I.state m)
    (hc : I.code m f (.stmt s)) (hf : I.frame m f) (ho : I.owned m f ∨ s.introduces = []) :
    I.At ⟨n, .stmt s, f, m⟩ :=
  ⟨hm, hc, hf, fun _ hs => by cases hs; exact ho⟩

/-- What is about to run keeps the invariant. -/
theorem Stable.run_keeps (h : I.Stable) (ha : I.At a) (limit : Nat) :
    I.Keeps (a.run limit) a.machine fun v m' => I.value m' v := by
  obtain ⟨n, c, f, m⟩ := a
  have hk := h.keeps limit n
  cases c with
  | expr e => exact hk.1 ha.code ha.frame
  | stmt s =>
    exact Keeps.bind h (hk.2 ha.code ha.frame (ha.owned s rfl)) fun _ _ _ hv => Keeps.pure h hv

theorem Stable.holds_keeps (h : I.Stable) {n : Nat} {test : Expr} {f : FrameId} {m : Machine}
    (hc : I.code m f (.expr test)) (hf : I.frame m f) :
    I.Keeps (Run.holds limit n test f) m fun _ _ => True :=
  Keeps.bind h ((h.keeps limit n).1 hc hf) fun _ _ _ _ => Keeps.pure h trivial

/-- Rounds of a loop that came to their end kept the invariant. -/
theorem Stable.turns_next (h : I.Stable) {n k : Nat} {mark : Mark} {test : Expr} {body : Stmt}
    {f : FrameId} {m m' : Machine} (ha : I.At ⟨n + 1, .stmt (.loop mark test body), f, m⟩)
    (ht : Run.Turns (Run.holds limit n test f) (Run.exec limit n body f) k m m') :
    I.Next m m' := by
  induction ht with
  | start => exact ⟨ha.state, h.refl _⟩
  | @turn k m m₁ m₂ m₃ _ hv hb ih =>
    have hn := ih ha
    have hf₁ := h.frame_grows hn.grows ha.frame
    have htest := h.part ha.code (d := .expr test) (by simp [Code.parts])
    have hbody := h.part ha.code (d := .stmt body) (by simp [Code.parts])
    have hn₁ := (h.holds_keeps (h.code_grows hn.grows htest) hf₁).of_ok hn.state hv
    have hn₂ := hn.trans h hn₁.1
    have ho := (ha.owned _ rfl).imp_left (h.owned_grows hn₂.grows)
    have hk := (h.keeps limit n).2 (h.code_grows hn₂.grows hbody)
      (h.frame_grows hn₂.grows ha.frame) ho
    exact hn₂.trans h (hk.of_ok hn₂.state hb).1

/-- An invariant holds at the moments that a moment leads to. There is a case for each way in which
a moment leads to another, and in each of them what has gone well before leaves a good machine
behind. -/
theorem Stable.leads (h : I.Stable) (ha : I.At a) (hab : Run.Leads limit a b) :
    I.At b ∧ I.grows a.machine b.machine := by
  have hparts : ∀ {n : Nat} {es : List Expr} {f : FrameId} {m m' : Machine} {vs : List Value},
      I.state m → I.frame m f → (∀ e ∈ es, I.code m f (.expr e)) →
      Run.each (fun e => Run.eval limit n e f) es m = .ok vs m' →
      I.Next m m' ∧ ∀ v ∈ vs, I.value m' v := by
    intro n es f m m' vs hm hf hes hr
    obtain ⟨he, -⟩ := h.keeps limit n
    exact (he.each h hes hf).of_ok hm hr
  cases hab with
  | @operand n c f m m' before after e vs hc _ hb =>
    have hcode : ∀ e ∈ c.operands, I.code m f (.expr e) := fun e he =>
      h.part ha.code (Code.mem_parts_of_mem_operands he)
    rw [hc] at hcode
    have hn := (hparts ha.state ha.frame
      (fun e he => hcode e (List.mem_append_left _ he)) hb).1
    have he := hcode e (List.mem_append_right _ List.mem_cons_self)
    exact ⟨At.expr hn.state (h.code_grows hn.grows he) (h.frame_grows hn.grows ha.frame), hn.grows⟩
  | @right n f m m' mark lhs rhs op v hv =>
    have hk := (h.keeps limit n).1 (h.part ha.code (d := .expr lhs) (by simp [Code.parts])) ha.frame
    have hn := (hk.of_ok ha.state hv).1
    have hrhs := h.part ha.code (d := .expr rhs) (by simp [Code.parts])
    exact ⟨At.expr hn.state (h.code_grows hn.grows hrhs) (h.frame_grows hn.grows ha.frame),
      hn.grows⟩
  | @body n f m m' mark name args c vs hc hb hl =>
    obtain ⟨hn, hvs⟩ := hparts ha.state ha.frame
      (fun e he => h.part ha.code (by simpa [Code.parts] using he)) hb
    have hcl := h.value_grows hn.grows (h.lookup ha.state ha.frame hc)
    obtain ⟨hbody, hframe⟩ := h.called hcl
    have hvars : ∀ entry ∈ (c.params.zip vs).foldl (fun (vars : Bindings) entry =>
        vars.put entry.1 entry.2) [], I.value m' entry.2 := fun entry he => by
      rcases Bindings.mem_foldl_put he with hz | hnil
      · exact hvs _ (List.of_mem_zip hz).2
      · exact absurd hnil List.not_mem_nil
    obtain ⟨hn', hin, hown⟩ := h.enter hn.state hframe hvars
    exact ⟨At.stmt hn'.state (h.inside _ hn.state hframe hbody) hin (.inl hown),
      h.trans hn.grows hn'.grows⟩
  | @choice n f m m' mark test yes no v hv =>
    have hk := (h.keeps limit n).1 (h.part ha.code (d := .expr test) (by simp [Code.parts]))
      ha.frame
    have hn := (hk.of_ok ha.state hv).1
    have hf := h.frame_grows hn.grows ha.frame
    have hi : I.owned m f ∨ yes.introduces = [] ∧ no.introduces = [] := by
      simpa [Stmt.introduces] using ha.owned _ rfl
    have ho := hi.imp_left (h.owned_grows hn.grows)
    have hyes := h.code_grows hn.grows (h.part ha.code (d := .stmt yes) (by simp [Code.parts]))
    have hno := h.code_grows hn.grows (h.part ha.code (d := .stmt no) (by simp [Code.parts]))
    refine ⟨?_, hn.grows⟩
    split
    · exact At.stmt hn.state hyes hf (ho.imp_right And.left)
    · exact At.stmt hn.state hno hf (ho.imp_right And.right)
  | @test n k f m m' mark test body _ ht =>
    have hn := h.turns_next ha ht
    have htest := h.code_grows hn.grows (h.part ha.code (d := .expr test) (by simp [Code.parts]))
    exact ⟨At.expr hn.state htest (h.frame_grows hn.grows ha.frame), hn.grows⟩
  | @round n k f m m' m'' mark test body _ ht hv =>
    have hn := h.turns_next ha ht
    have htest := h.code_grows hn.grows (h.part ha.code (d := .expr test) (by simp [Code.parts]))
    have hk : I.Keeps (Run.holds limit n test f) m' fun _ _ => True :=
      h.holds_keeps htest (h.frame_grows hn.grows ha.frame)
    have hn' := hn.trans h (hk.of_ok hn.state hv).1
    have hbody := h.code_grows hn'.grows (h.part ha.code (d := .stmt body) (by simp [Code.parts]))
    refine ⟨At.stmt hn'.state hbody (h.frame_grows hn'.grows ha.frame) ?_, hn'.grows⟩
    exact (ha.owned _ rfl).imp_left (h.owned_grows hn'.grows)
  | @statement n c f m m' before after s hc hb =>
    have hcode : ∀ t ∈ before ++ s :: after,
        I.code { m with store := m.store.addChild f none [] } m.store.next (.stmt t) := fun t ht =>
      h.inside [] ha.state ha.frame (h.part ha.code (Code.mem_parts_of_block? hc ht))
    have hvars : ∀ entry ∈ ([] : Bindings), I.value m entry.2 := by simp
    obtain ⟨hn, hin, hown⟩ := h.enter ha.state ha.frame hvars
    obtain ⟨-, hx⟩ := h.keeps limit n
    have hk := hx.inOrder h (fun s hs => hcode s (List.mem_append_left _ hs)) hin hown
    have hn' := (hk.of_ok hn.state hb).1
    have hs := hcode s (List.mem_append_right _ List.mem_cons_self)
    exact ⟨At.stmt hn'.state (h.code_grows hn'.grows hs) (h.frame_grows hn'.grows hin)
      (.inl (h.owned_grows hn'.grows hown)), h.trans hn.grows hn'.grows⟩

/-- An invariant holds at every moment of a run. One moment leads to the next, so this is an
induction on the number of steps between them. -/
theorem Stable.visits (h : I.Stable) (ha : I.At a) (hab : Run.Visits limit a b) :
    I.At b ∧ I.grows a.machine b.machine := by
  induction hab with
  | refl => exact ⟨ha, h.refl _⟩
  | tail _ hbc ih =>
    obtain ⟨hc, hg⟩ := h.leads ih.1 hbc
    exact ⟨hc, h.trans ih.2 hg⟩

/-- An invariant holds at every moment of a unit. -/
theorem Stable.passes (h : I.Stable) {limits : Limits} {statements : List Stmt} {f : FrameId}
    {m : Machine} (hm : I.state m) (hc : ∀ s ∈ statements, I.code m f (.stmt s)) (hf : I.frame m f)
    (ho : I.owned m f) (hb : Run.Passes limits statements f m b) :
    I.At b ∧ I.grows m b.machine := by
  obtain ⟨before, s, after, m', rfl, hr, hv⟩ := hb
  obtain ⟨-, hx⟩ := h.keeps limits.rounds limits.nesting
  have hk := hx.inOrder h (fun s hs => hc s (List.mem_append_left _ hs)) hf ho
  have hn := (hk.of_ok hm hr).1
  have hs : I.At ⟨limits.nesting, .stmt s, f, m'⟩ :=
    At.stmt hn.state (h.code_grows hn.grows (hc s (List.mem_append_right _ List.mem_cons_self)))
      (h.frame_grows hn.grows hf) (.inl (h.owned_grows hn.grows ho))
  obtain ⟨hat, hg⟩ := h.visits hs hv
  exact ⟨hat, h.trans hn.grows hg⟩

end Invariant

end Treewalk
