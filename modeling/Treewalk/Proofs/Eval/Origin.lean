import Treewalk.Proofs.Eval.Builtin
import Treewalk.Proofs.Eval.Moment

/-!
# Where failures come from

A failure that escapes was raised by one node, at one moment of the run, and passed on from there by
all the nodes around it. On its way it is blamed once, on the first node with a mark. If the node
that raised it has a mark, then that is the one: the failure carries the mark of the node that
raised it and the name of the source that the frame of that node has.

The other two things that stop a run have an origin as well. A run that is endless has come to a
loop that went round as often as a loop may, and one that is too deep to a moment for which no
nesting was left. Nobody is blamed for these.

## Main definitions

* `Code.Raises`, the faults that a node raises itself
* `Run.Spent`, a loop that has gone through all rounds there are
* `Run.Ceases`, a moment that stops at once
* `Run.Halts`, and `Run.Originates`, `Run.Stems`, the moment that what stops a run comes from

## Main results

* `Run.Halts.comes`: what stops a moment stops it at once or comes from a moment that it leads to
* `Run.Halts.exists_origin`, `Run.exists_origin_unit`: whatever stops a run has an origin

## Implementation notes

The proof goes down and not up. `comes_of_eval` and `comes_of_exec` take a node that stops and find
either that it does so by itself or a moment that it leads to and that stops for the same reason, as
it was before the node was asked about blame. `exists_origin` then repeats this; the nesting
decreases with every step, so the repetition ends, and it can end only at a moment that stops at
once.

All of this is about whatever stops a run and not about failures alone, though failures are what it
is mostly used for. Nearly every step passes on what it gets, without looking at it. There are three
exceptions: blame, which is for failures, a call, which makes a failure of nesting that went too
far, and a loop without rounds left.

On the way up a failure passes `blame` once for every node. `Originates.blame` says that this
changes nothing any more once the origin has a mark. Faults of layout have an origin too but never a
place, hence the condition in `Originates.place`.

`Raises` is an inductive predicate and not a function from nodes to faults: which fault a node
raises depends on values that only a run knows, and all that is claimed is that there were some.
-/

namespace Treewalk

/-- The mark of a node. -/
def Code.mark : Code → Mark
  | .expr e => e.mark
  | .stmt s => s.mark

/-- The faults that a node raises itself, as opposed to its parts and the functions it calls. -/
inductive Code.Raises : Code → Fault → Prop where
  | name (mark : Mark) (name : String) : Raises (.expr (.var mark name)) (.undefined name)
  | callee (mark : Mark) (name : String) (args : List Expr) :
    Raises (.expr (.call mark name args)) (.undefined name)
  | target (mark : Mark) (name : String) (e : Expr) :
    Raises (.stmt (.assign mark name e)) (.assignUndefined name)
  | unary {cause : Fault} {op : Operator} {v : Value} (mark : Mark) (operand : Expr)
    (h : v.applyUnary op.kind = .error cause) : Raises (.expr (.unary mark op operand)) cause
  | binary {cause : Fault} {op : Operator} {v w : Value} (mark : Mark) (lhs rhs : Expr)
    (ha : op.kind ≠ .andKw) (ho : op.kind ≠ .orKw) (h : v.applyBinary op w = .error cause) :
    Raises (.expr (.binary mark lhs op rhs)) cause
  | arity {c : Closure} {vs : List Value} (mark : Mark) (name : String) (args : List Expr)
    (h : vs.length ≠ c.params.length) :
    Raises (.expr (.call mark name args)) (.arity c.label c.params.length vs.length)
  | depth (mark : Mark) (name : String) (args : List Expr) (c : Closure) :
    Raises (.expr (.call mark name args)) (.callDepth c.label)
  | uncallable {v : Value} (mark : Mark) (name : String) (args : List Expr)
    (hc : ∀ c, v ≠ .closure c) (hb : ∀ b, v ≠ .builtin b) :
    Raises (.expr (.call mark name args)) (.notCallable v.inspect)
  | builtin {cause : Fault} {b : Builtin} {vs : List Value} {m m' : Machine} (mark : Mark)
    (name : String) (args : List Expr) (h : b.call vs m = .error (.failure (.ofFault cause)) m') :
    Raises (.expr (.call mark name args)) cause
  | print {cause : Fault} {format : String} {vs : List Value} (mark : Mark) (args : List Expr)
    (h : printText format vs = .error cause) : Raises (.stmt (.print mark format args)) cause
  | expression (mark : Mark) (before : List Expr) (cause : Misfit) :
    Raises (.expr (.malformed mark before cause)) (.misfit cause)
  | statement (mark : Mark) (before : List Expr) (cause : Misfit) :
    Raises (.stmt (.malformed mark before cause)) (.misfit cause)

namespace Run

variable {limit n : Nat} {stop : Stop} {m m' : Machine} {f : FrameId}

/-! ## What stops a node -/

/-- A loop has gone round as often as a loop may, and every round came to its end. -/
inductive Spent (limit : Nat) : Moment → Machine → Prop where
  | loop {n : Nat} {f : FrameId} {m m' : Machine} {mark : Mark} {test : Expr} {body : Stmt}
    (ht : Turns (holds limit n test f) (exec limit n body f) limit m m') :
    Spent limit ⟨n + 1, .stmt (.loop mark test body), f, m⟩ m'

/-- A moment stops at once and not for what it leads to: the node raises a fault itself, it is a
loop that has gone round as often as it may, or there is no nesting left for it. -/
inductive Ceases (limit : Nat) (a : Moment) (m' : Machine) : Stop → Prop where
  | raising {cause : Fault} (h : a.code.Raises cause) :
    Ceases limit a m' (.failure (.ofFault cause))
  | spent (h : Spent limit a m') : Ceases limit a m' .endless
  | deep (h : a.nesting = 0) : Ceases limit a m' .tooDeep

/-- What is about to run stops. -/
def Halts (limit : Nat) (a : Moment) (stop : Stop) (m' : Machine) : Prop :=
  a.run limit a.machine = .error stop m'

/-- What stops a moment, before anybody is blamed for it, stopped it at once, or it is what stops a
moment that this one leads to. It is one step on the way to the origin of a failure, and the nesting
that is left becomes less with each step. -/
def Comes (limit : Nat) (a : Moment) (stop : Stop) (m' : Machine) : Prop :=
  Ceases limit a m' stop ∨ ∃ b, Leads limit a b ∧ Halts limit b stop m'

/-! ## Actions that stop -/

theorem exists_of_lift_error {α : Type} {x : Except Fault α} (h : lift x m = .error stop m') :
    ∃ cause, x = .error cause ∧ stop = .failure (.ofFault cause) := by
  cases x with
  | ok a => cases h
  | error cause =>
    cases h
    exact ⟨cause, rfl, rfl⟩

theorem of_lookup_error {name : String} (h : lookup f name m = .error stop m') :
    stop = .failure (.ofFault (.undefined name)) := by
  rw [lookup_eq] at h
  split at h
  · cases h
  · cases h
    rfl

theorem get?_of_lookup_ok {name : String} {v : Value} (h : lookup f name m = .ok v m') :
    m.store.get? f name = some v ∧ m' = m := by
  rw [lookup_eq] at h
  split at h
  · next hv =>
    cases h
    exact ⟨hv, rfl⟩
  · cases h

theorem of_assign_error {name : String} {v : Value} (h : assign f name v m = .error stop m') :
    stop = .failure (.ofFault (.assignUndefined name)) := by
  rw [assign] at h
  split at h
  · cases h
  · cases h
    rfl

/-- A statement stops as its action does. -/
theorem halts_stmt {s : Stmt} (h : exec limit n s f m = .error stop m') :
    Halts limit ⟨n, .stmt s, f, m⟩ stop m' :=
  bind_of_error h

theorem exec_of_halts {s : Stmt} (h : Halts limit ⟨n, .stmt s, f, m⟩ stop m') :
    exec limit n s f m = .error stop m' := by
  rcases or_of_bind_error h with h | ⟨flow, m₁, -, h⟩
  · exact h
  · cases h

/-- The only operand of a node stops. -/
theorem comes_operand {c : Code} {e : Expr} (hc : c.operands = [e]) (hr : c.Ready m.store f)
    (h : eval limit n e f m = .error stop m') : Comes limit ⟨n + 1, c, f, m⟩ stop m' :=
  have hbefore : each (fun e => eval limit n e f) [] m = .ok [] m := rfl
  .inr ⟨_, .operand hc hr hbefore, h⟩

/-- One of several operands stops. -/
theorem comes_each {c : Code} (hr : c.Ready m.store f)
    (h : each (fun e => eval limit n e f) c.operands m = .error stop m') :
    Comes limit ⟨n + 1, c, f, m⟩ stop m' := by
  obtain ⟨before, e, after, vs, m₁, hc, hb, he⟩ := exists_of_each_error h
  exact .inr ⟨_, .operand hc hr hb, he⟩

/-- A statement of a block stops. -/
theorem comes_statements {c : Code} {body : List Stmt} (hc : c.block? = some body)
    (h : inOrder (fun s => exec limit n s m.store.next) body
      { m with store := m.store.addChild f none [] } = .error stop m') :
    Comes limit ⟨n + 1, c, f, m⟩ stop m' := by
  obtain ⟨before, s, after, m₁, rfl, hb, hs⟩ := exists_of_inOrder_error h
  exact .inr ⟨_, .statement hc hb, halts_stmt hs⟩

/-! ## Loops -/

/-- Where a loop stops, some of its rounds came to their end, and then the test or the body stopped,
or no round was left. -/
theorem exists_of_rounds_error {test : Run Bool} {body : Run Flow} {k : Nat} {m₀ : Machine}
    (ht : Turns test body k m₀ m) (h : rounds test body n m = .error stop m') :
    (∃ k' m₁, k' < k + n ∧ Turns test body k' m₀ m₁ ∧
      (test m₁ = .error stop m' ∨ ∃ m₂, test m₁ = .ok true m₂ ∧ body m₂ = .error stop m')) ∨
      stop = .endless ∧ Turns test body (k + n) m₀ m' := by
  induction n generalizing k m with
  | zero =>
    cases h
    exact .inr ⟨rfl, ht⟩
  | succ n ih =>
    rcases or_of_bind_error h with htest | ⟨b, m₂, hb, h⟩
    · exact .inl ⟨k, m, by omega, ht, .inl htest⟩
    · cases b with
      | false => cases h
      | true =>
        rcases or_of_bind_error h with hbody | ⟨flow, m₃, hbody, h⟩
        · exact .inl ⟨k, m, by omega, ht, .inr ⟨m₂, hb, hbody⟩⟩
        · cases flow with
          | give v => cases h
          | next =>
            have hnext := ih (ht.turn hb hbody) h
            rwa [Nat.add_right_comm, Nat.add_assoc] at hnext

theorem eval_of_holds_error {test : Expr} (h : holds limit n test f m = .error stop m') :
    eval limit n test f m = .error stop m' := by
  rcases or_of_bind_error h with h | ⟨v, m₁, -, h⟩
  · exact h
  · cases h

/-- A loop stops. -/
theorem comes_loop {mark : Mark} {test : Expr} {body : Stmt}
    (h : rounds (holds limit n test f) (exec limit n body f) limit m = .error stop m') :
    Comes limit ⟨n + 1, .stmt (.loop mark test body), f, m⟩ stop m' := by
  rcases exists_of_rounds_error (.start m) h with
    ⟨k, m₁, hk, hturns, htest | ⟨m₂, htest, hbody⟩⟩ | ⟨rfl, hturns⟩
  · exact .inr ⟨_, .test (by omega) hturns, eval_of_holds_error htest⟩
  · exact .inr ⟨_, .round (by omega) hturns htest, halts_stmt hbody⟩
  · rw [Nat.zero_add] at hturns
    exact .inl (.spent (.loop hturns))

/-! ## Operators and calls -/

/-- An operator stops whose first operand has a value. -/
theorem comes_right {mark : Mark} {lhs rhs : Expr} {op : Operator} {v : Value} {m₁ : Machine}
    {p : Run Value} (hv : eval limit n lhs f m = .ok v m₁)
    (hp : (match op.kind with
      | .andKw => if v.truthy then eval limit n rhs f else return v
      | .orKw => if v.truthy then return v else eval limit n rhs f
      | _ => do lift (v.applyBinary op (← eval limit n rhs f))) = p)
    (h : p m₁ = .error stop m') :
    Comes limit ⟨n + 1, .expr (.binary mark lhs op rhs), f, m⟩ stop m' := by
  have hright (ha : op.kind = .andKw → v.truthy = true) (ho : op.kind = .orKw → v.truthy = false)
      (hr : eval limit n rhs f m₁ = .error stop m') :
      Comes limit ⟨n + 1, .expr (.binary mark lhs op rhs), f, m⟩ stop m' :=
    .inr ⟨_, .right hv ha ho, hr⟩
  split at hp
  · next hop =>
    split at hp
    · next ht => exact hright (fun _ => ht) (by simp [hop]) (hp ▸ h)
    · subst hp
      cases h
  · next hop =>
    split at hp
    · subst hp
      cases h
    · next ht => exact hright (by simp [hop]) (fun _ => (Bool.not_eq_true _).mp ht) (hp ▸ h)
  · next ha ho =>
    subst hp
    rcases or_of_bind_error h with h | ⟨w, m₂, -, h⟩
    · exact hright (fun hc => absurd hc ha) (fun hc => absurd hc ho) h
    · obtain ⟨cause, hcause, rfl⟩ := exists_of_lift_error h
      exact .inl (.raising (.binary mark lhs rhs ha ho hcause))

/-- A call stops that found its function and has its arguments. -/
theorem comes_apply {mark : Mark} {name : String} {args : List Expr} {callee : Value}
    {vs : List Value} {m₁ : Machine} (hc : m.store.get? f name = some callee)
    (hb : each (fun e => eval limit n e f) args m = .ok vs m₁)
    (h : apply (exec limit n) callee vs m₁ = .error stop m') :
    Comes limit ⟨n + 1, .expr (.call mark name args), f, m⟩ stop m' := by
  cases callee with
  | closure c =>
    change applyClosure (exec limit n) c vs m₁ = _ at h
    by_cases hl : vs.length = c.params.length
    · rw [applyClosure_eq limit n hl] at h
      rcases or_of_bind_error h with h | ⟨flow, m₂, -, h⟩
      · rcases or_of_catchDepth_error h with h | rfl
        · exact .inr ⟨_, .body hc hb hl, halts_stmt h⟩
        · exact .inl (.raising (.depth mark name args c))
      · cases h
    · rw [applyClosure, if_neg hl] at h
      cases h
      exact .inl (.raising (.arity mark name args hl))
  | builtin b =>
    change b.call vs m₁ = _ at h
    obtain ⟨cause, hcause, -⟩ := (b.call_quiet vs).fault h
    cases hcause
    exact .inl (.raising (.builtin mark name args h))
  | _ =>
    cases h
    exact .inl (.raising (.uncallable mark name args (fun _ => Value.noConfusion)
      fun _ => Value.noConfusion))

/-! ## Nodes -/

theorem comes_of_eval {e : Expr} (h : eval limit (n + 1) e f m = .error stop m') :
    ∃ stop₀, stop = stop₀.blame e.mark (m'.store.source? f) ∧
      Comes limit ⟨n + 1, .expr e, f, m⟩ stop₀ m' := by
  rw [eval.eq_def] at h
  obtain ⟨stop₀, h, hblame⟩ := exists_of_blaming_error h
  refine ⟨stop₀, hblame, ?_⟩
  cases e with
  | int | float | char | string | mixed | bool | nil | lambda => cases h
  | var mark name =>
    obtain rfl := of_lookup_error h
    exact .inl (.raising (.name mark name))
  | unary mark op operand =>
    rcases or_of_bind_error h with h | ⟨v, m₁, -, h⟩
    · exact comes_operand rfl trivial h
    · obtain ⟨cause, hcause, rfl⟩ := exists_of_lift_error h
      exact .inl (.raising (.unary mark operand hcause))
  | binary mark lhs op rhs =>
    rcases or_of_bind_error h with h | ⟨v, m₁, hv, h⟩
    · exact comes_operand rfl trivial h
    · exact comes_right hv rfl h
  | group mark inner => exact comes_operand rfl trivial h
  | call mark name args =>
    rcases or_of_bind_error h with h | ⟨callee, m₁, hcallee, h⟩
    · obtain rfl := of_lookup_error h
      exact .inl (.raising (.callee mark name args))
    · obtain ⟨hget, hm⟩ := get?_of_lookup_ok hcallee
      rw [hm] at h
      rcases or_of_bind_error h with h | ⟨vs, m₂, hvs, h⟩
      · exact comes_each (c := .expr (.call mark name args)) (by rw [Code.Ready, hget]; rfl) h
      · exact comes_apply hget hvs h
  | block mark body =>
    rcases or_of_bind_error h with h | ⟨inner, m₁, hinner, h⟩
    · cases h
    · cases hinner
      rcases or_of_bind_error h with h | ⟨flow, m₂, -, h⟩
      · exact comes_statements rfl h
      · cases h
  | malformed mark before cause =>
    rcases or_of_bind_error h with h | ⟨vs, m₁, -, h⟩
    · exact comes_each (c := .expr (.malformed mark before cause)) trivial h
    · cases h
      exact .inl (.raising (.expression mark before cause))

theorem comes_of_exec {s : Stmt} (h : exec limit (n + 1) s f m = .error stop m') :
    ∃ stop₀, stop = stop₀.blame s.mark (m'.store.source? f) ∧
      Comes limit ⟨n + 1, .stmt s, f, m⟩ stop₀ m' := by
  rw [exec.eq_def] at h
  obtain ⟨stop₀, h, hblame⟩ := exists_of_blaming_error h
  refine ⟨stop₀, hblame, ?_⟩
  cases s with
  | declare mark name e =>
    rcases or_of_bind_error h with h | ⟨v, m₁, -, h⟩
    · exact comes_operand rfl trivial h
    · cases h
  | assign mark name e =>
    rcases or_of_bind_error h with h | ⟨v, m₁, -, h⟩
    · exact comes_operand rfl trivial h
    · rcases or_of_bind_error h with h | ⟨_, m₂, -, h⟩
      · obtain rfl := of_assign_error h
        exact .inl (.raising (.target mark name e))
      · cases h
  | eval mark e | give mark e =>
    rcases or_of_bind_error h with h | ⟨v, m₁, -, h⟩
    · exact comes_operand rfl trivial h
    · cases h
  | branch mark test yes no =>
    rcases or_of_bind_error h with h | ⟨v, m₁, hv, h⟩
    · exact comes_operand rfl trivial h
    · refine .inr ⟨_, .choice hv, halts_stmt ?_⟩
      split
      · next ht => rwa [if_pos ht] at h
      · next ht => rwa [if_neg ht] at h
  | loop mark test body => exact comes_loop h
  | define => cases h
  | print mark format args =>
    rcases or_of_bind_error h with h | ⟨vs, m₁, -, h⟩
    · exact comes_each (c := .stmt (.print mark format args)) trivial h
    · rcases or_of_bind_error h with h | ⟨text, m₂, -, h⟩
      · obtain ⟨cause, hcause, rfl⟩ := exists_of_lift_error h
        exact .inl (.raising (.print mark args hcause))
      · cases h
  | empty => cases h
  | block mark body =>
    rcases or_of_bind_error h with h | ⟨inner, m₁, hinner, h⟩
    · cases h
    · cases hinner
      exact comes_statements rfl h
  | malformed mark before cause =>
    rcases or_of_bind_error h with h | ⟨vs, m₁, -, h⟩
    · exact comes_each (c := .stmt (.malformed mark before cause)) trivial h
    · cases h
      exact .inl (.raising (.statement mark before cause))

/-- What stops a moment stops it at once, or comes from a moment that it leads to; the node is
blamed for a failure unless another is blamed already. -/
theorem Halts.comes {a : Moment} (h : Halts limit a stop m') :
    ∃ stop₀, stop = stop₀.blame a.code.mark (m'.store.source? a.frame) ∧
      Comes limit a stop₀ m' := by
  obtain ⟨n, c, f, m⟩ := a
  cases n with
  | zero =>
    cases c with
    | expr e =>
      change eval limit 0 e f m = _ at h
      rw [eval] at h
      cases h
      exact ⟨.tooDeep, rfl, .inl (.deep rfl)⟩
    | stmt s =>
      have h := exec_of_halts h
      rw [exec] at h
      cases h
      exact ⟨.tooDeep, rfl, .inl (.deep rfl)⟩
  | succ n =>
    cases c with
    | expr e => exact comes_of_eval h
    | stmt s => exact comes_of_exec (exec_of_halts h)

/-! ## Runs -/

theorem nesting_of_leads {a b : Moment} (h : Leads limit a b) : a.nesting = b.nesting + 1 := by
  cases h <;> rfl

/-- The moment that a failure comes from, and the place that it carries if it is an error of the
language. The place is read off the machine in the end, not that of the moment: the name of a frame
does not change while a unit is running, so it is the same. -/
structure Originates (m' : Machine) (fl : Failure) (b : Moment) : Prop where
  raises : b.code.Raises fl.fault
  place (hf : fl.fault.category ≠ .layout) (hb : b.code.mark ≠ .absent) :
    fl.place = some (b.code.mark, m'.store.source? b.frame)

/-- The moment that something which stops a run comes from. For a failure this is more than that the
moment stops at once, since a failure is blamed on the way. -/
def Stems (limit : Nat) (b : Moment) (m' : Machine) : Stop → Prop
  | .failure fl => Originates m' fl b
  | .endless => Spent limit b m'
  | .tooDeep => b.nesting = 0

theorem originates_of_raises {a : Moment} {cause : Fault} (h : a.code.Raises cause) (m' : Machine) :
    Originates m' ((Failure.ofFault cause).blame a.code.mark (m'.store.source? a.frame)) a := by
  refine ⟨by rw [Failure.blame_fault]; exact h, fun hf ha => ?_⟩
  rw [Failure.blame_fault] at hf
  exact congrArg Failure.place (Failure.blame_unplaced hf ha _)

theorem Originates.blame {b : Moment} {fl : Failure} (h : Originates m' fl b) (mark : Mark)
    (source : Option String) : Originates m' (fl.blame mark source) b := by
  refine ⟨by rw [Failure.blame_fault]; exact h.raises, fun hf hb => ?_⟩
  rw [Failure.blame_fault] at hf
  rw [Failure.blame_placed (h.place hf hb), h.place hf hb]

/-- A moment that stops at once is the origin of what stops it. -/
theorem Ceases.stems {a : Moment} (h : Ceases limit a m' stop) :
    Stems limit a m' (stop.blame a.code.mark (m'.store.source? a.frame)) := by
  cases h with
  | raising h => exact originates_of_raises h m'
  | spent h => exact h
  | deep h => exact h

theorem Stems.blame {b : Moment} (h : Stems limit b m' stop) (mark : Mark)
    (source : Option String) : Stems limit b m' (stop.blame mark source) := by
  cases stop with
  | failure fl => exact Originates.blame h mark source
  | tooDeep | endless => exact h

/-- **What stops a run has an origin.** A failure was raised by the node of some moment of the run,
and if that node has a mark, then the failure carries it. A run that is endless comes to a loop that
has gone round as often as it may, and one that is too deep to a moment without nesting left. -/
theorem Halts.exists_origin {a : Moment} (h : Halts limit a stop m') :
    ∃ b, Visits limit a b ∧ Stems limit b m' stop := by
  induction hn : a.nesting generalizing a stop with
  | zero =>
    obtain ⟨stop₀, rfl, hceases | ⟨b, hab, -⟩⟩ := h.comes
    · exact ⟨a, .refl, hceases.stems⟩
    · cases hn.symm.trans (nesting_of_leads hab)
  | succ n ih =>
    obtain ⟨stop₀, rfl, hceases | ⟨b, hab, hb⟩⟩ := h.comes
    · exact ⟨a, .refl, hceases.stems⟩
    · obtain ⟨c, hbc, hc⟩ := ih hb (Nat.succ.inj ((nesting_of_leads hab).symm.trans hn))
      exact ⟨c, .head hab hbc, hc.blame _ _⟩

/-- The moment of a unit that what stops the unit comes from. It is followed inwards, from each
moment to the one that it leads to, until one is found that stops at once. -/
theorem exists_origin_unit {limits : Limits} {statements : List Stmt}
    (h : unit limits statements f m = .error stop m') :
    ∃ b, Passes limits statements f m b ∧ Stems limits.rounds b m' stop := by
  rcases or_of_bind_error h with h | ⟨flow, m₁, -, h⟩
  · obtain ⟨before, s, after, m₁, rfl, hb, hs⟩ := exists_of_inOrder_error h
    obtain ⟨b, hv, ho⟩ := (halts_stmt hs).exists_origin
    exact ⟨b, ⟨before, s, after, m₁, rfl, hb, hv⟩, ho⟩
  · cases h

end Run

end Treewalk
