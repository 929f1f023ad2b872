import Treewalk.Proofs.Eval.Functions
import Treewalk.Proofs.Eval.Moment
import Treewalk.Proofs.Scope.Store

/-!
# Stores only grow

No frame is ever removed and no frame ever changes its parent, whatever runs on whatever machine;
nor does it change the name of its source, which only a unit does that is about to start.
For the moments of a run this gives an order: what a moment leaves behind extends what it started
with, and is in turn extended by what the moment around it leaves behind. So all moments of a run
agree about the parents of the frames that they share, since the machine in the end agrees with
each.

## Why nothing is asked of the machine

The invariant asks for nothing of machines, values or code, and only relates the machine before to
the machine after. So it holds of every run and has no hypothesis that a later use would have to
supply. Other invariants speak of frames that exist, or of values that capture them, and need this
one to know that what they say is still true when the store has grown.

## Main definitions

* `Store.Extends`, a store and a later one
* `Store.Continues`, a store and a later one of the same unit
* `Run.Grows`, an action after which the store is a later one

## Main results

* `Run.grows_eval`, `Run.grows_exec`: running code makes the store grow
* `Run.continues_of_leads`, `Run.continues_of_visits`, `Run.continues_of_passes`: moments come
  before the ends of the moments around them
* `Run.Passes.continues`: and before the end of the unit

## Implementation notes

There are two relations because a unit does one thing that nothing else does: it names the root
frame when it starts. From a session on, stores are related by `Extends`. While a unit is running
they are related by `Continues`, which adds that names of sources stay, and which is what the names
of failures need.

That a moment comes before the end of the run does not follow from the invariant alone. What runs
after a moment is the rest of what is around it: the operands to the right, the statements behind,
the rounds that are left. `continues_of_leads` has a case for each way in which one moment leads to
another, and in each of them the rest is an action that grows.
-/

namespace Treewalk

namespace Store

/-- A later store: frames are there still, with the parents that they had. -/
structure Extends (s s' : Store) : Prop where
  next : s.next ≤ s'.next
  parent : ∀ g < s.next, s'.parent? g = s.parent? g

variable {s s' : Store}

theorem Extends.refl (s : Store) : s.Extends s :=
  ⟨Nat.le_refl _, fun _ _ => rfl⟩

theorem Extends.trans {s'' : Store} (h : s.Extends s') (h' : s'.Extends s'') : s.Extends s'' :=
  ⟨Nat.le_trans h.next h'.next, fun g hg =>
    (h'.parent g (Nat.lt_of_lt_of_le hg h.next)).trans (h.parent g hg)⟩

theorem extends_define (s : Store) (f : FrameId) (x : String) (v : Value) :
    s.Extends (s.define f x v) :=
  ⟨by simp, fun _ _ => parent?_define _ _ _ _ _⟩

theorem extends_rename (s : Store) (f : FrameId) (name : String) : s.Extends (s.rename f name) :=
  ⟨by simp, fun _ _ => parent?_rename _ _ _ _⟩

theorem extends_addChild (s : Store) (p : FrameId) (source : Option String) (vars : Bindings) :
    s.Extends (s.addChild p source vars) :=
  ⟨by simp, fun g hg => by rw [parent?_addChild, if_neg (Nat.ne_of_lt hg)]⟩

/-- A later store with no frame renamed. -/
structure Continues (s s' : Store) : Prop extends s.Extends s' where
  source : ∀ g < s.next, s'.source? g = s.source? g

theorem Continues.refl (s : Store) : s.Continues s :=
  ⟨.refl s, fun _ _ => rfl⟩

theorem Continues.trans {s'' : Store} (h : s.Continues s') (h' : s'.Continues s'') :
    s.Continues s'' :=
  ⟨h.toExtends.trans h'.toExtends, fun g hg =>
    (h'.source g (Nat.lt_of_lt_of_le hg h.next)).trans (h.source g hg)⟩

theorem continues_define (s : Store) (f : FrameId) (x : String) (v : Value) :
    s.Continues (s.define f x v) :=
  ⟨s.extends_define f x v, fun _ _ => source?_define _ _ _ _ _⟩

theorem continues_addChild (s : Store) (p : FrameId) (source : Option String) (vars : Bindings) :
    s.Continues (s.addChild p source vars) :=
  ⟨s.extends_addChild p source vars, fun g hg => by
    rw [source?_addChild, if_neg (Nat.ne_of_lt hg)]⟩

end Store

/-- Nothing is asked but that stores grow. -/
def growing : Invariant where
  state _ := True
  grows m m' := m.store.Continues m'.store
  value _ _ := True
  frame _ _ := True
  owned _ _ := True
  code _ _ _ := True
  fault _ := True

theorem growing_ofFunctions : growing.OfFunctions where
  plain _ _ _ := trivial
  fault _ := trivial
  refl m := .refl m.store
  trans h h' := h.trans h'
  value_grows _ _ := trivial
  frame_grows _ _ := trivial
  owned_grows _ _ := trivial
  part _ _ := trivial
  lookup _ _ _ := trivial
  assign _ _ _ _ := ⟨trivial, Store.continues_define _ _ _ _⟩
  declare _ _ _ _ _ := ⟨trivial, Store.continues_define _ _ _ _⟩
  enter _ _ _ := ⟨⟨trivial, Store.continues_addChild _ _ _ _⟩, trivial, trivial⟩
  close _ _ _ _ := ⟨⟨trivial, Store.Continues.refl _⟩, trivial⟩
  called _ := ⟨trivial, trivial⟩
  outside {m m'} _ hs _ := ⟨trivial, by change m.store.Continues m'.store; rw [hs]; exact .refl _⟩

namespace Run

variable {α β : Type} {p : Run α} {f : α → Run β}

/-- An action after which the store is a later one. -/
def Grows (p : Run α) : Prop :=
  ∀ m : Machine, m.store.Continues (p.after m).store

theorem Grows.of_keeps {Q : Machine → α → Machine → Prop}
    (h : ∀ m, growing.Keeps p m (Q m)) : p.Grows :=
  fun m => ((h m).next_after trivial).grows

theorem Grows.pure (a : α) : Grows (Pure.pure a) :=
  fun m => .refl m.store

theorem Grows.lift (x : Except Fault α) : Grows (Run.lift x) := by
  cases x <;> exact fun m => .refl m.store

theorem Grows.fail (cause : Fault) : Grows (Run.fail cause : Run α) :=
  fun m => .refl m.store

/-- What an action leaves behind comes before what the next one leaves behind. -/
theorem continues_after_bind (hf : ∀ a, (f a).Grows) (m : Machine) :
    (p.after m).store.Continues ((p >>= f).after m).store := by
  cases hp : p m with
  | ok a m' =>
    rw [after_of_ok hp, after_bind_of_ok hp]
    exact hf a m'
  | error stop m' =>
    rw [after_of_error hp, after_bind_of_error hp]
    exact .refl _

theorem Grows.bind (hp : p.Grows) (hf : ∀ a, (f a).Grows) : (p >>= f).Grows :=
  fun m => (hp m).trans (continues_after_bind hf m)

theorem grows_eval (limit n : Nat) (e : Expr) (f : FrameId) : (eval limit n e f).Grows :=
  .of_keeps fun _ => (growing_ofFunctions.stable.keeps limit n).1 trivial trivial

theorem grows_exec (limit n : Nat) (s : Stmt) (f : FrameId) : (exec limit n s f).Grows :=
  .of_keeps fun _ => (growing_ofFunctions.stable.keeps limit n).2 trivial trivial (.inl trivial)

theorem grows_apply (limit n : Nat) (callee : Value) (args : List Value) :
    (apply (exec limit n) callee args).Grows := by
  have hstable := growing_ofFunctions.stable
  exact .of_keeps fun _ => Invariant.apply_keeps hstable (hstable.keeps limit n).2 trivial
    fun _ _ => trivial

theorem grows_assign (f : FrameId) (x : String) (v : Value) : (assign f x v).Grows :=
  .of_keeps fun _ => Invariant.assign_keeps growing_ofFunctions.stable trivial trivial x

theorem grows_declare (f : FrameId) (x : String) (v : Value) : (declare f x v).Grows :=
  fun m => m.store.continues_define f x v

theorem grows_emit (text : String) : (emit text).Grows :=
  fun m => .refl m.store

theorem grows_each {action : α → Run Value} (ha : ∀ a, (action a).Grows) (as : List α) :
    (each action as).Grows := by
  induction as with
  | nil => exact .pure []
  | cons a rest ih => exact (ha a).bind fun _ => ih.bind fun _ => .pure _

theorem grows_inOrder {action : α → Run Flow} (ha : ∀ a, (action a).Grows) (as : List α) :
    (inOrder action as).Grows := by
  induction as with
  | nil => exact .pure Flow.next
  | cons a rest ih =>
    refine (ha a).bind fun flow => ?_
    cases flow with
    | give v => exact .pure (Flow.give v)
    | next => exact ih

theorem grows_rounds {test : Run Bool} {body : Run Flow} (ht : test.Grows) (hb : body.Grows)
    (n : Nat) : (rounds test body n).Grows := by
  induction n with
  | zero => exact fun m => .refl m.store
  | succ n ih =>
    refine ht.bind fun b => ?_
    cases b with
    | false => exact .pure Flow.next
    | true =>
      refine hb.bind fun flow => ?_
      cases flow with
      | give v => exact .pure (Flow.give v)
      | next => exact ih

theorem grows_unit (limits : Limits) (statements : List Stmt) (f : FrameId) :
    (unit limits statements f).Grows :=
  (grows_inOrder (fun s => grows_exec _ _ s f) statements).bind fun _ => .pure _

/-! ## Items of a list, rounds of a loop -/

/-- What an item of a list leaves behind comes before what the list leaves behind. -/
theorem continues_after_each {action : α → Run Value} (ha : ∀ a, (action a).Grows)
    {before : List α} {a : α} {vs : List Value} {m m' : Machine}
    (hb : each action before m = .ok vs m') (rest : List α) :
    ((action a).after m').store.Continues ((each action (before ++ a :: rest)).after m).store := by
  induction before generalizing m vs with
  | nil =>
    cases hb
    exact continues_after_bind (fun v => (grows_each ha rest).bind fun _ => .pure _) _
  | cons b before ih =>
    obtain ⟨v, m₁, vs', hv, hvs, -⟩ := exists_of_each_ok hb
    rw [List.cons_append, each, after_bind_of_ok hv]
    exact (ih hvs).trans (continues_after_bind (fun _ => .pure _) _)

/-- What a statement leaves behind comes before what those around it leave behind. -/
theorem continues_after_inOrder {action : α → Run Flow} (ha : ∀ a, (action a).Grows)
    {before : List α} {a : α} {m m' : Machine} (hb : inOrder action before m = .ok .next m')
    (rest : List α) :
    ((action a).after m').store.Continues
      ((inOrder action (before ++ a :: rest)).after m).store := by
  rw [after_congr (inOrder_append hb (a :: rest)), inOrder]
  refine continues_after_bind (fun flow => ?_) m'
  cases flow with
  | give v => exact .pure (Flow.give v)
  | next => exact grows_inOrder ha rest

/-- After some rounds of a loop the rest of its rounds are left. -/
theorem Turns.rounds_eq {test : Run Bool} {body : Run Flow} {k : Nat} {m m' : Machine}
    (h : Turns test body k m m') (n : Nat) :
    rounds test body (k + n) m = rounds test body n m' := by
  induction h generalizing n with
  | start => rw [Nat.zero_add]
  | @turn k m m₁ m₂ m₃ _ ht hb ih =>
    rw [Nat.add_assoc, Nat.add_comm 1 n, ih, rounds, bind_of_ok ht]
    exact bind_of_ok hb

/-! ## Moments -/

variable {limit : Nat}

theorem after_bind_pure {γ : Type} (p : Run α) (g : α → γ) (m : Machine) :
    (p >>= fun a => Pure.pure (g a)).after m = p.after m := by
  cases hp : p m with
  | ok a m' => exact (after_bind_of_ok hp).trans (after_of_ok hp).symm
  | error stop m' => exact (after_bind_of_error hp).trans (after_of_error hp).symm

theorem after_run_stmt (limit n : Nat) (s : Stmt) (f : FrameId) (m : Machine) :
    ((Code.stmt s).run limit n f).after m = (exec limit n s f).after m :=
  after_bind_pure _ _ m

/-- The only operand of a node is its first. -/
theorem operand_of_singleton {before after : List Expr} {x e : Expr}
    (h : [x] = before ++ e :: after) : before = [] ∧ e = x := by
  cases before with
  | nil => exact ⟨rfl, (List.cons.inj h).1.symm⟩
  | cons => simp at h

theorem continues_of_operand_expr {n : Nat} {c e : Expr} {f : FrameId} {m m' : Machine}
    {before after : List Expr} {vs : List Value}
    (hc : (Code.expr c).operands = before ++ e :: after)
    (hr : (Code.expr c).Ready m.store f)
    (hb : each (fun e => eval limit n e f) before m = .ok vs m') :
    ((eval limit n e f).after m').store.Continues ((eval limit (n + 1) c f).after m).store := by
  have hgrows (e : Expr) : (eval limit n e f).Grows := grows_eval limit n e f
  rw [eval.eq_def limit (n + 1) c, after_blaming]
  cases c with
  | unary mark op operand =>
    obtain ⟨rfl, rfl⟩ := operand_of_singleton hc
    cases hb
    exact continues_after_bind (fun _ => .lift _) m
  | binary mark lhs op rhs =>
    obtain ⟨rfl, rfl⟩ := operand_of_singleton hc
    cases hb
    refine continues_after_bind (fun v => ?_) m
    split
    · split
      · exact hgrows rhs
      · exact .pure v
    · split
      · exact .pure v
      · exact hgrows rhs
    · exact (hgrows rhs).bind fun _ => .lift _
  | group mark inner =>
    obtain ⟨rfl, rfl⟩ := operand_of_singleton hc
    cases hb
    exact .refl _
  | call mark name args =>
    obtain ⟨callee, hcallee⟩ := Option.isSome_iff_exists.mp hr
    have hlookup : lookup f name m = .ok callee m := by rw [lookup_eq, hcallee]
    rw [show args = before ++ e :: after from hc]
    refine (continues_after_each hgrows hb after).trans ?_
    rw [after_bind_of_ok hlookup]
    exact continues_after_bind (fun vs => grows_apply limit n callee vs) m
  | malformed mark args misfit =>
    rw [show args = before ++ e :: after from hc]
    refine (continues_after_each hgrows hb after).trans ?_
    exact continues_after_bind (fun _ => .fail _) m
  | _ => simp [Code.operands] at hc

theorem continues_of_operand_stmt {n : Nat} {s : Stmt} {e : Expr} {f : FrameId} {m m' : Machine}
    {before after : List Expr} {vs : List Value}
    (hc : (Code.stmt s).operands = before ++ e :: after)
    (hb : each (fun e => eval limit n e f) before m = .ok vs m') :
    ((eval limit n e f).after m').store.Continues ((exec limit (n + 1) s f).after m).store := by
  have hgrows (e : Expr) : (eval limit n e f).Grows := grows_eval limit n e f
  rw [exec.eq_def, after_blaming]
  cases s with
  | declare mark name e =>
    obtain ⟨rfl, rfl⟩ := operand_of_singleton hc
    cases hb
    exact continues_after_bind (fun v => (grows_declare f name v).bind fun _ => .pure _) m
  | assign mark name e =>
    obtain ⟨rfl, rfl⟩ := operand_of_singleton hc
    cases hb
    exact continues_after_bind (fun v => (grows_assign f name v).bind fun _ => .pure _) m
  | eval mark e | give mark e =>
    obtain ⟨rfl, rfl⟩ := operand_of_singleton hc
    cases hb
    exact continues_after_bind (fun _ => .pure _) m
  | branch mark test yes no =>
    obtain ⟨rfl, rfl⟩ := operand_of_singleton hc
    cases hb
    refine continues_after_bind (fun v => ?_) m
    split
    · exact grows_exec limit n yes f
    · exact grows_exec limit n no f
  | print mark format args =>
    rw [show args = before ++ e :: after from hc]
    refine (continues_after_each hgrows hb after).trans ?_
    refine continues_after_bind (fun vs => ?_) m
    exact (Grows.lift _).bind fun text => (grows_emit text).bind fun _ => .pure _
  | malformed mark args misfit =>
    rw [show args = before ++ e :: after from hc]
    refine (continues_after_each hgrows hb after).trans ?_
    exact continues_after_bind (fun _ => .fail _) m
  | _ => simp [Code.operands] at hc

theorem grows_holds (limit n : Nat) (test : Expr) (f : FrameId) : (holds limit n test f).Grows :=
  (grows_eval limit n test f).bind fun _ => .pure _

/-- What is left of a loop after some rounds. -/
theorem after_loop {n k : Nat} {mark : Mark} {test : Expr} {body : Stmt} {f : FrameId}
    {m m' : Machine} (ht : Turns (holds limit n test f) (exec limit n body f) k m m')
    (hk : k < limit) :
    ∃ left, (exec limit (n + 1) (.loop mark test body) f).after m =
      (rounds (holds limit n test f) (exec limit n body f) (left + 1)).after m' := by
  obtain ⟨left, rfl⟩ := Nat.exists_eq_add_of_lt hk
  refine ⟨left, ?_⟩
  rw [exec.eq_def, after_blaming]
  exact after_congr (ht.rounds_eq (left + 1))

/-- What is left of a round after its test. -/
theorem grows_round {test : Run Bool} {body : Run Flow} (ht : test.Grows) (hb : body.Grows)
    (left : Nat) (flow : Flow) :
    Grows (match flow with
      | .give value => return .give value
      | .next => rounds test body left) := by
  cases flow with
  | give v => exact .pure (Flow.give v)
  | next => exact grows_rounds ht hb left

/-- What a moment leaves behind comes before what the moment around it leaves behind. What is left
to be done after the inner one makes the store grow. -/
theorem continues_of_leads {a b : Moment} (h : Leads limit a b) :
    ((b.run limit).after b.machine).store.Continues ((a.run limit).after a.machine).store := by
  cases h with
  | @operand n c f m m' before after e vs hc hr hb =>
    cases c with
    | expr c => exact continues_of_operand_expr hc hr hb
    | stmt s =>
      rw [Moment.run, Moment.run, after_run_stmt]
      exact continues_of_operand_stmt hc hb
  | @right n f m m' mark lhs rhs op v hv ha ho =>
    change ((eval limit n rhs f).after m').store.Continues
      ((eval limit (n + 1) (.binary mark lhs op rhs) f).after m).store
    rw [eval.eq_def limit (n + 1), after_blaming, after_bind_of_ok hv]
    split
    · next hop =>
      rw [if_pos (ha hop)]
      exact .refl _
    · next hop =>
      rw [if_neg (by simp [ho hop])]
      exact .refl _
    · exact continues_after_bind (fun _ => .lift _) m'
  | @body n f m m' mark name args c vs hc hb hl =>
    have hlookup : lookup f name m = .ok (.closure c) m := by rw [lookup_eq, hc]
    have hbody : ((exec limit n c.body m'.store.next).after
        (Moment.calling n c vs m').machine).store.Continues
          ((applyClosure (exec limit n) c vs).after m').store := by
      rw [after_congr (applyClosure_eq limit n hl m')]
      refine Store.Continues.trans ?_ (continues_after_bind (fun _ => .pure _) _)
      rw [after_catchDepth]
      exact .refl _
    rw [Moment.run, Moment.calling, after_run_stmt]
    change Store.Continues _ ((eval limit (n + 1) (.call mark name args) f).after m).store
    rw [eval.eq_def limit (n + 1), after_blaming, after_bind_of_ok hlookup, after_bind_of_ok hb]
    exact hbody
  | @choice n f m m' mark test yes no v hv =>
    rw [Moment.run, Moment.run, after_run_stmt, after_run_stmt, exec.eq_def limit (n + 1),
      after_blaming, after_bind_of_ok hv]
    split
    · exact .refl _
    · exact .refl _
  | @test n k f m m' mark test body hk ht =>
    obtain ⟨left, hleft⟩ := after_loop ht hk
    rw [Moment.run, Moment.run, after_run_stmt, hleft]
    change ((eval limit n test f).after m').store.Continues _
    rw [← after_bind_pure (eval limit n test f) Value.truthy m', rounds]
    refine continues_after_bind (fun b => ?_) m'
    cases b with
    | false => exact .pure Flow.next
    | true =>
      exact (grows_exec limit n body f).bind fun flow =>
        grows_round (grows_holds limit n test f) (grows_exec limit n body f) left flow
  | @round n k f m m' m'' mark test body hk ht hv =>
    obtain ⟨left, hleft⟩ := after_loop ht hk
    rw [Moment.run, Moment.run, after_run_stmt, after_run_stmt, hleft, rounds, after_bind_of_ok hv,
      if_pos rfl]
    exact continues_after_bind (fun flow =>
      grows_round (grows_holds limit n test f) (grows_exec limit n body f) left flow) m''
  | @statement n c f m m' before after s hc hb =>
    have hitem := continues_after_inOrder (fun s => grows_exec limit n s m.store.next) (a := s) hb
      after
    rw [Moment.run, after_run_stmt]
    refine hitem.trans ?_
    cases c with
    | expr e =>
      cases e <;> cases hc
      change Store.Continues _ ((eval limit (n + 1) (.block _ _) f).after m).store
      rw [eval.eq_def limit (n + 1), after_blaming]
      exact continues_after_bind (fun _ => .pure _) _
    | stmt s' =>
      cases s' <;> cases hc
      rw [Moment.run, after_run_stmt, exec.eq_def limit (n + 1), after_blaming]
      exact .refl _

/-- What a moment on the way leaves behind comes before what is left behind in the end. -/
theorem continues_of_visits {a b : Moment} (h : Visits limit a b) :
    ((b.run limit).after b.machine).store.Continues ((a.run limit).after a.machine).store := by
  induction h with
  | refl => exact .refl _
  | tail _ hbc ih => exact (continues_of_leads hbc).trans ih

/-- What a moment of a unit leaves behind comes before what the unit leaves behind. -/
theorem continues_of_passes {limits : Limits} {statements : List Stmt} {f : FrameId} {m : Machine}
    {b : Moment} (h : Passes limits statements f m b) :
    ((b.run limits.rounds).after b.machine).store.Continues
      ((unit limits statements f).after m).store := by
  obtain ⟨before, s, after, m', rfl, hb, hv⟩ := h
  have hitem := continues_after_inOrder
    (fun s => grows_exec limits.rounds limits.nesting s f) (a := s) hb after
  have hs := continues_of_visits hv
  rw [Moment.run, Moment.run, after_run_stmt] at hs
  exact (hs.trans hitem).trans (continues_after_bind (fun _ => .pure _) m)

/-- A moment of a unit comes before what the unit leaves behind. -/
theorem Passes.continues {limits : Limits} {statements : List Stmt} {f : FrameId} {m : Machine}
    {b : Moment} (h : Passes limits statements f m b) :
    b.machine.store.Continues ((unit limits statements f).after m).store := by
  have hat : growing.At b := ⟨trivial, trivial, trivial, fun _ _ => .inl trivial⟩
  have hkeeps := growing_ofFunctions.stable.run_keeps hat limits.rounds
  exact (hkeeps.next_after trivial).grows.trans (continues_of_passes h)

end Run

end Treewalk
