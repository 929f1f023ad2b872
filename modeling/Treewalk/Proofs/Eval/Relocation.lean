import Treewalk.Proofs.Eval.Builtin
import Treewalk.Proofs.Eval.Giving
import Treewalk.Proofs.Eval.Moment
import Treewalk.Proofs.Scope.Relocation

/-!
# Evaluation on a moved store

Rewritten code does on a moved store what the code does where the store was, and what it leaves
behind is what would have been left there, moved: the same text is written, the same line is read,
the same fault is raised. One run follows the other through every action, step by step, and stops
where the other stops.

## Implementation notes

Names have to be resolved as before on every machine on the way. That they are is an invariant, and
which one is left open; where nothing stands before the store none is needed.

The two runs take the same actions in the same order, so following is a matter of one action at a
time, with one exception. A list of statements may have been cut short behind one that gives on
every path. There the two lists differ, and it has to be used that such a statement has given a
value when it has come to its end (`Run.exec_alwaysGives`): what is missing from the one list is not
run in the other. That is why `Follows.bind_of_ends` lets the rest of a run depend on what is known
of the first result, and why statements one after another are followed for `Run.exec` only, while
the other lemmas are about any way to run the code below.

## What this is used for

Three statements about sessions come down to this one. Running a program that differs only in its
places, its spaces or its comments is evaluation of the same code with other marks on the same
store. Deleting statements that are never reached is evaluation of shorter code on the same store.
And running after a reset is evaluation on a store that lies behind the frames that were left over.
Each is a choice of `Relocation`: what becomes of marks and source names, whether lists may be cut,
and how far frames and closures move. The evaluator is gone through once for all of them.

## Main definitions

* `Relocation.machine`, `Relocation.result`, what becomes of machines and outcomes
* `Relocation.Follows`, one action does on the moved machine what another does on the machine

## Main results

* `Relocation.follows_eval_exec`: evaluation follows itself
* `Relocation.follows_unit`, the same for the statements of a unit
-/

namespace Treewalk.Relocation

variable (R : Relocation)

/-! ## Machines and outcomes -/

/-- A machine whose store is moved, and which has written a text before. -/
def machine (m : Machine) : Machine :=
  ⟨R.store m.store, R.closures + m.closures, m.input, R.output ++ m.output⟩

/-- The end of a statement, with a value that is moved. -/
def flow : Flow → Flow
  | .next => .next
  | .give v => .give (R.value v)

/-- A failure that is blamed on the replaced mark of the replaced source. -/
def failure (f : Failure) : Failure :=
  ⟨f.fault, f.place.map fun place => (R.mark place.1, R.source place.2)⟩

/-- A stop whose failure, if it is one, is blamed on the replaced mark. -/
def stop : Stop → Stop
  | .failure f => .failure (R.failure f)
  | stop => stop

/-- An outcome on the moved machine; results change as said. -/
def result {α β : Type} (h : α → β) :
    EStateM.Result Stop Machine α → EStateM.Result Stop Machine β
  | .ok a m => .ok (h a) (R.machine m)
  | .error stop m => .error (R.stop stop) (R.machine m)

@[simp] theorem value_flow (fl : Flow) : (R.flow fl).value = R.value fl.value := by
  cases fl <;> rfl

/-- What there is to see of a machine is told by the moved machine. -/
theorem seen_of_machine {m m' : Machine} (h : R.machine m = R.machine m') :
    m.output = m'.output ∧ m.input = m'.input ∧
      ∀ f, (m.store.vars f).map (fun entry => (entry.1, entry.2.inspect)) =
        (m'.store.vars f).map fun entry => (entry.1, entry.2.inspect) := by
  obtain ⟨hstore, -, hinput, houtput⟩ := Machine.mk.inj h
  refine ⟨?_, hinput, fun f => ?_⟩
  · simpa using houtput
  · rw [← R.inspect_vars_store, hstore, R.inspect_vars_store]

/-- A node has a mark to be blamed on before and after. -/
theorem blame_failure (f : Failure) (mark : Mark) (source : Option String) :
    (R.failure f).blame (R.mark mark) (R.source source) = R.failure (f.blame mark source) := by
  by_cases hl : f.fault.category = .layout
  · rw [Failure.blame_layout hl, Failure.blame_layout (f := R.failure f) hl]
  obtain ⟨fault, place⟩ := f
  cases place with
  | some place =>
    exact (Failure.blame_placed rfl _ _).trans
      (congrArg R.failure (Failure.blame_placed rfl _ _).symm)
  | none =>
    by_cases hm : mark = .absent
    · rw [hm, R.mark_eq_absent.mpr rfl, Failure.blame_absent, Failure.blame_absent]
    · have hm' : R.mark mark ≠ .absent := fun h => hm (R.mark_eq_absent.mp h)
      exact (Failure.blame_unplaced hl hm' _).trans
        (congrArg R.failure (Failure.blame_unplaced hl hm source).symm)

variable (I : Invariant)

/-- From a machine that satisfies the invariant, the second action does on the moved machine what
the first does on the machine. -/
def Follows {α β : Type} (h : α → β) (p : Run α) (q : Run β) (m : Machine) : Prop :=
  I.state m → q (R.machine m) = R.result h (p m)

variable {R I} {α β γ δ : Type} {h : α → β} {k : γ → δ} {p : Run α} {q : Run β} {m : Machine}

/-! ## Actions -/

namespace Follows

theorem pure {a : α} {b : β} (hb : b = h a) : R.Follows I h (Pure.pure a) (Pure.pure b) m :=
  fun _ => by rw [hb]; rfl

/-- One action after another; of the result of the first it may be used what is known of it. -/
theorem bind_of_ends {P : α → Prop} {Q : α → Machine → Prop} {f : α → Run γ} {g : β → Run δ}
    (hk : I.Keeps p m Q) (hends : Run.Ends P p) (hp : R.Follows I h p q m)
    (hf : ∀ a m', I.Next m m' → Q a m' → P a → R.Follows I k (f a) (g (h a)) m') :
    R.Follows I k (p >>= f) (q >>= g) m := by
  intro hm
  have hpm := hp hm
  cases hr : p m with
  | ok a m' =>
    rw [hr] at hpm
    obtain ⟨hn, hQ⟩ := hk.of_ok hm hr
    rw [Run.bind_of_ok hr, Run.bind_of_ok hpm]
    exact hf a m' hn hQ (hends m m' a hr) hn.state
  | error stop m' =>
    rw [hr] at hpm
    rw [Run.bind_of_error hr, Run.bind_of_error hpm]
    rfl

theorem bind {Q : α → Machine → Prop} {f : α → Run γ} {g : β → Run δ} (hk : I.Keeps p m Q)
    (hp : R.Follows I h p q m)
    (hf : ∀ a m', I.Next m m' → Q a m' → R.Follows I k (f a) (g (h a)) m') :
    R.Follows I k (p >>= f) (q >>= g) m :=
  bind_of_ends hk (Run.ends_any p) hp fun a m' hn hQ _ => hf a m' hn hQ

theorem fail (cause : Fault) : R.Follows I h (Run.fail cause) (Run.fail cause) m :=
  fun _ => rfl

theorem throw {stop : Stop} (hs : R.stop stop = stop) :
    R.Follows I h (MonadExcept.throw stop : Run α) (MonadExcept.throw stop : Run β) m := by
  intro _
  change EStateM.Result.error stop _ = EStateM.Result.error (R.stop stop) _
  rw [hs]

theorem lift {x : Except Fault α} {y : Except Fault β} (hy : y = x.map h) :
    R.Follows I h (Run.lift x) (Run.lift y) m := by
  rw [hy]
  cases x with
  | ok a => exact pure rfl
  | error cause => exact fail cause

/-- The name of the source that is blamed is the one of the moved frame. -/
theorem blaming (mark : Mark) (frame : FrameId) (hp : R.Follows I h p q m) :
    R.Follows I h (Run.blaming mark frame p) (Run.blaming (R.mark mark) (R.frame frame) q) m := by
  intro hm
  rw [Run.blaming, Run.blaming, hp hm]
  cases p m with
  | ok a m' => rfl
  | error stop m' =>
    cases stop with
    | failure f =>
      refine congrArg (fun f => EStateM.Result.error (Stop.failure f) (R.machine m')) ?_
      rw [← blame_failure, ← source?_store]
      rfl
    | tooDeep => rfl
    | endless => rfl

theorem catchDepth (cause : Fault) (hp : R.Follows I h p q m) :
    R.Follows I h (Run.catchDepth cause p) (Run.catchDepth cause q) m := by
  intro hm
  rw [Run.catchDepth, Run.catchDepth, hp hm]
  cases p m with
  | ok a m' => rfl
  | error stop m' => cases stop <;> rfl

end Follows

/-! ## Scope -/

theorem follows_lookup (hR : ∀ m, I.state m → R.Fits m.store) (frame : FrameId) (name : String) :
    R.Follows I R.value (Run.lookup frame name) (Run.lookup (R.frame frame) name) m := by
  intro hm
  rw [Run.lookup_eq, Run.lookup_eq, machine, get?_store R frame name (hR m hm)]
  cases m.store.get? frame name <;> rfl

theorem follows_assign (hR : ∀ m, I.state m → R.Fits m.store) (frame : FrameId) (name : String)
    (v : Value) :
    R.Follows I id (Run.assign frame name v) (Run.assign (R.frame frame) name (R.value v)) m := by
  intro hm
  rw [Run.assign, Run.assign, machine, owner?_store R frame name (hR m hm)]
  cases m.store.owner? frame name with
  | none => rfl
  | some g =>
    exact congrArg (fun s => EStateM.Result.ok () (Machine.mk s _ _ _))
      (R.define_store m.store g name v)

theorem follows_declare (frame : FrameId) (name : String) (v : Value) :
    R.Follows I id (Run.declare frame name v) (Run.declare (R.frame frame) name (R.value v)) m :=
  fun _ => congrArg (fun s => EStateM.Result.ok () (Machine.mk s _ _ _))
    (R.define_store m.store frame name v)

theorem follows_enter (frame : FrameId) (vars : Bindings) :
    R.Follows I R.frame (Run.enter frame vars) (Run.enter (R.frame frame) (R.vars vars)) m := by
  intro _
  refine (congrArg (fun s => EStateM.Result.ok _ (Machine.mk s _ _ _))
    (R.addChild_store m.store frame vars)).trans ?_
  exact congrArg (fun f => EStateM.Result.ok f _) (R.next_store m.store)

theorem follows_close (name : Option String) (params : List String) (body : Stmt)
    (frame : FrameId) :
    R.Follows I R.value (Run.close name params body frame)
      (Run.close name params (body.recast R.toRecast) (R.frame frame)) m :=
  fun _ => rfl

theorem follows_emit (text : String) : R.Follows I id (Run.emit text) (Run.emit text) m :=
  fun _ => congrArg (fun o => EStateM.Result.ok () (Machine.mk _ _ _ o)) (String.append_assoc ..)

/-! ## Texts -/

theorem checkTexts_map_value (place step : Nat) (args : List Value) :
    checkTexts place step (args.map R.value) = checkTexts place step args :=
  checkTexts_map R.untextual?_value place step args

theorem render_map_value (context pattern : String) (args : List Value) :
    render context pattern (args.map R.value) = render context pattern args :=
  render_map R.untextual?_value R.display_value context pattern args

theorem joined_map_value (separator : String) (args : List Value) :
    joined separator (args.map R.value) = joined separator args :=
  joined_map R.display_value separator args

theorem printText_map_value (format : String) (args : List Value) :
    printText format (args.map R.value) = printText format args :=
  printText_map R.untextual?_value R.display_value format args

/-! ## Built-in functions -/

theorem follows_show (hI : I.Stable) {args : List Value} (ha : ∀ v ∈ args, I.value m v)
    (text : String) :
    R.Follows I R.value
      (do Run.lift (checkTexts 0 1 args)
          Run.emit text
          return Value.nil)
      (do Run.lift (checkTexts 0 1 (args.map R.value))
          Run.emit text
          return Value.nil) m := by
  rw [checkTexts_map_value]
  refine Follows.bind (h := id) (Q := fun _ _ => True)
    (Invariant.Keeps.lift hI (Invariant.checkTexts_yields hI 0 1 ha))
    (Follows.lift (by cases checkTexts 0 1 args <;> rfl)) fun _ m' _ _ => ?_
  exact Follows.bind (Invariant.emit_keeps hI text) (follows_emit text) fun _ _ _ _ =>
    Follows.pure rfl

theorem follows_render (hI : I.Stable) {args : List Value} (ha : ∀ v ∈ args, I.value m v)
    (pattern : String) :
    R.Follows I R.value
      (do return .string (← Run.lift (render "format" pattern args)))
      (do return .string (← Run.lift (render "format" pattern (args.map R.value)))) m := by
  rw [render_map_value]
  refine Follows.bind (h := id) (Q := fun _ _ => True)
    (Invariant.Keeps.lift hI (Invariant.render_yields hI "format" pattern ha)) (Follows.lift ?_)
    fun _ _ _ _ => Follows.pure rfl
  cases render "format" pattern args <;> rfl

theorem follows_builtin (hI : I.Stable) (b : Builtin) {args : List Value}
    (ha : ∀ v ∈ args, I.value m v) :
    R.Follows I R.value (b.call args) (b.call (args.map R.value)) m := by
  cases b with
  | write =>
    rw [Builtin.call, Builtin.call, joined_map_value]
    exact follows_show hI ha _
  | writeln =>
    rw [Builtin.call, Builtin.call, joined_map_value]
    exact follows_show hI ha _
  | format =>
    cases args with
    | nil => exact Follows.fail _
    | cons v rest =>
      rw [List.forall_mem_cons] at ha
      cases v with
      | string pattern => exact follows_render hI ha.2 pattern
      | mixed sort part =>
        cases sort with
        | string =>
          rw [List.map_cons, value.eq_def]
          simp only [Builtin.call]
          cases part.words? with
          | none => exact Follows.fail _
          | some pattern => exact follows_render hI ha.2 pattern
        | _ => exact Follows.fail _
      | _ => exact Follows.fail _
  | getline =>
    rw [Builtin.call, Builtin.call, List.isEmpty_map, List.length_map]
    split
    -- what is read does not depend on the store
    · intro _
      rfl
    · exact Follows.fail _

/-! ## Iteration -/

theorem follows_each (hI : I.Stable) {action : α → Run Value} {action' : β → Run Value}
    {k : α → β} {as : List α}
    (hk : ∀ a ∈ as, ∀ m', I.grows m m' → I.Keeps (action a) m' fun v m'' => I.value m'' v)
    (ha : ∀ a ∈ as, ∀ m', I.grows m m' → R.Follows I R.value (action a) (action' (k a)) m') :
    R.Follows I (List.map R.value) (Run.each action as) (Run.each action' (as.map k)) m := by
  induction as generalizing m with
  | nil => exact Follows.pure rfl
  | cons a rest ih =>
    rw [List.forall_mem_cons] at ha hk
    refine Follows.bind (hk.1 m (hI.refl m)) (ha.1 m (hI.refl m)) fun v m' hn _ => ?_
    have hk' := fun b hb m'' hg => hk.2 b hb m'' (hI.trans hn.grows hg)
    refine Follows.bind (Invariant.each_keeps hI hk')
      (ih hk' fun b hb m'' hg => ha.2 b hb m'' (hI.trans hn.grows hg)) fun vs _ _ _ => ?_
    exact Follows.pure rfl

/-- Statements one after another. Where one gives on every path, those behind it are not run, and
the rewritten list may do without them. -/
theorem follows_inOrder (hI : I.Stable) {action action' : Stmt → Run Flow} {ss : List Stmt}
    (hk : ∀ s ∈ ss, ∀ m', I.grows m m' → I.Keeps (action s) m' I.flow)
    (hg : ∀ s : Stmt, s.alwaysGives = true → Run.Ends (fun fl => fl.isGive = true) (action s))
    (ha : ∀ s ∈ ss, ∀ m', I.grows m m' →
      R.Follows I R.flow (action s) (action' (s.recast R.toRecast)) m') :
    R.Follows I R.flow (Run.inOrder action ss)
      (Run.inOrder action' (Stmt.recastAll R.toRecast ss)) m := by
  induction ss generalizing m with
  | nil => exact Follows.pure rfl
  | cons s rest ih =>
    rw [List.forall_mem_cons] at ha hk
    have hs := ha.1 m (hI.refl m)
    rw [Stmt.recastAll]
    split
    · next htrims =>
      have hends := hg s (Bool.and_eq_true_iff.mp htrims).2
      refine Follows.bind_of_ends (hk.1 m (hI.refl m)) hends hs fun fl m' _ _ hfl => ?_
      cases fl with
      | give v => exact Follows.pure rfl
      | next => cases hfl
    · refine Follows.bind (hk.1 m (hI.refl m)) hs fun fl m' hn _ => ?_
      cases fl with
      | give v => exact Follows.pure rfl
      | next =>
        exact ih (fun b hb m'' hg => hk.2 b hb m'' (hI.trans hn.grows hg))
          fun b hb m'' hg => ha.2 b hb m'' (hI.trans hn.grows hg)

theorem follows_rounds (hI : I.Stable) {test test' : Run Bool} {body body' : Run Flow}
    (hkt : ∀ m', I.grows m m' → I.Keeps test m' fun _ _ => True)
    (hkb : ∀ m', I.grows m m' → I.Keeps body m' I.flow)
    (ht : ∀ m', I.grows m m' → R.Follows I id test test' m')
    (hb : ∀ m', I.grows m m' → R.Follows I R.flow body body' m') (n : Nat) :
    R.Follows I R.flow (Run.rounds test body n) (Run.rounds test' body' n) m := by
  induction n generalizing m with
  | zero => exact Follows.throw rfl
  | succ n ih =>
    refine Follows.bind (hkt m (hI.refl m)) (ht m (hI.refl m)) fun holds m' hn _ => ?_
    cases holds with
    | false => exact Follows.pure rfl
    | true =>
      refine Follows.bind (hkb m' hn.grows) (hb m' hn.grows) fun fl m'' hn' _ => ?_
      have hg := hI.trans hn.grows hn'.grows
      cases fl with
      | give v => exact Follows.pure rfl
      | next =>
        exact ih (fun m₁ h₁ => hkt m₁ (hI.trans hg h₁)) (fun m₁ h₁ => hkb m₁ (hI.trans hg h₁))
          (fun m₁ h₁ => ht m₁ (hI.trans hg h₁)) fun m₁ h₁ => hb m₁ (hI.trans hg h₁)

/-! ## Calls -/

variable (R I) in
/-- Expressions that are evaluated in a frame are evaluated in the moved frame. -/
def EvalFollows (eval : Expr → FrameId → Run Value) : Prop :=
  ∀ {e : Expr} {f : FrameId} {m : Machine}, I.code m f (.expr e) → I.frame m f →
    R.Follows I R.value (eval e f) (eval (e.recast R.toRecast) (R.frame f)) m

variable (R I) in
/-- Statements that run in a frame run in the moved frame. -/
def ExecFollows (exec : Stmt → FrameId → Run Flow) : Prop :=
  ∀ {s : Stmt} {f : FrameId} {m : Machine}, I.code m f (.stmt s) → I.frame m f →
    I.owned m f ∨ s.introduces = [] →
    R.Follows I R.flow (exec s f) (exec (s.recast R.toRecast) (R.frame f)) m

/-- Operands one after another. -/
theorem EvalFollows.each (hI : I.Stable) {eval : Expr → FrameId → Run Value}
    (hk : I.EvalKeeps eval) (he : R.EvalFollows I eval) {es : List Expr} {f : FrameId}
    (hc : ∀ e ∈ es, I.code m f (.expr e)) (hf : I.frame m f) :
    R.Follows I (List.map R.value) (Run.each (fun e => eval e f) es)
      (Run.each (fun e => eval e (R.frame f)) (Expr.recastAll R.toRecast es)) m := by
  rw [Expr.recastAll_eq_map]
  exact follows_each hI
    (fun e hm m' hg => hk (hI.code_grows hg (hc e hm)) (hI.frame_grows hg hf))
    fun e hm m' hg => he (hI.code_grows hg (hc e hm)) (hI.frame_grows hg hf)

/-- Statements one after another in a frame that is owned. -/
theorem ExecFollows.inOrder (hI : I.Stable) {limit n : Nat}
    (hx : R.ExecFollows I (Run.exec limit n)) {ss : List Stmt} {f : FrameId}
    (hc : ∀ s ∈ ss, I.code m f (.stmt s)) (hf : I.frame m f) (ho : I.owned m f) :
    R.Follows I R.flow (Run.inOrder (fun s => Run.exec limit n s f) ss)
      (Run.inOrder (fun s => Run.exec limit n s (R.frame f)) (Stmt.recastAll R.toRecast ss)) m := by
  obtain ⟨-, hk⟩ := hI.keeps limit n
  refine follows_inOrder hI (fun s hm m' hg => ?_) (fun s hs => Run.exec_alwaysGives limit n f hs)
    fun s hm m' hg => ?_
  · exact hk (hI.code_grows hg (hc s hm)) (hI.frame_grows hg hf) (.inl (hI.owned_grows hg ho))
  · exact hx (hI.code_grows hg (hc s hm)) (hI.frame_grows hg hf) (.inl (hI.owned_grows hg ho))

section

variable {exec : Stmt → FrameId → Run Flow} (hI : I.Stable) (hkx : I.ExecKeeps exec)
  (hx : R.ExecFollows I exec)
include hI hkx hx

theorem follows_applyClosure {c : Closure} {args : List Value} (hc : I.value m (.closure c))
    (ha : ∀ v ∈ args, I.value m v) :
    R.Follows I R.value (Run.applyClosure exec c args)
      (Run.applyClosure exec
        ⟨R.closures + c.id, c.name, c.params, c.body.recast R.toRecast, R.frame c.frame⟩
        (args.map R.value)) m := by
  obtain ⟨hcode, hframe⟩ := hI.called hc
  rw [Run.applyClosure, Run.applyClosure, List.length_map]
  split
  · have hzip : c.params.zip (args.map R.value) =
        (c.params.zip args).map fun e => (e.1, R.value e.2) := by
      rw [List.zip_map_right]
      rfl
    have hvars := R.foldl_put_vars (c.params.zip args) []
    rw [show R.vars [] = [] from rfl, ← hzip] at hvars
    rw [hvars]
    refine Follows.bind (Invariant.enter_keeps hI hframe fun entry he => ?_)
      (follows_enter c.frame _) ?_
    · rcases Bindings.mem_foldl_put he with hz | hn
      · exact ha _ (List.of_mem_zip hz).2
      · exact absurd hn List.not_mem_nil
    rintro inner m' - ⟨⟨hin, hown⟩, hinside⟩
    have hbody := hinside hcode
    refine Follows.bind ((hkx hbody hin (.inl hown)).catchDepth (hI.ordinary rfl rfl))
      ((hx hbody hin (.inl hown)).catchDepth _) fun fl _ _ _ => ?_
    exact Follows.pure (R.value_flow fl)
  · exact Follows.fail _

theorem follows_apply {callee : Value} {args : List Value} (hc : I.value m callee)
    (ha : ∀ v ∈ args, I.value m v) :
    R.Follows I R.value (Run.apply exec callee args)
      (Run.apply exec (R.value callee) (args.map R.value)) m := by
  cases callee with
  | closure c => exact follows_applyClosure hI hkx hx hc ha
  | builtin b => exact follows_builtin hI b ha
  | _ => exact Follows.fail _

end

/-! ## Expressions and statements -/

section

variable (hI : I.Stable) (hR : ∀ m, I.state m → R.Fits m.store) {limit n : Nat}
  (he : R.EvalFollows I (Run.eval limit n)) (hx : R.ExecFollows I (Run.exec limit n))
include hI hR he hx

theorem follows_eval_step : R.EvalFollows I (Run.eval limit (n + 1)) := by
  intro e f m hc hf
  obtain ⟨hke, hkx⟩ := hI.keeps limit n
  have hpart : ∀ {d : Code}, d ∈ (Code.expr e).parts → I.code m f d := hI.part hc
  rw [Run.eval.eq_def, Run.eval.eq_def]
  dsimp only
  rw [Expr.mark_recast]
  refine Follows.blaming e.mark f ?_
  cases e with
  | int | float | char | string | mixed | bool | nil => exact Follows.pure rfl
  | var mark name => exact follows_lookup hR f name
  | unary mark op operand =>
    have hcode : I.code m f (.expr operand) := hpart (by simp [Code.parts])
    exact Follows.bind (hke hcode hf) (he hcode hf) fun v _ _ _ =>
      Follows.lift (R.applyUnary_value op.kind v)
  | binary mark lhs op rhs =>
    have hcode : I.code m f (.expr lhs) := hpart (by simp [Code.parts])
    have hcode' : I.code m f (.expr rhs) := hpart (by simp [Code.parts])
    refine Follows.bind (hke hcode hf) (he hcode hf) fun v m' hn _ => ?_
    have hf' := hI.frame_grows hn.grows hf
    have hcode' := hI.code_grows hn.grows hcode'
    rw [truthy_value]
    split
    · split
      · exact he hcode' hf'
      · exact Follows.pure rfl
    · split
      · exact Follows.pure rfl
      · exact he hcode' hf'
    · exact Follows.bind (hke hcode' hf') (he hcode' hf') fun w _ _ _ =>
        Follows.lift (R.applyBinary_value op v w)
  | group mark inner => exact he (hpart (by simp [Code.parts])) hf
  | call mark name args =>
    have hcode : ∀ a ∈ args, I.code m f (.expr a) := fun a ha =>
      hpart (by simpa [Code.parts] using ha)
    refine Follows.bind (Invariant.lookup_keeps hI hf name) (follows_lookup hR f name) ?_
    intro callee m' hn hcallee
    have hf' := hI.frame_grows hn.grows hf
    have hcode := fun a ha => hI.code_grows hn.grows (hcode a ha)
    refine Follows.bind (hke.each hI hcode hf') (he.each hI hke hcode hf') ?_
    exact fun vs m'' hn' hvs => follows_apply hI hkx hx (hI.value_grows hn'.grows hcallee) hvs
  | lambda mark params body => exact follows_close none params body f
  | block mark body =>
    have hcode : ∀ s ∈ body, I.code m f (.stmt s) := fun s hs =>
      hpart (by simpa [Code.parts] using hs)
    refine Follows.bind (Invariant.enter_keeps hI hf (by simp)) (follows_enter f []) ?_
    rintro inner m' - ⟨⟨hin, hown⟩, hinside⟩
    have hcode := fun s hs => hinside (hcode s hs)
    refine Follows.bind (hkx.inOrder hI hcode hin hown) (hx.inOrder hI hcode hin hown) ?_
    exact fun fl _ _ _ => Follows.pure (R.value_flow fl)
  | malformed mark before misfit =>
    have hcode : ∀ a ∈ before, I.code m f (.expr a) := fun a ha =>
      hpart (by simpa [Code.parts] using ha)
    exact Follows.bind (hke.each hI hcode hf) (he.each hI hke hcode hf) fun _ _ _ _ =>
      Follows.fail _

theorem follows_exec_step : R.ExecFollows I (Run.exec limit (n + 1)) := by
  intro s f m hc hf ho
  obtain ⟨hke, hkx⟩ := hI.keeps limit n
  have hpart : ∀ {d : Code}, d ∈ (Code.stmt s).parts → I.code m f d := hI.part hc
  rw [Run.exec.eq_def, Run.exec.eq_def]
  dsimp only
  rw [Stmt.mark_recast]
  refine Follows.blaming s.mark f ?_
  cases s with
  | declare mark name e =>
    have hcode : I.code m f (.expr e) := hpart (by simp [Code.parts])
    have ho : I.owned m f := ho.resolve_right (by simp [Stmt.introduces])
    refine Follows.bind (hke hcode hf) (he hcode hf) fun v m' hn hv => ?_
    refine Follows.bind (Invariant.declare_keeps hI (hI.frame_grows hn.grows hf)
      (hI.owned_grows hn.grows ho) hv name) (follows_declare f name v) ?_
    exact fun _ _ _ _ => Follows.pure rfl
  | assign mark name e =>
    have hcode : I.code m f (.expr e) := hpart (by simp [Code.parts])
    refine Follows.bind (hke hcode hf) (he hcode hf) fun v m' hn hv => ?_
    refine Follows.bind (Invariant.assign_keeps hI (hI.frame_grows hn.grows hf) hv name)
      (follows_assign hR f name v) ?_
    exact fun _ _ _ _ => Follows.pure rfl
  | eval mark e =>
    have hcode : I.code m f (.expr e) := hpart (by simp [Code.parts])
    exact Follows.bind (hke hcode hf) (he hcode hf) fun _ _ _ _ => Follows.pure rfl
  | branch mark test yes no =>
    have hcode : I.code m f (.expr test) := hpart (by simp [Code.parts])
    have hi : I.owned m f ∨ yes.introduces = [] ∧ no.introduces = [] := by
      simpa [Stmt.introduces] using ho
    refine Follows.bind (hke hcode hf) (he hcode hf) fun v m' hn hv => ?_
    have hf' := hI.frame_grows hn.grows hf
    have hi' := hi.imp_left (hI.owned_grows hn.grows)
    rw [truthy_value]
    split
    · exact hx (hI.code_grows hn.grows (hpart (by simp [Code.parts]))) hf' (hi'.imp_right And.left)
    · exact hx (hI.code_grows hn.grows (hpart (by simp [Code.parts]))) hf' (hi'.imp_right And.right)
  | loop mark test body =>
    have hcode : I.code m f (.expr test) := hpart (by simp [Code.parts])
    have hbody : I.code m f (.stmt body) := hpart (by simp [Code.parts])
    have hcode := fun m' (hg : I.grows m m') => hI.code_grows hg hcode
    have hbody := fun m' (hg : I.grows m m') => hI.code_grows hg hbody
    have hframe : ∀ m', I.grows m m' → I.frame m' f := fun _ hg => hI.frame_grows hg hf
    have howned : ∀ m', I.grows m m' → I.owned m' f ∨ body.introduces = [] := fun _ hg =>
      ho.imp_left (hI.owned_grows hg)
    refine follows_rounds hI (fun m' hg => hI.holds_keeps (hcode m' hg) (hframe m' hg))
      (fun m' hg => hkx (hbody m' hg) (hframe m' hg) (howned m' hg)) (fun m' hg => ?_)
      (fun m' hg => hx (hbody m' hg) (hframe m' hg) (howned m' hg)) limit
    have hcode := hcode m' hg
    exact Follows.bind (hke hcode (hframe m' hg)) (he hcode (hframe m' hg)) fun v _ _ _ =>
      Follows.pure (R.truthy_value v)
  | define mark name params body =>
    have ho : I.owned m f := ho.resolve_right (by simp [Stmt.introduces])
    refine Follows.bind (Invariant.close_keeps hI hf hc rfl)
      (follows_close (some name) params body f) fun v m' hn hv => ?_
    refine Follows.bind (Invariant.declare_keeps hI (hI.frame_grows hn.grows hf)
      (hI.owned_grows hn.grows ho) hv name) (follows_declare f name v) ?_
    exact fun _ _ _ _ => Follows.pure rfl
  | give mark e =>
    have hcode : I.code m f (.expr e) := hpart (by simp [Code.parts])
    exact Follows.bind (hke hcode hf) (he hcode hf) fun _ _ _ _ => Follows.pure rfl
  | print mark format args =>
    have hcode : ∀ a ∈ args, I.code m f (.expr a) := fun a ha =>
      hpart (by simpa [Code.parts] using ha)
    refine Follows.bind (hke.each hI hcode hf) (he.each hI hke hcode hf) fun vs m' _ hvs => ?_
    rw [printText_map_value]
    refine Follows.bind (h := id) (Q := fun _ _ => True)
      (Invariant.Keeps.lift hI (Invariant.printText_yields hI format hvs)) (Follows.lift ?_) ?_
    · cases printText format vs <;> rfl
    intro text _ _ _
    exact Follows.bind (Invariant.emit_keeps hI text) (follows_emit text) fun _ _ _ _ =>
      Follows.pure rfl
  | empty mark => exact Follows.pure rfl
  | block mark body =>
    have hcode : ∀ s ∈ body, I.code m f (.stmt s) := fun s hs =>
      hpart (by simpa [Code.parts] using hs)
    refine Follows.bind (Invariant.enter_keeps hI hf (by simp)) (follows_enter f []) ?_
    rintro inner m' - ⟨⟨hin, hown⟩, hinside⟩
    exact hx.inOrder hI (fun s hs => hinside (hcode s hs)) hin hown
  | malformed mark before misfit =>
    have hcode : ∀ a ∈ before, I.code m f (.expr a) := fun a ha =>
      hpart (by simpa [Code.parts] using ha)
    exact Follows.bind (hke.each hI hcode hf) (he.each hI hke hcode hf) fun _ _ _ _ =>
      Follows.fail _

end

/-- **Evaluation on a moved store.** Rewritten code does on the moved machine what the code does on
the machine, at any depth and whatever the outcome. -/
theorem follows_eval_exec (hI : I.Stable) (hR : ∀ m, I.state m → R.Fits m.store) (limit n : Nat) :
    R.EvalFollows I (Run.eval limit n) ∧ R.ExecFollows I (Run.exec limit n) := by
  induction n with
  | zero =>
    constructor
    · intro e f m _ _
      rw [Run.eval, Run.eval]
      exact Follows.throw rfl
    · intro s f m _ _ _
      rw [Run.exec, Run.exec]
      exact Follows.throw rfl
  | succ n ih => exact ⟨follows_eval_step hI hR ih.1 ih.2, follows_exec_step hI hR ih.1 ih.2⟩

/-- The statements of a unit. This is the whole of evaluation on a moved machine; all that is left
to its uses is to say what is moved and what is rewritten. -/
theorem follows_unit (hI : I.Stable) (hR : ∀ m, I.state m → R.Fits m.store) (limits : Limits)
    {statements : List Stmt} {f : FrameId} (hc : ∀ s ∈ statements, I.code m f (.stmt s))
    (hf : I.frame m f) (ho : I.owned m f) :
    R.Follows I R.value (Run.unit limits statements f)
      (Run.unit limits (Stmt.recastAll R.toRecast statements) (R.frame f)) m := by
  obtain ⟨-, hkx⟩ := hI.keeps limits.rounds limits.nesting
  obtain ⟨-, hx⟩ := follows_eval_exec hI hR limits.rounds limits.nesting
  exact Follows.bind (hkx.inOrder hI hc hf ho) (hx.inOrder hI hc hf ho) fun fl _ _ _ =>
    Follows.pure (R.value_flow fl)

end Treewalk.Relocation
