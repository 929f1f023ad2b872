import Treewalk.Eval.Basic

/-!
# Equations of actions

An action either ends with a result or stops, and both times it leaves a machine behind. An action
made of two does what the first does, and then what the second does if the first has a result. These
are the equations for that, read in both directions, and those for the shapes that evaluation is
made of.

## Main definitions

* `Run.after`, the machine that an action leaves behind, whatever its outcome

## Main results

* `Run.bind_of_ok`, `Run.bind_of_error`, and `Run.exists_of_bind_ok`, `Run.or_of_bind_error` for the
  other direction
* `Run.exists_of_each_ok`, `Run.exists_of_each_error`, `Run.inOrder_append`,
  `Run.exists_of_inOrder_error`: lists of actions

## Implementation notes

The equations come in two directions because proofs do. To compute what a run does one goes forward,
from the outcome of the first action to that of both. To find out how an outcome came about one goes
backward, and then there are two cases for a run that stops and one for a run that does not. The
lemmas backward are stated with existentials rather than as equivalences: they are used by `obtain`
and nowhere by rewriting.

`Run.after` forgets the outcome. Many properties of a run hold of the machine it leaves whether or
not it stopped, and with `after` these have one statement instead of two.
-/

namespace Treewalk

/-- A failure is blamed on a node; nothing else that stops an action is. -/
def Stop.blame (stop : Stop) (mark : Mark) (source : Option String) : Stop :=
  match stop with
  | .failure f => .failure (f.blame mark source)
  | .tooDeep => .tooDeep
  | .endless => .endless

namespace Run

variable {α β : Type} {p : Run α} {f : α → Run β} {m m' : Machine} {stop : Stop}

/-- The machine that an action leaves behind, whatever its outcome. -/
def after (p : Run α) (m : Machine) : Machine :=
  match p m with
  | .ok _ m' => m'
  | .error _ m' => m'

theorem after_of_ok {a : α} (h : p m = .ok a m') : p.after m = m' := by
  rw [after, h]

theorem after_of_error (h : p m = .error stop m') : p.after m = m' := by
  rw [after, h]

theorem after_congr {q : Run α} (h : p m = q m') : p.after m = q.after m' := by
  rw [after, h, after]

/-! ## One action after another -/

theorem bind_of_ok {a : α} (h : p m = .ok a m') : (p >>= f) m = f a m' := by
  change EStateM.bind p f m = _
  rw [EStateM.bind, h]

theorem bind_of_error (h : p m = .error stop m') : (p >>= f) m = .error stop m' := by
  change EStateM.bind p f m = _
  rw [EStateM.bind, h]

/-- An action in two steps that has a result has one for each step. -/
theorem exists_of_bind_ok {b : β} (h : (p >>= f) m = .ok b m') :
    ∃ a m₁, p m = .ok a m₁ ∧ f a m₁ = .ok b m' := by
  cases hp : p m with
  | ok a m₁ => exact ⟨a, m₁, rfl, (bind_of_ok hp).symm.trans h⟩
  | error stop m₁ => cases (bind_of_error hp).symm.trans h

/-- An action in two steps that stops does so in one of them, and if it is the second, the first has
a result. -/
theorem or_of_bind_error (h : (p >>= f) m = .error stop m') :
    p m = .error stop m' ∨ ∃ a m₁, p m = .ok a m₁ ∧ f a m₁ = .error stop m' := by
  cases hp : p m with
  | ok a m₁ => exact .inr ⟨a, m₁, rfl, (bind_of_ok hp).symm.trans h⟩
  | error stop' m₁ =>
    cases (bind_of_error (f := f) hp).symm.trans h
    exact .inl rfl

theorem after_bind_of_ok {a : α} (h : p m = .ok a m') : (p >>= f).after m = (f a).after m' := by
  rw [after, bind_of_ok h, after]

theorem after_bind_of_error (h : p m = .error stop m') : (p >>= f).after m = m' :=
  after_of_error (bind_of_error h)

/-! ## Blame -/

theorem blaming_congr (mark : Mark) (frame : FrameId) {q : Run α} (h : p m = q m') :
    blaming mark frame p m = blaming mark frame q m' := by
  rw [blaming, blaming, h]

theorem blaming_of_ok {a : α} (mark : Mark) (frame : FrameId) (h : p m = .ok a m') :
    blaming mark frame p m = .ok a m' := by
  rw [blaming, h]

theorem after_blaming (mark : Mark) (frame : FrameId) (p : Run α) (m : Machine) :
    (blaming mark frame p).after m = p.after m := by
  unfold after blaming
  rcases p m with _ | ⟨_ | _ | _, _⟩ <;> rfl

theorem after_catchDepth (cause : Fault) (p : Run α) (m : Machine) :
    (catchDepth cause p).after m = p.after m := by
  unfold after catchDepth
  rcases p m with _ | ⟨_ | _ | _, _⟩ <;> rfl

/-- What was blamed on a node. -/
theorem exists_of_blaming_error {mark : Mark} {frame : FrameId}
    (h : blaming mark frame p m = .error stop m') :
    ∃ stop₀, p m = .error stop₀ m' ∧ stop = stop₀.blame mark (m'.store.source? frame) := by
  rw [blaming] at h
  rcases hp : p m with _ | ⟨_ | _ | _, _⟩ <;> rw [hp] at h <;> cases h
  · exact ⟨_, rfl, rfl⟩
  · exact ⟨_, rfl, rfl⟩
  · exact ⟨_, rfl, rfl⟩

/-- What stops a call stopped it before, or else the nesting went too far. -/
theorem or_of_catchDepth_error {cause : Fault} (h : catchDepth cause p m = .error stop m') :
    p m = .error stop m' ∨ stop = .failure (.ofFault cause) := by
  rw [catchDepth] at h
  rcases hp : p m with _ | ⟨_ | _ | _, _⟩ <;> rw [hp] at h <;> cases h
  · exact .inl rfl
  · exact .inr rfl
  · exact .inl rfl

/-! ## Lists of actions -/

theorem exists_of_each_ok {action : α → Run β} {a : α} {rest : List α} {bs : List β}
    (h : each action (a :: rest) m = .ok bs m') :
    ∃ b m₁ bs', action a m = .ok b m₁ ∧ each action rest m₁ = .ok bs' m' ∧ bs = b :: bs' := by
  obtain ⟨b, m₁, hb, h⟩ := exists_of_bind_ok h
  obtain ⟨bs', m₂, hbs, h⟩ := exists_of_bind_ok h
  cases h
  exact ⟨b, m₁, bs', hb, hbs, rfl⟩

/-- Where a list of actions stops, the actions before have results. With it, what is known of one
item can be used of the item at which a list of them stops. -/
theorem exists_of_each_error {action : α → Run β} {as : List α}
    (h : each action as m = .error stop m') :
    ∃ before a rest bs m₁, as = before ++ a :: rest ∧ each action before m = .ok bs m₁ ∧
      action a m₁ = .error stop m' := by
  induction as generalizing m with
  | nil => cases h
  | cons a rest ih =>
    rcases or_of_bind_error h with ha | ⟨b, m₁, hb, h⟩
    · exact ⟨[], a, rest, [], m, rfl, rfl, ha⟩
    · rcases or_of_bind_error h with hrest | ⟨bs, m₂, -, h⟩
      · obtain ⟨before, a', rest', bs, m₂, rfl, hbefore, ha'⟩ := ih hrest
        refine ⟨a :: before, a', rest', b :: bs, m₂, rfl, ?_, ha'⟩
        exact (bind_of_ok hb).trans (bind_of_ok hbefore)
      · cases h

/-- Statements that run out hand on to those behind them. A list of statements can be cut anywhere,
as long as those before the cut run out. -/
theorem inOrder_append {action : α → Run Flow} {as : List α}
    (h : inOrder action as m = .ok .next m') (bs : List α) :
    inOrder action (as ++ bs) m = inOrder action bs m' := by
  induction as generalizing m with
  | nil =>
    obtain ⟨-, rfl⟩ := EStateM.Result.ok.inj h
    rfl
  | cons a rest ih =>
    obtain ⟨flow, m₁, ha, h⟩ := exists_of_bind_ok h
    refine (bind_of_ok ha).trans ?_
    cases flow with
    | give v => cases h
    | next => exact ih h

/-- Where statements stop, those before have run out. -/
theorem exists_of_inOrder_error {action : α → Run Flow} {as : List α}
    (h : inOrder action as m = .error stop m') :
    ∃ before a rest m₁, as = before ++ a :: rest ∧ inOrder action before m = .ok .next m₁ ∧
      action a m₁ = .error stop m' := by
  induction as generalizing m with
  | nil => cases h
  | cons a rest ih =>
    rcases or_of_bind_error h with ha | ⟨flow, m₁, hb, h⟩
    · exact ⟨[], a, rest, m, rfl, rfl, ha⟩
    · cases flow with
      | give v => cases h
      | next =>
        obtain ⟨before, a', rest', m₂, rfl, hbefore, ha'⟩ := ih h
        exact ⟨a :: before, a', rest', m₂, rfl, (bind_of_ok hb).trans hbefore, ha'⟩

end Run

end Treewalk
