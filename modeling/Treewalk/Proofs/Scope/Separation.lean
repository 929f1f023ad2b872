import Treewalk.Proofs.Eval.Functions
import Treewalk.Proofs.Scope.Store
import Mathlib.Logic.Relation

/-!
# Separate instances

Functions share frames, so whoever holds one function may change what another sees. What cannot be
reached cannot be changed: from the frame that code runs in, one gets to the frames around it and to
the frames that functions bound there have captured, and so on. Frames that are made on the way are
reached too, and functions go from one frame to another while code runs, but nothing brings an old
frame into reach that was out of it. So whatever is out of reach stays as it is, and stays out of
reach.

Two activations of a function are an instance of this. Each has a frame of its own inside the frame
that the function captured, which refers to neither; only what reaches the frame of one can change
it.

## What is deliberately absent

Nothing is assumed of the machine. Frames may be each other's parents and functions may capture
frames that do not exist; what cannot be reached is left alone all the same. Nor is anything said
about frames that can be reached. They may change or not, and which of them do depends on the code.

## Why it is not enough to say that frames do not change

That a frame stays as it is would be true of the run in question, but of no use for the next one: if
code could bring a frame into reach, what runs afterwards could change it. So the statement has two
halves, and the second is what allows to apply it again and again.

## Main definitions

* `Store.Refers`, `Store.Reaches`
* `Run.Spares`, an action that leaves alone what is out of reach

## Main results

* `Run.separation`: statements, expressions and calls leave alone what is out of reach

## Implementation notes

Reaching a frame is a property of the whole store, and a step that binds a function changes what can
be reached in places far from the frame that it binds it in. Following this directly would mean to
ask at every step which new ways there are. Instead the set of frames that are reached at the start
is fixed once, together with all frames made later. No reference leads out of it at the start, and
every operation keeps it closed, since the values that code gets hold of have captured frames in the
set. Being closed is local: it is checked at the one frame that has changed.
-/

namespace Treewalk

namespace Store

/-- A frame refers to its parent, and to the frames that functions bound in it have captured. -/
inductive Refers (s : Store) (g : FrameId) : FrameId → Prop where
  | parent {p : FrameId} (h : s.parent? g = some p) : Refers s g p
  | captured {x : String} {c : Closure} (h : (x, .closure c) ∈ s.vars g) : Refers s g c.frame

/-- A frame is reached from another by following references. -/
abbrev Reaches (s : Store) : FrameId → FrameId → Prop :=
  Relation.ReflTransGen s.Refers

variable {s : Store} {f g h : FrameId}

/-- A frame that does not exist refers to nothing. -/
theorem Refers.lt_next (hr : s.Refers g h) : g < s.next := by
  cases hr with
  | parent hp => exact lt_next_of_parent? hp
  | captured hc =>
    refine Nat.lt_of_not_le fun hle => ?_
    rw [vars, frames_of_le hle] at hc
    cases hc

/-- A set of frames from which no reference leads out. -/
def Closed (s : Store) (live : FrameId → Prop) : Prop :=
  ∀ ⦃g h : FrameId⦄, live g → s.Refers g h → live h

theorem Closed.reaches {live : FrameId → Prop} (hc : s.Closed live) (hf : live f)
    (hr : s.Reaches f g) : live g := by
  induction hr with
  | refl => exact hf
  | tail _ href ih => exact hc ih href

theorem Closed.chainFrom {live : FrameId → Prop} (hc : s.Closed live) {n : Nat} (hf : live f)
    (hg : g ∈ s.chainFrom n f) : live g := by
  induction n generalizing f with
  | zero => cases hg
  | succ n ih =>
    rw [Store.chainFrom] at hg
    cases hp : s.parent? f with
    | none =>
      rw [hp] at hg
      rw [List.mem_singleton.mp hg]
      exact hf
    | some p =>
      rw [hp] at hg
      rcases List.mem_cons.mp hg with rfl | hg
      · exact hf
      · exact ih (hc hf (.parent hp)) hg

/-- The frame that a name is found in is reached. -/
theorem Closed.owner? {live : FrameId → Prop} (hc : s.Closed live) {x : String} (hf : live f)
    (hg : s.owner? f x = some g) : live g :=
  hc.chainFrom hf (List.mem_of_find?_eq_some hg)

end Store

/-- The value, if it is a function, has captured a frame that is in the set. -/
def Value.CapturesIn (live : FrameId → Prop) (v : Value) : Prop :=
  ∀ c, v = .closure c → live c.frame

namespace Store

variable {s : Store} {f g h : FrameId} {live : FrameId → Prop}

theorem Closed.get? (hc : s.Closed live) (hf : live f) {x : String} {v : Value}
    (hv : s.get? f x = some v) : v.CapturesIn live := by
  rintro c rfl
  obtain ⟨g, hg, hlookup⟩ := Option.bind_eq_some_iff.mp hv
  exact hc (hc.owner? hf hg) (.captured (mem_vars_of_lookup hlookup))

/-- A binding adds no reference but to what its value has captured. -/
theorem Closed.define (hc : s.Closed live) {v : Value} (hv : v.CapturesIn live) (f : FrameId)
    (x : String) : (s.define f x v).Closed live := by
  intro g h hg hr
  cases hr with
  | parent hp =>
    rw [parent?_define] at hp
    exact hc hg (.parent hp)
  | captured hm =>
    rw [vars_define] at hm
    split at hm
    · rcases Bindings.mem_put hm with hnew | hm
      · exact hv _ (Prod.mk.inj hnew).2.symm
      · exact hc hg (.captured hm)
    · exact hc hg (.captured hm)

/-- A new frame refers to its parent and to what it starts with. -/
theorem Closed.addChild (hc : s.Closed live) {p : FrameId} (hp : live p) {vars : Bindings}
    (hv : ∀ entry ∈ vars, entry.2.CapturesIn live) (source : Option String) :
    (s.addChild p source vars).Closed live := by
  intro g h hg hr
  cases hr with
  | parent hpar =>
    rw [parent?_addChild] at hpar
    split at hpar
    · rwa [← Option.some.inj hpar]
    · exact hc hg (.parent hpar)
  | captured hm =>
    rw [vars_addChild] at hm
    split at hm
    · exact hv _ hm _ rfl
    · exact hc hg (.captured hm)

end Store

/-! ## Evaluation -/

/-- Of the frames of a store those out of a set are as they are in the store. Whatever else there is
can be told from them: no reference leads from the set, or from a frame made later, to one of
them. -/
def sparing (s : Store) (live : FrameId → Prop) : Invariant where
  state m := s.next ≤ m.store.next ∧
    (∀ g < s.next, ¬ live g → m.store.frames[g]? = s.frames[g]?) ∧
    m.store.Closed fun g => live g ∨ s.next ≤ g
  grows _ _ := True
  value _ v := v.CapturesIn fun g => live g ∨ s.next ≤ g
  frame _ f := live f ∨ s.next ≤ f
  owned _ f := live f ∨ s.next ≤ f
  code _ _ _ := True
  fault _ := True

variable {s : Store} {live : FrameId → Prop}

/-- A binding in a frame that is not to be spared. -/
theorem sparing_define {m : Machine} {f : FrameId} {x : String} {v : Value}
    (hm : (sparing s live).state m) (hf : (sparing s live).frame m f)
    (hv : (sparing s live).value m v) :
    (sparing s live).state { m with store := m.store.define f x v } := by
  obtain ⟨hnext, hsame, hclosed⟩ := hm
  refine ⟨?_, fun g hg hlive => ?_, hclosed.define hv f x⟩
  · rw [Store.next_define]
    exact hnext
  · refine (Store.frames_define_of_ne ?_).trans (hsame g hg hlive)
    rintro rfl
    exact hf.elim hlive (Nat.not_le_of_lt hg)

theorem sparing_ofFunctions (s : Store) (live : FrameId → Prop) : (sparing s live).OfFunctions where
  plain _ _ hv c hc := by rw [hc] at hv; cases hv
  fault _ := trivial
  refl _ := trivial
  trans _ _ := trivial
  value_grows _ hv := hv
  frame_grows _ hf := hf
  owned_grows _ hf := hf
  part _ _ := trivial
  lookup hm hf hv := hm.2.2.get? hf hv
  assign hm hf hg hv := ⟨sparing_define hm (hm.2.2.owner? hf hg) hv, trivial⟩
  declare _ hm hf _ hv := ⟨sparing_define hm hf hv, trivial⟩
  enter hm hf hv := by
    obtain ⟨hnext, hsame, hclosed⟩ := hm
    refine ⟨⟨⟨?_, fun g hg hlive => ?_, hclosed.addChild hf hv none⟩, trivial⟩, .inr hnext,
      .inr hnext⟩
    · rw [Store.next_addChild]
      exact Nat.le_succ_of_le hnext
    · exact (Store.frames_addChild_of_lt (Nat.lt_of_lt_of_le hg hnext)).trans (hsame g hg hlive)
  close hm hf _ _ := by
    refine ⟨⟨hm, trivial⟩, ?_⟩
    rintro c hc
    cases hc
    exact hf
  called hv := ⟨trivial, hv _ rfl⟩
  outside hm hs _ := by
    refine ⟨?_, trivial⟩
    change _ ≤ _ ∧ _ ∧ Store.Closed _ _
    rw [hs]
    exact hm

namespace Run

/-- An action leaves alone every frame that cannot be reached from the frames given, and leaves it
out of their reach. -/
def Spares {α : Type} (p : Run α) (m : Machine) (given : FrameId → Prop) : Prop :=
  ∀ g < m.store.next, (∀ f, given f → ¬ m.store.Reaches f g) →
    (p.after m).store.frames[g]? = m.store.frames[g]? ∧
      ∀ f, given f → ¬ (p.after m).store.Reaches f g

/-- The frames that can be reached are a set that no reference leads out of. -/
theorem sparing_reached (m : Machine) (given : FrameId → Prop) :
    (sparing m.store fun g => ∃ f, given f ∧ m.store.Reaches f g).state m := by
  refine ⟨Nat.le_refl _, fun _ _ _ => rfl, fun g h hg hr => ?_⟩
  rcases hg with ⟨f, hf, hreach⟩ | hle
  · exact .inl ⟨f, hf, hreach.tail hr⟩
  · exact absurd hr.lt_next (Nat.not_lt_of_le hle)

theorem Spares.of_keeps {α : Type} {p : Run α} {m : Machine} {given : FrameId → Prop}
    {Q : α → Machine → Prop}
    (h : (sparing m.store fun g => ∃ f, given f ∧ m.store.Reaches f g).Keeps p m Q) :
    p.Spares m given := by
  intro g hg hout
  obtain ⟨-, hsame, hclosed⟩ := (h.next_after (sparing_reached m given)).state
  have hlive : ¬ ∃ f, given f ∧ m.store.Reaches f g := fun ⟨f, hf, hr⟩ => hout f hf hr
  refine ⟨hsame g hg hlive, fun f hf hr => ?_⟩
  rcases hclosed.reaches (.inl ⟨f, hf, .refl⟩) hr with hreach | hle
  · exact hlive hreach
  · exact Nat.not_le_of_lt hg hle

/-- **Separate instances do not interfere.** Run any statement or expression in any frame of any
machine, or call any value with any arguments. Whatever the outcome, every frame that existed and
that cannot be reached, from the frame that the code runs in or from the frames that the function
and its arguments have captured, is exactly as it was, and still cannot be reached. -/
theorem separation (limits : Limits) (m : Machine) :
    (∀ (s : Stmt) (f : FrameId), (execIn limits s f).Spares m (· = f)) ∧
    (∀ (e : Expr) (f : FrameId), (evalIn limits e f).Spares m (· = f)) ∧
    ∀ (callee : Value) (args : List Value), (applyIn limits callee args).Spares m
      fun f => ∃ c : Closure, c.frame = f ∧ .closure c ∈ callee :: args := by
  have hstable (live : FrameId → Prop) := (sparing_ofFunctions m.store live).stable
  refine ⟨fun s f => ?_, fun e f => ?_, fun callee args => ?_⟩
  · have hf : ∃ f', f' = f ∧ m.store.Reaches f' f := ⟨f, rfl, .refl⟩
    exact .of_keeps ((hstable _).exec_keeps limits trivial (.inl hf) (.inl (.inl hf)))
  · exact .of_keeps ((hstable _).eval_keeps limits trivial (.inl ⟨f, rfl, .refl⟩))
  · refine .of_keeps (Invariant.apply_keeps (hstable _)
      ((hstable _).keeps limits.rounds limits.nesting).2 ?_ fun v hv => ?_)
    · rintro c rfl
      exact .inl ⟨c.frame, ⟨c, rfl, List.mem_cons_self⟩, .refl⟩
    · rintro c rfl
      exact .inl ⟨c.frame, ⟨c, rfl, List.mem_cons_of_mem _ hv⟩, .refl⟩

/-- Two frames of one function side by side. -/
def twins : Store :=
  ⟨#[⟨none, none, []⟩, ⟨some 0, none, [("n", .int 1)]⟩, ⟨some 0, none, [("n", .int 1)]⟩]⟩

theorem not_reaches_twins : ¬ twins.Reaches 1 2 := by
  have hclosed : twins.Closed (· ≠ 2) := by
    intro g h _ hr
    have hcases (k : Nat) (hk : k < 3) : k = 0 ∨ k = 1 ∨ k = 2 := by omega
    rcases hcases g hr.lt_next with rfl | rfl | rfl <;> cases hr with
    | parent hp => cases hp <;> decide
    | captured hc => simp [twins, Store.vars] at hc
  exact fun hr => hclosed.reaches (by decide) hr rfl

/-- Assigning to `n` in one of two frames of a function leaves the other alone. -/
theorem separation_twins :
    ((execIn ⟨9, 9⟩ (.assign .absent "n" (.int .absent 2)) 1).after
      ⟨twins, 0, [], ""⟩).store.frames[2]? = twins.frames[2]? :=
  ((separation ⟨9, 9⟩ ⟨twins, 0, [], ""⟩).1 _ 1 2 (by decide)
    (by rintro f rfl; exact not_reaches_twins)).1

end Run

end Treewalk
