import Treewalk.Scope

/-!
# What changes in a store

The store is an array of frames that grows at its end, and every operation touches one frame. These
are the equations that say which bindings an operation leaves alone, so that nothing above has to
look into the array.

## What is deliberately absent

That looking for a name comes to an end is not said here, for it goes through several frames and
needs an order on them. These are facts about one operation and one frame, and they hold for every
array of frames, also for one whose frames are each other's parents.

## Main definitions

* `Store.Holds`, a property of all values that are bound

## Main results

* `Store.binds_define`, `Store.vars_addChild`, `Store.vars_rename`: what an operation does to the
  bindings of a frame
* `Store.parent?_define`, `Store.parent?_addChild`: and to its parent
* `Store.Holds.define`, `Store.Holds.addChild`: a property of bound values is kept

## Implementation notes

Equations are stated about `vars`, `binds` and `parent?`, which have an answer for every number, and
not about the frames themselves. So none of them asks for a frame to exist, except where it makes a
difference: a binding that is put into a frame that does not exist is lost, and `vars_define` says
so.

An invariant about values is nearly always that all bound values have some property that does not
mention the store. `Holds` is this form, with a lemma for each operation, so that an invariant of
the kind is kept by every operation as soon as it is stated. Where the property does mention the
store, as that a function captures a frame of it, `imp` takes it to the later store.
-/

namespace Treewalk

namespace Bindings

theorem mem_put {name : String} {v : Value} {vars : Bindings} {entry : String × Value}
    (he : entry ∈ vars.put name v) : entry = (name, v) ∨ entry ∈ vars := by
  induction vars with
  | nil => exact .inl (List.mem_singleton.mp he)
  | cons first rest ih =>
    rw [Bindings.put] at he
    split at he
    · rcases List.mem_cons.mp he with rfl | he
      · exact .inl rfl
      · exact .inr (List.mem_cons_of_mem _ he)
    · rcases List.mem_cons.mp he with rfl | he
      · exact .inr List.mem_cons_self
      · exact (ih he).imp_right (List.mem_cons_of_mem _)

/-- Whatever is bound by putting in entries was there or is one of them. -/
theorem mem_foldl_put {entries : List (String × Value)} {vars : Bindings} {entry : String × Value}
    (he : entry ∈ entries.foldl (fun vars e => vars.put e.1 e.2) vars) :
    entry ∈ entries ∨ entry ∈ vars := by
  induction entries generalizing vars with
  | nil => exact .inr he
  | cons first rest ih =>
    rcases ih he with hr | hp
    · exact .inl (List.mem_cons_of_mem _ hr)
    · rcases mem_put hp with rfl | hv
      · exact .inl List.mem_cons_self
      · exact .inr hv

end Bindings

namespace Store

variable {s : Store} {f g : FrameId} {x y : String} {v : Value}

theorem frames_define_of_ne (h : f ≠ g) : (s.define f x v).frames[g]? = s.frames[g]? := by
  rw [define, Array.getElem?_modify, if_neg h]

theorem frames_addChild_of_lt {p : FrameId} {source : Option String} {vars : Bindings}
    (h : g < s.next) : (s.addChild p source vars).frames[g]? = s.frames[g]? := by
  rw [addChild, add, Array.getElem?_push]
  exact if_neg (Nat.ne_of_lt h)

theorem vars_define (s : Store) (f g : FrameId) (x : String) (v : Value) :
    (s.define f x v).vars g =
      if f = g ∧ g < s.next then (s.vars g).put x v else s.vars g := by
  unfold vars define next
  simp only [Array.getElem?_modify]
  by_cases hfg : f = g
  · subst hfg
    by_cases hlt : f < s.frames.size
    · simp [hlt, Frame.define]
    · simp [hlt]
  · simp [hfg]

theorem vars_define_of_ne (h : f ≠ g) : (s.define f x v).vars g = s.vars g := by
  rw [vars_define, if_neg fun hc => h hc.1]

theorem vars_addChild (s : Store) (p g : FrameId) (source : Option String) (vars : Bindings) :
    (s.addChild p source vars).vars g = if g = s.next then vars else s.vars g := by
  rw [Store.vars, addChild, add, next]
  simp only [Array.getElem?_push]
  split <;> rfl

theorem vars_rename (s : Store) (f g : FrameId) (name : String) :
    (s.rename f name).vars g = s.vars g := by
  rw [vars, rename, vars, Array.getElem?_modify]
  split
  · cases s.frames[g]? <;> rfl
  · rfl

theorem binds_define (s : Store) (f g : FrameId) (x y : String) (v : Value) :
    (s.define f x v).binds g y = (s.binds g y || decide (f = g ∧ g < s.next ∧ y = x)) := by
  unfold binds
  rw [vars_define]
  by_cases h : f = g ∧ g < s.next
  · rw [if_pos h, Bindings.lookup_put]
    by_cases hy : y = x
    · simp [h, hy]
    · simp [hy]
  · have h' : ¬(f = g ∧ g < s.next ∧ y = x) := fun hc => h ⟨hc.1, hc.2.1⟩
    simp [h, h']

theorem binds_define_of_ne (h : f ≠ g) : (s.define f x v).binds g y = s.binds g y := by
  rw [binds, vars_define_of_ne h, binds]

/-- Where a name is bound already, binding it again binds nothing new. -/
theorem binds_define_of_binds (h : s.binds f x = true) :
    (s.define f x v).binds g y = s.binds g y := by
  rw [binds_define]
  by_cases hc : f = g ∧ g < s.next ∧ y = x
  · obtain ⟨rfl, -, rfl⟩ := hc
    simp [h]
  · simp [hc]

theorem binds_addChild_of_lt {p : FrameId} {source : Option String} {vars : Bindings}
    (h : g < s.next) : (s.addChild p source vars).binds g y = s.binds g y := by
  rw [binds, vars_addChild, if_neg (Nat.ne_of_lt h), binds]

theorem parent?_modify (s : Store) (f g : FrameId) {change : Frame → Frame}
    (h : ∀ frame, (change frame).parent = frame.parent) :
    (Store.mk (s.frames.modify f change)).parent? g = s.parent? g := by
  unfold parent?
  simp only [Array.getElem?_modify]
  split
  · cases s.frames[g]? with
    | none => rfl
    | some frame => exact h frame
  · rfl

@[simp] theorem parent?_define (s : Store) (f g : FrameId) (x : String) (v : Value) :
    (s.define f x v).parent? g = s.parent? g :=
  parent?_modify s f g fun _ => rfl

@[simp] theorem parent?_rename (s : Store) (f g : FrameId) (name : String) :
    (s.rename f name).parent? g = s.parent? g :=
  parent?_modify s f g fun _ => rfl

theorem parent?_addChild (s : Store) (p g : FrameId) (source : Option String) (vars : Bindings) :
    (s.addChild p source vars).parent? g = if g = s.next then some p else s.parent? g := by
  rw [parent?, addChild, add, next]
  simp only [Array.getElem?_push]
  split <;> rfl

@[simp] theorem source?_define (s : Store) (f g : FrameId) (x : String) (v : Value) :
    (s.define f x v).source? g = s.source? g := by
  rw [source?, define, Array.getElem?_modify, source?]
  split
  · cases s.frames[g]? <;> rfl
  · rfl

theorem source?_addChild (s : Store) (p g : FrameId) (source : Option String) (vars : Bindings) :
    (s.addChild p source vars).source? g =
      if g = s.next then source.or (s.source? p) else s.source? g := by
  rw [source?, addChild, add, next]
  simp only [Array.getElem?_push]
  split <;> rfl

theorem source?_rename_of_ne (h : f ≠ g) (name : String) :
    (s.rename f name).source? g = s.source? g := by
  rw [source?, rename, Array.getElem?_modify, if_neg h, source?]

theorem source?_rename (h : f < s.next) (name : String) :
    (s.rename f name).source? f = some name := by
  rw [source?, rename, Array.getElem?_modify, if_pos rfl, Array.getElem?_eq_getElem h]
  rfl

@[simp] theorem next_rename (s : Store) (f : FrameId) (name : String) :
    (s.rename f name).next = s.next := by
  simp [rename, next]

/-- A frame that does not exist has no parent and binds nothing. -/
theorem frames_of_le (h : s.next ≤ g) : s.frames[g]? = none :=
  Array.getElem?_eq_none h

theorem parent?_of_le (h : s.next ≤ g) : s.parent? g = none := by
  rw [parent?, frames_of_le h]
  rfl

theorem lt_next_of_parent? {p : FrameId} (h : s.parent? g = some p) : g < s.next := by
  refine Nat.lt_of_not_le fun hle => ?_
  rw [parent?_of_le hle] at h
  cases h

theorem lt_next_of_binds (h : s.binds g x = true) : g < s.next := by
  refine Nat.lt_of_not_le fun hle => ?_
  rw [binds, vars, frames_of_le hle] at h
  cases h

theorem mem_vars_of_lookup (h : (s.vars g).lookup x = some v) : (x, v) ∈ s.vars g := by
  obtain ⟨before, after, hl, -⟩ := List.lookup_eq_some_iff.mp h
  rw [hl]
  exact List.mem_append_right _ List.mem_cons_self

/-- The frame that resolves a name binds it. -/
theorem binds_of_owner? (h : s.owner? f x = some g) : s.binds g x = true :=
  List.find?_some (p := fun g => s.binds g x) h

/-- What a name stands for is bound in some frame. -/
theorem exists_of_get? (h : s.get? f x = some v) : ∃ g, (s.vars g).lookup x = some v := by
  rw [get?] at h
  obtain ⟨g, -, hv⟩ := Option.bind_eq_some_iff.mp h
  exact ⟨g, hv⟩

/-! ## Values that are bound -/

/-- All values that are bound have a property. -/
def Holds (s : Store) (P : Value → Prop) : Prop :=
  ∀ g, ∀ entry ∈ s.vars g, P entry.2

namespace Holds

variable {P Q : Value → Prop}

theorem imp (hs : s.Holds P) (h : ∀ v, P v → Q v) : s.Holds Q :=
  fun g entry he => h _ (hs g entry he)

theorem define (hs : s.Holds P) (hv : P v) (f : FrameId) (x : String) :
    (s.define f x v).Holds P := by
  intro g entry he
  rw [vars_define] at he
  split at he
  · rcases Bindings.mem_put he with rfl | he
    · exact hv
    · exact hs g entry he
  · exact hs g entry he

theorem addChild (hs : s.Holds P) {vars : Bindings} (hv : ∀ entry ∈ vars, P entry.2) (p : FrameId)
    (source : Option String) : (s.addChild p source vars).Holds P := by
  intro g entry he
  rw [vars_addChild] at he
  split at he
  · exact hv entry he
  · exact hs g entry he

theorem rename (hs : s.Holds P) (f : FrameId) (name : String) : (s.rename f name).Holds P := by
  intro g entry he
  rw [vars_rename] at he
  exact hs g entry he

theorem get? (hs : s.Holds P) (h : s.get? f x = some v) : P v := by
  obtain ⟨g, hg⟩ := exists_of_get? h
  exact hs g (x, v) (mem_vars_of_lookup hg)

end Holds

end Store

end Treewalk
