import Treewalk.Proofs.Scope.Growth
import Treewalk.Session

/-!
# Names of sources

A frame takes the name of its source from the frame around it when it is made, and keeps it. The
root frame is the exception: every unit gives it a name of its own. So the name that a frame has
goes back to the outermost frame around it that is not the root, and is that of the unit which made
that frame; and in the root frame it is that of the unit which is running. Code gets into a frame
by way of the frames that its functions capture, so it never runs in a frame with the name of an
earlier unit.

## Why frames and not functions

A function does not know which unit it comes from. It knows the frame that it has captured, and when
it is called, the name of its source is read off there. For a function that was made inside a block
or a call that is good enough, because that frame was made by the same unit or by one that called
it. The root frame belongs to all units in turn, and this is where the two come apart.

## Main definitions

* `Store.Dated`, the unit that a frame inside the root goes back to
* `Units`, the names of units and the code that they have
* `Store.Named`, a frame with the name of a unit
* `titled`, the invariant that code runs in frames named for its own unit or for a later one

## Main results

* `titled_ofFunctions`: evaluation keeps it so

## Implementation notes

The invariant has to say for a piece of code which unit it is from, and for a frame which unit its
name is from, and to relate the two. It relates them by order only: code runs in frames with the
name of its own unit or of a later one. More is not true, as `failure_titled_by_caller` shows, and
less would not rule out the name of a unit that ended before the code was read.

Units are numbered, and `made` says which of them made a frame. It is a parameter because while a
unit is running it is not known yet which frames it will have made; the unit counts as the maker of
all frames from the first that was free when it started.
-/

namespace Treewalk

open Session (root)

/-- A frame inside the root goes back to a unit: the one that made it, if the root is the frame
around it, and else the one that the frame around it goes back to. -/
inductive Store.Dated (made : Nat → FrameId → Prop) (s : Store) : FrameId → Nat → Prop where
  | outer {g : FrameId} {k : Nat} (hg : g ≠ root) (hp : s.parent? g = some root)
    (hk : made k g) : Dated made s g k
  | inner {g p : FrameId} {k : Nat} (hg : g ≠ root) (hp : s.parent? g = some p)
    (h : Dated made s p k) : Dated made s g k

namespace Store.Dated

variable {made made' : Nat → FrameId → Prop} {s s' : Store} {f : FrameId} {k : Nat}

theorem ne_root (h : s.Dated made f k) : f ≠ root := by
  cases h <;> assumption

theorem lt_next (h : s.Dated made f k) : f < s.next := by
  cases h with
  | outer _ hp => exact lt_next_of_parent? hp
  | inner _ hp => exact lt_next_of_parent? hp

theorem imp (h : s.Dated made f k) (hm : ∀ k, ∀ g < s.next, made k g → made' k g) :
    s.Dated made' f k := by
  induction h with
  | outer hg hp hk => exact .outer hg hp (hm _ _ (lt_next_of_parent? hp) hk)
  | inner hg hp _ ih => exact .inner hg hp ih

/-- What a frame goes back to made some frame. -/
theorem exists_made (h : s.Dated made f k) : ∃ g, made k g := by
  induction h with
  | outer _ _ hk => exact ⟨_, hk⟩
  | inner _ _ _ ih => exact ih

/-- No parent ever changes. -/
theorem later (h : s.Dated made f k) (hs : s.Extends s') : s'.Dated made f k := by
  induction h with
  | outer hg hp hk => exact .outer hg ((hs.parent _ (lt_next_of_parent? hp)).trans hp) hk
  | inner hg hp _ ih => exact .inner hg ((hs.parent _ (lt_next_of_parent? hp)).trans hp) ih

end Store.Dated

/-- What units are called and the code that they have, by their number. -/
structure Units where
  title : Nat → Option String
  code : Nat → Code → Prop
  part {i : Nat} {c d : Code} (hc : code i c) (hd : d ∈ c.parts) : code i d

variable {us : Units} {made : Nat → FrameId → Prop} {j : Nat}

namespace Store

/-- While a unit is running, a frame has the name of the unit that it goes back to; the root has
that of the unit that is running. -/
structure Named (us : Units) (made : Nat → FrameId → Prop) (j : Nat) (s : Store) (f : FrameId)
    (k : Nat) : Prop where
  lt_next : f < s.next
  date : f = root ∧ k = j ∨ s.Dated made f k
  source : s.source? f = us.title k

/-- Code of a unit may run in a frame with its name or with that of a later unit. -/
def Hosts (us : Units) (made : Nat → FrameId → Prop) (j : Nat) (s : Store) (f : FrameId)
    (c : Code) : Prop :=
  ∃ i k, i ≤ k ∧ us.code i c ∧ s.Named us made j f k

variable {s s' : Store} {f : FrameId} {k : Nat} {c : Code}

theorem Named.later (h : s.Named us made j f k) (hs : s.Continues s') :
    s'.Named us made j f k :=
  ⟨Nat.lt_of_lt_of_le h.lt_next hs.next, h.date.imp_right fun hd => hd.later hs.toExtends,
    (hs.source f h.lt_next).trans h.source⟩

theorem Hosts.later (h : s.Hosts us made j f c) (hs : s.Continues s') :
    s'.Hosts us made j f c := by
  obtain ⟨i, k, hik, hc, hf⟩ := h
  exact ⟨i, k, hik, hc, hf.later hs⟩

/-- A new frame goes back to the same unit as the frame around it. -/
theorem Named.addChild (h : s.Named us made j f k) (hm : made j s.next) (vars : Bindings) :
    (s.addChild f none vars).Named us made j s.next k := by
  have hlt : s.next < (s.addChild f none vars).next := by simp
  have hparent : (s.addChild f none vars).parent? s.next = some f := by
    rw [parent?_addChild, if_pos rfl]
  have hsource : (s.addChild f none vars).source? s.next = us.title k := by
    rw [source?_addChild, if_pos rfl, Option.none_or, h.source]
  have hne : s.next ≠ root := Nat.ne_of_gt (Nat.zero_lt_of_lt h.lt_next)
  refine ⟨hlt, .inr ?_, hsource⟩
  rcases h.date with ⟨rfl, rfl⟩ | hd
  · exact .outer hne hparent hm
  · exact .inner hne hparent (hd.later (s.extends_addChild f none vars))

end Store

/-- The body of the value, if it is a function, may run in the frame that it captures. -/
def Value.Hosted (us : Units) (made : Nat → FrameId → Prop) (j : Nat) (s : Store) (v : Value) :
    Prop :=
  ∀ c, v = .closure c → s.Hosts us made j c.frame (.stmt c.body)

theorem Value.Hosted.later {s s' : Store} {v : Value} (h : v.Hosted us made j s)
    (hs : s.Continues s') : v.Hosted us made j s' :=
  fun c hc => (h c hc).later hs

/-- The store while a unit is running: so many frames were there before, and the root has the name
of the unit. -/
structure Store.Titled (us : Units) (made : Nat → FrameId → Prop) (j : Nat) (first : FrameId)
    (s : Store) : Prop where
  first_le : first ≤ s.next
  root : s.Named us made j Session.root j
  values : s.Holds (Value.Hosted us made j s)

/-- A later store in which the same functions are bound. -/
theorem Store.Titled.later {first : FrameId} {s s' : Store} (h : s.Titled us made j first)
    (hs : s.Continues s') (hv : s'.Holds (Value.Hosted us made j s)) :
    s'.Titled us made j first :=
  ⟨Nat.le_trans h.first_le hs.next, h.root.later hs, hv.imp fun _ hw => hw.later hs⟩

/-- Code runs in frames named for its own unit or for a later one. -/
def titled (us : Units) (made : Nat → FrameId → Prop) (j : Nat) (first : FrameId) : Invariant where
  state m := m.store.Titled us made j first
  grows m m' := m.store.Continues m'.store
  value m v := v.Hosted us made j m.store
  frame _ _ := True
  owned _ _ := True
  code m f c := m.store.Hosts us made j f c
  fault _ := True

theorem titled_ofFunctions {first : FrameId} (hm : ∀ g, first ≤ g → made j g) :
    (titled us made j first).OfFunctions where
  plain _ v hv c hc := by
    rw [hc] at hv
    cases hv
  fault _ := trivial
  refl m := .refl m.store
  trans h h' := h.trans h'
  value_grows h hv := hv.later h
  frame_grows _ _ := trivial
  owned_grows _ _ := trivial
  code_grows h hc := hc.later h
  part := by
    rintro m f c d ⟨i, k, hik, hc, hf⟩ hd
    exact ⟨i, k, hik, us.part hc hd, hf⟩
  lookup hm _ hv := hm.values.get? hv
  assign {m f g name v} hm _ _ hv :=
    have hs := m.store.continues_define g name v
    ⟨hm.later hs (hm.values.define hv g name), hs⟩
  declare {m f v} name hm _ _ hv :=
    have hs := m.store.continues_define f name v
    ⟨hm.later hs (hm.values.define hv f name), hs⟩
  enter {m f vars} hm _ hv :=
    have hs := m.store.continues_addChild f none vars
    ⟨⟨hm.later hs (hm.values.addChild hv f none), hs⟩, trivial, trivial⟩
  inside := by
    -- made by the unit that is running, it goes back to the unit of the frame around it
    rintro m f c vars hstate - ⟨i, k, hik, hc, hf⟩
    exact ⟨i, k, hik, hc, hf.addChild (hm _ hstate.first_le) vars⟩
  close := by
    rintro m f c name params body hstate - ⟨i, k, hik, hc, hf⟩ hp
    refine ⟨⟨hstate, .refl m.store⟩, fun c' hc' => ?_⟩
    cases hc'
    exact ⟨i, k, hik, us.part hc (Code.mem_parts_of_function? hp), hf⟩
  called hv := ⟨hv _ rfl, trivial⟩
  outside {m m'} hm hs _ := by
    refine ⟨?_, ?_⟩
    · change Store.Titled _ _ _ _ _
      rw [hs]
      exact hm
    · change Store.Continues _ _
      rw [hs]
      exact .refl _

end Treewalk
