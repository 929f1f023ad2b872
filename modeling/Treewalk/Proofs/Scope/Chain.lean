import Treewalk.Proofs.Scope.Store

/-!
# Chains of frames

Names are looked for from a frame outwards, parent by parent. Written down as it is done, this need
not come to an end: nothing about an array of frames forbids that two of them are each other's
parent. What makes it end is the age of frames. Where a parent is always older than its child, the
number of a frame bounds the number of steps, and the bound that `Store.chain` has built in is never
reached.

## Why both a chain and a search

`Store.owner?` takes the chain of a frame, as a list, and looks for the first frame on it that binds
a name. That is handy to reason about, and it is not what an environment does, which is to ask one
frame after the other and stop at the first answer. `Finds` is this procedure as a relation. It says
nothing about a bound, so it would not hold of anything where the procedure runs in a circle. That
it holds of something for every frame and name is the statement that looking for a name ends, and
that it holds of one thing only is the statement that the bound does not change the answer.

## Main definitions

* `Store.Ordered`, parents are older than their children
* `Store.Line`, a frame and its parents up to one that has none
* `Store.Finds`, looking for a name from a frame outwards, step by step

## Main results

* `Store.Ordered.line_chain`: the chain of a frame goes up to a frame without a parent
* `Store.Ordered.finds_iff`: looking for a name ends, with what `Store.owner?` says
* `Store.isSome_get?`, `Store.isSome_set?`: reading and assigning succeed where a name is bound
* `Store.get?_of_set?`, `Store.lookup_of_set?`: what an assignment changes

## Implementation notes

The bound of `chain` is one more than the number of the frame that it starts from. That this is
enough is an induction on the bound, which goes down by one at every step while the number of the
frame goes down by one or more. It needs `Ordered` and nothing else of a store; in particular
parents need not exist.

Most of what follows about reading and assigning does not even need that much. Whether `get?` and
`set?` succeed, and what an assignment changes, follows from how they are put together from
`owner?`, whatever `owner?` may be for a store that is out of order.
-/

namespace Treewalk.Store

/-- Parents are older than their children. -/
def Ordered (s : Store) : Prop :=
  ∀ ⦃g p : FrameId⦄, s.parent? g = some p → p < g

/-- A frame, its parent and so on, up to a frame that has none. -/
inductive Line (s : Store) : FrameId → List FrameId → Prop where
  | root {f : FrameId} (h : s.parent? f = none) : Line s f [f]
  | child {f p : FrameId} {gs : List FrameId} (h : s.parent? f = some p) (hp : Line s p gs) :
    Line s f (f :: gs)

/-- Looking for a name, from a frame or from nowhere, ends with a frame or with none. -/
inductive Finds (s : Store) (x : String) : Option FrameId → Option FrameId → Prop where
  | nowhere : Finds s x none none
  | here {g : FrameId} (h : s.binds g x = true) : Finds s x (some g) (some g)
  | outwards {g : FrameId} {owner : Option FrameId} (h : s.binds g x = false)
    (hp : Finds s x (s.parent? g) owner) : Finds s x (some g) owner

variable {s : Store} {f g : FrameId} {x y : String} {v : Value}

/-! ## Chains -/

theorem Ordered.line_chainFrom (h : s.Ordered) {n : Nat} (hn : f < n) :
    s.Line f (s.chainFrom n f) := by
  induction n generalizing f with
  | zero => exact absurd hn (Nat.not_lt_zero f)
  | succ n ih =>
    rw [chainFrom]
    cases hp : s.parent? f with
    | none => exact .root hp
    | some p => exact .child hp (ih (Nat.lt_of_lt_of_le (h hp) (Nat.le_of_lt_succ hn)))

/-- The chain of a frame goes up to a frame without a parent. -/
theorem Ordered.line_chain (h : s.Ordered) (f : FrameId) : s.Line f (s.chain f) :=
  h.line_chainFrom (Nat.lt_succ_self f)

/-- There is one way from a frame up. -/
theorem Line.unique {gs gs' : List FrameId} (h : s.Line f gs) (h' : s.Line f gs') : gs = gs' := by
  induction h generalizing gs' with
  | root hf =>
    cases h' with
    | root => rfl
    | child hp => rw [hf] at hp; cases hp
  | child hp _ ih =>
    cases h' with
    | root hf => rw [hf] at hp; cases hp
    | child hp' hl' =>
      cases hp.symm.trans hp'
      rw [ih hl']

/-- The last frame on the way has no parent. -/
theorem Line.exists_root {gs : List FrameId} (h : s.Line f gs) :
    ∃ r, gs.getLast? = some r ∧ s.parent? r = none := by
  induction h with
  | root hf => exact ⟨_, rfl, hf⟩
  | child _ hp ih =>
    obtain ⟨r, hr, hnone⟩ := ih
    refine ⟨r, ?_, hnone⟩
    rw [List.getLast?_cons, hr]
    rfl

/-- All frames on the way are as old as the first or older. -/
theorem Line.le (h : s.Ordered) {gs : List FrameId} (hl : s.Line f gs) (hg : g ∈ gs) : g ≤ f := by
  induction hl with
  | root => exact Nat.le_of_eq (List.mem_singleton.mp hg)
  | child hp _ ih =>
    rcases List.mem_cons.mp hg with rfl | hg
    · exact Nat.le_refl _
    · exact Nat.le_of_lt (Nat.lt_of_le_of_lt (ih hg) (h hp))

/-! ## Looking for a name -/

/-- The way up to a frame without a parent is the way that is taken in looking for a name. -/
theorem Line.finds {gs : List FrameId} (hl : s.Line f gs) (x : String) :
    s.Finds x (some f) (gs.find? fun g => s.binds g x) := by
  induction hl with
  | @root f hf =>
    cases hb : s.binds f x with
    | true => simpa [hb] using Finds.here hb
    | false =>
      have hnowhere : s.Finds x (s.parent? f) none := by
        rw [hf]
        exact .nowhere
      simpa [hb] using Finds.outwards hb hnowhere
  | @child f p gs hp _ ih =>
    cases hb : s.binds f x with
    | true => simpa [hb] using Finds.here hb
    | false => simpa [hb] using Finds.outwards hb (hp ▸ ih)

/-- Looking for a name has one outcome. -/
theorem Finds.unique {start owner owner' : Option FrameId} (h : s.Finds x start owner)
    (h' : s.Finds x start owner') : owner = owner' := by
  induction h with
  | nowhere => cases h'; rfl
  | here hb =>
    cases h' with
    | here => rfl
    | outwards hb' => rw [hb] at hb'; cases hb'
  | outwards hb _ ih =>
    cases h' with
    | here hb' => rw [hb] at hb'; cases hb'
    | outwards _ hp' => exact ih hp'

/-- Looking for a name ends, with what `Store.owner?` says. The way up the chain is a search, so
there is one with this outcome, and a search has one outcome only. -/
theorem Ordered.finds_iff (h : s.Ordered) (f : FrameId) (x : String) (owner : Option FrameId) :
    s.Finds x (some f) owner ↔ s.owner? f x = owner := by
  have hfinds : s.Finds x (some f) (s.owner? f x) := (h.line_chain f).finds x
  constructor
  · exact fun ho => hfinds.unique ho
  · rintro rfl
    exact hfinds

/-! ## Reading and assigning -/

theorem isSome_owner? :
    (s.owner? f x).isSome = true ↔ ∃ g ∈ s.chain f, s.binds g x = true := by
  rw [owner?, List.find?_isSome]

/-- A name has a value where some frame around binds it. -/
theorem isSome_get? : (s.get? f x).isSome = true ↔ ∃ g ∈ s.chain f, s.binds g x = true := by
  rw [← isSome_owner?, get?]
  cases ho : s.owner? f x with
  | none => rfl
  | some g =>
    have hb : ((s.vars g).lookup x).isSome = true := binds_of_owner? ho
    simpa using hb

/-- A name can be assigned where some frame around binds it. -/
theorem isSome_set? : (s.set? f x v).isSome = true ↔ ∃ g ∈ s.chain f, s.binds g x = true := by
  rw [← isSome_owner?, set?, Option.isSome_map]

theorem chainFrom_define (s : Store) (g : FrameId) (x : String) (v : Value) (n : Nat)
    (f : FrameId) : (s.define g x v).chainFrom n f = s.chainFrom n f := by
  induction n generalizing f with
  | zero => rfl
  | succ n ih =>
    rw [chainFrom, chainFrom, parent?_define]
    cases s.parent? f with
    | none => rfl
    | some p => exact congrArg (f :: ·) (ih p)

/-- Where a name was bound already, its new binding is found in the same frame. -/
theorem owner?_define (hb : s.binds g x = true) :
    (s.define g x v).owner? f y = s.owner? f y := by
  have hbinds : (fun h => (s.define g x v).binds h y) = fun h => s.binds h y := by
    funext h
    exact binds_define_of_binds hb
  rw [owner?, owner?, chain, chain, chainFrom_define, hbinds]

/-- An assignment changes one name in the frame that binds it, and in no other. Frames further out
that bind the same name keep their values. -/
theorem lookup_of_set? {s' : Store} (h : s.set? f x v = some s') (g : FrameId) (y : String) :
    (s'.vars g).lookup y =
      if s.owner? f x = some g ∧ y = x then some v else (s.vars g).lookup y := by
  obtain ⟨owner, ho, rfl⟩ := Option.map_eq_some_iff.mp h
  have hlt := lt_next_of_binds (binds_of_owner? ho)
  rw [vars_define, ho]
  by_cases hg : owner = g
  · subst hg
    rw [if_pos ⟨rfl, hlt⟩, Bindings.lookup_put]
    simp
  · rw [if_neg fun hc => hg hc.1, if_neg fun hc => hg (Option.some.inj hc.1)]

/-- A name has the value that was assigned to it. -/
theorem get?_of_set? {s' : Store} (h : s.set? f x v = some s') : s'.get? f x = some v := by
  have hlookup := lookup_of_set? h
  obtain ⟨owner, ho, rfl⟩ := Option.map_eq_some_iff.mp h
  rw [get?, owner?_define (binds_of_owner? ho), ho]
  exact (hlookup owner x).trans (if_pos ⟨ho, rfl⟩)

end Treewalk.Store
