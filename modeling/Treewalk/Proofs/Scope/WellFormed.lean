import Treewalk.Proofs.Scope.Chain
import Treewalk.Proofs.Scope.Growth
import Treewalk.Proofs.Session.Reachable

/-!
# Well-formed stores

Frames refer to functions and functions to frames, so there is no order in which a store could be
checked part by part. What orders it is time: a frame is made inside one that is there already, and
a function captures a frame that is there already. This is an invariant of everything that a session
can do, and with it the chains of frames are finite and looking for a name comes to an end.

## Why a store may be relied on

Looking for a name is written with a bound, so that it is a function on all stores. `Resolves` says
that this is of no account: the chain of a frame is finite and ends at the root, a search step by
step has the answer that the function has, and reading and assigning succeed in the same cases and
concern the same binding. It is a consequence of `WellFormed`, so every property in it holds at
every moment at which the store is well formed.

## Main definitions

* `Closure.Sound`, a function that captures a frame of the store
* `Store.WellFormed`
* `Store.Resolves`, what looking for names, reading and assigning do
* `Moment.Orderly`, a moment before, during and after which the store is well formed

## Main results

* `Store.WellFormed.resolves`: names in a well-formed store
* `Session.store_wellFormed`: stores of sessions are well formed at all times

## Implementation notes

Three things make up a well-formed store. Parents are older than their children, which makes chains
finite. Only the root has no parent, which makes them end there. And functions capture frames that
exist, which is needed to keep the first two, because the frame that a call makes has the captured
frame for its parent.

That parameters are distinct is carried along in the closures rather than read off the source each
time. A call binds parameters one by one, so with two of the same name the later would win; the
grammar excludes this, and the invariant takes it from the source to the functions.

For a moment it is not enough that the store is well formed before and after. That no parent ever
changes relates the moment to the start and to the end of the unit, and comes from the growth of
stores, which asks for no invariant.
-/

namespace Treewalk

/-! ## Stores -/

/-- A node that makes a function gives its parameters different names. -/
def Code.Distinct (c : Code) : Prop :=
  ∀ fn, c.function? = some fn → fn.2.1.Nodup

theorem Code.Proper.distinct {c : Code} (h : c.Proper) : c.Distinct := by
  rintro fn hfn
  rcases c with e | s
  · cases e <;> cases hfn
    exact h.1
  · cases s <;> cases hfn
    exact h.1

/-- A function that captures a frame of the store, and whose parameters have different names, like
those of the functions that its body makes. -/
structure Closure.Sound (s : Store) (c : Closure) : Prop where
  frame : c.frame < s.next
  params : c.params.Nodup
  body : Code.All Code.Distinct (.stmt c.body)

/-- A value that, if it is a function, captures a frame of the store. -/
def Value.Sound (s : Store) : Value → Prop
  | .closure c => c.Sound s
  | _ => True

namespace Store

/-- Every frame is younger than its parent, one frame has no parent, and functions that are bound
capture frames that exist. -/
structure WellFormed (s : Store) : Prop where
  ordered : s.Ordered
  rooted : Session.root < s.next ∧ ∀ g < s.next, s.parent? g = none → g = Session.root
  values : s.Holds fun v => v.Sound s

/-- What can be relied on in looking for a name, in reading and in assigning it. -/
structure Resolves (s : Store) : Prop where
  /-- The chain of a frame is finite and goes up to the root frame, through frames that exist. -/
  line : ∀ f < s.next, s.Line f (s.chain f) ∧ (s.chain f).getLast? = some Session.root ∧
    ∀ g ∈ s.chain f, g < s.next
  /-- Looking for a name step by step comes to an end, in one way. -/
  finds : ∀ f x owner, s.Finds x (some f) owner ↔ s.owner? f x = owner
  get : ∀ f x, (s.get? f x).isSome = true ↔ ∃ g ∈ s.chain f, s.binds g x = true
  set : ∀ f x v, (s.set? f x v).isSome = true ↔ ∃ g ∈ s.chain f, s.binds g x = true
  /-- The binding that reading finds is the one that assigning changes. -/
  changes : ∀ f x v s', s.set? f x v = some s' → s'.get? f x = some v ∧ ∀ g y,
    (s'.vars g).lookup y = if s.owner? f x = some g ∧ y = x then some v else (s.vars g).lookup y

end Store

/-- A function that captures a frame goes on doing so. -/
theorem Value.Sound.later {s s' : Store} {v : Value} (hv : v.Sound s) (h : s.Extends s') :
    v.Sound s' := by
  cases v with
  | closure c => exact { hv with frame := Nat.lt_of_lt_of_le hv.frame h.next }
  | _ => trivial

theorem Value.sound_of_not_isClosure {v : Value} (s : Store) (h : v.isClosure = false) :
    v.Sound s := by
  cases v with
  | closure c => cases h
  | _ => trivial

namespace Store

variable {s : Store} {f : FrameId} {x : String} {v : Value}

namespace WellFormed

theorem define (hs : s.WellFormed) (hv : v.Sound s) (f : FrameId) (x : String) :
    (s.define f x v).WellFormed := by
  refine ⟨fun g p hp => ?_, ?_, (hs.values.define hv f x).imp fun _ hw => ?_⟩
  · rw [parent?_define] at hp
    exact hs.ordered hp
  · simpa using hs.rooted
  · exact hw.later (s.extends_define f x v)

theorem rename (hs : s.WellFormed) (f : FrameId) (name : String) :
    (s.rename f name).WellFormed := by
  refine ⟨fun g p hp => ?_, ?_, (hs.values.rename f name).imp fun _ hw => ?_⟩
  · rw [parent?_rename] at hp
    exact hs.ordered hp
  · simpa using hs.rooted
  · exact hw.later (s.extends_rename f name)

theorem addChild (hs : s.WellFormed) {p : FrameId} (hp : p < s.next) {vars : Bindings}
    (hv : ∀ entry ∈ vars, entry.2.Sound s) (source : Option String) :
    (s.addChild p source vars).WellFormed := by
  have hext := s.extends_addChild p source vars
  refine ⟨fun g q hq => ?_, ⟨?_, fun g hg hnone => ?_⟩,
    (hs.values.addChild hv p source).imp fun _ hw => hw.later hext⟩
  · rw [parent?_addChild] at hq
    split at hq
    · next hg => rw [hg, ← Option.some.inj hq]; exact hp
    · exact hs.ordered hq
  · exact Nat.lt_of_lt_of_le hs.rooted.1 hext.next
  · rw [parent?_addChild] at hnone
    split at hnone
    · cases hnone
    · next hne =>
      rw [next_addChild] at hg
      exact hs.rooted.2 g (Nat.lt_of_le_of_ne (Nat.le_of_lt_succ hg) hne) hnone

/-- Names in a well-formed store. Parents are older than their children, so a chain has an end; the
root alone has no parent, so it is the end. -/
theorem resolves (hs : s.WellFormed) : s.Resolves where
  line f hf := by
    have hline := hs.ordered.line_chain f
    have hlt : ∀ g ∈ s.chain f, g < s.next := fun g hg =>
      Nat.lt_of_le_of_lt (hline.le hs.ordered hg) hf
    obtain ⟨r, hr, hnone⟩ := hline.exists_root
    refine ⟨hline, ?_, hlt⟩
    rw [hr, hs.rooted.2 r (hlt r (List.mem_of_getLast? hr)) hnone]
  finds f x owner := hs.ordered.finds_iff f x owner
  get _ _ := isSome_get?
  set _ _ _ := isSome_set?
  changes _ _ _ _ h := ⟨get?_of_set? h, lookup_of_set? h⟩

end WellFormed

theorem wellFormed_initial (name : Option String) : (Store.initial name).WellFormed := by
  have hframes (g : FrameId) (hg : g < (Store.initial name).next) : g = 0 :=
    Nat.lt_one_iff.mp hg
  refine ⟨fun g p hp => ?_, ⟨Nat.zero_lt_one, fun g hg _ => hframes g hg⟩,
    holds_initial name fun _ => trivial⟩
  rw [hframes g (lt_next_of_parent? hp)] at hp
  cases hp

end Store

/-! ## Evaluation -/

/-- Stores are well formed, values capture frames that exist, and code runs in such frames. -/
def wellFormed : Invariant where
  state m := m.store.WellFormed
  grows m m' := m.store.Extends m'.store
  value m v := v.Sound m.store
  frame m f := f < m.store.next
  owned _ _ := True
  code _ _ := Code.All Code.Distinct
  fault _ := True

theorem wellFormed_ofFunctions : wellFormed.OfFunctions where
  plain m _ hv := Value.sound_of_not_isClosure m.store hv
  fault _ := trivial
  refl m := .refl m.store
  trans h h' := h.trans h'
  value_grows h hv := hv.later h
  frame_grows h hf := Nat.lt_of_lt_of_le hf h.next
  owned_grows _ _ := trivial
  part hc hd := hc.part hd
  lookup hm _ hv := hm.values.get? hv
  assign hm _ _ hv := ⟨hm.define hv _ _, Store.extends_define _ _ _ _⟩
  declare _ hm _ _ hv := ⟨hm.define hv _ _, Store.extends_define _ _ _ _⟩
  enter hm hf hv :=
    ⟨⟨hm.addChild hf hv none, Store.extends_addChild _ _ _ _⟩, by simp [wellFormed], trivial⟩
  close := by
    intro m f c name params body hm hf hc hp
    refine ⟨⟨hm, .refl m.store⟩, hf, hc.here _ hp, hc.part (Code.mem_parts_of_function? hp)⟩
  called hv := ⟨hv.body, hv.frame⟩
  outside hm hs _ := by
    refine ⟨?_, ?_⟩
    · change Store.WellFormed _
      rw [hs]
      exact hm
    · change Store.Extends _ _
      rw [hs]
      exact .refl _

theorem wellFormed_rooted : wellFormed.Rooted where
  code _ h hs := (Source.proper_of_program h _ hs).imp fun _ => Code.Proper.distinct
  root hm := ⟨hm.rooted.1, trivial⟩
  rename _ hm := hm.rename _ _
  initial name _ _ := Store.wellFormed_initial name

/-! ## Sessions -/

/-- A moment of a unit in good order: it is in a frame that exists, stores are well formed when it
comes and when it is over, its value captures a frame of the store, and between the stores at the
start of the unit, at these two times and at the end of the unit no parent changes. -/
structure Moment.Orderly (start : Store) (limit : Nat) (b : Moment) (last : Store) : Prop where
  frame : b.frame < b.machine.store.next
  before : b.machine.store.WellFormed
  after : ((b.run limit).after b.machine).store.WellFormed
  value : ∀ v m', b.run limit b.machine = .ok v m' → v.Sound m'.store
  parents : start.Extends b.machine.store ∧
    b.machine.store.Extends ((b.run limit).after b.machine).store ∧
    ((b.run limit).after b.machine).store.Extends last

namespace Session

variable {s : Session}

theorem extends_entering (s : Session) (unit : Option String) :
    s.machine.store.Extends (s.entering unit).store := by
  cases unit with
  | none => exact .refl _
  | some name => exact Store.extends_rename _ _ _

/-- Whatever happens to a session other than a reset, frames are there still. -/
theorem extends_meet (s : Session) {event : Event} (he : event ≠ .act .reset) :
    s.machine.store.Extends (s.meet event).machine.store := by
  cases event with
  | act act =>
    cases act with
    | run limits unit source =>
      rw [meet, perform]
      cases hp : Source.program source with
      | error rejection =>
        rw [run, hp]
        exact .refl _
      | ok body =>
        rw [machine_run_of_program hp]
        exact (s.extends_entering unit).trans (Run.grows_unit limits body root _).toExtends
    | reset => exact absurd rfl he
  | call b args =>
    rw [meet, (b.call_quiet args).store s.machine]
    exact .refl _

/-- A moment of a unit. -/
theorem orderly_of_passes (hs : s.machine.store.WellFormed) {limits : Limits}
    {unit : Option String} {source : List UInt8} {b : Moment}
    (hb : s.Passes limits unit source b) :
    b.Orderly s.machine.store limits.rounds (s.run limits unit source).2.machine.store := by
  have hstable := wellFormed_ofFunctions.stable
  obtain ⟨hat, hlater⟩ := wellFormed_rooted.at_passes hstable hs hb
  have hkeeps := hstable.run_keeps hat limits.rounds
  have hnext := hkeeps.next_after hat.state
  obtain ⟨body, hp, hpass⟩ := hb
  refine ⟨hat.frame, hat.state, hnext.state, fun v m' hr => (hkeeps.of_ok hat.state hr).2,
    (s.extends_entering unit).trans hlater, hnext.grows, ?_⟩
  rw [machine_run_of_program hp]
  exact (Run.continues_of_passes hpass).toExtends

/-- **Stores are well formed at all times.** Take any session, whatever units, resets and calls of
built-in functions it has seen. Its store is well formed, and so it is at every moment of one more
unit, whatever the outcome; every function that is bound or that is the value of something captures
a frame that exists. Only a reset does away with frames, and no parent ever changes. In a
well-formed store looking for a name comes to an end, and reading and assigning succeed where a
frame on the chain binds the name. -/
theorem store_wellFormed :
    (∀ (name : Option String) (input : String) (events : List Event),
      let s := (start name input).meetAll events
      s.machine.store.WellFormed ∧
      (∀ event, event ≠ .act .reset → s.machine.store.Extends (s.meet event).machine.store) ∧
      (∀ (b : Builtin) (args : List Value) (v : Value) (m : Machine),
        b.call args s.machine = .ok v m → v.Sound m.store) ∧
      ∀ (limits : Limits) (unit : Option String) (source : List UInt8) (b : Moment),
        s.Passes limits unit source b →
          b.Orderly s.machine.store limits.rounds (s.run limits unit source).2.machine.store) ∧
    ∀ store : Store, store.WellFormed → store.Resolves := by
  refine ⟨fun name input events => ?_, fun _ => Store.WellFormed.resolves⟩
  have hs : ((start name input).meetAll events).machine.store.WellFormed :=
    wellFormed_rooted.state_meetAll (s := start name input) wellFormed_ofFunctions.stable
      (Store.wellFormed_initial name) events
  exact ⟨hs, fun _ => extends_meet _, fun _ _ _ m h =>
    Value.sound_of_not_isClosure m.store ((Builtin.call_quiet _ _).result h),
    fun _ _ _ _ => orderly_of_passes hs⟩

end Session

end Treewalk
