import Mathlib.Data.List.Induction
import Treewalk.Eval.Machine
import Treewalk.Proofs.Scope.Chain

/-!
# What frames share

Two frames share a name if they resolve it to the same frame. An assignment is then seen by all that
share the name with the frame that it is made in, and by nobody else; it does not change who shares
what, so after any number of assignments a frame sees the last one by those that it shares the name
with. A declaration does change who shares what. It is seen from wherever a search for the name
comes as far as the frame of the declaration, and such a search ends there from then on.

A call runs in a frame inside the one that its function captured. If it does not bind a name itself,
it sees of the name what the captured frame does. So functions that captured the same frame see each
other's assignments.

## Why sharing is resolving to the same frame

Two functions that captured the same frame share its names. But so do two that captured different
frames, if neither of these and nothing on the way binds the name; and two functions that captured
one frame do not share a name that one of them declares itself. What all these cases come to is
which frame the name is resolved to. Therefore `Assigned` is about that, and its parts about
functions are special cases of it.

## Why declarations are different

An assignment goes to a frame that binds the name already, so the next search for it goes the same
way as before. A declaration may put a binding in front of one that was found until now. `Searches`
describes from where it is found afterwards, and this is not just from the frames that share the
name: a frame from which the name was not found at all may find it now.

## Main definitions

* `Store.Searches`, a search for a name comes as far as a frame
* `Store.Activation`, a frame that a function runs in, with a name that is not local
* `Store.Assigned`, `Store.Declared`, what an assignment and a declaration change
* `Store.Update`, `Store.assignAll`, assignments in a row; `Store.shows`, those that a frame sees

## Main results

* `Store.assigned_of_set?`, `Store.get?_assignAll`
* `Store.owner?_define_of_searches`, `Store.owner?_define_of_not_searches`, `Store.declared_define`
* `Run.environment_laws`

## Implementation notes

Sequences of assignments are described from their end. Since none of them changes who shares what,
the question which ones a frame sees can be asked of the store at the beginning, and the answer for
a longer sequence is the answer for the shorter one, unless the last assignment is seen. So the
induction is on the list from its end, as is natural where the last one counts.
-/

namespace Treewalk

namespace Store

/-- A search for a name that starts in `g` comes as far as `f`: that frame is on the chain, and no
frame strictly inside it binds the name. -/
def Searches (s : Store) (g f : FrameId) (x : String) : Prop :=
  ∃ inner outer, s.chain g = inner ++ f :: outer ∧ ∀ h ∈ inner, s.binds h x = false

/-- A frame inside the one that a function captured, as its calls make them, which does not bind the
name itself. -/
def Activation (s : Store) (c : Closure) (f : FrameId) (x : String) : Prop :=
  s.parent? f = some c.frame ∧ s.binds f x = false

/-- What an assignment in a frame changes. -/
structure Assigned (s s' : Store) (f : FrameId) (x : String) (v : Value) : Prop where
  /-- Every name is resolved as before, from everywhere. -/
  owner : ∀ g y, s'.owner? g y = s.owner? g y
  /-- Frames that share the name see the new value. -/
  sharing : ∀ g, s.owner? g x = s.owner? f x → s'.get? g x = some v
  /-- Frames that do not share it see what they saw, and of other names so do all frames. -/
  others : ∀ g y, ¬ (y = x ∧ s.owner? g x = s.owner? f x) → s'.get? g y = s.get? g y
  /-- What a call of a function assigns, the calls of functions that captured the same frame see. -/
  captured : ∀ (c c' : Closure) (g : FrameId), s.Activation c f x → s.Activation c' g x →
    c.frame = c'.frame → s'.get? g x = some v
  /-- The calls of other functions see it only if the captured frames share the name. -/
  separate : ∀ (c c' : Closure) (g : FrameId), s.Activation c f x → s.Activation c' g x →
    s.owner? c.frame x ≠ s.owner? c'.frame x → s'.get? g x = s.get? g x

/-- What a declaration in a frame changes. -/
structure Declared (s s' : Store) (f : FrameId) (x : String) (v : Value) : Prop where
  /-- Where a search for the name comes as far as the frame, it ends there, with the new value. -/
  searching : ∀ g, s.Searches g f x → s'.owner? g x = some f ∧ s'.get? g x = some v
  /-- Everything else is resolved as before, to what it was. -/
  others : ∀ g y, ¬ (y = x ∧ s.Searches g f x) →
    s'.owner? g y = s.owner? g y ∧ s'.get? g y = s.get? g y
  /-- The calls of all functions that captured the frame see the new value. -/
  captured : ∀ (c : Closure) (g : FrameId), c.frame = f → s.Activation c g x → s'.get? g x = some v

/-- An assignment that is to be made. -/
structure Update where
  frame : FrameId
  name : String
  value : Value

/-- Assignments in a row; one that fails changes nothing. -/
def assignAll (s : Store) (updates : List Update) : Store :=
  updates.foldl (fun s u => (s.set? u.frame u.name u.value).getD s) s

/-- A frame sees an assignment under a name if it shares the name with the frame of the
assignment. -/
def shows (s : Store) (g : FrameId) (y : String) (u : Update) : Bool :=
  u.name = y ∧ s.owner? u.frame y = s.owner? g y ∧ (s.owner? g y).isSome

variable {s s' : Store} {f g : FrameId} {x y : String} {v : Value}

/-! ## Chains -/

/-- A chain starts with its frame. -/
theorem exists_chain (s : Store) (f : FrameId) : ∃ outer, s.chain f = f :: outer := by
  rw [chain, chainFrom]
  cases s.parent? f with
  | none => exact ⟨[], rfl⟩
  | some p => exact ⟨s.chainFrom f p, rfl⟩

/-- The chain of a frame goes on with the chain of its parent. -/
theorem Ordered.chain_of_parent? (hs : s.Ordered) {p : FrameId} (h : s.parent? f = some p) :
    s.chain f = f :: s.chain p :=
  (hs.line_chain f).unique (.child h (hs.line_chain p))

/-- A call resolves a name that is not its own as the captured frame does. -/
theorem Ordered.owner?_of_activation (hs : s.Ordered) {c : Closure} (h : s.Activation c f x) :
    s.owner? f x = s.owner? c.frame x := by
  rw [owner?, hs.chain_of_parent? h.1, List.find?_cons_of_neg (by simp [h.2])]
  rfl

/-- A search for it comes as far as the captured frame. -/
theorem Ordered.searches_of_activation (hs : s.Ordered) {c : Closure} (h : s.Activation c f x) :
    s.Searches f c.frame x := by
  obtain ⟨outer, houter⟩ := s.exists_chain c.frame
  refine ⟨[f], outer, ?_, List.forall_mem_singleton.mpr h.2⟩
  rw [hs.chain_of_parent? h.1, houter]
  rfl

/-! ## One assignment -/

theorem set?_eq_none_iff : s.set? f x v = none ↔ ∀ h ∈ s.chain f, s.binds h x = false := by
  simp [set?, owner?]

/-- An assignment does not change which frame resolves a name. -/
theorem owner?_of_set? (h : s.set? f x v = some s') (g : FrameId) (y : String) :
    s'.owner? g y = s.owner? g y := by
  obtain ⟨owner, ho, rfl⟩ := Option.map_eq_some_iff.mp h
  exact owner?_define (binds_of_owner? ho)

theorem get?_of_set?_sharing (h : s.set? f x v = some s') (hg : s.owner? g x = s.owner? f x) :
    s'.get? g x = some v := by
  obtain ⟨owner, ho, -⟩ := Option.map_eq_some_iff.mp h
  rw [get?, owner?_of_set? h, hg, ho]
  exact (lookup_of_set? h owner x).trans (if_pos ⟨ho, rfl⟩)

theorem get?_of_set?_others (h : s.set? f x v = some s')
    (hg : ¬ (y = x ∧ s.owner? g x = s.owner? f x)) : s'.get? g y = s.get? g y := by
  rw [get?, owner?_of_set? h, get?]
  refine Option.bind_congr fun k hk => ?_
  rw [lookup_of_set? h, if_neg]
  rintro ⟨hf, rfl⟩
  exact hg ⟨rfl, hk.trans hf.symm⟩

theorem assigned_of_set? (hs : s.Ordered) (h : s.set? f x v = some s') : s.Assigned s' f x v where
  owner := owner?_of_set? h
  sharing _ := get?_of_set?_sharing h
  others _ _ := get?_of_set?_others h
  captured c c' g hf hg hframe := by
    refine get?_of_set?_sharing h ?_
    rw [hs.owner?_of_activation hf, hs.owner?_of_activation hg, hframe]
  separate c c' g hf hg hne := by
    refine get?_of_set?_others h fun hshare => hne ?_
    rw [← hs.owner?_of_activation hf, ← hs.owner?_of_activation hg, hshare.2]

/-! ## Assignments in a row -/

theorem assignAll_concat (s : Store) (updates : List Update) (u : Update) :
    s.assignAll (updates ++ [u]) =
      ((s.assignAll updates).set? u.frame u.name u.value).getD (s.assignAll updates) := by
  rw [assignAll, List.foldl_append]
  rfl

theorem owner?_assignAll (s : Store) (updates : List Update) (g : FrameId) (y : String) :
    (s.assignAll updates).owner? g y = s.owner? g y := by
  induction updates using List.reverseRecOn with
  | nil => rfl
  | append_singleton updates u ih =>
    rw [assignAll_concat]
    cases hset : (s.assignAll updates).set? u.frame u.name u.value with
    | none => exact ih
    | some s' => exact (owner?_of_set? hset g y).trans ih

/-- After assignments in a row a frame sees the last one by those that it shares the name with, and
without one what it saw at first. -/
theorem get?_assignAll (s : Store) (updates : List Update) (g : FrameId) (y : String) :
    (s.assignAll updates).get? g y =
      ((updates.filter (s.shows g y)).getLast?.map Update.value).or (s.get? g y) := by
  induction updates using List.reverseRecOn with
  | nil => rfl
  | append_singleton updates u ih =>
    have howner := s.owner?_assignAll updates
    rw [assignAll_concat, List.filter_append]
    cases hset : (s.assignAll updates).set? u.frame u.name u.value with
    | none =>
      have hnone : s.owner? u.frame u.name = none := by
        rw [← howner]
        exact Option.map_eq_none_iff.mp hset
      have hshows : s.shows g y u = false := by
        rw [shows, decide_eq_false_iff_not]
        rintro ⟨rfl, hshare, hsome⟩
        rw [← hshare, hnone] at hsome
        cases hsome
      simpa [hshows] using ih
    | some s' =>
      have hsome : (s.owner? u.frame u.name).isSome := by
        obtain ⟨owner, ho, -⟩ := Option.map_eq_some_iff.mp hset
        rw [← howner, ho]
        rfl
      by_cases hshare : y = u.name ∧ s.owner? g u.name = s.owner? u.frame u.name
      · obtain ⟨rfl, hshare⟩ := hshare
        have hshows : s.shows g u.name u = true :=
          decide_eq_true ⟨rfl, hshare.symm, hshare ▸ hsome⟩
        have hget := get?_of_set?_sharing (g := g) hset (by rw [howner, howner, hshare])
        simpa [hshows] using hget
      · have hshows : s.shows g y u = false := by
          rw [shows, decide_eq_false_iff_not]
          rintro ⟨rfl, hsame, -⟩
          exact hshare ⟨rfl, hsame.symm⟩
        have hget := get?_of_set?_others (g := g) (y := y) hset (by rwa [howner, howner])
        simpa [hshows] using hget.trans ih

/-! ## Declarations -/

theorem lookup_define (hf : f < s.next) (g : FrameId) (y : String) :
    ((s.define f x v).vars g).lookup y =
      if f = g ∧ y = x then some v else (s.vars g).lookup y := by
  rw [vars_define]
  by_cases hg : f = g
  · subst hg
    rw [if_pos ⟨rfl, hf⟩, Bindings.lookup_put]
    simp
  · rw [if_neg fun h => hg h.1, if_neg fun h => hg h.1]

/-- The frame that resolves a name is one that a search comes to. -/
theorem searches_of_owner? (h : s.owner? g x = some f) : s.Searches g f x := by
  obtain ⟨-, inner, outer, hchain, hinner⟩ := List.find?_eq_some_iff_append.mp h
  exact ⟨inner, outer, hchain, fun k hk => by simpa using hinner k hk⟩

/-- With a declaration, one more frame binds the name. -/
theorem binds_define_same (hf : f < s.next) (x : String) (v : Value) (h : FrameId) :
    (s.define f x v).binds h x = (s.binds h x || decide (h = f)) := by
  have hiff : (f = h ∧ h < s.next ∧ x = x) ↔ h = f :=
    ⟨fun hc => hc.1.symm, fun hc => ⟨hc.symm, hc ▸ hf, rfl⟩⟩
  rw [binds_define, decide_eq_decide.mpr hiff]

/-- A search that comes as far as the frame of a declaration ends there. -/
theorem owner?_define_of_searches (hf : f < s.next) (h : s.Searches g f x) :
    (s.define f x v).owner? g x = some f := by
  obtain ⟨inner, outer, hchain, hinner⟩ := h
  simp only [owner?, chain, chainFrom_define, binds_define_same hf]
  rw [← chain, hchain]
  clear hchain
  -- On the way nothing is found, unless the frame itself should come earlier as well.
  induction inner with
  | nil => simp
  | cons k inner ih =>
    rw [List.forall_mem_cons] at hinner
    rw [List.cons_append, List.find?_cons, hinner.1, Bool.false_or]
    by_cases hk : k = f
    · simp [hk]
    · simp [hk, ih hinner.2]

/-- A search that ends before, or that never comes there, ends as it did. Either it is not for this
name, or a frame further in binds the name, or the frame is not around at all. -/
theorem owner?_define_of_not_searches (hf : f < s.next) (h : ¬ (y = x ∧ s.Searches g f x)) :
    (s.define f x v).owner? g y = s.owner? g y := by
  by_cases hy : y = x
  · subst hy
    have hnone : ¬ s.Searches g f y := fun hsearch => h ⟨rfl, hsearch⟩
    rw [Searches] at hnone
    simp only [owner?, chain, chainFrom_define, binds_define_same hf]
    rw [← chain]
    generalize s.chain g = frames at hnone
    induction frames with
    | nil => rfl
    | cons k frames ih =>
      rw [List.find?_cons, List.find?_cons]
      cases hk : s.binds k y with
      | true => rfl
      | false =>
        have hne : k ≠ f := by
          rintro rfl
          exact hnone ⟨[], frames, rfl, by simp⟩
        have hbehind : ¬ ∃ inner outer, frames = inner ++ f :: outer ∧
            ∀ h ∈ inner, s.binds h y = false := by
          rintro ⟨inner, outer, hframes, hinner⟩
          refine hnone ⟨k :: inner, outer, ?_, List.forall_mem_cons.mpr ⟨hk, hinner⟩⟩
          rw [hframes, List.cons_append]
        simpa [hne] using ih hbehind
  · have hbinds (h : FrameId) : (s.define f x v).binds h y = s.binds h y := by
      rw [binds_define, decide_eq_false fun hc => hy hc.2.2, Bool.or_false]
    simp only [owner?, chain, chainFrom_define, hbinds]

theorem declared_define (hs : s.Ordered) (hf : f < s.next) (x : String) (v : Value) :
    s.Declared (s.define f x v) f x v := by
  have hsearching (g : FrameId) (h : s.Searches g f x) :
      (s.define f x v).owner? g x = some f ∧ (s.define f x v).get? g x = some v := by
    have howner := owner?_define_of_searches (v := v) hf h
    refine ⟨howner, ?_⟩
    rw [get?, howner]
    exact (lookup_define hf f x).trans (if_pos ⟨rfl, rfl⟩)
  refine ⟨hsearching, fun g y h => ?_, fun c g hc hg => ?_⟩
  · have howner := owner?_define_of_not_searches (v := v) hf h
    refine ⟨howner, ?_⟩
    rw [get?, howner, get?]
    refine Option.bind_congr fun k hk => ?_
    rw [lookup_define hf, if_neg]
    rintro ⟨rfl, rfl⟩
    exact h ⟨rfl, searches_of_owner? hk⟩
  · exact (hsearching g (hc ▸ hs.searches_of_activation hg)).2

end Store

namespace Run

open Store

/-- **Environment laws.** Take any machine on which parents are older than their children, a frame,
a name and a value. Assigning the name in the frame fails exactly if no frame on the chain binds it,
and then nothing has changed. Otherwise those who resolve the name to the same frame see the new
value, and apart from that everything is resolved as before, to what it was. Declaring the name is
seen from where a search for it comes as far as the frame, and changes nothing else. So the calls of
functions that captured one frame see each other's assignments and no others: what a frame sees
after assignments in a row is the last by those that it shares the name with. -/
theorem environment_laws (m : Machine) (hm : m.store.Ordered) (f : FrameId) (x : String)
    (v : Value) :
    ((∃ stop m', assign f x v m = .error stop m') ↔
      ∀ h ∈ m.store.chain f, m.store.binds h x = false) ∧
    (∀ stop m', assign f x v m = .error stop m' →
      stop = .failure (.ofFault (.assignUndefined x)) ∧ m' = m) ∧
    (∀ m', assign f x v m = .ok () m' →
      m' = { m with store := m'.store } ∧ m.store.Assigned m'.store f x v) ∧
    (f < m.store.next → ∃ m', declare f x v m = .ok () m' ∧
      m' = { m with store := m'.store } ∧ m.store.Declared m'.store f x v) ∧
    ∀ (updates : List Update) (g : FrameId) (y : String), (m.store.assignAll updates).get? g y =
      ((updates.filter (m.store.shows g y)).getLast?.map Update.value).or (m.store.get? g y) := by
  rw [← set?_eq_none_iff (v := v), assign_eq]
  refine ⟨?_, ?_, ?_, fun hf => ⟨_, rfl, rfl, declared_define hm hf x v⟩, m.store.get?_assignAll⟩
  all_goals cases hset : m.store.set? f x v with
  | none => simp
  | some s' => simp [assigned_of_set? hm hset]

/-- A frame with `n`, two frames inside it, and in one of these a further one with its own `n`. -/
def siblings : Machine :=
  ⟨⟨#[⟨none, none, [("n", .int 1)]⟩, ⟨some 0, none, []⟩, ⟨some 0, none, []⟩,
    ⟨some 2, none, [("n", .int 2)]⟩]⟩, 0, [], ""⟩

theorem ordered_siblings : siblings.store.Ordered := by
  intro g p hp
  have hcases (k : Nat) (hk : k < 4) : k = 0 ∨ k = 1 ∨ k = 2 ∨ k = 3 := by omega
  rcases hcases g (lt_next_of_parent? hp) with rfl | rfl | rfl | rfl <;> cases hp <;> decide

/-- Assigning `n` in one of the two frames is seen in the other, and not where `n` is another name;
declaring it there is seen further inside only. -/
theorem environment_laws_siblings :
    (∃ m', assign 1 "n" (.int 5) siblings = .ok () m' ∧ m'.store.get? 2 "n" = some (.int 5) ∧
      m'.store.get? 3 "n" = siblings.store.get? 3 "n") ∧
    ∃ m', declare 2 "n" (.int 5) siblings = .ok () m' ∧ m'.store.get? 2 "n" = some (.int 5) ∧
      m'.store.get? 1 "n" = siblings.store.get? 1 "n" := by
  obtain ⟨-, -, hassign, -⟩ := environment_laws siblings ordered_siblings 1 "n" (.int 5)
  obtain ⟨-, -, -, hdeclare, -⟩ := environment_laws siblings ordered_siblings 2 "n" (.int 5)
  obtain ⟨m', hm', -, h⟩ := hdeclare (by decide)
  refine ⟨⟨_, rfl, ?_, ?_⟩, m', hm', ?_, ?_⟩
  · exact (hassign _ rfl).2.sharing 2 rfl
  · exact (hassign _ rfl).2.others 3 "n" (by decide)
  · exact (h.searching 2 ⟨[], [0], rfl, by simp⟩).2
  · refine (h.others 1 "n" ?_).2
    rintro ⟨-, inner, outer, hchain, -⟩
    have hmem : 2 ∈ siblings.store.chain 1 := by rw [hchain]; simp
    exact absurd hmem (by decide)

end Run

end Treewalk
