import Treewalk.Proofs.Scope.Titles
import Treewalk.Proofs.Session.Blame

/-!
# The name that a failure carries

A failure carries the position of a token and the name of a source. The position is that of the node
that failed. The name is that of the frame in which the node failed, and a function that is bound in
the root frame runs in a frame inside the root, made when it is called. So where such a function was
made by one unit and is called by a later one, the failure carries a position in the first and the
name of the second. A function that was made inside a block or a call carries the right name with
it.

## Why this is worth a theorem

A position and a name are only of use together, and they come from two different things: the
position from the node, which never changes, and the name from the frame, when it is asked for. That
the two agree is an invariant which a unit breaks by naming the root anew. `failure_titled` says
exactly when they still agree, and that if they do not, the name is that of a later unit and never
that of an earlier one.

## Main definitions

* `Session.Titled`, a unit with a name, and `Session.runAll`, units one after another
* `Session.Titled.Contains`, the code of a unit
* `Session.Makes`, the unit that makes a frame

## Main results

* `Session.failure_titled`: which unit the name of a failure is that of
* `Session.failure_titled_by_caller`: it need not be the unit of the node

## Implementation notes

Whether two units agree in their names is asked of their numbers, so units have to have different
names for the answer to be about names. It is the natural case, and with equal names there would be
nothing to tell apart.

A session alternates between running a unit and being between units. `Store.Between` is what holds
between them; naming the root makes it the invariant of the next unit, and when that unit is over,
the frames that it made are known and it is a statement between units again. The induction is on the
number of units that have run.
-/

namespace Treewalk

namespace Session

/-- A unit with a name. -/
structure Titled where
  name : String
  limits : Limits
  source : List UInt8

/-- The session behind a unit with a name. -/
def runTitled (s : Session) (u : Titled) : Session :=
  (s.run u.limits (some u.name) u.source).2

/-- The session behind a number of units with names. -/
def runAll (s : Session) (units : List Titled) : Session :=
  units.foldl runTitled s

/-- The code stands in the source of the unit. -/
def Titled.Contains (u : Titled) (c : Code) : Prop :=
  ∃ body, Source.program u.source = .ok body ∧ ∃ st ∈ body, c.Within (.stmt st)

/-- The frame is made while a unit runs, which is given by its number: it is there after the unit
and not before. -/
def Makes (s : Session) (units : List Titled) (k : Nat) (g : FrameId) : Prop :=
  (s.runAll (units.take k)).machine.store.next ≤ g ∧
    g < (s.runAll (units.take (k + 1))).machine.store.next

/-- The names and the code of units. -/
def unitsOf (units : List Titled) : Units where
  title k := units[k]?.map Titled.name
  code i c := ∃ u, units[i]? = some u ∧ u.Contains c
  part := by
    rintro i c d ⟨u, hu, body, hp, st, hst, hc⟩ hd
    exact ⟨u, hu, body, hp, st, hst, .trans (.part (.refl d) hd) hc⟩

end Session

open Session (root)

/-! ## Between units -/

/-- A function of a unit. If it captures the root, the unit is one of so many; if it captures
another frame, that frame has the name of the unit or of a later one. -/
def Value.Kept (us : Units) (made : Nat → FrameId → Prop) (n : Nat) (s : Store) (v : Value) :
    Prop :=
  ∀ c, v = .closure c → ∃ i, us.code i (.stmt c.body) ∧ (c.frame = root ∧ i < n ∨
    ∃ k, i ≤ k ∧ s.Dated made c.frame k ∧ s.source? c.frame = us.title k)

/-- The store when so many units have run. -/
structure Store.Between (us : Units) (made : Nat → FrameId → Prop) (n : Nat) (s : Store) :
    Prop where
  root_lt : root < s.next
  values : s.Holds (Value.Kept us made n s)

variable {us : Units} {made : Nat → FrameId → Prop} {n : Nat}

/-- Frames that the unit which is running has made so far count as made by it. -/
def During (made : Nat → FrameId → Prop) (j : Nat) (first : FrameId) (k : Nat) (g : FrameId) :
    Prop :=
  made k g ∨ k = j ∧ first ≤ g

namespace Store

variable {s : Store}

theorem between_initial (name : Option String) : (Store.initial name).Between us made 0 :=
  ⟨Nat.zero_lt_one, holds_initial name fun _ _ hc => by cases hc⟩

theorem Between.mono (h : s.Between us made n) : s.Between us made (n + 1) := by
  refine ⟨h.root_lt, h.values.imp fun v hv c hc => ?_⟩
  obtain ⟨i, hcode, hframe⟩ := hv c hc
  exact ⟨i, hcode, hframe.imp_left fun hroot => ⟨hroot.1, Nat.lt_succ_of_lt hroot.2⟩⟩

/-- A unit starts by naming the root. -/
theorem Between.titled (h : s.Between us made n) {name : String} (hn : us.title n = some name) :
    (s.rename root name).Titled us (During made n s.next) n s.next := by
  have hroot : (s.rename root name).Named us (During made n s.next) n root n :=
    ⟨by simpa using h.root_lt, .inl ⟨rfl, rfl⟩, by rw [source?_rename h.root_lt, hn]⟩
  refine ⟨by simp, hroot, (h.values.rename root name).imp fun v hv c hc => ?_⟩
  obtain ⟨i, hcode, ⟨hframe, hi⟩ | ⟨k, hik, hd, hsource⟩⟩ := hv c hc
  · exact ⟨i, n, Nat.le_of_lt hi, hcode, hframe ▸ hroot⟩
  · have hd' : (s.rename root name).Dated (During made n s.next) c.frame k :=
      (hd.imp fun _ _ _ hk => .inl hk).later (s.extends_rename root name)
    refine ⟨i, k, hik, hcode, hd'.lt_next, .inr hd', ?_⟩
    rw [source?_rename_of_ne hd.ne_root.symm, hsource]

/-- What a frame goes back to when a unit has run. -/
theorem Dated.of_during {first : FrameId} {f : FrameId} {k : Nat}
    (h : s.Dated (During made n first) f k) (hm : ∀ g, first ≤ g → g < s.next → made n g) :
    s.Dated made f k := by
  refine h.imp ?_
  rintro k g hg (hk | ⟨rfl, hfirst⟩)
  · exact hk
  · exact hm g hfirst hg

/-- A unit ends. -/
theorem Titled.between {first : FrameId} (h : s.Titled us (During made n first) n first)
    (hm : ∀ g, first ≤ g → g < s.next → made n g) :
    s.Between us made (n + 1) := by
  refine ⟨h.root.lt_next, h.values.imp fun v hv c hc => ?_⟩
  obtain ⟨i, k, hik, hcode, hf⟩ := hv c hc
  rcases hf.date with ⟨hroot, rfl⟩ | hd
  · exact ⟨i, hcode, .inl ⟨hroot, Nat.lt_succ_of_le hik⟩⟩
  · exact ⟨i, hcode, .inr ⟨k, hik, hd.of_during hm, hf.source⟩⟩

end Store

/-! ## Units one after another -/

namespace Session

variable {s : Session} {units : List Titled} {u : Titled} {k : Nat}

theorem runAll_eq_meetAll (s : Session) (units : List Titled) :
    s.runAll units =
      s.meetAll (units.map fun u => .act (.run u.limits (some u.name) u.source)) := by
  rw [runAll, meetAll, List.foldl_map]
  rfl

theorem runAll_take_succ (hu : units[k]? = some u) :
    s.runAll (units.take (k + 1)) = (s.runAll (units.take k)).runTitled u := by
  rw [runAll, List.take_add_one, hu, List.foldl_append]
  rfl

/-- What holds while one of the units is running. -/
abbrev titledUnit (s : Session) (units : List Titled) (k : Nat) : Invariant :=
  let first := (s.runAll (units.take k)).machine.store.next
  titled (unitsOf units) (During (s.Makes units) k first) k first

theorem titledUnit_stable (s : Session) (units : List Titled) (k : Nat) :
    (s.titledUnit units k).Stable :=
  (titled_ofFunctions fun _ hg => .inr ⟨rfl, hg⟩).stable

/-- A unit starts in order after units that ended in order. -/
theorem state_titledUnit (hu : units[k]? = some u)
    (hs : (s.runAll (units.take k)).machine.store.Between (unitsOf units) (s.Makes units) k) :
    (s.titledUnit units k).state ((s.runAll (units.take k)).entering (some u.name)) :=
  hs.titled (by simp [unitsOf, hu])

/-- The statements of a unit run in the root. -/
theorem code_titledUnit (hu : units[k]? = some u) {body : List Stmt}
    (hp : Source.program u.source = .ok body) {m : Machine} (hm : (s.titledUnit units k).state m) :
    ∀ st ∈ body, (s.titledUnit units k).code m root (.stmt st) :=
  fun st hst => ⟨k, k, Nat.le_refl k, ⟨u, hu, body, hp, st, hst, .refl _⟩, hm.root⟩

/-- After each of the units. -/
theorem between_runAll (hs : s.machine.store = .initial s.name) (hk : k ≤ units.length) :
    (s.runAll (units.take k)).machine.store.Between (unitsOf units) (s.Makes units) k := by
  induction k with
  | zero =>
    rw [List.take_zero]
    exact hs ▸ Store.between_initial s.name
  | succ k ih =>
    obtain ⟨u, hu⟩ : ∃ u, units[k]? = some u := ⟨_, List.getElem?_eq_getElem hk⟩
    have hbefore := ih (Nat.le_of_succ_le hk)
    have hnext := runAll_take_succ (s := s) hu
    cases hp : Source.program u.source with
    | error rejection =>
      -- nothing of the unit runs
      have hsame : s.runAll (units.take (k + 1)) = s.runAll (units.take k) := by
        rw [hnext, runTitled, run, hp]
        rfl
      rw [hsame]
      exact hbefore.mono
    | ok body =>
      have hstart := state_titledUnit hu hbefore
      have hkeeps := (s.titledUnit_stable units k).unit_keeps u.limits
        (code_titledUnit hu hp hstart) trivial trivial
      have hend := (hkeeps.next_after hstart).state
      rw [← machine_run_of_program hp] at hend
      rw [hnext]
      refine Store.Titled.between hend fun g hfirst hg => ⟨hfirst, ?_⟩
      rw [hnext]
      exact hg

/-- A unit that makes a frame is one of the units. -/
theorem Makes.lt_length {g : FrameId} (h : s.Makes units k g) : k < units.length := by
  by_contra hle
  have hall : ∀ n, units.length ≤ n → units.take n = units := fun n => List.take_of_length_le
  obtain ⟨hbefore, hafter⟩ := h
  rw [hall k (by omega)] at hbefore
  rw [hall (k + 1) (by omega)] at hafter
  exact absurd hafter (Nat.not_lt_of_le hbefore)

/-- Code of a unit stands on a token of its source that explains what the code raises. -/
theorem Titled.Contains.explained {c : Code} (h : u.Contains c) {cause : Fault}
    (hr : c.Raises cause) (ho : cause.isOrdinary = true) :
    ∃ t ∈ (scan u.source).tokens, c.mark = Parse.markOf t ∧ t.Explains c cause := by
  obtain ⟨body, hp, st, hst, hwithin⟩ := h
  exact hr.explained (Source.placed_of_program hp st hst _ hwithin)
    (Source.proper_of_program hp st hst _ hwithin) ho

/-- A unit that runs after others fails with an ordinary fault. -/
theorem isOrdinary_of_runAll (hs : s.machine.store = .initial s.name) {f : Failure}
    (h : ((s.runAll units).run u.limits (some u.name) u.source).1 =
      .error (.stopped (.failure f))) :
    f.fault.isOrdinary = true := by
  have hstart : proper.state s.machine := by
    change Store.Proper _
    rw [hs]
    exact Store.holds_initial s.name fun _ => trivial
  have hunits := proper_rooted.state_meetAll proper_stable hstart
    (units.map fun u => .act (.run u.limits (some u.name) u.source))
  rw [← runAll_eq_meetAll] at hunits
  exact ((proper_rooted.run_keeps proper_stable hunits u.limits (some u.name) u.source).2 f
    h).ordinary

/-- Units with different names are known by their names. -/
theorem name_eq_iff (hn : (units.map Titled.name).Nodup) {i k : Nat} {v w : Titled}
    (hv : units[i]? = some v) (hw : units[k]? = some w) : w.name = v.name ↔ i = k := by
  constructor
  · intro hname
    have hlt : i < (units.map Titled.name).length := by
      simpa using (List.getElem?_eq_some_iff.mp hv).1
    refine (List.getElem?_inj hlt hn).mp ?_
    rw [List.getElem?_map, List.getElem?_map, hv, hw, Option.map_some, Option.map_some, hname]
  · rintro rfl
    rw [Option.some.inj (hv.symm.trans hw)]

/-- **The name that a failure carries.** Let units with different names run one after another in a
session that has run nothing, and let the last of them fail. The failure carries the position of a
token in the source of one of the units, that of the node that raised the fault, and the token
explains the fault. And it carries the name of a unit that is this one or a later one: if the node
ran in the root frame, of the last unit, and otherwise of the unit that made the outermost frame
around it inside the root. So the name is that of the unit with the node exactly if these two units
are the same. -/
theorem failure_titled (hs : s.machine.store = .initial s.name)
    (hn : ((units ++ [u]).map Titled.name).Nodup) {f : Failure}
    (h : ((s.runAll units).run u.limits (some u.name) u.source).1 =
      .error (.stopped (.failure f))) :
    ∃ (b : Moment) (i k : Nat) (v w : Titled) (t : Token),
      (s.runAll units).Passes u.limits (some u.name) u.source b ∧ b.code.Raises f.fault ∧
      (units ++ [u])[i]? = some v ∧ v.Contains b.code ∧
      t ∈ (scan v.source).tokens ∧ t.Explains b.code f.fault ∧
      i ≤ k ∧ (units ++ [u])[k]? = some w ∧
      (b.frame = root ∧ k = units.length ∨
        b.machine.store.Dated (s.Makes (units ++ [u])) b.frame k) ∧
      f.place = some (.place t.pos.line t.pos.column, some w.name) ∧
      (w.name = v.name ↔ i = k) := by
  obtain ⟨body, m, hp, hrun⟩ := exists_of_run_stopped h
  obtain ⟨b, hpass, horigin⟩ := Run.exists_origin_unit hrun
  have htake : (units ++ [u]).take units.length = units := List.take_left
  have hu : (units ++ [u])[units.length]? = some u := by simp
  -- the machine at the moment and in the end
  have hstart := state_titledUnit hu (between_runAll hs (by simp))
  have hcode := code_titledUnit hu hp hstart
  have hstable := s.titledUnit_stable (units ++ [u]) units.length
  rw [htake] at hstart hcode
  obtain ⟨hat, -⟩ := hstable.passes hstart hcode trivial trivial hpass
  have hlater := hpass.continues
  rw [Run.after_of_error hrun] at hlater
  obtain ⟨i, k, hik, ⟨v, hv, hcontains⟩, hframe⟩ := hat.code
  have hdate : b.frame = root ∧ k = units.length ∨
      b.machine.store.Dated (s.Makes (units ++ [u])) b.frame k := by
    refine hframe.date.imp_right fun hd => hd.of_during fun g hfirst hg => ⟨hfirst, ?_⟩
    rw [runAll_take_succ hu, htake, runTitled, machine_run_of_program hp, Run.after_of_error hrun]
    exact Nat.lt_of_lt_of_le hg hlater.next
  obtain ⟨w, hw⟩ : ∃ w, (units ++ [u])[k]? = some w := by
    refine ⟨_, List.getElem?_eq_getElem ?_⟩
    rcases hdate with ⟨-, rfl⟩ | hd
    · simp
    · exact hd.exists_made.choose_spec.lt_length
  obtain ⟨t, ht, hmark, hexplains⟩ :=
    hcontains.explained horigin.raises (isOrdinary_of_runAll hs h)
  refine ⟨b, i, k, v, w, t, ⟨body, hp, hpass⟩, horigin.raises, hv, hcontains, ht, hexplains, hik,
    hw, hdate, ?_, name_eq_iff hn hv hw⟩
  have htitle : (unitsOf (units ++ [u])).title k = some w.name := by simp [unitsOf, hw]
  have hlanguage := Fault.category_ne_layout (isOrdinary_of_runAll hs h)
  rw [horigin.place hlanguage (by rw [hmark]; exact Mark.noConfusion), hmark,
    hlater.source _ hframe.lt_next, hframe.source, htitle]
  rfl

/-! ## A function of one unit that is called by the next -/

/-- A unit that binds a function. -/
def defining : Titled :=
  ⟨"a.nv", ⟨9, 9⟩, "fn f() \x7b return x; \x7d".toList.flatMap String.utf8EncodeChar⟩

/-- A unit that calls the function. -/
def calling : Titled :=
  ⟨"b.nv", ⟨9, 9⟩, "f();".toList.flatMap String.utf8EncodeChar⟩

theorem program_defining :
    Source.program defining.source = .ok [.define (.place 1 1) "f" [] (.block (.place 1 8)
      [.give (.place 1 10) (.var (.place 1 17) "x")])] := rfl

theorem program_calling :
    Source.program calling.source = .ok [.eval (.place 1 1) (.call (.place 1 1) "f" [])] := rfl

theorem run_calling :
    (((start none "").runAll [defining]).run calling.limits (some calling.name) calling.source).1 =
      .error (.stopped (.failure ⟨.undefined "x", some (.place 1 17, some "b.nv")⟩)) := by
  rw [runAll, List.foldl_cons, List.foldl_nil, runTitled, run, program_calling, run,
    program_defining]
  rfl

/-- A function of the first unit fails when the second one calls it. -/
theorem failure_titled_call :
    ∃ (m : Moment) (i k : Nat) (v w : Titled) (t : Token),
      ((start none "").runAll [defining]).Passes calling.limits (some calling.name)
        calling.source m ∧ m.code.Raises (.undefined "x") ∧
      [defining, calling][i]? = some v ∧ v.Contains m.code ∧
      t ∈ (scan v.source).tokens ∧ t.Explains m.code (.undefined "x") ∧
      i ≤ k ∧ [defining, calling][k]? = some w ∧
      (m.frame = root ∧ k = 1 ∨
        m.machine.store.Dated ((start none "").Makes [defining, calling]) m.frame k) ∧
      some (Mark.place 1 17, some "b.nv") = some (.place t.pos.line t.pos.column, some w.name) ∧
      (w.name = v.name ↔ i = k) :=
  failure_titled rfl (by decide) run_calling

/-- **The name need not be that of the unit with the node.** A function that is bound in the root
frame by one unit and called by a later one: the failure carries the name of the later unit, and a
position at which that unit has no node at all. -/
theorem failure_titled_by_caller :
    (((start none "").runAll [defining]).run calling.limits (some calling.name) calling.source).1 =
      .error (.stopped (.failure ⟨.undefined "x", some (.place 1 17, some "b.nv")⟩)) ∧
    defining.Contains (.expr (.var (.place 1 17) "x")) ∧
    ∀ c, calling.Contains c → c.mark ≠ .place 1 17 := by
  refine ⟨run_calling, ⟨_, program_defining, _, List.mem_singleton_self _, ?_⟩, ?_⟩
  · have hgive : (Code.stmt (.give (.place 1 10) (.var (.place 1 17) "x"))).Within
        (.stmt (.define (.place 1 1) "f" [] (.block (.place 1 8)
          [.give (.place 1 10) (.var (.place 1 17) "x")]))) :=
      .part (.part (.refl _) (List.mem_singleton_self _)) (List.mem_singleton_self _)
    exact .trans (.part (.refl _) (List.mem_singleton_self _)) hgive
  · rintro c ⟨body, hp, st, hst, hc⟩
    cases program_calling.symm.trans hp
    obtain rfl := List.mem_singleton.mp hst
    have hall : (Code.stmt (.eval (.place 1 1) (.call (.place 1 1) "f" []))).All
        fun c => c.mark ≠ .place 1 17 :=
      .one (by decide) rfl (.leaf (by decide) rfl)
    exact hall c hc

end Session

end Treewalk
