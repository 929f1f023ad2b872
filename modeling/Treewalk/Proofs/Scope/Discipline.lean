import Treewalk.Proofs.Eval.Functions
import Treewalk.Proofs.Scope.Store
import Treewalk.Proofs.Syntax.Derived
import Treewalk.Session

/-!
# Scope discipline

Frames are shared: a closure keeps the frame that it was made in, and whoever calls it runs code
there. What a program can rely on is that nobody else's code changes which names a frame binds. Only
a declaration does, and only in the frame that it runs in.

Nothing here depends on how a machine came about, so the results hold for all machines and not just
for those that a session reaches.

## Why names, and not values

Code that runs somewhere else may assign to a name, so what a name stands for is open to everyone
who can reach its frame. Which names a frame binds is not: there is no deletion, an assignment needs
a binding that exists, and a declaration goes to the innermost frame. This is what makes it possible
to say of a name in a source which declaration it belongs to, without running anything.

## Why the source must parse

A body without braces would run in the frame of the statement that it belongs to, and a declaration
in it would introduce a name there. The grammar has braces around all bodies, so for accepted
sources a statement introduces a name only if it is itself a declaration. `sameNames_exec` asks for
no source and is stated with `Stmt.introduces`, which is about all trees.

## Main definitions

* `Store.SameNames`, two stores agree on which names the frames of the first bind

## Main results

* `Run.sameNames_eval`: no expression changes which names a frame binds
* `Run.sameNames_exec`: nor does a statement that introduces nothing
* `Run.scope_discipline`: the code of an accepted source binds names by its own declarations alone

## Implementation notes

The invariant fixes a number of frames, those that exist at the start, and which names each of them
binds, exactly. Code may declare only in frames that are made later, so what it says of the machine
never changes, and it is kept by everything, calls included, without a word about what functions
are. A declaration in the frame that the code runs in does not keep it. It is the last thing that
such a statement does, after the invariant has been used for what it evaluates first.
-/

namespace Treewalk

/-- The frames of the first store bind the same names in the second. -/
def Store.SameNames (s s' : Store) : Prop :=
  ∀ g < s.next, ∀ x, s'.binds g x = s.binds g x

/-- The frames of the first store bind what they did in the second, and more only in one frame,
names of one kind. -/
structure Store.Gains (s s' : Store) (f : FrameId) (new : String → Prop) : Prop where
  kept : ∀ g < s.next, ∀ x, s.binds g x = true → s'.binds g x = true
  gained : ∀ g < s.next, ∀ x, s'.binds g x = true → s.binds g x = true ∨ g = f ∧ new x

theorem Store.SameNames.gains {s s' : Store} (h : s.SameNames s') (f : FrameId)
    (new : String → Prop) : s.Gains s' f new where
  kept g hg x hx := by rw [h g hg x, hx]
  gained g hg x hx := .inl (by rw [← h g hg x, hx])

/-- The first frames bind exactly the names that they are said to bind; declarations are for frames
made later. -/
def bindingExactly (count : Nat) (bound : FrameId → String → Bool) : Invariant where
  state m := count ≤ m.store.next ∧ ∀ g < count, ∀ x, m.store.binds g x = bound g x
  grows _ _ := True
  value _ _ := True
  frame _ _ := True
  owned _ f := count ≤ f
  code _ _ _ := True
  fault _ := True

theorem bindingExactly_ofFunctions (count : Nat) (bound : FrameId → String → Bool) :
    (bindingExactly count bound).OfFunctions where
  plain _ _ _ := trivial
  fault _ := trivial
  refl _ := trivial
  trans _ _ := trivial
  value_grows _ _ := trivial
  frame_grows _ _ := trivial
  owned_grows _ ho := ho
  part _ _ := trivial
  lookup _ _ _ := trivial
  assign hm _ hg _ := by
    refine ⟨⟨by simpa using hm.1, fun g' hg' x => ?_⟩, trivial⟩
    rw [Store.binds_define_of_binds (Store.binds_of_owner? hg)]
    exact hm.2 g' hg' x
  declare name hm _ ho _ := by
    refine ⟨⟨by simpa using hm.1, fun g' hg' x => ?_⟩, trivial⟩
    rw [Store.binds_define_of_ne (Nat.ne_of_gt (Nat.lt_of_lt_of_le hg' ho))]
    exact hm.2 g' hg' x
  enter hm _ _ := by
    refine ⟨⟨⟨?_, fun g' hg' x => ?_⟩, trivial⟩, trivial, hm.1⟩
    · simpa using Nat.le_succ_of_le hm.1
    · rw [Store.binds_addChild_of_lt (Nat.lt_of_lt_of_le hg' hm.1)]
      exact hm.2 g' hg' x
  close hm _ _ _ := ⟨⟨hm, trivial⟩, trivial⟩
  called _ := ⟨trivial, trivial⟩
  outside hm hs _ := by
    refine ⟨?_, trivial⟩
    change _ ≤ _ ∧ _
    rw [hs]
    exact hm

namespace Run

variable {m : Machine}

/-- The invariant that says of a machine what it binds now. -/
theorem state_now (m : Machine) : (bindingExactly m.store.next m.store.binds).state m :=
  ⟨Nat.le_refl _, fun _ _ _ => rfl⟩

/-- No expression changes which names a frame binds. -/
theorem sameNames_eval (limits : Limits) (e : Expr) (f : FrameId) (m : Machine) :
    m.store.SameNames ((evalIn limits e f).after m).store := by
  have hstable := (bindingExactly_ofFunctions m.store.next m.store.binds).stable
  have hkeeps := hstable.eval_keeps limits (e := e) (f := f) (m := m) trivial trivial
  exact (hkeeps.next_after (state_now m)).state.2

/-- A statement that introduces nothing does not change which names a frame binds. What it runs may
declare names, in frames that are made for that. -/
theorem sameNames_exec (limits : Limits) {s : Stmt} (f : FrameId) (m : Machine)
    (hs : s.introduces = []) : m.store.SameNames ((execIn limits s f).after m).store := by
  have hstable := (bindingExactly_ofFunctions m.store.next m.store.binds).stable
  have hkeeps := hstable.exec_keeps limits (f := f) (m := m) trivial trivial (.inr hs)
  exact (hkeeps.next_after (state_now m)).state.2

/-- A computation that leaves all names alone, followed by a declaration. -/
theorem gains_declaring {p : Run Value} {x : String} (mark : Mark) (f : FrameId)
    (hp : m.store.SameNames (p.after m).store) :
    m.store.Gains ((blaming mark f do
      declare f x (← p)
      return Flow.next).after m).store f (· = x) := by
  rw [after_blaming]
  cases hr : p m with
  | error stop m' =>
    rw [after_bind_of_error hr]
    rw [after_of_error hr] at hp
    exact hp.gains f _
  | ok v m' =>
    rw [after_bind_of_ok hr]
    rw [after_of_ok hr] at hp
    change m.store.Gains (m'.store.define f x v) f (· = x)
    constructor
    · intro g hg y hy
      rw [Store.binds_define, hp g hg y, hy, Bool.true_or]
    · intro g hg y hy
      rw [Store.binds_define, hp g hg y, Bool.or_eq_true, decide_eq_true_eq] at hy
      exact hy.imp_right fun ⟨hfg, _, hyx⟩ => ⟨hfg.symm, hyx⟩

/-- A declaration binds its own name in its own frame and nothing else. -/
theorem gains_exec_of_declares (limits : Limits) {s : Stmt} {x : String} (hs : s.Declares x)
    (f : FrameId) (m : Machine) :
    m.store.Gains ((execIn limits s f).after m).store f (· = x) := by
  rw [execIn]
  cases hn : limits.nesting with
  | zero =>
    rw [exec]
    exact Store.SameNames.gains (fun _ _ _ => rfl) f _
  | succ n =>
    obtain ⟨mark, e, rfl⟩ | ⟨mark, params, body, rfl⟩ := hs
    · rw [exec.eq_def]
      exact gains_declaring mark f (sameNames_eval ⟨n, limits.rounds⟩ e f m)
    · rw [exec.eq_def]
      exact gains_declaring mark f fun _ _ _ => rfl

/-- **Scope discipline.** Take any expression or statement within a source that parses and run it in
any frame of any machine; whatever the outcome, every name that a frame bound is still bound there,
and a name is new only in the frame that the code ran in, if the code is itself a declaration of
that name. -/
theorem scope_discipline {source : List UInt8} {body : List Stmt}
    (h : Source.parse source = .ok body) {st : Stmt} (hst : st ∈ body) (limits : Limits)
    (f : FrameId) (m : Machine) :
    (∀ e : Expr, Code.Within (.expr e) (.stmt st) →
      m.store.Gains ((evalIn limits e f).after m).store f fun _ => False) ∧
    (∀ s : Stmt, Code.Within (.stmt s) (.stmt st) →
      m.store.Gains ((execIn limits s f).after m).store f s.Declares) := by
  have hproper := (Source.items_of_parse h).proper st hst
  refine ⟨fun e _ => (sameNames_eval limits e f m).gains f _, fun s hs => ?_⟩
  rcases s.introduces_of_proper (hproper.within hs) with hnone | ⟨x, -, hx⟩
  · exact (sameNames_exec limits f m hnone).gains f _
  · obtain ⟨hkept, hgained⟩ := gains_exec_of_declares limits hx f m
    refine ⟨hkept, fun g hg y hy => ?_⟩
    refine (hgained g hg y hy).imp_right fun ⟨hgf, hyx⟩ => ⟨hgf, ?_⟩
    rw [hyx]
    exact hx

/-- In `{ let x = nil; }` the block binds nothing where it runs, though the declaration in it
does. -/
theorem scope_discipline_block :
    (Session.start none "").machine.store.Gains
      ((execIn ⟨9, 9⟩ (.block (.place 1 1)
        [.declare (.place 1 3) "x" (.nil (.place 1 11))]) 0).after
        (Session.start none "").machine).store 0
      (Stmt.Declares (.block (.place 1 1) [.declare (.place 1 3) "x" (.nil (.place 1 11))])) := by
  have hp : Source.parse ("\x7b let x = nil; \x7d".toList.flatMap String.utf8EncodeChar) =
      .ok [.block (.place 1 1) [.declare (.place 1 3) "x" (.nil (.place 1 11))]] := rfl
  exact (scope_discipline hp List.mem_cons_self ⟨9, 9⟩ 0 _).2 _ (.refl _)

end Run

end Treewalk
