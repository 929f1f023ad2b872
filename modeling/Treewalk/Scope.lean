import Treewalk.Value

/-!
# Frames and scope

A frame binds names to values and may have a parent. Frames live in a store and are never removed,
so a closure can refer to the frame that it was made in, and all closures of one frame see each
other's changes. A name is resolved by the innermost frame on the chain of parents that binds it.

A parent is always older than its child, so a chain is found by following parents at most as often
as the number of the frame says.

## Main definitions

* `Bindings.put`, binding a name
* `Frame`, `Store`
* `Store.chain`, `Store.owner?`, resolving a name
* `Store.get?`, `Store.set?`, `Store.define`, reading, assigning and declaring
* `Store.addRoot`, `Store.addChild`, new frames

## Main results

* `Bindings.lookup_put`: a binding changes one name

## Implementation notes

Frames are numbered and refer to each other by number. Nested frames as values would copy the
bindings that a closure shares with the function around it, and an assignment would then be seen by
one of them only.

`chain` follows at most as many parents as the number of the frame, plus one for the frame itself.
For a store made by a session this bound is never reached, since parents are older than their
children; for an arbitrary store it makes the chain a finite list without a hypothesis. So the three
operations on names are total, and well-formedness is needed only for what a chain is, not for
whether it exists.

`put` keeps a name in its place. The order of bindings is observable only in a listing of a frame,
but keeping it makes `lookup_put` true without a condition on the list.
-/

namespace Treewalk

/-- Names and their values, each name at most once. -/
abbrev Bindings := List (String × Value)

namespace Bindings

/-- Binds a name, in its old place if it has one. -/
def put (name : String) (value : Value) : Bindings → Bindings
  | [] => [(name, value)]
  | (other, old) :: rest =>
    if other = name then (name, value) :: rest else (other, old) :: put name value rest

/-- A binding changes one name. -/
theorem lookup_put (name other : String) (value : Value) (vars : Bindings) :
    (put name value vars).lookup other =
      if other = name then some value else vars.lookup other := by
  induction vars with
  | nil =>
    by_cases h : other = name
    · simp [put, h]
    · simp [put, List.lookup_cons, beq_false_of_ne h, h]
  | cons entry rest ih =>
    obtain ⟨key, old⟩ := entry
    by_cases hk : key = name
    · subst hk
      by_cases h : other = key
      · simp [put, h]
      · simp [put, h, List.lookup_cons, beq_false_of_ne h]
    · by_cases ho : other = key
      · subst ho
        simp [put, hk]
      · simp [put, hk, List.lookup_cons, beq_false_of_ne ho, ih]

/-- The built-in functions under their own names. -/
def builtins : Bindings :=
  Builtin.all.map fun b => (b.name, .builtin b)

end Bindings

/-- Bindings, the frame around them, and the name of the source that runs in it. -/
structure Frame where
  parent : Option FrameId
  source : Option String
  vars : Bindings

namespace Frame

/-- The frame binds the name. -/
def binds (f : Frame) (name : String) : Bool :=
  (f.vars.lookup name).isSome

/-- The frame with one more binding. -/
def define (f : Frame) (name : String) (value : Value) : Frame :=
  { f with vars := f.vars.put name value }

end Frame

/-- All frames, in the order of their making. -/
structure Store where
  frames : Array Frame

namespace Store

/-- No frames at all. -/
def empty : Store := ⟨#[]⟩

/-- The parent of a frame. -/
def parent? (s : Store) (f : FrameId) : Option FrameId :=
  s.frames[f]?.bind Frame.parent

/-- The name of the source that runs in a frame. -/
def source? (s : Store) (f : FrameId) : Option String :=
  s.frames[f]?.bind Frame.source

/-- The bindings of a frame. -/
def vars (s : Store) (f : FrameId) : Bindings :=
  (s.frames[f]?.map Frame.vars).getD []

/-- The frame itself binds the name. -/
def binds (s : Store) (f : FrameId) (name : String) : Bool :=
  ((s.vars f).lookup name).isSome

/-- A frame and the frames around it, at most so many. -/
def chainFrom (s : Store) : Nat → FrameId → List FrameId
  | 0, _ => []
  | n + 1, f =>
    match s.parent? f with
    | none => [f]
    | some p => f :: s.chainFrom n p

/-- A frame and all frames around it, the innermost first. -/
def chain (s : Store) (f : FrameId) : List FrameId :=
  s.chainFrom (f + 1) f

/-- The innermost frame around that binds the name. -/
def owner? (s : Store) (f : FrameId) (name : String) : Option FrameId :=
  (s.chain f).find? fun g => s.binds g name

/-- The value of a name as a frame sees it. -/
def get? (s : Store) (f : FrameId) (name : String) : Option Value :=
  (s.owner? f name).bind fun g => (s.vars g).lookup name

/-- Binds a name in a frame itself. -/
def define (s : Store) (f : FrameId) (name : String) (value : Value) : Store :=
  ⟨s.frames.modify f fun frame => frame.define name value⟩

/-- Changes the binding that a frame sees, if there is one. -/
def set? (s : Store) (f : FrameId) (name : String) (value : Value) : Option Store :=
  (s.owner? f name).map fun g => s.define g name value

/-- A new frame at the end of the store. -/
def add (s : Store) (frame : Frame) : Store :=
  ⟨s.frames.push frame⟩

/-- The number that the next new frame gets. -/
def next (s : Store) : FrameId :=
  s.frames.size

/-- A new frame without a parent, which knows the built-in functions. -/
def addRoot (s : Store) (source : Option String) : Store :=
  s.add ⟨none, source, Bindings.builtins⟩

/-- A new frame inside another, with bindings to start with; without a source name of its own it
takes that of its parent. -/
def addChild (s : Store) (parent : FrameId) (source : Option String) (vars : Bindings) : Store :=
  s.add ⟨some parent, source.or (s.source? parent), vars⟩

/-- Renames the source that runs in a frame. -/
def rename (s : Store) (f : FrameId) (source : String) : Store :=
  ⟨s.frames.modify f fun frame => { frame with source := some source }⟩

@[simp] theorem next_addChild (s : Store) (p : FrameId) (source : Option String) (vars : Bindings) :
    (s.addChild p source vars).next = s.next + 1 := by
  simp [addChild, add, next]

@[simp] theorem next_define (s : Store) (f : FrameId) (name : String) (value : Value) :
    (s.define f name value).next = s.next := by
  simp [define, next]

end Store

end Treewalk
