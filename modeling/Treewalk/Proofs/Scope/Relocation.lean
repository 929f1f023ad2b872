import Treewalk.Proofs.Eval.Operators
import Treewalk.Proofs.Scope.Chain
import Treewalk.Proofs.Syntax.Recast

/-!
# Moving a store

Frames are called by their place in the store and functions by a running number, and nothing that a
program does depends on which numbers these are. So a store can be moved behind frames that were
there before: every reference to a frame or a function is counted from a later start, and the bodies
of functions may be rewritten on the way. This is a relocation. What programs can see of values does
not change, and names are resolved as before.

## Implementation notes

Moving frames and rewriting code have little to do with each other, but each of them goes through
everything that holds a value, and the laws of the two are the same laws: operators do not look into
functions, bindings are looked up and put as before, the parent of a moved frame is the moved
parent. They are proved once for both. A relocation with no frames before it rewrites in place, and
one that rewrites nothing only moves.

Looking for a name is bounded by the number of the frame it starts from, which grows on the way, so
either nothing was there before, or parents have to be older than their children. `Fits` says this
of a store, and only what resolves names asks for it.

## Main definitions

* `Relocation`, and `Relocation.value`, `Relocation.store`, what becomes of values and stores
* `Relocation.Fits`, stores in which names are resolved as before

## Main results

* `Relocation.applyUnary_value`, `Relocation.applyBinary_value`: operators do not look into
  functions
* `Relocation.owner?_store`, `Relocation.get?_store`: resolving a name
* `Relocation.define_store`, `Relocation.addChild_store`: binding a name and making a frame
-/

namespace Treewalk

/-- What stands before a store that is moved, and what becomes of code and of the names of
sources. -/
structure Relocation extends Recast where
  /-- The frames that were there before. -/
  frames : Array Frame
  /-- The number of functions that were made before. -/
  closures : Nat
  /-- The text that was written before. -/
  output : String
  source : Option String → Option String
  mark_eq_absent : ∀ {m : Mark}, mark m = .absent ↔ m = .absent
  source_none : source none = none

namespace Relocation

variable (R : Relocation)

/-! ## Values -/

/-- The new place of a frame. -/
def frame (f : FrameId) : FrameId :=
  R.frames.size + f

/-- A value whose function, if it is one, is moved and rewritten. -/
def value : Value → Value
  | .closure c =>
    .closure ⟨R.closures + c.id, c.name, c.params, c.body.recast R.toRecast, R.frame c.frame⟩
  | v => v

theorem value_of_not_isClosure {v : Value} (h : v.isClosure = false) : R.value v = v := by
  cases v with
  | closure c => cases h
  | _ => rfl

@[simp] theorem sort_value (v : Value) : (R.value v).sort = v.sort := by cases v <;> rfl
@[simp] theorem truthy_value (v : Value) : (R.value v).truthy = v.truthy := by cases v <;> rfl
@[simp] theorem display_value (v : Value) : (R.value v).display = v.display := by cases v <;> rfl
@[simp] theorem inspect_value (v : Value) : (R.value v).inspect = v.inspect := by cases v <;> rfl
@[simp] theorem number?_value (v : Value) : (R.value v).number? = v.number? := by cases v <;> rfl
@[simp] theorem untextual?_value (v : Value) : (R.value v).untextual? = v.untextual? := by
  cases v <;> rfl

/-- Functions are told apart by numbers, which all grow by the same. -/
@[simp] theorem same?_value (v w : Value) : (R.value v).same? (R.value w) = v.same? w := by
  cases v with
  | closure c =>
    cases w with
    | closure d =>
      exact congrArg some (decide_eq_decide.mpr Nat.add_left_cancel_iff)
    | _ => rfl
  | _ => cases w <;> rfl

@[simp] theorem number_value (v : Value) (op : String) : (R.value v).number op = v.number op := by
  rw [Value.number, Value.number, number?_value, sort_value]

/-! ## Operators -/

theorem compareAsNumbers_value (kind : Kind) (op : String) (v w : Value) :
    (R.value v).compareAsNumbers kind op (R.value w) = v.compareAsNumbers kind op w := by
  rw [Value.compareAsNumbers, number_value, number_value]
  rfl

theorem compare_value (kind : Kind) (op : String) (v w : Value) :
    (R.value v).compare kind op (R.value w) = v.compare kind op w := by
  rw [Value.compare, Value.compare, number?_value, number?_value, same?_value,
    compareAsNumbers_value]

theorem arith_value (kind : Kind) (op : String) (v w : Value) :
    (R.value v).arith kind op (R.value w) = v.arith kind op w := by
  rw [Value.arith, number_value, number_value]
  rfl

/-- An operator does not look into functions. -/
theorem applyUnary_value (kind : Kind) (v : Value) :
    (R.value v).applyUnary kind = (v.applyUnary kind).map R.value := by
  rw [(Value.operates_applyUnary kind v).map_eq fun _ => R.value_of_not_isClosure]
  cases kind <;> first
    | rfl
    | rw [Value.applyUnary, Value.applyUnary, truthy_value]
    | rw [Value.applyUnary, Value.applyUnary, Value.negate, Value.negate, number_value]

theorem applyBinary_value (op : Operator) (v w : Value) :
    (R.value v).applyBinary op (R.value w) = (v.applyBinary op w).map R.value := by
  rw [(Value.operates_applyBinary op v w).map_eq fun _ => R.value_of_not_isClosure,
    Value.applyBinary, Value.applyBinary, compare_value, arith_value]

/-! ## Bindings -/

/-- Bindings to values that are moved. -/
def vars (vars : Bindings) : Bindings :=
  vars.map fun entry => (entry.1, R.value entry.2)

theorem lookup_vars (x : String) (vars : Bindings) :
    (R.vars vars).lookup x = (vars.lookup x).map R.value := by
  induction vars with
  | nil => rfl
  | cons entry rest ih =>
    obtain ⟨key, v⟩ := entry
    change List.lookup x ((key, R.value v) :: R.vars rest) = _
    rw [List.lookup_cons, List.lookup_cons, ih]
    split <;> rfl

theorem put_vars (x : String) (v : Value) (vars : Bindings) :
    (R.vars vars).put x (R.value v) = R.vars (vars.put x v) := by
  induction vars with
  | nil => rfl
  | cons entry rest ih =>
    obtain ⟨key, old⟩ := entry
    change Bindings.put x (R.value v) ((key, R.value old) :: R.vars rest) = _
    rw [Bindings.put, Bindings.put, ih]
    split <;> rfl

theorem foldl_put_vars (entries : List (String × Value)) (vars : Bindings) :
    (entries.map fun e => (e.1, R.value e.2)).foldl (fun vars e => vars.put e.1 e.2) (R.vars vars) =
      R.vars (entries.foldl (fun vars e => vars.put e.1 e.2) vars) := by
  induction entries generalizing vars with
  | nil => rfl
  | cons e rest ih => rw [List.map_cons, List.foldl_cons, List.foldl_cons, put_vars, ih]

/-! ## Stores -/

/-- A frame whose parent and whose values are moved. -/
def framed (f : Frame) : Frame :=
  ⟨f.parent.map R.frame, R.source f.source, R.vars f.vars⟩

/-- A store behind the frames that were there before. -/
def store (s : Store) : Store :=
  ⟨R.frames ++ s.frames.map R.framed⟩

/-- Nothing was there before, or parents are older than their children. -/
def Fits (s : Store) : Prop :=
  R.frames.size = 0 ∨ s.Ordered

variable (s : Store) (f g : FrameId) (x : String) (v : Value)

theorem frames_store : (R.store s).frames[R.frame g]? = s.frames[g]?.map R.framed := by
  rw [store, frame, Array.getElem?_append_right (Nat.le_add_right _ _), Nat.add_sub_cancel_left,
    Array.getElem?_map]

@[simp] theorem next_store : (R.store s).next = R.frame s.next := by
  rw [Store.next, Store.next, store, Array.size_append, Array.size_map, frame]

theorem parent?_store : (R.store s).parent? (R.frame g) = (s.parent? g).map R.frame := by
  rw [Store.parent?, Store.parent?, frames_store]
  cases s.frames[g]? <;> rfl

theorem source?_store : (R.store s).source? (R.frame g) = R.source (s.source? g) := by
  rw [Store.source?, Store.source?, frames_store]
  cases s.frames[g]? with
  | none => exact R.source_none.symm
  | some frame => rfl

theorem vars_store : (R.store s).vars (R.frame g) = R.vars (s.vars g) := by
  rw [Store.vars, Store.vars, frames_store]
  cases s.frames[g]? <;> rfl

/-- What a program would show of a frame is the same at its new place. -/
theorem inspect_vars_store :
    ((R.store s).vars (R.frame g)).map (fun entry => (entry.1, entry.2.inspect)) =
      (s.vars g).map fun entry => (entry.1, entry.2.inspect) := by
  rw [vars_store, vars, List.map_map]
  exact List.map_congr_left fun entry _ => congrArg (Prod.mk entry.1) (R.inspect_value entry.2)

theorem binds_store : (R.store s).binds (R.frame g) x = s.binds g x := by
  rw [Store.binds, Store.binds, vars_store, lookup_vars, Option.isSome_map]

theorem chainFrom_store (n : Nat) :
    (R.store s).chainFrom n (R.frame f) = (s.chainFrom n f).map R.frame := by
  induction n generalizing f with
  | zero => rfl
  | succ n ih =>
    rw [Store.chainFrom, Store.chainFrom, parent?_store]
    cases s.parent? f with
    | none => rfl
    | some p => exact congrArg (R.frame f :: ·) (ih p)

variable {s}

/-- The bound on the number of steps grows with the number of the frame, but it was not reached. -/
theorem chain_store (h : R.Fits s) :
    (R.store s).chain (R.frame f) = (s.chain f).map R.frame := by
  rw [Store.chain, chainFrom_store]
  rcases h with hnone | hordered
  · rw [frame, hnone, Nat.zero_add, Store.chain]
  · have hlt : f < R.frame f + 1 := Nat.lt_succ_of_le (Nat.le_add_left _ _)
    rw [(hordered.line_chainFrom hlt).unique (hordered.line_chain f)]

/-- A name is resolved by the same frame at its new place. The frame and the chain are moved
together, and frames that were there before are not on it. -/
theorem owner?_store (h : R.Fits s) :
    (R.store s).owner? (R.frame f) x = (s.owner? f x).map R.frame := by
  have hbinds : (fun g => (R.store s).binds g x) ∘ R.frame = fun g => s.binds g x := by
    funext g
    exact R.binds_store s g x
  rw [Store.owner?, Store.owner?, R.chain_store f h, List.find?_map, hbinds]

theorem get?_store (h : R.Fits s) :
    (R.store s).get? (R.frame f) x = (s.get? f x).map R.value := by
  rw [Store.get?, Store.get?, R.owner?_store f x h]
  cases s.owner? f x with
  | none => rfl
  | some g => exact (congrArg _ (R.vars_store s g)).trans (R.lookup_vars x _)

variable (s)

/-- A change of one frame is a change of the moved frame at its new place. -/
theorem store_modify {change change' : Frame → Frame}
    (h : ∀ frame, R.framed (change frame) = change' (R.framed frame)) :
    R.store ⟨s.frames.modify f change⟩ = ⟨(R.store s).frames.modify (R.frame f) change'⟩ := by
  rw [store, Store.mk.injEq]
  refine Array.ext_getElem? fun g => ?_
  rw [Array.getElem?_modify, store]
  by_cases hg : g < R.frames.size
  · have hne : ¬R.frame f = g := fun heq => Nat.not_lt.mpr (Nat.le_add_right _ f) (heq ▸ hg)
    rw [if_neg hne, Array.getElem?_append_left hg, Array.getElem?_append_left hg]
  · have hle := Nat.not_lt.mp hg
    rw [Array.getElem?_append_right hle, Array.getElem?_append_right hle, Array.getElem?_map,
      Array.getElem?_map, Array.getElem?_modify]
    have heq : f = g - R.frames.size ↔ R.frame f = g :=
      ⟨fun hf => hf ▸ Nat.add_sub_cancel' hle, fun hf => hf ▸ (Nat.add_sub_cancel_left ..).symm⟩
    by_cases hf : f = g - R.frames.size
    · rw [if_pos hf, if_pos (heq.mp hf)]
      cases s.frames[g - R.frames.size]? with
      | none => rfl
      | some frame => exact congrArg some (h frame)
    · rw [if_neg hf, if_neg fun hc => hf (heq.mpr hc)]

/-- A source keeps its name if nothing is done to names. -/
theorem rename_store {name : String} (h : R.source (some name) = some name) :
    R.store (s.rename f name) = (R.store s).rename (R.frame f) name := by
  refine R.store_modify s f fun frame => ?_
  rw [framed, framed, h]

theorem define_store :
    (R.store s).define (R.frame f) x (R.value v) = R.store (s.define f x v) := by
  refine (R.store_modify s f fun frame => ?_).symm
  rw [Frame.define, Frame.define, framed, framed, put_vars]

theorem addChild_store (vars : Bindings) :
    (R.store s).addChild (R.frame f) none (R.vars vars) = R.store (s.addChild f none vars) := by
  rw [Store.addChild, Store.addChild, Store.add, Store.add, source?_store, store, store,
    Array.map_push, Array.append_push]
  rfl

end Relocation

end Treewalk
