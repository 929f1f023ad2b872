import Treewalk.Proofs.Eval.Relocation

/-!
# Forgetting places

A program keeps track of places for one purpose: to say where it failed. To forget them is to put
the same numbers into every mark and to take the names of sources out of the frames. What is left is
called bare. Code is bare, and so are values, which hold code, and all that holds values.

## Implementation notes

Forgetting is a relocation that moves nothing, so it commutes with everything that does not look at
a place, and there is nothing to prove about it but what it does to the few things that do: the name
of a source, and how a value shows.

A mark that says nothing stays one that says nothing, so bare code still tells which nodes have a
place at all. If it did not, a failure could be blamed on another node when places are forgotten,
one that has no place before.

## Main definitions

* `Mark.bare`, `Expr.bare`, `Stmt.bare`
* `Relocation.bare`
* `Value.bare`, `Machine.bare`, values and machines without places

## Main results

* `Stmt.bare_remark`: moving code makes no difference but in places
* `Value.inspect_bare`: values show alike without places
* `Relocation.rename_bare`: the name of a source is one of the places
-/

namespace Treewalk

/-! ## Code -/

/-- A mark without its numbers. -/
def Mark.bare : Mark → Mark
  | .absent => .absent
  | .line _ => .line 0
  | .place _ _ => .place 0 0

/-- An expression without places. -/
def Expr.bare (e : Expr) : Expr :=
  e.remark Mark.bare

/-- A statement without places. -/
def Stmt.bare (s : Stmt) : Stmt :=
  s.remark Mark.bare

/-- Moving code makes no difference but in places. -/
theorem Stmt.bare_remark {f : Mark → Mark} (hf : ∀ mark : Mark, (f mark).bare = mark.bare)
    (s : Stmt) : (s.remark f).bare = s.bare := by
  have hcomp : Recast.comp ⟨Mark.bare, false⟩ ⟨f, false⟩ = ⟨Mark.bare, false⟩ :=
    congrArg (Recast.mk · false) (funext hf)
  exact (s.recast_recast _ _).trans (congrArg s.recast hcomp)

/-! ## Machines -/

/-- Nothing stands before, and places are forgotten. -/
def Relocation.bare : Relocation where
  mark := Mark.bare
  trims := false
  frames := #[]
  closures := 0
  output := ""
  source _ := none
  mark_eq_absent := by
    intro m
    cases m <;> simp [Mark.bare]
  source_none := rfl

/-- A value whose function, if it is one, has a body without places. -/
def Value.bare (v : Value) : Value :=
  Relocation.bare.value v

/-- A machine without places, and without the names of sources. -/
def Machine.bare (m : Machine) : Machine :=
  Relocation.bare.machine m

@[simp] theorem Value.inspect_bare (v : Value) : v.bare.inspect = v.inspect :=
  Relocation.bare.inspect_value v

namespace Relocation

theorem recastAll_bare (ss : List Stmt) : Stmt.recastAll bare.toRecast ss = ss.map Stmt.bare :=
  Stmt.recastAll_eq_map Mark.bare ss

/-- The name of the source that runs in a frame is one of the places. -/
theorem rename_bare (s : Store) (f : FrameId) (name : String) :
    bare.store (s.rename f name) = bare.store s := by
  have hsource : ∀ frame : Frame, bare.framed { frame with source := some name } =
      id (bare.framed frame) := fun _ => rfl
  have hid : (bare.store s).frames.modify (bare.frame f) id = (bare.store s).frames := by
    refine Array.ext_getElem? fun g => ?_
    rw [Array.getElem?_modify, Option.map_id_fun, id, ite_self]
  rw [Store.rename, bare.store_modify s f hsource, hid]

end Relocation

end Treewalk
