import Treewalk.Proofs.Eval.Invariant
import Treewalk.Proofs.Eval.Operators

/-!
# Invariants about functions

Frames matter to a value only if it is a function that a program made. An invariant about frames has
nothing to say about numbers and texts, and none about faults either. What is left to show for it is
about scope: reading and binding names, new frames, new functions and calls.

## Why this is a class of invariants

Most invariants of this development are about frames: which frames there are, who refers to whom,
which names are bound where. For all of them the fields of `Stable` on operators, literals, texts
and faults have the same proof, namely that the value at hand is no function. `OfFunctions` asks for
the other fields, and `OfFunctions.stable` fills in the rest. What remains to be shown for such an
invariant is then about the store, and it does not change when an operator or a built-in function
is added.

An invariant that is about numbers or texts cannot be given this way, for it has to say what
operators do; there are two of these, and they give `Stable` directly.

## Main results

* `Invariant.OfFunctions.stable`

## Implementation notes

`plain` asks that every value that is no function is a good one on every machine. It is stronger
than what the operators need, but nothing weaker would be closed under the built-in functions, which
make texts of whatever is in the input.
-/

namespace Treewalk.Invariant

/-- What evaluation can do with frames and functions keeps the invariant, which is about nothing
else. The fields that have a name in `Stable` say what they say there. An invariant of this kind
says nothing about numbers and texts, so operators, formats and input keep it for a reason that has
nothing to do with it. -/
structure OfFunctions (I : Invariant) : Prop where
  plain (m : Machine) {v : Value} (hv : v.isClosure = false) : I.value m v
  fault (f : Fault) : I.fault f
  refl (m : Machine) : I.grows m m
  trans {m₁ m₂ m₃ : Machine} (h : I.grows m₁ m₂) (h' : I.grows m₂ m₃) : I.grows m₁ m₃
  value_grows {m m' : Machine} {v : Value} (h : I.grows m m') (hv : I.value m v) : I.value m' v
  frame_grows {m m' : Machine} {f : FrameId} (h : I.grows m m') (hf : I.frame m f) : I.frame m' f
  owned_grows {m m' : Machine} {f : FrameId} (h : I.grows m m') (hf : I.owned m f) : I.owned m' f
  code_grows {m m' : Machine} {f : FrameId} {c : Code} (h : I.grows m m') (hc : I.code m f c) :
    I.code m' f c := by intros; assumption
  part {m : Machine} {f : FrameId} {c d : Code} (hc : I.code m f c) (hd : d ∈ c.parts) :
    I.code m f d
  lookup {m : Machine} {f : FrameId} {name : String} {v : Value} (hm : I.state m)
    (hf : I.frame m f) (hv : m.store.get? f name = some v) : I.value m v
  assign {m : Machine} {f g : FrameId} {name : String} {v : Value} (hm : I.state m)
    (hf : I.frame m f) (hg : m.store.owner? f name = some g) (hv : I.value m v) :
    I.Next m { m with store := m.store.define g name v }
  declare {m : Machine} {f : FrameId} {v : Value} (name : String) (hm : I.state m)
    (hf : I.frame m f) (ho : I.owned m f) (hv : I.value m v) :
    I.Next m { m with store := m.store.define f name v }
  enter {m : Machine} {f : FrameId} {vars : Bindings} (hm : I.state m) (hf : I.frame m f)
    (hv : ∀ entry ∈ vars, I.value m entry.2) :
    let m' : Machine := { m with store := m.store.addChild f none vars }
    I.Next m m' ∧ I.frame m' m.store.next ∧ I.owned m' m.store.next
  inside {m : Machine} {f : FrameId} {c : Code} (vars : Bindings) (hm : I.state m)
    (hf : I.frame m f) (hc : I.code m f c) :
    I.code { m with store := m.store.addChild f none vars } m.store.next c := by intros; assumption
  close {m : Machine} {f : FrameId} {c : Code} {name : Option String} {params : List String}
    {body : Stmt} (hm : I.state m) (hf : I.frame m f) (hc : I.code m f c)
    (hp : c.function? = some (name, params, body)) :
    let m' : Machine := { m with closures := m.closures + 1 }
    I.Next m m' ∧ I.value m' (.closure ⟨m.closures, name, params, body, f⟩)
  called {m : Machine} {c : Closure} (hv : I.value m (.closure c)) :
    I.code m c.frame (.stmt c.body) ∧ I.frame m c.frame
  outside {m m' : Machine} (hm : I.state m) (hs : m'.store = m.store)
    (hc : m'.closures = m.closures) : I.Next m m'

variable {I : Invariant}

/-- The result of an operator is no function, and any fault may be raised. -/
theorem OfFunctions.yields_of_operates (h : I.OfFunctions) {m : Machine} {kind : Kind}
    {x : Except Fault Value} (hx : Value.Operates kind x) : I.Yields x (I.value m) := by
  cases x with
  | ok v => exact h.plain m (Value.isClosure_of_isScalar hx)
  | error f => exact h.fault f

/-- A literal is no function. -/
theorem isClosure_of_literal? {e : Expr} {v : Value} (h : e.literal? = some v) :
    v.isClosure = false := by
  cases e <;> cases h
  all_goals rfl

theorem OfFunctions.stable (h : I.OfFunctions) : I.Stable where
  refl := h.refl
  trans := h.trans
  value_grows := h.value_grows
  frame_grows := h.frame_grows
  owned_grows := h.owned_grows
  code_grows := h.code_grows
  part := h.part
  literal _ hv := h.plain _ (isClosure_of_literal? hv)
  nil m := h.plain m rfl
  lookup := h.lookup
  assign := h.assign
  declare := h.declare
  enter := h.enter
  inside := h.inside
  close := h.close
  called := h.called
  outside := h.outside
  unary _ _ := h.yields_of_operates (Value.operates_applyUnary _ _)
  binary _ _ _ _ _ := h.yields_of_operates (Value.operates_applyBinary _ _ _)
  untextual _ _ _ := h.fault _
  words _ _ := h.plain _ rfl
  wordless _ _ := h.fault _
  formatted _ _ _ := h.plain _ rfl
  line m := h.plain m rfl
  ordinary _ _ := h.fault _
  misfit _ _ := h.fault _

end Treewalk.Invariant
