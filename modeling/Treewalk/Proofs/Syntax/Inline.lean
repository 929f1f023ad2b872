import Treewalk.Proofs.Syntax.Code

/-!
# Code outside of functions

A node that makes a function does not run its body; that runs when the function is called, whenever
and wherever this may be. So there are things that code does itself and things that it only
prepares, and what is said about the first kind leaves the bodies of functions out. A node is
described by itself, as for `Code.All`, and the description is extended to all that stands outside
of functions.

## Why bodies are left out

To say that an expression calls nothing, or that a statement does not give a value, is to say
something about what happens now. A function that is made may well contain calls and may give
values, but not before it is called. So the same node counts or not, depending on whether a function
stands between it and the code in question.

## Main definitions

* `Code.own`, the parts of a node that run when the node does
* `Code.Inline`, `Code.AllInline`, what stands in code outside of functions
* `Code.CallFree`, `Code.GiveFree`, code that calls nothing itself, and code that gives no value
  itself

## Main results

* `Code.allInline_iff`: a property holds outside of functions if it holds of the node and outside of
  functions in its own parts

## Implementation notes

`own` differs from `parts` in two cases and agrees with it in all others, so what is known of parts
is known of own parts. The relation and the extension to everything outside of functions are built
on it just as those of `Code.All` are built on `parts`, and `allInline_iff` has the same use as
`Code.all_iff`: a hypothesis about a piece of code is taken apart along with the code, one level at
a time.
-/

namespace Treewalk.Code

/-- The parts of a node that run when the node does: all but the body of a function. -/
def own : Code → List Code
  | .expr (.lambda _ _ _) | .stmt (.define _ _ _ _) => []
  | c => c.parts

/-- The first node is the second or stands somewhere within it, but in no body of a function. -/
inductive Inline : Code → Code → Prop where
  | refl (c : Code) : Inline c c
  | part {c d e : Code} (h : Inline c d) (hd : d ∈ e.own) : Inline c e

/-- All nodes outside of the bodies of functions satisfy a property. -/
def AllInline (P : Code → Prop) (c : Code) : Prop :=
  ∀ d : Code, d.Inline c → P d

variable {P : Code → Prop} {c d : Code}

theorem mem_parts_of_mem_own (h : d ∈ c.own) : d ∈ c.parts := by
  rw [own.eq_def] at h
  split at h
  · exact absurd h List.not_mem_nil
  · exact absurd h List.not_mem_nil
  · exact h

theorem AllInline.here (h : AllInline P c) : P c :=
  h c (.refl c)

theorem AllInline.part (h : AllInline P c) (hd : d ∈ c.own) : AllInline P d :=
  fun e he => h e (.part he hd)

/-- A property holds outside of functions if it holds of the node and outside of functions in its
own parts. -/
theorem allInline_iff : AllInline P c ↔ P c ∧ ∀ d ∈ c.own, AllInline P d := by
  constructor
  · intro h
    exact ⟨h.here, fun d hd => h.part hd⟩
  · rintro ⟨hc, hp⟩ e he
    cases he with
    | refl => exact hc
    | part h hd => exact hp _ hd e h

/-- The node calls a function. -/
def isCall : Code → Bool
  | .expr (.call _ _ _) => true
  | _ => false

/-- The node gives a value to the function around it. -/
def isGive : Code → Bool
  | .stmt (.give _ _) => true
  | _ => false

/-- No call stands in the code, unless in the body of a function. -/
def CallFree (c : Code) : Prop :=
  c.AllInline fun d => d.isCall = false

/-- No value is given in the code, unless in the body of a function. -/
def GiveFree (c : Code) : Prop :=
  c.AllInline fun d => d.isGive = false

end Treewalk.Code
