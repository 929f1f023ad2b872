/-!
# Character classes as range tables

A class of characters is given by its inclusive ranges of code points, in increasing order.
Membership is a plain search, so a class is exactly the union of its rows.

## Main definitions

* `Ranges`, a list of inclusive ranges of code points
* `Ranges.has`, membership of a character

## Implementation notes

A table is a list of pairs and is searched linearly. A balanced tree would be faster, but the class
would no longer be visibly the union of its rows, and a wrong row could hide behind a wrong balance.
-/

namespace Treewalk.Text

/-- Inclusive ranges of code points. -/
abbrev Ranges := List (Nat × Nat)

/-- Some row of the table covers the character. -/
def Ranges.has (table : Ranges) (c : Char) : Bool :=
  table.any fun row => decide (row.1 ≤ c.toNat) && decide (c.toNat ≤ row.2)

@[simp] theorem Ranges.has_nil (c : Char) : Ranges.has [] c = false := rfl

@[simp] theorem Ranges.has_append (s t : Ranges) (c : Char) :
    Ranges.has (s ++ t) c = (Ranges.has s c || Ranges.has t c) :=
  List.any_append

end Treewalk.Text
