/-!
# Sets of code points

A class of characters is listed as closed ranges of code points; `Ranges.contains` is membership.
-/

namespace NineBit.Text

/-- A set of code points, as closed ranges `(first, last)`. -/
abbrev Ranges := List (Nat × Nat)

/-- Some range of the set holds the character. -/
def Ranges.contains (set : Ranges) (c : Char) : Bool :=
  set.any fun range => decide (range.1 ≤ c.toNat) && decide (c.toNat ≤ range.2)

end NineBit.Text
