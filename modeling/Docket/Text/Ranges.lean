/-!
# Sets of characters

A set of characters given by ranges of code points, the form in which the
properties of Unicode characters are tabulated in this library.

## Main definitions

* `CharRanges`: A list of ranges, both ends included.
* `CharRanges.contains`: Membership.
-/

namespace Docket

/-- Ranges of code points, both ends included. -/
abbrev CharRanges := List (Nat × Nat)

/-- Whether a character lies in one of the ranges. -/
def CharRanges.contains (ranges : CharRanges) (c : Char) : Bool :=
  ranges.any fun r => decide (r.1 ≤ c.toNat) && decide (c.toNat ≤ r.2)

end Docket
