/-!
# Sets of code points

A large class of characters is given by the ranges of its code points.
-/

namespace MicroLang.Text

/-- A set of code points: inclusive ranges, in increasing order. -/
structure CodePoints where
  ranges : List (Nat × Nat)

/-- Whether a character belongs to the set. -/
def CodePoints.contains (set : CodePoints) (c : Char) : Bool :=
  set.ranges.any fun range => range.1 ≤ c.toNat && c.toNat ≤ range.2

end MicroLang.Text
