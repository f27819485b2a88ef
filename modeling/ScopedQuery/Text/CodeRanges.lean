namespace ScopedQuery.Text

/-!
# Sets of code points

Character classes above ASCII are sets of code points that a published table lists as ranges.

* `CodeRanges` — such a set, as inclusive ranges in ascending order.
* `CodeRanges.contains` — membership.
-/

/-- A set of code points, listed as inclusive ranges. -/
structure CodeRanges where
  ranges : List (Nat × Nat)

/-- `n` lies in one of the ranges. -/
def CodeRanges.contains (set : CodeRanges) (n : Nat) : Bool :=
  set.ranges.any fun range => range.1 ≤ n && n ≤ range.2

end ScopedQuery.Text
