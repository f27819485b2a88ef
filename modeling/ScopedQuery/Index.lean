namespace ScopedQuery

/-!
# Machine indices

Positions and counts that a machine works with are whole numbers of 64 bits, one of which is the
sign.

* `Index.fits` — whether a number is one of them.
* `Index.refusal` — what is told of a number that is none.
-/

namespace Index

/-- `n` is a machine index. -/
def fits (n : Int) : Bool := -0x8000000000000000 ≤ n && n < 0x8000000000000000

/-- The wording for a number that is no machine index. -/
def refusal : String := "cannot fit 'int' into an index-sized integer"

end Index

end ScopedQuery
