namespace ScopedQuery

/-!
# Locations

A place in a query: the number of characters before it, and the line and the column that a person
would look for, both counted from one.
-/

/-- A place in a query. -/
structure Location where
  offset : Int := 0
  line : Int := 0
  col : Int := 0
deriving DecidableEq, Inhabited

/-- The place of the first character. -/
def Location.start : Location := ⟨0, 1, 1⟩

end ScopedQuery
