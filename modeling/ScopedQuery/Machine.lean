import ScopedQuery.Formatter
import ScopedQuery.Json
import ScopedQuery.Query.Nesting

namespace ScopedQuery

/-!
# What a machine can bear

A query is written by walking down into its scopes.  How deep one can walk, and how much room there
is for what is written, is up to the machine and not to the query.

* `Walk` — the walks through a query.
* `Machine` — what a machine can bear; `Machine.ofLimits` is one whose limits are numbers.
* `Machine.along` — what is made of a query, if the machine bears the walk for it.
-/

/-- A walk through all parts of a query. -/
inductive Walk
  /-- The query is made a JSON value. -/
  | value
  /-- The query is made a JSON text with an indentation. -/
  | text (indent : Json.Indentation)
  /-- The query is written in a style. -/
  | styled (style : Style)

/-- What a machine can bear. -/
structure Machine where
  /-- There is room for so many blanks in a row. -/
  holds : Nat → Bool
  /-- A query of a shape can be walked through. -/
  reaches : Walk → Query → Bool

namespace Machine

/-- The machine that bears so many scopes inside of one another, and so many blanks in a row. -/
def ofLimits (scopes blanks : Nat) : Machine where
  holds count := count ≤ blanks
  reaches _ shape := shape.nesting ≤ scopes

/-- What is made of a query on a walk, if the machine bears it.  Neither the texts in the query nor
    its places matter to that. -/
def along {α : Type} (machine : Machine) (walk : Walk) (make : Query → α) (q : Query) : Option α :=
  if machine.reaches walk q.shape then some (make q) else none

end Machine

end ScopedQuery
