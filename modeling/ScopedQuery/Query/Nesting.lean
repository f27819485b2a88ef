import ScopedQuery.Query.Basic

namespace ScopedQuery

/-!
# How deep a query nests

* `Query.nesting` — how many scopes lie inside of one another.
* `Query.shape` — the query without its texts and places, which is all that a walk through it can
  take its time and its room from.
-/

mutual

/-- The number of scopes that lie inside of one another in a statement. -/
def Statement.nesting : Statement → Nat
  | .plain _ _ => 0
  | .nested _ body _ _ => Statement.nestingAll body + 1

/-- The greatest nesting of the statements of a list. -/
def Statement.nestingAll : List Statement → Nat
  | [] => 0
  | s :: rest => max s.nesting (Statement.nestingAll rest)

end

/-- The number of scopes that lie inside of one another. -/
def Query.nesting (q : Query) : Nat := Statement.nestingAll q.statements

/-! ### Shapes -/

/-- The verb without its texts and places: only the number of its arguments is left. -/
def Verb.shape : Verb → Verb
  | .named _ arguments _ => .named "" (arguments.map fun _ => ⟨"", "", {}⟩) {}
  | .filter _ _ => .filter "" {}

mutual

/-- The statement without its texts and places. -/
def Statement.shape : Statement → Statement
  | .plain verbs _ => .plain (verbs.map Verb.shape) {}
  | .nested verbs body _ _ => .nested (verbs.map Verb.shape) (Statement.shapeAll body) {} {}

/-- The statements without their texts and places. -/
def Statement.shapeAll : List Statement → List Statement
  | [] => []
  | s :: rest => s.shape :: Statement.shapeAll rest

end

/-- The query without its texts and places. -/
def Query.shape (q : Query) : Query := ⟨Statement.shapeAll q.statements, {}⟩

/-- The shape of a list is made of those of its statements. -/
theorem Statement.shapeAll_eq_map (statements : List Statement) :
    Statement.shapeAll statements = statements.map Statement.shape := by
  induction statements with
  | nil => rfl
  | cons s rest ih => rw [shapeAll, List.map_cons, ih]

end ScopedQuery
