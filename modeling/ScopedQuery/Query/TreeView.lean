import ScopedQuery.Query.Basic

namespace ScopedQuery

/-!
# The tree view of a query

Each part of a tree on a line of its own, with its line and column, and the parts of a part
indented below it.  The view is meant to be looked at.
-/

/-- A line of the view at a level. -/
def viewLine (level : Nat) (text : String) (location : Location) : String :=
  String.ofList (List.replicate (2 * level) ' ') ++ text ++ s!" @{location.line}:{location.col}"

/-- The line of an argument. -/
def Argument.viewLines (level : Nat) (a : Argument) : List String :=
  [viewLine level ("arg " ++ a.name ++ "=\"" ++ a.value ++ "\"") a.location]

/-- The line of a verb and those of its arguments. -/
def Verb.viewLines (level : Nat) : Verb → List String
  | .named name arguments location =>
    viewLine level ("verb @" ++ name) location
      :: arguments.flatMap (Argument.viewLines (level + 1))
  | .filter pattern location => [viewLine level ("filter \"" ++ pattern ++ "\"") location]

mutual

/-- The line of a statement, those of its verbs and those of its scope. -/
def Statement.viewLines (level : Nat) : Statement → List String
  | .plain [] location => [viewLine level "statement (empty)" location]
  | .plain verbs location =>
    viewLine level "statement" location :: verbs.flatMap (Verb.viewLines (level + 1))
  | .nested verbs body opened location =>
    viewLine level "statement" location :: verbs.flatMap (Verb.viewLines (level + 1))
      ++ viewLine (level + 1) "scope" opened :: Statement.viewLinesAll (level + 2) body

/-- The lines of the statements of a list. -/
def Statement.viewLinesAll (level : Nat) : List Statement → List String
  | [] => []
  | s :: rest => s.viewLines level ++ Statement.viewLinesAll level rest

end

/-- The lines of a query. -/
def Query.viewLines (q : Query) : List String :=
  viewLine 0 "query" q.location :: Statement.viewLinesAll 1 q.statements

end ScopedQuery
