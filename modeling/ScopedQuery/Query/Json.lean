import ScopedQuery.Json
import ScopedQuery.Query.Basic

namespace ScopedQuery

/-!
# Queries as JSON values

Every part of a tree becomes an object, which names its kind first and its place last.
-/

/-- The place, as the last members of an object. -/
def Location.members (l : Location) : List (String × Json) :=
  [("line", .int l.line), ("col", .int l.col), ("offset", .int l.offset)]

/-- The object of a part of a tree. -/
def partObject (kind : String) (members : List (String × Json)) (location : Location) : Json :=
  .object (("kind", .string kind) :: members ++ location.members)

/-- The argument as a JSON value. -/
def Argument.toJson (a : Argument) : Json :=
  partObject "argument" [("name", .string a.name), ("value", .string a.value)] a.location

/-- The verb as a JSON value. -/
def Verb.toJson : Verb → Json
  | .named name arguments location =>
    partObject "generic_verb"
      [("name", .string name), ("arguments", .array (arguments.map Argument.toJson))] location
  | .filter pattern location => partObject "filter" [("pattern", .string pattern)] location

/-- The object of a query, given the values of its statements. -/
def queryObject (statements : List Json) (location : Location) : Json :=
  partObject "query" [("statements", .array statements)] location

/-- The object of a statement, given its verbs and the value of its scope. -/
def statementObject (verbs : List Verb) (scope : Json) (location : Location) : Json :=
  partObject "statement" [("verbs", .array (verbs.map Verb.toJson)), ("scope", scope)] location

mutual

/-- The statement as a JSON value. -/
def Statement.toJson : Statement → Json
  | .plain verbs location => statementObject verbs .null location
  | .nested verbs body opened location =>
    statementObject verbs (queryObject (Statement.toJsonAll body) opened) location

/-- The statements of a list as JSON values. -/
def Statement.toJsonAll : List Statement → List Json
  | [] => []
  | s :: rest => s.toJson :: Statement.toJsonAll rest

end

/-- The query as a JSON value. -/
def Query.toJson (q : Query) : Json := queryObject (Statement.toJsonAll q.statements) q.location

end ScopedQuery
