import ScopedQuery.Query.Basic
import ScopedQuery.Text.Quoted

namespace ScopedQuery

open Text

/-!
# Queries as terms

The content of a tree written as the term that builds it, without places: names and strings are
quoted, and lists stand in parentheses.
-/

/-- The terms of a list in parentheses; a comma marks a list of one. -/
def listTerm : List String → String
  | [] => "()"
  | [term] => "(" ++ term ++ ",)"
  | terms => "(" ++ ", ".intercalate terms ++ ")"

/-- The argument as a term. -/
def Argument.term (a : Argument) : String :=
  "NamedArgument(name=" ++ quote a.name ++ ", value=" ++ quote a.value ++ ")"

/-- The verb as a term. -/
def Verb.term : Verb → String
  | .named name arguments _ =>
    "GenericVerb(name=" ++ quote name ++ ", arguments=" ++ listTerm (arguments.map Argument.term)
      ++ ")"
  | .filter pattern _ => "Filter(pattern=" ++ quote pattern ++ ")"

/-- The term of a query, given those of its statements. -/
def queryTerm (statements : List String) : String :=
  "Query(statements=" ++ listTerm statements ++ ")"

/-- The term of a statement, given its verbs and the term of its scope. -/
def statementTerm (verbs : List Verb) (scope : String) : String :=
  "Statement(verbs=" ++ listTerm (verbs.map Verb.term) ++ ", scope=" ++ scope ++ ")"

mutual

/-- The statement as a term. -/
def Statement.term : Statement → String
  | .plain verbs _ => statementTerm verbs "None"
  | .nested verbs body _ _ => statementTerm verbs (queryTerm (Statement.terms body))

/-- The statements of a list as terms. -/
def Statement.terms : List Statement → List String
  | [] => []
  | s :: rest => s.term :: Statement.terms rest

end

/-- The query as a term. -/
def Query.term (q : Query) : String := queryTerm (Statement.terms q.statements)

end ScopedQuery
