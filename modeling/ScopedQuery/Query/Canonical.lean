import ScopedQuery.Query.Basic

namespace ScopedQuery

/-!
# The canonical text of a query

One spelling for each query, on one line: statements are divided by a semicolon and a blank, verbs
by a blank, and arguments by a comma and a blank.  Reading the text gives the query back.
-/

/-- A string between double quotes. -/
def stringText (value : String) : String := "\"" ++ value ++ "\""

/-- The name, an equals sign and the value. -/
def Argument.canonical (a : Argument) : String := a.name ++ "=" ++ stringText a.value

/-- An at sign, the name and the arguments in parentheses, if there are any; a filter is its
    pattern. -/
def Verb.canonical : Verb → String
  | .named name [] _ => "@" ++ name
  | .named name arguments _ =>
    "@" ++ name ++ "(" ++ ", ".intercalate (arguments.map Argument.canonical) ++ ")"
  | .filter pattern _ => stringText pattern

/-- The text of a scope, given that of its statements. -/
def scopeText (body : String) : String :=
  if body = "" then "\x7b\x7d" else "\x7b " ++ body ++ " \x7d"

mutual

/-- The verbs and the scope, divided by blanks. -/
def Statement.canonical : Statement → String
  | .plain verbs _ => " ".intercalate (verbs.map Verb.canonical)
  | .nested verbs body _ _ =>
    " ".intercalate
      (verbs.map Verb.canonical ++ [scopeText ("; ".intercalate (Statement.canonicalAll body))])

/-- The texts of the statements of a list. -/
def Statement.canonicalAll : List Statement → List String
  | [] => []
  | s :: rest => s.canonical :: Statement.canonicalAll rest

end

/-- The canonical text of a query. -/
def Query.canonical (q : Query) : String := "; ".intercalate (Statement.canonicalAll q.statements)

end ScopedQuery
