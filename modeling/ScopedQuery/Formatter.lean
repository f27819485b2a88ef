import ScopedQuery.Query.Canonical
import ScopedQuery.Query.TreeView
import ScopedQuery.Text.Lowercase
import ScopedQuery.Text.Quoted

namespace ScopedQuery

/-!
# Formatters

* `Style` — the styles in which a query can be written.
* `Formatter` — writes queries in one style; its text holds all queries that it has been given.
* `FormatError` — why nothing could be written.
-/

/-- How a query is written. -/
inductive Style
  /-- The text that reads back as the query. -/
  | canonical
  /-- One line for each part. -/
  | tree
deriving DecidableEq

namespace Style

/-- The name of a style. -/
def name : Style → String
  | canonical => "askl"
  | tree => "tree"

/-- The style of a name. -/
def ofName? (name : String) : Option Style :=
  [canonical, tree].find? fun style => style.name == name

/-- The lines of a query. -/
def lines : Style → Query → List String
  | canonical, q => [q.canonical]
  | tree, q => q.viewLines

end Style

/-- Why nothing could be written. -/
inductive FormatError
  | unknownStyle (name : String)
  /-- A part of a query was given instead of a query. -/
  | notAQuery

/-- The wording of an error. -/
def FormatError.message : FormatError → String
  | unknownStyle name => "Unknown output style: " ++ Text.quote name
  | notAQuery => "Formatter expects a Query node."

/-- Writes queries in one style, one after another. -/
structure Formatter where
  style : Style
  /-- The lines of the queries that have been written. -/
  lines : List String := []

namespace Formatter

/-- A formatter for the style of a name, in upper or lower case. -/
def ofName (name : String) : Except FormatError Formatter :=
  match Style.ofName? (Text.lowercase name) with
  | some style => .ok { style }
  | none => .error (.unknownStyle (Text.lowercase name))

/-- Everything written so far. -/
def text (f : Formatter) : String := "\n".intercalate f.lines

/-- Writes one more query. -/
def add (f : Formatter) (q : Query) : Formatter := { f with lines := f.lines ++ f.style.lines q }

end Formatter

/-- The text of a query in a style. -/
def Query.format (q : Query) (style : Style) : String :=
  (Formatter.add { style } q).text

end ScopedQuery
