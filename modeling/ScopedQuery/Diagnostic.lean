import ScopedQuery.Index
import ScopedQuery.Location
import ScopedQuery.Text.LineBreak

namespace ScopedQuery

/-!
# Diagnostics

* `ErrorKind` — the kinds of errors in a query, ordered from general to special.
* `Diagnostic` — one error: where it is, what was looked for and what was there instead.
* `Diagnostic.render` — the error with the line it points at and a caret under the column.
* `Diagnostic.summary` — the error on one line.
-/

/-- The kinds of errors in a query. -/
inductive ErrorKind
  /-- Any error in a query. -/
  | query
  /-- Any error in the spelling of a token. -/
  | lexical
  /-- Any error in the order of the tokens. -/
  | grammatical
  | invalidIdentifier
  | unterminatedString
  | unterminatedComment
  | malformedArguments
  | unclosedScope
  | unexpectedTrailingInput
deriving DecidableEq

namespace ErrorKind

/-- The name of a kind. -/
def name : ErrorKind → String
  | query => "AsklSyntaxError"
  | lexical => "AsklLexError"
  | grammatical => "AsklParseError"
  | invalidIdentifier => "InvalidIdentifier"
  | unterminatedString => "UnterminatedString"
  | unterminatedComment => "UnterminatedComment"
  | malformedArguments => "MalformedArguments"
  | unclosedScope => "UnclosedScope"
  | unexpectedTrailingInput => "UnexpectedTrailingInput"

/-- The kind and all kinds that it is a special case of, the most general one last. -/
def lineage : ErrorKind → List ErrorKind
  | query => [query]
  | lexical => [lexical, query]
  | grammatical => [grammatical, query]
  | invalidIdentifier => [invalidIdentifier, lexical, query]
  | unterminatedString => [unterminatedString, lexical, query]
  | unterminatedComment => [unterminatedComment, lexical, query]
  | malformedArguments => [malformedArguments, grammatical, query]
  | unclosedScope => [unclosedScope, grammatical, query]
  | unexpectedTrailingInput => [unexpectedTrailingInput, grammatical, query]

/-- All kinds. -/
def all : List ErrorKind :=
  [query, lexical, grammatical, invalidIdentifier, unterminatedString, unterminatedComment,
   malformedArguments, unclosedScope, unexpectedTrailingInput]

/-- The kind of a name. -/
def ofName? (name : String) : Option ErrorKind :=
  all.find? fun kind => kind.name == name

end ErrorKind

/-- An error in a query. -/
structure Diagnostic where
  kind : ErrorKind
  /-- What is wrong, without the place. -/
  message : String
  location : Location
  /-- What was looked for at the place, if known. -/
  expected : Option String := none
  /-- What stands there instead, if known. -/
  found : Option String := none
  /-- The whole query. -/
  source : String := ""
deriving DecidableEq

namespace Diagnostic

/-- The name under which a query that is no file appears in messages. -/
def sourceName : String := "<askl>"

/-- The line that the error points at, without its break; empty if there is no such line. -/
def sourceLine (d : Diagnostic) : List Char :=
  if 0 < d.location.line then
    ((Text.lines d.source.toList)[(d.location.line - 1).toNat]?).getD []
  else []

/-- The first `n` characters; a negative number counts them from the end, and leaves out as many. -/
def upTo (n : Int) (line : List Char) : List Char :=
  if n < 0 then line.take (line.length - n.natAbs) else line.take n.toNat

/-- Blanks as wide as `text`, which keep its tabs. -/
def blankOut (text : List Char) : List Char :=
  text.map fun c => if c = '\t' then c else ' '

/-- The kind, the message and the place, and what was expected and found if both are known. -/
def header (d : Diagnostic) : String :=
  let title := s!"{d.kind.name}: {d.message} (line {d.location.line}, col {d.location.col})"
  match d.expected, d.found with
  | some expected, some found => title ++ s!"\n  expected {expected}, found {found}"
  | _, _ => title

/-- The error with the line it points at and a caret under the column; an empty line with the error
    at its first column is left out. -/
def render (d : Diagnostic) : String :=
  let line := d.sourceLine
  if line = [] ∧ d.location.col = 1 then d.header
  else
    let indent := blankOut (upTo (d.location.col - 1) line)
    d.header ++ "\n  " ++ String.ofList line ++ "\n  " ++ String.ofList indent ++ "^"

/-- The number of the line where a file is named together with it; one that is no machine index is
    given as -1. -/
def lineInFile (d : Diagnostic) : Int :=
  if Index.fits d.location.line then d.location.line else -1

/-- The error on one line. -/
def summary (d : Diagnostic) : String :=
  s!"{d.kind.name}: {d.message} at line {d.location.line}, col {d.location.col} " ++
    s!"({sourceName}, line {d.lineInFile})"

end Diagnostic

end ScopedQuery
