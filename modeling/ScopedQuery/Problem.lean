import ScopedQuery.Diagnostic
import ScopedQuery.Text.Quoted

namespace ScopedQuery

/-!
# What can be wrong with a query

* `Problem` — the causes of errors, with what each of them needs to be told.
* `Problem.kind`, `Problem.message`, `Problem.expected` — how a cause is classed and worded.
* `Problem.report` — the diagnostic of a cause at a place.
-/

/-- Why a query is refused. -/
inductive Problem
  /-- A name was to be read where none starts. -/
  | noIdentifier
  /-- A quoted string runs to the end of the query. -/
  | openString
  /-- A comment runs to the end of the query. -/
  | openComment
  /-- No name follows an at sign. -/
  | noVerbName
  /-- A character that begins no token stands where the name of an argument belongs. -/
  | strayArgumentName
  /-- Some other token stands where the name of an argument belongs. -/
  | noArgumentName
  /-- No equals sign follows the name of an argument. -/
  | noEquals (argument : String)
  /-- No string follows the equals sign of an argument. -/
  | noValue (argument : String)
  /-- Neither a comma nor a closing parenthesis follows an argument. -/
  | openArguments
  /-- The query ends inside of the scope opened at the place. -/
  | openScope (opened : Location)
  /-- Some other token stands where the scope opened at the place has to be closed. -/
  | noClosingBrace (opened : Location)
  /-- A closing brace follows a complete query. -/
  | unmatchedBrace
  /-- Some other token follows a complete query. -/
  | trailing (found : String)

namespace Problem

/-- The kind of error that a cause makes. -/
def kind : Problem → ErrorKind
  | noIdentifier => .invalidIdentifier
  | openString => .unterminatedString
  | openComment => .unterminatedComment
  | noVerbName => .invalidIdentifier
  | strayArgumentName => .invalidIdentifier
  | noArgumentName => .malformedArguments
  | noEquals _ => .malformedArguments
  | noValue _ => .malformedArguments
  | openArguments => .malformedArguments
  | openScope _ => .unclosedScope
  | noClosingBrace _ => .unclosedScope
  | unmatchedBrace => .unexpectedTrailingInput
  | trailing _ => .unexpectedTrailingInput

/-- The wording of a cause. -/
def message : Problem → String
  | noIdentifier => "Expected an identifier"
  | openString => "Quoted string is never closed"
  | openComment => "Comment opened with '/*' is never closed"
  | noVerbName => "Expected a verb name after '@'"
  | strayArgumentName => "Expected an argument name"
  | noArgumentName => "Expected an argument name"
  | noEquals argument => "Expected '=' after argument name " ++ Text.quote argument
  | noValue argument =>
    "Expected a quoted string value for argument " ++ Text.quote argument
  | openArguments => "Expected ',' or ')' in argument list"
  | openScope opened =>
    s!"Scope opened at line {opened.line}, col {opened.col} is never closed"
  | noClosingBrace opened =>
    "Expected '\x7d' to close scope opened at " ++ s!"line {opened.line}, col {opened.col}"
  | unmatchedBrace => "Unmatched '\x7d' with no open scope"
  | trailing found => "Unexpected " ++ found ++ " after end of query"

/-- What was looked for. -/
def expected : Problem → String
  | noIdentifier => "identifier"
  | openString => "'\"'"
  | openComment => "'*/'"
  | noVerbName => "identifier"
  | strayArgumentName => "identifier"
  | noArgumentName => "identifier"
  | noEquals _ => "'='"
  | noValue _ => "quoted string"
  | openArguments => "',' or ')'"
  | openScope _ => "'\x7d'"
  | noClosingBrace _ => "'\x7d'"
  | unmatchedBrace => "end of input"
  | trailing _ => "end of input"

/-- The diagnostic of a cause at a place, where `found` stands in the query `source`. -/
def report (problem : Problem) (location : Location) (found source : String) : Diagnostic where
  kind := problem.kind
  message := problem.message
  location := location
  expected := some problem.expected
  found := some found
  source := source

end Problem

end ScopedQuery
