import ScopedQuery.Location

namespace ScopedQuery

/-!
# Queries

A query is a list of statements.  A statement is a run of verbs, after which a scope may follow,
which holds statements again.

* `Argument`, `Verb`, `Statement`, `Query` — the syntax tree.  Every part knows the place of its
  first token.
* `Statement.scope?` — the scope of a statement as a query of its own.
* `Query.unplaced` — the tree without its places.
-/

/-- A named argument of a verb. -/
structure Argument where
  name : String
  value : String
  location : Location := {}
deriving DecidableEq

/-- What a statement is made of. -/
inductive Verb
  /-- A verb with a name; a name may be given to several of its arguments. -/
  | named (name : String) (arguments : List Argument) (location : Location)
  /-- A bare string. -/
  | filter (pattern : String) (location : Location)
deriving DecidableEq

/-- A run of verbs, alone or in front of a scope. -/
inductive Statement
  | plain (verbs : List Verb) (location : Location)
  /-- A statement with a scope, which has statements and a place of its own. -/
  | nested (verbs : List Verb) (body : List Statement) (opened location : Location)

/-- A list of statements: a whole query, or the content of a scope. -/
structure Query where
  statements : List Statement
  location : Location := {}
deriving Inhabited

instance : Inhabited Statement := ⟨.plain [] {}⟩

/-- The place of a verb. -/
def Verb.location : Verb → Location
  | .named _ _ location => location
  | .filter _ location => location

namespace Statement

/-- The verbs of a statement, without those of its scope. -/
def verbs : Statement → List Verb
  | plain verbs _ => verbs
  | nested verbs _ _ _ => verbs

/-- The place of a statement. -/
def location : Statement → Location
  | plain _ location => location
  | nested _ _ _ location => location

/-- The scope of a statement. -/
def scope? : Statement → Option Query
  | plain _ _ => none
  | nested _ body opened _ => some ⟨body, opened⟩

/-- The statement with the given parts. -/
def ofParts (verbs : List Verb) (scope : Option Query) (location : Location) : Statement :=
  match scope with
  | none => plain verbs location
  | some query => nested verbs query.statements query.location location

/-- A statement without verbs and without a scope, as between two terminators. -/
def isEmpty (s : Statement) : Bool := s.verbs.isEmpty && s.scope?.isNone

end Statement

/-! ### Trees without places -/

/-- The argument without its place. -/
def Argument.unplaced (a : Argument) : Argument := { a with location := {} }

/-- The verb without the places in it. -/
def Verb.unplaced : Verb → Verb
  | .named name arguments _ => .named name (arguments.map Argument.unplaced) {}
  | .filter pattern _ => .filter pattern {}

mutual

/-- The statement without the places in it. -/
def Statement.unplaced : Statement → Statement
  | .plain verbs _ => .plain (verbs.map Verb.unplaced) {}
  | .nested verbs body _ _ => .nested (verbs.map Verb.unplaced) (Statement.unplacedAll body) {} {}

/-- The statements without the places in them. -/
def Statement.unplacedAll : List Statement → List Statement
  | [] => []
  | s :: rest => s.unplaced :: Statement.unplacedAll rest

end

/-- The query without the places in it. -/
def Query.unplaced (q : Query) : Query := ⟨Statement.unplacedAll q.statements, {}⟩

/-- Places are left out statement by statement. -/
theorem Statement.unplacedAll_eq_map (statements : List Statement) :
    Statement.unplacedAll statements = statements.map Statement.unplaced := by
  induction statements with
  | nil => rfl
  | cons s rest ih => simp [Statement.unplacedAll, ih]

end ScopedQuery
