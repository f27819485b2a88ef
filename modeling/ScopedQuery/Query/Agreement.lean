import ScopedQuery.Query.Basic

namespace ScopedQuery

/-!
# When two queries say the same

Two trees agree when they have the same content, wherever the content was found.  Blanks and
comments between tokens never change what a query says.

* `Query.agrees` and its like — the comparison.
* `Hashing` — how texts and lists are hashed.
* `Query.contentHash` and its like — a hash that agreeing trees share, for any such way.
-/

/-- Two lists agree member by member. -/
def agreePairwise {α : Type} (agrees : α → α → Bool) : List α → List α → Bool
  | [], [] => true
  | a :: as, b :: bs => agrees a b && agreePairwise agrees as bs
  | _, _ => false

/-- Both arguments have the same name and the same value. -/
def Argument.agrees (a b : Argument) : Bool := a.name == b.name && a.value == b.value

/-- Both verbs have the same name and agreeing arguments, or are filters of the same pattern. -/
def Verb.agrees : Verb → Verb → Bool
  | .named name arguments _, .named name' arguments' _ =>
    name == name' && agreePairwise Argument.agrees arguments arguments'
  | .filter pattern _, .filter pattern' _ => pattern == pattern'
  | _, _ => false

mutual

/-- Both statements have agreeing verbs, and agreeing scopes or none. -/
def Statement.agrees : Statement → Statement → Bool
  | .plain verbs _, .plain verbs' _ => agreePairwise Verb.agrees verbs verbs'
  | .nested verbs body _ _, .nested verbs' body' _ _ =>
    agreePairwise Verb.agrees verbs verbs' && Statement.agreeAll body body'
  | _, _ => false

/-- The statements of both lists agree in order. -/
def Statement.agreeAll : List Statement → List Statement → Bool
  | [], [] => true
  | a :: as, b :: bs => a.agrees b && Statement.agreeAll as bs
  | _, _ => false

end

/-- The statements of both queries agree in order. -/
def Query.agrees (a b : Query) : Bool := Statement.agreeAll a.statements b.statements

/-! ### Hashes -/

/-- How texts and lists are hashed. -/
structure Hashing where
  /-- The hash of a text. -/
  text : String → Int
  /-- The hash of a list, made of those of its members. -/
  members : List Int → Int
  /-- The hash of a scope that is missing. -/
  missing : Int

variable (h : Hashing)

/-- The hash of the name and the value. -/
def Argument.contentHash (a : Argument) : Int :=
  h.members [h.text "argument", h.text a.name, h.text a.value]

/-- The hash of a verb's content. -/
def Verb.contentHash : Verb → Int
  | .named name arguments _ =>
    h.members [h.text "generic_verb", h.text name,
      h.members (arguments.map (Argument.contentHash h))]
  | .filter pattern _ => h.members [h.text "filter", h.text pattern]

/-- The hash of a query, made of those of its statements. -/
def queryHash (statements : List Int) : Int := h.members [h.text "query", h.members statements]

/-- The hash of a statement, made of its verbs and of the hash of its scope. -/
def statementHash (verbs : List Verb) (scope : Int) : Int :=
  h.members [h.text "statement", h.members (verbs.map (Verb.contentHash h)), scope]

mutual

/-- The hash of a statement's content. -/
def Statement.contentHash : Statement → Int
  | .plain verbs _ => statementHash h verbs h.missing
  | .nested verbs body _ _ => statementHash h verbs (queryHash h (Statement.contentHashes body))

/-- The hashes of the statements of a list. -/
def Statement.contentHashes : List Statement → List Int
  | [] => []
  | s :: rest => s.contentHash :: Statement.contentHashes rest

end

/-- The hash of a query's content. -/
def Query.contentHash (q : Query) : Int := queryHash h (Statement.contentHashes h q.statements)

end ScopedQuery
