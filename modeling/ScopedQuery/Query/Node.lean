import ScopedQuery.Formatter
import ScopedQuery.Index
import ScopedQuery.Query.Agreement
import ScopedQuery.Query.Json
import ScopedQuery.Query.Term

namespace ScopedQuery

/-!
# Parts of trees

A `Node` is a part of a tree of any kind.  What is asked of a node may make sense for some kinds
only; a part of no kind stands for what all of them share.

* `Node.term`, `Node.toJson`, `Node.location` — what can be told of a node.
* `Node.agrees`, `Node.countDistinct` — comparison of content.
* `Node.format`, `Node.visit` — how a node is written.
-/

/-- A part of a tree. -/
inductive Node
  /-- A part of no kind, which has a place and no content. -/
  | bare (location : Location)
  | argument (argument : Argument)
  | verb (verb : Verb)
  | statement (statement : Statement)
  | query (query : Query)

namespace Node

/-- The name of the kind of a node. -/
def kind : Node → String
  | bare _ => "node"
  | argument _ => "argument"
  | verb (.named ..) => "generic_verb"
  | verb (.filter ..) => "filter"
  | statement _ => "statement"
  | query _ => "query"

/-- The name of the constructor of a node. -/
def constructorName : Node → String
  | bare _ => "ASTNode"
  | argument _ => "NamedArgument"
  | verb (.named ..) => "GenericVerb"
  | verb (.filter ..) => "Filter"
  | statement _ => "Statement"
  | query _ => "Query"

/-- The place of a node. -/
def location : Node → Location
  | bare location => location
  | argument a => a.location
  | verb v => v.location
  | statement s => s.location
  | query q => q.location

/-- The node without the places in it. -/
def unplaced : Node → Node
  | bare _ => bare {}
  | argument a => argument a.unplaced
  | verb v => verb v.unplaced
  | statement s => statement s.unplaced
  | query q => query q.unplaced

/-- The node as a term. -/
def term : Node → String
  | bare _ => "ASTNode()"
  | argument a => a.term
  | verb v => v.term
  | statement s => s.term
  | query q => q.term

/-- The node as a JSON value; a part of no kind has none. -/
def toJson : Node → Option Json
  | bare _ => none
  | argument a => some a.toJson
  | verb v => some v.toJson
  | statement s => some s.toJson
  | query q => some q.toJson

/-- Both nodes are of the same kind and have the same content. -/
def agrees : Node → Node → Bool
  | bare _, bare _ => true
  | argument a, argument b => a.agrees b
  | verb a, verb b => a.agrees b
  | statement a, statement b => a.agrees b
  | query a, query b => a.agrees b
  | _, _ => false

/-- The hash of a node's content. -/
def contentHash (h : Hashing) : Node → Int
  | bare _ => h.members [h.text "node"]
  | argument a => a.contentHash h
  | verb v => v.contentHash h
  | statement s => s.contentHash h
  | query q => q.contentHash h

/-- The number of different contents in a set of two nodes, which first looks at the hashes. -/
def countDistinct (h : Hashing) (a b : Node) : Nat :=
  if a.contentHash h = b.contentHash h ∧ a.agrees b = true then 1 else 2

/-- Nodes are never changed; this is what an attempt is told. -/
def refuseChange (node : Node) : String := node.constructorName ++ " nodes are immutable"

/-- The text of a node in a style; only a query has one.  An unknown style is reported first. -/
def format (node : Node) (styleName : String) : Except FormatError String := do
  let formatter ← Formatter.ofName styleName
  match node with
  | query q => return (formatter.add q).text
  | _ => throw .notAQuery

/-- What writing a node by itself gives back, and the lines that it adds. -/
structure Visit where
  value : Option String
  lines : List String

/-- Writes a node by itself.  In the canonical style only a query adds a line, and the text of any
    other node is given back; in the tree style every node adds its lines.  A part of no kind cannot
    be written. -/
def visit : Style → Node → Option Visit
  | _, bare _ => none
  | .canonical, argument a => some ⟨some a.canonical, []⟩
  | .canonical, verb v => some ⟨some v.canonical, []⟩
  | .canonical, statement s => some ⟨some s.canonical, []⟩
  | .canonical, query q => some ⟨none, [q.canonical]⟩
  | .tree, argument a => some ⟨none, a.viewLines 0⟩
  | .tree, verb v => some ⟨none, v.viewLines 0⟩
  | .tree, statement s => some ⟨none, s.viewLines 0⟩
  | .tree, query q => some ⟨none, q.viewLines⟩

/-- What is told about a node that cannot be written. -/
def refuseVisit (style : Style) (node : Node) : String :=
  s!"No {style.name} emitter for node kind '{node.kind}'"

end Node

/-! ### Members -/

/-- Why there is no statement at an index. -/
inductive IndexFault
  /-- The number is no machine index. -/
  | notAnIndex
  /-- The query has fewer statements. -/
  | outOfRange
deriving DecidableEq

/-- The wording of a fault. -/
def IndexFault.message : IndexFault → String
  | notAnIndex => Index.refusal
  | outOfRange => "tuple index out of range"

/-- The statement at an index; a negative index counts from the end. -/
def Query.statementAt (q : Query) (index : Int) : Except IndexFault Statement :=
  if !Index.fits index then .error .notAnIndex
  else
    let position := if index < 0 then index + q.statements.length else index
    if position < 0 then .error .outOfRange
    else
      match q.statements[position.toNat]? with
      | some statement => .ok statement
      | none => .error .outOfRange

/-- The names and the values of a verb's arguments. -/
def Verb.argumentPairs : Verb → List (String × String)
  | .named _ arguments _ => arguments.map fun a => (a.name, a.value)
  | .filter _ _ => []

end ScopedQuery
