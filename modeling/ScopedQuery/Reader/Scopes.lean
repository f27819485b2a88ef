import ScopedQuery.Reader.Verbs

namespace ScopedQuery

/-!
# Reading statements and scopes

    statements  = statement (terminator statement)*
    statement   = verb* ("{" statements "}")?

The lists of statements that are being read are kept in a `Nest`, the innermost first, so that
scopes may lie inside of one another as deep as one likes.

* `Scope`, `Nest` — the lists being read.
* `Step.openScope`, `Step.closeScope` — the two ends of a scope.
* `Step.statementsIn`, `Step.closeStatement` — the statements of a nest, from where a statement
  starts and from where one is complete.
* `Step.query` — a whole query.
-/

/-- A scope that is open, with the part of its statement that has been read. -/
structure Scope where
  /-- The brace that opened it. -/
  brace : Token
  /-- The first token of the statement that it belongs to. -/
  owner : Token
  /-- The verbs of the statement that it belongs to. -/
  verbs : List Verb
  /-- The statements in it. -/
  statements : Array Statement := #[]

namespace Scope

/-- Puts a statement behind those of the scope. -/
def add (scope : Scope) (s : Statement) : Scope :=
  { scope with statements := scope.statements.push s }

/-- The content of the scope. -/
def query (scope : Scope) : Query := ⟨scope.statements.toList, scope.brace.location⟩

/-- The statement that the scope belongs to. -/
def statement (scope : Scope) : Statement :=
  .nested scope.verbs scope.statements.toList scope.brace.location scope.owner.location

end Scope

/-- The lists of statements that are being read. -/
structure Nest where
  /-- The first token of the outermost list. -/
  first : Token
  /-- The statements of the outermost list. -/
  statements : Array Statement := #[]
  /-- The scopes that are open, the innermost first. -/
  scopes : List Scope := []

namespace Nest

/-- Puts a statement behind those of the innermost list. -/
def add (nest : Nest) (s : Statement) : Nest :=
  match nest with
  | ⟨first, statements, []⟩ => ⟨first, statements.push s, []⟩
  | ⟨first, statements, scope :: outer⟩ => ⟨first, statements, scope.add s :: outer⟩

/-- The outermost list. -/
def query (nest : Nest) : Query := ⟨nest.statements.toList, nest.first.location⟩

end Nest

namespace Step

variable {σ ε : Type} [TokenFeed σ ε]

/-- Takes an opening brace, which has to be the next token, behind the verbs of a statement that
    starts with `owner`. -/
def openScope (owner : Token) (verbs : List Verb) : Step σ ε Scope := do
  match ← accept [.leftBrace] with
  | none => fail .misplaced
  | some brace =>
    let depth ← changeDepth 1
    note (.entered brace.location depth)
    return { brace, owner, verbs }

/-- Takes the closing brace of a scope and gives the statement that the scope belongs to. -/
def closeScope (scope : Scope) : Step σ ε Statement := do
  let token ← peek
  match ← accept [.rightBrace] with
  | some _ =>
    let _ ← changeDepth (-1)
    return scope.statement
  | none =>
    if token.kind = .endOfInput then refuse (.openScope scope.brace.location) token
    else refuse (.noClosingBrace scope.brace.location) token

/-- What follows the verbs of a statement. -/
inductive StatementEnd
  | scope (scope : Scope)
  | statement (statement : Statement)

/-- Reads the verbs of a statement, and the opening brace if one follows. -/
def statementStart : Step σ ε StatementEnd := do
  let first ← peek
  let verbs ← verbs
  let following ← peek
  if following.kind = .leftBrace then .scope <$> openScope first verbs
  else return .statement (.plain verbs first.location)

/-! ### Progress -/

theorem Settles.openScope (owner : Token) (verbs : List Verb) :
    Settles (openScope owner verbs : Step σ ε Scope) := by
  refine .bind (.accept _) fun brace => ?_
  split
  · exact .fail _
  · exact .bind (.changeDepth 1) fun _ => .bind (.note _) fun _ => .pure _

/-- To open a scope takes its brace. -/
theorem remaining_openScope_lt {owner : Token} {verbs : List Verb} {scope : Scope}
    {r r' : Reader σ} (h : (openScope owner verbs : Step σ ε Scope) r = (.ok scope, r')) :
    r'.remaining < r.remaining := by
  unfold openScope at h
  rw [bind_apply] at h
  split at h
  case h_1 brace r₁ haccept =>
    match brace with
    | none => simp [fail] at h
    | some brace =>
      have hlt := Advances.accept (by decide) r brace r₁ haccept
      simp only [bind_apply, changeDepth, note, pure_apply, Prod.mk.injEq] at h
      rw [← h.2]
      exact hlt
  · simp at h

theorem Settles.closeScope (scope : Scope) :
    Settles (closeScope scope : Step σ ε Statement) := by
  refine .bind .peek fun token => .bind (.accept _) fun brace => ?_
  split
  · exact .bind (.changeDepth _) fun _ => .pure _
  · split <;> exact .refuse _ token

/-- To close one takes its brace, too. -/
theorem remaining_closeScope_lt {scope : Scope} {s : Statement} {r r' : Reader σ}
    (h : (closeScope scope : Step σ ε Statement) r = (.ok s, r')) :
    r'.remaining < r.remaining := by
  have hsettles := Settles.peek r
  unfold closeScope at h
  rw [bind_apply] at h
  split at h
  case h_1 token r₁ hpeek =>
    rw [hpeek] at hsettles
    rw [bind_apply] at h
    split at h
    case h_1 brace r₂ haccept =>
      match brace with
      | some brace =>
        have hlt := Advances.accept (by decide) r₁ brace r₂ haccept
        simp only [bind_apply, changeDepth, pure_apply, Prod.mk.injEq] at h
        rw [← h.2]
        exact Nat.lt_of_lt_of_le hlt hsettles
      | none =>
        dsimp only at h
        split at h <;> simp [refuse, bind_apply, text, note, fail] at h
    · simp at h
  · simp at h

theorem Settles.statementStart : Settles (statementStart : Step σ ε StatementEnd) := by
  refine .bind .peek fun first => .bind .verbs fun verbs => .bind .peek fun following => ?_
  split
  · exact .map _ (.openScope first verbs)
  · exact .pure _

/-- A statement that goes on in a scope has taken the brace of that. -/
theorem remaining_statementStart_lt {scope : Scope} {r r' : Reader σ}
    (h : (statementStart : Step σ ε StatementEnd) r = (.ok (.scope scope), r')) :
    r'.remaining < r.remaining := by
  have hfirst := Settles.peek r
  unfold statementStart at h
  rw [bind_apply] at h
  split at h
  case h_1 first r₁ h₁ =>
    have hverbs := Settles.verbs r₁
    rw [h₁] at hfirst
    rw [bind_apply] at h
    split at h
    case h_1 verbs r₂ h₂ =>
      have hfollowing := Settles.peek r₂
      rw [h₂] at hverbs
      rw [bind_apply] at h
      split at h
      case h_1 following r₃ h₃ =>
        rw [h₃] at hfollowing
        split at h
        · rw [map_apply] at h
          split at h
          case h_1 scope' r₄ h₄ =>
            have hopen := remaining_openScope_lt h₄
            simp only [Prod.mk.injEq] at h
            rw [← h.2]
            dsimp only at hfirst hverbs hfollowing
            omega
          · simp at h
        · simp [pure_apply] at h
      · simp at h
    · simp at h
  · simp at h

/-! ### Lists of statements -/

mutual

/-- Reads on where a statement of the innermost list starts, until all lists are complete. -/
def statementsIn (nest : Nest) (r : Reader σ) : Except (Failure ε) Query × Reader σ :=
  match h : statementStart r with
  | (.error failure, r') => (.error failure, r')
  | (.ok (.scope scope), r') =>
    have : r'.remaining < r.remaining := remaining_statementStart_lt h
    statementsIn { nest with scopes := scope :: nest.scopes } r'
  | (.ok (.statement s), r') =>
    have : r'.remaining ≤ r.remaining := by simpa only [h] using Settles.statementStart r
    closeStatement (nest.add s) r'
termination_by 2 * r.remaining + 1

/-- Reads on where a statement of the innermost list is complete: behind a terminator the next one
    starts.  Otherwise the list is complete, and with it the statement that its scope belongs to. -/
def closeStatement (nest : Nest) (r : Reader σ) : Except (Failure ε) Query × Reader σ :=
  match h : accept TokenKind.terminators r with
  | (.error failure, r') => (.error failure, r')
  | (.ok (some terminator), r') =>
    have : r'.remaining < r.remaining := Advances.accept (by decide) r terminator r' h
    statementsIn nest r'
  | (.ok none, r') =>
    have : r'.remaining ≤ r.remaining := by
      simpa only [h] using Settles.accept TokenKind.terminators r
    match nest with
    -- the outermost list is complete
    | ⟨first, statements, []⟩ => (.ok (Nest.query ⟨first, statements, []⟩), r')
    -- a scope is complete, and its statement goes into the list around it
    | ⟨first, statements, scope :: outer⟩ =>
      match h' : closeScope scope r' with
      | (.error failure, r'') => (.error failure, r'')
      | (.ok s, r'') =>
        have : r''.remaining < r'.remaining := remaining_closeScope_lt h'
        closeStatement (Nest.add ⟨first, statements, outer⟩ s) r''
termination_by 2 * r.remaining

end

/-- Reads statements, with all scopes in them, until the outermost list is complete. -/
def statements : Step σ ε Query := do
  let first ← peek
  statementsIn { first }

/-- Reads a whole query, behind which the input has to end. -/
def query : Step σ ε Query := do
  note (.started (← text).length)
  let q ← statements
  let token ← peek
  if token.kind = .endOfInput then
    note (.finished q.statements.length)
    return q
  else if token.kind = .rightBrace then refuse .unmatchedBrace token
  else refuse (.trailing token.describe) token

end Step

/-- The query that a text spells, and the reader behind it. -/
def Reader.run (source : String) : Except (Failure ScanFault) Query × Reader Cursor :=
  (Step.query : Step Cursor ScanFault Query) { feed := Cursor.ofText source }

/-- The query that a text spells. -/
def Query.ofText (source : String) : Except (Failure ScanFault) Query :=
  (Reader.run source).1

end ScopedQuery
