import ScopedQuery.Reader.Scopes

namespace ScopedQuery

/-!
# Where reading stands

What a token means to a reader depends on the tokens before it only through the place in the
grammar that they lead to: the scopes that are open, and the part of a statement that comes next.

* `Stage`, `Standing` — the part that comes next, alone and together with the lists around it.
* `Standing.push` — what one more token means: reading goes on, is complete, or is refused.
* `Standing.Leads` — the standing behind several tokens.
* `Nest.atEnd_pushEnd`, `Nest.atVerb_pushVerb` — all that a token can mean behind a statement, and
  behind verbs.
* `Standing.push_endOfInput` — behind the end of the input reading never goes on.
* `Problem.FoundAt`, `Standing.foundAt_of_refused` — the problems for which a token is refused.
-/

/-- A verb with a name that is being read. -/
structure PartialVerb where
  /-- The first token of its statement. -/
  first : Token
  /-- The verbs before it in its statement. -/
  read : List Verb
  /-- The place of its at sign. -/
  sign : Location
  name : String
  /-- The arguments that have been read. -/
  arguments : List Argument := []

namespace PartialVerb

/-- The verb with the arguments that have been read. -/
def verb (v : PartialVerb) : Verb := .named v.name v.arguments v.sign

/-- The verbs of the statement, up to and with this one. -/
def verbs (v : PartialVerb) : List Verb := v.read ++ [v.verb]

/-- Puts an argument behind those that have been read. -/
def add (v : PartialVerb) (a : Argument) : PartialVerb :=
  { v with arguments := v.arguments ++ [a] }

end PartialVerb

/-- What comes next in the innermost list of statements. -/
inductive Stage
  /-- A statement. -/
  | start
  /-- A verb of the statement that starts with `first`, or what follows its verbs. -/
  | verbs (first : Token) (read : List Verb)
  /-- The name of a verb, behind its at sign. -/
  | sign (first : Token) (read : List Verb) (sign : Location)
  /-- The arguments of a verb, or what follows a verb without arguments. -/
  | name (v : PartialVerb)
  /-- The name of an argument. -/
  | argument (v : PartialVerb)
  /-- The equals sign of an argument. -/
  | equals (v : PartialVerb) (name : String) (location : Location)
  /-- The value of an argument. -/
  | value (v : PartialVerb) (name : String) (location : Location)
  /-- A comma or the end of the arguments. -/
  | comma (v : PartialVerb)
  /-- What follows a statement, all of which has been read. -/
  | complete

/-- Where reading stands. -/
inductive Standing
  /-- No token has been read. -/
  | unread
  /-- Inside of the lists of `nest`. -/
  | within (nest : Nest) (stage : Stage)

/-- What one more token means. -/
inductive Verdict
  /-- Reading goes on at a standing. -/
  | further (s : Standing)
  /-- The query is complete. -/
  | complete (q : Query)
  /-- The token does not belong where it is found. -/
  | refused (problem : Problem)

namespace Nest

/-- What a token means behind a statement that the innermost list has already. -/
def pushEnd (nest : Nest) (t : Token) : Verdict :=
  if t.kind ∈ TokenKind.terminators then .further (.within nest .start)
  else
    match nest with
    | ⟨first, statements, []⟩ =>
      if t.kind = .endOfInput then .complete (Nest.query ⟨first, statements, []⟩)
      else if t.kind = .rightBrace then .refused .unmatchedBrace
      else .refused (.trailing t.describe)
    | ⟨first, statements, scope :: outer⟩ =>
      if t.kind = .rightBrace then
        .further (.within (Nest.add ⟨first, statements, outer⟩ scope.statement) .complete)
      else if t.kind = .endOfInput then .refused (.openScope scope.brace.location)
      else .refused (.noClosingBrace scope.brace.location)

section Equations

variable {first t : Token} {statements : Array Statement}

/-- A terminator leads to the start of the next statement. -/
theorem pushEnd_terminator {nest : Nest} (ht : t.kind ∈ TokenKind.terminators) :
    nest.pushEnd t = .further (.within nest .start) := if_pos ht

/-- What a token means behind the whole outermost list. -/
theorem pushEnd_outermost (ht : t.kind ∉ TokenKind.terminators) :
    pushEnd ⟨first, statements, []⟩ t =
      if t.kind = .endOfInput then .complete (Nest.query ⟨first, statements, []⟩)
      else if t.kind = .rightBrace then .refused .unmatchedBrace
      else .refused (.trailing t.describe) := if_neg ht

/-- What a token means behind the whole list of a scope. -/
theorem pushEnd_inside {scope : Scope} {outer : List Scope}
    (ht : t.kind ∉ TokenKind.terminators) :
    pushEnd ⟨first, statements, scope :: outer⟩ t =
      if t.kind = .rightBrace then
        .further (.within (Nest.add ⟨first, statements, outer⟩ scope.statement) .complete)
      else if t.kind = .endOfInput then .refused (.openScope scope.brace.location)
      else .refused (.noClosingBrace scope.brace.location) := if_neg ht

end Equations

/-- What a token means behind the verbs of a statement that starts with `first`. -/
def pushVerb (nest : Nest) (first : Token) (read : List Verb) (t : Token) : Verdict :=
  if t.kind = .atSign then .further (.within nest (.sign first read t.location))
  else if t.kind = .string then
    .further (.within nest (.verbs first (read ++ [.filter t.value t.location])))
  else if t.kind = .leftBrace then
    let scope : Scope := { brace := t, owner := first, verbs := read }
    .further (.within { nest with scopes := scope :: nest.scopes } .start)
  else (nest.add (.plain read first.location)).pushEnd t

end Nest

namespace Standing

/-- What a token means at a standing.  Inside of an argument list a line break means nothing. -/
def push : Standing → Token → Verdict
  | unread, t => Nest.pushVerb { first := t } t [] t
  | within nest .start, t => nest.pushVerb t [] t
  | within nest (.verbs first read), t => nest.pushVerb first read t
  | within nest (.sign first read sign), t =>
    if t.kind = .identifier then .further (within nest (.name ⟨first, read, sign, t.value, []⟩))
    else .refused .noVerbName
  | within nest (.name v), t =>
    if t.kind = .leftParen then .further (within nest (.argument v))
    else nest.pushVerb v.first v.verbs t
  | within nest (.argument v), t =>
    if t.kind = .newline then .further (within nest (.argument v))
    else if t.kind = .identifier then .further (within nest (.equals v t.value t.location))
    else if t.kind = .stray then .refused .strayArgumentName
    else .refused .noArgumentName
  | within nest (.equals v name location), t =>
    if t.kind = .newline then .further (within nest (.equals v name location))
    else if t.kind = .equals then .further (within nest (.value v name location))
    else .refused (.noEquals name)
  | within nest (.value v name location), t =>
    if t.kind = .newline then .further (within nest (.value v name location))
    else if t.kind = .string then
      .further (within nest (.comma (v.add ⟨name, t.value, location⟩)))
    else .refused (.noValue name)
  | within nest (.comma v), t =>
    if t.kind = .newline then .further (within nest (.comma v))
    else if t.kind = .comma then .further (within nest (.argument v))
    else if t.kind = .rightParen then .further (within nest (.verbs v.first v.verbs))
    else .refused .openArguments
  | within nest .complete, t => nest.pushEnd t

/-- The tokens lead from one standing to another. -/
inductive Leads : Standing → List Token → Standing → Prop
  | nil (s : Standing) : Leads s [] s
  | cons {s s₁ s₂ : Standing} {t : Token} {ts : List Token} :
    s.push t = .further s₁ → Leads s₁ ts s₂ → Leads s (t :: ts) s₂

/-- Tokens lead on from where other tokens have led. -/
theorem Leads.append {s s₁ s₂ : Standing} {ts us : List Token} (h : s.Leads ts s₁)
    (h' : s₁.Leads us s₂) : s.Leads (ts ++ us) s₂ := by
  induction h with
  | nil => exact h'
  | cons hpush _ ih => exact .cons hpush (ih h')

end Standing

/-! ### What a token can mean behind verbs and statements -/

/-- What a token can mean behind a statement that the innermost list has already. -/
inductive Verdict.AtEnd (t : Token) : Nest → Verdict → Prop
  /-- The next statement of the list starts. -/
  | terminator {nest : Nest} : t.kind ∈ TokenKind.terminators →
    AtEnd t nest (.further (.within nest .start))
  /-- The innermost scope is closed, and so the statement that it belongs to is complete. -/
  | closed {first : Token} {statements : Array Statement} {scope : Scope} {outer : List Scope} :
    t.kind = .rightBrace → AtEnd t ⟨first, statements, scope :: outer⟩
      (.further (.within (Nest.add ⟨first, statements, outer⟩ scope.statement) .complete))
  | complete {first : Token} {statements : Array Statement} : t.kind = .endOfInput →
    AtEnd t ⟨first, statements, []⟩ (.complete (Nest.query ⟨first, statements, []⟩))
  | unmatched {first : Token} {statements : Array Statement} : t.kind = .rightBrace →
    AtEnd t ⟨first, statements, []⟩ (.refused .unmatchedBrace)
  | trailing {first : Token} {statements : Array Statement} :
    AtEnd t ⟨first, statements, []⟩ (.refused (.trailing t.describe))
  | openScope {first : Token} {statements : Array Statement} {scope : Scope}
    {outer : List Scope} : t.kind = .endOfInput →
    AtEnd t ⟨first, statements, scope :: outer⟩ (.refused (.openScope scope.brace.location))
  | noClosingBrace {first : Token} {statements : Array Statement} {scope : Scope}
    {outer : List Scope} : t.kind ≠ .endOfInput →
    AtEnd t ⟨first, statements, scope :: outer⟩ (.refused (.noClosingBrace scope.brace.location))

/-- These are all the things that a token behind a statement can do. -/
theorem Nest.atEnd_pushEnd (nest : Nest) (t : Token) : (nest.pushEnd t).AtEnd t nest := by
  by_cases hterminator : t.kind ∈ TokenKind.terminators
  · rw [pushEnd_terminator hterminator]
    exact .terminator hterminator
  -- behind a scope's last statement its brace is missing, behind a query's the end
  rcases nest with ⟨first, statements, _ | ⟨scope, outer⟩⟩
  · rw [pushEnd_outermost hterminator]
    split
    case isTrue hend => exact .complete hend
    split
    case isTrue hbrace => exact .unmatched hbrace
    case isFalse => exact .trailing
  · rw [pushEnd_inside hterminator]
    split
    case isTrue hbrace => exact .closed hbrace
    split
    case isTrue hend => exact .openScope hend
    case isFalse hend => exact .noClosingBrace hend

/-- What a token can mean behind the verbs of a statement that starts with `first`. -/
inductive Verdict.AtVerb (nest : Nest) (first : Token) (read : List Verb) (t : Token) :
    Verdict → Prop
  | sign : t.kind = .atSign →
    AtVerb nest first read t (.further (.within nest (.sign first read t.location)))
  | string : t.kind = .string → AtVerb nest first read t
      (.further (.within nest (.verbs first (read ++ [.filter t.value t.location]))))
  /-- A scope is opened, and its first statement starts. -/
  | opened : t.kind = .leftBrace → AtVerb nest first read t
      (.further (.within { nest with scopes := ⟨t, first, read, #[]⟩ :: nest.scopes } .start))
  /-- The statement ends in front of the token. -/
  | ended {verdict : Verdict} : (nest.add (.plain read first.location)).pushEnd t = verdict →
    AtVerb nest first read t verdict

/-- These are all the things that a token behind verbs can do. -/
theorem Nest.atVerb_pushVerb (nest : Nest) (first : Token) (read : List Verb) (t : Token) :
    (nest.pushVerb first read t).AtVerb nest first read t := by
  unfold pushVerb
  split
  case isTrue hsign => exact .sign hsign
  split
  case isTrue hstring => exact .string hstring
  split
  case isTrue hbrace => exact .opened hbrace
  case isFalse => exact .ended rfl

/-! ### The end of the input -/

/-- Nothing goes on behind the end of the input. -/
theorem Nest.pushEnd_endOfInput {nest : Nest} {t : Token} {s : Standing}
    (ht : t.kind = .endOfInput) : nest.pushEnd t ≠ .further s := by
  intro h
  cases h ▸ nest.atEnd_pushEnd t with
  | terminator hkind => exact absurd (ht ▸ hkind) (by decide)
  | closed hkind => cases ht.symm.trans hkind

/-- This is so behind verbs as well. -/
theorem Nest.pushVerb_endOfInput {nest : Nest} {first t : Token} {read : List Verb} {s : Standing}
    (ht : t.kind = .endOfInput) : nest.pushVerb first read t ≠ .further s := by
  intro h
  cases h ▸ nest.atVerb_pushVerb first read t with
  | ended hend => exact Nest.pushEnd_endOfInput ht hend
  | sign hkind => cases ht.symm.trans hkind
  | string hkind => cases ht.symm.trans hkind
  | opened hkind => cases ht.symm.trans hkind

/-- Behind the end of the input there is nothing to read. -/
theorem Standing.push_endOfInput {s s' : Standing} {t : Token} (ht : t.kind = .endOfInput) :
    s.push t ≠ .further s' := by
  cases s with
  | unread => exact Nest.pushVerb_endOfInput ht
  | within nest stage =>
    cases stage with
    | start => exact Nest.pushVerb_endOfInput ht
    | verbs first read => exact Nest.pushVerb_endOfInput ht
    | name v =>
      simp only [push, ht, reduceCtorEq, if_false]
      exact Nest.pushVerb_endOfInput ht
    | complete => exact Nest.pushEnd_endOfInput ht
    | _ => simp [push, ht]

/-! ### Refusals -/

/-- The problem can be found at a token: it is none of the spelling, which are found before there is
    a token, and behind a whole query it tells of this token. -/
def Problem.FoundAt (t : Token) : Problem → Prop
  | .noIdentifier => False
  | .openString => False
  | .openComment => False
  | .trailing found => found = t.describe
  | _ => True

/-- A problem behind a statement is found at the token that is refused. -/
theorem Nest.foundAt_of_pushEnd {nest : Nest} {t : Token} {problem : Problem}
    (h : nest.pushEnd t = .refused problem) : problem.FoundAt t := by
  cases h ▸ nest.atEnd_pushEnd t with
  | trailing => rfl
  | unmatched => trivial
  | openScope => trivial
  | noClosingBrace => trivial

/-- So is a problem behind verbs. -/
theorem Nest.foundAt_of_pushVerb {nest : Nest} {first t : Token} {read : List Verb}
    {problem : Problem} (h : nest.pushVerb first read t = .refused problem) :
    problem.FoundAt t := by
  cases h ▸ nest.atVerb_pushVerb first read t with
  | ended hend => exact Nest.foundAt_of_pushEnd hend

/-- A token is refused for a problem that can be found at it. -/
theorem Standing.foundAt_of_refused {s : Standing} {t : Token} {problem : Problem}
    (h : s.push t = .refused problem) : problem.FoundAt t := by
  cases s with
  | unread => exact Nest.foundAt_of_pushVerb h
  | within nest stage =>
    cases stage with
    | start => exact Nest.foundAt_of_pushVerb h
    | verbs first read => exact Nest.foundAt_of_pushVerb h
    | name v =>
      simp only [push] at h
      split at h
      · cases h
      · exact Nest.foundAt_of_pushVerb h
    | complete => exact Nest.foundAt_of_pushEnd h
    | _ =>
      -- inside of a verb
      simp only [push] at h
      repeat' split at h
      all_goals cases h <;> trivial

end ScopedQuery
