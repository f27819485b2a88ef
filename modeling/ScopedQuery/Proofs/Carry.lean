import ScopedQuery.Proofs.Agreement
import ScopedQuery.Proofs.Course

namespace ScopedQuery

/-!
# Tokens told again

Where the tokens of one text are those of another, with other places and with other characters in
their strings, everything that is made of them differs in the same way.

* `Carrier` — what becomes of the places, and of the bodies of strings and line breaks.
* `Token.carry`, `Query.carry`, `Standing.carry` and their like — tokens, trees and standings told
  again.
* `Standing.push_carry` — a token told again means at a standing told again what it meant before.
* `Course.carry` — so two readings go the same way if one feed tells the tokens of the other.
-/

/-- How the tokens of a text are told again by another text. -/
structure Carrier where
  /-- What becomes of the body of a string, and of a line break. -/
  text : String → String
  /-- What becomes of a place. -/
  place : Location → Location

variable (m : Carrier)

/-! ### Tokens and trees -/

/-- The token told again. -/
def Token.carry (t : Token) : Token where
  kind := t.kind
  value := if t.kind = .string ∨ t.kind = .newline then m.text t.value else t.value
  location := m.place t.location

/-- The argument told again. -/
def Argument.carry (a : Argument) : Argument := ⟨a.name, m.text a.value, m.place a.location⟩

/-- The verb told again. -/
def Verb.carry : Verb → Verb
  | .named name arguments location =>
    .named name (arguments.map (Argument.carry m)) (m.place location)
  | .filter pattern location => .filter (m.text pattern) (m.place location)

mutual

/-- The statement told again. -/
def Statement.carry : Statement → Statement
  | .plain verbs location => .plain (verbs.map (Verb.carry m)) (m.place location)
  | .nested verbs body opened location =>
    .nested (verbs.map (Verb.carry m)) (Statement.carryAll body) (m.place opened)
      (m.place location)

/-- The statements told again. -/
def Statement.carryAll : List Statement → List Statement
  | [] => []
  | s :: rest => s.carry :: Statement.carryAll rest

end

theorem Statement.carryAll_eq_map (statements : List Statement) :
    Statement.carryAll m statements = statements.map (Statement.carry m) := by
  induction statements with
  | nil => rfl
  | cons s rest ih => rw [carryAll, ih, List.map_cons]

/-- The query told again. -/
def Query.carry (q : Query) : Query :=
  ⟨q.statements.map (Statement.carry m), m.place q.location⟩

section Simp

variable {m} {t : Token}

@[simp] theorem Token.kind_carry (t : Token) : (t.carry m).kind = t.kind := rfl

@[simp] theorem Token.location_carry (t : Token) :
    (t.carry m).location = m.place t.location := rfl

/-- The text of a string is told again as the carrier has it. -/
theorem Token.value_carry_of_string (h : t.kind = .string) :
    (t.carry m).value = m.text t.value := if_pos (.inl h)

theorem Token.value_carry_of_identifier (h : t.kind = .identifier) :
    (t.carry m).value = t.value := by simp [carry, h]

end Simp

/-! ### Characters that stay -/

section Characters

variable {m} (h : m.text = id)
include h

/-- If texts are kept, only the place of a token changes. -/
theorem Token.carry_of_text (t : Token) :
    t.carry m = { t with location := m.place t.location } := by
  simp [carry, h]

theorem Token.describe_carry (t : Token) : (t.carry m).describe = t.describe := by
  rw [carry_of_text h]
  rfl

/-- An argument stays the same but for its place, and so do verbs and statements. -/
theorem Argument.unplaced_carry (a : Argument) : (a.carry m).unplaced = a.unplaced := by
  simp [carry, unplaced, h]

theorem Verb.unplaced_carry (v : Verb) : (v.carry m).unplaced = v.unplaced := by
  cases v with
  | named name arguments location =>
    simp [carry, unplaced, Argument.unplaced_carry h]
  | filter pattern location => simp [carry, unplaced, h]

theorem Statement.unplaced_carry (s : Statement) : (s.carry m).unplaced = s.unplaced := by
  induction s using Statement.inductionOn with
  | plain verbs location => simp [carry, unplaced, Verb.unplaced_carry h]
  | nested verbs body opened location ih =>
    have hbody : body.map (unplaced ∘ carry m) = body.map unplaced := List.map_congr_left ih
    simp [carry, unplaced, carryAll_eq_map, unplacedAll_eq_map, Verb.unplaced_carry h, hbody]

/-- Where the characters stay, the query told again agrees with the query. -/
theorem Query.agrees_carry (q : Query) : (q.carry m).agrees q = true := by
  rw [agrees_iff]
  have hstatement := fun s => Statement.unplaced_carry h s
  simp [carry, unplaced, Statement.unplacedAll_eq_map, hstatement]

end Characters

/-! ### Standings -/

/-- The scope told again. -/
def Scope.carry (scope : Scope) : Scope where
  brace := scope.brace.carry m
  owner := scope.owner.carry m
  verbs := scope.verbs.map (Verb.carry m)
  statements := scope.statements.map (Statement.carry m)

/-- The nest told again. -/
def Nest.carry (nest : Nest) : Nest where
  first := nest.first.carry m
  statements := nest.statements.map (Statement.carry m)
  scopes := nest.scopes.map (Scope.carry m)

/-- The verb that is being read, told again. -/
def PartialVerb.carry (v : PartialVerb) : PartialVerb where
  first := v.first.carry m
  read := v.read.map (Verb.carry m)
  sign := m.place v.sign
  name := v.name
  arguments := v.arguments.map (Argument.carry m)

/-- The stage told again. -/
def Stage.carry : Stage → Stage
  | .start => .start
  | .verbs first read => .verbs (first.carry m) (read.map (Verb.carry m))
  | .sign first read location =>
    .sign (first.carry m) (read.map (Verb.carry m)) (m.place location)
  | .name v => .name (v.carry m)
  | .argument v => .argument (v.carry m)
  | .equals v key location => .equals (v.carry m) key (m.place location)
  | .value v key location => .value (v.carry m) key (m.place location)
  | .comma v => .comma (v.carry m)
  | .complete => .complete

/-- The standing told again. -/
def Standing.carry : Standing → Standing
  | .unread => .unread
  | .within nest stage => .within (nest.carry m) (stage.carry m)

/-- The problem that is found at the token told again. -/
def Problem.carry (found : Token) : Problem → Problem
  | .openScope opened => .openScope (m.place opened)
  | .noClosingBrace opened => .noClosingBrace (m.place opened)
  | .trailing _ => .trailing (found.carry m).describe
  | problem => problem

@[simp] theorem Problem.kind_carry (found : Token) (problem : Problem) :
    (problem.carry m found).kind = problem.kind := by
  cases problem <;> rfl

@[simp] theorem Problem.expected_carry (found : Token) (problem : Problem) :
    (problem.carry m found).expected = problem.expected := by
  cases problem <;> rfl

/-- The verdict on the token told again. -/
def Verdict.carry (t : Token) : Verdict → Verdict
  | .further c => .further (c.carry m)
  | .complete q => .complete (q.carry m)
  | .refused problem => .refused (problem.carry m t)

@[simp] theorem Nest.add_carry (nest : Nest) (s : Statement) :
    (nest.add s).carry m = (nest.carry m).add (s.carry m) := by
  rcases nest with ⟨first, statements, _ | ⟨scope, outer⟩⟩ <;>
    simp [Nest.add, Nest.carry, Scope.carry, Scope.add]

@[simp] theorem Scope.statement_carry (scope : Scope) :
    scope.statement.carry m = (scope.carry m).statement := by
  simp [Scope.statement, Scope.carry, Statement.carry, Statement.carryAll_eq_map]

@[simp] theorem PartialVerb.verbs_carry (v : PartialVerb) :
    (v.carry m).verbs = v.verbs.map (Verb.carry m) := by
  simp [PartialVerb.verbs, PartialVerb.verb, PartialVerb.carry, Verb.carry]

@[simp] theorem PartialVerb.add_carry (v : PartialVerb) (a : Argument) :
    (v.add a).carry m = (v.carry m).add (a.carry m) := by
  simp [PartialVerb.add, PartialVerb.carry]

/-- The description of a token told again is put where the problem holds one. -/
theorem Verdict.carry_trailing (t : Token) : (Verdict.refused (.trailing t.describe)).carry m t
    = .refused (.trailing (t.carry m).describe) := rfl

/-- The end of a statement is taken in the same way where all is told again, and what is refused is
    refused with the problem told again. -/
theorem Nest.pushEnd_carry (nest : Nest) (t : Token) :
    (nest.carry m).pushEnd (t.carry m) = (nest.pushEnd t).carry m t := by
  by_cases hterminator : t.kind ∈ TokenKind.terminators
  · simp [pushEnd, hterminator, Verdict.carry, Standing.carry, Stage.carry]
  have hother : (t.carry m).kind ∉ TokenKind.terminators := hterminator
  rcases nest with ⟨first, statements, _ | ⟨scope, outer⟩⟩
  · -- no scope is open: the token ends the query, closes nothing, or is trailing
    have hcarry : Nest.carry m ⟨first, statements, []⟩
        = ⟨first.carry m, statements.map (Statement.carry m), []⟩ := rfl
    rw [hcarry, pushEnd_outermost hother, pushEnd_outermost hterminator]
    by_cases hend : t.kind = .endOfInput
    · simp [hend, Verdict.carry, Query.carry, Nest.query]
    by_cases hbrace : t.kind = .rightBrace
    · simp [hbrace, Verdict.carry, Problem.carry]
    · simp [hend, hbrace, Verdict.carry_trailing]
  · have hcarry (scopes : List Scope) : Nest.carry m ⟨first, statements, scopes⟩
        = ⟨first.carry m, statements.map (Statement.carry m), scopes.map (Scope.carry m)⟩ := rfl
    rw [hcarry, List.map_cons, pushEnd_inside hother, pushEnd_inside hterminator]
    by_cases hbrace : t.kind = .rightBrace
    · -- the statement of the scope goes into the list around it
      have hadd := Nest.add_carry m ⟨first, statements, outer⟩ scope.statement
      rw [hcarry, Scope.statement_carry] at hadd
      simp [hbrace, Verdict.carry, Standing.carry, Stage.carry, hadd]
    by_cases hend : t.kind = .endOfInput
    · simp [hend, Verdict.carry, Problem.carry, Scope.carry]
    · simp [hend, hbrace, Verdict.carry, Problem.carry, Scope.carry]

/-- So is the token behind the verbs of a statement. -/
theorem Nest.pushVerb_carry (nest : Nest) (first t : Token) (read : List Verb) :
    (nest.carry m).pushVerb (first.carry m) (read.map (Verb.carry m)) (t.carry m)
      = (nest.pushVerb first read t).carry m t := by
  by_cases hsign : t.kind = .atSign
  · simp [pushVerb, hsign, Verdict.carry, Standing.carry, Stage.carry]
  by_cases hstring : t.kind = .string
  · simp [pushVerb, hstring, Verdict.carry, Standing.carry, Stage.carry, Verb.carry,
      Token.value_carry_of_string hstring]
  by_cases hbrace : t.kind = .leftBrace
  · simp [pushVerb, hbrace, Verdict.carry, Standing.carry, Stage.carry, Nest.carry, Scope.carry]
  · -- any other token ends the statement, which is added with its place told again
    have hplain : (nest.carry m).add (.plain (read.map (Verb.carry m)) (first.carry m).location)
        = (nest.add (.plain read first.location)).carry m := by
      rw [Nest.add_carry, Statement.carry, Token.location_carry]
    simp only [pushVerb, Token.kind_carry, hsign, hstring, hbrace, if_false, hplain,
      Nest.pushEnd_carry]

/-- A token told again means what it meant before, told again. -/
theorem Standing.push_carry (c : Standing) (t : Token) :
    (c.carry m).push (t.carry m) = (c.push t).carry m t := by
  cases c with
  | unread =>
    -- the first token also becomes that of the nest
    have hnest : Nest.carry m { first := t } = { first := t.carry m } := by simp [Nest.carry]
    have hpush := Nest.pushVerb_carry m { first := t } t t []
    rw [hnest] at hpush
    exact hpush
  | within nest stage =>
    cases stage with
    | start => exact Nest.pushVerb_carry m nest t t []
    | verbs first read => exact Nest.pushVerb_carry m nest first t read
    | sign first read location =>
      by_cases hname : t.kind = .identifier
      · simp [carry, Stage.carry, push, hname, Verdict.carry, PartialVerb.carry,
          Token.value_carry_of_identifier hname]
      · simp [carry, Stage.carry, push, hname, Verdict.carry, Problem.carry]
    | name v =>
      by_cases hparen : t.kind = .leftParen
      · simp [carry, Stage.carry, push, hparen, Verdict.carry]
      · simp only [carry, Stage.carry, push, Token.kind_carry, if_neg hparen,
          PartialVerb.verbs_carry]
        exact Nest.pushVerb_carry m nest v.first t v.verbs
    | argument v =>
      by_cases hbreak : t.kind = .newline
      · simp [carry, Stage.carry, push, hbreak, Verdict.carry]
      by_cases hname : t.kind = .identifier
      · simp [carry, Stage.carry, push, hname, Verdict.carry,
          Token.value_carry_of_identifier hname]
      by_cases hstray : t.kind = .stray <;>
        simp [carry, Stage.carry, push, hbreak, hname, hstray, Verdict.carry, Problem.carry]
    | equals v name location =>
      by_cases hbreak : t.kind = .newline
      · simp [carry, Stage.carry, push, hbreak, Verdict.carry]
      by_cases hequals : t.kind = .equals <;>
        simp [carry, Stage.carry, push, hbreak, hequals, Verdict.carry, Problem.carry]
    | value v name location =>
      by_cases hbreak : t.kind = .newline
      · simp [carry, Stage.carry, push, hbreak, Verdict.carry]
      by_cases hstring : t.kind = .string
      · simp [carry, Stage.carry, push, hstring, Verdict.carry, Argument.carry,
          Token.value_carry_of_string hstring]
      · simp [carry, Stage.carry, push, hbreak, hstring, Verdict.carry, Problem.carry]
    | comma v =>
      by_cases hbreak : t.kind = .newline
      · simp [carry, Stage.carry, push, hbreak, Verdict.carry]
      by_cases hcomma : t.kind = .comma
      · simp [carry, Stage.carry, push, hcomma, Verdict.carry]
      by_cases hparen : t.kind = .rightParen
      · simp [carry, Stage.carry, push, hparen, Verdict.carry]
        rfl
      · simp [carry, Stage.carry, push, hbreak, hcomma, hparen, Verdict.carry, Problem.carry]
    | complete => exact Nest.pushEnd_carry m nest t

/-! ### Readings -/

/-- The ending told again, where faults are told again as `retold` says. -/
inductive Ending.CarriesTo {ε ε' : Type} (retold : ε → ε' → Prop) : Ending ε → Ending ε' → Prop
  | missing {fault : ε} {fault' : ε'} :
    retold fault fault' → CarriesTo retold (.missing fault) (.missing fault')
  | complete {t : Token} {q : Query} :
    CarriesTo retold (.complete t q) (.complete (t.carry m) (q.carry m))
  | refused {t : Token} {problem : Problem} :
    CarriesTo retold (.refused t problem) (.refused (t.carry m) (problem.carry m t))

/-- Feeds that are related give the tokens of one another told again, and what is left of them is
    related as well. -/
structure TokenFeed.Carries {σ τ ε ε' : Type} [TokenFeed σ ε] [TokenFeed τ ε']
    (related : σ → τ → Prop) (retold : ε → ε' → Prop) : Prop where
  token {s d : σ} {s' : τ} {t : Token} : related s s' → TokenFeed.next s = (.ok t, d) →
    ∃ d', TokenFeed.next s' = (.ok (t.carry m), d') ∧ (t.kind ≠ .endOfInput → related d d')
  fault {s d : σ} {s' : τ} {fault : ε} : related s s' → TokenFeed.next s = (.error fault, d) →
    ∃ fault' d', TokenFeed.next s' = (.error fault', d') ∧ retold fault fault'

variable {m} {σ τ ε ε' : Type} [TokenFeed σ ε] [TokenFeed τ ε'] {related : σ → τ → Prop}
  {retold : ε → ε' → Prop}

/-- The readings of related feeds go the same way. -/
theorem Course.carry (hcarries : TokenFeed.Carries m related retold) {c : Standing} {s d : σ}
    {s' : τ} {us : List Token} {e : Ending ε} (h : Course c s us e d) (hrelated : related s s') :
    ∃ e' d', Course (c.carry m) s' (us.map (Token.carry m)) e' d' ∧
      Ending.CarriesTo m retold e e' := by
  -- the place of the retold feed moves along, so the induction is for every such place
  induction h generalizing s' with
  | missing hnext =>
    obtain ⟨fault', d', hnext', hretold⟩ := hcarries.fault hrelated hnext
    exact ⟨_, d', .missing hnext', .missing hretold⟩
  | @complete c s d t q hnext hpush =>
    obtain ⟨d', hnext', -⟩ := hcarries.token hrelated hnext
    have hpush' : (c.carry m).push (t.carry m) = .complete (q.carry m) := by
      rw [Standing.push_carry, hpush, Verdict.carry]
    exact ⟨_, d', .complete hnext' hpush', .complete⟩
  | @refused c s d t problem hnext hpush =>
    obtain ⟨d', hnext', -⟩ := hcarries.token hrelated hnext
    have hpush' : (c.carry m).push (t.carry m) = .refused (problem.carry m t) := by
      rw [Standing.push_carry, hpush, Verdict.carry]
    exact ⟨_, d', .refused hnext' hpush', .refused⟩
  | @further c c₁ s s₁ d t us e hnext hpush _ ih =>
    obtain ⟨s₁', hnext', hrest⟩ := hcarries.token hrelated hnext
    -- a token behind which the reading goes on is not the last, so the feeds stay related
    have hend : t.kind ≠ .endOfInput := fun hend => Standing.push_endOfInput hend hpush
    have hpush' : (c.carry m).push (t.carry m) = .further (c₁.carry m) := by
      rw [Standing.push_carry, hpush, Verdict.carry]
    obtain ⟨e', d', hcourse, hending⟩ := ih (hrest hend)
    exact ⟨e', d', .further hnext' hpush' hcourse, hending⟩

end ScopedQuery
