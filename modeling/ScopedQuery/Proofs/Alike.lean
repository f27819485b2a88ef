import ScopedQuery.Proofs.Agreement
import ScopedQuery.Proofs.Course

namespace ScopedQuery

/-!
# Standings that differ in places only

Where a token stands in a text never decides how reading goes on, and of the first token of a list
or a statement nothing but its place is kept.

* `Standing.content` — what is left of a standing without places; `Verdict.content` is what is left
  of a verdict.
* `Standing.push_content` — what a token means is left of what it means at what is left.
* `Standing.push_alike` — so it means the same at standings with the same content.
* `OutcomesAgree` — two outcomes say the same, but for places.
* `Course.alike` — readings that go on alike from two standings with the same content.
-/

/-! ### Trees without places twice -/

@[simp] theorem Argument.unplaced_unplaced (a : Argument) : a.unplaced.unplaced = a.unplaced := rfl

@[simp] theorem Verb.unplaced_unplaced (v : Verb) : v.unplaced.unplaced = v.unplaced := by
  cases v with
  | named name arguments location => simp [unplaced]
  | filter pattern location => rfl

/-- There are no places left to take away. -/
@[simp] theorem Statement.unplaced_unplaced (s : Statement) : s.unplaced.unplaced = s.unplaced := by
  induction s using Statement.inductionOn with
  | plain verbs location => simp [unplaced]
  | nested verbs body opened location ih =>
    have hbody : body.map (unplaced ∘ unplaced) = body.map unplaced := List.map_congr_left ih
    simp [unplaced, unplacedAll_eq_map, hbody]

/-! ### What is left of standings -/

/-- Stands for any token of which only the place counts. -/
def anyToken : Token := ⟨.endOfInput, "", {}⟩

/-- The scope without places. -/
def Scope.content (scope : Scope) : Scope where
  brace := anyToken
  owner := anyToken
  verbs := scope.verbs.map Verb.unplaced
  statements := scope.statements.map Statement.unplaced

/-- The nest without places. -/
def Nest.content (nest : Nest) : Nest where
  first := anyToken
  statements := nest.statements.map Statement.unplaced
  scopes := nest.scopes.map Scope.content

/-- The verb that is being read, without places. -/
def PartialVerb.content (v : PartialVerb) : PartialVerb where
  first := anyToken
  read := v.read.map Verb.unplaced
  sign := {}
  name := v.name
  arguments := v.arguments.map Argument.unplaced

/-- The stage without places. -/
def Stage.content : Stage → Stage
  | .start => .start
  | .verbs _ read => .verbs anyToken (read.map Verb.unplaced)
  | .sign _ read _ => .sign anyToken (read.map Verb.unplaced) {}
  | .name v => .name v.content
  | .argument v => .argument v.content
  | .equals v key _ => .equals v.content key {}
  | .value v key _ => .value v.content key {}
  | .comma v => .comma v.content
  | .complete => .complete

/-- The standing without places. -/
def Standing.content : Standing → Standing
  | .unread => .unread
  | .within nest stage => .within nest.content stage.content

/-- The problem without places, and without the token that it tells of. -/
def Problem.content : Problem → Problem
  | .openScope _ => .openScope {}
  | .noClosingBrace _ => .noClosingBrace {}
  | .trailing _ => .trailing ""
  | problem => problem

/-- The verdict without places. -/
def Verdict.content : Verdict → Verdict
  | .further c => .further c.content
  | .complete q => .complete q.unplaced
  | .refused problem => .refused problem.content

@[simp] theorem Problem.kind_content (problem : Problem) : problem.content.kind = problem.kind := by
  cases problem <;> rfl

@[simp] theorem Problem.expected_content (problem : Problem) :
    problem.content.expected = problem.expected := by
  cases problem <;> rfl

@[simp] theorem Nest.add_content (nest : Nest) (s : Statement) :
    (nest.add s).content = nest.content.add s.unplaced := by
  rcases nest with ⟨first, statements, _ | ⟨scope, outer⟩⟩ <;>
    simp [Nest.add, Nest.content, Scope.content, Scope.add]

/-- To leave out the places twice is to leave them out once: of a scope, a nest, or a verb. -/
@[simp] theorem Scope.content_content (scope : Scope) : scope.content.content = scope.content := by
  simp [Scope.content]

@[simp] theorem Nest.content_content (nest : Nest) : nest.content.content = nest.content := by
  simp [Nest.content]

@[simp] theorem PartialVerb.content_content (v : PartialVerb) : v.content.content = v.content := by
  simp [PartialVerb.content]

@[simp] theorem Scope.statement_content (scope : Scope) :
    scope.content.statement.unplaced = scope.statement.unplaced := by
  simp [Scope.statement, Scope.content, Statement.unplaced, Statement.unplacedAll_eq_map]

@[simp] theorem PartialVerb.verbs_content (v : PartialVerb) :
    v.content.verbs.map Verb.unplaced = v.verbs.map Verb.unplaced := by
  have hverb : v.content.verb.unplaced = v.verb.unplaced := by
    simp [PartialVerb.verb, PartialVerb.content, Verb.unplaced]
  have hread : v.content.read.map Verb.unplaced = v.read.map Verb.unplaced := by
    simp [PartialVerb.content]
  simp only [PartialVerb.verbs, List.map_append, hread, List.map_cons, List.map_nil, hverb]

/-- The argument that is added counts without its place. -/
theorem PartialVerb.add_content (v : PartialVerb) {a b : Argument} (h : a.unplaced = b.unplaced) :
    (v.content.add a).content = (v.add b).content := by
  simp [PartialVerb.add, PartialVerb.content, h]

@[simp] theorem Nest.query_content (nest : Nest) :
    nest.content.query.unplaced = nest.query.unplaced := by
  simp [Nest.query, Nest.content, Query.unplaced, Statement.unplacedAll_eq_map]

/-! ### One more token -/

/-- The end of a statement is taken in the same way, wherever what is before it was found. -/
theorem Nest.pushEnd_content (nest : Nest) (t : Token) :
    (nest.content.pushEnd t).content = (nest.pushEnd t).content := by
  by_cases hterminator : t.kind ∈ TokenKind.terminators
  · simp [pushEnd, hterminator, Verdict.content, Standing.content]
  rcases nest with ⟨first, statements, _ | ⟨scope, outer⟩⟩
  · have hquery := Nest.query_content ⟨first, statements, []⟩
    have hcontent : Nest.content ⟨first, statements, []⟩
        = ⟨anyToken, statements.map Statement.unplaced, []⟩ := rfl
    rw [hcontent] at hquery ⊢
    rw [pushEnd_outermost hterminator, pushEnd_outermost hterminator]
    by_cases hend : t.kind = .endOfInput
    · simp only [hend, if_true, Verdict.content, hquery]
    by_cases hbrace : t.kind = .rightBrace
    · simp [hbrace]
    · simp [hend, hbrace]
  · -- some scope is open: its brace ends it, and what is refused says where it was opened
    have hcontent (scopes : List Scope) : Nest.content ⟨first, statements, scopes⟩
        = ⟨anyToken, statements.map Statement.unplaced, scopes.map Scope.content⟩ := rfl
    rw [hcontent, List.map_cons, pushEnd_inside hterminator, pushEnd_inside hterminator]
    by_cases hbrace : t.kind = .rightBrace
    · -- the statement of the scope goes into the list around it
      simp only [hbrace, if_true, Verdict.content, Standing.content, Nest.add_content,
        Scope.statement_content, ← hcontent, Nest.content_content]
    by_cases hend : t.kind = .endOfInput
    · simp [hend, Verdict.content, Problem.content]
    · simp [hend, hbrace, Verdict.content, Problem.content]

/-- The first token of the statement does not count. -/
theorem Nest.pushVerb_content {nest nest' : Nest} {read read' : List Verb} (first first' t : Token)
    (hnest : nest'.content = nest.content)
    (hread : read'.map Verb.unplaced = read.map Verb.unplaced) :
    (nest'.pushVerb first' read' t).content = (nest.pushVerb first read t).content := by
  -- the token goes on with the verbs, opens a scope, or ends the statement
  by_cases hsign : t.kind = .atSign
  · simp [pushVerb, hsign, Verdict.content, Standing.content, Stage.content, hnest, hread]
  by_cases hstring : t.kind = .string
  · simp [pushVerb, hstring, Verdict.content, Standing.content, Stage.content, hnest, hread]
  by_cases hbrace : t.kind = .leftBrace
  · have hparts := Nest.mk.inj hnest
    simp [pushVerb, hbrace, Verdict.content, Standing.content, Stage.content, Nest.content,
      Scope.content, hread, hparts]
  · have hadd : (nest'.add (.plain read' first'.location)).content
        = (nest.add (.plain read first.location)).content := by
      rw [Nest.add_content, Nest.add_content, hnest, Statement.unplaced, Statement.unplaced, hread]
    simp only [pushVerb, hsign, hstring, hbrace, if_false]
    rw [← Nest.pushEnd_content, hadd, Nest.pushEnd_content]

/-- What a token means depends on places only in places. -/
theorem Standing.push_content (c : Standing) (t : Token) :
    (c.content.push t).content = (c.push t).content := by
  cases c with
  | unread => rfl
  | within nest stage =>
    have hnest := nest.content_content
    cases stage with
    | start => exact Nest.pushVerb_content t t t hnest rfl
    | verbs first read => exact Nest.pushVerb_content _ _ t hnest (by simp)
    | sign first read location =>
      by_cases hname : t.kind = .identifier <;>
        simp [content, Stage.content, push, hname, Verdict.content, PartialVerb.content]
    | name v =>
      by_cases hparen : t.kind = .leftParen
      · simp [content, Stage.content, push, hparen, Verdict.content]
      · simp only [content, Stage.content, push, if_neg hparen]
        exact Nest.pushVerb_content _ _ t hnest v.verbs_content
    | argument v =>
      by_cases hbreak : t.kind = .newline
      · simp [content, Stage.content, push, hbreak, Verdict.content]
      by_cases hname : t.kind = .identifier
      · simp [content, Stage.content, push, hname, Verdict.content]
      by_cases hstray : t.kind = .stray <;>
        simp [content, Stage.content, push, hbreak, hname, hstray, Verdict.content]
    | equals v name location =>
      by_cases hbreak : t.kind = .newline
      · simp [content, Stage.content, push, hbreak, Verdict.content]
      by_cases hequals : t.kind = .equals <;>
        simp [content, Stage.content, push, hbreak, hequals, Verdict.content]
    | value v name location =>
      -- the place of the name is left out, and the argument is made of name and value only
      by_cases hbreak : t.kind = .newline
      · simp [content, Stage.content, push, hbreak, Verdict.content]
      by_cases hstring : t.kind = .string
      · have hadd : (v.content.add ⟨name, t.value, {}⟩).content
            = (v.add ⟨name, t.value, location⟩).content := v.add_content rfl
        simp [content, Stage.content, push, hstring, Verdict.content, hadd]
      · simp [content, Stage.content, push, hbreak, hstring, Verdict.content]
    | comma v =>
      by_cases hbreak : t.kind = .newline
      · simp [content, Stage.content, push, hbreak, Verdict.content]
      by_cases hcomma : t.kind = .comma
      · simp [content, Stage.content, push, hcomma, Verdict.content]
      by_cases hparen : t.kind = .rightParen
      · simp [content, Stage.content, push, hparen, Verdict.content]
      · simp [content, Stage.content, push, hbreak, hcomma, hparen, Verdict.content]
    | complete => exact Nest.pushEnd_content nest t

/-- The verdicts say the same, but for places. -/
inductive Verdict.Alike : Verdict → Verdict → Prop
  | further {c c' : Standing} : c.content = c'.content → Alike (.further c) (.further c')
  | complete {q q' : Query} : q.agrees q' = true → Alike (.complete q) (.complete q')
  | refused {problem problem' : Problem} :
    problem.kind = problem'.kind → problem.expected = problem'.expected →
    Alike (.refused problem) (.refused problem')

namespace Verdict.Alike

variable {v v' : Verdict}

/-- If one of two alike verdicts goes on, so does the other, with the same content. -/
theorem of_further {c : Standing} (h : v.Alike v') (hv : v = .further c) :
    ∃ c', v' = .further c' ∧ c.content = c'.content := by
  subst hv
  cases h with
  | further hcontent => exact ⟨_, rfl, hcontent⟩

/-- If one is complete, so is the other, with a query that agrees. -/
theorem of_complete {q : Query} (h : v.Alike v') (hv : v = .complete q) :
    ∃ q', v' = .complete q' ∧ q.agrees q' = true := by
  subst hv
  cases h with
  | complete hagrees => exact ⟨_, rfl, hagrees⟩

/-- If one refuses, so does the other, for a problem of the same kind with the same expectation. -/
theorem of_refused {problem : Problem} (h : v.Alike v') (hv : v = .refused problem) :
    ∃ problem', v' = .refused problem' ∧ problem.kind = problem'.kind ∧
      problem.expected = problem'.expected := by
  subst hv
  cases h with
  | refused hkind hexpected => exact ⟨_, rfl, hkind, hexpected⟩

end Verdict.Alike

/-- Verdicts with the same content are alike. -/
theorem Verdict.alike_of_content {v v' : Verdict} (h : v.content = v'.content) : v.Alike v' := by
  cases v <;> cases v'
  case further.further => exact .further (Verdict.further.inj h)
  case complete.complete q q' => exact .complete ((q.agrees_iff q').mpr (Verdict.complete.inj h))
  case refused.refused problem problem' =>
    have hcontent := Verdict.refused.inj h
    refine .refused ?_ ?_
    · rw [← problem.kind_content, hcontent, problem'.kind_content]
    · rw [← problem.expected_content, hcontent, problem'.expected_content]
  all_goals cases h

/-- A token means the same, but for places, at standings with the same content. -/
theorem Standing.push_alike {c c' : Standing} (h : c.content = c'.content) (t : Token) :
    (c.push t).Alike (c'.push t) := by
  apply Verdict.alike_of_content
  rw [← c.push_content, h, c'.push_content]

/-! ### Readings -/

section Readings

variable {ε : Type}

/-- The endings say the same, but for places. -/
inductive Ending.Alike : Ending ε → Ending ε → Prop
  | missing (fault : ε) : Alike (.missing fault) (.missing fault)
  | complete {last last' : Token} {q q' : Query} :
    q.agrees q' = true → Alike (.complete last q) (.complete last' q')
  | refused {last last' : Token} {problem problem' : Problem} :
    problem.kind = problem'.kind → problem.expected = problem'.expected →
    Alike (.refused last problem) (.refused last' problem')

/-- The outcomes say the same, but for places: their queries agree, or errors are of one kind and
    look for the same. -/
inductive OutcomesAgree : Except (Failure ε) Query → Except (Failure ε) Query → Prop
  | query {q q' : Query} : q.agrees q' = true → OutcomesAgree (.ok q) (.ok q')
  | refused {d d' : Diagnostic} : d.kind = d'.kind → d.expected = d'.expected →
    OutcomesAgree (.error (.refused d)) (.error (.refused d'))
  | feed (fault : ε) : OutcomesAgree (.error (.feed fault)) (.error (.feed fault))

/-- Two readings that end alike have outcomes that agree, whatever texts they are of. -/
theorem Ending.Alike.outcome {e e' : Ending ε} (h : e.Alike e') (text text' : String) :
    OutcomesAgree (e.outcome text) (e'.outcome text') := by
  cases h with
  | missing fault => exact .feed fault
  | complete hagrees => exact .query hagrees
  | refused hkind hexpected => exact .refused hkind (congrArg some hexpected)

theorem Query.agrees_refl (q : Query) : q.agrees q = true := (q.agrees_iff q).mpr rfl

/-- Each reading ends as it ends. -/
theorem Ending.Alike.refl (e : Ending ε) : e.Alike e := by
  cases e with
  | missing fault => exact .missing fault
  | complete last q => exact .complete q.agrees_refl
  | refused last problem => exact .refused rfl rfl

namespace OutcomesAgree

variable {a b c : Except (Failure ε) Query}

/-- Agreement of outcomes does not depend on the order, since that of queries does not. -/
theorem symm (h : OutcomesAgree a b) : OutcomesAgree b a := by
  cases h with
  | query hagrees =>
    rw [Query.agrees_iff] at hagrees
    exact .query ((Query.agrees_iff _ _).mpr hagrees.symm)
  | refused hkind hexpected => exact .refused hkind.symm hexpected.symm
  | feed fault => exact .feed fault

/-- Outcomes that agree with a third one agree with one another. -/
theorem trans (h : OutcomesAgree a b) (h' : OutcomesAgree b c) : OutcomesAgree a c := by
  cases h with
  | query hagrees =>
    cases h' with
    | query hagrees' =>
      rw [Query.agrees_iff] at hagrees hagrees'
      exact .query ((Query.agrees_iff _ _).mpr (hagrees.trans hagrees'))
  | refused hkind hexpected =>
    cases h' with
    | refused hkind' hexpected' =>
      exact .refused (hkind.trans hkind') (hexpected.trans hexpected')
  | feed fault => exact h'

end OutcomesAgree

variable {σ : Type} [TokenFeed σ ε]

/-- **From standings with the same content a feed is read alike**: the same tokens are passed. -/
theorem Course.alike {c c' : Standing} {s s' : σ} {us : List Token} {e : Ending ε}
    (h : Course c s us e s') (hc : c.content = c'.content) :
    ∃ e', Course c' s us e' s' ∧ e.Alike e' := by
  -- the feed is the same, so the tokens and the end are; only the standings differ
  induction h generalizing c' with
  | missing hnext => exact ⟨_, .missing hnext, .missing _⟩
  | @complete c _ _ t _ hnext hpush =>
    obtain ⟨_, hpush', hagrees⟩ := (Standing.push_alike hc t).of_complete hpush
    exact ⟨_, .complete hnext hpush', .complete hagrees⟩
  | @refused c _ _ t _ hnext hpush =>
    obtain ⟨_, hpush', hkind, hexpected⟩ := (Standing.push_alike hc t).of_refused hpush
    exact ⟨_, .refused hnext hpush', .refused hkind hexpected⟩
  | @further c _ _ _ _ t _ _ hnext hpush _ ih =>
    obtain ⟨c₁, hpush', hcontent⟩ := (Standing.push_alike hc t).of_further hpush
    obtain ⟨e', hcourse, halike⟩ := ih hcontent
    exact ⟨e', .further hnext hpush' hcourse, halike⟩

end Readings

end ScopedQuery
