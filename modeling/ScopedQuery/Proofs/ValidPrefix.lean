import ScopedQuery.Proofs.Course
import ScopedQuery.Proofs.Grammar

namespace ScopedQuery

/-!
# Refusals come at the first possible token

A token is refused only if nothing that follows could make a query of it and of the tokens before
it, while the tokens before it can still be completed: from every standing some tokens lead to the
end of a query.

* `Stage.missing`, `Nest.closings` — the tokens that complete a statement and the scopes around it.
* `Standing.exists_complete` — these tokens complete a query from any standing.
* `Standing.Leads.course` — tokens that lead from one standing to another, as part of a list.
* `refused_at_first` — where the tokens of a list are refused.
-/

/-! ### Tokens that complete a query -/

/-- The tokens that complete the part of a statement that comes next. -/
def Stage.missing : Stage → List Token
  | .sign _ _ _ => [⟨.identifier, "a", {}⟩]
  | .argument _ => [⟨.identifier, "a", {}⟩, TokenKind.equals.mark, TokenKind.string.mark,
      TokenKind.rightParen.mark]
  | .equals _ _ _ => [TokenKind.equals.mark, TokenKind.string.mark, TokenKind.rightParen.mark]
  | .value _ _ _ => [TokenKind.string.mark, TokenKind.rightParen.mark]
  | .comma _ => [TokenKind.rightParen.mark]
  | _ => []

/-- The tokens that close the scopes of a nest. -/
def Nest.closings (nest : Nest) : List Token :=
  List.replicate nest.scopes.length TokenKind.rightBrace.mark

/-- The tokens that complete a query from a standing, up to the end of the input. -/
def Standing.completion : Standing → List Token
  | .unread => []
  | .within nest stage => stage.missing ++ nest.closings

@[simp] theorem Nest.length_scopes_add (nest : Nest) (s : Statement) :
    (nest.add s).scopes.length = nest.scopes.length := by
  rcases nest with ⟨first, statements, _ | ⟨scope, outer⟩⟩ <;> rfl

/-- The end of the input completes a query in which no scope is open. -/
theorem Nest.pushEnd_of_endOfInput {first t : Token} {statements : Array Statement}
    (ht : t.kind = .endOfInput) :
    Nest.pushEnd ⟨first, statements, []⟩ t = .complete (Nest.query ⟨first, statements, []⟩) := by
  have hterminator : t.kind ∉ TokenKind.terminators := by
    rw [ht]
    decide
  rw [pushEnd_outermost hterminator, if_pos ht]

namespace Standing

/-- The query is complete if the input ends here. -/
def IsComplete (c : Standing) : Prop :=
  ∀ t : Token, t.kind = .endOfInput → ∃ q, c.push t = .complete q

/-- A token that ends lists of statements means the same as behind a complete statement, around
    which so many scopes are open. -/
def Closes (c : Standing) (depth : Nat) : Prop :=
  ∀ t : Token, t.kind = .rightBrace ∨ t.kind = .endOfInput →
    ∃ nest : Nest, nest.scopes.length = depth ∧ c.push t = nest.pushEnd t

/-- A standing behind a statement is closed by the braces of its scopes. -/
theorem closes_complete (nest : Nest) : (within nest .complete).Closes nest.scopes.length :=
  fun _ _ => ⟨nest, rfl, rfl⟩

/-- Behind the verbs of a statement such a token completes it. -/
theorem pushVerb_of_closing (nest : Nest) (first : Token) (read : List Verb) {t : Token}
    (ht : t.kind = .rightBrace ∨ t.kind = .endOfInput) :
    nest.pushVerb first read t = (nest.add (.plain read first.location)).pushEnd t := by
  have hother : t.kind ≠ .atSign ∧ t.kind ≠ .string ∧ t.kind ≠ .leftBrace := by
    rcases ht with ht | ht <;> simp [ht]
  simp only [Nest.pushVerb, hother, if_false]

theorem closes_start (nest : Nest) : (within nest .start).Closes nest.scopes.length :=
  fun t ht => ⟨_, nest.length_scopes_add _, pushVerb_of_closing nest t [] ht⟩

theorem closes_verbs (nest : Nest) (first : Token) (read : List Verb) :
    (within nest (.verbs first read)).Closes nest.scopes.length :=
  fun _ ht => ⟨_, nest.length_scopes_add _, pushVerb_of_closing nest first read ht⟩

/-- A verb without arguments needs nothing more either. -/
theorem closes_name (nest : Nest) (v : PartialVerb) :
    (within nest (.name v)).Closes nest.scopes.length := by
  intro t ht
  have hparen : t.kind ≠ .leftParen := by
    rcases ht with ht | ht <;> simp [ht]
  rw [push, if_neg hparen]
  exact ⟨_, nest.length_scopes_add _, pushVerb_of_closing nest v.first v.verbs ht⟩

/-- The scopes are closed one after the other, and the query ends behind them. -/
theorem Closes.exists_complete {c : Standing} {depth : Nat} (h : c.Closes depth) :
    ∃ c', c.Leads (List.replicate depth TokenKind.rightBrace.mark) c' ∧ c'.IsComplete := by
  induction depth generalizing c with
  | zero =>
    refine ⟨c, .nil c, fun t ht => ?_⟩
    obtain ⟨⟨first, statements, scopes⟩, hlength, hpush⟩ := h t (.inr ht)
    obtain rfl : scopes = [] := List.length_eq_zero_iff.mp hlength
    exact ⟨_, hpush.trans (Nest.pushEnd_of_endOfInput ht)⟩
  | succ depth ih =>
    obtain ⟨⟨first, statements, scopes⟩, hlength, hpush⟩ :=
      h TokenKind.rightBrace.mark (.inl rfl)
    cases scopes with
    | nil => simp at hlength
    | cons scope outer =>
      -- the statement of the innermost scope is complete
      let rest : Nest := Nest.add ⟨first, statements, outer⟩ scope.statement
      have hrest : rest.scopes.length = depth := by simpa [rest] using hlength
      have hcloses : (within rest .complete).Closes depth := hrest ▸ closes_complete rest
      obtain ⟨c', hleads, hcomplete⟩ := ih hcloses
      exact ⟨c', .cons hpush hleads, hcomplete⟩

/-- A statement that has been begun is completed, and no scope is opened or closed for that. -/
theorem exists_leads_missing (nest : Nest) (stage : Stage) :
    ∃ c, (within nest stage).Leads stage.missing c ∧ c.Closes nest.scopes.length := by
  cases stage with
  | start => exact ⟨_, .nil _, closes_start nest⟩
  | verbs first read => exact ⟨_, .nil _, closes_verbs nest first read⟩
  | sign first read sign => exact ⟨_, .cons rfl (.nil _), closes_name nest _⟩
  | name v => exact ⟨_, .nil _, closes_name nest v⟩
  -- an argument list is completed, and the verb with it
  | argument v =>
    exact ⟨_, .cons rfl (.cons rfl (.cons rfl (.cons rfl (.nil _)))), closes_verbs nest _ _⟩
  | equals v name location =>
    exact ⟨_, .cons rfl (.cons rfl (.cons rfl (.nil _))), closes_verbs nest _ _⟩
  | value v name location => exact ⟨_, .cons rfl (.cons rfl (.nil _)), closes_verbs nest _ _⟩
  | comma v => exact ⟨_, .cons rfl (.nil _), closes_verbs nest _ _⟩
  | complete => exact ⟨_, .nil _, closes_complete nest⟩

/-- From every standing a query can be completed. -/
theorem exists_complete (c : Standing) :
    ∃ c', c.Leads c.completion c' ∧ c'.IsComplete := by
  cases c with
  | unread =>
    refine ⟨.unread, .nil _, fun t ht => ?_⟩
    have hpush : unread.push t = _ := pushVerb_of_closing { first := t } t [] (.inr ht)
    exact ⟨_, hpush.trans (Nest.pushEnd_of_endOfInput ht)⟩
  | within nest stage =>
    obtain ⟨c₁, hmissing, hcloses⟩ := exists_leads_missing nest stage
    obtain ⟨c', hclosings, hcomplete⟩ := hcloses.exists_complete
    exact ⟨c', hmissing.append hclosings, hcomplete⟩

/-- A text can hold the tokens that complete a query, and the end of the input is none of them. -/
theorem isSpelled_completion (c : Standing) :
    ∀ t ∈ c.completion, t.IsSpelled ∧ t.kind ≠ .endOfInput := by
  have hname : (⟨.identifier, "a", {}⟩ : Token).IsSpelled := by
    simp only [Token.IsSpelled]
    decide
  have hmarks : ∀ kind ∈ [TokenKind.equals, .string, .rightParen, .rightBrace],
      kind.mark.IsSpelled ∧ kind.mark.kind ≠ .endOfInput := by
    intro kind hkind
    refine ⟨(TokenKind.isSpelled_mark kind).mpr ?_, ?_⟩
    · revert kind
      decide
    · rintro rfl
      simp at hkind
  simp only [List.forall_mem_cons, List.not_mem_nil, false_imp_iff, implies_true,
    and_true] at hmarks
  cases c with
  | unread => simp [completion]
  | within nest stage =>
    simp only [completion, List.forall_mem_append]
    constructor
    · cases stage <;> simp [Stage.missing, hname, hmarks]
    · intro t ht
      rw [List.eq_of_mem_replicate ht]
      exact hmarks.2.2.2

/-! ### Lists of tokens -/

/-- The end of the input leads nowhere. -/
theorem Leads.kind_ne_endOfInput {c c' : Standing} {us : List Token} (h : c.Leads us c') :
    ∀ t ∈ us, t.kind ≠ .endOfInput := by
  induction h with
  | nil => simp
  | cons hpush _ ih =>
    rw [List.forall_mem_cons]
    exact ⟨fun hend => push_endOfInput hend hpush, ih⟩

/-- Tokens of a list that lead to another standing are passed. -/
theorem Leads.course {c c' : Standing} {us ts ws : List Token} {text : String}
    {e : Ending Exhausted} {s' : TokenList} (h : c.Leads us c')
    (hcourse : Course c' (⟨ts, text⟩ : TokenList) ws e s') :
    Course c (⟨us ++ ts, text⟩ : TokenList) (us ++ ws) e s' := by
  induction h with
  | nil => exact hcourse
  | cons hpush _ ih => exact .further rfl hpush (ih hcourse)

end Standing

/-- The tokens of a list are those that are passed, the one at which reading ends, and others. -/
theorem Course.list_eq {c : Standing} {s s' : TokenList} {us : List Token}
    {e : Ending Exhausted} (h : Course c s us e s') :
    s = ⟨us ++ (e.last?.toList ++ s'.tokens), s'.text⟩ ∧ (e.last? = none → s'.tokens = []) := by
  have hnext {s s' : TokenList} {t : Token} (h : TokenFeed.next s = (.ok t, s')) :
      s = ⟨t :: s'.tokens, s'.text⟩ := by
    obtain ⟨_ | ⟨u, rest⟩, text⟩ := s
    · cases h
    · cases h
      rfl
  induction h with
  | @missing _ s s' _ h =>
    obtain ⟨_ | ⟨u, rest⟩, text⟩ := s
    · cases h
      exact ⟨rfl, fun _ => rfl⟩
    · cases h
  | complete h _ => exact ⟨hnext h, by simp [Ending.last?]⟩
  | refused h _ => exact ⟨hnext h, by simp [Ending.last?]⟩
  | further h _ _ ih =>
    obtain ⟨hlist, hnone⟩ := ih
    refine ⟨?_, hnone⟩
    rw [hnext h, hlist]
    rfl

/-- The tokens of `more` make a query of those of `us`, and can be found in a text if these can. -/
def Completes (us more : List Token) : Prop :=
  EndsOnce (us ++ more) ∧ (∃ q, Query.ofTokens (us ++ more) = .ok q) ∧
    ((∀ t ∈ us, t.IsSpelled) → ∀ t ∈ more, t.IsSpelled)

/-- Tokens that lead to a standing are completed from there. -/
theorem Standing.Leads.completes {c : Standing} {us : List Token} (h : Standing.unread.Leads us c) :
    Completes us (c.completion ++ [TokenKind.endOfInput.mark]) := by
  have hspelled := c.isSpelled_completion
  have hend : TokenKind.endOfInput.mark.IsSpelled :=
    (TokenKind.isSpelled_mark .endOfInput).mpr (.inl rfl)
  refine ⟨⟨us ++ c.completion, TokenKind.endOfInput.mark, by simp, rfl, ?_⟩, ?_, fun _ => ?_⟩
  · rw [List.forall_mem_append]
    exact ⟨h.kind_ne_endOfInput, fun t ht => (hspelled t ht).2⟩
  · obtain ⟨c', hleads, hlast⟩ := c.exists_complete
    obtain ⟨q, hq⟩ := hlast TokenKind.endOfInput.mark rfl
    have hcomplete : Course c' ({ tokens := [TokenKind.endOfInput.mark] } : TokenList) []
        (.complete TokenKind.endOfInput.mark q) { tokens := [] } := .complete rfl hq
    have hcourse := h.course (hleads.course hcomplete)
    obtain ⟨r, hr, -⟩ := Step.query_of_course hcourse
    refine ⟨q, ?_⟩
    rw [Query.ofTokens, hr]
    rfl
  · rw [List.forall_mem_append]
    exact ⟨fun t ht => (hspelled t ht).1, by simpa using hend⟩

/-- **Refusals come at the first possible token.**  If a list of tokens that ends with its only end
    of the input makes no query, then the reader has stopped at one of its tokens, at which the
    error is reported: it has taken the tokens `us` before that one and looked at no other.  The
    tokens of `us` can be completed.  No list that goes on behind them with the same token makes a
    query, and all of these are refused in the same way.  If that token is the end of the input, it
    is the last one, and to complete `us` some tokens are needed in front of the end. -/
theorem refused_at_first {ts : List Token} (hts : EndsOnce ts) {failure : Failure Exhausted}
    (h : Query.ofTokens ts = .error failure) :
    ∃ (us rest : List Token) (t : Token) (d : Diagnostic) (r : Reader TokenList),
      ts = us ++ t :: rest ∧ failure = .refused d ∧ d.location = t.location ∧
      d.found = some t.describe ∧
      (Step.query : Step TokenList Exhausted Query) { feed := { tokens := ts } }
        = (.error (.refused d), r) ∧
      r.taken.toList = us ∧ r.ahead = some t ∧
      (∃ more, Completes us more ∧ (t.kind = .endOfInput → 1 < more.length)) ∧
      (∀ ws, us ++ [t] <+: ws → Query.ofTokens ws = .error (.refused d)) ∧
      (t.kind = .endOfInput → rest = []) := by
  obtain ⟨us, e, ⟨rest, text⟩, hcourse⟩ := exists_course .unread ({ tokens := ts } : TokenList)
  obtain ⟨r, hr, -, htaken, hahead⟩ := Step.query_of_course hcourse
  obtain ⟨c, hleads, hmeant⟩ := hcourse.leads
  obtain ⟨hlist, hnone⟩ := hcourse.list_eq
  obtain ⟨rfl, rfl⟩ := TokenList.mk.inj hlist
  have hfailure : e.outcome "" = .error failure := by rw [← h, Query.ofTokens, hr]; rfl
  obtain ⟨body, last, hends, hlast, hbody⟩ := hts
  cases e with
  | missing fault =>
    -- the end of the input would have been passed
    have hmem : last ∈ us := by
      have hrest : rest = [] := hnone rfl
      have hus : us = body ++ [last] := by simpa [hrest, Ending.last?] using hends
      simp [hus]
    exact absurd hlast (hleads.kind_ne_endOfInput last hmem)
  | complete t q => cases hfailure
  | refused t problem =>
    obtain rfl : Failure.refused _ = failure := Except.error.inj hfailure
    refine ⟨us, rest, t, _, r, rfl, rfl, rfl, rfl, hr, htaken, hahead,
      ⟨_, hleads.completes, fun hend => ?_⟩, fun ws hws => ?_, fun hend => ?_⟩
    · -- without such tokens the end of the input would complete the query
      obtain ⟨c', hcompletion, hcomplete⟩ := c.exists_complete
      have hne : c.completion ≠ [] := by
        intro hnil
        rw [hnil] at hcompletion
        cases hcompletion
        obtain ⟨q, hq⟩ := hcomplete t hend
        cases hq.symm.trans hmeant
      have hlength := List.length_pos_of_ne_nil hne
      simp
      omega
    · obtain ⟨rest', rfl⟩ := hws
      have hrefused : Course c ({ tokens := t :: rest' } : TokenList) [] (.refused t problem)
          { tokens := rest' } := .refused rfl hmeant
      obtain ⟨r', hr', -⟩ := Step.query_of_course (hleads.course hrefused)
      rw [List.append_assoc]
      exact congrArg Prod.fst hr'
    · -- no end of the input stands before the last token
      by_contra hne
      obtain ⟨rest', u, rfl⟩ := List.eq_nil_or_concat rest |>.resolve_left hne
      have hsplit : (us ++ t :: rest') ++ [u] = body ++ [last] := by
        rw [← hends]
        simp [Ending.last?]
      have hmem : t ∈ body := by
        rw [← List.append_inj_left' hsplit rfl]
        simp
      exact hbody t hmem hend

/-- A parenthesis cannot stand in a scope behind a string, and the brace that could is asked for. -/
theorem refused_at_first_of_paren :
    let ts : List Token := [TokenKind.leftBrace.mark, ⟨.string, "x", {}⟩,
      TokenKind.rightParen.mark, TokenKind.endOfInput.mark]
    EndsOnce ts ∧ ∃ d, Query.ofTokens ts = .error (.refused d) ∧ d.expected = some "'\x7d'" ∧
      (∃ more, Completes (ts.take 2) more) ∧
      ∀ ws, ts.take 3 <+: ws → Query.ofTokens ws = .error (.refused d) := by
  intro ts
  have hends : EndsOnce ts := ⟨ts.dropLast, TokenKind.endOfInput.mark, rfl, rfl, by decide⟩
  obtain ⟨_, hfailure, hexpected⟩ : ∃ d, Query.ofTokens ts = .error (.refused d) ∧
      d.expected = some "'\x7d'" := exists_of_refusal Diagnostic.expected (by decide +kernel)
  obtain ⟨us, rest, t, d, r, hts, hsame, -, -, hr, htaken, -, ⟨more, hmore, -⟩, hall, -⟩ :=
    refused_at_first hends hfailure
  -- two tokens have been taken
  have hlength : us.length = 2 := by
    have hsize : (((Step.query : Step TokenList Exhausted Query)
        { feed := { tokens := ts } }).2.taken).size = 2 := by decide +kernel
    rw [hr] at hsize
    rw [← htaken]
    simpa using hsize
  obtain rfl := Failure.refused.inj hsame
  have htwo : ts.take 2 = us := by rw [hts, ← hlength, List.take_left]
  have hthree : ts.take 3 = us ++ [t] := by
    rw [hts, show 3 = us.length + 1 by omega, List.take_length_add_append]
    rfl
  rw [htwo, hthree]
  exact ⟨hends, _, hfailure, hexpected, ⟨more, hmore⟩, hall⟩

end ScopedQuery
