import ScopedQuery.Proofs.Shown

namespace ScopedQuery

/-!
# What was read is what was shown

If a step gives a part of the tree, then the tokens that it took spell that part: before the step,
the reader has shown the phrase of the part in front of what it shows behind it.

* `Step.shows_of_argument`, `Step.shows_of_namedVerb`, `Step.shows_of_verbs` — verbs and their
  arguments.
* `Step.shows_of_statement`, `Step.shows_of_descendList` — statements, by induction on what is left
  to take.
* `Step.shows_of_query` — a query.
-/

namespace Token

/-- A token of a kind with one text counts as that kind. -/
theorem terminal_of_fixedText {t : Token} {kind : TokenKind} (hkind : t.kind = kind)
    (htext : kind.fixedText?.isSome = true) : t.terminal = kind.mark := by
  subst hkind
  obtain ⟨text, htext⟩ := Option.isSome_iff_exists.mp htext
  simp [terminal, TokenKind.mark, htext]

/-- Any other token counts with its own text. -/
theorem terminal_of_choice {t : Token} {kind : TokenKind} (hkind : t.kind = kind)
    (htext : kind.fixedText? = none) : t.terminal = ⟨kind, t.value, {}⟩ := by
  subst hkind
  simp [terminal, htext]

end Token

variable {σ ε α : Type} [TokenFeed σ ε]

namespace Step

open Reader

variable {r r₁ r₂ r' : Reader σ} {phrase : List Token}

/-! ### Looking and taking -/

@[simp] theorem refuse_ne_ok {problem : Problem} {t : Token} {a : α} :
    (refuse problem t : Step σ ε α) r ≠ (.ok a, r') := by
  simp [refuse, bind_apply, text, note, fail]

omit [TokenFeed σ ε] in
@[simp] theorem fail_ne_ok {failure : Failure ε} {a : α} :
    (fail failure : Step σ ε α) r ≠ (.ok a, r') := by
  simp [fail]

/-- The token that is taken is the one that was looked at. -/
theorem eq_of_peek_take {t u : Token} (hpeek : peek r = (.ok t, r₁))
    (htake : take r₁ = (.ok u, r₂)) : u = t := by
  rw [take_of_ahead (ahead_of_peek hpeek)] at htake
  split at htake <;> simp_all

/-- What is accepted is the token that was looked at, if it is of one of the kinds. -/
theorem eq_of_peek_accept {kinds : List TokenKind} {t : Token} {out : Option Token}
    (hpeek : peek r = (.ok t, r₁)) (haccept : accept kinds r₁ = (.ok out, r₂)) :
    out = if t.kind ∈ kinds then some t else none := by
  have hpeek' : peek r₁ = (.ok t, r₁) := by
    rw [peek, ahead_of_peek hpeek]
  rw [accept_apply, hpeek'] at haccept
  dsimp only at haccept
  split at haccept
  case isTrue hmem =>
    obtain ⟨v, htake, hv⟩ := map_eq_ok.mp haccept
    rw [if_pos hmem, ← hv, eq_of_peek_take hpeek' htake]
  case isFalse hmem =>
    simp only [Prod.mk.injEq, Except.ok.injEq] at haccept
    rw [if_neg hmem, haccept.1]

/-- A token that was accepted is the one that was looked at. -/
theorem eq_of_peek_accept_some {kinds : List TokenKind} {t u : Token}
    (hpeek : peek r = (.ok t, r₁)) (haccept : accept kinds r₁ = (.ok (some u), r₂)) : u = t := by
  have hout := eq_of_peek_accept hpeek haccept
  split at hout
  · exact Option.some.inj hout
  · cases hout

/-! ### Arguments -/

/-- An argument that was read was shown by its phrase.  Going back from its value to its name, each
    token that was accepted is put in front of what was shown behind it. -/
theorem shows_of_argument {a : Argument} (h : argument r = (.ok a, r'))
    (hshows : r'.Shows true phrase) : r.Shows true (a.phrase ++ phrase) := by
  -- the name, which is looked at before it is taken
  obtain ⟨⟨⟩, r₁, hbreaks₁, h⟩ := bind_eq_ok.mp h
  obtain ⟨name, r₂, hname, h⟩ := bind_eq_ok.mp h
  split at h
  · simp at h
  split at h
  · simp at h
  case isFalse _ hkind =>
    have hkind₁ : name.kind = .identifier := not_not.mp hkind
    obtain ⟨name', r₃, htake, h⟩ := bind_eq_ok.mp h
    have htaken : name' = name := eq_of_peek_take hname htake
    subst htaken
    -- the equals sign
    obtain ⟨⟨⟩, r₄, hbreaks₂, h⟩ := bind_eq_ok.mp h
    obtain ⟨equals, r₅, hequals, h⟩ := bind_eq_ok.mp h
    obtain ⟨equals', r₆, haccept₁, h⟩ := bind_eq_ok.mp h
    cases equals' with
    | none => simp at h
    | some equals' =>
      -- the value
      obtain ⟨⟨⟩, r₇, hbreaks₃, h⟩ := bind_eq_ok.mp h
      obtain ⟨value, r₈, hvalue, h⟩ := bind_eq_ok.mp h
      obtain ⟨value', r₉, haccept₂, h⟩ := bind_eq_ok.mp h
      cases value' with
      | none => simp at h
      | some value' =>
        have haccepted : value' = value := eq_of_peek_accept_some hvalue haccept₂
        subst haccepted
        obtain ⟨rfl, rfl⟩ := pure_eq_ok.mp h
        -- what is shown grows from the last token to the first one
        obtain ⟨hkind₃, hshows⟩ := Shows.of_accept haccept₂ (by decide) (by decide) hshows
        have hshows₂ := Shows.of_newlines hbreaks₃ (Shows.of_peek hvalue hshows)
        obtain ⟨hkind₂, hshows₂⟩ := Shows.of_accept haccept₁ (by decide) (by decide) hshows₂
        have hshows₁ := Shows.of_newlines hbreaks₂ (Shows.of_peek hequals hshows₂)
        replace hshows₁ : Shows r₂ true _ :=
          Shows.of_take htake (by simp [hkind₁]) (by simp [hkind₁]) (by rwa [hkind₁])
        rw [Token.terminal_of_choice hkind₁ rfl, Token.terminal_of_fixedText hkind₂ rfl,
          Token.terminal_of_choice hkind₃ rfl] at hshows₁
        exact Shows.of_newlines hbreaks₁ (Shows.of_peek hname hshows₁)

/-- A further argument stands behind a comma. -/
theorem shows_of_nextArgument_some {a : Argument} (h : nextArgument? r = (.ok (some a), r'))
    (hshows : r'.Shows true phrase) :
    r.Shows true (TokenKind.comma.mark :: a.phrase ++ phrase) := by
  obtain ⟨⟨⟩, r₁, hbreaks, h⟩ := bind_eq_ok.mp h
  obtain ⟨comma, r₂, hcomma, h⟩ := bind_eq_ok.mp h
  cases comma with
  | none =>
    -- without a comma the list ends or is refused
    obtain ⟨t, r₃, -, h⟩ := bind_eq_ok.mp h
    obtain ⟨closing, r₄, -, h⟩ := bind_eq_ok.mp h
    cases closing <;> simp at h
  | some comma =>
    obtain ⟨b, hargument, hb⟩ := map_eq_ok.mp h
    have hsame : b = a := Option.some.inj hb
    subst hsame
    have hargument := shows_of_argument hargument hshows
    obtain ⟨hkind, hshows⟩ := Shows.of_accept hcomma (by decide) (by decide) hargument
    rw [Token.terminal_of_fixedText hkind rfl] at hshows
    exact Shows.of_newlines hbreaks hshows

/-- Where there is no further argument, the list is closed. -/
theorem shows_of_nextArgument_none (h : nextArgument? r = (.ok none, r'))
    (hshows : r'.Shows false phrase) : r.Shows true (TokenKind.rightParen.mark :: phrase) := by
  obtain ⟨⟨⟩, r₁, hbreaks, h⟩ := bind_eq_ok.mp h
  obtain ⟨comma, r₂, hcomma, h⟩ := bind_eq_ok.mp h
  cases comma with
  | some comma =>
    -- behind a comma an argument is given, or none is and the step fails
    obtain ⟨b, -, hb⟩ := map_eq_ok.mp h
    cases hb
  | none =>
    obtain ⟨t, r₃, hpeek, h⟩ := bind_eq_ok.mp h
    obtain ⟨closing, r₄, hclosing, h⟩ := bind_eq_ok.mp h
    cases closing with
    | none => simp at h
    | some closing =>
      obtain ⟨-, rfl⟩ := pure_eq_ok.mp h
      obtain ⟨hkind, hshows⟩ := Shows.of_accept hclosing (by decide) (by decide) hshows
      rw [Token.terminal_of_fixedText hkind rfl] at hshows
      exact Shows.of_newlines hbreaks (Shows.of_accept_none hcomma (Shows.of_peek hpeek hshows))

/-- By induction on the reading, further arguments were shown up to the parenthesis. -/
theorem shows_of_argumentsFrom {read : Array Argument} {out : List Argument}
    (h : argumentsFrom read r = (.ok out, r')) (hshows : r'.Shows false phrase) :
    ∃ rest, out = read.toList ++ rest ∧
      r.Shows true (rest.flatMap (fun a => TokenKind.comma.mark :: a.phrase)
        ++ TokenKind.rightParen.mark :: phrase) := by
  fun_induction argumentsFrom read r with
  | case1 read r failure r₁ hnext => simp at h
  | case2 read r r₁ hnext =>
    simp only [Prod.mk.injEq, Except.ok.injEq] at h
    obtain ⟨rfl, rfl⟩ := h
    exact ⟨[], by simp, shows_of_nextArgument_none hnext hshows⟩
  | case3 read r a r₁ hnext _ ih =>
    obtain ⟨rest, rfl, hrest⟩ := ih h
    refine ⟨a :: rest, by simp, ?_⟩
    rw [List.flatMap_cons, List.append_assoc]
    exact shows_of_nextArgument_some hnext hrest

/-- An argument list that was read is shown, and nothing is where there was none to read. -/
theorem shows_of_optionalArguments {out : List Argument}
    (h : optionalArguments r = (.ok out, r')) (hshows : r'.Shows false phrase) :
    r.Shows false (Argument.listPhrase out ++ phrase) := by
  obtain ⟨following, r₁, hpeek, h⟩ := bind_eq_ok.mp h
  by_cases hkind : following.kind = .leftParen
  · rw [if_pos hkind] at h
    obtain ⟨opening, r₂, hopening, h⟩ := bind_eq_ok.mp h
    obtain ⟨first, r₃, hfirst, h⟩ := bind_eq_ok.mp h
    -- the parenthesis is there, so it is taken
    have hout : opening = some following := by
      rw [eq_of_peek_accept hpeek hopening, if_pos (List.mem_singleton.mpr hkind)]
    subst hout
    obtain ⟨rest, rfl, hrest⟩ := shows_of_argumentsFrom h hshows
    have hlist := shows_of_argument hfirst hrest
    obtain ⟨-, hlist⟩ := Shows.of_accept hopening (by decide) (by decide) hlist
    rw [Token.terminal_of_fixedText hkind rfl] at hlist
    have hshows := Shows.of_peek hpeek hlist
    simpa [Argument.listPhrase] using hshows
  · rw [if_neg hkind] at h
    obtain ⟨rfl, rfl⟩ := pure_eq_ok.mp h
    exact Shows.of_peek hpeek hshows

/-! ### Verbs -/

/-- A verb that was read was shown by its sign, its name and its arguments. -/
theorem shows_of_namedVerb {v : Verb} (h : namedVerb r = (.ok v, r'))
    (hshows : r'.Shows false phrase) : r.Shows false (v.phrase ++ phrase) := by
  obtain ⟨sign, r₁, hsign, h⟩ := bind_eq_ok.mp h
  cases sign with
  | none => simp at h
  | some sign =>
    obtain ⟨name, r₂, hname, h⟩ := bind_eq_ok.mp h
    split at h
    · simp at h
    case isFalse hkind =>
      have hkind : name.kind = .identifier := not_not.mp hkind
      obtain ⟨name', r₃, htake, h⟩ := bind_eq_ok.mp h
      have htaken : name' = name := eq_of_peek_take hname htake
      subst htaken
      obtain ⟨read, r₄, hread, h⟩ := bind_eq_ok.mp h
      obtain ⟨rfl, rfl⟩ := pure_eq_ok.mp h
      have hlist := shows_of_optionalArguments hread hshows
      have hshows : Shows r₂ false _ :=
        Shows.of_take htake (by simp [hkind]) (by simp [hkind]) (by rwa [hkind])
      obtain ⟨hkind', hshows⟩ :=
        Shows.of_accept hsign (by decide) (by decide) (Shows.of_peek hname hshows)
      rwa [Token.terminal_of_choice hkind rfl, Token.terminal_of_fixedText hkind' rfl] at hshows

/-- The same holds for a verb of either kind. -/
theorem shows_of_verb_some {v : Verb} (h : verb? r = (.ok (some v), r'))
    (hshows : r'.Shows false phrase) : r.Shows false (v.phrase ++ phrase) := by
  obtain ⟨t, r₁, hpeek, h⟩ := bind_eq_ok.mp h
  by_cases hsign : t.kind = .atSign
  · rw [if_pos hsign] at h
    obtain ⟨w, hverb, hw⟩ := map_eq_ok.mp h
    have hsame : w = v := Option.some.inj hw
    subst hsame
    exact Shows.of_peek hpeek (shows_of_namedVerb hverb hshows)
  · rw [if_neg hsign] at h
    obtain ⟨filter, r₂, hfilter, h⟩ := bind_eq_ok.mp h
    cases filter with
    | none => simp at h
    | some filter =>
      simp only [pure_eq_ok, Option.some.injEq] at h
      obtain ⟨rfl, rfl⟩ := h
      obtain ⟨hkind, hshows⟩ := Shows.of_accept hfilter (by decide) (by decide) hshows
      rw [Token.terminal_of_choice hkind rfl] at hshows
      exact Shows.of_peek hpeek hshows

/-- Where no verb was read, nothing was taken. -/
theorem shows_of_verb_none (h : verb? r = (.ok none, r')) (hshows : r'.Shows false phrase) :
    r.Shows false phrase := by
  obtain ⟨t, r₁, hpeek, h⟩ := bind_eq_ok.mp h
  by_cases hsign : t.kind = .atSign
  · rw [if_pos hsign] at h
    -- an at sign begins a verb, or the step fails
    obtain ⟨w, -, hw⟩ := map_eq_ok.mp h
    cases hw
  · rw [if_neg hsign] at h
    obtain ⟨filter, r₂, hfilter, h⟩ := bind_eq_ok.mp h
    cases filter with
    | some filter => simp at h
    | none =>
      obtain ⟨-, rfl⟩ := pure_eq_ok.mp h
      exact Shows.of_peek hpeek (Shows.of_accept_none hfilter hshows)

/-- By induction on the reading, verbs were shown one behind the other. -/
theorem shows_of_verbsFrom {read : Array Verb} {out : List Verb}
    (h : verbsFrom read r = (.ok out, r')) (hshows : r'.Shows false phrase) :
    ∃ rest, out = read.toList ++ rest ∧ r.Shows false (rest.flatMap Verb.phrase ++ phrase) := by
  fun_induction verbsFrom read r with
  | case1 read r failure r₁ hverb => simp at h
  | case2 read r r₁ hverb =>
    simp only [Prod.mk.injEq, Except.ok.injEq] at h
    obtain ⟨rfl, rfl⟩ := h
    exact ⟨[], by simp, shows_of_verb_none hverb hshows⟩
  | case3 read r v r₁ hverb _ ih =>
    obtain ⟨rest, rfl, hrest⟩ := ih h
    refine ⟨v :: rest, by simp, ?_⟩
    rw [List.flatMap_cons, List.append_assoc]
    exact shows_of_verb_some hverb hrest

/-- So all verbs of a statement were shown. -/
theorem shows_of_verbs {out : List Verb} (h : verbs r = (.ok out, r'))
    (hshows : r'.Shows false phrase) : r.Shows false (out.flatMap Verb.phrase ++ phrase) := by
  obtain ⟨rest, rfl, hrest⟩ := shows_of_verbsFrom h hshows
  exact hrest

/-! ### Statements -/

/-- A scope that was opened was shown by its brace, and keeps the verbs before it. -/
theorem shows_of_openScope {owner : Token} {verbs : List Verb} {scope : Scope}
    (h : openScope owner verbs r = (.ok scope, r')) (hshows : r'.Shows false phrase) :
    scope.verbs = verbs ∧ r.Shows false (TokenKind.leftBrace.mark :: phrase) := by
  obtain ⟨brace, r₁, hbrace, h⟩ := bind_eq_ok.mp h
  cases brace with
  | none => simp at h
  | some brace =>
    obtain ⟨depth, r₂, hdepth, h⟩ := bind_eq_ok.mp h
    obtain ⟨⟨⟩, r₃, hnote, h⟩ := bind_eq_ok.mp h
    obtain ⟨rfl, rfl⟩ := pure_eq_ok.mp h
    replace hshows := Shows.of_changeDepth hdepth (Shows.of_note hnote hshows)
    obtain ⟨hkind, hshows⟩ := Shows.of_accept hbrace (by decide) (by decide) hshows
    rw [Token.terminal_of_fixedText hkind rfl] at hshows
    exact ⟨rfl, hshows⟩

/-- A scope that was closed was shown by its brace, and is then a statement. -/
theorem shows_of_closeScope {scope : Scope} {s : Statement}
    (h : closeScope scope r = (.ok s, r')) (hshows : r'.Shows false phrase) :
    s = scope.statement ∧ r.Shows false (TokenKind.rightBrace.mark :: phrase) := by
  obtain ⟨t, r₁, hpeek, h⟩ := bind_eq_ok.mp h
  obtain ⟨brace, r₂, hbrace, h⟩ := bind_eq_ok.mp h
  cases brace with
  | none =>
    dsimp only at h
    split at h <;> simp at h
  | some brace =>
    obtain ⟨depth, r₃, hdepth, h⟩ := bind_eq_ok.mp h
    obtain ⟨rfl, rfl⟩ := pure_eq_ok.mp h
    obtain ⟨hkind, hshows⟩ :=
      Shows.of_accept hbrace (by decide) (by decide) (Shows.of_changeDepth hdepth hshows)
    rw [Token.terminal_of_fixedText hkind rfl] at hshows
    exact ⟨rfl, Shows.of_peek hpeek hshows⟩

/-- Lists that are read where less than `bound` is left to take are shown, and they are filled. -/
def ListsShown (σ : Type) {ε : Type} [TokenFeed σ ε] (bound : Nat) : Prop :=
  ∀ (r r' : Reader σ) (body : Array Statement) (phrase : List Token), r.remaining < bound →
    (descendList #[] : Step σ ε (Array Statement)) r = (.ok body, r') → r'.Shows false phrase →
    (body.toList ≠ [] ∧ ∀ s ∈ body.toList, s.IsFilled) ∧
      r.Shows false (Statement.listPhrase body.toList ++ phrase)

/-- A statement that was read is shown, and its scopes are filled, if that holds of the lists in
    them. -/
theorem shows_of_statement {s : Statement} (hlist : ListsShown σ r.remaining)
    (h : descendStatement r = (.ok s, r')) (hshows : r'.Shows false phrase) :
    s.IsFilled ∧ r.Shows false (s.phrase ++ phrase) := by
  rw [descendStatement_eq] at h
  obtain ⟨first, r₁, hfirst, h⟩ := bind_eq_ok.mp h
  obtain ⟨vs, r₂, hverbs, h⟩ := bind_eq_ok.mp h
  obtain ⟨following, r₃, hfollowing, h⟩ := bind_eq_ok.mp h
  by_cases hbrace : following.kind = .leftBrace
  · rw [if_pos hbrace] at h
    obtain ⟨scope, r₄, hopen, h⟩ := bind_eq_ok.mp h
    obtain ⟨body, r₅, hbody, h⟩ := bind_eq_ok.mp h
    -- the brace was taken before the body, which makes the body a shorter list
    have hlt : r₄.remaining < r.remaining := by
      have hopened := remaining_openScope_lt hopen
      have hle₁ := Settles.peek.remaining_le hfirst
      have hle₂ := Settles.verbs.remaining_le hverbs
      have hle₃ := Settles.peek.remaining_le hfollowing
      omega
    obtain ⟨rfl, hclosed⟩ := shows_of_closeScope h hshows
    obtain ⟨hfilled, hbody⟩ := hlist r₄ r₅ body _ hlt hbody hclosed
    obtain ⟨rfl, hopened⟩ := shows_of_openScope hopen hbody
    have hread := Shows.of_peek hfirst (shows_of_verbs hverbs (Shows.of_peek hfollowing hopened))
    refine ⟨Statement.isFilled_nested.mpr hfilled, ?_⟩
    simpa [Scope.statement, Statement.phrase] using hread
  · rw [if_neg hbrace] at h
    obtain ⟨rfl, rfl⟩ := pure_eq_ok.mp h
    refine ⟨Statement.isFilled_plain vs first.location, ?_⟩
    exact Shows.of_peek hfirst (shows_of_verbs hverbs (Shows.of_peek hfollowing hshows))

/-- The statements of a list that was read are shown, and there is at least one. -/
theorem shows_of_descendList {read out : Array Statement}
    (h : descendList read r = (.ok out, r')) (hshows : r'.Shows false phrase) :
    ∃ s rest, out.toList = read.toList ++ s :: rest ∧ (∀ s' ∈ s :: rest, s'.IsFilled) ∧
      r.Shows false (Statement.listPhrase (s :: rest) ++ phrase) := by
  induction hn : r.remaining using Nat.strongRecOn generalizing read out r r' phrase with
  | ind n ih =>
    subst hn
    rw [descendList_eq] at h
    obtain ⟨s, r₁, hs, h⟩ := bind_eq_ok.mp h
    obtain ⟨terminator, r₂, haccept, h⟩ := bind_eq_ok.mp h
    have hlist : ListsShown σ r.remaining := by
      intro r₁ r₂ body phrase hlt hbody hshows
      obtain ⟨s, rest, hout, hfilled, hrest⟩ := ih _ hlt hbody hshows rfl
      rw [hout]
      exact ⟨⟨by simp, hfilled⟩, hrest⟩
    have hle := Settles.descendStatement.remaining_le hs
    cases terminator with
    | none =>
      -- the statement is the last one
      obtain ⟨rfl, rfl⟩ := pure_eq_ok.mp h
      obtain ⟨hfilled, hread⟩ := shows_of_statement hlist hs (Shows.of_accept_none haccept hshows)
      refine ⟨s, [], by simp, by simpa using hfilled, ?_⟩
      simpa [Statement.listPhrase, Statement.tailPhrase] using hread
    | some terminator =>
      -- the rest of the list stands behind a terminator
      have hlt : r₂.remaining < r.remaining := by
        have hlt := Advances.accept (by decide) r₁ terminator r₂ haccept
        omega
      obtain ⟨s', rest, hout, hfilled', hrest⟩ := ih _ hlt h hshows rfl
      have htail := Shows.of_terminator haccept hrest
      obtain ⟨hfilled, hread⟩ := shows_of_statement hlist hs htail
      refine ⟨s, s' :: rest, by simp [hout], List.forall_mem_cons.mpr ⟨hfilled, hfilled'⟩, ?_⟩
      simpa [Statement.listPhrase, Statement.tailPhrase] using hread

/-! ### Queries -/

/-- Where the end of the input was looked at, nothing else is shown. -/
theorem shows_of_peek_end {t : Token} (h : peek r = (.ok t, r')) (hkind : t.kind = .endOfInput) :
    r.Shows false [TokenKind.endOfInput.mark] := by
  refine Shows.of_peek h ⟨[t], ?_, ?_, by simp⟩
  · rw [Reader.Offers, ahead_of_peek h]
    exact (if_pos hkind).mpr rfl
  · rw [eraseBreaks_cons (by simp [hkind]), List.map_cons, Token.terminal_of_fixedText hkind rfl]
    rfl

/-- A query that was read is shown, it ends with the input, and it is filled. -/
theorem shows_of_query {q : Query} (h : query r = (.ok q, r')) :
    q.IsFilled ∧ r.Shows false (q.phrase ++ [TokenKind.endOfInput.mark]) := by
  rw [query_eq_wholeQuery, statements_eq_statementsByDescent] at h
  obtain ⟨source, r₁, htext, h⟩ := bind_eq_ok.mp h
  obtain ⟨⟨⟩, r₂, hnote, h⟩ := bind_eq_ok.mp h
  obtain ⟨q', r₃, hq, h⟩ := bind_eq_ok.mp h
  obtain ⟨t, r₄, hpeek, h⟩ := bind_eq_ok.mp h
  split at h
  case isFalse => split at h <;> simp at h
  case isTrue hkind =>
    obtain ⟨⟨⟩, r₅, -, h⟩ := bind_eq_ok.mp h
    obtain ⟨rfl, rfl⟩ := pure_eq_ok.mp h
    obtain ⟨first, r₆, hfirst, hq⟩ := bind_eq_ok.mp hq
    obtain ⟨list, r₇, hlist, hq⟩ := bind_eq_ok.mp hq
    obtain ⟨rfl, rfl⟩ := pure_eq_ok.mp hq
    obtain ⟨s, rest, hout, hfilled, hread⟩ :=
      shows_of_descendList hlist (shows_of_peek_end hpeek hkind)
    replace hout : list.toList = s :: rest := hout
    rw [Query.isFilled_iff, Query.phrase, hout]
    refine ⟨⟨by simp, hfilled⟩, ?_⟩
    exact Shows.of_text htext (Shows.of_note hnote (Shows.of_peek hfirst hread))

end Step

end ScopedQuery
