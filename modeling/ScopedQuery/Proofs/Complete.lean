import ScopedQuery.Proofs.Sound

namespace ScopedQuery

/-!
# What is shown is read

If a reader shows the phrase of a part of the tree, and goes on with a token that can follow such a
part, then the step for the part succeeds, gives the part up to its places, and shows the rest.

* `Step.argument_of_shows`, `Step.verb_of_shows`, `Step.verbs_of_shows` — verbs and their arguments.
* `Step.statement_of_shows`, `Step.list_of_shows` — statements, by induction on the tree.
* `Step.query_of_shows` — a query.
-/

variable {σ ε : Type} [TokenFeed σ ε]

namespace Step

variable {r : Reader σ} {phrase : List Token}

/-! ### Arguments -/

/-- Where the phrase of an argument is shown, the argument is read.  Line breaks may stand between
    its tokens, so each of them is skipped to first. -/
theorem argument_of_shows {a : Argument} (h : r.Shows true (a.phrase ++ phrase)) :
    ∃ b r', argument r = (.ok b, r') ∧ b.unplaced = a.unplaced ∧ r'.Shows true phrase := by
  replace h : r.Shows true (⟨.identifier, a.name, {}⟩ :: TokenKind.equals.mark ::
    ⟨.string, a.value, {}⟩ :: phrase) := h
  -- the name
  obtain ⟨name, r₁, hbreaks₁, hname, hlead⟩ := h.newlines
  have hkind₁ : name.kind = .identifier := congrArg Token.kind hname
  obtain ⟨r₂, hpeek₁, hlead⟩ := hlead.peek
  obtain ⟨r₃, htake, h⟩ := hlead.take (by simp [hkind₁])
  -- the equals sign
  obtain ⟨equals, r₄, hbreaks₂, hequals, hlead⟩ := h.newlines
  have hkind₂ : equals.kind = .equals := congrArg Token.kind hequals
  obtain ⟨r₅, hpeek₂, hlead⟩ := hlead.peek
  obtain ⟨r₆, haccept₂, h⟩ := hlead.accept_some (List.mem_singleton.mpr hkind₂) (by decide)
  -- the value
  obtain ⟨value, r₇, hbreaks₃, hvalue, hlead⟩ := h.newlines
  have hkind₃ : value.kind = .string := congrArg Token.kind hvalue
  obtain ⟨r₈, hpeek₃, hlead⟩ := hlead.peek
  obtain ⟨r₉, haccept₃, h⟩ := hlead.accept_some (List.mem_singleton.mpr hkind₃) (by decide)
  refine ⟨⟨name.value, value.value, name.location⟩, r₉, ?_, ?_, h⟩
  · simp [argument, bind_apply, pure_apply, hbreaks₁, hpeek₁, hkind₁, htake, hbreaks₂, hpeek₂,
      haccept₂, hbreaks₃, hpeek₃, haccept₃]
  · have hname : name.value = a.name := Token.value_eq_of_terminal hname rfl
    have hvalue : value.value = a.value := Token.value_eq_of_terminal hvalue rfl
    rw [Argument.unplaced, Argument.unplaced, hname, hvalue]

/-- Behind a comma there is a further argument. -/
theorem nextArgument_of_shows_comma {a : Argument}
    (h : r.Shows true (TokenKind.comma.mark :: a.phrase ++ phrase)) :
    ∃ b r', nextArgument? r = (.ok (some b), r') ∧ b.unplaced = a.unplaced ∧
      r'.Shows true phrase := by
  obtain ⟨comma, r₁, hbreaks, hcomma, hlead⟩ := Reader.Shows.newlines h
  have hkind : comma.kind = .comma := congrArg Token.kind hcomma
  obtain ⟨r₂, haccept, h⟩ := hlead.accept_some (List.mem_singleton.mpr hkind) (by decide)
  obtain ⟨b, r₃, hargument, hb, h⟩ := argument_of_shows h
  refine ⟨b, r₃, ?_, hb, h⟩
  simp [nextArgument?, bind_apply, map_apply, hbreaks, haccept, hargument]

/-- A closing parenthesis ends the list. -/
theorem nextArgument_of_shows_paren (h : r.Shows true (TokenKind.rightParen.mark :: phrase)) :
    ∃ r', nextArgument? r = (.ok none, r') ∧ r'.Shows false phrase := by
  obtain ⟨paren, r₁, hbreaks, hparen, hlead⟩ := h.newlines
  have hkind : paren.kind = .rightParen := congrArg Token.kind hparen
  have hother : paren.kind ∉ [.comma] := by simp [hkind]
  obtain ⟨r₂, hcomma, hlead⟩ := hlead.accept_none hother
  obtain ⟨r₃, hpeek, hlead⟩ := hlead.peek
  obtain ⟨r₄, haccept, h⟩ := hlead.accept_some (List.mem_singleton.mpr hkind) (by decide)
  refine ⟨r₄, ?_, h⟩
  simp [nextArgument?, bind_apply, pure_apply, hbreaks, hcomma, hpeek, haccept]

/-- The arguments are read one at a time, as a reader has it. -/
theorem argumentsFrom_apply (read : Array Argument) (r : Reader σ) :
    argumentsFrom read r =
      match (nextArgument? : Step σ ε (Option Argument)) r with
      | (.ok (some a), r) => argumentsFrom (read.push a) r
      | (.ok none, r) => (.ok read.toList, r)
      | (.error failure, r) => (.error failure, r) := by
  rw [argumentsFrom]
  split <;> rename_i h <;> simp only [h]

/-- Further arguments are read up to the parenthesis, by induction on the list. -/
theorem argumentsFrom_of_shows {rest : List Argument} (read : Array Argument)
    (h : r.Shows true (rest.flatMap (fun a => TokenKind.comma.mark :: a.phrase)
      ++ TokenKind.rightParen.mark :: phrase)) :
    ∃ out r', argumentsFrom read r = (.ok (read.toList ++ out), r') ∧
      out.map Argument.unplaced = rest.map Argument.unplaced ∧ r'.Shows false phrase := by
  induction rest generalizing r read with
  | nil =>
    obtain ⟨r', hnext, h⟩ := nextArgument_of_shows_paren h
    refine ⟨[], r', ?_, rfl, h⟩
    rw [argumentsFrom_apply, hnext, List.append_nil]
  | cons a rest ih =>
    rw [List.flatMap_cons, List.append_assoc] at h
    obtain ⟨b, r₁, hnext, hb, h⟩ := nextArgument_of_shows_comma h
    obtain ⟨out, r', hout, hrest, h⟩ := ih (read.push b) h
    refine ⟨b :: out, r', ?_, by rw [List.map_cons, List.map_cons, hb, hrest], h⟩
    rw [argumentsFrom_apply, hnext]
    simpa using hout

/-- An argument list is read where it is shown; where there is none, no parenthesis may follow. -/
theorem optionalArguments_of_shows {arguments : List Argument} {l : Token}
    (h : r.Shows false (Argument.listPhrase arguments ++ l :: phrase)) (hl : l.kind ≠ .leftParen) :
    ∃ out r', optionalArguments r = (.ok out, r') ∧
      out.map Argument.unplaced = arguments.map Argument.unplaced ∧
      r'.Shows false (l :: phrase) := by
  cases arguments with
  | nil =>
    -- the next token belongs to what follows the verb
    obtain ⟨t, ht, hlead⟩ := Reader.Shows.leads h fun hkind => absurd hkind hl
    obtain ⟨r', hpeek, hlead⟩ := hlead.peek
    have hkind : t.kind ≠ .leftParen := by
      have hmem : t.kind ∈ [.leftParen] ↔ l.kind ∈ [.leftParen] := ht.mem_iff (by decide)
      simpa [hl] using hmem
    refine ⟨[], r', ?_, rfl, .of_leads ht hlead⟩
    simp [optionalArguments, bind_apply, pure_apply, hpeek, hkind]
  | cons a rest =>
    simp only [Argument.listPhrase, List.cons_append, List.append_assoc, List.nil_append] at h
    -- inside of the parentheses line breaks are passed, since a closing one is going to come
    obtain ⟨paren, hparen, hlead⟩ := h.leads fun _ => ⟨TokenKind.rightParen.mark, by simp, rfl⟩
    have hkind : paren.kind = .leftParen := hparen.kind_eq (by decide)
    obtain ⟨r₁, hpeek, hlead⟩ := hlead.peek
    obtain ⟨r₂, haccept, h⟩ := hlead.accept_some (List.mem_singleton.mpr hkind) (by decide)
    obtain ⟨b, r₃, hfirst, hb, h⟩ := argument_of_shows h
    obtain ⟨out, r', hrest, hout, h⟩ := argumentsFrom_of_shows #[b] h
    refine ⟨b :: out, r', ?_, by rw [List.map_cons, List.map_cons, hb, hout], h⟩
    rw [optionalArguments, bind_apply, hpeek]
    dsimp only
    rw [if_pos hkind, arguments, bind_apply, haccept]
    exact bind_eq_ok.mpr ⟨b, r₃, hfirst, hrest⟩

/-! ### Verbs -/

/-- A verb is read where it is shown.  Behind a verb without arguments no parenthesis may follow. -/
theorem verb_of_shows {v : Verb} {l : Token} (h : r.Shows false (v.phrase ++ l :: phrase))
    (hl : l.kind ≠ .leftParen) :
    ∃ w r', verb? r = (.ok (some w), r') ∧ w.unplaced = v.unplaced ∧
      r'.Shows false (l :: phrase) := by
  cases v with
  | named name arguments location =>
    -- the at sign
    obtain ⟨sign, hsign, hlead⟩ := Reader.Shows.leads h (by simp)
    have hkind₁ : sign.kind = .atSign := hsign.kind_eq (by simp)
    obtain ⟨r₁, hpeek₁, hlead⟩ := hlead.peek
    obtain ⟨r₂, haccept, h⟩ := hlead.accept_some (List.mem_singleton.mpr hkind₁) (by decide)
    -- the name, and the arguments behind it
    obtain ⟨t, ht, hlead⟩ := Reader.Shows.leads h (by simp)
    have hkind₂ : t.kind = .identifier := ht.kind_eq (by simp)
    have hvalue : t.value = name := Token.value_eq_of_terminal (ht.terminal_eq (by simp)) rfl
    obtain ⟨r₃, hpeek₂, hlead⟩ := hlead.peek
    obtain ⟨r₄, htake, h⟩ := hlead.take (by simp [hkind₂])
    obtain ⟨out, r', hread, hout, h⟩ := optionalArguments_of_shows h hl
    refine ⟨.named t.value out sign.location, r', ?_, ?_, h⟩
    · simp [verb?, namedVerb, namedVerbAfter, bind_apply, map_apply, hpeek₁, hkind₁, haccept,
        hpeek₂, hkind₂, htake, hread]
    · rw [Verb.unplaced, Verb.unplaced, hvalue, hout]
  | filter pattern location =>
    obtain ⟨t, ht, hlead⟩ := Reader.Shows.leads h (by simp)
    have hkind : t.kind = .string := ht.kind_eq (by simp)
    have hvalue : t.value = pattern := Token.value_eq_of_terminal (ht.terminal_eq (by simp)) rfl
    obtain ⟨r₁, hpeek, hlead⟩ := hlead.peek
    obtain ⟨r', haccept, h⟩ := hlead.accept_some (List.mem_singleton.mpr hkind) (by decide)
    refine ⟨.filter t.value t.location, r', ?_, by rw [Verb.unplaced, Verb.unplaced, hvalue], h⟩
    simp [verb?, bind_apply, pure_apply, hpeek, hkind, haccept]

/-- The kinds that can follow the verbs of a statement. -/
def afterVerbs : List TokenKind := [.semicolon, .leftBrace, .rightBrace, .endOfInput]

/-- What ends a list of verbs does not open arguments. -/
theorem ne_leftParen_of_mem_afterVerbs {kind : TokenKind} (h : kind ∈ afterVerbs) :
    kind ≠ .leftParen := by
  rintro rfl
  exact absurd h (by decide)

/-- What ends a list of verbs begins none, and is left where it is. -/
theorem no_verb_of_shows {l : Token} (h : r.Shows false (l :: phrase)) (hl : l.kind ∈ afterVerbs) :
    ∃ r', verb? r = (.ok none, r') ∧ r'.Shows false (l :: phrase) := by
  have hstop : l.kind ∉ [TokenKind.atSign] ∧ l.kind ∉ [TokenKind.string] := by
    simp only [afterVerbs, List.mem_cons, List.not_mem_nil, or_false] at hl
    rcases hl with hl | hl | hl | hl <;> simp [hl]
  obtain ⟨t, ht, hlead⟩ :=
    h.leads fun hkind => absurd hkind (ne_leftParen_of_mem_afterVerbs hl)
  obtain ⟨r₁, hpeek, hlead⟩ := hlead.peek
  -- a line break in the place of a semicolon begins no verb either
  have hsign : t.kind ∉ [TokenKind.atSign] := mt (ht.mem_iff (by decide)).mp hstop.1
  have hstring : t.kind ∉ [TokenKind.string] := mt (ht.mem_iff (by decide)).mp hstop.2
  obtain ⟨r₂, haccept, hlead⟩ := hlead.accept_none hstring
  refine ⟨r₂, ?_, .of_leads ht hlead⟩
  simp [verb?, bind_apply, pure_apply, hpeek, mt List.mem_singleton.mpr hsign, haccept]

/-- The verbs are read one at a time, as a reader has it. -/
theorem verbsFrom_apply (read : Array Verb) (r : Reader σ) :
    verbsFrom read r =
      match (verb? : Step σ ε (Option Verb)) r with
      | (.ok (some v), r) => verbsFrom (read.push v) r
      | (.ok none, r) => (.ok read.toList, r)
      | (.error failure, r) => (.error failure, r) := by
  rw [verbsFrom]
  split <;> rename_i h <;> simp only [h]

/-- No verb starts with a parenthesis, which would belong to the verb before it. -/
theorem exists_phrase_eq_cons (vs : List Verb) (phrase : List Token) {l : Token}
    (hl : l.kind ≠ .leftParen) : ∃ l' phrase',
      vs.flatMap Verb.phrase ++ l :: phrase = l' :: phrase' ∧ l'.kind ≠ .leftParen := by
  rcases vs with _ | ⟨⟨name, arguments, location⟩ | ⟨pattern, location⟩, vs⟩
  · exact ⟨l, phrase, rfl, hl⟩
  · exact ⟨_, _, rfl, by simp⟩
  · exact ⟨_, _, rfl, by simp⟩

/-- Verbs are read up to the token that ends them, by induction on the list. -/
theorem verbsFrom_of_shows {vs : List Verb} (read : Array Verb) {l : Token}
    (h : r.Shows false (vs.flatMap Verb.phrase ++ l :: phrase)) (hl : l.kind ∈ afterVerbs) :
    ∃ out r', verbsFrom read r = (.ok (read.toList ++ out), r') ∧
      out.map Verb.unplaced = vs.map Verb.unplaced ∧ r'.Shows false (l :: phrase) := by
  induction vs generalizing r read with
  | nil =>
    obtain ⟨r', hverb, h⟩ := no_verb_of_shows h hl
    refine ⟨[], r', ?_, rfl, h⟩
    rw [verbsFrom_apply, hverb, List.append_nil]
  | cons v vs ih =>
    obtain ⟨l', phrase', hnext, hkind⟩ :=
      exists_phrase_eq_cons vs phrase (ne_leftParen_of_mem_afterVerbs hl)
    rw [List.flatMap_cons, List.append_assoc, hnext] at h
    obtain ⟨w, r₁, hverb, hw, h⟩ := verb_of_shows h hkind
    rw [← hnext] at h
    obtain ⟨out, r', hout, hrest, h⟩ := ih (read.push w) h
    refine ⟨w :: out, r', ?_, by rw [List.map_cons, List.map_cons, hw, hrest], h⟩
    rw [verbsFrom_apply, hverb]
    simpa using hout

/-- All verbs of a statement are read where their phrases are shown. -/
theorem verbs_of_shows {vs : List Verb} {l : Token}
    (h : r.Shows false (vs.flatMap Verb.phrase ++ l :: phrase)) (hl : l.kind ∈ afterVerbs) :
    ∃ out r', verbs r = (.ok out, r') ∧ out.map Verb.unplaced = vs.map Verb.unplaced ∧
      r'.Shows false (l :: phrase) := by
  obtain ⟨out, r', hout, hrest⟩ := verbsFrom_of_shows #[] h hl
  exact ⟨out, r', hout, hrest⟩

/-! ### Statements -/

/-- A brace opens a scope, whose body is shown next. -/
theorem openScope_of_shows (owner : Token) (verbs : List Verb)
    (h : r.Shows false (TokenKind.leftBrace.mark :: phrase)) :
    ∃ brace r', openScope owner verbs r = (.ok { brace, owner, verbs }, r') ∧
      r'.Shows false phrase := by
  obtain ⟨brace, hbrace, hlead⟩ := h.leads (by simp)
  have hkind : brace.kind = .leftBrace := hbrace.kind_eq (by simp)
  obtain ⟨r₁, haccept, h⟩ := hlead.accept_some (List.mem_singleton.mpr hkind) (by decide)
  obtain ⟨depth, r₂, hdepth, h⟩ := h.changeDepth 1
  obtain ⟨r', hnote, h⟩ := h.note (.entered brace.location depth)
  refine ⟨brace, r', ?_, h⟩
  refine bind_eq_ok.mpr ⟨some brace, r₁, haccept, ?_⟩
  exact bind_eq_ok.mpr ⟨depth, r₂, hdepth, bind_eq_ok.mpr ⟨(), r', hnote, rfl⟩⟩

/-- The matching brace closes it, and makes it a statement. -/
theorem closeScope_of_shows (scope : Scope)
    (h : r.Shows false (TokenKind.rightBrace.mark :: phrase)) :
    ∃ r', closeScope scope r = (.ok scope.statement, r') ∧ r'.Shows false phrase := by
  obtain ⟨brace, hbrace, hlead⟩ := h.leads (by simp)
  have hkind : brace.kind = .rightBrace := hbrace.kind_eq (by simp)
  obtain ⟨r₁, hpeek, hlead⟩ := hlead.peek
  obtain ⟨r₂, haccept, h⟩ := hlead.accept_some (List.mem_singleton.mpr hkind) (by decide)
  obtain ⟨depth, r', hdepth, h⟩ := h.changeDepth (-1)
  refine ⟨r', ?_, h⟩
  refine bind_eq_ok.mpr ⟨brace, r₁, hpeek, bind_eq_ok.mpr ⟨some brace, r₂, haccept, ?_⟩⟩
  exact bind_eq_ok.mpr ⟨depth, r', hdepth, rfl⟩

/-- The kinds that can follow a statement. -/
def afterStatement : List TokenKind := [.semicolon, .rightBrace, .endOfInput]

/-- Wherever the statement is shown, it is read. -/
def ReadsWhereShown (σ : Type) {ε : Type} [TokenFeed σ ε] (s : Statement) : Prop :=
  ∀ (r : Reader σ) (l : Token) (phrase : List Token), l.kind ∈ afterStatement →
    r.Shows false (s.phrase ++ l :: phrase) →
    ∃ s' r', (descendStatement : Step σ ε Statement) r = (.ok s', r') ∧
      s'.unplaced = s.unplaced ∧ r'.Shows false (l :: phrase)

/-- A list is read where it is shown, if that holds of its statements. -/
theorem list_of_shows {s : Statement} {rest : List Statement} (read : Array Statement) {l : Token}
    (hbody : ∀ s' ∈ s :: rest, ReadsWhereShown σ s')
    (h : r.Shows false (Statement.listPhrase (s :: rest) ++ l :: phrase))
    (hl : l.kind = .rightBrace ∨ l.kind = .endOfInput) :
    ∃ out r', descendList read r = (.ok out, r') ∧
      out.toList.map Statement.unplaced
        = read.toList.map Statement.unplaced ++ (s :: rest).map Statement.unplaced ∧
      r'.Shows false (l :: phrase) := by
  have hstop : l.kind ∈ afterStatement ∧ l.kind ∉ TokenKind.terminators ∧
      l.kind ≠ .leftParen := by
    rcases hl with hl | hl <;> rw [hl] <;> decide
  induction rest generalizing r read s with
  | nil =>
    -- no terminator follows the last statement
    simp only [Statement.listPhrase, Statement.tailPhrase, List.append_nil] at h
    obtain ⟨s', r₁, hs, hunplaced, h⟩ := hbody s (by simp) r l phrase hstop.1 h
    obtain ⟨t, ht, hlead⟩ := h.leads fun hkind => absurd hkind hstop.2.2
    obtain ⟨r', haccept, hlead⟩ := hlead.accept_none (mt (ht.mem_iff (by decide)).mp hstop.2.1)
    refine ⟨read.push s', r', ?_, by simp [hunplaced], .of_leads ht hlead⟩
    rw [descendList_eq]
    exact bind_eq_ok.mpr ⟨s', r₁, hs, bind_eq_ok.mpr ⟨none, r', haccept, rfl⟩⟩
  | cons s₂ rest ih =>
    simp only [Statement.listPhrase, Statement.tailPhrase, List.append_assoc,
      List.cons_append] at h
    obtain ⟨s', r₁, hs, hunplaced, h⟩ :=
      hbody s (by simp) r TokenKind.semicolon.mark _ (by decide) h
    -- the terminator is a semicolon or a line break
    obtain ⟨t, ht, hlead⟩ := h.leads (by simp)
    have hmem : t.kind ∈ TokenKind.terminators := (ht.mem_iff (by decide)).mpr (by decide)
    obtain ⟨r₂, haccept, h⟩ := hlead.accept_some hmem (by decide)
    have hrest : r₂.Shows false (Statement.listPhrase (s₂ :: rest) ++ l :: phrase) := by
      simpa [Statement.listPhrase, TokenKind.insideAfter] using h
    have hbody' : ∀ s' ∈ s₂ :: rest, ReadsWhereShown σ s' :=
      fun s' hs' => hbody s' (List.mem_cons_of_mem s hs')
    obtain ⟨out, r', hout, houtside, h⟩ := ih (read.push s') hbody' hrest
    refine ⟨out, r', ?_, by simp [houtside, hunplaced], h⟩
    rw [descendList_eq]
    exact bind_eq_ok.mpr ⟨s', r₁, hs, bind_eq_ok.mpr ⟨some t, r₂, haccept, hout⟩⟩

/-- A statement is read as its verbs are, behind a look at its first token. -/
theorem statementVerbs_of_shows {vs : List Verb} {l : Token}
    (h : r.Shows false (vs.flatMap Verb.phrase ++ l :: phrase)) (hl : l.kind ∈ afterVerbs) :
    ∃ first out following r₁ r₂ r', peek r = (.ok first, r₁) ∧ verbs r₁ = (.ok out, r₂) ∧
      peek r₂ = (.ok following, r') ∧ out.map Verb.unplaced = vs.map Verb.unplaced ∧
      following.StandsFor l ∧ r'.Shows false (l :: phrase) := by
  have hparen : l.kind ≠ .leftParen := ne_leftParen_of_mem_afterVerbs hl
  obtain ⟨first, r₁, hfirst, h⟩ := h.peek
  obtain ⟨out, r₂, hverbs, hout, h⟩ := verbs_of_shows h hl
  obtain ⟨following, hstands, hlead⟩ := h.leads fun hkind => absurd hkind hparen
  obtain ⟨r', hfollowing, hlead⟩ := hlead.peek
  have h := Reader.Shows.of_leads hstands hlead
  exact ⟨first, out, following, r₁, r₂, r', hfirst, hverbs, hfollowing, hout, hstands, h⟩

/-- A statement whose scopes are filled is read where it is shown. -/
theorem statement_of_shows (s : Statement) (hfilled : s.IsFilled) : ReadsWhereShown σ s := by
  induction s using Statement.inductionOn with
  | plain verbs location =>
    intro r l phrase hl h
    have hstop : l.kind ∈ afterVerbs ∧ l.kind ∉ [TokenKind.leftBrace] := by
      simp only [afterStatement, List.mem_cons, List.not_mem_nil, or_false] at hl
      rcases hl with hl | hl | hl <;> rw [hl] <;> decide
    obtain ⟨first, out, following, r₁, r₂, r', hfirst, hverbs, hfollowing, hout, hstands, h⟩ :=
      statementVerbs_of_shows h hstop.1
    have hkind : following.kind ≠ .leftBrace := fun hkind =>
      hstop.2 ((hstands.mem_iff (by decide)).mp (List.mem_singleton.mpr hkind))
    refine ⟨.plain out first.location, r', ?_, by rw [Statement.unplaced, Statement.unplaced, hout],
      h⟩
    rw [descendStatement_eq]
    refine bind_eq_ok.mpr ⟨first, r₁, hfirst, bind_eq_ok.mpr ⟨out, r₂, hverbs, ?_⟩⟩
    refine bind_eq_ok.mpr ⟨following, r', hfollowing, ?_⟩
    rw [if_neg hkind]
    rfl
  | nested verbs body opened location ih =>
    intro r l phrase hl h
    obtain ⟨hbody, hfilled⟩ := Statement.isFilled_nested.mp hfilled
    obtain ⟨s, rest, rfl⟩ := List.exists_cons_of_ne_nil hbody
    simp only [Statement.phrase, List.append_assoc, List.cons_append, List.nil_append] at h
    obtain ⟨first, out, following, r₁, r₂, r₃, hfirst, hverbs, hfollowing, hout, hstands, h⟩ :=
      statementVerbs_of_shows h (by decide)
    have hkind : following.kind = .leftBrace := hstands.kind_eq (by simp)
    obtain ⟨brace, r₄, hopen, h⟩ := openScope_of_shows first out h
    have hread : ∀ s' ∈ s :: rest, ReadsWhereShown σ s' := fun s' hs' => ih s' hs' (hfilled s' hs')
    obtain ⟨list, r₅, hlist, hunplaced, h⟩ := list_of_shows #[] hread h (.inl rfl)
    obtain ⟨r', hclose, h⟩ :=
      closeScope_of_shows { brace, owner := first, verbs := out, statements := list } h
    refine ⟨.nested out list.toList brace.location first.location, r', ?_, ?_, h⟩
    · rw [descendStatement_eq]
      refine bind_eq_ok.mpr ⟨first, r₁, hfirst, bind_eq_ok.mpr ⟨out, r₂, hverbs, ?_⟩⟩
      refine bind_eq_ok.mpr ⟨following, r₃, hfollowing, ?_⟩
      rw [if_pos hkind]
      refine bind_eq_ok.mpr ⟨_, r₄, hopen, bind_eq_ok.mpr ⟨list, r₅, hlist, ?_⟩⟩
      exact hclose
    · simp only [Statement.unplaced, Statement.unplacedAll_eq_map, hout, hunplaced, List.map_nil,
        List.nil_append]

/-! ### Queries -/

/-- A filled query is read where it is shown in front of the end of the input. -/
theorem query_of_shows {q : Query} (hfilled : q.IsFilled)
    (h : r.Shows false (q.phrase ++ [TokenKind.endOfInput.mark])) :
    ∃ q' r', query r = (.ok q', r') ∧ q'.unplaced = q.unplaced := by
  obtain ⟨hstatements, hfilled⟩ := Query.isFilled_iff.mp hfilled
  obtain ⟨s, rest, hq⟩ := List.exists_cons_of_ne_nil hstatements
  rw [hq] at hfilled
  rw [Query.phrase, hq] at h
  obtain ⟨source, r₁, htext, h⟩ := h.text
  obtain ⟨r₂, hnote, h⟩ := h.note (.started source.length)
  obtain ⟨first, r₃, hfirst, h⟩ := h.peek
  have hread : ∀ s' ∈ s :: rest, ReadsWhereShown σ s' :=
    fun s' hs' => statement_of_shows s' (hfilled s' hs')
  obtain ⟨list, r₄, hlist, hunplaced, h⟩ := list_of_shows #[] hread h (.inr rfl)
  -- the list is followed by the end of the input
  obtain ⟨t, ht, hlead⟩ := h.leads (by simp)
  obtain ⟨r₅, hpeek, -⟩ := hlead.peek
  have hkind : t.kind = .endOfInput := ht.kind_eq (by simp)
  obtain ⟨r', hdone⟩ : ∃ r', (note (.finished list.toList.length) : Step σ ε Unit) r₅
      = (.ok (), r') := ⟨_, rfl⟩
  refine ⟨⟨list.toList, first.location⟩, r', ?_, ?_⟩
  · rw [query_eq_wholeQuery, statements_eq_statementsByDescent]
    refine bind_eq_ok.mpr ⟨source, r₁, htext, bind_eq_ok.mpr ⟨(), r₂, hnote, ?_⟩⟩
    have hread : (statementsByDescent : Step σ ε Query) r₂
        = (.ok ⟨list.toList, first.location⟩, r₄) :=
      bind_eq_ok.mpr ⟨first, r₃, hfirst, bind_eq_ok.mpr ⟨list, r₄, hlist, rfl⟩⟩
    refine bind_eq_ok.mpr ⟨_, r₄, hread, bind_eq_ok.mpr ⟨t, r₅, hpeek, ?_⟩⟩
    rw [if_pos hkind]
    exact bind_eq_ok.mpr ⟨(), r', hdone, rfl⟩
  · simp only [Query.unplaced, Statement.unplacedAll_eq_map, hunplaced, hq, List.map_nil,
      List.nil_append]

end Step

end ScopedQuery
