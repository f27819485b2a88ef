import ScopedQuery.Formatter
import ScopedQuery.Proofs.Grammar
import ScopedQuery.Proofs.Lexing

namespace ScopedQuery

/-!
# The canonical text and back

* `Verb.spells_canonical`, `Statement.spells_canonical`, `Query.spells_canonical` — the canonical
  text of a spelled tree spells its phrase.
* `Query.tokens_canonical` — so its tokens are those of the phrase, and none is a line break.
* `Query.canonical_unplaced`, `Query.phrase_filled` — the canonical text does not depend on places,
  and a phrase does not tell an empty list from an empty statement.
* `ofText_canonical_gives_iff` — which trees are read back from their canonical texts.
* `canonical_of_ofText` — the canonical text of a query that was read has the tokens of the text it
  was read from, and stays the same from then on.
-/

/-! ### Lists in phrases and texts -/

/-- Every list but the first one stands behind a separator. -/
theorem intercalate_cons_eq_flatMap {α : Type} (sep x : List α) (xs : List (List α)) :
    sep.intercalate (x :: xs) = x ++ xs.flatMap fun y => sep ++ y := by
  induction xs generalizing x with
  | nil => simp
  | cons y ys ih =>
    rw [List.intercalate_cons_cons, ih, List.flatMap_cons]
    simp only [List.append_assoc]

/-- The phrase of a list of arguments is their phrases with commas between them, in parentheses. -/
theorem Argument.listPhrase_eq_intercalate (a : Argument) (rest : List Argument) :
    Argument.listPhrase (a :: rest) = TokenKind.leftParen.mark ::
      ([TokenKind.comma.mark].intercalate ((a :: rest).map Argument.phrase)
        ++ [TokenKind.rightParen.mark]) := by
  rw [List.map_cons, intercalate_cons_eq_flatMap, List.flatMap_map]
  rfl

/-- The phrase of a list of statements is their phrases with semicolons between them. -/
theorem Statement.listPhrase_eq_intercalate (body : List Statement) :
    Statement.listPhrase body
      = [TokenKind.semicolon.mark].intercalate (body.map Statement.phrase) := by
  cases body with
  | nil => rfl
  | cons s rest =>
    rw [List.map_cons, intercalate_cons_eq_flatMap, List.flatMap_map, Statement.listPhrase,
      Statement.tailPhrase_eq_flatMap]
    rfl

/-- The statements of a list are written one by one. -/
theorem Statement.canonicalAll_eq_map (body : List Statement) :
    Statement.canonicalAll body = body.map Statement.canonical := by
  induction body with
  | nil => rfl
  | cons s rest ih => rw [Statement.canonicalAll, ih, List.map_cons]

/-- Texts divided by a separator spell phrases divided by its mark. -/
theorem spells_intercalate_map {α : Type} {sep : String} {mark : List Token}
    (hsep : SpellsAlone sep.toList mark) (hne : sep.toList ≠ []) (hends : EndsName sep.toList)
    {text : α → String} {phrase : α → List Token} {as : List α}
    (h : ∀ a ∈ as, Spells (text a).toList (phrase a)) :
    Spells (sep.intercalate (as.map text)).toList (mark.intercalate (as.map phrase)) := by
  have hitems : ∀ item ∈ as.map (fun a => ((text a).toList, phrase a)),
      Spells item.1 item.2 := by
    simpa using h
  rw [String.toList_intercalate]
  simpa [List.map_map, Function.comp_def] using spells_intercalate hsep hne hends hitems

/-! ### Spelled trees -/

/-- The text of an argument spells its phrase, whatever stands behind it. -/
theorem Argument.spells_canonical {a : Argument} (h : a.IsSpelled) :
    SpellsAlone a.canonical.toList a.phrase := by
  have hvalue : SpellsAlone ('=' :: '"' :: (a.value.toList ++ ['"']))
      [TokenKind.equals.mark, ⟨.string, a.value, {}⟩] :=
    (spellsAlone_punctuation _ rfl).append (spellsAlone_string h.2)
  have hargument := (spells_name h.1).append_alone hvalue (by simp) (endsName_cons (by decide))
  simpa [Argument.canonical, Argument.phrase, stringText] using hargument

/-- The text of a verb does so if no name goes on behind it. -/
theorem Verb.spells_canonical {v : Verb} (h : v.IsSpelled) :
    Spells v.canonical.toList v.phrase := by
  cases v with
  | filter pattern location =>
    simpa [Verb.canonical, Verb.phrase, stringText] using (spellsAlone_string h).spells
  | named name arguments location =>
    have hname : Spells ('@' :: name.toList) [TokenKind.atSign.mark, ⟨.identifier, name, {}⟩] :=
      (spellsAlone_punctuation _ rfl).append_spells (spells_name h.1)
    cases arguments with
    | nil => simpa [Verb.canonical, Verb.phrase, Argument.listPhrase] using hname
    | cons a rest =>
      have hsep : SpellsAlone ", ".toList [TokenKind.comma.mark] :=
        (spellsAlone_punctuation _ rfl).append spellsAlone_blank
      have hlist := spells_intercalate_map hsep (by simp) (endsName_cons (by decide))
        fun b hb => (Argument.spells_canonical (h.2 b hb)).spells
      -- the parentheses keep the arguments from the name and from what follows
      have hclosed := hlist.append_alone (spellsAlone_punctuation ')' rfl) (by simp)
        (endsName_cons (by decide))
      have hopened := (spellsAlone_punctuation '(' rfl).append hclosed
      have hverb := hname.append_alone hopened (by simp) (endsName_cons (by decide))
      simpa [Verb.canonical, Verb.phrase, Argument.listPhrase_eq_intercalate] using hverb.spells

/-- Braces around the text of a list, whatever follows them. -/
theorem spellsAlone_scopeText {text : String} {phrase : List Token}
    (h : Spells text.toList phrase) :
    SpellsAlone (scopeText text).toList
      (TokenKind.leftBrace.mark :: (phrase ++ [TokenKind.rightBrace.mark])) := by
  have hopen := spellsAlone_punctuation '{' rfl
  have hclose := spellsAlone_punctuation '}' rfl
  unfold scopeText
  split
  case isTrue hempty =>
    -- no blanks stand between the braces
    subst hempty
    have hbody := h.append_alone hclose (by simp) (endsName_cons (by decide))
    simpa using hopen.append hbody
  case isFalse =>
    have hbody := h.append_alone (spellsAlone_blank.append hclose) (by simp)
      (endsName_cons (by decide))
    simpa using hopen.append (spellsAlone_blank.append hbody)

/-- Statements with a semicolon and a blank between them spell the phrase of the list. -/
theorem spells_statements {body : List Statement}
    (h : ∀ s ∈ body, Spells s.canonical.toList s.phrase) :
    Spells ("; ".intercalate (Statement.canonicalAll body)).toList
      (Statement.listPhrase body) := by
  have hsep : SpellsAlone "; ".toList [TokenKind.semicolon.mark] :=
    (spellsAlone_punctuation ';' rfl).append spellsAlone_blank
  rw [Statement.canonicalAll_eq_map, Statement.listPhrase_eq_intercalate]
  exact spells_intercalate_map hsep (by simp) (endsName_cons (by decide)) h

/-- Texts divided by blanks spell their phrases one after another. -/
theorem spells_blanks {α : Type} {text : α → String} {phrase : α → List Token} {as : List α}
    (h : ∀ a ∈ as, Spells (text a).toList (phrase a)) :
    Spells (" ".intercalate (as.map text)).toList (as.flatMap phrase) := by
  have hsep : SpellsAlone " ".toList [] := spellsAlone_blank
  have hall := spells_intercalate_map hsep (by simp) (endsName_cons (by decide)) h
  cases as with
  | nil => exact hall
  | cons a rest =>
    -- nothing stands between two phrases
    show Spells _ (phrase a ++ rest.flatMap phrase)
    simpa only [List.map_cons, intercalate_cons_eq_flatMap, List.flatMap_map, List.nil_append]
      using hall

/-- By induction over the scopes, the text of a statement spells its phrase. -/
theorem Statement.spells_canonical {s : Statement} (h : ∀ v ∈ s.allVerbs, v.IsSpelled) :
    Spells s.canonical.toList s.phrase := by
  induction s using Statement.inductionOn with
  | plain verbs location => exact spells_blanks fun v hv => Verb.spells_canonical (h v hv)
  | nested verbs body opened location ih =>
    simp only [Statement.allVerbs, Statement.allVerbsIn_eq_flatMap, List.forall_mem_append,
      List.forall_mem_flatMap] at h
    -- the scope is one more text behind those of the verbs
    have hscope := spellsAlone_scopeText (spells_statements fun s hs => ih s hs (h.2 s hs))
    have hparts : ∀ part ∈ verbs.map (fun v => (v.canonical, v.phrase)) ++
        [(scopeText ("; ".intercalate (Statement.canonicalAll body)),
          TokenKind.leftBrace.mark :: (Statement.listPhrase body ++ [TokenKind.rightBrace.mark]))],
        Spells part.1.toList part.2 := by
      rw [List.forall_mem_append, List.forall_mem_singleton]
      exact ⟨by simpa using fun v hv => Verb.spells_canonical (h.1 v hv), hscope.spells⟩
    simpa [Statement.canonical, Statement.phrase, List.flatMap_map, Function.comp_def]
      using spells_blanks hparts

/-- So does the text of a query. -/
theorem Query.spells_canonical {q : Query} (h : q.IsSpelled) :
    Spells q.canonical.toList q.phrase := by
  simp only [Query.IsSpelled, Query.allVerbs, Statement.allVerbsIn_eq_flatMap,
    List.forall_mem_flatMap] at h
  exact spells_statements fun s hs => Statement.spells_canonical (h s hs)

/-! ### Places and empty lists -/

/-- Places do not show in the canonical text of a verb. -/
theorem Verb.canonical_unplaced (v : Verb) : v.unplaced.canonical = v.canonical := by
  cases v with
  | filter pattern location => rfl
  | named name arguments location =>
    cases arguments with
    | nil => rfl
    | cons a rest =>
      simp only [Verb.unplaced, Verb.canonical, List.map_cons, List.map_map]
      rfl

/-- By induction over the scopes, they do not show in that of a statement. -/
theorem Statement.canonical_unplaced (s : Statement) : s.unplaced.canonical = s.canonical := by
  have hverbs (verbs : List Verb) :
      (verbs.map Verb.unplaced).map Verb.canonical = verbs.map Verb.canonical := by
    rw [List.map_map]
    exact List.map_congr_left fun v _ => v.canonical_unplaced
  induction s using Statement.inductionOn with
  | plain verbs location =>
    rw [Statement.unplaced, Statement.canonical, hverbs, Statement.canonical]
  | nested verbs body opened location ih =>
    have hbody : (body.map Statement.unplaced).map Statement.canonical
        = body.map Statement.canonical := by
      rw [List.map_map]
      exact List.map_congr_left ih
    simp only [Statement.unplaced, Statement.canonical, Statement.canonicalAll_eq_map,
      Statement.unplacedAll_eq_map, hverbs, hbody]

/-- The canonical text does not depend on places. -/
theorem Query.canonical_unplaced (q : Query) : q.unplaced.canonical = q.canonical := by
  simp only [Query.canonical, Query.unplaced, Statement.canonicalAll_eq_map,
    Statement.unplacedAll_eq_map, List.map_map]
  congr 1
  exact List.map_congr_left fun s _ => s.canonical_unplaced

/-- An empty statement has no tokens, so it does not show in a list by itself. -/
theorem Statement.listPhrase_orEmpty (body : List Statement) :
    Statement.listPhrase (Statement.orEmpty body) = Statement.listPhrase body := by
  cases body <;> rfl

/-- So a filled statement has the same phrase. -/
theorem Statement.phrase_filled (s : Statement) : s.filled.phrase = s.phrase := by
  induction s using Statement.inductionOn with
  | plain verbs location => rfl
  | nested verbs body opened location ih =>
    simp only [Statement.filled, Statement.phrase, Statement.listPhrase_orEmpty,
      Statement.filledAll_eq_map, Statement.listPhrase_map body ih]

/-- A phrase does not tell an empty list from a list of an empty statement. -/
theorem Query.phrase_filled (q : Query) : q.filled.phrase = q.phrase := by
  simp only [Query.phrase, Query.filled, Statement.listPhrase_orEmpty, Statement.filledAll_eq_map]
  exact Statement.listPhrase_map q.statements fun s _ => s.phrase_filled

/-! ### Whole texts -/

@[simp] theorem Query.format_canonical (q : Query) : q.format .canonical = q.canonical := by
  simp [Query.format, Formatter.add, Formatter.text, Style.lines]

/-- Without line breaks there is nothing to settle. -/
theorem eraseBreaks_eq_self {inside : Bool} {ts : List Token} (h : ∀ t ∈ ts, t.kind ≠ .newline) :
    eraseBreaks inside ts = ts := by
  induction ts generalizing inside with
  | nil => rfl
  | cons t ts ih =>
    rw [List.forall_mem_cons] at h
    rw [eraseBreaks_cons h.1, ih h.2]

/-- The tokens of a canonical text are those of the phrase, and there are no line breaks to
    settle. -/
theorem Query.tokens_canonical {q : Query} (h : q.IsSpelled) :
    ∃ ts, (Cursor.ofText q.canonical).tokens.1 = .ok ts ∧ eraseBreaks false ts = ts ∧
      ts.map Token.unplaced = q.phrase ++ [TokenKind.endOfInput.mark] := by
  obtain ⟨ts, hfeeds, hts⟩ := (Query.spells_canonical h).lexes (Cursor.ofText q.canonical) rfl
  refine ⟨ts, feeds_iff_tokens.mp hfeeds, eraseBreaks_eq_self fun t ht => ?_, hts⟩
  have hmem : t.unplaced ∈ q.phrase ++ [TokenKind.endOfInput.mark] := by
    rw [← hts]
    exact List.mem_map_of_mem ht
  -- a line break would be one in the phrase
  rw [← Token.kind_unplaced]
  rcases List.mem_append.mp hmem with hmem | hmem
  · exact q.kind_ne_newline_of_mem_phrase _ hmem
  · rw [List.mem_singleton.mp hmem]
    decide

/-- Spelled queries are read back from their canonical texts, but for empty lists. -/
theorem Query.gives_filled_of_canonical {q : Query} (h : q.IsSpelled) :
    Gives (Query.ofText q.canonical) q.filled := by
  obtain ⟨ts, htokens, herased, hphrase⟩ := Query.tokens_canonical h
  refine ofText_gives_iff.mpr ⟨⟨q.isFilled_filled, q.isSpelled_filled.mpr h⟩, ts, htokens, ?_⟩
  rw [herased, hphrase, Query.phrase_filled]

/-- **Which trees come back.**  Reading the canonical text of a tree gives the tree again, with a
    statement in each of its empty lists, exactly if the names in it are names and its strings have
    no double quotes. -/
theorem ofText_canonical_gives_iff (q : Query) :
    Gives (Query.ofText (q.format .canonical)) q.filled ↔ q.IsSpelled := by
  rw [Query.format_canonical]
  constructor
  · intro h
    -- whatever is read can be written, and filling the lists adds no verbs
    obtain ⟨hwell, -⟩ := ofText_gives_iff.mp h
    exact q.isSpelled_filled.mp hwell.spelled
  · exact Query.gives_filled_of_canonical

/-- **Formatting keeps the tokens.**  A query that was read can be written; its canonical text has
    the tokens of the text that it was read from, where line breaks in argument lists are left out
    and other ones are semicolons; and the query that is read from the canonical text has the same
    canonical text. -/
theorem canonical_of_ofText {source : String} {q : Query} (h : Query.ofText source = .ok q) :
    q.WellFormed ∧
      (∃ ts ts', (Cursor.ofText source).tokens.1 = .ok ts ∧
        (Cursor.ofText (q.format .canonical)).tokens.1 = .ok ts' ∧
        ts'.map Token.unplaced = (eraseBreaks false ts).map Token.unplaced) ∧
      ∃ q', Query.ofText (q.format .canonical) = .ok q' ∧
        q'.format .canonical = q.format .canonical := by
  obtain ⟨hwell, ts, htokens, hphrase⟩ := phrase_of_ofText h
  obtain ⟨ts', htokens', herased, hphrase'⟩ := Query.tokens_canonical hwell.spelled
  rw [Query.format_canonical]
  refine ⟨hwell, ⟨ts, ts', htokens, htokens', hphrase'.trans hphrase.symm⟩, ?_⟩
  -- the canonical text has the phrase of the query, so the query is read from it
  have hphrase'' : (eraseBreaks false ts').map Token.unplaced
      = q.phrase ++ [TokenKind.endOfInput.mark] := by
    rw [herased, hphrase']
  obtain ⟨q', hq', hagrees⟩ := ofText_gives_iff.mpr ⟨hwell, ts', htokens', hphrase''⟩
  rw [Query.agrees_iff] at hagrees
  refine ⟨q', hq', ?_⟩
  rw [Query.format_canonical, ← Query.canonical_unplaced, hagrees, Query.canonical_unplaced]

/-- Comments, line breaks of three kinds, scopes in which nothing stands, and strings that look like
    something else. -/
theorem canonical_of_ofText_of_breaks :
    ∃ q, Query.ofText "@f(\n x=\"\x7d\",\r\n y=\"\n\" ) \x7b\x7b\x7d\x7d /* ; */ \r \"z\"" = .ok q ∧
      q.WellFormed ∧ q.format .canonical = "@f(x=\"\x7d\", y=\"\n\") \x7b \x7b\x7d \x7d; \"z\"" ∧
      ∃ q', Query.ofText "@f(x=\"\x7d\", y=\"\n\") \x7b \x7b\x7d \x7d; \"z\"" = .ok q' ∧
        q'.format .canonical = "@f(x=\"\x7d\", y=\"\n\") \x7b \x7b\x7d \x7d; \"z\"" := by
  have hrun : (Query.ofText
        "@f(\n x=\"\x7d\",\r\n y=\"\n\" ) \x7b\x7b\x7d\x7d /* ; */ \r \"z\"").toOption.map
      (·.format .canonical) = some "@f(x=\"\x7d\", y=\"\n\") \x7b \x7b\x7d \x7d; \"z\"" := by
    decide +kernel
  obtain ⟨q, hq⟩ : ∃ q, Query.ofText
      "@f(\n x=\"\x7d\",\r\n y=\"\n\" ) \x7b\x7b\x7d\x7d /* ; */ \r \"z\"" = .ok q :=
    exists_of_isOk (by decide +kernel)
  rw [hq] at hrun
  have htext : q.format .canonical = "@f(x=\"\x7d\", y=\"\n\") \x7b \x7b\x7d \x7d; \"z\"" :=
    Option.some.inj hrun
  obtain ⟨hwell, -, hagain⟩ := canonical_of_ofText hq
  rw [htext] at hagain
  exact ⟨q, hq, hwell, htext, hagain⟩

end ScopedQuery
