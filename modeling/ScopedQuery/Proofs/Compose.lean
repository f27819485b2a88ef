import ScopedQuery.Proofs.Grammar
import ScopedQuery.Proofs.Partition
import ScopedQuery.Proofs.Unified

namespace ScopedQuery

open Text

/-!
# Texts put together

A text is read part by part: where no token goes on over the seam of two texts, the tokens of the
whole are those of the parts, and since the parentheses of a query are closed within it, so is what
is left of them once the line breaks are settled.

* `eraseBreaks_append` — line breaks are settled part by part.
* `Seam`, `Partition.append` — texts whose tokens do not go on in one another.
* `Phrased`, `gives_iff_phrased` — what is left of the tokens of a text, and which query it is.
* `Query.append`, `Query.scoped` — queries put together.
* `ofText_compose` — the texts of queries, put together with terminators and braces.
-/

/-! ### Settled line breaks -/

section Settled

variable {inside : Bool} {t : Token} {ts us : List Token}

/-- The inside of parentheses is left through a closing one. -/
theorem exists_rightParen_of_insideAll (h : insideAll true ts = false) :
    ∃ u ∈ ts, u.kind = .rightParen := by
  induction ts with
  | nil => cases h
  | cons t ts ih =>
    by_cases hright : t.kind = .rightParen
    · exact ⟨t, List.mem_cons_self, hright⟩
    · have hinside : t.kind.insideAfter true = true := by
        by_cases hleft : t.kind = .leftParen
        · rw [hleft]
          rfl
        · exact TokenKind.insideAfter_of_ne hleft hright
      rw [insideAll_cons, hinside] at h
      obtain ⟨u, hu, hparen⟩ := ih h
      exact ⟨u, List.mem_cons_of_mem t hu, hparen⟩

/-- Settling the line breaks changes no parenthesis. -/
theorem insideAll_eraseBreaks (inside : Bool) (ts : List Token) :
    insideAll inside (eraseBreaks inside ts) = insideAll inside ts := by
  induction ts generalizing inside with
  | nil => rfl
  | cons t ts ih =>
    by_cases hkind : t.kind = .newline
    · have hafter : t.kind.insideAfter inside = inside := by rw [hkind]; rfl
      rw [eraseBreaks, if_pos hkind, insideAll_cons, hafter]
      split
      · exact ih inside
      · exact ih inside
    · rw [eraseBreaks_cons hkind, insideAll_cons, insideAll_cons, ih]

/-- Where the parentheses are closed, line breaks are settled for each part by itself. -/
theorem eraseBreaks_append (h : insideAll inside ts = false) (us : List Token) :
    eraseBreaks inside (ts ++ us) = eraseBreaks inside ts ++ eraseBreaks false us := by
  induction ts generalizing inside with
  | nil =>
    rw [insideAll_nil] at h
    rw [h]
    rfl
  | cons t ts ih =>
    by_cases hkind : t.kind = .newline
    · have hafter : t.kind.insideAfter inside = inside := by rw [hkind]; rfl
      rw [insideAll_cons, hafter] at h
      rw [List.cons_append, eraseBreaks, if_pos hkind, eraseBreaks, if_pos hkind]
      cases inside with
      | false => simp [ih h]
      | true =>
        -- the parenthesis that closes them stands in the first part
        obtain ⟨u, hu, hparen⟩ := exists_rightParen_of_insideAll h
        rw [if_pos ⟨rfl, u, List.mem_append_left us hu, hparen⟩, if_pos ⟨rfl, u, hu, hparen⟩, ih h]
    · rw [List.cons_append, eraseBreaks_cons hkind, eraseBreaks_cons hkind, ih h]
      rfl

/-- Settling the line breaks looks at kinds only, so places may be left out before or after it. -/
theorem map_unplaced_eraseBreaks (inside : Bool) (ts : List Token) :
    (eraseBreaks inside ts).map Token.unplaced = eraseBreaks inside (ts.map Token.unplaced) := by
  induction ts generalizing inside with
  | nil => rfl
  | cons t ts ih =>
    by_cases hkind : t.kind = .newline
    · have hkind' : t.unplaced.kind = .newline := hkind
      rw [List.map_cons, eraseBreaks, if_pos hkind, eraseBreaks, if_pos hkind']
      simp only [List.mem_map, exists_exists_and_eq_and, Token.kind_unplaced]
      split
      · exact ih inside
      · rw [List.map_cons, ih]
        rfl
    · have hkind' : t.unplaced.kind ≠ .newline := hkind
      rw [List.map_cons, eraseBreaks_cons hkind, eraseBreaks_cons hkind', List.map_cons, ih]
      rfl

end Settled

/-! ### Closed parentheses -/

/-- Phrases that close all their parentheses do so in a row as well. -/
theorem insideAll_flatMap {α : Type} {f : α → List Token} {items : List α}
    (h : ∀ item ∈ items, insideAll false (f item) = false) :
    insideAll false (items.flatMap f) = false := by
  induction items with
  | nil => rfl
  | cons item items ih =>
    rw [List.forall_mem_cons] at h
    rw [List.flatMap_cons, insideAll_append, h.1, ih h.2]

/-- A list of arguments closes the parenthesis that it opens. -/
theorem Argument.insideAll_listPhrase (arguments : List Argument) :
    insideAll false (Argument.listPhrase arguments) = false := by
  cases arguments with
  | nil => rfl
  | cons a rest =>
    rw [Argument.listPhrase, insideAll_append]
    rfl

/-- So no verb leaves a parenthesis open. -/
theorem Verb.insideAll_phrase (v : Verb) : insideAll false v.phrase = false := by
  cases v with
  | named name arguments location => exact Argument.insideAll_listPhrase arguments
  | filter pattern location => rfl

/-- A list of statements closes its parentheses if each statement does. -/
theorem Statement.insideAll_listPhrase {body : List Statement}
    (h : ∀ s ∈ body, insideAll false s.phrase = false) :
    insideAll false (Statement.listPhrase body) = false := by
  cases body with
  | nil => rfl
  | cons s rest =>
    rw [List.forall_mem_cons] at h
    rw [listPhrase, insideAll_append, h.1, tailPhrase_eq_flatMap]
    exact insideAll_flatMap h.2

/-- No statement leaves one open, however deep its scopes are. -/
theorem Statement.insideAll_phrase (s : Statement) : insideAll false s.phrase = false := by
  induction s using Statement.inductionOn with
  | plain verbs location => exact insideAll_flatMap fun v _ => v.insideAll_phrase
  | nested verbs body opened location ih =>
    have hverbs : insideAll false (verbs.flatMap Verb.phrase) = false :=
      insideAll_flatMap fun v _ => v.insideAll_phrase
    rw [phrase, insideAll_append, insideAll_append, hverbs, insideAll_cons]
    show insideAll (insideAll false (listPhrase body)) _ = false
    rw [insideAll_listPhrase ih]
    rfl

theorem Query.insideAll_phrase (q : Query) : insideAll false q.phrase = false :=
  Statement.insideAll_listPhrase fun s _ => s.insideAll_phrase

/-! ### Seams -/

/-- No token at the end of `chars` goes on with `rest`. -/
structure Seam (chars rest : List Char) : Prop where
  name : EndsName rest
  star : rest.head? ≠ some '*'
  whole : ¬ SplitsBreak chars rest

section Seams

variable {chars chars' rest rest' : List Char} {t : Token}

/-- Only the end of the left text matters to a seam. -/
theorem Seam.of_append (h : Seam (chars ++ chars') rest) : Seam chars' rest := by
  refine ⟨h.name, h.star, fun hsplit => h.whole ⟨?_, hsplit.2⟩⟩
  rw [List.getLast?_append, hsplit.1]
  rfl

/-- A token ends where it did if the text goes on behind a seam. -/
theorem Token.Lexeme.append (h : t.Lexeme rest) (hseam : Seam (t.written ++ rest) rest') :
    t.Lexeme (rest ++ rest') := by
  rcases rest with _ | ⟨first, rest⟩
  · refine ⟨h.spelled, h.kind_ne, ?_⟩
    rw [List.append_nil] at hseam
    obtain ⟨kind, value, location⟩ := t
    cases kind with
    | identifier => exact hseam.name
    | newline =>
      rintro rfl hfeed
      exact hseam.whole ⟨by simp [written], hfeed⟩
    | stray => exact fun _ => hseam.star
    | _ => trivial
  · exact h.congr rfl

/-- Two texts with a seam between them fall into the tokens of the one and of the other. -/
theorem Partition.append {pieces pieces' : List (List Char × Token)} {last last' : List Char}
    (h : Partition chars pieces last) (h' : Partition chars' pieces' last')
    (hseam : Seam chars chars') :
    ∃ pieces'' last'', Partition (chars ++ chars') pieces'' last'' ∧
      pieces''.map Prod.snd = pieces.map Prod.snd ++ pieces'.map Prod.snd := by
  induction h with
  | @gap gap hgap =>
    cases h' with
    | gap hgap' => exact ⟨[], _, .gap (hgap.append hgap'), rfl⟩
    | @token gap' rest _ t pieces hgap' hlexeme hrest =>
      -- the gaps at the seam become one
      refine ⟨(gap ++ gap', t) :: pieces, last', ?_, rfl⟩
      rw [← List.append_assoc]
      exact .token (hgap.append hgap') hlexeme hrest
  | @token gap rest _ t pieces hgap hlexeme _ ih =>
    -- the seam is further on, so the first piece stays what it was
    obtain ⟨pieces'', last'', hpartition, htokens⟩ := ih hseam.of_append.of_append
    refine ⟨(gap, t) :: pieces'', last'', ?_, by rw [List.map_cons, htokens]; rfl⟩
    rw [List.append_assoc, List.append_assoc]
    exact .token hgap (hlexeme.append hseam.of_append) hpartition

/-- Blanks and comments add no tokens. -/
theorem Lexes.trivia {ts : List Token} (hgap : IsTrivia chars) (h : Lexes rest ts) :
    Lexes (chars ++ rest) ts := by
  intro c hc
  obtain ⟨us, hfeeds, hus⟩ := h (c.skip chars.length) (by rw [Cursor.rest_skip, hc, List.drop_left])
  refine ⟨us, ?_, hus⟩
  -- they are passed by the step that gives the next token
  have hnext : TokenFeed.next c = TokenFeed.next (c.skip chars.length) :=
    Cursor.nextToken_of_trivia hgap hc
  cases hfeeds with
  | last hlast hkind => exact .last (hnext.trans hlast) hkind
  | more hmore hkind htail => exact .more (hnext.trans hmore) hkind htail

/-- The tokens of a partition are those of the text. -/
theorem Partition.lexes {pieces : List (List Char × Token)} {last : List Char}
    (h : Partition chars pieces last) :
    Lexes chars (pieces.map (fun piece => piece.2.unplaced) ++ [TokenKind.endOfInput.mark]) := by
  induction h with
  | gap hgap =>
    have hlexes := lexes_nil.trivia hgap
    rwa [List.append_nil] at hlexes
  | @token gap rest _ t pieces hgap hlexeme _ ih =>
    refine Lexes.trivia hgap (Lexes.cons hlexeme.kind_ne (fun c hc => ?_) ih)
    refine ⟨_, _, Cursor.nextToken_of_lexeme hlexeme hc, rfl, ?_⟩
    rw [Cursor.rest_skip, hc, List.drop_left]

end Seams

/-! ### What is left of the tokens of a text -/

/-- Of the tokens of the text the phrase is left once their line breaks are settled, and the
    parentheses are closed in it. -/
def Phrased (chars : List Char) (phrase : List Token) : Prop :=
  ∃ pieces last, Partition chars pieces last ∧
    insideAll false (pieces.map fun piece => piece.2.unplaced) = false ∧
    eraseBreaks false (pieces.map fun piece => piece.2.unplaced) = phrase

section Texts

variable {chars chars' : List Char} {phrase phrase' : List Token} {q : Query} {source : String}

/-- Texts with a seam between them are phrased as their parts are. -/
theorem Phrased.append (h : Phrased chars phrase) (h' : Phrased chars' phrase')
    (hseam : Seam chars chars') : Phrased (chars ++ chars') (phrase ++ phrase') := by
  obtain ⟨pieces, last, hpartition, hclosed, rfl⟩ := h
  obtain ⟨pieces', last', hpartition', hclosed', rfl⟩ := h'
  obtain ⟨pieces'', last'', hwhole, htokens⟩ := hpartition.append hpartition' hseam
  have hunplaced : pieces''.map (fun piece => piece.2.unplaced)
      = pieces.map (fun piece => piece.2.unplaced)
        ++ pieces'.map fun piece => piece.2.unplaced := by
    have hmap := congrArg (List.map Token.unplaced) htokens
    simpa [Function.comp_def] using hmap
  refine ⟨pieces'', last'', hwhole, ?_, ?_⟩
  · rw [hunplaced, insideAll_append, hclosed, hclosed']
  · rw [hunplaced, eraseBreaks_append hclosed]

/-- A token that ends whatever follows it comes in front of the phrase of a text. -/
theorem Phrased.cons {t mark : Token} (h : Phrased chars phrase) (ht : t.Lexeme chars)
    (hmark : eraseBreaks false [t.unplaced] = [mark])
    (houtside : t.kind.insideAfter false = false) :
    Phrased (t.written ++ chars) (mark :: phrase) := by
  obtain ⟨pieces, last, hpartition, hclosed, rfl⟩ := h
  have hone : insideAll false [t.unplaced] = false := houtside
  refine ⟨([], t) :: pieces, last, .token .nil ht hpartition, ?_, ?_⟩
  · rw [List.map_cons, insideAll_cons, Token.kind_unplaced, houtside, hclosed]
  · rw [List.map_cons, ← List.singleton_append, eraseBreaks_append hone, hmark]
    rfl

/-- A query is read from a text exactly if it can be written and is what is left of the text. -/
theorem gives_iff_phrased :
    Gives (Query.ofText source) q ↔ q.WellFormed ∧ Phrased source.toList q.phrase := by
  rw [ofText_gives_iff]
  refine and_congr_right fun _ => ⟨?_, ?_⟩
  · rintro ⟨ts, htokens, hphrase⟩
    obtain ⟨pieces, last, eof, hpartition, rfl, heof, -⟩ :=
      (feeds_iff_tokens.mpr htokens).partition
    have hunplaced : (pieces.map Prod.snd ++ [eof]).map Token.unplaced
        = (pieces.map fun piece => piece.2.unplaced) ++ [eof.unplaced] := by
      simp [Function.comp_def]
    rw [map_unplaced_eraseBreaks, hunplaced] at hphrase
    -- the parentheses of the tokens are those of the query
    have hclosed : insideAll false (pieces.map fun piece => piece.2.unplaced) = false := by
      have hinside := congrArg (insideAll false) hphrase
      rw [insideAll_eraseBreaks, insideAll_append, insideAll_append, q.insideAll_phrase] at hinside
      simpa [heof, TokenKind.insideAfter] using hinside
    have hend : eraseBreaks false [eof.unplaced] = [eof.unplaced] := by
      rw [eraseBreaks_cons (by simp [heof])]
      rfl
    rw [eraseBreaks_append hclosed, hend] at hphrase
    exact ⟨pieces, last, hpartition, hclosed, (List.append_inj' hphrase rfl).1⟩
  · rintro ⟨pieces, last, hpartition, hclosed, hphrase⟩
    -- a partition is lexed into its tokens, whose phrase is given
    obtain ⟨ts, hfeeds, hts⟩ := hpartition.lexes (Cursor.ofText source) rfl
    refine ⟨ts, feeds_iff_tokens.mp hfeeds, ?_⟩
    rw [map_unplaced_eraseBreaks, hts, eraseBreaks_append hclosed, hphrase]
    rfl

/-- What is read from a text is well-formed, and the text spells its phrase. -/
theorem phrased_of_ofText (h : Query.ofText source = .ok q) :
    q.WellFormed ∧ Phrased source.toList q.phrase :=
  gives_iff_phrased.mp ⟨q, h, (Query.agrees_iff q q).mpr rfl⟩

end Texts

/-! ### Queries put together -/

/-- The statements of one query and those of another one. -/
def Query.append (q q' : Query) : Query := ⟨q.statements ++ q'.statements, {}⟩

/-- Two lists of statements are divided by a semicolon like the members of one. -/
theorem Statement.listPhrase_append {body body' : List Statement} (h : body ≠ [])
    (h' : body' ≠ []) :
    listPhrase (body ++ body')
      = listPhrase body ++ TokenKind.semicolon.mark :: listPhrase body' := by
  obtain ⟨s, rest, rfl⟩ := List.exists_cons_of_ne_nil h
  obtain ⟨s', rest', rfl⟩ := List.exists_cons_of_ne_nil h'
  simp [listPhrase, tailPhrase_eq_flatMap]

/-- So the phrase of two queries in a row is their phrases with a semicolon between them. -/
theorem Query.WellFormed.append {q q' : Query} (h : q.WellFormed) (h' : q'.WellFormed) :
    (q.append q').WellFormed ∧
      (q.append q').phrase = q.phrase ++ TokenKind.semicolon.mark :: q'.phrase := by
  obtain ⟨hne, hfilled⟩ := Query.isFilled_iff.mp h.filled
  obtain ⟨hne', hfilled'⟩ := Query.isFilled_iff.mp h'.filled
  refine ⟨⟨?_, ?_⟩, Statement.listPhrase_append hne hne'⟩
  · rw [Query.isFilled_iff, Query.append, List.forall_mem_append]
    exact ⟨List.append_ne_nil_of_left_ne_nil hne _, hfilled, hfilled'⟩
  · have hspelled := h.spelled
    have hspelled' := h'.spelled
    unfold IsSpelled allVerbs at hspelled hspelled' ⊢
    rw [Query.append, Statement.allVerbsIn_eq_flatMap, List.flatMap_append,
      List.forall_mem_append, ← Statement.allVerbsIn_eq_flatMap, ← Statement.allVerbsIn_eq_flatMap]
    exact ⟨hspelled, hspelled'⟩

/-- The query of one statement, with the verbs and the scope given. -/
def Query.scoped (verbs : List Verb) (scope : Query) : Query :=
  ⟨[.ofParts verbs (some scope) {}], {}⟩

/-- A statement of verbs takes a query as its scope, whose phrase stands in braces behind that of
    the verbs. -/
theorem Query.WellFormed.scoped {q scope : Query} {verbs : List Verb} {l : Location}
    (h : q.WellFormed) (hq : q.statements = [.plain verbs l]) (hscope : scope.WellFormed) :
    (Query.scoped verbs scope).WellFormed ∧ (Query.scoped verbs scope).phrase
      = q.phrase ++ TokenKind.leftBrace.mark :: (scope.phrase ++ [TokenKind.rightBrace.mark]) := by
  refine ⟨⟨?_, ?_⟩, ?_⟩
  · rw [Query.isFilled_iff, Query.scoped, List.forall_mem_singleton]
    have hbody := Query.isFilled_iff.mp hscope.filled
    exact ⟨List.cons_ne_nil _ _, Statement.isFilled_nested.mpr hbody⟩
  · have hverbs := h.spelled
    have hspelled := hscope.spelled
    unfold IsSpelled allVerbs at hverbs hspelled ⊢
    rw [hq] at hverbs
    simp only [Query.scoped, Statement.ofParts, Statement.allVerbsIn, Statement.allVerbs,
      List.append_nil, List.forall_mem_append] at hverbs ⊢
    exact ⟨hverbs, hspelled⟩
  · simp [Query.phrase, Query.scoped, hq, Statement.ofParts, Statement.listPhrase,
      Statement.phrase, Statement.tailPhrase]

/-! ### Whole texts -/

section Glue

variable {chars rest : List Char} {phrase phrase' : List Token} {c : Char} {kind : TokenKind}

/-- No token goes on with a punctuation character. -/
theorem seam_of_punctuation (hc : TokenKind.ofPunctuation? c = some kind) (chars rest : List Char) :
    Seam chars (c :: rest) := by
  have hall : ∀ entry ∈ TokenKind.punctuation,
      isNameContinue entry.1 = false ∧ entry.1 ≠ '*' ∧ entry.1 ≠ '\n' := by decide +kernel
  obtain ⟨hname, hstar, hfeed⟩ := hall _ (TokenKind.mem_punctuation hc)
  refine ⟨endsName_cons hname, ?_, ?_⟩
  · exact fun h => hstar (Option.some.inj h)
  · exact fun hsplit => hfeed (Option.some.inj hsplit.2)

/-- Two texts with a punctuation character between them, which is no parenthesis. -/
theorem Phrased.punctuation (h : Phrased chars phrase) (h' : Phrased rest phrase')
    (hc : TokenKind.ofPunctuation? c = some kind) (houtside : kind.insideAfter false = false) :
    Phrased (chars ++ c :: rest) (phrase ++ kind.mark :: phrase') := by
  obtain ⟨hwritten, hlexeme⟩ := Token.lexeme_of_punctuation hc rest
  have hmark : (⟨kind, String.ofList [c], {}⟩ : Token) = kind.mark := by
    rw [TokenKind.mark, TokenKind.fixedText_of_punctuation hc]
    rfl
  have hall : ∀ entry ∈ TokenKind.punctuation, entry.2 ≠ .newline := by decide
  have hkind : kind ≠ .newline := hall _ (TokenKind.mem_punctuation hc)
  have hbehind := h'.cons hlexeme (eraseBreaks_cons hkind) houtside
  rw [hwritten] at hbehind
  refine h.append ?_ (seam_of_punctuation hc chars rest)
  rw [← hmark]
  exact hbehind

/-- Two texts with a line feed between them, which does not complete a line break of the first. -/
theorem Phrased.lineFeed (h : Phrased chars phrase) (h' : Phrased rest phrase')
    (hreturn : chars.getLast? ≠ some '\r') :
    Phrased (chars ++ '\n' :: rest) (phrase ++ TokenKind.semicolon.mark :: phrase') := by
  have hlexeme : (⟨.newline, "\n", {}⟩ : Token).Lexeme rest :=
    ⟨by simp [Token.IsSpelled], by simp, fun hcr => absurd hcr (by decide)⟩
  have hseam : Seam chars ('\n' :: rest) :=
    ⟨endsName_cons (by decide +kernel), by simp, fun hsplit => hreturn hsplit.1⟩
  exact h.append (h'.cons hlexeme rfl rfl) hseam

theorem phrased_nil : Phrased [] [] := ⟨[], [], .gap .nil, rfl, rfl⟩

end Glue

/-- **Texts of queries can be put together.**  The texts of two queries with a semicolon between
    them are read as the query that has the statements of both, and so they are with a line feed,
    unless that would complete a line break of the first text.  The text of a single statement
    without a scope, followed by the text of a query in braces, is read as that statement with that
    scope. -/
theorem ofText_compose {a b : String} {qa qb : Query} (ha : Query.ofText a = .ok qa)
    (hb : Query.ofText b = .ok qb) :
    Gives (Query.ofText (a ++ ";" ++ b)) (qa.append qb) ∧
    (a.toList.getLast? ≠ some '\r' → Gives (Query.ofText (a ++ "\n" ++ b)) (qa.append qb)) ∧
    ∀ verbs l, qa.statements = [.plain verbs l] →
      Gives (Query.ofText (a ++ "\x7b" ++ b ++ "\x7d")) (Query.scoped verbs qb) := by
  obtain ⟨hwell, hphrased⟩ := phrased_of_ofText ha
  obtain ⟨hwell', hphrased'⟩ := phrased_of_ofText hb
  -- each clause puts two phrases together, with tokens between them that do not cling
  obtain ⟨happend, hphrase⟩ := hwell.append hwell'
  refine ⟨?_, fun hreturn => ?_, fun verbs l hstatement => ?_⟩
  · have htext : (a ++ ";" ++ b).toList = a.toList ++ ';' :: b.toList := by simp
    rw [gives_iff_phrased, htext, hphrase]
    exact ⟨happend, hphrased.punctuation hphrased' rfl rfl⟩
  · have htext : (a ++ "\n" ++ b).toList = a.toList ++ '\n' :: b.toList := by simp
    rw [gives_iff_phrased, htext, hphrase]
    exact ⟨happend, hphrased.lineFeed hphrased' hreturn⟩
  · obtain ⟨hscoped, hnested⟩ := hwell.scoped hstatement hwell'
    have htext : (a ++ "\x7b" ++ b ++ "\x7d").toList
        = a.toList ++ '{' :: (b.toList ++ '}' :: []) := by simp
    rw [gives_iff_phrased, htext, hnested]
    have hbraced := hphrased'.punctuation (c := '}') phrased_nil rfl rfl
    exact ⟨hscoped, hphrased.punctuation hbraced rfl rfl⟩

/-- A name and a comment at the seam, an empty statement, and a scope. -/
theorem ofText_compose_of_name :
    ∃ qa qb verbs, Query.ofText "\"p\"@f" = .ok qa ∧ Query.ofText "/**/\n@g" = .ok qb ∧
      "\"p\"@f".toList.getLast? ≠ some '\r' ∧
      Gives (Query.ofText ("\"p\"@f" ++ ";" ++ "/**/\n@g")) (qa.append qb) ∧
      Gives (Query.ofText ("\"p\"@f" ++ "\n" ++ "/**/\n@g")) (qa.append qb) ∧
      Gives (Query.ofText ("\"p\"@f" ++ "\x7b" ++ "/**/\n@g" ++ "\x7d"))
        (Query.scoped verbs qb) := by
  obtain ⟨qa, ha⟩ : ∃ q, Query.ofText "\"p\"@f" = .ok q := exists_of_isOk (by decide +kernel)
  obtain ⟨qb, hb⟩ : ∃ q, Query.ofText "/**/\n@g" = .ok q := exists_of_isOk (by decide +kernel)
  have hreturn : "\"p\"@f".toList.getLast? ≠ some '\r' := by decide
  have hplain : ((Query.ofText "\"p\"@f").toOption.map fun q =>
      q.statements.map fun s => s.scope?.isNone) = some [true] := by decide +kernel
  rw [ha] at hplain
  have hscopes : (qa.statements.map fun s => s.scope?.isNone) = [true] := Option.some.inj hplain
  obtain ⟨s, hs, hnone⟩ := List.map_eq_singleton_iff.mp hscopes
  obtain ⟨hsemicolon, hfeed, hbraces⟩ := ofText_compose ha hb
  cases s with
  | plain verbs l =>
    exact ⟨qa, qb, verbs, ha, hb, hreturn, hsemicolon, hfeed hreturn, hbraces verbs l hs⟩
  | nested verbs body opened l => cases hnone

end ScopedQuery
