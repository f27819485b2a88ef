import ScopedQuery.Proofs.Complete
import ScopedQuery.Proofs.Scanned

namespace ScopedQuery

/-!
# What is read is the grammar

* `Gives` — an outcome of reading is a query of the given content.
* `gives_iff_feeds` — a query is read from a feed exactly if its phrase is what the feed gives, once
  the line breaks are settled.
* `gives_iff_of_isSpelled` — the same for feeds of spelled tokens, whose phrases are read off token
  by token.
* `ofText_gives_iff` — the same for texts, and `gives_iff_phrase` for lists of tokens as well.
-/

/-- The query that tokens spell. -/
def Query.ofTokens (ts : List Token) : Except (Failure Exhausted) Query :=
  ((Step.query : Step TokenList Exhausted Query) { feed := { tokens := ts } }).1

/-- The outcome is a query that says the same as `q`. -/
def Gives {ε : Type} (out : Except ε Query) (q : Query) : Prop :=
  ∃ q', out = .ok q' ∧ q'.agrees q = true

/-- What is decided to succeed has a value. -/
theorem exists_of_isOk {ε α : Type} {out : Except ε α} (h : out.isOk = true) :
    ∃ a, out = .ok a := by
  cases out with
  | error e => cases h
  | ok a => exact ⟨a, rfl⟩

/-! ### Settled line breaks -/

/-- Settling the line breaks leaves tokens spelled. -/
theorem isSpelled_eraseBreaks {inside : Bool} {ts : List Token} (h : ∀ t ∈ ts, t.IsSpelled) :
    ∀ t ∈ eraseBreaks inside ts, t.IsSpelled := by
  induction ts generalizing inside with
  | nil => simp [eraseBreaks]
  | cons u ts ih =>
    rw [List.forall_mem_cons] at h
    by_cases hkind : u.kind = .newline
    · rw [eraseBreaks, if_pos hkind]
      -- a line break is left out, or it becomes a semicolon
      split
      · exact ih h.2
      · exact List.forall_mem_cons.mpr ⟨Token.isSpelled_of_fixedText rfl, ih h.2⟩
    · rw [eraseBreaks_cons hkind]
      exact List.forall_mem_cons.mpr ⟨h.1, ih h.2⟩

/-- A spelled token is all that the grammar sees of it, but for its place. -/
theorem map_terminal_eraseBreaks {inside : Bool} {ts : List Token} (h : ∀ t ∈ ts, t.IsSpelled) :
    (eraseBreaks inside ts).map Token.terminal = (eraseBreaks inside ts).map Token.unplaced :=
  List.map_congr_left fun t ht => Token.terminal_eq_unplaced (isSpelled_eraseBreaks h t ht)

/-- Spelled tokens make phrases of spelled queries only. -/
theorem Query.isSpelled_of_phrase {q : Query} {inside : Bool} {ts rest : List Token}
    (h : ∀ t ∈ ts, t.IsSpelled)
    (hphrase : (eraseBreaks inside ts).map Token.unplaced = q.phrase ++ rest) : q.IsSpelled := by
  rw [Query.isSpelled_iff]
  intro t ht
  have hmem : t ∈ (eraseBreaks inside ts).map Token.unplaced := by
    rw [hphrase]
    exact List.mem_append_left rest ht
  obtain ⟨u, hu, rfl⟩ := List.mem_map.mp hmem
  exact isSpelled_eraseBreaks h u hu

/-! ### Feeds -/

section Feeds

variable {σ ε : Type} [TokenFeed σ ε]

/-- A reader that has not looked at anything offers what its feed gives. -/
theorem shows_iff_feeds {s : σ} {phrase : List Token} :
    ({ feed := s } : Reader σ).Shows false phrase ↔
      ∃ ts, Feeds s ts ∧ (eraseBreaks false ts).map Token.terminal = phrase := by
  simp [Reader.Shows, Reader.Offers]

/-- A query is read exactly if it is filled and the feed gives its phrase. -/
theorem gives_iff_feeds {s : σ} {q : Query} :
    Gives ((Step.query : Step σ ε Query) { feed := s }).1 q ↔
      q.IsFilled ∧ ∃ ts, Feeds s ts ∧
        (eraseBreaks false ts).map Token.terminal = q.phrase ++ [TokenKind.endOfInput.mark] := by
  constructor
  · rintro ⟨q', hread, hagrees⟩
    rw [Query.agrees_iff] at hagrees
    have hquery : (Step.query : Step σ ε Query) { feed := s } = (.ok q', (Step.query _).2) :=
      Prod.ext hread rfl
    obtain ⟨hfilled, hshows⟩ := Step.shows_of_query hquery
    -- neither being filled nor the phrase depends on places
    rw [← Query.isFilled_unplaced, hagrees, Query.isFilled_unplaced] at hfilled
    rw [← Query.phrase_unplaced, hagrees, Query.phrase_unplaced] at hshows
    exact ⟨hfilled, shows_iff_feeds.mp hshows⟩
  · rintro ⟨hfilled, hfeeds⟩
    obtain ⟨q', r', hread, hunplaced⟩ :=
      Step.query_of_shows hfilled (shows_iff_feeds.mpr hfeeds)
    exact ⟨q', by rw [hread], (Query.agrees_iff q' q).mpr hunplaced⟩

/-- From spelled tokens, a query is read exactly if it can be written and the feed gives its
    phrase. -/
theorem gives_iff_of_isSpelled {s : σ} {q : Query}
    (hspelled : ∀ ts, Feeds s ts → ∀ t ∈ ts, t.IsSpelled) :
    Gives ((Step.query : Step σ ε Query) { feed := s }).1 q ↔
      q.WellFormed ∧ ∃ ts, Feeds s ts ∧
        (eraseBreaks false ts).map Token.unplaced = q.phrase ++ [TokenKind.endOfInput.mark] := by
  rw [gives_iff_feeds]
  constructor
  · rintro ⟨hfilled, ts, hfeeds, hphrase⟩
    rw [map_terminal_eraseBreaks (hspelled ts hfeeds)] at hphrase
    exact ⟨⟨hfilled, Query.isSpelled_of_phrase (hspelled ts hfeeds) hphrase⟩, ts, hfeeds, hphrase⟩
  · rintro ⟨hwell, ts, hfeeds, hphrase⟩
    rw [← map_terminal_eraseBreaks (hspelled ts hfeeds)] at hphrase
    exact ⟨hwell.filled, ts, hfeeds, hphrase⟩

end Feeds

/-! ### Lists of tokens and texts -/

/-- A query is read from a text exactly if it can be written and its phrase is that of the text. -/
theorem ofText_gives_iff {source : String} {q : Query} :
    Gives (Query.ofText source) q ↔ q.WellFormed ∧ ∃ ts, (Cursor.ofText source).tokens.1 = .ok ts ∧
      (eraseBreaks false ts).map Token.unplaced = q.phrase ++ [TokenKind.endOfInput.mark] := by
  simp only [← feeds_iff_tokens]
  exact gives_iff_of_isSpelled fun ts hts => hts.isSpelled

/-- A query that was read from a text can be written, and its phrase is that of the text. -/
theorem phrase_of_ofText {source : String} {q : Query} (h : Query.ofText source = .ok q) :
    q.WellFormed ∧ ∃ ts, (Cursor.ofText source).tokens.1 = .ok ts ∧
      (eraseBreaks false ts).map Token.unplaced = q.phrase ++ [TokenKind.endOfInput.mark] :=
  ofText_gives_iff.mp ⟨q, h, (Query.agrees_iff q q).mpr rfl⟩

/-- **The grammar is what is read.**  A list of tokens that ends with its only end of the input is
    read as a query exactly if the query is filled and its phrase is left of the tokens once their
    line breaks are settled; of spelled tokens, as they are found in texts, no other queries than
    those that can be written are read.  The same holds of every text, and two texts that are read
    have agreeing queries exactly if the same tokens are left of them. -/
theorem gives_iff_phrase :
    (∀ ts : List Token, EndsOnce ts → ∀ q : Query,
      (Gives (Query.ofTokens ts) q ↔ q.IsFilled ∧
        (eraseBreaks false ts).map Token.terminal = q.phrase ++ [TokenKind.endOfInput.mark]) ∧
      ((∀ t ∈ ts, t.IsSpelled) → (Gives (Query.ofTokens ts) q ↔ q.WellFormed ∧
        (eraseBreaks false ts).map Token.unplaced = q.phrase ++ [TokenKind.endOfInput.mark]))) ∧
    (∀ (source : String) (q : Query), Gives (Query.ofText source) q ↔ q.WellFormed ∧
      ∃ ts, (Cursor.ofText source).tokens.1 = .ok ts ∧
        (eraseBreaks false ts).map Token.unplaced = q.phrase ++ [TokenKind.endOfInput.mark]) ∧
    (∀ (source₁ source₂ : String) (q₁ q₂ : Query), Query.ofText source₁ = .ok q₁ →
      Query.ofText source₂ = .ok q₂ →
      ∃ ts₁ ts₂, (Cursor.ofText source₁).tokens.1 = .ok ts₁ ∧
        (Cursor.ofText source₂).tokens.1 = .ok ts₂ ∧
        (q₁.agrees q₂ = true ↔ (eraseBreaks false ts₁).map Token.unplaced
          = (eraseBreaks false ts₂).map Token.unplaced)) := by
  refine ⟨fun ts hends q => ⟨?_, fun hspelled => ?_⟩, fun source q => ofText_gives_iff, ?_⟩
  · have hfeeds := gives_iff_feeds (s := (⟨ts, ""⟩ : TokenList)) (q := q)
    simp only [feeds_iff_eq_of_endsOnce hends, exists_eq_left] at hfeeds
    exact hfeeds
  · have hfeeds := gives_iff_of_isSpelled (s := (⟨ts, ""⟩ : TokenList)) (q := q)
    simp only [feeds_iff_eq_of_endsOnce hends, forall_eq, exists_eq_left] at hfeeds
    exact hfeeds hspelled
  · intro source₁ source₂ q₁ q₂ hq₁ hq₂
    obtain ⟨hwell₁, ts₁, hts₁, hphrase₁⟩ := phrase_of_ofText hq₁
    obtain ⟨hwell₂, ts₂, hts₂, hphrase₂⟩ := phrase_of_ofText hq₂
    refine ⟨ts₁, ts₂, hts₁, hts₂, ?_⟩
    constructor
    · intro hagrees
      -- both texts have the phrase of their queries
      rw [Query.agrees_iff] at hagrees
      rw [hphrase₁, hphrase₂, ← q₁.phrase_unplaced, hagrees, Query.phrase_unplaced]
    · intro herased
      -- the second text has the phrase of the first query, so that query is read from it
      obtain ⟨q', hq', hagrees⟩ :=
        ofText_gives_iff.mpr ⟨hwell₁, ts₂, hts₂, herased.symm.trans hphrase₁⟩
      obtain rfl := Except.ok.inj (hq₂.symm.trans hq')
      rw [Query.agrees_iff] at hagrees ⊢
      exact hagrees.symm

/-- A line break in an argument list means nothing, and one between two verbs ends a statement. -/
theorem gives_iff_phrase_of_breaks :
    let ts : List Token := [TokenKind.atSign.mark, ⟨.identifier, "f", {}⟩, TokenKind.leftParen.mark,
      ⟨.newline, "\n", {}⟩, ⟨.identifier, "x", {}⟩, TokenKind.equals.mark, ⟨.string, "y", {}⟩,
      TokenKind.rightParen.mark, ⟨.newline, "\r\n", {}⟩, ⟨.string, "z", {}⟩,
      TokenKind.endOfInput.mark]
    let q : Query := ⟨[.plain [.named "f" [⟨"x", "y", {}⟩] {}] {}, .plain [.filter "z" {}] {}], {}⟩
    EndsOnce ts ∧ (∀ t ∈ ts, t.IsSpelled) ∧ Gives (Query.ofTokens ts) q ∧
      ∃ q₁ q₂, Query.ofText "@f(\nx=\"y\")\r\n\"z\"" = .ok q₁ ∧
        Query.ofText "@f ( x=\"y\" /* y */); \"z\"" = .ok q₂ ∧ q₁.agrees q₂ = true := by
  intro ts q
  have hends : EndsOnce ts := ⟨ts.dropLast, TokenKind.endOfInput.mark, rfl, rfl, by decide⟩
  have hspelled : ∀ t ∈ ts, t.IsSpelled := by
    simp only [ts, List.forall_mem_cons, TokenKind.isSpelled_mark, List.not_mem_nil,
      false_imp_iff, implies_true]
    simp only [Token.IsSpelled, TokenKind.fixedText?]
    decide
  have hphrase : (eraseBreaks false ts).map Token.unplaced
      = q.phrase ++ [TokenKind.endOfInput.mark] := by decide
  have hread := (gives_iff_phrase.1 ts hends q).2 hspelled
  refine ⟨hends, hspelled, hread.mpr ⟨⟨by decide, by decide⟩, hphrase⟩, ?_⟩
  obtain ⟨q₁, hq₁⟩ : ∃ q, Query.ofText "@f(\nx=\"y\")\r\n\"z\"" = .ok q :=
    exists_of_isOk (by decide +kernel)
  obtain ⟨q₂, hq₂⟩ : ∃ q, Query.ofText "@f ( x=\"y\" /* y */); \"z\"" = .ok q :=
    exists_of_isOk (by decide +kernel)
  obtain ⟨ts₁, ts₂, hts₁, hts₂, hagrees⟩ := gives_iff_phrase.2.2 _ _ q₁ q₂ hq₁ hq₂
  refine ⟨q₁, q₂, hq₁, hq₂, hagrees.mpr ?_⟩
  have herased : ((Cursor.ofText "@f(\nx=\"y\")\r\n\"z\"").tokens.1.toOption.map fun ts =>
        (eraseBreaks false ts).map Token.unplaced)
      = (Cursor.ofText "@f ( x=\"y\" /* y */); \"z\"").tokens.1.toOption.map fun ts =>
        (eraseBreaks false ts).map Token.unplaced := by decide +kernel
  rw [hts₁, hts₂] at herased
  exact Option.some.inj herased

end ScopedQuery
