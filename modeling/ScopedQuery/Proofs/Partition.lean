import ScopedQuery.Proofs.Eager

namespace ScopedQuery

open Text Cursor

/-!
# A text is its tokens and the gaps between them

* `Partition` — characters as gaps and tokens in turn, the last gap behind the last token.
* `Partition.split` — a gap, a token and what follows it, at each place of a partition.
* `Partition.unique` — there is one partition at most.
* `Feeds.partition` — there is one if the tokens of a text are found, and these are its tokens.
* `tokens_partition` — both facts for whole texts.
-/

/-! ### What stands at the front of a text -/

section Front

variable {t t' : Token} {gap gap' rest rest' : List Char}

/-- Behind blanks and comments alone the end of the text is found. -/
theorem nextToken_of_gap {c : Cursor} (hgap : IsTrivia c.rest) :
    ∃ d, c.nextToken = (.ok ⟨.endOfInput, "EOF", (c.skip c.rest.length).location⟩, d) := by
  have hc : c.rest = c.rest ++ ((⟨.endOfInput, "EOF", {}⟩ : Token).written ++ []) := by
    simp [Token.written]
  exact ⟨_, nextToken_of_found hgap hc (.inr ⟨rfl, rfl, rfl⟩)⟩

namespace Token.Lexeme

/-- A text with a token is not a gap. -/
theorem not_trivia (h : t.Lexeme rest) (hgap : IsTrivia gap) :
    ¬ IsTrivia (gap ++ (t.written ++ rest)) := by
  intro htrivia
  let c := ofText (String.ofList (gap ++ (t.written ++ rest)))
  have hc : c.rest = gap ++ (t.written ++ rest) := by simp [c]
  have hfound := nextToken_of_found hgap hc (.inl h)
  obtain ⟨d, hend⟩ := nextToken_of_gap (hc ▸ htrivia)
  rw [hfound] at hend
  exact h.kind_ne (congrArg Token.kind (Except.ok.inj (Prod.mk.inj hend).1))

/-- A text has one first token: where it is found shows how long the gap before it is. -/
theorem unique (h : t.Lexeme rest) (hgap : IsTrivia gap) (h' : t'.Lexeme rest')
    (hgap' : IsTrivia gap') (hchars : gap ++ (t.written ++ rest) = gap' ++ (t'.written ++ rest')) :
    gap' = gap ∧ t'.unplaced = t.unplaced ∧ rest' = rest := by
  -- the scanner finds both tokens at the front of the same text, so they are one
  let c := ofText (String.ofList (gap ++ (t.written ++ rest)))
  have hc : c.rest = gap ++ (t.written ++ rest) := by simp [c]
  have hc' : c.rest = gap' ++ (t'.written ++ rest') := hc.trans hchars
  have hfound := nextToken_of_found hgap hc (.inl h)
  rw [nextToken_of_found hgap' hc' (.inl h')] at hfound
  obtain ⟨hkind, hvalue, hlocation⟩ := Token.mk.inj (Except.ok.inj (Prod.mk.inj hfound).1)
  have hwritten : t'.written = t.written := by rw [Token.written, Token.written, hkind, hvalue]
  have hlength : gap.length = gap'.length := by
    have hle : gap.length ≤ c.rest.length := by simp [hc]
    have hle' : gap'.length ≤ c.rest.length := by simp [hc']
    have hoffset : ((c.skip gap'.length).offset : Int) = (c.skip gap.length).offset :=
      congrArg Location.offset hlocation
    rw [offset_skip hle, offset_skip hle'] at hoffset
    omega
  obtain ⟨rfl, htail⟩ := List.append_inj hchars hlength
  rw [hwritten] at htail
  refine ⟨rfl, ?_, (List.append_cancel_left htail).symm⟩
  rw [Token.unplaced, Token.unplaced, hkind, hvalue]

end Token.Lexeme

end Front

/-! ### Gaps and tokens -/

/-- The characters are gaps of blanks and comments with one token behind each of them, and a last
    gap.  A token is one because of the characters behind it. -/
inductive Partition [NameTable] : List Char → List (List Char × Token) → List Char → Prop
  | gap {gap : List Char} : IsTrivia gap → Partition gap [] gap
  | token {gap rest last : List Char} {t : Token} {pieces : List (List Char × Token)} :
    IsTrivia gap → t.Lexeme rest → Partition rest pieces last →
    Partition (gap ++ (t.written ++ rest)) ((gap, t) :: pieces) last

/-- The characters of gaps and of the tokens behind them. -/
def spread (pieces : List (List Char × Token)) : List Char :=
  pieces.flatMap fun piece => piece.1 ++ piece.2.written

@[simp] theorem spread_cons (gap : List Char) (t : Token) (pieces : List (List Char × Token)) :
    spread ((gap, t) :: pieces) = gap ++ (t.written ++ spread pieces) := by
  simp [spread]

namespace Partition

variable {chars last last' : List Char} {pieces pieces' : List (List Char × Token)}

/-- The characters are those of the gaps and the tokens. -/
theorem eq_spread (h : Partition chars pieces last) : chars = spread pieces ++ last := by
  induction h with
  | gap _ => rfl
  | token _ _ _ ih => rw [spread_cons, List.append_assoc, List.append_assoc, ← ih]

theorem last_trivia (h : Partition chars pieces last) : IsTrivia last := by
  induction h with
  | gap hgap => exact hgap
  | token _ _ _ ih => exact ih

/-- In front of each token there is a gap, and the token ends before what follows it. -/
theorem split (h : Partition chars pieces last) {before after : List (List Char × Token)}
    {gap : List Char} {t : Token} (hsplit : pieces = before ++ (gap, t) :: after) :
    IsTrivia gap ∧ t.Lexeme (spread after ++ last) := by
  induction h generalizing before with
  | gap _ => simp at hsplit
  | token hgap hlexeme hrest ih =>
    cases before with
    | nil =>
      simp only [List.nil_append, List.cons.injEq, Prod.mk.injEq] at hsplit
      obtain ⟨⟨rfl, rfl⟩, rfl⟩ := hsplit
      exact ⟨hgap, hrest.eq_spread ▸ hlexeme⟩
    | cons piece before => exact ih (List.cons.inj hsplit).2

/-- There is one partition at most: at its front there is either a last gap or a token. -/
theorem unique (h : Partition chars pieces last) (h' : Partition chars pieces' last') :
    pieces'.map (fun piece => (piece.1, piece.2.unplaced))
      = pieces.map (fun piece => (piece.1, piece.2.unplaced)) ∧ last' = last := by
  induction h generalizing pieces' with
  | gap hgap =>
    cases h' with
    | gap _ => exact ⟨rfl, rfl⟩
    | token hgap' hlexeme' _ => exact absurd hgap (hlexeme'.not_trivia hgap')
  | @token gap rest _ t _ hgap hlexeme _ ih =>
    -- the characters are the same list, but the cases need them as an index
    generalize hchars : gap ++ (t.written ++ rest) = chars at h'
    cases h' with
    | gap hgap' => exact absurd (hchars ▸ hgap') (hlexeme.not_trivia hgap)
    | token hgap' hlexeme' hrest' =>
      obtain ⟨rfl, hunplaced, rfl⟩ := hlexeme.unique hgap hlexeme' hgap' hchars
      obtain ⟨hpieces, hlast⟩ := ih hrest'
      refine ⟨?_, hlast⟩
      rw [List.map_cons, List.map_cons, hpieces, hunplaced]

end Partition

/-! ### The tokens that a cursor feeds -/

namespace Feeds

variable {c : Cursor} {ts : List Token}

/-- Each token stands behind the tokens before it. -/
theorem sorted (h : Feeds c ts) :
    ts.Pairwise (fun t u => t.location.offset < u.location.offset) ∧
      ∀ t ∈ ts, (c.offset : Int) ≤ t.location.offset := by
  induction h with
  | @last c d t hnext hkind =>
    obtain ⟨k, hk, hle, -⟩ := offset_of_nextToken hnext
    refine ⟨List.pairwise_singleton _ t, ?_⟩
    rw [List.forall_mem_singleton]
    omega
  | @more c d t ts hnext hkind _ ih =>
    obtain ⟨k, hk, hle, hd⟩ := offset_of_nextToken hnext
    obtain ⟨hsorted, hbehind⟩ := ih
    -- the next token is behind all characters of this one, and there are some
    have hwritten : 0 < t.written.length := length_written_pos hnext hkind
    rw [List.pairwise_cons, List.forall_mem_cons]
    refine ⟨⟨fun u hu => ?_, hsorted⟩, by omega, fun u hu => ?_⟩
    · have := hbehind u hu
      omega
    · have := hbehind u hu
      omega

/-- Each token but the end of the input takes a character. -/
theorem length_le (h : Feeds c ts) : ts.length ≤ c.rest.length + 1 := by
  induction h with
  | last _ _ => simp
  | more hnext hkind _ ih =>
    have hlt := length_rest_nextToken_lt hnext hkind
    rw [List.length_cons]
    omega

/-- The tokens that are found are those of a partition, and they stand where it has them. -/
theorem partition (h : Feeds c ts) :
    ∃ (pieces : List (List Char × Token)) (last : List Char) (eof : Token),
      Partition c.rest pieces last ∧ ts = pieces.map Prod.snd ++ [eof] ∧ eof.kind = .endOfInput ∧
      eof.location.offset = c.offset + c.rest.length ∧
      ∀ (before after : List (List Char × Token)) (gap : List Char) (t : Token),
        pieces = before ++ (gap, t) :: after →
        t.location.offset = c.offset + (spread before ++ gap).length := by
  induction h with
  | @last c d t hnext hkind =>
    obtain ⟨gap, hgap, hlocation, -, hc, hlexeme | ⟨-, -, hd⟩⟩ := nextToken_eq_ok hnext
    -- at the end of the input the gap is all that is left
    · exact absurd hkind hlexeme.kind_ne
    have hrest : c.rest = gap := by simpa [Token.written, hkind, hd] using hc
    refine ⟨[], gap, t, by rw [hrest]; exact .gap hgap, rfl, hkind, ?_, by simp⟩
    rw [hlocation, location, offset_skip (by simp [hrest]), hrest]
    rfl
  | @more c d t ts hnext hkind _ ih =>
    obtain ⟨gap, hgap, hlocation, hd, hc, hlexeme | ⟨hend, -⟩⟩ := nextToken_eq_ok hnext
    case inr => exact absurd hend hkind
    obtain ⟨pieces, last, eof, hpartition, rfl, heof, hoffset, hplaces⟩ := ih
    have hplace : t.location.offset = c.offset + gap.length := by
      rw [hlocation, location, offset_skip (by simp [hc])]
      rfl
    have hdoffset : (d.offset : Int) = c.offset + gap.length + t.written.length := by
      rw [hd, ← skip_add, offset_skip (by simp [hc])]
      omega
    refine ⟨(gap, t) :: pieces, last, eof, hc ▸ .token hgap hlexeme hpartition, rfl, heof, ?_, ?_⟩
    · rw [hoffset, hdoffset, hc]
      simp only [List.length_append]
      omega
    · intro before after gap' t' hsplit
      -- the first piece is the one that was found; all others are counted from behind it
      cases before with
      | nil =>
        simp only [List.nil_append, List.cons.injEq, Prod.mk.injEq] at hsplit
        obtain ⟨⟨rfl, rfl⟩, rfl⟩ := hsplit
        exact hplace
      | cons piece before =>
        obtain ⟨rfl, hbehind⟩ := List.cons.inj hsplit
        rw [hplaces before after gap' t' hbehind, hdoffset, spread_cons]
        simp only [List.length_append]
        omega

end Feeds

/-- **A text is its tokens and the gaps between them.**  Where the tokens of a text are found, the
    text is a gap and a token in turn and a last gap, in one way only.  Each gap consists of blanks
    and comments, each token starts where its characters do and ends as what follows it demands,
    and the end of the input stands behind the last character.  Tokens have characters, so their
    offsets increase, and there is at most one token more than there are characters. -/
theorem tokens_partition {source : String} {ts : List Token}
    (h : (Cursor.ofText source).tokens.1 = .ok ts) :
    ∃ (pieces : List (List Char × Token)) (last : List Char) (eof : Token),
      ts = pieces.map Prod.snd ++ [eof] ∧
      eof.kind = .endOfInput ∧ eof.location.offset = source.length ∧
      source.toList = spread pieces ++ last ∧ IsTrivia last ∧
      (∀ (before after : List (List Char × Token)) (gap : List Char) (t : Token),
        pieces = before ++ (gap, t) :: after →
        IsTrivia gap ∧ t.written ≠ [] ∧ t.location.offset = (spread before ++ gap).length ∧
        t.Lexeme (spread after ++ last) ∧
        (t.kind.fixedText?.isSome = true →
          ∃ c, t.value = String.ofList [c] ∧ TokenKind.ofPunctuation? c = some t.kind)) ∧
      (∀ pieces' last', Partition source.toList pieces' last' →
        pieces'.map (fun piece => (piece.1, piece.2.unplaced))
          = pieces.map (fun piece => (piece.1, piece.2.unplaced)) ∧ last' = last) ∧
      ts.Pairwise (fun t u => t.location.offset < u.location.offset) ∧
      ts.length ≤ source.length + 1 := by
  have hfeeds : Feeds (Cursor.ofText source) ts := feeds_iff_tokens.mpr h
  obtain ⟨pieces, last, eof, hpartition, hts, heof, hoffset, hplaces⟩ := hfeeds.partition
  refine ⟨pieces, last, eof, hts, heof, ?_, hpartition.eq_spread, hpartition.last_trivia, ?_,
    fun pieces' last' h' => hpartition.unique h', hfeeds.sorted.1, hfeeds.length_le⟩
  · rw [hoffset, ← String.length_toList]
    simp [Cursor.ofText]
  · intro before after gap t hsplit
    obtain ⟨hgap, hlexeme⟩ := hpartition.split hsplit
    refine ⟨hgap, written_ne_nil hlexeme, ?_, hlexeme, fun hfixed => ?_⟩
    · simpa [Cursor.ofText] using hplaces before after gap t hsplit
    · -- a kind with one text is that of a punctuation character
      obtain ⟨c, hc, hvalue⟩ :=
        TokenKind.exists_punctuation (hlexeme.spelled.fixedText hfixed) hlexeme.kind_ne
      exact ⟨c, hvalue, hc⟩

/-- A gap with a comment, a line break of two characters, and tokens with nothing between them. -/
theorem tokens_partition_of_comment :
    ∃ ts pieces last, (Cursor.ofText "\t/* @ */f\r\n\"(\"#").tokens.1 = .ok ts ∧
      ts.map Token.kind = [.identifier, .newline, .string, .stray, .endOfInput] ∧
      "\t/* @ */f\r\n\"(\"#".toList = spread pieces ++ last ∧ pieces.length = 4 ∧
      ∀ piece ∈ pieces, IsTrivia piece.1 ∧ piece.2.written ≠ [] := by
  obtain ⟨ts, hts⟩ : ∃ ts, (Cursor.ofText "\t/* @ */f\r\n\"(\"#").tokens.1 = .ok ts :=
    exists_of_isOk (by decide +kernel)
  have hkinds : ((Cursor.ofText "\t/* @ */f\r\n\"(\"#").tokens.1.toOption.map
      fun ts => ts.map Token.kind)
      = some [.identifier, .newline, .string, .stray, .endOfInput] := by decide +kernel
  rw [hts] at hkinds
  have hkinds' := Option.some.inj hkinds
  obtain ⟨pieces, last, eof, hpieces, -, -, hspread, -, hsplit, -⟩ := tokens_partition hts
  refine ⟨ts, pieces, last, hts, hkinds', hspread, ?_, fun piece hpiece => ?_⟩
  · have hlength := congrArg List.length hkinds'
    simpa [hpieces] using hlength
  · obtain ⟨before, after, rfl⟩ := List.append_of_mem hpiece
    have hfound := hsplit before after piece.1 piece.2 rfl
    exact ⟨hfound.1, hfound.2.1⟩

end ScopedQuery
