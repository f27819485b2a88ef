import ScopedQuery.Proofs.Scanned

namespace ScopedQuery

open Text

/-!
# Texts that spell tokens

* `Lexes` — what the tokens of a text are, wherever the text stands.
* `Cursor.nextToken_of_blank`, `Cursor.nextToken_of_name`, `Cursor.nextToken_of_string`,
  `Cursor.nextToken_of_punctuation` — the token that comes next.
* `Spells`, `SpellsAlone` — a text adds its tokens to those of the text behind it: as long as that
  one does not go on with a name, or in any case.
* `Spells.append`, `spells_intercalate` and their like — such texts put together.
-/

/-- The tokens of the characters, without their places, wherever the characters stand. -/
def Lexes (chars : List Char) (ts : List Token) : Prop :=
  ∀ c : Cursor, c.rest = chars → ∃ us, Feeds c us ∧ us.map Token.unplaced = ts

/-- A name cannot go on with these characters. -/
def EndsName [NameTable] (chars : List Char) : Prop := ∀ c ∈ chars.head?, isNameContinue c = false

theorem endsName_nil [NameTable] : EndsName [] := by
  simp [EndsName]

theorem endsName_cons [NameTable] {c : Char} {tail : List Char} (h : isNameContinue c = false) :
    EndsName (c :: tail) := by
  simpa [EndsName] using h

/-- Only the first character of what follows a name matters to it. -/
theorem EndsName.append [NameTable] {chars rest : List Char} (h : EndsName chars)
    (hrest : EndsName rest) : EndsName (chars ++ rest) := by
  cases chars with
  | nil => exact hrest
  | cons c tail => exact h

/-- What is taken goes up to the first character that is not to be taken. -/
theorem takeWhile_append_eq {p : Char → Bool} {chars rest : List Char}
    (hchars : ∀ c ∈ chars, p c = true) (hrest : ∀ c ∈ rest.head?, p c = false) :
    (chars ++ rest).takeWhile p = chars := by
  rw [List.takeWhile_append_of_pos hchars]
  cases rest with
  | nil => simp
  | cons c rest => simp [hrest c rfl]

namespace Cursor

variable {c : Cursor} {first : Char} {rest : List Char}

/-! ### In front of a token -/

/-- At the end of the text there is nothing to pass. -/
theorem skipTrivia_of_nil (hc : c.rest = []) : c.skipTrivia = (.ok (), c) := by
  rw [skipTrivia]
  split
  · rfl
  case h_2 char tail hcons =>
    rw [hc] at hcons
    cases hcons

/-- A blank is passed. -/
theorem skipTrivia_of_blank (hc : c.rest = first :: rest) (hblank : isBlank first = true) :
    c.skipTrivia = c.bump.skipTrivia := by
  rw [skipTrivia]
  split
  case h_1 hnil =>
    rw [hc] at hnil
    cases hnil
  case h_2 char tail hcons =>
    obtain ⟨rfl, rfl⟩ := List.cons.inj (hc.symm.trans hcons)
    rw [if_pos hblank]

/-- A character that neither is a blank nor opens a comment is not passed. -/
theorem skipTrivia_of_start (hc : c.rest = first :: rest) (hblank : isBlank first = false)
    (hslash : first ≠ '/') : c.skipTrivia = (.ok (), c) := by
  have hopen : c.startsWith commentOpen = false := by
    have hprefix : ('/' == first) = false := beq_false_of_ne hslash.symm
    simp [startsWith, commentOpen, hc, List.isPrefixOf, hprefix]
  rw [skipTrivia]
  split
  · rfl
  case h_2 char tail hcons =>
    obtain ⟨rfl, rfl⟩ := List.cons.inj (hc.symm.trans hcons)
    rw [if_neg (by simp [hblank]), if_neg (by simp [hopen])]

/-- So the token behind a blank is the next one. -/
theorem nextToken_of_blank [NameTable] (hc : c.rest = first :: rest)
    (hblank : isBlank first = true) : c.nextToken = c.bump.nextToken := by
  rw [nextToken, skipTrivia_of_blank hc hblank, nextToken]

/-- The token at any other character starts there. -/
theorem nextToken_of_start [NameTable] (hc : c.rest = first :: rest)
    (hblank : isBlank first = false) (hslash : first ≠ '/') :
    c.nextToken = c.scanToken first := by
  rw [nextToken, skipTrivia_of_start hc hblank hslash]
  simp only [hc]

/-! ### Tokens -/

section Tokens

variable [NameTable]

/-- A letter neither is a blank nor opens a comment or a line break. -/
theorem start_of_isNameStart {first : Char} (h : isNameStart first = true) :
    isBlank first = false ∧ first ≠ '/' ∧ ¬(first = '\r' ∨ first = '\n') := by
  have hnot : ∀ divider ∈ dividers, first ≠ divider := by
    rintro divider hdivider rfl
    exact absurd h (by simp [isNameStart_of_divider hdivider])
  simp only [dividers, List.forall_mem_cons] at hnot
  simp [isBlank, blanks, hnot]

/-- A name is found as a whole where nothing follows that continues it. -/
theorem nextToken_of_name {name : List Char} (hname : isName name = true) (hrest : EndsName rest)
    (hc : c.rest = name ++ rest) :
    ∃ d, c.nextToken = (.ok ⟨.identifier, String.ofList name, c.location⟩, d) ∧ d.rest = rest := by
  cases name with
  | nil => cases hname
  | cons first tail =>
    simp only [isName, Bool.and_eq_true] at hname
    obtain ⟨hblank, hslash, hbreak⟩ := start_of_isNameStart hname.1
    -- the name is taken as a whole, and nothing of what follows it
    have htake : (tail ++ rest).takeWhile isNameContinue = tail :=
      takeWhile_append_eq (List.all_eq_true.mp hname.2) hrest
    refine ⟨c.skip (first :: tail).length, ?_, by simp [hc]⟩
    rw [nextToken_of_start hc hblank hslash, scanToken, if_neg hbreak, if_pos hname.1, scanName]
    simp only [hc, List.cons_append, hname.1, if_true, htake]

/-- A string is found up to the next quote, whatever stands behind that. -/
theorem nextToken_of_string {value : List Char} (hvalue : '"' ∉ value)
    (hc : c.rest = '"' :: (value ++ '"' :: rest)) :
    ∃ d, c.nextToken = (.ok ⟨.string, String.ofList value, c.location⟩, d) ∧ d.rest = rest := by
  have htake : (value ++ '"' :: rest).takeWhile (· != '"') = value := by
    apply takeWhile_append_eq
    · intro ch hch
      have hne : ch ≠ '"' := fun heq => hvalue (heq ▸ hch)
      simpa using hne
    · simp
  have hstart : isNameStart '"' = false := isNameStart_of_divider (by decide)
  refine ⟨(c.bump.skip value.length).bump, ?_, by simp [hc]⟩
  rw [nextToken_of_start hc (by decide) (by decide), scanToken, if_neg (by decide),
    if_neg (by simp [hstart]), if_pos rfl, scanStringBody]
  simp [hc, htake]

/-- A punctuation character is found as a token by itself. -/
theorem nextToken_of_punctuation {kind : TokenKind}
    (hkind : TokenKind.ofPunctuation? first = some kind) (hc : c.rest = first :: rest) :
    c.nextToken = (.ok ⟨kind, String.ofList [first], c.location⟩, c.bump) := by
  have hall : ∀ entry ∈ TokenKind.punctuation, isBlank entry.1 = false ∧ entry.1 ≠ '/' ∧
      ¬(entry.1 = '\r' ∨ entry.1 = '\n') ∧ entry.1 ∈ dividers ∧ entry.1 ≠ '"' := by
    decide
  obtain ⟨hblank, hslash, hbreak, hdivider, hquote⟩ := hall _ (TokenKind.mem_punctuation hkind)
  have hstart : isNameStart first = false := isNameStart_of_divider hdivider
  rw [nextToken_of_start hc hblank hslash, scanToken, if_neg hbreak, if_neg (by simp [hstart]),
    if_neg hquote, hkind]
  rfl

end Tokens

end Cursor

/-! ### Texts -/

/-- An empty text has the end of the input as its only token. -/
theorem lexes_nil : Lexes [] [TokenKind.endOfInput.mark] := by
  intro c hc
  have hnext : TokenFeed.next c = (.ok ⟨.endOfInput, "EOF", c.location⟩, c) := by
    show c.nextToken = _
    rw [Cursor.nextToken, Cursor.skipTrivia_of_nil hc]
    simp only [hc]
  exact ⟨_, .last hnext rfl, rfl⟩

/-- A token that comes next stands before those of the rest. -/
theorem Lexes.cons {chars rest : List Char} {t : Token} {ts : List Token}
    (hkind : t.kind ≠ .endOfInput)
    (hnext : ∀ c : Cursor, c.rest = chars →
      ∃ u d, c.nextToken = (.ok u, d) ∧ u.unplaced = t ∧ d.rest = rest)
    (h : Lexes rest ts) : Lexes chars (t :: ts) := by
  intro c hc
  obtain ⟨u, d, hu, rfl, hd⟩ := hnext c hc
  obtain ⟨us, hfeeds, rfl⟩ := h d hd
  exact ⟨u :: us, .more hu hkind hfeeds, rfl⟩

/-- A blank in front of a text changes nothing but places. -/
theorem Lexes.blank {rest : List Char} {ts : List Token} {first : Char}
    (hblank : Cursor.isBlank first = true) (h : Lexes rest ts) : Lexes (first :: rest) ts := by
  intro c hc
  obtain ⟨us, hfeeds, hus⟩ := h c.bump (by rw [Cursor.rest_bump, hc]; rfl)
  refine ⟨us, ?_, hus⟩
  -- the blank is passed by the step that gives the next token
  have hnext : TokenFeed.next c = TokenFeed.next c.bump := Cursor.nextToken_of_blank hc hblank
  cases hfeeds with
  | last hlast hkind => exact .last (hnext.trans hlast) hkind
  | more hmore hkind htail => exact .more (hnext.trans hmore) hkind htail

/-! ### Texts in front of others -/

/-- The text adds the tokens of the phrase to those of the text behind it, unless that one goes on
    with a name. -/
def Spells (chars : List Char) (phrase : List Token) : Prop :=
  ∀ rest ts, EndsName rest → Lexes rest ts → Lexes (chars ++ rest) (phrase ++ ts)

/-- The text adds the tokens of the phrase to those of any text behind it. -/
def SpellsAlone (chars : List Char) (phrase : List Token) : Prop :=
  ∀ rest ts, Lexes rest ts → Lexes (chars ++ rest) (phrase ++ ts)

section Texts

variable {chars chars' : List Char} {phrase phrase' : List Token}

/-- What adds its tokens in any case adds them in front of what ends a name. -/
theorem SpellsAlone.spells (h : SpellsAlone chars phrase) : Spells chars phrase :=
  fun rest ts _ hlexes => h rest ts hlexes

/-- Two texts that stand alone do so together. -/
theorem SpellsAlone.append (h : SpellsAlone chars phrase) (h' : SpellsAlone chars' phrase') :
    SpellsAlone (chars ++ chars') (phrase ++ phrase') := by
  intro rest ts hlexes
  rw [List.append_assoc, List.append_assoc]
  exact h _ _ (h' rest ts hlexes)

/-- Behind a text that stands alone nothing has to be minded. -/
theorem SpellsAlone.append_spells (h : SpellsAlone chars phrase) (h' : Spells chars' phrase') :
    Spells (chars ++ chars') (phrase ++ phrase') := by
  intro rest ts hrest hlexes
  rw [List.append_assoc, List.append_assoc]
  exact h _ _ (h' rest ts hrest hlexes)

/-- Two texts spell their tokens together if the second one does not go on with a name. -/
theorem Spells.append (h : Spells chars phrase) (h' : Spells chars' phrase')
    (hends : EndsName chars') : Spells (chars ++ chars') (phrase ++ phrase') := by
  intro rest ts hrest hlexes
  rw [List.append_assoc, List.append_assoc]
  exact h _ _ (hends.append hrest) (h' rest ts hrest hlexes)

/-- A text that no name can go on with puts an end to the name before it. -/
theorem Spells.append_alone (h : Spells chars phrase) (h' : SpellsAlone chars' phrase')
    (hne : chars' ≠ []) (hends : EndsName chars') :
    SpellsAlone (chars ++ chars') (phrase ++ phrase') := by
  intro rest ts hlexes
  rw [List.append_assoc, List.append_assoc]
  obtain ⟨c, tail, rfl⟩ := List.exists_cons_of_ne_nil hne
  exact h _ _ hends (h' rest ts hlexes)

theorem spellsAlone_nil : SpellsAlone [] [] := fun _ _ h => h

theorem spellsAlone_blank : SpellsAlone [' '] [] := fun _ _ h => h.blank rfl

/-- A quoted string stands alone, since its closing quote ends it. -/
theorem spellsAlone_string {value : String} (hvalue : '"' ∉ value.toList) :
    SpellsAlone ('"' :: (value.toList ++ ['"'])) [⟨.string, value, {}⟩] := by
  intro rest ts h
  refine h.cons (by simp) fun c hc => ?_
  obtain ⟨d, hnext, hd⟩ := Cursor.nextToken_of_string hvalue (by simpa using hc)
  exact ⟨_, d, hnext, by simp [Token.unplaced], hd⟩

/-- So does a punctuation character. -/
theorem spellsAlone_punctuation (char : Char) {kind : TokenKind}
    (hkind : TokenKind.ofPunctuation? char = some kind) : SpellsAlone [char] [kind.mark] := by
  intro rest ts h
  have htext := TokenKind.fixedText_of_punctuation hkind
  have hall : ∀ entry ∈ TokenKind.punctuation, entry.2 ≠ .endOfInput := by decide
  refine h.cons ?_ fun c hc => ?_
  · rw [TokenKind.kind_mark]
    exact hall _ (TokenKind.mem_punctuation hkind)
  · refine ⟨_, _, Cursor.nextToken_of_punctuation hkind hc, ?_, by rw [Cursor.rest_bump, hc]; rfl⟩
    simp [Token.unplaced, TokenKind.mark, htext]

/-- A name is spelled in front of what cannot continue it. -/
theorem spells_name {name : String} (hname : isName name.toList = true) :
    Spells name.toList [⟨.identifier, name, {}⟩] := by
  intro rest ts hrest h
  refine h.cons (by simp) fun c hc => ?_
  obtain ⟨d, hnext, hd⟩ := Cursor.nextToken_of_name hname hrest hc
  exact ⟨_, d, hnext, by simp [Token.unplaced], hd⟩

/-- Texts are divided by a text that adds the tokens dividing theirs. -/
theorem spells_intercalate {sep : List Char} {mark : List Token} (hsep : SpellsAlone sep mark)
    (hne : sep ≠ []) (hends : EndsName sep) {items : List (List Char × List Token)}
    (hitems : ∀ item ∈ items, Spells item.1 item.2) :
    Spells (sep.intercalate (items.map Prod.fst)) (mark.intercalate (items.map Prod.snd)) := by
  induction items with
  | nil => exact spellsAlone_nil.spells
  | cons item items ih =>
    rw [List.forall_mem_cons] at hitems
    cases items with
    | nil => simpa using hitems.1
    | cons item' items =>
      simp only [List.map_cons, List.intercalate_cons_cons] at ih ⊢
      exact (hitems.1.append_alone hsep hne hends).append_spells (ih hitems.2)

/-- The tokens of a whole text. -/
theorem Spells.lexes (h : Spells chars phrase) :
    Lexes chars (phrase ++ [TokenKind.endOfInput.mark]) := by
  have hlexes := h [] _ endsName_nil lexes_nil
  rwa [List.append_nil] at hlexes

end Texts

end ScopedQuery
