import ScopedQuery.Proofs.Course
import ScopedQuery.Proofs.Lexing

namespace ScopedQuery

open Text Cursor

/-!
# What the characters before a cursor are

The characters of a text fall into blanks, comments and tokens.  How they do depends on what a
cursor has before it only, and for every token on one character behind it.

* `Token.written`, `Token.EndsBefore` — the characters of a token, and the texts that cannot be
  taken for more of it.
* `IsTrivia` — blanks and comments that are closed.
* `Front` — what can stand behind them: nothing, a token, or a comment or a string without an end.
* `exists_front` — these are all the texts there are.
* `Cursor.nextToken_of_lexeme` and its like — what is found there.
* `Cursor.nextToken_eq_ok` — and what was there if a token was found.
-/

/-! ### Tokens and trivia -/

namespace Token

/-- The characters of a token. -/
def written (t : Token) : List Char :=
  match t.kind with
  | .string => '"' :: (t.value.toList ++ ['"'])
  | .endOfInput => []
  | _ => t.value.toList

/-- A token of a kind with one text is written as that text. -/
theorem written_of_fixedText [NameTable] {t : Token} {value : String} (h : t.IsSpelled)
    (hfixed : t.kind.fixedText? = some value) (hkind : t.kind ≠ .endOfInput) :
    t.written = value.toList := by
  have hvalue : t.kind.fixedText? = some t.value := h.fixedText (by rw [hfixed]; rfl)
  obtain rfl : value = t.value := Option.some.inj (hfixed.symm.trans hvalue)
  unfold written
  split
  case h_1 hstring =>
    rw [hstring] at hfixed
    cases hfixed
  case h_2 hend => exact absurd hend hkind
  case h_3 => rfl

/-- The token ends where `rest` follows. -/
def EndsBefore [NameTable] (t : Token) (rest : List Char) : Prop :=
  match t.kind with
  | .identifier => EndsName rest
  | .newline => t.value = "\r" → rest.head? ≠ some '\n'
  | .stray => t.value = "/" → rest.head? ≠ some '*'
  | _ => True

/-- A text that goes on with `rest` behind the characters of the token has that token. -/
structure Lexeme [NameTable] (t : Token) (rest : List Char) : Prop where
  spelled : t.IsSpelled
  kind_ne : t.kind ≠ .endOfInput
  ends : t.EndsBefore rest

/-- Of what follows a token the first character counts only. -/
theorem EndsBefore.congr [NameTable] {t : Token} {rest rest' : List Char}
    (h : t.EndsBefore rest) (hhead : rest'.head? = rest.head?) : t.EndsBefore rest' := by
  unfold EndsBefore EndsName at h ⊢
  rwa [hhead]

/-- So a token that ends before one text ends before every other one with the same first character.
    -/
theorem Lexeme.congr [NameTable] {t : Token} {rest rest' : List Char} (h : t.Lexeme rest)
    (hhead : rest'.head? = rest.head?) : t.Lexeme rest' :=
  ⟨h.spelled, h.kind_ne, h.ends.congr hhead⟩

end Token

/-- Blanks and comments that are closed. -/
inductive IsTrivia : List Char → Prop
  | nil : IsTrivia []
  | blank {c : Char} {rest : List Char} :
    isBlank c = true → IsTrivia rest → IsTrivia (c :: rest)
  | comment {body rest : List Char} : ¬ commentClose <:+: body → IsTrivia rest →
    IsTrivia (commentOpen ++ (body ++ (commentClose ++ rest)))

/-- Blanks and comments in a row are blanks and comments. -/
theorem IsTrivia.append {g g' : List Char} (h : IsTrivia g) (h' : IsTrivia g') :
    IsTrivia (g ++ g') := by
  induction h with
  | nil => exact h'
  | blank hblank _ ih => exact .blank hblank ih
  | comment hbody _ ih =>
    simp only [List.append_assoc]
    exact .comment hbody ih

/-- Trivia open with a blank or with the slash of a comment. -/
theorem IsTrivia.head?_mem {g : List Char} (h : IsTrivia g) :
    ∀ c ∈ g.head?, c ∈ [' ', '\t', '/'] := by
  cases h with
  | nil => simp
  | @blank c rest hblank _ =>
    have hc : c = ' ' ∨ c = '\t' := by simpa [isBlank, blanks] using hblank
    rcases hc with rfl | rfl <;> simp
  | comment _ _ => simp [commentOpen]

/-- A comment or a string without an end, and what is wrong with it. -/
inductive IsUnclosed : List Char → Problem → Prop
  | comment {body : List Char} : ¬ commentClose <:+: body →
    IsUnclosed (commentOpen ++ body) .openComment
  | string {body : List Char} : '"' ∉ body → IsUnclosed ('"' :: body) .openString

/-- What stands where no blank and no closed comment does. -/
inductive Front [NameTable] : List Char → Prop
  | done : Front []
  | token {t : Token} {rest : List Char} : t.Lexeme rest → Front (t.written ++ rest)
  | unclosed {chars : List Char} {problem : Problem} : IsUnclosed chars problem → Front chars

/-! ### Comments -/

/-- A closing that does not start here does not start here because another one follows. -/
theorem not_closing_append {c : Char} {body : List Char} (h : ¬ commentClose <+: c :: body)
    (rest : List Char) : ¬ commentClose <+: c :: (body ++ (commentClose ++ rest)) := by
  intro hprefix
  apply h
  rcases body with _ | ⟨d, body⟩
  · simp [commentClose] at hprefix
  · simpa [commentClose] using hprefix

/-- A comment goes up to the first closing. -/
theorem commentLength_append {body : List Char} (h : ¬ commentClose <:+: body) (rest : List Char) :
    commentLength? (body ++ (commentClose ++ rest)) = some (body.length + 2) := by
  induction body with
  | nil => simp [commentLength?, commentClose]
  | cons c body ih =>
    rw [List.infix_cons_iff, not_or] at h
    have hopen : commentClose.isPrefixOf (c :: (body ++ (commentClose ++ rest))) = false := by
      rw [Bool.eq_false_iff, ne_eq, List.isPrefixOf_iff_prefix]
      exact not_closing_append h.1 rest
    rw [List.cons_append, commentLength?, hopen]
    simp [ih h.2]

/-- A text that is no comment has no closing. -/
theorem commentLength_eq_none {chars : List Char} (h : ¬ commentClose <:+: chars) :
    commentLength? chars = none := by
  induction chars with
  | nil => rfl
  | cons c rest ih =>
    rw [List.infix_cons_iff, not_or] at h
    have hopen : commentClose.isPrefixOf (c :: rest) = false := by
      rw [Bool.eq_false_iff, ne_eq, List.isPrefixOf_iff_prefix]
      exact h.1
    rw [commentLength?, hopen]
    simp [ih h.2]

/-- A text with a closing goes up to its first one. -/
theorem exists_first_closing {chars : List Char} (h : commentClose <:+: chars) :
    ∃ body rest, chars = body ++ (commentClose ++ rest) ∧ ¬ commentClose <:+: body := by
  induction chars with
  | nil => simp [commentClose] at h
  | cons c tail ih =>
    by_cases hprefix : commentClose <+: c :: tail
    · obtain ⟨rest, hrest⟩ := hprefix
      exact ⟨[], rest, hrest.symm, by simp [commentClose]⟩
    · have htail : commentClose <:+: tail := (List.infix_cons_iff.mp h).resolve_left hprefix
      obtain ⟨body, rest, rfl, hbody⟩ := ih htail
      refine ⟨c :: body, rest, rfl, ?_⟩
      rw [List.infix_cons_iff, not_or]
      refine ⟨fun hopen => hprefix ?_, hbody⟩
      exact hopen.trans (List.prefix_append (c :: body) _)

/-! ### Every text has a front -/

/-- A kind that has one text only is that of a punctuation character. -/
theorem TokenKind.exists_punctuation {kind : TokenKind} {value : String}
    (h : kind.fixedText? = some value) (hkind : kind ≠ .endOfInput) :
    ∃ c, ofPunctuation? c = some kind ∧ value = String.ofList [c] := by
  have hvalue : ∀ c, ofPunctuation? c = some kind → value = String.ofList [c] := fun c hc =>
    Option.some.inj (h.symm.trans (fixedText_of_punctuation hc))
  have hchar : ∃ c, ofPunctuation? c = some kind := by
    -- one character for each kind that has a text, as in the table of the scanner
    cases kind with
    | atSign => exact ⟨'@', rfl⟩
    | leftParen => exact ⟨'(', rfl⟩
    | rightParen => exact ⟨')', rfl⟩
    | comma => exact ⟨',', rfl⟩
    | equals => exact ⟨'=', rfl⟩
    | leftBrace => exact ⟨'{', rfl⟩
    | rightBrace => exact ⟨'}', rfl⟩
    | semicolon => exact ⟨';', rfl⟩
    | endOfInput => exact absurd rfl hkind
    | _ => cases h
  exact hchar.imp fun c hc => ⟨hc, hvalue c hc⟩

section Front

variable [NameTable]

/-- A punctuation character is a token whatever follows it. -/
theorem Token.lexeme_of_punctuation {c : Char} {kind : TokenKind}
    (h : TokenKind.ofPunctuation? c = some kind) (rest : List Char) :
    (⟨kind, String.ofList [c], {}⟩ : Token).written = [c] ∧
      (⟨kind, String.ofList [c], {}⟩ : Token).Lexeme rest := by
  have hspelled : (⟨kind, String.ofList [c], {}⟩ : Token).IsSpelled :=
    Token.isSpelled_of_fixedText (TokenKind.fixedText_of_punctuation h)
  have hmem := TokenKind.mem_punctuation h
  simp only [TokenKind.punctuation, List.mem_cons, Prod.mk.injEq, List.not_mem_nil,
    or_false] at hmem
  rcases hmem with h | h | h | h | h | h | h | h <;> obtain ⟨rfl, rfl⟩ := h <;>
    exact ⟨rfl, hspelled, by simp, trivial⟩

/-- A line break is taken as a whole. -/
theorem exists_lexeme_of_break {c : Char} {tail : List Char} (hc : c = '\r' ∨ c = '\n') :
    ∃ (t : Token) (rest : List Char), c :: tail = t.written ++ rest ∧ t.Lexeme rest := by
  rcases hc with rfl | rfl
  · by_cases hfeed : tail.head? = some '\n'
    · obtain ⟨rest, rfl⟩ := List.head?_eq_some_iff.mp hfeed
      exact ⟨⟨.newline, "\r\n", {}⟩, rest, rfl, by simp [Token.IsSpelled], by simp,
        fun h => absurd h (by decide)⟩
    · exact ⟨⟨.newline, "\r", {}⟩, tail, rfl, by simp [Token.IsSpelled], by simp, fun _ => hfeed⟩
  · exact ⟨⟨.newline, "\n", {}⟩, tail, rfl, by simp [Token.IsSpelled], by simp,
      fun h => absurd h (by decide)⟩

/-- A name is taken as far as it goes. -/
theorem exists_lexeme_of_name {c : Char} {tail : List Char} (hc : isNameStart c = true) :
    ∃ (t : Token) (rest : List Char), c :: tail = t.written ++ rest ∧ t.Lexeme rest := by
  let name := c :: tail.takeWhile isNameContinue
  have hname : isName name = true := by simp [name, isName, hc, List.all_takeWhile]
  have hends : EndsName (tail.dropWhile isNameContinue) := by
    intro d hd
    have hfirst := List.head?_dropWhile_not isNameContinue tail
    rw [Option.mem_def.mp hd] at hfirst
    simpa using hfirst
  refine ⟨⟨.identifier, String.ofList name, {}⟩, tail.dropWhile isNameContinue, ?_, ?_, by simp,
    hends⟩
  · simp [Token.written, name, List.takeWhile_append_dropWhile]
  · simpa [Token.IsSpelled] using hname

/-- A string is taken up to its closing quote. -/
theorem exists_lexeme_of_string {tail : List Char} (h : '"' ∈ tail) :
    ∃ (t : Token) (rest : List Char), '"' :: tail = t.written ++ rest ∧ t.Lexeme rest := by
  obtain ⟨body, rest, rfl, hbody⟩ := List.eq_append_cons_of_mem h
  refine ⟨⟨.string, String.ofList body, {}⟩, rest, ?_, ?_, by simp, trivial⟩
  · simp [Token.written]
  · simpa [Token.IsSpelled] using hbody

/-- Where neither a blank nor a comment nor a string without an end stands, a token does. -/
theorem exists_lexeme {c : Char} {tail : List Char} (hblank : isBlank c = false)
    (hcomment : ¬ commentOpen <+: c :: tail) (hstring : c = '"' → '"' ∈ tail) :
    ∃ (t : Token) (rest : List Char), c :: tail = t.written ++ rest ∧ t.Lexeme rest := by
  by_cases hbreak : c = '\r' ∨ c = '\n'
  · exact exists_lexeme_of_break hbreak
  by_cases hstart : isNameStart c = true
  · exact exists_lexeme_of_name hstart
  by_cases hquote : c = '"'
  · obtain rfl := hquote
    exact exists_lexeme_of_string (hstring rfl)
  cases hkind : TokenKind.ofPunctuation? c with
  | some kind =>
    obtain ⟨hwritten, hlexeme⟩ := Token.lexeme_of_punctuation hkind tail
    exact ⟨_, tail, by rw [hwritten]; rfl, hlexeme⟩
  | none =>
    -- none of the above, and no comment either
    rw [not_or] at hbreak
    refine ⟨⟨.stray, String.ofList [c], {}⟩, tail, by simp [Token.written], ?_, by simp, ?_⟩
    · exact ⟨c, rfl, hblank, hbreak.1, hbreak.2, hquote, Bool.eq_false_iff.mpr hstart, hkind⟩
    · intro hslash hstar
      have hc : [c] = ['/'] := by simpa using congrArg String.toList hslash
      obtain ⟨rest, rfl⟩ := List.head?_eq_some_iff.mp hstar
      obtain rfl : c = '/' := by simpa using hc
      exact hcomment (by simp [commentOpen])

/-- Behind blanks and comments every text has a front. -/
theorem exists_front (chars : List Char) :
    ∃ g tail, IsTrivia g ∧ chars = g ++ tail ∧ Front tail := by
  -- a comment is passed as a whole, so the induction is on the length
  induction hn : chars.length using Nat.strongRecOn generalizing chars with
  | ind n ih =>
    subst hn
    rcases chars with _ | ⟨c, rest⟩
    · exact ⟨[], [], .nil, rfl, .done⟩
    by_cases hblank : isBlank c = true
    · obtain ⟨g, tail, hg, rfl, htail⟩ := ih rest.length (by simp) rest rfl
      exact ⟨c :: g, tail, .blank hblank hg, rfl, htail⟩
    by_cases hcomment : commentOpen <+: c :: rest
    · obtain ⟨body, hbody⟩ := hcomment
      by_cases hclose : commentClose <:+: body
      -- a comment ends at its first closing, and the front is looked for behind it
      · obtain ⟨inner, behind, rfl, hinner⟩ := exists_first_closing hclose
        have hlt : behind.length < (c :: rest).length := by
          rw [← hbody]
          simp [commentOpen]
          omega
        obtain ⟨g, tail, hg, rfl, htail⟩ := ih behind.length hlt behind rfl
        refine ⟨_, tail, .comment hinner hg, ?_, htail⟩
        rw [← hbody]
        simp
      · exact ⟨[], c :: rest, .nil, rfl, hbody ▸ .unclosed (.comment hclose)⟩
    by_cases hstring : c = '"' ∧ '"' ∉ rest
    · obtain ⟨rfl, hrest⟩ := hstring
      exact ⟨[], _, .nil, rfl, .unclosed (.string hrest)⟩
    · rw [not_and, not_not] at hstring
      obtain ⟨t, behind, hwritten, hlexeme⟩ :=
        exists_lexeme (Bool.eq_false_iff.mpr hblank) hcomment hstring
      exact ⟨[], c :: rest, .nil, rfl, hwritten ▸ .token hlexeme⟩

end Front

/-! ### What a cursor finds -/

namespace Cursor

variable {c : Cursor} {t : Token} {g rest : List Char} {first : Char}

theorem text_skip (n : Nat) (c : Cursor) : (c.skip n).text = c.text := by
  rw [text, text, source_skip]

/-- A cursor stands before a mark if its rest begins with it. -/
theorem startsWith_iff {expected : List Char} (h : expected ≠ []) :
    c.startsWith expected = true ↔ expected <+: c.rest := by
  simp [startsWith, h]

/-- Nothing is passed where neither a blank nor a comment stands. -/
theorem skipTrivia_of_front (hc : c.rest = first :: rest) (hblank : isBlank first = false)
    (hcomment : ¬ commentOpen <+: c.rest) : c.skipTrivia = (.ok (), c) := by
  have hstarts : ¬ c.startsWith commentOpen = true := mt (startsWith_iff (by decide)).mp hcomment
  rw [skipTrivia]
  split
  · rfl
  case h_2 char tail hcons =>
    obtain ⟨rfl, rfl⟩ := List.cons.inj (hc.symm.trans hcons)
    rw [if_neg (by simp [hblank]), if_neg hstarts]

/-- The two characters of the opening are passed, and the comment is looked at from there. -/
theorem skipComment_of_open {body : List Char} (hc : c.rest = commentOpen ++ body) :
    c.skipComment = match commentLength? body with
      | some n => (.ok (), c.skip (n + 2))
      | none => ((c.skip 2).skip body.length).refuse .openComment c.location "end of input" := by
  have hfirst : c.next = (.ok '/', c.bump) := by rw [next, hc]; rfl
  have hbump : c.bump.rest = '*' :: body := by rw [rest_bump, hc]; rfl
  have hsecond : c.bump.next = (.ok '*', c.bump.bump) := by rw [next, hbump]
  have hrest : c.bump.bump.rest = body := by rw [rest_bump, hbump]; rfl
  rw [skipComment, hfirst]
  dsimp only
  rw [hsecond]
  dsimp only
  rw [hrest]
  cases commentLength? body <;> rfl

theorem length_comment (body rest : List Char) :
    (commentOpen ++ (body ++ (commentClose ++ rest))).length = body.length + 4 + rest.length := by
  simp [commentOpen, commentClose]
  omega

/-- A comment that is closed is passed as a whole. -/
theorem skipComment_of_closed {body : List Char} (hbody : ¬ commentClose <:+: body)
    (hc : c.rest = commentOpen ++ (body ++ (commentClose ++ rest))) :
    c.startsWith commentOpen = true ∧ c.skipComment = (.ok (), c.skip (body.length + 4)) ∧
      (c.skip (body.length + 4)).rest = rest := by
  refine ⟨?_, ?_, ?_⟩
  · rw [startsWith_iff (by decide), hc]
    exact List.prefix_append _ _
  · rw [skipComment_of_open hc, commentLength_append hbody]
  · rw [rest_skip, hc]
    simp [commentOpen, commentClose]

/-- Blanks and comments that are closed are passed over. -/
theorem skipTrivia_of_trivia (hg : IsTrivia g) (hc : c.rest = g ++ rest) :
    c.skipTrivia = (c.skip g.length).skipTrivia := by
  induction hg generalizing c with
  | nil => rfl
  | blank hblank _ ih =>
    rw [skipTrivia_of_blank hc hblank]
    exact ih (by rw [rest_bump, hc]; rfl)
  | @comment body g hbody _ ih =>
    have hc' : c.rest = commentOpen ++ (body ++ (commentClose ++ (g ++ rest))) := by
      simpa using hc
    -- the comment is passed in one step, and the induction goes on behind it
    obtain ⟨hstarts, hskip, hrest⟩ := skipComment_of_closed hbody hc'
    rw [length_comment, skip_add, ← ih hrest, skipTrivia]
    split
    case h_1 hnil => simp [hc', commentOpen] at hnil
    case h_2 char tail hcons =>
      obtain rfl : '/' = char := by
        rw [hc'] at hcons
        exact (List.cons.inj hcons).1
      rw [if_neg (by decide), if_pos hstarts]
      split <;> rename_i h <;> rw [hskip] at h <;> cases h
      rfl

/-- The next token is the one behind the blanks and comments. -/
theorem nextToken_of_trivia [NameTable] (hg : IsTrivia g) (hc : c.rest = g ++ rest) :
    c.nextToken = (c.skip g.length).nextToken := by
  rw [nextToken, skipTrivia_of_trivia hg hc, nextToken]

/-- Where nothing is left, the end of the input is found and the cursor stays. -/
theorem nextToken_of_done [NameTable] (hc : c.rest = []) :
    c.nextToken = (.ok ⟨.endOfInput, "EOF", c.location⟩, c) := by
  rw [nextToken, skipTrivia_of_nil hc]
  simp only [hc]

/-- Otherwise the first character decides what is scanned. -/
theorem nextToken_of_front [NameTable] (hc : c.rest = first :: rest)
    (hblank : isBlank first = false) (hcomment : ¬ commentOpen <+: c.rest) :
    c.nextToken = c.scanToken first := by
  rw [nextToken, skipTrivia_of_front hc hblank hcomment]
  simp only [hc]

/-- Passing a character counts it, and ends the line if the character does. -/
theorem location_bump (hc : c.rest = first :: rest) :
    c.bump.location =
      if endsLine first rest then ⟨c.offset + 1, c.line + 1, 1⟩
      else if first = '\r' then ⟨c.offset + 1, c.line, c.col⟩
      else ⟨c.offset + 1, c.line, c.col + 1⟩ := by
  unfold bump
  split
  case h_1 hnil => simp [hc] at hnil
  case h_2 char tail hcons =>
    obtain ⟨rfl, rfl⟩ := List.cons.inj (hc.symm.trans hcons)
    split
    · rfl
    · split <;> rfl

/-- Every character counts one, whatever it does to line and column. -/
theorem offset_bump (hc : c.rest = first :: rest) : c.bump.offset = c.offset + 1 := by
  unfold bump
  split
  case h_1 hnil => simp [hc] at hnil
  case h_2 =>
    split
    · rfl
    · split <;> rfl

/-- Each character that is passed counts. -/
theorem offset_skip {n : Nat} (h : n ≤ c.rest.length) : (c.skip n).offset = c.offset + n := by
  induction n generalizing c with
  | zero => rfl
  | succ n ih =>
    rcases hc : c.rest with _ | ⟨first, rest⟩
    · simp [hc] at h
    have hle : n ≤ c.bump.rest.length := by
      rw [hc, List.length_cons] at h
      rw [rest_bump, hc, List.tail_cons]
      omega
    rw [skip, ih hle, offset_bump hc]
    omega

/-- At the end no cursor moves any more. -/
theorem skip_of_nil (hc : c.rest = []) (n : Nat) : c.skip n = c := by
  have hbump : c.bump = c := by
    unfold bump
    split
    · rfl
    case h_2 hcons => simp [hc] at hcons
  induction n with
  | zero => rfl
  | succ n ih => rw [skip, hbump, ih]

/-- Looking for a token goes forward, whether one is found or not. -/
theorem Reaches.of_nextToken [NameTable] {d : Cursor} {out : Except ScanFault Token}
    (h : c.nextToken = (out, d)) : c.Reaches d := by
  have hreaches := reaches_nextToken c
  rwa [h] at hreaches

/-- A cursor that goes on passes no more characters than there are. -/
theorem Reaches.exists_le {d : Cursor} (h : c.Reaches d) : ∃ n ≤ c.rest.length, d = c.skip n := by
  obtain ⟨n, rfl⟩ := h
  by_cases hle : n ≤ c.rest.length
  · exact ⟨n, hle, rfl⟩
  · -- the end was reached before
    obtain ⟨k, rfl⟩ : ∃ k, n = c.rest.length + k := ⟨n - c.rest.length, by omega⟩
    refine ⟨c.rest.length, Nat.le_refl _, ?_⟩
    rw [skip_add, skip_of_nil (by simp)]

/-- A cursor that has passed some characters stands behind them. -/
theorem Reaches.eq_skip {d : Cursor} (h : c.Reaches d) (hc : c.rest = g ++ d.rest) :
    d = c.skip g.length := by
  obtain ⟨n, hle, rfl⟩ := h.exists_le
  have hlength : c.rest.length = g.length + (c.rest.length - n) := by
    rw [rest_skip] at hc
    simpa using congrArg List.length hc
  obtain rfl : n = g.length := by omega
  rfl

section Tokens

variable [NameTable]

/-- A line break is found where its characters are, of which there may be two. -/
theorem nextToken_of_break (hlexeme : t.Lexeme rest) (hkind : t.kind = .newline)
    (hc : c.rest = t.written ++ rest) :
    ∃ d, c.nextToken = (.ok { t with location := c.location }, d) ∧ d.rest = rest := by
  obtain ⟨kind, value, location⟩ := t
  obtain rfl : kind = .newline := hkind
  obtain ⟨hspelled, -, hends⟩ := hlexeme
  have hvalue : value = "\n" ∨ value = "\r" ∨ value = "\r\n" := by
    simpa [Token.IsSpelled] using hspelled
  obtain ⟨first, tail, hfirst, hbreak⟩ :
      ∃ first tail, c.rest = first :: tail ∧ (first = '\r' ∨ first = '\n') := by
    rcases hvalue with rfl | rfl | rfl
    · exact ⟨'\n', rest, by simpa [Token.written] using hc, by decide⟩
    · exact ⟨'\r', rest, by simpa [Token.written] using hc, by decide⟩
    · exact ⟨'\r', '\n' :: rest, by simpa [Token.written] using hc, by decide⟩
  have hplain : isBlank first = false ∧ first ≠ '/' := by
    rcases hbreak with rfl | rfl <;> decide
  -- a carriage return alone is not followed by a line feed
  have hscan : c.scanLineBreak
      = (⟨.newline, value, c.location⟩, c.skip value.toList.length) := by
    rcases hvalue with rfl | rfl | rfl
    · simp [scanLineBreak, hc, Token.written]
    · have hhead : rest.head? ≠ some '\n' := hends rfl
      have hlone : ['\r', '\n'].isPrefixOf ('\r' :: rest) = false := by
        rcases rest with _ | ⟨next, rest⟩
        · rfl
        · have hnext : ('\n' == next) = false :=
            beq_false_of_ne fun h => hhead (congrArg some h.symm)
          simp [List.isPrefixOf, hnext]
      simp [scanLineBreak, hc, Token.written, hlone]
    · simp [scanLineBreak, hc, Token.written]
  refine ⟨c.skip value.toList.length, ?_, by rw [rest_skip, hc]; simp [Token.written]⟩
  rw [nextToken_of_start hfirst hplain.1 hplain.2, scanToken, if_pos hbreak, hscan]

/-- A character that begins no other token is one by itself, if it opens no comment. -/
theorem nextToken_of_stray (hlexeme : t.Lexeme rest) (hkind : t.kind = .stray)
    (hc : c.rest = t.written ++ rest) : ∃ d,
    c.nextToken = (.ok { t with location := c.location }, d) ∧ d.rest = rest := by
  obtain ⟨kind, value, location⟩ := t
  obtain rfl : kind = .stray := hkind
  obtain ⟨⟨first, rfl, hblank, hr, hn, hquote, hstart, hpunctuation⟩, -, hends⟩ := hlexeme
  have hfirst : c.rest = first :: rest := by simpa [Token.written] using hc
  -- a slash is a token of its own only where no asterisk follows
  have hcomment : ¬ commentOpen <+: c.rest := by
    rw [hfirst]
    rintro ⟨tail, htail⟩
    obtain ⟨rfl, rfl⟩ := List.cons.inj htail
    exact hends rfl rfl
  refine ⟨c.bump, ?_, by rw [rest_bump, hfirst]; rfl⟩
  rw [nextToken_of_front hfirst hblank hcomment, scanToken, if_neg (by simp [hr, hn]),
    if_neg (by simp [hstart]), if_neg hquote, hpunctuation]
  rfl

/-- A token is found where its characters are. -/
theorem nextToken_of_lexeme (hlexeme : t.Lexeme rest) (hc : c.rest = t.written ++ rest) :
    c.nextToken = (.ok { t with location := c.location }, c.skip t.written.length) := by
  have hfound : ∃ d, c.nextToken = (.ok { t with location := c.location }, d) ∧ d.rest = rest := by
    obtain ⟨kind, value, location⟩ := t
    have hspelled := hlexeme.spelled
    cases kind with
    | identifier =>
      obtain ⟨d, hd, hrest⟩ := nextToken_of_name hspelled hlexeme.ends hc
      rw [String.ofList_toList] at hd
      exact ⟨d, hd, hrest⟩
    | string =>
      have hbody : c.rest = '"' :: (value.toList ++ '"' :: rest) := by
        simpa [Token.written] using hc
      obtain ⟨d, hd, hrest⟩ := nextToken_of_string hspelled hbody
      rw [String.ofList_toList] at hd
      exact ⟨d, hd, hrest⟩
    | newline => exact nextToken_of_break hlexeme rfl hc
    | stray => exact nextToken_of_stray hlexeme rfl hc
    | custom label => exact absurd hspelled id
    | endOfInput => exact absurd rfl hlexeme.kind_ne
    | _ =>
      -- the kind has one text only, which is one character long
      obtain ⟨first, hpunctuation, rfl⟩ := TokenKind.exists_punctuation hspelled (by simp)
      have hfirst : c.rest = first :: rest := by simpa [Token.written] using hc
      refine ⟨c.bump, nextToken_of_punctuation hpunctuation hfirst, ?_⟩
      rw [rest_bump, hfirst, List.tail_cons]
  obtain ⟨d, hd, hrest⟩ := hfound
  rw [hd, (Reaches.of_nextToken hd).eq_skip (hrest.symm ▸ hc)]

/-- A token has characters: without them it would be found again and again. -/
theorem written_ne_nil (hlexeme : t.Lexeme rest) : t.written ≠ [] := by
  intro hnil
  let c := ofText (String.ofList rest)
  have hnext : c.nextToken = (.ok { t with location := c.location }, c.skip t.written.length) :=
    nextToken_of_lexeme hlexeme (by simp [c, hnil])
  have hlt := length_rest_nextToken_lt hnext hlexeme.kind_ne
  rw [hnil] at hlt
  exact Nat.lt_irrefl _ hlt

/-- A comment without an end is reported where it starts, and everything is passed. -/
theorem nextToken_of_openComment {body : List Char} (hbody : ¬ commentClose <:+: body)
    (hc : c.rest = commentOpen ++ body) :
    c.nextToken = (.error (.misspelled
      (Problem.openComment.report c.location "end of input" c.text)), c.skip c.rest.length) := by
  have hstarts : c.startsWith commentOpen = true := by
    rw [startsWith_iff (by decide), hc]
    exact List.prefix_append _ _
  have hopen := skipComment_of_open hc
  rw [commentLength_eq_none hbody] at hopen
  -- nothing in front of the comment is skipped, and the comment itself fails
  have hskip : c.skipTrivia = c.skipComment := by
    rw [skipTrivia]
    split
    case h_1 hnil => simp [hc, commentOpen] at hnil
    case h_2 char tail hcons =>
      obtain rfl : '/' = char := by
        rw [hc] at hcons
        exact (List.cons.inj hcons).1
      rw [if_neg (by decide), if_pos hstarts]
      split <;> rename_i h
      · rw [h]
      · rw [hopen] at h
        cases h
  have hlength : c.rest.length = 2 + body.length := by
    rw [hc, List.length_append]
    rfl
  rw [nextToken, hskip, hopen, hlength, skip_add]
  simp only [refuse, text_skip]

/-- A string without an end is reported where it starts, and its quote is passed. -/
theorem nextToken_of_openString {body : List Char} (hbody : '"' ∉ body)
    (hc : c.rest = '"' :: body) :
    c.nextToken = (.error (.misspelled
      (Problem.openString.report c.location "end of input" c.text)), c.skip 1) := by
  have hnone : body.contains '"' = false := by simpa using hbody
  have hbump : c.bump.rest = body := by rw [rest_bump, hc]; rfl
  have hstart : isNameStart '"' = false := isNameStart_of_divider (by decide)
  rw [nextToken_of_start hc (by decide) (by decide), scanToken, if_neg (by decide),
    if_neg (by simp [hstart]), if_pos rfl, scanStringBody, hbump, hnone]
  simp only [refuse, text, source_bump, Bool.false_eq_true, if_false]
  rfl

/-- A comment or a string without an end is reported where it starts. -/
theorem nextToken_of_unclosed {problem : Problem} (h : IsUnclosed c.rest problem) : ∃ d,
    c.nextToken =
      (.error (.misspelled (problem.report c.location "end of input" c.text)), d) := by
  generalize hc : c.rest = chars at h
  cases h with
  | comment hbody => exact ⟨_, nextToken_of_openComment hbody hc⟩
  | string hbody => exact ⟨_, nextToken_of_openString hbody hc⟩

/-- Behind blanks and comments every cursor finds the end of the text, a token, or what has no
    end. -/
theorem nextToken_eq (c : Cursor) : ∃ g, IsTrivia g ∧
    (c.rest = g ∧ c.nextToken
        = (.ok ⟨.endOfInput, "EOF", (c.skip g.length).location⟩, c.skip g.length) ∨
      (∃ (t : Token) (rest : List Char), t.Lexeme rest ∧ c.rest = g ++ (t.written ++ rest) ∧
        c.nextToken = (.ok { t with location := (c.skip g.length).location },
          (c.skip g.length).skip t.written.length)) ∨
      ∃ (chars : List Char) (problem : Problem) (d : Cursor), IsUnclosed chars problem ∧
        c.rest = g ++ chars ∧ c.nextToken = (.error (.misspelled
          (problem.report (c.skip g.length).location "end of input" c.text)), d)) := by
  obtain ⟨g, tail, hg, hc, hfront⟩ := exists_front c.rest
  have hrest : (c.skip g.length).rest = tail := by simp [hc]
  refine ⟨g, hg, ?_⟩
  rw [nextToken_of_trivia hg hc]
  cases hfront with
  | done => exact .inl ⟨by simpa using hc, nextToken_of_done hrest⟩
  | token hlexeme => exact .inr (.inl ⟨_, _, hlexeme, hc, nextToken_of_lexeme hlexeme hrest⟩)
  | unclosed h =>
    obtain ⟨d, hd⟩ := nextToken_of_unclosed (hrest.symm ▸ h)
    rw [text_skip] at hd
    exact .inr (.inr ⟨_, _, d, h, hc, hd⟩)

/-- A token is found wherever blanks, comments, its characters and what cannot be taken for more of
    it stand. -/
theorem nextToken_of_found {g rest : List Char} (hg : IsTrivia g)
    (hc : c.rest = g ++ (t.written ++ rest))
    (hfound : t.Lexeme rest ∨ (t.kind = .endOfInput ∧ t.value = "EOF" ∧ rest = [])) :
    c.nextToken = (.ok { t with location := (c.skip g.length).location },
      (c.skip g.length).skip t.written.length) := by
  have hfront : (c.skip g.length).rest = t.written ++ rest := by simp [hc]
  rw [nextToken_of_trivia hg hc]
  rcases hfound with hlexeme | ⟨hkind, hvalue, rfl⟩
  · exact nextToken_of_lexeme hlexeme hfront
  · have hwritten : t.written = [] := by simp [Token.written, hkind]
    rw [hwritten] at hfront ⊢
    rw [nextToken_of_done hfront, ← hkind, ← hvalue]
    rfl

/-- What a cursor had before it if it has found a token. -/
theorem nextToken_eq_ok {d : Cursor} (h : c.nextToken = (.ok t, d)) :
    ∃ g, IsTrivia g ∧ t.location = (c.skip g.length).location ∧
      d = (c.skip g.length).skip t.written.length ∧ c.rest = g ++ (t.written ++ d.rest) ∧
      (t.Lexeme d.rest ∨ (t.kind = .endOfInput ∧ t.value = "EOF" ∧ d.rest = [])) := by
  obtain ⟨g, hg, ⟨hc, hnext⟩ | ⟨u, rest, hlexeme, hc, hnext⟩ | ⟨_, _, _, _, _, hnext⟩⟩ :=
    nextToken_eq c
  · obtain ⟨rfl, rfl⟩ : _ ∧ _ := by simpa [hnext] using h
    refine ⟨g, hg, rfl, rfl, ?_, .inr ⟨rfl, rfl, ?_⟩⟩ <;> simp [Token.written, hc]
  · obtain ⟨rfl, rfl⟩ : _ ∧ _ := by simpa [hnext] using h
    have hrest : ((c.skip g.length).skip u.written.length).rest = rest := by simp [hc]
    refine ⟨g, hg, rfl, rfl, ?_, .inl ?_⟩
    · rw [hrest]
      exact hc
    · rw [hrest]
      exact ⟨hlexeme.spelled, hlexeme.kind_ne, hlexeme.ends⟩
  · cases hnext.symm.trans h

/-- A token that is found has characters, unless it is the end of the input. -/
theorem length_written_pos {d : Cursor} (h : c.nextToken = (.ok t, d))
    (hkind : t.kind ≠ .endOfInput) : 0 < t.written.length := by
  obtain ⟨g, -, -, -, -, hlexeme | ⟨hend, -⟩⟩ := nextToken_eq_ok h
  · exact List.length_pos_of_ne_nil (written_ne_nil hlexeme)
  · exact absurd hend hkind

/-- What a cursor had before it if it has found none. -/
theorem nextToken_eq_error {fault : ScanFault} {d : Cursor} (h : c.nextToken = (.error fault, d)) :
    ∃ g chars problem, IsTrivia g ∧ c.rest = g ++ chars ∧ IsUnclosed chars problem ∧
      fault = .misspelled (problem.report (c.skip g.length).location "end of input" c.text) := by
  obtain ⟨g, hg, ⟨_, hnext⟩ | ⟨_, _, _, _, hnext⟩ | ⟨chars, problem, d', hunclosed, hc, hnext⟩⟩ :=
    nextToken_eq c
  · cases hnext.symm.trans h
  · cases hnext.symm.trans h
  · obtain ⟨rfl, -⟩ : _ ∧ _ := by simpa [hnext] using h
    exact ⟨g, chars, problem, hg, hc, hunclosed, rfl⟩

end Tokens

/-! ### Readings -/

/-- A reading goes forward in the text. -/
theorem reaches_of_course {k : Standing} {us : List Token} {e : Ending ScanFault}
    {d : Cursor} (h : Course k c us e d) : c.Reaches d := by
  induction h with
  | missing h => exact .of_nextToken h
  | complete h _ => exact .of_nextToken h
  | refused h _ => exact .of_nextToken h
  | further h _ _ ih => exact (Reaches.of_nextToken h).trans ih

/-- The token at which a reading ends is spelled. -/
theorem isSpelled_of_course {k : Standing} {us : List Token} {e : Ending ScanFault} {d : Cursor}
    (h : Course k c us e d) (hlast : e.last? = some t) : t.IsSpelled := by
  induction h with
  | missing => cases hlast
  | complete hnext _ =>
    cases hlast
    exact isSpelled_nextToken hnext
  | refused hnext _ =>
    cases hlast
    exact isSpelled_nextToken hnext
  | further _ _ _ ih => exact ih hlast

/-- A reading without a last token ends at a fault of the spelling. -/
theorem fault_of_course {k : Standing} {us : List Token} {fault : ScanFault} {d : Cursor}
    (h : Course k c us (.missing fault) d) :
    ∃ lexical : Diagnostic, fault = .misspelled lexical ∧ lexical.source = c.text := by
  -- the ending is an index of the relation, so the fault is put aside as an equation
  generalize he : Ending.missing fault = e at h
  induction h with
  | missing hnext =>
    cases he
    obtain ⟨g, chars, problem, -, -, -, rfl⟩ := nextToken_eq_error hnext
    exact ⟨_, rfl, rfl⟩
  | complete => cases he
  | refused => cases he
  | @further _ _ c c₁ _ _ _ _ hnext _ _ ih =>
    obtain ⟨lexical, rfl, hsource⟩ := ih he
    have hreaches : c.Reaches c₁ := .of_nextToken hnext
    exact ⟨lexical, rfl, hsource.trans (by rw [text, text, hreaches.source_eq])⟩

/-- The text that is read stays the same. -/
theorem text_of_course {source : String} {k : Standing} {us : List Token} {e : Ending ScanFault}
    {d : Cursor} (h : Course k (ofText source) us e d) : TokenFeed.text d = source := by
  show String.ofList d.source = source
  rw [(reaches_of_course h).source_eq]
  exact String.ofList_toList

/-- How a text is read decides what comes of it. -/
theorem ofText_of_course {source : String} {us : List Token} {e : Ending ScanFault} {d : Cursor}
    (h : Course .unread (ofText source) us e d) : Query.ofText source = e.outcome source := by
  obtain ⟨r, hr, -⟩ := Step.query_of_course h
  rw [Query.ofText, Reader.run, hr, text_of_course h]

end Cursor

/-- A text that is no query has a diagnostic. -/
theorem exists_diagnostic {source : String} {failure : Failure ScanFault}
    (h : Query.ofText source = .error failure) :
    ∃ d : Diagnostic, d.source = source ∧
      (failure = .refused d ∨ failure = .feed (.misspelled d)) := by
  obtain ⟨us, e, d, hcourse⟩ := exists_course .unread (ofText source)
  have hout : e.outcome source = .error failure := (ofText_of_course hcourse).symm.trans h
  -- a missing token has the scanner's diagnostic, and a refused one that of its problem
  cases e with
  | missing fault =>
    obtain rfl := Except.error.inj hout
    obtain ⟨lexical, rfl, hsource⟩ := fault_of_course hcourse
    exact ⟨lexical, hsource.trans String.ofList_toList, .inr rfl⟩
  | complete => cases hout
  | refused t problem =>
    obtain rfl := Except.error.inj hout
    exact ⟨_, rfl, .inl rfl⟩

end ScopedQuery
