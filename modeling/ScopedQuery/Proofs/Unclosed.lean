import ScopedQuery.Proofs.Eager

namespace ScopedQuery

open Text Cursor

/-!
# Comments and strings without an end

No token is found at a comment or a string without an end, and everywhere else one is found.

* `LongestTrivia` — the blanks and comments in front of a text, as far as they go.
* `Front.longest`, `LongestTrivia.front` — they go up to the end, to a token, or to what has no end.
* `Cursor.FindsBehind` — what is found behind them, and the cursor that is left.
* `TokenStart` — where the tokens of a text start.
* `Cursor.eager_fault_iff` — a text has a fault exactly if what starts at such a place has no end.
* `tokens_by_starts` — both facts for whole texts.
-/

/-! ### Blanks and comments as far as they go -/

/-- The blanks and comments of `g` stand in front of `r`, and no more of them do. -/
structure LongestTrivia (g r : List Char) : Prop where
  trivia : IsTrivia g
  longest : ∀ g' r', IsTrivia g' → g' ++ r' = g ++ r → g'.length ≤ g.length

/-- Where a token is, or what is told of in its place. -/
def foundAt : Except ScanFault Token → Location
  | .ok t => t.location
  | .error (.misspelled d) => d.location
  | .error (.pastEnd l) => l

section Front

variable {g g' r r' : List Char} {problem : Problem}

/-- Whatever is found stands right behind the blanks and comments. -/
theorem foundAt_nextToken {c : Cursor} (hg : IsTrivia g) (hr : Front r) (hc : c.rest = g ++ r) :
    foundAt c.nextToken.1 = (c.skip g.length).location := by
  have hrest : (c.skip g.length).rest = r := by simp [hc]
  rw [nextToken_of_trivia hg hc]
  cases hr with
  | done => rw [nextToken_of_done hrest, foundAt]
  | token hlexeme => rw [nextToken_of_lexeme hlexeme hrest, foundAt]
  | unclosed h =>
    obtain ⟨d, hd⟩ := nextToken_of_unclosed (hrest.symm ▸ h)
    rw [hd]
    rfl

/-- Where it is found shows how long they are. -/
theorem Front.length_eq (hr : Front r) (hg : IsTrivia g) (hr' : Front r') (hg' : IsTrivia g')
    (hsame : g' ++ r' = g ++ r) : g'.length = g.length := by
  -- whichever way the text is cut, the same thing is found in it
  let c := ofText (String.ofList (g ++ r))
  have hc : c.rest = g ++ r := by simp [c]
  have hc' : c.rest = g' ++ r' := hc.trans hsame.symm
  have hplaces : (c.skip g'.length).location = (c.skip g.length).location :=
    (foundAt_nextToken hg' hr' hc').symm.trans (foundAt_nextToken hg hr hc)
  have hoffset : ((c.skip g'.length).offset : Int) = (c.skip g.length).offset :=
    congrArg Location.offset hplaces
  rw [offset_skip (by simp [hc']), offset_skip (by simp [hc])] at hoffset
  omega

/-- In front of the end of a text, of a token, or of what has no end there are no more of them. -/
theorem Front.longest (hr : Front r) (hg : IsTrivia g) : LongestTrivia g r := by
  refine ⟨hg, fun g' r' hg' hsame => ?_⟩
  obtain ⟨g'', tail, hg'', rfl, htail⟩ := exists_front r'
  rw [← List.append_assoc] at hsame
  have hlength := hr.length_eq hg htail (hg'.append hg'') hsame
  rw [List.length_append] at hlength
  omega

/-- The longest blanks and comments at the front of a text are the only ones of that kind. -/
theorem LongestTrivia.unique (h : LongestTrivia g r) (h' : LongestTrivia g' r')
    (hsame : g' ++ r' = g ++ r) : g' = g ∧ r' = r := by
  have hle := h.longest g' r' h'.trivia hsame
  have hle' := h'.longest g r h.trivia hsame.symm
  exact List.append_inj hsame (by omega)

/-- Every text starts with them. -/
theorem exists_longestTrivia (chars : List Char) :
    ∃ g r, chars = g ++ r ∧ LongestTrivia g r := by
  obtain ⟨g, r, hg, hchars, hr⟩ := exists_front chars
  exact ⟨g, r, hchars, hr.longest hg⟩

/-- They go up to the end of the text, to a token, or to what has no end. -/
theorem LongestTrivia.front (h : LongestTrivia g r) : Front r := by
  obtain ⟨g', r', hg', hsame, hr'⟩ := exists_front (g ++ r)
  obtain ⟨-, rfl⟩ := h.unique (hr'.longest hg') hsame.symm
  exact hr'

/-! ### What is found behind them -/

/-- What has no end has none in one way. -/
theorem IsUnclosed.unique (h : IsUnclosed r problem) {problem' : Problem}
    (h' : IsUnclosed r problem') : problem' = problem := by
  cases h <;> cases h' <;> rfl

/-- What a cursor finds behind `k` characters, where `r` follows: what has no end is told of there,
    and the whole text is passed for a comment and one quote for a string.  Otherwise there is a
    token, which is the end of the input at the end of the text only. -/
inductive Cursor.FindsBehind (c : Cursor) (k : Nat) (r : List Char) :
    Except ScanFault Token × Cursor → Prop
  | comment : IsUnclosed r .openComment →
    FindsBehind c k r (.error (.misspelled
      (Problem.openComment.report (c.skip k).location "end of input" c.text)),
      c.skip c.rest.length)
  | string : IsUnclosed r .openString →
    FindsBehind c k r (.error (.misspelled
      (Problem.openString.report (c.skip k).location "end of input" c.text)), c.skip (k + 1))
  | token {t : Token} : (∀ problem, ¬ IsUnclosed r problem) → t.location = (c.skip k).location →
    (t.kind = .endOfInput ↔ r = []) → t.written <+: r →
    FindsBehind c k r (.ok t, c.skip (k + t.written.length))

namespace Cursor.FindsBehind

variable {c : Cursor} {k : Nat} {found : Except ScanFault Token × Cursor} {d : Diagnostic}
  {t : Token}

/-- An open comment is told of exactly if there is one. -/
theorem openComment_iff (h : c.FindsBehind k r found) :
    (∃ d, found.1 = .error (.misspelled d) ∧ d.kind = .unterminatedComment) ↔
      IsUnclosed r .openComment := by
  cases h with
  | comment hr => simp [hr, Problem.report, Problem.kind]
  | string hr =>
    have hcomment : ¬ IsUnclosed r .openComment := fun h => nomatch hr.unique h
    simp [hcomment, Problem.report, Problem.kind]
  | token hr => simp [hr]

/-- It is told of where it starts, and all that follows is passed. -/
theorem openComment (h : c.FindsBehind k r found) (hd : found.1 = .error (.misspelled d))
    (hkind : d.kind = .unterminatedComment) :
    d.location = (c.skip k).location ∧ found.2 = c.skip c.rest.length := by
  cases h with
  | comment =>
    cases hd
    exact ⟨rfl, rfl⟩
  | string =>
    cases hd
    cases hkind
  | token => cases hd

/-- An open string is told of exactly if there is one. -/
theorem openString_iff (h : c.FindsBehind k r found) :
    (∃ d, found.1 = .error (.misspelled d) ∧ d.kind = .unterminatedString) ↔
      IsUnclosed r .openString := by
  cases h with
  | comment hr =>
    have hstring : ¬ IsUnclosed r .openString := fun h => nomatch hr.unique h
    simp [hstring, Problem.report, Problem.kind]
  | string hr => simp [hr, Problem.report, Problem.kind]
  | token hr => simp [hr]

/-- It is told of where it starts, and its quote is passed. -/
theorem openString (h : c.FindsBehind k r found) (hd : found.1 = .error (.misspelled d))
    (hkind : d.kind = .unterminatedString) :
    d.location = (c.skip k).location ∧ found.2 = c.skip (k + 1) := by
  cases h with
  | comment =>
    cases hd
    cases hkind
  | string =>
    cases hd
    exact ⟨rfl, rfl⟩
  | token => cases hd

/-- A token is found exactly if neither of them is there. -/
theorem token_iff (h : c.FindsBehind k r found) :
    (∃ t, found.1 = .ok t) ↔ ¬ IsUnclosed r .openComment ∧ ¬ IsUnclosed r .openString := by
  cases h with
  | comment hr => simp [hr]
  | string hr => simp [hr]
  | token hr => simp [hr]

/-- A token is found where `r` starts, and its characters are passed. -/
theorem of_token (h : c.FindsBehind k r found) (ht : found.1 = .ok t) :
    t.location = (c.skip k).location ∧ (t.kind = .endOfInput ↔ r = []) ∧ t.written <+: r ∧
      found.2 = c.skip (k + t.written.length) := by
  cases h with
  | comment => cases ht
  | string => cases ht
  | token hr hlocation hkind hwritten =>
    cases ht
    exact ⟨hlocation, hkind, hwritten, rfl⟩

end Cursor.FindsBehind

/-- A text that opens with a token does not open with something unclosed. -/
theorem Token.Lexeme.not_isUnclosed {t : Token} {rest : List Char} (h : t.Lexeme rest) :
    ¬ IsUnclosed (t.written ++ rest) problem := by
  intro hunclosed
  let c := ofText (String.ofList (t.written ++ rest))
  have hc : c.rest = t.written ++ rest := String.toList_ofList
  obtain ⟨d, hd⟩ := nextToken_of_unclosed (hc.symm ▸ hunclosed)
  rw [nextToken_of_lexeme h hc] at hd
  cases hd

/-- What is found behind the longest blanks and comments is decided by what stands there. -/
theorem LongestTrivia.findsBehind {c : Cursor} (h : LongestTrivia g r) (hc : c.rest = g ++ r) :
    c.FindsBehind g.length r c.nextToken := by
  have hrest : (c.skip g.length).rest = r := by simp [hc]
  have hlength : c.rest.length = g.length + r.length := by rw [hc, List.length_append]
  rw [nextToken_of_trivia h.trivia hc]
  cases h.front with
  | done =>
    rw [nextToken_of_done hrest]
    exact .token (fun _ hunclosed => nomatch hunclosed) rfl (by simp) List.nil_prefix
  | @token t rest hlexeme =>
    have hkind : t.kind ≠ .endOfInput := hlexeme.kind_ne
    have hwritten : t.written ≠ [] := written_ne_nil hlexeme
    rw [nextToken_of_lexeme hlexeme hrest, ← skip_add]
    refine .token (fun _ => hlexeme.not_isUnclosed) rfl ?_ ⟨rest, rfl⟩
    simp [hkind, hwritten]
  | unclosed hunclosed =>
    cases hunclosed with
    | comment hbody =>
      rw [nextToken_of_openComment hbody hrest, text_skip, hrest, ← skip_add, ← hlength]
      exact .comment (.comment hbody)
    | string hbody =>
      rw [nextToken_of_openString hbody hrest, text_skip, ← skip_add]
      exact .string (.string hbody)

end Front

/-! ### Where tokens start -/

/-- At the offset `k` of a text a token starts, or something starts where one would: behind the
    first blanks and comments, or, if there is a token, where one starts in the text behind it. -/
inductive TokenStart : List Char → Nat → Prop
  | first {g r : List Char} : LongestTrivia g r → TokenStart (g ++ r) g.length
  | later {g rest : List Char} {t : Token} {k : Nat} :
    LongestTrivia g (t.written ++ rest) → t.Lexeme rest → TokenStart rest k →
    TokenStart (g ++ (t.written ++ rest)) (g.length + t.written.length + k)

/-- To pass a gap, a token and some more is to pass some of what is behind the token. -/
theorem drop_behind (g written rest : List Char) (k : Nat) :
    (g ++ (written ++ rest)).drop (g.length + written.length + k) = rest.drop k := by
  rw [← List.append_assoc, ← List.length_append, List.drop_length_add_append]

/-- What has no end where a token would start is the fault of the text. -/
theorem TokenStart.eager_fault {chars : List Char} {k : Nat} {problem : Problem} {c : Cursor}
    (h : TokenStart chars k) (hunclosed : IsUnclosed (chars.drop k) problem)
    (hc : c.rest = chars) :
    c.eager.2 = some (.misspelled
      (problem.report (c.skip k).location "end of input" c.text)) := by
  -- the tokens up to that place are found one by one, and the fault is the first one
  induction h generalizing c with
  | @first g r hg =>
    rw [List.drop_left] at hunclosed
    have hrest : (c.skip g.length).rest = r := by simp [hc]
    obtain ⟨d, hd⟩ := nextToken_of_unclosed (hrest.symm ▸ hunclosed)
    rw [← nextToken_of_trivia hg.trivia hc, text_skip] at hd
    rw [eager_of_error hd]
  | @later g rest t k hg hlexeme _ ih =>
    -- the token is found, and what has no end stands in the text behind it
    rw [drop_behind] at hunclosed
    let d := (c.skip g.length).skip t.written.length
    have hd : d.rest = rest := by simp [d, hc]
    have hskip : c.skip (g.length + t.written.length + k) = d.skip k := by
      rw [skip_add, skip_add]
    have htext : d.text = c.text := by rw [text_skip, text_skip]
    rw [eager_of_token (nextToken_of_found hg.trivia hc (.inl hlexeme)) hlexeme.kind_ne, hskip,
      ← htext]
    exact ih hunclosed hd

/-- A text has a fault exactly if something without an end starts where a token would. -/
theorem Cursor.eager_fault_iff {c : Cursor} {fault : ScanFault} :
    c.eager.2 = some fault ↔ ∃ k problem, TokenStart c.rest k ∧
      IsUnclosed (c.rest.drop k) problem ∧
      fault = .misspelled (problem.report (c.skip k).location "end of input" c.text) := by
  constructor
  · intro h
    -- the places where tokens start are those at which the list was continued
    fun_induction eager c with
    | case1 c fault' d hnext =>
      obtain rfl : fault' = fault := by simpa using h
      obtain ⟨g, chars, problem, hg, hc, hunclosed, hfault⟩ := nextToken_eq_error hnext
      have hstart : TokenStart (g ++ chars) g.length :=
        .first ((Front.unclosed hunclosed).longest hg)
      refine ⟨g.length, problem, hc ▸ hstart, ?_, hfault⟩
      rw [hc, List.drop_left]
      exact hunclosed
    | case2 c t d hnext hkind => cases h
    | case3 c t d hnext hkind _ ts fault' heager ih =>
      rw [heager] at ih
      obtain ⟨k, problem, hstart, hunclosed, hfault⟩ := ih h
      obtain ⟨g, hg, -, hd, hc, hlexeme | ⟨hend, -⟩⟩ := nextToken_eq_ok hnext
      · have hfront : Front (t.written ++ d.rest) := .token hlexeme
        refine ⟨g.length + t.written.length + k, problem, ?_, ?_, ?_⟩
        · rw [hc]
          exact .later (hfront.longest hg) hlexeme hstart
        · rw [hc, drop_behind]
          exact hunclosed
        · rw [hfault, skip_add, skip_add, ← hd, hd, text_skip, text_skip]
      · exact absurd hend hkind
  · rintro ⟨k, problem, hstart, hunclosed, rfl⟩
    exact hstart.eager_fault hunclosed rfl

/-! ### Whole texts -/

/-- The tokens of a text are not given exactly if something without an end starts where a token
    would. -/
theorem tokens_error_iff {source : String} {fault : ScanFault} :
    (ofText source).tokens.1 = .error fault ↔ ∃ k problem, TokenStart source.toList k ∧
      IsUnclosed (source.toList.drop k) problem ∧ fault = .misspelled
        (problem.report ((ofText source).skip k).location "end of input" source) := by
  have htext : (ofText source).text = source := String.ofList_toList
  have hfault : (ofText source).tokens.1 = .error fault ↔ (ofText source).eager.2 = some fault := by
    rw [tokens_eq_eager]
    cases (ofText source).eager.2 <;> simp
  rw [hfault, eager_fault_iff, htext, rest_ofText]

/-- Such a place is the only one. -/
theorem TokenStart.unique {chars : List Char} {k k' : Nat} {problem problem' : Problem}
    (h : TokenStart chars k) (hunclosed : IsUnclosed (chars.drop k) problem)
    (h' : TokenStart chars k') (hunclosed' : IsUnclosed (chars.drop k') problem') : k' = k := by
  let c := ofText (String.ofList chars)
  have hc : c.rest = chars := String.toList_ofList
  have hle {k : Nat} {problem : Problem} (hunclosed : IsUnclosed (chars.drop k) problem) :
      k ≤ c.rest.length := by
    by_contra hlt
    rw [List.drop_of_length_le (by rw [hc] at hlt; omega)] at hunclosed
    cases hunclosed
  have hsame := (h'.eager_fault hunclosed' hc).symm.trans (h.eager_fault hunclosed hc)
  have hplaces : ((c.skip k').offset : Int) = (c.skip k).offset :=
    congrArg (fun fault => (foundAt (.error fault)).offset) (Option.some.inj hsame)
  rw [offset_skip (hle hunclosed'), offset_skip (hle hunclosed)] at hplaces
  omega

/-- **Tokens are not found only at comments and strings without an end.**  Let a cursor have passed
    `p` characters of a text, and let `r` be what follows its longest blanks and comments from there
    on.  An open comment is reported exactly if `r` opens one that has no closing; it is reported
    where `r` starts, and the whole text is passed.  An open string is reported exactly if `r`
    starts with a quote that no other one follows; it is reported there, and the quote is passed.
    In all other cases a token is found where `r` starts, which is the end of the input exactly if
    `r` is empty, and its characters are passed.  So all tokens of the text are found exactly if
    none starts with what has no end; the first such place, which is the only one, is reported. -/
theorem tokens_by_starts (source : String) :
    (∀ p ≤ source.length, ∃ g r, source.toList.drop p = g ++ r ∧ LongestTrivia g r ∧
      let found := ((ofText source).skip p).nextToken
      let start := (ofText source).skip (p + g.length)
      start.offset = p + g.length ∧
      ((∃ d, found.1 = .error (.misspelled d) ∧ d.kind = .unterminatedComment) ↔
        IsUnclosed r .openComment) ∧
      (∀ d, found.1 = .error (.misspelled d) → d.kind = .unterminatedComment →
        d.location = start.location ∧ found.2 = (ofText source).skip source.length) ∧
      ((∃ d, found.1 = .error (.misspelled d) ∧ d.kind = .unterminatedString) ↔
        IsUnclosed r .openString) ∧
      (∀ d, found.1 = .error (.misspelled d) → d.kind = .unterminatedString →
        d.location = start.location ∧ found.2 = (ofText source).skip (p + g.length + 1)) ∧
      ((∃ t, found.1 = .ok t) ↔ ¬ IsUnclosed r .openComment ∧ ¬ IsUnclosed r .openString) ∧
      ∀ t, found.1 = .ok t → t.location = start.location ∧ (t.kind = .endOfInput ↔ r = []) ∧
        t.written <+: r ∧ found.2 = (ofText source).skip (p + g.length + t.written.length)) ∧
    ((∃ fault, (ofText source).tokens.1 = .error fault) ↔
      ∃ k problem, TokenStart source.toList k ∧ IsUnclosed (source.toList.drop k) problem) ∧
    ∀ fault, (ofText source).tokens.1 = .error fault →
      ∃ k problem, TokenStart source.toList k ∧ IsUnclosed (source.toList.drop k) problem ∧
        fault = .misspelled
          (problem.report ((ofText source).skip k).location "end of input" source) ∧
        ∀ k' problem', TokenStart source.toList k' →
          IsUnclosed (source.toList.drop k') problem' → k' = k := by
  refine ⟨fun p hp => ?_, ?_, fun fault hfault => ?_⟩
  · obtain ⟨g, r, hdrop, hg⟩ := exists_longestTrivia (source.toList.drop p)
    have hc : ((ofText source).skip p).rest = g ++ r := by rw [rest_skip, rest_ofText, hdrop]
    have hlength : p + (g ++ r).length = source.length := by
      rw [← hdrop, List.length_drop, String.length_toList]
      omega
    have hplace (n : Nat) : ((ofText source).skip p).skip n = (ofText source).skip (p + n) :=
      (skip_add p n _).symm
    have hfound := hg.findsBehind hc
    refine ⟨g, r, hdrop, hg, ?_⟩
    intro found start
    have hoffset : start.offset = p + g.length := by
      have hle : p + g.length ≤ (ofText source).rest.length := by
        rw [rest_ofText, String.length_toList, ← hlength, List.length_append]
        omega
      rw [offset_skip hle]
      exact Nat.zero_add _
    have hend : ((ofText source).skip p).skip ((ofText source).skip p).rest.length
        = (ofText source).skip source.length := by
      rw [hplace, hc, hlength]
    refine ⟨hoffset, ?_⟩
    -- all places are told from where the cursor is
    simp only [start, found, ← hend, Nat.add_assoc, ← hplace]
    exact ⟨hfound.openComment_iff, fun _ => hfound.openComment, hfound.openString_iff,
      fun _ => hfound.openString, hfound.token_iff, fun _ => hfound.of_token⟩
  · constructor
    · rintro ⟨fault, hfault⟩
      obtain ⟨k, problem, hstart, hunclosed, -⟩ := tokens_error_iff.mp hfault
      exact ⟨k, problem, hstart, hunclosed⟩
    · rintro ⟨k, problem, hstart, hunclosed⟩
      exact ⟨_, tokens_error_iff.mpr ⟨k, problem, hstart, hunclosed, rfl⟩⟩
  · obtain ⟨k, problem, hstart, hunclosed, rfl⟩ := tokens_error_iff.mp hfault
    exact ⟨k, problem, hstart, hunclosed, rfl, fun k' problem' hstart' hunclosed' =>
      hstart.unique hunclosed hstart' hunclosed'⟩

/-- The kind of the diagnostic that is given in place of a token. -/
def diagnosticKind? : Except ScanFault Token → Option ErrorKind
  | .error (.misspelled d) => some d.kind
  | _ => none

/-- A comment with a quote in it is passed, and the quote behind it is not closed. -/
theorem tokens_by_starts_of_quote :
    let source := "a /*\"*/\"b"
    (∃ g r, source.toList.drop 1 = g ++ r ∧ LongestTrivia g r ∧ IsUnclosed r .openString) ∧
    ∃ k problem, TokenStart source.toList k ∧ IsUnclosed (source.toList.drop k) problem ∧
      (ofText source).tokens.1 = .error (.misspelled
        (problem.report ((ofText source).skip k).location "end of input" source)) := by
  intro source
  obtain ⟨hfinds, -, hfirst⟩ := tokens_by_starts source
  constructor
  · obtain ⟨g, r, hdrop, hg, -, -, -, hstring, -⟩ := hfinds 1 (by decide)
    have hkind : diagnosticKind? ((ofText source).skip 1).nextToken.1
        = some .unterminatedString := by
      decide +kernel
    refine ⟨g, r, hdrop, hg, hstring.mp ?_⟩
    unfold diagnosticKind? at hkind
    split at hkind
    case h_1 d hd => exact ⟨d, hd, Option.some.inj hkind⟩
    case h_2 => cases hkind
  · obtain ⟨fault, hfault⟩ : ∃ fault, (ofText source).tokens.1 = .error fault := by
      have hnone : (ofText source).tokens.1.toOption = none := by decide +kernel
      cases hout : (ofText source).tokens.1 with
      | error fault => exact ⟨fault, rfl⟩
      | ok ts =>
        rw [hout] at hnone
        cases hnone
    obtain ⟨k, problem, hstart, hunclosed, rfl, -⟩ := hfirst fault hfault
    exact ⟨k, problem, hstart, hunclosed, hfault⟩

end ScopedQuery
