import ScopedQuery.Proofs.Carry
import ScopedQuery.Proofs.Lexeme

namespace ScopedQuery

open Text Cursor

/-!
# Texts with unified line breaks

A text may break its lines in any of three ways.  With each break written as a line feed it has the
same tokens, at the same lines and columns, since no token starts or ends inside of a break.

* `Text.SplitsBreak` — a place between the two characters of one break.
* `Text.unifyLineBreaks_append` — at any other place a text can be cut before it is unified.
* `IsTrivia.unify`, `Token.Lexeme.unify`, `IsUnclosed.unify` — blanks, comments and tokens stay what
  they are.
* `Cursor.Unifies` — a cursor in the unified text for a cursor in the text.
* `Cursor.carries_unifies` — the tokens of the one are those of the other told again.
-/

namespace Text

/-! ### Characters -/

/-- The text ends with a carriage return, and the other one starts with a line feed. -/
def SplitsBreak (before after : List Char) : Prop :=
  before.getLast? = some '\r' ∧ after.head? = some '\n'

/-- The first character stays, unless it is a carriage return. -/
theorem head?_unifyLineBreaks (chars : List Char) :
    (unifyLineBreaks chars).head? = chars.head?.map fun c => if c = '\r' then '\n' else c := by
  fun_cases unifyLineBreaks chars with
  | case1 => rfl
  | case2 => rfl
  | case3 => rfl
  | case4 c rest _ hc =>
    have hne : c ≠ '\r' := fun h => hc h
    simp [hne]

/-- A text without carriage returns stays as it is. -/
theorem unifyLineBreaks_of_not_mem {chars : List Char} (h : '\r' ∉ chars) :
    unifyLineBreaks chars = chars := by
  fun_induction unifyLineBreaks chars with
  | case1 => rfl
  | case2 => simp at h
  | case3 => simp at h
  | case4 c rest _ _ ih => rw [ih fun hmem => h (List.mem_cons_of_mem c hmem)]

/-- No character appears but line feeds. -/
theorem mem_of_mem_unifyLineBreaks {chars : List Char} {c : Char}
    (h : c ∈ unifyLineBreaks chars) : c ∈ chars ∨ c = '\n' := by
  fun_induction unifyLineBreaks chars with
  | case1 => simp at h
  | case2 rest ih =>
    rcases List.mem_cons.mp h with rfl | h
    · exact .inr rfl
    · exact (ih h).imp_left fun hmem => by simp [hmem]
  | case3 rest _ ih =>
    rcases List.mem_cons.mp h with rfl | h
    · exact .inr rfl
    · exact (ih h).imp_left fun hmem => by simp [hmem]
  | case4 d rest _ _ ih =>
    rcases List.mem_cons.mp h with rfl | h
    · exact .inl (by simp)
    · exact (ih h).imp_left fun hmem => by simp [hmem]

/-- A cut inside of a line break is one whatever stands further in front. -/
theorem SplitsBreak.of_cons {c : Char} {before after : List Char}
    (h : SplitsBreak before after) : SplitsBreak (c :: before) after := by
  refine ⟨?_, h.2⟩
  rcases before with _ | ⟨d, before⟩
  · cases h.1
  · rw [List.getLast?_cons_cons]
    exact h.1

/-- A text that is not cut inside of a break is unified part by part. -/
theorem unifyLineBreaks_append {before after : List Char} (h : ¬ SplitsBreak before after) :
    unifyLineBreaks (before ++ after) = unifyLineBreaks before ++ unifyLineBreaks after := by
  fun_induction unifyLineBreaks before with
  | case1 => rfl
  | case2 rest ih =>
    have hrest := ih fun hsplit => h hsplit.of_cons.of_cons
    rw [List.cons_append, List.cons_append, unifyLineBreaks, hrest]
    rfl
  | case3 rest hrest ih =>
    -- the line feed that would belong to the carriage return is in neither part
    have hnext : (rest ++ after).head? ≠ some '\n' := by
      rcases rest with _ | ⟨c, rest⟩
      · exact fun hafter => h ⟨rfl, hafter⟩
      · intro hc
        obtain rfl : c = '\n' := Option.some.inj hc
        exact hrest rest rfl
    rw [List.cons_append, unifyLineBreaks, ih fun hsplit => h hsplit.of_cons]
    · rfl
    · intro tail htail
      exact hnext (by rw [htail]; rfl)
  | case4 c rest _ hc ih =>
    rw [List.cons_append, unifyLineBreaks, ih fun hsplit => h hsplit.of_cons]
    · rfl
    · exact fun tail hcr _ => hc hcr
    · exact hc

/-- A character that ends no line is put on the first one. -/
theorem lines_cons_of_ne {c : Char} (hr : c ≠ '\r') (hn : c ≠ '\n') (rest : List Char) :
    lines (c :: rest) = (c :: (lines rest).headD []) :: (lines rest).tail := by
  rw [lines.eq_def]
  split
  · cases ‹c :: rest = []›
  · exact absurd (List.cons.inj ‹c :: rest = _›).1 hr
  · exact absurd (List.cons.inj ‹c :: rest = _›).1 hr
  · exact absurd (List.cons.inj ‹c :: rest = _›).1 hn
  · obtain ⟨rfl, rfl⟩ := List.cons.inj ‹c :: rest = _›
    cases lines rest <;> rfl

/-- The lines of a text are those of the unified text. -/
theorem lines_unifyLineBreaks (chars : List Char) :
    lines (unifyLineBreaks chars) = lines chars := by
  fun_induction unifyLineBreaks chars with
  | case1 => rfl
  | case2 rest ih => simp [lines, ih]
  | case3 rest hrest ih =>
    rw [lines, lines, ih]
    exact hrest
  | case4 c rest _ hc ih =>
    by_cases hfeed : c = '\n'
    · rw [hfeed, lines, lines, ih]
    · rw [lines_cons_of_ne hc hfeed, lines_cons_of_ne hc hfeed, ih]

/-- Characters other than carriage returns are kept one by one. -/
theorem unifyLineBreaks_cons {c : Char} (hc : c ≠ '\r') (rest : List Char) :
    unifyLineBreaks (c :: rest) = c :: unifyLineBreaks rest := by
  have hsplit : ¬ SplitsBreak [c] rest := fun h => hc (Option.some.inj h.1)
  have hone : unifyLineBreaks [c] = [c] := unifyLineBreaks_of_not_mem (by simpa using hc.symm)
  have happend := unifyLineBreaks_append hsplit
  rw [hone] at happend
  exact happend

/-- A character that breaks no line is first in both texts. -/
theorem head?_unifyLineBreaks_iff {c : Char} (hr : c ≠ '\r') (hn : c ≠ '\n')
    {chars : List Char} : (unifyLineBreaks chars).head? = some c ↔ chars.head? = some c := by
  rw [head?_unifyLineBreaks]
  rcases chars with _ | ⟨d, rest⟩
  · rfl
  by_cases hd : d = '\r'
  · simp [hd, hn.symm, hr.symm]
  · simp [hd]

/-- A closing that is found in the unified text was there before. -/
theorem not_closing_unifyLineBreaks {chars : List Char} (h : ¬ commentClose <:+: chars) :
    ¬ commentClose <:+: unifyLineBreaks chars := by
  -- a line feed is no part of a closing
  have hbreak {rest : List Char} (hrest : ¬ commentClose <:+: unifyLineBreaks rest) :
      ¬ commentClose <:+: '\n' :: unifyLineBreaks rest := by
    rw [List.infix_cons_iff, not_or]
    exact ⟨by simp [commentClose], hrest⟩
  -- a closing is looked for two characters at a time
  have hclosing (c : Char) (rest : List Char) :
      commentClose <+: c :: rest ↔ c = '*' ∧ rest.head? = some '/' := by
    rcases rest with _ | ⟨d, rest⟩
    · simp [commentClose]
    · simp [commentClose, eq_comm]
  fun_induction unifyLineBreaks chars with
  | case1 => exact h
  | case2 rest ih =>
    rw [List.infix_cons_iff, not_or, List.infix_cons_iff, not_or] at h
    exact hbreak (ih h.2.2)
  | case3 rest _ ih =>
    rw [List.infix_cons_iff, not_or] at h
    exact hbreak (ih h.2)
  | case4 c rest _ _ ih =>
    rw [List.infix_cons_iff, not_or, hclosing] at h ⊢
    rw [head?_unifyLineBreaks_iff (by decide) (by decide)]
    exact ⟨h.1, ih h.2⟩

end Text

/-! ### Blanks, comments and tokens -/

theorem blank_ne_return {c : Char} (h : isBlank c = true) : c ≠ '\r' := by
  rintro rfl
  exact absurd h (by decide)

/-- Blanks and comments do not end inside of a line break. -/
theorem IsTrivia.not_splitsBreak {g : List Char} (h : IsTrivia g) (rest : List Char) :
    ¬ SplitsBreak g rest := by
  -- a carriage return is no blank, and a comment ends with a slash
  have hlast : g.getLast? ≠ some '\r' := by
    induction h with
    | nil => simp
    | @blank c g hblank _ ih =>
      rcases hg : g.getLast? with _ | last
      · rw [List.getLast?_eq_none_iff.mp hg]
        simpa using blank_ne_return hblank
      · rw [← List.singleton_append, List.getLast?_append, hg]
        rw [hg] at ih
        exact ih
    | @comment body g _ _ ih =>
      simp only [List.getLast?_append]
      rcases hg : g.getLast? with _ | last
      · simp [commentClose]
      · rw [hg] at ih
        exact ih
  exact fun hsplit => hlast hsplit.1

/-- Blanks and comments stay blanks and comments, whatever line breaks are in them. -/
theorem IsTrivia.unify {g : List Char} (h : IsTrivia g) : IsTrivia (unifyLineBreaks g) := by
  induction h with
  | nil => exact .nil
  | @blank c rest hblank _ ih =>
    rw [unifyLineBreaks_cons (blank_ne_return hblank)]
    exact .blank hblank ih
  | @comment body rest hbody _ ih =>
    -- a mark neither starts nor ends with half a break, so the comment is unified part by part
    have hclose : unifyLineBreaks (commentClose ++ rest)
        = commentClose ++ unifyLineBreaks rest := by
      rw [unifyLineBreaks_append (fun h => absurd h.1 (by decide))]
      rfl
    have hinner : unifyLineBreaks (body ++ (commentClose ++ rest))
        = unifyLineBreaks body ++ (commentClose ++ unifyLineBreaks rest) := by
      rw [unifyLineBreaks_append (fun h => absurd h.2 (by simp [commentClose])), hclose]
    rw [unifyLineBreaks_append (fun h => absurd h.1 (by decide)), hinner]
    exact .comment (not_closing_unifyLineBreaks hbody) ih

/-- What has no end has none in the unified text. -/
theorem IsUnclosed.unify {chars : List Char} {problem : Problem} (h : IsUnclosed chars problem) :
    IsUnclosed (unifyLineBreaks chars) problem := by
  cases h with
  | @comment body hbody =>
    rw [unifyLineBreaks_append (fun h => absurd h.1 (by decide))]
    exact .comment (not_closing_unifyLineBreaks hbody)
  | @string body hbody =>
    rw [unifyLineBreaks_cons (by decide)]
    refine .string fun hmem => hbody ?_
    exact (mem_of_mem_unifyLineBreaks hmem).resolve_right (by decide)

/-- The text with every line break written as one line feed. -/
def Text.unified (text : String) : String := String.ofList (unifyLineBreaks text.toList)

/-- The tokens of a text told again by the unified text: the same line breaks are unified in the
    strings, and as many characters are missing before a place as before it in the text. -/
def Carrier.unifying (source : List Char) : Carrier where
  text := unified
  place l := { l with offset := (unifyLineBreaks (source.take l.offset.toNat)).length }

/-- Carriage returns are found in strings and line breaks only. -/
theorem Token.IsSpelled.not_mem_return [NameTable] {t : Token} (h : t.IsSpelled)
    (hkind : ¬ (t.kind = .string ∨ t.kind = .newline)) : '\r' ∉ t.value.toList := by
  obtain ⟨kind, value, location⟩ := t
  -- names hold no dividers, strays are no returns, and the other texts are fixed
  cases kind with
  | string => simp at hkind
  | newline => simp at hkind
  | identifier =>
    intro hmem
    have hname : isName value.toList = true := h
    obtain ⟨c, tail, hvalue⟩ := List.exists_cons_of_ne_nil (List.ne_nil_of_mem hmem)
    have hcontinue : ∀ d ∈ value.toList, isNameContinue d = true := by
      rw [hvalue] at hname ⊢
      simp only [isName, Bool.and_eq_true] at hname
      rw [List.forall_mem_cons]
      exact ⟨isNameContinue_of_isNameStart hname.1, List.all_eq_true.mp hname.2⟩
    exact absurd (hcontinue _ hmem) (by simp [isNameContinue_of_divider (c := '\r') (by decide)])
  | stray =>
    obtain ⟨c, rfl, -, hreturn, -⟩ := h
    simpa using hreturn.symm
  | endOfInput =>
    obtain rfl : "EOF" = value := Option.some.inj h
    show '\r' ∉ "EOF".toList
    decide
  | custom label => exact absurd h id
  | _ =>
    -- the kind has one text only, which is one character long
    obtain ⟨c, hpunctuation, rfl⟩ := TokenKind.exists_punctuation h (by simp)
    have hall : ∀ entry ∈ TokenKind.punctuation, '\r' ≠ entry.1 := by decide
    simpa using hall _ (TokenKind.mem_punctuation hpunctuation)

section Tokens

variable {t : Token} {rest source : List Char}

variable (source) in
/-- The text of a token told again is its unified text; only strings and line breaks have something
    to unify. -/
theorem Token.value_carry_unifying (h : t.IsSpelled) :
    (t.carry (.unifying source)).value.toList = unifyLineBreaks t.value.toList := by
  by_cases hkind : t.kind = .string ∨ t.kind = .newline
  · simp [carry, hkind, Carrier.unifying, unified]
  · simp [carry, hkind, unifyLineBreaks_of_not_mem (h.not_mem_return hkind)]

variable (source) in
/-- The same holds for its characters. -/
theorem Token.written_carry_unifying (h : t.IsSpelled) :
    (t.carry (.unifying source)).written = unifyLineBreaks t.written := by
  have hvalue := value_carry_unifying source h
  unfold written
  rw [kind_carry]
  split
  · rw [hvalue, unifyLineBreaks_cons (by decide),
      unifyLineBreaks_append (fun h => absurd h.2 (by simp))]
    rfl
  · rfl
  · exact hvalue

/-- No token ends inside of a line break. -/
theorem Token.Lexeme.not_splitsBreak [NameTable] (h : t.Lexeme rest) :
    ¬ SplitsBreak t.written rest := by
  rintro ⟨hlast, hhead⟩
  obtain ⟨kind, value, location⟩ := t
  by_cases hkind : kind = .string ∨ kind = .newline
  · rcases hkind with rfl | rfl
    · have hquote : (⟨.string, value, location⟩ : Token).written
          = ('"' :: value.toList) ++ ['"'] := rfl
      rw [hquote, List.getLast?_concat] at hlast
      exact absurd hlast (by decide)
    · have hvalue : value = "\n" ∨ value = "\r" ∨ value = "\r\n" := by
        simpa [IsSpelled] using h.spelled
      rcases hvalue with rfl | rfl | rfl
      · simp [written] at hlast
      · exact h.ends rfl hhead
      · simp [written] at hlast
  · -- no other token holds a carriage return
    apply h.spelled.not_mem_return hkind
    rw [not_or] at hkind
    have hend := h.kind_ne
    have hwritten : (⟨kind, value, location⟩ : Token).written = value.toList := by
      unfold written
      split
      · exact absurd ‹kind = _› hkind.1
      · exact absurd ‹kind = _› hend
      · rfl
    rw [hwritten] at hlast
    exact List.mem_of_getLast? hlast

/-- So the token told again is spelled. -/
theorem Token.isSpelled_carry_unifying (h : t.IsSpelled) :
    (t.carry (.unifying source)).IsSpelled := by
  obtain ⟨kind, value, location⟩ := t
  have hvalue := value_carry_unifying source h
  cases kind with
  | string =>
    show '"' ∉ _
    rw [hvalue]
    intro hmem
    exact h ((mem_of_mem_unifyLineBreaks hmem).resolve_right (by decide))
  | newline =>
    have hbreak : value = "\n" ∨ value = "\r" ∨ value = "\r\n" := by
      simpa [IsSpelled] using h
    have hunified : unified value = "\n" := by
      rcases hbreak with rfl | rfl | rfl <;> decide
    show unified value ∈ _
    rw [hunified]
    simp
  | _ => exact h

/-- A name still ends where it ended. -/
theorem EndsName.unify (h : EndsName rest) : EndsName (unifyLineBreaks rest) := by
  intro c hc
  rw [head?_unifyLineBreaks] at hc
  obtain ⟨d, hd, rfl⟩ := Option.map_eq_some_iff.mp hc
  by_cases hreturn : d = '\r'
  · rw [if_pos hreturn]
    decide
  · rw [if_neg hreturn]
    exact h d hd

/-- A token stays a token in the unified text. -/
theorem Token.Lexeme.unify (h : t.Lexeme rest) :
    (t.carry (.unifying source)).Lexeme (unifyLineBreaks rest) := by
  refine ⟨isSpelled_carry_unifying h.spelled, h.kind_ne, ?_⟩
  have hvalue := value_carry_unifying source h.spelled
  have hends := h.ends
  obtain ⟨kind, value, location⟩ := t
  cases kind with
  | identifier => exact EndsName.unify hends
  | newline =>
    intro hreturn
    rw [hreturn] at hvalue
    -- no carriage return is left in a unified break
    exact absurd (hvalue ▸ not_mem_unifyLineBreaks value.toList) (by decide)
  | stray =>
    intro hslash
    have hother := hends hslash
    rwa [ne_eq, head?_unifyLineBreaks_iff (by decide) (by decide)]
  | _ => trivial

end Tokens

/-! ### Cursors -/

namespace Cursor

variable {c c' d : Cursor} {g rest : List Char} {t : Token}

/-- The characters that a cursor has passed. -/
def past (c : Cursor) : List Char := c.source.take c.offset

/-- What a cursor has passed grows by what it passes. -/
theorem past_skip (hc : c.rest = g ++ rest) : (c.skip g.length).past = c.past ++ g := by
  have hle : g.length ≤ c.rest.length := by simp [hc]
  rw [past, past, source_skip, offset_skip hle, List.take_add, ← c.rest_eq, hc, List.take_left]

/-- The cursor `c'` stands in the unified text where `c` stands in the text. -/
structure Unifies (c c' : Cursor) : Prop where
  source : c'.source = unifyLineBreaks c.source
  rest : c'.rest = unifyLineBreaks c.rest
  offset : c'.offset = (unifyLineBreaks c.past).length
  line : c'.line = c.line
  col : c'.col = c.col
  whole : ¬ SplitsBreak c.past c.rest

/-- Behind the end of a line the next one starts. -/
theorem line_col_bump_of_ends {first : Char} (hc : c.rest = first :: rest)
    (hends : endsLine first rest = true) : c.bump.line = c.line + 1 ∧ c.bump.col = 1 := by
  have hplace := location_bump hc
  rw [if_pos hends] at hplace
  exact ⟨congrArg Location.line hplace, congrArg Location.col hplace⟩

/-- A carriage return in front of a line feed moves the cursor neither down nor right. -/
theorem line_col_bump_of_return (hc : c.rest = '\r' :: '\n' :: rest) :
    c.bump.line = c.line ∧ c.bump.col = c.col := by
  have hplace := location_bump hc
  rw [if_neg (by simp [endsLine]), if_pos rfl] at hplace
  exact ⟨congrArg Location.line hplace, congrArg Location.col hplace⟩

/-- Any other character moves the column by one. -/
theorem line_col_bump_of_ne {first : Char} (hc : c.rest = first :: rest) (hr : first ≠ '\r')
    (hn : first ≠ '\n') : c.bump.line = c.line ∧ c.bump.col = c.col + 1 := by
  have hplace := location_bump hc
  rw [if_neg (by simp [endsLine, hr, hn]), if_neg hr] at hplace
  exact ⟨congrArg Location.line hplace, congrArg Location.col hplace⟩

/-- A cursor that passes a line break comes to the start of the next line, however the break is
    written. -/
theorem line_col_skip_unify (hc : c.rest = g ++ rest)
    (hc' : c'.rest = unifyLineBreaks g ++ unifyLineBreaks rest) (hsplit : ¬ SplitsBreak g rest)
    (hline : c'.line = c.line) (hcol : c'.col = c.col) :
    (c'.skip (unifyLineBreaks g).length).line = (c.skip g.length).line ∧
      (c'.skip (unifyLineBreaks g).length).col = (c.skip g.length).col := by
  -- a break counts as a line where its line feed is passed, or the return that stands alone
  fun_induction unifyLineBreaks g generalizing c c' with
  | case1 => exact ⟨hline, hcol⟩
  | case2 g ih =>
    have hbump : c.bump.rest = '\n' :: (g ++ rest) := by rw [rest_bump, hc]; rfl
    have hfirst := line_col_bump_of_return hc
    have hsecond := line_col_bump_of_ends hbump rfl
    have hfeed := line_col_bump_of_ends hc' rfl
    refine ih (by rw [rest_bump, hbump]; rfl) (by rw [rest_bump, hc']; rfl)
      (fun h => hsplit h.of_cons.of_cons) ?_ ?_
    · rw [hfeed.1, hsecond.1, hfirst.1, hline]
    · rw [hfeed.2, hsecond.2]
  | case3 g hg ih =>
    -- this return has no line feed behind it, so it ends its line by itself
    have hends : endsLine '\r' (g ++ rest) = true := by
      have hnext : (g ++ rest).head? ≠ some '\n' := by
        rcases g with _ | ⟨first, g⟩
        · exact fun hhead => hsplit ⟨rfl, hhead⟩
        · intro hhead
          obtain rfl : first = '\n' := Option.some.inj hhead
          exact hg g rfl
      rw [endsLine, bne_iff_ne.mpr hnext]
      rfl
    have hreturn := line_col_bump_of_ends hc hends
    have hfeed := line_col_bump_of_ends hc' rfl
    refine ih (by rw [rest_bump, hc]; rfl) (by rw [rest_bump, hc']; rfl)
      (fun h => hsplit h.of_cons) ?_ ?_
    · rw [hfeed.1, hreturn.1, hline]
    · rw [hfeed.2, hreturn.2]
  | case4 first g _ hfirst ih =>
    have hsame : c'.bump.line = c.bump.line ∧ c'.bump.col = c.bump.col := by
      by_cases hn : first = '\n'
      · obtain rfl := hn
        have hleft := line_col_bump_of_ends hc rfl
        have hright := line_col_bump_of_ends hc' rfl
        rw [hleft.1, hleft.2, hright.1, hright.2, hline]
        exact ⟨rfl, rfl⟩
      · have hleft := line_col_bump_of_ne hc hfirst hn
        have hright := line_col_bump_of_ne hc' hfirst hn
        rw [hleft.1, hleft.2, hright.1, hright.2, hline, hcol]
        exact ⟨rfl, rfl⟩
    exact ih (by rw [rest_bump, hc]; rfl) (by rw [rest_bump, hc']; rfl)
      (fun h => hsplit h.of_cons) hsame.1 hsame.2

/-- A cursor that does not stand inside of a break does not come there either by passing characters
    that do not end inside of one. -/
theorem not_splitsBreak_skip (hwhole : ¬ SplitsBreak c.past c.rest) (hc : c.rest = g ++ rest)
    (hsplit : ¬ SplitsBreak g rest) :
    ¬ SplitsBreak (c.skip g.length).past (c.skip g.length).rest := by
  have hbehind : (c.skip g.length).rest = rest := by simp [hc]
  rw [past_skip hc, hbehind]
  -- if nothing is passed, it is the old place; otherwise only the passed characters count
  rcases hg : g.getLast? with _ | last
  · obtain rfl := List.getLast?_eq_none_iff.mp hg
    rw [List.append_nil]
    exact fun hsplit' => hwhole ⟨hsplit'.1, by rw [hc]; exact hsplit'.2⟩
  · intro hsplit'
    refine hsplit ⟨?_, hsplit'.2⟩
    have hlast := hsplit'.1
    rw [List.getLast?_append, hg] at hlast
    exact hg.trans hlast

/-- Both cursors may pass the same part of the text, if that does not cut a line break in half. -/
theorem Unifies.skip (h : Unifies c c') (hc : c.rest = g ++ rest) (hsplit : ¬ SplitsBreak g rest) :
    Unifies (c.skip g.length) (c'.skip (unifyLineBreaks g).length) := by
  have hrest : c'.rest = unifyLineBreaks g ++ unifyLineBreaks rest := by
    rw [h.rest, hc, unifyLineBreaks_append hsplit]
  have hle : (unifyLineBreaks g).length ≤ c'.rest.length := by simp [hrest]
  have hbehind : (c.skip g.length).rest = rest := by simp [hc]
  obtain ⟨hline, hcol⟩ := line_col_skip_unify hc hrest hsplit h.line h.col
  -- what was passed before and what is passed now do not share a break
  have hwhole : ¬ SplitsBreak c.past g := by
    rintro ⟨hlast, hhead⟩
    refine h.whole ⟨hlast, ?_⟩
    rw [hc, List.head?_append, hhead]
    rfl
  refine ⟨?_, ?_, ?_, hline, hcol, not_splitsBreak_skip h.whole hc hsplit⟩
  · rw [source_skip, source_skip, h.source]
  · rw [rest_skip, hrest, List.drop_left, hbehind]
  · rw [offset_skip hle, past_skip hc, unifyLineBreaks_append hwhole, List.length_append, h.offset]

/-- The cursor in the unified text is at the place told again. -/
theorem Unifies.location (h : Unifies c c') :
    c'.location = (Carrier.unifying c.source).place c.location := by
  simp only [Cursor.location, Carrier.unifying, h.line, h.col, h.offset, past, Int.toNat_natCast]

/-- The tokens of the unified text are those of the text told again. -/
theorem Unifies.token (h : Unifies c c') (hnext : c.nextToken = (.ok t, d)) :
    ∃ d', c'.nextToken = (.ok (t.carry (.unifying c.source)), d') ∧ Unifies d d' := by
  obtain ⟨g, hg, hlocation, hd, hc, hfound⟩ := nextToken_eq_ok hnext
  let m : Carrier := .unifying c.source
  have hwritten : (t.carry m).written = unifyLineBreaks t.written :=
    Token.written_carry_unifying c.source (isSpelled_nextToken hnext)
  have hsplit : ¬ SplitsBreak t.written d.rest := by
    rcases hfound with hlexeme | ⟨-, -, hend⟩
    · exact hlexeme.not_splitsBreak
    · simp [SplitsBreak, hend]
  -- blanks, spelling and what follows the token survive, so the scanner finds it again
  have hfound' : (t.carry m).Lexeme (unifyLineBreaks d.rest) ∨
      ((t.carry m).kind = .endOfInput ∧ (t.carry m).value = "EOF" ∧
        unifyLineBreaks d.rest = []) := by
    rcases hfound with hlexeme | ⟨hkind, hvalue, hend⟩
    · exact .inl hlexeme.unify
    · exact .inr ⟨hkind, by simp [Token.carry, hkind, hvalue], by rw [hend]; rfl⟩
  have hrest : c'.rest
      = unifyLineBreaks g ++ ((t.carry m).written ++ unifyLineBreaks d.rest) := by
    rw [h.rest, hc, unifyLineBreaks_append (hg.not_splitsBreak _), unifyLineBreaks_append hsplit,
      hwritten]
  have hfront : Unifies (c.skip g.length) (c'.skip (unifyLineBreaks g).length) :=
    h.skip hc (hg.not_splitsBreak _)
  have he : (c.skip g.length).rest = t.written ++ d.rest := by simp [hc]
  have hplace : (c'.skip (unifyLineBreaks g).length).location = m.place t.location := by
    rw [hfront.location, source_skip, hlocation]
  refine ⟨_, nextToken_of_found hg.unify hrest hfound' |>.trans ?_, hd ▸ hfront.skip he hsplit⟩
  rw [hplace, hwritten]
  rfl

/-- The unified text has the fault of the text, at the same line and column. -/
theorem Unifies.fault {fault : ScanFault} (h : Unifies c c')
    (hnext : c.nextToken = (.error fault, d)) :
    ∃ (problem : Problem) (location : Location) (d' : Cursor),
      (problem = .openComment ∨ problem = .openString) ∧
      fault = .misspelled (problem.report location "end of input" c.text) ∧
      c'.nextToken = (.error (.misspelled (problem.report
        ((Carrier.unifying c.source).place location) "end of input" c'.text)), d') := by
  obtain ⟨g, chars, problem, hg, hc, hunclosed, rfl⟩ := nextToken_eq_error hnext
  have hrest : c'.rest = unifyLineBreaks g ++ unifyLineBreaks chars := by
    rw [h.rest, hc, unifyLineBreaks_append (hg.not_splitsBreak _)]
  have hfront := h.skip hc (hg.not_splitsBreak _)
  -- the opening without an end stands behind the same gap
  have hbehind : (c'.skip (unifyLineBreaks g).length).rest = unifyLineBreaks chars := by
    simp [hrest]
  obtain ⟨d', hd'⟩ := nextToken_of_unclosed (hbehind.symm ▸ hunclosed.unify)
  refine ⟨problem, (c.skip g.length).location, d', ?_, rfl, ?_⟩
  · cases hunclosed with
    | comment => exact .inl rfl
    | string => exact .inr rfl
  · rw [nextToken_of_trivia hg.unify hrest, hd', hfront.location, source_skip, text_skip]

end Cursor

end ScopedQuery
