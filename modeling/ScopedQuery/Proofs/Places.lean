import ScopedQuery.Proofs.Trivia
import ScopedQuery.Proofs.Unified

namespace ScopedQuery

open Text

/-!
# Lines and columns of offsets

A cursor counts lines and columns while it passes characters.  What it has counted depends on the
text and its offset only: the lines count the line breaks that end before it, and the columns the
characters behind the last of them.

* `Text.breakEnds`, `Text.breaksUpTo` — where line breaks end.
* `Text.lineStart`, `Text.locate` — the start of a line, and the place of an offset.
* `Cursor.location_skip` — a cursor counts the place, except inside of a break.
* `Text.Cut` — a place at which a text is cut in two, not inside of a break.
* `Cursor.Whole` — a cursor that stands at such a place.
* `Cursor.Whole.token`, `Cursor.Whole.fault` — tokens and faults are at the places of their
  characters.
-/

namespace Text

/-! ### Line breaks -/

/-- The offsets at which the line breaks of a text end. -/
def breakEnds : List Char → List Nat
  | [] => []
  | c :: rest =>
    if endsLine c rest then 1 :: (breakEnds rest).map (· + 1) else (breakEnds rest).map (· + 1)

/-- The line breaks that end at or before an offset. -/
def breaksUpTo (chars : List Char) (k : Nat) : List Nat := (breakEnds chars).filter (· ≤ k)

/-- The offset behind the last line break that ends at or before an offset. -/
def lineStart (chars : List Char) (k : Nat) : Nat := (breaksUpTo chars k).getLast?.getD 0

/-- The place of an offset: the line counts the breaks that end at or before it, the column counts
    the characters behind the last one. -/
def locate (chars : List Char) (k : Nat) : Location :=
  ⟨k, 1 + (breaksUpTo chars k).length, 1 + ((k : Int) - lineStart chars k)⟩

variable {chars rest : List Char} {c first : Char} {n k : Nat}

/-- No line break stands in front of the first character. -/
@[simp] theorem breaksUpTo_zero (chars : List Char) : breaksUpTo chars 0 = [] := by
  have hpos : ∀ e ∈ breakEnds chars, 0 < e := by
    cases chars with
    | nil => simp [breakEnds]
    | cons c rest =>
      rw [breakEnds]
      split <;> simp
  rw [breaksUpTo, List.filter_eq_nil_iff]
  intro e he
  have := hpos e he
  simp
  omega

/-- The line breaks up to a place are those of the rest, one further on, and the first character if
    it ends a line. -/
theorem breaksUpTo_cons (c : Char) (rest : List Char) (n : Nat) :
    breaksUpTo (c :: rest) (n + 1)
      = (if endsLine c rest then [1] else []) ++ (breaksUpTo rest n).map (· + 1) := by
  have hlater : ((breakEnds rest).map (· + 1)).filter (· ≤ n + 1)
      = (breaksUpTo rest n).map (· + 1) := by
    simp [breaksUpTo, List.filter_map, Function.comp_def]
  rw [breaksUpTo, breakEnds]
  by_cases hends : endsLine c rest = true
  · rw [if_pos hends, if_pos hends, List.filter_cons_of_pos (by simp), hlater]
    rfl
  · rw [if_neg hends, if_neg hends, hlater]
    rfl

/-- One character further there is one break more if that character ends a line. -/
theorem breaksUpTo_succ (h : chars.drop n = first :: rest) :
    breaksUpTo chars (n + 1)
      = breaksUpTo chars n ++ if endsLine first rest then [n + 1] else [] := by
  -- the breaks are found from the front on, so the induction goes through the text before the
  -- character
  induction n generalizing chars with
  | zero =>
    rw [List.drop_zero] at h
    rw [h, breaksUpTo_cons, breaksUpTo_zero, breaksUpTo_zero, List.map_nil, List.append_nil,
      List.nil_append]
  | succ n ih =>
    cases chars with
    | nil => simp at h
    | cons c tail =>
      rw [breaksUpTo_cons, ih h, breaksUpTo_cons, List.map_append, List.append_assoc]
      by_cases hends : endsLine first rest = true
      · rw [if_pos hends, if_pos hends]
        rfl
      · rw [if_neg hends, if_neg hends]
        rfl

/-- The breaks up to an offset are the first ones of the text. -/
theorem breaksUpTo_prefix (chars : List Char) (k : Nat) :
    breaksUpTo chars k <+: breakEnds chars := by
  induction k generalizing chars with
  | zero => simp
  | succ k ih =>
    cases chars with
    | nil => simp [breaksUpTo, breakEnds]
    | cons c rest =>
      -- later breaks are counted from behind the character, so they are moved by one
      have hlater := (ih rest).map (· + 1)
      rw [breaksUpTo_cons, breakEnds]
      by_cases hends : endsLine c rest = true
      · rw [if_pos hends, if_pos hends]
        exact (List.cons_prefix_cons).mpr ⟨rfl, hlater⟩
      · rw [if_neg hends, if_neg hends]
        exact hlater

theorem lineStart_zero (chars : List Char) : lineStart chars 0 = 0 := by
  rw [lineStart, breaksUpTo_zero]
  rfl

/-- Behind a character the line is the same one, unless the character ends it. -/
theorem lineStart_succ (h : chars.drop n = first :: rest) :
    lineStart chars (n + 1) = if endsLine first rest then n + 1 else lineStart chars n := by
  rw [lineStart, breaksUpTo_succ h]
  by_cases hends : endsLine first rest = true
  · rw [if_pos hends, if_pos hends, List.getLast?_concat]
    rfl
  · rw [if_neg hends, if_neg hends, List.append_nil, lineStart]

/-- A line starts no further on than where one looks from. -/
theorem lineStart_le (chars : List Char) (k : Nat) : lineStart chars k ≤ k := by
  unfold lineStart
  cases hlast : (breaksUpTo chars k).getLast? with
  | none => simp
  | some e =>
    have hmem := List.mem_of_getLast? hlast
    simpa [breaksUpTo] using (List.mem_filter.mp hmem).2

/-- Passing a character goes to the next line, or to the next column of the line. -/
theorem locate_succ (h : chars.drop n = first :: rest) :
    locate chars (n + 1) = if endsLine first rest then ⟨n + 1, (locate chars n).line + 1, 1⟩
      else ⟨n + 1, (locate chars n).line, (locate chars n).col + 1⟩ := by
  unfold locate
  rw [breaksUpTo_succ h, lineStart_succ h]
  by_cases hends : endsLine first rest = true
  · rw [if_pos hends, if_pos hends, if_pos hends, List.length_append]
    simp
    omega
  · rw [if_neg hends, if_neg hends, if_neg hends, List.append_nil]
    simp
    omega

instance (before after : List Char) : Decidable (SplitsBreak before after) :=
  inferInstanceAs (Decidable (_ ∧ _))

/-- A character that is passed leaves a break open if it is a carriage return that ends no line. -/
theorem splitsBreak_succ (h : chars.drop n = first :: rest) :
    SplitsBreak (chars.take (n + 1)) (chars.drop (n + 1)) ↔
      first = '\r' ∧ ¬ endsLine first rest = true := by
  have hfirst : chars[n]? = some first := by
    rw [← List.head?_drop, h]
    rfl
  have hrest : chars.drop (n + 1) = rest := by
    rw [← List.drop_drop, h]
    rfl
  rw [SplitsBreak, List.take_add_one, hfirst, hrest, Option.toList_some, List.getLast?_concat]
  constructor
  · rintro ⟨hlast, hhead⟩
    obtain rfl := Option.some.inj hlast
    simp [endsLine, hhead]
  · rintro ⟨rfl, hends⟩
    simpa [endsLine] using hends

end Text

namespace Cursor

/-! ### What a cursor counts -/

/-- A cursor that has passed so many characters of its text has that offset. -/
theorem offset_skip_ofText {source : String} {n : Nat} (hle : n ≤ source.toList.length) :
    ((ofText source).skip n).offset = n := by
  rw [offset_skip hle]
  exact Nat.zero_add n

/-- One character further a cursor counts a line, nothing or a column. -/
theorem location_skip_succ {source : String} {n : Nat} {first : Char} {rest : List Char}
    (hdrop : source.toList.drop n = first :: rest) :
    let l := ((ofText source).skip n).location
    ((ofText source).skip (n + 1)).location =
      if endsLine first rest then ⟨n + 1, l.line + 1, 1⟩
      else if first = '\r' then ⟨n + 1, l.line, l.col⟩
      else ⟨n + 1, l.line, l.col + 1⟩ := by
  have hn : n ≤ source.toList.length := by
    by_contra hlt
    simp [List.drop_of_length_le (Nat.le_of_not_le hlt)] at hdrop
  have hcursor : ((ofText source).skip n).rest = first :: rest := by simp [hdrop]
  rw [skip_add, skip, skip, location_bump hcursor, offset_skip_ofText hn]
  rfl

/-- A cursor stands at the place of its offset, but for a carriage return that it has passed without
    the line feed behind it, which is not counted. -/
theorem location_skip {source : String} {n : Nat} (hle : n ≤ source.toList.length) :
    ((ofText source).skip n).location =
      ⟨n, (locate source.toList n).line, (locate source.toList n).col -
        if SplitsBreak (source.toList.take n) (source.toList.drop n) then 1 else 0⟩ := by
  induction n with
  | zero => simp [skip, location, ofText, locate, lineStart_zero, SplitsBreak]
  | succ n ih =>
    obtain ⟨first, rest, hdrop⟩ : ∃ first rest, source.toList.drop n = first :: rest :=
      ⟨_, _, List.drop_eq_getElem_cons (by omega)⟩
    rw [location_skip_succ hdrop, ih (by omega), locate_succ hdrop]
    simp only [splitsBreak_succ hdrop]
    -- only a carriage return with its line feed behind it is passed without a column
    by_cases hends : endsLine first rest = true
    · simp [hends]
    · -- no line feed comes next, so no break is open in front of the character
      have hopen : ¬ SplitsBreak (source.toList.take n) (source.toList.drop n) := by
        rintro ⟨-, hhead⟩
        rw [hdrop] at hhead
        obtain rfl : first = '\n' := Option.some.inj hhead
        exact hends rfl
      by_cases hreturn : first = '\r'
      · obtain rfl := hreturn
        simp [hends, hopen]
      · simp [hends, hopen, hreturn]

end Cursor

/-! ### Places of cursors, tokens and faults -/

/-- The place is that at which the text is cut in two, and no line break is cut. -/
structure Text.Cut (chars : List Char) (l : Location) (before after : List Char) : Prop where
  eq_append : chars = before ++ after
  whole : ¬ SplitsBreak before after
  location_eq : l = locate chars before.length

namespace Cursor

variable {source : String} {c d : Cursor} {g rest : List Char} {t : Token}

/-- The cursor stands in the text, and not inside of a line break. -/
structure Whole (source : String) (c : Cursor) : Prop where
  stands : c.StandsIn source
  offset_le : c.offset ≤ source.toList.length
  whole : ¬ SplitsBreak c.past c.rest

/-- A cursor stands at a place before it has passed anything. -/
theorem whole_ofText (source : String) : (ofText source).Whole source :=
  ⟨rfl, Nat.zero_le _, by simp [past, ofText, SplitsBreak]⟩

namespace Whole

theorem source_eq (h : c.Whole source) : c.source = source.toList := by
  have hstands : c = (ofText source).skip c.offset := h.stands
  rw [hstands, source_skip]
  rfl

theorem length_past (h : c.Whole source) : c.past.length = c.offset := by
  have hle := h.offset_le
  rw [past, h.source_eq, List.length_take]
  omega

/-- Where it stands, the text is cut. -/
theorem cut (h : c.Whole source) : Cut source.toList c.location c.past c.rest := by
  have hsource : source.toList = c.past ++ c.rest := by
    rw [past, c.rest_eq, h.source_eq, List.take_append_drop]
  refine ⟨hsource, h.whole, ?_⟩
  have hsplit : ¬ SplitsBreak (source.toList.take c.offset) (source.toList.drop c.offset) := by
    have hwhole := h.whole
    rwa [past, c.rest_eq, h.source_eq] at hwhole
  have hlocation := location_skip h.offset_le
  rw [← (show c = (ofText source).skip c.offset from h.stands), if_neg hsplit] at hlocation
  rw [hlocation, h.length_past]
  simp [locate]

/-- A cursor stands at the place of its offset. -/
theorem location_eq (h : c.Whole source) : c.location = locate source.toList c.offset := by
  rw [h.cut.location_eq, h.length_past]

/-- A cursor goes from one place to another if it does not stop inside of a line break. -/
theorem skip (h : c.Whole source) (hc : c.rest = g ++ rest) (hsplit : ¬ SplitsBreak g rest) :
    (c.skip g.length).Whole source := by
  have hle : g.length ≤ c.rest.length := by simp [hc]
  refine ⟨h.stands.skip hle, ?_, not_splitsBreak_skip h.whole hc hsplit⟩
  have hlength := congrArg List.length h.cut.eq_append
  rw [List.length_append, h.length_past] at hlength
  rw [offset_skip hle]
  omega

/-- A token that is found stands where its characters are cut off. -/
theorem token [NameTable] (h : c.Whole source) (hnext : c.nextToken = (.ok t, d)) :
    d.Whole source ∧ ∃ before, Cut source.toList t.location before (t.written ++ d.rest) ∧
      c.offset ≤ before.length ∧ d.offset = before.length + t.written.length := by
  obtain ⟨g, hg, hlocation, hd, hc, hfound⟩ := nextToken_eq_ok hnext
  have hfront : (c.skip g.length).Whole source := h.skip hc (hg.not_splitsBreak _)
  have hrest : (c.skip g.length).rest = t.written ++ d.rest := by simp [hc]
  -- neither the gap nor the token ends inside of a break, so the place is that of the offset
  have hsplit : ¬ SplitsBreak t.written d.rest := by
    rcases hfound with hlexeme | ⟨-, -, hend⟩
    · exact hlexeme.not_splitsBreak
    · simp [SplitsBreak, hend]
  have hle : g.length ≤ c.rest.length := by simp [hc]
  have hle' : t.written.length ≤ (c.skip g.length).rest.length := by
    rw [hrest]
    simp
  refine ⟨hd ▸ hfront.skip hrest hsplit, (c.skip g.length).past, ?_, ?_, ?_⟩
  · rw [hlocation, ← hrest]
    exact hfront.cut
  · rw [hfront.length_past, offset_skip hle]
    omega
  · rw [hfront.length_past, hd, offset_skip hle']

/-- Where no token is found, the fault stands at a place too. -/
theorem fault {fault : ScanFault} (h : c.Whole source)
    (hnext : c.nextToken = (.error fault, d)) :
    ∃ (lexical : Diagnostic) (before after : List Char), fault = .misspelled lexical ∧
      Cut source.toList lexical.location before after := by
  obtain ⟨g, chars, problem, hg, hc, -, rfl⟩ := nextToken_eq_error hnext
  have hfront : (c.skip g.length).Whole source := h.skip hc (hg.not_splitsBreak _)
  exact ⟨_, _, _, rfl, hfront.cut⟩

end Whole

end Cursor

end ScopedQuery
