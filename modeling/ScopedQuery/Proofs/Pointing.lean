import ScopedQuery.CommandLine.Run
import ScopedQuery.Proofs.Places

namespace ScopedQuery

open Text CommandLine

/-!
# Errors point at their characters

An error names a line and a column, and is shown under that line of the query.  The lines are found
by taking the text apart, the line and the column were counted while it was read; both agree.

* `Text.lineStarts`, `Text.LineAt` — the lines of a text with their offsets.
* `Text.exists_line` — the line of a place.
* `Course.cut` — the place of an error.
* `Diagnostic.render_of_line` — how an error is shown that points at a line.
* `error_points_at_line` — all this for whole texts.
-/

namespace Text

/-! ### Lines -/

/-- The offsets at which the lines of a text start. -/
def lineStarts (chars : List Char) : List Nat := 0 :: breakEnds chars

/-- The line with an index starts at an offset, and goes up to the next break or to the end. -/
structure LineAt (chars : List Char) (n start : Nat) (line : List Char) : Prop where
  line_eq : (lines chars)[n]? = some line
  start_eq : (lineStarts chars)[n]? = some start
  whole : '\r' ∉ line ∧ '\n' ∉ line
  upTo : ∃ behind, chars.drop start = line ++ behind ∧ ∀ c ∈ behind.head?, c = '\r' ∨ c = '\n'

variable {chars rest before after line : List Char} {c : Char} {k n start : Nat}

/-- A carriage return that ends no line leaves that to a line feed. -/
theorem head?_of_not_endsLine (h : ¬ endsLine '\r' rest = true) : rest.head? = some '\n' := by
  simpa [endsLine] using h

/-- A character that ends a line leaves an empty one in front of the others. -/
theorem lines_cons_of_ends (h : endsLine c rest = true) : lines (c :: rest) = [] :: lines rest := by
  by_cases hc : c = '\n'
  · obtain rfl := hc
    rw [lines]
  · obtain ⟨rfl, hnext⟩ : c = '\r' ∧ rest.head? ≠ some '\n' := by simpa [endsLine, hc] using h
    rw [lines]
    intro tail htail
    rw [htail] at hnext
    exact hnext rfl

/-- A carriage return in front of a line feed ends no line of its own. -/
theorem lines_return_feed (rest : List Char) :
    lines ('\r' :: '\n' :: rest) = lines ('\n' :: rest) := by
  rw [lines, lines]

/-- The start of a line is as far behind one more character, if there is a break before it. -/
theorem lineStart_cons (h : endsLine c rest = true ∨ breaksUpTo rest k ≠ []) :
    lineStart (c :: rest) (k + 1) = lineStart rest k + 1 := by
  rw [lineStart, breaksUpTo_cons, lineStart, List.getLast?_append, List.getLast?_map]
  cases hlast : (breaksUpTo rest k).getLast? with
  | none =>
    have hends := h.resolve_right (fun hne => hne (List.getLast?_eq_none_iff.mp hlast))
    rw [if_pos hends]
    rfl
  | some e => rfl

/-- On the first line a character more does not move its start. -/
theorem lineStart_cons_of_nil (h : ¬ endsLine c rest = true) (hnil : breaksUpTo rest k = []) :
    lineStart (c :: rest) (k + 1) = 0 := by
  rw [lineStart, breaksUpTo_cons, if_neg h, hnil]
  rfl

/-- The line of an offset starts where the list of lines says. -/
theorem lineStarts_getElem (chars : List Char) (k : Nat) :
    (lineStarts chars)[(breaksUpTo chars k).length]? = some (lineStart chars k) := by
  obtain ⟨later, hlater⟩ := breaksUpTo_prefix chars k
  rw [lineStarts, ← hlater, lineStart]
  rcases List.eq_nil_or_concat (breaksUpTo chars k) with hnil | ⟨init, e, hconcat⟩
  · rw [hnil]
    rfl
  · rw [hconcat, List.concat_eq_append, List.getLast?_concat]
    simp

/-- In front of a break there is an empty line. -/
theorem lines_getElem_of_break (hc : c = '\r' ∨ c = '\n') (rest : List Char) :
    (lines (c :: rest))[0]? = some [] := by
  by_cases hends : endsLine c rest = true
  · rw [lines_cons_of_ends hends]
    rfl
  · obtain rfl : c = '\r' := hc.resolve_right fun h => hends (by simp [endsLine, h])
    obtain ⟨tail, rfl⟩ := List.head?_eq_some_iff.mp (head?_of_not_endsLine hends)
    rw [lines]
    rfl

/-- A first line with one more character in front. -/
theorem LineAt.cons_left (h : LineAt rest 0 0 line) (hr : c ≠ '\r') (hn : c ≠ '\n') :
    LineAt (c :: rest) 0 0 (c :: line) := by
  obtain ⟨hline, -, hwhole, behind, hrest, hbehind⟩ := h
  refine ⟨?_, rfl, by simpa [hr, hn, eq_comm] using hwhole, behind, ?_, hbehind⟩
  · rw [lines_cons_of_ne hr hn, List.getElem?_cons_zero, List.headD_eq_head?_getD,
      List.head?_eq_getElem?, hline]
    rfl
  · rw [List.drop_zero] at hrest ⊢
    rw [hrest]
    rfl

/-- A text starts with its first line. -/
theorem exists_first_line (chars : List Char) : ∃ line, LineAt chars 0 0 line := by
  induction chars with
  | nil => exact ⟨[], rfl, rfl, by simp, [], rfl, by simp⟩
  | cons c rest ih =>
    by_cases hbreak : c = '\r' ∨ c = '\n'
    · exact ⟨[], lines_getElem_of_break hbreak rest, rfl, by simp, c :: rest, rfl, by simpa⟩
    · obtain ⟨line, hline⟩ := ih
      rw [not_or] at hbreak
      exact ⟨c :: line, hline.cons_left hbreak.1 hbreak.2⟩

/-- A line that has a break before it, the new character or a later one, keeps its text behind one
    more character. -/
theorem lines_getElem_cons (hlater : endsLine c rest = true ∨ breaksUpTo rest k ≠ []) :
    (lines (c :: rest))[(breaksUpTo (c :: rest) (k + 1)).length]?
      = (lines rest)[(breaksUpTo rest k).length]? := by
  rw [breaksUpTo_cons, List.length_append, List.length_map]
  by_cases hends : endsLine c rest = true
  · rw [if_pos hends, List.length_singleton, Nat.add_comm, lines_cons_of_ends hends,
      List.getElem?_cons_succ]
  rw [if_neg hends, List.length_nil, Nat.zero_add]
  by_cases hreturn : c = '\r'
  · obtain rfl := hreturn
    obtain ⟨tail, rfl⟩ := List.head?_eq_some_iff.mp (head?_of_not_endsLine hends)
    rw [lines_return_feed]
  · -- the character is one more of the first line only
    have hfeed : c ≠ '\n' := fun hc => hends (by simp [endsLine, hc])
    have hne : breaksUpTo rest k ≠ [] := hlater.resolve_left hends
    obtain ⟨m, hm⟩ := Nat.exists_eq_succ_of_ne_zero (mt List.length_eq_zero_iff.mp hne)
    rw [lines_cons_of_ne hreturn hfeed, hm, List.getElem?_cons_succ, List.getElem?_tail]

/-- A line behind the first one is the same line of a text with one more character in front. -/
theorem LineAt.cons (h : LineAt rest (breaksUpTo rest k).length (lineStart rest k) line)
    (hlater : endsLine c rest = true ∨ breaksUpTo rest k ≠ []) :
    LineAt (c :: rest) (breaksUpTo (c :: rest) (k + 1)).length (lineStart (c :: rest) (k + 1))
      line := by
  refine ⟨(lines_getElem_cons hlater).trans h.line_eq, lineStarts_getElem _ _, h.whole, ?_⟩
  rw [lineStart_cons hlater]
  exact h.upTo

/-- A place that is not inside of a break is on a line, or right behind its last character. -/
theorem exists_line (h : ¬ SplitsBreak before after) :
    ∃ line, LineAt (before ++ after) (breaksUpTo (before ++ after) before.length).length
        (lineStart (before ++ after) before.length) line ∧
      before.length ≤ lineStart (before ++ after) before.length + line.length := by
  -- a character in front of the text is on a line of its own, or on the first line
  induction before with
  | nil =>
    obtain ⟨line, hline⟩ := exists_first_line after
    refine ⟨line, ?_, Nat.zero_le _⟩
    rw [List.nil_append, List.length_nil, breaksUpTo_zero, lineStart_zero]
    exact hline
  | cons c before ih =>
    obtain ⟨line, hline, hle⟩ := ih fun hsplit => h hsplit.of_cons
    rw [List.cons_append, List.length_cons]
    by_cases hlater :
        endsLine c (before ++ after) = true ∨ breaksUpTo (before ++ after) before.length ≠ []
    · refine ⟨line, hline.cons hlater, ?_⟩
      rw [lineStart_cons hlater]
      omega
    rw [not_or, not_not] at hlater
    obtain ⟨hends, hnil⟩ := hlater
    -- the place is on the first line, which has one more character
    have hreturn : c ≠ '\r' := by
      rintro rfl
      have hfeed := head?_of_not_endsLine hends
      cases before with
      | nil => exact h ⟨rfl, hfeed⟩
      | cons d before =>
        obtain rfl : d = '\n' := Option.some.inj hfeed
        rw [List.cons_append, List.length_cons, breaksUpTo_cons] at hnil
        exact List.cons_ne_nil _ _ hnil
    have hfeed : c ≠ '\n' := fun hc => hends (by simp [endsLine, hc])
    have hzero : lineStart (before ++ after) before.length = 0 := by
      rw [lineStart, hnil]
      rfl
    have hnil' : breaksUpTo (c :: (before ++ after)) (before.length + 1) = [] := by
      rw [breaksUpTo_cons, if_neg hends, hnil]
      rfl
    rw [hnil, hzero] at hline
    rw [hnil', lineStart_cons_of_nil hends hnil]
    refine ⟨c :: line, hline.cons_left hreturn hfeed, ?_⟩
    rw [List.length_cons]
    omega

/-- An offset on a line is behind its last character exactly if no more of the line comes next. -/
theorem LineAt.eq_length_iff (h : LineAt chars n start line) (hk : k ≤ line.length) :
    k = line.length ↔ ∀ c ∈ (chars.drop (start + k)).head?, c = '\r' ∨ c = '\n' := by
  obtain ⟨behind, hdrop, hbehind⟩ := h.upTo
  rw [← List.drop_drop, hdrop, List.drop_append_of_le_length hk]
  constructor
  · rintro rfl
    rw [List.drop_length]
    exact hbehind
  · intro hbreak
    -- a character of the line would come next, and a line holds no breaks
    by_contra hne
    obtain ⟨c, tail, hcons⟩ : ∃ c tail, line.drop k = c :: tail :=
      List.exists_cons_of_ne_nil (mt List.drop_eq_nil_iff.mp (by omega))
    have hmem : c ∈ line := List.mem_of_mem_drop (hcons ▸ List.mem_cons_self)
    rw [hcons] at hbreak
    rcases hbreak c rfl with rfl | rfl
    · exact h.whole.1 hmem
    · exact h.whole.2 hmem

end Text

/-! ### Errors -/

namespace Diagnostic

variable {d : Diagnostic} {n start k : Nat} {line : List Char}

/-- The line that is shown is the one with the number of the error. -/
theorem sourceLine_of_line (h : LineAt d.source.toList n start line)
    (hline : d.location.line = 1 + n) : d.sourceLine = line := by
  have hindex : (d.location.line - 1).toNat = n := by omega
  rw [sourceLine, if_pos (by omega), hindex, h.line_eq]
  rfl

/-- An error is shown under its line, with the caret behind blanks as wide as what comes before. -/
theorem render_of_line (h : LineAt d.source.toList n start line)
    (hline : d.location.line = 1 + n) (hcol : d.location.col = 1 + k) (hk : k ≤ line.length) :
    d.render = if line = [] ∧ k = 0 then d.header
      else d.header ++ "\n  " ++ String.ofList line ++ "\n  "
        ++ String.ofList (((d.source.toList.drop start).take k).map
          fun c => if c = '\t' then '\t' else ' ') ++ "^" := by
  have hblank (text : List Char) :
      blankOut text = text.map fun c => if c = '\t' then '\t' else ' ' := by
    refine List.map_congr_left fun c _ => ?_
    split
    · next htab => exact htab
    · rfl
  obtain ⟨behind, hdrop, -⟩ := h.upTo
  have hindent : upTo (d.location.col - 1) line = (d.source.toList.drop start).take k := by
    have hcol' : d.location.col - 1 = k := by omega
    rw [hdrop, List.take_append_of_le_length hk, upTo, hcol', if_neg (by omega), Int.toNat_natCast]
  have hfirst : d.location.col = 1 ↔ k = 0 := by omega
  rw [render, sourceLine_of_line h hline, hindent, ← hblank]
  simp only [hfirst]

end Diagnostic

/-- A reading that fails does so at a place that is not inside of a line break. -/
theorem Course.cut {source text : String} {c d : Cursor} {k : Standing} {us : List Token}
    {e : Ending ScanFault} {failure : Failure ScanFault} (h : Course k c us e d)
    (hc : c.Whole source) (hout : e.outcome text = .error failure) :
    ∃ (diagnostic : Diagnostic) (before after : List Char),
      diagnosticOf? failure = some diagnostic ∧
        Cut source.toList diagnostic.location before after := by
  induction h with
  | missing hnext =>
    obtain ⟨lexical, before, after, rfl, hcut⟩ := hc.fault hnext
    obtain rfl := Except.error.inj hout
    exact ⟨lexical, before, after, rfl, hcut⟩
  | complete _ _ => cases hout
  | refused hnext _ =>
    obtain ⟨-, before, hcut, -⟩ := hc.token hnext
    obtain rfl := Except.error.inj hout
    exact ⟨_, before, _, rfl, hcut⟩
  | further hnext _ _ ih => exact ih (hc.token hnext).1 hout

/-- **Errors point at their characters.**  A text that is no query has an error.  Its line is one of
    the lines of the text and its column is on that line or right behind it, and the start of the
    line and the column together make the offset.  So the line that is shown is the one with the
    offset, and the column is behind the line exactly where a line break or the end of the text
    comes next.  The caret stands behind as many blanks as there are characters before the offset on
    its line, tabs being kept; it is left out only in front of an empty line. -/
theorem error_points_at_line {source : String} {failure : Failure ScanFault}
    (h : Query.ofText source = .error failure) :
    ∃ (d : Diagnostic) (n start k : Nat) (line : List Char),
      diagnosticOf? failure = some d ∧ d.source = source ∧
      d.location = ⟨(start + k : Nat), 1 + n, 1 + k⟩ ∧
      (lines source.toList)[n]? = some line ∧ (lineStarts source.toList)[n]? = some start ∧
      (source.toList.drop start).take line.length = line ∧
      k ≤ line.length ∧ start + k ≤ source.length ∧ d.sourceLine = line ∧
      (k = line.length ↔
        ∀ c ∈ (source.toList.drop (start + k)).head?, c = '\r' ∨ c = '\n') ∧
      (d.render = if line = [] ∧ k = 0 then d.header
        else d.header ++ "\n  " ++ String.ofList line ++ "\n  "
          ++ String.ofList (((source.toList.drop start).take k).map
            fun c => if c = '\t' then '\t' else ' ') ++ "^") ∧
      ((source.toList.drop start).take k).length = k := by
  obtain ⟨us, e, c, hcourse⟩ := exists_course .unread (Cursor.ofText source)
  have hout : e.outcome source = .error failure := (Cursor.ofText_of_course hcourse).symm.trans h
  obtain ⟨d, before, after, hd, hcut⟩ := hcourse.cut (Cursor.whole_ofText source) hout
  have hsource : d.source = source := by
    obtain ⟨d', hsource', hfailure⟩ := exists_diagnostic h
    have hd' : diagnosticOf? failure = some d' := by rcases hfailure with rfl | rfl <;> rfl
    rw [Option.some.inj (hd.symm.trans hd'), hsource']
  obtain ⟨line, hline, hle⟩ := exists_line hcut.whole
  rw [← hcut.eq_append] at hline hle
  generalize hn : (breaksUpTo source.toList before.length).length = n at hline
  generalize hstart : lineStart source.toList before.length = start at hline hle
  obtain ⟨k, hk⟩ : ∃ k, before.length = start + k :=
    Nat.exists_eq_add_of_le (hstart ▸ lineStart_le source.toList before.length)
  have hlocation : d.location = ⟨(start + k : Nat), 1 + n, 1 + k⟩ := by
    have hback : ((start + k : Nat) : Int) - start = k := by omega
    rw [hcut.location_eq, locate, hn, hstart, hk, hback]
  have hlength : start + k ≤ source.length := by
    rw [← String.length_toList, hcut.eq_append, List.length_append]
    omega
  have hwidth : k ≤ line.length := by omega
  obtain ⟨behind, hdrop, -⟩ := hline.upTo
  subst hsource
  refine ⟨d, n, start, k, line, hd, rfl, hlocation, hline.line_eq, hline.start_eq, ?_, hwidth,
    hlength, Diagnostic.sourceLine_of_line hline (by rw [hlocation]), hline.eq_length_iff hwidth,
    Diagnostic.render_of_line hline (by rw [hlocation]) (by rw [hlocation]) hwidth, ?_⟩
  · rw [hdrop, List.take_left]
  · rw [hdrop, List.length_take, List.length_append]
    omega

/-- A comment over two lines, a break of two characters and a tab stand before the error. -/
theorem error_points_at_line_of_tab :
    ∃ d, Query.ofText "/*\r*/\r\n\t@f(x)" = .error (.refused d) ∧ d.location = ⟨12, 3, 6⟩ ∧
      d.sourceLine = "\t@f(x)".toList ∧
      d.render = d.header ++ "\n  \t@f(x)\n  \t    ^" := by
  obtain ⟨d, hout, hlocation⟩ :
      ∃ d, Query.ofText "/*\r*/\r\n\t@f(x)" = .error (.refused d) ∧ d.location = ⟨12, 3, 6⟩ :=
    exists_of_refusal Diagnostic.location (by decide +kernel)
  obtain ⟨d', n, start, k, line, hd, -, hplace, hline, -, -, -, -, hshown, -, hrender, -⟩ :=
    error_points_at_line hout
  obtain rfl : d = d' := Option.some.inj hd
  simp only [hlocation, Location.mk.injEq] at hplace
  obtain rfl : n = 2 := by omega
  obtain rfl : k = 5 := by omega
  obtain rfl : start = 7 := by omega
  have hthird : (lines "/*\r*/\r\n\t@f(x)".toList)[2]? = some "\t@f(x)".toList := by decide
  obtain rfl : "\t@f(x)".toList = line := Option.some.inj (hthird.symm.trans hline)
  refine ⟨d, hout, hlocation, hshown, ?_⟩
  have hblank : (("/*\r*/\r\n\t@f(x)".toList.drop 7).take 5).map
      (fun c => if c = '\t' then '\t' else ' ') = "\t    ".toList := by decide
  rw [hrender, if_neg (by decide), hblank, String.append_assoc, String.append_assoc,
    String.append_assoc, String.append_assoc]
  rfl

end ScopedQuery
