import ScopedQuery.CommandLine.Run
import ScopedQuery.Proofs.Depth
import ScopedQuery.Proofs.Endings

namespace ScopedQuery

/-!
# What a reader tells of its work

The trace of a reader begins with the length of the query, goes on with one entry for every scope
that is opened, and ends with what came of it.  A query that is refused for the order of its tokens
ends it with the diagnostic.  One that is misspelled does not: the cursor that finds no token has no
trace to write into, and the reader passes the fault on.

* `openings` — the scopes that some tokens open, and how many are open then.
* `closingEntries` — how the trace ends for what came of a query.
* `Reader.trace_past` — one token adds the scope that it opens to the trace.
* `Step.trace_of_course`, `Step.trace_query` — the trace of a whole reading.
* `log_of_run` — the records of reading a text, as they are worded.
-/

/-! ### Scopes that are opened -/

/-- The places of the opening braces among the tokens `us`, and with each of them the number of
    scopes that are open behind it, if the tokens `before` come first. -/
def openings (before : List Token) : List Token → List (Location × Nat)
  | [] => []
  | t :: us =>
    let behind := before ++ [t]
    if t.kind = .leftBrace then (t.location, (openBraces behind).length) :: openings behind us
    else openings behind us

/-- The entry of a scope that is opened. -/
def openingEntry (opening : Location × Nat) : TraceEntry := .entered opening.1 opening.2

/-- The entries with which a trace ends.  A query whose next token cannot be read gives none. -/
def closingEntries {ε : Type} : Except (Failure ε) Query → List TraceEntry
  | .ok q => [.finished q.statements.length]
  | .error (.refused diagnostic) => [.refused diagnostic]
  | .error (.feed _) => []
  | .error .misplaced => []

/-- A standing has as many scopes open as there are braces without a match before it. -/
theorem Standing.Leaves.length_openBraces {c : Standing} {us : List Token} (h : c.Leaves us) :
    (openBraces us).length = c.depth := by
  cases c with
  | unread =>
    obtain rfl : us = [] := h
    rfl
  | within nest stage =>
    have hbraces : openBraces us = nest.scopes.map Scope.brace := h.1
    rw [hbraces, List.length_map]
    rfl

/-! ### The trace of a reader -/

section Readers

variable {σ ε : Type}

/-- Only an opening brace is noted when it is passed, with the depth behind it. -/
theorem Reader.trace_past (r : Reader σ) (t : Token) :
    (r.past t).trace.toList =
      r.trace.toList ++
        if t.kind = .leftBrace then [.entered t.location (r.depth + 1)] else [] := by
  unfold past
  split
  next hkind => simp [hkind]
  next hkind => simp [hkind]
  next hl _ => rw [if_neg hl, List.append_nil]

variable [TokenFeed σ ε]

/-- The trace goes on with the scopes that are opened, and ends with what comes of the query. -/
theorem Step.trace_of_course {c : Standing} {s s' : σ} {before us : List Token} {e : Ending ε}
    {r : Reader σ} (h : Course c s us e s') (hleaves : c.Leaves before)
    (hdepth : r.depth = c.depth) (hfeed : r.feed = s) (hr : r.ahead = none) :
    (drive c r).2.trace.toList =
      r.trace.toList ++ (openings before us).map openingEntry ++
        closingEntries (drive c r).1 := by
  induction h generalizing r before with
  | missing hnext =>
    subst hfeed
    rw [drive_of_fault _ hr hnext]
    simp [openings, closingEntries]
  | complete hnext hpush =>
    subst hfeed
    rw [drive_of_next _ hr hnext, drive_of_complete rfl hpush, conclude_apply]
    simp [openings, closingEntries]
  | refused hnext hpush =>
    subst hfeed
    rw [drive_of_next _ hr hnext, drive_of_refused rfl hpush, refuse_apply]
    simp [openings, closingEntries]
  | @further c c₁ _ s₁ _ t us e hnext hpush _ ih =>
    subst hfeed
    rw [drive_of_next _ hr hnext, drive_of_further rfl hpush]
    let looked : Reader σ := { r with feed := s₁, ahead := some t }
    have hleaves₁ : c₁.Leaves (before ++ [t]) := hleaves.push hpush
    have hdepth₁ : (looked.past t).depth = c₁.depth := by
      rw [Reader.depth_past, Standing.depth_push hpush]
      exact congrArg (· + braceBalance [t]) hdepth
    rw [ih hleaves₁ hdepth₁ (looked.feed_past t) (looked.ahead_past t), Reader.trace_past]
    by_cases hkind : t.kind = .leftBrace
    · -- the scope that is opened is one of those that are open behind its brace
      have hopen : ((openBraces (before ++ [t])).length : Int) = r.depth + 1 := by
        rw [openBraces_concat, hkind, List.length_cons, hleaves.length_openBraces, hdepth]
        rfl
      simp [openings, hkind, openingEntry, hopen, looked]
    · simp [openings, hkind, looked]

/-- **The trace of a query** tells how long it is, which scopes its tokens open, and what comes of
    it, in this order. -/
theorem Step.trace_query (s : σ) :
    let run := (query : Step σ ε Query) { feed := s }
    run.2.trace.toList =
      .started (TokenFeed.text s).length ::
        (openings [] run.2.taken.toList).map openingEntry ++ closingEntries run.1 := by
  intro run
  obtain ⟨us, e, s', hcourse⟩ := exists_course .unread s
  obtain ⟨r, hr, -, htaken, -⟩ := query_of_course hcourse
  have htaken' : run.2.taken.toList = us := by rw [show run = _ from hr, htaken]
  let started : Reader σ := { feed := s, trace := #[.started (TokenFeed.text s).length] }
  have hdrive : run = drive .unread started := by
    show query { feed := s } = _
    rw [query_eq_drive]
    rfl
  have hstart : Standing.unread.Leaves [] := rfl
  have htrace := trace_of_course (r := started) hcourse hstart rfl rfl rfl
  rw [← hdrive] at htrace
  rw [htrace, htaken']
  rfl

end Readers

/-- **The log tells of every query but one that is misspelled.**  Reading a text is logged with the
    number of its characters, then with each opening brace that was taken, in the order of the text,
    with its place and the number of scopes that are open behind it.  If a query was read the last
    record tells how many statements it has, and if its tokens were refused it is the diagnostic, on
    one line.  Where a token could not be read for a string or a comment without an end, nothing
    more is logged, although the query is refused with a diagnostic as well. -/
theorem log_of_run (source : String) :
    let run := Reader.run source
    ∃ closing : List String,
      CommandLine.readerLog run.2 =
        (s!"parsing query of {source.length} characters" ::
          (openings [] run.2.taken.toList).map (fun (brace, depth) =>
            s!"entering scope at line {brace.line}, col {brace.col} (depth {depth})") ++
          closing).map (⟨.debug, ·⟩) ∧
      ((∃ q, run.1 = .ok q ∧ closing = [s!"parsed {q.statements.length} top-level statements"]) ∨
        (∃ d, run.1 = .error (.refused d) ∧ d.kind ∈ ErrorKind.ofOrder ∧
          closing = [s!"parse failed: {d.summary}"]) ∨
        ∃ d, run.1 = .error (.feed (.misspelled d)) ∧ d.kind ∈ ErrorKind.ofSpelling ∧
          closing = []) := by
  intro run
  refine ⟨(closingEntries run.1).map TraceEntry.message, ?_, ?_⟩
  · have htext : TokenFeed.text (Cursor.ofText source) = source := String.ofList_toList
    have htrace : run.2.trace.toList =
        .started source.length ::
          (openings [] run.2.taken.toList).map openingEntry ++ closingEntries run.1 := by
      rw [← htext]
      exact Step.trace_query (Cursor.ofText source)
    rw [CommandLine.readerLog, htrace]
    simp only [List.cons_append, List.map_cons, List.map_append, List.map_map, Function.comp_def]
    rfl
  · rcases hout : run.1 with failure | q
    · right
      obtain ⟨d, -, hd⟩ := kind_of_error hout
      rcases hd with ⟨rfl, hkind⟩ | ⟨rfl, hkind⟩
      · exact .inr ⟨d, rfl, hkind, rfl⟩
      · exact .inl ⟨d, rfl, hkind, rfl⟩
    · exact .inl ⟨q, rfl, rfl⟩

-- the scope is logged, and the string that is not closed in it is not
example : (CommandLine.readerLog (Reader.run "\x7b \"x").2).map CommandLine.LogRecord.message =
    ["parsing query of 4 characters", "entering scope at line 1, col 1 (depth 1)"] := by
  decide +kernel

end ScopedQuery
