import ScopedQuery.Proofs.Frames
import ScopedQuery.Proofs.Pointing
import ScopedQuery.Proofs.Stepping

namespace ScopedQuery

open Text CommandLine

/-!
# The ways in which reading ends

Reading is done here with everything that could go wrong on the way: characters are asked for one by
one, behind the end of the text as well, and the open scopes are frames on a stack that may be
empty.  For every text it ends with a query, whose lists all hold a statement, or with an error of
one of six kinds, and it asks for at most one token more than there are characters.

* `Tally` — a cursor that counts how often it is asked for a token.
* `Course.tally`, `Course.length_le` — the count, and a bound for it.
* `Problem.FoundAt.kind_mem`, `Cursor.kind_of_fault` — the kinds of errors.
* `Text.Cut.bounds` — the range of places.
* `Reader.runTallied`, `runTallied_ends` — the whole reading of a text.
-/

/-! ### Counting the tokens that are asked for -/

/-- A cursor, with the number of times that it was asked for a token. -/
structure Tally where
  cursor : Cursor
  calls : Nat := 0

namespace Tally

/-- Reads the next token, passing every character by itself, and counts it. -/
def next (s : Tally) : Except ScanFault Token × Tally :=
  let (out, d) := s.cursor.stepNext
  (out, ⟨d, s.calls + 1⟩)

/-- To ask for a token is counted and is otherwise what it is without a count. -/
theorem next_eq (s : Tally) :
    s.next = (s.cursor.nextToken.1, ⟨s.cursor.nextToken.2, s.calls + 1⟩) := by
  rw [next, Cursor.stepNext_eq]

/-- So the cursor in a tally reads what a cursor alone would read. -/
theorem nextToken_of_next {s s' : Tally} {out : Except ScanFault Token} (h : s.next = (out, s')) :
    s.cursor.nextToken = (out, s'.cursor) := by
  rw [next_eq] at h
  cases h
  rfl

end Tally

instance : TokenFeed Tally ScanFault where
  next := Tally.next
  text s := s.cursor.text
  remaining s := s.cursor.rest.length
  remaining_lt h := Cursor.length_rest_nextToken_lt (Tally.nextToken_of_next h)
  remaining_le {s s' fault} h := by
    have hle := (Cursor.reaches_nextToken s.cursor).length_rest_le
    rwa [Tally.nextToken_of_next h] at hle

/-- And each token of a cursor is one call of the tally. -/
theorem Tally.next_of_nextToken {c d : Cursor} {out : Except ScanFault Token}
    (h : TokenFeed.next c = (out, d)) (calls : Nat) :
    TokenFeed.next (⟨c, calls⟩ : Tally) = (out, ⟨d, calls + 1⟩) := by
  have hnext : c.nextToken = (out, d) := h
  show Tally.next _ = _
  rw [next_eq, hnext]

/-- A reading asks once for every token that it passes, and once more for its end. -/
theorem Course.tally {k : Standing} {c d : Cursor} {us : List Token} {e : Ending ScanFault}
    (h : Course k c us e d) (calls : Nat) :
    Course k (⟨c, calls⟩ : Tally) us e ⟨d, calls + us.length + 1⟩ := by
  induction h generalizing calls with
  | missing hnext => exact .missing (Tally.next_of_nextToken hnext calls)
  | complete hnext hpush => exact .complete (Tally.next_of_nextToken hnext calls) hpush
  | refused hnext hpush => exact .refused (Tally.next_of_nextToken hnext calls) hpush
  | @further _ _ _ _ _ t us _ hnext hpush _ ih =>
    -- the rest starts with this call counted, and its count is the same sum in another order
    have hlater := ih (calls + 1)
    have hcount : calls + 1 + us.length + 1 = calls + (t :: us).length + 1 := by
      rw [List.length_cons]
      omega
    rw [hcount] at hlater
    exact .further (Tally.next_of_nextToken hnext calls) hpush hlater

section Courses

variable {σ ε : Type} [TokenFeed σ ε] {c : Standing} {s s' : σ} {us : List Token}

/-- The tokens that are passed are no more than the feed has left. -/
theorem Course.length_le {e : Ending ε} (h : Course c s us e s') :
    us.length ≤ TokenFeed.remaining s := by
  induction h with
  | missing => exact Nat.zero_le _
  | complete => exact Nat.zero_le _
  | refused => exact Nat.zero_le _
  | further hnext hpush _ ih =>
    have hkind := fun hend => Standing.push_endOfInput hend hpush
    have hlt := TokenFeed.remaining_lt hnext hkind
    rw [List.length_cons]
    omega

/-- A reading without a last token ends where the feed has none to give. -/
theorem Course.exists_fault {fault : ε} (h : Course c s us (.missing fault) s') :
    ∃ s₁ : σ, TokenFeed.next s₁ = (.error fault, s') := by
  generalize he : Ending.missing fault = e at h
  induction h with
  | missing hnext =>
    cases he
    exact ⟨_, hnext⟩
  | complete => cases he
  | refused => cases he
  | further _ _ _ ih => exact ih he

end Courses

/-! ### The kinds of errors -/

/-- The kinds of errors that are found in the order of the tokens. -/
def ErrorKind.ofOrder : List ErrorKind :=
  [.invalidIdentifier, .malformedArguments, .unclosedScope, .unexpectedTrailingInput]

/-- The kinds of errors that are found in the spelling of a token. -/
def ErrorKind.ofSpelling : List ErrorKind := [.unterminatedString, .unterminatedComment]

/-- What can be found at a token is in the order of the tokens: a name is missing where a verb or
    an argument has to have one. -/
theorem Problem.FoundAt.kind_mem {problem : Problem} {t : Token} (h : problem.FoundAt t) :
    problem.kind ∈ ErrorKind.ofOrder := by
  cases problem with
  | noIdentifier => exact absurd h id
  | openString => exact absurd h id
  | openComment => exact absurd h id
  | _ => simp [kind, ErrorKind.ofOrder]

/-- Where no token is found, a string or a comment has no end. -/
theorem Cursor.kind_of_fault {c d : Cursor} {fault : ScanFault}
    (h : c.nextToken = (.error fault, d)) :
    ∃ lexical, fault = .misspelled lexical ∧ lexical.kind ∈ ErrorKind.ofSpelling := by
  obtain ⟨g, chars, problem, -, -, hunclosed, rfl⟩ := nextToken_eq_error h
  refine ⟨_, rfl, ?_⟩
  cases hunclosed with
  | comment => exact List.mem_cons_of_mem _ List.mem_cons_self
  | string => exact List.mem_cons_self

/-- What is wrong with a text is in the spelling of a token, or in the order of its tokens. -/
theorem kind_of_error {source : String} {failure : Failure ScanFault}
    (h : Query.ofText source = .error failure) :
    ∃ d : Diagnostic, d.source = source ∧
      (failure = .feed (.misspelled d) ∧ d.kind ∈ ErrorKind.ofSpelling ∨
        failure = .refused d ∧ d.kind ∈ ErrorKind.ofOrder) := by
  obtain ⟨d, hsource, hd⟩ := exists_diagnostic h
  refine ⟨d, hsource, ?_⟩
  obtain ⟨us, e, c, hcourse⟩ := exists_course .unread (Cursor.ofText source)
  have hout : e.outcome source = .error failure := (Cursor.ofText_of_course hcourse).symm.trans h
  rcases hd with rfl | rfl
  -- a refusal comes from a standing, which has four kinds to refuse with
  · right
    obtain ⟨last, problem, rfl, rfl⟩ := Ending.outcome_eq_refused.mp hout
    obtain ⟨k, -, hpush⟩ := hcourse.leads
    exact ⟨rfl, (Standing.foundAt_of_refused hpush).kind_mem⟩
  -- a fault comes from the scanner, which knows two kinds
  · left
    obtain rfl := Ending.outcome_eq_feed.mp hout
    obtain ⟨c', hnext⟩ := hcourse.exists_fault
    obtain ⟨lexical, hlexical, hkind⟩ := Cursor.kind_of_fault hnext
    obtain rfl := ScanFault.misspelled.inj hlexical
    exact ⟨rfl, hkind⟩

/-! ### The places of errors -/

/-- A place is within the text, and its line and its column are counted from one. -/
theorem Text.Cut.bounds {chars before after : List Char} {l : Location}
    (h : Cut chars l before after) :
    0 ≤ l.offset ∧ l.offset ≤ chars.length ∧ 1 ≤ l.line ∧ 1 ≤ l.col := by
  have hlength : chars.length = before.length + after.length := by
    rw [h.eq_append, List.length_append]
  have hstart := lineStart_le chars before.length
  rw [h.location_eq, locate]
  dsimp only
  omega

/-- The place of an error lies in the text, and not inside of a line break. -/
theorem cut_of_error {source : String} {failure : Failure ScanFault} {d : Diagnostic}
    (h : Query.ofText source = .error failure) (hd : diagnosticOf? failure = some d) :
    ∃ before after, Cut source.toList d.location before after := by
  obtain ⟨us, e, c, hcourse⟩ := exists_course .unread (Cursor.ofText source)
  have hout : e.outcome source = .error failure := (Cursor.ofText_of_course hcourse).symm.trans h
  obtain ⟨d', before, after, hd', hcut⟩ := hcourse.cut (Cursor.whole_ofText source) hout
  obtain rfl := Option.some.inj (hd'.symm.trans hd)
  exact ⟨before, after, hcut⟩

/-! ### The whole reading -/

/-- Reads a text with a stack of frames, passes every character by itself, and counts the tokens
    that are asked for. -/
def Reader.runTallied (source : String) : Except (Failure ScanFault) Query × Reader Tally :=
  (Step.framedQuery : Step Tally ScanFault Query) { feed := ⟨Cursor.ofText source, 0⟩ }

/-- What the reading gives is the query of the text, and it has asked for few tokens then. -/
theorem runTallied_eq (source : String) :
    (Reader.runTallied source).1 = Query.ofText source ∧
      (Reader.runTallied source).2.feed.calls ≤ source.length + 1 := by
  obtain ⟨us, e, d, hcourse⟩ := exists_course .unread (Cursor.ofText source)
  obtain ⟨r, hr, hfeed, -, -⟩ := Step.query_of_course (hcourse.tally 0)
  have hrun : Reader.runTallied source = (e.outcome source, r) := by
    rw [Reader.runTallied, Step.framedQuery_eq, hr]
    show (e.outcome (TokenFeed.text d), r) = _
    rw [Cursor.text_of_course hcourse]
  -- every token that is passed takes up a character at least
  have hlength : us.length ≤ source.length := by
    have hle : us.length ≤ source.toList.length := hcourse.length_le
    rwa [String.length_toList] at hle
  rw [hrun, Cursor.ofText_of_course hcourse, hfeed]
  refine ⟨rfl, ?_⟩
  show 0 + us.length + 1 ≤ source.length + 1
  omega

/-- **Reading ends, and only in these ways.**  For every text it asks for at most one token more
    than there are characters.  It gives a query in which every list holds a statement, or an error
    of one of six kinds at a place of the text, with a line and a column from one on.  Errors in the
    spelling of a token are strings and comments without an end, so no character is asked for behind
    the end of the text, and no name is read where none starts.  No step is asked for where it
    cannot start, so the stack has a top wherever that is asked for, and every brace and every at
    sign that is taken for granted is there. -/
theorem runTallied_ends (source : String) :
    let run := Reader.runTallied source
    run.1 = Query.ofText source ∧ run.2.feed.calls ≤ source.length + 1 ∧
    ((∃ q, run.1 = .ok q ∧ q.IsFilled) ∨
      ∃ d : Diagnostic, d.source = source ∧
        (run.1 = .error (.feed (.misspelled d)) ∧
            d.kind ∈ [ErrorKind.unterminatedString, .unterminatedComment] ∨
          run.1 = .error (.refused d) ∧
            d.kind ∈ [ErrorKind.invalidIdentifier, .malformedArguments, .unclosedScope,
              .unexpectedTrailingInput]) ∧
        0 ≤ d.location.offset ∧ d.location.offset ≤ source.length ∧
        1 ≤ d.location.line ∧ 1 ≤ d.location.col) := by
  intro run
  obtain ⟨hrun, hcalls⟩ := runTallied_eq source
  refine ⟨hrun, hcalls, ?_⟩
  cases hout : Query.ofText source with
  | ok q =>
    left
    exact ⟨q, hrun.trans hout, (phrase_of_ofText hout).1.filled⟩
  | error failure =>
    right
    obtain ⟨d, hsource, hkind⟩ := kind_of_error hout
    have hd : diagnosticOf? failure = some d := by
      rcases hkind with ⟨rfl, -⟩ | ⟨rfl, -⟩ <;> rfl
    obtain ⟨before, after, hcut⟩ := cut_of_error hout hd
    refine ⟨d, hsource, ?_, ?_⟩
    · rcases hkind with ⟨rfl, hkind⟩ | ⟨rfl, hkind⟩
      · exact .inl ⟨hrun.trans hout, hkind⟩
      · exact .inr ⟨hrun.trans hout, hkind⟩
    · have hbounds := hcut.bounds
      rwa [String.length_toList] at hbounds

end ScopedQuery
