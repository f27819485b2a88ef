import ScopedQuery.Proofs.Depth
import ScopedQuery.Proofs.Eager
import ScopedQuery.Proofs.Tape

namespace ScopedQuery

/-!
# Sessions

A reader can be used step by step, in any order, and also behind a step that failed.

* `Cursor.Yields` — the tokens that a cursor gives one after another.
* `Reader.Follows` — the tokens of a reader are those that its cursor gave; `Reader.Moves.follows`
  shows it of everything that a step can do.
* `Reader.Orderly` — what follows for the tokens of the reader and for its position.
* `Session`, `Call` — a reader with the frames that its user holds, and what the user can call.
* `Session.moves_call`, `Session.moves_after` — one call and any number of them only move the
  reader.
* `session_invariants` — what holds behind all calls.
-/

/-! ### Tokens of a cursor -/

/-- The tokens that a cursor gives one after another until it is another cursor; it may give faults
    between them. -/
inductive Cursor.Yields (c : Cursor) : List Token → Cursor → Prop
  | nil : Yields c [] c
  | token {d d' : Cursor} {ts : List Token} {t : Token} :
    Yields c ts d → d.nextToken = (.ok t, d') → Yields c (ts ++ [t]) d'
  | fault {d d' : Cursor} {ts : List Token} {fault : ScanFault} :
    Yields c ts d → d.nextToken = (.error fault, d') → Yields c ts d'

/-- Tokens stand one behind the other, if the end of the input is none but the last one of them. -/
theorem Cursor.Yields.offsets {c d : Cursor} {ts : List Token} (h : c.Yields ts d)
    (hend : ∀ t ∈ ts.dropLast, t.kind ≠ .endOfInput) :
    ts.Pairwise (fun t u => t.location.offset < u.location.offset) ∧
      ∀ t ∈ ts, t.kind ≠ .endOfInput → t.location.offset < d.offset := by
  induction h with
  | nil => simp
  | @token d d' ts t _ hnext ih =>
    rw [List.dropLast_concat] at hend
    obtain ⟨hpairwise, hbefore⟩ := ih fun u hu => hend u (List.dropLast_subset ts hu)
    obtain ⟨k, hk, hle, hd⟩ := offset_of_nextToken hnext
    constructor
    · rw [List.pairwise_append]
      refine ⟨hpairwise, List.pairwise_singleton _ _, fun u hu v hv => ?_⟩
      obtain rfl := List.mem_singleton.mp hv
      -- the last token may be the end of the input, but no token before it is
      have hlt := hbefore u hu (hend u hu)
      omega
    · rw [List.forall_mem_append, List.forall_mem_singleton]
      refine ⟨fun u hu hkind => ?_, fun hkind => ?_⟩
      · have hlt := hbefore u hu hkind
        omega
      · have hpos := length_written_pos hnext hkind
        omega
  | @fault d d' ts fault _ hnext ih =>
    obtain ⟨hpairwise, hbefore⟩ := ih hend
    refine ⟨hpairwise, fun t ht hkind => ?_⟩
    -- a fault may move the cursor, but never back
    have hlt := hbefore t ht hkind
    have hle : d.offset ≤ d'.offset := by simpa only [hnext] using d.reaches_nextToken.offset_le
    omega

/-! ### Readers of a cursor -/

namespace Reader

/-- The tokens of the reader are those that the cursor gave, and the end of the input has not been
    taken. -/
structure Follows (c : Cursor) (r : Reader Cursor) : Prop where
  yields : c.Yields r.tokens.toList r.feed
  takesNoEnd : r.TakesNoEnd

/-- The order in a reader: at most one token that was read is not taken, the tokens are those that
    the cursor gave, at rising offsets, and the end of the input can only be the last one and not
    taken.  A tape would be read in the same way. -/
structure Orderly (c : Cursor) (r : Reader Cursor) : Prop where
  position_le : r.position ≤ r.tokens.size
  size_le : r.tokens.size ≤ r.position + 1
  yields : c.Yields r.tokens.toList r.feed
  offsets : r.tokens.toList.Pairwise fun t u => t.location.offset < u.location.offset
  end_last : ∀ (i : Nat) (t : Token), r.tokens[i]? = some t → t.kind = .endOfInput →
    i + 1 = r.tokens.size ∧ r.position ≤ i
  current : r.tape.current = ((Step.peek r).1, (Step.peek r).2.tape)
  advance : r.tape.advance = ((Step.take r).1, (Step.take r).2.tape)
  accept : ∀ kinds, r.tape.accept kinds = ((Step.accept kinds r).1, (Step.accept kinds r).2.tape)

variable {c : Cursor} {r r' : Reader Cursor}

/-- At most one token is read and not taken. -/
theorem position_bounds (r : Reader Cursor) :
    r.position ≤ r.tokens.size ∧ r.tokens.size ≤ r.position + 1 := by
  unfold tokens position
  split <;> simp

/-- The tokens before the position are those that were taken. -/
theorem take_tokens (r : Reader Cursor) : r.tokens.toList.take r.position = r.taken.toList := by
  unfold tokens position
  split
  · rw [Array.toList_push, ← Array.length_toList, List.take_left]
  · rw [← Array.length_toList, List.take_length]

/-- A reader that has read nothing follows its text. -/
theorem Follows.start (c : Cursor) : Follows c { feed := c } :=
  ⟨.nil, fun _ ht => by simp at ht⟩

/-- It does so after one more move, which reads a token or passes one. -/
theorem Move.follows (h : r.Move r') (hr : Follows c r) : Follows c r' := by
  obtain ⟨hyields, hend⟩ := hr
  cases h with
  | looked hahead hnext =>
    refine ⟨?_, hend⟩
    have htokens := hyields.token hnext
    simpa [tokens, hahead] using htokens
  | missed hahead hnext =>
    refine ⟨?_, hend⟩
    have htokens := hyields.fault hnext
    simpa [tokens, hahead] using htokens
  | took hahead hkind =>
    refine ⟨?_, fun t ht => ?_⟩
    · simpa [tokens, hahead] using hyields
    · obtain ht | rfl := Array.mem_push.mp ht
      · exact hend t ht
      · exact hkind
  | noted depth trace => exact ⟨hyields, hend⟩

/-- So it does after any number of moves. -/
theorem Moves.follows (h : r.Moves r') (hr : Follows c r) : Follows c r' := by
  induction h with
  | refl => exact hr
  | tail _ hmove ih => exact hmove.follows ih

/-- The end of the input can only be the last token, and then it is not taken. -/
theorem Follows.end_last (hr : Follows c r) {i : Nat} {t : Token} (ht : r.tokens[i]? = some t)
    (hkind : t.kind = .endOfInput) : i + 1 = r.tokens.size ∧ r.position ≤ i := by
  obtain ⟨hlt, -⟩ := Array.getElem?_eq_some_iff.mp ht
  have hposition : r.position ≤ i := by
    by_contra hi
    -- it would have been taken
    have htaken : (r.tokens.toList.take r.position)[i]? = some t := by
      rw [List.getElem?_take_of_lt (by omega), Array.getElem?_toList]
      exact ht
    rw [take_tokens] at htaken
    exact hr.takesNoEnd t (Array.mem_toList_iff.mp (List.mem_of_getElem? htaken)) hkind
  have hbounds := r.position_bounds
  omega

/-- A reader that follows a cursor is in order. -/
theorem Follows.orderly (hr : Follows c r) : Orderly c r := by
  have hplain : ∀ t ∈ r.tokens.toList.dropLast, t.kind ≠ .endOfInput := by
    intro t ht hkind
    obtain ⟨i, hi, rfl⟩ := List.mem_iff_getElem.mp ht
    rw [List.length_dropLast, Array.length_toList] at hi
    have hlast := hr.end_last (i := i) (by rw [List.getElem_dropLast]; simp) hkind
    omega
  exact {
    position_le := r.position_bounds.1
    size_le := r.position_bounds.2
    yields := hr.yields
    offsets := (hr.yields.offsets hplain).1
    end_last := fun i t => hr.end_last
    current := current_tape hr.takesNoEnd
    advance := advance_tape hr.takesNoEnd
    accept := accept_tape hr.takesNoEnd }

end Reader

/-! ### Calls -/

/-- A reader of a text, and the frames that its user holds. -/
structure Session where
  reader : Reader Cursor
  frames : List Frame := []

/-- What the user of a reader can call, with any arguments and at any time. -/
inductive Call
  | current
  | advance
  | accept (kinds : List TokenKind)
  | newlines
  | query
  | statements
  | verbs
  | verb
  | namedVerb
  | arguments
  | argument
  /-- A scope is opened, and its frame is held if there is one. -/
  | openScope (owner : Token) (read : List Verb)
  /-- The scope of a frame is closed that the user holds. -/
  | closeScope (index : Nat)
  /-- The user holds one frame more, of whatever content. -/
  | hold (frame : Frame)

/-- The step of a call; it gives the frames that are held behind it. -/
def Call.step (frames : List Frame) : Call → Step Cursor ScanFault (List Frame)
  | .current => (fun _ => frames) <$> Step.peek
  | .advance => (fun _ => frames) <$> Step.take
  | .accept kinds => (fun _ => frames) <$> Step.accept kinds
  | .newlines => (fun _ => frames) <$> Step.newlines
  | .query => (fun _ => frames) <$> Step.query
  | .statements => (fun _ => frames) <$> Step.statements
  | .verbs => (fun _ => frames) <$> Step.verbs
  | .verb => (fun _ => frames) <$> Step.verb?
  | .namedVerb => (fun _ => frames) <$> Step.namedVerb
  | .arguments => (fun _ => frames) <$> Step.arguments
  | .argument => (fun _ => frames) <$> Step.argument
  | .openScope owner read => (frames ++ [.ofScope ·]) <$> Step.openScope owner read
  | .closeScope index =>
    match frames[index]? with
    | some frame => (fun _ => frames) <$> Step.closeFrame frame
    | none => Step.fail .misplaced
  | .hold frame => pure (frames ++ [frame])

/-- Every call is made of moves, whichever frames are open. -/
theorem Call.isMade_step (call : Call) (frames : List Frame) : Step.IsMade (call.step frames) := by
  cases call with
  | current => exact .map _ .peek
  | advance => exact .map _ .take
  | accept kinds => exact .map _ (.accept kinds)
  | newlines => exact .map _ .newlines
  | query => exact .map _ .query
  | statements => exact .map _ .statements
  | verbs => exact .map _ .verbs
  | verb => exact .map _ .verb?
  | namedVerb => exact .map _ .namedVerb
  | arguments => exact .map _ .arguments
  | argument => exact .map _ .argument
  | openScope owner read => exact .map _ (.openScope owner read)
  | closeScope index =>
    rw [step]
    split
    next frame _ => exact .map _ (.closeFrame frame)
    next => exact .fail _
  | hold frame => exact .pure _

namespace Session

/-- The session before the first call. -/
def start (source : String) : Session := { reader := { feed := Cursor.ofText source } }

/-- Makes a call; the frames stay as they are if it fails. -/
def call (s : Session) (call : Call) : Except (Failure ScanFault) Unit × Session :=
  match call.step s.frames s.reader with
  | (.ok frames, reader) => (.ok (), { reader, frames })
  | (.error failure, reader) => (.error failure, { s with reader })

/-- The session behind several calls, each of which may have failed. -/
def after (s : Session) (calls : List Call) : Session :=
  calls.foldl (fun s call => (s.call call).2) s

theorem moves_call (s : Session) (call : Call) : s.reader.Moves (s.call call).2.reader := by
  have hmoves := call.isMade_step s.frames s.reader
  unfold Session.call
  split <;> rename_i h <;> rwa [h] at hmoves

theorem moves_after (s : Session) (calls : List Call) : s.reader.Moves (s.after calls).reader := by
  induction calls generalizing s with
  | nil => exact .refl s.reader
  | cons call calls ih => exact (s.moves_call call).trans (ih (s.call call).2)

end Session

/-! ### Scopes that cannot be closed -/

namespace Step

variable {σ ε : Type} [TokenFeed σ ε]

/-- Looking at a token takes none, and opens and closes no scope. -/
theorem peek_keeps (r : Reader σ) :
    (peek r).2.depth = r.depth ∧ (peek r).2.position = r.position := by
  unfold peek
  split
  · exact ⟨rfl, rfl⟩
  · split <;> exact ⟨rfl, rfl⟩

/-- To close a scope starts with a look, which may as well come before. -/
theorem closeScope_of_peek {t : Token} {r r' : Reader σ} (scope : Scope)
    (h : peek r = (.ok t, r')) : closeScope scope r = closeScope scope r' := by
  rw [closeScope, bind_apply, bind_apply, h, peek_of_ahead (ahead_of_peek h)]

/-- Where a scope cannot be closed no token is taken, and the scope is still open. -/
theorem closeFrame_error {frame : Frame} {failure : Failure ε} {r r' : Reader σ}
    (h : (closeFrame frame : Step σ ε Statement) r = (.error failure, r')) :
    r'.depth = r.depth ∧ r'.position = r.position := by
  rcases frame with ⟨_ | brace, owner, verbs, statements⟩
  · cases h
    exact ⟨rfl, rfl⟩
  let scope : Scope := ⟨brace, owner, verbs, statements⟩
  replace h : closeScope scope r = (.error failure, r') := h
  have hkeeps := peek_keeps r
  rcases hpeek : peek r with ⟨fault | t, r₁⟩ <;> rw [hpeek] at hkeeps
  · rw [closeScope, bind_apply, hpeek] at h
    cases h
    exact hkeeps
  have hahead := ahead_of_peek hpeek
  rw [closeScope_of_peek scope hpeek] at h
  by_cases hbrace : t.kind = .rightBrace
  · -- a closing brace is taken, and then nothing fails
    rw [closeScope_of_ahead scope hahead hbrace] at h
    cases h
  · rw [closeScope_of_ne scope hahead hbrace] at h
    split at h
    all_goals
      rw [refuse_apply] at h
      cases h
      exact hkeeps

end Step

/-- Where a scope cannot be closed the depth, the position and the frames that are held stay as they
    are. -/
theorem Session.closeScope_error {s s' : Session} {index : Nat} {failure : Failure ScanFault}
    (h : s.call (.closeScope index) = (.error failure, s')) :
    s'.reader.depth = s.reader.depth ∧ s'.reader.position = s.reader.position ∧
      s'.frames = s.frames := by
  rw [Session.call, Call.step] at h
  cases hframe : s.frames[index]? with
  | none =>
    simp only [hframe, Step.fail] at h
    cases h
    exact ⟨rfl, rfl, rfl⟩
  | some frame =>
    rcases hclose : Step.closeFrame frame s.reader with ⟨failure' | statement, r⟩ <;>
      simp only [hframe, Step.map_apply, hclose] at h
    · obtain ⟨hdepth, hposition⟩ := Step.closeFrame_error hclose
      cases h
      exact ⟨hdepth, hposition, rfl⟩
    · cases h

/-- To call for a query at first is to read the whole text. -/
theorem Session.call_query (source : String) :
    (start source).call .query =
      ((fun _ => ()) <$> (Reader.run source).1, { reader := (Reader.run source).2 }) := by
  have hstep : Call.query.step [] (start source).reader =
      ((fun _ => []) <$> (Reader.run source).1, (Reader.run source).2) := by
    have hrun : Step.query (start source).reader = Reader.run source := rfl
    rw [Call.step, Step.map_apply, hrun]
    rcases Reader.run source with ⟨failure | q, r⟩ <;> rfl
  rw [Session.call, show (start source).frames = [] from rfl, hstep]
  rcases Reader.run source with ⟨failure | q, r⟩ <;> rfl

/-! ### All sessions -/

/-- **A reader stays in order, whatever is called.**  Behind any calls in any order, also those that
    failed, one further call keeps the tokens that were read, and takes none back; this is so also
    if no token is found.  Where a scope cannot be closed, the depth, the position and the frames
    stay as they are.  If the first call is that of a whole query, then behind it the depth is the
    balance of the braces before the position.  On the way there it was the balance of the braces
    taken until then, and not negative; and it is zero if a query was read. -/
theorem session_invariants (source : String) (calls : List Call) :
    let s := (Session.start source).after calls
    s.reader.Orderly (Cursor.ofText source) ∧
    (∀ call, s.reader.tokens.toList <+: (s.call call).2.reader.tokens.toList ∧
      s.reader.position ≤ (s.call call).2.reader.position) ∧
    (∀ index failure s', s.call (.closeScope index) = (.error failure, s') →
      s'.reader.depth = s.reader.depth ∧ s'.reader.position = s.reader.position ∧
        s'.frames = s.frames) ∧
    let parsed := (Session.start source).call .query
    let passed := parsed.2.reader.tokens.toList.take parsed.2.reader.position
    parsed.2.reader.depth = braceBalance passed ∧
    (∀ us, us <+: passed →
      Passes us ∧ (readTokens us).2.depth = braceBalance us ∧ 0 ≤ braceBalance us) ∧
    (parsed.1 = .ok () → parsed.2.reader.depth = 0) := by
  intro s
  have hmoves : (Session.start source).reader.Moves s.reader := Session.moves_after _ calls
  refine ⟨(hmoves.follows (.start _)).orderly, fun call => (s.moves_call call).grows,
    fun index failure s' => Session.closeScope_error, ?_⟩
  intro parsed passed
  -- the first call is a whole run, so what is known of runs applies
  have hparsed : parsed = _ := Session.call_query source
  have hreader : parsed.2.reader = (Reader.run source).2 := congrArg (·.2.reader) hparsed
  have hpassed : passed = (Reader.run source).2.taken.toList := by
    rw [← Reader.take_tokens, ← hreader]
  obtain ⟨hdepth, hway, hread⟩ := depth_of_query (Cursor.ofText source)
  rw [hpassed, hreader]
  refine ⟨hdepth, hway, fun hok => ?_⟩
  rcases hresult : (Reader.run source).1 with failure | q
  · rw [hparsed, hresult] at hok
    cases hok
  · exact hread q hresult

/-- A scope that was opened before a comma cannot be closed and stays open, and the comma is still
    ahead. -/
theorem session_invariants_of_comma :
    let brace : Token := ⟨.leftBrace, "\x7b", ⟨0, 1, 1⟩⟩
    let s := (Session.start "\x7b ,").after [.openScope brace []]
    ∃ failure s', s.call (.closeScope 0) = (.error failure, s') ∧ s'.reader.depth = 1 ∧
      s'.reader.position = 1 ∧ s'.frames = s.frames := by
  intro brace s
  obtain ⟨-, -, hclose, -⟩ := session_invariants "\x7b ," [.openScope brace []]
  have hdepth : s.reader.depth = 1 := by decide +kernel
  have hposition : s.reader.position = 1 := by decide +kernel
  have hfails : (s.call (.closeScope 0)).1.toOption = none := by decide +kernel
  rcases hcall : s.call (.closeScope 0) with ⟨failure | result, s'⟩
  · obtain ⟨hdepth', hposition', hframes⟩ := hclose 0 failure s' hcall
    exact ⟨failure, s', rfl, hdepth'.trans hdepth, hposition'.trans hposition, hframes⟩
  · rw [hcall] at hfails
    cases hfails

end ScopedQuery
