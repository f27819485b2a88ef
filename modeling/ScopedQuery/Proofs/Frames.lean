import ScopedQuery.Proofs.Descent

namespace ScopedQuery

/-!
# Scopes on a stack of frames

The lists of statements that are being read can be kept as frames on a stack, whose top is the
innermost one.  Nothing in the stack itself says that there is a top, or that a frame whose scope
has to be closed was opened by a brace; where one of the two is missing, reading fails as misplaced.
A stack is read as the nest of its frames is, and the nest has both.

* `Frame`, `Nest.frames` — a list on the stack, and the stack of a nest.
* `Step.framesAtStart`, `Step.framesAtEnd` — reading with a stack, from where a statement starts and
  from where one is complete.
* `Step.resumeFrames_eq` — a stack is read as its nest is.
* `Step.framedQuery_eq` — a query is read with a stack as it is with a nest.
-/

/-- A list of statements that is being read: the whole query, or the content of a scope. -/
structure Frame where
  /-- The brace that opened the scope; the whole query has none. -/
  brace : Option Token := none
  /-- The first token of the query, or of the statement that the scope belongs to. -/
  owner : Token
  /-- The verbs of the statement that the scope belongs to. -/
  verbs : List Verb := []
  statements : Array Statement := #[]

namespace Frame

/-- The frame of a scope. -/
def ofScope (scope : Scope) : Frame :=
  ⟨some scope.brace, scope.owner, scope.verbs, scope.statements⟩

/-- Puts a statement behind those of the list. -/
def add (frame : Frame) (s : Statement) : Frame :=
  { frame with statements := frame.statements.push s }

/-- The list, which starts at its brace, or at its first token. -/
def query (frame : Frame) : Query :=
  ⟨frame.statements.toList, (frame.brace.getD frame.owner).location⟩

end Frame

/-- The frames of a nest, the innermost first. -/
def Nest.frames (nest : Nest) : List Frame :=
  nest.scopes.map .ofScope ++ [{ owner := nest.first, statements := nest.statements }]

namespace Step

variable {σ ε : Type} [TokenFeed σ ε]

/-! ### Reading with a stack -/

/-- Closes the scope of a frame, which has to have been opened. -/
def closeFrame (frame : Frame) : Step σ ε Statement :=
  match frame.brace with
  | none => fail .misplaced
  | some brace => closeScope ⟨brace, frame.owner, frame.verbs, frame.statements⟩

/-- A frame takes its brace, so the loop over frames comes to an end. -/
theorem remaining_closeFrame_lt {frame : Frame} {s : Statement} {r r' : Reader σ}
    (h : (closeFrame frame : Step σ ε Statement) r = (.ok s, r')) :
    r'.remaining < r.remaining := by
  rcases frame with ⟨_ | brace, owner, verbs, statements⟩
  · simp [closeFrame, fail] at h
  · exact remaining_closeScope_lt h

mutual

/-- Reads on where a statement of the list on top starts, until all lists are complete. -/
def framesAtStart (frames : List Frame) (r : Reader σ) : Except (Failure ε) Query × Reader σ :=
  match frames with
  | [] => (.error .misplaced, r)
  | frame :: outer =>
    match h : statementStart r with
    | (.error failure, r') => (.error failure, r')
    | (.ok (.scope scope), r') =>
      have : r'.remaining < r.remaining := remaining_statementStart_lt h
      framesAtStart (.ofScope scope :: frame :: outer) r'
    | (.ok (.statement s), r') =>
      have : r'.remaining ≤ r.remaining := Settles.statementStart.remaining_le h
      framesAtEnd (frame :: outer) s r'
termination_by 2 * r.remaining + 1

/-- Puts a complete statement on the list on top and reads on: behind a terminator the next one
    starts.  Otherwise the list is complete, its frame is taken from the stack, and the statement
    that the scope belongs to is one of the list below. -/
def framesAtEnd (frames : List Frame) (s : Statement) (r : Reader σ) :
    Except (Failure ε) Query × Reader σ :=
  match frames with
  | [] => (.error .misplaced, r)
  | frame :: outer =>
    match h : accept TokenKind.terminators r with
    | (.error failure, r') => (.error failure, r')
    | (.ok (some terminator), r') =>
      have : r'.remaining < r.remaining := Advances.accept (by decide) r terminator r' h
      framesAtStart (frame.add s :: outer) r'
    | (.ok none, r') =>
      have hle : r'.remaining ≤ r.remaining := (Settles.accept _).remaining_le h
      if frame.brace.isNone then (.ok (frame.add s).query, r')
      else
        match h' : closeFrame (frame.add s) r' with
        | (.error failure, r'') => (.error failure, r'')
        | (.ok owner, r'') =>
          have : r''.remaining < r'.remaining := remaining_closeFrame_lt h'
          framesAtEnd outer owner r''
termination_by 2 * r.remaining

end

/-- `framesAtStart` as a step, to be followed by others. -/
def resumeFrames (frames : List Frame) : Step σ ε Query := framesAtStart frames

/-- `framesAtEnd` as a step, to be followed by others. -/
def resumeFramesBehind (frames : List Frame) (s : Statement) : Step σ ε Query :=
  framesAtEnd frames s

/-- With a frame on the stack a statement starts as it does with a nest. -/
theorem resumeFrames_cons (frame : Frame) (outer : List Frame) :
    (resumeFrames (frame :: outer) : Step σ ε Query) = (do
      match ← statementStart with
      | .scope scope => resumeFrames (.ofScope scope :: frame :: outer)
      | .statement s => resumeFramesBehind (frame :: outer) s) := by
  funext r
  rw [bind_apply]
  show framesAtStart _ r = _
  rw [framesAtStart]
  split <;> rename_i h <;> simp only [h, resumeFrames, resumeFramesBehind]

/-- Behind a statement the innermost frame goes on, ends the query, or is closed into the next one.
    -/
theorem resumeFramesBehind_cons (frame : Frame) (outer : List Frame) (s : Statement) :
    (resumeFramesBehind (frame :: outer) s : Step σ ε Query) = (do
      match ← accept TokenKind.terminators with
      | some _ => resumeFrames (frame.add s :: outer)
      | none =>
        if frame.brace.isNone then return (frame.add s).query
        else
          let owner ← closeFrame (frame.add s)
          resumeFramesBehind outer owner) := by
  -- the loops end by what remains of their reader, so the branches are compared at one reader
  funext r
  rw [bind_apply]
  show framesAtEnd _ s r = _
  rw [framesAtEnd]
  split <;> rename_i h
  · simp only [h]
  · simp only [h, resumeFrames]
  · simp only [h]
    by_cases hbrace : frame.brace.isNone = true
    · rw [if_pos hbrace, if_pos hbrace, pure_apply]
    · rw [if_neg hbrace, if_neg hbrace, bind_apply]
      split <;> rename_i hclose <;> simp only [hclose, resumeFramesBehind]

/-! ### The stack of a nest -/

/-- The stack of a nest has a top. -/
theorem resumeFrames_frames (nest : Nest) :
    (resumeFrames nest.frames : Step σ ε Query) = (do
      match ← statementStart with
      | .scope scope => resumeFrames (Nest.frames { nest with scopes := scope :: nest.scopes })
      | .statement s => resumeFramesBehind nest.frames s) := by
  rcases nest with ⟨first, statements, _ | ⟨scope, outer⟩⟩ <;> exact resumeFrames_cons _ _

/-- Where the list on top is complete it is the whole query, or its frame has a brace and lies on
    another frame. -/
theorem resumeFramesBehind_frames (nest : Nest) (s : Statement) :
    (resumeFramesBehind nest.frames s : Step σ ε Query) = (do
      match ← accept TokenKind.terminators with
      | some _ => resumeFrames (nest.add s).frames
      | none =>
        match nest.scopes with
        | [] => return (nest.add s).query
        | scope :: outer => do
          let owner ← closeScope (scope.add s)
          resumeFramesBehind (Nest.frames { nest with scopes := outer }) owner) := by
  rcases nest with ⟨first, statements, _ | ⟨scope, outer⟩⟩ <;> exact resumeFramesBehind_cons _ _ s

/-- Behind a complete statement a stack is read as its nest is, if that is so further on. -/
theorem resumeFramesBehind_eq {n : Nat}
    (hstart : ∀ (nest : Nest) (r : Reader σ), r.remaining < n →
      (resumeFrames nest.frames : Step σ ε Query) r = resumeAtStart nest r)
    (nest : Nest) (s : Statement) (r : Reader σ) (hr : r.remaining ≤ n) :
    (resumeFramesBehind nest.frames s : Step σ ε Query) r = resumeAtEnd (nest.add s) r := by
  -- to close a scope leads behind a statement again, so a row of braces needs its own induction
  induction hm : r.remaining using Nat.strongRecOn generalizing nest s r with
  | ind m ih =>
    subst hm
    rw [resumeFramesBehind_frames, resumeAtEnd_eq]
    refine bind_apply_congr fun accepted r₁ haccept => ?_
    cases accepted with
    | some terminator =>
      have hlt := Advances.accept (by decide) r terminator r₁ haccept
      exact hstart (nest.add s) r₁ (Nat.lt_of_lt_of_le hlt hr)
    | none =>
      have hle := (Settles.accept _).remaining_le haccept
      rcases nest with ⟨first, statements, _ | ⟨scope, outer⟩⟩
      · rfl
      · -- the scope is closed, and its statement is complete in the list below
        show (closeScope (scope.add s) >>= _) r₁ = (closeScope (scope.add s) >>= _) r₁
        refine bind_apply_congr fun owner r₂ hclose => ?_
        have hlt := remaining_closeScope_lt hclose
        exact ih r₂.remaining (by omega) ⟨first, statements, outer⟩ owner r₂ (by omega) rfl

/-- **A stack is read as its nest is**: its top is never missing, nor the brace of a frame whose
    scope is closed. -/
theorem resumeFrames_eq (nest : Nest) :
    (resumeFrames nest.frames : Step σ ε Query) = resumeAtStart nest := by
  funext r
  induction hn : r.remaining using Nat.strongRecOn generalizing nest r with
  | ind n ih =>
    subst hn
    -- this is what the lemma for the end of a statement asks for
    have hstart (nest : Nest) (r' : Reader σ) (hlt : r'.remaining < r.remaining) :
        (resumeFrames nest.frames : Step σ ε Query) r' = resumeAtStart nest r' :=
      ih r'.remaining hlt nest r' rfl
    rw [resumeFrames_frames, resumeAtStart_eq_statementStart]
    refine bind_apply_congr fun start r₁ hread => ?_
    cases start with
    | scope scope => exact hstart _ r₁ (remaining_statementStart_lt hread)
    | statement s =>
      have hle := Settles.statementStart.remaining_le hread
      exact resumeFramesBehind_eq hstart nest s r₁ hle

/-! ### Queries -/

/-- Reads statements, with all scopes in them, with a stack. -/
def framedStatements : Step σ ε Query := do
  let first ← peek
  resumeFrames [{ owner := first }]

/-- Reads a whole query with a stack. -/
def framedQuery : Step σ ε Query := wholeQuery framedStatements

/-- **The stack is the nest.**  For every feed both ways of reading give the same query or the same
    failure, and they leave the same reader. -/
theorem framedQuery_eq : (framedQuery : Step σ ε Query) = query := by
  have hstatements : (framedStatements : Step σ ε Query) = statements :=
    bind_congr fun first => resumeFrames_eq { first }
  rw [framedQuery, hstatements, query_eq_wholeQuery]

end Step

end ScopedQuery
