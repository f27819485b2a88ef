import ScopedQuery.Token.Feed

namespace ScopedQuery

/-!
# A reader of tokens

A reader asks its feed for a token only when it has to look at it, and holds one token that it has
looked at and not yet taken.

* `Reader` — what has been taken, the token ahead, and the scopes that are open.
* `Step` — a step of reading.  A reader can be used further after a step that failed, so every step
  gives the reader behind it as well.
* `Step.peek`, `Step.take`, `Step.accept` — the steps that all others are made of.
* `Reader.remaining` — a bound on the tokens still to be taken.  No step raises it
  (`Step.Settles`), and a step that took a token lowers it (`Step.Advances`).
-/

/-- What a reader tells of its work. -/
inductive TraceEntry
  /-- A query of so many characters is about to be read. -/
  | started (characters : Nat)
  /-- A scope was opened, and so many are open now. -/
  | entered (opened : Location) (depth : Int)
  /-- A query of so many statements has been read. -/
  | finished (statements : Nat)
  /-- The query was refused. -/
  | refused (diagnostic : Diagnostic)

/-- The wording of an entry. -/
def TraceEntry.message : TraceEntry → String
  | started characters => s!"parsing query of {characters} characters"
  | entered opened depth =>
    s!"entering scope at line {opened.line}, col {opened.col} (depth {depth})"
  | finished statements => s!"parsed {statements} top-level statements"
  | refused diagnostic => s!"parse failed: {diagnostic.summary}"

/-- A reader of the tokens of a feed. -/
structure Reader (σ : Type) where
  feed : σ
  /-- The tokens taken so far, in order. -/
  taken : Array Token := #[]
  /-- The token that was looked at and not yet taken. -/
  ahead : Option Token := none
  /-- The number of scopes that are open. -/
  depth : Int := 0
  trace : Array TraceEntry := #[]

/-- Why a step failed. -/
inductive Failure (ε : Type)
  /-- The feed had no token to give. -/
  | feed (fault : ε)
  /-- The tokens make no query. -/
  | refused (diagnostic : Diagnostic)
  /-- The step was asked for where it cannot start. -/
  | misplaced

namespace Reader

variable {σ ε : Type} [TokenFeed σ ε]

/-- The tokens that the feed has given. -/
def tokens (r : Reader σ) : Array Token :=
  match r.ahead with
  | some token => r.taken.push token
  | none => r.taken

/-- The number of tokens taken. -/
def position (r : Reader σ) : Nat := r.taken.size

/-- A bound on the number of tokens that can still be taken. -/
def remaining (r : Reader σ) : Nat :=
  match r.ahead with
  | some token => if token.kind = .endOfInput then 0 else TokenFeed.remaining r.feed + 2
  | none => TokenFeed.remaining r.feed + 1

end Reader

/-- A step of reading, which gives a result or fails, and leaves a reader in both cases. -/
def Step (σ ε α : Type) : Type := Reader σ → Except (Failure ε) α × Reader σ

namespace Step

variable {σ ε α β : Type}

/-- Goes on with the result of a step, if it has one. -/
def andThen (x : Step σ ε α) (f : α → Step σ ε β) : Step σ ε β := fun r =>
  match x r with
  | (.ok a, r) => f a r
  | (.error failure, r) => (.error failure, r)

instance : Monad (Step σ ε) where
  pure a := fun r => (.ok a, r)
  bind := andThen

/-- Fails. -/
def fail (failure : Failure ε) : Step σ ε α := fun r => (.error failure, r)

/-- Writes an entry into the trace. -/
def note (entry : TraceEntry) : Step σ ε Unit := fun r =>
  (.ok (), { r with trace := r.trace.push entry })

/-- Changes the number of open scopes by `change` and gives the new number. -/
def changeDepth (change : Int) : Step σ ε Int := fun r =>
  (.ok (r.depth + change), { r with depth := r.depth + change })

section Tokens

variable [TokenFeed σ ε]

/-- The query that is being read. -/
def text : Step σ ε String := fun r => (.ok (TokenFeed.text r.feed), r)

/-- Looks at the next token. -/
def peek : Step σ ε Token := fun r =>
  match r.ahead with
  | some token => (.ok token, r)
  | none =>
    match TokenFeed.next r.feed with
    | (.ok token, feed) => (.ok token, { r with feed, ahead := some token })
    | (.error fault, feed) => (.error (.feed fault), { r with feed })

/-- Passes a token that was looked at. -/
def drop (token : Token) : Step σ ε Unit := fun r =>
  (.ok (), { r with taken := r.taken.push token, ahead := none })

/-- Takes the next token; the end of the input is given and never taken. -/
def take : Step σ ε Token := do
  let token ← peek
  if token.kind = .endOfInput then return token
  drop token
  return token

/-- Takes the next token if it is of one of the kinds. -/
def accept (kinds : List TokenKind) : Step σ ε (Option Token) := do
  let token ← peek
  if token.kind ∈ kinds then some <$> take else return none

/-- Refuses the query for `problem`, found at `token`. -/
def refuse (problem : Problem) (token : Token) : Step σ ε α := do
  let diagnostic := problem.report token.location token.describe (← text)
  note (.refused diagnostic)
  fail (.refused diagnostic)

end Tokens

/-! ### Equations of the combinators -/

theorem pure_apply (a : α) (r : Reader σ) : (pure a : Step σ ε α) r = (.ok a, r) := rfl

/-- A step that follows another one starts where that has led, unless it has failed. -/
theorem bind_apply (x : Step σ ε α) (f : α → Step σ ε β) (r : Reader σ) :
    (x >>= f) r =
      match x r with
      | (.ok a, r) => f a r
      | (.error failure, r) => (.error failure, r) := rfl

/-- What is made of a result leaves the reader where the step has led. -/
theorem map_apply (f : α → β) (x : Step σ ε α) (r : Reader σ) :
    (f <$> x) r =
      match x r with
      | (.ok a, r) => (.ok (f a), r)
      | (.error failure, r) => (.error failure, r) := rfl

/-! ### Progress -/

variable [TokenFeed σ ε]

/-- The step never raises the bound on the tokens to be taken. -/
def Settles (x : Step σ ε α) : Prop := ∀ r, (x r).2.remaining ≤ r.remaining

/-- A step that gives something has lowered the bound. -/
def Advances (x : Step σ ε (Option α)) : Prop :=
  ∀ r a r', x r = (.ok (some a), r') → r'.remaining < r.remaining

theorem Settles.pure (a : α) : Settles (pure a : Step σ ε α) := fun r => Nat.le_refl r.remaining

theorem Settles.fail (failure : Failure ε) : Settles (fail failure : Step σ ε α) :=
  fun r => Nat.le_refl r.remaining

theorem Settles.note (entry : TraceEntry) : Settles (note entry : Step σ ε Unit) :=
  fun r => Nat.le_refl r.remaining

theorem Settles.changeDepth (change : Int) : Settles (changeDepth change : Step σ ε Int) :=
  fun r => Nat.le_refl r.remaining

theorem Settles.text : Settles (text : Step σ ε String) := fun r => Nat.le_refl r.remaining

/-- Steps that settle do so one behind the other. -/
theorem Settles.bind {x : Step σ ε α} {f : α → Step σ ε β} (hx : Settles x)
    (hf : ∀ a, Settles (f a)) : Settles (x >>= f) := by
  intro r
  have hr := hx r
  rw [bind_apply]
  split
  case h_1 a r' h =>
    rw [h] at hr
    exact Nat.le_trans (hf a r') hr
  case h_2 failure r' h => rwa [h] at hr

theorem Settles.map {x : Step σ ε α} (f : α → β) (hx : Settles x) : Settles (f <$> x) := by
  intro r
  have hr := hx r
  rw [map_apply]
  split <;> rename_i h <;> rwa [h] at hr

/-- The token that was looked at is the token ahead. -/
theorem ahead_of_peek {r r' : Reader σ} {token : Token} (h : peek r = (.ok token, r')) :
    r'.ahead = some token := by
  unfold peek at h
  split at h
  case h_1 ahead hahead =>
    simp only [Prod.mk.injEq, Except.ok.injEq] at h
    rw [← h.2, hahead, h.1]
  case h_2 =>
    split at h
    · simp only [Prod.mk.injEq, Except.ok.injEq] at h
      rw [← h.2, ← h.1]
    · simp at h

/-- A token that is looked at may come from the feed, and then it is ahead and no longer in the
    feed. -/
theorem Settles.peek : Settles (peek : Step σ ε Token) := by
  intro r
  unfold Step.peek
  split
  · exact Nat.le_refl r.remaining
  case h_2 hahead =>
    split
    case h_1 token feed hnext =>
      by_cases hkind : token.kind = .endOfInput
      · simp [Reader.remaining, hkind]
      · have := TokenFeed.remaining_lt hnext hkind
        simp only [Reader.remaining, hkind, hahead, if_false]
        omega
    case h_2 fault feed hnext =>
      have := TokenFeed.remaining_le hnext
      simp only [Reader.remaining, hahead]
      omega

/-- To take a token is to look at it and to put it behind the others, unless it is the end of the
    input. -/
theorem take_apply (r : Reader σ) :
    take r =
      match peek r with
      | (.ok token, r) =>
        if token.kind = .endOfInput then (.ok token, r)
        else (.ok token, { r with taken := r.taken.push token, ahead := none })
      | (.error failure, r) => (.error failure, r) := by
  unfold take
  rw [bind_apply]
  rcases peek r with ⟨failure | token, r₁⟩
  · rfl
  · dsimp only
    split <;> rfl

/-- Taking a token other than the end of the input lowers the bound. -/
theorem remaining_take_lt {r r' : Reader σ} {token : Token} (h : take r = (.ok token, r'))
    (hkind : token.kind ≠ .endOfInput) : r'.remaining < r.remaining := by
  have hsettles := Settles.peek r
  rw [take_apply] at h
  split at h
  case h_1 ahead r₁ hpeek =>
    have hahead := ahead_of_peek hpeek
    split at h
    case isTrue hend =>
      simp only [Prod.mk.injEq, Except.ok.injEq] at h
      exact absurd (h.1 ▸ hend) hkind
    case isFalse hend =>
      simp only [Prod.mk.injEq] at h
      rw [hpeek] at hsettles
      simp only [Reader.remaining, hahead, hend, if_false] at hsettles
      rw [← h.2]
      simp only [Reader.remaining]
      omega
  · simp at h

/-- So a token that is taken is no longer counted. -/
theorem Settles.take : Settles (take : Step σ ε Token) := by
  intro r
  have hsettles := Settles.peek r
  rw [take_apply]
  split
  case h_1 token r₁ hpeek =>
    rw [hpeek] at hsettles
    split
    · exact hsettles
    case isFalse hend =>
      have hahead := ahead_of_peek hpeek
      simp only [Reader.remaining, hahead, hend, if_false] at hsettles ⊢
      omega
  case h_2 failure r₁ hpeek => rwa [hpeek] at hsettles

/-- To accept a token is to look at it and to take it if its kind is right. -/
theorem accept_apply (kinds : List TokenKind) (r : Reader σ) :
    accept kinds r =
      match peek r with
      | (.ok token, r) => if token.kind ∈ kinds then (some <$> take) r else (.ok none, r)
      | (.error failure, r) => (.error failure, r) := by
  unfold accept
  rw [bind_apply]
  rcases peek r with ⟨failure | token, r₁⟩
  · rfl
  · dsimp only
    split <;> rfl

theorem Settles.accept (kinds : List TokenKind) :
    Settles (accept kinds : Step σ ε (Option Token)) :=
  .bind .peek fun token r => by
    split
    · exact Settles.map some .take r
    · exact Nat.le_refl r.remaining

/-- A token that was looked at is the one that is taken. -/
theorem take_of_ahead {r : Reader σ} {token : Token} (h : r.ahead = some token) :
    take r =
      if token.kind = .endOfInput then (.ok token, r)
      else (.ok token, { r with taken := r.taken.push token, ahead := none }) := by
  rw [take_apply]
  simp [peek, h]

/-- A token that is accepted was one of those that remained. -/
theorem Advances.accept {kinds : List TokenKind} (h : .endOfInput ∉ kinds) :
    Advances (accept kinds : Step σ ε (Option Token)) := by
  intro r token r' hr
  have hsettles := Settles.peek r
  rw [accept_apply] at hr
  split at hr
  case h_1 ahead r₁ hpeek =>
    rw [hpeek] at hsettles
    split at hr
    case isTrue hmem =>
      have hkind : ahead.kind ≠ .endOfInput := fun hend => h (hend ▸ hmem)
      have htake := take_of_ahead (ahead_of_peek hpeek)
      rw [if_neg hkind] at htake
      have hlt := remaining_take_lt htake hkind
      rw [map_apply, htake] at hr
      simp only [Prod.mk.injEq] at hr
      rw [← hr.2]
      exact Nat.lt_of_lt_of_le hlt hsettles
    · simp at hr
  · simp at hr

theorem Settles.refuse (problem : Problem) (token : Token) :
    Settles (refuse problem token : Step σ ε α) :=
  .bind .text fun _ => .bind (.note _) fun _ => .fail _

end Step

end ScopedQuery
