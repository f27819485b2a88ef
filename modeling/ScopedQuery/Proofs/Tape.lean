import ScopedQuery.Proofs.Course
import ScopedQuery.Proofs.Moves

namespace ScopedQuery

/-!
# Tokens on a tape

The tokens that have been read can be kept on one tape, with the number of those that have been
taken.  Nothing in a tape says that at most one token is on it that has not been taken, nor that the
end of the input is read once: the token at the position is looked for in a loop, which reads on as
long as it is not there.

* `Tape`, `Reader.tape` — tokens and a position, and those of a reader.
* `Tape.current`, `Tape.advance`, `Tape.accept` — the steps that all others are made of, on a tape.
* `Reader.current_tape`, `Reader.advance_tape`, `Reader.accept_tape` — a reader that has not taken
  the end of the input does the same.
-/

/-- The tokens that have been read, and the number of those that have been taken. -/
structure Tape (σ : Type) where
  feed : σ
  tokens : Array Token := #[]
  position : Nat := 0

/-- The tape of a reader. -/
def Reader.tape {σ : Type} (r : Reader σ) : Tape σ := ⟨r.feed, r.tokens, r.position⟩

namespace Tape

variable {σ ε : Type} [TokenFeed σ ε]

/-- The end of the input, if it is the last token that has been read. -/
def end? (tape : Tape σ) : Option Token := tape.tokens.back?.filter (·.kind == .endOfInput)

/-- A bound on the number of tokens that can still be read. -/
def remaining (tape : Tape σ) : Nat :=
  if tape.end?.isSome then 0 else TokenFeed.remaining tape.feed + 1

/-- Each token that is read brings the end of the input nearer. -/
theorem remaining_push_lt {tape : Tape σ} {t : Token} {feed : σ} (hend : tape.end? = none)
    (hnext : TokenFeed.next tape.feed = (.ok t, feed)) :
    remaining { tape with feed, tokens := tape.tokens.push t } < tape.remaining := by
  have hbefore : tape.remaining = TokenFeed.remaining tape.feed + 1 := by
    rw [remaining, hend]
    rfl
  rw [hbefore, remaining, end?, Array.back?_push]
  by_cases hkind : t.kind = .endOfInput
  · simp [hkind]
  · have hlt := TokenFeed.remaining_lt hnext hkind
    simpa [hkind] using hlt

/-- Looks at the token at the position.  Tokens are read until it is there; behind the end of the
    input there is none, and the end is given. -/
def current (tape : Tape σ) : Except (Failure ε) Token × Tape σ :=
  if h : tape.position < tape.tokens.size then (.ok tape.tokens[tape.position], tape)
  else
    match hend : tape.end? with
    | some last => (.ok last, tape)
    | none =>
      match hnext : TokenFeed.next tape.feed with
      | (.ok t, feed) =>
        have := remaining_push_lt hend hnext
        current { tape with feed, tokens := tape.tokens.push t }
      | (.error fault, feed) => (.error (.feed fault), { tape with feed })
termination_by tape.remaining

/-- Passes the token at the position, unless it is the end of the input. -/
def advance (tape : Tape σ) : Except (Failure ε) Token × Tape σ :=
  match tape.current with
  | (.ok t, tape) =>
    if t.kind = .endOfInput then (.ok t, tape)
    else (.ok t, { tape with position := tape.position + 1 })
  | (.error failure, tape) => (.error failure, tape)

/-- Passes the token at the position if it is of one of the kinds. -/
def accept (kinds : List TokenKind) (tape : Tape σ) : Except (Failure ε) (Option Token) × Tape σ :=
  match tape.current with
  | (.ok t, tape) =>
    if t.kind ∈ kinds then
      match tape.advance with
      | (.ok t, tape) => (.ok (some t), tape)
      | (.error failure, tape) => (.error failure, tape)
    else (.ok none, tape)
  | (.error failure, tape) => (.error failure, tape)

section Current

variable {tape : Tape σ}

/-- A token that has been read already is given as it is. -/
theorem current_of_lt (h : tape.position < tape.tokens.size) :
    tape.current = (.ok tape.tokens[tape.position], tape) := by
  rw [current]
  exact dif_pos h

/-- Otherwise one more token is read, and it is tried again. -/
theorem current_of_token {t : Token} {feed : σ} (h : ¬ tape.position < tape.tokens.size)
    (hend : tape.end? = none) (hnext : TokenFeed.next tape.feed = (.ok t, feed)) :
    tape.current = current { tape with feed, tokens := tape.tokens.push t } := by
  rw [current, dif_neg h]
  split
  next h₁ => cases hend.symm.trans h₁
  next =>
    split
    next h₁ => cases hnext.symm.trans h₁; rfl
    next h₁ => cases hnext.symm.trans h₁

/-- Where none can be read, the fault is given. -/
theorem current_of_fault {fault : ε} {feed : σ} (h : ¬ tape.position < tape.tokens.size)
    (hend : tape.end? = none) (hnext : TokenFeed.next tape.feed = (.error fault, feed)) :
    tape.current = (.error (.feed fault), { tape with feed }) := by
  rw [current, dif_neg h]
  split
  next h₁ => cases hend.symm.trans h₁
  next =>
    split
    next h₁ => cases hnext.symm.trans h₁
    next h₁ => cases hnext.symm.trans h₁; rfl

end Current

end Tape

/-! ### The tape of a reader -/

namespace Reader

variable {σ ε : Type} [TokenFeed σ ε] {r : Reader σ}

/-- The end of the input has not been taken. -/
def TakesNoEnd (r : Reader σ) : Prop := ∀ t ∈ r.taken, t.kind ≠ .endOfInput

/-- The token that was looked at is the one at the position. -/
theorem current_tape_of_ahead {t : Token} (h : r.ahead = some t) :
    r.tape.current = (.ok t, r.tape) := by
  have hlt : r.tape.position < r.tape.tokens.size := by simp [tape, position, tokens, h]
  have hget : r.tape.tokens[r.tape.position] = t := by simp [tape, position, tokens, h]
  rw [Tape.current_of_lt hlt, hget]

/-- A reader looks at the token at its position. -/
theorem current_tape (hr : r.TakesNoEnd) :
    r.tape.current = ((Step.peek r).1, (Step.peek r).2.tape) := by
  cases hahead : r.ahead with
  | some t =>
    rw [current_tape_of_ahead hahead, Step.peek_of_ahead hahead]
  | none =>
    have htokens : r.tape.tokens = r.taken := by simp [tape, tokens, hahead]
    have hge : ¬ r.tape.position < r.tape.tokens.size := by
      rw [htokens]
      exact Nat.lt_irrefl _
    have hend : r.tape.end? = none := by
      rw [Tape.end?, htokens, Option.filter_eq_none_iff]
      intro t ht
      simpa using hr t (Array.mem_of_back? ht)
    rcases hnext : TokenFeed.next r.feed with ⟨fault | t, feed⟩
    · rw [Tape.current_of_fault hge hend hnext, Step.peek_of_fault hahead hnext]
      simp only [tape, tokens, position, hahead]
    · -- the token that is read is the one at the position
      have hlooked : ({ r.tape with feed, tokens := r.tape.tokens.push t } : Tape σ)
          = ({ r with feed, ahead := some t } : Reader σ).tape := by
        simp only [tape, tokens, position, hahead]
      rw [Tape.current_of_token hge hend hnext, Step.peek_of_next hahead hnext, hlooked]
      exact current_tape_of_ahead rfl

/-- To pass a token on the tape is what a reader does when it takes one. -/
theorem advance_tape (hr : r.TakesNoEnd) :
    r.tape.advance = ((Step.take r).1, (Step.take r).2.tape) := by
  rw [Tape.advance, current_tape hr, Step.take_apply]
  rcases hpeek : Step.peek r with ⟨failure | t, r₁⟩
  · rfl
  have hahead := Step.ahead_of_peek hpeek
  -- the position moves on just if the token that was ahead is taken
  by_cases hend : t.kind = .endOfInput
  · simp only [hend, if_true]
  · simp [hend, tape, tokens, position, hahead]

/-- To look at a token takes none. -/
theorem taken_peek (r : Reader σ) : (Step.peek r).2.taken = r.taken := by
  unfold Step.peek
  split
  · rfl
  · split <;> rfl

/-- To accept a token on the tape is what a reader does when it accepts one. -/
theorem accept_tape (hr : r.TakesNoEnd) (kinds : List TokenKind) :
    r.tape.accept kinds = ((Step.accept kinds r).1, (Step.accept kinds r).2.tape) := by
  have hpeeked : (Step.peek r).2.TakesNoEnd := by
    rw [TakesNoEnd, taken_peek]
    exact hr
  rw [Tape.accept, current_tape hr, Step.accept_apply]
  rcases hpeek : Step.peek r with ⟨failure | t, r₁⟩
  · rfl
  rw [hpeek] at hpeeked
  by_cases hmem : t.kind ∈ kinds
  · simp only [hmem, if_true, advance_tape hpeeked, Step.map_apply]
    rcases Step.take r₁ with ⟨failure | t', r₂⟩ <;> rfl
  · simp only [hmem, if_false]

end Reader

end ScopedQuery
