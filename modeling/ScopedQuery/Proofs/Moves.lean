import Mathlib.Logic.Relation
import ScopedQuery.Proofs.Frames

namespace ScopedQuery

/-!
# What a step can do to a reader

Whatever a step reads, and whether it gives a result or fails, it does nothing to its reader but a
few things, one after another: it looks at a token, takes the one that it has looked at, or counts
scopes and writes into the trace.

* `Reader.Move` — one of these things, and `Reader.Moves` several of them.
* `Step.IsMade` — a step that does nothing else.  Such steps may follow one another
  (`Step.IsMade.bind`), and every step of the reader is one.
* `Reader.Moves.grows` — nothing that has been read is given back.
-/

namespace Reader

variable {σ ε : Type} [TokenFeed σ ε]

/-- What a step can do to a reader at once. -/
inductive Move : Reader σ → Reader σ → Prop
  /-- A token is looked at. -/
  | looked {r : Reader σ} {t : Token} {feed : σ} : r.ahead = none →
    TokenFeed.next r.feed = (.ok t, feed) → Move r { r with feed, ahead := some t }
  /-- There is no token to look at. -/
  | missed {r : Reader σ} {fault : ε} {feed : σ} : r.ahead = none →
    TokenFeed.next r.feed = (.error fault, feed) → Move r { r with feed }
  /-- The token that was looked at is taken; the end of the input never is. -/
  | took {r : Reader σ} {t : Token} : r.ahead = some t → t.kind ≠ .endOfInput →
    Move r { r with taken := r.taken.push t, ahead := none }
  /-- Scopes are counted, and the trace goes on. -/
  | noted {r : Reader σ} (depth : Int) (trace : Array TraceEntry) : Move r { r with depth, trace }

/-- What a step can do to a reader one after another. -/
def Moves : Reader σ → Reader σ → Prop := Relation.ReflTransGen Move

variable {r r' r'' : Reader σ}

theorem Moves.refl (r : Reader σ) : r.Moves r := Relation.ReflTransGen.refl

theorem Moves.single (h : r.Move r') : r.Moves r' := Relation.ReflTransGen.single h

theorem Moves.trans (h : r.Moves r') (h' : r'.Moves r'') : r.Moves r'' :=
  Relation.ReflTransGen.trans h h'

/-- Tokens are added behind those that have been read, and none is given back. -/
theorem Move.grows (h : r.Move r') :
    r.tokens.toList <+: r'.tokens.toList ∧ r.position ≤ r'.position := by
  cases h with
  | looked hahead _ => simp [tokens, position, hahead]
  | missed hahead _ => simp [tokens, position, hahead]
  | took hahead _ => simp [tokens, position, hahead]
  | noted depth trace => exact ⟨List.prefix_rfl, Nat.le_refl _⟩

/-- Tokens are only ever added to those that were read, and the position never falls. -/
theorem Moves.grows (h : r.Moves r') :
    r.tokens.toList <+: r'.tokens.toList ∧ r.position ≤ r'.position := by
  induction h with
  | refl => exact ⟨List.prefix_rfl, Nat.le_refl _⟩
  | tail _ hmove ih => exact ⟨ih.1.trans hmove.grows.1, Nat.le_trans ih.2 hmove.grows.2⟩

end Reader

namespace Step

variable {σ ε α β : Type} [TokenFeed σ ε]

/-- The step does nothing else to its reader, whether it gives a result or fails. -/
def IsMade (x : Step σ ε α) : Prop := ∀ r : Reader σ, r.Moves (x r).2

theorem IsMade.pure (a : α) : IsMade (pure a : Step σ ε α) := fun r => .refl r

theorem IsMade.fail (failure : Failure ε) : IsMade (fail failure : Step σ ε α) := fun r => .refl r

theorem IsMade.note (entry : TraceEntry) : IsMade (note entry : Step σ ε Unit) :=
  fun r => .single (.noted r.depth (r.trace.push entry))

theorem IsMade.changeDepth (change : Int) : IsMade (changeDepth change : Step σ ε Int) :=
  fun r => .single (.noted (r.depth + change) r.trace)

theorem IsMade.text : IsMade (text : Step σ ε String) := fun r => .refl r

/-- Steps that are made of moves may follow one another. -/
theorem IsMade.bind {x : Step σ ε α} {f : α → Step σ ε β} (hx : IsMade x) (hf : ∀ a, IsMade (f a)) :
    IsMade (x >>= f) := by
  intro r
  have hr := hx r
  rw [bind_apply]
  split
  case h_1 a r' h =>
    rw [h] at hr
    exact hr.trans (hf a r')
  case h_2 failure r' h => rwa [h] at hr

/-- What is made of the result makes no move. -/
theorem IsMade.map {x : Step σ ε α} (f : α → β) (hx : IsMade x) : IsMade (f <$> x) := by
  intro r
  have hr := hx r
  rw [map_apply]
  split <;> rename_i h <;> rwa [h] at hr

/-! ### Tokens -/

/-- To look at a token is to read it if none is ahead, and no move otherwise. -/
theorem IsMade.peek : IsMade (peek : Step σ ε Token) := by
  intro r
  unfold Step.peek
  split
  · exact .refl r
  next hahead =>
    split
    next hnext => exact .single (.looked hahead hnext)
    next hnext => exact .single (.missed hahead hnext)

/-- To take a token is to look at it and to pass it, unless it is the end of the input. -/
theorem IsMade.take : IsMade (take : Step σ ε Token) := by
  intro r
  have hpeek := IsMade.peek r
  rw [take_apply]
  split
  next t r₁ h =>
    rw [h] at hpeek
    split
    · exact hpeek
    next hend => exact hpeek.trans (.single (.took (ahead_of_peek h) hend))
  next h => rwa [h] at hpeek

/-- To accept a token is to look at it, and perhaps to take it. -/
theorem IsMade.accept (kinds : List TokenKind) :
    IsMade (accept kinds : Step σ ε (Option Token)) := by
  refine .bind .peek fun token => ?_
  split
  · exact .map some .take
  · exact .pure none

theorem IsMade.refuse (problem : Problem) (token : Token) :
    IsMade (refuse problem token : Step σ ε α) :=
  .bind .text fun _ => .bind (.note _) fun _ => .fail _

/-! ### Verbs -/

/-- By induction on what remains, to skip line breaks is to accept them one by one. -/
theorem IsMade.newlines : IsMade (newlines : Step σ ε Unit) := by
  intro r
  unfold Step.newlines
  -- a refusal and another token end the loop; a line break that is taken leads into it again
  fun_induction skipNewlines r with
  | case1 r failure r' h =>
    have haccept := IsMade.accept [.newline] r
    rwa [h] at haccept
  | case2 r r' h =>
    have haccept := IsMade.accept [.newline] r
    rwa [h] at haccept
  | case3 r token r' h _ ih =>
    have haccept := IsMade.accept [.newline] r
    rw [h] at haccept
    exact haccept.trans ih

/-- An argument is a row of steps, each of which may end it. -/
theorem IsMade.argument : IsMade (argument : Step σ ε Argument) := by
  refine .bind .newlines fun _ => .bind .peek fun name => ?_
  split
  · exact .refuse _ name
  split
  · exact .refuse _ name
  refine .bind .take fun _ => .bind .newlines fun _ => .bind .peek fun equals => ?_
  refine .bind (.accept _) fun accepted => ?_
  split
  · exact .refuse _ equals
  refine .bind .newlines fun _ => .bind .peek fun value => .bind (.accept _) fun accepted => ?_
  split
  · exact .refuse _ value
  · exact .pure _

theorem IsMade.nextArgument? : IsMade (nextArgument? : Step σ ε (Option Argument)) := by
  refine .bind .newlines fun _ => .bind (.accept _) fun comma => ?_
  split
  · exact .map some .argument
  refine .bind .peek fun token => .bind (.accept _) fun closing => ?_
  split
  · exact .pure none
  · exact .refuse _ token

/-- By induction on what remains, so are any number of arguments. -/
theorem IsMade.argumentsFrom (read : Array Argument) :
    IsMade (argumentsFrom read : Step σ ε (List Argument)) := by
  intro r
  fun_induction Step.argumentsFrom read r with
  | case1 read r failure r' h =>
    have hnext := IsMade.nextArgument? r
    rwa [h] at hnext
  | case2 read r r' h =>
    have hnext := IsMade.nextArgument? r
    rwa [h] at hnext
  | case3 read r a r' h _ ih =>
    have hnext := IsMade.nextArgument? r
    rw [h] at hnext
    exact hnext.trans ih

theorem IsMade.arguments : IsMade (arguments : Step σ ε (List Argument)) :=
  .bind (.accept _) fun _ => .bind .argument fun first => .argumentsFrom #[first]

theorem IsMade.namedVerbAfter (sign : Token) : IsMade (namedVerbAfter sign : Step σ ε Verb) := by
  refine .bind .peek fun name => ?_
  split
  · exact .refuse _ name
  refine .bind .take fun _ => .bind (.bind .peek fun following => ?_) fun read => .pure _
  split
  · exact .arguments
  · exact .pure []

theorem IsMade.namedVerb : IsMade (namedVerb : Step σ ε Verb) := by
  refine .bind (.accept _) fun sign => ?_
  split
  · exact .fail _
  next sign => exact .namedVerbAfter sign

theorem IsMade.verb? : IsMade (verb? : Step σ ε (Option Verb)) := by
  refine .bind .peek fun token => ?_
  split
  · exact .map some .namedVerb
  refine .bind (.accept _) fun filter => ?_
  split <;> exact .pure _

/-- So are any number of verbs. -/
theorem IsMade.verbsFrom (read : Array Verb) : IsMade (verbsFrom read : Step σ ε (List Verb)) := by
  intro r
  fun_induction Step.verbsFrom read r with
  | case1 read r failure r' h =>
    have hverb := IsMade.verb? r
    rwa [h] at hverb
  | case2 read r r' h =>
    have hverb := IsMade.verb? r
    rwa [h] at hverb
  | case3 read r v r' h _ ih =>
    have hverb := IsMade.verb? r
    rw [h] at hverb
    exact hverb.trans ih

theorem IsMade.verbs : IsMade (verbs : Step σ ε (List Verb)) := .verbsFrom #[]

/-! ### Scopes -/

/-- To open a scope changes the depth and takes a brace. -/
theorem IsMade.openScope (owner : Token) (verbs : List Verb) :
    IsMade (openScope owner verbs : Step σ ε Scope) := by
  refine .bind (.accept _) fun brace => ?_
  split
  · exact .fail _
  · exact .bind (.changeDepth 1) fun _ => .bind (.note _) fun _ => .pure _

/-- To close one takes the matching brace, or refuses what stands there. -/
theorem IsMade.closeScope (scope : Scope) : IsMade (closeScope scope : Step σ ε Statement) := by
  refine .bind .peek fun token => .bind (.accept _) fun brace => ?_
  split
  · exact .bind (.changeDepth _) fun _ => .pure _
  · split <;> exact .refuse _ token

/-- It is the same with a frame, whose brace is not at hand for the outermost one. -/
theorem IsMade.closeFrame (frame : Frame) : IsMade (closeFrame frame : Step σ ε Statement) := by
  unfold Step.closeFrame
  split
  · exact .fail _
  · exact .closeScope _

/-- A statement starts with its verbs, and perhaps with a brace behind them. -/
theorem IsMade.statementStart : IsMade (statementStart : Step σ ε StatementEnd) := by
  refine .bind .peek fun first => .bind .verbs fun verbs => .bind .peek fun following => ?_
  split
  · exact .map _ (.openScope first verbs)
  · exact .pure _

mutual

/-- By induction on what remains, the loop over the statements of a list makes moves only. -/
theorem moves_statementsIn (nest : Nest) (r : Reader σ) : r.Moves (statementsIn nest r).2 := by
  have hstart := IsMade.statementStart r
  rw [statementsIn]
  split
  next h => rwa [h] at hstart
  next scope r' h =>
    have : r'.remaining < r.remaining := remaining_statementStart_lt h
    rw [h] at hstart
    exact hstart.trans (moves_statementsIn _ r')
  next s r' h =>
    have : r'.remaining ≤ r.remaining := by simpa only [h] using Settles.statementStart r
    rw [h] at hstart
    exact hstart.trans (moves_closeStatement _ r')
termination_by 2 * r.remaining + 1

/-- So does the loop that closes scopes and goes on behind them. -/
theorem moves_closeStatement (nest : Nest) (r : Reader σ) :
    r.Moves (closeStatement nest r).2 := by
  have haccept := IsMade.accept TokenKind.terminators r
  rw [closeStatement]
  split
  next h => rwa [h] at haccept
  next terminator r' h =>
    -- the two loops call each other, and each call is behind a token that was taken
    have : r'.remaining < r.remaining := Advances.accept (by decide) r terminator r' h
    rw [h] at haccept
    exact haccept.trans (moves_statementsIn nest r')
  next r' h =>
    have hle : r'.remaining ≤ r.remaining := by
      simpa only [h] using Settles.accept TokenKind.terminators r
    rw [h] at haccept
    split
    · exact haccept
    next first statements scope outer =>
      have hclose := IsMade.closeScope scope r'
      split
      next h' =>
        rw [h'] at hclose
        exact haccept.trans hclose
      next s r'' h' =>
        have : r''.remaining < r'.remaining := remaining_closeScope_lt h'
        rw [h'] at hclose
        exact (haccept.trans hclose).trans (moves_closeStatement _ r'')
termination_by 2 * r.remaining

end

theorem IsMade.statements : IsMade (statements : Step σ ε Query) :=
  .bind .peek fun first => moves_statementsIn { first }

/-- A whole query is read by moves, whether it is found or refused. -/
theorem IsMade.query : IsMade (query : Step σ ε Query) := by
  refine .bind .text fun _ => .bind (.note _) fun _ => .bind .statements fun q =>
    .bind .peek fun token => ?_
  split
  · exact .bind (.note _) fun _ => .pure q
  split
  · exact .refuse _ token
  · exact .refuse _ token

end Step

end ScopedQuery
