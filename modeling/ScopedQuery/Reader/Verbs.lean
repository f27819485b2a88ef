import ScopedQuery.Query.Basic
import ScopedQuery.Reader.Basic

namespace ScopedQuery

/-!
# Reading verbs

    verb      = "@" name ("(" argument ("," argument)* ")")?  |  string
    argument  = name "=" string

Line breaks between the parentheses of an argument list mean nothing.

* `Step.argument`, `Step.arguments`, `Step.namedVerb`, `Step.verb?`, `Step.verbs` — one step for
  each part.
* `Step.Advances.verb?` — a verb takes up at least one token.
-/

namespace Step

variable {σ ε : Type} [TokenFeed σ ε]

/-- Takes line breaks as long as they come. -/
def skipNewlines (r : Reader σ) : Except (Failure ε) Unit × Reader σ :=
  match h : accept [.newline] r with
  | (.error failure, r') => (.error failure, r')
  | (.ok none, r') => (.ok (), r')
  | (.ok (some token), r') =>
    have : r'.remaining < r.remaining := Advances.accept (by decide) r token r' h
    skipNewlines r'
termination_by r.remaining

/-- Line breaks as a step, to be followed by others. -/
def newlines : Step σ ε Unit := skipNewlines

/-- Reads a name, an equals sign and a string, between which lines may be broken. -/
def argument : Step σ ε Argument := do
  newlines
  let name ← peek
  if name.kind = .stray then refuse .strayArgumentName name
  else if name.kind ≠ .identifier then refuse .noArgumentName name
  else
    let _ ← take
    newlines
    -- a refusal names the token that stands in the place of the equals sign
    let equals ← peek
    match ← accept [.equals] with
    | none => refuse (.noEquals name.value) equals
    | some _ =>
      newlines
      let value ← peek
      match ← accept [.string] with
      | none => refuse (.noValue name.value) value
      | some _ => return ⟨name.value, value.value, name.location⟩

/-- Reads what follows an argument: a comma and a further argument, or the end of the list. -/
def nextArgument? : Step σ ε (Option Argument) := do
  newlines
  match ← accept [.comma] with
  | some _ => some <$> argument
  | none =>
    let token ← peek
    match ← accept [.rightParen] with
    | some _ => return none
    | none => refuse .openArguments token

/-! ### Progress -/

theorem Settles.newlines : Settles (newlines : Step σ ε Unit) := by
  intro r
  unfold Step.newlines
  fun_induction skipNewlines r with
  | case1 r failure r' h =>
    have := Settles.accept [.newline] r
    rwa [h] at this
  | case2 r r' h =>
    have := Settles.accept [.newline] r
    rwa [h] at this
  | case3 r token r' h hlt ih => exact Nat.le_trans ih (Nat.le_of_lt hlt)

theorem Settles.argument : Settles (argument : Step σ ε Argument) := by
  refine .bind .newlines fun _ => .bind .peek fun name => ?_
  split
  · exact .refuse _ name
  split
  · exact .refuse _ name
  refine .bind .take fun _ => .bind .newlines fun _ => .bind .peek fun equals => ?_
  refine .bind (.accept _) fun accepted => ?_
  split
  · exact .refuse _ equals
  refine .bind .newlines fun _ => .bind .peek fun value => .bind (.accept _) fun accepted => ?_
  split
  · exact .refuse _ value
  · exact .pure _

theorem Settles.nextArgument? : Settles (nextArgument? : Step σ ε (Option Argument)) := by
  refine .bind .newlines fun _ => .bind (.accept _) fun comma => ?_
  split
  · exact .map some .argument
  refine .bind .peek fun token => .bind (.accept _) fun closing => ?_
  split
  · exact .pure none
  · exact .refuse _ token

/-- A step that takes a token before it gives anything advances. -/
theorem Advances.accept_bind {α : Type} {kinds : List TokenKind} (h : .endOfInput ∉ kinds)
    {f : Option Token → Step σ ε (Option α)} (hf : ∀ token, Settles (f token))
    (hnone : Advances (f none)) : Advances (Step.accept kinds >>= f) := by
  intro r a r' hr
  have hsettles := Settles.accept kinds r
  rw [bind_apply] at hr
  split at hr
  case h_1 accepted r₁ haccept =>
    rw [haccept] at hsettles
    match accepted with
    | none => exact Nat.lt_of_lt_of_le (hnone r₁ a r' hr) hsettles
    | some token =>
      have hlt := Advances.accept h r token r₁ haccept
      have hle := hf (some token) r₁
      rw [hr] at hle
      exact Nat.lt_of_le_of_lt hle hlt
  · simp at hr

/-- A step that settles may come before one that advances. -/
theorem Advances.bind {α β : Type} {x : Step σ ε β} {f : β → Step σ ε (Option α)}
    (hx : Settles x) (hf : ∀ b, Advances (f b)) : Advances (x >>= f) := by
  intro r a r' hr
  have hsettles := hx r
  rw [bind_apply] at hr
  split at hr
  case h_1 b r₁ h =>
    rw [h] at hsettles
    exact Nat.lt_of_lt_of_le (hf b r₁ a r' hr) hsettles
  · simp at hr

/-- A step that gives nothing advances. -/
theorem Advances.none {α : Type} : Advances (Pure.pure none : Step σ ε (Option α)) := by
  intro r a r' hr
  simp [pure_apply] at hr

theorem Advances.refuse {α : Type} (problem : Problem) (token : Token) :
    Advances (refuse problem token : Step σ ε (Option α)) := by
  intro r a r' hr
  simp [Step.refuse, bind_apply, Step.text, Step.note, Step.fail] at hr

/-- A further argument takes the comma before it. -/
theorem Advances.nextArgument? : Advances (nextArgument? : Step σ ε (Option Argument)) := by
  refine .bind .newlines fun _ => .accept_bind (by decide) (fun comma => ?_) ?_
  · split
    · exact .map some .argument
    refine .bind .peek fun token => .bind (.accept _) fun closing => ?_
    split
    · exact Settles.pure Option.none
    · exact .refuse _ token
  · refine .bind .peek fun token => .bind (.accept _) fun closing => ?_
    split
    · exact .none
    · exact .refuse _ token

/-! ### Argument lists and verbs -/

/-- Reads the arguments behind those of `read`, to the end of the list. -/
def argumentsFrom (read : Array Argument) (r : Reader σ) :
    Except (Failure ε) (List Argument) × Reader σ :=
  match h : nextArgument? r with
  | (.error failure, r') => (.error failure, r')
  | (.ok none, r') => (.ok read.toList, r')
  | (.ok (some a), r') =>
    have : r'.remaining < r.remaining := Advances.nextArgument? r a r' h
    argumentsFrom (read.push a) r'
termination_by r.remaining

/-- Reads an argument list, which holds at least one argument.  Its opening parenthesis is taken if
    it is there, and not asked for. -/
def arguments : Step σ ε (List Argument) := do
  let _ ← accept [.leftParen]
  let first ← argument
  argumentsFrom #[first]

/-- Reads an argument list, if one follows at once. -/
def optionalArguments : Step σ ε (List Argument) := do
  let following ← peek
  if following.kind = .leftParen then arguments else return []

/-- Reads what follows an at sign: a name, and an argument list if one follows at once. -/
def namedVerbAfter (sign : Token) : Step σ ε Verb := do
  let name ← peek
  if name.kind ≠ .identifier then refuse .noVerbName name
  else
    let _ ← take
    let read ← optionalArguments
    return .named name.value read sign.location

/-- Reads a verb with a name, which has to start at the next token. -/
def namedVerb : Step σ ε Verb := do
  match ← accept [.atSign] with
  | none => fail .misplaced
  | some sign => namedVerbAfter sign

/-- Reads a verb, if one starts at the next token. -/
def verb? : Step σ ε (Option Verb) := do
  let token ← peek
  if token.kind = .atSign then some <$> namedVerb
  else
    match ← accept [.string] with
    | some filter => return some (.filter filter.value filter.location)
    | none => return none

theorem Settles.argumentsFrom (read : Array Argument) :
    Settles (argumentsFrom read : Step σ ε (List Argument)) := by
  intro r
  fun_induction Step.argumentsFrom read r with
  | case1 read r failure r' h =>
    have := Settles.nextArgument? r
    rwa [h] at this
  | case2 read r r' h =>
    have := Settles.nextArgument? r
    rwa [h] at this
  | case3 read r a r' h hlt ih => exact Nat.le_trans ih (Nat.le_of_lt hlt)

theorem Settles.arguments : Settles (arguments : Step σ ε (List Argument)) :=
  .bind (.accept _) fun _ => .bind .argument fun first => .argumentsFrom #[first]

theorem Settles.namedVerbAfter (sign : Token) : Settles (namedVerbAfter sign : Step σ ε Verb) := by
  refine .bind .peek fun name => ?_
  split
  · exact .refuse _ name
  refine .bind .take fun _ => .bind (.bind .peek fun following => ?_) fun read => .pure _
  split
  · exact .arguments
  · exact .pure []

theorem Settles.namedVerb : Settles (namedVerb : Step σ ε Verb) := by
  refine .bind (.accept _) fun sign => ?_
  split
  · exact .fail _
  case h_2 sign => exact .namedVerbAfter sign

theorem Settles.verb? : Settles (verb? : Step σ ε (Option Verb)) := by
  refine .bind .peek fun token => ?_
  split
  · exact .map some .namedVerb
  refine .bind (.accept _) fun filter => ?_
  split <;> exact .pure _

/-- A named verb takes up at least its at sign. -/
theorem remaining_namedVerb_lt {r r' : Reader σ} {v : Verb}
    (h : (namedVerb : Step σ ε Verb) r = (.ok v, r')) :
    r'.remaining < r.remaining := by
  unfold namedVerb at h
  rw [bind_apply] at h
  split at h
  case h_1 sign r₁ haccept =>
    match sign with
    | none => simp [fail] at h
    | some sign =>
      have hlt := Advances.accept (by decide) r sign r₁ haccept
      have hle := Settles.namedVerbAfter sign r₁
      dsimp only at h
      rw [h] at hle
      exact Nat.lt_of_le_of_lt hle hlt
  · simp at h

/-- A verb takes its sign or its string. -/
theorem Advances.verb? : Advances (verb? : Step σ ε (Option Verb)) := by
  refine .bind .peek fun token => ?_
  split
  · intro r v r' h
    rw [map_apply] at h
    split at h
    case h_1 v' r₁ hverb =>
      simp only [Prod.mk.injEq] at h
      rw [← h.2]
      exact remaining_namedVerb_lt hverb
    · simp at h
  · refine .accept_bind (by decide) (fun filter => ?_) .none
    split <;> exact .pure _

/-- Reads the verbs behind those of `read`, as long as they come. -/
def verbsFrom (read : Array Verb) (r : Reader σ) : Except (Failure ε) (List Verb) × Reader σ :=
  match h : verb? r with
  | (.error failure, r') => (.error failure, r')
  | (.ok none, r') => (.ok read.toList, r')
  | (.ok (some v), r') =>
    have : r'.remaining < r.remaining := Advances.verb? r v r' h
    verbsFrom (read.push v) r'
termination_by r.remaining

/-- Reads verbs as long as they come. -/
def verbs : Step σ ε (List Verb) := verbsFrom #[]

theorem Settles.verbsFrom (read : Array Verb) :
    Settles (verbsFrom read : Step σ ε (List Verb)) := by
  intro r
  fun_induction Step.verbsFrom read r with
  | case1 read r failure r' h =>
    have := Settles.verb? r
    rwa [h] at this
  | case2 read r r' h =>
    have := Settles.verb? r
    rwa [h] at this
  | case3 read r v r' h hlt ih => exact Nat.le_trans ih (Nat.le_of_lt hlt)

theorem Settles.verbs : Settles (verbs : Step σ ε (List Verb)) := .verbsFrom #[]

end Step

end ScopedQuery
