import ScopedQuery.Proofs.Complete
import ScopedQuery.Proofs.Standing

namespace ScopedQuery

/-!
# Steps read token by token

A reader looks one token ahead, and looks again at the same token in one step after the other.  All
its steps together do nothing else than to push one token after another from where reading stands.

* `Reader.past` — the reader behind a token.
* `Step.drive` — pushes tokens from a standing until a verdict is given.
* `Step.LooksFirst` — a step that begins by looking at the next token, which is ahead from then on.
* `Step.query_eq_drive` — a query is read by pushing its tokens.
-/

variable {σ ε α β : Type}

/-- Tokens of the kind open and close no scopes, and the input goes on behind them. -/
def TokenKind.IsPlain (kind : TokenKind) : Prop :=
  kind ≠ .endOfInput ∧ kind ≠ .leftBrace ∧ kind ≠ .rightBrace

instance (kind : TokenKind) : Decidable kind.IsPlain := inferInstanceAs (Decidable (_ ∧ _ ∧ _))

namespace Reader

/-- The reader behind the token ahead.  The braces of scopes change the number of open scopes. -/
def past (r : Reader σ) (t : Token) : Reader σ :=
  let r : Reader σ := { r with taken := r.taken.push t, ahead := none }
  match t.kind with
  | .leftBrace =>
    { r with depth := r.depth + 1, trace := r.trace.push (.entered t.location (r.depth + 1)) }
  | .rightBrace => { r with depth := r.depth - 1 }
  | _ => r

@[simp] theorem feed_past (r : Reader σ) (t : Token) : (r.past t).feed = r.feed := by
  unfold past
  split <;> rfl

@[simp] theorem taken_past (r : Reader σ) (t : Token) : (r.past t).taken = r.taken.push t := by
  unfold past
  split <;> rfl

@[simp] theorem ahead_past (r : Reader σ) (t : Token) : (r.past t).ahead = none := by
  unfold past
  split <;> rfl

/-- A token that is no brace leaves the depth and the trace as they are. -/
theorem past_of_ne {r : Reader σ} {t : Token} (hl : t.kind ≠ .leftBrace)
    (hr : t.kind ≠ .rightBrace) :
    r.past t = { r with taken := r.taken.push t, ahead := none } := by
  unfold past
  split
  · contradiction
  · contradiction
  · rfl

variable [TokenFeed σ ε]

/-- A token that is taken leaves less to take. -/
theorem remaining_past_lt {r : Reader σ} {t : Token} (hahead : r.ahead = some t)
    (ht : t.kind ≠ .endOfInput) : (r.past t).remaining < r.remaining := by
  simp only [remaining, ahead_past, feed_past, hahead, if_neg ht]
  omega

end Reader

namespace Step

variable [TokenFeed σ ε]

/-- Takes the token ahead. -/
def advance (t : Token) : Step σ ε Unit := fun r => (.ok (), r.past t)

/-- Gives a query that is complete. -/
def conclude (q : Query) : Step σ ε Query := do
  note (.finished q.statements.length)
  return q

/-- Pushes tokens from a standing until a verdict is given. -/
def pushTokens (s : Standing) (r : Reader σ) : Except (Failure ε) Query × Reader σ :=
  match hpeek : peek r with
  | (.error failure, r₁) => (.error failure, r₁)
  | (.ok t, r₁) =>
    match hpush : s.push t with
    | .further s' =>
      have : (r₁.past t).remaining < r.remaining := by
        have hend : t.kind ≠ .endOfInput := fun hend => Standing.push_endOfInput hend hpush
        have hlt := Reader.remaining_past_lt (ahead_of_peek hpeek) hend
        exact Nat.lt_of_lt_of_le hlt (Settles.peek.remaining_le hpeek)
      pushTokens s' (r₁.past t)
    | .complete q => conclude q r₁
    | .refused problem => refuse problem t r₁
termination_by r.remaining

/-- `pushTokens` as a step, to be followed by others. -/
def drive (s : Standing) : Step σ ε Query := pushTokens s

/-- A token is looked at, and what is done with it depends on the verdict only. -/
theorem drive_eq (s : Standing) :
    (drive s : Step σ ε Query) = (do
      let t ← peek
      match s.push t with
      | .further s' =>
        advance t
        drive s'
      | .complete q => conclude q
      | .refused problem => refuse problem t) := by
  funext r
  rw [bind_apply]
  show pushTokens s r = _
  rw [pushTokens]
  split <;> rename_i hpeek
  · simp only [hpeek]
  · simp only [hpeek]
    split <;> rename_i hpush <;> simp only [hpush]
    rfl

/-! ### The token ahead -/

section Ahead

variable {r : Reader σ} {t : Token} {kinds : List TokenKind}

theorem peek_of_ahead (h : r.ahead = some t) : peek r = (.ok t, r) := by
  rw [peek, h]

/-- The token ahead is taken if it is of one of the kinds. -/
theorem accept_of_mem (h : r.ahead = some t) (hkinds : .endOfInput ∉ kinds)
    (hmem : t.kind ∈ kinds) :
    accept kinds r = (.ok (some t), { r with taken := r.taken.push t, ahead := none }) := by
  have hend : t.kind ≠ .endOfInput := fun hend => hkinds (hend ▸ hmem)
  rw [accept_apply, peek_of_ahead h]
  dsimp only
  rw [if_pos hmem, map_apply, take_of_ahead h, if_neg hend]

/-- It stays ahead if it is of none of them. -/
theorem accept_of_not_mem (h : r.ahead = some t) (hmem : t.kind ∉ kinds) :
    accept kinds r = (.ok none, r) := by
  rw [accept_apply, peek_of_ahead h]
  exact if_neg hmem

/-- To take a plain token is all that the driven reader does at it. -/
theorem accept_past (h : r.ahead = some t) (ht : t.kind.IsPlain) (hmem : t.kind ∈ kinds)
    (hkinds : .endOfInput ∉ kinds) : accept kinds r = (.ok (some t), r.past t) := by
  rw [accept_of_mem h hkinds hmem, Reader.past_of_ne ht.2.1 ht.2.2]

theorem accept_single {kind : TokenKind} (h : r.ahead = some t) (ht : t.kind = kind)
    (hkind : kind.IsPlain) : accept [kind] r = (.ok (some t), r.past t) :=
  accept_past h (ht ▸ hkind) (List.mem_singleton.mpr ht) (by simpa using hkind.1.symm)

theorem accept_single_of_ne {kind : TokenKind} (h : r.ahead = some t) (ht : t.kind ≠ kind) :
    accept [kind] r = (.ok none, r) :=
  accept_of_not_mem h (mt List.mem_singleton.mp ht)

/-- A plain token may be taken without asking for its kind. -/
theorem take_past (h : r.ahead = some t) (ht : t.kind.IsPlain) : take r = (.ok t, r.past t) := by
  rw [take_of_ahead h, if_neg ht.1, Reader.past_of_ne ht.2.1 ht.2.2]

theorem refuse_bind (problem : Problem) (t : Token) (f : α → Step σ ε β) :
    (refuse problem t >>= f) = refuse problem t := rfl

/-- Where the token ahead goes on, so does the drive. -/
theorem drive_of_further {s s' : Standing} (h : r.ahead = some t)
    (hpush : s.push t = .further s') :
    (drive s : Step σ ε Query) r = drive s' (r.past t) := by
  rw [drive_eq, bind_apply, peek_of_ahead h]
  simp only [hpush, bind_apply, advance]

/-- Where it is refused, the drive ends with the problem. -/
theorem drive_of_refused {s : Standing} {problem : Problem} (h : r.ahead = some t)
    (hpush : s.push t = .refused problem) :
    (drive s : Step σ ε Query) r = refuse problem t r := by
  rw [drive_eq, bind_apply, peek_of_ahead h]
  simp only [hpush]

/-- Where it completes the query, the drive ends with that. -/
theorem drive_of_complete {s : Standing} {q : Query} (h : r.ahead = some t)
    (hpush : s.push t = .complete q) :
    (drive s : Step σ ε Query) r = conclude q r := by
  rw [drive_eq, bind_apply, peek_of_ahead h]
  simp only [hpush]

end Ahead

/-! ### Steps that look at a token first -/

/-- Looking at the next token beforehand changes nothing. -/
def LooksFirst (x : Step σ ε α) : Prop := (do let _ ← peek; x) = x

/-- To look twice is to look once. -/
theorem peek_bind_peek (f : Token → Token → Step σ ε α) :
    (do let t ← peek; let u ← peek; f t u) = (do let t ← peek; f t t) := by
  funext r
  refine bind_apply_congr fun t r₁ hpeek => ?_
  rw [bind_apply, peek_of_ahead (ahead_of_peek hpeek)]

/-- A step that starts with a look may as well look before. -/
theorem LooksFirst.peek_bind (f : Token → Step σ ε α) : LooksFirst (peek >>= f) :=
  peek_bind_peek fun _ => f

/-- What comes behind its first step does not matter. -/
theorem LooksFirst.bind {x : Step σ ε α} (hx : LooksFirst x) (f : α → Step σ ε β) :
    LooksFirst (x >>= f) := by
  rw [LooksFirst, ← bind_assoc, hx]

/-- To accept a token is to look at it first. -/
theorem LooksFirst.accept (kinds : List TokenKind) :
    LooksFirst (accept kinds : Step σ ε (Option Token)) := .peek_bind _

/-- To skip line breaks is to look at a token first. -/
theorem LooksFirst.newlines : LooksFirst (newlines : Step σ ε Unit) := by
  rw [newlines_eq]
  exact .bind (.accept _) _

theorem LooksFirst.argument : LooksFirst (argument : Step σ ε Argument) := .bind .newlines _

theorem LooksFirst.drive (s : Standing) : LooksFirst (drive s : Step σ ε Query) := by
  rw [drive_eq]
  exact .peek_bind _

/-- Two steps that look at a token first agree if they agree where a token is ahead. -/
theorem LooksFirst.eq {x y : Step σ ε α} (hx : LooksFirst x) (hy : LooksFirst y) {r : Reader σ}
    (h : ∀ t (r' : Reader σ), r'.ahead = some t → r'.remaining ≤ r.remaining → x r' = y r') :
    x r = y r := by
  rw [← hx, ← hy]
  refine bind_apply_congr fun t r' hpeek => ?_
  exact h t r' (ahead_of_peek hpeek) (Settles.peek.remaining_le hpeek)

/-! ### Arguments -/

/-- Line breaks are passed one by one where they mean nothing. -/
theorem newlines_bind_eq_drive {f : Unit → Step σ ε Query} {s : Standing} {r : Reader σ}
    (hbreak : ∀ t : Token, t.kind = .newline → s.push t = .further s)
    (h : ∀ t (r' : Reader σ), r'.ahead = some t → t.kind ≠ .newline →
      r'.remaining ≤ r.remaining → f () r' = drive s r') :
    (newlines >>= f) r = drive s r := by
  induction hn : r.remaining using Nat.strongRecOn generalizing r with
  | ind n ih =>
    subst hn
    refine LooksFirst.eq (.bind .newlines f) (.drive s) fun t r' hahead hle => ?_
    -- at a line break both sides take it and go on with less; any other token is left to the rest
    rw [newlines_eq, bind_assoc, bind_apply]
    by_cases hkind : t.kind = .newline
    · have hend : t.kind ≠ .endOfInput := by simp [hkind]
      have hlt : (r'.past t).remaining < r.remaining :=
        Nat.lt_of_lt_of_le (Reader.remaining_past_lt hahead hend) hle
      rw [accept_single hahead hkind (by decide),
        drive_of_further hahead (hbreak t hkind)]
      refine ih _ hlt (fun u r'' hu hne hle' => ?_) rfl
      exact h u r'' hu hne (Nat.le_trans hle' (Nat.le_of_lt hlt))
    · rw [accept_single_of_ne hahead hkind]
      exact h t r' hahead hkind hle

/-- Behind line breaks that mean nothing a token of one kind is asked for. -/
theorem expect_eq_drive {kind : TokenKind} {problem : Problem} {s : Standing}
    {s' : Token → Standing} {f : Token → Option Token → Step σ ε Query} {r : Reader σ}
    (hpush : ∀ t : Token, s.push t = if t.kind = .newline then .further s
      else if t.kind = kind then .further (s' t) else .refused problem)
    (hkind : kind.IsPlain ∧ kind ≠ .newline) (hnone : ∀ t, f t none = refuse problem t)
    (hsome : ∀ t (r' : Reader σ), r'.remaining < r.remaining →
      f t (some t) r' = drive (s' t) r') :
    (do newlines; let t ← peek; let accepted ← accept [kind]; f t accepted) r = drive s r := by
  -- the verdicts are those of the kinds, so the branches of both sides are the same
  have hbreak (t : Token) (ht : t.kind = .newline) : s.push t = .further s := by
    rw [hpush, if_pos ht]
  refine newlines_bind_eq_drive hbreak fun t r' hahead hne hle => ?_
  rw [bind_apply, peek_of_ahead hahead]
  dsimp only
  rw [bind_apply]
  by_cases ht : t.kind = kind
  · have hplain : t.kind.IsPlain := ht ▸ hkind.1
    have hlt := Reader.remaining_past_lt hahead hplain.1
    rw [accept_single hahead ht hkind.1,
      drive_of_further hahead (by rw [hpush, if_neg hne, if_pos ht])]
    exact hsome t _ (Nat.lt_of_lt_of_le hlt hle)
  · rw [accept_single_of_ne hahead ht,
      drive_of_refused hahead (by rw [hpush, if_neg hne, if_neg ht])]
    dsimp only
    rw [hnone]

/-- An argument is read by pushing its tokens. -/
theorem argument_bind_eq_drive {k : Argument → Step σ ε Query} {nest : Nest} {v : PartialVerb}
    {r : Reader σ} (h : ∀ a (r' : Reader σ), r'.remaining < r.remaining →
      k a r' = drive (.within nest (.comma (v.add a))) r') :
    (argument >>= k) r = drive (.within nest (.argument v)) r := by
  unfold argument
  simp only [bind_assoc]
  refine newlines_bind_eq_drive (fun t ht => if_pos ht) fun name r₁ hname hbreak hle₁ => ?_
  rw [bind_apply, peek_of_ahead hname]
  dsimp only
  by_cases hstray : name.kind = .stray
  · rw [if_pos hstray, refuse_bind, drive_of_refused hname]
    simp [Standing.push, hstray]
  by_cases hkind : name.kind = .identifier
  swap
  · rw [if_neg hstray, if_pos hkind, refuse_bind, drive_of_refused hname]
    simp [Standing.push, hstray, hkind, hbreak]
  -- the name has been read
  have hplain : name.kind.IsPlain := by
    rw [hkind]
    decide
  have hlt := Reader.remaining_past_lt hname hplain.1
  have hpush : (Standing.within nest (.argument v)).push name
      = .further (.within nest (.equals v name.value name.location)) := by
    simp [Standing.push, hkind]
  rw [if_neg hstray, if_neg (not_not.mpr hkind), bind_assoc, bind_apply, take_past hname hplain,
    drive_of_further hname hpush]
  -- the equals sign is asked for, and the value behind it
  dsimp only
  simp only [bind_assoc]
  refine expect_eq_drive (fun _ => rfl) (by decide) (fun _ => rfl) fun equals r₂ hlt₂ => ?_
  dsimp only
  simp only [bind_assoc]
  refine expect_eq_drive (fun _ => rfl) (by decide) (fun _ => rfl) fun value r₃ hlt₃ => ?_
  exact h _ r₃ (by omega)

/-- `argumentsFrom` as a step, to be followed by others. -/
def argumentsBehind (read : Array Argument) : Step σ ε (List Argument) := argumentsFrom read

/-- The arguments behind the first one are read until there is no further one. -/
theorem argumentsBehind_eq (read : Array Argument) :
    (argumentsBehind read : Step σ ε (List Argument)) = (do
      match ← nextArgument? with
      | some a => argumentsBehind (read.push a)
      | none => return read.toList) := by
  funext r
  rw [bind_apply]
  show argumentsFrom read r = _
  rw [argumentsFrom_apply]
  rcases (nextArgument? : Step σ ε (Option Argument)) r with ⟨_ | _ | a, r₁⟩ <;> rfl

/-- A list of arguments is a parenthesis, an argument, and what is behind it. -/
theorem arguments_eq :
    (arguments : Step σ ε (List Argument)) = (do
      let _ ← accept [.leftParen]
      let first ← argument
      argumentsBehind #[first]) := rfl

/-- The arguments behind those of `read` are read by pushing their tokens. -/
theorem argumentsBehind_bind_eq_drive {k : List Argument → Step σ ε Query} {nest : Nest}
    {v : PartialVerb} {r : Reader σ} (read : Array Argument)
    (h : ∀ list (r' : Reader σ), r'.remaining < r.remaining →
      k list r' = drive (.within nest (.verbs v.first { v with arguments := list }.verbs)) r') :
    (argumentsBehind read >>= k) r
      = drive (.within nest (.comma { v with arguments := read.toList })) r := by
  induction hn : r.remaining using Nat.strongRecOn generalizing r read with
  | ind n ih =>
    subst hn
    rw [argumentsBehind_eq]
    unfold nextArgument?
    simp only [bind_assoc]
    refine newlines_bind_eq_drive (fun t ht => if_pos ht) fun t r₁ hahead hbreak hle => ?_
    rw [bind_apply]
    by_cases hcomma : t.kind = .comma
    · -- one more argument stands behind the comma
      have hend : t.kind ≠ .endOfInput := by simp [hcomma]
      have hlt := Reader.remaining_past_lt hahead hend
      have hpush : (Standing.within nest (.comma { v with arguments := read.toList })).push t
          = .further (.within nest (.argument { v with arguments := read.toList })) := by
        simp [Standing.push, hcomma]
      rw [accept_single hahead hcomma (by decide),
        drive_of_further hahead hpush]
      dsimp only
      rw [bind_map_left]
      refine argument_bind_eq_drive fun a r₂ hlt₂ => ?_
      have hread : (read.push a).toList = read.toList ++ [a] := Array.toList_push
      rw [PartialVerb.add, ← hread]
      refine ih r₂.remaining (by omega) (read.push a) (fun list r' hlt' => ?_) rfl
      exact h list r' (by omega)
    rw [accept_single_of_ne hahead hcomma]
    dsimp only
    rw [bind_assoc, bind_apply, peek_of_ahead hahead]
    dsimp only
    rw [bind_assoc, bind_apply]
    by_cases hparen : t.kind = .rightParen
    · -- the list ends here
      have hend : t.kind ≠ .endOfInput := by simp [hparen]
      have hlt := Reader.remaining_past_lt hahead hend
      have hpush : (Standing.within nest (.comma { v with arguments := read.toList })).push t
          = .further (.within nest
            (.verbs v.first { v with arguments := read.toList }.verbs)) := by
        simp [Standing.push, hparen]
      rw [accept_single hahead hparen (by decide),
        drive_of_further hahead hpush]
      exact h read.toList _ (by omega)
    · rw [accept_single_of_ne hahead hparen, drive_of_refused hahead]
      · rfl
      · simp [Standing.push, hbreak, hcomma, hparen]

/-! ### Verbs -/

/-- Only what the token ahead means at a standing counts. -/
theorem drive_congr {s s' : Standing} {t : Token} {r : Reader σ} (h : r.ahead = some t)
    (hpush : s.push t = s'.push t) : (drive s : Step σ ε Query) r = drive s' r := by
  rw [drive_eq, drive_eq, bind_apply, bind_apply, peek_of_ahead h]
  dsimp only
  rw [hpush]

/-- An argument list is read by pushing its tokens, and so is what follows where there is none. -/
theorem optionalArguments_bind_eq_drive {k : List Argument → Step σ ε Query} {nest : Nest}
    {v : PartialVerb} {r : Reader σ} (hnone : v.arguments = [])
    (h : ∀ list (r' : Reader σ), r'.remaining ≤ r.remaining →
      k list r' = drive (.within nest (.verbs v.first { v with arguments := list }.verbs)) r') :
    (optionalArguments >>= k) r = drive (.within nest (.name v)) r := by
  refine LooksFirst.eq (.bind (.peek_bind _) k) (.drive _) fun t r₁ hahead hle => ?_
  rw [bind_assoc, bind_apply, peek_of_ahead hahead]
  dsimp only
  by_cases hkind : t.kind = .leftParen
  · have hend : t.kind ≠ .endOfInput := by simp [hkind]
    have hlt := Reader.remaining_past_lt hahead hend
    have hpush : (Standing.within nest (.name v)).push t
        = .further (.within nest (.argument v)) := if_pos hkind
    rw [if_pos hkind, arguments_eq, bind_assoc, bind_apply,
      accept_single hahead hkind (by decide),
      drive_of_further hahead hpush]
    dsimp only
    rw [bind_assoc]
    refine argument_bind_eq_drive fun a r₂ hlt₂ => ?_
    -- the verb has no arguments yet, so the first one starts the list
    have hadd : v.add a = { v with arguments := #[a].toList } := by
      rw [PartialVerb.add, hnone]
      rfl
    rw [hadd]
    refine argumentsBehind_bind_eq_drive #[a] fun list r' hlt' => ?_
    exact h list r' (by omega)
  · -- the token belongs to what follows the verb
    have hverbs : v = { v with arguments := [] } := by rw [← hnone]
    have hpush : (Standing.within nest (.name v)).push t
        = (Standing.within nest (.verbs v.first v.verbs)).push t := if_neg hkind
    rw [if_neg hkind, pure_bind, h [] r₁ hle, drive_congr hahead hpush, ← hverbs]

/-- `verbsFrom` as a step, to be followed by others. -/
def verbsBehind (read : Array Verb) : Step σ ε (List Verb) := verbsFrom read

/-- The verbs behind those that are read come one at a time. -/
theorem verbsBehind_eq (read : Array Verb) :
    (verbsBehind read : Step σ ε (List Verb)) = (do
      match ← verb? with
      | some v => verbsBehind (read.push v)
      | none => return read.toList) := by
  funext r
  rw [bind_apply]
  show verbsFrom read r = _
  rw [verbsFrom_apply]
  rcases (verb? : Step σ ε (Option Verb)) r with ⟨_ | _ | v, r₁⟩ <;> rfl

theorem LooksFirst.verbsBehind (read : Array Verb) :
    LooksFirst (verbsBehind read : Step σ ε (List Verb)) := by
  rw [verbsBehind_eq]
  exact .bind (.peek_bind _) _

/-- A verb is read behind its at sign by pushing its tokens. -/
theorem namedVerbAfter_bind_eq_drive {k : Verb → Step σ ε Query} {nest : Nest} {first sign : Token}
    {read : List Verb} {r : Reader σ} (h : ∀ v (r' : Reader σ), r'.remaining ≤ r.remaining →
      k v r' = drive (.within nest (.verbs first (read ++ [v]))) r') :
    (namedVerbAfter sign >>= k) r = drive (.within nest (.sign first read sign.location)) r := by
  refine LooksFirst.eq (.bind (.peek_bind _) k) (.drive _) fun name r₁ hname hle => ?_
  rw [bind_assoc, bind_apply, peek_of_ahead hname]
  dsimp only
  by_cases hkind : name.kind = .identifier
  · have hplain : name.kind.IsPlain := by
      rw [hkind]
      decide
    have hlt := Reader.remaining_past_lt hname hplain.1
    have hpush : (Standing.within nest (.sign first read sign.location)).push name
        = .further (.within nest (.name ⟨first, read, sign.location, name.value, []⟩)) :=
      if_pos hkind
    rw [if_neg (not_not.mpr hkind), bind_assoc, bind_apply, take_past hname hplain,
      drive_of_further hname hpush]
    dsimp only
    rw [bind_assoc]
    refine optionalArguments_bind_eq_drive rfl fun list r' hle' => ?_
    exact h _ r' (by omega)
  · have hpush : (Standing.within nest (.sign first read sign.location)).push name
        = .refused .noVerbName := if_neg hkind
    rw [if_pos hkind, refuse_bind, drive_of_refused hname hpush]

/-- The verbs behind those of `read` are read by pushing their tokens. -/
theorem verbsBehind_bind_eq_drive {k : List Verb → Step σ ε Query} {nest : Nest} {first : Token}
    {r : Reader σ} (read : Array Verb)
    (h : ∀ list t (r' : Reader σ), r'.ahead = some t → t.kind ≠ .atSign → t.kind ≠ .string →
      r'.remaining ≤ r.remaining → k list r' = drive (.within nest (.verbs first list)) r') :
    (verbsBehind read >>= k) r = drive (.within nest (.verbs first read.toList)) r := by
  induction hn : r.remaining using Nat.strongRecOn generalizing r read with
  | ind n ih =>
    subst hn
    refine LooksFirst.eq (.bind (.verbsBehind read) k) (.drive _) fun t r₁ hahead hle => ?_
    -- behind one more verb the rest is read in the same way
    have hrest (v : Verb) (r' : Reader σ) (hlt : r'.remaining < r.remaining) :
        (verbsBehind (read.push v) >>= k) r'
          = drive (.within nest (.verbs first (read.toList ++ [v]))) r' := by
      rw [← Array.toList_push]
      refine ih r'.remaining hlt (read.push v) (fun list t r'' hahead hsign hstring hle => ?_) rfl
      exact h list t r'' hahead hsign hstring (by omega)
    rw [verbsBehind_eq]
    unfold verb?
    rw [bind_assoc, bind_assoc, bind_apply, peek_of_ahead hahead]
    dsimp only
    by_cases hsign : t.kind = .atSign
    · have hend : t.kind ≠ .endOfInput := by simp [hsign]
      have hlt := Reader.remaining_past_lt hahead hend
      have hpush : (Standing.within nest (.verbs first read.toList)).push t
          = .further (.within nest (.sign first read.toList t.location)) := if_pos hsign
      rw [if_pos hsign, bind_map_left, namedVerb, bind_assoc, bind_apply,
        accept_single hahead hsign (by decide),
        drive_of_further hahead hpush]
      dsimp only
      refine namedVerbAfter_bind_eq_drive fun v r' hle' => ?_
      exact hrest v r' (by omega)
    -- a string is a verb by itself, and any other token ends the verbs
    rw [if_neg hsign, bind_assoc, bind_apply]
    by_cases hstring : t.kind = .string
    · have hend : t.kind ≠ .endOfInput := by simp [hstring]
      have hlt := Reader.remaining_past_lt hahead hend
      have hpush : (Standing.within nest (.verbs first read.toList)).push t
          = .further (.within nest
            (.verbs first (read.toList ++ [.filter t.value t.location]))) := by
        simp [Standing.push, Nest.pushVerb, hstring]
      rw [accept_single hahead hstring (by decide),
        drive_of_further hahead hpush]
      exact hrest _ _ (by omega)
    · rw [accept_single_of_ne hahead hstring]
      exact h read.toList t r₁ hahead hsign hstring hle

/-! ### Statements and scopes -/

section Braces

variable {r : Reader σ} {t : Token}

/-- A brace that is ahead opens its scope. -/
theorem openScope_of_ahead (owner : Token) (verbs : List Verb) (h : r.ahead = some t)
    (ht : t.kind = .leftBrace) :
    openScope owner verbs r = (.ok { brace := t, owner, verbs }, r.past t) := by
  have hpast : r.past t = { r with
      taken := r.taken.push t, ahead := none, depth := r.depth + 1,
      trace := r.trace.push (.entered t.location (r.depth + 1)) } := by
    simp only [Reader.past, ht]
  rw [openScope, bind_apply, accept_of_mem h (by decide) (List.mem_singleton.mpr ht), hpast]
  rfl

/-- The brace that matches it closes the scope, once it is ahead. -/
theorem closeScope_of_ahead (scope : Scope) (h : r.ahead = some t) (ht : t.kind = .rightBrace) :
    closeScope scope r = (.ok scope.statement, r.past t) := by
  have hpast : r.past t = { r with
      taken := r.taken.push t, ahead := none, depth := r.depth - 1 } := by
    simp only [Reader.past, ht]
  rw [closeScope, bind_apply, peek_of_ahead h]
  dsimp only
  rw [bind_apply, accept_of_mem h (by decide) (List.mem_singleton.mpr ht), hpast]
  rfl

/-- No other token closes a scope. -/
theorem closeScope_of_ne (scope : Scope) (h : r.ahead = some t) (ht : t.kind ≠ .rightBrace) :
    closeScope scope r =
      (if t.kind = .endOfInput then refuse (.openScope scope.brace.location) t
        else refuse (.noClosingBrace scope.brace.location) t) r := by
  rw [closeScope, bind_apply, peek_of_ahead h]
  dsimp only
  rw [bind_apply, accept_single_of_ne h ht]

end Braces

/-- Reads the end of the input behind a query. -/
def ending (q : Query) : Step σ ε Query := do
  let t ← peek
  if t.kind = .endOfInput then conclude q
  else if t.kind = .rightBrace then refuse .unmatchedBrace t
  else refuse (.trailing t.describe) t

/-- Where a statement is complete, the rest is read by pushing its tokens, if that holds further on
    where statements start. -/
theorem resumeAtEnd_bind_eq_drive {nest : Nest} {r : Reader σ}
    (h : ∀ nest (r' : Reader σ), r'.remaining < r.remaining →
      (resumeAtStart nest >>= ending) r' = drive (.within nest .start) r') :
    (resumeAtEnd nest >>= ending) r = drive (.within nest .complete) r := by
  induction hn : r.remaining using Nat.strongRecOn generalizing r nest with
  | ind n ih =>
    subst hn
    -- the induction is for rows of closing braces, which lead from one end to the next
    have hlooks : LooksFirst (resumeAtEnd nest : Step σ ε Query) := by
      rw [resumeAtEnd_eq]
      exact .bind (.accept _) _
    refine LooksFirst.eq (.bind hlooks _) (.drive _) fun t r₁ hahead hle => ?_
    rw [resumeAtEnd_eq, bind_assoc, bind_apply]
    by_cases hterminator : t.kind ∈ TokenKind.terminators
    · have hall : ∀ kind ∈ TokenKind.terminators, kind.IsPlain := by decide
      have hplain := hall t.kind hterminator
      have hlt := Reader.remaining_past_lt hahead hplain.1
      have hpush : (Standing.within nest .complete).push t = .further (.within nest .start) :=
        if_pos hterminator
      rw [accept_past hahead hplain hterminator (by decide), drive_of_further hahead hpush]
      exact h nest _ (by omega)
    rw [accept_of_not_mem hahead hterminator]
    dsimp only
    have hpush : (Standing.within nest .complete).push t = nest.pushEnd t := rfl
    rcases nest with ⟨first, statements, _ | ⟨scope, outer⟩⟩
    · -- the outermost list is complete
      show ending (Nest.query ⟨first, statements, []⟩) r₁ = _
      rw [ending, drive_eq, bind_apply, bind_apply, peek_of_ahead hahead]
      simp only [hpush, Nest.pushEnd, hterminator, if_false]
      by_cases hend : t.kind = .endOfInput
      · simp only [hend, if_true]
      by_cases hbrace : t.kind = .rightBrace <;> simp only [hend, hbrace, if_true, if_false]
      rfl
    · show ((closeScope scope >>= fun s => _) >>= ending) r₁ = _
      rw [bind_assoc, bind_apply]
      by_cases hbrace : t.kind = .rightBrace
      · -- the scope is closed, and the statement around it is complete
        have hend : t.kind ≠ .endOfInput := by simp [hbrace]
        have hlt := Reader.remaining_past_lt hahead hend
        have hfurther : (Standing.within ⟨first, statements, scope :: outer⟩ .complete).push t
            = .further (.within (Nest.add ⟨first, statements, outer⟩ scope.statement)
              .complete) := by
          rw [hpush, Nest.pushEnd, if_neg hterminator]
          exact if_pos hbrace
        rw [closeScope_of_ahead scope hahead hbrace, drive_of_further hahead hfurther]
        refine ih (r₁.past t).remaining (by omega) (fun nest r' hlt' => ?_) rfl
        exact h nest r' (by omega)
      · rw [closeScope_of_ne scope hahead hbrace, drive_eq, bind_apply, peek_of_ahead hahead]
        simp only [hpush, Nest.pushEnd, hterminator, hbrace, if_false]
        by_cases hend : t.kind = .endOfInput <;> simp only [hend, if_true, if_false] <;> rfl

/-- Where a statement starts, the rest is read by pushing its tokens. -/
theorem resumeAtStart_bind_eq_drive (nest : Nest) (r : Reader σ) :
    (resumeAtStart nest >>= ending) r = drive (.within nest .start) r := by
  induction hn : r.remaining using Nat.strongRecOn generalizing r nest with
  | ind n ih =>
    subst hn
    have hlooks : LooksFirst (resumeAtStart nest : Step σ ε Query) := by
      rw [resumeAtStart_eq_statementStart]
      exact .bind (.peek_bind _) _
    refine LooksFirst.eq (.bind hlooks _) (.drive _) fun first r₁ hfirst hle => ?_
    rw [resumeAtStart_eq_statementStart, statementStart, bind_assoc, bind_assoc, bind_apply,
      peek_of_ahead hfirst]
    -- a statement starts where verbs may follow, with none read yet
    have hverbs : (Standing.within nest .start).push first
        = (Standing.within nest (.verbs first [])).push first := rfl
    rw [drive_congr hfirst hverbs]
    dsimp only
    rw [bind_assoc]
    refine verbsBehind_bind_eq_drive #[] fun list t r₂ hahead hsign hstring hle₂ => ?_
    rw [bind_assoc, bind_apply, peek_of_ahead hahead]
    dsimp only
    have hpush : (Standing.within nest (.verbs first list)).push t = nest.pushVerb first list t :=
      rfl
    by_cases hbrace : t.kind = .leftBrace
    · -- a scope is opened, and its first statement starts
      have hend : t.kind ≠ .endOfInput := by simp [hbrace]
      have hlt := Reader.remaining_past_lt hahead hend
      have hfurther : (Standing.within nest (.verbs first list)).push t
          = .further (.within { nest with
            scopes := { brace := t, owner := first, verbs := list } :: nest.scopes } .start) := by
        simp [hpush, Nest.pushVerb, hbrace]
      rw [if_pos hbrace, bind_map_left, bind_apply,
        openScope_of_ahead first list hahead hbrace, drive_of_further hahead hfurther]
      exact ih (r₂.past t).remaining (by omega) _ _ rfl
    · -- the statement has no scope and is complete
      have hcomplete : (Standing.within nest (.verbs first list)).push t
          = (Standing.within (nest.add (.plain list first.location)) .complete).push t := by
        simp [Nest.pushVerb, hbrace, hsign, hstring, Standing.push]
      rw [if_neg hbrace, pure_bind, drive_congr hahead hcomplete]
      refine resumeAtEnd_bind_eq_drive fun nest' r' hlt => ?_
      exact ih r'.remaining (by omega) nest' r' rfl

/-- The statements of a query are read from the start of a list without scopes. -/
theorem statements_eq :
    (statements : Step σ ε Query) = (do
      let first ← peek
      resumeAtStart { first }) := rfl

/-- A whole query is read by pushing its tokens, one after another. -/
theorem query_eq_drive :
    (query : Step σ ε Query) = (do
      note (.started (← text).length)
      drive .unread) := by
  have hread (r : Reader σ) :
      ((statements : Step σ ε Query) >>= ending) r = drive .unread r := by
    rw [statements_eq]
    refine LooksFirst.eq (.bind (.peek_bind _) _) (.drive _) fun t r₁ hahead hle => ?_
    have hpush : Standing.unread.push t = (Standing.within { first := t } .start).push t := rfl
    rw [bind_assoc, bind_apply, peek_of_ahead hahead, drive_congr hahead hpush]
    exact resumeAtStart_bind_eq_drive { first := t } r₁
  refine bind_congr fun source => bind_congr fun _ => ?_
  exact funext hread

end Step

end ScopedQuery
