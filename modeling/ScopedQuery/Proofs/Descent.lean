import ScopedQuery.Reader.Scopes

namespace ScopedQuery

/-!
# Scopes by recursive descent

A reader keeps the lists of statements that are being read in a `Nest`.  The same lists can be read
by a function that calls itself for the body of each scope, and both ways give the same outcome and
leave the same reader, whatever the feed gives.

* `Step.statementWithin`, `Step.listWithin` — the recursive functions, each of which gives the fact
  that ends the recursion together with its outcome.
* `Step.descendStatement_eq`, `Step.descendList_eq` — the equations of the two, as steps.
* `Step.leaveList` — what a nest still asks for when its innermost list is complete.
* `Step.resumeAtStart_eq` — a nest is read as its innermost list is, and is left then.
* `run_eq_descend` — the query of a text, and the reader behind it, are those of the descent.
-/

namespace Nest

/-- The statements of the innermost list. -/
def innermost (nest : Nest) : Array Statement :=
  match nest.scopes with
  | [] => nest.statements
  | scope :: _ => scope.statements

@[simp] theorem innermost_add (nest : Nest) (s : Statement) :
    (nest.add s).innermost = nest.innermost.push s := by
  rcases nest with ⟨first, statements, _ | ⟨scope, outer⟩⟩ <;> rfl

end Nest

namespace Step

variable {σ ε α β : Type}

/-! ### Steps as a monad -/

instance : LawfulMonad (Step σ ε) :=
  .mk' (Step σ ε)
    (fun x => by
      funext r
      rw [map_apply]
      rcases x r with ⟨_ | a, r₁⟩ <;> rfl)
    (fun a f => rfl)
    (fun x f g => by
      funext r
      simp only [bind_apply]
      rcases x r with ⟨_ | a, r₁⟩ <;> rfl)
    (fun f x => rfl)

/-- What follows a step matters only for the results and the readers that it gives. -/
theorem bind_apply_congr {x : Step σ ε α} {f g : α → Step σ ε β} {r : Reader σ}
    (h : ∀ a r', x r = (.ok a, r') → f a r' = g a r') : (x >>= f) r = (x >>= g) r := by
  rw [bind_apply, bind_apply]
  rcases hx : x r with ⟨_ | a, r'⟩
  · rfl
  · exact h a r' hx

/-- A step followed by another gives a result only if both do. -/
theorem bind_eq_ok {x : Step σ ε α} {f : α → Step σ ε β} {r r' : Reader σ} {b : β} :
    (x >>= f) r = (.ok b, r') ↔ ∃ a r₁, x r = (.ok a, r₁) ∧ f a r₁ = (.ok b, r') := by
  rw [bind_apply]
  rcases hx : x r with ⟨_ | a, r₁⟩
  · simp
  · constructor
    · exact fun h => ⟨a, r₁, rfl, h⟩
    · rintro ⟨a', r₁', ha, h⟩
      simp only [Prod.mk.injEq, Except.ok.injEq] at ha
      rwa [ha.1, ha.2]

/-- A step that is mapped succeeds where the step does. -/
theorem map_eq_ok {x : Step σ ε α} {f : α → β} {r r' : Reader σ} {b : β} :
    (f <$> x) r = (.ok b, r') ↔ ∃ a, x r = (.ok a, r') ∧ f a = b := by
  rw [map_apply]
  rcases hx : x r with ⟨_ | a, r₁⟩
  · simp
  · simp only [Prod.mk.injEq, Except.ok.injEq]
    constructor
    · rintro ⟨rfl, rfl⟩
      exact ⟨a, ⟨rfl, rfl⟩, rfl⟩
    · rintro ⟨_, ⟨rfl, rfl⟩, rfl⟩
      exact ⟨rfl, rfl⟩

@[simp] theorem pure_eq_ok {a b : α} {r r' : Reader σ} :
    (pure a : Step σ ε α) r = (.ok b, r') ↔ a = b ∧ r = r' := by
  simp [pure_apply]

variable [TokenFeed σ ε]

/-- A step that settles leaves no more tokens than there were. -/
theorem Settles.remaining_le {x : Step σ ε α} (hx : Settles x) {r r' : Reader σ}
    {out : Except (Failure ε) α} (h : x r = (out, r')) : r'.remaining ≤ r.remaining := by
  have hle := hx r
  rwa [h] at hle

/-! ### The descent -/

/-- An outcome, behind which no more is left to take than there was for `r`. -/
abbrev Settled (ε α : Type) [TokenFeed σ ε] (r : Reader σ) : Type :=
  { out : Except (Failure ε) α × Reader σ // out.2.remaining ≤ r.remaining }

mutual

/-- Reads a statement.  The body of its scope is read by a call for a list of its own. -/
def statementWithin (r : Reader σ) : Settled ε Statement r :=
  match h : statementStart r with
  | (.error failure, r₁) => ⟨(.error failure, r₁), Settles.statementStart.remaining_le h⟩
  | (.ok (.statement s), r₁) => ⟨(.ok s, r₁), Settles.statementStart.remaining_le h⟩
  | (.ok (.scope scope), r₁) =>
    have hlt : r₁.remaining < r.remaining := remaining_statementStart_lt h
    match listWithin #[] r₁ with
    | ⟨(.error failure, r₂), hle⟩ => ⟨(.error failure, r₂), Nat.le_trans hle (Nat.le_of_lt hlt)⟩
    | ⟨(.ok body, r₂), hle⟩ =>
      ⟨closeScope { scope with statements := body } r₂,
        Nat.le_trans (Settles.closeScope _ r₂) (Nat.le_trans hle (Nat.le_of_lt hlt))⟩
termination_by 2 * r.remaining

/-- Reads a list of statements, behind those of `read`. -/
def listWithin (read : Array Statement) (r : Reader σ) : Settled ε (Array Statement) r :=
  match statementWithin r with
  | ⟨(.error failure, r₁), hle⟩ => ⟨(.error failure, r₁), hle⟩
  | ⟨(.ok s, r₁), hle⟩ =>
    match h : accept TokenKind.terminators r₁ with
    | (.error failure, r₂) =>
      ⟨(.error failure, r₂), Nat.le_trans ((Settles.accept _).remaining_le h) hle⟩
    | (.ok none, r₂) =>
      ⟨(.ok (read.push s), r₂), Nat.le_trans ((Settles.accept _).remaining_le h) hle⟩
    | (.ok (some terminator), r₂) =>
      have hlt : r₂.remaining < r.remaining :=
        Nat.lt_of_lt_of_le (Advances.accept (by decide) r₁ terminator r₂ h) hle
      match listWithin (read.push s) r₂ with
      | ⟨out, hout⟩ => ⟨out, Nat.le_trans hout (Nat.le_of_lt hlt)⟩
termination_by 2 * r.remaining + 1

end

/-- Reads a statement by recursive descent. -/
def descendStatement : Step σ ε Statement := fun r => (statementWithin r).1

/-- Reads a list of statements by recursive descent, behind those of `read`. -/
def descendList (read : Array Statement) : Step σ ε (Array Statement) :=
  fun r => (listWithin read r).1

/-- The descent enters the list of a scope where the loop would put a scope on its nest. -/
theorem descendStatement_eq_statementStart :
    (descendStatement : Step σ ε Statement) = do
      match ← statementStart with
      | .scope scope =>
        let body ← descendList #[]
        closeScope { scope with statements := body }
      | .statement s => return s := by
  funext r
  rw [bind_apply]
  show (statementWithin r).1 = _
  rw [statementWithin]
  split <;> rename_i h
  · simp only [h]
  · simp only [h, pure_apply]
  · simp only [h, bind_apply, descendList]
    rcases listWithin #[] _ with ⟨⟨_ | body, r₂⟩, hle⟩ <;> rfl

/-- A statement is a run of verbs.  If a brace follows them, the scope is opened, its body is read
    by the same descent, and the scope is closed. -/
theorem descendStatement_eq :
    (descendStatement : Step σ ε Statement) = do
      let first ← peek
      let verbs ← verbs
      let following ← peek
      if following.kind = .leftBrace then
        let scope ← openScope first verbs
        let body ← descendList #[]
        closeScope { scope with statements := body }
      else return .plain verbs first.location := by
  rw [descendStatement_eq_statementStart, statementStart]
  simp only [bind_assoc]
  refine bind_congr fun first => bind_congr fun verbs => bind_congr fun following => ?_
  split
  · simp only [bind_map_left]
  · simp only [pure_bind]

/-- A list goes on as long as its statements are followed by terminators. -/
theorem descendList_eq (read : Array Statement) :
    (descendList read : Step σ ε (Array Statement)) = do
      let s ← descendStatement
      match ← accept TokenKind.terminators with
      | some _ => descendList (read.push s)
      | none => return read.push s := by
  funext r
  rw [bind_apply]
  show (listWithin read r).1 = _
  rw [listWithin, descendStatement]
  rcases statementWithin r with ⟨⟨_ | s, r₁⟩, hle⟩
  · rfl
  · dsimp only
    rw [bind_apply]
    split <;> rename_i h
    · simp only [h]
    · simp only [h, pure_apply]
    · simp only [h, descendList]

/-- The descent settles, since each of its steps does. -/
theorem Settles.descendStatement : Settles (descendStatement : Step σ ε Statement) :=
  fun r => (statementWithin r).2

theorem Settles.descendList (read : Array Statement) :
    Settles (descendList read : Step σ ε (Array Statement)) :=
  fun r => (listWithin read r).2

/-- Reads statements, with all scopes in them, by recursive descent. -/
def statementsByDescent : Step σ ε Query := do
  let first ← peek
  let list ← descendList #[]
  return ⟨list.toList, first.location⟩

/-! ### The nest as a stack of calls -/

/-- `statementsIn` as a step, to be followed by others. -/
def resumeAtStart (nest : Nest) : Step σ ε Query := statementsIn nest

/-- `closeStatement` as a step, to be followed by others. -/
def resumeAtEnd (nest : Nest) : Step σ ε Query := closeStatement nest

/-- Goes on behind the innermost list, which is complete and holds the statements of `list`: either
    it is the whole query, or its scope is closed. -/
def leaveList (nest : Nest) (list : Array Statement) : Step σ ε Query :=
  match nest.scopes with
  | [] => return ⟨list.toList, nest.first.location⟩
  | scope :: outer => do
    let s ← closeScope { scope with statements := list }
    resumeAtEnd (Nest.add { nest with scopes := outer } s)

/-- The statements that a nest holds of its innermost list are not asked for when it is left. -/
@[simp] theorem leaveList_add (nest : Nest) (s : Statement) :
    (leaveList (nest.add s) : Array Statement → Step σ ε Query) = leaveList nest := by
  rcases nest with ⟨first, statements, _ | ⟨scope, outer⟩⟩ <;> rfl

/-- The loop starts a statement with the same step as the descent. -/
theorem resumeAtStart_eq_statementStart (nest : Nest) :
    (resumeAtStart nest : Step σ ε Query) = (do
      match ← statementStart with
      | .scope scope => resumeAtStart { nest with scopes := scope :: nest.scopes }
      | .statement s => resumeAtEnd (nest.add s)) := by
  funext r
  rw [bind_apply]
  show statementsIn nest r = _
  rw [statementsIn]
  split <;> rename_i h <;> simp only [h, resumeAtStart, resumeAtEnd]

/-- Behind a statement the loop goes on with the next one, or leaves the list. -/
theorem resumeAtEnd_eq (nest : Nest) :
    (resumeAtEnd nest : Step σ ε Query) = (do
      match ← accept TokenKind.terminators with
      | some _ => resumeAtStart nest
      | none => leaveList nest nest.innermost) := by
  funext r
  rw [bind_apply]
  show closeStatement nest r = _
  rw [closeStatement]
  -- the loop ends with the outermost list, and closes a scope otherwise
  rcases nest with ⟨first, statements, _ | ⟨scope, outer⟩⟩ <;> split <;> rename_i h
  · simp only [h]
  · simp only [h, resumeAtStart]
  · simp only [h, leaveList, Nest.innermost, pure_apply, Nest.query]
  · simp only [h]
  · simp only [h, resumeAtStart]
  · simp only [h, leaveList, Nest.innermost]
    rw [bind_apply]
    split <;> rename_i hclose <;> simp only [hclose, resumeAtEnd]

/-- A scope that has just been opened holds no statements. -/
theorem statements_of_statementStart {r r' : Reader σ} {scope : Scope}
    (h : (statementStart : Step σ ε StatementEnd) r = (.ok (.scope scope), r')) :
    scope.statements = #[] := by
  obtain ⟨first, r₁, -, h⟩ := bind_eq_ok.mp h
  obtain ⟨verbs, r₂, -, h⟩ := bind_eq_ok.mp h
  obtain ⟨following, r₃, -, h⟩ := bind_eq_ok.mp h
  -- only an opening brace leads to a scope
  split at h
  · obtain ⟨opened, h, hscope⟩ := map_eq_ok.mp h
    obtain ⟨brace, r₄, -, h⟩ := bind_eq_ok.mp h
    cases brace with
    | none => simp [fail] at h
    | some brace =>
      simp only [bind_eq_ok, pure_eq_ok] at h
      obtain ⟨-, -, -, -, -, -, rfl, -⟩ := h
      cases hscope
      rfl
  · simp at h

/-- A nest is read as its innermost list is by descent, and is left then. -/
theorem resumeAtStart_eq (nest : Nest) :
    (resumeAtStart nest : Step σ ε Query) = descendList nest.innermost >>= leaveList nest := by
  funext r
  induction hn : r.remaining using Nat.strongRecOn generalizing nest r with
  | ind n ih =>
    subst hn
    -- behind a complete statement both go on in the same way
    have hend : ∀ (s : Statement) (r' : Reader σ), r'.remaining ≤ r.remaining →
        resumeAtEnd (nest.add s) r' =
          ((do
            match ← accept TokenKind.terminators with
            | some _ => descendList (nest.innermost.push s)
            | none => return nest.innermost.push s : Step σ ε (Array Statement))
            >>= leaveList nest) r' := by
      intro s r' hle
      rw [resumeAtEnd_eq, bind_assoc]
      refine bind_apply_congr fun accepted r'' haccept => ?_
      cases accepted with
      | none => simp only [pure_bind, Nest.innermost_add, leaveList_add]
      | some terminator =>
        have hlt := Advances.accept (by decide) r' terminator r'' haccept
        simpa using ih r''.remaining (Nat.lt_of_lt_of_le hlt hle) (nest.add s) r'' rfl
    rw [resumeAtStart_eq_statementStart, descendList_eq, descendStatement_eq_statementStart]
    simp only [bind_assoc]
    refine bind_apply_congr fun start r₁ hstart => ?_
    cases start with
    | statement s =>
      have hle := Settles.statementStart.remaining_le hstart
      simpa only [pure_bind, bind_assoc] using hend s r₁ hle
    | scope scope =>
      -- the list of the scope is read first, and its statement is the next one of this list
      have hlt := remaining_statementStart_lt hstart
      have hscope := statements_of_statementStart hstart
      dsimp only
      rw [ih r₁.remaining hlt _ r₁ rfl, bind_assoc]
      show (descendList scope.statements >>= _) r₁ = _
      rw [hscope]
      refine bind_apply_congr fun body r₂ hbody => ?_
      show (closeScope _ >>= _) r₂ = _
      refine bind_apply_congr fun s r₃ hclose => ?_
      have hle₂ := (Settles.descendList #[]).remaining_le hbody
      have hle₃ := (Settles.closeScope _).remaining_le hclose
      simpa only [bind_assoc] using hend s r₃ (by omega)

/-- With no scope open the loop is the descent into the outermost list. -/
theorem statements_eq_statementsByDescent :
    (statements : Step σ ε Query) = statementsByDescent := by
  have hread (first : Token) : (resumeAtStart { first } : Step σ ε Query) = _ :=
    resumeAtStart_eq { first }
  refine bind_congr fun first => (hread first).trans ?_
  exact bind_congr fun list => rfl

/-- Reads a list of statements by `list`, behind which the input has to end. -/
def wholeQuery (list : Step σ ε Query) : Step σ ε Query := do
  note (.started (← text).length)
  let q ← list
  let token ← peek
  if token.kind = .endOfInput then
    note (.finished q.statements.length)
    return q
  else if token.kind = .rightBrace then refuse .unmatchedBrace token
  else refuse (.trailing token.describe) token

/-- What is around the statements is the same on both sides. -/
theorem query_eq_wholeQuery : (query : Step σ ε Query) = wholeQuery statements := rfl

end Step

/-- The query that a text spells by recursive descent, and the reader behind it. -/
def Reader.descend (source : String) : Except (Failure ScanFault) Query × Reader Cursor :=
  (Step.wholeQuery Step.statementsByDescent : Step Cursor ScanFault Query)
    { feed := Cursor.ofText source }

/-- **The nest is recursive descent.**  For every text, whether it is a query or not, both ways of
    reading give the same query with the same places or the same failure, and they leave the same
    reader: the same tokens taken and looked at, the same depth, the same trace. -/
theorem run_eq_descend (source : String) : Reader.run source = Reader.descend source := by
  show Step.query _ = Step.wholeQuery _ _
  rw [Step.query_eq_wholeQuery, Step.statements_eq_statementsByDescent]

end ScopedQuery
