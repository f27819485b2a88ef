import ScopedQuery.Proofs.Terminators

namespace ScopedQuery

/-!
# Open scopes are counted by their braces

* `braceBalance` — the opening braces among some tokens, less the closing ones.
* `Standing.depth` — the scopes that are open where reading stands; `Standing.Leads.depth` counts
  them by the braces on the way there.
* `Reader.depth_past`, `Step.depth_of_course` — so does a reader.
* `depth_of_query` — the depth behind a whole query, and on the way to there.
-/

/-- The opening braces among the tokens, less the closing ones. -/
def braceBalance (us : List Token) : Int :=
  us.countP (·.kind = .leftBrace) - us.countP (·.kind = .rightBrace)

/-- Balances add up. -/
theorem braceBalance_append (us vs : List Token) :
    braceBalance (us ++ vs) = braceBalance us + braceBalance vs := by
  simp only [braceBalance, List.countP_append]
  omega

theorem braceBalance_cons (t : Token) (us : List Token) :
    braceBalance (t :: us) = braceBalance [t] + braceBalance us := braceBalance_append [t] us

/-- A token that is no brace does not count. -/
theorem braceBalance_of_ne {t : Token} (hl : t.kind ≠ .leftBrace) (hr : t.kind ≠ .rightBrace) :
    braceBalance [t] = 0 := by
  simp [braceBalance, hl, hr]

/-! ### Standings -/

/-- The number of scopes that are open. -/
def Standing.depth : Standing → Nat
  | .unread => 0
  | .within nest _ => nest.scopes.length

section Push

variable {nest : Nest} {first t : Token} {read : List Verb} {c c' : Standing} {us : List Token}

/-- The end of a statement changes the depth by what it counts: a closing brace by one, a terminator
    not at all. -/
theorem Nest.depth_pushEnd (h : nest.pushEnd t = .further c) :
    (c.depth : Int) = nest.scopes.length + braceBalance [t] := by
  cases h ▸ nest.atEnd_pushEnd t with
  | terminator hterminator =>
    have hkinds : ∀ kind ∈ TokenKind.terminators, kind ≠ .leftBrace ∧ kind ≠ .rightBrace := by
      decide
    obtain ⟨hl, hr⟩ := hkinds t.kind hterminator
    rw [braceBalance_of_ne hl hr, Int.add_zero]
    rfl
  | closed hbrace =>
    -- one scope less is open
    have hbalance : braceBalance [t] = -1 := by simp [braceBalance, hbrace]
    simp only [hbalance, Standing.depth, Nest.length_scopes_add, List.length_cons]
    omega

/-- A token behind the verbs of a statement does so too, and an opening brace goes one deeper. -/
theorem Nest.depth_pushVerb (h : nest.pushVerb first read t = .further c) :
    (c.depth : Int) = nest.scopes.length + braceBalance [t] := by
  cases h ▸ nest.atVerb_pushVerb first read t with
  | sign hkind => simp [Standing.depth, braceBalance, hkind]
  | string hkind => simp [Standing.depth, braceBalance, hkind]
  | opened hkind =>
    -- one scope more is open
    simp [Standing.depth, braceBalance, hkind]
  | ended hend => simpa using depth_pushEnd hend

/-- The braces of scopes change the number of open scopes, and no other token does. -/
theorem Standing.depth_push (h : c.push t = .further c') :
    (c'.depth : Int) = c.depth + braceBalance [t] := by
  cases c with
  | unread => exact Nest.depth_pushVerb h
  | within nest stage =>
    cases stage with
    | start => exact Nest.depth_pushVerb h
    | verbs first read => exact Nest.depth_pushVerb h
    | complete => exact Nest.depth_pushEnd h
    | name v =>
      rw [push] at h
      split at h
      case isTrue hkind =>
        cases h
        simp [depth, braceBalance, hkind]
      case isFalse => exact Nest.depth_pushVerb h
    | _ =>
      -- inside of a verb
      simp only [push] at h
      repeat' split at h
      all_goals
        cases h
        try simp [depth, braceBalance, *]

/-- By induction over the tokens, the depth of a standing is their balance. -/
theorem Standing.Leads.depth (h : c.Leads us c') :
    (c'.depth : Int) = c.depth + braceBalance us := by
  induction h with
  | nil => simp [braceBalance]
  | @cons _ _ _ t ts hpush _ ih =>
    rw [ih, Standing.depth_push hpush, braceBalance_cons t ts, Int.add_assoc]

/-- A query is complete where no scope is open. -/
theorem Nest.depth_of_complete {q : Query} (h : nest.pushEnd t = .complete q) :
    nest.scopes.length = 0 := by
  cases h ▸ nest.atEnd_pushEnd t with
  | complete => rfl

/-- A query can be complete behind a verb only outside of all scopes. -/
theorem Nest.depth_of_pushVerb_complete {q : Query} (h : nest.pushVerb first read t = .complete q) :
    nest.scopes.length = 0 := by
  cases h ▸ nest.atVerb_pushVerb first read t with
  | ended hend => simpa using depth_of_complete hend

/-- So it can be complete there only at depth 0. -/
theorem Standing.depth_of_complete {q : Query} (h : c.push t = .complete q) : c.depth = 0 := by
  cases c with
  | unread => rfl
  | within nest stage =>
    cases stage with
    | start => exact Nest.depth_of_pushVerb_complete h
    | verbs first read => exact Nest.depth_of_pushVerb_complete h
    | complete => exact Nest.depth_of_complete h
    | name v =>
      rw [push] at h
      split at h
      · cases h
      · exact Nest.depth_of_pushVerb_complete h
    | _ =>
      simp only [push] at h
      repeat' split at h
      all_goals cases h

end Push

/-! ### Readers -/

section Readers

variable {σ ε : Type}

/-- A reader counts its depth in the same way. -/
theorem Reader.depth_past (r : Reader σ) (t : Token) :
    (r.past t).depth = r.depth + braceBalance [t] := by
  unfold past
  split
  next hkind => simp [braceBalance, hkind]
  next hkind =>
    simp [braceBalance, hkind]
    omega
  next hl hr => simp [braceBalance_of_ne hl hr]

variable [TokenFeed σ ε]

/-- The depth of a reader counts the braces that it passes. -/
theorem Step.depth_of_course {c : Standing} {s s' : σ} {us : List Token} {e : Ending ε}
    {r : Reader σ} (h : Course c s us e s') (hfeed : r.feed = s) (hr : r.ahead = none) :
    (drive c r).2.depth = r.depth + braceBalance us := by
  induction h generalizing r with
  | missing hnext =>
    subst hfeed
    rw [drive_of_fault _ hr hnext]
    exact (Int.add_zero _).symm
  | complete hnext hpush =>
    subst hfeed
    rw [drive_of_next _ hr hnext, drive_of_complete rfl hpush, conclude_apply]
    exact (Int.add_zero _).symm
  | refused hnext hpush =>
    subst hfeed
    rw [drive_of_next _ hr hnext, drive_of_refused rfl hpush, refuse_apply]
    exact (Int.add_zero _).symm
  | @further c c₁ _ s₁ _ t us e hnext hpush _ ih =>
    subst hfeed
    rw [drive_of_next _ hr hnext, drive_of_further rfl hpush]
    let looked : Reader σ := { r with feed := s₁, ahead := some t }
    -- the count is additive, so the token is counted in front of the rest
    have hdepth := ih (looked.feed_past t) (looked.ahead_past t)
    rw [hdepth, Reader.depth_past, braceBalance_cons t us, Int.add_assoc]

/-- The depth behind a query counts the braces that were taken. -/
theorem Step.depth_query (s : σ) :
    ((query : Step σ ε Query) { feed := s }).2.depth =
      braceBalance ((query : Step σ ε Query) { feed := s }).2.taken.toList := by
  obtain ⟨us, e, s', hcourse⟩ := exists_course .unread s
  obtain ⟨r, hr, -, htaken, -⟩ := query_of_course hcourse
  let started : Reader σ := { feed := s, trace := #[.started (TokenFeed.text s).length] }
  have hdrive : (query : Step σ ε Query) { feed := s } = drive .unread started := by
    rw [query_eq_drive]
    rfl
  rw [hdrive, depth_of_course hcourse rfl rfl, ← hdrive, hr, htaken]
  exact Int.zero_add _

/-- **The depth counts the braces that were taken**, on the way and at the end, whether a query is
    read or not.  Where reading stops behind the first of the tokens, for want of more of them, the
    depth is the balance of these and not negative.  Behind a query that is read it is zero. -/
theorem depth_of_query (s : σ) :
    let run := (Step.query : Step σ ε Query) { feed := s }
    run.2.depth = braceBalance run.2.taken.toList ∧
      (∀ us, us <+: run.2.taken.toList →
        Passes us ∧ (readTokens us).2.depth = braceBalance us ∧ 0 ≤ braceBalance us) ∧
      ∀ q, run.1 = .ok q → run.2.depth = 0 := by
  intro run
  obtain ⟨ws, e, s', hcourse⟩ := exists_course .unread s
  obtain ⟨r, hr, -, htaken, -⟩ := Step.query_of_course hcourse
  have hrun : run = (e.outcome (TokenFeed.text s'), r) := hr
  obtain ⟨c, hleads, hmeant⟩ := hcourse.leads
  have hws : run.2.taken.toList = ws := by rw [hrun, htaken]
  have hdepth : run.2.depth = braceBalance run.2.taken.toList := Step.depth_query s
  refine ⟨hdepth, fun us hus => ?_, fun q hq => ?_⟩
  · rw [hws] at hus
    obtain ⟨vs, rfl⟩ := hus
    obtain ⟨c₁, hfirst, -⟩ := hleads.exists_append
    have hpasses : Passes us := passes_iff_leads.mpr ⟨c₁, hfirst⟩
    refine ⟨hpasses, ?_, ?_⟩
    · rw [readTokens, Step.depth_query]
      exact congrArg braceBalance hpasses.taken
    · have hcount := hfirst.depth
      rw [show Standing.unread.depth = 0 from rfl] at hcount
      omega
  · rw [hdepth, hws]
    rw [hrun] at hq
    obtain ⟨last, rfl⟩ := Ending.outcome_eq_ok.mp hq
    have hcount := hleads.depth
    rw [Standing.depth_of_complete hmeant, show Standing.unread.depth = 0 from rfl] at hcount
    omega

end Readers

end ScopedQuery
