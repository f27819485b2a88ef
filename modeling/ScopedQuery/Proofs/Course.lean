import ScopedQuery.Proofs.Drive

namespace ScopedQuery

/-!
# How reading goes

The tokens of a feed are pushed in turn, until there is none, or until one completes or spoils the
query.  This says all there is to say of a query: how its reading goes decides what it gives.

* `Ending` — how reading ends, with what it gives (`Ending.outcome`).
* `refusal?` — the diagnostic of what reading gives, if it is one.
* `Course` — the tokens that are passed before reading ends.
* `exists_course` — every reading has an end.
* `Step.query_of_course` — the outcome, and the reader that is left.
-/

/-- How the reading of a query ends. -/
inductive Ending (ε : Type)
  /-- The feed has no token to give. -/
  | missing (fault : ε)
  /-- The query is complete in front of its last token. -/
  | complete (last : Token) (q : Query)
  /-- The last token does not belong where it is found. -/
  | refused (last : Token) (problem : Problem)

namespace Ending

variable {ε : Type}

/-- What comes of the reading of a query that is shown as `text`. -/
def outcome (text : String) : Ending ε → Except (Failure ε) Query
  | .missing fault => .error (.feed fault)
  | .complete _ q => .ok q
  | .refused last problem =>
    .error (.refused (problem.report last.location last.describe text))

/-- The token that was looked at and not taken. -/
def last? : Ending ε → Option Token
  | .missing _ => none
  | .complete last _ => some last
  | .refused last _ => some last

/-- The ending is what its last token means at a standing, if it has one. -/
def IsMeantAt (c : Standing) : Ending ε → Prop
  | .missing _ => True
  | .complete last q => c.push last = .complete q
  | .refused last problem => c.push last = .refused problem

section Outcome

variable {e : Ending ε} {text : String}

@[simp] theorem outcome_eq_feed {fault : ε} :
    e.outcome text = .error (.feed fault) ↔ e = .missing fault := by
  cases e <;> simp [outcome]

@[simp] theorem outcome_eq_ok {q : Query} :
    e.outcome text = .ok q ↔ ∃ last, e = .complete last q := by
  cases e <;> simp [outcome]

@[simp] theorem outcome_eq_refused {d : Diagnostic} :
    e.outcome text = .error (.refused d) ↔ ∃ last problem, e = .refused last problem ∧
      problem.report last.location last.describe text = d := by
  cases e <;> simp [outcome]

@[simp] theorem outcome_ne_misplaced : e.outcome text ≠ .error .misplaced := by
  cases e <;> simp [outcome]

end Outcome

end Ending

/-- The diagnostic of an outcome that is a refusal. -/
def refusal? {ε α : Type} : Except (Failure ε) α → Option Diagnostic
  | .error (.refused d) => some d
  | _ => none

/-- An outcome whose diagnostic can be computed is a refusal with that diagnostic. -/
theorem exists_of_refusal {ε α β : Type} {out : Except (Failure ε) α} (f : Diagnostic → β) {b : β}
    (h : (refusal? out).map f = some b) : ∃ d, out = .error (.refused d) ∧ f d = b := by
  obtain ⟨d, hd, hb⟩ := Option.map_eq_some_iff.mp h
  unfold refusal? at hd
  split at hd
  · cases hd
    exact ⟨d, rfl, hb⟩
  · cases hd

variable {σ ε : Type} [TokenFeed σ ε]

/-- From a standing, the feed `s` gives the tokens `us`, behind which reading ends and leaves the
    feed `s'`. -/
inductive Course : Standing → σ → List Token → Ending ε → σ → Prop
  | missing {c : Standing} {s s' : σ} {fault : ε} :
    TokenFeed.next s = (.error fault, s') → Course c s [] (.missing fault) s'
  | complete {c : Standing} {s s' : σ} {t : Token} {q : Query} :
    TokenFeed.next s = (.ok t, s') → c.push t = .complete q → Course c s [] (.complete t q) s'
  | refused {c : Standing} {s s' : σ} {t : Token} {problem : Problem} :
    TokenFeed.next s = (.ok t, s') → c.push t = .refused problem →
    Course c s [] (.refused t problem) s'
  | further {c c' : Standing} {s s₁ s' : σ} {t : Token} {us : List Token} {e : Ending ε} :
    TokenFeed.next s = (.ok t, s₁) → c.push t = .further c' → Course c' s₁ us e s' →
    Course c s (t :: us) e s'

/-- Every reading has an end, since each token that is passed lowers what is left of the feed. -/
theorem exists_course (c : Standing) (s : σ) :
    ∃ (us : List Token) (e : Ending ε) (s' : σ), Course c s us e s' := by
  -- the standing may grow without bound, and only the feed shrinks
  induction hn : TokenFeed.remaining s using Nat.strongRecOn generalizing c s with
  | ind n ih =>
    subst hn
    rcases hnext : TokenFeed.next s with ⟨fault | t, s₁⟩
    · exact ⟨[], .missing fault, s₁, .missing hnext⟩
    cases hpush : c.push t with
    | complete q => exact ⟨[], .complete t q, s₁, .complete hnext hpush⟩
    | refused problem => exact ⟨[], .refused t problem, s₁, .refused hnext hpush⟩
    | further c' =>
      have hend : t.kind ≠ .endOfInput := fun hend => Standing.push_endOfInput hend hpush
      have hlt : TokenFeed.remaining s₁ < TokenFeed.remaining s :=
        TokenFeed.remaining_lt hnext hend
      obtain ⟨us, e, s', hcourse⟩ := ih _ hlt c' s₁ rfl
      exact ⟨t :: us, e, s', .further hnext hpush hcourse⟩

/-- The tokens that are passed lead to the standing at which the ending is found. -/
theorem Course.leads {c : Standing} {s s' : σ} {us : List Token} {e : Ending ε}
    (h : Course c s us e s') : ∃ c', c.Leads us c' ∧ e.IsMeantAt c' := by
  induction h with
  | @missing c => exact ⟨c, .nil c, trivial⟩
  | @complete c _ _ _ _ _ hpush => exact ⟨c, .nil c, hpush⟩
  | @refused c _ _ _ _ _ hpush => exact ⟨c, .nil c, hpush⟩
  | further _ hpush _ ih =>
    obtain ⟨c', hleads, hlast⟩ := ih
    exact ⟨c', .cons hpush hleads, hlast⟩

namespace Step

/-- Where no token is ahead, the feed is asked for one. -/
theorem peek_of_next {r : Reader σ} {t : Token} {s' : σ} (hr : r.ahead = none)
    (hnext : TokenFeed.next r.feed = (.ok t, s')) :
    peek r = (.ok t, { r with feed := s', ahead := some t }) := by
  simp only [peek, hr, hnext]

/-- If it has none to give, the reader has none ahead either. -/
theorem peek_of_fault {r : Reader σ} {fault : ε} {s' : σ} (hr : r.ahead = none)
    (hnext : TokenFeed.next r.feed = (.error fault, s')) :
    peek r = (.error (.feed fault), { r with feed := s' }) := by
  simp only [peek, hr, hnext]

omit [TokenFeed σ ε] in
/-- A query that is complete is noted and given. -/
theorem conclude_apply (q : Query) (r : Reader σ) :
    (conclude q : Step σ ε Query) r =
      (.ok q, { r with trace := r.trace.push (.finished q.statements.length) }) := rfl

/-- A problem is noted, and reported with the token at which it was found. -/
theorem refuse_apply {α : Type} (problem : Problem) (t : Token) (r : Reader σ) :
    (refuse problem t : Step σ ε α) r =
      let diagnostic := problem.report t.location t.describe (TokenFeed.text r.feed)
      (.error (.refused diagnostic), { r with trace := r.trace.push (.refused diagnostic) }) := rfl

/-- A reading ends where a token is missing. -/
theorem drive_of_fault {r : Reader σ} {fault : ε} {s' : σ} (c : Standing) (hr : r.ahead = none)
    (hnext : TokenFeed.next r.feed = (.error fault, s')) :
    drive c r = (.error (.feed fault), { r with feed := s' }) := by
  rw [drive_eq, bind_apply, peek_of_fault hr hnext]

/-- A token is ahead before anything is done with it. -/
theorem drive_of_next {r : Reader σ} {t : Token} {s' : σ} (c : Standing) (hr : r.ahead = none)
    (hnext : TokenFeed.next r.feed = (.ok t, s')) :
    drive c r = drive c { r with feed := s', ahead := some t } := by
  have hlooks : LooksFirst (drive c : Step σ ε Query) := .drive c
  rw [← hlooks, bind_apply, peek_of_next hr hnext, hlooks]

/-- What comes of pushing tokens is decided by how it goes. -/
theorem drive_of_course {c : Standing} {s s' : σ} {us : List Token} {e : Ending ε} {r : Reader σ}
    (h : Course c s us e s') (hfeed : r.feed = s) (hr : r.ahead = none) :
    ∃ r', drive c r = (e.outcome (TokenFeed.text s'), r') ∧ r'.feed = s' ∧
      r'.taken.toList = r.taken.toList ++ us ∧ r'.ahead = e.last? := by
  induction h generalizing r with
  | missing hnext =>
    subst hfeed
    rw [drive_of_fault _ hr hnext]
    exact ⟨{ r with feed := _ }, rfl, rfl, (List.append_nil _).symm, hr⟩
  | complete hnext hpush =>
    subst hfeed
    rw [drive_of_next _ hr hnext, drive_of_complete rfl hpush, conclude_apply]
    exact ⟨_, rfl, rfl, (List.append_nil _).symm, rfl⟩
  | refused hnext hpush =>
    subst hfeed
    rw [drive_of_next _ hr hnext, drive_of_refused rfl hpush, refuse_apply]
    exact ⟨_, rfl, rfl, (List.append_nil _).symm, rfl⟩
  | @further c c₁ _ s₁ _ t us e hnext hpush _ ih =>
    subst hfeed
    rw [drive_of_next _ hr hnext, drive_of_further rfl hpush]
    -- the token has been looked at and is taken, which leaves no token ahead again
    let looked : Reader σ := { r with feed := s₁, ahead := some t }
    obtain ⟨r', hr', hfeed', htaken, hahead⟩ :=
      ih (looked.feed_past t) (looked.ahead_past t)
    refine ⟨r', hr', hfeed', ?_, hahead⟩
    rw [htaken, Reader.taken_past, Array.toList_push, List.append_assoc, List.singleton_append]

/-- **How the reading of a query goes decides what it gives**, and which tokens have been taken and
    looked at then. -/
theorem query_of_course {s s' : σ} {us : List Token} {e : Ending ε}
    (h : Course .unread s us e s') :
    ∃ r', query { feed := s } = (e.outcome (TokenFeed.text s'), r') ∧ r'.feed = s' ∧
      r'.taken.toList = us ∧ r'.ahead = e.last? := by
  rw [query_eq_drive]
  let started : Reader σ :=
    { feed := s, trace := #[.started (TokenFeed.text s).length] }
  show ∃ r', drive .unread started = _ ∧ _
  obtain ⟨r', hr', hfeed, htaken, hahead⟩ := drive_of_course (r := started) h rfl rfl
  exact ⟨r', hr', hfeed, by simpa [started] using htaken, hahead⟩

end Step

end ScopedQuery
