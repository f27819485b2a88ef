import Mathlib.Logic.Relation
import ScopedQuery.Proofs.Alike
import ScopedQuery.Proofs.Context
import ScopedQuery.Proofs.ValidPrefix

namespace ScopedQuery

/-!
# What a line break means

Inside of an argument list a line break means nothing, and everywhere else it means what a semicolon
means.  A list is inside of argument lists only as long as no token of it is refused, for behind
such a token nothing is read.

* `readTokens` — the run of a reader over a list of tokens.
* `Passes`, `IsInside` — tokens that are all passed, and places inside of argument lists.
* `Loosens`, `Reterminates` — one line break more inside of an argument list, and one terminator
  in the place of another one outside of them.
* `Course.ended_or_passed` — whether reading ends within the first tokens of a list or behind them.
* `Standing.push_newline`, `Standing.push_terminator` — what a line break means at a standing.
* `loosens_run`, `reterminates_run` — the two runs over lists that differ in this way.
* `breaks_end_statements_outside_lists` — the results together.
-/

/-! ### Places in lists of tokens -/

/-- The run of a reader over the tokens of a list. -/
def readTokens (ts : List Token) : Except (Failure Exhausted) Query × Reader TokenList :=
  (Step.query : Step TokenList Exhausted Query) { feed := { tokens := ts } }

/-- The tokens are all passed, and the reader asks for more. -/
def Passes (us : List Token) : Prop := (readTokens us).1 = .error (.feed .noMoreTokens)

/-- What follows the tokens is inside of an argument list, of which no token is refused. -/
def IsInside (us : List Token) : Prop := Passes us ∧ ∃ inner, OpensArguments us inner

/-- The second list has one more line break, which is inside of an argument list. -/
def Loosens (ts ts' : List Token) : Prop :=
  ∃ (us vs inner : List Token) (t : Token), ts = us ++ vs ∧ ts' = us ++ t :: vs ∧
    t.kind = .newline ∧ OpensArguments us inner

/-- The second list has another terminator in one place, which is not inside of an argument list. -/
def Reterminates (ts ts' : List Token) : Prop :=
  ∃ (us vs : List Token) (t t' : Token), ts = us ++ t :: vs ∧ ts' = us ++ t' :: vs ∧
    t.kind ∈ TokenKind.terminators ∧ t'.kind ∈ TokenKind.terminators ∧ ¬ IsInside us

/-! ### Where reading ends -/

section Runs

variable {c : Standing} {us vs ws : List Token} {e : Ending Exhausted} {s' : TokenList}
  {text : String}

/-- Reading ends at one of the first tokens, whatever follows them, or it passes all of these. -/
theorem Course.ended_or_passed (h : Course c (⟨us ++ vs, text⟩ : TokenList) ws e s') :
    (∀ vs', ∃ s'', Course c (⟨us ++ vs', text⟩ : TokenList) ws e s'') ∨
      ∃ c' ws', c.Leads us c' ∧ ws = us ++ ws' ∧ Course c' (⟨vs, text⟩ : TokenList) ws' e s' := by
  -- a reading that ends at a token has not asked for what is behind it
  induction us generalizing c ws with
  | nil => exact .inr ⟨c, ws, .nil c, rfl, h⟩
  | cons u us ih =>
    have hnext (rest : List Token) :
        TokenFeed.next (⟨u :: rest, text⟩ : TokenList) = (.ok u, (⟨rest, text⟩ : TokenList)) := rfl
    cases h with
    | missing hmissing => cases hmissing
    | complete hfirst hpush =>
      cases hfirst
      exact .inl fun vs' => ⟨_, .complete (hnext _) hpush⟩
    | refused hfirst hpush =>
      cases hfirst
      exact .inl fun vs' => ⟨_, .refused (hnext _) hpush⟩
    | further hfirst hpush hrest =>
      cases hfirst
      rcases ih hrest with hothers | ⟨c', ws', hleads, rfl, hcourse⟩
      · refine .inl fun vs' => ?_
        obtain ⟨s'', hcourse⟩ := hothers vs'
        exact ⟨s'', .further (hnext _) hpush hcourse⟩
      · exact .inr ⟨c', ws', .cons hpush hleads, rfl, hcourse⟩

/-- How reading goes decides what comes of a list, and which tokens are taken and looked at. -/
theorem readTokens_of_course {ts : List Token}
    (h : Course .unread (⟨ts, ""⟩ : TokenList) ws e s') :
    (readTokens ts).1 = e.outcome "" ∧ (readTokens ts).2.taken.toList = ws ∧
      (readTokens ts).2.ahead = e.last? := by
  obtain ⟨r, hr, -, htaken, hahead⟩ := Step.query_of_course h
  obtain ⟨-, htext⟩ := TokenList.mk.inj h.list_eq.1
  have hshown : TokenFeed.text s' = "" := htext.symm
  have hrun : readTokens ts = (e.outcome "", r) := by rw [← hshown]; exact hr
  rw [hrun]
  exact ⟨rfl, htaken, hahead⟩

/-- The course of tokens that are all passed. -/
theorem Passes.course (h : Passes us) :
    ∃ s', Course .unread (⟨us, ""⟩ : TokenList) us (.missing .noMoreTokens) s' := by
  obtain ⟨ws, e, s', hcourse⟩ := exists_course .unread (⟨us, ""⟩ : TokenList)
  obtain ⟨hout, -, -⟩ := readTokens_of_course hcourse
  obtain rfl := Ending.outcome_eq_feed.mp (hout.symm.trans h)
  obtain ⟨hlist, hnone⟩ := hcourse.list_eq
  obtain ⟨hus, -⟩ := TokenList.mk.inj hlist
  rw [hnone rfl, Ending.last?, Option.toList_none, List.append_nil, List.append_nil] at hus
  exact ⟨s', hus ▸ hcourse⟩

/-- A reading that passes all tokens has taken them all. -/
theorem Passes.taken (h : Passes us) : (readTokens us).2.taken.toList = us := by
  obtain ⟨s', hcourse⟩ := h.course
  exact (readTokens_of_course hcourse).2.1

/-- Tokens that are all passed lead somewhere. -/
theorem passes_iff_leads : Passes us ↔ ∃ c, Standing.unread.Leads us c := by
  constructor
  · intro h
    obtain ⟨s', hcourse⟩ := h.course
    obtain ⟨c, hleads, -⟩ := hcourse.leads
    exact ⟨c, hleads⟩
  · rintro ⟨c, hleads⟩
    have hcourse := hleads.course (.missing (s := (⟨[], ""⟩ : TokenList)) rfl)
    rw [List.append_nil] at hcourse
    exact (readTokens_of_course hcourse).1

/-- A list is refused at the token at the position of the reader. -/
theorem refused_at_position {ts : List Token} {d : Diagnostic}
    (h : (readTokens ts).1 = .error (.refused d)) :
    ∃ t, ts[(readTokens ts).2.position]? = some t ∧ (readTokens ts).2.ahead = some t ∧
      d.location = t.location ∧ d.found = some t.describe := by
  obtain ⟨us, e, s', hcourse⟩ := exists_course .unread (⟨ts, ""⟩ : TokenList)
  obtain ⟨hout, htaken, hahead⟩ := readTokens_of_course hcourse
  obtain ⟨t, problem, rfl, rfl⟩ := Ending.outcome_eq_refused.mp (hout.symm.trans h)
  have hposition : (readTokens ts).2.position = us.length := by
    rw [← htaken, Array.length_toList, Reader.position]
  obtain ⟨hts, -⟩ := TokenList.mk.inj hcourse.list_eq.1
  refine ⟨t, ?_, hahead, rfl, rfl⟩
  rw [hposition, hts]
  simp [Ending.last?]

end Runs

/-! ### What a line break means at a standing -/

/-- A terminator completes the statement of which it follows the verbs. -/
theorem Nest.pushVerb_terminator (nest : Nest) (first : Token) (read : List Verb) {t : Token}
    (ht : t.kind ∈ TokenKind.terminators) :
    nest.pushVerb first read t =
      .further (.within (nest.add (.plain read first.location)) .start) := by
  have hkinds : ∀ kind ∈ TokenKind.terminators,
      kind ≠ .atSign ∧ kind ≠ .string ∧ kind ≠ .leftBrace := by decide
  obtain ⟨hsign, hstring, hbrace⟩ := hkinds t.kind ht
  rw [pushVerb, if_neg hsign, if_neg hstring, if_neg hbrace, pushEnd_terminator ht]

namespace Standing

variable {c c' : Standing} {us vs inner : List Token} {t t' : Token}

/-- Where tokens lead, their first part leads somewhere on the way. -/
theorem Leads.exists_append (h : c.Leads (us ++ vs) c') :
    ∃ c₁, c.Leads us c₁ ∧ c₁.Leads vs c' := by
  induction us generalizing c with
  | nil => exact ⟨c, .nil c, h⟩
  | cons u us ih =>
    cases h with
    | cons hpush hrest =>
      obtain ⟨c₁, hleads, hlast⟩ := ih hrest
      exact ⟨c₁, .cons hpush hleads, hlast⟩

theorem push_newline {nest : Nest} {stage : Stage} {place : ArgumentPlace}
    (h : stage.place? = some place) (ht : t.kind = .newline) :
    (within nest stage).push t = .further (within nest stage) := by
  cases stage <;> first | exact if_pos ht | cases h

/-- Everywhere else all terminators mean the same. -/
theorem push_terminator (h : ∀ nest stage, c = within nest stage → stage.place? = none)
    (ht : t.kind ∈ TokenKind.terminators) (ht' : t'.kind ∈ TokenKind.terminators) :
    (c.push t).Alike (c.push t') := by
  apply Verdict.alike_of_content
  -- a terminator is neither the name that a sign waits for nor the start of a list
  have hkinds : ∀ kind ∈ TokenKind.terminators, kind ≠ .identifier ∧ kind ≠ .leftParen := by decide
  cases c with
  | unread =>
    show (Nest.pushVerb _ _ _ _).content = (Nest.pushVerb _ _ _ _).content
    rw [Nest.pushVerb_terminator _ _ _ ht, Nest.pushVerb_terminator _ _ _ ht']
    simp only [Verdict.content, content, Nest.add_content, Statement.unplaced]
    rfl
  | within nest stage =>
    have hplace := h nest stage rfl
    cases stage with
    | start =>
      show (Nest.pushVerb _ _ _ _).content = (Nest.pushVerb _ _ _ _).content
      rw [Nest.pushVerb_terminator _ _ _ ht, Nest.pushVerb_terminator _ _ _ ht']
      simp [Verdict.content, content, Statement.unplaced]
    | verbs first read =>
      show (Nest.pushVerb _ _ _ _).content = (Nest.pushVerb _ _ _ _).content
      rw [Nest.pushVerb_terminator _ _ _ ht, Nest.pushVerb_terminator _ _ _ ht']
    | sign first read location =>
      rw [push, push, if_neg (hkinds _ ht).1, if_neg (hkinds _ ht').1]
    | name v =>
      rw [push, push, if_neg (hkinds _ ht).2, if_neg (hkinds _ ht').2,
        Nest.pushVerb_terminator _ _ _ ht, Nest.pushVerb_terminator _ _ _ ht']
    | complete =>
      show (Nest.pushEnd _ _).content = (Nest.pushEnd _ _).content
      rw [Nest.pushEnd_terminator ht, Nest.pushEnd_terminator ht']
    | _ => cases hplace

/-- Tokens that lead somewhere leave open what is open there. -/
theorem Leads.leaves (h : unread.Leads us c) : c.Leaves us := by
  have hstart : Standing.unread.Leaves [] := rfl
  exact (hstart.leads fillsArguments_nil h).1

/-- Inside of an argument list reading stands at a place of it. -/
theorem Leads.exists_place (h : unread.Leads us c) (hinner : OpensArguments us inner) :
    ∃ nest stage place, c = within nest stage ∧ stage.place? = some place := by
  have hleaves := h.leaves
  cases c with
  | unread =>
    obtain rfl : us = [] := hleaves
    exact absurd hinner (closesArguments_nil inner)
  | within nest stage =>
    cases hplace : stage.place? with
    | none => exact absurd hinner (hleaves.2.closesArguments hplace inner)
    | some place => exact ⟨nest, stage, place, rfl, hplace⟩

/-- Outside of argument lists it does not. -/
theorem Leads.place_eq_none (h : unread.Leads us c) (hout : ¬ IsInside us) (nest : Nest)
    (stage : Stage) (hc : c = within nest stage) : stage.place? = none := by
  subst hc
  cases hplace : stage.place? with
  | none => rfl
  | some place =>
    obtain ⟨-, inner, hinner, -⟩ := (Stage.leaves_iff_standsAt hplace).mp h.leaves.2
    exact absurd ⟨passes_iff_leads.mpr ⟨_, h⟩, inner, (hinner inner).mpr rfl⟩ hout

/-- Behind an at sign a name comes next. -/
theorem Leads.exists_sign (h : unread.Leads us c) (hsign : EndsInSign us) :
    ∃ nest first read l, c = within nest (.sign first read l) := by
  have hleaves := h.leaves
  cases c with
  | unread =>
    obtain rfl : us = [] := hleaves
    cases hsign
  | within nest stage =>
    have hstage := hleaves.2
    cases stage with
    | sign first read l => exact ⟨nest, first, read, l, rfl⟩
    | name v => exact absurd hsign hstage.1.not_endsInSign
    | _ => exact absurd hsign hstage.1

/-- Behind a name the arguments of its verb come next, and there are none yet. -/
theorem Leads.exists_name (h : unread.Leads us c) (hname : EndsInName us) :
    ∃ nest v, c = within nest (.name v) ∧ v.arguments = [] := by
  obtain ⟨before, sign, name, rfl, hsign, hkind⟩ := hname
  rw [List.append_cons] at h
  obtain ⟨c₁, hleads, hlast⟩ := h.exists_append
  obtain ⟨nest, first, read, l, rfl⟩ := hleads.exists_sign (endsInSign_concat.mpr hsign)
  cases hlast with
  | cons hpush hrest =>
    rw [push, if_pos hkind] at hpush
    cases hpush
    cases hrest
    exact ⟨nest, _, rfl, rfl⟩

end Standing

/-! ### One line break -/

section Single

variable {ts ts' : List Token}

/-- One more line break inside of an argument list changes nothing. -/
theorem loosens_run (h : Loosens ts ts') :
    (readTokens ts).1 = (readTokens ts').1 ∧
      (readTokens ts).2.ahead = (readTokens ts').2.ahead ∧
      Relation.EqvGen Loosens (readTokens ts).2.taken.toList (readTokens ts').2.taken.toList := by
  obtain ⟨us, vs, inner, t, rfl, rfl, ht, hinner⟩ := h
  obtain ⟨ws, e, s', hcourse⟩ := exists_course .unread (⟨us ++ vs, ""⟩ : TokenList)
  obtain ⟨hout, htaken, hahead⟩ := readTokens_of_course hcourse
  rw [hout, htaken, hahead]
  rcases hcourse.ended_or_passed with hothers | ⟨c, ws', hleads, rfl, hrest⟩
  · -- reading ends in front of the line break
    obtain ⟨s'', hcourse'⟩ := hothers (t :: vs)
    obtain ⟨hout', htaken', hahead'⟩ := readTokens_of_course hcourse'
    rw [hout', htaken', hahead']
    exact ⟨rfl, rfl, .refl _⟩
  -- the line break is found inside of the list, and leads nowhere else
  · obtain ⟨nest, stage, place, rfl, hplace⟩ := hleads.exists_place hinner
    have hcourse' := hleads.course
      (.further (s := (⟨t :: vs, ""⟩ : TokenList)) rfl (Standing.push_newline hplace ht) hrest)
    obtain ⟨hout', htaken', hahead'⟩ := readTokens_of_course hcourse'
    rw [hout', htaken', hahead']
    exact ⟨rfl, rfl, .rel _ _ ⟨us, ws', inner, t, rfl, rfl, ht, hinner⟩⟩

/-- Another terminator outside of argument lists changes places only. -/
theorem reterminates_run (h : Reterminates ts ts') :
    OutcomesAgree (readTokens ts).1 (readTokens ts').1 ∧
      (readTokens ts).2.position = (readTokens ts').2.position := by
  obtain ⟨us, vs, t, t', rfl, rfl, ht, ht', hout⟩ := h
  obtain ⟨ws, e, s', hcourse⟩ := exists_course .unread (⟨us ++ t :: vs, ""⟩ : TokenList)
  -- it is enough to find a like course for the other list
  suffices h : ∃ ws' e' s'', Course .unread (⟨us ++ t' :: vs, ""⟩ : TokenList) ws' e' s'' ∧
      e.Alike e' ∧ ws.length = ws'.length by
    obtain ⟨ws', e', s'', hcourse', halike, hlength⟩ := h
    obtain ⟨hfirst, htaken, -⟩ := readTokens_of_course hcourse
    obtain ⟨hsecond, htaken', -⟩ := readTokens_of_course hcourse'
    rw [hfirst, hsecond, Reader.position, Reader.position, ← Array.length_toList, htaken,
      ← Array.length_toList, htaken']
    exact ⟨halike.outcome "" "", hlength⟩
  rcases hcourse.ended_or_passed with hothers | ⟨c, ws', hleads, rfl, hrest⟩
  · -- reading ends in front of the terminator
    obtain ⟨s'', hcourse'⟩ := hothers (t' :: vs)
    exact ⟨ws, e, s'', hcourse', .refl e, rfl⟩
  · have hsame := Standing.push_terminator (hleads.place_eq_none hout) ht ht'
    cases hrest with
    | missing hnext => cases hnext
    | complete hnext hpush =>
      cases hnext
      obtain ⟨_, hpush', hagrees⟩ := hsame.of_complete hpush
      exact ⟨_, _, _, hleads.course (.complete rfl hpush'), .complete hagrees, rfl⟩
    | refused hnext hpush =>
      cases hnext
      obtain ⟨_, hpush', hkind, hexpected⟩ := hsame.of_refused hpush
      exact ⟨_, _, _, hleads.course (.refused rfl hpush'), .refused hkind hexpected, rfl⟩
    | further hnext hpush hrest =>
      cases hnext
      obtain ⟨c', hpush', hcontent⟩ := hsame.of_further hpush
      -- the rest is read at a standing with the same content
      obtain ⟨e', hrest', halike⟩ := hrest.alike hcontent
      exact ⟨_, e', _, hleads.course (.further rfl hpush' hrest'), halike, by simp⟩

end Single

/-! ### Any number of line breaks -/

/-- What each single change preserves is preserved by any number of changes there and back. -/
theorem of_eqvGen {α : Type} {R S : α → α → Prop} (hS : Equivalence S) (h : ∀ a b, R a b → S a b)
    {a b : α} (hab : Relation.EqvGen R a b) : S a b :=
  hS.eqvGen_iff.mp (hab.mono h)

/-- A reading agrees with itself. -/
theorem outcomesAgree_refl (ts : List Token) :
    OutcomesAgree (readTokens ts).1 (readTokens ts).1 := by
  obtain ⟨us, e, s', hcourse⟩ := exists_course .unread (⟨ts, ""⟩ : TokenList)
  rw [(readTokens_of_course hcourse).1]
  exact (Ending.Alike.refl e).outcome "" ""

/-- So do any number of them, put in or left out. -/
theorem loosens_runs {ts ts' : List Token} (h : Relation.EqvGen Loosens ts ts') :
    (readTokens ts).1 = (readTokens ts').1 ∧
      (readTokens ts).2.ahead = (readTokens ts').2.ahead ∧
      Relation.EqvGen Loosens (readTokens ts).2.taken.toList (readTokens ts').2.taken.toList := by
  refine of_eqvGen (S := fun ts ts' => (readTokens ts).1 = (readTokens ts').1 ∧
    (readTokens ts).2.ahead = (readTokens ts').2.ahead ∧
    Relation.EqvGen Loosens (readTokens ts).2.taken.toList (readTokens ts').2.taken.toList)
    ⟨fun ts => ⟨rfl, rfl, .refl _⟩, ?_, ?_⟩ (fun _ _ => loosens_run) h
  · rintro ts ts' ⟨hout, hahead, htaken⟩
    exact ⟨hout.symm, hahead.symm, htaken.symm⟩
  · rintro ts ts' ts'' ⟨hout, hahead, htaken⟩ ⟨hout', hahead', htaken'⟩
    exact ⟨hout.trans hout', hahead.trans hahead', htaken.trans _ _ _ htaken'⟩

/-- So any number of terminators may be exchanged outside of argument lists. -/
theorem reterminates_runs {ts ts' : List Token} (h : Relation.EqvGen Reterminates ts ts') :
    OutcomesAgree (readTokens ts).1 (readTokens ts').1 ∧
      (readTokens ts).2.position = (readTokens ts').2.position := by
  refine of_eqvGen (S := fun ts ts' => OutcomesAgree (readTokens ts).1 (readTokens ts').1 ∧
    (readTokens ts).2.position = (readTokens ts').2.position)
    ⟨fun ts => ⟨outcomesAgree_refl ts, rfl⟩, ?_, ?_⟩ (fun _ _ => reterminates_run) h
  · rintro ts ts' ⟨hout, hposition⟩
    exact ⟨hout.symm, hposition.symm⟩
  · rintro ts ts' ts'' ⟨hout, hposition⟩ ⟨hout', hposition'⟩
    exact ⟨hout.trans hout', hposition.trans hposition'⟩

/-! ### Line breaks in a verb -/

section Verb

variable {us : List Token} {t : Token}

/-- A token that is refused behind tokens that are passed. -/
theorem readTokens_of_refused {c : Standing} {problem : Problem} (h : Standing.unread.Leads us c)
    (hpush : c.push t = .refused problem) (vs : List Token) :
    (readTokens (us ++ t :: vs)).1 =
        .error (.refused (problem.report t.location t.describe "")) ∧
      (readTokens (us ++ t :: vs)).2.taken.toList = us := by
  have hcourse := h.course (.refused (s := (⟨t :: vs, ""⟩ : TokenList)) rfl hpush)
  obtain ⟨hout, htaken, -⟩ := readTokens_of_course hcourse
  exact ⟨hout, by rw [htaken, List.append_nil]⟩

/-- Between an at sign and a name a line break is refused. -/
theorem refused_behind_sign (hsign : EndsInSign us) (hpasses : Passes us) (ht : t.kind = .newline)
    (vs : List Token) :
    ∃ d, (readTokens (us ++ t :: vs)).1 = .error (.refused d) ∧ d.kind = .invalidIdentifier ∧
      d.expected = some "identifier" ∧ d.location = t.location ∧
      (readTokens (us ++ t :: vs)).2.taken.toList = us := by
  obtain ⟨c, hleads⟩ := passes_iff_leads.mp hpasses
  obtain ⟨nest, first, read, l, rfl⟩ := hleads.exists_sign hsign
  have hpush : (Standing.within nest (.sign first read l)).push t = .refused .noVerbName := by
    rw [Standing.push, if_neg (by simp [ht])]
  obtain ⟨hout, htaken⟩ := readTokens_of_refused hleads hpush vs
  exact ⟨_, hout, rfl, rfl, rfl, htaken⟩

/-- Behind a name a line break completes the statement. -/
theorem leads_behind_name (hname : EndsInName us) (hpasses : Passes us) (ht : t.kind = .newline) :
    ∃ nest v, v.arguments = [] ∧ Standing.unread.Leads us (.within nest (.name v)) ∧
      Standing.unread.Leads (us ++ [t])
        (.within (nest.add (.plain v.verbs v.first.location)) .start) := by
  obtain ⟨c, hleads⟩ := passes_iff_leads.mp hpasses
  obtain ⟨nest, v, rfl, hnil⟩ := hleads.exists_name hname
  have hpush : (Standing.within nest (.name v)).push t =
      .further (.within (nest.add (.plain v.verbs v.first.location)) .start) := by
    rw [Standing.push, if_neg (by simp [ht]), Nest.pushVerb_terminator _ _ _ (by rw [ht]; decide)]
  exact ⟨nest, v, hnil, hleads, hleads.append (.cons hpush (.nil _))⟩

/-- A parenthesis starts no statement. -/
theorem exists_refused_of_paren (nest : Nest) (ht : t.kind = .leftParen) :
    ∃ problem, (Standing.within nest .start).push t = .refused problem := by
  have hterminator : t.kind ∉ TokenKind.terminators := by rw [ht]; decide
  have hpush : (Standing.within nest .start).push t =
      (nest.add (.plain [] t.location)).pushEnd t := by
    show nest.pushVerb t [] t = _
    simp [Nest.pushVerb, ht]
  rw [hpush]
  rcases nest.add (.plain [] t.location) with ⟨first, statements, _ | ⟨scope, outer⟩⟩
  · rw [Nest.pushEnd_outermost hterminator]
    simp [ht]
  · rw [Nest.pushEnd_inside hterminator]
    simp [ht]

/-- So a parenthesis behind that line break is refused. -/
theorem refused_behind_break (hname : EndsInName us) (hpasses : Passes us) (ht : t.kind = .newline)
    {paren : Token} (hparen : paren.kind = .leftParen) (vs : List Token) :
    ∃ d, (readTokens (us ++ t :: paren :: vs)).1 = .error (.refused d) ∧
      d.kind = (if openBraces us = [] then .unexpectedTrailingInput else .unclosedScope) ∧
      d.location = paren.location ∧
      (readTokens (us ++ t :: paren :: vs)).2.taken.toList = us ++ [t] := by
  obtain ⟨nest, v, -, -, hleads⟩ := leads_behind_name hname hpasses ht
  obtain ⟨problem, hpush⟩ := exists_refused_of_paren _ hparen
  obtain ⟨hout, htaken⟩ := readTokens_of_refused hleads hpush vs
  have htells := hleads.leaves.tellsOf hpush
  -- the line break has ended the verb, so neither a sign nor a list is open
  obtain ⟨-, hsign, hlists⟩ := hleads.leaves
  rw [List.append_assoc, List.singleton_append] at hout htaken
  refine ⟨_, hout, ?_, rfl, htaken⟩
  have hbraces : openBraces (us ++ [t]) = openBraces us :=
    openBraces_concat_of_ne (by simp [ht]) (by simp [ht])
  have hscope := htells.scope hsign hlists
  have htrailing := htells.trailing hsign hlists
  rw [hbraces] at hscope htrailing
  show problem.kind = _
  cases hopen : openBraces us with
  | nil => rw [if_pos rfl, htrailing hopen]
  | cons brace outer =>
    rw [if_neg (List.cons_ne_nil _ _), hscope brace outer hopen, if_neg (by simp [hparen])]
    rfl

end Verb

/-- **Line breaks end statements outside of argument lists and mean nothing inside of them.**
    Whatever list of tokens is read, it is refused at the token at the reader's position, if it is.
    Line breaks inside of argument lists, put in or left out in any number, change nothing of what
    comes of a list, and the same token is ahead.  Outside of them line breaks in the place of
    semicolons, and semicolons in the place of line breaks, change places only: queries agree, and
    errors of one kind, for which the same was looked for, are found at the same position.  Between
    an at sign and a name a line break is refused.  Between a name and a parenthesis it completes
    the statement, and the parenthesis is refused. -/
theorem breaks_end_statements_outside_lists :
    (∀ ts d, (readTokens ts).1 = .error (.refused d) →
      ∃ t, ts[(readTokens ts).2.position]? = some t ∧ (readTokens ts).2.ahead = some t ∧
        d.location = t.location ∧ d.found = some t.describe) ∧
    (∀ ts ts', Relation.EqvGen Loosens ts ts' →
      (readTokens ts).1 = (readTokens ts').1 ∧
      (readTokens ts).2.ahead = (readTokens ts').2.ahead ∧
      Relation.EqvGen Loosens (readTokens ts).2.taken.toList (readTokens ts').2.taken.toList) ∧
    (∀ ts ts', Relation.EqvGen Reterminates ts ts' →
      OutcomesAgree (readTokens ts).1 (readTokens ts').1 ∧
      (readTokens ts).2.position = (readTokens ts').2.position) ∧
    (∀ us t vs, EndsInSign us → Passes us → t.kind = .newline →
      ∃ d, (readTokens (us ++ t :: vs)).1 = .error (.refused d) ∧ d.kind = .invalidIdentifier ∧
        d.expected = some "identifier" ∧ d.location = t.location ∧
        (readTokens (us ++ t :: vs)).2.taken.toList = us) ∧
    ∀ us t, EndsInName us → Passes us → t.kind = .newline →
      (∃ nest v, v.arguments = [] ∧ Standing.unread.Leads us (.within nest (.name v)) ∧
        Standing.unread.Leads (us ++ [t])
          (.within (nest.add (.plain v.verbs v.first.location)) .start)) ∧
      ∀ paren vs, paren.kind = .leftParen →
        ∃ d, (readTokens (us ++ t :: paren :: vs)).1 = .error (.refused d) ∧
          d.kind = (if openBraces us = [] then .unexpectedTrailingInput else .unclosedScope) ∧
          d.location = paren.location ∧
          (readTokens (us ++ t :: paren :: vs)).2.taken.toList = us ++ [t] :=
  ⟨fun _ _ => refused_at_position, fun _ _ => loosens_runs, fun _ _ => reterminates_runs,
    fun _ _ vs hsign hpasses ht => refused_behind_sign hsign hpasses ht vs,
    fun _ _ hname hpasses ht => ⟨leads_behind_name hname hpasses ht,
      fun _ vs hparen => refused_behind_break hname hpasses ht hparen vs⟩⟩

/-- A verb with an argument list, with a line break behind the parenthesis and in front of it. -/
theorem breaks_end_statements_outside_lists_of_verb :
    let verb : List Token := [TokenKind.atSign.mark, ⟨.identifier, "f", {}⟩]
    let paren := TokenKind.leftParen.mark
    let rest : List Token := [⟨.identifier, "a", {}⟩, TokenKind.equals.mark, ⟨.string, "x", {}⟩,
      TokenKind.rightParen.mark, TokenKind.endOfInput.mark]
    let newline := TokenKind.newline.mark
    (readTokens (verb ++ paren :: rest)).1 = (readTokens (verb ++ paren :: newline :: rest)).1 ∧
      (readTokens (verb ++ paren :: rest)).1.isOk = true ∧
      ∃ d, (readTokens (verb ++ newline :: paren :: rest)).1 = .error (.refused d) ∧
        d.kind = .unexpectedTrailingInput := by
  intro verb paren rest newline
  obtain ⟨-, hlists, -, -, hnames⟩ := breaks_end_statements_outside_lists
  have hname : EndsInName verb := ⟨[], _, _, rfl, rfl, rfl⟩
  have hloosens : Loosens (verb ++ paren :: rest) (verb ++ paren :: newline :: rest) :=
    ⟨verb ++ [paren], rest, [], newline, by simp, by simp, rfl,
      verb, paren, rfl, hname, rfl, by simp⟩
  obtain ⟨hsame, -, -⟩ := hlists _ _ (.rel _ _ hloosens)
  have hpasses : Passes verb := passes_iff_leads.mpr ⟨_, .cons rfl (.cons rfl (.nil _))⟩
  obtain ⟨-, hparen⟩ := hnames verb newline hname hpasses rfl
  obtain ⟨d, hd, hkind, -, -⟩ := hparen paren rest rfl
  exact ⟨hsame, by decide +kernel, d, hd, hkind⟩

end ScopedQuery
