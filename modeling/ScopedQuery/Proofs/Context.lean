import ScopedQuery.Proofs.Course

namespace ScopedQuery

/-!
# What the tokens before a refusal leave open

Which token is refused, and what is said of it, depends on what the tokens before it have left open:
a verb that has no name yet, an argument list, the innermost of some scopes, or nothing at all.

* `EndsInSign`, `OpensArguments`, `openBraces` — what tokens leave open.
* `argumentPlace?` — what belongs behind the tokens of an argument list.
* `FillsArguments` — no list that the tokens close is empty.
* `Standing.Leaves` — a standing has open what the tokens before it leave open;
  `Standing.Leaves.push` is one more token, `Standing.Leaves.leads` are several.
* `Problem.TellsOf` — a problem tells of what is open.
* `refused_in_context` — so does every refusal.
-/

/-! ### What tokens leave open -/

/-- The last one of the tokens is an at sign. -/
def EndsInSign (us : List Token) : Prop := us.getLast?.map Token.kind = some .atSign

/-- The last ones of the tokens are an at sign and a name. -/
def EndsInName (us : List Token) : Prop :=
  ∃ (before : List Token) (sign name : Token), us = before ++ [sign, name] ∧
    sign.kind = .atSign ∧ name.kind = .identifier

/-- The tokens end inside of an argument list: `inner` follows an opening parenthesis right behind
    an at sign and a name, and does not close it. -/
def OpensArguments (us inner : List Token) : Prop :=
  ∃ (named : List Token) (paren : Token), us = named ++ paren :: inner ∧ EndsInName named ∧
    paren.kind = .leftParen ∧ ∀ t ∈ inner, t.kind ≠ .rightParen

/-- The tokens close all argument lists that they open. -/
def ClosesArguments (us : List Token) : Prop := ∀ inner, ¬ OpensArguments us inner

/-- The opening braces that are not matched, the innermost first: each closing brace matches the
    innermost one. -/
def openBraces (us : List Token) : List Token :=
  us.foldl (fun opened t =>
    match t.kind with
    | .leftBrace => t :: opened
    | .rightBrace => opened.tail
    | _ => opened) []

/-- What belongs at a place of an argument list. -/
inductive ArgumentPlace
  | name
  | equals
  | value
  /-- A comma, or the end of the list. -/
  | comma
deriving DecidableEq

namespace ArgumentPlace

/-- The place behind the last token of a list that is no line break; a list begins with a name.
    Tokens of other kinds are in no list. -/
def behind? : Option TokenKind → Option ArgumentPlace
  | none => some name
  | some .comma => some name
  | some .identifier => some equals
  | some .equals => some value
  | some .string => some comma
  | some _ => none

/-- What is looked for at a place. -/
def expected : ArgumentPlace → String
  | name => "identifier"
  | equals => "'='"
  | value => "quoted string"
  | comma => "',' or ')'"

/-- The kind of error that a token makes at a place. -/
def errorKind (place : ArgumentPlace) (t : Token) : ErrorKind :=
  if place = name ∧ t.kind = .stray then .invalidIdentifier else .malformedArguments

end ArgumentPlace

/-- The place behind the tokens of an argument list, among which line breaks do not count. -/
def argumentPlace? (inner : List Token) : Option ArgumentPlace :=
  ArgumentPlace.behind? ((inner.filter (·.kind ≠ .newline)).getLast?.map Token.kind)

/-- Every argument list that the tokens close has an argument right before its end: it is not
    empty, and no comma ends it. -/
def FillsArguments (us : List Token) : Prop :=
  ∀ (opened inner after : List Token) (close : Token), us = opened ++ close :: after →
    OpensArguments opened inner → close.kind = .rightParen → argumentPlace? inner = some .comma

/-- No argument list is open before the first token. -/
theorem closesArguments_nil : ClosesArguments [] := by
  rintro inner ⟨named, paren, hnil, -⟩
  simp at hnil

theorem fillsArguments_nil : FillsArguments [] := by
  intro opened inner after close hnil
  simp at hnil

/-! ### One more token -/

section Concat

variable {us inner : List Token} {t : Token} {place : ArgumentPlace}

/-- Only the last token counts for an at sign that waits for its name. -/
theorem endsInSign_concat : EndsInSign (us ++ [t]) ↔ t.kind = .atSign := by
  simp [EndsInSign]

/-- Behind a name no at sign waits any more. -/
theorem EndsInName.not_endsInSign (h : EndsInName us) : ¬ EndsInSign us := by
  obtain ⟨before, sign, name, rfl, -, hname⟩ := h
  rw [List.append_cons, endsInSign_concat, hname]
  decide

/-- A name ends the tokens if it stands behind an at sign. -/
theorem EndsInSign.endsInName (h : EndsInSign us) (ht : t.kind = .identifier) :
    EndsInName (us ++ [t]) := by
  obtain ⟨sign, hlast, hsign⟩ := Option.map_eq_some_iff.mp h
  obtain ⟨before, rfl⟩ := List.getLast?_eq_some_iff.mp hlast
  exact ⟨before, sign, t, by simp, hsign, ht⟩

/-- An argument list is open behind one more token if it was open and is not closed by it, or if it
    is opened by it. -/
theorem opensArguments_concat : OpensArguments (us ++ [t]) inner ↔
    (∃ inner', inner = inner' ++ [t] ∧ OpensArguments us inner' ∧ t.kind ≠ .rightParen) ∨
      inner = [] ∧ EndsInName us ∧ t.kind = .leftParen := by
  constructor
  · rintro ⟨named, paren, hus, hnamed, hparen, hinner⟩
    -- the last token is the parenthesis, or one of those behind it
    rcases List.eq_nil_or_concat inner with rfl | ⟨inner', last, rfl⟩
    · obtain ⟨rfl, hlast⟩ := List.append_inj' hus rfl
      obtain rfl := List.singleton_inj.mp hlast
      exact .inr ⟨rfl, hnamed, hparen⟩
    · rw [List.concat_eq_append, ← List.cons_append, ← List.append_assoc] at hus
      obtain ⟨rfl, hlast⟩ := List.append_inj' hus rfl
      obtain rfl := List.singleton_inj.mp hlast
      rw [List.concat_eq_append, List.forall_mem_append, List.forall_mem_singleton] at hinner
      exact .inl ⟨inner', by simp, ⟨named, paren, rfl, hnamed, hparen, hinner.1⟩, hinner.2⟩
  · rintro (⟨inner', rfl, ⟨named, paren, rfl, hnamed, hparen, hinner⟩, ht⟩ | ⟨rfl, hnamed, ht⟩)
    · refine ⟨named, paren, by simp, hnamed, hparen, ?_⟩
      rw [List.forall_mem_append, List.forall_mem_singleton]
      exact ⟨hinner, ht⟩
    · exact ⟨us, t, rfl, hnamed, ht, by simp⟩

/-- Only an opening parenthesis opens an argument list. -/
theorem ClosesArguments.concat (h : ClosesArguments us) (ht : t.kind ≠ .leftParen) :
    ClosesArguments (us ++ [t]) := by
  intro inner hopens
  rcases opensArguments_concat.mp hopens with ⟨inner', -, hinner', -⟩ | ⟨-, -, hparen⟩
  · exact h inner' hinner'
  · exact ht hparen

/-- Tokens go on filling argument lists if a list that the next one closes has an argument last. -/
theorem FillsArguments.concat (h : FillsArguments us)
    (ht : ∀ inner, OpensArguments us inner → t.kind = .rightParen →
      argumentPlace? inner = some .comma) : FillsArguments (us ++ [t]) := by
  intro opened inner after close hus hopens hclose
  -- the list is closed by the last token, or was closed before it
  rcases List.eq_nil_or_concat after with rfl | ⟨after', last, rfl⟩
  · obtain ⟨rfl, hlast⟩ := List.append_inj' hus rfl
    obtain rfl := List.singleton_inj.mp hlast
    exact ht inner hopens hclose
  · rw [List.concat_eq_append, ← List.cons_append, ← List.append_assoc] at hus
    exact h opened inner after' close (List.append_inj_left' hus rfl) hopens hclose

theorem argumentPlace_newline (ht : t.kind = .newline) :
    argumentPlace? (inner ++ [t]) = argumentPlace? inner := by
  simp [argumentPlace?, List.filter_append, ht]

/-- A token that is no line break shows by its kind what has to follow it. -/
theorem argumentPlace_concat (ht : t.kind ≠ .newline) :
    argumentPlace? (inner ++ [t]) = ArgumentPlace.behind? (some t.kind) := by
  simp [argumentPlace?, List.filter_append, ht]

/-- A brace is put on the open ones or takes the innermost one away. -/
theorem openBraces_concat : openBraces (us ++ [t]) =
    match t.kind with
    | .leftBrace => t :: openBraces us
    | .rightBrace => (openBraces us).tail
    | _ => openBraces us := by
  rw [openBraces, List.foldl_append]
  rfl

/-- All other tokens leave the open braces as they are. -/
theorem openBraces_concat_of_ne (hl : t.kind ≠ .leftBrace) (hr : t.kind ≠ .rightBrace) :
    openBraces (us ++ [t]) = openBraces us := by
  rw [openBraces_concat]
  split
  · contradiction
  · contradiction
  · rfl

/-! ### Inside of an argument list -/

/-- The tokens end inside of one argument list only, at a place of it. -/
def StandsAt (us : List Token) (place : ArgumentPlace) : Prop :=
  ¬ EndsInSign us ∧ ∃ inner, (∀ inner', OpensArguments us inner' ↔ inner' = inner) ∧
    argumentPlace? inner = some place

/-- Behind its parenthesis an argument list is at its start. -/
theorem ClosesArguments.standsAt (h : ClosesArguments us) (hname : EndsInName us)
    (ht : t.kind = .leftParen) : StandsAt (us ++ [t]) .name := by
  refine ⟨by simp [endsInSign_concat, ht], [], fun inner' => ?_, rfl⟩
  rw [opensArguments_concat]
  constructor
  · rintro (⟨inner, -, hopens, -⟩ | ⟨hnil, -, -⟩)
    · exact absurd hopens (h inner)
    · exact hnil
  · intro hnil
    exact .inr ⟨hnil, hname, ht⟩

/-- A token that is no parenthesis and no at sign stays inside of the list. -/
theorem StandsAt.concat {place' : ArgumentPlace} (h : StandsAt us place)
    (ht : t.kind ≠ .leftParen ∧ t.kind ≠ .rightParen ∧ t.kind ≠ .atSign)
    (hplace : ∀ inner, argumentPlace? inner = some place →
      argumentPlace? (inner ++ [t]) = some place') : StandsAt (us ++ [t]) place' := by
  obtain ⟨-, inner, hinner, hat⟩ := h
  refine ⟨mt endsInSign_concat.mp ht.2.2, inner ++ [t], fun inner' => ?_, hplace inner hat⟩
  rw [opensArguments_concat]
  constructor
  · rintro (⟨inner₁, rfl, hopens, -⟩ | ⟨-, -, hparen⟩)
    · rw [(hinner inner₁).mp hopens]
    · exact absurd hparen ht.1
  · rintro rfl
    exact .inl ⟨inner, rfl, (hinner inner).mpr rfl, ht.2.1⟩

/-- The place in an argument list is the same behind a line break. -/
theorem StandsAt.newline (h : StandsAt us place) (ht : t.kind = .newline) :
    StandsAt (us ++ [t]) place := by
  refine h.concat (by simp [ht]) fun inner hat => ?_
  rw [argumentPlace_newline ht, hat]

/-- A token that is no line break leads to the place behind it. -/
theorem StandsAt.further {place' : ArgumentPlace} {kind : TokenKind} (h : StandsAt us place)
    (ht : t.kind = kind) (hplace : ArgumentPlace.behind? (some kind) = some place') :
    StandsAt (us ++ [t]) place' := by
  subst ht
  have hkinds : t.kind ≠ .leftParen ∧ t.kind ≠ .rightParen ∧ t.kind ≠ .atSign ∧
      t.kind ≠ .newline := by
    refine ⟨?_, ?_, ?_, ?_⟩ <;> intro hkind <;> rw [hkind] at hplace <;> cases hplace
  refine h.concat ⟨hkinds.1, hkinds.2.1, hkinds.2.2.1⟩ fun inner _ => ?_
  rw [argumentPlace_concat hkinds.2.2.2, hplace]

/-- A closing parenthesis closes the list. -/
theorem closesArguments_of_rightParen (ht : t.kind = .rightParen) :
    ClosesArguments (us ++ [t]) := by
  intro inner hopens
  rcases opensArguments_concat.mp hopens with ⟨-, -, -, hparen⟩ | ⟨-, -, hparen⟩
  · exact hparen ht
  · rw [ht] at hparen
    cases hparen

end Concat

/-! ### Stages of an argument list -/

/-- The place at which a stage is, inside of an argument list. -/
def Stage.place? : Stage → Option ArgumentPlace
  | argument _ => some .name
  | equals _ _ _ => some .equals
  | value _ _ _ => some .value
  | comma _ => some .comma
  | _ => none

/-- What a token can mean at a place of an argument list. -/
inductive Verdict.AtPlace (nest : Nest) (place : ArgumentPlace) (t : Token) : Verdict → Prop
  /-- A line break means nothing. -/
  | newline {stage : Stage} : t.kind = .newline → stage.place? = some place →
    AtPlace nest place t (.further (.within nest stage))
  | further {stage : Stage} : stage.place? ≠ none →
    stage.place? = ArgumentPlace.behind? (some t.kind) →
    AtPlace nest place t (.further (.within nest stage))
  /-- The list is closed. -/
  | closed {first : Token} {read : List Verb} : place = .comma → t.kind = .rightParen →
    AtPlace nest place t (.further (.within nest (.verbs first read)))
  | refused {problem : Problem} : problem.kind = place.errorKind t →
    problem.expected = place.expected → AtPlace nest place t (.refused problem)

/-- Inside of an argument list every token is judged by the place and its own kind only. -/
theorem Standing.atPlace (nest : Nest) {stage : Stage} {place : ArgumentPlace} (t : Token)
    (h : stage.place? = some place) :
    ((within nest stage).push t).AtPlace nest place t := by
  cases stage with
  -- in each place a line break is passed, one kind of token goes on, and all others are refused
  | argument v =>
    obtain rfl := Option.some.inj h
    rw [push]
    split
    case isTrue hkind => exact .newline hkind rfl
    split
    case isTrue hkind => exact .further (by simp [Stage.place?]) (hkind ▸ rfl)
    split
    case isTrue hkind => exact .refused (by simp [ArgumentPlace.errorKind, hkind]; rfl) rfl
    case isFalse hkind => exact .refused (by simp [ArgumentPlace.errorKind, hkind]; rfl) rfl
  | equals v label l =>
    obtain rfl := Option.some.inj h
    rw [push]
    split
    case isTrue hkind => exact .newline hkind rfl
    split
    case isTrue hkind => exact .further (by simp [Stage.place?]) (hkind ▸ rfl)
    exact .refused rfl rfl
  | value v label l =>
    obtain rfl := Option.some.inj h
    rw [push]
    split
    case isTrue hkind => exact .newline hkind rfl
    split
    case isTrue hkind => exact .further (by simp [Stage.place?]) (hkind ▸ rfl)
    exact .refused rfl rfl
  | comma v =>
    -- a comma goes on with the list, and a parenthesis closes it
    obtain rfl := Option.some.inj h
    rw [push]
    split
    case isTrue hkind => exact .newline hkind rfl
    split
    case isTrue hkind => exact .further (by simp [Stage.place?]) (hkind ▸ rfl)
    split
    case isTrue hkind => exact .closed rfl hkind
    exact .refused rfl rfl
  | _ => cases h

/-! ### What a standing has open -/

/-- The tokens leave open what a stage has open. -/
def Stage.Leaves (us : List Token) (stage : Stage) : Prop :=
  match stage, stage.place? with
  | _, some place => StandsAt us place
  | sign _ _ _, none => EndsInSign us ∧ ClosesArguments us
  | name _, none => EndsInName us ∧ ClosesArguments us
  | _, none => ¬ EndsInSign us ∧ ClosesArguments us

/-- The tokens leave open what a standing has open: the scopes of its nest, and what its stage has
    open. -/
def Standing.Leaves (us : List Token) : Standing → Prop
  | unread => us = []
  | within nest stage => openBraces us = nest.scopes.map Scope.brace ∧ stage.Leaves us

section Push

variable {nest : Nest} {first t : Token} {read : List Verb} {us vs inner : List Token}
  {c c' : Standing} {stage : Stage} {place : ArgumentPlace} {problem : Problem}

/-- A stage of an argument list says no more of the tokens before it than where in the list they
    end. -/
theorem Stage.leaves_iff_standsAt (h : stage.place? = some place) :
    stage.Leaves us ↔ StandsAt us place := by
  cases stage <;> cases h <;> rfl

/-- Outside of argument lists all of them are closed. -/
theorem Stage.Leaves.closesArguments (h : stage.Leaves us) (hstage : stage.place? = none) :
    ClosesArguments us := by
  cases stage <;> first | exact h.2 | cases hstage

/-- A statement that is added to its list opens and closes no scope. -/
theorem Nest.braces_add (nest : Nest) (s : Statement) :
    (nest.add s).scopes.map Scope.brace = nest.scopes.map Scope.brace := by
  obtain ⟨first, statements, _ | ⟨scope, outer⟩⟩ := nest <;> rfl

/-- Behind a token that ends a statement the open scopes are those of the open braces, and no
    argument list is open. -/
theorem Nest.leaves_pushEnd (hbraces : openBraces us = nest.scopes.map Scope.brace)
    (hlists : ClosesArguments us) (hpush : nest.pushEnd t = .further c) :
    c.Leaves (us ++ [t]) := by
  cases hpush ▸ nest.atEnd_pushEnd t with
  | terminator hterminator =>
    have hkinds : ∀ kind ∈ TokenKind.terminators, kind ≠ .leftBrace ∧ kind ≠ .rightBrace ∧
        kind ≠ .leftParen ∧ kind ≠ .atSign := by decide
    obtain ⟨hl, hr, hparen, hsign⟩ := hkinds t.kind hterminator
    refine ⟨?_, mt endsInSign_concat.mp hsign, hlists.concat hparen⟩
    rw [openBraces_concat_of_ne hl hr, hbraces]
  | closed hbrace =>
    -- the brace of the innermost scope is matched
    refine ⟨?_, by simp [endsInSign_concat, hbrace], hlists.concat (by simp [hbrace])⟩
    rw [openBraces_concat, hbrace, Nest.braces_add, hbraces]
    rfl

/-- The same holds behind a token that follows the verbs of a statement, which may open a scope as
    well. -/
theorem Nest.leaves_pushVerb (hbraces : openBraces us = nest.scopes.map Scope.brace)
    (hlists : ClosesArguments us) (hpush : nest.pushVerb first read t = .further c) :
    c.Leaves (us ++ [t]) := by
  cases hpush ▸ nest.atVerb_pushVerb first read t with
  | sign hsign =>
    refine ⟨?_, endsInSign_concat.mpr hsign, hlists.concat (by simp [hsign])⟩
    rw [openBraces_concat_of_ne (by simp [hsign]) (by simp [hsign]), hbraces]
  | string hstring =>
    refine ⟨?_, by simp [endsInSign_concat, hstring], hlists.concat (by simp [hstring])⟩
    rw [openBraces_concat_of_ne (by simp [hstring]) (by simp [hstring]), hbraces]
  | opened hbrace =>
    -- one more brace is open
    refine ⟨?_, by simp [endsInSign_concat, hbrace], hlists.concat (by simp [hbrace])⟩
    rw [openBraces_concat, hbrace, hbraces]
    rfl
  | ended hend =>
    have hbraces' := (nest.braces_add (.plain read first.location)).symm
    exact leaves_pushEnd (hbraces.trans hbraces') hlists hend

/-- Inside of an argument list no brace is passed. -/
theorem Stage.leaves_atPlace (hbraces : openBraces us = nest.scopes.map Scope.brace)
    (h : StandsAt us place) (hpush : (Verdict.further c).AtPlace nest place t) :
    c.Leaves (us ++ [t]) := by
  have hkept (hl : t.kind ≠ .leftBrace) (hr : t.kind ≠ .rightBrace) :
      openBraces (us ++ [t]) = nest.scopes.map Scope.brace := by
    rw [openBraces_concat_of_ne hl hr, hbraces]
  cases hpush with
  | @newline stage hkind hstage =>
    refine ⟨hkept (by simp [hkind]) (by simp [hkind]), ?_⟩
    exact (Stage.leaves_iff_standsAt hstage).mpr (h.newline hkind)
  | @further stage hsome hstage =>
    obtain ⟨place', hplace'⟩ := Option.ne_none_iff_exists'.mp hsome
    have hbehind := hstage.symm.trans hplace'
    refine ⟨hkept ?_ ?_, (Stage.leaves_iff_standsAt hplace').mpr (h.further rfl hbehind)⟩
    -- a brace has no place that it leads to
    all_goals
      intro hkind
      rw [hkind] at hbehind
      cases hbehind
  | closed _ hkind =>
    refine ⟨hkept (by simp [hkind]) (by simp [hkind]), ?_, closesArguments_of_rightParen hkind⟩
    simp [endsInSign_concat, hkind]

/-- One more token leaves open what the standing behind it has open. -/
theorem Standing.Leaves.push (h : c.Leaves us) (hpush : c.push t = .further c') :
    c'.Leaves (us ++ [t]) := by
  cases c with
  | unread =>
    obtain rfl : us = [] := h
    exact Nest.leaves_pushVerb rfl closesArguments_nil hpush
  | within nest stage =>
    obtain ⟨hbraces, hstage⟩ := h
    -- inside of an argument list only its place counts
    cases hplace : stage.place? with
    | some place =>
      refine Stage.leaves_atPlace hbraces ((Stage.leaves_iff_standsAt hplace).mp hstage) ?_
      exact hpush ▸ atPlace nest t hplace
    | none =>
      have hlists := hstage.closesArguments hplace
      cases stage with
      | start => exact Nest.leaves_pushVerb hbraces hlists hpush
      | verbs first read => exact Nest.leaves_pushVerb hbraces hlists hpush
      | complete => exact Nest.leaves_pushEnd hbraces hlists hpush
      | sign first read l =>
        -- only a name goes on behind the sign, which is not the last token any more
        rw [Standing.push] at hpush
        split at hpush
        case isFalse => cases hpush
        case isTrue hkind =>
          obtain rfl := Verdict.further.inj hpush
          refine ⟨?_, hstage.1.endsInName hkind, hlists.concat (by simp [hkind])⟩
          rw [openBraces_concat_of_ne (by simp [hkind]) (by simp [hkind]), hbraces]
      | name v =>
        -- a parenthesis opens the argument list of the name
        rw [Standing.push] at hpush
        split at hpush
        case isFalse => exact Nest.leaves_pushVerb hbraces hlists hpush
        case isTrue hkind =>
          obtain rfl := Verdict.further.inj hpush
          refine ⟨?_, hlists.standsAt hstage.1 hkind⟩
          rw [openBraces_concat_of_ne (by simp [hkind]) (by simp [hkind]), hbraces]
      | _ => cases hplace

/-- A parenthesis closes an argument list only where an argument or a comma would go on with it. -/
theorem Standing.Leaves.argumentPlace (h : c.Leaves us) (hpush : c.push t = .further c')
    (hopens : OpensArguments us inner) (ht : t.kind = .rightParen) :
    argumentPlace? inner = some .comma := by
  cases c with
  | unread =>
    obtain rfl : us = [] := h
    exact absurd hopens (closesArguments_nil inner)
  | within nest stage =>
    cases hplace : stage.place? with
    | none => exact absurd hopens (h.2.closesArguments hplace inner)
    | some place =>
      obtain ⟨-, inner', hinner', hat⟩ := (Stage.leaves_iff_standsAt hplace).mp h.2
      obtain rfl := (hinner' inner).mp hopens
      have hverdict := hpush ▸ atPlace nest t hplace
      cases hverdict with
      | newline hkind _ => simp [ht] at hkind
      | further hsome hbehind => exact absurd (hbehind.trans (by rw [ht]; rfl)) hsome
      | closed hcomma _ => rw [hat, hcomma]

end Push

/-- Behind all tokens that lead to it, a standing has open what they leave open, and they have
    filled the argument lists that they close. -/
theorem Standing.Leaves.leads {c c' : Standing} {us vs : List Token} (h : c.Leaves us)
    (hfills : FillsArguments us) (hleads : c.Leads vs c') :
    c'.Leaves (us ++ vs) ∧ FillsArguments (us ++ vs) := by
  induction hleads generalizing us with
  | nil =>
    rw [List.append_nil]
    exact ⟨h, hfills⟩
  | @cons _ _ _ t ts hpush _ ih =>
    have hnext := hfills.concat fun inner hopens ht => h.argumentPlace hpush hopens ht
    rw [List.append_cons]
    exact ih (h.push hpush) hnext

/-! ### Refusals -/

/-- A problem that is found at `t`, behind the tokens `us`, tells of what those leave open. -/
structure Problem.TellsOf (us : List Token) (t : Token) (problem : Problem) : Prop where
  sign : EndsInSign us → problem.kind = .invalidIdentifier ∧ problem.expected = "identifier"
  list : ∀ inner, OpensArguments us inner → ∃ place, argumentPlace? inner = some place ∧
    problem.kind = place.errorKind t ∧ problem.expected = place.expected
  /-- The innermost scope is not closed. -/
  scope : ¬ EndsInSign us → ClosesArguments us →
    ∀ brace outer, openBraces us = brace :: outer →
      problem = if t.kind = .endOfInput then .openScope brace.location
        else .noClosingBrace brace.location
  trailing : ¬ EndsInSign us → ClosesArguments us → openBraces us = [] →
    problem.kind = .unexpectedTrailingInput

section Refused

variable {nest : Nest} {first t : Token} {read : List Verb} {us : List Token} {c : Standing}
  {problem : Problem}

/-- A token that cannot end a statement is refused with the innermost brace that is still open. -/
theorem Nest.tellsOf_pushEnd (hbraces : openBraces us = nest.scopes.map Scope.brace)
    (hlists : ClosesArguments us) (hsign : ¬ EndsInSign us)
    (hpush : nest.pushEnd t = .refused problem) : problem.TellsOf us t := by
  refine ⟨fun h => absurd h hsign, fun inner h => absurd h (hlists inner), fun _ _ => ?_,
    fun _ _ => ?_⟩
  · -- some scope is open
    intro brace outer hopen
    rw [hbraces] at hopen
    cases hpush ▸ nest.atEnd_pushEnd t with
    | openScope hend =>
      obtain ⟨rfl, -⟩ := List.cons.inj hopen
      rw [if_pos hend]
    | noClosingBrace hend =>
      obtain ⟨rfl, -⟩ := List.cons.inj hopen
      rw [if_neg hend]
    | unmatched => cases hopen
    | trailing => cases hopen
  · -- no scope is open
    intro hopen
    rw [hbraces] at hopen
    cases hpush ▸ nest.atEnd_pushEnd t with
    | unmatched => rfl
    | trailing => rfl
    | openScope => cases hopen
    | noClosingBrace => cases hopen

/-- So is one that cannot follow the verbs of a statement. -/
theorem Nest.tellsOf_pushVerb (hbraces : openBraces us = nest.scopes.map Scope.brace)
    (hlists : ClosesArguments us) (hsign : ¬ EndsInSign us)
    (hpush : nest.pushVerb first read t = .refused problem) : problem.TellsOf us t := by
  cases hpush ▸ nest.atVerb_pushVerb first read t with
  | ended hend =>
    have hbraces' := (nest.braces_add (.plain read first.location)).symm
    exact tellsOf_pushEnd (hbraces.trans hbraces') hlists hsign hend

/-- What is refused at a place of an argument list is refused for this place. -/
theorem Problem.tellsOf_of_standsAt {place : ArgumentPlace} (h : StandsAt us place)
    (hkind : problem.kind = place.errorKind t) (hexpected : problem.expected = place.expected) :
    problem.TellsOf us t := by
  obtain ⟨hsign, inner, hinner, hat⟩ := h
  have hopens : OpensArguments us inner := (hinner inner).mpr rfl
  refine ⟨fun h => absurd h hsign, fun inner' h => ?_, fun _ h => absurd hopens (h inner),
    fun _ h => absurd hopens (h inner)⟩
  obtain rfl := (hinner inner').mp h
  exact ⟨place, hat, hkind, hexpected⟩

/-- A token is refused for what the tokens before it leave open. -/
theorem Standing.Leaves.tellsOf (h : c.Leaves us) (hpush : c.push t = .refused problem) :
    problem.TellsOf us t := by
  cases c with
  | unread =>
    obtain rfl : us = [] := h
    exact Nest.tellsOf_pushVerb rfl closesArguments_nil (by simp [EndsInSign]) hpush
  | within nest stage =>
    obtain ⟨hbraces, hstage⟩ := h
    cases hplace : stage.place? with
    | some place =>
      have hverdict := hpush ▸ atPlace nest t hplace
      have hat := (Stage.leaves_iff_standsAt hplace).mp hstage
      cases hverdict with
      | refused hkind hexpected => exact Problem.tellsOf_of_standsAt hat hkind hexpected
    | none =>
      have hlists := hstage.closesArguments hplace
      cases stage with
      | start => exact Nest.tellsOf_pushVerb hbraces hlists hstage.1 hpush
      | verbs first read => exact Nest.tellsOf_pushVerb hbraces hlists hstage.1 hpush
      | complete => exact Nest.tellsOf_pushEnd hbraces hlists hstage.1 hpush
      | name v =>
        rw [Standing.push] at hpush
        split at hpush
        · cases hpush
        · exact Nest.tellsOf_pushVerb hbraces hlists hstage.1.not_endsInSign hpush
      | sign first read l =>
        -- the sign is the last token and no list is open, so only the first part says something
        rw [Standing.push] at hpush
        split at hpush <;> cases hpush
        exact ⟨fun _ => ⟨rfl, rfl⟩, fun inner hopens => absurd hopens (hlists inner),
          fun hsign => absurd hstage.1 hsign, fun hsign => absurd hstage.1 hsign⟩
      | _ => cases hplace

end Refused

/-- **A refusal is decided by the tokens before it**, for every text that the reader refuses.  The
    refused token is the one ahead and the last one that was read, and the error is at its place and
    says that it was found.  Behind an at sign a name was looked for.  Inside of an argument list
    something was looked for that belongs there: the name, the equals sign or the value of an
    argument, or what follows it, and only where a name belongs a stray character is told apart.
    Everywhere else, if a brace is not matched then the innermost such brace is named as the one
    of a scope that is not closed, and if all are matched then the query had to end.  For every
    text, refused or not, an argument list is closed behind an argument only. -/
theorem refused_in_context (source : String) :
    let run := Reader.run source
    let us := run.2.taken.toList
    (∀ d, run.1 = .error (.refused d) →
      ∃ t, run.2.ahead = some t ∧ run.2.tokens.back? = some t ∧
        d.location = t.location ∧ d.found = some t.describe ∧
        (EndsInSign us → d.kind = .invalidIdentifier ∧ d.expected = some "identifier") ∧
        (∀ inner, OpensArguments us inner → ∃ place, argumentPlace? inner = some place ∧
          d.kind = place.errorKind t ∧ d.expected = some place.expected) ∧
        (¬ EndsInSign us → ClosesArguments us →
          (∀ brace outer, openBraces us = brace :: outer → d.kind = .unclosedScope ∧
            d.message = if t.kind = .endOfInput then
              s!"Scope opened at line {brace.location.line}, col {brace.location.col} is never closed"
            else "Expected '\x7d' to close scope opened at " ++
              s!"line {brace.location.line}, col {brace.location.col}") ∧
          (openBraces us = [] → d.kind = .unexpectedTrailingInput))) ∧
    FillsArguments us := by
  intro run us
  obtain ⟨us', e, s', hcourse⟩ := exists_course .unread (Cursor.ofText source)
  obtain ⟨r, hr, -, htaken, hahead⟩ := Step.query_of_course hcourse
  have hrun : run = (e.outcome (TokenFeed.text s'), r) := hr
  obtain ⟨c, hleads, hlast⟩ := hcourse.leads
  have hus : us = us' := by
    show run.2.taken.toList = us'
    rw [hrun, htaken]
  have hstart : Standing.unread.Leaves [] := rfl
  obtain ⟨hleaves, hfills⟩ := hstart.leads fillsArguments_nil hleads
  rw [List.nil_append, ← hus] at hleaves hfills
  refine ⟨fun d hd => ?_, hfills⟩
  rw [hrun] at hd ⊢
  obtain ⟨t, problem, rfl, rfl⟩ := Ending.outcome_eq_refused.mp hd
  have htells := hleaves.tellsOf hlast
  refine ⟨t, hahead, ?_, rfl, rfl, fun hsign => ?_, fun inner hopens => ?_, fun hsign hlists =>
    ⟨fun brace outer hopen => ?_, htells.trailing hsign hlists⟩⟩
  · rw [Reader.tokens, hahead]
    exact Array.back?_push
  · obtain ⟨hkind, hexpected⟩ := htells.sign hsign
    exact ⟨hkind, congrArg some hexpected⟩
  · obtain ⟨place, hat, hkind, hexpected⟩ := htells.list inner hopens
    exact ⟨place, hat, hkind, congrArg some hexpected⟩
  · rw [htells.scope hsign hlists brace outer hopen]
    split <;> exact ⟨rfl, rfl⟩

/-- A parenthesis is found in the first scope, behind a second one that is closed. -/
theorem refused_in_context_of_paren : ∃ d, Query.ofText "\x7b\n\x7b\x7d;)" = .error (.refused d) ∧
    d.kind = .unclosedScope ∧
    d.message = "Expected '\x7d' to close scope opened at line 1, col 1" := by
  obtain ⟨hrefused, -⟩ := refused_in_context "\x7b\n\x7b\x7d;)"
  obtain ⟨d, hd, -⟩ : ∃ d, Query.ofText "\x7b\n\x7b\x7d;)" = .error (.refused d) ∧
      d.location = ⟨5, 2, 4⟩ := exists_of_refusal Diagnostic.location (by decide +kernel)
  obtain ⟨t, hahead, -, -, -, -, -, hscope⟩ := hrefused d hd
  set us := (Reader.run "\x7b\n\x7b\x7d;)").2.taken.toList
  have hkinds : us.map Token.kind
      = [.leftBrace, .newline, .leftBrace, .rightBrace, .semicolon] := by
    decide +kernel
  have hsign : ¬ EndsInSign us := by
    rw [EndsInSign, ← List.getLast?_map, hkinds]
    decide
  have hlists : ClosesArguments us := by
    rintro inner ⟨named, paren, hnamed, ⟨before, sign, name, rfl, -, hname⟩, -⟩
    have hmem : TokenKind.identifier ∈ us.map Token.kind := by
      rw [← hname]
      exact List.mem_map_of_mem (by simp [hnamed])
    rw [hkinds] at hmem
    exact absurd hmem (by decide)
  obtain ⟨brace, outer, hopen⟩ : ∃ brace outer, openBraces us = brace :: outer :=
    List.exists_cons_of_ne_nil (by decide +kernel)
  have hplace : (openBraces us).map Token.location = [⟨0, 1, 1⟩] := by decide +kernel
  have hparen : (Reader.run "\x7b\n\x7b\x7d;)").2.ahead.map Token.kind = some .rightParen := by
    decide +kernel
  rw [hopen, List.map_cons] at hplace
  rw [hahead] at hparen
  obtain ⟨hkind, hmessage⟩ := (hscope hsign hlists).1 brace outer hopen
  rw [Option.some.inj hparen, (List.cons.inj hplace).1] at hmessage
  exact ⟨d, hd, hkind, hmessage⟩

end ScopedQuery
