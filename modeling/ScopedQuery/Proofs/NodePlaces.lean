import ScopedQuery.Proofs.Course
import ScopedQuery.Proofs.Placed

namespace ScopedQuery

open Text

/-!
# Reading puts nodes at their places

Each node is made for a token that has been read: the first one of its characters, or the one behind
an empty statement.  A standing that has come about by reading a text has its parts at their places,
in the order of the text, and one more token keeps it that way.

* `Token.Found` — a token of a text, at its place.
* `Standing.Behind` — the tokens before a standing.
* `Standing.Placed`, `Standing.anchors` — the parts of a standing are at their places, and in which
  order.
* `Verdict.Follows` — what comes of one more token is at its place, behind all the rest.
* `Standing.follows_push` — every token is taken that way.
* `Course.placed` — and so are all tokens of a text.
* `nodes_at_places` — where the nodes of a query are.
-/

variable {source : List Char} {ts : List Token}

/-! ### Tokens of a text -/

namespace Token

variable {t : Token}

/-- The token is one of the text, at the place of its characters. -/
def Found (source : List Char) (t : Token) : Prop :=
  ∃ before after, Cut source t.location before (t.written ++ after) ∧
    (t.Lexeme after ∨ t.kind = .endOfInput ∧ after = [])

/-- A token of a kind with one text is where that text is. -/
theorem Found.holds {kind : TokenKind} {value : String} (h : t.Found source)
    (hkind : t.kind = kind) (hfixed : kind.fixedText? = some value) (hne : kind ≠ .endOfInput) :
    Holds source t.location value.toList := by
  subst hkind
  obtain ⟨before, after, hcut, hlexeme | ⟨hend, -⟩⟩ := h
  · rw [written_of_fixedText hlexeme.spelled hfixed hne] at hcut
    exact ⟨before, after, hcut⟩
  · exact absurd hend hne

/-- An argument is placed at the token of its name. -/
theorem Found.argument (h : t.Found source) (hkind : t.kind = .identifier) (value : String) :
    (⟨t.value, value, t.location⟩ : Argument).Placed source := by
  obtain ⟨before, after, hcut, hlexeme | ⟨hend, -⟩⟩ := h
  · have hends := hlexeme.ends
    simp only [written, EndsBefore, hkind] at hcut hends
    exact ⟨before, after, hcut, hends⟩
  · rw [hkind] at hend
    cases hend

/-- A filter is placed at its string. -/
theorem Found.filter (h : t.Found source) (hkind : t.kind = .string) :
    (Verb.filter t.value t.location).Placed source := by
  obtain ⟨before, after, hcut, -⟩ := h
  simp only [written, hkind] at hcut
  exact ⟨before, after, hcut⟩

/-- What can follow a statement closes it. -/
theorem Found.closes (h : t.Found source) (hkind : t.kind ∈ TokenKind.terminators ∨
    t.kind = .endOfInput ∨ t.kind = .rightBrace) : ClosesAt source t.location := by
  obtain ⟨before, after, hcut, hlexeme | ⟨hend, rfl⟩⟩ := h
  · refine ⟨before, _, hcut, ?_⟩
    have hspelled := hlexeme.spelled
    obtain ⟨kind, value, location⟩ := t
    simp only [TokenKind.terminators, List.mem_cons, List.not_mem_nil, or_false] at hkind
    rcases hkind with (rfl | rfl) | rfl | rfl
    · -- a line break may be written in three ways
      have hvalue : value = "\n" ∨ value = "\r" ∨ value = "\r\n" := by
        simpa [IsSpelled] using hspelled
      rcases hvalue with rfl | rfl | rfl <;> simp [written]
    · rw [written_of_fixedText hspelled rfl (by simp)]
      simp
    · exact absurd rfl hlexeme.kind_ne
    · rw [written_of_fixedText hspelled rfl (by simp)]
      simp
  · exact ⟨before, _, hcut, by simp [written, hend]⟩

end Token

/-! ### Parts of a standing -/

/-- The verbs are at their places, and the statement that they are of begins at `l`, as it does if
    it has no verb and goes on at `here`. -/
structure Verb.Lead (source : List Char) (verbs : List Verb) (here l : Location) : Prop where
  placed : ∀ v ∈ verbs, v.Placed source
  first : (verbs.map Verb.location ++ [here]).head? = some l

namespace Scope

/-- The parts of a scope are at their places, and its statement begins with its first verb or with
    its brace. -/
structure Placed (source : List Char) (ts : List Token) (scope : Scope) : Prop where
  brace : Holds source scope.brace.location ['{']
  lead : Verb.Lead source scope.verbs scope.brace.location scope.owner.location
  statements : ∀ s ∈ scope.statements.toList, s.Placed source ts

/-- The anchors of what has been read of the statement that the scope belongs to. -/
def anchors (scope : Scope) : List Location :=
  scope.verbs.flatMap Verb.places
    ++ scope.brace.location :: scope.statements.toList.flatMap Statement.anchors

variable {scope : Scope} {s : Statement}

/-- A scope takes one more statement that is placed. -/
theorem Placed.add (h : scope.Placed source ts) (hs : s.Placed source ts) :
    (scope.add s).Placed source ts := by
  refine ⟨h.brace, h.lead, ?_⟩
  rw [Scope.add, Array.toList_push, List.forall_mem_append, List.forall_mem_singleton]
  exact ⟨h.statements, hs⟩

/-- So the statement that a scope makes is placed. -/
theorem Placed.statement (h : scope.Placed source ts) : scope.statement.Placed source ts :=
  .nested h.lead.placed h.brace h.lead.first h.statements

/-- The anchors of the statement come behind those of the scope. -/
theorem anchors_add (scope : Scope) (s : Statement) :
    (scope.add s).anchors = scope.anchors ++ s.anchors := by
  simp [anchors, add]

theorem anchors_statement (scope : Scope) : scope.statement.anchors = scope.anchors := by
  rw [statement, Statement.anchors, Statement.anchorsIn_eq_flatMap, anchors]

end Scope

namespace Nest

/-- The statements and the scopes of the nest are at their places. -/
structure Placed (source : List Char) (ts : List Token) (nest : Nest) : Prop where
  statements : ∀ s ∈ nest.statements.toList, s.Placed source ts
  scopes : ∀ scope ∈ nest.scopes, scope.Placed source ts

/-- The anchors of what has been read, the outermost first. -/
def anchors (nest : Nest) : List Location :=
  nest.statements.toList.flatMap Statement.anchors ++ nest.scopes.reverse.flatMap Scope.anchors

/-- The places of the statements of the outermost list, and of those that are being read. -/
def heads (nest : Nest) : List Location :=
  nest.statements.toList.map Statement.location
    ++ nest.scopes.reverse.map fun scope => scope.owner.location

variable {nest : Nest} {s : Statement} {l : Location}

/-- The innermost list of a nest takes one more statement, wherever that list is. -/
theorem Placed.add (h : nest.Placed source ts) (hs : s.Placed source ts) :
    (nest.add s).Placed source ts := by
  obtain ⟨first, statements, _ | ⟨scope, outer⟩⟩ := nest
  · refine ⟨?_, h.scopes⟩
    rw [Nest.add, Array.toList_push, List.forall_mem_append, List.forall_mem_singleton]
    exact ⟨h.statements, hs⟩
  · have hscopes := List.forall_mem_cons.mp h.scopes
    exact ⟨h.statements, List.forall_mem_cons.mpr ⟨hscopes.1.add hs, hscopes.2⟩⟩

/-- Its anchors come last of all in the nest. -/
theorem anchors_add (nest : Nest) (s : Statement) :
    (nest.add s).anchors = nest.anchors ++ s.anchors := by
  obtain ⟨first, statements, _ | ⟨scope, outer⟩⟩ := nest
  · simp [anchors, add]
  · simp [anchors, add, Scope.anchors_add]

theorem first_add (nest : Nest) (s : Statement) : (nest.add s).first = nest.first := by
  obtain ⟨first, statements, _ | ⟨scope, outer⟩⟩ := nest <;> rfl

/-- The first statement stays the first one. -/
theorem head?_heads_add (h : (nest.heads ++ [s.location]).head? = some l) :
    (nest.add s).heads.head? = some l := by
  obtain ⟨first, statements, _ | ⟨scope, outer⟩⟩ := nest
  · simpa [heads, add] using h
  · simpa [heads, add, Scope.add] using h

end Nest

namespace Stage

/-- The anchors of what has been read of a statement. -/
def anchors : Stage → List Location
  | start => []
  | verbs _ read => read.flatMap Verb.places
  | sign _ read l => read.flatMap Verb.places ++ [l]
  | name v => v.verbs.flatMap Verb.places
  | argument v => v.verbs.flatMap Verb.places
  | equals v _ l => v.verbs.flatMap Verb.places ++ [l]
  | value v _ l => v.verbs.flatMap Verb.places ++ [l]
  | comma v => v.verbs.flatMap Verb.places
  | complete => []

/-- The place of the statement that is being read. -/
def heads : Stage → List Location
  | start => []
  | verbs first _ => [first.location]
  | sign first _ _ => [first.location]
  | name v => [v.first.location]
  | argument v => [v.first.location]
  | equals v _ _ => [v.first.location]
  | value v _ _ => [v.first.location]
  | comma v => [v.first.location]
  | complete => []

/-- What has been read of a verb is at its places, and so are the verbs before it. -/
def HasVerbs (source : List Char) (first : Token) (verbs : List Verb) : Prop :=
  (∀ v ∈ verbs, v.Placed source) ∧ (verbs.map Verb.location).head? = some first.location

/-- What has been read of a statement is at its places. -/
def Placed (source : List Char) : Stage → Prop
  | start => True
  | verbs first read => HasVerbs source first read
  | sign first read l => Holds source l ['@'] ∧ Verb.Lead source read l first.location
  | name v => HasVerbs source v.first v.verbs
  | argument v => HasVerbs source v.first v.verbs
  | equals v label l =>
    HasVerbs source v.first v.verbs ∧ (⟨label, "", l⟩ : Argument).Placed source
  | value v label l =>
    HasVerbs source v.first v.verbs ∧ (⟨label, "", l⟩ : Argument).Placed source
  | comma v => HasVerbs source v.first v.verbs
  | complete => True

end Stage

namespace Standing

/-- What has been read is at its places, and the query at that of the first statement. -/
def Placed (source : List Char) (ts : List Token) : Standing → Prop
  | unread => True
  | within nest stage => nest.Placed source ts ∧ stage.Placed source ∧
    (nest.heads ++ stage.heads).head? = some nest.first.location

/-- The anchors of what has been read. -/
def anchors : Standing → List Location
  | unread => []
  | within nest stage => nest.anchors ++ stage.anchors

end Standing

/-! ### The tokens before a standing -/

/-- The tokens can be those that have been read: whether they lead into parentheses, and whether a
    statement starts behind them. -/
def Stage.Behind (us : List Token) : Stage → Prop
  | start => StartsBehind us
  | argument _ => insideAll false us = true
  | equals _ _ _ => insideAll false us = true
  | value _ _ _ => insideAll false us = true
  | comma _ => insideAll false us = true
  | _ => insideAll false us = false

/-- The same for the tokens of a whole text. -/
def Standing.Behind (us : List Token) : Standing → Prop
  | unread => us = []
  | within _ stage => stage.Behind us

section Behind

variable {nest : Nest} {first t : Token} {read : List Verb} {us : List Token} {c c' : Standing}

/-- Outside of parentheses a statement starts behind a terminator, and behind an opening brace. -/
theorem StartsBehind.concat (h : insideAll false us = false)
    (ht : t.kind ∈ TokenKind.leftBrace :: TokenKind.terminators) : StartsBehind (us ++ [t]) := by
  have hkinds : ∀ kind ∈ TokenKind.leftBrace :: TokenKind.terminators,
      kind.insideAfter false = false := by decide
  refine ⟨?_, ?_⟩
  · rw [insideAll_concat, h, hkinds _ ht]
  · rw [List.getLast?_concat]
    rintro u ⟨⟩
    exact ht

/-- A token that is taken behind a statement leaves the parentheses closed, and behind a terminator
    a statement starts. -/
theorem Nest.behind_pushEnd (h : insideAll false us = false)
    (hpush : nest.pushEnd t = .further c) : c.Behind (us ++ [t]) := by
  cases hpush ▸ nest.atEnd_pushEnd t with
  | terminator hterminator => exact .concat h (List.mem_cons_of_mem _ hterminator)
  | closed hbrace =>
    show insideAll false (us ++ [t]) = false
    rw [insideAll_concat, h, hbrace]
    rfl

/-- So does one that is taken behind verbs, and behind a brace a statement starts, too. -/
theorem Nest.behind_pushVerb (h : insideAll false us = false)
    (hpush : nest.pushVerb first read t = .further c) : c.Behind (us ++ [t]) := by
  cases hpush ▸ nest.atVerb_pushVerb first read t with
  | sign hsign =>
    show insideAll false (us ++ [t]) = false
    rw [insideAll_concat, h, hsign]
    rfl
  | string hstring =>
    show insideAll false (us ++ [t]) = false
    rw [insideAll_concat, h, hstring]
    rfl
  | opened hbrace => exact .concat h (hbrace ▸ List.mem_cons_self)
  | ended hend => exact behind_pushEnd h hend

/-- A token that is read inside of an argument list leaves it only if it closes it. -/
theorem Standing.Behind.push (h : c.Behind us) (hpush : c.push t = .further c') :
    c'.Behind (us ++ [t]) := by
  -- only the kind of the token counts, by what it does to the parentheses
  have hinside {inside : Bool} (hus : insideAll false us = inside) {kind : TokenKind}
      (hkind : t.kind = kind) : insideAll false (us ++ [t]) = kind.insideAfter inside := by
    rw [insideAll_concat, hus, hkind]
  cases c with
  | unread =>
    have hnil : us = [] := h
    exact Nest.behind_pushVerb (by rw [hnil]; rfl) hpush
  | within nest stage =>
    cases stage with
    | start => exact Nest.behind_pushVerb h.1 hpush
    | verbs first read => exact Nest.behind_pushVerb h hpush
    | sign first read l =>
      rw [Standing.push] at hpush
      split at hpush
      case isTrue hkind => cases hpush; exact hinside h hkind
      case isFalse => cases hpush
    | name v =>
      rw [Standing.push] at hpush
      split at hpush
      case isTrue hkind => cases hpush; exact hinside h hkind
      case isFalse => exact Nest.behind_pushVerb h hpush
    | complete => exact Nest.behind_pushEnd h hpush
    | _ =>
      rw [Standing.push] at hpush
      -- in an argument list every branch that goes on has found the kind of the token
      repeat' split at hpush
      all_goals cases hpush
      all_goals exact hinside h ‹_›

end Behind

/-! ### One more token -/

/-- The anchors are the old ones, and that of the token may have been added behind them. -/
def Extends (t : Token) (old new : List Location) : Prop := new = old ∨ new = old ++ [t.location]

/-- Whatever a token leads to is at its places, and the anchors are extended by that token. -/
def Verdict.Follows (source : List Char) (ts : List Token) (t : Token) (old : List Location) :
    Verdict → Prop
  | .further c => c.Placed source ts ∧ Extends t old c.anchors
  | .complete q => q.Placed source ts ∧ Extends t old q.anchors
  | .refused _ => True

section Push

variable {nest : Nest} {first t : Token} {read : List Verb} {old : List Location}
  {before after : List Token}

/-- Behind a statement a token leaves all parts at their places, and adds no anchor. -/
theorem Nest.follows_pushEnd (h : nest.Placed source ts)
    (hroot : nest.heads.head? = some nest.first.location) (hold : Extends t old nest.anchors) :
    (nest.pushEnd t).Follows source ts t old := by
  have hverdict := nest.atEnd_pushEnd t
  -- the verdict is an index of what a token does at the end, so it has to be a variable
  generalize nest.pushEnd t = verdict at hverdict
  cases hverdict with
  | terminator =>
    refine ⟨⟨h, trivial, ?_⟩, ?_⟩
    · rwa [Stage.heads, List.append_nil]
    · rwa [Standing.anchors, Stage.anchors, List.append_nil]
  | @closed first statements scope outer =>
    -- the statement of the scope is complete
    obtain ⟨hscope, houter⟩ := List.forall_mem_cons.mp h.scopes
    have hnest : (⟨first, statements, outer⟩ : Nest).Placed source ts := ⟨h.statements, houter⟩
    refine ⟨⟨hnest.add hscope.statement, trivial, ?_⟩, ?_⟩
    · rw [Stage.heads, List.append_nil, first_add]
      apply head?_heads_add
      simpa [heads, Scope.statement, Statement.location] using hroot
    · rw [Standing.anchors, Stage.anchors, List.append_nil, anchors_add, Scope.anchors_statement]
      simpa [anchors] using hold
  | complete =>
    refine ⟨⟨h.statements, ?_⟩, ?_⟩
    · rw [← List.head?_map]
      simpa [heads, query] using hroot
    · simpa [Query.anchors, query, Statement.anchorsIn_eq_flatMap, anchors] using hold
  | unmatched => trivial
  | trailing => trivial
  | openScope => trivial
  | noClosingBrace => trivial

/-- A token that does not follow statements is refused behind one. -/
theorem Nest.pushEnd_refused (nest : Nest) (h : ¬ (t.kind ∈ TokenKind.terminators ∨
    t.kind = .endOfInput ∨ t.kind = .rightBrace)) :
    ∃ problem, nest.pushEnd t = .refused problem := by
  rw [not_or, not_or] at h
  obtain ⟨hterminator, hend, hbrace⟩ := h
  cases hverdict : nest.pushEnd t with
  | refused problem => exact ⟨problem, rfl⟩
  | further c =>
    cases hverdict ▸ nest.atEnd_pushEnd t with
    | terminator hkind => exact absurd hkind hterminator
    | closed hkind => exact absurd hkind hbrace
  | complete q =>
    cases hverdict ▸ nest.atEnd_pushEnd t with
    | complete hkind => exact absurd hkind hend

/-- What a token means behind verbs.  Where there is none, a statement starts in front of it. -/
theorem Nest.follows_pushVerb (h : nest.Placed source ts)
    (hroot : (nest.heads ++ [first.location]).head? = some nest.first.location)
    (hlead : Verb.Lead source read t.location first.location) (ht : t.Found source)
    (hts : ts = before ++ t :: after) (hstart : read = [] → StartsBehind before) :
    (nest.pushVerb first read t).Follows source ts t
      (nest.anchors ++ read.flatMap Verb.places) := by
  have hverdict := nest.atVerb_pushVerb first read t
  generalize nest.pushVerb first read t = verdict at hverdict
  cases hverdict with
  | sign hsign =>
    have hat : Holds source t.location ['@'] := ht.holds hsign rfl (by simp)
    refine ⟨⟨h, ⟨hat, hlead⟩, hroot⟩, .inr ?_⟩
    rw [Standing.anchors, Stage.anchors, List.append_assoc]
  | string hstring =>
    have hfilter := ht.filter hstring
    refine ⟨⟨h, ⟨?_, ?_⟩, hroot⟩, .inr ?_⟩
    · rw [List.forall_mem_append, List.forall_mem_singleton]
      exact ⟨hlead.placed, hfilter⟩
    · rw [List.map_append]
      exact hlead.first
    · rw [Standing.anchors, Stage.anchors, List.flatMap_append, List.append_assoc]
      rfl
  | opened hbrace =>
    have hopen : Holds source t.location ['{'] := ht.holds hbrace rfl (by simp)
    refine ⟨⟨⟨h.statements, ?_⟩, trivial, ?_⟩, .inr ?_⟩
    · rw [List.forall_mem_cons]
      exact ⟨⟨hopen, hlead, by simp⟩, h.scopes⟩
    · simpa [heads, Stage.heads] using hroot
    · simp [Standing.anchors, Stage.anchors, anchors, Scope.anchors]
  | ended hpush =>
    subst hpush
    by_cases hclosing : t.kind ∈ TokenKind.terminators ∨ t.kind = .endOfInput ∨
        t.kind = .rightBrace
    · -- the statement is complete, and one without verbs is where the token is
      have hroot' : (nest.add (.plain read first.location)).heads.head?
          = some (nest.add (.plain read first.location)).first.location := by
        rw [first_add]
        exact head?_heads_add hroot
      rcases read with _ | ⟨v, verbs⟩
      · have hhere : t.location = first.location := Option.some.inj hlead.first
        have hempty : (Statement.plain [] t.location).Placed source ts :=
          .empty hts (hstart rfl) (ht.closes hclosing)
        refine follows_pushEnd (h.add (hhere ▸ hempty)) hroot' (.inr ?_)
        rw [anchors_add, Statement.anchors, ← hhere, List.flatMap_nil, List.append_nil]
      · have hfirst : v.location = first.location := Option.some.inj hlead.first
        refine follows_pushEnd (h.add (hfirst ▸ .plain hlead.placed)) hroot' (.inl ?_)
        rw [anchors_add, Statement.anchors]
    -- any other token is refused behind a statement, so nothing is placed
    · obtain ⟨problem, hrefused⟩ :=
        (nest.add (.plain read first.location)).pushEnd_refused hclosing
      rw [hrefused]
      trivial

/-- Where the verbs are known and there is one, the statement begins with it. -/
theorem Stage.HasVerbs.lead (h : HasVerbs source first read) (here : Location) :
    Verb.Lead source read here first.location := by
  refine ⟨h.1, ?_⟩
  rw [List.head?_append, h.2]
  rfl

/-- A stage that has verbs has at least the one that its first token opens. -/
theorem Stage.HasVerbs.ne_nil (h : HasVerbs source first read) : read ≠ [] := by
  rintro rfl
  cases h.2

/-- A verb with a name is at its at sign, behind the verbs before it. -/
theorem Verb.Lead.hasVerbs {sign : Location} {v : Verb} (h : Lead source read sign first.location)
    (hv : v.Placed source) (hsign : v.location = sign) :
    Stage.HasVerbs source first (read ++ [v]) := by
  refine ⟨?_, ?_⟩
  · rw [List.forall_mem_append, List.forall_mem_singleton]
    exact ⟨h.placed, hv⟩
  · rw [List.map_append, List.map_singleton, hsign]
    exact h.first

/-- An argument is behind those that have been read. -/
theorem PartialVerb.places_add (v : PartialVerb) (a : Argument) :
    (v.add a).verbs.flatMap Verb.places = v.verbs.flatMap Verb.places ++ [a.location] := by
  simp [verbs, verb, add, Verb.places]

/-- A verb takes one more argument and keeps its place. -/
theorem Stage.HasVerbs.add {v : PartialVerb} {a : Argument}
    (h : HasVerbs source v.first v.verbs) (ha : a.Placed source) :
    HasVerbs source (v.add a).first (v.add a).verbs := by
  obtain ⟨hplaced, hfirst⟩ := h
  rw [PartialVerb.verbs, List.forall_mem_append, List.forall_mem_singleton] at hplaced
  obtain ⟨hread, hsign, harguments⟩ := hplaced
  refine ⟨?_, ?_⟩
  · rw [PartialVerb.verbs, List.forall_mem_append, List.forall_mem_singleton]
    refine ⟨hread, hsign, ?_⟩
    rw [PartialVerb.add, List.forall_mem_append, List.forall_mem_singleton]
    exact ⟨harguments, ha⟩
  · rw [PartialVerb.verbs, List.map_append] at hfirst ⊢
    exact hfirst

/-- A token that adds no node leaves the anchors as they are. -/
theorem Standing.Placed.same {stage stage' : Stage} (h : (within nest stage).Placed source ts)
    (hstage : stage'.Placed source) (hheads : stage'.heads = stage.heads)
    (hanchors : stage'.anchors = stage.anchors) :
    (Verdict.further (within nest stage')).Follows source ts t (within nest stage).anchors := by
  refine ⟨⟨h.1, hstage, hheads ▸ h.2.2⟩, .inl ?_⟩
  rw [anchors, anchors, hanchors]

/-- A token that is read puts its part at its place, behind all that has been read before. -/
theorem Standing.follows_push {c : Standing} (h : c.Placed source ts) (ht : t.Found source)
    (hts : ts = before ++ t :: after) (hbehind : c.Behind before) :
    (c.push t).Follows source ts t c.anchors := by
  cases c with
  | unread =>
    have hnest : Nest.Placed source ts { first := t } := ⟨by simp, by simp⟩
    have hstart : StartsBehind before := by
      rw [show before = [] from hbehind]
      exact ⟨rfl, by simp⟩
    exact Nest.follows_pushVerb hnest rfl ⟨by simp, rfl⟩ ht hts fun _ => hstart
  | within nest stage =>
    have ⟨hnest, hstage, hroot⟩ := h
    cases stage with
    | start =>
      refine Nest.follows_pushVerb hnest ?_ ⟨by simp, rfl⟩ ht hts fun _ => hbehind
      rw [Stage.heads, List.append_nil] at hroot
      rw [List.head?_append, hroot]
      rfl
    | verbs first read =>
      exact Nest.follows_pushVerb hnest hroot (hstage.lead t.location) ht hts
        fun hnil => absurd hnil hstage.ne_nil
    | sign first read l =>
      rw [push]
      by_cases hname : t.kind = .identifier
      · rw [if_pos hname]
        -- the verb is where its sign was, with a name and no arguments so far
        have hverb : (Verb.named t.value [] l).Placed source := ⟨hstage.1, by simp⟩
        refine h.same (hstage.2.hasVerbs hverb rfl) rfl ?_
        simp [Stage.anchors, PartialVerb.verbs, PartialVerb.verb, Verb.places]
      · rw [if_neg hname]
        trivial
    | name v =>
      rw [push]
      by_cases hparen : t.kind = .leftParen
      · rw [if_pos hparen]
        exact h.same hstage rfl rfl
      · rw [if_neg hparen]
        exact Nest.follows_pushVerb hnest hroot (hstage.lead t.location) ht hts
          fun hnil => absurd hnil hstage.ne_nil
    | argument v =>
      -- inside of an argument list only the name adds an anchor, which is that of the argument
      rw [push]
      by_cases hbreak : t.kind = .newline
      · rw [if_pos hbreak]
        exact h.same hstage rfl rfl
      rw [if_neg hbreak]
      by_cases hname : t.kind = .identifier
      · rw [if_pos hname]
        refine ⟨⟨hnest, ⟨hstage, ht.argument hname ""⟩, hroot⟩, .inr ?_⟩
        rw [anchors, anchors, Stage.anchors, Stage.anchors, List.append_assoc]
      · rw [if_neg hname]
        split <;> trivial
    | equals v label l =>
      rw [push]
      by_cases hbreak : t.kind = .newline
      · rw [if_pos hbreak]
        exact h.same hstage rfl rfl
      rw [if_neg hbreak]
      by_cases hequals : t.kind = .equals
      · rw [if_pos hequals]
        exact h.same hstage rfl rfl
      · rw [if_neg hequals]
        trivial
    | value v label l =>
      rw [push]
      by_cases hbreak : t.kind = .newline
      · rw [if_pos hbreak]
        exact h.same hstage rfl rfl
      rw [if_neg hbreak]
      by_cases hvalue : t.kind = .string
      · rw [if_pos hvalue]
        exact h.same (hstage.1.add hstage.2) rfl (v.places_add _)
      · rw [if_neg hvalue]
        trivial
    | comma v =>
      rw [push]
      by_cases hbreak : t.kind = .newline
      · rw [if_pos hbreak]
        exact h.same hstage rfl rfl
      rw [if_neg hbreak]
      by_cases hcomma : t.kind = .comma
      · rw [if_pos hcomma]
        exact h.same hstage rfl rfl
      rw [if_neg hcomma]
      by_cases hparen : t.kind = .rightParen
      · rw [if_pos hparen]
        exact h.same hstage rfl rfl
      · rw [if_neg hparen]
        trivial
    | complete =>
      rw [Stage.heads, List.append_nil] at hroot
      refine Nest.follows_pushEnd hnest hroot (.inl ?_)
      rw [anchors, Stage.anchors, List.append_nil]

end Push

/-! ### All tokens of a text -/

section Text

variable {text : String} {c d : Cursor} {t : Token}

/-- A token that a cursor finds is one of the text, between the cursors before and behind it. -/
theorem Cursor.Whole.found (h : c.Whole text) (hnext : c.nextToken = (.ok t, d)) :
    t.Found text.toList ∧ (c.offset : Int) ≤ t.location.offset ∧
      (d.offset : Int) = t.location.offset + t.written.length := by
  obtain ⟨-, before, hcut, hle, hoffset⟩ := h.token hnext
  obtain ⟨g, -, -, -, -, hfound⟩ := nextToken_eq_ok hnext
  have hplace : t.location.offset = before.length := by rw [hcut.location_eq, locate]
  refine ⟨⟨before, d.rest, hcut, ?_⟩, by omega, by omega⟩
  exact hfound.imp_right fun hend => ⟨hend.1, hend.2.2⟩

/-- The places are in the order of the text, all of them before an offset. -/
structure InOrder (bound : Int) (places : List Location) : Prop where
  pairwise : places.Pairwise fun l l' => l.offset < l'.offset
  lt : ∀ l ∈ places, l.offset < bound

/-- A token that comes behind the places so far leaves them in order. -/
theorem Extends.inOrder {old new : List Location} {bound bound' : Int} (h : Extends t old new)
    (hold : InOrder bound old) (hle : bound ≤ t.location.offset)
    (hlt : t.location.offset < bound') : InOrder bound' new := by
  -- the token is behind the bound, and all old places are before it
  have hbefore : ∀ l ∈ old, l.offset < t.location.offset := by
    intro l hl
    have := hold.lt l hl
    omega
  have hbefore' : ∀ l ∈ old, l.offset < bound' := by
    intro l hl
    have := hbefore l hl
    omega
  rcases h with rfl | rfl
  · exact ⟨hold.pairwise, hbefore'⟩
  · refine ⟨?_, ?_⟩
    · rw [List.pairwise_append]
      refine ⟨hold.pairwise, List.pairwise_singleton _ _, fun l hl l' hl' => ?_⟩
      rw [List.mem_singleton.mp hl']
      exact hbefore l hl
    · rw [List.forall_mem_append, List.forall_mem_singleton]
      exact ⟨hbefore', hlt⟩

/-- A reading that is complete has put all nodes at their places and in order. -/
theorem Course.placed {k : Standing} {before us vs : List Token} {e : Ending ScanFault} {q : Query}
    (h : Course k c us e d) (hc : c.Whole text) (hvs : Feeds c vs) (hts : ts = before ++ vs)
    (hk : k.Placed text.toList ts) (hbehind : k.Behind before) (horder : InOrder c.offset k.anchors)
    (he : e = .complete t q) :
    q.Placed text.toList ts ∧ q.anchors.Pairwise fun l l' => l.offset < l'.offset := by
  -- carried along: the places so far are in order and lie before the cursor
  induction h generalizing before vs with
  | missing _ => cases he
  | refused _ _ => cases he
  | complete hnext hpush =>
    cases he
    obtain ⟨later, rfl, -⟩ := hvs.exists_eq_cons hnext
    obtain ⟨hfound, hle, -⟩ := hc.found hnext
    have hfollows := Standing.follows_push hk hfound hts hbehind
    rw [hpush] at hfollows
    have horder' := hfollows.2.inOrder horder hle (Int.lt_succ _)
    exact ⟨hfollows.1, horder'.pairwise⟩
  | @further _ _ _ _ _ t _ _ hnext hpush _ ih =>
    obtain ⟨later, rfl, hlater⟩ := hvs.exists_eq_cons hnext
    obtain ⟨hfound, hle, hoffset⟩ := hc.found hnext
    have hfollows := Standing.follows_push hk hfound hts hbehind
    rw [hpush] at hfollows
    -- only the end of the input has no characters, and nothing is read behind it
    have hkind : t.kind ≠ .endOfInput := fun hend => Standing.push_endOfInput hend hpush
    have hwritten : 0 < t.written.length := Cursor.length_written_pos hnext hkind
    have hts' : ts = (before ++ [t]) ++ later := by rw [hts, List.append_assoc]; rfl
    exact ih (hc.token hnext).1 (hlater hkind) hts' hfollows.1 (hbehind.push hpush)
      (hfollows.2.inOrder horder hle (by omega)) he

/-- A query that was read is at its place, and so are its nodes in their order. -/
theorem ofText_placed {q : Query} (h : Query.ofText text = .ok q) :
    ∃ ts, (Cursor.ofText text).tokens.1 = .ok ts ∧ q.Placed text.toList ts ∧
      q.anchors.Pairwise fun l l' => l.offset < l'.offset := by
  obtain ⟨us, e, d, hcourse⟩ := exists_course .unread (Cursor.ofText text)
  have hout : e.outcome text = .ok q := (Cursor.ofText_of_course hcourse).symm.trans h
  obtain ⟨last, he⟩ := Ending.outcome_eq_ok.mp hout
  obtain ⟨ts, htokens, -⟩ := (ofText_gives_iff.mp ⟨q, h, (Query.agrees_iff q q).mpr rfl⟩).2
  exact ⟨ts, htokens, hcourse.placed (Cursor.whole_ofText text) (feeds_iff_tokens.mpr htokens) rfl
    trivial rfl ⟨.nil, by simp [Standing.anchors]⟩ he⟩

end Text

/-- **Nodes are at their places and in their order.**  In a query that was read from a text, each
    verb is where its at sign or its string is, each argument where its name is, each scope where
    its brace is, and each statement where its first verb or its scope is.  A statement without both
    is where the token that closes it is, the first one behind its start.  The query is where its
    first statement is.  The line and the column of each node are those of its offset in the text.
    In every list of statements, at any depth, all nodes of a statement come before the next one;
    the verbs and arguments of a statement and its scope follow one another, and the brace of the
    scope comes before the first statement in it. -/
theorem nodes_at_places {text : String} {q : Query} (h : Query.ofText text = .ok q) :
    (∃ ts, (Cursor.ofText text).tokens.1 = .ok ts ∧ q.Placed text.toList ts) ∧
    (∀ l ∈ q.location :: Statement.placesIn q.statements,
      ∃ k ≤ text.length, l = locate text.toList k) ∧
    ∀ list ∈ q.allLists,
      list.Pairwise (fun s s' => ∀ l ∈ s.places, l.offset < s'.location.offset) ∧
      ∀ s ∈ list,
        (s.verbs.flatMap Verb.places ++ (s.scope?.map Query.location).toList).Pairwise
          (fun l l' => l.offset < l'.offset) ∧
        ∀ scope ∈ s.scope?, ∀ s' ∈ scope.statements.head?,
          scope.location.offset < s'.location.offset := by
  obtain ⟨ts, htokens, hplaced, hsorted⟩ := ofText_placed h
  refine ⟨⟨ts, htokens, hplaced⟩, ?_, fun list hlist => hplaced.pairwise hsorted hlist⟩
  have hnodes : ∀ s ∈ q.statements, ∀ l ∈ s.places,
      ∃ k ≤ text.length, l = locate text.toList k := by
    intro s hs l hl
    obtain ⟨before, after, hcut⟩ := (hplaced.statements s hs).cut l hl
    refine ⟨before.length, ?_, hcut.location_eq⟩
    rw [← String.length_toList, hcut.eq_append, List.length_append]
    omega
  rw [List.forall_mem_cons, Statement.placesIn_eq_flatMap, List.forall_mem_flatMap]
  refine ⟨?_, hnodes⟩
  -- the query is where its first statement is
  obtain ⟨s, hs, hlocation⟩ := Option.map_eq_some_iff.mp hplaced.first
  rw [← hlocation]
  exact hnodes s (List.mem_of_head? hs) _ s.location_mem_places

/-- A comment over two lines, an argument, and a scope with two empty statements. -/
theorem nodes_at_places_of_scope :
    ∃ q ts, Query.ofText "\"p\"/*\r\n*/@f(x=\"1\")\x7b;\x7d\r\"q\"" = .ok q ∧
      q.Placed "\"p\"/*\r\n*/@f(x=\"1\")\x7b;\x7d\r\"q\"".toList ts ∧
      q.anchors = [⟨0, 1, 1⟩, ⟨9, 2, 3⟩, ⟨12, 2, 6⟩, ⟨18, 2, 12⟩, ⟨19, 2, 13⟩, ⟨20, 2, 14⟩,
        ⟨22, 3, 1⟩] ∧
      q.statements.Pairwise (fun s s' => ∀ l ∈ s.places, l.offset < s'.location.offset) := by
  have hanchors : (Query.ofText "\"p\"/*\r\n*/@f(x=\"1\")\x7b;\x7d\r\"q\"").toOption.map
      Query.anchors = some [⟨0, 1, 1⟩, ⟨9, 2, 3⟩, ⟨12, 2, 6⟩, ⟨18, 2, 12⟩, ⟨19, 2, 13⟩,
        ⟨20, 2, 14⟩, ⟨22, 3, 1⟩] := by decide +kernel
  obtain ⟨q, hq⟩ : ∃ q, Query.ofText "\"p\"/*\r\n*/@f(x=\"1\")\x7b;\x7d\r\"q\"" = .ok q :=
    exists_of_isOk (by decide +kernel)
  rw [hq] at hanchors
  obtain ⟨⟨ts, -, hplaced⟩, -, horder⟩ := nodes_at_places hq
  exact ⟨q, ts, hq, hplaced, Option.some.inj hanchors, (horder _ List.mem_cons_self).1⟩

end ScopedQuery
