import ScopedQuery.Proofs.Places

namespace ScopedQuery

open Text

/-!
# Trees at their places

The nodes of a tree that was read from a text are found in that text.  A statement begins where its
first verb does, or its scope, so nodes may share a place; each of the places counted once, they
follow one another as the nodes do.

* `Text.Holds`, `Text.ClosesAt` — what stands at a place of a text.
* `Verb.Placed`, `Statement.Placed` — the nodes of a tree are where their characters are.
* `StartsBehind` — the tokens behind which a statement starts.
* `Statement.places`, `Statement.anchors` — the places of all nodes, and each place once.
* `Query.Placed.pairwise` — what it means for a tree that its places follow one another.
-/

/-! ### Nodes and characters -/

/-- The text has the characters at the place. -/
def Text.Holds (source : List Char) (l : Location) (chars : List Char) : Prop :=
  ∃ before after, Cut source l before (chars ++ after)

/-- At the place there is a character that can follow a statement, or the end of the text. -/
def Text.ClosesAt (source : List Char) (l : Location) : Prop :=
  ∃ before after, Cut source l before after ∧
    ∀ c ∈ after.head?, c = ';' ∨ c = '\r' ∨ c = '\n' ∨ c = '}'

/-- The argument is where its name is, all of it. -/
def Argument.Placed (source : List Char) (a : Argument) : Prop :=
  ∃ before after, Cut source a.location before (a.name.toList ++ after) ∧ EndsName after

/-- The verb is where its at sign is, or its string. -/
def Verb.Placed (source : List Char) : Verb → Prop
  | .named _ arguments l => Holds source l ['@'] ∧ ∀ a ∈ arguments, a.Placed source
  | .filter pattern l => Holds source l ('"' :: (pattern.toList ++ ['"']))

/-- A statement starts behind the tokens: there are none, or the last one is a terminator or an
    opening brace.  A line break inside of parentheses is no terminator. -/
def StartsBehind (ts : List Token) : Prop :=
  insideAll false ts = false ∧
    ∀ t ∈ ts.getLast?, t.kind ∈ TokenKind.leftBrace :: TokenKind.terminators

/-- The statement is where its first verb is, and without verbs where its scope is.  Without both it
    is where the token that closes it is, the first one behind its start.  The statements in its
    scope are at their places, too. -/
inductive Statement.Placed (source : List Char) (ts : List Token) : Statement → Prop
  | empty {before after : List Token} {t : Token} :
    ts = before ++ t :: after → StartsBehind before → ClosesAt source t.location →
    Placed source ts (.plain [] t.location)
  | plain {v : Verb} {verbs : List Verb} :
    (∀ w ∈ v :: verbs, w.Placed source) → Placed source ts (.plain (v :: verbs) v.location)
  | nested {verbs : List Verb} {body : List Statement} {opened l : Location} :
    (∀ v ∈ verbs, v.Placed source) → Holds source opened ['{'] →
    (verbs.map Verb.location ++ [opened]).head? = some l →
    (∀ s ∈ body, Placed source ts s) → Placed source ts (.nested verbs body opened l)

/-- The query is where its first statement is. -/
structure Query.Placed (source : List Char) (ts : List Token) (q : Query) : Prop where
  statements : ∀ s ∈ q.statements, s.Placed source ts
  first : q.statements.head?.map Statement.location = some q.location

/-! ### Places of nodes -/

/-- The places of a verb and of its arguments. -/
def Verb.places : Verb → List Location
  | .named _ arguments l => l :: arguments.map Argument.location
  | .filter _ l => [l]

mutual

/-- The places of a statement and of all nodes in it. -/
def Statement.places : Statement → List Location
  | .plain verbs l => l :: verbs.flatMap Verb.places
  | .nested verbs body opened l =>
    l :: (verbs.flatMap Verb.places ++ opened :: Statement.placesIn body)

/-- The places of the statements of a list and of all nodes in them. -/
def Statement.placesIn : List Statement → List Location
  | [] => []
  | s :: rest => s.places ++ Statement.placesIn rest

end

mutual

/-- The places of the verbs, arguments and scopes in a statement, and of the statements that have
    none of them. -/
def Statement.anchors : Statement → List Location
  | .plain [] l => [l]
  | .plain (v :: verbs) _ => (v :: verbs).flatMap Verb.places
  | .nested verbs body opened _ => verbs.flatMap Verb.places ++ opened :: Statement.anchorsIn body

/-- The same places in the statements of a list. -/
def Statement.anchorsIn : List Statement → List Location
  | [] => []
  | s :: rest => s.anchors ++ Statement.anchorsIn rest

end

/-- The places in a list are those of its statements, in order. -/
theorem Statement.placesIn_eq_flatMap (body : List Statement) :
    placesIn body = body.flatMap places := by
  induction body with
  | nil => rfl
  | cons s rest ih => rw [placesIn, ih, List.flatMap_cons]

/-- So are its anchors. -/
theorem Statement.anchorsIn_eq_flatMap (body : List Statement) :
    anchorsIn body = body.flatMap anchors := by
  induction body with
  | nil => rfl
  | cons s rest ih => rw [anchorsIn, ih, List.flatMap_cons]

/-- The anchors of a query. -/
def Query.anchors (q : Query) : List Location := Statement.anchorsIn q.statements

theorem Verb.places_eq_cons (v : Verb) : ∃ inner, v.places = v.location :: inner := by
  cases v with
  | named name arguments l => exact ⟨_, rfl⟩
  | filter pattern l => exact ⟨_, rfl⟩

theorem Statement.location_mem_places (s : Statement) : s.location ∈ s.places := by
  cases s <;> exact List.mem_cons_self

variable {source : List Char} {ts : List Token} {s : Statement} {q : Query}

/-- The first place of verbs with something behind them is that of the first verb. -/
theorem Verb.head?_flatMap_places (verbs : List Verb) (l : Location) (later : List Location) :
    (verbs.flatMap Verb.places ++ l :: later).head? = (verbs.map Verb.location ++ [l]).head? := by
  cases verbs with
  | nil => rfl
  | cons v verbs =>
    obtain ⟨inner, hv⟩ := v.places_eq_cons
    rw [List.flatMap_cons, hv]
    rfl

namespace Statement.Placed

/-- A statement begins at its first anchor. -/
theorem head?_anchors (h : s.Placed source ts) : s.anchors.head? = some s.location := by
  cases h with
  | empty _ _ _ => rfl
  | @plain v verbs _ =>
    obtain ⟨inner, hv⟩ := v.places_eq_cons
    rw [anchors, List.flatMap_cons, hv]
    rfl
  | nested _ _ hfirst _ =>
    rw [anchors, Verb.head?_flatMap_places]
    exact hfirst

/-- Every node is at an anchor. -/
theorem mem_anchors (h : s.Placed source ts) : ∀ l ∈ s.places, l ∈ s.anchors := by
  -- the first anchor of a statement is its own place, the others are those of its parts
  induction h with
  | empty _ _ _ => exact fun l hl => hl
  | @plain v verbs hverbs =>
    have hplain : (Statement.plain (v :: verbs) v.location).Placed source ts := .plain hverbs
    have hhead := hplain.head?_anchors
    rw [places, List.forall_mem_cons]
    exact ⟨List.mem_of_head? hhead, fun l hl => hl⟩
  | @nested verbs body opened l hverbs hopened hfirst hbody ih =>
    have hhead := (Placed.nested hverbs hopened hfirst hbody).head?_anchors
    rw [places, List.forall_mem_cons]
    refine ⟨List.mem_of_head? hhead, fun l hl => ?_⟩
    rw [anchors, anchorsIn_eq_flatMap]
    rw [placesIn_eq_flatMap] at hl
    simp only [List.mem_append, List.mem_cons, List.mem_flatMap] at hl ⊢
    exact hl.imp_right fun hl => hl.imp_right fun ⟨s, hs, hmem⟩ => ⟨s, hs, ih s hs l hmem⟩

end Statement.Placed

/-! ### Places in the text -/

/-- Where characters are held, the text is cut. -/
theorem Text.Holds.cut {l : Location} {chars : List Char} (h : Holds source l chars) :
    ∃ before after, Cut source l before after := by
  obtain ⟨before, after, hcut⟩ := h
  exact ⟨before, _, hcut⟩

/-- So it is cut at every place of a verb that is placed. -/
theorem Verb.Placed.cut {v : Verb} (h : v.Placed source) :
    ∀ l ∈ v.places, ∃ before after, Cut source l before after := by
  cases v with
  | named name arguments l =>
    obtain ⟨hsign, harguments⟩ := h
    rw [places, List.forall_mem_cons, List.forall_mem_map]
    refine ⟨hsign.cut, fun a ha => ?_⟩
    obtain ⟨before, after, hcut, -⟩ := harguments a ha
    exact ⟨before, _, hcut⟩
  | filter pattern l =>
    rw [places, List.forall_mem_singleton]
    exact Holds.cut h

/-- Every node is at a place of the text. -/
theorem Statement.Placed.cut (h : s.Placed source ts) :
    ∀ l ∈ s.places, ∃ before after, Cut source l before after := by
  have hanchors : ∀ l ∈ s.anchors, ∃ before after, Cut source l before after := by
    induction h with
    | empty _ _ hcloses =>
      obtain ⟨before, after, hcut, -⟩ := hcloses
      rw [anchors, List.forall_mem_singleton]
      exact ⟨before, after, hcut⟩
    | plain hverbs =>
      rw [anchors, List.forall_mem_flatMap]
      exact fun v hv => (hverbs v hv).cut
    | nested hverbs hopened _ _ ih =>
      rw [anchors, anchorsIn_eq_flatMap, List.forall_mem_append, List.forall_mem_cons,
        List.forall_mem_flatMap, List.forall_mem_flatMap]
      exact ⟨fun v hv => (hverbs v hv).cut, hopened.cut, ih⟩
  exact fun l hl => hanchors l (h.mem_anchors l hl)

/-! ### Lists of statements at any depth -/

namespace Statement

variable {list : List Statement}

/-- A list in the statements of another one is that list, or is in one of its statements. -/
theorem mem_lists_iff {body : List Statement} :
    list ∈ body :: allListsIn body ↔ list = body ∨ ∃ s ∈ body, list ∈ s.allLists := by
  rw [allListsIn_eq_flatMap, List.mem_cons, List.mem_flatMap]

/-- The statements of every list inside of a placed one are placed. -/
theorem Placed.of_mem_allLists (h : s.Placed source ts) (hlist : list ∈ s.allLists) :
    ∀ s' ∈ list, s'.Placed source ts := by
  induction h with
  | empty _ _ _ => cases hlist
  | plain _ => cases hlist
  | nested _ _ _ hbody ih =>
    rcases mem_lists_iff.mp hlist with rfl | ⟨s', hs', hlist⟩
    · exact hbody
    · exact ih s' hs' hlist

/-- The anchors of a member are among those of its list, in the same order. -/
theorem anchors_sublist_of_mem {body : List Statement} (hs : s ∈ body) :
    s.anchors.Sublist (body.flatMap anchors) := by
  rw [List.flatMap_def]
  exact List.sublist_flatten_of_mem (List.mem_map_of_mem hs)

/-- The anchors of the lists in a statement are in order among its own. -/
theorem anchors_sublist (hlist : list ∈ s.allLists) :
    (list.flatMap anchors).Sublist s.anchors := by
  induction s using Statement.inductionOn with
  | plain verbs l => cases hlist
  | nested verbs body opened l ih =>
    have hbody : (body.flatMap anchors).Sublist (Statement.nested verbs body opened l).anchors := by
      rw [anchors, anchorsIn_eq_flatMap]
      exact (List.sublist_cons_self opened _).trans (List.sublist_append_right _ _)
    rcases mem_lists_iff.mp hlist with rfl | ⟨s, hs, hlist⟩
    · exact hbody
    · exact (ih s hs hlist).trans ((anchors_sublist_of_mem hs).trans hbody)

/-- The verbs, arguments and the scope of a statement follow one another, and the first statement of
    the scope is behind its brace. -/
theorem Placed.own_pairwise {R : Location → Location → Prop} (h : s.Placed source ts)
    (hsorted : s.anchors.Pairwise R) :
    (s.verbs.flatMap Verb.places ++ (s.scope?.map Query.location).toList).Pairwise R ∧
      ∀ scope ∈ s.scope?, ∀ s' ∈ scope.statements.head?, R scope.location s'.location := by
  cases h with
  | empty _ _ _ => exact ⟨.nil, by simp [scope?]⟩
  | plain hverbs =>
    refine ⟨?_, by simp [scope?]⟩
    rw [scope?, Option.map_none, Option.toList_none, List.append_nil]
    exact hsorted
  | @nested verbs body opened l _ _ _ hbody =>
    rw [anchors, anchorsIn_eq_flatMap] at hsorted
    constructor
    -- without the anchors of the scope's statements, those of the statement's own parts are left
    · refine hsorted.sublist (List.Sublist.append_left ?_ _)
      exact List.singleton_sublist.mpr List.mem_cons_self
    · rintro scope ⟨⟩ s' hs'
      have hmem : s' ∈ body := List.mem_of_head? hs'
      have hlocation : s'.location ∈ s'.anchors := List.mem_of_head? (hbody s' hmem).head?_anchors
      -- everything in the scope is behind its brace, in particular the first statement
      have hbehind := (List.pairwise_cons.mp (List.pairwise_append.mp hsorted).2.1).1
      exact hbehind _ (List.mem_flatMap.mpr ⟨s', hmem, hlocation⟩)

end Statement

namespace Query

variable {list : List Statement}

/-- This holds in every list of a query. -/
theorem Placed.of_mem_allLists (h : q.Placed source ts) (hlist : list ∈ q.allLists) :
    ∀ s ∈ list, s.Placed source ts := by
  rcases Statement.mem_lists_iff.mp hlist with rfl | ⟨s, hs, hlist⟩
  · exact h.statements
  · exact (h.statements s hs).of_mem_allLists hlist

/-- So the anchors of any list of a query are among those of the query, in the same order. -/
theorem anchors_sublist (hlist : list ∈ q.allLists) :
    (list.flatMap Statement.anchors).Sublist q.anchors := by
  rw [anchors, Statement.anchorsIn_eq_flatMap]
  rcases Statement.mem_lists_iff.mp hlist with rfl | ⟨s, hs, hlist⟩
  · exact List.Sublist.refl _
  · exact (Statement.anchors_sublist hlist).trans (Statement.anchors_sublist_of_mem hs)

/-- Where the anchors of a query follow one another, the statements of each list do, and so do the
    parts of each statement. -/
theorem Placed.pairwise {R : Location → Location → Prop} (h : q.Placed source ts)
    (hsorted : q.anchors.Pairwise R) (hlist : list ∈ q.allLists) :
    list.Pairwise (fun s s' => ∀ l ∈ s.places, R l s'.location) ∧
      ∀ s ∈ list,
        (s.verbs.flatMap Verb.places ++ (s.scope?.map Query.location).toList).Pairwise R ∧
        ∀ scope ∈ s.scope?, ∀ s' ∈ scope.statements.head?, R scope.location s'.location := by
  have hplaced := h.of_mem_allLists hlist
  obtain ⟨hown, hsiblings⟩ := List.pairwise_flatMap.mp (hsorted.sublist (anchors_sublist hlist))
  refine ⟨?_, fun s hs => (hplaced s hs).own_pairwise (hown s hs)⟩
  refine hsiblings.imp_of_mem fun {s s'} hs hs' hbetween l hl => ?_
  exact hbetween l ((hplaced s hs).mem_anchors l hl) _
    (List.mem_of_head? (hplaced s' hs').head?_anchors)

end Query

end ScopedQuery
