import ScopedQuery.Proofs.Agreement
import ScopedQuery.Proofs.Quoting
import ScopedQuery.Proofs.RoundTrip

namespace ScopedQuery

open Text

/-!
# Terms tell contents apart

Two nodes have the same term exactly if they have the same content.  No term is the beginning of
another one, because every part of a term shows where it ends if its strings do: a list at its
parenthesis, a statement behind its scope.

* `Node.termBy` — terms for any way of quoting; `Node.termBy_quote` says that `Node.term` is one.
* `endsItself_listTerm`, `Statement.endsItself_termBy` and its like — lists and trees.
* `Node.contentHash_unplaced` — hashes leave places out as well.
* `agrees_iff_term_eq` — agreement, terms and hashes of nodes.
-/

/-! ### Lists -/

/-- The characters of a list behind some term of it that is not the only one. -/
def termsBehind : List String → List Char
  | [] => [')']
  | t :: rest => ',' :: ' ' :: (t.toList ++ termsBehind rest)

/-- The characters of a list behind its first term; a comma marks a list of one. -/
def termsBehindFirst : List String → List Char
  | [] => [',', ')']
  | t :: rest => termsBehind (t :: rest)

/-- Each further term stands behind a comma and a blank. -/
theorem termsBehind_eq_flatMap (terms : List String) :
    termsBehind terms = (terms.flatMap fun t => [',', ' '] ++ t.toList) ++ [')'] := by
  induction terms with
  | nil => rfl
  | cons t rest ih => simp [termsBehind, ih]

/-- A list that is not empty is its first term and what is behind that. -/
theorem toList_listTerm_cons (t : String) (rest : List String) :
    (listTerm (t :: rest)).toList = '(' :: (t.toList ++ termsBehindFirst rest) := by
  cases rest with
  | nil => simp [listTerm, termsBehindFirst]
  | cons u rest =>
    rw [termsBehindFirst, termsBehind_eq_flatMap]
    simp [listTerm, String.toList_intercalate, intercalate_cons_eq_flatMap, List.flatMap_map]

section Lists

variable {α β : Type} {text : α → String} {key : α → β} {as bs : List α} {x y : List Char}

/-- Further terms that end themselves can be told apart, and so can what is behind the list. -/
theorem termsBehind_unique (h : ∀ a ∈ as, EndsItself text key a)
    (hsame : termsBehind (as.map text) ++ x = termsBehind (bs.map text) ++ y) :
    as.map key = bs.map key ∧ x = y := by
  induction as generalizing bs with
  | nil =>
    cases bs with
    | nil => simpa [termsBehind] using hsame
    | cons b bs => simp [termsBehind] at hsame
  | cons a as ih =>
    cases bs with
    | nil => simp [termsBehind] at hsame
    | cons b bs =>
      simp only [List.map_cons, termsBehind, List.cons_append, List.append_assoc, List.cons.injEq,
        true_and] at hsame
      -- the first terms are cut off, and what is behind them is a shorter list on both sides
      obtain ⟨hkey, htail⟩ := h a List.mem_cons_self b _ _ hsame
      obtain ⟨hkeys, hrest⟩ := ih (fun a ha => h a (List.mem_cons_of_mem _ ha)) htail
      exact ⟨by rw [List.map_cons, List.map_cons, hkey, hkeys], hrest⟩

/-- The comma of a list of one is followed by the end of the list. -/
theorem termsBehindFirst_unique (h : ∀ a ∈ as, EndsItself text key a)
    (hsame : termsBehindFirst (as.map text) ++ x = termsBehindFirst (bs.map text) ++ y) :
    as.map key = bs.map key ∧ x = y := by
  cases as with
  | nil =>
    cases bs with
    | nil => simpa [termsBehindFirst] using hsame
    | cons b bs => simp [termsBehindFirst, termsBehind] at hsame
  | cons a as =>
    cases bs with
    | nil => simp [termsBehindFirst, termsBehind] at hsame
    | cons b bs => exact termsBehind_unique h hsame

/-- A list shows where it ends if its members do and none of them starts like the end of a list. -/
theorem endsItself_listTerm (h : ∀ a ∈ as, EndsItself text key a)
    (hfirst : ∀ a, ∃ c, (text a).toList.head? = some c ∧ c ≠ ')') :
    EndsItself (fun as => listTerm (as.map text)) (List.map key) as := by
  -- a term is never taken for the parenthesis that closes the list
  have hne (a : α) {z z' : List Char} : (text a).toList ++ z ≠ ')' :: z' := by
    obtain ⟨c, hc, hparen⟩ := hfirst a
    obtain ⟨tail, htail⟩ := List.head?_eq_some_iff.mp hc
    rw [htail]
    exact fun hsame => hparen (List.cons.inj hsame).1
  have hnil : (listTerm []).toList = ['(', ')'] := rfl
  intro bs x y hsame
  dsimp only at hsame
  cases as with
  | nil =>
    cases bs with
    | nil => exact ⟨rfl, List.append_cancel_left hsame⟩
    | cons b bs =>
      -- a list goes on with a term where the other one is closed
      rw [List.map_nil, hnil, List.map_cons, toList_listTerm_cons, List.cons_append,
        List.cons_append, List.cons_append, List.append_assoc] at hsame
      exact absurd (List.cons.inj hsame).2.symm (hne b)
  | cons a as =>
    rw [List.map_cons, toList_listTerm_cons, List.cons_append, List.append_assoc] at hsame
    cases bs with
    | nil =>
      rw [List.map_nil, hnil, List.cons_append] at hsame
      exact absurd (List.cons.inj hsame).2 (hne a)
    | cons b bs =>
      rw [List.map_cons, toList_listTerm_cons, List.cons_append, List.append_assoc] at hsame
      obtain ⟨hkey, htail⟩ := h a List.mem_cons_self b _ _ (List.cons.inj hsame).2
      obtain ⟨hkeys, hrest⟩ :=
        termsBehindFirst_unique (fun a ha => h a (List.mem_cons_of_mem _ ha)) htail
      exact ⟨by rw [List.map_cons, List.map_cons, hkey, hkeys], hrest⟩

end Lists

/-! ### Trees -/

section Terms

variable (shown : String → String)

/-- The argument as a term, with strings as `shown` shows them. -/
def Argument.termBy (a : Argument) : String :=
  "NamedArgument(name=" ++ shown a.name ++ ", value=" ++ shown a.value ++ ")"

/-- The verb as a term, with strings as `shown` shows them. -/
def Verb.termBy : Verb → String
  | .named name arguments _ =>
    "GenericVerb(name=" ++ shown name ++ ", arguments="
      ++ listTerm (arguments.map (Argument.termBy shown)) ++ ")"
  | .filter pattern _ => "Filter(pattern=" ++ shown pattern ++ ")"

/-- The term of a statement, given its verbs and the term of its scope. -/
def statementTermBy (verbs : List Verb) (scope : String) : String :=
  "Statement(verbs=" ++ listTerm (verbs.map (Verb.termBy shown)) ++ ", scope=" ++ scope ++ ")"

mutual

/-- The statement as a term, with strings as `shown` shows them. -/
def Statement.termBy : Statement → String
  | .plain verbs _ => statementTermBy shown verbs "None"
  | .nested verbs body _ _ => statementTermBy shown verbs (queryTerm (Statement.termsBy body))

/-- The statements of a list as terms, with strings as `shown` shows them. -/
def Statement.termsBy : List Statement → List String
  | [] => []
  | s :: rest => s.termBy :: Statement.termsBy rest

end

/-- The query as a term, with strings as `shown` shows them. -/
def Query.termBy (q : Query) : String := queryTerm (Statement.termsBy shown q.statements)

/-- The node as a term, with strings as `shown` shows them. -/
def Node.termBy : Node → String
  | .bare _ => "ASTNode()"
  | .argument a => a.termBy shown
  | .verb v => v.termBy shown
  | .statement s => s.termBy shown
  | .query q => q.termBy shown

/-- Terms of statements are made one by one. -/
theorem Statement.termsBy_eq_map (statements : List Statement) :
    Statement.termsBy shown statements = statements.map (Statement.termBy shown) := by
  induction statements with
  | nil => rfl
  | cons s rest ih => rw [Statement.termsBy, List.map_cons, ih]

/-- This is so for the quoting in use as well. -/
theorem Statement.terms_eq_map (statements : List Statement) :
    Statement.terms statements = statements.map Statement.term := by
  induction statements with
  | nil => rfl
  | cons s rest ih => rw [Statement.terms, List.map_cons, ih]

/-- With the quoting in use, the term of a verb is the one that is written. -/
theorem Verb.termBy_quote (v : Verb) : v.termBy quote = v.term := by
  cases v <;> rfl

/-- The same holds for a statement whose scope is a term already. -/
theorem statementTermBy_quote (verbs : List Verb) (scope : String) :
    statementTermBy quote verbs scope = statementTerm verbs scope := by
  have hverbs : verbs.map (Verb.termBy quote) = verbs.map Verb.term :=
    List.map_congr_left fun v _ => v.termBy_quote
  unfold statementTermBy statementTerm
  rw [hverbs]

/-- By induction over the scopes, the same holds for a statement. -/
theorem Statement.termBy_quote (s : Statement) : s.termBy quote = s.term := by
  induction s using Statement.inductionOn with
  | plain verbs location => rw [Statement.termBy, statementTermBy_quote, Statement.term]
  | nested verbs body opened location ih =>
    rw [Statement.termBy, statementTermBy_quote, Statement.term, Statement.termsBy_eq_map,
      Statement.terms_eq_map, List.map_congr_left ih]

/-- The terms of nodes are those with quoted strings. -/
theorem Node.termBy_quote (a : Node) : a.termBy quote = a.term := by
  cases a with
  | bare => rfl
  | argument a => rfl
  | verb v => exact v.termBy_quote
  | statement s => exact s.termBy_quote
  | query q =>
    show queryTerm _ = queryTerm _
    rw [Statement.termsBy_eq_map, Statement.terms_eq_map, funext Statement.termBy_quote]

/-! ### The parts of terms -/

/-- The characters of an argument's term. -/
theorem Argument.toList_termBy (a : Argument) :
    (a.termBy shown).toList = "NamedArgument(name=".toList ++ ((shown a.name).toList ++
      (", value=".toList ++ ((shown a.value).toList ++ ")".toList))) := by
  unfold Argument.termBy
  simp only [String.toList_append, List.append_assoc]

/-- The characters of the term of a verb with a name. -/
theorem Verb.toList_termBy_named (name : String) (arguments : List Argument) (l : Location) :
    (Verb.termBy shown (.named name arguments l)).toList = "GenericVerb(name=".toList ++
      ((shown name).toList ++ (", arguments=".toList ++
        ((listTerm (arguments.map (Argument.termBy shown))).toList ++ ")".toList))) := by
  unfold Verb.termBy
  simp only [String.toList_append, List.append_assoc]

/-- The characters of a filter's term. -/
theorem Verb.toList_termBy_filter (pattern : String) (l : Location) :
    (Verb.termBy shown (.filter pattern l)).toList =
      "Filter(pattern=".toList ++ ((shown pattern).toList ++ ")".toList) := by
  unfold Verb.termBy
  simp only [String.toList_append, List.append_assoc]

/-- The characters of a statement's term. -/
theorem toList_statementTermBy (verbs : List Verb) (scope : String) :
    (statementTermBy shown verbs scope).toList = "Statement(verbs=".toList ++
      ((listTerm (verbs.map (Verb.termBy shown))).toList ++
        (", scope=".toList ++ (scope.toList ++ ")".toList))) := by
  unfold statementTermBy
  simp only [String.toList_append, List.append_assoc]

/-- The characters of a query's term. -/
theorem toList_queryTerm (statements : List String) :
    (queryTerm statements).toList =
      "Query(statements=".toList ++ ((listTerm statements).toList ++ ")".toList) := by
  unfold queryTerm
  simp only [String.toList_append, List.append_assoc]

/-- The term of a node starts with the first letter of its constructor. -/
theorem Node.head?_termBy (a : Node) :
    (a.termBy shown).toList.head? = a.constructorName.toList.head? := by
  cases a with
  | bare => simp [termBy, constructorName]
  | argument a => simp [termBy, Argument.toList_termBy, constructorName]
  | verb v =>
    cases v with
    | named => simp [termBy, Verb.toList_termBy_named, constructorName]
    | filter => simp [termBy, Verb.toList_termBy_filter, constructorName]
  | statement s =>
    cases s <;> simp [termBy, Statement.termBy, toList_statementTermBy, constructorName]
  | query q => simp [termBy, Query.termBy, toList_queryTerm, constructorName]

end Terms

section EndsItself

variable {shown : String → String} (hshown : ∀ s, EndsItself shown id s)

include hshown

/-- An argument's term ends itself, since the quoted texts in it do. -/
theorem Argument.endsItself_termBy (a : Argument) :
    EndsItself (Argument.termBy shown) Argument.unplaced a := by
  intro b x y hsame
  simp only [Argument.toList_termBy, List.append_assoc] at hsame
  obtain ⟨hname, hsame⟩ := (hshown _).behind hsame
  obtain ⟨hvalue, hsame⟩ := (hshown _).behind hsame
  refine ⟨?_, List.append_cancel_left hsame⟩
  rw [Argument.unplaced, Argument.unplaced, show a.name = b.name from hname,
    show a.value = b.value from hvalue]

/-- So does a verb's term, whose first letter tells what kind of verb it is. -/
theorem Verb.endsItself_termBy (v : Verb) :
    EndsItself (Verb.termBy shown) Verb.unplaced v := by
  have hfirst (a : Argument) : ∃ c, (a.termBy shown).toList.head? = some c ∧ c ≠ ')' :=
    ⟨'N', by simp [Argument.toList_termBy], by decide⟩
  intro w x y hsame
  cases v with
  | named name arguments location =>
    cases w with
    | named name' arguments' location' =>
      simp only [toList_termBy_named, List.append_assoc] at hsame
      -- name, arguments and the closing parenthesis are cut off in turn
      obtain ⟨hname, hsame⟩ := (hshown _).behind hsame
      have hlist : EndsItself (fun as => listTerm (as.map (Argument.termBy shown)))
          (List.map Argument.unplaced) arguments :=
        endsItself_listTerm (fun a _ => Argument.endsItself_termBy hshown a) hfirst
      obtain ⟨harguments, hsame⟩ := hlist.behind hsame
      refine ⟨?_, List.append_cancel_left hsame⟩
      rw [Verb.unplaced, Verb.unplaced, show name = name' from hname, harguments]
    | filter pattern location' =>
      have hletters := congrArg List.head? hsame
      simp [toList_termBy_named, toList_termBy_filter] at hletters
  | filter pattern location =>
    cases w with
    | named name' arguments' location' =>
      have hletters := congrArg List.head? hsame
      simp [toList_termBy_named, toList_termBy_filter] at hletters
    | filter pattern' location' =>
      simp only [toList_termBy_filter, List.append_assoc] at hsame
      obtain ⟨hpattern, hsame⟩ := (hshown _).behind hsame
      refine ⟨?_, List.append_cancel_left hsame⟩
      rw [Verb.unplaced, Verb.unplaced, show pattern = pattern' from hpattern]

/-- A statement shows where its verbs end, and its scope starts there. -/
theorem statementTermBy_unique {verbs verbs' : List Verb} {scope scope' : String}
    {x y : List Char} (hsame : (statementTermBy shown verbs scope).toList ++ x
      = (statementTermBy shown verbs' scope').toList ++ y) :
    verbs.map Verb.unplaced = verbs'.map Verb.unplaced ∧
      scope.toList ++ (")".toList ++ x) = scope'.toList ++ (")".toList ++ y) := by
  have hfirst (v : Verb) : ∃ c, (v.termBy shown).toList.head? = some c ∧ c ≠ ')' := by
    cases v with
    | named => exact ⟨'G', by simp [Verb.toList_termBy_named], by decide⟩
    | filter => exact ⟨'F', by simp [Verb.toList_termBy_filter], by decide⟩
  have hlist : EndsItself (fun vs => listTerm (vs.map (Verb.termBy shown)))
      (List.map Verb.unplaced) verbs :=
    endsItself_listTerm (fun v _ => Verb.endsItself_termBy hshown v) hfirst
  simp only [toList_statementTermBy, List.append_assoc] at hsame
  obtain ⟨hverbs, hsame⟩ := hlist.behind hsame
  exact ⟨hverbs, List.append_cancel_left hsame⟩

omit hshown in
/-- A list of statements shows where it ends if its statements do. -/
theorem queryTerm_unique {as bs : List Statement} {x y : List Char}
    (h : ∀ s ∈ as, EndsItself (Statement.termBy shown) Statement.unplaced s)
    (hsame : (queryTerm (Statement.termsBy shown as)).toList ++ x
      = (queryTerm (Statement.termsBy shown bs)).toList ++ y) :
    as.map Statement.unplaced = bs.map Statement.unplaced ∧ x = y := by
  have hfirst (s : Statement) : ∃ c, (s.termBy shown).toList.head? = some c ∧ c ≠ ')' := by
    cases s <;> exact ⟨'S', by simp [Statement.termBy, toList_statementTermBy], by decide⟩
  simp only [toList_queryTerm, Statement.termsBy_eq_map, List.append_assoc] at hsame
  obtain ⟨hstatements, hsame⟩ := (endsItself_listTerm h hfirst).behind hsame
  exact ⟨hstatements, List.append_cancel_left hsame⟩

omit hshown in
/-- A scope starts with another letter than a missing one. -/
theorem none_ne_queryTerm {statements : List String} {x y : List Char} :
    "None".toList ++ x ≠ (queryTerm statements).toList ++ y := by
  intro hsame
  have hletters := congrArg List.head? hsame
  simp [toList_queryTerm] at hletters

/-- So does a statement's term, by induction over the scopes.  A missing scope cannot be taken for
    one that is there. -/
theorem Statement.endsItself_termBy (s : Statement) :
    EndsItself (Statement.termBy shown) Statement.unplaced s := by
  induction s using Statement.inductionOn with
  | plain verbs location =>
    intro s x y hsame
    cases s with
    | plain verbs' location' =>
      obtain ⟨hverbs, hsame⟩ := statementTermBy_unique hshown hsame
      refine ⟨?_, List.append_cancel_left (List.append_cancel_left hsame)⟩
      rw [Statement.unplaced, Statement.unplaced, hverbs]
    | nested verbs' body' opened' location' =>
      -- behind the same verbs only one of them has a scope
      obtain ⟨-, hsame⟩ := statementTermBy_unique hshown hsame
      exact absurd hsame none_ne_queryTerm
  | nested verbs body opened location ih =>
    intro s x y hsame
    cases s with
    | plain verbs' location' =>
      obtain ⟨-, hsame⟩ := statementTermBy_unique hshown hsame
      exact absurd hsame.symm none_ne_queryTerm
    | nested verbs' body' opened' location' =>
      obtain ⟨hverbs, hsame⟩ := statementTermBy_unique hshown hsame
      obtain ⟨hbody, hsame⟩ := queryTerm_unique ih hsame
      refine ⟨?_, List.append_cancel_left hsame⟩
      rw [Statement.unplaced, Statement.unplaced, Statement.unplacedAll_eq_map,
        Statement.unplacedAll_eq_map, hverbs, hbody]

/-- So does a query's term. -/
theorem Query.endsItself_termBy (q : Query) :
    EndsItself (Query.termBy shown) Query.unplaced q := by
  intro q' x y hsame
  obtain ⟨hstatements, hrest⟩ :=
    queryTerm_unique (fun s _ => Statement.endsItself_termBy hshown s) hsame
  refine ⟨?_, hrest⟩
  rw [Query.unplaced, Query.unplaced, Statement.unplacedAll_eq_map, Statement.unplacedAll_eq_map,
    hstatements]

/-- Nodes with the same term have the same content. -/
theorem Node.unplaced_of_termBy_eq {a b : Node} (hsame : a.termBy shown = b.termBy shown) :
    a.unplaced = b.unplaced := by
  -- nodes of different kinds have terms that start with different letters
  have hletters : a.constructorName.toList.head? = b.constructorName.toList.head? := by
    rw [← a.head?_termBy shown, ← b.head?_termBy shown, hsame]
  have hchars : (a.termBy shown).toList ++ [] = (b.termBy shown).toList ++ [] := by rw [hsame]
  -- for each kind the other node is of the same kind, and the terms of that kind are told apart
  cases a with
  | bare l =>
    cases b with
    | bare l' => rfl
    | verb v => cases v <;> simp [constructorName] at hletters
    | _ => simp [constructorName] at hletters
  | argument a =>
    cases b with
    | argument b =>
      exact congrArg argument (Argument.endsItself_termBy hshown a b _ _ hchars).1
    | verb v => cases v <;> simp [constructorName] at hletters
    | _ => simp [constructorName] at hletters
  | verb v =>
    cases b with
    | verb w => exact congrArg verb (Verb.endsItself_termBy hshown v w _ _ hchars).1
    | _ => cases v <;> simp [constructorName] at hletters
  | statement s =>
    cases b with
    | statement s' =>
      exact congrArg statement (Statement.endsItself_termBy hshown s s' _ _ hchars).1
    | verb v => cases v <;> simp [constructorName] at hletters
    | _ => simp [constructorName] at hletters
  | query q =>
    cases b with
    | query q' => exact congrArg query (Query.endsItself_termBy hshown q q' _ _ hchars).1
    | verb v => cases v <;> simp [constructorName] at hletters
    | _ => simp [constructorName] at hletters

end EndsItself

/-! ### Terms and hashes without places -/

/-- What leaves places out of the members of a list leaves them out of the list. -/
theorem map_map_eq {α β : Type} {g : α → α} {f : α → β} {as : List α}
    (h : ∀ a ∈ as, f (g a) = f a) : (as.map g).map f = as.map f := by
  rw [List.map_map]
  exact List.map_congr_left h

/-- Statements are hashed one by one. -/
theorem Statement.contentHashes_eq_map (h : Hashing) (statements : List Statement) :
    Statement.contentHashes h statements = statements.map (Statement.contentHash h) := by
  induction statements with
  | nil => rfl
  | cons s rest ih => rw [Statement.contentHashes, List.map_cons, ih]

section Unplaced

variable (shown : String → String)

/-- Places do not show in the term of a verb. -/
theorem Verb.termBy_unplaced (v : Verb) : v.unplaced.termBy shown = v.termBy shown := by
  cases v with
  | named name arguments location =>
    have harguments : (arguments.map Argument.unplaced).map (Argument.termBy shown)
        = arguments.map (Argument.termBy shown) := map_map_eq fun _ _ => rfl
    apply String.toList_inj.mp
    rw [unplaced, toList_termBy_named, toList_termBy_named, harguments]
  | filter pattern location => rfl

/-- By induction over the scopes, they do not show in that of a statement. -/
theorem Statement.termBy_unplaced (s : Statement) : s.unplaced.termBy shown = s.termBy shown := by
  have hverbs (verbs : List Verb) (scope : String) :
      statementTermBy shown (verbs.map Verb.unplaced) scope
        = statementTermBy shown verbs scope := by
    unfold statementTermBy
    rw [map_map_eq fun v _ => v.termBy_unplaced shown]
  induction s using Statement.inductionOn with
  | plain verbs location => rw [unplaced, termBy, termBy, hverbs]
  | nested verbs body opened location ih =>
    rw [unplaced, termBy, termBy, hverbs, Statement.unplacedAll_eq_map, Statement.termsBy_eq_map,
      Statement.termsBy_eq_map, map_map_eq ih]

/-- The term of a node leaves places out. -/
theorem Node.termBy_unplaced (a : Node) : a.unplaced.termBy shown = a.termBy shown := by
  cases a with
  | bare => rfl
  | argument a => rfl
  | verb v => exact v.termBy_unplaced shown
  | statement s => exact s.termBy_unplaced shown
  | query q =>
    show queryTerm _ = queryTerm _
    rw [Query.unplaced, Statement.unplacedAll_eq_map, Statement.termsBy_eq_map,
      Statement.termsBy_eq_map, map_map_eq fun s _ => s.termBy_unplaced shown]

end Unplaced

section Hashes

variable (h : Hashing)

/-- Places do not enter the hash of a verb. -/
theorem Verb.contentHash_unplaced (v : Verb) : v.unplaced.contentHash h = v.contentHash h := by
  cases v with
  | named name arguments location =>
    have harguments : (arguments.map Argument.unplaced).map (Argument.contentHash h)
        = arguments.map (Argument.contentHash h) := map_map_eq fun _ _ => rfl
    rw [unplaced, contentHash, contentHash, harguments]
  | filter pattern location => rfl

/-- By induction over the scopes, they do not enter that of a statement. -/
theorem Statement.contentHash_unplaced (s : Statement) :
    s.unplaced.contentHash h = s.contentHash h := by
  have hverbs (verbs : List Verb) (scope : Int) :
      statementHash h (verbs.map Verb.unplaced) scope = statementHash h verbs scope := by
    unfold statementHash
    rw [map_map_eq fun v _ => v.contentHash_unplaced h]
  induction s using Statement.inductionOn with
  | plain verbs location => rw [unplaced, contentHash, contentHash, hverbs]
  | nested verbs body opened location ih =>
    rw [unplaced, contentHash, contentHash, hverbs, Statement.unplacedAll_eq_map,
      Statement.contentHashes_eq_map, Statement.contentHashes_eq_map, map_map_eq ih]

/-- The hash of a node leaves places out. -/
theorem Node.contentHash_unplaced (a : Node) : a.unplaced.contentHash h = a.contentHash h := by
  cases a with
  | bare => rfl
  | argument a => rfl
  | verb v => exact v.contentHash_unplaced h
  | statement s => exact s.contentHash_unplaced h
  | query q =>
    show q.unplaced.contentHash h = q.contentHash h
    rw [Query.unplaced, Query.contentHash, Query.contentHash, Statement.unplacedAll_eq_map,
      Statement.contentHashes_eq_map, Statement.contentHashes_eq_map,
      map_map_eq fun s _ => s.contentHash_unplaced h]

end Hashes

/-! ### Nodes -/

/-- Nodes agree exactly if they are equal without their places; nodes of different kinds never are.
    -/
theorem Node.agrees_iff (a b : Node) : a.agrees b = true ↔ a.unplaced = b.unplaced := by
  cases a <;> cases b <;>
    simp [agrees, unplaced, Argument.agrees_iff, Verb.agrees_iff, Statement.agrees_iff,
      Query.agrees_iff]

/-- **Agreement, terms and hashes tell the same contents apart.**  Two nodes of whatever kinds agree
    exactly if they are the same without their places, and exactly if their terms are the same: the
    terms that are written, and those for any table of printable characters.  However texts and
    lists are hashed, the hashes of nodes that agree are equal, so a set of two nodes has one member
    exactly if they agree. -/
theorem agrees_iff_term_eq (a b : Node) :
    (a.agrees b = true ↔ a.unplaced = b.unplaced) ∧
    (a.agrees b = true ↔ a.term = b.term) ∧
    (∀ printable : Char → Bool,
      a.agrees b = true ↔ a.termBy (quoteBy printable) = b.termBy (quoteBy printable)) ∧
    (∀ h : Hashing, a.agrees b = true → a.contentHash h = b.contentHash h) ∧
    ∀ h : Hashing, a.countDistinct h b = 1 ↔ a.agrees b = true := by
  have hterms (printable : Char → Bool) :
      a.agrees b = true ↔ a.termBy (quoteBy printable) = b.termBy (quoteBy printable) := by
    rw [a.agrees_iff]
    constructor
    · intro hsame
      rw [← a.termBy_unplaced, hsame, b.termBy_unplaced]
    · exact Node.unplaced_of_termBy_eq (endsItself_quoteBy printable)
  have hhash (h : Hashing) (hagrees : a.agrees b = true) :
      a.contentHash h = b.contentHash h := by
    rw [← a.contentHash_unplaced, (a.agrees_iff b).mp hagrees, b.contentHash_unplaced]
  refine ⟨a.agrees_iff b, ?_, hterms, hhash, fun h => ?_⟩
  · rw [← a.termBy_quote, ← b.termBy_quote, ← quoteBy_isPrintable]
    exact hterms isPrintable
  -- equal hashes are never enough: the members of a set are compared as well
  · unfold Node.countDistinct
    constructor
    · intro hcount
      by_contra hne
      rw [if_neg fun hsame => hne hsame.2] at hcount
      cases hcount
    · intro hagrees
      rw [if_pos ⟨hhash h hagrees, hagrees⟩]

/-- Filters of an apostrophe and a quote at different places, where a text is hashed to its
    length. -/
theorem agrees_iff_term_eq_of_marks :
    let h : Hashing :=
      { text := fun s => s.length
        members := fun hashes => hashes.foldl (fun total hash => 31 * total + hash) 7
        missing := 0 }
    let a : Node := .verb (.filter "'\"" ⟨0, 1, 1⟩)
    let b : Node := .verb (.filter "'\"" ⟨7, 2, 3⟩)
    a.agrees b = true ∧ a.contentHash h = b.contentHash h ∧ a.countDistinct h b = 1 := by
  intro h a b
  obtain ⟨-, -, -, hhash, hcount⟩ := agrees_iff_term_eq a b
  have hagrees : a.agrees b = true := by decide
  exact ⟨hagrees, hhash h hagrees, (hcount h).mpr hagrees⟩

end ScopedQuery
